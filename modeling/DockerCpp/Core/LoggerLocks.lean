/-
  DockerCpp.Core.LoggerLocks — the logger lock by lock.

  Each function of `logger.cpp` is the sequence of its locks of `sinks_mutex_` and
  `file_sinks_mutex_`, its unlocks, and what it does between them; alone, it does what
  `Core.Logger` says (`code_alone`). Any number of threads run them on one logger, in any
  interleaving; custom sinks do nothing but take their message.

  `addFileSink` locks `file_sinks_mutex_` and then, in `addSink`, `sinks_mutex_`.
  `removeFileSink` and `clearSinks` lock them the other way round, and so does a message
  that gets to a file sink, whose closure locks `file_sinks_mutex_` under the loop over
  `sinks_`. So there is a circular wait exactly if one thread may call `addFileSink` and
  another one of these (`no_circular_wait_iff`, `adding_and_logging_deadlock`).
-/

import DockerCpp.Core.LoggerSinks
import DockerCpp.Lib.Nesting

namespace DockerCpp

open Lib

namespace LoggerLocks

inductive Mutex where
  | sinks
  | fileSinks
  deriving DecidableEq, Repr

/-- The logger and what it has written. -/
structure Shared (κ : Type) where
  logger : Logger κ
  written : List (Output κ) := []

abbrev LoggerCode (κ : Type) := Code Mutex Unit (Shared κ)

variable {κ : Type}

def change (f : Logger κ → Logger κ) (next : LoggerCode κ) : LoggerCode κ :=
  .act () (fun s => { s with logger := f s.logger }) fun _ => next

def put (out : Logger κ → List (Output κ)) (next : LoggerCode κ) : LoggerCode κ :=
  .act () (fun s => { s with written := s.written ++ out s.logger }) fun _ => next

def look (next : Logger κ → LoggerCode κ) : LoggerCode κ := .act () id fun s => next s.logger

/-! ## The functions, each followed by `next` -/

def addSink (sink : LogSink κ) (level : LogLevel) (next : LoggerCode κ) : LoggerCode κ :=
  .lock .sinks <|
  change (·.addSink sink level) <|
  .unlock .sinks next

/-- The entry of the path, made if there is none. -/
def openStream (path : String) (o : Opening) (l : Logger κ) : Logger κ :=
  if l.fileSinks.contains path then l else { l with fileSinks := l.fileSinks.insert path o.opens }

/-- `addFileSink` once the directory is there. -/
def addStream (path : String) (level : LogLevel) (o : Opening) (next : LoggerCode κ) : LoggerCode κ :=
  .act () (fun s => { s with logger := openStream path o s.logger }) fun s =>
    if s.logger.fileSinks.contains path || o.opens then addSink (.file path) level <| .unlock .fileSinks next
    else .unlock .fileSinks next

def addFileSink (path : String) (level : LogLevel) (o : Opening) (next : LoggerCode κ) : LoggerCode κ :=
  .lock .fileSinks <|
  match o.directory with
  | some _ => .unlock .fileSinks next
  | none => addStream path level o next

def removeFileSink (path : String) (next : LoggerCode κ) : LoggerCode κ :=
  .lock .sinks <|
  change (fun l => { l with sinks := [] }) <|
  .lock .fileSinks <|
  change (fun l => { l with fileSinks := l.fileSinks.erase path }) <|
  .unlock .fileSinks <|
  .unlock .sinks next

def clearSinks (next : LoggerCode κ) : LoggerCode κ :=
  .lock .sinks <|
  change (fun l => { l with sinks := [] }) <|
  .lock .fileSinks <|
  change (fun l => { l with fileSinks := ∅ }) <|
  .unlock .fileSinks <|
  .unlock .sinks next

def flush (next : LoggerCode κ) : LoggerCode κ :=
  .lock .fileSinks <|
  look fun _ =>
  .unlock .fileSinks next

section

variable (p : Platform)

def logToFile (path : String) (m : LogMessage) (next : LoggerCode κ) : LoggerCode κ :=
  .lock .fileSinks <|
  put (·.logToFile p path m) <|
  .unlock .fileSinks next

def callSink (m : LogMessage) (next : LoggerCode κ) : LogSink κ → LoggerCode κ
  | .custom sink => put (fun _ => [.custom sink m]) next
  | .file path => logToFile p path m next

/-- The loop over `sinks_`, which stand still while `sinks_mutex_` is held. -/
def callSinks (m : LogMessage) (next : LoggerCode κ) : List (SinkInfo κ) → LoggerCode κ
  | [] => next
  | r :: rs => if r.level ≤ m.level then callSink p m (callSinks m next rs) r.sink else callSinks m next rs

def log (level : LogLevel) (message : String) (thread : Nat) (now : Int) (next : LoggerCode κ) : LoggerCode κ :=
  look fun l =>
    if l.isLevelEnabled level then
      let m : LogMessage := ⟨level, message, l.name, thread, now⟩
      put (fun l => if l.consoleSinkEnabled then [.console (formatMessage p l.pattern m)] else []) <|
      .lock .sinks <|
      look fun l =>
      callSinks p m (.unlock .sinks next) l.sinks
    else next

def write (level : LogLevel) (format : String) (args : List String) (thread : Nat) (now : Int) (next : LoggerCode κ) :
    LoggerCode κ :=
  look fun l => if l.isLevelEnabled level then log p level (formatString format args) thread now next else next

def code : Logger.Call κ → LoggerCode κ
  | .addSink sink level => addSink (.custom sink) level .done
  | .addFileSink path level o => addFileSink path level o .done
  | .removeFileSink path => removeFileSink path .done
  | .clearSinks => clearSinks .done
  | .setLevel level => change (fun l => { l with level }) .done
  | .setPattern pattern => change (fun l => { l with pattern }) .done
  | .setConsoleSinkEnabled enabled => change (fun l => { l with consoleSinkEnabled := enabled }) .done
  | .flush => flush .done
  | .write level format args thread now => write p level format args thread now .done

/-! ## A call that is not disturbed -/

/-- What a call writes. -/
def outputs (l : Logger κ) : Logger.Call κ → List (Output κ)
  | .write level format args thread now => l.write p level format args thread now
  | .addSink .. | .addFileSink .. | .removeFileSink _ | .clearSinks | .setLevel _ | .setPattern _
  | .setConsoleSinkEnabled _ | .flush => []

def after (s : Shared κ) (c : Logger.Call κ) : Shared κ := ⟨s.logger.apply c, s.written ++ outputs p s.logger c⟩

theorem callSinks_alone (m : LogMessage) (next : LoggerCode κ) (rs : List (SinkInfo κ)) (s : Shared κ) :
    (callSinks p m next rs).alone [.sinks] s = next.alone [.sinks] { s with
      written := s.written ++ rs.flatMap fun r => if r.level ≤ m.level then s.logger.callSink p m r.sink else [] } := by
  induction rs generalizing s with
  | nil => simp [callSinks]
  | cons r rs ih =>
    rcases r with ⟨sink, level⟩
    by_cases hlevel : level ≤ m.level
    · cases sink with
      | custom sink => simp [callSinks, hlevel, callSink, put, Code.alone, ih, Logger.callSink]
      | file path => simp [callSinks, hlevel, callSink, logToFile, put, Code.alone, ih, Logger.callSink]
    · simp [callSinks, hlevel, ih]

theorem code_alone (c : Logger.Call κ) (s : Shared κ) : (code p c).alone [] s = some (after p s c) := by
  cases c with
  | addSink sink level => simp [code, addSink, change, Code.alone, after, Logger.apply, outputs]
  | addFileSink path level o =>
    rcases o with ⟨directory, opens⟩
    cases directory with
    | some text => simp [code, addFileSink, Code.alone, after, Logger.apply, outputs, Logger.addFileSink]
    | none =>
      by_cases hthere : path ∈ s.logger.fileSinks
      · simp [code, addFileSink, addStream, addSink, change, Code.alone, after, Logger.apply, outputs, Logger.addFileSink,
          openStream, hthere]
      · cases opens with
        | true =>
          simp [code, addFileSink, addStream, addSink, change, Code.alone, after, Logger.apply, outputs,
            Logger.addFileSink, openStream, hthere]
        | false =>
          simp [code, addFileSink, addStream, Code.alone, after, Logger.apply, outputs, Logger.addFileSink, openStream,
            hthere]
  | removeFileSink path =>
    simp [code, removeFileSink, change, Code.alone, after, Logger.apply, outputs, Logger.removeFileSink]
  | clearSinks => simp [code, clearSinks, change, Code.alone, after, Logger.apply, outputs, Logger.clearSinks]
  | setLevel level => simp [code, change, Code.alone, after, Logger.apply, outputs]
  | setPattern pattern => simp [code, change, Code.alone, after, Logger.apply, outputs]
  | setConsoleSinkEnabled enabled => simp [code, change, Code.alone, after, Logger.apply, outputs]
  | flush => simp [code, flush, look, Code.alone, after, Logger.apply, outputs]
  | write level format args thread now =>
    by_cases hlevel : s.logger.isLevelEnabled level = true
    · simp [code, write, log, look, put, Code.alone, hlevel, callSinks_alone, after, Logger.apply, outputs, Logger.write,
        Logger.log]
    · simp [code, write, look, Code.alone, hlevel, after, Logger.apply, outputs, Logger.write]

/-! ## Threads -/

variable {T : Type}

inductive Action (T κ : Type) where
  /-- A thread that has nothing to do calls a function. -/
  | call (t : T) (c : Logger.Call κ)
  | run (t : T)

abbrev State (T κ : Type) := Threads T Mutex Unit (Shared κ)

def step [DecidableEq T] (s : State T κ) : Action T κ → State T κ
  | .call t c => s.start t (code p c)
  | .run t => s.advance t

/-- A new logger; `level` is the level it is constructed with, or has been set to. -/
def fresh (name : String) (level : LogLevel) : State T κ := Threads.idle ⟨{ name, level }, []⟩

/-! ## Who may nest which way

What a thread may call is any relation `may`. -/

section policy

variable (may : T → Logger.Call κ → Prop) (initial : LogLevel)

def Action.Permitted : Action T κ → Prop
  | .call t c => may t c
  | .run _ => True

/-- `t` may call `addFileSink` where the directory is no obstacle. It gets to `addSink` when
    the file can be opened, and else the next time. -/
def FileFirst (t : T) : Prop := ∃ path level o, may t (.addFileSink path level o) ∧ o.directory = none

/-- The logger may come to let messages of the level through. -/
def Enabled (level : LogLevel) : Prop := initial ≤ level ∨ ∃ t lower, may t (.setLevel lower) ∧ lower ≤ level

/-- A file sink for messages of the level may come to be there. -/
def FileSinkFor (level : LogLevel) : Prop :=
  ∃ t path lower o, may t (.addFileSink path lower o) ∧ o.directory = none ∧ lower ≤ level

/-- `t` may call a function that locks `file_sinks_mutex_` under `sinks_mutex_`. -/
def SinksFirst (t : T) : Prop :=
  (∃ path, may t (.removeFileSink path)) ∨ may t .clearSinks ∨
    ∃ level format args thread now, may t (.write level format args thread now) ∧ Enabled may initial level ∧
      FileSinkFor may level

/-- The two ways to nest the two mutexes. -/
def MayNest (t : T) : Mutex → Mutex → Prop
  | .fileSinks, .sinks => FileFirst may t
  | .sinks, .fileSinks => SinksFirst may initial t
  | .sinks, .sinks | .fileSinks, .fileSinks => False

/-- The level and the file sinks are owed to permitted calls. -/
structure Known (s : Shared κ) : Prop where
  level : s.logger.level = initial ∨ ∃ t, may t (.setLevel s.logger.level)
  files : ∀ path level, ⟨.file path, level⟩ ∈ s.logger.sinks →
    ∃ t o, may t (.addFileSink path level o) ∧ o.directory = none

variable {may initial} {level : LogLevel} {s : Shared κ}

theorem Known.enabled (h : Known may initial s)
    (hl : s.logger.isLevelEnabled level = true) : Enabled may initial level := by
  have hle : s.logger.level ≤ level := of_decide_eq_true hl
  rcases h.level with heq | ⟨t, ht⟩
  · exact Or.inl (heq ▸ hle)
  · exact Or.inr ⟨t, _, ht, hle⟩

/-- Everything but the level and the sinks may change. -/
theorem Known.same {s s' : Shared κ} (h : Known may initial s) (hlevel : s'.logger.level = s.logger.level)
    (hsinks : s'.logger.sinks = s.logger.sinks) : Known may initial s' := by
  refine ⟨?_, ?_⟩
  · rw [hlevel]
    exact h.level
  · rw [hsinks]
    exact h.files

theorem Known.emptied {s s' : Shared κ} (h : Known may initial s) (hlevel : s'.logger.level = s.logger.level)
    (hsinks : s'.logger.sinks = []) : Known may initial s' := by
  refine ⟨?_, ?_⟩
  · rw [hlevel]
    exact h.level
  · rw [hsinks]
    exact fun _ _ hmem => absurd hmem List.not_mem_nil

theorem Known.added (h : Known may initial s) {sink : LogSink κ}
    (hsink : ∀ path, sink = .file path → ∃ t o, may t (.addFileSink path level o) ∧ o.directory = none) :
    Known may initial { s with logger := s.logger.addSink sink level } := by
  refine ⟨h.level, fun path level' hmem => ?_⟩
  rcases List.mem_append.mp hmem with hold | hnew
  · exact h.files path level' hold
  · have hr := List.mem_singleton.mp hnew
    rw [(SinkInfo.mk.inj hr).2]
    exact hsink path (SinkInfo.mk.inj hr).1.symm

/-! ### The functions nest as their callers may -/

abbrev Nests (may : T → Logger.Call κ → Prop) (initial : LogLevel) (t : T) : List Mutex → LoggerCode κ → Prop :=
  Code.Nests (MayNest may initial t) (fun _ => True) (Known may initial)

variable {t : T} {held : List Mutex}

theorem nests_act {f : Shared κ → Shared κ} {next : Shared κ → LoggerCode κ}
    (h : ∀ s, Known may initial s → Known may initial (f s) ∧ Nests may initial t held (next s)) :
    Nests may initial t held (.act () f next) :=
  ⟨trivial, h⟩

theorem nests_look {next : Logger κ → LoggerCode κ}
    (h : ∀ s, Known may initial s → Nests may initial t held (next s.logger)) : Nests may initial t held (look next) :=
  nests_act fun s hs => ⟨hs, h s hs⟩

variable {next : LoggerCode κ}

theorem nests_addSink (hheld : ∀ m ∈ held, MayNest may initial t m .sinks) {sink : LogSink κ}
    (hsink : ∀ path, sink = .file path → ∃ t o, may t (.addFileSink path level o) ∧ o.directory = none)
    (hnext : Nests may initial t held next) : Nests may initial t held (addSink sink level next) :=
  ⟨hheld, nests_act fun _ hs => ⟨hs.added hsink, held, rfl, hnext⟩⟩

theorem openStream_known (h : Known may initial s) (path : String) (o : Opening) :
    Known may initial { s with logger := openStream path o s.logger } := by
  refine h.same ?_ ?_
  · unfold openStream
    split <;> rfl
  · unfold openStream
    split <;> rfl

variable {path : String} {o : Opening}

theorem nests_addFileSink (hmay : may t (.addFileSink path level o)) :
    Nests may initial t [] (addFileSink path level o .done) := by
  refine ⟨fun _ => nofun, ?_⟩
  cases hdir : o.directory with
  | some text => exact ⟨[], rfl, rfl⟩
  | none =>
    refine nests_act fun s hs => ⟨openStream_known hs path o, ?_⟩
    split
    · refine nests_addSink ?_ ?_ ⟨[], rfl, rfl⟩
      · intro m hm
        rw [List.mem_singleton.mp hm]
        exact ⟨path, level, o, hmay, hdir⟩
      · intro other hother
        cases hother
        exact ⟨t, o, hmay, hdir⟩
    · exact ⟨[], rfl, rfl⟩

/-- `removeFileSink` and `clearSinks`. -/
theorem nests_emptied (hfirst : SinksFirst may initial t) {f : Logger κ → Logger κ}
    (hf : ∀ l, (f l).level = l.level ∧ (f l).sinks = l.sinks) :
    Nests may initial t [] (.lock .sinks <| change (fun l => { l with sinks := [] }) <| .lock .fileSinks <|
      change f <| .unlock .fileSinks <| .unlock .sinks .done) := by
  refine ⟨fun _ => nofun, nests_act fun s hs => ⟨hs.emptied rfl rfl, ?_⟩⟩
  refine ⟨?_, nests_act fun s hs => ⟨hs.same (hf _).1 (hf _).2, [.sinks], rfl, [], rfl, rfl⟩⟩
  intro m hm
  rw [List.mem_singleton.mp hm]
  exact hfirst

theorem nests_callSinks (m : LogMessage) (hnext : Nests may initial t [.sinks] next) {rs : List (SinkInfo κ)}
    (hrs : ∀ path level, ⟨.file path, level⟩ ∈ rs → level ≤ m.level → SinksFirst may initial t) :
    Nests may initial t [.sinks] (callSinks p m next rs) := by
  induction rs with
  | nil => exact hnext
  | cons r rs ih =>
    have hrest := ih fun path level hmem => hrs path level (List.mem_cons_of_mem _ hmem)
    rcases r with ⟨sink, level⟩
    unfold callSinks
    split
    · rename_i hlevel
      cases sink with
      | custom sink => exact nests_act fun s hs => ⟨hs.same rfl rfl, hrest⟩
      | file path =>
        refine ⟨?_, nests_act fun s hs => ⟨hs.same rfl rfl, [.sinks], rfl, hrest⟩⟩
        intro m' hm'
        rw [List.mem_singleton.mp hm']
        exact hrs path level List.mem_cons_self hlevel
    · exact hrest

theorem nests_write {format : String} {args : List String} {thread : Nat} {now : Int}
    (hmay : may t (.write level format args thread now)) :
    Nests may initial t [] (write p level format args thread now .done) := by
  refine nests_look fun _ _ => ?_
  split
  · refine nests_look fun s hs => ?_
    split
    · rename_i henabled
      refine nests_act fun s' hs' => ⟨hs'.same rfl rfl, fun _ => nofun, nests_look fun s₂ hs₂ => ?_⟩
      have hunlock : Nests may initial t [.sinks] (.unlock .sinks .done : LoggerCode κ) := ⟨[], rfl, rfl⟩
      refine nests_callSinks p _ hunlock fun path lower hmem hle => ?_
      obtain ⟨t', o, hadd, hdir⟩ := hs₂.files path lower hmem
      exact Or.inr (Or.inr ⟨level, format, args, thread, now, hmay, hs.enabled henabled, t', path, lower, o, hadd, hdir,
        hle⟩)
    · rfl
  · rfl

theorem nests_code {c : Logger.Call κ} (hmay : may t c) : Nests may initial t [] (code p c) := by
  cases c with
  | addSink sink level =>
    refine nests_addSink (fun _ hm => absurd hm List.not_mem_nil) ?_ rfl
    intro path hpath
    cases hpath
  | addFileSink path level o => exact nests_addFileSink hmay
  | removeFileSink path => exact nests_emptied (Or.inl ⟨path, hmay⟩) fun _ => ⟨rfl, rfl⟩
  | clearSinks => exact nests_emptied (Or.inr (Or.inl hmay)) fun _ => ⟨rfl, rfl⟩
  | setLevel level => exact nests_act fun s hs => ⟨⟨Or.inr ⟨t, hmay⟩, hs.files⟩, rfl⟩
  | setPattern pattern => exact nests_act fun s hs => ⟨hs.same rfl rfl, rfl⟩
  | setConsoleSinkEnabled enabled => exact nests_act fun s hs => ⟨hs.same rfl rfl, rfl⟩
  | flush => exact ⟨fun _ => nofun, nests_act fun s hs => ⟨hs, [], rfl, rfl⟩⟩
  | write level format args thread now => exact nests_write p hmay

abbrev Nested (may : T → Logger.Call κ → Prop) (initial : LogLevel) (s : State T κ) : Prop :=
  ∃ held, Threads.Nested (MayNest may initial) (fun _ => True) (Known may initial) s held

theorem fresh_nested (name : String) : Nested may initial (fresh name initial) :=
  ⟨fun _ => [], ⟨Or.inl rfl, fun _ _ hmem => absurd hmem List.not_mem_nil⟩, by simp [fresh, Threads.idle],
    fun _ => List.nodup_nil, fun _ => rfl⟩

theorem two_mutexes (m m' m'' : Mutex) (h : m ≠ m') (h' : m' ≠ m'') : m = m'' := by
  cases m <;> cases m' <;> cases m'' <;> simp_all

variable {s : State T κ}

/-- Of two threads that wait for each other, one nests the mutexes the one way and the other
    the other way. -/
theorem nested_circular (h : Nested may initial s) (hc : s.Circular) :
    ∃ t u, t ≠ u ∧ FileFirst may t ∧ SinksFirst may initial u := by
  obtain ⟨held, h⟩ := h
  obtain ⟨t, u, hne, ⟨m, next, hct, hm⟩, m', next', hcu, hm'⟩ := Threads.pair_of_circular two_mutexes hc
  have htm := h.along hct hm'
  have hum := h.along hcu hm
  cases m with
  | sinks =>
    cases m' with
    | sinks => exact htm.elim
    | fileSinks => exact ⟨t, u, hne, htm, hum⟩
  | fileSinks =>
    cases m' with
    | sinks => exact ⟨u, t, hne.symm, hum, htm⟩
    | fileSinks => exact htm.elim

variable [DecidableEq T]

theorem step_nested (h : Nested may initial s) {a : Action T κ} (ha : a.Permitted may) :
    Nested may initial (step p s a) := by
  obtain ⟨held, h⟩ := h
  cases a with
  | call t c => exact Threads.start_nested h (nests_code p ha)
  | run t => exact Threads.advance_nested h t

/-! ## The way into a circular wait -/

/-- The states that permitted calls lead to. -/
abbrev Reach (p : Platform) (may : T → Logger.Call κ → Prop) (name : String) (initial : LogLevel) : State T κ → Prop :=
  Reachable (step p) (Action.Permitted may) (fresh name initial)

variable {p} {name : String}

theorem reach_closed : Threads.Closed (Reach p may name initial) fun _ => False := fun _ t hs _ =>
  hs.next (c := .run t) trivial

theorem reach_nested (h : Reach p may name initial s) : Nested may initial s :=
  h.invariant (I := Nested may initial) (fun _ _ hs ha => step_nested p hs ha) (fresh_nested name)

section

variable {d : Shared κ} {owner : Mutex → Option T} {code : T → LoggerCode κ} {u : T} {next : LoggerCode κ}

theorem reach_act {l : Unit} {f : Shared κ → Shared κ} {next : Shared κ → LoggerCode κ}
    (h : Reach p may name initial ⟨d, owner, Function.update code u (.act l f next)⟩) :
    Reach p may name initial ⟨f d, owner, Function.update code u (next d)⟩ :=
  reach_closed.act not_false h

theorem reach_look {next : Logger κ → LoggerCode κ}
    (h : Reach p may name initial ⟨d, owner, Function.update code u (look next)⟩) :
    Reach p may name initial ⟨d, owner, Function.update code u (next d.logger)⟩ := reach_act h

theorem reach_call (h : Reach p may name initial ⟨d, owner, code⟩) (hdone : code u = .done) {c : Logger.Call κ}
    (hc : may u c) : Reach p may name initial ⟨d, owner, Function.update code u (LoggerLocks.code p c)⟩ := by
  have hstep : step p ⟨d, owner, code⟩ (.call u c) = ⟨d, owner, Function.update code u (LoggerLocks.code p c)⟩ := by
    simp [step, Threads.start, hdone]
  rw [← hstep]
  exact h.next hc

theorem reach_runs {s : State T κ} (h : Reach p may name initial s) (t : T) (n : Nat) :
    Reach p may name initial (runFrom Threads.advance s (List.replicate n t)) := by
  induction n generalizing s with
  | zero => exact h
  | succ n ih => exact ih (reach_closed s t h fun _ _ => not_false)

/-- A permitted call from its beginning to its end. -/
theorem reach_alone (h : Reach p may name initial (Threads.idle d)) {c : Logger.Call κ} (hc : may u c) :
    Reach p may name initial (Threads.idle (after p d c)) := by
  have hcalled := reach_call h rfl hc
  obtain ⟨n, hdata, hend⟩ := Threads.alone_run u (LoggerLocks.code p c) []
    (s := ⟨d, fun _ => none, Function.update (fun _ => .done) u (LoggerLocks.code p c)⟩) (by simp)
    ⟨List.nodup_nil, fun _ => rfl⟩ (code_alone p c d)
  have hreach := reach_runs hcalled u n
  obtain ⟨held, hnested⟩ := reach_nested hreach
  have hdone : ∀ t, (runFrom Threads.advance ⟨d, fun _ => none, Function.update (fun _ => .done) u (LoggerLocks.code p c)⟩
      (List.replicate n u)).code t = .done := by
    intro t
    by_cases ht : t = u
    · rw [ht]
      exact hend
    · rw [Threads.code_runs n ht]
      simp [ht]
  rw [← hdata, ← Threads.eq_idle hdone (hnested.all_free hdone)]
  exact hreach

/-- `u` holds `sinks_mutex_` and comes to lock the other one; `t` calls `addFileSink` with a
    path that has a stream. -/
theorem reach_crossed (h : Reach p may name initial ⟨d, Function.update (fun _ => none) .sinks (some u),
      Function.update (fun _ => .done) u (.lock .fileSinks next)⟩)
    {t : T} (hne : t ≠ u) {path : String} {level : LogLevel} {o : Opening} (hmay : may t (.addFileSink path level o))
    (hdir : o.directory = none) (hpath : path ∈ d.logger.fileSinks) :
    ∃ s : State T κ, Reach p may name initial s ∧ s.Circular := by
  have hcalled := reach_call h (Function.update_of_ne hne ..) hmay
  have hlocked := reach_closed.lock (m := .fileSinks) rfl hcalled
  rw [hdir] at hlocked
  have hadding := reach_act hlocked
  refine ⟨_, hadding, Threads.circular_of_pair hne ⟨.sinks, ?_⟩ ⟨.fileSinks, next, ?_⟩⟩
  · simp [addSink, hpath]
  · simp [hne.symm]

/-- A loop over sinks with a file sink for the message comes to lock `file_sinks_mutex_`. -/
theorem reach_callSinks {m : LogMessage} {rs : List (SinkInfo κ)}
    (h : Reach p may name initial ⟨d, owner, Function.update code u (callSinks p m next rs)⟩)
    (hr : ∃ path level, ⟨.file path, level⟩ ∈ rs ∧ level ≤ m.level) :
    ∃ next' d', Reach p may name initial ⟨d', owner, Function.update code u (.lock .fileSinks next')⟩ ∧
      d'.logger = d.logger := by
  induction rs generalizing d with
  | nil =>
    obtain ⟨path, level, hmem, -⟩ := hr
    cases hmem
  | cons r rs ih =>
    obtain ⟨path, level, hmem, hle⟩ := hr
    rcases r with ⟨sink, level'⟩
    unfold callSinks at h
    split at h
    · cases sink with
      | file path' => exact ⟨_, d, h, rfl⟩
      | custom sink =>
        rcases List.mem_cons.mp hmem with heq | hrest
        · cases heq
        · obtain ⟨next', d', hreach, hsame⟩ := ih (reach_act h) ⟨path, level, hrest, hle⟩
          exact ⟨next', d', hreach, hsame⟩
    · rename_i hnot
      rcases List.mem_cons.mp hmem with heq | hrest
      · rw [(SinkInfo.mk.inj heq).2] at hle
        exact absurd hle hnot
      · exact ih h ⟨path, level, hrest, hle⟩

theorem reach_write {level : LogLevel} {format : String} {args : List String} {thread : Nat} {now : Int}
    (h : Reach p may name initial ⟨d, fun _ => none, Function.update code u (write p level format args thread now .done)⟩)
    (henabled : d.logger.isLevelEnabled level = true)
    (hr : ∃ path lower, ⟨.file path, lower⟩ ∈ d.logger.sinks ∧ lower ≤ level) :
    ∃ next' d', Reach p may name initial ⟨d', Function.update (fun _ => none) .sinks (some u),
      Function.update code u (.lock .fileSinks next')⟩ ∧ d'.logger = d.logger := by
  have hlog := reach_look h
  rw [if_pos henabled] at hlog
  have hput := reach_look hlog
  rw [if_pos henabled] at hput
  have hloop := reach_look (reach_closed.lock rfl (reach_act hput))
  obtain ⟨next', d', hlocking, hsame⟩ := reach_callSinks hloop hr
  exact ⟨next', d', hlocking, hsame⟩

end

/-! ### The calls before -/

/-- A stream is there after one call. -/
theorem mem_addFileSink {l : Logger κ} (hdir : o.directory = none) :
    path ∈ (l.addFileSink path level o).2.fileSinks := by
  by_cases hthere : path ∈ l.fileSinks
  · simp [Logger.addFileSink, hdir, hthere, Logger.addSink]
  · by_cases hopens : o.opens = true
    · simp [Logger.addFileSink, hdir, hthere, hopens, Logger.addSink]
    · simp [Logger.addFileSink, hdir, hthere, hopens]

/-- And a sink after the next. -/
theorem sink_addFileSink {l : Logger κ} (hdir : o.directory = none)
    (hpath : path ∈ l.fileSinks) : ⟨.file path, level⟩ ∈ (l.addFileSink path level o).2.sinks := by
  simp [Logger.addFileSink, hdir, hpath, Logger.addSink]

theorem addFileSink_keeps (l : Logger κ) (path : String) (level : LogLevel) (o : Opening) :
    (l.addFileSink path level o).2.level = l.level ∧ ∀ r ∈ l.sinks, r ∈ (l.addFileSink path level o).2.sinks := by
  unfold Logger.addFileSink
  split
  · exact ⟨rfl, fun _ hr => hr⟩
  · split
    · exact ⟨rfl, fun _ hr => List.mem_append_left _ hr⟩
    · split
      · exact ⟨rfl, fun _ hr => List.mem_append_left _ hr⟩
      · exact ⟨rfl, fun _ hr => hr⟩

/-- From the beginning, a level is let through that can be. -/
theorem reach_enabled (h : Enabled may initial level) :
    ∃ d : Shared κ, Reach p may name initial (Threads.idle d) ∧ d.logger.isLevelEnabled level = true := by
  rcases h with hle | ⟨t, lower, hmay, hle⟩
  · exact ⟨_, Reachable.refl, decide_eq_true hle⟩
  · exact ⟨_, reach_alone Reachable.refl hmay, decide_eq_true hle⟩

variable (p name) in
theorem reach_circular {t u : T} (hne : t ≠ u) (ht : FileFirst may t) (hu : SinksFirst may initial u) :
    ∃ s : State T κ, Reach p may name initial s ∧ s.Circular := by
  have hfresh : Reach p may name initial (fresh name initial) := Reachable.refl
  obtain ⟨path, level, o, hmay, hdir⟩ := ht
  rcases hu with ⟨other, hremove⟩ | hclear | ⟨wanted, format, args, thread, now, hwrite, henabled, hsink⟩
  · have hadded := reach_alone hfresh hmay
    have hremoving := reach_act (reach_closed.lock rfl (reach_call hadded rfl hremove))
    exact reach_crossed hremoving hne hmay hdir (mem_addFileSink hdir)
  · have hadded := reach_alone hfresh hmay
    have hclearing := reach_act (reach_closed.lock rfl (reach_call hadded rfl hclear))
    exact reach_crossed hclearing hne hmay hdir (mem_addFileSink hdir)
  · obtain ⟨t', path', lower, o', hmay', hdir', hle⟩ := hsink
    -- the level, then the file sink of the message, then a stream for `t`
    obtain ⟨d, hd, hlevel⟩ : ∃ d : Shared κ, Reach p may name initial (Threads.idle d) ∧
        d.logger.isLevelEnabled wanted = true := reach_enabled henabled
    have hadded := reach_alone (reach_alone (reach_alone hd hmay') hmay') hmay
    have hsink : ⟨.file path', lower⟩ ∈
        (after p (after p (after p d (.addFileSink path' lower o')) (.addFileSink path' lower o'))
          (.addFileSink path level o)).logger.sinks :=
      (addFileSink_keeps ..).2 _ (sink_addFileSink hdir' (mem_addFileSink hdir'))
    have henabled : (after p (after p (after p d (.addFileSink path' lower o')) (.addFileSink path' lower o'))
        (.addFileSink path level o)).logger.isLevelEnabled wanted = true := by
      simpa [Logger.isLevelEnabled, after, Logger.apply, addFileSink_keeps] using hlevel
    obtain ⟨next', d', hlogging, hsame⟩ := reach_write (reach_call hadded rfl hwrite) henabled ⟨path', lower, hsink, hle⟩
    refine reach_crossed hlogging hne hmay hdir ?_
    rw [hsame]
    exact mem_addFileSink hdir

end policy

/-- Whatever each thread may call, no interleaving comes to a set of threads each waiting for a
    mutex that another of them owns, iff no thread may call `addFileSink` while another one
    may call `removeFileSink`, `clearSinks`, or log a message that can get to a file sink. -/
theorem no_circular_wait_iff [DecidableEq T] (may : T → Logger.Call κ → Prop) (name : String) (initial : LogLevel) :
    (∀ actions, (∀ a ∈ actions, Action.Permitted may a) →
      Throughout (step p) (fun s : State T κ => ¬ s.Circular) (fresh name initial) actions) ↔
    ¬ ∃ t u, t ≠ u ∧ FileFirst may t ∧ SinksFirst may initial u := by
  rw [throughout_iff_reachable]
  constructor
  · intro hnever hpair
    obtain ⟨t, u, hne, ht, hu⟩ := hpair
    obtain ⟨s, hs, hcircular⟩ := reach_circular p name hne ht hu
    exact hnever s hs hcircular
  · intro hnone s hs hcircular
    exact hnone (nested_circular (reach_nested hs) hcircular)

end

/-- Thread 0 has added a file. While thread 1 logs an error, it adds another one. -/
def addingAndLogging : List (Action Nat Unit) :=
  [.call 0 (.addFileSink "a.log" .info {})] ++ List.replicate 6 (.run 0) ++
  [.call 1 (.write .error "down" [] 1 0)] ++ List.replicate 5 (.run 1) ++
  [.call 0 (.addFileSink "b.log" .info {}), .run 0, .run 0]

/-- Thread 0 owns `file_sinks_mutex_` and waits for `sinks_mutex_`, and thread 1 the other way
    round. -/
theorem adding_and_logging_deadlock :
    (runFrom (step Logger.plainPlatform) (fresh "web" .info) addingAndLogging).Circular := by
  refine Threads.circular_of_pair (t := 0) (u := 1) (by decide) ?_ ?_
  · exact Threads.waits_of_wants (m := .sinks) (by decide +kernel) (by decide +kernel)
  · exact Threads.waits_of_wants (m := .fileSinks) (by decide +kernel) (by decide +kernel)

end LoggerLocks

end DockerCpp
