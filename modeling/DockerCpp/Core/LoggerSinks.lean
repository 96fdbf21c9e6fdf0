/-
  DockerCpp.Core.LoggerSinks — which sinks a message gets to.

  A registration is meant to last until its own path is removed or all sinks are cleared
  (`Books.live`), and a message to go once to each registration of its level or below.
  `removeFileSink` empties `sinks_`: the registrations of all other paths, and the custom
  sinks, go with the one that was meant (`Books.lost`). A message is delivered as it should
  be exactly if its level reaches none of those (`sinks_independent_iff`,
  `removing_a_file_silences_the_others`).
-/

import DockerCpp.Core.Logger
import DockerCpp.Lib.Run

namespace DockerCpp

open Lib

namespace Logger

variable {κ : Type}

/-! ## Calls -/

inductive Call (κ : Type) where
  | addSink (sink : κ) (level : LogLevel)
  | addFileSink (path : String) (level : LogLevel) (o : Opening)
  | removeFileSink (path : String)
  | clearSinks
  | setLevel (level : LogLevel)
  | setPattern (pattern : String)
  | setConsoleSinkEnabled (enabled : Bool)
  | flush
  | write (level : LogLevel) (format : String) (args : List String) (thread : Nat) (now : Int)
  deriving DecidableEq, Repr

/-- `flush` and the six logging functions leave the logger as it is. -/
def apply (l : Logger κ) : Call κ → Logger κ
  | .addSink sink level => l.addSink (.custom sink) level
  | .addFileSink path level o => (l.addFileSink path level o).2
  | .removeFileSink path => l.removeFileSink path
  | .clearSinks => l.clearSinks
  | .setLevel level => { l with level }
  | .setPattern pattern => { l with pattern }
  | .setConsoleSinkEnabled enabled => { l with consoleSinkEnabled := enabled }
  | .flush | .write .. => l

/-- A file that is to be opened can be. -/
def Call.Opens : Call κ → Prop
  | .addFileSink _ _ o => o.directory = none ∧ o.opens = true
  | .addSink .. | .removeFileSink _ | .clearSinks | .setLevel _ | .setPattern _ | .setConsoleSinkEnabled _ | .flush
  | .write .. => True

/-! ## What is meant -/

/-- The registrations that were added and not removed since, and those of them that were there
    when `removeFileSink` was last called. -/
structure Books (κ : Type) where
  live : List (SinkInfo κ) := []
  lost : List (SinkInfo κ) := []

def isFile (path : String) (r : SinkInfo κ) : Bool :=
  match r.sink with
  | .file other => other == path
  | .custom _ => false

/-- What `removeFileSink path` is meant to leave. -/
def others (path : String) (rs : List (SinkInfo κ)) : List (SinkInfo κ) := rs.filter (!isFile path ·)

def Books.note (b : Books κ) : Call κ → Books κ
  | .addSink sink level => { b with live := b.live ++ [⟨.custom sink, level⟩] }
  | .addFileSink path level _ => { b with live := b.live ++ [⟨.file path, level⟩] }
  | .removeFileSink path => ⟨others path b.live, others path b.live⟩
  | .clearSinks => {}
  | .setLevel _ | .setPattern _ | .setConsoleSinkEnabled _ | .flush | .write .. => b

/-- A logger and its books. -/
def step (s : Logger κ × Books κ) (c : Call κ) : Logger κ × Books κ := (s.1.apply c, s.2.note c)

def toSink : Output κ → Bool
  | .console _ => false
  | .custom .. | .file .. => true

variable (p : Platform)

/-- What a registration is to get of a message. -/
def delivery (l : Logger κ) (m : LogMessage) (r : SinkInfo κ) : Output κ :=
  match r.sink with
  | .custom sink => .custom sink m
  | .file path => .file path (formatMessage p l.pattern m)

/-- The registrations in `rs` that a message of `level` is for, each once. -/
def deliveries (l : Logger κ) (rs : List (SinkInfo κ)) (m : LogMessage) : List (Output κ) :=
  (rs.filter (·.level ≤ m.level)).map (delivery p l m)

/-- A message goes to the live registrations, and to no other sink. -/
def Delivers (s : Logger κ × Books κ) : Call κ → Prop
  | .write level format args thread now =>
    (s.1.write p level format args thread now).filter toSink =
      if s.1.isLevelEnabled level then deliveries p s.1 s.2.live ⟨level, formatString format args, s.1.name, thread, now⟩
      else []
  | .addSink .. | .addFileSink .. | .removeFileSink _ | .clearSinks | .setLevel _ | .setPattern _
  | .setConsoleSinkEnabled _ | .flush => True

/-- A message is not for a registration that a `removeFileSink` took along. -/
def MissesLost (s : Logger κ × Books κ) : Call κ → Prop
  | .write level _ _ _ _ => s.1.isLevelEnabled level = true → ∀ r ∈ s.2.lost, ¬ r.level ≤ level
  | .addSink .. | .addFileSink .. | .removeFileSink _ | .clearSinks | .setLevel _ | .setPattern _
  | .setConsoleSinkEnabled _ | .flush => True

/-! ## What is kept -/

/-- `sinks_` are the live registrations that were not lost, and their files are open. -/
structure Kept (s : Logger κ × Books κ) : Prop where
  live : s.2.live = s.2.lost ++ s.1.sinks
  files : ∀ path level, ⟨.file path, level⟩ ∈ s.1.sinks → path ∈ s.1.fileSinks
  opened : ∀ path, path ∈ s.1.fileSinks → s.1.fileSinks[path]? = some true

theorem kept_new (name : String) : Kept (κ := κ) ({ name }, {}) where
  live := rfl
  files := by simp
  opened := by simp

variable {l : Logger κ} {b : Books κ} {s : Logger κ × Books κ}

theorem kept_addSink (h : Kept (l, b)) {sink : LogSink κ}
    (hsink : ∀ path, sink = .file path → path ∈ l.fileSinks) (level : LogLevel) :
    Kept (l.addSink sink level, { b with live := b.live ++ [⟨sink, level⟩] }) where
  live := by
    have hlive : b.live = b.lost ++ l.sinks := h.live
    simp [addSink, hlive]
  files path level' hmem := by
    rcases List.mem_append.mp hmem with hold | hnew
    · exact h.files path level' hold
    · have hr := List.mem_singleton.mp hnew
      exact hsink path (congrArg SinkInfo.sink hr).symm
  opened := h.opened

/-- A stream that is opened is one more. -/
theorem kept_opened (h : Kept (l, b)) (path : String) :
    Kept ({ l with fileSinks := l.fileSinks.insert path true }, b) where
  live := h.live
  files other level hmem := Std.ExtTreeMap.mem_insert.mpr (Or.inr (h.files other level hmem))
  opened other hmem := by
    by_cases hsame : path = other
    · simp [hsame]
    · have hold : other ∈ l.fileSinks := by
        rcases Std.ExtTreeMap.mem_insert.mp hmem with heq | hold
        · exact absurd (Std.LawfulEqCmp.eq_of_compare heq) hsame
        · exact hold
      rw [Std.ExtTreeMap.getElem?_insert, if_neg (by simp [hsame])]
      exact h.opened other hold

theorem kept_addFileSink (h : Kept (l, b)) {o : Opening}
    (ho : o.directory = none ∧ o.opens = true) (path : String) (level : LogLevel) :
    Kept ((l.addFileSink path level o).2, { b with live := b.live ++ [⟨.file path, level⟩] }) := by
  simp only [addFileSink, ho.1, ho.2, if_true]
  split
  · rename_i hthere
    refine kept_addSink h ?_ level
    intro other hother
    cases hother
    exact hthere
  · refine kept_addSink (kept_opened h path) ?_ level
    intro other hother
    cases hother
    exact Std.ExtTreeMap.mem_insert_self

theorem kept_step (h : Kept s) {c : Call κ} (hc : c.Opens) : Kept (step s c) := by
  cases c with
  | addSink sink level =>
    refine kept_addSink h ?_ level
    intro path hpath
    cases hpath
  | addFileSink path level o => exact kept_addFileSink h hc path level
  | removeFileSink path =>
    refine ⟨(List.append_nil _).symm, fun _ _ hmem => absurd hmem List.not_mem_nil, fun other hmem => ?_⟩
    obtain ⟨hne, hold⟩ := Std.ExtTreeMap.mem_erase.mp hmem
    show (s.1.fileSinks.erase path)[other]? = some true
    rw [Std.ExtTreeMap.getElem?_erase, if_neg hne]
    exact h.opened other hold
  | clearSinks =>
    exact ⟨rfl, fun _ _ hmem => absurd hmem List.not_mem_nil, fun _ hmem => absurd hmem Std.ExtTreeMap.not_mem_empty⟩
  | setLevel level => exact ⟨h.live, h.files, h.opened⟩
  | setPattern pattern => exact ⟨h.live, h.files, h.opened⟩
  | setConsoleSinkEnabled enabled => exact ⟨h.live, h.files, h.opened⟩
  | flush => exact h
  | write level format args thread now => exact h

/-! ## What a message does -/

/-- The closures of `sinks_` write what they are meant to. -/
theorem callSink_delivery (h : Kept s) {r : SinkInfo κ} (hr : r ∈ s.1.sinks) (m : LogMessage) :
    s.1.callSink p m r.sink = [delivery p s.1 m r] := by
  rcases r with ⟨sink, level⟩
  cases sink with
  | custom sink => rfl
  | file path => simp [callSink, logToFile, delivery, h.opened path (h.files path level hr)]

theorem toSink_delivery (l : Logger κ) (m : LogMessage) (r : SinkInfo κ) : toSink (delivery p l m r) = true := by
  rcases r with ⟨sink, level⟩
  cases sink with
  | custom sink => rfl
  | file path => rfl

/-- The loop over some of the sinks. -/
theorem loop_deliveries (h : Kept s) (m : LogMessage) {rs : List (SinkInfo κ)} (hrs : ∀ r ∈ rs, r ∈ s.1.sinks) :
    (rs.flatMap fun r => if r.level ≤ m.level then s.1.callSink p m r.sink else []) = deliveries p s.1 rs m := by
  induction rs with
  | nil => rfl
  | cons r rs ih =>
    rw [List.flatMap_cons, ih fun r' hr' => hrs r' (List.mem_cons_of_mem _ hr')]
    by_cases hlevel : r.level ≤ m.level
    · simp [hlevel, deliveries, callSink_delivery p h (hrs r List.mem_cons_self) m]
    · simp [hlevel, deliveries]

theorem filter_deliveries (l : Logger κ) (rs : List (SinkInfo κ)) (m : LogMessage) :
    (deliveries p l rs m).filter toSink = deliveries p l rs m := by
  rw [List.filter_eq_self]
  intro o ho
  obtain ⟨r, -, rfl⟩ := List.mem_map.mp ho
  exact toSink_delivery p l m r

/-- What the sinks get of a message is what the registrations in `sinks_` are to get. -/
theorem write_deliveries (h : Kept s) {level : LogLevel} (hl : s.1.isLevelEnabled level = true)
    (format : String) (args : List String) (thread : Nat) (now : Int) :
    (s.1.write p level format args thread now).filter toSink =
      deliveries p s.1 s.1.sinks ⟨level, formatString format args, s.1.name, thread, now⟩ := by
  rw [write, if_pos hl, log, if_pos hl]
  simp only
  rw [loop_deliveries p h ⟨level, formatString format args, s.1.name, thread, now⟩ fun _ hr => hr, List.filter_append,
    filter_deliveries]
  split
  · rfl
  · rfl

theorem delivers_iff (h : Kept s) (c : Call κ) : Delivers p s c ↔ MissesLost s c := by
  cases c with
  | write level format args thread now =>
    simp only [Delivers, MissesLost]
    by_cases hl : s.1.isLevelEnabled level = true
    · rw [write_deliveries p h hl, if_pos hl, h.live]
      simp [hl, deliveries, List.filter_eq_nil_iff]
    · simp [hl, write]
  | addSink | addFileSink | removeFileSink | clearSinks | setLevel | setPattern | setConsoleSinkEnabled | flush =>
    exact Iff.rfl

theorem delivers_run (h : Kept s) {calls : List (Call κ)} (hopen : ∀ c ∈ calls, c.Opens) :
    EachStep step (Delivers p) s calls ↔ EachStep step MissesLost s calls := by
  induction calls generalizing s with
  | nil => exact Iff.rfl
  | cons c calls ih =>
    refine and_congr (delivers_iff p h c) (ih (kept_step h (hopen c List.mem_cons_self)) ?_)
    exact fun c' hc' => hopen c' (List.mem_cons_of_mem _ hc')

/-- Along any calls on a new logger whose files can be opened, every message goes exactly once
    to each live registration of its level or below, and to no other sink, iff no message
    has a level that reaches a registration which was live at an earlier `removeFileSink`
    and still is. -/
theorem sinks_independent_iff (name : String) (calls : List (Call κ)) (hopen : ∀ c ∈ calls, c.Opens) :
    EachStep step (Delivers p) ({ name }, {}) calls ↔ EachStep step MissesLost ({ name }, {}) calls :=
  delivers_run p (kept_new name) hopen

def plainPlatform : Platform := ⟨fun _ => "1970-01-01 00:00:00", fun _ => "0"⟩

/-- A custom sink, two files, and a message before and after one file is removed. -/
def twoFiles : List (Call Nat) :=
  [.addSink 1 .warning, .addFileSink "a.log" .info {}, .addFileSink "b.log" .error {}, .write .info "up" [] 0 0,
    .removeFileSink "a.log", .write .error "down" [] 0 0]

/-- After `removeFileSink "a.log"`, neither the custom sink nor `b.log` gets the error. -/
theorem removing_a_file_silences_the_others :
    (runFrom step ({ name := "web" }, {}) twoFiles).2.live = [⟨.custom 1, .warning⟩, ⟨.file "b.log", .error⟩] ∧
    (runFrom step ({ name := "web" }, {}) twoFiles).1.error plainPlatform "down" [] 0 0 =
      [.console "[ERROR] web: down"] ∧
    ¬ EachStep step (Delivers plainPlatform) ({ name := "web" }, {}) twoFiles := by
  refine ⟨by decide +kernel, by decide +kernel, fun h => ?_⟩
  -- the last call
  have hdown := h.2.2.2.2.2.1
  revert hdown
  simp only [Delivers]
  decide +kernel

/-- A message for a file that was registered after the removal, and not for the custom sink. -/
def anotherFile : List (Call Nat) :=
  [.addSink 1 .warning, .addFileSink "a.log" .info {}, .removeFileSink "a.log", .addFileSink "c.log" .info {},
    .write .info "up" [] 0 0]

theorem sinks_independent_iff_info :
    (runFrom step ({ name := "web" }, {}) anotherFile).1.info plainPlatform "up" [] 0 0 =
        [.console "[INFO] web: up", .file "c.log" "[INFO] web: up"] ∧
      EachStep step (Delivers plainPlatform) ({ name := "web" }, {}) anotherFile := by
  refine ⟨by decide +kernel, (sinks_independent_iff plainPlatform "web" _ ?_).mpr
    ⟨trivial, trivial, trivial, trivial, fun _ => ?_, trivial⟩⟩
  · intro c hc
    simp only [anotherFile, List.mem_cons, List.not_mem_nil, or_false] at hc
    rcases hc with rfl | rfl | rfl | rfl | rfl
    · trivial
    · exact ⟨rfl, rfl⟩
    · trivial
    · exact ⟨rfl, rfl⟩
    · trivial
  · decide +kernel

end Logger

end DockerCpp
