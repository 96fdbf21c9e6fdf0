/-
  DockerCpp.Core.LoggerRetry — `addFileSink` called again after the file could not be opened.

  The entry of the path is made before its stream is opened, and stays when `addFileSink`
  throws: `sinks_` is as before, `file_sinks_` is not. A later call finds a stream there and
  does not try to open one; it returns, and `logToFile` drops every message for want of an
  open stream (`a_retried_sink_stays_silent`). The sink of a call that returned is written to
  exactly if the path had no dead stream then (`retried_sink_writes_iff`): that takes
  `removeFileSink` of the path, or `clearSinks`, since the failure.
-/

import DockerCpp.Core.LoggerSinks

namespace DockerCpp

open Lib

namespace Logger

variable {κ : Type}

/-! ## Calls that take something away -/

/-- `sinks_` is emptied. -/
def Call.Unregisters : Call κ → Prop
  | .removeFileSink _ | .clearSinks => True
  | .addSink .. | .addFileSink .. | .setLevel _ | .setPattern _ | .setConsoleSinkEnabled _ | .flush | .write .. => False

/-- The entry of `path` is erased. -/
def Call.Forgets (path : String) : Call κ → Prop
  | .removeFileSink other => other = path
  | .clearSinks => True
  | .addSink .. | .addFileSink .. | .setLevel _ | .setPattern _ | .setConsoleSinkEnabled _ | .flush | .write .. => False

variable {c : Call κ}

theorem Call.Forgets.unregisters {path : String} (h : c.Forgets path) : c.Unregisters := by
  cases c with
  | removeFileSink | clearSinks => trivial
  | addSink | addFileSink | setLevel | setPattern | setConsoleSinkEnabled | flush | write => exact h

variable {l : Logger κ} {path : String} {level : LogLevel} {o : Opening}

/-- All that `addFileSink` can do. -/
theorem addFileSink_cases (l : Logger κ) (path : String) (level : LogLevel) (o : Opening) :
    (∃ text, o.directory = some text ∧ l.addFileSink path level o = (.error text, l)) ∨
    o.directory = none ∧
      (path ∈ l.fileSinks ∧ l.addFileSink path level o = (.ok (), l.addSink (.file path) level) ∨
        path ∉ l.fileSinks ∧ (o.opens = true ∧ l.addFileSink path level o =
            (.ok (), { l with fileSinks := l.fileSinks.insert path true }.addSink (.file path) level) ∨
          o.opens = false ∧ l.addFileSink path level o =
            (.error ("Failed to open log file: " ++ path),
              { l with fileSinks := l.fileSinks.insert path false }))) := by
  unfold addFileSink
  cases hdir : o.directory with
  | some text => exact Or.inl ⟨text, rfl, rfl⟩
  | none =>
    refine Or.inr ⟨rfl, ?_⟩
    by_cases hthere : path ∈ l.fileSinks
    · exact Or.inl ⟨hthere, if_pos hthere⟩
    · refine Or.inr ⟨hthere, ?_⟩
      cases hopens : o.opens with
      | true => exact Or.inl ⟨rfl, if_neg hthere⟩
      | false => exact Or.inr ⟨rfl, if_neg hthere⟩

theorem getElem?_insert_other {files : Std.ExtTreeMap String Bool} {path other : String} {v : Bool}
    (h : files[path]? = some v) (hother : other ∉ files) (w : Bool) : (files.insert other w)[path]? = some v := by
  have hne : other ≠ path := by
    intro heq
    subst heq
    rw [Std.ExtTreeMap.getElem?_eq_none hother] at h
    cases h
  rw [Std.ExtTreeMap.getElem?_insert, if_neg (by simp [hne]), h]

/-- The streams that are there stay as they are, unless the path is forgotten. -/
theorem stream_apply {v : Bool} (h : l.fileSinks[path]? = some v) (hc : ¬c.Forgets path) :
    (l.apply c).fileSinks[path]? = some v := by
  cases c with
  | addSink | setLevel | setPattern | setConsoleSinkEnabled | flush | write => exact h
  | addFileSink other level o =>
    show (l.addFileSink other level o).2.fileSinks[path]? = some v
    rcases addFileSink_cases l other level o with ⟨_, _, heq⟩ | ⟨_, ⟨_, heq⟩ | ⟨hnew, ⟨_, heq⟩ | ⟨_, heq⟩⟩⟩
    · rw [heq]
      exact h
    · rw [heq]
      exact h
    · rw [heq]
      exact getElem?_insert_other h hnew true
    · rw [heq]
      exact getElem?_insert_other h hnew false
  | removeFileSink other =>
    have hne : other ≠ path := hc
    show (l.fileSinks.erase other)[path]? = some v
    rw [Std.ExtTreeMap.getElem?_erase, if_neg (by simp [hne]), h]
  | clearSinks => exact absurd trivial hc

theorem sinks_apply (hc : ¬c.Unregisters) {r : SinkInfo κ} (h : r ∈ l.sinks) : r ∈ (l.apply c).sinks := by
  cases c with
  | addSink => exact List.mem_append_left _ h
  | setLevel | setPattern | setConsoleSinkEnabled | flush | write => exact h
  | addFileSink other level o =>
    show r ∈ (l.addFileSink other level o).2.sinks
    rcases addFileSink_cases l other level o with ⟨_, _, heq⟩ | ⟨_, ⟨_, heq⟩ | ⟨_, ⟨_, heq⟩ | ⟨_, heq⟩⟩⟩
    · rw [heq]
      exact h
    · rw [heq]
      exact List.mem_append_left _ h
    · rw [heq]
      exact List.mem_append_left _ h
    · rw [heq]
      exact h
  | removeFileSink | clearSinks => exact absurd trivial hc

/-! ## A call that returned -/

theorem addFileSink_ok (h : (l.addFileSink path level o).1 = .ok ()) :
    ⟨.file path, level⟩ ∈ (l.addFileSink path level o).2.sinks ∧
      (l.addFileSink path level o).2.fileSinks[path]? = some (l.fileSinks[path]?.getD true) := by
  have hlast : ∀ l' : Logger κ, ⟨.file path, level⟩ ∈ (l'.addSink (.file path) level).sinks := fun l' =>
    List.mem_append_right _ List.mem_cons_self
  rcases addFileSink_cases l path level o with ⟨_, _, heq⟩ | ⟨_, ⟨hthere, heq⟩ | ⟨hnew, ⟨_, heq⟩ | ⟨_, heq⟩⟩⟩
  · rw [heq] at h
    cases h
  · rw [heq]
    refine ⟨hlast l, ?_⟩
    show l.fileSinks[path]? = _
    rw [Std.ExtTreeMap.getElem?_eq_some_getElem hthere]
    rfl
  · rw [heq, Std.ExtTreeMap.getElem?_eq_none hnew]
    exact ⟨hlast _, Std.ExtTreeMap.getElem?_insert_self⟩
  · rw [heq] at h
    cases h

/-! ## What is written -/

variable (p : Platform)

/-- The file gets a message of `level` or above. -/
def Writes (path : String) (level : LogLevel) (l : Logger κ) : Call κ → Prop
  | .write level' format args thread now => l.isLevelEnabled level' = true → level ≤ level' →
    .file path (formatMessage p l.pattern ⟨level', formatString format args, l.name, thread, now⟩) ∈
      l.write p level' format args thread now
  | .addSink .. | .addFileSink .. | .removeFileSink _ | .clearSinks | .setLevel _ | .setPattern _
  | .setConsoleSinkEnabled _ | .flush => True

structure Attached (path : String) (level : LogLevel) (l : Logger κ) : Prop where
  sink : ⟨.file path, level⟩ ∈ l.sinks
  stream : l.fileSinks[path]? = some true

theorem Attached.apply (h : Attached path level l) (hc : ¬c.Unregisters) : Attached path level (l.apply c) :=
  ⟨sinks_apply hc h.sink, stream_apply h.stream fun hforget => hc hforget.unregisters⟩

theorem Attached.writes (h : Attached path level l) (c : Call κ) : Writes p path level l c := by
  cases c with
  | write level' format args thread now =>
    intro henabled hlevel
    rw [write, if_pos henabled, log, if_pos henabled]
    refine List.mem_append_right _ (List.mem_flatMap.mpr ⟨_, h.sink, ?_⟩)
    rw [if_pos hlevel, callSink, logToFile, if_pos h.stream]
    exact List.mem_singleton_self _
  | addSink | addFileSink | removeFileSink | clearSinks | setLevel | setPattern | setConsoleSinkEnabled | flush =>
    trivial

/-- Without an open stream nothing is written. -/
theorem file_notMem_log (h : l.fileSinks[path]? ≠ some true) (level : LogLevel) (message : String) (thread : Nat)
    (now : Int) (line : String) : .file path line ∉ l.log p level message thread now := by
  have hsink : ∀ (m : LogMessage) (sink : LogSink κ), .file path line ∉ l.callSink p m sink := by
    intro m sink hmem
    cases sink with
    | custom sink => simp [callSink] at hmem
    | file other =>
      rw [callSink, logToFile] at hmem
      split at hmem
      · rename_i hopen
        cases List.mem_singleton.mp hmem
        exact h hopen
      · cases hmem
  intro hmem
  rw [log] at hmem
  split at hmem
  · rcases List.mem_append.mp hmem with hconsole | hsinks
    · split at hconsole
      · cases List.mem_singleton.mp hconsole
      · cases hconsole
    · obtain ⟨r, _, hr⟩ := List.mem_flatMap.mp hsinks
      split at hr
      · exact hsink _ _ hr
      · cases hr
  · cases hmem

theorem le_critical (level : LogLevel) : level ≤ .critical := by
  cases level <;> decide

theorem not_writes (h : l.fileSinks[path]? ≠ some true) (level : LogLevel) :
    ¬Writes p path level l (.write .critical "" [] 0 0) := by
  intro hwrites
  have henabled : l.isLevelEnabled .critical = true := decide_eq_true (le_critical l.level)
  have hmem := hwrites henabled (le_critical level)
  rw [write, if_pos henabled] at hmem
  exact file_notMem_log p h _ _ _ _ _ hmem

/-! ## The call after a failure -/

/-- `addFileSink` throws because the file cannot be opened. -/
def OpenFails (l : Logger κ) (path : String) (o : Opening) : Prop :=
  o.directory = none ∧ path ∉ l.fileSinks ∧ o.opens = false

theorem addFileSink_openFails (h : OpenFails l path o) (level : LogLevel) : l.addFileSink path level o =
    (.error ("Failed to open log file: " ++ path), { l with fileSinks := l.fileSinks.insert path false }) := by
  obtain ⟨hdir, hnew, hopens⟩ := h
  rcases addFileSink_cases l path level o with ⟨_, hother, _⟩ | ⟨_, ⟨hthere, _⟩ | ⟨_, ⟨hother, _⟩ | ⟨_, heq⟩⟩⟩
  · rw [hdir] at hother
    cases hother
  · exact absurd hthere hnew
  · rw [hopens] at hother
    cases hother
  · exact heq

theorem attached_iff (h : (l.addFileSink path level o).1 = .ok ()) :
    Attached path level (l.addFileSink path level o).2 ↔ l.fileSinks[path]? ≠ some false := by
  obtain ⟨hsink, hstream⟩ := addFileSink_ok h
  constructor
  · intro hattached hdead
    have hopen := hattached.stream
    rw [hstream, hdead] at hopen
    cases hopen
  · intro hdead
    refine ⟨hsink, ?_⟩
    rw [hstream]
    cases hentry : l.fileSinks[path]? with
    | none => rfl
    | some v =>
      cases v with
      | true => rfl
      | false => exact absurd hentry hdead

/-- The sink is written to until `sinks_` is emptied. -/
theorem writes_iff_attached (hsink : ⟨.file path, level⟩ ∈ l.sinks) :
    (∀ after, (∀ c ∈ after, ¬c.Unregisters) → EachStep apply (Writes p path level) l after) ↔
      Attached path level l := by
  constructor
  · intro h
    refine ⟨hsink, ?_⟩
    by_contra hclosed
    have hlast := h [.write .critical "" [] 0 0] (by
      intro c hc
      rw [List.mem_singleton.mp hc]
      exact id)
    exact not_writes p hclosed level hlast.1
  · intro h after hafter
    exact .mono (fun s c hs hc => hs.apply hc) (fun s c hs _ => hs.writes p c) h
      (eachStep_of_forall (fun c hc _ => hafter c hc) l)

/-- A failure leaves `sinks_` and changes `file_sinks_`. The sink of a later call that returns is written to,
    until `sinks_` is emptied, iff the path has no dead stream then; and it has one if the path was not
    forgotten in between. -/
theorem retried_sink_writes_iff (hfail : OpenFails l path o) (level : LogLevel) (between : List (Call κ))
    {level' : LogLevel} {o' : Opening} :
    let failed := (l.addFileSink path level o).2
    let before := runFrom apply failed between
    (before.addFileSink path level' o').1 = .ok () →
      failed.sinks = l.sinks ∧ failed.fileSinks ≠ l.fileSinks ∧
      ((∀ after, (∀ c ∈ after, ¬c.Unregisters) →
          EachStep apply (Writes p path level') (before.addFileSink path level' o').2 after) ↔
        before.fileSinks[path]? ≠ some false) ∧
      ((∀ c ∈ between, ¬c.Forgets path) → before.fileSinks[path]? = some false) := by
  intro failed before hok
  have hfailed : failed = { l with fileSinks := l.fileSinks.insert path false } :=
    congrArg Prod.snd (addFileSink_openFails hfail level)
  have hdead : failed.fileSinks[path]? = some false := by
    rw [hfailed]
    exact Std.ExtTreeMap.getElem?_insert_self
  refine ⟨by rw [hfailed], ?_, ?_, ?_⟩
  · intro heq
    rw [heq, Std.ExtTreeMap.getElem?_eq_none hfail.2.1] at hdead
    cases hdead
  · rw [writes_iff_attached p (addFileSink_ok hok).1, attached_iff hok]
  · intro hbetween
    exact runFrom_eachStep (I := fun s => s.fileSinks[path]? = some false) (fun s c hs hc => stream_apply hs hc) hdead
      (eachStep_of_forall (fun c hc _ => hbetween c hc) failed)

/-- The second call returns, and the message is only on the console. -/
theorem a_retried_sink_stays_silent :
    let failed := ({ name := "web" } : Logger Nat).addFileSink "a.log" .info { opens := false }
    let retried := failed.2.addFileSink "a.log" .info {}
    failed.1 = .error "Failed to open log file: a.log" ∧ retried.1 = .ok () ∧
      retried.2.info plainPlatform "up" [] 0 0 = [.console "[INFO] web: up"] := by
  decide +kernel

/-- The path is removed before the second call, and the message gets to the file. -/
theorem retried_sink_writes_iff_removed :
    let failed := (({ name := "web" } : Logger Nat).addFileSink "a.log" .info { opens := false }).2
    let retried := (failed.removeFileSink "a.log").addFileSink "a.log" .info {}
    retried.1 = .ok () ∧ Output.file "a.log" "[ERROR] web: down" ∈ retried.2.error plainPlatform "down" [] 0 0 := by
  intro failed retried
  have hok : retried.1 = .ok () := by decide +kernel
  have hfail : OpenFails ({ name := "web" } : Logger Nat) "a.log" { opens := false } := ⟨rfl, by simp, rfl⟩
  obtain ⟨_, _, hwrites, _⟩ := retried_sink_writes_iff plainPlatform hfail .info [.removeFileSink "a.log"] hok
  have hall := hwrites.mpr (by decide +kernel) [.write .error "down" [] 0 0] (by simp [Call.Unregisters])
  have hline : formatMessage plainPlatform retried.2.pattern ⟨.error, "down", retried.2.name, 0, 0⟩ =
      "[ERROR] web: down" := by
    decide +kernel
  exact ⟨hok, hline ▸ hall.1 (by decide +kernel) (by decide)⟩

end Logger

end DockerCpp
