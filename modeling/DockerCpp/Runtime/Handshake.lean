/-
  DockerCpp.Runtime.Handshake — `createProcess` with its child (`process_manager.cpp`): two
  parties and a pipe.

  The child closes the read end, creates the requested namespaces, changes its directory and
  executes the program. A `chdir` or an `execve` that fails writes its `errno` to the pipe; a
  namespace that cannot be created makes `setupNamespaces` exit and writes nothing. The
  write end stays open across `execve`. The parent reads once, without waiting: a message, or
  the end of the file, or nothing yet, and takes the last two for success.

  `twoParty` is the system with the child in it: the moves of the child before the parent's
  read are any list, all other calls are those of any system. `due` is the number of steps
  the child is away from having written. What `createProcess` answers is right exactly if
  the child executes, or fails with an `errno` that is in the pipe in time (`handshake_iff`).
-/

import DockerCpp.Runtime.ContainerLifecycle

namespace DockerCpp.Runtime

open Lib Lib.Prog

/-! ## The child -/

inductive ChildPc where
  | closeRead
  | setup (rest : List NamespaceType)
  | chdir
  | exec
  | report (error : String)
  | closeWrite
  | exit
  | exited
  | executing
  /-- The program that was executed has ended. -/
  | ended
  deriving DecidableEq, Repr

structure Child where
  pc : ChildPc := .closeRead
  /-- The `errno` in the pipe, as `strerror` names it. -/
  written : Option String := none
  writeEnd : Bool := true
  deriving DecidableEq, Repr

/-- The calls of the child that fail. -/
structure Faults where
  unshare : NamespaceType → Bool
  chdir : String → Option String
  execve : String → Option String

/-- The namespaces in the order of `setupNamespaces`. -/
def requested (config : ProcessConfig) : List NamespaceType :=
  [NamespaceType.pid, .uts, .network, .mount, .ipc, .user, .cgroup].filter (· ∈ config.createNamespaces)

namespace Child

variable (f : Faults) (config : ProcessConfig)

def step (c : Child) : Child :=
  match c.pc with
  | .closeRead => { c with pc := .setup (requested config) }
  | .setup (ns :: rest) =>
    if f.unshare ns then { c with pc := .exited, writeEnd := false } else { c with pc := .setup rest }
  | .setup [] => { c with pc := .chdir }
  | .chdir =>
    if config.workingDir = "" then { c with pc := .exec }
    else
      match f.chdir config.workingDir with
      | some error => { c with pc := .report error }
      | none => { c with pc := .exec }
  | .exec =>
    match f.execve config.executable with
    | some error => { c with pc := .report error }
    | none => { c with pc := .executing }
  | .report error => { c with pc := .closeWrite, written := some error }
  | .closeWrite => { c with pc := .exit, writeEnd := false }
  | .exit => { c with pc := .exited }
  | .exited | .executing | .ended => c

inductive Move where
  | step
  | programEnds
  deriving DecidableEq, Repr

def move (c : Child) : Move → Child
  | .step => c.step f config
  | .programEnds => if c.pc = .executing then { c with pc := .ended, writeEnd := false } else c

def run (moves : List Move) (c : Child) : Child := moves.foldl (move f config) c

/-- What a read of the pipe that does not wait gives. -/
inductive Answer where
  | message (error : String)
  | endOfFile
  /-- `EAGAIN`. -/
  | again
  deriving DecidableEq, Repr

def answer (c : Child) : Answer :=
  match c.written with
  | some error => .message error
  | none => if c.writeEnd then .again else .endOfFile

def Answer.pipeRead : Answer → PipeRead
  | .message error => .childError error
  | .endOfFile | .again => .nothing

/-! ## What becomes of the child -/

/-- The program is executed at some time. -/
def Executes : Prop := ∃ moves, (run f config moves {}).pc = .executing

def chdirWorks : Bool := config.workingDir = "" || (f.chdir config.workingDir).isNone

/-- No call of the child fails. -/
def works : Bool :=
  (requested config).all (!f.unshare ·) && chdirWorks f config && (f.execve config.executable).isNone

/-- The child will execute, or has executed, the program. -/
def fate (c : Child) : Bool :=
  match c.pc with
  | .closeRead => works f config
  | .setup rest => rest.all (!f.unshare ·) && chdirWorks f config && (f.execve config.executable).isNone
  | .chdir => chdirWorks f config && (f.execve config.executable).isNone
  | .exec => (f.execve config.executable).isNone
  | .executing | .ended => true
  | .report _ | .closeWrite | .exit | .exited => false

theorem fate_step (c : Child) : fate f config (c.step f config) = fate f config c := by
  rcases c with ⟨pc, written, writeEnd⟩
  cases pc with
  | setup rest =>
    cases rest with
    | nil => simp [step, fate]
    | cons ns rest =>
      by_cases hns : f.unshare ns = true
      · simp [step, fate, hns]
      · simp [step, fate, hns]
  | chdir =>
    by_cases hdir : config.workingDir = ""
    · simp [step, fate, chdirWorks, hdir]
    · cases herror : f.chdir config.workingDir with
      | none => simp [step, fate, chdirWorks, hdir, herror]
      | some error => simp [step, fate, chdirWorks, hdir, herror]
  | exec =>
    cases herror : f.execve config.executable with
    | none => simp [step, fate, herror]
    | some error => simp [step, fate, herror]
  | closeRead => rfl
  | report error => rfl
  | closeWrite => rfl
  | exit => rfl
  | exited => rfl
  | executing => rfl
  | ended => rfl

theorem fate_move (c : Child) (m : Move) : fate f config (c.move f config m) = fate f config c := by
  cases m with
  | step => exact fate_step f config c
  | programEnds =>
    by_cases hpc : c.pc = .executing
    · simp [move, fate, hpc]
    · simp [move, hpc]

theorem fate_run (moves : List Move) (c : Child) : fate f config (run f config moves c) = fate f config c := by
  induction moves generalizing c with
  | nil => rfl
  | cons m moves ih =>
    show fate f config (run f config moves (c.move f config m)) = _
    rw [ih, fate_move]

theorem setup_executes {rest : List NamespaceType} (h : rest.all (!f.unshare ·) = true)
    (hdir : chdirWorks f config = true)
    (hexec : f.execve config.executable = none) (written : Option String) (writeEnd : Bool) :
    ∃ moves, (run f config moves ⟨.setup rest, written, writeEnd⟩).pc = .executing := by
  induction rest with
  | nil =>
    refine ⟨[.step, .step, .step], ?_⟩
    have hchdir : step f config ⟨.chdir, written, writeEnd⟩ = ⟨.exec, written, writeEnd⟩ := by
      unfold chdirWorks at hdir
      by_cases hempty : config.workingDir = ""
      · simp [step, hempty]
      · have hnone : f.chdir config.workingDir = none := by simpa [hempty] using hdir
        simp [step, hempty, hnone]
    show (step f config (step f config ⟨.chdir, written, writeEnd⟩)).pc = _
    rw [hchdir]
    simp [step, hexec]
  | cons ns rest ih =>
    rw [List.all_cons, Bool.and_eq_true, Bool.not_eq_true'] at h
    obtain ⟨moves, hmoves⟩ := ih h.2
    refine ⟨.step :: moves, ?_⟩
    show (run f config moves (step f config ⟨.setup (ns :: rest), written, writeEnd⟩)).pc = _
    simpa [step, h.1] using hmoves

theorem executes_iff : Executes f config ↔ works f config = true := by
  constructor
  · intro h
    obtain ⟨moves, hpc⟩ := h
    have hfate := fate_run f config moves {}
    unfold fate at hfate
    rw [hpc] at hfate
    exact hfate.symm
  · intro h
    unfold works at h
    rw [Bool.and_eq_true, Bool.and_eq_true, Option.isNone_iff_eq_none] at h
    obtain ⟨moves, hmoves⟩ := setup_executes f config h.1.1 h.1.2 h.2 none true
    exact ⟨.step :: moves, hmoves⟩

/-! ## When the child has written -/

def execDue : Option Nat := (f.execve config.executable).map fun _ => 2

def chdirDue : Option Nat :=
  if chdirWorks f config then (execDue f config).map (· + 1) else some 2

def setupDue : List NamespaceType → Option Nat
  | [] => (chdirDue f config).map (· + 1)
  | ns :: rest => if f.unshare ns then none else (setupDue rest).map (· + 1)

/-- The steps of the child until its `errno` is in the pipe, if it ever is. -/
def due (c : Child) : Option Nat :=
  if c.written.isSome then some 0
  else
    match c.pc with
    | .closeRead => (setupDue f config (requested config)).map (· + 1)
    | .setup rest => setupDue f config rest
    | .chdir => chdirDue f config
    | .exec => execDue f config
    | .report _ => some 1
    | .closeWrite | .exit | .exited | .executing | .ended => none

theorem map_pred_succ (o : Option Nat) : (o.map (· + 1)).map (· - 1) = o := by
  cases o with
  | none => rfl
  | some n => simp

theorem written_step (c : Child) (h : c.written.isSome = true) : (c.step f config).written.isSome = true := by
  unfold step
  split <;> (try split) <;> (try split) <;> first | exact h | rfl

theorem due_step (c : Child) : due f config (c.step f config) = (due f config c).map (· - 1) := by
  by_cases hw : c.written.isSome = true
  · unfold due
    rw [if_pos hw, if_pos (written_step f config c hw)]
    rfl
  · rcases c with ⟨pc, written, writeEnd⟩
    obtain rfl : written = none := by simpa using hw
    cases pc with
    | closeRead => simp [step, due, map_pred_succ, -Option.map_map]
    | setup rest =>
      cases rest with
      | nil => simp [step, due, setupDue, map_pred_succ, -Option.map_map]
      | cons ns rest =>
        by_cases hns : f.unshare ns = true
        · simp [step, due, setupDue, hns]
        · simp [step, due, setupDue, hns, map_pred_succ, -Option.map_map]
    | chdir =>
      by_cases hdir : config.workingDir = ""
      · simp [step, due, chdirDue, chdirWorks, hdir, map_pred_succ, -Option.map_map]
      · cases herror : f.chdir config.workingDir with
        | none => simp [step, due, chdirDue, chdirWorks, hdir, herror, map_pred_succ, -Option.map_map]
        | some error => simp [step, due, chdirDue, chdirWorks, hdir, herror]
    | exec =>
      cases herror : f.execve config.executable with
      | none => simp [step, due, execDue, herror]
      | some error => simp [step, due, execDue, herror]
    | report error => rfl
    | closeWrite => rfl
    | exit => rfl
    | exited => rfl
    | executing => rfl
    | ended => rfl

theorem due_programEnds (c : Child) : due f config (c.move f config .programEnds) = due f config c := by
  by_cases hpc : c.pc = .executing
  · simp [move, due, hpc]
  · simp [move, hpc]

/-- The child's own steps among its moves. -/
def steps (moves : List Move) : Nat := moves.count .step

theorem due_run (moves : List Move) (c : Child) :
    due f config (run f config moves c) = (due f config c).map (· - steps moves) := by
  induction moves generalizing c with
  | nil => simp [run, steps]
  | cons m moves ih =>
    show due f config (run f config moves (c.move f config m)) = _
    rw [ih]
    cases m with
    | step =>
      have hcount : steps (.step :: moves) = steps moves + 1 := List.count_cons_self
      show (due f config (c.step f config)).map _ = _
      rw [due_step, Option.map_map, hcount]
      congr 1
      funext n
      simp only [Function.comp]
      omega
    | programEnds =>
      have hcount : steps (.programEnds :: moves) = steps moves := List.count_cons_of_ne (by decide)
      rw [due_programEnds, hcount]

theorem due_eq_zero_iff (c : Child) : due f config c = some 0 ↔ c.written.isSome = true := by
  by_cases hw : c.written.isSome = true
  · simp [due, hw]
  · have hsucc : ∀ o : Option Nat, o.map (· + 1) ≠ some 0 := by
      intro o
      cases o <;> simp
    have hexec : execDue f config ≠ some 0 := by
      unfold execDue
      cases f.execve config.executable <;> simp
    have hchdir : chdirDue f config ≠ some 0 := by
      unfold chdirDue
      split
      · exact hsucc _
      · simp
    have hsetup : ∀ rest, setupDue f config rest ≠ some 0 := by
      intro rest
      cases rest with
      | nil => exact hsucc _
      | cons ns rest =>
        unfold setupDue
        split
        · simp
        · exact hsucc _
    unfold due
    rw [if_neg hw]
    cases c.pc <;> simp_all

/-- The errno is in the pipe exactly when the child has made the steps that were due. -/
theorem written_run_iff (moves : List Move) :
    (run f config moves {}).written.isSome = true ↔ ∃ n, due f config {} = some n ∧ n ≤ steps moves := by
  rw [← due_eq_zero_iff f config, due_run]
  cases due f config {} with
  | none => simp
  | some n => simp [Nat.sub_eq_zero_iff_le]

end Child

/-! ## The two parties -/

/-- A system with the child of the last `fork` in it. -/
structure Party (σ : Type) where
  base : σ
  config : ProcessConfig := {}
  child : Child := {}

namespace Party

variable {σ : Type}

def lift {α : Type} (g : σ → α × σ) (p : Party σ) : α × Party σ := ((g p.base).1, { p with base := (g p.base).2 })

/-- The child makes `moves` while the parent sleeps before its read. -/
def twoParty (base : Os σ) (f : Faults) (moves : List Child.Move) : Os (Party σ) :=
  { base.through lift with
    fork := fun config p => ((base.fork config p.base).1, ⟨(base.fork config p.base).2, config, {}⟩)
    readErrorPipe := fun _ p => (p.child.answer.pipeRead, p)
    sleepMs := fun ms p => { p with base := base.sleepMs ms p.base, child := Child.run f p.config moves p.child } }

/-- A pid is returned and registered as RUNNING for a child that executes the program, or an
    exception is thrown and nothing is registered. -/
def Answered (f : Faults) (config : ProcessConfig) (s : Pm (Party σ)) (r : Res Error Int) (s' : Pm (Party σ)) : Prop :=
  (∃ pid, r = .ok pid ∧ Child.Executes f config ∧ (s'.mgr.lookup pid).map (·.status) = some .running) ∨
    (∃ e, r = .thrown e) ∧ s'.mgr = s.mgr

/-- There is a child. -/
def Forks (base : Os σ) (config : ProcessConfig) (s : σ) : Prop :=
  (base.pipe s).1 = none ∧ ∃ pid, (base.fork config (base.pipe s).2).1 = .ok pid

theorem lookup_put (m : ProcessManager) (info : ProcessInfo) : (m.put info).lookup info.pid = some info := by
  unfold ProcessManager.put ProcessManager.lookup
  have hnone : (m.managed.filter (·.pid != info.pid)).find? (·.pid == info.pid) = none := by
    rw [List.find?_eq_none]
    intro i hi
    simpa using (List.mem_filter.mp hi).2
  rw [List.find?_append, hnone]
  simp

/-- The answer the parent's read gives, once there is a child. -/
theorem createProcess_forked (base : Os σ) (f : Faults) (moves : List Child.Move) (config : ProcessConfig)
    (s : Pm (Party σ)) (h : Forks base config s.os.base) :
    Ends (ProcessManager.createProcess (twoParty base f moves) config) s fun r s' =>
      if (Child.run f config moves {}).written.isSome then (∃ e, r = .thrown e) ∧ s'.mgr = s.mgr
      else ∃ pid, r = .ok pid ∧ (s'.mgr.lookup pid).map (·.status) = some .running := by
  obtain ⟨hpipe, pid, hfork⟩ := h
  have hpipe' : ((twoParty base f moves).pipe s.os).1 = none := hpipe
  have hfork' : ((twoParty base f moves).fork config ((twoParty base f moves).pipe s.os).2).1 = .ok pid := hfork
  simp only [ProcessManager.createProcess, ends_bind, ProcessManager.sys, ends_call, andThen_ok, hpipe', hfork',
    ProcessManager.sleepMs, ends_modify]
  have hread : ∀ p : Party σ, p.config = config → p.child = {} →
      ((twoParty base f moves).readErrorPipe pid ((twoParty base f moves).sleepMs 10 p)).1 =
        (Child.run f config moves {}).answer.pipeRead := by
    intro p hconfig hchild
    show (Child.run f p.config moves p.child).answer.pipeRead = _
    rw [hconfig, hchild]
  rw [hread _ rfl rfl]
  cases hw : (Child.run f config moves {}).written with
  | some error =>
    have hanswer : (Child.run f config moves {}).answer.pipeRead = .childError error := by
      simp [Child.answer, hw, Child.Answer.pipeRead]
    simp only [hanswer, ends_bind, ends_call, andThen_ok, ends_throw, Option.isSome_some, if_true]
    exact ⟨⟨_, rfl⟩, trivial⟩
  | none =>
    have hanswer : (Child.run f config moves {}).answer.pipeRead = .nothing := by
      unfold Child.answer
      rw [hw]
      simp only
      split <;> rfl
    simp only [hanswer, ends_bind, ends_call, andThen_ok, ends_modify, ends_pure, Option.isSome_none,
      Bool.false_eq_true, if_false]
    refine ⟨pid, rfl, ?_⟩
    rw [lookup_put _ ⟨pid, _, _, _, _, _, _⟩]
    rfl

theorem createProcess_not_forked (base : Os σ) (f : Faults) (moves : List Child.Move) (config : ProcessConfig)
    (s : Pm (Party σ)) (h : ¬ Forks base config s.os.base) :
    Ends (ProcessManager.createProcess (twoParty base f moves) config) s fun r s' =>
      (∃ e, r = .thrown e) ∧ s'.mgr = s.mgr := by
  unfold ProcessManager.createProcess
  simp only [ends_bind, ProcessManager.sys, ends_call, andThen_ok]
  cases hpipe : ((twoParty base f moves).pipe s.os).1 with
  | some text => exact ⟨⟨_, rfl⟩, rfl⟩
  | none =>
    simp only [ends_bind, ends_call, andThen_ok]
    cases hfork : ((twoParty base f moves).fork config ((twoParty base f moves).pipe s.os).2).1 with
    | error text => exact ⟨⟨_, rfl⟩, rfl⟩
    | ok pid => exact absurd ⟨hpipe, pid, hfork⟩ h

/-- `createProcess` answers right exactly when no call of the child fails, or its `errno` is
    in the pipe when the parent reads. -/
theorem handshake_iff (base : Os σ) (f : Faults) (moves : List Child.Move) (config : ProcessConfig)
    (s : Pm (Party σ)) :
    Ends (ProcessManager.createProcess (twoParty base f moves) config) s (Answered f config s) ↔
      (Forks base config s.os.base → Child.works f config = true ∨
        ∃ n, Child.due f config {} = some n ∧ n ≤ Child.steps moves) := by
  rw [← Child.written_run_iff, ← Child.executes_iff]
  by_cases hforks : Forks base config s.os.base
  · have hanswer := createProcess_forked base f moves config s hforks
    simp only [hforks, true_imp_iff]
    by_cases hw : (Child.run f config moves {}).written.isSome = true
    · simp only [hw, if_true, or_true, iff_true] at hanswer ⊢
      exact Ends.mono hanswer fun r s' hthrown => Or.inr hthrown
    · simp only [hw, Bool.false_eq_true, if_false, or_false] at hanswer ⊢
      obtain ⟨pid, hr, hstatus⟩ := hanswer
      constructor
      · intro hanswered
        rcases hanswered with ⟨-, -, hexecutes, -⟩ | ⟨⟨e, he⟩, -⟩
        · exact hexecutes
        · rw [hr] at he
          cases he
      · exact fun hexecutes => Or.inl ⟨pid, hr, hexecutes, hstatus⟩
  · simp only [hforks, false_imp_iff, iff_true]
    exact Ends.mono (createProcess_not_forked base f moves config s hforks) fun r s' hthrown => Or.inr hthrown

/-- `echo` in a PID namespace of its own. -/
def echo : ProcessConfig := { executable := "/bin/echo", createNamespaces := [.pid] }

def created (f : Faults) (moves : List Child.Move) : Res Error Int × Pm (Party Container.Procs) :=
  ProcessManager.createProcess (twoParty Container.calmOs f moves) echo ⟨{}, { base := {} }⟩

def noNamespace : Faults := ⟨fun _ => true, fun _ => none, fun _ => none⟩

def noProgram : Faults := ⟨fun _ => false, fun _ => none, fun _ => some "No such file or directory"⟩

/-- A child that could not create its namespace is gone when the parent reads, and one that
    will not find its program has not come so far: both are registered as running. A child
    that is fast enough is not. -/
theorem silence_is_taken_for_success :
    Child.works noNamespace echo = false ∧ Child.works noProgram echo = false ∧
      (created noNamespace [.step, .step]).1 = .ok 100 ∧
      (created noNamespace [.step, .step]).2.os.child = ⟨.exited, none, false⟩ ∧
      ((created noNamespace [.step, .step]).2.mgr.lookup 100).map (·.status) = some .running ∧
      (created noProgram [.step]).1 = .ok 100 ∧
      ((created noProgram [.step]).2.mgr.lookup 100).map (·.status) = some .running ∧
      (created noProgram (List.replicate 6 .step)).1 =
        .thrown (.container .processCreationFailed "Failed to execute '/bin/echo': No such file or directory") := by
  decide +kernel

end Party

end DockerCpp.Runtime
