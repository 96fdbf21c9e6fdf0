/-
  DockerCpp.Runtime.ProcessManager — `ProcessManager` as a container uses it
  (`process_manager.cpp`): creating a process, asking for its status, stopping it, and
  the destructor.

  The parent's side of `createProcess` only: what the child does between `fork` and
  `execve` is the system's (`Os.fork`, `Os.readErrorPipe`). `managed` is the map
  `managed_processes_`, one entry for each pid, in some iteration order. An installed
  exit callback is what it has received so far. A container never starts the monitoring
  thread; `monitoringTick` is one round of its loop.

  The wait of `stopProcess` sleeps 100 ms between two polls until its deadline: after
  `10 * timeout` sleeps the deadline has passed, so the loop is a recursion on the sleeps
  left. `waitForProcess` may wait for ever: it is given a number of polls, after which it
  is still waiting.

  Signals, the clock, status queries and updates are all that the calls about one process
  are made of: what these keep, every call keeps (`Tended`).
-/

import DockerCpp.Lib.Prog
import DockerCpp.Runtime.Os

namespace DockerCpp.Runtime

open Lib Lib.Prog

inductive ProcessStatus where
  | running
  | stopped
  | zombie
  | unknown
  deriving DecidableEq, Repr

structure ProcessInfo where
  pid : Int
  status : ProcessStatus
  exitCode : Int
  startTime : Int
  endTime : Option Int
  commandLine : String
  namespaces : List NamespaceType
  deriving DecidableEq, Repr

structure ProcessManager where
  managed : List ProcessInfo := []
  exitCallback : Option (List ProcessInfo) := none
  deriving DecidableEq, Repr

/-- What a member function of the process manager works on. -/
structure Pm (σ : Type) where
  mgr : ProcessManager
  os : σ

namespace ProcessManager

variable {σ : Type} (os : Os σ)

/-- A call to the system. -/
def sys {α : Type} (f : σ → α × σ) : Prog (Pm σ) Error α :=
  call fun w => ((f w.os).1, { w with os := (f w.os).2 })

def sleepMs (ms : Nat) : Prog (Pm σ) Error Unit := modify fun w => { w with os := os.sleepMs ms w.os }

def lookup (m : ProcessManager) (pid : Int) : Option ProcessInfo := m.managed.find? (·.pid == pid)

/-- `managed_processes_[info.pid] = info`. -/
def put (m : ProcessManager) (info : ProcessInfo) : ProcessManager :=
  { m with managed := m.managed.filter (·.pid != info.pid) ++ [info] }

def update (m : ProcessManager) (pid : Int) (f : ProcessInfo → ProcessInfo) : ProcessManager :=
  { m with managed := m.managed.map fun i => if i.pid == pid then f i else i }

def commandLine (config : ProcessConfig) : String :=
  config.args.foldl (fun line arg => line ++ " " ++ arg) config.executable

def createProcess (config : ProcessConfig) : Prog (Pm σ) Error Int := do
  match ← sys os.pipe with
  | some text => throw (.container .processCreationFailed ("Failed to create error pipe: " ++ text))
  | none =>
    match ← sys (os.fork config) with
    | .error text => throw (.container .processCreationFailed ("Failed to fork process: " ++ text))
    | .ok pid =>
      sleepMs os 10
      match ← sys (os.readErrorPipe pid) with
      | .childError text =>
        let _ ← sys (os.waitpid pid true)
        throw (.container .processCreationFailed ("Failed to execute '" ++ config.executable ++ "': " ++ text))
      | .failed text =>
        let _ ← sys (os.waitpid pid true)
        throw (.container .processCreationFailed ("Failed to read error status from child: " ++ text))
      | .nothing =>
        let now ← sys os.systemNow
        let info : ProcessInfo := ⟨pid, .running, 0, now, none, commandLine config, config.createNamespaces⟩
        modify fun w => { w with mgr := w.mgr.put info }
        pure pid

def determineProcessStatus (pid : Int) : Prog (Pm σ) Error ProcessStatus := do
  if ← sys (os.kill pid 0) then
    let r ← sys (os.waitpid pid false)
    if r.1 = pid then pure .zombie
    else if r.1 = -1 then pure .unknown
    else pure .running
  else pure .unknown

def isProcessRunning (pid : Int) : Prog (Pm σ) Error Bool := do
  let st ← determineProcessStatus os pid
  pure (st == .running)

def getProcessInfo (pid : Int) : Prog (Pm σ) Error ProcessInfo := do
  match ← read fun w => w.mgr.lookup pid with
  | none => throw (.container .processNotFound ("Process " ++ toString pid ++ " not found"))
  | some info => do
    let st ← determineProcessStatus os pid
    pure { info with status := st }

/-- The exit code `updateProcessStatus` reads off a status word. -/
def statusExitCode (old : Int) : WaitStatus → Int
  | .exited code => code
  | .signaled sig => -sig
  | .other => old

/-- The part of `updateProcessStatus` under `processes_mutex_`. -/
def recordStatus (pid : Int) (newStatus : ProcessStatus) : Prog (Pm σ) Error Unit := do
  match ← read fun w => w.mgr.lookup pid with
  | none => pure ()
  | some info =>
    modify fun w => { w with mgr := w.mgr.update pid fun i => { i with status := newStatus } }
    if info.status = .running ∧ newStatus ≠ .running then
      let now ← sys os.systemNow
      modify fun w => { w with mgr := w.mgr.update pid fun i => { i with endTime := some now } }
      let r ← sys (os.waitpid pid false)
      if r.1 = pid then
        modify fun w => { w with mgr := w.mgr.update pid fun i =>
          { i with exitCode := statusExitCode i.exitCode r.2 } }
      modify fun w => { w with mgr := { w.mgr with
        exitCallback := w.mgr.exitCallback.map fun seen => seen ++ (w.mgr.lookup pid).toList } }

/-- The status is sampled before the lock is taken, and stored under it. -/
def updateProcessStatus (pid : Int) : Prog (Pm σ) Error Unit := do
  let newStatus ← determineProcessStatus os pid
  recordStatus os pid newStatus

def getProcessStatus (pid : Int) : Prog (Pm σ) Error ProcessStatus := determineProcessStatus os pid

def monitorProcess (pid : Int) : Prog (Pm σ) Error Unit := updateProcessStatus os pid

def notManaged (pid : Int) : Error :=
  .container .processNotFound ("Process " ++ toString pid ++ " not found in managed processes")

def killProcess (pid sig : Int) : Prog (Pm σ) Error Unit := do
  if (← read fun w => w.mgr.lookup pid).isNone then throw (notManaged pid)
  else if ← sys (os.kill pid sig) then updateProcessStatus os pid
  else throw (.container .processStopFailed ("Failed to send signal to process " ++ toString pid))

/-- The wait for the exit, with `sleeps` sleeps left before the deadline. -/
def stopWait (pid : Int) (start timeout : Nat) (sleeps : Nat) : Prog (Pm σ) Error Bool := do
  if ← isProcessRunning os pid then
    let now ← sys os.steadyNow
    match sleeps with
    | 0 => killProcess os pid sigkill; pure false
    | sleeps + 1 =>
      if timeout * 1000 ≤ now - start then killProcess os pid sigkill; pure false
      else
        sleepMs os 100
        stopWait pid start timeout sleeps
  else
    updateProcessStatus os pid
    pure true

def stopProcess (pid : Int) (timeout : Nat) : Prog (Pm σ) Error Bool := do
  if (← read fun w => w.mgr.lookup pid).isNone then throw (notManaged pid)
  else if !(← isProcessRunning os pid) then pure true
  else if ← sys (os.kill pid sigterm) then do
    let start ← sys os.steadyNow
    stopWait os pid start timeout (10 * timeout)
  else throw (.container .processStopFailed ("Failed to send SIGTERM to process " ++ toString pid))

/-- `waitForProcess`'s loop; it polls at most `polls` times and is then still waiting. -/
def waitLoop (pid : Int) (start : Nat) (timeout : Int) : (polls : Nat) → Prog (Pm σ) Error Bool
  | 0 => fun w => (.blocked, w)
  | polls + 1 => do
    if ← isProcessRunning os pid then
      if 0 < timeout then
        let now ← sys os.steadyNow
        if timeout * 1000 ≤ ((now - start : Nat) : Int) then pure false
        else
          sleepMs os 100
          waitLoop pid start timeout polls
      else
        sleepMs os 100
        waitLoop pid start timeout polls
    else
      updateProcessStatus os pid
      pure true

def waitForProcess (pid timeout : Int) (polls : Nat) : Prog (Pm σ) Error Bool := do
  let start ← sys os.steadyNow
  waitLoop os pid start timeout polls

/-- The entries a round of the monitoring loop erases. -/
def finished (i : ProcessInfo) : Bool := i.status == .stopped || i.status == .zombie

def eraseFinished (m : ProcessManager) : ProcessManager := { m with managed := m.managed.filter (!finished ·) }

/-- One round of `monitoringLoop`. -/
def monitoringTick : Prog (Pm σ) Error Unit := do
  let pids ← read fun w => w.mgr.managed.map (·.pid)
  forEach (updateProcessStatus os) pids
  modify fun w => { w with mgr := w.mgr.eraseFinished }
  sleepMs os 500

/-- `cleanupProcess`. -/
def erase (m : ProcessManager) (pid : Int) : ProcessManager := { m with managed := m.managed.filter (·.pid != pid) }

/-- The destructor's step for one managed process. -/
def destroyProcess (pid : Int) : Prog (Pm σ) Error Unit := do
  if ← isProcessRunning os pid then
    let _ ← sys (os.kill pid sigterm)
    sleepMs os 100
    if ← isProcessRunning os pid then
      let _ ← sys (os.kill pid sigkill)
      pure ()

def destroyAll : List ProcessInfo → Prog (Pm σ) Error Unit
  | [] => pure ()
  | info :: rest => do destroyProcess os info.pid; destroyAll rest

/-- `~ProcessManager`. -/
def destroy : Prog (Pm σ) Error Unit := do
  destroyAll os (← read fun w => w.mgr.managed)
  modify fun w => { w with mgr := { w.mgr with managed := [] } }

/-- The member functions that look at the managed processes, and a round of the monitoring
    thread. -/
inductive Call where
  | isProcessRunning (pid : Int)
  | getProcessStatus (pid : Int)
  | getProcessInfo (pid : Int)
  | monitorProcess (pid : Int)
  | waitForProcess (pid timeout : Int) (polls : Nat)
  | stopProcess (pid : Int) (timeout : Nat)
  | killProcess (pid sig : Int)
  | monitoringTick
  deriving DecidableEq, Repr

def ignoring {α : Type} (p : Prog (Pm σ) Error α) : Prog (Pm σ) Error Unit := do
  let _ ← p
  pure ()

def Call.run : Call → Prog (Pm σ) Error Unit
  | .isProcessRunning pid => ignoring (ProcessManager.isProcessRunning os pid)
  | .getProcessStatus pid => ignoring (ProcessManager.getProcessStatus os pid)
  | .getProcessInfo pid => ignoring (ProcessManager.getProcessInfo os pid)
  | .monitorProcess pid => ProcessManager.monitorProcess os pid
  | .waitForProcess pid timeout polls => ignoring (ProcessManager.waitForProcess os pid timeout polls)
  | .stopProcess pid timeout => ignoring (ProcessManager.stopProcess os pid timeout)
  | .killProcess pid sig => ProcessManager.killProcess os pid sig
  | .monitoringTick => ProcessManager.monitoringTick os

/-! ## What calls keep -/

theorem stable_ignoring {J : Pm σ → Prop} {α : Type} {p : Prog (Pm σ) Error α} (h : Stable J p) : Stable J (ignoring p) :=
  stable_bind h fun _ => stable_pure _

structure Tended (q : Int) (J : Pm σ → Prop) : Prop where
  clock : Stable J (sys os.steadyNow)
  sleep : ∀ ms, Stable J (sleepMs os ms)
  signal : ∀ sig, Stable J (sys (os.kill q sig))
  query : Stable J (determineProcessStatus os q)
  update : Stable J (updateProcessStatus os q)

namespace Tended

variable {os} {q : Int} {J : Pm σ → Prop}

theorem isProcessRunning (h : Tended os q J) : Stable J (isProcessRunning os q) :=
  stable_bind h.query fun _ => stable_pure _

theorem getProcessInfo (h : Tended os q J) : Stable J (getProcessInfo os q) := by
  refine stable_bind (stable_read _) fun r => ?_
  cases r with
  | none => exact stable_throw _
  | some info => exact stable_bind h.query fun _ => stable_pure _

theorem killProcess (h : Tended os q J) (sig : Int) : Stable J (killProcess os q sig) := by
  refine stable_bind (stable_read _) fun _ => stable_ite (stable_throw _) ?_
  exact stable_bind (h.signal sig) fun _ => stable_ite h.update (stable_throw _)

theorem stopWait (h : Tended os q J) (start timeout sleeps : Nat) : Stable J (stopWait os q start timeout sleeps) := by
  have hkill : Stable J (do ProcessManager.killProcess os q sigkill; pure false) :=
    stable_bind (h.killProcess sigkill) fun _ => stable_pure _
  have hdone : Stable J (do updateProcessStatus os q; pure true) := stable_bind h.update fun _ => stable_pure _
  induction sleeps with
  | zero =>
    refine stable_bind h.isProcessRunning fun _ => stable_ite ?_ hdone
    exact stable_bind h.clock fun _ => hkill
  | succ sleeps ih =>
    refine stable_bind h.isProcessRunning fun _ => stable_ite ?_ hdone
    refine stable_bind h.clock fun _ => stable_ite hkill ?_
    exact stable_bind (h.sleep 100) fun _ => ih

theorem stopProcess (h : Tended os q J) (timeout : Nat) : Stable J (stopProcess os q timeout) := by
  refine stable_bind (stable_read _) fun _ => stable_ite (stable_throw _) ?_
  refine stable_bind h.isProcessRunning fun _ => stable_ite (stable_pure _) ?_
  refine stable_bind (h.signal sigterm) fun _ => stable_ite ?_ (stable_throw _)
  exact stable_bind h.clock fun start => h.stopWait start timeout _

theorem waitForProcess (h : Tended os q J) (timeout : Int) (polls : Nat) :
    Stable J (waitForProcess os q timeout polls) := by
  refine stable_bind h.clock fun start => ?_
  induction polls with
  | zero => exact fun _ hs => hs
  | succ polls ih =>
    have hagain : Stable J (do sleepMs os 100; waitLoop os q start timeout polls) :=
      stable_bind (h.sleep 100) fun _ => ih
    refine stable_bind h.isProcessRunning fun _ => stable_ite (stable_ite ?_ hagain) ?_
    · exact stable_bind h.clock fun _ => stable_ite (stable_pure _) hagain
    · exact stable_bind h.update fun _ => stable_pure _

end Tended

/-- A round of the monitoring loop, over whatever entries there are. -/
theorem stable_monitoringTick {os : Os σ} {J : Pm σ → Prop} (h : ∀ q, Tended os q J)
    (herase : ∀ s, J s → J { s with mgr := s.mgr.eraseFinished }) : Stable J (monitoringTick os) := by
  refine stable_bind (stable_read _) fun pids => ?_
  refine stable_bind (stable_forEach (fun q => (h q).update) pids) fun _ => ?_
  exact stable_bind (stable_modify herase) fun _ => (h 0).sleep 500

end ProcessManager

end DockerCpp.Runtime
