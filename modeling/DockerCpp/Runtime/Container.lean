/-
  DockerCpp.Runtime.Container — one container (`container.cpp`): its lifecycle
  operations, the state table, and the hooks a transition runs.

  An operation works on a `World`: the container, the system under it, and the part of
  the registry the container's event callback reaches. `k` says how mutexes are taken
  (`Lib.Prog`). Logging leaves no trace here; `emitEvent` only logs, since a container's
  `event_manager_` is null from its constructor on.

  A transition exits the old state, executes the new one's action, stores the new state,
  enters it and calls the event callback, in this order; only `startProcess` can throw on
  the way, before the state is stored. `restart` reads `state_` after its own transition
  has stored RESTARTING.
-/

import DockerCpp.Runtime.ProcessManager

namespace DockerCpp.Runtime

open Lib Lib.Prog

structure NamespaceManager where
  type : NamespaceType
  fd : Int
  deriving DecidableEq, Repr

def NamespaceManager.isValid (n : NamespaceManager) : Bool := 0 ≤ n.fd

/-- The callback a container calls on its transitions: one a client set, which does its
    work outside the runtime, or the one `ContainerRegistry::createContainer` installs. -/
inductive EventCallback where
  | client
  | registry
  deriving DecidableEq, Repr

structure Container where
  id : String
  config : ContainerConfig
  state : ContainerState := .created
  removed : Bool := false
  processManager : Option ProcessManager := none
  mainPid : Int := 0
  exitCode : Int := 0
  exitReason : String := ""
  /-- `cgroup_manager_`, as the configuration it was created with. -/
  cgroupManager : Option CgroupConfig := none
  namespaceManagers : List NamespaceManager := []
  createdAt : Int
  startedAt : Int
  finishedAt : Int
  monitoringActive : Bool := false
  eventCallback : Option EventCallback := none
  mutex : Option Tid := none
  callbackMutex : Option Tid := none
  deriving DecidableEq, Repr

/-- What the registry's callback reaches in the registry. -/
structure Listener where
  globalCallback : Bool := false
  callbackMutex : Option Tid := none
  deriving DecidableEq, Repr

structure World (σ : Type) where
  c : Container
  os : σ
  listener : Listener := {}

structure ContainerInfo where
  id : String
  name : String
  image : String
  state : ContainerState
  createdAt : Int
  startedAt : Int
  finishedAt : Int
  exitCode : Int
  error : String
  deriving DecidableEq, Repr

/-- The fields of `ResourceStats` that `getStats` and `getAggregatedStats` set. -/
structure ResourceStats where
  timestamp : Int := 0
  memoryUsageBytes : Nat := 0
  cpuUsagePercent : Rat := 0
  currentPids : Nat := 0
  networkRxBytes : Nat := 0
  networkTxBytes : Nat := 0
  blkioReadBytes : Nat := 0
  blkioWriteBytes : Nat := 0
  deriving DecidableEq, Repr

/-! ## The state table -/

structure StateTransition where
  source : ContainerState
  target : ContainerState
  allowed : Bool
  condition : Option (Container → Bool)

def always : Option (Container → Bool) := some fun _ => true
def notRemoved : Option (Container → Bool) := some fun c => !c.removed
def hasPid : Option (Container → Bool) := some fun c => 0 < c.mainPid

def getStateTransitionTable : List StateTransition :=
  [⟨.created, .starting, true, notRemoved⟩,
   ⟨.created, .removing, true, always⟩,
   ⟨.created, .error, true, always⟩,
   ⟨.starting, .running, true, hasPid⟩,
   ⟨.starting, .stopping, true, always⟩,
   ⟨.starting, .error, true, always⟩,
   ⟨.starting, .removing, true, always⟩,
   ⟨.running, .paused, true, hasPid⟩,
   ⟨.running, .stopping, true, always⟩,
   ⟨.running, .restarting, true, always⟩,
   ⟨.running, .error, true, always⟩,
   ⟨.running, .removing, true, always⟩,
   ⟨.paused, .running, true, hasPid⟩,
   ⟨.paused, .stopping, true, always⟩,
   ⟨.paused, .removing, true, always⟩,
   ⟨.stopping, .stopped, true, always⟩,
   ⟨.stopping, .dead, true, always⟩,
   ⟨.stopping, .error, true, always⟩,
   ⟨.stopping, .removing, true, always⟩,
   ⟨.stopped, .starting, true, notRemoved⟩,
   ⟨.stopped, .removing, true, always⟩,
   ⟨.stopped, .restarting, true, notRemoved⟩,
   ⟨.restarting, .starting, true, notRemoved⟩,
   ⟨.restarting, .stopping, true, always⟩,
   ⟨.restarting, .error, true, always⟩,
   ⟨.restarting, .removing, true, always⟩,
   ⟨.error, .stopped, true, always⟩,
   ⟨.error, .removing, true, always⟩,
   ⟨.removing, .removed, true, always⟩,
   ⟨.removing, .error, true, always⟩]

def isStateTransitionValid (c : Container) (source target : ContainerState) : Bool :=
  match getStateTransitionTable.find? fun t => t.source == source && t.target == target with
  | some t =>
    match t.condition with
    | some condition => condition c
    | none => t.allowed
  | none => false

def canTransitionTo (c : Container) (newState : ContainerState) : Bool :=
  isStateTransitionValid c c.state newState

namespace Container

variable {σ : Type}

/-! ## Access to the world -/

def sys {α : Type} (f : σ → α × σ) : Prog (World σ) Error α :=
  call fun w => ((f w.os).1, { w with os := (f w.os).2 })

def modifyC (f : Container → Container) : Prog (World σ) Error Unit := modify fun w => { w with c := f w.c }

def readC {α : Type} (f : Container → α) : Prog (World σ) Error α := read fun w => f w.c

def self : Prog (World σ) Error Container := read (·.c)

def mutexOf : Mutex (World σ) := ⟨fun w => w.c.mutex, fun o w => { w with c := { w.c with mutex := o } }⟩

def callbackMutexOf : Mutex (World σ) :=
  ⟨fun w => w.c.callbackMutex, fun o w => { w with c := { w.c with callbackMutex := o } }⟩

def listenerMutexOf : Mutex (World σ) :=
  ⟨fun w => w.listener.callbackMutex, fun o w => { w with listener := { w.listener with callbackMutex := o } }⟩

/-- A call of the process manager `m`, which the container then holds. -/
def onProcessManager {α : Type} (m : ProcessManager) (p : Prog (Pm σ) Error α) : Prog (World σ) Error α :=
  zoom (fun w => ⟨m, w.os⟩)
    (fun pm w => { w with c := { w.c with processManager := some pm.mgr }, os := pm.os }) p

variable (os : Os σ) (k : Locking)

def cgroupCall (config : CgroupConfig) (f : CgroupCall) : Prog (World σ) Error Unit := do
  match ← sys (os.cgroup config f) with
  | some text => throw (.cgroup text)
  | none => pure ()

def ignoreErrors (p : Prog (World σ) Error Unit) : Prog (World σ) Error Unit := tryCatch p fun _ => pure ()

/-! ## Processes -/

/-- `Container::isProcessRunning`: a zombie answers signal 0 too. -/
def isProcessRunning : Prog (World σ) Error Bool := do
  let pid ← readC (·.mainPid)
  if pid ≤ 0 then pure false else sys (os.kill pid 0)

def killMain (sig : Int) : Prog (World σ) Error Unit := do
  let pid ← readC (·.mainPid)
  if 0 < pid then
    let _ ← sys (os.kill pid sig)
    pure ()

def recordExit (c : Container) : WaitStatus → Container
  | .exited code => { c with exitCode := code }
  | .signaled sig => { c with exitCode := 128 + sig, exitReason := "Killed by signal " ++ toString sig }
  | .other => c

def waitForProcessExit (timeout : Nat) : Prog (World σ) Error Unit := do
  let pid ← readC (·.mainPid)
  if 0 < pid then
    let r ← sys (os.waitpid pid false)
    if r.1 = 0 then
      modify fun w => { w with os := os.sleepMs (1000 * timeout) w.os }
      let r' ← sys (os.waitpid pid false)
      if 0 < r'.1 then modifyC fun c => recordExit c r'.2
    else if 0 < r.1 then modifyC fun c => recordExit c r.2

/-- `stop`'s wait: at most `timeout` seconds. The process is asked for once more when they
    are over. -/
def stopWait : Nat → Prog (World σ) Error Unit
  | 0 => do
    let _ ← isProcessRunning os
    pure ()
  | seconds + 1 => do
    if ← isProcessRunning os then
      modify fun w => { w with os := os.sleepMs 1000 w.os }
      stopWait seconds

/-- The process `startProcess` asks for. -/
def processConfig (config : ContainerConfig) : ProcessConfig :=
  { executable := config.command.head?.getD "/bin/sleep"
    args := config.command.tail ++ config.args
    env := config.env
    workingDir := config.workingDir
    createNamespaces := [.pid, .uts, .network, .mount, .ipc]
    hostname := "docker-cpp-container" }

/-- What `startProcess` throws when the new process is already gone; `status` holds
    whatever `waitpid` left there. -/
def exitedEarly : WaitStatus → Error
  | .exited code => .runtime ("Process exited immediately with code " ++ toString code)
  | .signaled sig => .runtime ("Process killed by signal " ++ toString sig)
  | .other => .runtime "Process failed to start"

def recordEarlyExit (c : Container) : WaitStatus → Container
  | .exited code => { c with exitCode := code }
  | _ => c

/-- The destructor of the process manager a container held, if it held one. -/
def destroyManager : Option ProcessManager → Prog (World σ) Error Unit
  | some m => zoom (fun w => ⟨m, w.os⟩) (fun pm w => { w with os := pm.os }) (ProcessManager.destroy os)
  | none => pure ()

/-- The first `try` of `startProcess`: the new process manager replaces the old one,
    whose destructor then runs. -/
def launchProcess : Prog (World σ) Error Unit := do
  let c ← self
  modifyC fun c => { c with processManager := some {} }
  destroyManager os c.processManager
  let pid ← onProcessManager {} (ProcessManager.createProcess os (processConfig c.config))
  if pid ≤ 0 then throw (.runtime "Failed to create process using process manager")
  else do
    modifyC fun c => { c with mainPid := pid }
    match c.cgroupManager with
    | some g => ignoreErrors (cgroupCall os g (.addProcess pid))
    | none => pure ()

def startProcess : Prog (World σ) Error Unit := do
  tryCatch (launchProcess os) fun e => throw (.runtime ("Process start failed: " ++ e.what))
  modify fun w => { w with os := os.sleepMs 100 w.os }
  if ← isProcessRunning os then pure ()
  else do
    let pid ← readC (·.mainPid)
    let r ← sys (os.waitpid pid false)
    modifyC fun c => recordEarlyExit c r.2
    throw (exitedEarly r.2)

/-! ## Namespaces, cgroups and clean-up -/

/-- `std::make_unique<NamespaceManager>(type)`, kept when it is valid. -/
def addNamespace (type : NamespaceType) : Prog (World σ) Error Unit := do
  match ← sys (os.unshare type) with
  | some text => throw (.container .namespaceCreationFailed ("Failed to create namespace: " ++ text))
  | none =>
    let ns : NamespaceManager := ⟨type, 0⟩
    if ns.isValid then modifyC fun c => { c with namespaceManagers := c.namespaceManagers ++ [ns] }

def setupNamespaces : Prog (World σ) Error Unit :=
  ignoreErrors do
    addNamespace os .pid
    addNamespace os .network
    addNamespace os .mount
    addNamespace os .uts
    addNamespace os .ipc
    ignoreErrors (addNamespace os .user)

def generateCgroupName (c : Container) : String := "docker-cpp-" ++ c.id

/-- The limits `setupCgroups` derives; `size_t` products wrap at 64 bits. -/
def cgroupConfig (c : Container) : CgroupConfig :=
  let r := c.config.resources
  let base : CgroupConfig :=
    { name := generateCgroupName c, parentPath := "/docker-cpp", controllers := 0x01 ||| 0x02 ||| 0x08 }
  let cpu := if 0 < r.cpuShares then
      { base with maxUsec := r.cpuQuota, periodUsec := r.cpuPeriod, weight := (r.cpuShares * 1024).floor.toNat }
    else base
  let memory := if 0 < r.memoryLimit then
      { cpu with maxBytes := r.memoryLimit, swapMaxBytes := r.memoryLimit * 2 % 2 ^ 64, oomKillEnable := true }
    else cpu
  if 0 < r.pidsLimit then { memory with pidMax := r.pidsLimit } else memory

/-- Assigning `cgroup_manager_` destroys the manager it held. -/
def setCgroupManager (g : Option CgroupConfig) : Prog (World σ) Error Unit := do
  let old ← readC (·.cgroupManager)
  modifyC fun c => { c with cgroupManager := g }
  if let some o := old then ignoreErrors (cgroupCall os o .destruct)

def setupCgroups : Prog (World σ) Error Unit :=
  ignoreErrors do
    let c ← self
    let g := cgroupConfig c
    let r := c.config.resources
    setCgroupManager os (some g)
    cgroupCall os g .create
    when (0 < r.cpuShares) do
      cgroupCall os g (.setCpuMax g.maxUsec g.periodUsec)
      cgroupCall os g (.setCpuWeight g.weight)
    when (0 < r.memoryLimit) do
      cgroupCall os g (.setMemoryMax g.maxBytes)
      cgroupCall os g (.setMemorySwapMax g.swapMaxBytes)
    when (0 < r.pidsLimit) (cgroupCall os g (.setPidMax g.pidMax))

def cleanupProcessManager : Prog (World σ) Error Unit := do
  match ← readC (·.processManager) with
  | some m => do
    let pid ← readC (·.mainPid)
    ignoreErrors do
      let _ ← onProcessManager m (ProcessManager.stopProcess os pid 5)
      pure ()
    let m' ← readC (·.processManager)
    modifyC fun c => { c with processManager := none }
    destroyManager os m'
  | none => pure ()

def cleanupCgroup : Prog (World σ) Error Unit := do
  match ← readC (·.cgroupManager) with
  | some g => do
    ignoreErrors (cgroupCall os g .destroy)
    setCgroupManager os none
  | none => pure ()

def cleanupResources : Prog (World σ) Error Unit := do
  cleanupProcessManager os
  cleanupCgroup os
  modifyC fun c => { c with namespaceManagers := [] }

/-! ## Transitions -/

def startMonitoring : Prog (World σ) Error Unit := do
  if ← readC (·.monitoringActive) then pure ()
  else modifyC fun c => { c with monitoringActive := true }

def stopMonitoring : Prog (World σ) Error Unit := modifyC fun c => { c with monitoringActive := false }

def stampFinished : Prog (World σ) Error Unit := do
  let now ← sys os.systemNow
  modifyC fun c => { c with finishedAt := now }

def onStateExited : ContainerState → Prog (World σ) Error Unit
  | .running => stopMonitoring
  | _ => pure ()

def onStateEntered : ContainerState → Prog (World σ) Error Unit
  | .created => do
    let now ← sys os.systemNow
    modifyC fun c => { c with createdAt := now }
  | .running => do
    let now ← sys os.systemNow
    modifyC fun c => { c with startedAt := now }
    startMonitoring
  | .stopped => stampFinished os
  | .removed => modifyC fun c => { c with removed := true }
  | .dead => do
    stampFinished os
    modifyC fun c => { c with exitReason := "Container died unexpectedly" }
    stopMonitoring
  | .error => do
    stampFinished os
    stopMonitoring
  | .starting | .paused | .stopping | .removing | .restarting => pure ()

def executeStateTransition : ContainerState → Prog (World σ) Error Unit
  | .starting => do
    setupNamespaces os
    setupCgroups os
    startProcess os
  | .stopping => waitForProcessExit os 10
  | .removing => cleanupResources os
  | .restarting => waitForProcessExit os 5
  | _ => pure ()

def getInfo : Prog (World σ) Error ContainerInfo :=
  lockGuard k mutexOf (readC fun c =>
    ⟨c.id, c.config.name, c.config.image, c.state, c.createdAt, c.startedAt, c.finishedAt, c.exitCode, c.exitReason⟩)

/-- The process part of `getStats`: the information is read and dropped. -/
def probeProcess : Prog (World σ) Error Unit := do
  let c ← self
  match c.processManager with
  | some m => ignoreErrors do
      let _ ← onProcessManager m (ProcessManager.getProcessInfo os c.mainPid)
      pure ()
  | none => pure ()

def getStats : Prog (World σ) Error ResourceStats := do
  let now ← sys os.systemNow
  match ← readC (·.cgroupManager) with
  | none => do
    probeProcess os
    pure { timestamp := now }
  | some g =>
    match ← sys (os.getMetrics g) with
    | .error _ => pure { timestamp := now }
    | .ok m => do
      probeProcess os
      pure { timestamp := now, memoryUsageBytes := m.memoryCurrent, cpuUsagePercent := m.cpuUsagePercent,
             blkioReadBytes := m.ioRbytes, blkioWriteBytes := m.ioWbytes }

/-- `ContainerRegistry::onContainerEvent`. -/
def onContainerEvent (id : String) (old new : ContainerState) : Prog (World σ) Error Unit :=
  lockGuard k listenerMutexOf do
    if ← read fun w => w.listener.globalCallback then
      modify fun w => { w with os := os.notify id old new w.os }

def runCallback (old new : ContainerState) : EventCallback → Prog (World σ) Error Unit
  | .client => do
    let id ← readC (·.id)
    modify fun w => { w with os := os.notify id old new w.os }
  | .registry => do
    let info ← getInfo k
    onContainerEvent os k info.id old new

/-- The end of `transitionState`: the event callback, under `callback_mutex_`. -/
def notifyCallback (old new : ContainerState) : Prog (World σ) Error Unit :=
  lockGuard k callbackMutexOf do
    match ← readC (·.eventCallback) with
    | some cb => ignoreErrors (runCallback os k old new cb)
    | none => pure ()

/-- The middle of `transitionState`: leave the old state, do the new one's action, store
    the new state and enter it. -/
def enterState (old new : ContainerState) : Prog (World σ) Error Unit := do
  onStateExited old
  executeStateTransition os new
  modifyC fun c => { c with state := new }
  onStateEntered os new

def transitionState (newState : ContainerState) : Prog (World σ) Error Unit := do
  let c ← self
  if isStateTransitionValid c c.state newState then
    enterState os c.state newState
    notifyCallback os k c.state newState
  else throw (.invalidState c.id c.state newState)

/-! ## Lifecycle operations -/

/-- `catch (const std::exception&)` of an operation: go to ERROR, then rethrow. -/
def orError (p : Prog (World σ) Error Unit) : Prog (World σ) Error Unit :=
  tryCatch p fun e => do
    transitionState os k .error
    throw e

/-- The check an operation starts with. -/
def guarded (target : ContainerState) (body : Prog (World σ) Error Unit) : Prog (World σ) Error Unit := do
  let c ← self
  if canTransitionTo c target then body else throw (.invalidState c.id c.state target)

def start : Prog (World σ) Error Unit :=
  lockGuard k mutexOf (guarded .starting (orError os k do
    transitionState os k .starting
    if (← readC (·.mainPid)) ≤ 0 then throw (.runtime "Failed to start container process")
    else transitionState os k .running))

def stop (timeout : Int) : Prog (World σ) Error Unit :=
  lockGuard k mutexOf (guarded .stopping (orError os k do
    killMain os sigterm
    transitionState os k .stopping
    let pid ← readC (·.mainPid)
    when (0 < pid) do
      stopWait os timeout.toNat
      let alive ← isProcessRunning os
      when alive do
        killMain os sigkill
        waitForProcessExit os 5
    transitionState os k .stopped))

def pause : Prog (World σ) Error Unit :=
  lockGuard k mutexOf (guarded .paused (transitionState os k .paused))

def resume : Prog (World σ) Error Unit :=
  lockGuard k mutexOf (guarded .running (transitionState os k .running))

/-- An inner operation run with the guard's mutex released. -/
def unlocked (p : Prog (World σ) Error Unit) : Prog (World σ) Error Unit := do
  unlock k mutexOf
  tryCatch p fun e => do
    lock k mutexOf
    throw e
  lock k mutexOf

def restart (timeout : Int) : Prog (World σ) Error Unit :=
  lockGuard k mutexOf (guarded .restarting (orError os k do
    transitionState os k .restarting
    let st ← readC (·.state)
    when (st = .running) (unlocked k (stop os k timeout))
    let st ← readC (·.state)
    when (st = .stopped) (unlocked k (start os k))))

def remove (force : Bool) : Prog (World σ) Error Unit :=
  lockGuard k mutexOf do
    let c ← self
    if c.state = .running ∧ !force then throw (.invalidState c.id c.state .removed)
    else do
      transitionState os k .removing
      orError os k do
        let c ← self
        when (force ∧ c.state = .running) do
          let _ ← sys (os.kill c.mainPid sigkill)
          waitForProcessExit os 5
        cleanupResources os
        transitionState os k .removed
        modifyC fun c => { c with removed := true }

def kill (sig : Int) : Prog (World σ) Error Unit := lockGuard k mutexOf (killMain os sig)

def updateConfig (config : ContainerConfig) : Prog (World σ) Error Unit :=
  lockGuard k mutexOf (modifyC fun c => { c with config := config })

def setEventCallback (cb : EventCallback) : Prog (World σ) Error Unit :=
  lockGuard k callbackMutexOf (modifyC fun c => { c with eventCallback := some cb })

/-- The hexadecimal digits `generateContainerId` and `generateUniqueId` draw. -/
def hexDigits (os : Os σ) : Nat → σ → List Char × σ
  | 0, s => ([], s)
  | n + 1, s =>
    let d := os.uniform 15 s
    let rest := hexDigits os n d.2
    (Nat.digitChar d.1.val :: rest.1, rest.2)

def generateContainerId (s : σ) : String × σ :=
  let r := hexDigits os 64 s
  (String.ofList r.1, r.2)

/-- The constructor. -/
def make (config : ContainerConfig) (s : σ) : Container × σ :=
  let id := if config.id = "" then generateContainerId os s else (config.id, s)
  let now := os.systemNow id.2
  ({ id := id.1, config := { config with id := id.1 }, createdAt := now.1, startedAt := now.1, finishedAt := now.1 },
    now.2)

end Container

end DockerCpp.Runtime
