/-
  DockerCpp.Cgroup.Monitor — `ResourceMonitorImpl` (`resource_monitor.cpp`): metrics on
  request, their history, and alerts.

  `getCurrentMetricsImpl` reads through a temporary cgroup manager, whose destructor runs
  when the function returns. Its name is the path without the mount point, or
  `temp_monitor` if the path is not below it; of the mount point itself `substr` throws.

  `metrics` is what `getMetrics` reads in a directory, `none` if it throws: it only reads, so
  nothing depends on what it is. A map is a function, a set of paths a list in the map's
  iteration order. The callbacks are what they were given. `triggerAlert` takes the mutex its
  caller holds.
-/

import DockerCpp.Cgroup.Manager

namespace DockerCpp.Cgroup

open Lib Lib.Prog DockerCpp.Runtime

structure Alert where
  cgroupPath : String
  alertType : String
  value : Rat
  deriving DecidableEq, Repr

structure ResourceMonitor where
  monitoredCgroups : List String := []
  metricsHistory : String → List ResourceMetrics := fun _ => []
  alertCallbacks : List (List Alert) := []
  cpuThresholds : String → Option Rat := fun _ => none
  memoryThresholds : String → Option Rat := fun _ => none
  ioThresholds : String → Option Nat := fun _ => none
  monitoringMutex : Option Tid := none
  metricsMutex : Option Tid := none
  alertsMutex : Option Tid := none

structure MonitorState where
  monitor : ResourceMonitor := {}
  tree : Tree

/-- `std::out_of_range`, of `substr`. -/
inductive MonitorError where
  | outOfRange
  deriving DecidableEq, Repr

namespace ResourceMonitor

def monitoringMutexOf : Mutex MonitorState :=
  ⟨fun s => s.monitor.monitoringMutex, fun o s => { s with monitor := { s.monitor with monitoringMutex := o } }⟩

def metricsMutexOf : Mutex MonitorState :=
  ⟨fun s => s.monitor.metricsMutex, fun o s => { s with monitor := { s.monitor with metricsMutex := o } }⟩

def alertsMutexOf : Mutex MonitorState :=
  ⟨fun s => s.monitor.alertsMutex, fun o s => { s with monitor := { s.monitor with alertsMutex := o } }⟩

def ignoreErrors (p : Prog MonitorState MonitorError Unit) : Prog MonitorState MonitorError Unit :=
  tryCatch p fun _ => pure ()

/-! ## Metrics -/

/-- `ResourceMetrics{}`. -/
def noMetrics : ResourceMetrics := ⟨0, 0, 0, 0, 0, 0⟩

/-- The name the temporary manager gets. -/
def managerName (cgroupPath : String) : Except MonitorError String :=
  if mountPoint.toList.isPrefixOf cgroupPath.toList then
    if cgroupPath.toList.length < mountPoint.toList.length + 1 then .error .outOfRange
    else .ok (String.ofList (cgroupPath.toList.drop (mountPoint.toList.length + 1)))
  else .ok "temp_monitor"

def temporary (name : String) : CgroupManager := .make { name := name, parentPath := "" }

variable (env : Env) (metrics : Tree → String → Option ResourceMetrics) (k : Locking)

/-- What is read before the temporary manager is destroyed. -/
def readMetrics (cgroupPath name : String) (t : Tree) : ResourceMetrics :=
  if t.exists_ cgroupPath then (metrics t (temporary name).cgroupPath).getD noMetrics else noMetrics

def getCurrentMetricsImpl (cgroupPath : String) : Prog MonitorState MonitorError ResourceMetrics := do
  match managerName cgroupPath with
  | .error e => throw e
  | .ok name =>
    let result ← read fun s => readMetrics metrics cgroupPath name s.tree
    modify fun s => { s with tree := (CgroupManager.destruct env ⟨temporary name, s.tree⟩).2.tree }
    pure result

def getCurrentMetrics (cgroupPath : String) : Prog MonitorState MonitorError ResourceMetrics :=
  getCurrentMetricsImpl env metrics cgroupPath

/-! ## Alerts -/

def totalIo (m : ResourceMetrics) : Nat := (m.ioRbytes + m.ioWbytes) % 2 ^ 64

/-- A path has a threshold and its value is above it. -/
def above {α : Type} [LT α] [DecidableLT α] (threshold : Option α) (value : α) : Bool :=
  match threshold with
  | some limit => limit < value
  | none => false

/-- `hasCpuAlert` and its like: the threshold that is looked up and the value that is
    compared with it. -/
def hasAlert {α : Type} [LT α] [DecidableLT α] (threshold : ResourceMonitor → String → Option α)
    (value : ResourceMetrics → α) (cgroupPath : String) : Prog MonitorState MonitorError Bool :=
  lockGuard k alertsMutexOf do
    match ← read fun s => threshold s.monitor cgroupPath with
    | none => pure false
    | some limit =>
      tryCatch (do
        let m ← getCurrentMetricsImpl env metrics cgroupPath
        pure (above (some limit) (value m))) fun _ => pure false

def hasCpuAlert (cgroupPath : String) : Prog MonitorState MonitorError Bool :=
  hasAlert env metrics k cpuThresholds (·.cpuUsagePercent) cgroupPath

def hasMemoryAlert (cgroupPath : String) : Prog MonitorState MonitorError Bool :=
  hasAlert env metrics k memoryThresholds (·.memoryUsagePercent) cgroupPath

def hasIoAlert (cgroupPath : String) : Prog MonitorState MonitorError Bool :=
  hasAlert env metrics k ioThresholds totalIo cgroupPath

def triggerAlert (cgroupPath alertType : String) (value : Rat) : Prog MonitorState MonitorError Unit :=
  lockGuard k alertsMutexOf (modify fun s => { s with monitor := { s.monitor with
    alertCallbacks := s.monitor.alertCallbacks.map (· ++ [⟨cgroupPath, alertType, value⟩]) } })

/-- One of the three checks of `checkAlerts`. -/
def checkAlert {α : Type} [LT α] [DecidableLT α] (threshold : ResourceMonitor → String → Option α) (value : α)
    (alertType : String) (shown : Rat) (cgroupPath : String) : Prog MonitorState MonitorError Unit :=
  lockGuard k alertsMutexOf do
    let limit ← read fun s => threshold s.monitor cgroupPath
    when (above limit value) (triggerAlert k cgroupPath alertType shown)

/-! ## The monitoring loop -/

def maxHistorySize : Nat := 1000

def storeMetrics (cgroupPath : String) (m : ResourceMetrics) (mon : ResourceMonitor) : ResourceMonitor :=
  let history := mon.metricsHistory cgroupPath ++ [m]
  let kept := if maxHistorySize < history.length then history.tail else history
  { mon with metricsHistory := fun p => if p = cgroupPath then kept else mon.metricsHistory p }

/-- `collectMetrics` for one cgroup. -/
def collectOne (cgroupPath : String) : Prog MonitorState MonitorError Unit :=
  ignoreErrors do
    let m ← getCurrentMetricsImpl env metrics cgroupPath
    lockGuard k metricsMutexOf (modify fun s => { s with monitor := storeMetrics cgroupPath m s.monitor })

def collectMetrics : Prog MonitorState MonitorError Unit :=
  lockGuard k monitoringMutexOf do
    forEach (collectOne env metrics k) (← read fun s => s.monitor.monitoredCgroups)

/-- `checkAlerts` for one cgroup. -/
def checkOne (cgroupPath : String) : Prog MonitorState MonitorError Unit :=
  ignoreErrors do
    let m ← getCurrentMetricsImpl env metrics cgroupPath
    checkAlert k cpuThresholds m.cpuUsagePercent "cpu" m.cpuUsagePercent cgroupPath
    checkAlert k memoryThresholds m.memoryUsagePercent "memory" m.memoryUsagePercent cgroupPath
    checkAlert k ioThresholds (totalIo m) "io" (totalIo m) cgroupPath

def checkAlerts : Prog MonitorState MonitorError Unit :=
  lockGuard k monitoringMutexOf do
    forEach (checkOne env metrics k) (← read fun s => s.monitor.monitoredCgroups)

/-! ## Calls -/

inductive Observation where
  | getCurrentMetrics (cgroupPath : String)
  | hasCpuAlert (cgroupPath : String)
  | hasMemoryAlert (cgroupPath : String)
  | hasIoAlert (cgroupPath : String)
  | collectMetrics
  | checkAlerts
  deriving DecidableEq, Repr

def done {α : Type} (p : Prog MonitorState MonitorError α) : Prog MonitorState MonitorError Unit := do
  let _ ← p
  pure ()

def observe : Observation → Prog MonitorState MonitorError Unit
  | .getCurrentMetrics cgroupPath => done (ResourceMonitor.getCurrentMetrics env metrics cgroupPath)
  | .hasCpuAlert cgroupPath => done (ResourceMonitor.hasCpuAlert env metrics k cgroupPath)
  | .hasMemoryAlert cgroupPath => done (ResourceMonitor.hasMemoryAlert env metrics k cgroupPath)
  | .hasIoAlert cgroupPath => done (ResourceMonitor.hasIoAlert env metrics k cgroupPath)
  | .collectMetrics => ResourceMonitor.collectMetrics env metrics k
  | .checkAlerts => ResourceMonitor.checkAlerts env metrics k

end ResourceMonitor

end DockerCpp.Cgroup
