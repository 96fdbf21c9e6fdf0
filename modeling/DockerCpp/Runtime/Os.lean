/-
  DockerCpp.Runtime.Os — the data of the container runtime and the operating system
  under it (`container_config.hpp`, `process_manager.hpp`, `cgroup_manager.hpp`,
  `core/error.hpp`).

  `Os σ` is every call the runtime makes to the system, on a system state `σ` nothing is
  assumed about: each call may answer anything and change `σ` in any way, so a theorem
  over all `Os σ` holds whatever the outcomes of the calls are. A cgroup operation is one
  call that succeeds or throws (`cgroup`). `notify` is what a client's event callback
  does outside the runtime.

  Left out of `ContainerConfig`: the fields no modelled function reads.
-/

import DockerCpp.Core.Value
import Mathlib.Data.Rat.Floor

namespace DockerCpp.Runtime

inductive ContainerState where
  | created
  | starting
  | running
  | paused
  | stopping
  | stopped
  | removing
  | removed
  | dead
  | restarting
  | error
  deriving DecidableEq, Repr

def containerStateToString : ContainerState → String
  | .created => "created"
  | .starting => "starting"
  | .running => "running"
  | .paused => "paused"
  | .stopping => "stopping"
  | .stopped => "stopped"
  | .removing => "removing"
  | .removed => "removed"
  | .dead => "dead"
  | .restarting => "restarting"
  | .error => "error"

/-- The exceptions of the runtime; all are `std::exception`s. -/
inductive Error where
  | runtime (message : String)
  | invalidState (id : String) (current target : ContainerState)
  | notFound (id : String)
  | configuration (message : String)
  | container (code : ErrorCode) (message : String)
  | cgroup (message : String)
  deriving DecidableEq, Repr

def Error.what : Error → String
  | .runtime m => m
  | .invalidState id c t => "Invalid state transition for container " ++ id ++ " from " ++
      containerStateToString c ++ " to " ++ containerStateToString t
  | .notFound id => "Container not found: " ++ id
  | .configuration m => "Container configuration error: " ++ m
  | .container code m => ContainerError.what ⟨code, m⟩
  | .cgroup m => m

/-! ## Configurations -/

structure ResourceLimits where
  memoryLimit : Nat := 0
  memorySwapLimit : Nat := 0
  cpuShares : Rat := 1
  cpuPeriod : Nat := 100000
  cpuQuota : Nat := 0
  pidsLimit : Nat := 0
  deriving DecidableEq, Repr

structure PortMapping where
  containerPort : Nat
  protocol : String
  deriving DecidableEq, Repr

structure ContainerConfig where
  id : String := ""
  name : String := ""
  image : String := ""
  command : List String := []
  args : List String := []
  env : List String := []
  workingDir : String := ""
  resources : ResourceLimits := {}
  /-- `security.user`. -/
  user : String := ""
  /-- `network.port_mappings`. -/
  portMappings : List PortMapping := []
  deriving DecidableEq, Repr

inductive NamespaceType where
  | pid
  | network
  | mount
  | uts
  | ipc
  | user
  | cgroup
  deriving DecidableEq, Repr

structure CgroupConfig where
  name : String
  parentPath : String
  maxUsec : Nat := 1000000
  periodUsec : Nat := 100000
  weight : Nat := 100
  burstUsec : Nat := 0
  maxBytes : Nat := 0
  swapMaxBytes : Nat := 0
  lowBytes : Nat := 0
  highBytes : Nat := 0
  oomKillEnable : Bool := true
  readBps : Nat := 0
  writeBps : Nat := 0
  readIops : Nat := 0
  writeIops : Nat := 0
  pidMax : Nat := 0
  /-- `CgroupController` as its bit mask; the default is `ALL`. -/
  controllers : Nat := 0xFFFFFFFF
  deriving DecidableEq, Repr

inductive CgroupCall where
  | create
  | setCpuMax (maxUsec periodUsec : Nat)
  | setCpuWeight (weight : Nat)
  | setMemoryMax (bytes : Nat)
  | setMemorySwapMax (bytes : Nat)
  | setPidMax (max : Nat)
  | addProcess (pid : Int)
  | destroy
  /-- `~CgroupManagerImpl`, which swallows its errors. -/
  | destruct
  deriving DecidableEq, Repr

structure ProcessConfig where
  executable : String := ""
  args : List String := []
  env : List String := []
  workingDir : String := ""
  createNamespaces : List NamespaceType := []
  hostname : String := ""
  deriving DecidableEq, Repr

/-! ## The operating system -/

/-- What a `wait` status word decodes to. -/
inductive WaitStatus where
  | exited (code : Int)
  | signaled (sig : Int)
  | other
  deriving DecidableEq, Repr

/-- The part of `CgroupManager::getMetrics` the runtime and the monitor read; a `double` is
    a rational. -/
structure ResourceMetrics where
  memoryCurrent : Nat
  cpuUsagePercent : Rat
  ioRbytes : Nat
  ioWbytes : Nat
  memoryUsagePercent : Rat := 0
  timestamp : Nat := 0
  deriving DecidableEq, Repr

/-- The parent's read of the error pipe. -/
inductive PipeRead where
  /-- The child's `errno`, as `strerror` names it. -/
  | childError (text : String)
  | failed (text : String)
  /-- End of file, or nothing to read yet. -/
  | nothing
  deriving DecidableEq, Repr

structure Os (σ : Type) where
  /-- `none` when the call succeeded, else the text of its error. -/
  unshare : NamespaceType → σ → Option String × σ
  cgroup : CgroupConfig → CgroupCall → σ → Option String × σ
  getMetrics : CgroupConfig → σ → Except String ResourceMetrics × σ
  pipe : σ → Option String × σ
  /-- The parent's side of a `fork` whose child is to execute the configuration. -/
  fork : ProcessConfig → σ → Except String Int × σ
  readErrorPipe : Int → σ → PipeRead × σ
  /-- `kill(pid, sig) == 0`. -/
  kill : Int → Int → σ → Bool × σ
  /-- `waitpid`'s result and the status word after it; `hang` is the flag 0, else
      `WNOHANG`. -/
  waitpid : Int → (hang : Bool) → σ → (Int × WaitStatus) × σ
  sleepMs : Nat → σ → σ
  /-- Nanoseconds since the epoch. -/
  systemNow : σ → Int × σ
  steadyNow : σ → Nat × σ
  /-- A draw of `std::uniform_int_distribution<>(0, n)`. -/
  uniform : (n : Nat) → σ → Fin (n + 1) × σ
  notify : String → ContainerState → ContainerState → σ → σ

/-- The same system under more state: every call is made through `lift`. -/
def Os.through {σ τ : Type} (os : Os σ) (lift : {α : Type} → (σ → α × σ) → τ → α × τ) : Os τ where
  unshare type := lift (os.unshare type)
  cgroup g f := lift (os.cgroup g f)
  getMetrics g := lift (os.getMetrics g)
  pipe := lift os.pipe
  fork config := lift (os.fork config)
  readErrorPipe pid := lift (os.readErrorPipe pid)
  kill pid sig := lift (os.kill pid sig)
  waitpid pid hang := lift (os.waitpid pid hang)
  sleepMs ms s := (lift (fun k => ((), os.sleepMs ms k)) s).2
  systemNow := lift os.systemNow
  steadyNow := lift os.steadyNow
  uniform n := lift (os.uniform n)
  notify id old new s := (lift (fun k => ((), os.notify id old new k)) s).2

def sigterm : Int := 15
def sigkill : Int := 9

end DockerCpp.Runtime
