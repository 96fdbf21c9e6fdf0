/-
  DockerCpp.Cgroup.Manager — `CgroupManagerImpl` (`cgroup_manager.cpp`): a cgroup's
  directory, its limits and its members.

  A member function works on the manager's own fields and the file tree. `Env` is what the
  system refuses, the same for a whole run. A stream that cannot be opened is reported. What
  is written to it stays in its buffer until its destructor flushes it, after the check, so
  a refused write is not reported and leaves the file as it is.

  A setter stores its value in `config_` and writes one control file, after its check if it
  has one; the four byte limits are one function with their field and their file. `create`
  makes the directory, asks the parent for the controllers and applies the configuration, so
  that every limit is checked there first. The destructor destroys the cgroup.
-/

import DockerCpp.Cgroup.Tree
import DockerCpp.Lib.Prog
import DockerCpp.Runtime.Os

namespace DockerCpp.Cgroup

open Lib Lib.Prog DockerCpp.Runtime

inductive Code where
  | invalidArgument
  | ioError
  | notFound
  | processNotFound
  deriving DecidableEq, Repr

structure CgroupError where
  code : Code
  message : String
  deriving DecidableEq, Repr

structure Env where
  /-- The message of a `create_directories` that fails. -/
  mkdirError : String → Option String
  openFails : String → Bool
  /-- The `write` of the flushed buffer fails. -/
  writeFails : String → Bool
  /-- `kill(pid, 0)` answers ESRCH. -/
  noProcess : Int → Bool
  removeMessage : String

/-- A system that refuses nothing. -/
def willing : Env := ⟨fun _ => none, fun _ => false, fun _ => false, fun _ => false, ""⟩

structure CgroupManager where
  config : CgroupConfig
  cgroupPath : String
  controllersEnabled : Nat
  deriving DecidableEq, Repr

structure CgroupState where
  mgr : CgroupManager
  tree : Tree
  deriving DecidableEq, Repr

def mountPoint : String := "/sys/fs/cgroup"

def buildCgroupPath (config : CgroupConfig) : String :=
  if config.parentPath = "" then mountPoint ++ "/" ++ config.name else config.parentPath ++ "/" ++ config.name

/-- The constructor. -/
def CgroupManager.make (config : CgroupConfig) : CgroupManager :=
  ⟨config, buildCgroupPath config, config.controllers⟩

def cpuController : Nat := 0x01
def memoryController : Nat := 0x02
def ioController : Nat := 0x04
def pidController : Nat := 0x08

def hasController (controllers controller : Nat) : Bool := controllers &&& controller == controller

/-! ## The checks -/

def maxCpuWeight : Nat := 10000
def maxPidMax : Nat := 4194303

def validateCpuParameters (maxUsec periodUsec : Nat) : Except CgroupError Unit :=
  if periodUsec < 1000 ∨ 1000000 < periodUsec then
    .error ⟨.invalidArgument, "CPU period must be between 1000 and 1000000 microseconds"⟩
  else if maxUsec ≠ 0 ∧ maxUsec < 1000 then
    .error ⟨.invalidArgument, "CPU max must be at least 1000 microseconds or 0 for unlimited"⟩
  else .ok ()

def validateCpuWeight (weight : Nat) : Except CgroupError Unit :=
  if weight < 1 ∨ maxCpuWeight < weight then .error ⟨.invalidArgument, "CPU weight must be between 1 and 10000"⟩
  else .ok ()

def validatePidMax (max : Nat) : Except CgroupError Unit :=
  if maxPidMax < max then .error ⟨.invalidArgument, "PID max cannot exceed " ++ toString maxPidMax⟩ else .ok ()

namespace CgroupManager

variable (env : Env)

/-- A check that throws. -/
def require (check : Except CgroupError Unit) : Prog CgroupState CgroupError Unit :=
  match check with
  | .ok () => pure ()
  | .error e => throw e

def modifyConfig (f : CgroupConfig → CgroupConfig) : Prog CgroupState CgroupError Unit :=
  modify fun s => { s with mgr := { s.mgr with config := f s.mgr.config } }

def modifyTree (f : Tree → Tree) : Prog CgroupState CgroupError Unit := modify fun s => { s with tree := f s.tree }

/-- The destructor of a stream flushes what was written to it. -/
def flush (file : String) (write : Tree → Tree) : Prog CgroupState CgroupError Unit :=
  if env.writeFails file then pure () else modifyTree write

def ignoreErrors (p : Prog CgroupState CgroupError Unit) : Prog CgroupState CgroupError Unit :=
  tryCatch p fun _ => pure ()

def exists_ : Prog CgroupState CgroupError Bool := read fun s => s.tree.isDirectory s.mgr.cgroupPath

/-! ## Control files -/

/-- A file that is open for writing: the directory it is in. -/
def openDir (dir name : String) (s : CgroupState) : Option Path :=
  if env.openFails (dir ++ "/" ++ name) then none else s.tree.locate dir

def writeFileValue (dir name value : String) : Prog CgroupState CgroupError Unit := do
  match ← read (openDir env dir name) with
  | none => throw ⟨.ioError, "Failed to open file for writing: " ++ dir ++ "/" ++ name⟩
  | some p => flush env (dir ++ "/" ++ name) fun t => t.writeFile p name value

/-- The first line of a file. -/
def readFileValue (dir name : String) : Prog CgroupState CgroupError String := do
  match ← read fun s => (openDir env dir name s).bind fun p => s.tree.file? p name with
  | none => throw ⟨.ioError, "Failed to open file for reading: " ++ dir ++ "/" ++ name⟩
  | some content => pure (String.ofList (content.toList.takeWhile (· != '\n')))

def writeOwn (name value : String) : Prog CgroupState CgroupError Unit := do
  let path ← read fun s => s.mgr.cgroupPath
  writeFileValue env path name value

/-! ## Limits -/

/-- 0 stands for no limit. -/
def limitText (n : Nat) : String := if n = 0 then "max" else toString n

def writeCpuMax : Prog CgroupState CgroupError Unit := do
  let config ← read fun s => s.mgr.config
  writeOwn env "cpu.max" (limitText config.maxUsec ++ " " ++ toString config.periodUsec)

def setCpuMax (maxUsec periodUsec : Nat) : Prog CgroupState CgroupError Unit := do
  require (validateCpuParameters maxUsec periodUsec)
  modifyConfig fun g => { g with maxUsec := maxUsec, periodUsec := periodUsec }
  writeCpuMax env

def setCpuWeight (weight : Nat) : Prog CgroupState CgroupError Unit := do
  require (validateCpuWeight weight)
  modifyConfig fun g => { g with weight := weight }
  writeOwn env "cpu.weight" (toString weight)

/-- The burst is stored; `cpu.max` is read and nothing is done with it. -/
def setCpuBurst (burstUsec : Nat) : Prog CgroupState CgroupError Unit := do
  modifyConfig fun g => { g with burstUsec := burstUsec }
  let path ← read fun s => s.mgr.cgroupPath
  ignoreErrors do
    let _ ← readFileValue env path "cpu.max"
    pure ()

/-- A byte limit: its field in the configuration and its control file. -/
def setBytes (store : Nat → CgroupConfig → CgroupConfig) (file : String) (bytes : Nat) :
    Prog CgroupState CgroupError Unit := do
  modifyConfig (store bytes)
  writeOwn env file (limitText bytes)

def setMemoryMax (maxBytes : Nat) : Prog CgroupState CgroupError Unit :=
  setBytes env (fun n g => { g with maxBytes := n }) "memory.max" maxBytes

def setMemorySwapMax (maxBytes : Nat) : Prog CgroupState CgroupError Unit :=
  setBytes env (fun n g => { g with swapMaxBytes := n }) "memory.swap.max" maxBytes

def setMemoryLow (lowBytes : Nat) : Prog CgroupState CgroupError Unit :=
  setBytes env (fun n g => { g with lowBytes := n }) "memory.low" lowBytes

def setMemoryHigh (highBytes : Nat) : Prog CgroupState CgroupError Unit :=
  setBytes env (fun n g => { g with highBytes := n }) "memory.high" highBytes

def setOomKillEnable (enable : Bool) : Prog CgroupState CgroupError Unit := do
  modifyConfig fun g => { g with oomKillEnable := enable }
  writeOwn env "memory.oom.group" (if enable then "1" else "0")

def setPidMax (max : Nat) : Prog CgroupState CgroupError Unit := do
  require (validatePidMax max)
  modifyConfig fun g => { g with pidMax := max }
  writeOwn env "pids.max" (limitText max)

/-! ## Creation -/

def controllersToEnable (controllers : Nat) : String :=
  (if hasController controllers cpuController then " +cpu" else "") ++
  (if hasController controllers memoryController then " +memory" else "") ++
  (if hasController controllers ioController then " +io" else "") ++
  (if hasController controllers pidController then " +pids" else "")

def parentDir (config : CgroupConfig) : String := if config.parentPath = "" then mountPoint else config.parentPath

def enableControllers : Prog CgroupState CgroupError Unit := do
  let m ← read (·.mgr)
  let wanted := controllersToEnable m.controllersEnabled
  when (wanted ≠ "") do
    let current ← tryCatch (readFileValue env (parentDir m.config) "cgroup.subtree_control") fun _ => pure ""
    writeFileValue env (parentDir m.config) "cgroup.subtree_control" (current ++ wanted)

/-- The IO controller's branch is empty in the source. -/
def applyConfiguration : Prog CgroupState CgroupError Unit := do
  let m ← read (·.mgr)
  when (hasController m.controllersEnabled cpuController) do
    setCpuMax env m.config.maxUsec m.config.periodUsec
    setCpuWeight env m.config.weight
    when (0 < m.config.burstUsec) (setCpuBurst env m.config.burstUsec)
  when (hasController m.controllersEnabled memoryController) do
    setMemoryMax env m.config.maxBytes
    setMemorySwapMax env m.config.swapMaxBytes
    setMemoryLow env m.config.lowBytes
    setMemoryHigh env m.config.highBytes
    setOomKillEnable env m.config.oomKillEnable
  when (hasController m.controllersEnabled pidController) (setPidMax env m.config.pidMax)

def create : Prog CgroupState CgroupError Unit := do
  let path ← read fun s => s.mgr.cgroupPath
  if ← exists_ then throw ⟨.invalidArgument, "Cgroup already exists: " ++ path⟩
  else
    match env.mkdirError path with
    | some message =>
      throw ⟨.ioError, "Failed to create cgroup directory: " ++ path ++ " - " ++ message⟩
    | none =>
      modifyTree fun t => t.makeDirs (t.origin path) (components path)
      enableControllers env
      applyConfiguration env

def updateConfig (config : CgroupConfig) : Prog CgroupState CgroupError Unit := do
  modifyConfig fun _ => config
  if ← exists_ then applyConfiguration env

def updateControllers : Prog CgroupState CgroupError Unit := do
  if ← exists_ then enableControllers env

def enableController (controller : Nat) : Prog CgroupState CgroupError Unit := do
  modify fun s => { s with mgr := { s.mgr with controllersEnabled := s.mgr.controllersEnabled ||| controller } }
  updateControllers env

/-! ## Processes -/

def notExisting (path : String) : CgroupError := ⟨.notFound, "Cgroup does not exist: " ++ path⟩

def addProcess (pid : Int) : Prog CgroupState CgroupError Unit := do
  let path ← read fun s => s.mgr.cgroupPath
  if !(← exists_) then throw (notExisting path)
  else if env.noProcess pid then throw ⟨.processNotFound, "Process not found: " ++ toString pid⟩
  else
    match ← read (openDir env path "cgroup.procs") with
    | none => throw ⟨.ioError, "Failed to open cgroup.procs: " ++ path ++ "/cgroup.procs"⟩
    | some p => flush env (path ++ "/cgroup.procs") fun t => t.moveProcess p pid

def removeProcess (pid : Int) : Prog CgroupState CgroupError Unit := do
  let m ← read (·.mgr)
  if !(← exists_) then throw (notExisting m.cgroupPath)
  else
    match ← read (openDir env (parentDir m.config) "cgroup.procs") with
    | none => throw ⟨.ioError, "Failed to open parent cgroup.procs: " ++ parentDir m.config ++ "/cgroup.procs"⟩
    | some p => flush env (parentDir m.config ++ "/cgroup.procs") fun t => t.moveProcess p pid

def getProcesses : Prog CgroupState CgroupError (List Int) := do
  let path ← read fun s => s.mgr.cgroupPath
  if !(← exists_) then throw (notExisting path)
  else
    match ← read (openDir env path "cgroup.procs") with
    | none => throw ⟨.ioError, "Failed to open cgroup.procs: " ++ path ++ "/cgroup.procs"⟩
    | some p => read fun s => s.tree.members p

/-! ## Destruction -/

def destroy : Prog CgroupState CgroupError Unit := do
  if ← exists_ then
    ignoreErrors do
      let processes ← getProcesses env
      forEach (removeProcess env) processes
    let path ← read fun s => s.mgr.cgroupPath
    match ← read fun s => s.tree.locate path with
    | some p =>
      let removed ← call fun s => ((s.tree.removeAll p).1, { s with tree := (s.tree.removeAll p).2 })
      if removed then pure ()
      else throw ⟨.ioError, "Failed to remove cgroup directory: " ++ path ++ " - " ++ env.removeMessage⟩
    | none => pure ()

/-- `~CgroupManagerImpl`. -/
def destruct : Prog CgroupState CgroupError Unit :=
  ignoreErrors do
    if ← exists_ then destroy env

def perform : CgroupCall → Prog CgroupState CgroupError Unit
  | .create => create env
  | .setCpuMax maxUsec periodUsec => setCpuMax env maxUsec periodUsec
  | .setCpuWeight weight => setCpuWeight env weight
  | .setMemoryMax bytes => setMemoryMax env bytes
  | .setMemorySwapMax bytes => setMemorySwapMax env bytes
  | .setPidMax max => setPidMax env max
  | .addProcess pid => addProcess env pid
  | .destroy => destroy env
  | .destruct => destruct env

end CgroupManager

end DockerCpp.Cgroup
