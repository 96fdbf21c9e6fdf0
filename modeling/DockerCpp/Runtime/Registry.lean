/-
  DockerCpp.Runtime.Registry — the container registry (`container_registry.cpp`).

  Containers live on a heap; a `std::shared_ptr<Container>` is a cell number (`Ref`), so
  that a client's copy and the registry's name one container, and a container that the
  registry forgot is still there for the clients that hold it. Cells from `next` on are
  not allocated and hold anything. What `~Container` does to the system when the last
  copy goes is left out.

  The registry keeps two maps, `containers_` (id to container) and `name_to_id_`. Every
  operation takes `mutex_` first; `removeContainer` and `getContainerByName` call
  `getContainer`, which takes it again. `cleanupRemovedContainers` erases from
  `containers_` alone.

  `Call` is everything a client can ask, of the registry or of a container it was handed.
-/

import DockerCpp.Runtime.ContainerConfig
import DockerCpp.Runtime.ContainerLifecycle
import Mathlib.Data.String.Basic
import Mathlib.Logic.Function.Basic

namespace DockerCpp.Runtime

open Lib Lib.Prog

abbrev Ref := Nat

structure Registry (σ : Type) where
  containers : Std.TreeMap String Ref := {}
  nameToId : Std.TreeMap String String := {}
  mutex : Option Tid := none
  /-- `global_callback_` and the registry's `callback_mutex_`. -/
  listener : Listener := {}
  heap : Ref → Container
  next : Ref := 0
  os : σ

namespace Registry

variable {σ : Type}

def sys {α : Type} (f : σ → α × σ) : Prog (Registry σ) Error α :=
  call fun s => ((f s.os).1, { s with os := (f s.os).2 })

def mutexOf : Mutex (Registry σ) := ⟨fun s => s.mutex, fun o s => { s with mutex := o }⟩

def callbackMutexOf : Mutex (Registry σ) :=
  ⟨fun s => s.listener.callbackMutex, fun o s => { s with listener := { s.listener with callbackMutex := o } }⟩

def worldOf (ref : Ref) (s : Registry σ) : World σ := ⟨s.heap ref, s.os, s.listener⟩

def putWorld (ref : Ref) (w : World σ) (s : Registry σ) : Registry σ :=
  { s with heap := Function.update s.heap ref w.c, os := w.os, listener := w.listener }

/-- A member function of the container at `ref`. -/
def onContainer {α : Type} (ref : Ref) (p : Prog (World σ) Error α) : Prog (Registry σ) Error α :=
  zoom (worldOf ref) (putWorld ref) p

def getState (ref : Ref) : Prog (Registry σ) Error ContainerState := read fun s => (s.heap ref).state

/-- Catch and log. -/
def ignoreErrors (p : Prog (Registry σ) Error Unit) : Prog (Registry σ) Error Unit := tryCatch p fun _ => pure ()

variable (os : Os σ) (k : Locking)

/-! ## Names and ids -/

def isNameUnique (s : Registry σ) (name : String) : Bool := !s.nameToId.contains name

def generateUniqueId : Prog (Registry σ) Error String := do
  let digits ← sys (Container.hexDigits os 64)
  pure (String.ofList digits)

def nameChar (n : Fin 36) : Char := if n.val < 10 then Char.ofNat (48 + n.val) else Char.ofNat (97 + (n.val - 10))

def nameChars (os : Os σ) : Nat → σ → List Char × σ
  | 0, s => ([], s)
  | n + 1, s =>
    let d := os.uniform 35 s
    let rest := nameChars os n d.2
    (nameChar d.1 :: rest.1, rest.2)

/-- The loop that appends a counter; `fuel` bounds the names it tries. -/
def firstUnique (taken : String → Bool) (name : String) : (fuel counter : Nat) → String → String
  | 0, _, candidate => candidate
  | fuel + 1, counter, candidate =>
    if taken candidate then firstUnique taken name fuel (counter + 1) (name ++ "-" ++ toString counter) else candidate

def generateUniqueName (baseName : String) : Prog (Registry σ) Error String := do
  let chars ← sys (nameChars os 6)
  let name := baseName ++ String.ofList chars
  read fun s => firstUnique (fun n => !s.isNameUnique n) name (s.nameToId.size + 1) 1 name

/-! ## Creation and lookup -/

def validateContainerConfig (config : ContainerConfig) : Prog (Registry σ) Error Unit :=
  match config.validate with
  | [] => pure ()
  | errors => throw (.configuration ("Invalid container configuration: " ++
      errors.foldl (fun msg e => msg ++ e ++ "; ") ""))

def chooseId (config : ContainerConfig) : Prog (Registry σ) Error String :=
  if config.id = "" then generateUniqueId os else pure config.id

def chooseName (config : ContainerConfig) : Prog (Registry σ) Error String := do
  let unique ← read fun s => s.isNameUnique config.name
  if config.name = "" then generateUniqueName os "docker-cpp-"
  else if unique then pure config.name
  else generateUniqueName os (config.name ++ "-")

/-- `std::make_shared<Container>(config)`. -/
def makeContainer (config : ContainerConfig) : Prog (Registry σ) Error Ref :=
  call fun s =>
    let made := Container.make os config s.os
    (s.next, { s with heap := Function.update s.heap s.next made.1, next := s.next + 1, os := made.2 })

def registerContainer (ref : Ref) : Prog (Registry σ) Error Unit := do
  let info ← onContainer ref (Container.getInfo k)
  modify fun s => { s with
    containers := s.containers.insert info.id ref
    nameToId := s.nameToId.insert (s.heap ref).config.name info.id }

def unregisterContainer (id : String) : Prog (Registry σ) Error Unit := do
  match ← read fun s => s.containers[id]? with
  | some ref => modify fun s => { s with
      containers := s.containers.erase id
      nameToId := s.nameToId.erase (s.heap ref).config.name }
  | none => pure ()

/-- The `try` of `createContainer`. -/
def buildContainer (config : ContainerConfig) : Prog (Registry σ) Error Ref := do
  let ref ← makeContainer os config
  onContainer ref (Container.setEventCallback k .registry)
  registerContainer k ref
  pure ref

def createContainer (config : ContainerConfig) : Prog (Registry σ) Error Ref :=
  lockGuard k mutexOf do
    validateContainerConfig config
    let id ← chooseId os config
    if ← read fun s => s.containers.contains id then throw (.runtime ("Container ID already exists: " ++ id))
    else do
      let name ← chooseName os config
      tryCatch (buildContainer os k { config with id := id, name := name }) fun e =>
        throw (.configuration ("Failed to create container: " ++ e.what))

def getContainer (id : String) : Prog (Registry σ) Error (Option Ref) :=
  lockGuard k mutexOf (read fun s => s.containers[id]?)

def getContainerByName (name : String) : Prog (Registry σ) Error (Option Ref) :=
  lockGuard k mutexOf do
    match ← read fun s => s.nameToId[name]? with
    | some id => getContainer k id
    | none => pure none

def removeContainer (id : String) (force : Bool) : Prog (Registry σ) Error Unit :=
  lockGuard k mutexOf do
    match ← getContainer k id with
    | none => throw (.notFound id)
    | some ref => do
      onContainer ref (Container.remove os k force)
      unregisterContainer id

/-- The containers `listContainers` and its like select. -/
def selected (all : Bool) (s : Registry σ) : List (String × Ref) :=
  s.containers.toList.filter fun e => all || (s.heap e.2).state == .running

def listContainers (all : Bool) : Prog (Registry σ) Error (List Ref) :=
  lockGuard k mutexOf (read fun s => (s.selected all).map (·.2))

def listContainerIds (all : Bool) : Prog (Registry σ) Error (List String) :=
  lockGuard k mutexOf (read fun s => (s.selected all).map (·.1))

/-! ## Lifecycle -/

/-- `startContainer` and its like: the container is looked up under `mutex_` and used
    after it is released. -/
def forward (id : String) (p : Prog (World σ) Error Unit) : Prog (Registry σ) Error Unit := do
  match ← getContainer k id with
  | none => throw (.notFound id)
  | some ref => onContainer ref p

def startContainer (id : String) : Prog (Registry σ) Error Unit := forward k id (Container.start os k)

def stopContainer (id : String) (timeout : Int) : Prog (Registry σ) Error Unit :=
  forward k id (Container.stop os k timeout)

def pauseContainer (id : String) : Prog (Registry σ) Error Unit := forward k id (Container.pause os k)

def resumeContainer (id : String) : Prog (Registry σ) Error Unit := forward k id (Container.resume os k)

def restartContainer (id : String) (timeout : Int) : Prog (Registry σ) Error Unit :=
  forward k id (Container.restart os k timeout)

def killContainer (id : String) (sig : Int) : Prog (Registry σ) Error Unit := forward k id (Container.kill os k sig)

/-! ## Statistics -/

def getContainerCount : Prog (Registry σ) Error Nat := lockGuard k mutexOf (read fun s => s.containers.size)

def getRunningContainerCount : Prog (Registry σ) Error Nat :=
  lockGuard k mutexOf (read fun s => (s.selected false).length)

def collectStats : List (String × Ref) → Prog (Registry σ) Error (List ResourceStats)
  | [] => pure []
  | (_, ref) :: rest => do
    let st ← getState ref
    if st = .running then
      let stats ← onContainer ref (Container.getStats os)
      let more ← collectStats rest
      pure (stats :: more)
    else collectStats rest

def getAllContainerStats : Prog (Registry σ) Error (List ResourceStats) :=
  lockGuard k mutexOf do
    let entries ← read fun s => s.containers.toList
    collectStats os entries

def addStats (sum stats : ResourceStats) : ResourceStats :=
  { sum with
    memoryUsageBytes := (sum.memoryUsageBytes + stats.memoryUsageBytes) % 2 ^ 64
    cpuUsagePercent := sum.cpuUsagePercent + stats.cpuUsagePercent
    currentPids := (sum.currentPids + stats.currentPids) % 2 ^ 64
    networkRxBytes := (sum.networkRxBytes + stats.networkRxBytes) % 2 ^ 64
    networkTxBytes := (sum.networkTxBytes + stats.networkTxBytes) % 2 ^ 64
    blkioReadBytes := (sum.blkioReadBytes + stats.blkioReadBytes) % 2 ^ 64
    blkioWriteBytes := (sum.blkioWriteBytes + stats.blkioWriteBytes) % 2 ^ 64 }

def getAggregatedStats : Prog (Registry σ) Error ResourceStats :=
  lockGuard k mutexOf do
    let entries ← read fun s => s.containers.toList
    let stats ← collectStats os entries
    let now ← sys os.systemNow
    pure { stats.foldl addStats {} with timestamp := now }

/-! ## Clean-up -/

/-- `std::chrono::minutes(5)`. -/
def fiveMinutes : Int := 300 * 1000000000

/-- The ids of the containers stopped for more than five minutes. -/
def stoppedLong : List (String × Ref) → Prog (Registry σ) Error (List String)
  | [] => pure []
  | (id, ref) :: rest => do
    let st ← getState ref
    if st = .stopped ∨ st = .dead ∨ st = .error then
      let info ← onContainer ref (Container.getInfo k)
      let now ← sys os.systemNow
      let more ← stoppedLong rest
      pure (if fiveMinutes < now - info.finishedAt then id :: more else more)
    else stoppedLong rest

/-- One turn of the second loop of `cleanupStoppedContainers`; `id` is registered. -/
def removeStopped (id : String) : Prog (Registry σ) Error Unit := do
  match ← read fun s => s.containers[id]? with
  | some ref => ignoreErrors do
      onContainer ref (Container.remove os k true)
      unregisterContainer id
  | none => pure ()

def cleanupStoppedContainers : Prog (Registry σ) Error Unit :=
  lockGuard k mutexOf do
    let entries ← read fun s => s.containers.toList
    let toRemove ← stoppedLong os k entries
    forEach (removeStopped os k) toRemove

def cleanupRemovedContainers : Prog (Registry σ) Error Unit :=
  lockGuard k mutexOf (modify fun s =>
    let toRemove := (s.containers.toList.filter fun e => (s.heap e.2).state == .removed).map (·.1)
    { s with containers := toRemove.foldl (fun m id => m.erase id) s.containers })

def stopForShutdown (ref : Ref) : Prog (Registry σ) Error Unit := do
  let st ← getState ref
  when (st = .running ∨ st = .paused) (ignoreErrors (onContainer ref (Container.stop os k 5)))

def shutdown : Prog (Registry σ) Error Unit :=
  lockGuard k mutexOf do
    let entries ← read fun s => s.containers.toList
    forEach (fun e => stopForShutdown os k e.2) entries
    modify fun s => { s with containers := {}, nameToId := {} }
    lockGuard k callbackMutexOf (modify fun s => { s with listener := { s.listener with globalCallback := false } })

def setGlobalEventCallback : Prog (Registry σ) Error Unit :=
  lockGuard k callbackMutexOf (modify fun s => { s with listener := { s.listener with globalCallback := true } })

def removeGlobalEventCallback : Prog (Registry σ) Error Unit :=
  lockGuard k callbackMutexOf (modify fun s => { s with listener := { s.listener with globalCallback := false } })

/-! ## Clients -/

inductive Call where
  | createContainer (config : ContainerConfig)
  | getContainer (id : String)
  | getContainerByName (name : String)
  | removeContainer (id : String) (force : Bool)
  | listContainers (all : Bool)
  | listContainerIds (all : Bool)
  | startContainer (id : String)
  | stopContainer (id : String) (timeout : Int)
  | pauseContainer (id : String)
  | resumeContainer (id : String)
  | restartContainer (id : String) (timeout : Int)
  | killContainer (id : String) (sig : Int)
  | getContainerCount
  | getRunningContainerCount
  | getAllContainerStats
  | getAggregatedStats
  | cleanupStoppedContainers
  | cleanupRemovedContainers
  | shutdown
  | setGlobalEventCallback
  | removeGlobalEventCallback
  /-- An operation on a container a client holds. -/
  | direct (ref : Ref) (op : Container.Op)
  | updateConfig (ref : Ref) (config : ContainerConfig)
  deriving DecidableEq, Repr

/-- The call returned; what it returned is the client's. -/
def done {α : Type} (p : Prog (Registry σ) Error α) : Prog (Registry σ) Error Unit := do
  let _ ← p
  pure ()

/-- A client holds only what it was handed. -/
def held (ref : Ref) (p : Prog (World σ) Error Unit) : Prog (Registry σ) Error Unit := do
  let next ← read (·.next)
  when (ref < next) (onContainer ref p)

def Call.run : Call → Prog (Registry σ) Error Unit
  | .createContainer config => done (Registry.createContainer os k config)
  | .getContainer id => done (Registry.getContainer k id)
  | .getContainerByName name => done (Registry.getContainerByName k name)
  | .removeContainer id force => Registry.removeContainer os k id force
  | .listContainers all => done (Registry.listContainers k all)
  | .listContainerIds all => done (Registry.listContainerIds k all)
  | .startContainer id => Registry.startContainer os k id
  | .stopContainer id timeout => Registry.stopContainer os k id timeout
  | .pauseContainer id => Registry.pauseContainer os k id
  | .resumeContainer id => Registry.resumeContainer os k id
  | .restartContainer id timeout => Registry.restartContainer os k id timeout
  | .killContainer id sig => Registry.killContainer os k id sig
  | .getContainerCount => done (Registry.getContainerCount k)
  | .getRunningContainerCount => done (Registry.getRunningContainerCount k)
  | .getAllContainerStats => done (Registry.getAllContainerStats os k)
  | .getAggregatedStats => done (Registry.getAggregatedStats os k)
  | .cleanupStoppedContainers => Registry.cleanupStoppedContainers os k
  | .cleanupRemovedContainers => Registry.cleanupRemovedContainers k
  | .shutdown => Registry.shutdown os k
  | .setGlobalEventCallback => Registry.setGlobalEventCallback k
  | .removeGlobalEventCallback => Registry.removeGlobalEventCallback k
  | .direct ref op => held ref (op.run os k)
  | .updateConfig ref config => held ref (Container.updateConfig k config)

/-- A registry as its constructor leaves it. -/
def empty (heap : Ref → Container) (s : σ) : Registry σ := { heap := heap, os := s }

end Registry

end DockerCpp.Runtime
