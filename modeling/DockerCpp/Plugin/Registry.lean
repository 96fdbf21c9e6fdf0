/-
  DockerCpp.Plugin.Registry — the plugin registry (`plugin_registry.cpp`), its mutex
  aside.

  A plugin is its declared dependencies and whether it is initialized; what a call of its
  `initialize` or `shutdown` does is an outcome given with the operation, for each plugin
  the operation calls. `plugins_` is an unordered map: an operation that iterates over it
  takes the order of the names it meets as an argument.

  `getLoadOrderUnsafe` is the depth-first search of `Lib.Dfs` along the dependencies that
  are registered; `visited` and the result are one list there, since a plugin is marked
  and appended at once.
-/

import DockerCpp.Core.Value
import DockerCpp.Lib.Dfs

namespace DockerCpp.Plugin

open Lib

structure IPlugin where
  dependencies : List String
  initialized : Bool := false
  deriving DecidableEq, Repr

abbrev Plugins := Std.ExtTreeMap String IPlugin

abbrev PluginConfig := Std.ExtTreeMap String String

/-- What a call of `initialize` returned, `none` when it threw (a `std::exception`: the
    registry catches no other), and the status it left. -/
structure InitOutcome where
  returned : Option Bool
  initialized : Bool
  deriving DecidableEq, Repr

structure ShutdownOutcome where
  threw : Bool
  initialized : Bool
  deriving DecidableEq, Repr

/-- What an operation throws. -/
inductive Failure where
  | error (e : ContainerError)
  /-- The exception of a plugin. -/
  | plugin
  /-- The bound on the recursion was too small. -/
  | outOfFuel
  deriving DecidableEq, Repr

/-! ## Registration -/

def validatePluginName (name : String) : Except ContainerError Unit :=
  if name = "" then .error ⟨.invalidPluginName, "Plugin name cannot be empty"⟩
  else if name.toList.any fun c => c == ' ' || c == '\t' || c == '\n' || c == '\r' || c == '/' then
    .error ⟨.invalidPluginName, "Plugin name contains invalid characters: " ++ name⟩
  else .ok ()

def validatePluginUniqueness (m : Plugins) (name : String) : Except ContainerError Unit :=
  if m.contains name then .error ⟨.duplicatePlugin, "Plugin with name '" ++ name ++ "' is already registered"⟩
  else .ok ()

/-- `plugin` is null, or a new plugin with its dependencies. -/
def registerPlugin (m : Plugins) (name : String) (plugin : Option (List String)) : Except ContainerError Plugins := do
  validatePluginName name
  validatePluginUniqueness m name
  match plugin with
  | none => .error ⟨.invalidPlugin, "Cannot register null plugin: " ++ name⟩
  | some deps => .ok (m.insert name { dependencies := deps })

/-- The status a plugin has after a call left it with `b`. -/
def setStatus (m : Plugins) (name : String) (p : IPlugin) (b : Bool) : Plugins := m.insert name { p with initialized := b }

def unregisterPlugin (m : Plugins) (name : String) (outcome : ShutdownOutcome) : Except Failure Unit × Plugins :=
  match m[name]? with
  | none => (.error (.error ⟨.pluginNotFound, "Plugin not found: " ++ name⟩), m)
  | some p =>
    if p.initialized && outcome.threw then (.error .plugin, setStatus m name p outcome.initialized)
    else (.ok (), m.erase name)

/-! ## Dependencies -/

def isDependencySatisfied (m : Plugins) (dependency : String) : Bool := m[dependency]?.any (·.initialized)

/-- `validateDependencies` and `validateDependenciesUnsafe`. -/
def validateDependencies (m : Plugins) (name : String) : Bool := m[name]?.any fun p => p.dependencies.all (isDependencySatisfied m)

/-- The dependencies the search follows. -/
def registeredDependencies (m : Plugins) (name : String) : List String :=
  match m[name]? with
  | some p => p.dependencies.filter (m.contains ·)
  | none => []

/-- `getLoadOrder` and `getLoadOrderUnsafe`, for one order of iteration. -/
def getLoadOrderUnsafe (m : Plugins) (iteration : List String) : Except Failure (List String) :=
  match Dfs.order (registeredDependencies m) (m.size + 1) iteration with
  | .ok names => .ok names
  | .error (.cycle name) =>
    .error (.error ⟨.circularDependency, "Circular dependency detected involving plugin: " ++ name⟩)
  | .error .outOfFuel => .error .outOfFuel

/-! ## Life cycle -/

/-- `initializePlugin` and `initializePluginUnsafe`. -/
def initializePlugin (m : Plugins) (name : String) (outcome : InitOutcome) : Bool × Plugins :=
  match m[name]? with
  | none => (false, m)
  | some p =>
    if p.initialized then (true, m)
    else if validateDependencies m name then (outcome.returned.getD false, setStatus m name p outcome.initialized)
    else (false, m)

/-- `shutdownPluginUnsafe`: the answer, the call of the plugin's `shutdown` with the registry it
    is made in, if it is made, and the registry after it. -/
def shutdownPluginUnsafe (m : Plugins) (name : String) (outcome : ShutdownOutcome) :
    Bool × List (String × Plugins) × Plugins :=
  match m[name]? with
  | none => (false, [], m)
  | some p =>
    if p.initialized then (!outcome.threw, [(name, m)], setStatus m name p outcome.initialized) else (true, [], m)

/-- `shutdownPlugin`, whose body is the same. -/
def shutdownPlugin (m : Plugins) (name : String) (outcome : ShutdownOutcome) : Bool × Plugins :=
  let r := shutdownPluginUnsafe m name outcome
  (r.1, r.2.2)

/-- One turn of the loop of `initializeAllPlugins`. -/
def initializeNext (outcome : String → InitOutcome) (acc : Std.ExtTreeMap String Bool × Plugins) (name : String) :
    Std.ExtTreeMap String Bool × Plugins :=
  let r := initializePlugin acc.2 name (outcome name)
  (acc.1.insert name r.1, r.2)

def initializeAllPlugins (m : Plugins) (iteration : List String) (config : PluginConfig)
    (outcome : String → PluginConfig → InitOutcome) : Except Failure (Std.ExtTreeMap String Bool) × Plugins :=
  match getLoadOrderUnsafe m iteration with
  | .error e => (.error e, m)
  | .ok names =>
    let r := names.foldl (initializeNext (outcome · config)) (∅, m)
    (.ok r.1, r.2)

/-- One turn of the loop of `shutdownAllPlugins`, after the calls `acc.1`. -/
def shutdownTurn (outcome : String → ShutdownOutcome) (acc : List (String × Plugins) × Plugins) (name : String) :
    List (String × Plugins) × Plugins :=
  let r := shutdownPluginUnsafe acc.2 name (outcome name)
  (acc.1 ++ r.2.1, r.2.2)

/-- `shutdownAllPlugins` with the calls of `shutdown` that it makes. -/
def shutdownAll (m : Plugins) (iteration : List String) (outcome : String → ShutdownOutcome) :
    Except Failure Unit × List (String × Plugins) × Plugins :=
  match getLoadOrderUnsafe m iteration with
  | .error e => (.error e, [], m)
  | .ok names => (.ok (), names.reverse.foldl (shutdownTurn outcome) ([], m))

def shutdownAllPlugins (m : Plugins) (iteration : List String) (outcome : String → ShutdownOutcome) :
    Except Failure Unit × Plugins :=
  let r := shutdownAll m iteration outcome
  (r.1, r.2.2)

def shutdownAllCalls (m : Plugins) (iteration : List String) (outcome : String → ShutdownOutcome) :
    List (String × Plugins) := (shutdownAll m iteration outcome).2.1

/-! The registry the loop leaves is that of the calls of `shutdownPlugin` alone. -/

def shutdownNext (outcome : String → ShutdownOutcome) (m : Plugins) (name : String) : Plugins :=
  (shutdownPlugin m name (outcome name)).2

variable {m : Plugins} {iteration : List String} {outcome : String → ShutdownOutcome}

theorem shutdownTurns_registry (names : List String) (acc : List (String × Plugins) × Plugins) :
    (names.foldl (shutdownTurn outcome) acc).2 = names.foldl (shutdownNext outcome) acc.2 := by
  induction names generalizing acc with
  | nil => rfl
  | cons name names ih => exact ih _

theorem shutdownAllPlugins_ok {names : List String} (h : getLoadOrderUnsafe m iteration = .ok names) :
    shutdownAllPlugins m iteration outcome = (.ok (), names.reverse.foldl (shutdownNext outcome) m) := by
  rw [shutdownAllPlugins, shutdownAll, h]
  exact Prod.ext rfl (shutdownTurns_registry names.reverse ([], m))

theorem shutdownAllPlugins_error {e : Failure} (h : getLoadOrderUnsafe m iteration = .error e) :
    shutdownAllPlugins m iteration outcome = (.error e, m) := by
  rw [shutdownAllPlugins, shutdownAll, h]

end DockerCpp.Plugin
