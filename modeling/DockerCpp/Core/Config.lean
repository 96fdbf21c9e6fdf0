/-
  DockerCpp.Core.Config — the configuration manager of core/ (`config.cpp`).

  The layers are a vector of managers in the order they were added, and a layer may have
  layers itself; `has` looks one level down, `getValue` reads a layer's own data only.

  `getValue` takes the own value first and then the last layer that has the key, while
  `getEffectiveConfig` writes the layers over the own data.
-/

import DockerCpp.Core.Value
import DockerCpp.Lib.Overlay

namespace DockerCpp.Core

open Lib

abbrev ConfigData := Std.ExtTreeMap String ConfigValue

/-- `change_listeners_` is left out: a listener's work is outside. -/
structure ConfigManager where
  configData : ConfigData := ∅
  layers : List (String × ConfigManager) := []
  recentChanges : List (String × ConfigValue × ConfigValue) := []

namespace ConfigManager

inductive Error where
  | container (e : ContainerError)
  /-- `std::out_of_range` from `at`. -/
  | outOfRange
  deriving DecidableEq, Repr

def has (c : ConfigManager) (key : String) : Bool :=
  c.configData.contains key || c.layers.any fun layer => layer.2.configData.contains key

/-- The loop over the layers, last added first. -/
def fromLayers (key : String) : List (String × ConfigManager) → Except Error ConfigValue
  | [] => .error (.container ⟨.configMissing, "Configuration key not found: " ++ key⟩)
  | (_, layer) :: earlier =>
    if layer.has key then
      match layer.configData[key]? with
      | some v => .ok v
      | none => .error .outOfRange
    else fromLayers key earlier

def getValue (c : ConfigManager) (key : String) : Except Error ConfigValue :=
  match c.configData[key]? with
  | some v => .ok v
  | none => fromLayers key c.layers.reverse

def setValue (c : ConfigManager) (key : String) (value : ConfigValue) : ConfigManager :=
  { c with configData := c.configData.insert key value }

def notifyChange (c : ConfigManager) (key : String) (old new : ConfigValue) : ConfigManager :=
  { c with recentChanges := c.recentChanges ++ [(key, old, new)] }

def set (c : ConfigManager) (key : String) (value : ConfigValue) : ConfigManager :=
  match c.configData[key]? with
  | some old => notifyChange (c.setValue key value) key old value
  | none => c.setValue key value

def remove (c : ConfigManager) (key : String) : ConfigManager :=
  match c.configData[key]? with
  | some old => notifyChange { c with configData := c.configData.erase key } key old .empty
  | none => c

def clear (_ : ConfigManager) : ConfigManager := {}

def addLayer (c : ConfigManager) (name : String) (other : ConfigManager) : ConfigManager :=
  { c with layers := c.layers ++ [(name, other)] }

def merge (c other : ConfigManager) : ConfigManager :=
  other.configData.toList.foldl (fun c e => c.setValue e.1 e.2) c

def getEffectiveConfig (c : ConfigManager) : ConfigManager :=
  { configData := overlay c.configData (c.layers.map (·.2.configData)) }

end ConfigManager

end DockerCpp.Core
