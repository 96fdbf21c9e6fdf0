/-
  DockerCpp.Config.Manager — the configuration manager of config/ (`config_manager.cpp`).

  `values_` is an unordered map and `layers_` a map ordered by name. Every writer of
  `layers_` stores a manager that has values only (`addLayer` and `merge` copy `values_`),
  so a layer is its values. `addLayer` emplaces: a name that is taken keeps its layer.

  The two ways to look a key up differ: `get` takes the own value first and then the first
  layer in name order (`getEffectiveValue`), while `getEffectiveConfig` writes the layers
  over the own values, in name order.

  `notified` is what a change callback has been called with. The order in which `merge`
  sets the values of an unordered map is not specified; here it is the order of the keys.
-/

import DockerCpp.Core.Value
import DockerCpp.Lib.Overlay

namespace DockerCpp.Config

open Lib

abbrev Values := Std.ExtTreeMap String ConfigValue

structure ConfigManager where
  values : Values := ∅
  layers : Std.ExtTreeMap String Values := ∅
  /-- Whether `change_callback_` is set. -/
  changeCallback : Bool := false
  changeNotificationsEnabled : Bool := false
  notified : List (String × ConfigValue × ConfigValue) := []

namespace ConfigManager

def notifyChange (c : ConfigManager) (key : String) (old new : ConfigValue) : ConfigManager :=
  if c.changeNotificationsEnabled && c.changeCallback then { c with notified := c.notified ++ [(key, old, new)] } else c

def set (c : ConfigManager) (key : String) (value : ConfigValue) : ConfigManager :=
  let old := c.values[key]?.getD .empty
  notifyChange { c with values := c.values.insert key value } key old value

def remove (c : ConfigManager) (key : String) : ConfigManager :=
  match c.values[key]? with
  | some old => notifyChange { c with values := c.values.erase key } key old .empty
  | none => c

def has (c : ConfigManager) (key : String) : Bool :=
  c.values.contains key || c.layers.toList.any fun layer => layer.2.contains key

def notFound (key : String) : ContainerError := ⟨.configMissing, "Configuration key not found: " ++ key⟩

/-- The loop over the layers: the first that has the key. -/
def firstLayer (key : String) : List (String × Values) → Except ContainerError ConfigValue
  | [] => .error (notFound key)
  | (_, layer) :: rest =>
    match layer[key]? with
    | some v => .ok v
    | none => firstLayer key rest

def getEffectiveValue (c : ConfigManager) (key : String) : Except ContainerError ConfigValue :=
  match c.values[key]? with
  | some v => .ok v
  | none => firstLayer key c.layers.toList

def typeMismatch : ContainerError := ⟨.configInvalid, "Type mismatch in configuration value access"⟩

def get (c : ConfigManager) (T : ConfigValueType) (key : String) : Except ContainerError ConfigValue :=
  if c.has key then do
    let v ← c.getEffectiveValue key
    v.get T typeMismatch
  else .error (notFound key)

def addLayer (c : ConfigManager) (name : String) (layer : ConfigManager) : ConfigManager :=
  { c with layers := c.layers.insertIfNew name layer.values }

def removeLayer (c : ConfigManager) (name : String) : ConfigManager := { c with layers := c.layers.erase name }

def merge (c other : ConfigManager) : ConfigManager :=
  let c' := other.values.toList.foldl (fun c e => c.set e.1 e.2) c
  { c' with layers := other.layers.toList.foldl (fun ls e => ls.insertIfNew e.1 e.2) c'.layers }

def getEffectiveConfig (c : ConfigManager) : ConfigManager :=
  { values := overlay c.values (c.layers.toList.map (·.2)) }

end ConfigManager

end DockerCpp.Config
