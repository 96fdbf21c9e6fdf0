/-
  DockerCpp.Config.Layered — the configuration manager of config/ with managers for its
  layers.

  `DockerCpp.Config.Manager` takes a layer for its values. Here `layers_` holds managers,
  which could have layers themselves, and `has`, `getKeys`, `getKeysWithPrefix`,
  `getEffectiveValue`, `getSubConfig` and `expandEnvironmentVariables` recurse into them as
  the source does, while `getEffectiveConfig` looks one level down. Every function that
  stores a layer stores one that has values only (`reachable_wellFormed`); so the views of
  the keys agree (`key_views_agree`), and what a manager answers is what the flat model
  answers (`Built.same_answers`).

  A map that is not ordered is walked through in the order of its keys: what is collected
  is sorted, or written under distinct keys. Notifications are left out; no function here
  reads them.
-/

import DockerCpp.Config.Expand
import DockerCpp.Config.Fallback
import Mathlib.Data.List.Destutter
import Mathlib.Data.List.Sort

namespace DockerCpp.Config.Layered

open Lib

/-- The names of the layers increase. -/
structure ConfigManager where
  values : Values := ∅
  layers : List (String × ConfigManager) := []

/-- `std::sort` and `std::unique`. -/
def sortUnique (keys : List String) : List String := (keys.mergeSort (· ≤ ·)).destutter (· ≠ ·)

/-- `key.substr(0, prefix.length()) == prefix`. -/
def startsWith (start key : String) : Bool := key.toList.take start.toList.length == start.toList

/-- `std::map::emplace`: a name that is taken keeps its layer. -/
def emplace (name : String) (layer : ConfigManager) (layers : List (String × ConfigManager)) :
    List (String × ConfigManager) :=
  if (layers.lookup name).isSome then layers else Assoc.put name layer layers

def expandedValue (env : Env) : ConfigValue → ConfigValue
  | .string s => .string (String.ofList (expandValue env s.toList))
  | v => v

namespace ConfigManager

/-! ## Writing -/

def set (c : ConfigManager) (key : String) (value : ConfigValue) : ConfigManager :=
  { c with values := c.values.insert key value }

def remove (c : ConfigManager) (key : String) : ConfigManager := { c with values := c.values.erase key }

def clear (_ : ConfigManager) : ConfigManager := {}

def copyValuesOnly (c : ConfigManager) : ConfigManager := { values := c.values }

def merge (c other : ConfigManager) : ConfigManager :=
  { values := writeAll c.values other.values.toList
    layers := other.layers.foldl (fun layers e => emplace e.1 e.2.copyValuesOnly layers) c.layers }

def addLayer (c : ConfigManager) (name : String) (layer : ConfigManager) : ConfigManager :=
  { c with layers := emplace name { values := layer.values } c.layers }

def removeLayer (c : ConfigManager) (name : String) : ConfigManager :=
  { c with layers := c.layers.filter (·.1 ≠ name) }

/-- The calls of `set` a document makes, in either build (`Represents.mergeFromJsonString`). -/
def mergeFromJsonString (b : Build) (text : String) (c : ConfigManager) : ConfigManager :=
  (b.parse text).entries.foldl (fun c e => c.set e.1 e.2) c

def loadFromJsonString (b : Build) (text : String) (c : ConfigManager) : ConfigManager :=
  c.clear.mergeFromJsonString b text

/-! ## Reading -/

mutual

def has : ConfigManager → String → Bool
  | ⟨values, layers⟩, key => values.contains key || layersHave layers key

def layersHave : List (String × ConfigManager) → String → Bool
  | [], _ => false
  | (_, layer) :: rest, key => layer.has key || layersHave rest key

end

mutual

def getKeys : ConfigManager → List String
  | ⟨values, layers⟩ => sortUnique (values.keys ++ layersKeys layers)

def layersKeys : List (String × ConfigManager) → List String
  | [] => []
  | (_, layer) :: rest => layer.getKeys ++ layersKeys rest

end

mutual

def getKeysWithPrefix (start : String) : ConfigManager → List String
  | ⟨values, layers⟩ => sortUnique (values.keys.filter (startsWith start) ++ layersKeysWithPrefix start layers)

def layersKeysWithPrefix (start : String) : List (String × ConfigManager) → List String
  | [] => []
  | (_, layer) :: rest => layer.getKeysWithPrefix start ++ layersKeysWithPrefix start rest

end

mutual

def getEffectiveValue : ConfigManager → String → Except ContainerError ConfigValue
  | ⟨values, layers⟩, key =>
    match values[key]? with
    | some v => .ok v
    | none => firstLayer layers key

def firstLayer : List (String × ConfigManager) → String → Except ContainerError ConfigValue
  | [], key => .error (Config.ConfigManager.notFound key)
  | (_, layer) :: rest, key => if layer.has key then layer.getEffectiveValue key else firstLayer rest key

end

def get (c : ConfigManager) (T : ConfigValueType) (key : String) : Except ContainerError ConfigValue :=
  if c.has key then do
    let v ← c.getEffectiveValue key
    v.get T Config.ConfigManager.typeMismatch
  else .error (Config.ConfigManager.notFound key)

/-! ## Configurations made from others -/

mutual

/-- The copy constructor. -/
def copy : ConfigManager → ConfigManager
  | ⟨values, layers⟩ => ⟨values, copyLayers layers⟩

def copyLayers : List (String × ConfigManager) → List (String × ConfigManager)
  | [] => []
  | (name, layer) :: rest => (name, layer.copy) :: copyLayers rest

end

mutual

def getSubConfig (start : String) : ConfigManager → ConfigManager
  | ⟨values, layers⟩ =>
    let matching := values.toList.filter fun e => startsWith start e.1
    let own := matching.map fun e => (String.ofList (e.1.toList.drop start.toList.length), e.2)
    mergeSubConfigs start layers { values := writeAll ∅ own }

def mergeSubConfigs (start : String) : List (String × ConfigManager) → ConfigManager → ConfigManager
  | [], sub => sub
  | (_, layer) :: rest, sub => mergeSubConfigs start rest (sub.merge (layer.getSubConfig start))

end

def getEffectiveConfig (c : ConfigManager) : ConfigManager :=
  { values := overlay c.values (c.layers.map (·.2.values)) }

mutual

def expandEnvironmentVariables (env : Env) : ConfigManager → ConfigManager
  | ⟨values, layers⟩ =>
    let own := values.toList.map fun e => (e.1, expandedValue env e.2)
    expandLayers env layers (own.foldl (fun c e => c.set e.1 e.2) {})

def expandLayers (env : Env) : List (String × ConfigManager) → ConfigManager → ConfigManager
  | [], expanded => expanded
  | (name, layer) :: rest, expanded =>
    expandLayers env rest (expanded.addLayer name (layer.expandEnvironmentVariables env))

end

end ConfigManager

/-! ## What can be built -/

inductive Reachable : ConfigManager → Prop where
  | fresh : Reachable {}
  | set {c : ConfigManager} (h : Reachable c) (key : String) (value : ConfigValue) : Reachable (c.set key value)
  | remove {c : ConfigManager} (h : Reachable c) (key : String) : Reachable (c.remove key)
  | clear {c : ConfigManager} (h : Reachable c) : Reachable c.clear
  | merge {c other : ConfigManager} (h : Reachable c) (h' : Reachable other) : Reachable (c.merge other)
  | addLayer {c layer : ConfigManager} (h : Reachable c) (name : String) (h' : Reachable layer) :
    Reachable (c.addLayer name layer)
  | removeLayer {c : ConfigManager} (h : Reachable c) (name : String) : Reachable (c.removeLayer name)
  | copy {c : ConfigManager} (h : Reachable c) : Reachable c.copy
  | getSubConfig {c : ConfigManager} (h : Reachable c) (start : String) : Reachable (c.getSubConfig start)
  | getEffectiveConfig {c : ConfigManager} (h : Reachable c) : Reachable c.getEffectiveConfig
  | expandEnvironmentVariables {c : ConfigManager} (h : Reachable c) (env : Env) :
    Reachable (c.expandEnvironmentVariables env)
  | mergeFromJsonString {c : ConfigManager} (h : Reachable c) (b : Build) (text : String) :
    Reachable (c.mergeFromJsonString b text)
  | loadFromJsonString {c : ConfigManager} (h : Reachable c) (b : Build) (text : String) :
    Reachable (c.loadFromJsonString b text)

/-- The names of the layers increase, and no layer has layers. -/
structure WellFormed (c : ConfigManager) : Prop where
  sorted : Assoc.Sorted c.layers
  shallow : ∀ e ∈ c.layers, e.2.layers = []

/-! ## Layers have values only -/

variable {layers : List (String × ConfigManager)} {c : ConfigManager} {m : Std.ExtTreeMap String Values}
  {f flat : Config.ConfigManager}
  {f : Config.ConfigManager}

theorem lookup_none_iff {name : String} : layers.lookup name = none ↔ ∀ e ∈ layers, e.1 ≠ name := by
  rw [List.lookup_eq_none_iff]
  constructor
  · intro h e he heq
    simpa [heq] using h e he
  · intro h e he
    simpa using Ne.symm (h e he)

theorem mem_emplace (h : Assoc.Sorted layers) (name : String) (layer : ConfigManager) (e : String × ConfigManager) :
    e ∈ emplace name layer layers ↔ e ∈ layers ∨ (e = (name, layer) ∧ ∀ e' ∈ layers, e'.1 ≠ name) := by
  unfold emplace
  cases hl : layers.lookup name with
  | some old =>
    have hmem : (name, old) ∈ layers := (Assoc.lookup_eq_some h).mp hl
    simp only [Option.isSome_some, if_true]
    exact ⟨Or.inl, fun he => he.resolve_right fun hnew => hnew.2 _ hmem rfl⟩
  | none =>
    have hfree := lookup_none_iff.mp hl
    rw [if_neg (by simp), Assoc.mem_put h]
    constructor
    · rintro (he | he)
      · exact Or.inr ⟨he, hfree⟩
      · exact Or.inl he.1
    · rintro (he | he)
      · exact Or.inr ⟨he, hfree e he⟩
      · exact Or.inl he.1

theorem sorted_emplace (h : Assoc.Sorted layers) (name : String)
    (layer : ConfigManager) : Assoc.Sorted (emplace name layer layers) := by
  unfold emplace
  split
  · exact h
  · exact Assoc.sorted_put h

/-- A layer that is stored has values only. -/
theorem WellFormed.emplace (h : WellFormed c) (name : String) (values : Values) :
    WellFormed { c with layers := Layered.emplace name { values := values } c.layers } := by
  refine ⟨sorted_emplace h.sorted name _, fun e he => ?_⟩
  rcases (mem_emplace h.sorted name _ e).mp he with he | ⟨rfl, -⟩
  · exact h.shallow e he
  · rfl

theorem WellFormed.values (h : WellFormed c) (values : Values) : WellFormed { c with values := values } :=
  ⟨h.sorted, h.shallow⟩

theorem wellFormed_flat (values : Values) : WellFormed { values := values } :=
  ⟨List.Pairwise.nil, fun _ he => absurd he List.not_mem_nil⟩

theorem WellFormed.setEach (h : WellFormed c) (es : List (String × ConfigValue)) :
    WellFormed (es.foldl (fun c e => c.set e.1 e.2) c) := by
  induction es generalizing c with
  | nil => exact h
  | cons e es ih => exact ih (h.values _)

theorem WellFormed.merge (h : WellFormed c) (other : ConfigManager) : WellFormed (c.merge other) := by
  have hlayers : ∀ (ls : List (String × ConfigManager)) (c : ConfigManager), WellFormed c →
      WellFormed { c with
        layers := ls.foldl (fun layers e => Layered.emplace e.1 e.2.copyValuesOnly layers) c.layers } := by
    intro ls
    induction ls with
    | nil => exact fun c h => ⟨h.sorted, h.shallow⟩
    | cons e ls ih => exact fun c h => ih _ (h.emplace e.1 e.2.values)
  exact hlayers other.layers { c with values := writeAll c.values other.values.toList } (h.values _)

theorem mergeSubConfigs_wellFormed (start : String) (layers : List (String × ConfigManager)) {sub : ConfigManager}
    (h : WellFormed sub) : WellFormed (ConfigManager.mergeSubConfigs start layers sub) := by
  induction layers generalizing sub with
  | nil => exact h
  | cons e rest ih => exact ih (h.merge _)

theorem expandLayers_wellFormed (env : Env) (layers : List (String × ConfigManager)) {expanded : ConfigManager}
    (h : WellFormed expanded) : WellFormed (ConfigManager.expandLayers env layers expanded) := by
  induction layers generalizing expanded with
  | nil => exact h
  | cons e rest ih => exact ih (h.emplace e.1 _)

mutual

theorem copy_eq : ∀ c : ConfigManager, c.copy = c
  | ⟨values, layers⟩ => by rw [ConfigManager.copy, copyLayers_eq layers]

theorem copyLayers_eq : ∀ layers : List (String × ConfigManager), ConfigManager.copyLayers layers = layers
  | [] => rfl
  | (name, layer) :: rest => by rw [ConfigManager.copyLayers, copy_eq layer, copyLayers_eq rest]

end

theorem reachable_wellFormed (h : Reachable c) : WellFormed c := by
  induction h with
  | fresh => exact wellFormed_flat ∅
  | set _ key value ih => exact ih.values _
  | remove _ key ih => exact ih.values _
  | clear _ _ => exact wellFormed_flat ∅
  | merge _ _ ih _ => exact ih.merge _
  | addLayer _ name _ ih _ => exact ih.emplace name _
  | removeLayer _ name ih =>
    exact ⟨ih.sorted.filter _, fun e he => ih.shallow e (List.mem_filter.mp he).1⟩
  | copy _ ih =>
    rw [copy_eq]
    exact ih
  | @getSubConfig c _ start _ =>
    cases c
    rw [ConfigManager.getSubConfig]
    exact mergeSubConfigs_wellFormed start _ (wellFormed_flat _)
  | getEffectiveConfig _ _ => exact wellFormed_flat _
  | @expandEnvironmentVariables c _ env _ =>
    cases c
    rw [ConfigManager.expandEnvironmentVariables]
    exact expandLayers_wellFormed env _ ((wellFormed_flat ∅).setEach _)
  | mergeFromJsonString _ b text ih => exact ih.setEach _
  | loadFromJsonString _ b text _ => exact (wellFormed_flat ∅).setEach _

/-! ## Sorted keys -/

theorem mem_destutter {l : List String} (k : String) : k ∈ l.destutter (· ≠ ·) ↔ k ∈ l := by
  have hcons : ∀ (l : List String) (x : String), k ∈ l.destutter' (· ≠ ·) x ↔ k = x ∨ k ∈ l := by
    intro l
    induction l with
    | nil => simp
    | cons y l ih =>
      intro x
      rw [List.destutter'_cons]
      split
      · rw [List.mem_cons, ih, List.mem_cons]
      · rename_i hxy
        rw [ih, List.mem_cons, ← not_not.mp hxy, ← or_assoc, or_self]
  cases l with
  | nil => rfl
  | cons x l => rw [List.destutter_cons', hcons, List.mem_cons]

theorem mem_sortUnique {keys : List String} (k : String) : k ∈ sortUnique keys ↔ k ∈ keys := by
  rw [sortUnique, mem_destutter, List.mem_mergeSort]

/-- Neighbours that are ordered and differ increase. -/
theorem increasing_of_destuttered {l : List String} (hle : l.Pairwise (· ≤ ·)) (hne : l.IsChain (· ≠ ·)) :
    l.IsChain (· < ·) := by
  induction l with
  | nil => exact List.IsChain.nil
  | cons x l ih =>
    cases l with
    | nil => exact List.IsChain.singleton x
    | cons y l =>
      rw [List.isChain_cons_cons] at hne ⊢
      obtain ⟨hx, hrest⟩ := List.pairwise_cons.mp hle
      exact ⟨lt_of_le_of_ne (hx y List.mem_cons_self) hne.1, ih hrest hne.2⟩

theorem sortUnique_increasing (keys : List String) : (sortUnique keys).Pairwise (· < ·) := by
  have htrans : ∀ a b c : String, decide (a ≤ b) = true → decide (b ≤ c) = true → decide (a ≤ c) = true :=
    fun a b c hab hbc => decide_eq_true ((of_decide_eq_true hab).trans (of_decide_eq_true hbc))
  have htotal : ∀ a b : String, (decide (a ≤ b) || decide (b ≤ a)) = true := fun a b => by
    simpa using le_total a b
  have hsorted : (keys.mergeSort (· ≤ ·)).Pairwise (· ≤ ·) :=
    (List.pairwise_mergeSort htrans htotal keys).imp of_decide_eq_true
  have hle : (sortUnique keys).Pairwise (· ≤ ·) := hsorted.sublist (List.destutter_sublist _ _)
  exact List.isChain_iff_pairwise.mp (increasing_of_destuttered hle (List.isChain_destutter _ _))

/-! ## Views -/

mutual

theorem mem_getKeys : ∀ (c : ConfigManager) (k : String), k ∈ c.getKeys ↔ c.has k = true
  | ⟨values, layers⟩, k => by
    rw [ConfigManager.getKeys, mem_sortUnique, List.mem_append, Std.ExtTreeMap.mem_keys, mem_layersKeys layers k,
      ConfigManager.has, Bool.or_eq_true, Std.ExtTreeMap.contains_iff_mem]

theorem mem_layersKeys : ∀ (layers : List (String × ConfigManager)) (k : String),
    k ∈ ConfigManager.layersKeys layers ↔ ConfigManager.layersHave layers k = true
  | [], k => by simp [ConfigManager.layersKeys, ConfigManager.layersHave]
  | (_, layer) :: rest, k => by
    rw [ConfigManager.layersKeys, List.mem_append, mem_getKeys layer k, mem_layersKeys rest k,
      ConfigManager.layersHave, Bool.or_eq_true]

end

mutual

theorem mem_getKeysWithPrefix (start : String) : ∀ (c : ConfigManager) (k : String),
    k ∈ c.getKeysWithPrefix start ↔ c.has k = true ∧ startsWith start k = true
  | ⟨values, layers⟩, k => by
    rw [ConfigManager.getKeysWithPrefix, mem_sortUnique, List.mem_append, List.mem_filter, Std.ExtTreeMap.mem_keys,
      mem_layersKeysWithPrefix start layers k, ConfigManager.has, Bool.or_eq_true, Std.ExtTreeMap.contains_iff_mem,
      or_and_right]

theorem mem_layersKeysWithPrefix (start : String) : ∀ (layers : List (String × ConfigManager)) (k : String),
    k ∈ ConfigManager.layersKeysWithPrefix start layers ↔
      ConfigManager.layersHave layers k = true ∧ startsWith start k = true
  | [], k => by simp [ConfigManager.layersKeysWithPrefix, ConfigManager.layersHave]
  | (_, layer) :: rest, k => by
    rw [ConfigManager.layersKeysWithPrefix, List.mem_append, mem_getKeysWithPrefix start layer k,
      mem_layersKeysWithPrefix start rest k, ConfigManager.layersHave, Bool.or_eq_true, or_and_right]

end

mutual

theorem getEffectiveValue_found : ∀ (c : ConfigManager) (k : String), c.has k = true →
    ∃ v, c.getEffectiveValue k = .ok v
  | ⟨values, layers⟩, k, h => by
    rw [ConfigManager.getEffectiveValue]
    cases hv : values[k]? with
    | some v => exact ⟨v, rfl⟩
    | none =>
      have hnot : values.contains k = false := by
        rw [Std.ExtTreeMap.contains_eq_isSome_getElem?, hv]
        rfl
      rw [ConfigManager.has, hnot, Bool.false_or] at h
      exact firstLayer_found layers k h

theorem firstLayer_found : ∀ (layers : List (String × ConfigManager)) (k : String),
    ConfigManager.layersHave layers k = true → ∃ v, ConfigManager.firstLayer layers k = .ok v
  | [], k, h => by cases h
  | (_, layer) :: rest, k, h => by
    rw [ConfigManager.firstLayer]
    cases hl : layer.has k with
    | true => exact getEffectiveValue_found layer k hl
    | false =>
      rw [ConfigManager.layersHave, hl, Bool.false_or] at h
      exact firstLayer_found rest k h

end

/-- `get` throws CONFIG_MISSING for the keys that are not there, whatever the type. -/
theorem get_not_missing_iff (c : ConfigManager) (T : ConfigValueType) (k : String) :
    (∀ e, c.get T k = .error e → e.code ≠ .configMissing) ↔ c.has k = true := by
  unfold ConfigManager.get
  cases hk : c.has k with
  | false =>
    simp only [Bool.false_eq_true, if_false, iff_false]
    exact fun h => h _ rfl rfl
  | true =>
    refine iff_of_true (fun e he => ?_) rfl
    obtain ⟨v, hv⟩ := getEffectiveValue_found c k hk
    have hget : v.get T Config.ConfigManager.typeMismatch = .error e := by
      rw [if_pos rfl, hv] at he
      exact he
    unfold ConfigValue.get at hget
    split at hget
    · cases hget
    · cases hget
      decide

/-- One level down is all there is. -/
theorem layersHave_flat (h : ∀ e ∈ layers, e.2.layers = []) (k : String) : ConfigManager.layersHave layers k =
      (layers.map fun e => (e.1, e.2.values)).any fun layer => layer.2.contains k := by
  induction layers with
  | nil => rfl
  | cons e rest ih =>
    obtain ⟨name, ⟨values, layers⟩⟩ := e
    have hnone : layers = [] := h _ List.mem_cons_self
    subst hnone
    rw [ConfigManager.layersHave, ih fun e he => h e (List.mem_cons_of_mem _ he)]
    simp [ConfigManager.has, ConfigManager.layersHave]

theorem layersHave_iff (h : ∀ e ∈ layers, e.2.layers = []) (k : String) :
    ConfigManager.layersHave layers k = true ↔ ∃ e ∈ layers, k ∈ e.2.values := by
  rw [layersHave_flat h, List.any_map, List.any_eq_true]
  simp

theorem has_iff (h : WellFormed c) (k : String) : c.has k = true ↔ k ∈ c.values ∨ ∃ e ∈ c.layers, k ∈ e.2.values := by
  have hlayers := layersHave_iff h.shallow k
  cases c
  rw [ConfigManager.has, Bool.or_eq_true, Std.ExtTreeMap.contains_iff_mem]
  exact or_congr Iff.rfl hlayers

theorem effective_has_iff (c : ConfigManager) (k : String) :
    c.getEffectiveConfig.has k = true ↔ k ∈ c.values ∨ ∃ e ∈ c.layers, k ∈ e.2.values := by
  rw [ConfigManager.getEffectiveConfig, has_iff (wellFormed_flat _)]
  simp [mem_overlay]

theorem startsWith_iff (start key : String) : startsWith start key = start.toList.isPrefixOf key.toList := by
  rw [Bool.eq_iff_iff, List.isPrefixOf_iff_prefix, List.prefix_iff_eq_take, startsWith, beq_iff_eq]
  exact eq_comm

/-- In every manager that can be built: no layer has layers, all views of the keys agree,
    and the keys come in increasing order, those with a prefix as a part of all. -/
theorem key_views_agree {c : ConfigManager} (h : Reachable c) :
    (∀ e ∈ c.layers, e.2.layers = []) ∧
    (∀ k, (k ∈ c.getKeys ↔ c.has k = true) ∧ (c.getEffectiveConfig.has k = true ↔ c.has k = true) ∧
      ∀ T, (∀ e, c.get T k = .error e → e.code ≠ .configMissing) ↔ c.has k = true) ∧
    c.getKeys.Pairwise (· < ·) ∧
    ∀ start : String, c.getKeysWithPrefix start = c.getKeys.filter fun k => start.toList.isPrefixOf k.toList := by
  have hwf := reachable_wellFormed h
  have hkeys : c.getKeys.Pairwise (· < ·) := by
    cases c
    exact sortUnique_increasing _
  refine ⟨hwf.shallow, fun k => ⟨mem_getKeys c k, ?_, fun T => get_not_missing_iff c T k⟩, hkeys, fun start => ?_⟩
  · rw [effective_has_iff, has_iff hwf]
  · have hstart : (c.getKeysWithPrefix start).Pairwise (· < ·) := by
      cases c
      exact sortUnique_increasing _
    refine hstart.eq_of_mem_iff (hkeys.filter _) fun k => ?_
    rw [mem_getKeysWithPrefix, List.mem_filter, mem_getKeys, startsWith_iff]

/-- Own values, and a layer with a key of its own. -/
def twoKeys : ConfigManager :=
  (({} : ConfigManager).set "b" (.integer 1)).addLayer "l" (({} : ConfigManager).set "a" (.integer 2))

theorem twoKeys_reachable : Reachable twoKeys := (Reachable.fresh.set _ _).addLayer _ (Reachable.fresh.set _ _)

theorem key_views_agree_twoKeys :
    twoKeys.has "a" = true ∧ "a" ∈ twoKeys.getKeys ∧ twoKeys.getEffectiveConfig.has "a" = true := by
  have h := (key_views_agree twoKeys_reachable).2.1 "a"
  have hhas : twoKeys.has "a" = true := by decide +kernel
  exact ⟨hhas, h.1.mpr hhas, h.2.1.mpr hhas⟩

/-! ## The flat model

A layer of `Config.ConfigManager` is the values of one here. -/

def Stores (layers : List (String × ConfigManager)) (m : Std.ExtTreeMap String Values) : Prop :=
  ∀ (name : String) (values : Values), m[name]? = some values ↔ ∃ layer, (name, layer) ∈ layers ∧ layer.values = values

structure Represents (c : ConfigManager) (f : Config.ConfigManager) : Prop where
  values : f.values = c.values
  layers : Stores c.layers f.layers

theorem Stores.mem_iff (h : Stores layers m) (name : String) : name ∈ m ↔ ∃ e ∈ layers, e.1 = name := by
  rw [Std.ExtTreeMap.mem_iff_isSome_getElem?, Option.isSome_iff_exists]
  constructor
  · rintro ⟨values, hv⟩
    obtain ⟨layer, hmem, -⟩ := (h name values).mp hv
    exact ⟨_, hmem, rfl⟩
  · rintro ⟨⟨_, layer⟩, hmem, rfl⟩
    exact ⟨layer.values, (h _ _).mpr ⟨layer, hmem, rfl⟩⟩

theorem Stores.emplace (h : Stores layers m) (hs : Assoc.Sorted layers) (name : String) (values : Values) :
    Stores (Layered.emplace name { values := values } layers) (m.insertIfNew name values) := by
  intro n vs
  simp only [Std.ExtTreeMap.getElem?_insertIfNew, mem_emplace hs, compare_eq_iff_eq]
  by_cases hnew : name = n ∧ name ∉ m
  · -- the new layer
    obtain ⟨rfl, hfree⟩ := hnew
    have hnone : ∀ e ∈ layers, e.1 ≠ name := fun e he heq => hfree ((h.mem_iff name).mpr ⟨e, he, heq⟩)
    rw [if_pos ⟨rfl, hfree⟩]
    constructor
    · intro hv
      exact ⟨_, Or.inr ⟨rfl, hnone⟩, Option.some.inj hv⟩
    · rintro ⟨layer, hmem | ⟨heq, -⟩, rfl⟩
      · exact absurd rfl (hnone _ hmem)
      · cases heq
        rfl
  · rw [if_neg hnew, h n vs]
    constructor
    · rintro ⟨layer, hmem, hv⟩
      exact ⟨layer, Or.inl hmem, hv⟩
    · rintro ⟨layer, hmem | ⟨heq, hnone⟩, hv⟩
      · exact ⟨layer, hmem, hv⟩
      · cases heq
        refine absurd ⟨rfl, fun hmem => ?_⟩ hnew
        obtain ⟨e, he, heq⟩ := (h.mem_iff name).mp hmem
        exact hnone e he heq

theorem Stores.emplaceAll (h : Stores layers m) (hs : Assoc.Sorted layers) (more : List (String × ConfigManager)) :
    Stores (more.foldl (fun layers e => Layered.emplace e.1 e.2.copyValuesOnly layers) layers)
      ((more.map fun e => (e.1, e.2.values)).foldl (fun ls e => ls.insertIfNew e.1 e.2) m) := by
  induction more generalizing layers m with
  | nil => exact h
  | cons e more ih => exact ih (h.emplace hs e.1 e.2.values) (sorted_emplace hs _ _)

/-- In the order of the names. -/
theorem Represents.toList (h : Represents c f) (hc : WellFormed c) :
    f.layers.toList = c.layers.map fun e => (e.1, e.2.values) := by
  have hsorted : Assoc.Sorted f.layers.toList :=
    (Std.ExtTreeMap.ordered_keys_toList (t := f.layers)).imp fun {a b} hab => compare_lt_iff_lt.mp hab
  have hsorted' : Assoc.Sorted (c.layers.map fun e => (e.1, e.2.values)) := List.pairwise_map.mpr hc.sorted
  refine hsorted.ext hsorted' fun e => ?_
  rw [Std.ExtTreeMap.mem_toList_iff_getElem?_eq_some, h.layers, List.mem_map]
  constructor
  · rintro ⟨layer, hmem, hv⟩
    exact ⟨(e.1, layer), hmem, by rw [hv]⟩
  · rintro ⟨⟨name, layer⟩, hmem, rfl⟩
    exact ⟨layer, hmem, rfl⟩

theorem represents_fresh : Represents {} {} :=
  ⟨rfl, fun name values => by simp⟩

theorem Represents.set (h : Represents c f) (key : String)
    (value : ConfigValue) : Represents (c.set key value) (f.set key value) :=
  ⟨by rw [set_values, h.values]; rfl, by rw [set_layers]; exact h.layers⟩

theorem Represents.setEach (h : Represents c f)
    (es : List (String × ConfigValue)) : Represents (es.foldl (fun c e => c.set e.1 e.2) c) (f.setEach es) := by
  induction es generalizing c f with
  | nil => exact h
  | cons e es ih => exact ih (h.set e.1 e.2)

/-- In either build the document makes the same calls of `set` on both. -/
theorem Represents.mergeFromJsonString (h : Represents c f) (b : Build)
    (text : String) : Represents (c.mergeFromJsonString b text) (b.mergeFromJsonString text f).2 := by
  rw [mergeFromJsonString_eq]
  exact h.setEach _

theorem Represents.remove (h : Represents c f) (key : String) : Represents (c.remove key) (f.remove key) := by
  unfold Config.ConfigManager.remove
  split
  · exact ⟨by rw [notifyChange_values, h.values]; rfl, by rw [notifyChange_layers]; exact h.layers⟩
  · rename_i hnone
    refine ⟨?_, h.layers⟩
    -- erasing a key that is not there
    refine Std.ExtTreeMap.ext_getElem? fun k => ?_
    rw [ConfigManager.remove, ← h.values, Std.ExtTreeMap.getElem?_erase]
    split
    · rename_i heq
      rw [← compare_eq_iff_eq.mp heq]
      exact hnone
    · rfl

theorem represents_clear (c : ConfigManager) (f : Config.ConfigManager) : Represents c.clear f.clear :=
  ⟨rfl, represents_fresh.layers⟩

theorem Represents.addLayer {c layer : ConfigManager} (h : Represents c f)
    (hc : WellFormed c) (name : String) (h' : Represents layer flat) :
    Represents (c.addLayer name layer) (f.addLayer name flat) := by
  refine ⟨h.values, ?_⟩
  rw [Config.ConfigManager.addLayer, h'.values]
  exact h.layers.emplace hc.sorted name layer.values

theorem Represents.removeLayer (h : Represents c f) (name : String) :
    Represents (c.removeLayer name) (f.removeLayer name) := by
  refine ⟨h.values, fun n values => ?_⟩
  simp only [Config.ConfigManager.removeLayer, ConfigManager.removeLayer, Std.ExtTreeMap.getElem?_erase,
    compare_eq_iff_eq, List.mem_filter, decide_eq_true_eq]
  by_cases hn : name = n
  · simp [hn]
  · rw [if_neg hn, h.layers n values]
    constructor
    · rintro ⟨layer, hmem, hv⟩
      exact ⟨layer, ⟨hmem, Ne.symm hn⟩, hv⟩
    · rintro ⟨layer, ⟨hmem, -⟩, hv⟩
      exact ⟨layer, hmem, hv⟩

theorem Represents.merge {c other : ConfigManager} (h : Represents c f)
    (hc : WellFormed c) (h' : Represents other flat) (ho : WellFormed other) :
    Represents (c.merge other) (f.merge flat) := by
  have hlayers : (f.setEach flat.values.toList).layers = f.layers := setEach_layers _ _
  refine ⟨?_, ?_⟩
  · have hvalues : (f.merge flat).values = writeAll f.values flat.values.toList := setEach_values _ _
    rw [hvalues, h.values, h'.values]
    rfl
  · have hmerged : (f.merge flat).layers =
        (flat.layers.toList).foldl (fun ls e => ls.insertIfNew e.1 e.2) f.layers := by
      rw [← hlayers]
      rfl
    rw [hmerged, h'.toList ho]
    exact h.layers.emplaceAll hc.sorted other.layers

/-! What a manager answers is what the flat model answers. -/

theorem firstLayer_flat (h : ∀ e ∈ layers, e.2.layers = []) (k : String) : ConfigManager.firstLayer layers k =
      Config.ConfigManager.firstLayer k (layers.map fun e => (e.1, e.2.values)) := by
  induction layers with
  | nil => rfl
  | cons e rest ih =>
    obtain ⟨name, ⟨values, layers⟩⟩ := e
    have hnone : layers = [] := h _ List.mem_cons_self
    subst hnone
    have hhas : (ConfigManager.mk values []).has k = values[k]?.isSome := by
      rw [ConfigManager.has, ConfigManager.layersHave, Bool.or_false, Std.ExtTreeMap.contains_eq_isSome_getElem?]
    rw [ConfigManager.firstLayer, hhas, ih fun e he => h e (List.mem_cons_of_mem _ he), List.map_cons,
      Config.ConfigManager.firstLayer]
    cases hv : values[k]? with
    | none => rfl
    | some v =>
      rw [ConfigManager.getEffectiveValue, hv]
      rfl

theorem represents_lookup (hc : WellFormed c) (h : Represents c f) (k : String) :
    f.has k = c.has k ∧ (∀ T, f.get T k = c.get T k) ∧ f.getEffectiveConfig.values = c.getEffectiveConfig.values := by
  have hlist := h.toList hc
  have hhas : f.has k = c.has k := by
    rw [Config.ConfigManager.has, hlist, h.values, ← layersHave_flat hc.shallow]
    cases c
    rfl
  have hvalue : f.getEffectiveValue k = c.getEffectiveValue k := by
    rw [Config.ConfigManager.getEffectiveValue, hlist, h.values, ← firstLayer_flat hc.shallow]
    cases c
    rfl
  refine ⟨hhas, fun T => ?_, ?_⟩
  · rw [Config.ConfigManager.get, ConfigManager.get, hhas, hvalue]
  · rw [Config.ConfigManager.getEffectiveConfig, ConfigManager.getEffectiveConfig, hlist, h.values, List.map_map]
    rfl

/-- A manager and a flat one after the same calls. -/
inductive Built : ConfigManager → Config.ConfigManager → Prop where
  | fresh : Built {} {}
  | set {c : ConfigManager} {f : Config.ConfigManager} (h : Built c f) (key : String) (value : ConfigValue) :
    Built (c.set key value) (f.set key value)
  | remove {c : ConfigManager} {f : Config.ConfigManager} (h : Built c f) (key : String) :
    Built (c.remove key) (f.remove key)
  | clear {c : ConfigManager} {f : Config.ConfigManager} (h : Built c f) : Built c.clear f.clear
  | merge {c other : ConfigManager} {f flat : Config.ConfigManager} (h : Built c f) (h' : Built other flat) :
    Built (c.merge other) (f.merge flat)
  | addLayer {c layer : ConfigManager} {f flat : Config.ConfigManager} (h : Built c f) (name : String)
    (h' : Built layer flat) : Built (c.addLayer name layer) (f.addLayer name flat)
  | removeLayer {c : ConfigManager} {f : Config.ConfigManager} (h : Built c f) (name : String) :
    Built (c.removeLayer name) (f.removeLayer name)
  | getEffectiveConfig {c : ConfigManager} {f : Config.ConfigManager} (h : Built c f) :
    Built c.getEffectiveConfig f.getEffectiveConfig
  | mergeFromJsonString {c : ConfigManager} {f : Config.ConfigManager} (h : Built c f) (b : Build) (text : String) :
    Built (c.mergeFromJsonString b text) (b.mergeFromJsonString text f).2
  | loadFromJsonString {c : ConfigManager} {f : Config.ConfigManager} (h : Built c f) (b : Build) (text : String) :
    Built (c.loadFromJsonString b text) (b.loadFromJsonString text f).2

theorem Built.reachable (h : Built c f) : Reachable c := by
  induction h with
  | fresh => exact .fresh
  | set _ key value ih => exact ih.set key value
  | remove _ key ih => exact ih.remove key
  | clear _ ih => exact ih.clear
  | merge _ _ ih ih' => exact ih.merge ih'
  | addLayer _ name _ ih ih' => exact ih.addLayer name ih'
  | removeLayer _ name ih => exact ih.removeLayer name
  | getEffectiveConfig _ ih => exact ih.getEffectiveConfig
  | mergeFromJsonString _ b text ih => exact ih.mergeFromJsonString b text
  | loadFromJsonString _ b text ih => exact ih.loadFromJsonString b text

theorem Built.represents (h : Built c f) : Represents c f := by
  induction h with
  | fresh => exact represents_fresh
  | set _ key value ih => exact ih.set key value
  | remove _ key ih => exact ih.remove key
  | clear _ _ => exact represents_clear _ _
  | merge h h' ih ih' =>
    exact ih.merge (reachable_wellFormed h.reachable) ih' (reachable_wellFormed h'.reachable)
  | addLayer h name _ ih ih' => exact ih.addLayer (reachable_wellFormed h.reachable) name ih'
  | removeLayer _ name ih => exact ih.removeLayer name
  | getEffectiveConfig h ih =>
    exact ⟨(represents_lookup (reachable_wellFormed h.reachable) ih "").2.2, represents_fresh.layers⟩
  | mergeFromJsonString _ b text ih => exact ih.mergeFromJsonString b text
  | loadFromJsonString _ b text _ => exact (represents_clear _ _).mergeFromJsonString b text

/-- After the same calls both answer the same. -/
theorem Built.same_answers (h : Built c f) (k : String) : f.has k = c.has k ∧ ∀ T, f.get T k = c.get T k :=
  have hlookup := represents_lookup (reachable_wellFormed h.reachable) h.represents k
  ⟨hlookup.1, hlookup.2.1⟩

end DockerCpp.Config.Layered
