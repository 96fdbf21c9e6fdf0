/-
  DockerCpp.Core.ConfigPresence — presence and lookup in the configuration manager of core/.

  `has` looks at the layers' own data. `getValue` asks each layer's `has`, which looks one
  level further down, and then reads that layer's own data with `at`. So the last layer that
  has a key through a layer of its own makes `getValue` throw std::out_of_range, whether
  `has` answers true or false (`lookup_presence_iff`): a key in a layer's layer only is not
  reported missing (`a_layer_of_a_layer_is_out_of_range`).
-/

import DockerCpp.Core.Config

namespace DockerCpp.Core.ConfigManager

inductive Reachable : ConfigManager → Prop where
  | fresh : Reachable {}
  | set {c : ConfigManager} (h : Reachable c) (key : String) (value : ConfigValue) : Reachable (c.set key value)
  | remove {c : ConfigManager} (h : Reachable c) (key : String) : Reachable (c.remove key)
  | clear {c : ConfigManager} (h : Reachable c) : Reachable c.clear
  | merge {c other : ConfigManager} (h : Reachable c) (h' : Reachable other) : Reachable (c.merge other)
  | addLayer {c layer : ConfigManager} (h : Reachable c) (name : String) (h' : Reachable layer) :
    Reachable (c.addLayer name layer)

/-- `getValue` returns if `has`, and throws CONFIG_MISSING if not. -/
def LookupMatchesPresence (c : ConfigManager) (key : String) : Prop :=
  (c.has key = true → ∃ v, c.getValue key = .ok v) ∧
  (c.has key = false → ∃ what, c.getValue key = .error (.container ⟨.configMissing, what⟩))

/-- The layer `getValue` reads a key from: the last one that has it. -/
def readLayer (c : ConfigManager) (key : String) : Option (String × ConfigManager) :=
  c.layers.reverse.find? fun layer => layer.2.has key

variable {key : String} {c : ConfigManager} {l : List (String × ConfigManager)} {layer : String × ConfigManager}

theorem fromLayers_of_none (h : l.find? (fun layer => layer.2.has key) = none) :
    fromLayers key l = .error (.container ⟨.configMissing, "Configuration key not found: " ++ key⟩) := by
  induction l with
  | nil => rfl
  | cons layer l ih =>
    rw [List.find?_eq_none] at h
    have hrest := List.find?_eq_none.mpr fun other hmem => h other (List.mem_cons_of_mem _ hmem)
    rw [fromLayers, if_neg (h layer List.mem_cons_self), ih hrest]

theorem fromLayers_of_some (h : l.find? (fun layer => layer.2.has key) = some layer) :
    fromLayers key l = layer.2.configData[key]?.elim (.error .outOfRange) .ok := by
  induction l with
  | nil => cases h
  | cons first l ih =>
    rw [List.find?_cons] at h
    rw [fromLayers]
    cases hfirst : first.2.has key with
    | true =>
      rw [hfirst] at h
      obtain rfl := Option.some.inj h
      cases first.2.configData[key]? <;> rfl
    | false =>
      rw [hfirst] at h
      exact ih h

theorem has_of_mem (h : key ∈ c.configData) : c.has key = true := by
  rw [has, Std.ExtTreeMap.contains_iff_mem.mpr h, Bool.true_or]

theorem has_of_layer (hmem : layer ∈ c.layers) (h : key ∈ layer.2.configData) : c.has key = true := by
  rw [has, Bool.or_eq_true, List.any_eq_true]
  exact Or.inr ⟨layer, hmem, Std.ExtTreeMap.contains_iff_mem.mpr h⟩

theorem not_has_of_readLayer_none (hown : key ∉ c.configData) (h : c.readLayer key = none) : c.has key = false := by
  have hlayers : ∀ layer ∈ c.layers, ¬layer.2.has key = true :=
    fun layer hmem => List.find?_eq_none.mp h layer (List.mem_reverse.mpr hmem)
  rw [← Bool.not_eq_true, has, Bool.or_eq_true, List.any_eq_true]
  rintro (h0 | ⟨layer, hmem, h0⟩)
  · exact hown (Std.ExtTreeMap.contains_iff_mem.mp h0)
  · exact hlayers layer hmem (has_of_mem (Std.ExtTreeMap.contains_iff_mem.mp h0))

theorem getValue_of_not_own (hown : key ∉ c.configData) : c.getValue key = fromLayers key c.layers.reverse := by
  rw [getValue, Std.ExtTreeMap.getElem?_eq_none hown]

/-- For every manager, however deep its layers are, and every key: lookup and presence
    agree iff the key is in the own data, or the last layer that has it has it in its own
    data. -/
theorem lookup_presence_iff (c : ConfigManager) (key : String) :
    c.LookupMatchesPresence key ↔
      key ∈ c.configData ∨ ∀ layer, c.readLayer key = some layer → key ∈ layer.2.configData := by
  by_cases hown : key ∈ c.configData
  · refine iff_of_true ⟨fun _ => ⟨c.configData[key], ?_⟩, fun h => ?_⟩ (Or.inl hown)
    · rw [getValue, Std.ExtTreeMap.getElem?_eq_some_getElem hown]
    · rw [has_of_mem hown] at h
      cases h
  · have hget := getValue_of_not_own hown
    cases hread : c.readLayer key with
    | none =>
      have hhas := not_has_of_readLayer_none hown hread
      rw [fromLayers_of_none hread] at hget
      refine iff_of_true ⟨fun h => ?_, fun _ => ⟨_, hget⟩⟩ (Or.inr fun layer h => by cases h)
      rw [hhas] at h
      cases h
    | some layer =>
      have hmem : layer ∈ c.layers := List.mem_reverse.mp (List.mem_of_find?_eq_some hread)
      rw [fromLayers_of_some hread] at hget
      by_cases hlayer : key ∈ layer.2.configData
      · rw [Std.ExtTreeMap.getElem?_eq_some_getElem hlayer] at hget
        refine iff_of_true ⟨fun _ => ⟨_, hget⟩, fun h => ?_⟩ (Or.inr fun other h => Option.some.inj h ▸ hlayer)
        rw [has_of_layer hmem hlayer] at h
        cases h
      · -- `at` throws, which neither answer of `has` allows
        rw [Std.ExtTreeMap.getElem?_eq_none hlayer] at hget
        refine iff_of_false (fun h => ?_) (fun h => h.elim hown fun h => hlayer (h layer rfl))
        cases hhas : c.has key with
        | true =>
          obtain ⟨v, hv⟩ := h.1 hhas
          rw [hget] at hv
          cases hv
        | false =>
          obtain ⟨what, hwhat⟩ := h.2 hhas
          rw [hget] at hwhat
          cases hwhat

/-- `k` in the own data, in a layer, and in a layer's layer. -/
def holdsKey : ConfigManager := ({} : ConfigManager).set "k" (.integer 1)

def layered : ConfigManager := ({} : ConfigManager).addLayer "inner" holdsKey

def nested : ConfigManager := ({} : ConfigManager).addLayer "outer" layered

theorem holdsKey_reachable : Reachable holdsKey := .set .fresh _ _

theorem layered_reachable : Reachable layered := .addLayer .fresh _ holdsKey_reachable

theorem nested_reachable : Reachable nested := .addLayer .fresh _ layered_reachable

theorem a_layer_of_a_layer_is_out_of_range :
    Reachable nested ∧ nested.has "k" = false ∧ nested.getValue "k" = .error .outOfRange :=
  ⟨nested_reachable, by decide +kernel, by decide +kernel⟩

end DockerCpp.Core.ConfigManager
