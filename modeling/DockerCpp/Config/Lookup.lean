/-
  DockerCpp.Config.Lookup — which layer a lookup sees, in both configuration managers.

  Along one key a manager has its own value and the values of the layers that hold the
  key, in the order of the layers (`layerValues`). Every lookup is a choice among these:
  `getEffectiveValue` takes the own value or the first, core's `getValue` the own value or
  the last, and both `getEffectiveConfig`s the last or the own value. So the two lookups of
  a manager agree on a key only where these choices fall together
  (`lookups_agree_iff`; `an_own_value_hides_and_is_hidden` is the plain overlap).

  `addLayer` keeps the first layer of a name and the layers are ordered by name, so the
  layer that wins is the greatest name among the first ones (`Wins`), not the one added
  last (`latest_wins_iff`, `a_later_layer_loses_by_its_name`).
-/

import DockerCpp.Config.Manager
import DockerCpp.Core.Config

namespace DockerCpp

open Lib

/-! ## The manager of config/ -/

namespace Config.ConfigManager

/-- The values a key has in the layers, in name order. -/
def layerValues (c : ConfigManager) (k : String) : List ConfigValue := c.layers.toList.filterMap fun e => e.2[k]?

def orNotFound (k : String) : Option ConfigValue → Except ContainerError ConfigValue
  | some v => .ok v
  | none => .error (notFound k)

theorem firstLayer_eq (k : String) (l : List (String × Values)) :
    firstLayer k l = orNotFound k (l.filterMap fun e => e.2[k]?).head? := by
  induction l with
  | nil => rfl
  | cons e l ih =>
    unfold firstLayer
    cases h : e.2[k]? with
    | none => simpa [h] using ih
    | some v => simp [h, orNotFound]

theorem getEffectiveValue_eq (c : ConfigManager) (k : String) :
    c.getEffectiveValue k = orNotFound k (c.values[k]?.or (c.layerValues k).head?) := by
  unfold getEffectiveValue
  cases h : c.values[k]? with
  | none => simpa [layerValues] using firstLayer_eq k c.layers.toList
  | some v => rfl

theorem getEffectiveConfig_lookup (c : ConfigManager) (k : String) :
    c.getEffectiveConfig.values[k]? = (c.layerValues k).getLast?.or c.values[k]? := by
  have h := getElem?_overlay c.values (c.layers.toList.map (·.2)) k
  rw [List.filterMap_map] at h
  exact h

theorem has_eq (c : ConfigManager) (k : String) : c.has k = (c.values[k]?.or (c.layerValues k).head?).isSome := by
  have hl : (c.layers.toList.any fun e => e.2.contains k) = (c.layerValues k).head?.isSome := by
    unfold layerValues
    induction c.layers.toList with
    | nil => rfl
    | cons e l ih =>
      have hc : e.2.contains k = e.2[k]?.isSome := Std.ExtTreeMap.contains_eq_isSome_getElem?
      rw [List.any_cons, hc, List.filterMap_cons]
      cases e.2[k]? with
      | none => exact ih
      | some v => rfl
  unfold has
  rw [hl, Std.ExtTreeMap.contains_eq_isSome_getElem?, Option.isSome_or]

/-- `get` on a key the manager has. -/
theorem get_of_found {c : ConfigManager} {k : String} {v : ConfigValue}
    (h : c.values[k]?.or (c.layerValues k).head? = some v) (T : ConfigValueType) : c.get T k = v.get T typeMismatch := by
  have hh : c.has k = true := by rw [has_eq, h]; rfl
  unfold get
  rw [if_pos hh, getEffectiveValue_eq, h]
  rfl

theorem effective_layerValues (c : ConfigManager) (k : String) : c.getEffectiveConfig.layerValues k = [] := rfl

theorem get_agrees_iff (c : ConfigManager) (k : String) (hk : c.has k = true) :
    (∀ T, c.get T k = c.getEffectiveConfig.get T k) ↔
      ∀ u, (c.layerValues k).getLast? = some u → c.values[k]?.or (c.layerValues k).head? = some u := by
  rw [has_eq] at hk
  obtain ⟨v, hv⟩ := Option.isSome_iff_exists.mp hk
  have hown : ∀ w, (c.layerValues k).getLast?.or c.values[k]? = some w →
      ∀ T, c.getEffectiveConfig.get T k = w.get T typeMismatch := by
    intro w hw T
    apply get_of_found
    rw [effective_layerValues, getEffectiveConfig_lookup, hw]
    rfl
  cases hl : (c.layerValues k).getLast? with
  | none =>
    -- no layer holds the key, so both lookups find the own value
    have hnil : c.layerValues k = [] := List.getLast?_eq_none_iff.mp hl
    rw [hl] at hown
    rw [hnil] at hv
    have hv' : c.values[k]? = some v := by simpa using hv
    refine ⟨fun _ u hu => (by cases hu), fun _ T => ?_⟩
    rw [hown v (by simp [hv']) T]
    exact get_of_found (by rw [hv']; rfl) T
  | some u =>
    rw [hl] at hown
    rw [hv]
    constructor
    · intro h u' hu'
      obtain rfl := Option.some.inj hu'
      refine congrArg some (ConfigValue.get_agree (e := typeMismatch) fun T => ?_)
      rw [← get_of_found hv T, h T, hown u rfl T]
    · intro h T
      obtain rfl := Option.some.inj (h u rfl)
      rw [hown v rfl T, get_of_found hv T]

end Config.ConfigManager

/-! ## The manager of core/ -/

namespace Core.ConfigManager

def layerValues (c : ConfigManager) (k : String) : List ConfigValue := c.layers.filterMap fun e => e.2.configData[k]?

def orMissing (k : String) : Option ConfigValue → Except Error ConfigValue
  | some v => .ok v
  | none => .error (.container ⟨.configMissing, "Configuration key not found: " ++ k⟩)

theorem fromLayers_flat (k : String) {l : List (String × ConfigManager)} (hl : ∀ e ∈ l, e.2.layers = []) :
    fromLayers k l = orMissing k (l.filterMap fun e => e.2.configData[k]?).head? := by
  induction l with
  | nil => rfl
  | cons e l ih =>
    have hhas : e.2.has k = e.2.configData[k]?.isSome := by
      unfold has
      rw [hl e List.mem_cons_self, Std.ExtTreeMap.contains_eq_isSome_getElem?]
      simp
    have ih := ih fun e' he' => hl e' (List.mem_cons_of_mem _ he')
    unfold fromLayers
    rw [hhas]
    cases h : e.2.configData[k]? with
    | none => simpa [h] using ih
    | some v => simp [h, orMissing]

theorem getValue_flat {c : ConfigManager} (hc : ∀ e ∈ c.layers, e.2.layers = []) (k : String) :
    c.getValue k = orMissing k (c.configData[k]?.or (c.layerValues k).getLast?) := by
  unfold getValue
  cases h : c.configData[k]? with
  | some v => rfl
  | none =>
    have hr := fromLayers_flat k (l := c.layers.reverse) fun e he => hc e (List.mem_reverse.mp he)
    rw [List.filterMap_reverse, List.head?_reverse] at hr
    simpa [layerValues] using hr

theorem getEffectiveConfig_lookup (c : ConfigManager) (k : String) :
    c.getEffectiveConfig.configData[k]? = (c.layerValues k).getLast?.or c.configData[k]? := by
  have h := getElem?_overlay c.configData (c.layers.map (·.2.configData)) k
  rw [List.filterMap_map] at h
  exact h

theorem getValue_agrees_iff (c : ConfigManager) (k : String) (hc : ∀ e ∈ c.layers, e.2.layers = []) :
    c.getValue k = c.getEffectiveConfig.getValue k ↔
      ∀ u v, (c.layerValues k).getLast? = some u → c.configData[k]? = some v → v = u := by
  have he : c.getEffectiveConfig.getValue k = orMissing k ((c.layerValues k).getLast?.or c.configData[k]?) := by
    have hflat : ∀ e ∈ c.getEffectiveConfig.layers, e.2.layers = [] := by
      intro e he
      cases he
    rw [getValue_flat hflat, getEffectiveConfig_lookup]
    simp [layerValues, getEffectiveConfig]
  rw [he, getValue_flat hc]
  cases hl : (c.layerValues k).getLast? with
  | none => simp
  | some u =>
    cases hd : c.configData[k]? with
    | none => simp
    | some v => simp [orMissing]

end Core.ConfigManager

/-! ## The two lookups of a manager -/

/-- In config/: `get` agrees with the flattened configuration on a key iff no layer holds
    the key, or the value `get` finds (the own one, else that of the first layer) is that of
    the last layer. In core/, with flat layers: iff an own value under a layer's is equal to
    that of the last layer. -/
theorem lookups_agree_iff (c : Config.ConfigManager) (core : Core.ConfigManager) (k : String) :
    (c.has k = true → ((∀ T, c.get T k = c.getEffectiveConfig.get T k) ↔
      ∀ u, (c.layerValues k).getLast? = some u → c.values[k]?.or (c.layerValues k).head? = some u)) ∧
    ((∀ e ∈ core.layers, e.2.layers = []) → (core.getValue k = core.getEffectiveConfig.getValue k ↔
      ∀ u v, (core.layerValues k).getLast? = some u → core.configData[k]? = some v → v = u)) :=
  ⟨Config.ConfigManager.get_agrees_iff c k, Core.ConfigManager.getValue_agrees_iff core k⟩

/-- A base value 1 and a layer value 2 for one key, in either manager. -/
def overlapping : Config.ConfigManager :=
  (({} : Config.ConfigManager).set "k" (.integer 1)).addLayer "l" (({} : Config.ConfigManager).set "k" (.integer 2))

def coreOverlapping : Core.ConfigManager :=
  (({} : Core.ConfigManager).set "k" (.integer 1)).addLayer "l" (({} : Core.ConfigManager).set "k" (.integer 2))

theorem an_own_value_hides_and_is_hidden :
    overlapping.get .integer "k" = .ok (.integer 1) ∧
    overlapping.getEffectiveConfig.get .integer "k" = .ok (.integer 2) ∧
    coreOverlapping.getValue "k" = .ok (.integer 1) ∧
    coreOverlapping.getEffectiveConfig.getValue "k" = .ok (.integer 2) := by
  decide +kernel

theorem lookups_agree_iff_overlapping :
    ¬ (∀ T, overlapping.get T "k" = overlapping.getEffectiveConfig.get T "k") ∧
    ¬ (coreOverlapping.getValue "k" = coreOverlapping.getEffectiveConfig.getValue "k") := by
  obtain ⟨hconfig, hcore⟩ := lookups_agree_iff overlapping coreOverlapping "k"
  constructor
  · rw [hconfig (by decide +kernel)]
    intro h
    exact absurd (h (.integer 2) (by decide +kernel)) (by decide +kernel)
  · rw [hcore (by simp [coreOverlapping, Core.ConfigManager.addLayer, Core.ConfigManager.set,
      Core.ConfigManager.setValue])]
    intro h
    exact absurd (h (.integer 2) (.integer 1) (by decide +kernel) (by decide +kernel)) (by decide)

/-! ## Layers added one after the other -/

namespace Config.ConfigManager

def addLayers (base : ConfigManager) (calls : List (String × ConfigManager)) : ConfigManager :=
  calls.foldl (fun c e => c.addLayer e.1 e.2) base

/-- What a configuration maps a key to. -/
def value (c : ConfigManager) (k : String) : Option ConfigValue := c.getEffectiveConfig.values[k]?

/-- The value of a key in the most recently added configuration that has it. -/
def latest (calls : List (String × ConfigManager)) (k : String) : Option ConfigValue :=
  (calls.filterMap fun e => e.2.value k).getLast?

/-- The layer a name has in the end: the base's, or else the first one added. -/
def Live (base : ConfigManager) (calls : List (String × ConfigManager)) (n : String) (l : Values) : Prop :=
  base.layers[n]? = some l ∨
    base.layers[n]? = none ∧ ∃ e, calls.find? (fun e => e.1 == n) = some e ∧ e.2.values = l

/-- `v` is the value of `k` in the live layer of the greatest name that holds `k`, or the
    base's own value when none does. -/
def Wins (base : ConfigManager) (calls : List (String × ConfigManager)) (k : String) (v : ConfigValue) : Prop :=
  (∃ n l, Live base calls n l ∧ l[k]? = some v ∧
    ∀ n' l', Live base calls n' l' → l'[k]?.isSome → (compare n' n).isLE) ∨
  ((∀ n l, Live base calls n l → l[k]? = none) ∧ base.values[k]? = some v)

theorem addLayers_values (base : ConfigManager) (calls : List (String × ConfigManager)) :
    (addLayers base calls).values = base.values := by
  unfold addLayers
  induction calls generalizing base with
  | nil => rfl
  | cons e calls ih => exact ih (base.addLayer e.1 e.2)

theorem addLayers_live (base : ConfigManager) (calls : List (String × ConfigManager)) (n : String) (l : Values) :
    (addLayers base calls).layers[n]? = some l ↔ Live base calls n l := by
  unfold addLayers Live
  induction calls generalizing base with
  | nil => simp
  | cons e calls ih =>
    rw [List.foldl_cons, ih]
    simp only [addLayer, Std.ExtTreeMap.getElem?_insertIfNew, compare_eq_iff_eq, List.find?_cons]
    by_cases hn : e.1 = n
    · subst hn
      cases hb : base.layers[e.1]? with
      | none => simp [Std.ExtTreeMap.mem_iff_isSome_getElem?, hb]
      | some l' => simp [Std.ExtTreeMap.mem_iff_isSome_getElem?, hb]
    · have hb : (e.1 == n) = false := by simpa using hn
      simp [hn, hb]

theorem layerValues_last (c : ConfigManager) (k : String) (v : ConfigValue) :
    (c.layerValues k).getLast? = some v ↔
      ∃ (n : String) (l : Values), c.layers[n]? = some l ∧ l[k]? = some v ∧
        ∀ (n' : String) (l' : Values), c.layers[n']? = some l' → l'[k]?.isSome → (compare n' n).isLE :=
  getLast?_ordered (fun l : Values => l[k]?) c.layers v

theorem layerValues_none (c : ConfigManager) (k : String) :
    (c.layerValues k).getLast? = none ↔ ∀ (n : String) (l : Values), c.layers[n]? = some l → l[k]? = none := by
  rw [List.getLast?_eq_none_iff, layerValues, List.filterMap_eq_nil_iff]
  constructor
  · intro h n l hl
    exact h (n, l) (Std.ExtTreeMap.mem_toList_iff_getElem?_eq_some.mpr hl)
  · intro h e he
    exact h e.1 e.2 (Std.ExtTreeMap.mem_toList_iff_getElem?_eq_some.mp he)

/-- What the flattened configuration has after the calls. -/
theorem value_addLayers_iff (base : ConfigManager) (calls : List (String × ConfigManager)) (k : String)
    (v : ConfigValue) : (addLayers base calls).value k = some v ↔ Wins base calls k v := by
  have hlast := layerValues_last (addLayers base calls) k v
  have hnone := layerValues_none (addLayers base calls) k
  simp only [addLayers_live] at hlast hnone
  rw [value, getEffectiveConfig_lookup, addLayers_values, Wins, ← hlast, ← hnone]
  cases (layerValues (addLayers base calls) k).getLast? with
  | none => simp
  | some u => simp

/-- A key that no added configuration has keeps the value of the base. -/
theorem value_addLayers_of_absent {base : ConfigManager} {calls : List (String × ConfigManager)} {k : String}
    (h : latest calls k = none) : (addLayers base calls).value k = base.value k := by
  have habs : ∀ e ∈ calls, e.2.values[k]? = none := by
    intro e he
    have hv : e.2.value k = none := List.filterMap_eq_nil_iff.mp (List.getLast?_eq_none_iff.mp h) e he
    rw [value, getEffectiveConfig_lookup, Option.or_eq_none_iff] at hv
    exact hv.2
  have hlive : ∀ n l, Live base calls n l → l[k]?.isSome → base.layers[n]? = some l := by
    intro n l hl hs
    rcases hl with hb | ⟨-, e, he, rfl⟩
    · exact hb
    · rw [habs e (List.mem_of_find?_eq_some he)] at hs
      cases hs
  have hsame : (layerValues (addLayers base calls) k).getLast? = (base.layerValues k).getLast? := by
    apply Option.ext
    intro v
    rw [layerValues_last, layerValues_last]
    simp only [addLayers_live]
    constructor
    · intro h'
      obtain ⟨n, l, hl, hv, hmax⟩ := h'
      refine ⟨n, l, hlive n l hl (by rw [hv]; rfl), hv, ?_⟩
      intro n' l' hl' hs
      exact hmax n' l' (Or.inl hl') hs
    · intro h'
      obtain ⟨n, l, hl, hv, hmax⟩ := h'
      refine ⟨n, l, Or.inl hl, hv, ?_⟩
      intro n' l' hl' hs
      exact hmax n' l' (hlive n' l' hl' hs) hs
  rw [value, value, getEffectiveConfig_lookup, getEffectiveConfig_lookup, addLayers_values, hsame]

/-- After any calls of `addLayer`, a key has the value of the most recently added
    configuration that has it (the base's when none does) iff that value wins by name. -/
theorem latest_wins_iff (base : ConfigManager) (calls : List (String × ConfigManager)) (k : String) :
    (addLayers base calls).value k = (latest calls k).or (base.value k) ↔
      ∀ v, latest calls k = some v → Wins base calls k v := by
  cases hl : latest calls k with
  | none =>
    refine ⟨fun _ v hv => (by cases hv), fun _ => ?_⟩
    rw [value_addLayers_of_absent hl]
    rfl
  | some u =>
    constructor
    · intro h v hv
      obtain rfl := Option.some.inj hv
      exact (value_addLayers_iff base calls k u).mp h
    · intro h
      exact (value_addLayers_iff base calls k u).mpr (h u rfl)

def layerOf (n : Int32) : ConfigManager := ({} : ConfigManager).set "k" (.integer n)

/-- A layer added later loses to one whose name is greater, and to one of its own name. -/
theorem a_later_layer_loses_by_its_name :
    (addLayers {} [("user", layerOf 1), ("default", layerOf 2)]).value "k" = some (.integer 1) ∧
    (addLayers {} [("user", layerOf 1), ("user", layerOf 2)]).value "k" = some (.integer 1) ∧
    latest [("user", layerOf 1), ("default", layerOf 2)] "k" = some (.integer 2) ∧
    latest [("user", layerOf 1), ("user", layerOf 2)] "k" = some (.integer 2) := by
  decide +kernel

end Config.ConfigManager

end DockerCpp
