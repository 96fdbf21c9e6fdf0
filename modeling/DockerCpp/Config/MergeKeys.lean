/-
  DockerCpp.Config.MergeKeys — the keys a merged configuration has.

  `merge` sets the other's own values and stores the other's layers under their names, with
  `emplace`: under a name that is taken the layer is dropped. The own values are as they
  should be, always. A key is lost exactly when it is in dropped layers only
  (`merge_keys_iff`, `a_layer_of_a_taken_name_is_lost`).
-/

import DockerCpp.Config.Restriction

namespace DockerCpp.Config.Layered

open Lib

/-- A layer of that name is there. -/
def Taken (c : ConfigManager) (name : String) : Prop := ∃ e ∈ c.layers, e.1 = name

instance (c : ConfigManager) (name : String) : Decidable (Taken c name) :=
  inferInstanceAs (Decidable (∃ e ∈ c.layers, e.1 = name))

theorem mem_emplaceAll {layers more : List (String × ConfigManager)} (h : Assoc.Sorted layers)
    (hmore : Assoc.Sorted more) (e : String × ConfigManager) :
    e ∈ more.foldl (fun layers e => emplace e.1 e.2.copyValuesOnly layers) layers ↔
      e ∈ layers ∨ ∃ e' ∈ more, e = (e'.1, e'.2.copyValuesOnly) ∧ ∀ l ∈ layers, l.1 ≠ e'.1 := by
  induction more generalizing layers with
  | nil => simp
  | cons first rest ih =>
    -- the names of the rest are greater: the first layer does not take any of them
    have hfirst : ∀ e' ∈ rest, (∀ l ∈ emplace first.1 first.2.copyValuesOnly layers, l.1 ≠ e'.1) ↔
        ∀ l ∈ layers, l.1 ≠ e'.1 := by
      intro e' he'
      constructor
      · intro hfree l hl
        exact hfree l ((mem_emplace h _ _ l).mpr (Or.inl hl))
      · intro hfree l hl
        rcases (mem_emplace h _ _ l).mp hl with hl | ⟨rfl, -⟩
        · exact hfree l hl
        · exact ne_of_lt (hmore.head_lt e' he')
    rw [List.foldl_cons, ih (sorted_emplace h _ _) hmore.tail, mem_emplace h, or_assoc]
    refine or_congr Iff.rfl ?_
    constructor
    · rintro (⟨rfl, hfree⟩ | ⟨e', he', rfl, hfree⟩)
      · exact ⟨first, List.mem_cons_self, rfl, hfree⟩
      · exact ⟨e', List.mem_cons_of_mem _ he', rfl, (hfirst e' he').mp hfree⟩
    · rintro ⟨e', he', rfl, hfree⟩
      rcases List.mem_cons.mp he' with rfl | he'
      · exact Or.inl ⟨rfl, hfree⟩
      · exact Or.inr ⟨e', he', rfl, (hfirst e' he').mpr hfree⟩

theorem merge_values (a b : ConfigManager) : (a.merge b).values = a.values ∪ b.values := writeAll_toList _ _

theorem merge_has_iff {a b : ConfigManager} (ha : WellFormed a) (hb : WellFormed b) (k : String) :
    (a.merge b).has k = true ↔
      a.has k = true ∨ k ∈ b.values ∨ ∃ e ∈ b.layers, k ∈ e.2.values ∧ ¬Taken a e.1 := by
  have hlayers : (∃ e ∈ (a.merge b).layers, k ∈ e.2.values) ↔
      (∃ e ∈ a.layers, k ∈ e.2.values) ∨ ∃ e ∈ b.layers, k ∈ e.2.values ∧ ¬Taken a e.1 := by
    constructor
    · rintro ⟨e, he, hk⟩
      rcases (mem_emplaceAll ha.sorted hb.sorted e).mp he with he | ⟨e', he', rfl, hfree⟩
      · exact Or.inl ⟨e, he, hk⟩
      · exact Or.inr ⟨e', he', hk, fun ⟨l, hl, heq⟩ => hfree l hl heq⟩
    · rintro (⟨e, he, hk⟩ | ⟨e, he, hk, hfree⟩)
      · exact ⟨e, (mem_emplaceAll ha.sorted hb.sorted e).mpr (Or.inl he), hk⟩
      · exact ⟨(e.1, e.2.copyValuesOnly),
          (mem_emplaceAll ha.sorted hb.sorted _).mpr (Or.inr ⟨e, he, rfl, fun l hl heq => hfree ⟨l, hl, heq⟩⟩), hk⟩
  rw [has_iff (ha.merge b), has_iff ha, hlayers, merge_values, Std.ExtTreeMap.mem_union_iff]
  exact or_or_or_comm

/-- For every two managers that can be built. The other's own values are the own values for
    their keys, and the rest of them is as before. All keys of both are there iff every key
    of a layer whose name is taken is found elsewhere: it was there, or it is one of the
    other's own keys, or it is in a layer of the other's whose name is free. -/
theorem merge_keys_iff {a b : ConfigManager} (ha : Reachable a) (hb : Reachable b) :
    (∀ k, (∀ v, b.values[k]? = some v → (a.merge b).values[k]? = some v) ∧
      (k ∉ b.values → (a.merge b).values[k]? = a.values[k]?)) ∧
    ((∀ k, (a.merge b).has k = true ↔ a.has k = true ∨ b.has k = true) ↔
      ∀ e ∈ b.layers, Taken a e.1 → ∀ k ∈ e.2.values,
        a.has k = true ∨ k ∈ b.values ∨ ∃ e' ∈ b.layers, k ∈ e'.2.values ∧ ¬Taken a e'.1) := by
  have hwa := reachable_wellFormed ha
  have hwb := reachable_wellFormed hb
  refine ⟨fun k => ⟨fun v hv => ?_, fun hk => ?_⟩, ?_⟩
  · rw [merge_values, Std.ExtTreeMap.getElem?_union, hv, Option.some_or]
  · rw [merge_values, Std.ExtTreeMap.getElem?_union, Std.ExtTreeMap.getElem?_eq_none hk, Option.none_or]
  · constructor
    · intro h e he _ k hk
      have hb' : b.has k = true := (has_iff hwb k).mpr (Or.inr ⟨e, he, hk⟩)
      exact (merge_has_iff hwa hwb k).mp ((h k).mpr (Or.inr hb'))
    · intro h k
      rw [merge_has_iff hwa hwb, has_iff hwb]
      constructor
      · rintro (hka | hkb | ⟨e, he, hk, -⟩)
        · exact Or.inl hka
        · exact Or.inr (Or.inl hkb)
        · exact Or.inr (Or.inr ⟨e, he, hk⟩)
      · rintro (hka | hkb | ⟨e, he, hk⟩)
        · exact Or.inl hka
        · exact Or.inr (Or.inl hkb)
        · by_cases htaken : Taken a e.1
          · exact h e he htaken k hk
          · exact Or.inr (Or.inr ⟨e, he, hk, htaken⟩)

/-- Layers `l` with different keys. -/
def firstLayerL : ConfigManager := ({} : ConfigManager).addLayer "l" (({} : ConfigManager).set "x" (.integer 1))

def secondLayerL : ConfigManager := ({} : ConfigManager).addLayer "l" (({} : ConfigManager).set "y" (.integer 2))

theorem firstLayerL_reachable : Reachable firstLayerL := Reachable.fresh.addLayer _ (Reachable.fresh.set _ _)

theorem secondLayerL_reachable : Reachable secondLayerL := Reachable.fresh.addLayer _ (Reachable.fresh.set _ _)

theorem a_layer_of_a_taken_name_is_lost :
    Reachable firstLayerL ∧ Reachable secondLayerL ∧ secondLayerL.has "y" = true ∧
    (firstLayerL.merge secondLayerL).has "y" = false :=
  ⟨firstLayerL_reachable, secondLayerL_reachable, by decide +kernel, by decide +kernel⟩

/-- A layer whose name is free is kept. -/
theorem merge_keys_iff_free_name :
    let other := ({} : ConfigManager).addLayer "m" (({} : ConfigManager).set "z" (.integer 3))
    other.has "z" = true ∧ (firstLayerL.merge other).has "z" = true := by
  intro other
  have hother : Reachable other := Reachable.fresh.addLayer _ (Reachable.fresh.set _ _)
  have hhas : other.has "z" = true := by decide +kernel
  refine ⟨hhas, ((merge_keys_iff firstLayerL_reachable hother).2.mpr ?_ "z").mpr (Or.inr hhas)⟩
  intro e he htaken
  rw [List.mem_singleton.mp he] at htaken
  exact absurd htaken (by decide +kernel)

end DockerCpp.Config.Layered
