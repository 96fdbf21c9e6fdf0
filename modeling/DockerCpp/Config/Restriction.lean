/-
  DockerCpp.Config.Restriction — sub-configurations and expanded configurations.

  Where layers have values only, both have a closed form. A sub-configuration is the
  effective configuration restricted to the keys with a prefix (`getSubConfig_eq`), although
  the source filters, strips and merges layer by layer. An expanded configuration has the
  same keys and layers with every value expanded (`expand_eq`).

  - `subConfig_restricts`: `getSubConfig` against `getEffectiveConfig` and
    `getKeysWithPrefix`.
  - `expansion_commutes`: expanding before or after a lookup, flattening or restricting is
    the same.
-/

import DockerCpp.Config.Layered

namespace DockerCpp.Config.Layered

open Lib

/-! ## Maps of values -/

theorem mem_toList_iff (m : Values) (k : String) (v : ConfigValue) : (k, v) ∈ m.toList ↔ m[k]? = some v :=
  Std.ExtTreeMap.mem_toList_iff_getElem?_eq_some

theorem writeAll_toList (m m' : Values) : writeAll m m'.toList = m ∪ m' := by
  refine Std.ExtTreeMap.ext_getElem? fun k => ?_
  rw [writeAll, getElem?_foldl_insert_of_entries m fun v => mem_toList_iff m' k v, Std.ExtTreeMap.getElem?_union]

/-- Without the prefix. -/
def stripped (start key : String) : String := String.ofList (key.toList.drop start.toList.length)

theorem stripped_append (start k : String) : stripped start (start ++ k) = k := by
  simp [stripped]

theorem append_stripped {start key : String} (h : startsWith start key = true) : start ++ stripped start key = key := by
  rw [startsWith_iff, List.isPrefixOf_iff_prefix] at h
  obtain ⟨rest, hrest⟩ := h
  apply String.toList_inj.mp
  rw [stripped, ← hrest, List.drop_left, String.toList_append, String.toList_ofList]

theorem startsWith_append (start k : String) : startsWith start (start ++ k) = true := by
  rw [startsWith_iff, List.isPrefixOf_iff_prefix, String.toList_append]
  exact List.prefix_append _ _

/-- The values under a prefix, without it. -/
def restricted (start : String) (m : Values) : Values :=
  writeAll ∅ ((m.toList.filter fun e => startsWith start e.1).map fun e => (stripped start e.1, e.2))

theorem restricted_lookup (start : String) (m : Values) (k : String) : (restricted start m)[k]? = m[start ++ k]? := by
  have hentries : ∀ v, (k, v) ∈ (m.toList.filter fun e => startsWith start e.1).map (fun e => (stripped start e.1, e.2)) ↔
      m[start ++ k]? = some v := by
    intro v
    rw [← mem_toList_iff, List.mem_map]
    constructor
    · rintro ⟨⟨key, w⟩, he, heq⟩
      obtain ⟨hmem, hstart⟩ := List.mem_filter.mp he
      obtain ⟨rfl, rfl⟩ := Prod.mk.inj heq
      rw [append_stripped hstart]
      exact hmem
    · intro hmem
      exact ⟨_, List.mem_filter.mpr ⟨hmem, startsWith_append start k⟩, by rw [stripped_append]⟩
  rw [restricted, writeAll, getElem?_foldl_insert_of_entries ∅ hentries, Std.ExtTreeMap.getElem?_empty, Option.or_none]

def expandedValues (env : Env) (m : Values) : Values :=
  writeAll ∅ (m.toList.map fun e => (e.1, expandedValue env e.2))

theorem expandedValues_lookup (env : Env) (m : Values) (k : String) :
    (expandedValues env m)[k]? = m[k]?.map (expandedValue env) := by
  have hentries : ∀ v, (k, v) ∈ m.toList.map (fun e => (e.1, expandedValue env e.2)) ↔
      m[k]?.map (expandedValue env) = some v := by
    intro v
    rw [List.mem_map, Option.map_eq_some_iff]
    constructor
    · rintro ⟨⟨key, w⟩, hmem, heq⟩
      obtain ⟨rfl, rfl⟩ := Prod.mk.inj heq
      exact ⟨w, (mem_toList_iff _ _ _).mp hmem, rfl⟩
    · rintro ⟨w, hw, rfl⟩
      exact ⟨(k, w), (mem_toList_iff _ _ _).mpr hw, rfl⟩
  rw [expandedValues, writeAll, getElem?_foldl_insert_of_entries ∅ hentries, Std.ExtTreeMap.getElem?_empty,
    Option.or_none]

theorem mem_expandedValues (env : Env) (m : Values) (k : String) : k ∈ expandedValues env m ↔ k ∈ m := by
  rw [Std.ExtTreeMap.mem_iff_isSome_getElem?, Std.ExtTreeMap.mem_iff_isSome_getElem?, expandedValues_lookup,
    Option.isSome_map]

/-- Restricting what is laid over a map, layer by layer. -/
theorem restricted_overlay (start : String) (base : Values) (ms : List Values) :
    restricted start (overlay base ms) = overlay (restricted start base) (ms.map (restricted start)) := by
  refine Std.ExtTreeMap.ext_getElem? fun k => ?_
  rw [restricted_lookup, getElem?_overlay, getElem?_overlay, List.filterMap_map, restricted_lookup]
  simp only [Function.comp_def, restricted_lookup]

theorem expandedValues_overlay (env : Env) (base : Values) (ms : List Values) :
    expandedValues env (overlay base ms) = overlay (expandedValues env base) (ms.map (expandedValues env)) := by
  refine Std.ExtTreeMap.ext_getElem? fun k => ?_
  rw [expandedValues_lookup, getElem?_overlay, getElem?_overlay, List.filterMap_map, expandedValues_lookup,
    Option.map_or, ← List.getLast?_map, List.map_filterMap]
  simp only [Function.comp_def, expandedValues_lookup]

theorem expandedValues_restricted (env : Env) (start : String) (m : Values) :
    expandedValues env (restricted start m) = restricted start (expandedValues env m) := by
  refine Std.ExtTreeMap.ext_getElem? fun k => ?_
  rw [expandedValues_lookup, restricted_lookup, restricted_lookup, expandedValues_lookup]

/-! ## Sub-configurations -/

theorem getSubConfig_flat (start : String) (values : Values) :
    (ConfigManager.mk values []).getSubConfig start = { values := restricted start values } := by
  rw [ConfigManager.getSubConfig, ConfigManager.mergeSubConfigs]
  rfl

variable {layers : List (String × ConfigManager)} {c : ConfigManager}

theorem mergeSubConfigs_flat (start : String) (h : ∀ e ∈ layers, e.2.layers = []) (m : Values) :
    ConfigManager.mergeSubConfigs start layers { values := m } =
      { values := overlay m (layers.map fun e => restricted start e.2.values) } := by
  induction layers generalizing m with
  | nil => rfl
  | cons e rest ih =>
    obtain ⟨name, ⟨values, layers⟩⟩ := e
    have hnone : layers = [] := h _ List.mem_cons_self
    subst hnone
    have hmerge : ConfigManager.merge { values := m } { values := restricted start values } =
        { values := m ∪ restricted start values } := by
      rw [ConfigManager.merge, writeAll_toList]
      rfl
    rw [ConfigManager.mergeSubConfigs, getSubConfig_flat, hmerge, ih fun e he => h e (List.mem_cons_of_mem _ he)]
    rfl

theorem getSubConfig_eq (h : WellFormed c) (start : String) :
    c.getSubConfig start = { values := restricted start c.getEffectiveConfig.values } := by
  have hlayers := h.shallow
  cases c
  rw [ConfigManager.getSubConfig, ConfigManager.getEffectiveConfig, restricted_overlay, List.map_map]
  exact mergeSubConfigs_flat start hlayers _

/-- What a manager without layers answers. -/
theorem flat_has (m : Values) (k : String) : (ConfigManager.mk m []).has k = m[k]?.isSome := by
  rw [ConfigManager.has, ConfigManager.layersHave, Bool.or_false, Std.ExtTreeMap.contains_eq_isSome_getElem?]

theorem flat_get (m : Values) (T : ConfigValueType) (k : String) :
    (ConfigManager.mk m []).get T k =
      m[k]?.elim (.error (Config.ConfigManager.notFound k)) fun v => v.get T Config.ConfigManager.typeMismatch := by
  rw [ConfigManager.get, flat_has, ConfigManager.getEffectiveValue]
  cases m[k]? <;> rfl

theorem append_lt_append_iff (start k k' : String) : start ++ k < start ++ k' ↔ k < k' := by
  have hlists : ∀ p a b : List Char, p ++ a < p ++ b ↔ a < b := by
    intro p a b
    induction p with
    | nil => exact Iff.rfl
    | cons x p ih =>
      rw [List.cons_append, List.cons_append, List.cons_lt_cons_iff, ih]
      simp
  rw [String.lt_iff, String.lt_iff, String.toList_append, String.toList_append, hlists]

/-- The keys under a prefix, without it. -/
theorem stripped_keys (c : ConfigManager) (start : String) :
    ((c.getKeysWithPrefix start).map (stripped start)).Pairwise (· < ·) ∧
    ∀ k, k ∈ (c.getKeysWithPrefix start).map (stripped start) ↔ c.has (start ++ k) = true := by
  have hsorted : (c.getKeysWithPrefix start).Pairwise (· < ·) := by
    cases c
    exact sortUnique_increasing _
  constructor
  · refine List.pairwise_map.mpr (hsorted.imp_of_mem fun {a b} ha hb hlt => ?_)
    rw [← append_stripped ((mem_getKeysWithPrefix start c a).mp ha).2,
      ← append_stripped ((mem_getKeysWithPrefix start c b).mp hb).2] at hlt
    exact (append_lt_append_iff start _ _).mp hlt
  · intro k
    rw [List.mem_map]
    constructor
    · rintro ⟨key, hkey, rfl⟩
      obtain ⟨hhas, hstart⟩ := (mem_getKeysWithPrefix start c key).mp hkey
      rw [append_stripped hstart]
      exact hhas
    · intro hhas
      exact ⟨start ++ k, (mem_getKeysWithPrefix start c _).mpr ⟨hhas, startsWith_append start k⟩, stripped_append start k⟩

/-- In every manager that can be built, for every prefix. -/
theorem subConfig_restricts {c : ConfigManager} (h : Reachable c) (start : String) :
    (∀ k, (c.getSubConfig start).has k = c.getEffectiveConfig.has (start ++ k)) ∧
    (∀ k T v, (c.getSubConfig start).get T k = .ok v ↔ c.getEffectiveConfig.get T (start ++ k) = .ok v) ∧
    (c.getSubConfig start).layers = [] ∧
    (c.getSubConfig start).getKeys =
      (c.getKeysWithPrefix start).map fun key => String.ofList (key.toList.drop start.toList.length) := by
  have hwf := reachable_wellFormed h
  have heq := getSubConfig_eq hwf start
  have hhas : ∀ k, (c.getSubConfig start).has k = c.getEffectiveConfig.has (start ++ k) := by
    intro k
    rw [heq, flat_has, restricted_lookup]
    exact (flat_has _ _).symm
  refine ⟨hhas, fun k T v => ?_, by rw [heq], ?_⟩
  · have heff : c.getEffectiveConfig = { values := c.getEffectiveConfig.values } := rfl
    rw [heq, flat_get, restricted_lookup, heff, flat_get]
    cases c.getEffectiveConfig.values[start ++ k]? with
    | none =>
      constructor
      · intro hget
        cases hget
      · intro hget
        cases hget
    | some w => exact Iff.rfl
  · have hkeys : (c.getSubConfig start).getKeys.Pairwise (· < ·) := by
      rw [heq]
      exact sortUnique_increasing _
    obtain ⟨hsorted, hmem⟩ := stripped_keys c start
    refine hkeys.eq_of_mem_iff hsorted fun k => ?_
    rw [mem_getKeys, hhas, effective_has_iff, ← has_iff hwf]
    exact (hmem k).symm

/-- `a.x` in the own values and in a layer, `a.y` in the layer only. -/
def overlappingKeys : ConfigManager :=
  ((({} : ConfigManager).set "a.x" (.integer 1)).set "b" (.integer 3)).addLayer "l"
    ((({} : ConfigManager).set "a.x" (.integer 2)).set "a.y" (.boolean true))

theorem overlappingKeys_reachable : Reachable overlappingKeys :=
  ((Reachable.fresh.set _ _).set _ _).addLayer _ ((Reachable.fresh.set _ _).set _ _)

theorem subConfig_restricts_overlappingKeys :
    (overlappingKeys.getSubConfig "a.").get .integer "x" = .ok (.integer 2) ∧
    (overlappingKeys.getSubConfig "a.").has "b" = false := by
  obtain ⟨hhas, hget, -⟩ := subConfig_restricts overlappingKeys_reachable "a."
  constructor
  · rw [hget]
    decide +kernel
  · rw [hhas]
    decide +kernel

/-! ## Expanded configurations -/

theorem setEach_flat (es : List (String × ConfigValue)) (m : Values) :
    es.foldl (fun c e => c.set e.1 e.2) { values := m } = ({ values := writeAll m es } : ConfigManager) := by
  induction es generalizing m with
  | nil => rfl
  | cons e es ih => exact ih _

theorem expand_flat (env : Env) (values : Values) :
    (ConfigManager.mk values []).expandEnvironmentVariables env = { values := expandedValues env values } := by
  rw [ConfigManager.expandEnvironmentVariables, ConfigManager.expandLayers, setEach_flat]
  rfl

/-- The layers come in the order of their names: each goes to the end. -/
theorem expandLayers_flat (env : Env) {layers done : List (String × ConfigManager)}
    (h : ∀ e ∈ layers, e.2.layers = []) (hsorted : Assoc.Sorted layers)
    (hdone : ∀ e ∈ done, ∀ e' ∈ layers, e.1 < e'.1) (values : Values) :
    ConfigManager.expandLayers env layers ⟨values, done⟩ =
      ⟨values, done ++ layers.map fun e => (e.1, { values := expandedValues env e.2.values })⟩ := by
  induction layers generalizing done with
  | nil => simp [ConfigManager.expandLayers]
  | cons e rest ih =>
    obtain ⟨name, ⟨own, layers⟩⟩ := e
    have hnone : layers = [] := h _ List.mem_cons_self
    subst hnone
    have hlt : ∀ e ∈ done, e.1 < name := fun e he => hdone e he _ List.mem_cons_self
    have hfree : done.lookup name = none := lookup_none_iff.mpr fun e he => ne_of_lt (hlt e he)
    have hadd : ConfigManager.addLayer ⟨values, done⟩ name { values := expandedValues env own } =
        ⟨values, done ++ [(name, { values := expandedValues env own })]⟩ := by
      rw [ConfigManager.addLayer, emplace, hfree, if_neg (by simp), Assoc.put_last hlt]
    have hdone' : ∀ e ∈ done ++ [(name, { values := expandedValues env own })], ∀ e' ∈ rest, e.1 < e'.1 := by
      intro e he e' he'
      rcases List.mem_append.mp he with he | he
      · exact hdone e he e' (List.mem_cons_of_mem _ he')
      · rw [List.mem_singleton.mp he]
        exact hsorted.head_lt e' he'
    rw [ConfigManager.expandLayers, expand_flat, hadd,
      ih (fun e he => h e (List.mem_cons_of_mem _ he)) hsorted.tail hdone']
    simp

theorem expand_eq (h : WellFormed c) (env : Env) : c.expandEnvironmentVariables env =
      ⟨expandedValues env c.values, c.layers.map fun e => (e.1, { values := expandedValues env e.2.values })⟩ := by
  have hshallow := h.shallow
  have hsorted := h.sorted
  cases c
  rw [ConfigManager.expandEnvironmentVariables, setEach_flat,
    expandLayers_flat env hshallow hsorted fun e he => absurd he List.not_mem_nil]
  rfl

theorem expand_has (h : WellFormed c) (env : Env) (k : String) :
    (c.expandEnvironmentVariables env).has k = c.has k := by
  have hexpanded : WellFormed (c.expandEnvironmentVariables env) := by
    rw [expand_eq h]
    refine ⟨List.pairwise_map.mpr h.sorted, fun e he => ?_⟩
    obtain ⟨layer, -, rfl⟩ := List.mem_map.mp he
    rfl
  rw [Bool.eq_iff_iff, has_iff hexpanded, has_iff h, expand_eq h]
  simp [mem_expandedValues]

theorem firstLayer_expanded (env : Env) (h : ∀ e ∈ layers, e.2.layers = []) (k : String) :
    ConfigManager.firstLayer (layers.map fun e => (e.1, { values := expandedValues env e.2.values })) k =
      (ConfigManager.firstLayer layers k).map (expandedValue env) := by
  induction layers with
  | nil => rfl
  | cons e rest ih =>
    obtain ⟨name, ⟨own, layers⟩⟩ := e
    have hnone : layers = [] := h _ List.mem_cons_self
    subst hnone
    rw [List.map_cons, ConfigManager.firstLayer, ConfigManager.firstLayer, flat_has, flat_has, expandedValues_lookup,
      Option.isSome_map, ih fun e he => h e (List.mem_cons_of_mem _ he), ConfigManager.getEffectiveValue,
      ConfigManager.getEffectiveValue, expandedValues_lookup]
    cases own[k]? <;> rfl

theorem expand_value (h : WellFormed c) (env : Env) (k : String) :
    (c.expandEnvironmentVariables env).getEffectiveValue k = (c.getEffectiveValue k).map (expandedValue env) := by
  have hlayers := firstLayer_expanded env h.shallow k
  rw [expand_eq h]
  cases c with
  | mk values layers =>
    rw [ConfigManager.getEffectiveValue, ConfigManager.getEffectiveValue, expandedValues_lookup, hlayers]
    cases values[k]? <;> rfl

theorem expandedValue_get (env : Env) (v : ConfigValue) (T : ConfigValueType) (e : ContainerError) :
    (expandedValue env v).get T e = (v.get T e).map (expandedValue env) := by
  have htype : (expandedValue env v).getType = v.getType := by cases v <;> rfl
  rw [ConfigValue.get, ConfigValue.get, htype]
  split <;> rfl

theorem expand_get (h : WellFormed c) (env : Env) (T : ConfigValueType) (k : String) :
    (c.expandEnvironmentVariables env).get T k = (c.get T k).map (expandedValue env) := by
  rw [ConfigManager.get, ConfigManager.get, expand_has h, expand_value h]
  cases c.has k with
  | false => rfl
  | true =>
    cases c.getEffectiveValue k with
    | error e => rfl
    | ok v => exact expandedValue_get env v T _

theorem expand_effective (h : WellFormed c) (env : Env) :
    c.getEffectiveConfig.expandEnvironmentVariables env = (c.expandEnvironmentVariables env).getEffectiveConfig := by
  rw [ConfigManager.getEffectiveConfig, expand_flat, expandedValues_overlay, expand_eq h,
    ConfigManager.getEffectiveConfig, List.map_map, List.map_map]
  rfl

/-- In every manager that can be built, for every environment, prefix and key. -/
theorem expansion_commutes {c : ConfigManager} (h : Reachable c) (env : Env) (start k : String) :
    (c.expandEnvironmentVariables env).has k = c.has k ∧
    (∀ T, (c.expandEnvironmentVariables env).get T k = (c.get T k).map (expandedValue env)) ∧
    c.getEffectiveConfig.expandEnvironmentVariables env = (c.expandEnvironmentVariables env).getEffectiveConfig ∧
    (c.getSubConfig start).expandEnvironmentVariables env = (c.expandEnvironmentVariables env).getSubConfig start := by
  have hwf := reachable_wellFormed h
  refine ⟨expand_has hwf env k, fun T => expand_get hwf env T k, expand_effective hwf env, ?_⟩
  rw [getSubConfig_eq hwf, expand_flat, getSubConfig_eq (reachable_wellFormed (h.expandEnvironmentVariables env)),
    ← expand_effective hwf, expandedValues_restricted, ConfigManager.getEffectiveConfig, expand_flat]

theorem expansion_commutes_overlappingKeys :
    let env : Env := fun name => if name = "HOME".toList then some "/root".toList else none
    let c := overlappingKeys.set "a.z" (.string "$\x7bHOME\x7d/x")
    (c.expandEnvironmentVariables env).get .string "a.z" = .ok (.string "/root/x") ∧
    ((c.expandEnvironmentVariables env).getSubConfig "a.").get .string "z" = .ok (.string "/root/x") := by
  intro env c
  obtain ⟨-, hget, -, hsub⟩ := expansion_commutes (overlappingKeys_reachable.set "a.z" _) env "a." "a.z"
  constructor
  · rw [hget]
    decide +kernel
  · rw [← hsub]
    decide +kernel

end DockerCpp.Config.Layered
