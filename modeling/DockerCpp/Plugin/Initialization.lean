/-
  DockerCpp.Plugin.Initialization — one pass of `initializeAllPlugins` reaches the fixpoint.

  In the load order a plugin comes after its registered dependencies, so when its turn
  comes their status is final (`pass_settled`). Hence after the pass a plugin is
  initialized iff it was before, or all its declared dependencies are and its `initialize`
  succeeds (`Settled`). On an acyclic graph there is one such status
  (`settled_unique`): the pass gives it for every order of iteration, and a second pass
  finds it already there (`initializeAllPlugins_fixpoint`).
-/

import DockerCpp.Plugin.Registry

namespace DockerCpp.Plugin

open Lib Relation

/-! ## Small facts about the map -/

theorem getElem?_setStatus (m : Plugins) (name : String) (p : IPlugin) (b : Bool) (n : String) :
    (setStatus m name p b)[n]? = if name = n then some { p with initialized := b } else m[n]? := by
  simp [setStatus, Std.ExtTreeMap.getElem?_insert]

variable {m m' m₁ m₂ : Plugins} {succeeds S : String → Prop} {r iteration : List String} {o : InitOutcome}
  {name n : String} {p : IPlugin}
  {acc : Std.ExtTreeMap String Bool × Plugins}

theorem satisfied_of_eq (h : m'[n]? = m[n]?) : isDependencySatisfied m' n = isDependencySatisfied m n := by
  unfold isDependencySatisfied
  rw [h]

theorem registered_of_satisfied (h : isDependencySatisfied m n = true) :
    ∃ p, m[n]? = some p ∧ p.initialized = true := by
  unfold isDependencySatisfied at h
  cases hp : m[n]? with
  | none => simp [hp] at h
  | some p => exact ⟨p, rfl, by simpa [hp] using h⟩

theorem mem_registeredDependencies {n d : String} :
    d ∈ registeredDependencies m n ↔ ∃ p, m[n]? = some p ∧ d ∈ p.dependencies ∧ d ∈ m := by
  unfold registeredDependencies
  cases hp : m[n]? with
  | none => simp
  | some p => simp

/-- Same plugins with the same dependencies; only the status may differ. -/
def SameGraph (m m' : Plugins) : Prop := ∀ n : String, m'[n]?.map (·.dependencies) = m[n]?.map (·.dependencies)

theorem SameGraph.mem (h : SameGraph m m') (n : String) : n ∈ m' ↔ n ∈ m := by
  have hn := congrArg Option.isSome (h n)
  rw [Option.isSome_map, Option.isSome_map] at hn
  rw [Std.ExtTreeMap.mem_iff_isSome_getElem?, Std.ExtTreeMap.mem_iff_isSome_getElem?, hn]

theorem SameGraph.registeredDependencies (h : SameGraph m m') :
    registeredDependencies m' = registeredDependencies m := by
  funext n
  have hn := h n
  have hc : ∀ x, m'.contains x = m.contains x := by
    intro x
    rw [Bool.eq_iff_iff, Std.ExtTreeMap.contains_iff_mem, Std.ExtTreeMap.contains_iff_mem, h.mem x]
  unfold Plugin.registeredDependencies
  cases hp : m[n]? with
  | none =>
    have hp' : m'[n]? = none := by simpa [hp] using hn
    rw [hp']
  | some p =>
    obtain ⟨p', hp', hd⟩ : ∃ p', m'[n]? = some p' ∧ p'.dependencies = p.dependencies := by
      simpa [hp, Option.map_eq_some_iff] using hn
    rw [hp']
    simp [hd, hc]

/-! ## The load order -/

theorem loadOrder_ok {iteration r : List String} (hi : iteration.Perm m.keys)
    (h : getLoadOrderUnsafe m iteration = .ok r) :
    Dfs.TopoSorted (registeredDependencies m) r ∧ ∀ n, n ∈ r ↔ n ∈ m := by
  have hr : Dfs.order (registeredDependencies m) (m.size + 1) iteration = .ok r := by
    unfold getLoadOrderUnsafe at h
    split at h
    · rename_i names hnames
      rw [hnames, Except.ok.inj h]
    · cases h
    · cases h
  have hkeys : ∀ n, n ∈ iteration ↔ n ∈ m := by
    intro n
    rw [hi.mem_iff, Std.ExtTreeMap.mem_keys]
  obtain ⟨hs, hall, hreach⟩ := Dfs.order_ok hr
  refine ⟨hs, ?_⟩
  intro n
  constructor
  · intro hn
    obtain ⟨v, hv, hvn⟩ := hreach n hn
    -- along dependencies that are registered one stays among the registered names
    induction hvn with
    | refl => exact (hkeys v).mp hv
    | tail _ he _ =>
      obtain ⟨p, -, -, hb⟩ := mem_registeredDependencies.mp he
      exact hb
  · intro hn
    exact hall n ((hkeys n).mpr hn)

/-- The dependencies that are followed stay among the plugins. -/
theorem registeredDependencies_closed (m : Plugins) : ∀ a ∈ m.keys, ∀ b ∈ registeredDependencies m a, b ∈ m.keys := by
  intro a _ b hb
  obtain ⟨p, -, -, hb'⟩ := mem_registeredDependencies.mp hb
  exact Std.ExtTreeMap.mem_keys.mpr hb'

theorem loadOrder_of_acyclic (hi : iteration.Perm m.keys)
    (ha : Dfs.Acyclic (registeredDependencies m)) : ∃ r, getLoadOrderUnsafe m iteration = .ok r := by
  have hroots : ∀ v ∈ iteration, v ∈ m.keys := fun v hv => hi.mem_iff.mp hv
  have hlen : m.keys.length < m.size + 1 := by
    rw [Std.ExtTreeMap.length_keys]
    omega
  obtain ⟨r, hr⟩ := Dfs.order_of_acyclic (registeredDependencies_closed m) hroots hlen ha
  exact ⟨r, by rw [getLoadOrderUnsafe, hr]⟩

/-! ## The pass -/

/-- `n` is initialized in `m`, or all its declared dependencies are in `S` and its
    `initialize` succeeds. -/
def Enabled (succeeds : String → Prop) (m : Plugins) (S : String → Prop) (n : String) : Prop :=
  ∃ p, m[n]? = some p ∧ (p.initialized = true ∨ (∀ d ∈ p.dependencies, S d) ∧ succeeds n)

/-- On the names of `r`, the status in `m'` is the one the rule gives. -/
def Settled (succeeds : String → Prop) (m m' : Plugins) (r : List String) : Prop :=
  ∀ n ∈ r, isDependencySatisfied m' n = true ↔ Enabled succeeds m (isDependencySatisfied m' · = true) n

/-- A call that returns true exactly when it initialized the plugin. -/
theorem returned_of_honest (h : o.returned = some true ↔ o.initialized = true) :
    o.returned.getD false = o.initialized := by
  rw [Bool.eq_iff_iff, ← h]
  cases o.returned with
  | none => simp
  | some b => simp

/-- What a call of `initializePlugin` for a registered plugin leaves. -/
structure Turn (m : Plugins) (name : String) (p : IPlugin) (o : InitOutcome) (result : Bool × Plugins) : Prop where
  returned : result.1 = isDependencySatisfied result.2 name
  other : ∀ n, n ≠ name → result.2[n]? = m[n]?
  dependencies : result.2[name]?.map (·.dependencies) = some p.dependencies
  status : isDependencySatisfied result.2 name = true ↔
    p.initialized = true ∨ (∀ d ∈ p.dependencies, isDependencySatisfied m d = true) ∧ o.initialized = true

/-- The plugin is left as it is: it is up already, or a dependency is missing. -/
theorem turn_stays (hp : m[name]? = some p) (o : InitOutcome)
    (h : p.initialized = true ∨ ¬ ∀ d ∈ p.dependencies, isDependencySatisfied m d = true) :
    Turn m name p o (p.initialized, m) := by
  have hsat : isDependencySatisfied m name = p.initialized := by simp [isDependencySatisfied, hp]
  refine ⟨hsat.symm, fun n _ => rfl, by rw [hp]; rfl, ?_⟩
  rw [hsat]
  constructor
  · intro hi
    exact Or.inl hi
  · intro hi
    rcases hi with hi | hi
    · exact hi
    · rcases h with h | h
      · exact h
      · exact absurd hi.1 h

theorem turn_called (ho : o.returned = some true ↔ o.initialized = true) (hi : p.initialized = false)
    (hv : ∀ d ∈ p.dependencies, isDependencySatisfied m d = true) :
    Turn m name p o (o.returned.getD false, setStatus m name p o.initialized) := by
  have hnew : isDependencySatisfied (setStatus m name p o.initialized) name = o.initialized := by
    simp [isDependencySatisfied, getElem?_setStatus]
  refine ⟨?_, ?_, by simp [getElem?_setStatus], ?_⟩
  · rw [hnew]
    exact returned_of_honest ho
  · intro n hn
    rw [getElem?_setStatus, if_neg (Ne.symm hn)]
  · rw [hnew, hi]
    constructor
    · intro hb
      exact Or.inr ⟨hv, hb⟩
    · intro h
      rcases h with h | h
      · cases h
      · exact h.2

theorem initializePlugin_turn (hp : m[name]? = some p)
    (ho : o.returned = some true ↔ o.initialized = true) : Turn m name p o (initializePlugin m name o) := by
  have hval : validateDependencies m name = true ↔ ∀ d ∈ p.dependencies, isDependencySatisfied m d = true := by
    simp [validateDependencies, hp]
  unfold initializePlugin
  rw [hp]
  simp only
  cases hi : p.initialized with
  | true =>
    have hturn := turn_stays hp o (Or.inl hi)
    rw [hi] at hturn
    exact hturn
  | false =>
    by_cases hv : validateDependencies m name = true
    · simp only [hv, if_true, Bool.false_eq_true, if_false]
      exact turn_called ho hi (hval.mp hv)
    · have hturn := turn_stays hp o (Or.inr fun h => hv (hval.mpr h))
      rw [hi] at hturn
      simp only [hv, Bool.false_eq_true, if_false]
      exact hturn

theorem Enabled.congr {S T : String → Prop} (h : ∀ p, m[n]? = some p → ∀ d ∈ p.dependencies, (S d ↔ T d)) :
    Enabled succeeds m S n ↔ Enabled succeeds m T n := by
  unfold Enabled
  refine exists_congr fun p => and_congr_right fun hp => or_congr_right (and_congr_left' ?_)
  exact forall₂_congr (h p hp)

/-- What the loop has done after the names of `r`, from the first of the load order on. -/
structure Passed (succeeds : String → Prop) (m : Plugins) (r : List String)
    (acc : Std.ExtTreeMap String Bool × Plugins) : Prop where
  graph : SameGraph m acc.2
  untouched : ∀ n, n ∉ r → acc.2[n]? = m[n]?
  results : ∀ n : String, acc.1[n]? = if n ∈ r then some (isDependencySatisfied acc.2 n) else none
  settled : Settled succeeds m acc.2 r

/-- The turn of `v`: its dependencies had theirs, and nobody whose turn has been depends on it. -/
theorem passed_snoc {v : String} {outcome : String → InitOutcome}
    (ho : ∀ n, (outcome n).returned = some true ↔ (outcome n).initialized = true)
    (hr : Dfs.TopoSorted (registeredDependencies m) r) (hv : v ∉ r)
    (hd : ∀ d ∈ registeredDependencies m v, d ∈ r) (hm : v ∈ m)
    (h : Passed (fun n => (outcome n).initialized = true) m r acc) :
    Passed (fun n => (outcome n).initialized = true) m (r ++ [v]) (initializeNext outcome acc v) := by
  obtain ⟨p, hp⟩ : ∃ p, m[v]? = some p := Option.isSome_iff_exists.mp (Std.ExtTreeMap.mem_iff_isSome_getElem?.mp hm)
  have hpa : acc.2[v]? = some p := by rw [h.untouched v hv, hp]
  obtain ⟨hret, hother, hdeps, hstatus⟩ := initializePlugin_turn hpa (ho v)
  -- `v` is no dependency of a name that is in `r`, nor of itself
  have hnot : ∀ n, n ∈ r ++ [v] → ∀ q, m[n]? = some q → ∀ d ∈ q.dependencies, d ≠ v := by
    intro n hn q hq d hdq hdv
    subst hdv
    have he : d ∈ registeredDependencies m n := mem_registeredDependencies.mpr ⟨q, hq, hdq, hm⟩
    rcases List.mem_append.mp hn with hn | hn
    · exact hv (hr.closed n hn d he)
    · rw [List.mem_singleton.mp hn] at he
      exact hv (hd d he)
  have hsame : ∀ n, n ≠ v → isDependencySatisfied (initializeNext outcome acc v).2 n = isDependencySatisfied acc.2 n :=
    fun n hn => satisfied_of_eq (hother n hn)
  have hrule : ∀ n ∈ r ++ [v], Enabled (fun n => (outcome n).initialized = true) m
      (isDependencySatisfied (initializeNext outcome acc v).2 · = true) n ↔
      Enabled (fun n => (outcome n).initialized = true) m (isDependencySatisfied acc.2 · = true) n := by
    intro n hn
    refine Enabled.congr ?_
    intro q hq d hdq
    rw [hsame d (hnot n hn q hq d hdq)]
  refine ⟨?_, ?_, ?_, ?_⟩
  · intro n
    by_cases hn : n = v
    · subst hn
      rw [hp]
      exact hdeps
    · show (initializePlugin acc.2 v (outcome v)).2[n]?.map _ = _
      rw [hother n hn]
      exact h.graph n
  · intro n hn
    have hn' : n ∉ r ∧ n ≠ v := by simpa using hn
    exact (hother n hn'.2).trans (h.untouched n hn'.1)
  · intro n
    show (acc.1.insert v (initializePlugin acc.2 v (outcome v)).1)[n]? = _
    by_cases hn : n = v
    · subst hn
      simp [hret, initializeNext]
    · have hn' : ¬ v = n := fun e => hn e.symm
      rw [Std.ExtTreeMap.getElem?_insert, hsame n hn]
      simp [hn, hn', h.results n]
  · intro n hn
    rw [hrule n hn]
    by_cases hnv : n = v
    · subst hnv
      refine hstatus.trans ?_
      unfold Enabled
      constructor
      · intro hs
        exact ⟨p, hp, hs⟩
      · intro hs
        obtain ⟨q, hq, hs⟩ := hs
        rw [hp] at hq
        cases hq
        exact hs
    · rw [hsame n hnv]
      refine h.settled n ?_
      simpa [hnv] using hn

theorem pass_settled {outcome : String → InitOutcome}
    (ho : ∀ n, (outcome n).returned = some true ↔ (outcome n).initialized = true)
    (hr : Dfs.TopoSorted (registeredDependencies m) r) (hm : ∀ n ∈ r, n ∈ m) :
    Passed (fun n => (outcome n).initialized = true) m r (r.foldl (initializeNext outcome) (∅, m)) := by
  induction hr with
  | nil => exact ⟨fun _ => rfl, fun _ _ => rfl, by simp, by simp [Settled]⟩
  | @snoc r v hr hv hd ih =>
    rw [List.foldl_append]
    have ih' := ih fun n hn => hm n (List.mem_append_left _ hn)
    exact passed_snoc ho hr hv hd (hm v (by simp)) ih'

/-! ## The fixpoint -/

/-- A settled status is below every set of names closed under the rule. -/
theorem settled_least
    (hr : Dfs.TopoSorted (registeredDependencies m) r) (hg : SameGraph m m') (hs : Settled succeeds m m' r)
    (hS : ∀ n, Enabled succeeds m S n → S n) :
    ∀ n ∈ r, isDependencySatisfied m' n = true → S n := by
  induction hr with
  | nil =>
    intro n hn
    cases hn
  | @snoc r v _ _ hd ih =>
    have ih' := ih fun n hn => hs n (List.mem_append_left _ hn)
    intro n hn hsat
    rcases List.mem_append.mp hn with hn' | hn'
    · exact ih' n hn' hsat
    · have hnv : n = v := List.mem_singleton.mp hn'
      obtain ⟨p, hp, hcase⟩ := (hs n hn).mp hsat
      refine hS n ⟨p, hp, ?_⟩
      rcases hcase with hinit | ⟨hdeps, hsucc⟩
      · exact Or.inl hinit
      · refine Or.inr ⟨?_, hsucc⟩
        intro d hdp
        obtain ⟨q, hq, -⟩ := registered_of_satisfied (hdeps d hdp)
        have hdm : d ∈ m := (hg.mem d).mp (Std.ExtTreeMap.mem_iff_isSome_getElem?.mpr (by simp [hq]))
        have hdr : d ∈ r := hd d (hnv ▸ mem_registeredDependencies.mpr ⟨p, hp, hdp, hdm⟩)
        exact ih' d hdr (hdeps d hdp)

/-- The status of every plugin, when the graph is the same and `r` holds all its names. -/
structure Outcome (succeeds : String → Prop) (m m' : Plugins) : Prop where
  graph : SameGraph m m'
  rule : ∀ n, isDependencySatisfied m' n = true ↔ Enabled succeeds m (isDependencySatisfied m' · = true) n

theorem Passed.outcome
    (hall : ∀ n, n ∈ r ↔ n ∈ m) (h : Passed succeeds m r acc) :
    Outcome succeeds m acc.2 := by
  refine ⟨h.graph, ?_⟩
  intro n
  by_cases hn : n ∈ r
  · exact h.settled n hn
  · have hnone : m[n]? = none := by
      rw [hall, Std.ExtTreeMap.mem_iff_isSome_getElem?] at hn
      simpa using hn
    constructor
    · intro hsat
      obtain ⟨q, hq, -⟩ := registered_of_satisfied hsat
      rw [h.untouched n hn, hnone] at hq
      cases hq
    · intro hen
      obtain ⟨p, hp, -⟩ := hen
      rw [hnone] at hp
      cases hp

theorem Outcome.least
    (hr : Dfs.TopoSorted (registeredDependencies m) r) (hall : ∀ n, n ∈ r ↔ n ∈ m) (h : Outcome succeeds m m')
    (hS : ∀ n, Enabled succeeds m S n → S n) (n : String)
    (hn : isDependencySatisfied m' n = true) : S n := by
  obtain ⟨p, hp, -⟩ := (h.rule n).mp hn
  have hm : n ∈ m := Std.ExtTreeMap.mem_iff_isSome_getElem?.mpr (by simp [hp])
  exact settled_least hr h.graph (fun n _ => h.rule n) hS n ((hall n).mpr hm) hn

/-- Plugins with the same dependencies and the same status are the same. -/
theorem plugins_ext (h₁ : SameGraph m m₁) (h₂ : SameGraph m m₂)
    (h : ∀ n, isDependencySatisfied m₁ n = isDependencySatisfied m₂ n) : m₁ = m₂ := by
  apply Std.ExtTreeMap.ext_getElem?
  intro n
  have hd : m₁[n]?.map (·.dependencies) = m₂[n]?.map (·.dependencies) := (h₁ n).trans (h₂ n).symm
  have hs := h n
  unfold isDependencySatisfied at hs
  cases hp : m₁[n]? with
  | none =>
    cases hq : m₂[n]? with
    | none => rfl
    | some q => simp [hp, hq] at hd
  | some p =>
    cases hq : m₂[n]? with
    | none => simp [hp, hq] at hd
    | some q =>
      obtain ⟨pd, pi⟩ := p
      obtain ⟨qd, qi⟩ := q
      simp_all

theorem outcome_unique (hr : Dfs.TopoSorted (registeredDependencies m) r) (hall : ∀ n, n ∈ r ↔ n ∈ m)
    (h₁ : Outcome succeeds m m₁) (h₂ : Outcome succeeds m m₂) : m₁ = m₂ := by
  apply plugins_ext h₁.graph h₂.graph
  intro n
  rw [Bool.eq_iff_iff]
  constructor
  · exact h₁.least hr hall (fun n => (h₂.rule n).mpr) n
  · exact h₂.least hr hall (fun n => (h₁.rule n).mpr) n

/-- A settled status is settled again: nothing is left to initialize. -/
theorem Outcome.again (h : Outcome succeeds m m') : Outcome succeeds m' m' := by
  refine ⟨fun _ => rfl, ?_⟩
  intro n
  constructor
  · intro hn
    obtain ⟨p, hp, hinit⟩ := registered_of_satisfied hn
    exact ⟨p, hp, Or.inl hinit⟩
  · intro hn
    obtain ⟨p', hp', hcase⟩ := hn
    rcases hcase with hinit | hrest
    · unfold isDependencySatisfied
      rw [hp']
      exact hinit
    · -- the rule read in `m`, where the plugin has the same dependencies
      obtain ⟨p, hp, hd⟩ : ∃ p, m[n]? = some p ∧ p.dependencies = p'.dependencies := by
        have hg := h.graph n
        rw [hp'] at hg
        exact Option.map_eq_some_iff.mp hg.symm
      rw [h.rule n]
      exact ⟨p, hp, Or.inr (hd ▸ hrest)⟩

theorem initializeAllPlugins_of_acyclic {config : PluginConfig}
    {outcome : String → PluginConfig → InitOutcome} (hi : iteration.Perm m.keys)
    (ha : Dfs.Acyclic (registeredDependencies m))
    (ho : ∀ n, (outcome n config).returned = some true ↔ (outcome n config).initialized = true) :
    ∃ results m', initializeAllPlugins m iteration config outcome = (.ok results, m') ∧
      (∀ n : String, results[n]? = if n ∈ m then some (isDependencySatisfied m' n) else none) ∧
      Outcome (fun n => (outcome n config).initialized = true) m m' := by
  obtain ⟨r, hr⟩ := loadOrder_of_acyclic hi ha
  obtain ⟨hsorted, hall⟩ := loadOrder_ok hi hr
  have hpass : Passed (fun n => (outcome n config).initialized = true) m r
      (r.foldl (initializeNext (outcome · config)) (∅, m)) :=
    pass_settled ho hsorted fun n hn => (hall n).mp hn
  refine ⟨_, _, by rw [initializeAllPlugins, hr], ?_, hpass.outcome hall⟩
  intro n
  rw [hpass.results n]
  simp only [hall n]

/-- The call succeeds on an acyclic graph; its results are the status of the registered
    plugins; that status is the least one closed under the rule, the same for every order
    of iteration, and stays when the call is repeated. -/
theorem initializeAllPlugins_fixpoint (m : Plugins) (iteration : List String) (config : PluginConfig)
    (outcome : String → PluginConfig → InitOutcome) (hi : iteration.Perm m.keys)
    (ha : Dfs.Acyclic (registeredDependencies m))
    (ho : ∀ n, (outcome n config).returned = some true ↔ (outcome n config).initialized = true) :
    ∃ results m', initializeAllPlugins m iteration config outcome = (.ok results, m') ∧ SameGraph m m' ∧
      (∀ n : String, results[n]? = if n ∈ m then some (isDependencySatisfied m' n) else none) ∧
      (∀ n, isDependencySatisfied m' n = true ↔
        Enabled (fun n => (outcome n config).initialized = true) m (isDependencySatisfied m' · = true) n) ∧
      (∀ S : String → Prop, (∀ n, Enabled (fun n => (outcome n config).initialized = true) m S n → S n) →
        ∀ n, isDependencySatisfied m' n = true → S n) ∧
      (∀ iteration', iteration'.Perm m.keys →
        initializeAllPlugins m iteration' config outcome = (.ok results, m') ∧
        (initializeAllPlugins m' iteration' config outcome).2 = m') := by
  obtain ⟨results, m', hrun, hres, hout⟩ := initializeAllPlugins_of_acyclic hi ha ho
  obtain ⟨r, hr⟩ := loadOrder_of_acyclic hi ha
  obtain ⟨hsorted, hall⟩ := loadOrder_ok hi hr
  refine ⟨results, m', hrun, hout.graph, hres, hout.rule, fun S hS => hout.least hsorted hall hS, ?_⟩
  intro iteration' hi'
  constructor
  · obtain ⟨results₂, m₂, hrun₂, hres₂, hout₂⟩ := initializeAllPlugins_of_acyclic hi' ha ho
    obtain rfl : m₂ = m' := outcome_unique hsorted hall hout₂ hout
    have hsame : results₂ = results := by
      apply Std.ExtTreeMap.ext_getElem?
      intro n
      rw [hres₂ n, hres n]
    rw [hrun₂, hsame]
  · -- the second call, on the graph the first left as it was
    have hgraph := hout.graph.registeredDependencies
    have hkeys : iteration'.Perm m'.keys := by
      refine hi'.trans ((List.perm_ext_iff_of_nodup ?_ ?_).mpr ?_)
      · exact Std.ExtTreeMap.nodup_keys
      · exact Std.ExtTreeMap.nodup_keys
      · intro n
        rw [Std.ExtTreeMap.mem_keys, Std.ExtTreeMap.mem_keys, hout.graph.mem]
    obtain ⟨results₂, m₂, hrun₂, -, hout₂⟩ := initializeAllPlugins_of_acyclic hkeys (hgraph ▸ ha) ho
    rw [hrun₂]
    exact outcome_unique (hgraph ▸ hsorted) (fun n => (hall n).trans (hout.graph.mem n).symm) hout₂ hout.again

/-- Three plugins in a chain; the last also needs one that is not registered. -/
def chain : Plugins :=
  ((∅ : Plugins).insert "log" { dependencies := [] }).insert "store" { dependencies := ["log"] }
    |>.insert "metrics" { dependencies := ["store", "clock"] }

theorem chain_acyclic : Dfs.Acyclic (registeredDependencies chain) := by
  apply Dfs.acyclic_of_rank String.length
  intro a b hb
  obtain ⟨p, hp, hd, hm⟩ := mem_registeredDependencies.mp hb
  simp only [chain, Std.ExtTreeMap.getElem?_insert, Std.ExtTreeMap.mem_insert, Std.compare_eq_iff_eq] at hp hm
  split at hp
  · rename_i ha
    cases hp
    subst ha
    have hb' : b = "store" ∨ b = "clock" := by simpa using hd
    rcases hb' with rfl | rfl
    · decide
    · exact absurd hm (by decide)
  · split at hp
    · rename_i ha
      cases hp
      subst ha
      have hb' : b = "log" := by simpa using hd
      subst hb'
      decide
    · split at hp
      · cases hp
        cases hd
      · cases hp

theorem initializeAllPlugins_fixpoint_chain :
    ∃ results m', initializeAllPlugins chain ["metrics", "store", "log"] ∅ (fun _ _ => ⟨some true, true⟩) = (.ok results, m') ∧
      SameGraph chain m' ∧
      (∀ n : String, results[n]? = if n ∈ chain then some (isDependencySatisfied m' n) else none) ∧
      (∀ n, isDependencySatisfied m' n = true ↔
        Enabled (fun _ => true = true) chain (isDependencySatisfied m' · = true) n) ∧
      (∀ S : String → Prop, (∀ n, Enabled (fun _ => true = true) chain S n → S n) →
        ∀ n, isDependencySatisfied m' n = true → S n) ∧
      (∀ iteration', iteration'.Perm chain.keys →
        initializeAllPlugins chain iteration' ∅ (fun _ _ => ⟨some true, true⟩) = (.ok results, m') ∧
        (initializeAllPlugins m' iteration' ∅ (fun _ _ => ⟨some true, true⟩)).2 = m') :=
  initializeAllPlugins_fixpoint chain ["metrics", "store", "log"] ∅ (fun _ _ => ⟨some true, true⟩)
    (by decide +kernel) chain_acyclic (by simp)

end DockerCpp.Plugin
