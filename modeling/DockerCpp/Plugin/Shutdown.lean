/-
  DockerCpp.Plugin.Shutdown — what `shutdownAllPlugins` calls, when, and what it leaves.

  The loop walks through the load order from its end, so each plugin comes before those it
  needs. `shutdownAllCalls` are the calls of `shutdown` it makes, each with the registry it is
  made in, as the loop records them. On an acyclic graph every initialized plugin gets one call and no other plugin
  gets any; at a call, a plugin that declares the called one has had its own turn, so it is
  initialized only if its own `shutdown` left it so (`shutdown_order`).

  The load order is computed first, and throws if there is a cycle anywhere: then no plugin
  is shut down, also those that have nothing to do with the cycle. `registerPlugin` accepts
  a cycle. So the call leaves no plugin initialized exactly if there was none, or there is
  no cycle and every `shutdown` does what it should (`shutdown_complete_iff`).
-/

import DockerCpp.Plugin.Closure
import DockerCpp.Plugin.LoadOrder

namespace DockerCpp.Plugin

open Lib Relation

/-! ## The calls -/

variable {outcome : String → ShutdownOutcome}

/-- The calls of a loop over `names`, from the first on. -/
def shutdownCalls (outcome : String → ShutdownOutcome) : List String → Plugins → List (String × Plugins)
  | [], _ => []
  | name :: names, m =>
    let rest := shutdownCalls outcome names (shutdownNext outcome m name)
    if isDependencySatisfied m name then (name, m) :: rest else rest

/-- `shutdownPluginUnsafe` calls `shutdown` on a plugin that is registered and initialized. -/
theorem shutdownPluginUnsafe_calls (m : Plugins) (name : String) (o : ShutdownOutcome) :
    (shutdownPluginUnsafe m name o).2.1 = if isDependencySatisfied m name then [(name, m)] else [] := by
  unfold shutdownPluginUnsafe isDependencySatisfied
  cases m[name]? with
  | none => rfl
  | some p =>
    simp only [Option.any_some]
    split <;> rfl

theorem shutdownTurns_calls (names : List String) (acc : List (String × Plugins) × Plugins) :
    (names.foldl (shutdownTurn outcome) acc).1 = acc.1 ++ shutdownCalls outcome names acc.2 := by
  induction names generalizing acc with
  | nil => exact (List.append_nil _).symm
  | cons name names ih =>
    rw [List.foldl_cons, ih, shutdownCalls]
    show (acc.1 ++ (shutdownPluginUnsafe acc.2 name (outcome name)).2.1) ++ _ = _
    rw [shutdownPluginUnsafe_calls, List.append_assoc]
    split <;> rfl

variable {m : Plugins} {n : String} {names : List String}

theorem shutdownAllCalls_ok {iteration names : List String} (h : getLoadOrderUnsafe m iteration = .ok names) :
    shutdownAllCalls m iteration outcome = shutdownCalls outcome names.reverse m := by
  rw [shutdownAllCalls, shutdownAll, h]
  exact shutdownTurns_calls names.reverse ([], m)

theorem mem_shutdownCalls {m here : Plugins} :
    (n, here) ∈ shutdownCalls outcome names m ↔ ∃ before after, names = before ++ n :: after ∧
      here = before.foldl (shutdownNext outcome) m ∧ isDependencySatisfied here n = true := by
  induction names generalizing m with
  | nil => simp [shutdownCalls]
  | cons name names ih =>
    have hhead : (n, here) ∈ shutdownCalls outcome (name :: names) m ↔
        (n = name ∧ here = m ∧ isDependencySatisfied m name = true) ∨
          (n, here) ∈ shutdownCalls outcome names (shutdownNext outcome m name) := by
      simp only [shutdownCalls]
      split
      · rename_i hup
        simp [hup]
      · rename_i hup
        simp [hup]
    rw [hhead, ih]
    constructor
    · rintro (⟨rfl, rfl, hup⟩ | ⟨before, after, rfl, hhere, hup⟩)
      · exact ⟨[], names, rfl, rfl, hup⟩
      · exact ⟨name :: before, after, rfl, hhere, hup⟩
    · rintro ⟨before, after, hnames, hhere, hup⟩
      cases before with
      | nil =>
        obtain ⟨rfl, -⟩ := List.cons.inj hnames
        obtain rfl : here = m := hhere
        exact Or.inl ⟨rfl, rfl, hup⟩
      | cons b before =>
        obtain ⟨rfl, rfl⟩ := List.cons.inj hnames
        exact Or.inr ⟨before, after, rfl, hhere, hup⟩

theorem shutdownCalls_sublist (names : List String) (m : Plugins) :
    ((shutdownCalls outcome names m).map Prod.fst).Sublist names := by
  induction names generalizing m with
  | nil => exact List.Sublist.slnil
  | cons name names ih =>
    simp only [shutdownCalls]
    split
    · exact (ih _).cons_cons name
    · exact (ih _).cons name

/-- A plugin whose turn has not come is as it was. -/
theorem satisfied_before {before after : List String} (hnodup : (before ++ n :: after).Nodup)
    (m : Plugins) : isDependencySatisfied (before.foldl (shutdownNext outcome) m) n = isDependencySatisfied m n := by
  refine satisfied_of_eq ?_
  have hn : n ∉ before := fun h => (List.nodup_append.mp hnodup).2.2 n h n List.mem_cons_self rfl
  rw [getElem?_shutdownLoop, if_neg hn]

/-- Every name of the list has its turn, and is called iff it was initialized before. -/
theorem called_iff (hnodup : names.Nodup) (hn : n ∈ names) :
    n ∈ (shutdownCalls outcome names m).map Prod.fst ↔ isDependencySatisfied m n = true := by
  rw [List.mem_map]
  constructor
  · rintro ⟨⟨_, here⟩, hcall, rfl⟩
    obtain ⟨before, after, rfl, rfl, hup⟩ := mem_shutdownCalls.mp hcall
    rwa [satisfied_before hnodup] at hup
  · intro hup
    obtain ⟨before, after, rfl⟩ := List.append_of_mem hn
    refine ⟨(n, before.foldl (shutdownNext outcome) m), mem_shutdownCalls.mpr ⟨before, after, rfl, rfl, ?_⟩, rfl⟩
    rwa [satisfied_before hnodup]

/-! ## The order of the calls -/

/-- In the reversed load order, who declares `n` comes before it. -/
theorem dependents_first {r before after : List String} {q n : String}
    (hr : Dfs.TopoSorted (registeredDependencies m) r) (hsplit : r.reverse = before ++ n :: after) (hq : q ∈ r)
    (hdep : DependsOn m q n) : q ∈ before := by
  have hedge : n ∈ registeredDependencies m q := mem_registeredDependencies.mpr hdep
  have hmem : q ∈ before ++ n :: after := hsplit ▸ List.mem_reverse.mpr hq
  rcases List.mem_append.mp hmem with hbefore | hrest
  · exact hbefore
  · rcases List.mem_cons.mp hrest with rfl | hafter
    · exact absurd (TransGen.single hedge) (hr.no_cycle hq)
    · have hpair := List.pairwise_reverse.mpr hr.pairwise
      rw [hsplit] at hpair
      exact absurd hedge ((List.pairwise_cons.mp (List.pairwise_append.mp hpair).2.1).1 q hafter)

/-- On an acyclic graph each initialized plugin gets one call, no other gets any, and when
    `n` is called, a plugin that declares it is initialized only if its own `shutdown`, which
    came before, left it so. -/
theorem shutdown_order (m : Plugins) (iteration : List String) (outcome : String → ShutdownOutcome)
    (hi : iteration.Perm m.keys) (ha : ∀ n, ¬ TransGen (DependsOn m) n n) :
    (shutdownAllPlugins m iteration outcome).1 = .ok () ∧
      ((shutdownAllCalls m iteration outcome).map Prod.fst).Nodup ∧
      (∀ n, n ∈ (shutdownAllCalls m iteration outcome).map Prod.fst ↔ isDependencySatisfied m n = true) ∧
      ∀ n here, (n, here) ∈ shutdownAllCalls m iteration outcome → ∀ (q : String) (p : IPlugin), here[q]? = some p →
        n ∈ p.dependencies → p.initialized = true → (outcome q).initialized = true := by
  obtain ⟨r, hr⟩ := loadOrder_of_acyclic hi ((acyclic_iff m).mpr ha)
  obtain ⟨hsorted, hall⟩ := loadOrder_ok hi hr
  have hnodup : r.reverse.Nodup := List.nodup_reverse.mpr hsorted.nodup
  rw [shutdownAllPlugins_ok hr, shutdownAllCalls_ok hr]
  refine ⟨rfl, hnodup.sublist (shutdownCalls_sublist _ m), fun n => ?_, ?_⟩
  · by_cases hn : n ∈ m
    · exact called_iff hnodup (List.mem_reverse.mpr ((hall n).mpr hn))
    · have hout : n ∉ r.reverse := fun h => hn ((hall n).mp (List.mem_reverse.mp h))
      constructor
      · exact fun h => absurd ((shutdownCalls_sublist _ m).subset h) hout
      · intro hup
        obtain ⟨p, hp, -⟩ := registered_of_satisfied hup
        exact absurd (Std.ExtTreeMap.mem_iff_isSome_getElem?.mpr (by simp [hp])) hn
  · intro n here hcall q p hq hdep hinit
    obtain ⟨before, after, hsplit, rfl, -⟩ := mem_shutdownCalls.mp hcall
    have hn : n ∈ m := (hall n).mp (List.mem_reverse.mp (by simp [hsplit]))
    rw [getElem?_shutdownLoop] at hq
    -- the loop changes no dependencies, so `q` declares `n` in the registry it started with
    obtain ⟨p₀, hp₀, hdep₀⟩ : ∃ p₀, m[q]? = some p₀ ∧ n ∈ p₀.dependencies := by
      split at hq
      · obtain ⟨p₀, hp₀, rfl⟩ := Option.map_eq_some_iff.mp hq
        exact ⟨p₀, hp₀, hdep⟩
      · exact ⟨p, hq, hdep⟩
    have hqn : DependsOn m q n := ⟨p₀, hp₀, hdep₀, hn⟩
    rw [if_pos (dependents_first hsorted hsplit ((hall q).mpr hqn.registered) hqn), hp₀] at hq
    obtain rfl : shutBy (outcome q) p₀ = p := Option.some.inj hq
    exact (Bool.and_eq_true_iff.mp hinit).2

/-- Three plugins in a chain, of which the first two are initialized. -/
def upChain : Plugins :=
  runFrom Call.apply ∅ [.registerPlugin "log" (some []), .registerPlugin "store" (some ["log"]),
    .registerPlugin "metrics" (some ["store", "clock"]), .initializePlugin "log" ⟨some true, true⟩,
    .initializePlugin "store" ⟨some true, true⟩]

theorem shutdown_order_chain :
    (shutdownAllPlugins upChain ["log", "metrics", "store"] (fun _ => ⟨false, false⟩)).1 = .ok () ∧
      ((shutdownAllCalls upChain ["log", "metrics", "store"] (fun _ => ⟨false, false⟩)).map Prod.fst).Nodup ∧
      (∀ n, n ∈ (shutdownAllCalls upChain ["log", "metrics", "store"] (fun _ => ⟨false, false⟩)).map Prod.fst ↔
        isDependencySatisfied upChain n = true) ∧
      ∀ n here, (n, here) ∈ shutdownAllCalls upChain ["log", "metrics", "store"] (fun _ => ⟨false, false⟩) →
        ∀ (q : String) (p : IPlugin), here[q]? = some p → n ∈ p.dependencies → p.initialized = true → false = true :=
  have hi : ["log", "metrics", "store"].Perm upChain.keys := by decide +kernel
  have hr : getLoadOrder upChain ["log", "metrics", "store"] = .ok ["log", "store", "metrics"] := by decide +kernel
  shutdown_order upChain ["log", "metrics", "store"] (fun _ => ⟨false, false⟩) hi (no_cycle_of_ok hi hr)

/-! ## What is left -/

theorem satisfied_shutBy {m m' : Plugins} (h : m'[n]? = m[n]?.map (shutBy (outcome n))) :
    isDependencySatisfied m' n = (isDependencySatisfied m n && (outcome n).initialized) := by
  unfold isDependencySatisfied
  rw [h]
  cases m[n]? <;> simp [shutBy]

/-- No plugin is initialized after the call iff none was before, or the graph has no cycle
    and every `shutdown` of an initialized plugin leaves it uninitialized. -/
theorem shutdown_complete_iff (m : Plugins) (iteration : List String) (outcome : String → ShutdownOutcome)
    (hi : iteration.Perm m.keys) :
    (∀ n, isDependencySatisfied (shutdownAllPlugins m iteration outcome).2 n = false) ↔
      (∀ n, isDependencySatisfied m n = false) ∨
        (∀ n, ¬ TransGen (DependsOn m) n n) ∧
          ∀ n, isDependencySatisfied m n = true → (outcome n).initialized = false := by
  cases hr : getLoadOrderUnsafe m iteration with
  | error e =>
    -- nothing is shut down, since there is a cycle
    obtain ⟨k, -, hcycle⟩ := getLoadOrder_fails hi (getLoadOrder_eq m iteration ▸ hr)
    rw [shutdownAllPlugins_error hr]
    constructor
    · exact Or.inl
    · rintro (hnone | ⟨ha, -⟩)
      · exact hnone
      · exact absurd hcycle (ha k)
  | ok names =>
    obtain ⟨-, hall⟩ := loadOrder_ok hi hr
    have ha : ∀ n, ¬ TransGen (DependsOn m) n n := no_cycle_of_ok hi (getLoadOrder_eq m iteration ▸ hr)
    have hup : ∀ n, isDependencySatisfied (names.reverse.foldl (shutdownNext outcome) m) n =
        (isDependencySatisfied m n && (outcome n).initialized) := by
      intro n
      refine satisfied_shutBy ?_
      rw [getElem?_shutdownLoop]
      by_cases hn : n ∈ m
      · rw [if_pos (List.mem_reverse.mpr ((hall n).mpr hn))]
      · rw [Std.ExtTreeMap.mem_iff_isSome_getElem?, Option.not_isSome_iff_eq_none] at hn
        rw [hn]
        simp
    simp only [shutdownAllPlugins_ok hr, hup, Bool.and_eq_false_iff]
    constructor
    · intro hleft
      refine Or.inr ⟨ha, fun n hn => ?_⟩
      rcases hleft n with hoff | hdown
      · rw [hoff] at hn
        cases hn
      · exact hdown
    · rintro (hnone | ⟨-, hdown⟩) n
      · exact Or.inl (hnone n)
      · cases hn : isDependencySatisfied m n with
        | false => exact Or.inl rfl
        | true => exact Or.inr (hdown n hn)

/-- The log is initialized; then two plugins that need each other are registered. -/
def upBesideLoop : Plugins :=
  runFrom Call.apply ∅ [.registerPlugin "log" (some []), .initializePlugin "log" ⟨some true, true⟩,
    .registerPlugin "store" (some ["cache"]), .registerPlugin "cache" (some ["store"])]

/-- The log stays up, though its `shutdown` would succeed and it is on no cycle. -/
theorem a_cycle_keeps_the_others_up :
    isDependencySatisfied upBesideLoop "log" = true ∧
      (shutdownAllPlugins upBesideLoop ["log", "cache", "store"] fun _ => ⟨false, false⟩).1 =
        .error (circular "cache") ∧
      isDependencySatisfied (shutdownAllPlugins upBesideLoop ["log", "cache", "store"] fun _ => ⟨false, false⟩).2
        "log" = true := by
  decide +kernel

theorem shutdown_complete_iff_loop :
    (∀ n, isDependencySatisfied (shutdownAllPlugins upBesideLoop ["log", "cache", "store"] fun _ => ⟨false, false⟩).2
        n = false) ↔
      (∀ n, isDependencySatisfied upBesideLoop n = false) ∨
        (∀ n, ¬ TransGen (DependsOn upBesideLoop) n n) ∧
          ∀ n, isDependencySatisfied upBesideLoop n = true → false = false :=
  shutdown_complete_iff upBesideLoop ["log", "cache", "store"] (fun _ => ⟨false, false⟩) (by decide +kernel)

end DockerCpp.Plugin
