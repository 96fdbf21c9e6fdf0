/-
  DockerCpp.Plugin.Closure — an initialized plugin has its dependencies initialized.

  `initializePlugin` checks the dependencies, so initializing keeps `Closed`. Nothing
  checks the other direction: `shutdownPlugin` and `unregisterPlugin` take a plugin away
  from those that need it, and in `shutdownAllPlugins` a plugin whose `shutdown` failed
  stays up while those it needs go down. These are the only ways to lose it
  (`call_closed`): a run from the empty registry keeps `Closed` throughout exactly when
  every call of it was `Careful` (`closed_throughout_iff_careful`).
-/

import DockerCpp.Lib.Run
import DockerCpp.Plugin.Initialization

namespace DockerCpp.Plugin

open Lib

/-- Every initialized plugin has its declared dependencies registered and initialized. -/
def Closed (m : Plugins) : Prop :=
  ∀ (n : String) (p : IPlugin), m[n]? = some p → p.initialized = true → ∀ d ∈ p.dependencies, isDependencySatisfied m d = true

/-- Another initialized plugin declares it. -/
def Needed (m : Plugins) (name : String) : Prop :=
  ∃ (n : String) (p : IPlugin), n ≠ name ∧ m[n]? = some p ∧ p.initialized = true ∧ name ∈ p.dependencies

variable {m m' : Plugins} {name : String} {p : IPlugin}

theorem satisfied_iff {n : String} (hp : m[n]? = some p) : isDependencySatisfied m n = p.initialized := by
  simp [isDependencySatisfied, hp]

theorem setStatus_self (hp : m[name]? = some p) : setStatus m name p p.initialized = m := by
  apply Std.ExtTreeMap.ext_getElem?
  intro n
  rw [getElem?_setStatus]
  split
  · rename_i hn
    rw [← hn, hp]
  · rfl

/-! ## One plugin changes -/

/-- A plugin goes down or leaves, and the others stay as they are. -/
theorem closed_without (hc : Closed m) (hother : ∀ n, n ≠ name → m'[n]? = m[n]?)
    (hoff : isDependencySatisfied m' name = false) : Closed m' ↔ ¬ Needed m name := by
  constructor
  · intro hc' hneed
    obtain ⟨n, p, hn, hp, hinit, hd⟩ := hneed
    have hsat := hc' n p ((hother n hn).trans hp) hinit name hd
    rw [hoff] at hsat
    cases hsat
  · intro hneed n p hp hinit d hd
    have hn : n ≠ name := by
      intro e
      subst e
      rw [satisfied_iff hp, hinit] at hoff
      cases hoff
    have hp' : m[n]? = some p := (hother n hn).symm.trans hp
    have hdn : d ≠ name := by
      intro e
      subst e
      exact hneed ⟨n, p, hn, hp', hinit, hd⟩
    rw [satisfied_of_eq (hother d hdn)]
    exact hc n p hp' hinit d hd

/-- A plugin comes up with its dependencies there, and the others stay as they are. -/
theorem closed_with (hc : Closed m) (hother : ∀ n, n ≠ name → m'[n]? = m[n]?)
    (hwas : isDependencySatisfied m name = false)
    (hdeps : ∀ p, m'[name]? = some p → p.initialized = true → ∀ d ∈ p.dependencies, isDependencySatisfied m d = true) :
    Closed m' := by
  intro n p hp hinit d hd
  have hsat : isDependencySatisfied m d = true := by
    by_cases hn : n = name
    · subst hn
      exact hdeps p hp hinit d hd
    · exact hc n p ((hother n hn).symm.trans hp) hinit d hd
  have hdn : d ≠ name := by
    intro e
    subst e
    rw [hwas] at hsat
    cases hsat
  rw [satisfied_of_eq (hother d hdn)]
  exact hsat

theorem setStatus_other (m : Plugins) (name : String) (p : IPlugin) (b : Bool) (n : String) (hn : n ≠ name) :
    (setStatus m name p b)[n]? = m[n]? := by
  rw [getElem?_setStatus, if_neg (Ne.symm hn)]

/-- A call of `shutdown` left an initialized plugin with the status `b`. -/
theorem closed_setStatus (hc : Closed m) (hp : m[name]? = some p) (hinit : p.initialized = true) (b : Bool) :
    Closed (setStatus m name p b) ↔ (b = false → ¬ Needed m name) := by
  cases b with
  | true =>
    have hself := setStatus_self hp
    rw [hinit] at hself
    rw [hself]
    simp [hc]
  | false =>
    have hoff : isDependencySatisfied (setStatus m name p false) name = false := by
      simp [isDependencySatisfied, getElem?_setStatus]
    rw [closed_without hc (setStatus_other m name p false) hoff]
    simp

/-! ## The operations -/

theorem registerPlugin_closed {plugin : Option (List String)} (hc : Closed m)
    (h : registerPlugin m name plugin = .ok m') : Closed m' := by
  unfold registerPlugin at h
  cases hv : validatePluginName name with
  | error e => simp [hv, bind, Except.bind] at h
  | ok u =>
    cases hu : validatePluginUniqueness m name with
    | error e => simp [hv, hu, bind, Except.bind] at h
    | ok u' =>
      cases plugin with
      | none => simp [hv, hu, bind, Except.bind] at h
      | some deps =>
        have hm : m' = m.insert name { dependencies := deps } := by simpa [hv, hu, bind, Except.bind] using h.symm
        have hnew : m.contains name = false := by
          unfold validatePluginUniqueness at hu
          split at hu
          · cases hu
          · rename_i hfree
            exact Bool.eq_false_iff.mpr hfree
        have hother : ∀ n, n ≠ name → m'[n]? = m[n]? := by
          intro n hn
          rw [hm, Std.ExtTreeMap.getElem?_insert]
          simp [Ne.symm hn]
        have hwas : isDependencySatisfied m name = false := by
          rw [Std.ExtTreeMap.contains_eq_isSome_getElem?, Option.isSome_eq_false_iff, Option.isNone_iff_eq_none] at hnew
          simp only [isDependencySatisfied, hnew, Option.any_none]
        refine closed_with hc hother hwas ?_
        -- it is registered before it was ever initialized
        intro p hp hinit
        have hp' : { dependencies := deps } = p := by simpa [hm] using hp
        subst hp'
        cases hinit

theorem initializePlugin_closed (hc : Closed m) (name : String) (o : InitOutcome) :
    Closed (initializePlugin m name o).2 := by
  unfold initializePlugin
  cases hp : m[name]? with
  | none => exact hc
  | some p =>
    simp only
    split
    · exact hc
    · rename_i hinit
      split
      · rename_i hval
        refine closed_with hc (setStatus_other m name p o.initialized) (by rw [satisfied_iff hp]; exact Bool.eq_false_iff.mpr hinit) ?_
        intro q hq _ d hd
        have hq' : { p with initialized := o.initialized } = q := by simpa [getElem?_setStatus] using hq
        subst hq'
        have hall : ∀ d ∈ p.dependencies, isDependencySatisfied m d = true := by
          simpa [validateDependencies, hp] using hval
        exact hall d hd
      · exact hc

theorem initializeAllPlugins_closed (hc : Closed m) (iteration : List String) (config : PluginConfig)
    (outcome : String → PluginConfig → InitOutcome) : Closed (initializeAllPlugins m iteration config outcome).2 := by
  have hloop : ∀ (names : List String) (acc : Std.ExtTreeMap String Bool × Plugins), Closed acc.2 →
      Closed (names.foldl (initializeNext (outcome · config)) acc).2 := by
    intro names
    induction names with
    | nil => exact fun _ h => h
    | cons name names ih =>
      intro acc h
      exact ih _ (initializePlugin_closed h name _)
  unfold initializeAllPlugins
  cases getLoadOrderUnsafe m iteration with
  | error e => exact hc
  | ok names => exact hloop names (∅, m) hc

theorem shutdownPlugin_closed (hc : Closed m) (name : String) (o : ShutdownOutcome) :
    Closed (shutdownPlugin m name o).2 ↔
      (isDependencySatisfied m name = true → o.initialized = false → ¬ Needed m name) := by
  unfold shutdownPlugin shutdownPluginUnsafe
  cases hp : m[name]? with
  | none => simp [hc, isDependencySatisfied, hp]
  | some p =>
    rw [satisfied_iff hp]
    simp only
    split
    · rename_i hinit
      rw [closed_setStatus hc hp hinit]
      simp [hinit]
    · rename_i hinit
      simp [hc, hinit]

theorem unregisterPlugin_closed (hc : Closed m) (name : String) (o : ShutdownOutcome) :
    Closed (unregisterPlugin m name o).2 ↔
      (isDependencySatisfied m name = true → (o.threw && o.initialized) = false → ¬ Needed m name) := by
  unfold unregisterPlugin
  cases hp : m[name]? with
  | none => simp [hc, isDependencySatisfied, hp]
  | some p =>
    have herase : Closed (m.erase name) ↔ ¬ Needed m name := by
      refine closed_without hc ?_ (by simp [isDependencySatisfied])
      intro n hn
      rw [Std.ExtTreeMap.getElem?_erase]
      simp [Ne.symm hn]
    rw [satisfied_iff hp]
    simp only
    cases hinit : p.initialized with
    | false =>
      -- nobody needs it, since it was not there to be needed
      have hfree : ¬ Needed m name := by
        intro hneed
        obtain ⟨n, q, -, hq, hqi, hd⟩ := hneed
        have hsat := hc n q hq hqi name hd
        rw [satisfied_iff hp, hinit] at hsat
        cases hsat
      simp [herase, hfree]
    | true =>
      cases ht : o.threw with
      | true => simp [closed_setStatus hc hp hinit]
      | false => simp [herase]

/-- A plugin after its `shutdown` was called, if it was initialized. -/
def shutBy (o : ShutdownOutcome) (p : IPlugin) : IPlugin := { p with initialized := p.initialized && o.initialized }

theorem shutBy_shutBy (o : ShutdownOutcome) (p : IPlugin) : shutBy o (shutBy o p) = shutBy o p := by
  simp [shutBy]

theorem getElem?_shutdownNext (outcome : String → ShutdownOutcome) (m : Plugins) (name n : String) :
    (shutdownNext outcome m name)[n]? = if name = n then m[n]?.map (shutBy (outcome n)) else m[n]? := by
  unfold shutdownNext shutdownPlugin shutdownPluginUnsafe
  cases hp : m[name]? with
  | none =>
    by_cases hn : name = n
    · subst hn
      rw [if_pos rfl]
      simp only [hp, Option.map_none]
    · rw [if_neg hn]
  | some p =>
    simp only
    by_cases hn : name = n
    · subst hn
      rw [if_pos rfl, hp]
      split
      · rename_i hinit
        simp [getElem?_setStatus, shutBy, hinit]
      · rename_i hinit
        obtain ⟨deps, b⟩ := p
        have hb : b = false := Bool.eq_false_iff.mpr hinit
        simp [shutBy, hb, hp]
    · rw [if_neg hn]
      split
      · exact setStatus_other m name p _ n (Ne.symm hn)
      · rfl

theorem getElem?_shutdownLoop (outcome : String → ShutdownOutcome) (names : List String) (m : Plugins) (n : String) :
    (names.foldl (shutdownNext outcome) m)[n]? = if n ∈ names then m[n]?.map (shutBy (outcome n)) else m[n]? := by
  induction names generalizing m with
  | nil => simp
  | cons name names ih =>
    rw [List.foldl_cons, ih, getElem?_shutdownNext]
    by_cases hn : name = n
    · subst hn
      have htwice : shutBy (outcome name) ∘ shutBy (outcome name) = shutBy (outcome name) := by
        funext p
        exact shutBy_shutBy _ p
      simp [htwice]
    · simp [hn, Ne.symm hn]

/-- What `shutdownAllPlugins` leaves up needs nothing that it took down. -/
def ShutsDownClosed (m : Plugins) (outcome : String → ShutdownOutcome) : Prop :=
  ∀ (n : String) (p : IPlugin), m[n]? = some p → p.initialized = true → (outcome n).initialized = true →
    ∀ d ∈ p.dependencies, (outcome d).initialized = true

/-- Every plugin had its turn. -/
theorem closed_shutBy {outcome : String → ShutdownOutcome} (hc : Closed m)
    (hget : ∀ n : String, m'[n]? = m[n]?.map (shutBy (outcome n))) : Closed m' ↔ ShutsDownClosed m outcome := by
  have hsat : ∀ d, isDependencySatisfied m' d = (isDependencySatisfied m d && (outcome d).initialized) := by
    intro d
    unfold isDependencySatisfied
    rw [hget]
    cases m[d]? <;> simp [shutBy]
  constructor
  · intro hc' n p hp hinit hstays d hd
    have hp' : m'[n]? = some (shutBy (outcome n) p) := by rw [hget, hp]; rfl
    have hup := hc' n _ hp' (by simp [shutBy, hinit, hstays]) d hd
    rw [hsat, Bool.and_eq_true] at hup
    exact hup.2
  · intro hshut n q hq hinit d hd
    rw [hget, Option.map_eq_some_iff] at hq
    obtain ⟨p, hp, rfl⟩ := hq
    have hboth : p.initialized = true ∧ (outcome n).initialized = true := by simpa [shutBy] using hinit
    rw [hsat, Bool.and_eq_true]
    exact ⟨hc n p hp hboth.1 d hd, hshut n p hp hboth.1 hboth.2 d hd⟩

theorem shutdownAllPlugins_closed (hc : Closed m) {iteration : List String} (hi : iteration.Perm m.keys)
    (outcome : String → ShutdownOutcome) :
    Closed (shutdownAllPlugins m iteration outcome).2 ↔
      (∀ names, getLoadOrderUnsafe m iteration = .ok names → ShutsDownClosed m outcome) := by
  cases hr : getLoadOrderUnsafe m iteration with
  | error e => simp [shutdownAllPlugins_error hr, hc]
  | ok names =>
    obtain ⟨-, hall⟩ := loadOrder_ok hi hr
    rw [shutdownAllPlugins_ok hr]
    have hget : ∀ n : String, (names.reverse.foldl (shutdownNext outcome) m)[n]? = m[n]?.map (shutBy (outcome n)) := by
      intro n
      rw [getElem?_shutdownLoop]
      by_cases hn : n ∈ m
      · rw [if_pos (List.mem_reverse.mpr ((hall n).mpr hn))]
      · rw [Std.ExtTreeMap.mem_iff_isSome_getElem?, Option.not_isSome_iff_eq_none] at hn
        rw [hn]
        simp
    simp only [Except.ok.injEq, forall_eq']
    exact closed_shutBy hc hget

/-! ## Runs -/

inductive Call where
  | registerPlugin (name : String) (plugin : Option (List String))
  | unregisterPlugin (name : String) (outcome : ShutdownOutcome)
  | initializePlugin (name : String) (outcome : InitOutcome)
  | shutdownPlugin (name : String) (outcome : ShutdownOutcome)
  | initializeAllPlugins (iteration : List String) (config : PluginConfig) (outcome : String → PluginConfig → InitOutcome)
  | shutdownAllPlugins (iteration : List String) (outcome : String → ShutdownOutcome)

/-- The plugins after a call. A list that is no order of the registered names is none in
    which `plugins_` can be iterated over: such a call is left out. -/
def Call.apply (m : Plugins) : Call → Plugins
  | .registerPlugin name plugin =>
    match Plugin.registerPlugin m name plugin with
    | .ok m' => m'
    | .error _ => m
  | .unregisterPlugin name outcome => (Plugin.unregisterPlugin m name outcome).2
  | .initializePlugin name outcome => (Plugin.initializePlugin m name outcome).2
  | .shutdownPlugin name outcome => (Plugin.shutdownPlugin m name outcome).2
  | .initializeAllPlugins iteration config outcome =>
    if iteration.Perm m.keys then (Plugin.initializeAllPlugins m iteration config outcome).2 else m
  | .shutdownAllPlugins iteration outcome =>
    if iteration.Perm m.keys then (Plugin.shutdownAllPlugins m iteration outcome).2 else m

/-- The call takes no plugin away from another initialized one. -/
def Careful (m : Plugins) : Call → Prop
  | .unregisterPlugin name o => isDependencySatisfied m name = true → (o.threw && o.initialized) = false → ¬ Needed m name
  | .shutdownPlugin name o => isDependencySatisfied m name = true → o.initialized = false → ¬ Needed m name
  | .shutdownAllPlugins iteration outcome => iteration.Perm m.keys →
    ∀ names, getLoadOrderUnsafe m iteration = .ok names → ShutsDownClosed m outcome
  | _ => True

theorem call_closed (hc : Closed m) (c : Call) : Closed (c.apply m) ↔ Careful m c := by
  cases c with
  | registerPlugin name plugin =>
    refine ⟨fun _ => trivial, fun _ => ?_⟩
    simp only [Call.apply]
    split
    · rename_i m' hm'
      exact registerPlugin_closed hc hm'
    · exact hc
  | unregisterPlugin name o => exact unregisterPlugin_closed hc name o
  | initializePlugin name o => exact ⟨fun _ => trivial, fun _ => initializePlugin_closed hc name o⟩
  | shutdownPlugin name o => exact shutdownPlugin_closed hc name o
  | initializeAllPlugins iteration config outcome =>
    refine ⟨fun _ => trivial, fun _ => ?_⟩
    simp only [Call.apply]
    split
    · exact initializeAllPlugins_closed hc iteration config outcome
    · exact hc
  | shutdownAllPlugins iteration outcome =>
    simp only [Call.apply, Careful]
    by_cases hi : iteration.Perm m.keys
    · simp only [hi, if_true, true_implies]
      exact shutdownAllPlugins_closed hc hi outcome
    · simp [hi, hc]

theorem empty_closed : Closed ∅ := by
  intro n p hp
  simp at hp

/-- In a run from the empty registry every initialized plugin has its dependencies
    initialized throughout, exactly when no call took one away from it. -/
theorem closed_throughout_iff_careful (calls : List Call) :
    Throughout Call.apply Closed ∅ calls ↔ EachStep Call.apply Careful ∅ calls := by
  refine throughout_iff_eachStep (I := fun _ => True) (P := Closed) (fun _ _ _ => trivial) ?_ trivial empty_closed calls
  intro m c _ hc
  exact call_closed hc c

/-- The store is initialized on top of the log, and the log is shut down alone. -/
theorem a_shutdown_leaves_a_dependent_up :
    let m := runFrom Call.apply ∅ [.registerPlugin "log" (some []), .registerPlugin "store" (some ["log"]),
      .initializePlugin "log" ⟨some true, true⟩, .initializePlugin "store" ⟨some true, true⟩,
      .shutdownPlugin "log" ⟨false, false⟩]
    m["store"]? = some ⟨["log"], true⟩ ∧ isDependencySatisfied m "log" = false ∧ ¬ Closed m := by
  intro m
  have hstore : m["store"]? = some ⟨["log"], true⟩ := by decide +kernel
  have hlog : isDependencySatisfied m "log" = false := by decide +kernel
  refine ⟨hstore, hlog, ?_⟩
  intro hc
  have hsat := hc "store" _ hstore rfl "log" (by simp)
  rw [hlog] at hsat
  cases hsat

end DockerCpp.Plugin
