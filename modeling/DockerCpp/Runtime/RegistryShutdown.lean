/-
  DockerCpp.Runtime.RegistryShutdown — what `ContainerRegistry::shutdown` does, with mutexes
  abstracted.

  It stops the containers it finds RUNNING or PAUSED and swallows what `stop` throws, so one
  could be passed over. None is: both states have an edge to STOPPING, the action of STOPPING
  cannot throw, and STOPPING leads to STOPPED whatever the waits and the signals in between
  found (`stop_stops`). `Halted done s s'` is the effect of the loop on the heap after the
  containers in `done`, and `shutdown_exact` the effect of the call, in every registry that
  calls of clients lead to. The destructor of a container that nobody holds once the map is
  cleared comes after that.
-/

import DockerCpp.Runtime.RegistryIndex

namespace DockerCpp.Runtime

open Lib Lib.Prog

variable {σ : Type} (os : Os σ)

/-- The states that `shutdown` stops a container in. -/
def ContainerState.Up (s : ContainerState) : Prop := s = .running ∨ s = .paused

instance (s : ContainerState) : Decidable s.Up := inferInstanceAs (Decidable (_ ∨ _))

namespace Container

/-- The transitions to STOPPING and STOPPED, where the table has them. -/
theorem transitionState_returns {new : ContainerState} {w : World σ} (h : Consistent w.c) (hnew : new ≠ .starting)
    (hv : isStateTransitionValid w.c w.c.state new = true) :
    Ends (transitionState os .abstracted new) w fun r w' => r = .ok () ∧ Kept w w' ∧ w'.c.state = new := by
  refine Ends.mono (transitionState_kept os new h) ?_
  intro r w' hpost
  obtain ⟨hk, hs⟩ := hpost
  cases r with
  | ok _ => exact ⟨rfl, hk, hs⟩
  | blocked => exact hs.elim
  | thrown e =>
    obtain ⟨-, hstarting | hinvalid⟩ := hs
    · exact absurd hstarting hnew
    · rw [hv] at hinvalid
      cases hinvalid

theorem up_valid_stopping {c : Container} (h : c.state.Up) : isStateTransitionValid c c.state .stopping = true := by
  rcases h with e | e <;> rw [e] <;> rfl

theorem stop_stops (timeout : Int) {w : World σ} (h : Consistent w.c) (hup : w.c.state.Up) :
    Ends (stop os .abstracted timeout) w fun r w' => r = .ok () ∧ Kept w w' ∧ w'.c.state = .stopped := by
  have hv : canTransitionTo w.c .stopping = true := up_valid_stopping hup
  rw [stop, lockGuard_abstracted, guarded, ends_bind, self, ends_read, andThen_ok, if_pos hv, orError, ends_tryCatch,
    ends_bind]
  refine Ends.mono (killMain_returns os sigterm w) ?_
  intro r w1 hpost
  obtain ⟨⟨_, rfl⟩, ht1⟩ := hpost
  obtain ⟨hk1, hs1⟩ := exitOnly_kept h (touches_exitOnly _ _ ht1)
  have hup1 : w1.c.state.Up := hs1.symm ▸ hup
  rw [andThen_ok, ends_bind]
  refine Ends.mono (transitionState_returns os hk1.consistent (by simp) (up_valid_stopping hup1)) ?_
  intro r w2 hpost
  obtain ⟨rfl, hk2, hs2⟩ := hpost
  rw [andThen_ok, ends_bind, readC, ends_read, andThen_ok, ends_bind]
  refine Ends.mono (stop_wait_returns os timeout w2.c.mainPid w2) ?_
  intro r w3 hpost
  obtain ⟨⟨_, rfl⟩, ht3⟩ := hpost
  obtain ⟨hk3, hs3⟩ := exitOnly_kept hk2.consistent ht3
  have hstopping : isStateTransitionValid w3.c w3.c.state .stopped = true := by
    rw [hs3, hs2]
    rfl
  rw [andThen_ok]
  refine Ends.mono (transitionState_returns os hk3.consistent (by simp) hstopping) ?_
  intro r w4 hpost
  obtain ⟨rfl, hk4, hs4⟩ := hpost
  exact ⟨rfl, ((hk1.trans hk2).trans hk3).trans hk4, hs4⟩

end Container

namespace Registry

/-- The containers of `done` that were up are STOPPED, and no other one was touched. -/
structure Halted (done : Ref → Prop) (s s' : Registry σ) : Prop where
  stopped : ∀ ref, done ref → (s.heap ref).state.Up →
    (s'.heap ref).state = .stopped ∧ Container.SameIdentity (s.heap ref) (s'.heap ref)
  others : ∀ ref, ¬ (done ref ∧ (s.heap ref).state.Up) → s'.heap ref = s.heap ref

/-- One turn of the loop. -/
theorem stopForShutdown_ends (ref : Ref) {s : Registry σ} (h : Sound s) (hr : ref < s.next) :
    Ends (stopForShutdown os .abstracted ref) s fun r s' => r = .ok () ∧ Halted (· = ref) s s' := by
  simp only [stopForShutdown, getState, ends_bind, ends_read, andThen_ok, ends_when]
  split
  · rename_i hup
    rw [ignoreErrors, ends_tryCatch, onContainer, ends_zoom]
    refine Ends.mono (Container.stop_stops os 5 (h.settled ref hr).1 hup) ?_
    intro r w hpost
    obtain ⟨rfl, hk, hs⟩ := hpost
    refine ⟨rfl, fun ref' hdone _ => ?_, fun ref' hother => ?_⟩
    · subst hdone
      simpa [putWorld, worldOf] using And.intro hs hk.identity
    · have hne : ref' ≠ ref := fun e => hother ⟨e, e ▸ hup⟩
      exact Function.update_of_ne hne _ _
  · rename_i hdown
    refine ⟨trivial, fun ref' hdone hup => ?_, fun _ _ => rfl⟩
    subst hdone
    exact absurd hup hdown

/-- A container that was stopped in an earlier turn is left alone in a later one. -/
theorem Halted.next {done : Ref → Prop} {ref : Ref} {s s1 s2 : Registry σ} (h : Halted done s s1)
    (h' : Halted (· = ref) s1 s2) : Halted (fun r => done r ∨ r = ref) s s2 := by
  have hkeep : ∀ ref', ref' ≠ ref ∨ ¬ (s1.heap ref').state.Up → s2.heap ref' = s1.heap ref' := by
    intro ref' hne
    refine h'.others ref' fun hboth => ?_
    rcases hne with hne | hdown
    · exact hne hboth.1
    · exact hdown hboth.2
  constructor
  · intro ref' hdone hup
    by_cases hbefore : done ref'
    · obtain ⟨hs, hid⟩ := h.stopped ref' hbefore hup
      have hdown : ¬ (s1.heap ref').state.Up := by
        rw [hs]
        decide
      rw [hkeep ref' (Or.inr hdown)]
      exact ⟨hs, hid⟩
    · have hsame : s1.heap ref' = s.heap ref' := h.others ref' fun hboth => hbefore hboth.1
      have hthis : ref' = ref := hdone.resolve_left hbefore
      rw [← hsame] at hup ⊢
      exact h'.stopped ref' hthis hup
  · intro ref' hother
    have hsame : s1.heap ref' = s.heap ref' := h.others ref' fun hboth => hother ⟨Or.inl hboth.1, hboth.2⟩
    rw [← hsame]
    refine hkeep ref' ?_
    by_cases e : ref' = ref
    · exact Or.inr fun hup => hother ⟨Or.inr e, hsame ▸ hup⟩
    · exact Or.inl e

/-- The registry holds the container. -/
def Holds (s : Registry σ) (ref : Ref) : Prop := ∃ id : String, s.containers[id]? = some ref

theorem shutdown_ends {s : Registry σ} (h : Sound s) :
    Ends (shutdown os .abstracted) s fun r s' => r = .ok () ∧ Halted s.Holds s s' ∧
      (∀ id : String, s'.containers[id]? = none) ∧ (∀ name : String, s'.nameToId[name]? = none) ∧
      s'.listener.globalCallback = false := by
  have hstart : Steady s s ∧ Halted (fun ref => ∃ e ∈ ([] : List (String × Ref)), e.2 = ref) s s :=
    ⟨Steady.refl h, by simp, fun _ _ => rfl⟩
  simp only [shutdown, lockGuard_abstracted]
  rw [ends_bind, ends_read, andThen_ok, ends_bind]
  refine Ends.mono (ends_forEach_done (I := fun done s1 => Steady s s1 ∧ Halted (fun ref => ∃ e ∈ done, e.2 = ref) s s1)
    ?_ hstart) ?_
  · intro done e rest hsplit s1 hI
    obtain ⟨hsteady, hhalted⟩ := hI
    have hentry : e ∈ s.containers.toList := hsplit ▸ by simp
    have hc : s1.containers[e.1]? = some e.2 := by
      rw [hsteady.containers]
      exact Std.TreeMap.mem_toList_iff_getElem?_eq_some.mp hentry
    have hr := hsteady.sound.allocated e.1 e.2 hc
    refine Ends.mono ((stopForShutdown_steady os e.2 hsteady.sound hr).and
      (stopForShutdown_ends os e.2 hsteady.sound hr)) ?_
    intro r s2 hpost
    obtain ⟨⟨hr, hsteady2⟩, -, hhalted2⟩ := hpost
    refine ⟨hr, hsteady.trans hsteady2, ?_⟩
    have hnext := hhalted.next hhalted2
    simpa [or_and_right, exists_or, eq_comm] using hnext
  · intro r s1 hpost
    obtain ⟨rfl, hsteady, hhalted⟩ := hpost
    have hholds : (fun ref => ∃ e ∈ s.containers.toList, e.2 = ref) = s.Holds := by
      funext ref
      simp only [Holds, ← Std.TreeMap.mem_toList_iff_getElem?_eq_some, Prod.exists, exists_eq_right]
    rw [hholds] at hhalted
    simp only [andThen_ok, ends_bind, ends_modify]
    exact ⟨trivial, ⟨hhalted.stopped, hhalted.others⟩, by simp, by simp, trivial⟩

/-- In every registry that calls lead to: `shutdown` returns, the registry is empty and deaf,
    every container it held that was RUNNING or PAUSED is STOPPED and otherwise the one it was,
    and no other container was touched. -/
theorem shutdown_exact (heap : Ref → Container) (o : σ) (calls : List Call) :
    let s := runFrom (step os) (empty heap o) calls
    Ends (shutdown os .abstracted) s fun r s' => r = .ok () ∧ Halted s.Holds s s' ∧
      (∀ id : String, s'.containers[id]? = none) ∧ (∀ name : String, s'.nameToId[name]? = none) ∧
      s'.listener.globalCallback = false := by
  have hsound := runFrom_invariant (I := Sound) (fun s c hs => show Sound (step os s c) from (call_ends os c hs).1)
    (empty_sound heap o) calls
  exact shutdown_ends os hsound

end Registry

end DockerCpp.Runtime
