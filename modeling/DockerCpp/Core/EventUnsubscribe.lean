/-
  DockerCpp.Core.EventUnsubscribe — whether a listener can be called after its
  subscription was removed.

  A thread that delivers an event copies the matching subscriptions first and calls their
  listeners one by one, without `subscriptions_mutex_` (`Pc.toCall`). Removing the
  subscription does not reach such a copy. Once the subscription is gone from the list and
  from every copy it is never called again (`Gone`, `step_gone`), and what is in a copy can
  always still be called (`work_calls`): so `unsubscribe` is a barrier exactly when no
  thread has the subscription in its copy (`unsubscribe_barrier_iff`).
-/

import DockerCpp.Core.EventPlaces

namespace DockerCpp

open Lib

/-- The subscriptions a thread has copied and not yet called. -/
def Pc.toCall : Pc → List Nat
  | .notify _ left _ _ => left.map (·.id)
  | _ => []

namespace EventManager

/-- The calls of the listener of one subscription. -/
def callsOn (s : EventManager) (id : Nat) : List (Accepted × Nat) := s.calls.filter (·.2 == id)

/-! ## Subscription ids -/

/-- Ids are given out once, in order. -/
structure Numbered (s : EventManager) : Prop where
  nodup : (s.subscriptions.map (·.id)).Nodup
  issued : ∀ sub ∈ s.subscriptions, sub.id < s.nextSubscriptionId

variable {s s' : EventManager} {id : Nat} {t : Thread}

theorem Numbered.same (h : Numbered s) (hs : s'.subscriptions = s.subscriptions)
    (hn : s'.nextSubscriptionId = s.nextSubscriptionId) : Numbered s' :=
  ⟨by rw [hs]; exact h.nodup, by rw [hs, hn]; exact h.issued⟩

theorem subscribe_numbered (h : Numbered s) (pattern : String) : Numbered (s.subscribe pattern) := by
  refine ⟨?_, ?_⟩
  · show ((s.subscriptions ++ [_]).map _).Nodup
    rw [List.map_append, List.nodup_append]
    refine ⟨h.nodup, List.nodup_singleton _, ?_⟩
    intro i hi j hj
    obtain ⟨sub, hsub, rfl⟩ := List.mem_map.mp hi
    rw [List.map_singleton, List.mem_singleton] at hj
    rw [hj]
    exact Nat.ne_of_lt (h.issued sub hsub)
  · intro sub hsub
    rcases List.mem_append.mp hsub with hsub | hsub
    · exact Nat.lt_succ_of_lt (h.issued sub hsub)
    · rw [List.mem_singleton.mp hsub]
      exact Nat.lt_succ_self _

theorem unsubscribe_subscriptions (s : EventManager) (id : Nat) :
    (s.unsubscribe id).subscriptions = s.subscriptions.eraseP (·.id == id) := by
  unfold unsubscribe
  split
  · rfl
  · rename_i hnone
    rw [List.eraseP_of_forall_not]
    intro sub hsub heq
    exact hnone (List.any_eq_true.mpr ⟨sub, hsub, heq⟩)

theorem unsubscribe_same (s : EventManager) (id : Nat) : (s.unsubscribe id).pcs = s.pcs ∧
    (s.unsubscribe id).calls = s.calls ∧ (s.unsubscribe id).nextSubscriptionId = s.nextSubscriptionId := by
  unfold unsubscribe
  split <;> exact ⟨rfl, rfl, rfl⟩

theorem unsubscribe_numbered (h : Numbered s) (id : Nat) : Numbered (s.unsubscribe id) := by
  have hsub : (s.subscriptions.eraseP (·.id == id)).Sublist s.subscriptions := List.eraseP_sublist
  refine ⟨?_, ?_⟩
  · rw [unsubscribe_subscriptions]
    exact h.nodup.sublist (hsub.map _)
  · rw [unsubscribe_subscriptions, (unsubscribe_same s id).2.2]
    exact fun sub hmem => h.issued sub (hsub.subset hmem)

/-- The subscriptions of a manager change by these two calls only. -/
theorem takeBatch_subscriptions (s : EventManager) (t : Thread) (ty : String) (k : After) :
    (s.takeBatch t ty k).subscriptions = s.subscriptions ∧
      (s.takeBatch t ty k).nextSubscriptionId = s.nextSubscriptionId := by
  unfold takeBatch
  split <;> exact ⟨rfl, rfl⟩

theorem resume_subscriptions (s : EventManager) (t : Thread) (k : After) :
    (s.resume t k).subscriptions = s.subscriptions ∧ (s.resume t k).nextSubscriptionId = s.nextSubscriptionId ∧
      (s.resume t k).calls = s.calls := by
  cases k with
  | direct => exact ⟨rfl, rfl, rfl⟩
  | count => exact ⟨rfl, rfl, rfl⟩
  | types rest => cases rest <;> exact ⟨rfl, rfl, rfl⟩
  | flushing rest =>
    cases rest with
    | nil => exact ⟨rfl, rfl, rfl⟩
    | cons ty rest =>
      simp only [resume]
      split <;> exact ⟨rfl, rfl, rfl⟩
  | erase ty => exact ⟨rfl, rfl, rfl⟩

variable (matchesPattern : String → String → Bool)

theorem step_numbered (h : Numbered s) (a : Action) : Numbered (s.step matchesPattern a) := by
  have hstep := step_to matchesPattern s a
  generalize s.step matchesPattern a = s' at hstep ⊢
  cases hstep with
  | subscribe pattern => exact subscribe_numbered h pattern
  | unsubscribe id => exact unsubscribe_numbered h id
  | takeBatch hpc ho => exact h.same (takeBatch_subscriptions s _ _ _).1 (takeBatch_subscriptions s _ _ _).2
  | resume hpc => exact h.same (resume_subscriptions s _ _).1 (resume_subscriptions s _ _).2.1
  | _ => exact h.same rfl rfl

theorem fresh_numbered : Numbered {} := ⟨List.nodup_nil, fun _ hsub => absurd hsub List.not_mem_nil⟩

/-! ## A subscription that is gone -/

/-- The id was given out, and is neither in the list nor in a thread's copy. -/
structure Gone (id : Nat) (s : EventManager) : Prop where
  issued : id < s.nextSubscriptionId
  unlisted : ∀ sub ∈ s.subscriptions, sub.id ≠ id
  uncopied : ∀ t, id ∉ (s.pcs t).toCall

/-- One thread moves on, to where it has no copy with the id. -/
theorem Gone.move (h : Gone id s) (hs : s'.subscriptions = s.subscriptions)
    (hn : s'.nextSubscriptionId = s.nextSubscriptionId) {pc : Pc}
    (hp : s'.pcs = Function.update s.pcs t pc)
    (hpc : id ∉ pc.toCall) : Gone id s' := by
  refine ⟨by rw [hn]; exact h.issued, by rw [hs]; exact h.unlisted, ?_⟩
  intro u
  rw [hp]
  by_cases hu : u = t
  · rw [hu, Function.update_self]
    exact hpc
  · rw [Function.update_of_ne hu]
    exact h.uncopied u

theorem Gone.same (h : Gone id s) (hs : s'.subscriptions = s.subscriptions)
    (hn : s'.nextSubscriptionId = s.nextSubscriptionId) (hp : s'.pcs = s.pcs) : Gone id s' :=
  ⟨by rw [hn]; exact h.issued, by rw [hs]; exact h.unlisted, by rw [hp]; exact h.uncopied⟩

/-- Where a delivery ends, nothing is left to call. -/
theorem resume_gone (h : Gone id s) (t : Thread) (k : After) : Gone id (s.resume t k) := by
  cases k with
  | direct => exact h.move rfl rfl rfl List.not_mem_nil
  | count => exact h.move rfl rfl rfl List.not_mem_nil
  | types rest => cases rest <;> exact h.move rfl rfl rfl List.not_mem_nil
  | flushing rest =>
    cases rest with
    | nil => exact h.move rfl rfl rfl List.not_mem_nil
    | cons ty rest =>
      simp only [resume]
      split <;> exact h.move rfl rfl rfl List.not_mem_nil
  | erase ty => exact h.move rfl rfl rfl List.not_mem_nil

/-- It stays gone, and is not called. -/
theorem step_gone (h : Gone id s) (a : Action) :
    Gone id (s.step matchesPattern a) ∧ (s.step matchesPattern a).callsOn id = s.callsOn id := by
  have hstep := step_to matchesPattern s a
  generalize s.step matchesPattern a = s' at hstep ⊢
  cases hstep with
  | stay => exact ⟨h, rfl⟩
  | subscribe pattern =>
    refine ⟨⟨Nat.lt_succ_of_lt h.issued, ?_, h.uncopied⟩, rfl⟩
    intro sub hsub
    rcases List.mem_append.mp hsub with hsub | hsub
    · exact h.unlisted sub hsub
    · rw [List.mem_singleton.mp hsub]
      exact Nat.ne_of_gt h.issued
  | unsubscribe id' =>
    obtain ⟨hp, hc, hn⟩ := unsubscribe_same s id'
    refine ⟨⟨by rw [hn]; exact h.issued, ?_, by rw [hp]; exact h.uncopied⟩, by rw [callsOn, hc]; rfl⟩
    rw [unsubscribe_subscriptions]
    exact fun sub hsub => h.unlisted sub (List.eraseP_sublist.subset hsub)
  | setMaxQueueSize maxSize => exact ⟨h.same rfl rfl rfl, rfl⟩
  | batched hpc hfree hc hc' hpc' =>
    refine ⟨h.move rfl rfl rfl ?_, rfl⟩
    rcases hpc' with rfl | rfl <;> exact List.not_mem_nil
  | takeBatch hpc ho =>
    refine ⟨?_, by rw [callsOn, (takeBatch_fields s _ _ _).2.2.1]; rfl⟩
    unfold takeBatch
    split <;> exact h.move rfl rfl rfl List.not_mem_nil
  | snapshot hpc =>
    -- the copy is made of the list, which does not have the id
    refine ⟨h.move rfl rfl rfl ?_, rfl⟩
    intro hmem
    obtain ⟨sub, hsub, heq⟩ := List.mem_map.mp hmem
    exact h.unlisted sub (List.mem_of_mem_filter hsub) heq
  | @call t d sub left xs k hpc =>
    have hcopy := h.uncopied t
    rw [hpc] at hcopy
    have hne : sub.id ≠ id := fun heq => hcopy (List.mem_map.mpr ⟨sub, List.mem_cons_self, heq⟩)
    have hleft : id ∉ (Pc.notify d left xs k).toCall := fun hmem => hcopy (List.mem_cons_of_mem _ hmem)
    refine ⟨h.move rfl rfl rfl hleft, ?_⟩
    show (s.calls ++ [_]).filter _ = _
    rw [List.filter_append]
    simp [callsOn, hne]
  | resume hpc => exact ⟨resume_gone h _ _, by rw [callsOn, (resume_subscriptions s _ _).2.2]; rfl⟩
  | enableBatching ty interval size now hfree => exact ⟨h.same rfl rfl rfl, rfl⟩
  | eraseBatch hfree hempty => exact ⟨h.same rfl rfl rfl, rfl⟩
  | flush hpc hpc' =>
    refine ⟨h.move rfl rfl rfl ?_, rfl⟩
    rcases hpc' with rfl | rfl <;> exact List.not_mem_nil
  | _ => exact ⟨h.move rfl rfl rfl List.not_mem_nil, rfl⟩

theorem run_gone (h : Gone id s) (actions : List Action) :
    (runFrom (step matchesPattern) s actions).callsOn id = s.callsOn id := by
  have hstep : ∀ s' a, Gone id s' ∧ s'.callsOn id = s.callsOn id →
      Gone id (s'.step matchesPattern a) ∧ (s'.step matchesPattern a).callsOn id = s.callsOn id := by
    rintro s' a ⟨hg, hc⟩
    obtain ⟨hg', hc'⟩ := step_gone matchesPattern hg a
    exact ⟨hg', hc'.trans hc⟩
  exact (runFrom_invariant hstep ⟨h, rfl⟩ actions).2

theorem unsubscribe_gone (h : Numbered s) (hid : id < s.nextSubscriptionId)
    (hcopy : ∀ t, id ∉ (s.pcs t).toCall) : Gone id (s.unsubscribe id) := by
  obtain ⟨hp, -, hn⟩ := unsubscribe_same s id
  refine ⟨by rw [hn]; exact hid, ?_, by rw [hp]; exact hcopy⟩
  rw [unsubscribe_subscriptions]
  -- the first with the id is erased, and it is the only one
  intro sub hsub heq
  obtain ⟨sub', hsub', heq', hne⟩ : ∃ sub' ∈ s.subscriptions,
      sub'.id = id ∧ sub' ∉ s.subscriptions.eraseP (·.id == id) := by
    have hnodup : s.subscriptions.Nodup := h.nodup.of_map _
    obtain ⟨sub', l₁, l₂, -, hp', hl, he⟩ := List.exists_of_eraseP
      (p := fun sub : Subscription => sub.id == id) (List.eraseP_sublist.subset hsub) (by simpa using heq)
    refine ⟨sub', by rw [hl]; simp, by simpa using hp', ?_⟩
    rw [he]
    rw [hl] at hnodup
    exact (List.nodup_middle.mp hnodup).notMem
  have hsame : sub' = sub := List.inj_on_of_nodup_map h.nodup hsub' (List.eraseP_sublist.subset hsub)
      (heq'.trans heq.symm)
  exact hne (hsame ▸ hsub)

/-! ## A subscription in a copy -/

theorem work_call {d : Delivery} {sub : Subscription} {left : List Subscription}
    {xs : List Accepted} {k : After} (hpc : s.pcs t = .notify d (sub :: left) xs k) :
    s.step matchesPattern (.work t) = { s with calls := s.calls ++ [(d.event, sub.id)] }.goto t
        (.notify d left xs k) := by
  simp [step, act, work, hpc]

/-- A thread left alone calls what it has copied. -/
theorem work_calls {d : Delivery} {xs : List Accepted} {k : After} (left : List Subscription)
    (hpc : s.pcs t = .notify d left xs k) :
    (runFrom (step matchesPattern) s (List.replicate left.length (.work t))).calls =
      s.calls ++ left.map fun sub => (d.event, sub.id) := by
  induction left generalizing s with
  | nil => simp [runFrom]
  | cons sub left ih =>
    have hnext : ({ s with calls := s.calls ++ [(d.event, sub.id)] }.goto t (.notify d left xs k)).pcs t =
        .notify d left xs k := goto_self ..
    have hrest := ih hnext
    rw [← work_call matchesPattern hpc] at hrest
    rw [List.length_cons, List.replicate_succ]
    show (runFrom (step matchesPattern) (s.step matchesPattern (.work t)) _).calls = _
    rw [hrest, work_call matchesPattern hpc]
    simp [goto]

theorem called_of_copied (h : id ∈ (s.pcs t).toCall) :
    ∃ actions, (runFrom (step matchesPattern) s actions).callsOn id ≠ s.callsOn id := by
  cases hpc : s.pcs t with
  | notify d left xs k =>
    rw [hpc] at h
    obtain ⟨sub, hsub, rfl⟩ := List.mem_map.mp h
    refine ⟨List.replicate left.length (.work t), ?_⟩
    rw [callsOn, work_calls matchesPattern left hpc, List.filter_append]
    intro heq
    have hnil : (left.map fun sub => (d.event, sub.id)).filter (·.2 == sub.id) = [] := List.append_right_eq_self.mp heq
    have hmem : (d.event, sub.id) ∈ (left.map fun sub => (d.event, sub.id)).filter (·.2 == sub.id) :=
      List.mem_filter.mpr ⟨List.mem_map.mpr ⟨sub, hsub, rfl⟩, by simp⟩
    rw [hnil] at hmem
    cases hmem
  | _ =>
    rw [hpc] at h
    cases h

/-- After any steps of any threads, and for every subscription given out by then: once
    `unsubscribe` has returned its listener is never called again, whatever the threads do,
    iff no thread has the subscription in the copy it is calling. -/
theorem unsubscribe_barrier_iff (before : List Action) (id : Nat)
    (hid : id < (runFrom (step matchesPattern) {} before).nextSubscriptionId) :
    let s := runFrom (step matchesPattern) {} before
    (∀ after, (runFrom (step matchesPattern) (s.step matchesPattern (.unsubscribe id)) after).callsOn id =
        s.callsOn id) ↔
      ∀ t, id ∉ (s.pcs t).toCall := by
  intro s
  obtain ⟨hp, hc, -⟩ := unsubscribe_same s id
  have hcalls : (s.unsubscribe id).callsOn id = s.callsOn id := by rw [callsOn, hc]; rfl
  have hstep : s.step matchesPattern (.unsubscribe id) = s.unsubscribe id := rfl
  rw [hstep]
  constructor
  · intro h t hcopy
    obtain ⟨actions, hcalled⟩ := called_of_copied matchesPattern (s := s.unsubscribe id) (t := t)
        (by rw [hp]; exact hcopy)
    exact hcalled ((h actions).trans hcalls.symm)
  · intro h after
    have hs : Numbered s := runFrom_invariant (I := Numbered) (fun _ a hs => step_numbered matchesPattern hs a)
      fresh_numbered before
    rw [run_gone matchesPattern (unsubscribe_gone hs hid h), hcalls]

/-- One subscriber, and an event whose listeners the processing thread has just copied. -/
def aboutToCall : List Action :=
  [.subscribe "build", .publish 0 ⟨"build", "", 0, .normal⟩, .push 0, .dequeue ⟨0, ⟨"build", "", 0, .normal⟩⟩,
   .processEvent 0, .work .processing]

/-- The subscription is removed, and then its listener is called. -/
theorem a_copied_listener_outlives_its_subscription :
    let s := runFrom (step fun _ _ => true) {} (aboutToCall ++ [.unsubscribe 1])
    s.subscriptions = [] ∧ s.callsOn 1 = [] ∧
    (runFrom (step fun _ _ => true) s [.work .processing]).callsOn 1 = [(⟨0, ⟨"build", "", 0, .normal⟩⟩, 1)] := by
  decide +kernel

theorem unsubscribe_barrier_iff_copied :
    ¬ ∀ after, (runFrom (step fun _ _ => true)
      ((runFrom (step fun _ _ => true) {} aboutToCall).step (fun _ _ => true) (.unsubscribe 1)) after).callsOn 1 =
        (runFrom (step fun _ _ => true) {} aboutToCall).callsOn 1 := by
  intro h
  have hcopy := (unsubscribe_barrier_iff (fun _ _ => true) aboutToCall 1 (by decide +kernel)).mp h .processing
  exact absurd hcopy (by decide +kernel)

end EventManager

end DockerCpp
