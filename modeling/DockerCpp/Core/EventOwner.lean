/-
  DockerCpp.Core.EventOwner — who owns `batches_mutex_` between two steps.

  A thread owns it while it delivers an event that is not batched, in the loop of
  `flush`, and in `disableBatching`. In `disableBatching` the batch that is about to be
  erased is still to be taken, or empty: nothing gets in between (`Locked`). Every step
  keeps this (`step_locked`).
-/

import DockerCpp.Core.Event

namespace DockerCpp

open Lib

/-- The thread holds `batches_mutex_` across the delivery. -/
def After.locked : After → Bool
  | .direct => true
  | .flushing _ => true
  | .erase _ => true
  | _ => false

/-- What follows the delivery a thread is in. -/
def Pc.next : Pc → Option After
  | .processBatch _ k => some k
  | .deliver _ k => some k
  | .notify _ _ _ k => some k
  | .after k => some k
  | _ => none

namespace EventManager

/-! ## Small facts about steps -/

theorem goto_self (s : EventManager) (t : Thread) (pc : Pc) : (s.goto t pc).pcs t = pc := Function.update_self ..

variable {t u : Thread} {s s' : EventManager} {ty : String} {pc : Pc} {k : After}

theorem goto_other (s : EventManager) (h : u ≠ t) (pc : Pc) : (s.goto t pc).pcs u = s.pcs u :=
  Function.update_of_ne h ..

theorem pending_insert {c : BatchConfig} (h : s'.batchConfigs = s.batchConfigs.insert ty c) (ty' : String) :
    s'.pending ty' = if ty = ty' then c.pendingEvents else s.pending ty' := by
  unfold pending
  rw [h, Std.ExtTreeMap.getElem?_insert]
  by_cases hty : ty = ty'
  · simp [hty]
  · simp [hty]

theorem pending_erase (h : s'.batchConfigs = s.batchConfigs.erase ty) (ty' : String) :
    s'.pending ty' = if ty = ty' then [] else s.pending ty' := by
  unfold pending
  rw [h, Std.ExtTreeMap.getElem?_erase]
  by_cases hty : ty = ty'
  · simp [hty]
  · simp [hty]

theorem pending_of_some {c : BatchConfig} (h : s.batchConfigs[ty]? = some c) : s.pending ty = c.pendingEvents := by
  simp [pending, h]

theorem pending_of_none (h : s.batchConfigs[ty]? = none) : s.pending ty = [] := by
  simp [pending, h]

/-- The first pass of the batch thread sets only `last_flush`. -/
theorem pending_pass {now : Int} (h : s'.batchConfigs = s.batchConfigs.map fun _ c => BatchConfig.pass c now)
    (ty : String) : s'.pending ty = s.pending ty := by
  unfold pending
  rw [h, Std.ExtTreeMap.getElem?_map]
  cases s.batchConfigs[ty]? with
  | none => rfl
  | some c =>
    simp only [Option.map_some, Option.getD_some, BatchConfig.pass]
    split <;> rfl

theorem takeBatch_pending (s : EventManager) (t : Thread) (ty : String) (k : After) (ty' : String) :
    (s.takeBatch t ty k).pending ty' = if ty = ty' then [] else s.pending ty' := by
  unfold takeBatch
  cases hc : s.batchConfigs[ty]? with
  | some c => exact pending_insert (s := s) (c := { c with pendingEvents := [] }) rfl ty'
  | none =>
    show s.pending ty' = _
    by_cases hty : ty = ty'
    · rw [if_pos hty, ← hty]
      exact pending_of_none hc
    · rw [if_neg hty]

theorem takeBatch_self (s : EventManager) (t : Thread) (ty : String) (k : After) :
    (s.takeBatch t ty k).pcs t = .deliver (s.pending ty) k := by
  unfold takeBatch
  cases hc : s.batchConfigs[ty]? with
  | some c => rw [pending_of_some hc]; exact goto_self ..
  | none => rw [pending_of_none hc]; exact goto_self ..

theorem takeBatch_other (s : EventManager) (hu : u ≠ t) (ty : String) (k : After) :
    (s.takeBatch t ty k).pcs u = s.pcs u := by
  unfold takeBatch
  split <;> exact goto_other _ hu _

theorem takeBatch_fields (s : EventManager) (t : Thread) (ty : String) (k : After) :
    (s.takeBatch t ty k).eventQueue = s.eventQueue ∧ (s.takeBatch t ty k).accepted = s.accepted ∧
    (s.takeBatch t ty k).calls = s.calls ∧ (s.takeBatch t ty k).delivered = s.delivered ∧
    (s.takeBatch t ty k).batchesOwner = s.batchesOwner := by
  unfold takeBatch
  split <;> exact ⟨rfl, rfl, rfl, rfl, rfl⟩

/-! ## The owner of `batches_mutex_` -/

/-- A thread that delivers under the mutex owns it; in `disableBatching` the batch is
    still to be taken, or empty. -/
def LockedAt (s : EventManager) (t : Thread) (pc : Pc) : Prop :=
  ∀ k, pc.next = some k → k.locked = true →
    s.batchesOwner = some t ∧ ∀ ty, k = .erase ty → pc = .processBatch ty k ∨ s.pending ty = []

def Locked (s : EventManager) : Prop := ∀ t, s.LockedAt t (s.pcs t)

/-- What the owner relies on survives. -/
def Respects (s s' : EventManager) (t : Thread) : Prop :=
  s.batchesOwner = some t → s'.batchesOwner = some t ∧ ∀ ty, s.pending ty = [] → s'.pending ty = []

theorem LockedAt.respected (h : s.LockedAt t pc) (hr : Respects s s' t) : s'.LockedAt t pc := by
  intro k hk hlocked
  obtain ⟨howner, herase⟩ := h k hk hlocked
  obtain ⟨howner', hpending⟩ := hr howner
  exact ⟨howner', fun ty hty => (herase ty hty).imp_right (hpending ty)⟩

theorem lockedAt_of_next (h : pc.next = none) : s.LockedAt t pc := by
  intro k hk
  rw [h] at hk
  cases hk

theorem lockedAt_of_unlocked (h : pc.next = some k) (hk : k.locked = false) : s.LockedAt t pc := by
  intro k' hk' hlocked
  rw [h, Option.some.injEq] at hk'
  rw [hk', hlocked] at hk
  cases hk

/-- One thread moves on. -/
theorem Locked.move (h : Locked s) (t : Thread) (hpcs : ∀ u, u ≠ t → s'.pcs u = s.pcs u)
    (hr : ∀ u, u ≠ t → Respects s s' u) (hself : s'.LockedAt t (s'.pcs t)) : Locked s' := by
  intro u
  by_cases hu : u = t
  · subst hu
    exact hself
  · rw [hpcs u hu]
    exact (h u).respected (hr u hu)

/-- One thread moves on and leaves the mutex and the batches alone. -/
theorem Locked.goto (h : Locked s) (hself : s.LockedAt t pc) : Locked (s.goto t pc) := by
  refine h.move t (fun u hu => goto_other s hu pc) (fun u _ ho => ⟨ho, fun _ hp => hp⟩) ?_
  rw [goto_self]
  exact hself

theorem respects_of_free (h : s.batchesOwner = none) (u : Thread) : Respects s s' u := by
  intro ho
  rw [h] at ho
  cases ho

theorem respects_of_owner (h : s.batchesOwner = some t) (hu : u ≠ t) : Respects s s' u := by
  intro ho
  rw [h, Option.some.injEq] at ho
  exact absurd ho.symm hu

theorem LockedAt.step {pc pc' : Pc} (h : s.LockedAt t pc) (hn : pc'.next = pc.next)
    (hpc : ∀ ty k, pc ≠ .processBatch ty k) : s.LockedAt t pc' := by
  intro k hk hlocked
  obtain ⟨ho, he⟩ := h k (hn ▸ hk) hlocked
  refine ⟨ho, fun ty hty => Or.inr ?_⟩
  rcases he ty hty with hbatch | hempty
  · exact absurd hbatch (hpc ty k)
  · exact hempty

theorem Locked.at (h : Locked s) (hpc : s.pcs t = pc) : s.LockedAt t pc :=
  hpc ▸ h t

theorem takeBatch_locked (h : Locked s)
    (hpc : s.pcs t = .processBatch ty k) (ho : s.batchesOwner.all (· == t) = true) : Locked (s.takeBatch t ty k) := by
  have hr : ∀ u, u ≠ t → Respects s (s.takeBatch t ty k) u := by
    intro u hu hu'
    rw [hu'] at ho
    exact absurd (by simpa using ho) hu
  refine h.move t (fun u hu => takeBatch_other s hu ty k) hr ?_
  rw [takeBatch_self]
  intro k' hk' hlocked
  obtain rfl := Option.some.inj hk'
  obtain ⟨howner, herase⟩ := h.at hpc k rfl hlocked
  refine ⟨(takeBatch_fields s t ty k).2.2.2.2.trans howner, fun ty' hty' => Or.inr ?_⟩
  rw [takeBatch_pending]
  rcases herase ty' hty' with hbatch | hempty
  · rw [if_pos (Pc.processBatch.inj hbatch).1]
  · rw [hempty]
    split <;> rfl

theorem resume_locked (h : Locked s) (hpc : s.pcs t = .after k) : Locked (s.resume t k) := by
  have hown : k.locked = true → s.batchesOwner = some t := fun hk => (h.at hpc k rfl hk).1
  cases k with
  | direct =>
    have ho := hown rfl
    refine h.move t (fun u hu => goto_other _ hu _) (fun u hu => respects_of_owner ho hu) ?_
    exact lockedAt_of_unlocked (k := .count) (by rw [resume, goto_self]; rfl) rfl
  | count => exact Locked.goto (s := { s with stats := _ }) h (lockedAt_of_next rfl)
  | types rest =>
    cases rest with
    | nil => exact h.goto (lockedAt_of_next rfl)
    | cons ty rest => exact h.goto (lockedAt_of_unlocked rfl rfl)
  | flushing rest =>
    have ho := hown rfl
    cases rest with
    | nil =>
      refine h.move t (fun u hu => goto_other _ hu _) (fun u hu => respects_of_owner ho hu) ?_
      exact lockedAt_of_next (by rw [resume, goto_self]; rfl)
    | cons ty rest =>
      simp only [resume]
      split
      · refine h.goto ?_
        intro k' hk' _
        obtain rfl := Option.some.inj hk'
        exact ⟨ho, fun ty hty => by cases hty⟩
      · refine h.goto ?_
        intro k' hk' _
        obtain rfl := Option.some.inj hk'
        exact ⟨ho, fun ty hty => by cases hty⟩
  | erase ty =>
    have ho := hown rfl
    refine h.move t (fun u hu => goto_other _ hu _) (fun u hu => respects_of_owner ho hu) ?_
    exact lockedAt_of_next (by rw [resume, goto_self]; rfl)

/-- One thread moves on, from a state where nobody owns the mutex. -/
theorem Locked.move_free (h : Locked s) (hfree : s.batchesOwner = none) (t : Thread)
    (hpcs : ∀ u, u ≠ t → s'.pcs u = s.pcs u) (hself : s'.LockedAt t (s'.pcs t)) : Locked s' :=
  h.move t hpcs (fun u _ => respects_of_free hfree u) hself

theorem lockedAt_of_owner (h : pc.next = some k)
    (ho : s.batchesOwner = some t) (hk : ∀ ty, k = .erase ty → pc = .processBatch ty k) : s.LockedAt t pc := by
  intro k' hk' _
  rw [h, Option.some.injEq] at hk'
  subst hk'
  exact ⟨ho, fun ty hty => Or.inl (hk ty hty)⟩

variable (matchesPattern : String → String → Bool)

theorem step_locked (h : Locked s) (a : Action) : Locked (s.step matchesPattern a) := by
  have hs := step_to matchesPattern s a
  generalize s.step matchesPattern a = s' at hs ⊢
  cases hs with
  | stay => exact h
  | subscribe pattern => exact h
  | unsubscribe id =>
    unfold unsubscribe
    split <;> exact h
  | setMaxQueueSize maxSize => exact h
  | publish e hpc => exact Locked.goto (s := { s with stats := _ }) h (lockedAt_of_next rfl)
  | drop hpc hfull => exact h.goto (lockedAt_of_next rfl)
  | push hpc hroom hx =>
    exact Locked.goto (s := { s with eventQueue := _, accepted := _, stats := _ }) h (lockedAt_of_next rfl)
  | dequeue hpc htop => exact Locked.goto (s := { s with eventQueue := _, dequeued := _ }) h (lockedAt_of_next rfl)
  | direct hpc hfree hoff =>
    refine h.move_free hfree .processing (fun u hu => goto_other _ hu _) ?_
    rw [goto_self]
    exact lockedAt_of_owner rfl rfl (by simp)
  | batched hpc hfree hc hc' hnext =>
    refine h.move_free hfree .processing (fun u hu => goto_other _ hu _) ?_
    rw [goto_self]
    rcases hnext with rfl | rfl
    · exact lockedAt_of_unlocked rfl rfl
    · exact lockedAt_of_unlocked rfl rfl
  | takeBatch hpc ho => exact takeBatch_locked h hpc ho
  | endDelivery hpc => exact h.goto ((h.at hpc).step rfl (by simp))
  | snapshot hpc => exact h.goto ((h.at hpc).step rfl (by simp))
  | @call t d sub left xs k hpc =>
    have hnext : s.LockedAt t (.notify d left xs k) := (h.at hpc).step rfl (by simp)
    exact Locked.goto (s := { s with calls := s.calls ++ [(d.event, sub.id)] }) h hnext
  | @finish t d xs k hpc =>
    have hnext : s.LockedAt t (.deliver xs k) := (h.at hpc).step rfl (by simp)
    exact Locked.goto (s := { s with delivered := s.delivered ++ [d] }) h hnext
  | resume hpc => exact resume_locked h hpc
  | enableBatching ty interval size now hfree => exact fun u => (h u).respected (respects_of_free hfree u)
  | eraseBatch hfree hempty => exact fun u => (h u).respected (respects_of_free hfree u)
  | closeBatch ty hpc hfree =>
    refine h.move_free hfree _ (fun u hu => goto_other _ hu _) ?_
    rw [goto_self]
    refine lockedAt_of_owner rfl rfl ?_
    intro ty' hty'
    cases hty'
    rfl
  | scan types hpc hfree =>
    refine h.move_free hfree .batch (fun u hu => goto_other _ hu _) ?_
    rw [goto_self]
    exact lockedAt_of_unlocked rfl rfl
  | flush hpc hnext =>
    refine h.goto (lockedAt_of_next ?_)
    rcases hnext with rfl | rfl
    · rfl
    · rfl
  | flushLock order hpc hfree =>
    refine h.move_free hfree _ (fun u hu => goto_other _ hu _) ?_
    rw [goto_self]
    exact lockedAt_of_owner rfl rfl (by simp)

end EventManager

end DockerCpp
