/-
  DockerCpp.Core.EventFlush — what `flush` waits for.

  `flush` waits until the queue is empty and then processes every batch under
  `batches_mutex_`. When it returns, and its wait did not time out, no event that was
  accepted before the call is in the queue (`Drained`) or in a batch (`Swept`). It does not
  wait for the two threads of the manager: an event may be in the hands of the processing
  thread, which dequeued it, or in a list that the processing or the batch thread took out
  of a batch.

  So `flush` is a barrier exactly when neither of the two threads has an old event in its
  hands when it returns, and no `enableBatching` dropped one (`flush_barrier_iff`,
  `a_dequeued_event_outlives_a_flush`).
-/

import DockerCpp.Core.EventBatch
import DockerCpp.Core.EventStatistics

namespace DockerCpp

open Lib

namespace EventManager

/-! ## The queue is waited for -/

/-- The client waits for the queue, or no event with a ticket below `bound` is in it. -/
structure Drained (n bound : Nat) (s : EventManager) : Prop where
  accepted : bound ≤ s.accepted.length
  queue : s.pcs (.client n) = .flushWait ∨ ∀ x ∈ s.eventQueue, bound ≤ x.ticket

variable (matchesPattern : String → String → Bool)

/-- The wait of the client does not end while there are events in the queue. -/
def InTime (n : Nat) (s : EventManager) (a : Action) : Prop :=
  s.pcs (.client n) = .flushWait → s.eventQueue ≠ [] → (s.step matchesPattern a).pcs (.client n) = .flushWait

instance (n : Nat) (s : EventManager) (a : Action) : Decidable (InTime matchesPattern n s a) :=
  inferInstanceAs (Decidable (_ → _ → _))

variable {s s' : EventManager} {t : Thread}

theorem step_drained {n bound : Nat} (h : Drained n bound s) {a : Action}
    (ha : InTime matchesPattern n s a) : Drained n bound (s.step matchesPattern a) := by
  obtain ⟨new, hacc, -⟩ := step_accepted matchesPattern s a
  have hlength : bound ≤ (s.step matchesPattern a).accepted.length := by
    rw [hacc, List.length_append]
    exact h.accepted.trans (Nat.le_add_right _ _)
  -- what is in the queue afterwards was in it, or is new
  have hqueue : (∀ x ∈ s.eventQueue, bound ≤ x.ticket) →
      ∀ x ∈ (s.step matchesPattern a).eventQueue, bound ≤ x.ticket := by
    intro hbefore x hx
    rcases step_queue matchesPattern s a with ⟨hsame, -, -⟩ | ⟨y, hy⟩ | ⟨y, hy⟩
    · exact hbefore x (hsame ▸ hx)
    · rw [hy.queue] at hx
      rcases List.mem_append.mp hx with hx | hx
      · exact hbefore x hx
      · rw [List.mem_singleton.mp hx, hy.ticket]
        exact h.accepted
    · rw [hy.queue] at hx
      exact hbefore x (List.mem_of_mem_erase hx)
  refine ⟨hlength, ?_⟩
  rcases h.queue with hwait | hnone
  · by_cases hempty : s.eventQueue = []
    · right
      exact hqueue fun x hx => absurd hx (by rw [hempty]; exact List.not_mem_nil)
    · left
      exact ha hwait hempty
  · right
    exact hqueue hnone

/-! ## The batches are swept -/

/-- What is pending is still to be processed by a client in the loop of `flush`. -/
def Swept (n : Nat) (s : EventManager) : Prop :=
  ∀ rest, (s.pcs (.client n)).next = some (.flushing rest) → ∀ ty, s.pending ty ≠ [] →
    ty ∈ rest ∨ s.pcs (.client n) = .processBatch ty (.flushing rest)

variable {n : Nat}

theorem swept_of_next (h : ∀ rest, (s.pcs (.client n)).next ≠ some (.flushing rest)) : Swept n s :=
  fun rest hnext => absurd hnext (h rest)

/-- Batches get empty, and the client stays where it is. -/
theorem Swept.same (h : Swept n s) (hpc : s'.pcs (.client n) = s.pcs (.client n))
    (hpend : ∀ ty, s'.pending ty ≠ [] → s.pending ty ≠ []) : Swept n s' := by
  intro rest hnext ty hty
  rw [hpc] at hnext ⊢
  exact h rest hnext ty (hpend ty hty)

/-- A thread moves. If it is the client, it goes where the loop of `flush` is not. -/
theorem Swept.leave (h : Swept n s) {pc : Pc}
    (hpcs : s'.pcs = Function.update s.pcs t pc) (hpend : ∀ ty, s'.pending ty ≠ [] → s.pending ty ≠ [])
    (hpc : ∀ rest, pc.next ≠ some (.flushing rest)) : Swept n s' := by
  by_cases ht : .client n = t
  · refine swept_of_next fun rest => ?_
    rw [hpcs, ht, Function.update_self]
    exact hpc rest
  · exact h.same (by rw [hpcs, Function.update_of_ne ht]) hpend

/-- A thread goes on in a delivery. -/
theorem Swept.go_on (h : Swept n s) {pc : Pc}
    (hpcs : s'.pcs = Function.update s.pcs t pc) (hconfigs : s'.batchConfigs = s.batchConfigs)
    (hnext : pc.next = (s.pcs t).next) (hnot : ∀ ty k, s.pcs t ≠ .processBatch ty k) : Swept n s' := by
  have hpend : ∀ ty, s'.pending ty ≠ [] → s.pending ty ≠ [] := fun ty hty => by rwa [pending, hconfigs] at hty
  by_cases ht : .client n = t
  · intro rest hflush ty hty
    rw [hpcs, ht, Function.update_self, hnext, ← ht] at hflush
    rcases h rest hflush ty (hpend ty hty) with hin | hbatch
    · exact Or.inl hin
    · exact absurd (ht ▸ hbatch) (hnot ty _)
  · exact h.same (by rw [hpcs, Function.update_of_ne ht]) hpend

/-- A batch is emptied. -/
theorem pending_of_emptied {ty ty' : String}
    (h : s'.pending ty' = if ty = ty' then [] else s.pending ty') (hne : s'.pending ty' ≠ []) :
    ty ≠ ty' ∧ s.pending ty' ≠ [] := by
  rw [h] at hne
  split at hne
  · exact absurd rfl hne
  · rename_i hty
    exact ⟨hty, hne⟩

theorem mem_keys_of_pending {ty : String} (h : s.pending ty ≠ []) : ty ∈ s.batchConfigs.keys := by
  rw [Std.ExtTreeMap.mem_keys]
  by_contra hout
  exact h (pending_of_none (Std.ExtTreeMap.getElem?_eq_none hout))

theorem flushLock_swept (h : Swept n s) (order : List String) :
    Swept n (s.step matchesPattern (.flushLock n order)) := by
  simp only [step, act, flushLock]
  split
  · rename_i hlock
    intro rest hnext ty hty
    rw [Option.getD_some, goto_self] at hnext
    cases hnext
    exact Or.inl (hlock.2.2.mem_iff.mpr (mem_keys_of_pending hty))
  · exact h

theorem takeBatch_swept (h : Swept n s) {ty : String} {k : After}
    (hpc : s.pcs t = .processBatch ty k) : Swept n (s.takeBatch t ty k) := by
  have hpend : ∀ ty', (s.takeBatch t ty k).pending ty' ≠ [] → ty ≠ ty' ∧ s.pending ty' ≠ [] :=
    fun ty' => pending_of_emptied (takeBatch_pending s t ty k ty')
  by_cases ht : .client n = t
  · intro rest hnext ty' hne
    obtain ⟨hty, hbefore⟩ := hpend ty' hne
    rw [ht, takeBatch_self] at hnext
    cases hnext
    rcases h rest (by rw [ht, hpc]; rfl) ty' hbefore with hin | hbatch
    · exact Or.inl hin
    · rw [ht, hpc] at hbatch
      exact absurd (Pc.processBatch.inj hbatch).1 hty
  · exact h.same (takeBatch_other s ht ty k) fun ty' hne => (hpend ty' hne).2

theorem resume_swept (h : Swept n s) {k : After} (hpc : s.pcs t = .after k) : Swept n (s.resume t k) := by
  cases k with
  | direct => exact h.leave rfl (fun _ hne => hne) (by simp [Pc.next])
  | count => exact h.leave rfl (fun _ hne => hne) (by simp [Pc.next])
  | types rest =>
    cases rest with
    | nil => exact h.leave rfl (fun _ hne => hne) (by simp [Pc.next])
    | cons ty rest => exact h.leave rfl (fun _ hne => hne) (by simp [Pc.next])
  | erase ty =>
    exact h.leave rfl (fun ty' hne => (pending_of_emptied (pending_erase rfl ty') hne).2) (by simp [Pc.next])
  | flushing rest =>
    cases rest with
    | nil => exact h.leave rfl (fun _ hne => hne) (by simp [Pc.next])
    | cons ty rest =>
      by_cases ht : .client n = t
      · have hold := h (ty :: rest) (by rw [ht, hpc]; rfl)
        rw [ht, hpc] at hold
        have hin : ∀ ty', s.pending ty' ≠ [] → ty' = ty ∨ ty' ∈ rest := by
          intro ty' hne
          rcases hold ty' hne with hin | hbatch
          · exact List.mem_cons.mp hin
          · cases hbatch
        simp only [resume]
        split
        · rename_i hempty
          intro rest' hnext ty' hne
          rw [ht, goto_self] at hnext
          cases hnext
          rcases hin ty' hne with rfl | hrest
          · exact absurd hempty hne
          · exact Or.inl hrest
        · intro rest' hnext ty' hne
          rw [ht, goto_self] at hnext ⊢
          cases hnext
          rcases hin ty' hne with rfl | hrest
          · exact Or.inr rfl
          · exact Or.inl hrest
      · simp only [resume]
        split
        · exact h.same (goto_other s ht _) fun _ hne => hne
        · exact h.same (goto_other s ht _) fun _ hne => hne

theorem step_swept (hl : Locked s) (h : Swept n s) (a : Action) : Swept n (s.step matchesPattern a) := by
  by_cases hlock : ∃ order, a = .flushLock n order
  · obtain ⟨order, rfl⟩ := hlock
    exact flushLock_swept matchesPattern h order
  · have hs := step_to matchesPattern s a
    generalize s.step matchesPattern a = s' at hs ⊢
    cases hs with
    | stay => exact h
    | subscribe pattern => exact h
    | unsubscribe id =>
      unfold unsubscribe
      split <;> exact h
    | setMaxQueueSize maxSize => exact h
    | publish e hpc => exact h.leave rfl (fun _ hne => hne) (by simp [Pc.next])
    | drop hpc hfull => exact h.leave rfl (fun _ hne => hne) (by simp [Pc.next])
    | push hpc hroom hx => exact h.leave rfl (fun _ hne => hne) (by simp [Pc.next])
    | dequeue hpc htop => exact h.leave rfl (fun _ hne => hne) (by simp [Pc.next])
    | direct hpc hfree hoff => exact h.leave rfl (fun _ hne => hne) (by simp [Pc.next])
    | batched hpc hfree hc hc' hnext =>
      -- nobody owns the mutex, so the client is not in the loop
      refine swept_of_next fun rest hflush => ?_
      rw [goto_other _ (by simp)] at hflush
      have howner := (hl (.client n) _ hflush rfl).1
      rw [hfree] at howner
      cases howner
    | takeBatch hpc ho => exact takeBatch_swept h hpc
    | endDelivery hpc => exact h.go_on rfl rfl (by rw [hpc]; rfl) (by simp [hpc])
    | snapshot hpc => exact h.go_on rfl rfl (by rw [hpc]; rfl) (by simp [hpc])
    | call hpc => exact h.go_on rfl rfl (by rw [hpc]; rfl) (by simp [hpc])
    | finish hpc => exact h.go_on rfl rfl (by rw [hpc]; rfl) (by simp [hpc])
    | resume hpc => exact resume_swept h hpc
    | enableBatching ty interval size now hfree =>
      have he := enableBatching_emptied s ty interval size now
      exact h.same rfl fun ty' hne => (pending_of_emptied (he.pending ty') hne).2
    | eraseBatch hfree hempty => exact h.same rfl fun ty' hne => (pending_of_emptied (pending_erase rfl ty') hne).2
    | closeBatch ty hpc hfree => exact h.leave rfl (fun _ hne => hne) (by simp [Pc.next])
    | scan types hpc hfree =>
      exact h.leave rfl (fun ty hne => ne_of_eq_of_ne (pending_pass rfl ty).symm hne) (by simp [Pc.next])
    | flush hpc hnext =>
      refine h.leave rfl (fun _ hne => hne) ?_
      rcases hnext with rfl | rfl
      · simp [Pc.next]
      · simp [Pc.next]
    | @flushLock m order hpc hfree =>
      have hm : Thread.client n ≠ .client m := fun heq => hlock ⟨order, by rw [Thread.client.inj heq]⟩
      exact h.same (goto_other _ hm _) fun _ hne => hne

theorem fresh_swept : Swept n {} := swept_of_next fun _ hnext => by cases hnext

/-! ## A call of `flush` -/

variable (n)

/-- The client calls `flush` in `s`, is in this call during the actions, and then has only
    to release the mutex. Its wait does not time out. -/
structure FlushCall (s : EventManager) (during : List Action) : Prop where
  idle : s.pcs (.client n) = .idle
  inside : Throughout (step matchesPattern) (fun s => s.pcs (.client n) ≠ .idle) (s.step matchesPattern (.flush n))
    during
  inTime : EachStep (step matchesPattern) (InTime matchesPattern n) (s.step matchesPattern (.flush n)) during
  returning : (runFrom (step matchesPattern) s (.flush n :: during)).pcs (.client n) = .after (.flushing [])

/-- The event was given to each subscription that matched it, once. -/
def Delivered (s : EventManager) (x : Accepted) : Prop :=
  ∃ d ∈ s.delivered, d.event = x ∧ s.callsOf x.ticket = (matched matchesPattern d).map (·.id)

/-- The thread dequeued the event, or took it out of a batch. -/
def Carries (s : EventManager) (t : Thread) (x : Accepted) : Prop := x ∈ (s.pcs t).held ∨ x ∈ (s.pcs t).taken

instance (s : EventManager) (t : Thread) (x : Accepted) : Decidable (Carries s t x) :=
  inferInstanceAs (Decidable (_ ∨ _))

variable {n}

theorem flush_drained (hidle : s.pcs (.client n) = .idle) :
    Drained n s.accepted.length (s.step matchesPattern (.flush n)) := by
  have hstep : s.step matchesPattern (.flush n) =
      s.goto (.client n) (if s.eventQueue = [] then .flushBatches else .flushWait) := by
    simp [step, act, flush, hidle]
  rw [hstep]
  refine ⟨Nat.le_refl _, ?_⟩
  rw [goto_self]
  by_cases hq : s.eventQueue = []
  · right
    intro x hx
    have hx : x ∈ s.eventQueue := hx
    rw [hq] at hx
    cases hx
  · left
    exact if_neg hq

/-- A client has events in its hands only while it owns the mutex. -/
theorem not_carries_client (hl : Locked s) (hf : Fits s) (hfree : s.batchesOwner = none) (m : Nat)
    (x : Accepted) : ¬ Carries s (.client m) x := by
  have hlocked : ∀ k, (s.pcs (.client m)).next = some k → k.fits (.client m) = true → False := by
    intro k hnext hk
    have hk : k.locked = true := by
      cases k with
      | flushing rest => rfl
      | erase ty => rfl
      | _ => cases hk
    have howner := (hl (.client m) k hnext hk).1
    rw [hfree] at howner
    cases howner
  have hm := hf (.client m)
  unfold Carries
  cases hpc : s.pcs (.client m) with
  | dequeued y =>
    rw [hpc] at hm
    cases hm
  | deliver xs k => exact (hlocked k (by rw [hpc]; rfl) (by rwa [hpc] at hm)).elim
  | notify d left xs k => exact (hlocked k (by rw [hpc]; rfl) (by rwa [hpc] at hm)).elim
  | _ => simp [Pc.held, Pc.taken]

/-- When the mutex is free and the batches are empty, an event that left the queue is
    delivered unless it was dropped, or one of the two threads of the manager has it. -/
theorem delivered_iff {gone : List Accepted} (h : Accounted matchesPattern gone s) (hf : Fits s)
    (hfree : s.batchesOwner = none) (hpend : ∀ ty, s.pending ty = []) {x : Accepted} (hx : x ∈ s.accepted)
    (hqueue : x ∉ s.eventQueue) :
    Delivered matchesPattern s x ↔ x ∉ gone ∧ ¬ Carries s .processing x ∧ ¬ Carries s .batch x := by
  have hmem : ∀ p, x ∈ s.placing id p ↔ x ∈ s.things p := fun p => by rw [placing, List.map_id]
  constructor
  · intro hdel
    obtain ⟨d, hd, rfl, -⟩ := hdel
    have hhere : d.event ∈ s.placing id .delivered := (hmem _).mpr (List.mem_map_of_mem hd)
    have hnot : ∀ t, ¬ Carries s t d.event := by
      intro t ht
      rcases ht with hheld | htaken
      · cases h.placed.apart _ _ (.held t) hhere ((hmem _).mpr hheld)
      · cases h.placed.apart _ _ (.taken t) hhere ((hmem _).mpr htaken)
    refine ⟨fun hgone => (h.placed.known _ _ hhere).2 ?_, hnot _, hnot _⟩
    rwa [List.map_id]
  · intro hnot
    obtain ⟨hgone, hprocessing, hbatch⟩ := hnot
    have hcarries : ∀ t, ¬ Carries s t x := by
      intro t
      cases t with
      | processing => exact hprocessing
      | batch => exact hbatch
      | client m => exact not_carries_client h.locked hf hfree m x
    obtain ⟨p, hp⟩ := h.placed.somewhere x (by rw [List.map_id, List.map_id]; exact ⟨hx, hgone⟩)
    rw [hmem] at hp
    cases p with
    | queue => exact absurd hp hqueue
    | held t => exact absurd (Or.inl hp) (hcarries t)
    | pending ty =>
      have hp : x ∈ s.pending ty := hp
      rw [hpend ty] at hp
      cases hp
    | taken t => exact absurd (Or.inr hp) (hcarries t)
    | delivered =>
      obtain ⟨d, hd, rfl⟩ := List.mem_map.mp hp
      exact ⟨d, hd, rfl, h.once.delivered d hd⟩

/-- Where the call is about to return, no batch has events, and the queue none that was
    accepted before the call. -/
theorem FlushCall.empty (hl : Locked s) (hc : Conserved s) (hsw : Swept n s) {during : List Action}
    (h : FlushCall matchesPattern n s during) :
    let s' := runFrom (step matchesPattern) s (.flush n :: during)
    (∀ ty, s'.pending ty = []) ∧ ∀ x ∈ s.accepted, x ∉ s'.eventQueue := by
  intro s'
  have hswept : Locked s' ∧ Swept n s' := by
    refine runFrom_invariant (I := fun s => Locked s ∧ Swept n s) ?_ ⟨hl, hsw⟩ (.flush n :: during)
    intro s a hs
    exact ⟨step_locked matchesPattern hs.1 a, step_swept matchesPattern hs.1 hs.2 a⟩
  have hdrained : Drained n s.accepted.length s' :=
    runFrom_eachStep (I := Drained n s.accepted.length) (s := step matchesPattern s (.flush n))
      (fun s a hs => step_drained matchesPattern hs) (flush_drained matchesPattern h.idle) h.inTime
  constructor
  · intro ty
    by_contra hne
    rcases hswept.2 [] (by rw [h.returning]; rfl) ty hne with hin | hbatch
    · cases hin
    · rw [h.returning] at hbatch
      cases hbatch
  · intro x hx hqueue
    rcases hdrained.queue with hwait | hnew
    · rw [h.returning] at hwait
      cases hwait
    · exact absurd (hc.ticket_lt hx) (Nat.not_lt.mpr (hnew x hqueue))

theorem accepted_subset (s : EventManager) (actions : List Action) :
    s.accepted ⊆ (runFrom (step matchesPattern) s actions).accepted := by
  refine runFrom_invariant (I := fun s' : EventManager => s.accepted ⊆ s'.accepted) ?_ (List.Subset.refl _) actions
  intro s' a hs
  obtain ⟨new, hacc, -⟩ := step_accepted matchesPattern s' a
  rw [hacc]
  exact fun x hx => List.mem_append_left _ (hs hx)

theorem lostBy_work (s : EventManager) (t : Thread) : s.lostBy (.work t) = [] := rfl

theorem flush_returns (hpc : s.pcs (.client n) = .after (.flushing [])) :
    s.step matchesPattern (.work (.client n)) = { s with batchesOwner := none }.goto (.client n) .idle := by
  simp [step, act, work, hpc, resume]

/-- A call of `flush` that does not time out is a barrier exactly when no event from before
    the call was dropped by an `enableBatching`, and none is in the hands of the processing
    thread or of the batch thread when it returns. -/
theorem flush_barrier_iff (before during : List Action)
    (h : FlushCall matchesPattern n (runFrom (step matchesPattern) {} before) during) :
    let s := runFrom (step matchesPattern) {} before
    let s' := runFrom (step matchesPattern) s (.flush n :: during ++ [.work (.client n)])
    (∀ x ∈ s.accepted, Delivered matchesPattern s' x) ↔
      ∀ x ∈ s.accepted, x ∉ lost matchesPattern {} before ++ lost matchesPattern s (.flush n :: during) ∧
        ¬ Carries s' .processing x ∧ ¬ Carries s' .batch x := by
  intro s s'
  have hs : Accounted matchesPattern (lost matchesPattern {} before) s :=
    run_accounted matchesPattern (fresh_accounted matchesPattern) before
  have hinv : Fits s ∧ Locked s ∧ Swept n s := by
    refine runFrom_invariant (I := fun s => Fits s ∧ Locked s ∧ Swept n s) ?_ ⟨fresh_fits, fresh_locked, fresh_swept⟩
      before
    intro s a hs
    obtain ⟨hfits, hlocked, hswept⟩ := hs
    exact ⟨step_fits matchesPattern hfits a, step_locked matchesPattern hlocked a,
      step_swept matchesPattern hlocked hswept a⟩
  obtain ⟨hfits, hlocked, hswept⟩ := hinv
  obtain ⟨hpend, hqueue⟩ := h.empty matchesPattern hlocked hs.conserved hswept
  have hlast : s' = (runFrom (step matchesPattern) s (.flush n :: during)).step matchesPattern (.work (.client n)) :=
    List.foldl_append
  have hs' := hlast.trans (flush_returns matchesPattern h.returning)
  have hfits' : Fits s' := runFrom_invariant (I := Fits) (fun s a hs => step_fits matchesPattern hs a) hfits _
  have haccounted := step_accounted matchesPattern (run_accounted matchesPattern hs (.flush n :: during))
    (.work (.client n))
  rw [← hlast, lostBy_work, List.append_nil] at haccounted
  have hevent : ∀ x ∈ s.accepted, Delivered matchesPattern s' x ↔
      x ∉ lost matchesPattern {} before ++ lost matchesPattern s (.flush n :: during) ∧
        ¬ Carries s' .processing x ∧ ¬ Carries s' .batch x := by
    intro x hx
    refine delivered_iff matchesPattern haccounted hfits' ?_ ?_ (accepted_subset matchesPattern s _ hx) ?_
    · rw [hs']
      rfl
    · rw [hs']
      exact hpend
    · rw [hs']
      exact hqueue x hx
  exact forall₂_congr hevent

/-- An event waits in its batch: `flush` delivers it. -/
theorem flush_barrier_iff_batched :
    let e : Event := { type := "build", data := "", id := 1 }
    let s := runFrom (step fun _ _ => true) {} [.subscribe "build", .enableBatching "build" 1000 100 0, .publish 1 e,
      .push 1, .dequeue ⟨0, e⟩, .processEvent 1, .work .processing]
    let s' := runFrom (step fun _ _ => true) s (.flush 2 :: [.flushLock 2 ["build"], .work (.client 2),
      .work (.client 2), .work (.client 2), .work (.client 2), .work (.client 2), .work (.client 2)] ++
        [.work (.client 2)])
    s.accepted = [⟨0, e⟩] ∧ s.delivered = [] ∧ ∀ x ∈ s.accepted, Delivered (fun _ _ => true) s' x := by
  intro e s s'
  refine ⟨by decide +kernel, by decide +kernel, ?_⟩
  refine (flush_barrier_iff (n := 2) (fun _ _ => true) _ _ ?_).mpr ?_
  · exact ⟨by decide +kernel, by decide +kernel, by decide +kernel, by decide +kernel⟩
  · decide +kernel

/-- The processing thread has taken the only event out of the queue and not looked at it
    when another thread calls `flush`, which then has nothing to wait for. -/
theorem a_dequeued_event_outlives_a_flush :
    let e : Event := { type := "build", data := "", id := 1 }
    let s := runFrom (step fun _ _ => true) {} [.subscribe "build", .publish 1 e, .push 1, .dequeue ⟨0, e⟩]
    let s' := runFrom (step fun _ _ => true) s (.flush 2 :: [.flushLock 2 []] ++ [.work (.client 2)])
    FlushCall (fun _ _ => true) 2 s [.flushLock 2 []] ∧ s.accepted = [⟨0, e⟩] ∧ s'.pcs (.client 2) = .idle ∧
      s'.pcs .processing = .dequeued ⟨0, e⟩ ∧ s'.calls = [] ∧ ¬ Delivered (fun _ _ => true) s' ⟨0, e⟩ := by
  intro e s s'
  have hnone : s'.delivered = [] := by decide +kernel
  refine ⟨⟨by decide +kernel, by decide +kernel, by decide +kernel, by decide +kernel⟩, by decide +kernel,
    by decide +kernel, by decide +kernel, by decide +kernel, ?_⟩
  intro hdel
  obtain ⟨d, hd, -⟩ := hdel
  rw [hnone] at hd
  cases hd

end EventManager

end DockerCpp
