/-
  DockerCpp.Core.EventProgress — the steps of the processing thread with an event.

  `stepsLeft` is the number of steps the thread still takes for the event it has dequeued,
  at most, when the other threads stand still. Every step makes it smaller (`Shorter`), and
  the thread can take one unless another thread owns `batches_mutex_`
  (`blocked_of_disabled`). A dequeue makes `drainSteps` smaller, which also counts what is in
  the queue (`dequeue_decreases`).
-/

import DockerCpp.Core.EventBatch
import DockerCpp.Core.EventStatistics

namespace DockerCpp

open Lib

/-- Steps after a delivery of the processing thread. -/
def After.stepsLeft : After → Nat
  | .direct => 2
  | .count => 1
  | _ => 0

namespace EventManager

variable {matchesPattern : String → String → Bool}

/-- The steps of one delivery: to look its listeners up, to call each, and to go on. -/
def perEvent (s : EventManager) : Nat := s.subscriptions.length + 2

def stepsLeft (s : EventManager) : Pc → Nat
  | .dequeued x => ((s.pending x.event.type).length + 1) * s.perEvent + 4
  | .processBatch ty k => (s.pending ty).length * s.perEvent + 2 + k.stepsLeft
  | .deliver xs k => xs.length * s.perEvent + 1 + k.stepsLeft
  | .notify _ left xs k => left.length + 1 + (xs.length * s.perEvent + 1 + k.stepsLeft)
  | .after k => k.stepsLeft
  | _ => 0

/-- As many steps are left for an event in the queue, at most. -/
def perQueued (s : EventManager) : Nat := s.accepted.length * s.perEvent + 5

def drainSteps (s : EventManager) : Nat := s.eventQueue.length * s.perQueued + s.stepsLeft (s.pcs .processing)

def Action.processing : Action → Bool
  | .dequeue _ | .processEvent _ | .work .processing => true
  | _ => false

/-- A step of the thread with the event it has. -/
structure Shorter (s s' : EventManager) : Prop where
  queue : s'.eventQueue = s.eventQueue
  subscriptions : s'.subscriptions = s.subscriptions
  accepted : s'.accepted = s.accepted
  less : s'.stepsLeft (s'.pcs .processing) < s.stepsLeft (s.pcs .processing)

variable {s s' : EventManager} {gone : List Accepted} {k : After} {t : Thread}

theorem Shorter.drainSteps (h : Shorter s s') : s'.drainSteps < s.drainSteps := by
  have hless := h.less
  simp only [EventManager.drainSteps, perQueued, perEvent, h.queue, h.subscriptions, h.accepted]
  omega

/-- With the event itself there are no more events in its batch than were accepted. -/
theorem pending_lt_accepted (h : Accounted matchesPattern gone s) {x : Accepted}
    (hx : x ∈ s.eventQueue) (ty : String) : (s.pending ty).length < s.accepted.length := by
  have hpending : s.placing id (.pending ty) = s.pending ty := by simp [placing, things]
  have hqueue : s.placing id .queue = s.eventQueue := by simp [placing, things]
  have hnotin : x ∉ s.pending ty := by
    intro hmem
    have hapart := h.placed.apart x .queue (.pending ty) (by rwa [hqueue]) (by rwa [hpending])
    cases hapart
  have hnodup : (x :: s.pending ty).Nodup := List.nodup_cons.mpr ⟨hnotin, hpending ▸ h.placed.nodup (.pending ty)⟩
  have hsub : x :: s.pending ty ⊆ s.accepted := by
    intro y hy
    have hknown : ∀ p, y ∈ s.placing id p → y ∈ s.accepted := fun p hp => by simpa using (h.placed.known y p hp).1
    rcases List.mem_cons.mp hy with rfl | hy
    · exact hknown .queue (by rwa [hqueue])
    · exact hknown (.pending ty) (by rwa [hpending])
  have hle := (hnodup.subperm hsub).length_le
  rw [List.length_cons] at hle
  omega

theorem dequeue_decreases (h : Accounted matchesPattern gone s)
    {x : Accepted} (hd : s.dequeue x = some s') : s'.drainSteps < s.drainSteps := by
  unfold dequeue at hd
  split at hd
  · rename_i htop
    cases hd
    have hx := htop.2.1
    have hbound := pending_lt_accepted h hx x.event.type
    have hlen := List.length_erase_of_mem hx
    have hpos := List.length_pos_of_mem hx
    have hmul : ((s.pending x.event.type).length + 1) * s.perEvent ≤ s.accepted.length * s.perEvent :=
      Nat.mul_le_mul_right _ hbound
    obtain ⟨n, hn⟩ : ∃ n, s.eventQueue.length = n + 1 := ⟨s.eventQueue.length - 1, by omega⟩
    have hleft : s.stepsLeft (s.pcs .processing) = 0 := by rw [htop.1]; rfl
    have hbefore : s.drainSteps = n * s.perQueued + s.perQueued := by
      rw [drainSteps, hn, hleft, Nat.succ_mul, Nat.add_zero]
    have hafter : ({ s with eventQueue := s.eventQueue.erase x, dequeued := s.dequeued ++ [x] }.goto .processing
        (.dequeued x)).drainSteps = n * s.perQueued + (((s.pending x.event.type).length + 1) * s.perEvent + 4) := by
      have hn' : (s.eventQueue.erase x).length = n := by omega
      rw [drainSteps, goto_self]
      exact congrArg₂ (· + ·) (congrArg (· * s.perQueued) hn') rfl
    rw [hbefore, hafter, perQueued]
    omega
  · cases hd

theorem processEvent_shorter {now : Int} (h : s.processEvent now = some s') : Shorter s s' := by
  unfold processEvent at h
  split at h
  · rename_i x hpc
    have hleft : s.stepsLeft (s.pcs .processing) = ((s.pending x.event.type).length + 1) * s.perEvent + 4 := by
      rw [hpc]
      rfl
    split at h
    · cases h
    · -- not batched: one delivery, and the mutex to release
      have hdirect : Shorter s ({ s with batchesOwner := some .processing }.goto .processing (.deliver [x] .direct)) := by
        refine ⟨rfl, rfl, rfl, ?_⟩
        rw [goto_self, hleft, Nat.succ_mul]
        simp only [stepsLeft, After.stepsLeft, List.length_singleton, perEvent, goto]
        omega
      simp only at h
      split at h
      · rename_i c hc
        split at h
        · split at h
          · cases h
            refine ⟨rfl, rfl, rfl, ?_⟩
            rw [goto_self, hleft]
            simp [stepsLeft, After.stepsLeft, pending, hc, perEvent, goto]
          · cases h
            refine ⟨rfl, rfl, rfl, ?_⟩
            rw [goto_self, hleft]
            simp only [stepsLeft, After.stepsLeft]
            omega
        · cases h
          exact hdirect
      · cases h
        exact hdirect
  · cases h

/-- The batch that is taken out is what was pending. -/
theorem takeBatch_shorter {ty : String} (hpc : s.pcs .processing = .processBatch ty k) :
    Shorter s (s.takeBatch .processing ty k) := by
  have hleft : s.stepsLeft (s.pcs .processing) = (s.pending ty).length * s.perEvent + 2 + k.stepsLeft := by
    rw [hpc]
    rfl
  unfold takeBatch
  split
  · rename_i c hc
    refine ⟨rfl, rfl, rfl, ?_⟩
    rw [goto_self, hleft, pending_of_some hc]
    simp only [stepsLeft, perEvent, goto]
    omega
  · rename_i hnone
    refine ⟨rfl, rfl, rfl, ?_⟩
    rw [goto_self, hleft, pending_of_none hnone]
    simp only [stepsLeft, perEvent, goto]
    omega

theorem resume_shorter (hf : Fits s) (hpc : s.pcs .processing = .after k) : Shorter s (s.resume .processing k) := by
  have hk : k.fits .processing = true := hf.at hpc
  have hleft : s.stepsLeft (s.pcs .processing) = k.stepsLeft := by
    rw [hpc]
    rfl
  cases k with
  | direct =>
    refine ⟨rfl, rfl, rfl, ?_⟩
    rw [hleft, resume, goto_self]
    exact Nat.lt_succ_self 1
  | count =>
    refine ⟨rfl, rfl, rfl, ?_⟩
    rw [hleft, resume, goto_self]
    exact Nat.zero_lt_one
  | types rest | flushing rest | erase ty => cases hk

theorem length_matched_le (d : Delivery) : (matched matchesPattern d).length ≤ d.registered.length :=
  List.length_filter_le _ _

theorem work_shorter (hf : Fits s) (h : s.work matchesPattern .processing = some s') : Shorter s s' := by
  unfold work at h
  split at h
  · rename_i ty k hpc
    split at h
    · cases h
      exact takeBatch_shorter hpc
    · cases h
  · rename_i k hpc
    cases h
    refine ⟨rfl, rfl, rfl, ?_⟩
    rw [goto_self, hpc]
    simp [stepsLeft]
  · rename_i x xs k hpc
    cases h
    refine ⟨rfl, rfl, rfl, ?_⟩
    have hle := @length_matched_le matchesPattern ⟨x, s.subscriptions⟩
    rw [goto_self, hpc]
    simp only [stepsLeft, List.length_cons, Nat.succ_mul, perEvent, goto] at hle ⊢
    omega
  · rename_i d sub left xs k hpc
    cases h
    refine ⟨rfl, rfl, rfl, ?_⟩
    rw [goto_self, hpc]
    simp [stepsLeft, perEvent, goto]
  · rename_i d xs k hpc
    cases h
    refine ⟨rfl, rfl, rfl, ?_⟩
    rw [goto_self, hpc]
    simp [stepsLeft, perEvent, goto]
  · rename_i k hpc
    cases h
    exact resume_shorter hf hpc
  · cases h

/-! ## The thread does not get stuck -/

/-- Another thread owns `batches_mutex_`. -/
def Blocked (s : EventManager) : Prop := ∃ t, t ≠ .processing ∧ s.batchesOwner = some t

/-- The owner of the mutex is in a delivery under it. -/
def Owned (s : EventManager) : Prop :=
  ∀ t, s.batchesOwner = some t → ∃ k, (s.pcs t).next = some k ∧ k.locked = true

/-- A thread moves on and the mutex is not taken or released: it stays in its delivery. -/
theorem Owned.goto (h : Owned s) {pc : Pc} (hp : s'.pcs = Function.update s.pcs t pc)
    (ho : s'.batchesOwner = s.batchesOwner) (hn : (s.pcs t).next = none ∨ pc.next = (s.pcs t).next) : Owned s' := by
  intro u hu
  rw [ho] at hu
  obtain ⟨k, hk, hlocked⟩ := h u hu
  refine ⟨k, ?_, hlocked⟩
  rw [hp]
  by_cases heq : u = t
  · subst heq
    rw [Function.update_self]
    rcases hn with hnone | hsame
    · rw [hnone] at hk
      cases hk
    · rw [hsame]
      exact hk
  · rw [Function.update_of_ne heq]
    exact hk

theorem Owned.same (h : Owned s) (hp : s'.pcs = s.pcs) (ho : s'.batchesOwner = s.batchesOwner) : Owned s' := by
  intro t ht
  rw [ho] at ht
  rw [hp]
  exact h t ht

theorem owned_of_free (h : s.batchesOwner = none) : Owned s := by
  intro t ht
  rw [h] at ht
  cases ht

theorem resume_owned (h : Owned s) (hpc : s.pcs t = .after k) : Owned (s.resume t k) := by
  -- a delivery that is not under the mutex ends in a thread that does not own it
  have hother : ∀ pc, k.locked = false → Owned (s.goto t pc) := by
    intro pc hk u hu
    obtain ⟨k', hk', hlocked⟩ := h u hu
    have hne : u ≠ t := by
      intro heq
      subst heq
      rw [hpc] at hk'
      rw [← Option.some.inj hk', hk] at hlocked
      cases hlocked
    rw [goto_other s hne]
    exact ⟨k', hk', hlocked⟩
  have hflushing : ∀ pc rest, pc.next = some (.flushing rest) → Owned (s.goto t pc) := by
    intro pc rest hnext u hu
    by_cases heq : u = t
    · subst heq
      rw [goto_self]
      exact ⟨.flushing rest, hnext, rfl⟩
    · rw [goto_other s heq]
      exact h u hu
  cases k with
  | direct => exact owned_of_free rfl
  | count => exact (hother .idle rfl).same rfl rfl
  | types rest => cases rest <;> exact hother _ rfl
  | flushing rest =>
    cases rest with
    | nil => exact owned_of_free rfl
    | cons ty rest =>
      simp only [resume]
      split <;> exact hflushing _ rest rfl
  | erase ty => exact owned_of_free rfl

theorem step_owned (h : Owned s) (a : Action) : Owned (s.step matchesPattern a) := by
  have hto := step_to matchesPattern s a
  generalize s.step matchesPattern a = s' at hto ⊢
  cases hto with
  | stay => exact h
  | subscribe pattern => exact h.same rfl rfl
  | unsubscribe id =>
    unfold unsubscribe
    split
    · exact h.same rfl rfl
    · exact h
  | setMaxQueueSize maxSize => exact h.same rfl rfl
  | publish e hpc => exact h.goto rfl rfl (Or.inl (by rw [hpc]; rfl))
  | drop hpc hfull => exact h.goto rfl rfl (Or.inl (by rw [hpc]; rfl))
  | push hpc hroom hx => exact h.goto rfl rfl (Or.inl (by rw [hpc]; rfl))
  | dequeue hpc htop => exact h.goto rfl rfl (Or.inl (by rw [hpc]; rfl))
  | direct hpc hfree hoff =>
    intro t ht
    obtain rfl : Thread.processing = t := Option.some.inj ht
    exact ⟨.direct, by rw [goto_self]; rfl, rfl⟩
  | batched hpc hfree hc hpend hnext => exact owned_of_free hfree
  | takeBatch hpc ho =>
    unfold takeBatch
    split <;> exact h.goto rfl rfl (Or.inr (by rw [hpc]; rfl))
  | endDelivery hpc => exact h.goto rfl rfl (Or.inr (by rw [hpc]; rfl))
  | snapshot hpc => exact h.goto rfl rfl (Or.inr (by rw [hpc]; rfl))
  | call hpc => exact h.goto rfl rfl (Or.inr (by rw [hpc]; rfl))
  | finish hpc => exact h.goto rfl rfl (Or.inr (by rw [hpc]; rfl))
  | resume hpc => exact resume_owned h hpc
  | enableBatching ty interval size now hfree => exact h.same rfl rfl
  | eraseBatch hfree hempty => exact h.same rfl rfl
  | @closeBatch n ty hpc hfree =>
    intro t ht
    obtain rfl : Thread.client n = t := Option.some.inj ht
    exact ⟨.erase ty, by rw [goto_self]; rfl, rfl⟩
  | scan types hpc hfree => exact owned_of_free hfree
  | flush hpc hnext =>
    refine h.goto rfl rfl (Or.inl ?_)
    rcases hpc with hpc | hpc <;> rw [hpc] <;> rfl
  | @flushLock n order hpc hfree =>
    intro t ht
    obtain rfl : Thread.client n = t := Option.some.inj ht
    exact ⟨.flushing order, by rw [goto_self]; rfl, rfl⟩

/-- A thread that waits for the mutex, or is not in a delivery under it, does not own it. -/
theorem Owned.blocked (h : Owned s) (ht : s.batchesOwner = some t)
    (hnext : ∀ k, (s.pcs .processing).next = some k → k.locked = false) : Blocked s := by
  refine ⟨t, ?_, ht⟩
  intro heq
  subst heq
  obtain ⟨k, hk, hlocked⟩ := h .processing ht
  rw [hnext k hk] at hlocked
  cases hlocked

theorem blocked_of_disabled (hf : Fits s) (ho : Owned s) (hpc : s.pcs .processing ≠ .idle)
    (hnone : ∀ a : Action, a.processing = true → s.act matchesPattern a = none) : Blocked s := by
  have hwork : s.work matchesPattern .processing = none := hnone (.work .processing) rfl
  have hprocess : s.processEvent 0 = none := hnone (.processEvent 0) rfl
  have hfits := hf .processing
  cases hcase : s.pcs .processing with
  | idle => exact absurd hcase hpc
  | dequeued x =>
    cases howner : s.batchesOwner with
    | some t => exact ho.blocked howner fun k hk => by rw [hcase] at hk; cases hk
    | none =>
      simp only [processEvent, hcase, howner, ne_eq, not_true, if_false] at hprocess
      split at hprocess
      · split at hprocess
        · split at hprocess <;> cases hprocess
        · cases hprocess
      · cases hprocess
  | processBatch ty k =>
    cases howner : s.batchesOwner with
    | some t =>
      refine ⟨t, ?_, howner⟩
      intro heq
      simp [work, hcase, howner, heq] at hwork
    | none => simp [work, hcase, howner] at hwork
  | deliver xs k => cases xs <;> simp [work, hcase] at hwork
  | notify d left xs k => cases left <;> simp [work, hcase] at hwork
  | after k => simp [work, hcase] at hwork
  | publish e | flushWait | flushBatches =>
    rw [hcase] at hfits
    cases hfits

/-! ## Runs -/

structure Known (matchesPattern : String → String → Bool) (s : EventManager) : Prop where
  accounted : ∃ gone, Accounted matchesPattern gone s
  fits : Fits s
  owned : Owned s

theorem step_known (h : Known matchesPattern s) (a : Action) : Known matchesPattern (s.step matchesPattern a) := by
  obtain ⟨gone, hgone⟩ := h.accounted
  exact ⟨⟨_, step_accounted matchesPattern hgone a⟩, step_fits matchesPattern h.fits a, step_owned h.owned a⟩

theorem run_known (actions : List Action) : Known matchesPattern (runFrom (step matchesPattern) {} actions) :=
  runFrom_invariant (I := Known matchesPattern) (fun _ a hs => step_known hs a)
    ⟨⟨[], fresh_accounted matchesPattern⟩, fresh_fits, owned_of_free rfl⟩ actions

end EventManager

end DockerCpp
