/-
  DockerCpp.Core.EventStatistics — the counters of `EventStatistics` against the queue.

  A publisher counts its attempt in one section and pushes or drops in another; the
  processing thread pops in one section and counts in another, where it also reads the
  size of the queue without `event_queue_mutex_`. Between the two sections an event is
  counted on one side only: `publishers` are the clients in their window, `inWindow` says
  whether the processing thread is in its own. Only the processing thread ever counts
  (`Fits`), so the books balance in every state (`Balanced`), and outside the processing
  thread's window `pending_events` is the length of the queue: a push stores the size it
  has just made, under the lock of the queue.

  The counters do not wrap here; in the source they are 64 bits wide.
-/

import DockerCpp.Core.EventPlaces
import Mathlib.Data.Set.Card

namespace DockerCpp

open Lib

/-- `publish` has counted, and has neither pushed nor dropped. -/
def Pc.publishing : Pc → Bool
  | .publish _ => true
  | _ => false

/-- What a thread may follow its deliveries with. -/
def After.fits : Thread → After → Bool
  | .processing, .direct | .processing, .count => true
  | .batch, .types _ => true
  | .client _, .flushing _ | .client _, .erase _ => true
  | _, _ => false

def Pc.fits (t : Thread) : Pc → Bool
  | .idle => true
  | .publish _ | .flushWait | .flushBatches => match t with | .client _ => true | _ => false
  | .dequeued _ => t == .processing
  | .processBatch _ k | .deliver _ k | .notify _ _ _ k | .after k => k.fits t

namespace EventManager

variable (matchesPattern : String → String → Bool)

def publishers (s : EventManager) : Set Nat := { n | (s.pcs (.client n)).publishing = true }

/-- The processing thread is between its pop and its update of the statistics. -/
def inWindow (s : EventManager) : Nat := if s.pcs .processing = .idle then 0 else 1

/-- The events a step drops. -/
def drops (s : EventManager) : Action → Nat
  | .push n => if (s.pcs (.client n)).publishing = true ∧ s.maxQueueSize ≤ s.eventQueue.length then 1 else 0
  | _ => 0

/-- The events dropped in a run. -/
def dropped : EventManager → List Action → Nat
  | _, [] => 0
  | s, a :: actions => s.drops a + dropped (s.step matchesPattern a) actions

/-! ## Where a thread can be -/

def Fits (s : EventManager) : Prop := ∀ t, (s.pcs t).fits t = true

variable {s s' : EventManager} {t : Thread} {lost n : Nat} {pc : Pc} {e : Event}

theorem Fits.move (h : Fits s) (hp : s'.pcs = Function.update s.pcs t pc) (hpc : pc.fits t = true) : Fits s' := by
  intro u
  rw [hp]
  by_cases hu : u = t
  · rw [hu, Function.update_self]
    exact hpc
  · rw [Function.update_of_ne hu]
    exact h u

theorem Fits.same (h : Fits s) (hp : s'.pcs = s.pcs) : Fits s' := by
  intro t
  rw [hp]
  exact h t

theorem Fits.at (h : Fits s) (hpc : s.pcs t = pc) : pc.fits t = true := hpc ▸ h t

/-- Where a delivery goes on, the thread still fits. -/
theorem resume_fits (h : Fits s) {k : After} (hpc : s.pcs t = .after k) : Fits (s.resume t k) := by
  have hk : k.fits t = true := h.at hpc
  cases k with
  | direct =>
    cases t with
    | processing => exact h.move rfl rfl
    | batch | client n => cases hk
  | count => exact h.move rfl rfl
  | types rest =>
    cases rest with
    | nil => exact h.move rfl rfl
    | cons ty rest =>
      cases t with
      | batch => exact h.move rfl rfl
      | processing | client n => cases hk
  | flushing rest =>
    cases t with
    | client n =>
      cases rest with
      | nil => exact h.move rfl rfl
      | cons ty rest =>
        simp only [resume]
        split <;> exact h.move rfl rfl
    | processing | batch => cases hk
  | erase ty => exact h.move rfl rfl

theorem step_fits (h : Fits s) (a : Action) : Fits (s.step matchesPattern a) := by
  have hstep := step_to matchesPattern s a
  generalize s.step matchesPattern a = s' at hstep ⊢
  cases hstep with
  | stay => exact h
  | subscribe pattern => exact h.same rfl
  | unsubscribe id =>
    unfold unsubscribe
    split
    · exact h.same rfl
    · exact h
  | setMaxQueueSize maxSize => exact h.same rfl
  | batched hpc hfree hc hc' hpc' => rcases hpc' with rfl | rfl <;> exact h.move rfl rfl
  | takeBatch hpc ho =>
    have hk := h.at hpc
    unfold takeBatch
    split <;> exact h.move rfl hk
  | endDelivery hpc =>
    have hk := h.at hpc
    exact h.move rfl hk
  | snapshot hpc =>
    have hk := h.at hpc
    exact h.move rfl hk
  | call hpc =>
    have hk := h.at hpc
    exact h.move rfl hk
  | finish hpc =>
    have hk := h.at hpc
    exact h.move rfl hk
  | resume hpc => exact resume_fits h hpc
  | enableBatching ty interval size now hfree => exact h.same rfl
  | eraseBatch hfree hempty => exact h.same rfl
  | flush hpc hpc' => rcases hpc' with rfl | rfl <;> exact h.move rfl rfl
  | _ => exact h.move rfl rfl

/-! ## The books -/

structure Balanced (s : EventManager) (lost : Nat) : Prop where
  finite : s.publishers.Finite
  total : s.stats.totalEventsPublished =
    s.stats.totalEventsProcessed + s.eventQueue.length + lost + s.publishers.ncard + s.inWindow
  pending : s.pcs .processing = .idle → s.stats.pendingEvents = s.eventQueue.length

/-- What a step leaves the books on both sides of. -/
structure SameBooks (s s' : EventManager) : Prop where
  published : s'.stats.totalEventsPublished = s.stats.totalEventsPublished
  processed : s'.stats.totalEventsProcessed = s.stats.totalEventsProcessed
  pending : s'.stats.pendingEvents = s.stats.pendingEvents
  queue : s'.eventQueue = s.eventQueue

theorem Balanced.same (h : Balanced s lost) (hb : SameBooks s s')
    (hp : s'.publishers = s.publishers) (hi : s'.pcs .processing = .idle ↔ s.pcs .processing = .idle) :
    Balanced s' lost := by
  have hw : s'.inWindow = s.inWindow := by simp only [inWindow, hi]
  refine ⟨hp ▸ h.finite, ?_, ?_⟩
  · rw [hb.published, hb.processed, hb.queue, hp, hw]
    exact h.total
  · intro hidle
    rw [hb.pending, hb.queue]
    exact h.pending (hi.mp hidle)

theorem publishers_move (hp : s'.pcs = Function.update s.pcs t pc)
    (hpc : pc.publishing = (s.pcs t).publishing) : s'.publishers = s.publishers := by
  ext n
  show (s'.pcs _).publishing = true ↔ _
  rw [hp]
  by_cases hn : Thread.client n = t
  · rw [hn, Function.update_self, hpc, ← hn]
    rfl
  · rw [Function.update_of_ne hn]
    rfl

/-- A thread moves on between two points that no window separates. -/
theorem Balanced.move (h : Balanced s lost) (hb : SameBooks s s')
    (hp : s'.pcs = Function.update s.pcs t pc) (hpc : pc.publishing = (s.pcs t).publishing)
    (hidle : t = .processing → (pc = .idle ↔ s.pcs t = .idle)) : Balanced s' lost := by
  refine h.same hb (publishers_move hp hpc) ?_
  rw [hp]
  by_cases ht : Thread.processing = t
  · rw [ht, Function.update_self]
    exact hidle ht.symm
  · rw [Function.update_of_ne ht]

theorem publish_balanced (h : Balanced s lost) (e : Event) (hpc : s.pcs (.client n) = .idle) :
    Balanced ({ s with stats := { s.stats with totalEventsPublished := s.stats.totalEventsPublished + 1 } }.goto
      (.client n) (.publish e)) lost := by
  have hnew : n ∉ s.publishers := by simp [publishers, hpc, Pc.publishing]
  have hp : ({ s with stats := { s.stats with totalEventsPublished := s.stats.totalEventsPublished + 1 } }.goto
      (.client n) (.publish e)).publishers = insert n s.publishers := by
    ext m
    by_cases hm : m = n
    · simp [publishers, goto, hm, Pc.publishing]
    · simp [publishers, goto, hm]
  refine ⟨hp ▸ h.finite.insert n, ?_, h.pending⟩
  rw [hp, Set.ncard_insert_of_notMem hnew h.finite]
  have htotal := h.total
  show s.stats.totalEventsPublished + 1 = s.stats.totalEventsProcessed + s.eventQueue.length + lost + _ + s.inWindow
  omega

/-- A publisher leaves its window, having pushed or dropped. -/
theorem publishers_leave (hpc : s.pcs (.client n) = .publish e)
    (hp : s'.pcs = Function.update s.pcs (.client n) .idle) (hfin : s.publishers.Finite) :
    s'.publishers.Finite ∧ s'.publishers.ncard + 1 = s.publishers.ncard := by
  have hmem : n ∈ s.publishers := by simp [publishers, hpc, Pc.publishing]
  have hdiff : s'.publishers = s.publishers \ {n} := by
    ext m
    by_cases hm : m = n
    · simp [publishers, hp, hm, Pc.publishing]
    · simp [publishers, hp, hm]
  rw [hdiff]
  exact ⟨hfin.sdiff, Set.ncard_sdiff_singleton_add_one hmem hfin⟩

/-- The section of the queue, when there is room. -/
def pushed (s : EventManager) (n : Nat) (x : Accepted) : EventManager :=
  { s with
    eventQueue := s.eventQueue ++ [x], accepted := s.accepted ++ [x],
    stats := { s.stats with pendingEvents := (s.eventQueue ++ [x]).length } }.goto (.client n) .idle

theorem push_balanced (h : Balanced s lost) (x : Accepted)
    (hpc : s.pcs (.client n) = .publish e) : Balanced (s.pushed n x) lost := by
  have hp : (s.pushed n x).pcs = Function.update s.pcs (.client n) .idle := rfl
  obtain ⟨hfin, hcard⟩ := publishers_leave hpc hp h.finite
  refine ⟨hfin, ?_, fun _ => rfl⟩
  have htotal := h.total
  show s.stats.totalEventsPublished = s.stats.totalEventsProcessed +
      (s.eventQueue ++ [x]).length + lost + _ + s.inWindow
  rw [List.length_append, List.length_singleton]
  omega

theorem drop_balanced (h : Balanced s lost)
    (hpc : s.pcs (.client n) = .publish e) : Balanced (s.goto (.client n) .idle) (lost + 1) := by
  have hp : (s.goto (.client n) .idle).pcs = Function.update s.pcs (.client n) .idle := rfl
  obtain ⟨hfin, hcard⟩ := publishers_leave hpc hp h.finite
  refine ⟨hfin, ?_, h.pending⟩
  have htotal := h.total
  show s.stats.totalEventsPublished = s.stats.totalEventsProcessed + s.eventQueue.length + (lost + 1) + _ + s.inWindow
  omega

theorem dequeue_balanced (h : Balanced s lost) {x : Accepted}
    (hpc : s.pcs .processing = .idle) (htop : IsTop s.eventQueue x) :
    Balanced ({ s with eventQueue := s.eventQueue.erase x, dequeued := s.dequeued ++ [x] }.goto .processing
      (.dequeued x)) lost := by
  have hp : ({ s with eventQueue := s.eventQueue.erase x, dequeued := s.dequeued ++ [x] }.goto .processing
      (.dequeued x)).publishers = s.publishers := publishers_move rfl (by rw [hpc]; rfl)
  have hself : ({ s with eventQueue := s.eventQueue.erase x, dequeued := s.dequeued ++ [x] }.goto .processing
      (.dequeued x)).pcs .processing = .dequeued x := goto_self ..
  refine ⟨hp ▸ h.finite, ?_, ?_⟩
  · have htotal := h.total
    have hlen : (s.eventQueue.erase x).length = s.eventQueue.length - 1 := List.length_erase_of_mem htop.1
    have hpos : 0 < s.eventQueue.length := List.length_pos_of_mem htop.1
    rw [hp]
    rw [inWindow, if_pos hpc] at htotal
    rw [inWindow, hself, if_neg (by simp)]
    show s.stats.totalEventsPublished =
      s.stats.totalEventsProcessed + (s.eventQueue.erase x).length + lost + s.publishers.ncard + 1
    omega
  · intro hidle
    rw [hself] at hidle
    cases hidle

/-- The statistics section of the processing thread. -/
theorem count_balanced (h : Balanced s lost) (hpc : s.pcs .processing = .after .count) :
    Balanced (s.resume .processing .count) lost := by
  have hp : (s.resume .processing .count).publishers = s.publishers := publishers_move rfl (by rw [hpc]; rfl)
  have hself : (s.resume .processing .count).pcs .processing = .idle := goto_self ..
  refine ⟨hp ▸ h.finite, ?_, fun _ => rfl⟩
  have htotal := h.total
  rw [inWindow, hpc, if_neg (by simp)] at htotal
  rw [hp, inWindow, if_pos hself]
  show s.stats.totalEventsPublished =
    s.stats.totalEventsProcessed + 1 + s.eventQueue.length + lost + s.publishers.ncard + 0
  omega

theorem resume_balanced (hfits : Fits s) (h : Balanced s lost) {k : After}
    (hpc : s.pcs t = .after k) : Balanced (s.resume t k) lost := by
  have hk : k.fits t = true := hfits.at hpc
  have hpub : (s.pcs t).publishing = false := by rw [hpc]; rfl
  -- only the processing thread counts, and nothing else ends its window
  cases k with
  | direct =>
    refine h.move ⟨rfl, rfl, rfl, rfl⟩ rfl hpub.symm fun _ => ?_
    rw [hpc]
    simp
  | count =>
    cases t with
    | processing => exact count_balanced h hpc
    | batch | client n => cases hk
  | types rest =>
    have ht : t ≠ .processing := by rintro rfl; cases hk
    cases rest <;> exact h.move ⟨rfl, rfl, rfl, rfl⟩ rfl hpub.symm fun heq => absurd heq ht
  | flushing rest =>
    have ht : t ≠ .processing := by rintro rfl; cases hk
    cases rest with
    | nil => exact h.move ⟨rfl, rfl, rfl, rfl⟩ rfl hpub.symm fun heq => absurd heq ht
    | cons ty rest =>
      simp only [resume]
      split <;> exact h.move ⟨rfl, rfl, rfl, rfl⟩ rfl hpub.symm fun heq => absurd heq ht
  | erase ty =>
    have ht : t ≠ .processing := by rintro rfl; cases hk
    exact h.move ⟨rfl, rfl, rfl, rfl⟩ rfl hpub.symm fun heq => absurd heq ht

/-- A step that drops is a publisher's, at a full queue. -/
theorem drops_cases (s : EventManager) (a : Action) :
    s.drops a = 0 ∨ ∃ n e, s.pcs (.client n) = .publish e ∧ s.drops a = 1 ∧
      s.step matchesPattern a = s.goto (.client n) .idle := by
  cases a with
  | push n =>
    rw [drops]
    split
    · rename_i hdrop
      cases hpc : s.pcs (.client n) with
      | publish e => exact Or.inr ⟨n, e, hpc, rfl, by simp [step, act, push, hpc, hdrop.2]⟩
      | _ =>
        rw [hpc] at hdrop
        cases hdrop.1
    · exact Or.inl rfl
  | _ => exact Or.inl rfl

theorem step_balanced (hfits : Fits s) (h : Balanced s lost) (a : Action) :
    Balanced (s.step matchesPattern a) (lost + s.drops a) := by
  rcases drops_cases matchesPattern s a with hnone | ⟨n, e, hpc, hone, hs⟩
  rotate_left
  · rw [hs, hone]
    exact drop_balanced h hpc
  rw [hnone]
  have hstep := step_to matchesPattern s a
  generalize s.step matchesPattern a = s' at hstep ⊢
  cases hstep with
  | stay a => exact h
  | subscribe pattern => exact h.same ⟨rfl, rfl, rfl, rfl⟩ rfl Iff.rfl
  | unsubscribe id =>
    unfold unsubscribe
    split
    · exact h.same ⟨rfl, rfl, rfl, rfl⟩ rfl Iff.rfl
    · exact h
  | setMaxQueueSize maxSize => exact h.same ⟨rfl, rfl, rfl, rfl⟩ rfl Iff.rfl
  | publish e hpc => exact publish_balanced h e hpc
  | drop hpc hfull =>
    rw [drops, if_pos ⟨by rw [hpc]; rfl, hfull⟩] at hnone
    cases hnone
  | push hpc hroom hx => exact push_balanced h _ hpc
  | dequeue hpc htop => exact dequeue_balanced h hpc htop
  | direct hpc hfree hoff => exact h.move ⟨rfl, rfl, rfl, rfl⟩ rfl (by rw [hpc]; rfl) fun _ => by rw [hpc]; simp
  | batched hpc hfree hc hc' hpc' =>
    rcases hpc' with rfl | rfl <;>
      exact h.move ⟨rfl, rfl, rfl, rfl⟩ rfl (by rw [hpc]; rfl) fun _ => by rw [hpc]; simp
  | takeBatch hpc ho =>
    unfold takeBatch
    split <;> exact h.move ⟨rfl, rfl, rfl, rfl⟩ rfl (by rw [hpc]; rfl) fun _ => by rw [hpc]; simp
  | endDelivery hpc | snapshot hpc | call hpc | finish hpc =>
    exact h.move ⟨rfl, rfl, rfl, rfl⟩ rfl (by rw [hpc]; rfl) fun _ => by rw [hpc]; simp
  | resume hpc => exact resume_balanced hfits h hpc
  | enableBatching ty interval size now hfree => exact h.same ⟨rfl, rfl, rfl, rfl⟩ rfl Iff.rfl
  | eraseBatch hfree hempty => exact h.same ⟨rfl, rfl, rfl, rfl⟩ rfl Iff.rfl
  | closeBatch _ hpc hfree | scan _ hpc hfree | flushLock _ hpc hfree =>
    exact h.move ⟨rfl, rfl, rfl, rfl⟩ rfl (by rw [hpc]; rfl) fun heq => by cases heq
  | flush hpc hpc' =>
    rcases hpc with hpc | hpc <;> rcases hpc' with rfl | rfl <;>
      exact h.move ⟨rfl, rfl, rfl, rfl⟩ rfl (by simp [hpc, Pc.publishing]) fun heq => by cases heq

theorem run_balanced (hfits : Fits s) (h : Balanced s lost) (actions : List Action) :
    Balanced (runFrom (step matchesPattern) s actions) (lost + dropped matchesPattern s actions) := by
  induction actions generalizing s lost with
  | nil => exact h
  | cons a actions ih =>
    have hrest := ih (step_fits matchesPattern hfits a) (step_balanced matchesPattern hfits h a)
    rw [Nat.add_assoc] at hrest
    exact hrest

theorem fresh_fits : Fits {} := fun _ => rfl

theorem fresh_balanced : Balanced {} 0 := by
  have hnone : ({} : EventManager).publishers = ∅ := by
    ext n
    simp [publishers, Pc.publishing]
  exact ⟨by rw [hnone]; exact Set.finite_empty, by rw [hnone, Set.ncard_empty]; rfl, fun _ => rfl⟩

/-- After any steps of any threads, every published event is processed, in the queue,
    dropped, in the hands of a publisher or in those of the processing thread; and where the
    processing thread is not between its pop and its count, `pending_events` is the length of
    the queue. -/
theorem statistics_add_up (actions : List Action) :
    let s := runFrom (step matchesPattern) {} actions
    s.publishers.Finite ∧
    s.stats.totalEventsPublished = s.stats.totalEventsProcessed + s.eventQueue.length +
      dropped matchesPattern {} actions + s.publishers.ncard + s.inWindow ∧
    (s.pcs .processing = .idle → s.stats.pendingEvents = s.eventQueue.length) := by
  intro s
  have h := run_balanced matchesPattern fresh_fits fresh_balanced actions
  rw [Nat.zero_add] at h
  exact ⟨h.finite, h.total, h.pending⟩

end EventManager

end DockerCpp
