/-
  DockerCpp.Core.EventQueue — the queue of the event manager, under any interleaving.

  Of all the steps only two touch the queue: a `publish` that finds room appends, and the
  processing thread takes a maximal element of the comparator out (`step_queue`). So
  accepted events are the dequeued ones and the queue (`run_conserved`), no `publish`
  makes the queue longer than the limit, and of two events of one priority that are
  queued together the one with the smaller id goes first (`run_ordered`).
-/

import Mathlib.Data.List.Nodup
import Mathlib.Order.Defs.Unbundled
import DockerCpp.Core.Event

namespace DockerCpp

open Lib

/-! ## The comparator -/

theorem EventPriority.toInt_injective {p q : EventPriority} (h : p.toInt = q.toInt) : p = q := by
  cases p <;> cases q <;> first | rfl | cases h

theorem Event.comparator_iff (a b : Event) :
    a.comparator b = true ↔ a.priority.toInt < b.priority.toInt ∨
      a.priority.toInt = b.priority.toInt ∧ b.id.toNat < a.id.toNat := by
  unfold Event.comparator
  by_cases h : a.priority = b.priority
  · simp [h, UInt64.lt_iff_toNat_lt]
  · have hne : a.priority.toInt ≠ b.priority.toInt := fun e => h (EventPriority.toInt_injective e)
    simp [h, hne]

theorem Event.comparator_strictWeakOrder : IsStrictWeakOrder Event fun a b => a.comparator b = true where
  irrefl a := by
    rw [Event.comparator_iff]
    omega
  trans a b c := by
    rw [Event.comparator_iff, Event.comparator_iff, Event.comparator_iff]
    omega
  incomp_trans a b c := by
    rw [Event.comparator_iff, Event.comparator_iff, Event.comparator_iff, Event.comparator_iff, Event.comparator_iff,
      Event.comparator_iff]
    omega

namespace EventManager

variable {queue : List Accepted} {x y : Accepted} {s : EventManager}

/-- There is something for `top()` to return. -/
theorem exists_isTop (h : queue ≠ []) : ∃ x, IsTop queue x := by
  have hirr := Event.comparator_strictWeakOrder.irrefl
  have htrans := Event.comparator_strictWeakOrder.trans
  induction queue with
  | nil => exact absurd rfl h
  | cons a queue ih =>
    by_cases hq : queue = []
    · subst hq
      exact ⟨a, by simp, by simpa using hirr a.event⟩
    · obtain ⟨x, hx, hmax⟩ := ih hq
      by_cases hxa : x.event.comparator a.event = true
      · refine ⟨a, by simp, ?_⟩
        intro y hy
        rcases List.mem_cons.mp hy with rfl | hy
        · simpa using hirr y.event
        · by_contra hay
          have hxy := htrans _ _ _ hxa (by simpa using hay)
          rw [hmax y hy] at hxy
          cases hxy
      · refine ⟨x, List.mem_cons_of_mem _ hx, ?_⟩
        intro y hy
        rcases List.mem_cons.mp hy with rfl | hy
        · simpa using hxa
        · exact hmax y hy

theorem IsTop.first (h : IsTop queue x) (hy : y ∈ queue) : ¬ (x.event.priority.toInt < y.event.priority.toInt ∨
      x.event.priority = y.event.priority ∧ y.event.id < x.event.id) := by
  have hxy := h.2 y hy
  rw [← Bool.not_eq_true, Event.comparator_iff] at hxy
  intro hcase
  apply hxy
  rcases hcase with hlt | ⟨heq, hid⟩
  · exact Or.inl hlt
  · exact Or.inr ⟨by rw [heq], UInt64.lt_iff_toNat_lt.mp hid⟩

/-! ## What a step does to the queue -/

def SameQueue (s s' : EventManager) : Prop :=
  s'.eventQueue = s.eventQueue ∧ s'.accepted = s.accepted ∧ s'.dequeued = s.dequeued

structure Pushed (s s' : EventManager) (x : Accepted) : Prop where
  room : s.eventQueue.length < s.maxQueueSize
  ticket : x.ticket = s.accepted.length
  queue : s'.eventQueue = s.eventQueue ++ [x]
  accepted : s'.accepted = s.accepted ++ [x]
  dequeued : s'.dequeued = s.dequeued

structure Dequeued (s s' : EventManager) (x : Accepted) : Prop where
  top : IsTop s.eventQueue x
  queue : s'.eventQueue = s.eventQueue.erase x
  accepted : s'.accepted = s.accepted
  dequeued : s'.dequeued = s.dequeued ++ [x]

def QueueStep (s s' : EventManager) : Prop := SameQueue s s' ∨ (∃ x, Pushed s s' x) ∨ ∃ x, Dequeued s s' x

theorem sameQueue_resume (s : EventManager) (t : Thread) (k : After) : SameQueue s (s.resume t k) := by
  cases k with
  | direct => exact ⟨rfl, rfl, rfl⟩
  | count => exact ⟨rfl, rfl, rfl⟩
  | types rest => cases rest <;> exact ⟨rfl, rfl, rfl⟩
  | flushing rest =>
    cases rest with
    | nil => exact ⟨rfl, rfl, rfl⟩
    | cons ty rest =>
      simp only [resume]
      split <;> exact ⟨rfl, rfl, rfl⟩
  | erase ty => exact ⟨rfl, rfl, rfl⟩

variable (matchesPattern : String → String → Bool)

theorem step_queue (s : EventManager) (a : Action) : QueueStep s (s.step matchesPattern a) := by
  have h := step_to matchesPattern s a
  generalize s.step matchesPattern a = s' at h ⊢
  cases h with
  | push hpc hroom hx => exact Or.inr (Or.inl ⟨_, hroom, by rw [hx], rfl, rfl, rfl⟩)
  | dequeue hpc htop => exact Or.inr (Or.inr ⟨_, htop, rfl, rfl, rfl⟩)
  | unsubscribe id =>
    unfold unsubscribe
    split <;> exact Or.inl ⟨rfl, rfl, rfl⟩
  | takeBatch hpc ho =>
    unfold takeBatch
    split <;> exact Or.inl ⟨rfl, rfl, rfl⟩
  | resume hpc => exact Or.inl (sameQueue_resume s _ _)
  | _ => exact Or.inl ⟨rfl, rfl, rfl⟩

/-- The step that adds to the dequeued events took a top of the queue out. -/
theorem dequeued_of_step {a : Action} {x : Accepted}
    (h : (s.step matchesPattern a).dequeued = s.dequeued ++ [x]) : Dequeued s (s.step matchesPattern a) x := by
  rcases step_queue matchesPattern s a with ⟨-, -, hsame⟩ | ⟨z, hp⟩ | ⟨z, hz⟩
  · simp [hsame] at h
  · simp [hp.dequeued] at h
  · obtain rfl : z = x := by simpa [hz.dequeued] using h
    exact hz

theorem length_le_of_step {a : Action} (h : s.eventQueue.length < (s.step matchesPattern a).eventQueue.length) :
    (s.step matchesPattern a).eventQueue.length ≤ s.maxQueueSize := by
  rcases step_queue matchesPattern s a with ⟨hsame, -, -⟩ | ⟨z, hp⟩ | ⟨z, hz⟩
  · rw [hsame] at h
    omega
  · have hroom := hp.room
    rw [hp.queue, List.length_append, List.length_singleton]
    omega
  · have hle := List.length_erase_le (a := z) (l := s.eventQueue)
    rw [hz.queue] at h
    omega

/-! ## Conservation -/

/-- Every accepted event was dequeued or is in the queue; tickets are numbered in order. -/
structure Conserved (s : EventManager) : Prop where
  perm : s.accepted.Perm (s.dequeued ++ s.eventQueue)
  tickets : s.accepted.map (·.ticket) = List.range s.accepted.length

theorem conserved_step (h : Conserved s) (a : Action) : Conserved (s.step matchesPattern a) := by
  rcases step_queue matchesPattern s a with ⟨hq, ha, hd⟩ | ⟨x, hp⟩ | ⟨x, hx⟩
  · exact ⟨by rw [hq, ha, hd]; exact h.perm, by rw [ha]; exact h.tickets⟩
  · refine ⟨?_, ?_⟩
    · rw [hp.queue, hp.accepted, hp.dequeued, ← List.append_assoc]
      exact h.perm.append_right [x]
    · rw [hp.accepted, List.map_append, h.tickets, List.length_append, List.length_singleton, List.range_succ]
      simp [hp.ticket]
  · refine ⟨?_, by rw [hx.accepted]; exact h.tickets⟩
    rw [hx.queue, hx.accepted, hx.dequeued, List.append_assoc]
    exact h.perm.trans (List.Perm.append_left _ (List.perm_cons_erase hx.top.1))

theorem run_conserved (h : Conserved s) (actions : List Action) :
    Conserved (runFrom (step matchesPattern) s actions) :=
  runFrom_invariant (I := Conserved) (fun _ a hs => conserved_step matchesPattern hs a) h actions

theorem fresh_conserved : Conserved {} := ⟨.refl _, rfl⟩

/-- No event is both dequeued and in the queue. -/
theorem Conserved.disjoint (h : Conserved s) {x : Accepted} (hq : x ∈ s.eventQueue) : x ∉ s.dequeued := by
  have hnodup : (s.dequeued ++ s.eventQueue).Nodup := by
    rw [← h.perm.nodup_iff]
    apply List.Nodup.of_map (·.ticket)
    rw [h.tickets]
    exact List.nodup_range
  intro hd
  exact List.disjoint_of_nodup_append hnodup hd hq

/-! ## Order -/

/-- Where two events are, once both were in the queue and `x` comes first. -/
def Ordered (x y : Accepted) (s : EventManager) : Prop :=
  (x ∈ s.eventQueue ∧ y ∈ s.eventQueue) ∨ (x ∈ s.dequeued ∧ y ∈ s.eventQueue) ∨ [x, y].Sublist s.dequeued

theorem ordered_step (hxy : y.event.comparator x.event = true) (h : Ordered x y s)
    (a : Action) : Ordered x y (s.step matchesPattern a) := by
  rcases step_queue matchesPattern s a with ⟨hq, -, hd⟩ | ⟨z, hp⟩ | ⟨z, hz⟩
  · unfold Ordered
    rw [hq, hd]
    exact h
  · unfold Ordered
    rw [hp.queue, hp.dequeued]
    rcases h with ⟨hx, hy⟩ | ⟨hx, hy⟩ | hsub
    · exact Or.inl ⟨List.mem_append_left _ hx, List.mem_append_left _ hy⟩
    · exact Or.inr (Or.inl ⟨hx, List.mem_append_left _ hy⟩)
    · exact Or.inr (Or.inr hsub)
  · unfold Ordered
    rw [hz.queue, hz.dequeued]
    rcases h with ⟨hx, hy⟩ | ⟨hx, hy⟩ | hsub
    · -- `y` is not the one taken, since `x` is there and comes before it
      have hyz : y ≠ z := by
        intro e
        subst e
        have hmax := hz.top.2 x hx
        rw [hxy] at hmax
        cases hmax
      have hy' : y ∈ s.eventQueue.erase z := (List.mem_erase_of_ne hyz).mpr hy
      by_cases hxz : x = z
      · exact Or.inr (Or.inl ⟨by simp [hxz], hy'⟩)
      · exact Or.inl ⟨(List.mem_erase_of_ne hxz).mpr hx, hy'⟩
    · by_cases hyz : y = z
      · subst hyz
        have hsub : [x].Sublist s.dequeued := List.singleton_sublist.mpr hx
        exact Or.inr (Or.inr (hsub.append (List.Sublist.refl [y])))
      · exact Or.inr (Or.inl ⟨List.mem_append_left _ hx, (List.mem_erase_of_ne hyz).mpr hy⟩)
    · exact Or.inr (Or.inr (hsub.trans (List.sublist_append_left _ _)))

theorem run_ordered (hxy : y.event.comparator x.event = true) (hs : Conserved s)
    (hx : x ∈ s.eventQueue) (hy : y ∈ s.eventQueue) (actions : List Action)
    (hd : y ∈ (runFrom (step matchesPattern) s actions).dequeued) :
    [x, y].Sublist (runFrom (step matchesPattern) s actions).dequeued := by
  have hord : Ordered x y (runFrom (step matchesPattern) s actions) :=
    runFrom_invariant (I := Ordered x y) (fun _ a h => ordered_step matchesPattern hxy h a) (Or.inl ⟨hx, hy⟩) actions
  have hc := run_conserved matchesPattern hs actions
  rcases hord with ⟨-, hq⟩ | ⟨-, hq⟩ | hsub
  · exact absurd hd (hc.disjoint hq)
  · exact absurd hd (hc.disjoint hq)
  · exact hsub

/-- The comparator is a strict weak order, and after any steps of any threads: accepted
    events are the dequeued ones and the queue; a step that takes an event out takes one
    that no event of the queue comes before; a step that makes the queue longer keeps it
    within the limit; and of two events of one priority in the queue the one with the
    smaller id is dequeued first. -/
theorem event_queue_safety :
    IsStrictWeakOrder Event (fun a b => a.comparator b = true) ∧
    (∀ queue : List Accepted, queue ≠ [] → ∃ x, IsTop queue x) ∧
    ∀ actions : List Action, let s := runFrom (step matchesPattern) {} actions
      s.accepted.Perm (s.dequeued ++ s.eventQueue) ∧
      (∀ a x, (s.step matchesPattern a).dequeued = s.dequeued ++ [x] →
        (s.step matchesPattern a).eventQueue = s.eventQueue.erase x ∧ x ∈ s.eventQueue ∧
        ∀ y ∈ s.eventQueue, ¬ (x.event.priority.toInt < y.event.priority.toInt ∨
          x.event.priority = y.event.priority ∧ y.event.id < x.event.id)) ∧
      (∀ a, s.eventQueue.length < (s.step matchesPattern a).eventQueue.length →
        (s.step matchesPattern a).eventQueue.length ≤ s.maxQueueSize) ∧
      (∀ x ∈ s.eventQueue, ∀ y ∈ s.eventQueue, x.event.priority = y.event.priority → x.event.id < y.event.id →
        ∀ more, y ∈ (runFrom (step matchesPattern) s more).dequeued →
          [x, y].Sublist (runFrom (step matchesPattern) s more).dequeued) := by
  refine ⟨Event.comparator_strictWeakOrder, fun queue h => exists_isTop h, ?_⟩
  intro actions s
  have hs : Conserved s := run_conserved matchesPattern fresh_conserved actions
  refine ⟨hs.perm, ?_, ?_, ?_⟩
  · intro a x hd
    have hx := dequeued_of_step matchesPattern hd
    exact ⟨hx.queue, hx.top.1, fun y hy => hx.top.first hy⟩
  · intro a hlonger
    exact length_le_of_step matchesPattern hlonger
  · intro x hx y hy hprio hid more hd
    have hxy : y.event.comparator x.event = true := by
      rw [Event.comparator_iff]
      exact Or.inr ⟨by rw [hprio], UInt64.lt_iff_toNat_lt.mp hid⟩
    exact run_ordered matchesPattern hxy hs hx hy more hd

end EventManager

end DockerCpp
