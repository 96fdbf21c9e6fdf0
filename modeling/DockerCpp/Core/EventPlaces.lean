/-
  DockerCpp.Core.EventPlaces — where an accepted event is: in the queue, held by the
  thread that dequeued it, pending in a batch, in the list that a call of `processBatch`
  took out, or delivered (`Place`).

  One lemma for each step that moves events: from a place to another one, or a new one
  into the queue. `Still` is what the other steps do. The lemmas are about any view of the
  events (`placing`): their tickets, or the events themselves.
-/

import DockerCpp.Lib.Places
import DockerCpp.Core.EventOwner

namespace DockerCpp

open Lib

namespace Pc

/-- The event the thread dequeued and delivers by itself. -/
def held : Pc → List Accepted
  | .dequeued x => [x]
  | .deliver xs k => if k = .direct then xs else []
  | .notify d _ xs k => if k = .direct then d.event :: xs else []
  | _ => []

/-- What is left of the list that a call of `processBatch` took out. -/
def taken : Pc → List Accepted
  | .deliver xs k => if k = .direct then [] else xs
  | .notify d _ xs k => if k = .direct then [] else d.event :: xs
  | _ => []

/-- The events of a delivery that are not delivered yet. -/
def load : Pc → List Accepted
  | .deliver xs _ => xs
  | .notify d _ xs _ => d.event :: xs
  | _ => []

theorem held_of_next {pc : Pc} {k : After} (h : pc.next = some k) : pc.held = if k = .direct then pc.load else [] := by
  cases pc with
  | processBatch ty k' => simp [held, load]
  | deliver xs k' => rw [held, load, Option.some.inj h]
  | notify d left xs k' => rw [held, load, Option.some.inj h]
  | after k' => simp [held, load]
  | _ => cases h

theorem taken_of_next {pc : Pc} {k : After} (h : pc.next = some k) : pc.taken = if k = .direct then [] else pc.load := by
  cases pc with
  | processBatch ty k' => simp [taken, load]
  | deliver xs k' => rw [taken, load, Option.some.inj h]
  | notify d left xs k' => rw [taken, load, Option.some.inj h]
  | after k' => simp [taken, load]
  | _ => cases h

end Pc

inductive Place where
  | queue
  | held (t : Thread)
  | pending (eventType : String)
  | taken (t : Thread)
  | delivered
  deriving DecidableEq, Repr

/-- Where the events of a delivery are, by what follows it. -/
def After.place (k : After) (t : Thread) : Place := if k = .direct then .held t else .taken t

namespace EventManager

def contents (s : EventManager) : Place → List Nat
  | .queue => s.eventQueue.map (·.ticket)
  | .held t => (s.pcs t).held.map (·.ticket)
  | .pending ty => (s.pending ty).map (·.ticket)
  | .taken t => (s.pcs t).taken.map (·.ticket)
  | .delivered => s.delivered.map (·.event.ticket)

/-- The events in a place. -/
def things (s : EventManager) : Place → List Accepted
  | .queue => s.eventQueue
  | .held t => (s.pcs t).held
  | .pending ty => s.pending ty
  | .taken t => (s.pcs t).taken
  | .delivered => s.delivered.map (·.event)

def placing {T : Type} (f : Accepted → T) (s : EventManager) (p : Place) : List T := (s.things p).map f

theorem contents_eq (s : EventManager) : s.contents = s.placing (·.ticket) := by
  funext p
  cases p with
  | delivered => simp [contents, placing, things]
  | _ => rfl

/-- Every accepted event is in exactly one place, and there once. -/
def AllPlaced (s : EventManager) : Prop := Placed (· < s.accepted.length) s.contents

/-! ## Where events go -/

section

variable {T : Type} {f : Accepted → T} {live live' : T → Prop} {s s' : EventManager} {t : Thread} {x : Accepted}
  {k : After}

/-- A fact about what every thread does, when one moves on without changing it. -/
theorem forall_goto {β : Type} (f : Pc → β) {pc : Pc} (h : f pc = f (s.pcs t)) (u : Thread) :
    f ((s.goto t pc).pcs u) = f (s.pcs u) := by
  by_cases hu : u = t
  · subst hu
    rw [goto_self, h]
  · rw [goto_other s hu]

/-- No event changes its place. -/
structure Still (s s' : EventManager) : Prop where
  accepted : s'.accepted = s.accepted
  queue : s'.eventQueue = s.eventQueue
  pending : ∀ ty, s'.pending ty = s.pending ty
  delivered : s'.delivered = s.delivered
  held : ∀ t, (s'.pcs t).held = (s.pcs t).held
  taken : ∀ t, (s'.pcs t).taken = (s.pcs t).taken

theorem Still.placed (h : Still s s') (hp : Placed live (s.placing f)) : Placed live (s'.placing f) := by
  have hthings : s'.things = s.things := by
    funext p
    cases p with
    | queue => simp only [things, h.queue]
    | held t => simp only [things, h.held]
    | pending ty => simp only [things, h.pending]
    | taken t => simp only [things, h.taken]
    | delivered => simp only [things, h.delivered]
  have hplacing : s'.placing f = s.placing f := by
    funext p
    rw [placing, placing, hthings]
  rw [hplacing]
  exact hp

theorem Still.goto {s s₁ : EventManager} {pc : Pc} (h : Still s s₁) (hh : pc.held = (s₁.pcs t).held)
    (ht : pc.taken = (s₁.pcs t).taken) : Still s (s₁.goto t pc) where
  accepted := h.accepted
  queue := h.queue
  pending := h.pending
  delivered := h.delivered
  held u := (forall_goto Pc.held hh u).trans (h.held u)
  taken u := (forall_goto Pc.taken ht u).trans (h.taken u)

theorem Still.refl (s : EventManager) : Still s s := ⟨rfl, rfl, fun _ => rfl, rfl, fun _ => rfl, fun _ => rfl⟩

theorem push_placed (h : Placed live (s.placing f)) {n : Nat} {e : Event}
    (hnew : ¬live (f x)) (hlive : ∀ u, live' u ↔ live u ∨ u = f x) (hpc : s.pcs (.client n) = .publish e)
    (stats : EventStatistics) :
    Placed live' (({ s with eventQueue := s.eventQueue ++ [x], accepted := s.accepted ++ [x], stats := stats }.goto
      (.client n) .idle).placing f) := by
  refine Placed.add h .queue (f x) hnew hlive ?_ ?_
  · show ((s.eventQueue ++ _).map _).Perm _
    rw [List.map_append]
    exact .refl _
  · intro r hr
    cases r with
    | queue => exact absurd rfl hr
    | held t => exact congrArg (List.map _) (forall_goto Pc.held (by rw [hpc]; rfl) t)
    | pending ty => rfl
    | taken t => exact congrArg (List.map _) (forall_goto Pc.taken (by rw [hpc]; rfl) t)
    | delivered => rfl

theorem dequeue_placed (h : Placed live (s.placing f)) (hpc : s.pcs .processing = .idle) (hx : x ∈ s.eventQueue) :
    Placed live (({ s with eventQueue := s.eventQueue.erase x, dequeued := s.dequeued ++ [x] }.goto .processing
      (.dequeued x)).placing f) := by
  refine Placed.move h .queue (.held .processing) [f x] (by simp) ?_ ?_ ?_
  · exact (List.perm_cons_erase hx).map _
  · simp only [placing, things, goto_self, hpc, Pc.held]
    exact .refl _
  · intro r hr hr'
    cases r with
    | queue => exact absurd rfl hr
    | held t =>
      have ht : t ≠ .processing := fun e => hr' (by rw [e])
      simp only [placing, things]
      rw [goto_other _ ht]
    | pending ty => rfl
    | taken t => exact congrArg (List.map _) (forall_goto Pc.taken (by rw [hpc]; rfl) t)
    | delivered => rfl

/-- `processEvent` adds the event to its batch. -/
theorem batched_placed (h : Placed live (s.placing f)) {c c' : BatchConfig} {pc : Pc}
    (hpc : s.pcs .processing = .dequeued x) (hc : s.batchConfigs[x.event.type]? = some c)
    (hc' : c'.pendingEvents = c.pendingEvents ++ [x]) (hh : pc.held = []) (ht : pc.taken = []) :
    Placed live (({ s with batchConfigs := s.batchConfigs.insert x.event.type c' }.goto .processing pc).placing f) := by
  have hpend : ∀ ty, ({ s with batchConfigs := s.batchConfigs.insert x.event.type c' }.goto .processing pc).pending ty =
      if x.event.type = ty then c'.pendingEvents else s.pending ty := pending_insert rfl
  refine Placed.move h (.held .processing) (.pending x.event.type) [f x] (by simp) ?_ ?_ ?_
  · simp only [placing, things, goto_self, hpc, hh]
    exact .refl _
  · simp only [placing, things]
    rw [hpend, if_pos rfl, hc', pending_of_some hc, List.map_append]
    exact .refl _
  · intro r hr hr'
    cases r with
    | queue => rfl
    | held t =>
      have ht : t ≠ .processing := fun e => hr (by rw [e])
      simp only [placing, things]
      rw [goto_other _ ht]
    | pending ty =>
      have hty : ¬ x.event.type = ty := fun e => hr' (by rw [e])
      simp only [placing, things]
      rw [hpend, if_neg hty]
    | taken t => exact congrArg (List.map _) (forall_goto Pc.taken (by rw [hpc, ht]; rfl) t)
    | delivered => rfl

theorem placing_place (h : (s.pcs t).next = some k) : s.placing f (k.place t) = (s.pcs t).load.map f := by
  by_cases hk : k = .direct
  · simp only [After.place, if_pos hk, placing, things, Pc.held_of_next h]
  · simp only [After.place, if_neg hk, placing, things, Pc.taken_of_next h]

/-- A thread goes on with its delivery: only its own place changes. -/
theorem placing_threads (hpcs : ∀ u, u ≠ t → s'.pcs u = s.pcs u)
    (h : (s.pcs t).next = some k) (h' : (s'.pcs t).next = some k) (u : Thread) :
    (.held u ≠ k.place t → s'.placing f (.held u) = s.placing f (.held u)) ∧
    (.taken u ≠ k.place t → s'.placing f (.taken u) = s.placing f (.taken u)) := by
  by_cases hu : u = t
  · subst hu
    simp only [placing, things, Pc.held_of_next h, Pc.held_of_next h', Pc.taken_of_next h, Pc.taken_of_next h', After.place]
    by_cases hk : k = .direct
    · simp [hk]
    · simp [hk]
  · refine ⟨fun _ => ?_, fun _ => ?_⟩
    · simp only [placing, things, hpcs u hu]
    · simp only [placing, things, hpcs u hu]

theorem takeBatch_placed (h : Placed live (s.placing f)) {ty : String}
    (hpc : s.pcs t = .processBatch ty k) : Placed live ((s.takeBatch t ty k).placing f) := by
  obtain ⟨hqueue, -, -, hdel, -⟩ := takeBatch_fields s t ty k
  have hself := takeBatch_self s t ty k
  have hnext : (s.pcs t).next = some k := by rw [hpc]; rfl
  have hnext' : ((s.takeBatch t ty k).pcs t).next = some k := by rw [hself]; rfl
  have hthreads := placing_threads (f := f) (fun u hu => takeBatch_other s hu ty k) hnext hnext'
  refine Placed.move h (.pending ty) (k.place t) ((s.pending ty).map f) ?_ ?_ ?_ ?_
  · unfold After.place
    split <;> simp
  · simp only [placing, things]
    rw [takeBatch_pending, if_pos rfl]
    simp
  · rw [placing_place hnext, placing_place hnext', hself, hpc]
    exact .refl _
  · intro r hr hr'
    cases r with
    | queue => simp only [placing, things, hqueue]
    | held u => exact (hthreads u).1 hr'
    | pending ty' =>
      have hty : ¬ ty = ty' := fun e => hr (by rw [e])
      simp only [placing, things]
      rw [takeBatch_pending, if_neg hty]
    | taken u => exact (hthreads u).2 hr'
    | delivered => simp only [placing, things, hdel]

/-- The last listener of an event was called. -/
theorem finish_placed (h : Placed live (s.placing f)) {d : Delivery}
    {left : List Subscription} {xs : List Accepted} (hpc : s.pcs t = .notify d left xs k) :
    Placed live (({ s with delivered := s.delivered ++ [d] }.goto t (.deliver xs k)).placing f) := by
  have hself := goto_self { s with delivered := s.delivered ++ [d] } t (.deliver xs k)
  have hnext : (s.pcs t).next = some k := by rw [hpc]; rfl
  have hnext' : (({ s with delivered := s.delivered ++ [d] }.goto t (.deliver xs k)).pcs t).next = some k := by
    rw [hself]; rfl
  have hthreads := placing_threads (f := f) (fun u hu => goto_other { s with delivered := s.delivered ++ [d] } hu _) hnext hnext'
  refine Placed.move h (k.place t) .delivered [f d.event] ?_ ?_ ?_ ?_
  · unfold After.place
    split <;> simp
  · rw [placing_place hnext, placing_place hnext', hself, hpc]
    exact .refl _
  · show (((s.delivered ++ [d]).map _).map _).Perm _
    rw [List.map_append, List.map_append]
    exact .refl _
  · intro r hr hr'
    cases r with
    | queue => rfl
    | held u => exact (hthreads u).1 hr
    | pending ty => rfl
    | taken u => exact (hthreads u).2 hr
    | delivered => exact absurd rfl hr'

end

end EventManager

end DockerCpp
