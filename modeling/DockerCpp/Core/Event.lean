/-
  DockerCpp.Core.Event — the event manager (`event.cpp`) as a machine of threads.

  A step is one critical section, one call of a listener, or what a thread does between
  two of them. Client threads, any number of them, publish, subscribe, configure batches
  and flush; the processing thread takes events from the queue (`processEventQueue`,
  `processEvent`); the batch thread looks for batches that are due (`processBatchQueue`).
  Where a thread is, is its `Pc`; what it does when a call of `processBatch` returns, is
  an `After`.

  `batches_mutex_` is the only mutex held across a step: by the processing thread while
  it delivers an event that is not batched, and by a client in `disableBatching` and
  `flush`. These two call `processBatch`, which locks it again; here the owner passes.

  `std::priority_queue` gives some maximal element of its comparator, the clock any time,
  and an unordered map any order of iteration: they are arguments of the step.
  `matchesPattern` is a parameter. A listener does nothing to the manager itself; what it
  calls is a step of a client. Not modelled: the end of the manager's life
  (`should_stop_`), the message printed when an event is dropped, and what no function
  here reads (an event's timestamp and metadata, a subscription's priority).

  An accepted event carries the number of its acceptance, and the state a history; no
  function of the source reads them.

  `step_to` says once what a step can do; every invariant of the machine is a case
  analysis over it.
-/

import Mathlib.Data.String.Basic
import Mathlib.Logic.Function.Basic
import DockerCpp.Lib.Run

namespace DockerCpp

open Lib

inductive EventPriority where
  | low
  | normal
  | high
  | critical
  deriving DecidableEq, Repr

def EventPriority.toInt : EventPriority → Int
  | .low => 0
  | .normal => 1
  | .high => 2
  | .critical => 3

structure Event where
  type : String
  data : String
  id : UInt64
  priority : EventPriority := .normal
  deriving DecidableEq, Repr

/-- The comparator of the queue: `a` comes after `b`. -/
def Event.comparator (a b : Event) : Bool :=
  if a.priority ≠ b.priority then a.priority.toInt < b.priority.toInt
  else a.id > b.id

structure Accepted where
  ticket : Nat
  event : Event
  deriving DecidableEq, Repr

structure Subscription where
  id : Nat
  eventTypePattern : String
  active : Bool
  deriving DecidableEq, Repr

structure BatchConfig where
  interval : Int
  maxBatchSize : Nat
  enabled : Bool
  pendingEvents : List Accepted
  lastFlush : Int
  deriving DecidableEq, Repr

/-- The batch thread processes it in this round. -/
def BatchConfig.due (c : BatchConfig) (now : Int) : Bool :=
  c.enabled && !c.pendingEvents.isEmpty && (now - c.lastFlush ≥ c.interval || c.pendingEvents.length ≥ c.maxBatchSize)

/-- The batch after the first pass of a round. -/
def BatchConfig.pass (c : BatchConfig) (now : Int) : BatchConfig := if c.due now then { c with lastFlush := now } else c

structure EventStatistics where
  totalEventsPublished : Nat := 0
  totalEventsProcessed : Nat := 0
  activeSubscriptions : Nat := 0
  pendingEvents : Nat := 0
  deriving DecidableEq, Repr

/-- An event and the subscriptions there were when its listeners were looked up. -/
structure Delivery where
  event : Accepted
  registered : List Subscription
  deriving DecidableEq, Repr

inductive Thread where
  | processing
  | batch
  | client (n : Nat)
  deriving DecidableEq, Repr

/-- What follows a delivery. -/
inductive After where
  /-- The event was not batched: `processEvent` releases `batches_mutex_`. -/
  | direct
  /-- `processEventQueue` updates the statistics. -/
  | count
  /-- The second pass of `processBatchQueue`. -/
  | types (rest : List String)
  /-- The loop of `flush`. -/
  | flushing (rest : List String)
  /-- `disableBatching` erases the configuration. -/
  | erase (eventType : String)
  deriving DecidableEq, Repr

inductive Pc where
  | idle
  /-- `publish` has counted the attempt. -/
  | publish (e : Event)
  /-- `processEvent` was called. -/
  | dequeued (x : Accepted)
  | processBatch (eventType : String) (k : After)
  | deliver (xs : List Accepted) (k : After)
  /-- The listeners still to be called for one event, and the events after it. -/
  | notify (d : Delivery) (left : List Subscription) (xs : List Accepted) (k : After)
  | after (k : After)
  | flushWait
  | flushBatches
  deriving DecidableEq, Repr

structure EventManager where
  subscriptions : List Subscription := []
  eventQueue : List Accepted := []
  batchConfigs : Std.ExtTreeMap String BatchConfig := ∅
  nextSubscriptionId : Nat := 1
  stats : EventStatistics := {}
  maxQueueSize : Nat := 10000
  /-- `batch_processing_thread_` was started. -/
  batchThread : Bool := false
  batchesOwner : Option Thread := none
  pcs : Thread → Pc := fun _ => .idle
  accepted : List Accepted := []
  dequeued : List Accepted := []
  calls : List (Accepted × Nat) := []
  delivered : List Delivery := []

namespace EventManager

def goto (s : EventManager) (t : Thread) (pc : Pc) : EventManager := { s with pcs := Function.update s.pcs t pc }

def pending (s : EventManager) (eventType : String) : List Accepted :=
  (s.batchConfigs[eventType]?.map (·.pendingEvents)).getD []

/-! ## Subscriptions -/

def subscribe (s : EventManager) (eventTypePattern : String) : EventManager :=
  let subs := s.subscriptions ++ [⟨s.nextSubscriptionId, eventTypePattern, true⟩]
  { s with subscriptions := subs, nextSubscriptionId := s.nextSubscriptionId + 1,
           stats := { s.stats with activeSubscriptions := subs.length } }

def unsubscribe (s : EventManager) (subscriptionId : Nat) : EventManager :=
  if s.subscriptions.any (·.id == subscriptionId) then
    let subs := s.subscriptions.eraseP (·.id == subscriptionId)
    { s with subscriptions := subs, stats := { s.stats with activeSubscriptions := subs.length } }
  else s

/-! ## The queue -/

/-- `publish`, up to the section of the queue. -/
def publish (s : EventManager) (n : Nat) (e : Event) : Option EventManager :=
  if s.pcs (.client n) = .idle then
    some ({ s with stats := { s.stats with totalEventsPublished := s.stats.totalEventsPublished + 1 } }.goto (.client n)
      (.publish e))
  else none

/-- `publish`, the section of the queue. -/
def push (s : EventManager) (n : Nat) : Option EventManager :=
  match s.pcs (.client n) with
  | .publish e =>
    if s.eventQueue.length ≥ s.maxQueueSize then some (s.goto (.client n) .idle)
    else
      let x : Accepted := ⟨s.accepted.length, e⟩
      let queue := s.eventQueue ++ [x]
      some ({ s with eventQueue := queue, accepted := s.accepted ++ [x],
                     stats := { s.stats with pendingEvents := queue.length } }.goto (.client n) .idle)
  | _ => none

/-- What `event_queue_.top()` may be: nothing in the queue comes before it. -/
def IsTop (queue : List Accepted) (x : Accepted) : Prop := x ∈ queue ∧ ∀ y ∈ queue, x.event.comparator y.event = false

instance (queue : List Accepted) (x : Accepted) : Decidable (IsTop queue x) :=
  inferInstanceAs (Decidable (x ∈ queue ∧ ∀ y ∈ queue, x.event.comparator y.event = false))

/-- `processEventQueue` takes `x`. -/
def dequeue (s : EventManager) (x : Accepted) : Option EventManager :=
  if s.pcs .processing = .idle ∧ IsTop s.eventQueue x then
    some ({ s with eventQueue := s.eventQueue.erase x, dequeued := s.dequeued ++ [x] }.goto .processing (.dequeued x))
  else none

/-! ## Delivery -/

/-- `processEvent`, its section of `batches_mutex_`. -/
def processEvent (s : EventManager) (now : Int) : Option EventManager :=
  match s.pcs .processing with
  | .dequeued x =>
    if s.batchesOwner ≠ none then none
    else
      let direct := some ({ s with batchesOwner := some .processing }.goto .processing (.deliver [x] .direct))
      match s.batchConfigs[x.event.type]? with
      | some c =>
        if c.enabled then
          let c := { c with pendingEvents := c.pendingEvents ++ [x] }
          if c.pendingEvents.length ≥ c.maxBatchSize ∨ now - c.lastFlush ≥ c.interval then
            some ({ s with batchConfigs := s.batchConfigs.insert x.event.type { c with lastFlush := now } }.goto
              .processing (.processBatch x.event.type .count))
          else
            some ({ s with batchConfigs := s.batchConfigs.insert x.event.type c }.goto .processing (.after .count))
        else direct
      | none => direct
  | _ => none

/-- `processBatch`, its section of `batches_mutex_`. -/
def takeBatch (s : EventManager) (t : Thread) (eventType : String) (k : After) : EventManager :=
  match s.batchConfigs[eventType]? with
  | some c =>
    { s with batchConfigs := s.batchConfigs.insert eventType { c with pendingEvents := [] } }.goto t
      (.deliver c.pendingEvents k)
  | none => s.goto t (.deliver [] k)

/-- Where a thread goes on after a delivery. -/
def resume (s : EventManager) (t : Thread) : After → EventManager
  | .direct => { s with batchesOwner := none }.goto t (.after .count)
  | .count =>
    { s with stats := { s.stats with totalEventsProcessed := s.stats.totalEventsProcessed + 1,
                                     pendingEvents := s.eventQueue.length } }.goto t .idle
  | .types [] => s.goto t .idle
  | .types (ty :: rest) => s.goto t (.processBatch ty (.types rest))
  | .flushing [] => { s with batchesOwner := none }.goto t .idle
  | .flushing (ty :: rest) =>
    if s.pending ty = [] then s.goto t (.after (.flushing rest)) else s.goto t (.processBatch ty (.flushing rest))
  | .erase ty => { s with batchConfigs := s.batchConfigs.erase ty, batchesOwner := none }.goto t .idle

section

variable (matchesPattern : String → String → Bool)

/-- `active_subscriptions`. -/
def matched (d : Delivery) : List Subscription :=
  d.registered.filter fun sub => sub.active && matchesPattern d.event.event.type sub.eventTypePattern

/-- The next step of a thread in a delivery. -/
def work (s : EventManager) (t : Thread) : Option EventManager :=
  match s.pcs t with
  | .processBatch ty k => if s.batchesOwner.all (· == t) then some (s.takeBatch t ty k) else none
  | .deliver [] k => some (s.goto t (.after k))
  | .deliver (x :: xs) k =>
    let d : Delivery := ⟨x, s.subscriptions⟩
    some (s.goto t (.notify d (matched matchesPattern d) xs k))
  | .notify d (sub :: left) xs k => some ({ s with calls := s.calls ++ [(d.event, sub.id)] }.goto t (.notify d left xs k))
  | .notify d [] xs k => some ({ s with delivered := s.delivered ++ [d] }.goto t (.deliver xs k))
  | .after k => some (s.resume t k)
  | _ => none

end

/-! ## Batches -/

/-- The clock is read, and the configuration replaced, in one section. -/
def enableBatching (s : EventManager) (eventType : String) (batchInterval : Int) (maxBatchSize : Nat) (now : Int) :
    Option EventManager :=
  if s.batchesOwner = none then
    some { s with batchConfigs := s.batchConfigs.insert eventType ⟨batchInterval, maxBatchSize, true, [], now⟩,
                  batchThread := true }
  else none

def disableBatching (s : EventManager) (n : Nat) (eventType : String) : Option EventManager :=
  if s.pcs (.client n) = .idle ∧ s.batchesOwner = none then
    match s.batchConfigs[eventType]? with
    | some c =>
      if c.pendingEvents = [] then some { s with batchConfigs := s.batchConfigs.erase eventType }
      else
        some ({ s with batchesOwner := some (.client n) }.goto (.client n) (.processBatch eventType (.erase eventType)))
    | none => some s
  else none

/-- The first pass of `processBatchQueue`. -/
def processBatchQueue (s : EventManager) (now : Int) (order : List String) : Option EventManager :=
  if s.pcs .batch = .idle ∧ s.batchThread = true ∧ s.batchesOwner = none ∧ order.Perm s.batchConfigs.keys then
    let isDue := fun ty => s.batchConfigs[ty]?.any (BatchConfig.due · now)
    some ({ s with batchConfigs := s.batchConfigs.map fun _ c => BatchConfig.pass c now }.goto .batch
      (.after (.types (order.filter isDue))))
  else none

/-- `flush`, up to its wait. -/
def flush (s : EventManager) (n : Nat) : Option EventManager :=
  if s.pcs (.client n) = .idle then
    some (s.goto (.client n) (if s.eventQueue = [] then .flushBatches else .flushWait))
  else none

/-- The wait of `flush` ends: the queue is empty, or the time is over. -/
def flushWake (s : EventManager) (n : Nat) (timedOut : Bool) : Option EventManager :=
  if s.pcs (.client n) = .flushWait ∧ (s.eventQueue = [] ∨ timedOut = true) then
    some (s.goto (.client n) .flushBatches)
  else none

/-- `flush` locks `batches_mutex_`. -/
def flushLock (s : EventManager) (n : Nat) (order : List String) : Option EventManager :=
  if s.pcs (.client n) = .flushBatches ∧ s.batchesOwner = none ∧ order.Perm s.batchConfigs.keys then
    some ({ s with batchesOwner := some (.client n) }.goto (.client n) (.after (.flushing order)))
  else none

/-! ## Steps -/

inductive Action where
  | subscribe (eventTypePattern : String)
  | unsubscribe (subscriptionId : Nat)
  | publish (n : Nat) (e : Event)
  | push (n : Nat)
  | setMaxQueueSize (maxSize : Nat)
  | dequeue (x : Accepted)
  | processEvent (now : Int)
  | work (t : Thread)
  | enableBatching (eventType : String) (batchInterval : Int) (maxBatchSize : Nat) (now : Int)
  | disableBatching (n : Nat) (eventType : String)
  | processBatchQueue (now : Int) (order : List String)
  | flush (n : Nat)
  | flushWake (n : Nat) (timedOut : Bool)
  | flushLock (n : Nat) (order : List String)

variable (matchesPattern : String → String → Bool)

/-- `none` when the thread is not there, or waits for `batches_mutex_`. -/
def act (s : EventManager) : Action → Option EventManager
  | .subscribe pattern => some (s.subscribe pattern)
  | .unsubscribe id => some (s.unsubscribe id)
  | .publish n e => s.publish n e
  | .push n => s.push n
  | .setMaxQueueSize maxSize => some { s with maxQueueSize := maxSize }
  | .dequeue x => s.dequeue x
  | .processEvent now => s.processEvent now
  | .work t => s.work matchesPattern t
  | .enableBatching ty interval size now => s.enableBatching ty interval size now
  | .disableBatching n ty => s.disableBatching n ty
  | .processBatchQueue now order => s.processBatchQueue now order
  | .flush n => s.flush n
  | .flushWake n timedOut => s.flushWake n timedOut
  | .flushLock n order => s.flushLock n order

/-- An action that cannot be taken is skipped. -/
def step (s : EventManager) (a : Action) : EventManager := (s.act matchesPattern a).getD s

/-! ## What a step does -/

/-- The states an action can lead to, one constructor for each way through it. -/
inductive StepTo (s : EventManager) : Action → EventManager → Prop
  | stay (a : Action) : StepTo s a s
  | subscribe (pattern : String) : StepTo s (.subscribe pattern) (s.subscribe pattern)
  | unsubscribe (id : Nat) : StepTo s (.unsubscribe id) (s.unsubscribe id)
  | setMaxQueueSize (maxSize : Nat) : StepTo s (.setMaxQueueSize maxSize) { s with maxQueueSize := maxSize }
  | publish {n : Nat} (e : Event) : s.pcs (.client n) = .idle →
      StepTo s (.publish n e) ({ s with stats := { s.stats with
        totalEventsPublished := s.stats.totalEventsPublished + 1 } }.goto (.client n) (.publish e))
  | drop {n : Nat} {e : Event} : s.pcs (.client n) = .publish e → s.maxQueueSize ≤ s.eventQueue.length →
      StepTo s (.push n) (s.goto (.client n) .idle)
  | push {n : Nat} {e : Event} {x : Accepted} : s.pcs (.client n) = .publish e →
      s.eventQueue.length < s.maxQueueSize → x = ⟨s.accepted.length, e⟩ →
      StepTo s (.push n)
        ({ s with eventQueue := s.eventQueue ++ [x], accepted := s.accepted ++ [x],
                  stats := { s.stats with pendingEvents := (s.eventQueue ++ [x]).length } }.goto (.client n) .idle)
  | dequeue {x : Accepted} : s.pcs .processing = .idle → IsTop s.eventQueue x →
      StepTo s (.dequeue x) ({ s with eventQueue := s.eventQueue.erase x, dequeued := s.dequeued ++ [x] }.goto .processing
        (.dequeued x))
  | direct {now : Int} {x : Accepted} : s.pcs .processing = .dequeued x → s.batchesOwner = none →
      (∀ c, s.batchConfigs[x.event.type]? = some c → c.enabled = false) →
      StepTo s (.processEvent now) ({ s with batchesOwner := some .processing }.goto .processing (.deliver [x] .direct))
  /-- The event goes into its batch, which is then due or not. -/
  | batched {now : Int} {x : Accepted} {c c' : BatchConfig} {pc : Pc} : s.pcs .processing = .dequeued x →
      s.batchesOwner = none → s.batchConfigs[x.event.type]? = some c → c'.pendingEvents = c.pendingEvents ++ [x] →
      (pc = .processBatch x.event.type .count ∨ pc = .after .count) →
      StepTo s (.processEvent now) ({ s with batchConfigs := s.batchConfigs.insert x.event.type c' }.goto .processing pc)
  | takeBatch {t : Thread} {ty : String} {k : After} : s.pcs t = .processBatch ty k →
      s.batchesOwner.all (· == t) = true → StepTo s (.work t) (s.takeBatch t ty k)
  | endDelivery {t : Thread} {k : After} : s.pcs t = .deliver [] k → StepTo s (.work t) (s.goto t (.after k))
  | snapshot {t : Thread} {x : Accepted} {xs : List Accepted} {k : After} : s.pcs t = .deliver (x :: xs) k →
      StepTo s (.work t)
        (s.goto t (.notify ⟨x, s.subscriptions⟩ (matched matchesPattern ⟨x, s.subscriptions⟩) xs k))
  | call {t : Thread} {d : Delivery} {sub : Subscription} {left : List Subscription} {xs : List Accepted} {k : After} :
      s.pcs t = .notify d (sub :: left) xs k →
      StepTo s (.work t) ({ s with calls := s.calls ++ [(d.event, sub.id)] }.goto t (.notify d left xs k))
  | finish {t : Thread} {d : Delivery} {xs : List Accepted} {k : After} : s.pcs t = .notify d [] xs k →
      StepTo s (.work t) ({ s with delivered := s.delivered ++ [d] }.goto t (.deliver xs k))
  | resume {t : Thread} {k : After} : s.pcs t = .after k → StepTo s (.work t) (s.resume t k)
  | enableBatching (ty : String) (interval : Int) (size : Nat) (now : Int) : s.batchesOwner = none →
      StepTo s (.enableBatching ty interval size now)
        { s with batchConfigs := s.batchConfigs.insert ty ⟨interval, size, true, [], now⟩, batchThread := true }
  | eraseBatch {n : Nat} {ty : String} : s.batchesOwner = none → s.pending ty = [] →
      StepTo s (.disableBatching n ty) { s with batchConfigs := s.batchConfigs.erase ty }
  | closeBatch {n : Nat} (ty : String) : s.pcs (.client n) = .idle → s.batchesOwner = none →
      StepTo s (.disableBatching n ty) ({ s with batchesOwner := some (.client n) }.goto (.client n)
        (.processBatch ty (.erase ty)))
  | scan {now : Int} {order : List String} (types : List String) : s.pcs .batch = .idle → s.batchesOwner = none →
      StepTo s (.processBatchQueue now order)
        ({ s with batchConfigs := s.batchConfigs.map fun _ c => BatchConfig.pass c now }.goto .batch (.after (.types types)))
  | flush {a : Action} {n : Nat} {pc : Pc} : s.pcs (.client n) = .idle ∨ s.pcs (.client n) = .flushWait →
      (pc = .flushWait ∨ pc = .flushBatches) → StepTo s a (s.goto (.client n) pc)
  | flushLock {n : Nat} (order : List String) : s.pcs (.client n) = .flushBatches → s.batchesOwner = none →
      StepTo s (.flushLock n order) ({ s with batchesOwner := some (.client n) }.goto (.client n)
        (.after (.flushing order)))

variable {matchesPattern} {s s' : EventManager}

theorem push_to {n : Nat} (h : s.push n = some s') : StepTo matchesPattern s (.push n) s' := by
  unfold push at h
  split at h
  · rename_i e hpc
    split at h
    · rename_i hfull
      cases h
      exact .drop hpc hfull
    · rename_i hroom
      cases h
      exact .push hpc (Nat.lt_of_not_le hroom) rfl
  · cases h

theorem processEvent_to {now : Int} (h : s.processEvent now = some s') :
    StepTo matchesPattern s (.processEvent now) s' := by
  unfold processEvent at h
  split at h
  · rename_i x hpc
    split at h
    · cases h
    · rename_i ho
      have hfree : s.batchesOwner = none := by simpa using ho
      simp only at h
      split at h
      · rename_i c hc
        split at h
        · split at h
          · cases h
            exact .batched hpc hfree hc rfl (Or.inl rfl)
          · cases h
            exact .batched hpc hfree hc rfl (Or.inr rfl)
        · rename_i hoff
          cases h
          refine .direct hpc hfree ?_
          intro c' hc'
          rw [hc, Option.some.injEq] at hc'
          rw [← hc']
          exact Bool.eq_false_iff.mpr hoff
      · rename_i hnone
        cases h
        refine .direct hpc hfree ?_
        intro c' hc'
        rw [hnone] at hc'
        cases hc'
  · cases h

theorem work_to {t : Thread} (h : s.work matchesPattern t = some s') : StepTo matchesPattern s (.work t) s' := by
  unfold work at h
  split at h
  · rename_i ty k hpc
    split at h
    · rename_i ho
      cases h
      exact .takeBatch hpc ho
    · cases h
  · rename_i hpc
    cases h
    exact .endDelivery hpc
  · rename_i hpc
    cases h
    exact .snapshot hpc
  · rename_i hpc
    cases h
    exact .call hpc
  · rename_i hpc
    cases h
    exact .finish hpc
  · rename_i hpc
    cases h
    exact .resume hpc
  · cases h

theorem disableBatching_to {n : Nat} {ty : String} (h : s.disableBatching n ty = some s') :
    StepTo matchesPattern s (.disableBatching n ty) s' := by
  unfold disableBatching at h
  split at h
  · rename_i hidle
    split at h
    · rename_i c hc
      split at h
      · rename_i hempty
        cases h
        exact .eraseBatch hidle.2 (by simp [pending, hc, hempty])
      · cases h
        exact .closeBatch ty hidle.1 hidle.2
    · cases h
      exact .stay _
  · cases h

theorem act_to {a : Action} (h : s.act matchesPattern a = some s') : StepTo matchesPattern s a s' := by
  cases a with
  | subscribe pattern => cases h; exact .subscribe pattern
  | unsubscribe id => cases h; exact .unsubscribe id
  | publish n e =>
    simp only [act, publish] at h
    split at h
    · rename_i hpc
      cases h
      exact .publish e hpc
    · cases h
  | push n => exact push_to h
  | setMaxQueueSize maxSize => cases h; exact .setMaxQueueSize maxSize
  | dequeue x =>
    simp only [act, dequeue] at h
    split at h
    · rename_i hx
      cases h
      exact .dequeue hx.1 hx.2
    · cases h
  | processEvent now => exact processEvent_to h
  | work t => exact work_to h
  | enableBatching ty interval size now =>
    simp only [act, enableBatching] at h
    split at h
    · rename_i hfree
      cases h
      exact .enableBatching ty interval size now hfree
    · cases h
  | disableBatching n ty => exact disableBatching_to h
  | processBatchQueue now order =>
    simp only [act, processBatchQueue] at h
    split at h
    · rename_i hidle
      cases h
      exact .scan _ hidle.1 hidle.2.2.1
    · cases h
  | flush n =>
    simp only [act, flush] at h
    split at h
    · rename_i hidle
      cases h
      refine .flush (Or.inl hidle) ?_
      split
      · exact Or.inr rfl
      · exact Or.inl rfl
    · cases h
  | flushWake n timedOut =>
    simp only [act, flushWake] at h
    split at h
    · rename_i hwait
      cases h
      exact .flush (Or.inr hwait.1) (Or.inr rfl)
    · cases h
  | flushLock n order =>
    simp only [act, flushLock] at h
    split at h
    · rename_i hwait
      cases h
      exact .flushLock order hwait.1 hwait.2.1
    · cases h

variable (matchesPattern)

theorem step_to (s : EventManager) (a : Action) : StepTo matchesPattern s a (s.step matchesPattern a) := by
  unfold step
  cases h : s.act matchesPattern a with
  | none => exact .stay a
  | some s' => exact act_to h

end EventManager

end DockerCpp
