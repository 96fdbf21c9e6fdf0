/-
  DockerCpp.Core.EventLocks — the event manager lock by lock.

  `DockerCpp.Core.Event` takes a critical section for one step. Here each function of
  `event.cpp` is the sequence of its locks, unlocks and the reads and writes between them,
  for the four mutexes of the manager, and a thread that locks what it owns stays there.
  The state of the manager is the same record; who is where and who owns what is in
  `Lib.Threads`, so its `pcs` and `batchesOwner` stand still.

  The mutexes are ordered: `batches_mutex_` before `subscriptions_mutex_` and these, like
  `event_queue_mutex_`, before `stats_mutex_`. Every function keeps to that, but
  `disableBatching` and `flush` call `processBatch`, which locks `batches_mutex_`, while
  they hold it, for each batch that has events. That is the only way a thread locks what
  it owns (`no_self_deadlock_iff`); where it does not happen every thread can finish.

  As before the clock, the order of iteration and the choice among equal events are
  arguments, and listeners do nothing. `wait_for` may wake up any number of times.
-/

import DockerCpp.Core.EventOwner
import DockerCpp.Lib.Locks

namespace DockerCpp

open Lib

namespace EventLocks

inductive Mutex where
  | subscriptions
  | eventQueue
  | stats
  | batches
  deriving DecidableEq, Repr

inductive Label where
  /-- `disableBatching` or `flush` looks at the pending events of a batch. -/
  | closes (eventType : String)
  | other

abbrev EventCode := Code Mutex Label EventManager

def change (f : EventManager → EventManager) (next : EventCode) : EventCode := .act .other f fun _ => next

def look (next : EventManager → EventCode) : EventCode := .act .other id next

/-! ## The functions, each followed by `next` -/

def updateActiveSubscriptions (next : EventCode) : EventCode :=
  .lock .stats <|
  change (fun s => { s with stats := { s.stats with activeSubscriptions := s.subscriptions.length } }) <|
  .unlock .stats next

def subscribe (eventTypePattern : String) (next : EventCode) : EventCode :=
  .lock .subscriptions <|
  change (fun s => { s with
    subscriptions := s.subscriptions ++ [⟨s.nextSubscriptionId, eventTypePattern, true⟩],
    nextSubscriptionId := s.nextSubscriptionId + 1 }) <|
  updateActiveSubscriptions <|
  .unlock .subscriptions next

def unsubscribe (subscriptionId : Nat) (next : EventCode) : EventCode :=
  .lock .subscriptions <|
  look fun s =>
    if s.subscriptions.any (·.id == subscriptionId) then
      change (fun s => { s with subscriptions := s.subscriptions.eraseP (·.id == subscriptionId) }) <|
      updateActiveSubscriptions <|
      .unlock .subscriptions next
    else .unlock .subscriptions next

def publish (e : Event) (next : EventCode) : EventCode :=
  .lock .stats <|
  change (fun s => { s with stats := { s.stats with totalEventsPublished := s.stats.totalEventsPublished + 1 } }) <|
  .unlock .stats <|
  .lock .eventQueue <|
  look fun s =>
    if s.eventQueue.length ≥ s.maxQueueSize then .unlock .eventQueue next
    else
      change (fun s => { s with
        eventQueue := s.eventQueue ++ [⟨s.accepted.length, e⟩], accepted := s.accepted ++ [⟨s.accepted.length, e⟩] }) <|
      .lock .stats <|
      change (fun s => { s with stats := { s.stats with pendingEvents := s.eventQueue.length } }) <|
      .unlock .stats <|
      .unlock .eventQueue next

def enableBatching (eventType : String) (batchInterval : Int) (maxBatchSize : Nat) (now : Int) (next : EventCode) :
    EventCode :=
  .lock .batches <|
  change (fun s => { s with
    batchConfigs := s.batchConfigs.insert eventType ⟨batchInterval, maxBatchSize, true, [], now⟩,
    batchThread := true }) <|
  .unlock .batches next

def getStatistics (next : EventCode) : EventCode :=
  .lock .stats <| look fun _ => .unlock .stats next

/-- The listeners are called one after the other. -/
def notify (x : Accepted) : List Subscription → EventCode → EventCode
  | [], next => next
  | sub :: left, next => change (fun s => { s with calls := s.calls ++ [(x, sub.id)] }) (notify x left next)

section

variable (matchesPattern : String → String → Bool)

/-- The matching listeners are copied, then called. -/
def deliver (x : Accepted) (next : EventCode) : EventCode :=
  .lock .subscriptions <|
  look fun s =>
    .unlock .subscriptions <|
    notify x (EventManager.matched matchesPattern ⟨x, s.subscriptions⟩) next

def deliverAll : List Accepted → EventCode → EventCode
  | [], next => next
  | x :: xs, next => deliver matchesPattern x (deliverAll xs next)

def processBatch (eventType : String) (next : EventCode) : EventCode :=
  .lock .batches <|
  .act .other (fun s => { s with
      batchConfigs := s.batchConfigs.alter eventType (·.map fun c => { c with pendingEvents := [] }) })
    fun s =>
      .unlock .batches <|
      deliverAll matchesPattern (s.pending eventType) next

/-- An event that is not batched is delivered with `batches_mutex_` held. -/
def processEvent (x : Accepted) (now : Int) (next : EventCode) : EventCode :=
  let direct := deliver matchesPattern x <| .unlock .batches next
  .lock .batches <|
  look fun s =>
    match s.batchConfigs[x.event.type]? with
    | some c =>
      if c.enabled then
        let c := { c with pendingEvents := c.pendingEvents ++ [x] }
        if c.pendingEvents.length ≥ c.maxBatchSize ∨ now - c.lastFlush ≥ c.interval then
          change (fun s => { s with batchConfigs := s.batchConfigs.insert x.event.type { c with lastFlush := now } }) <|
          .unlock .batches <|
          processBatch matchesPattern x.event.type next
        else
          change (fun s => { s with batchConfigs := s.batchConfigs.insert x.event.type c }) <|
          .unlock .batches next
      else direct
    | none => direct

def disableBatching (eventType : String) (next : EventCode) : EventCode :=
  let erase := change (fun s => { s with batchConfigs := s.batchConfigs.erase eventType }) <| .unlock .batches next
  .lock .batches <|
  .act (.closes eventType) id fun s =>
    match s.batchConfigs[eventType]? with
    | some c => if c.pendingEvents = [] then erase else processBatch matchesPattern eventType erase
    | none => .unlock .batches next

/-- `wait_for` wakes up `wakeUps` times before the time is over. -/
def waitForQueue : Nat → EventCode → EventCode
  | 0, next => .unlock .eventQueue <| .lock .eventQueue next
  | wakeUps + 1, next =>
    .unlock .eventQueue <|
    .lock .eventQueue <|
    look fun s => if s.eventQueue = [] then next else waitForQueue wakeUps next

def flushLoop : List String → EventCode → EventCode
  | [], next => next
  | ty :: rest, next =>
    .act (.closes ty) id fun s =>
      if s.pending ty = [] then flushLoop rest next
      else processBatch matchesPattern ty (flushLoop rest next)

def flush (wakeUps : Nat) (order : List String → List String) (next : EventCode) : EventCode :=
  let batches :=
    .lock .batches <|
    look fun s => flushLoop matchesPattern (order s.batchConfigs.keys) <| .unlock .batches next
  .lock .eventQueue <|
  look fun s =>
    if s.eventQueue = [] then .unlock .eventQueue batches
    else waitForQueue wakeUps <| .unlock .eventQueue batches

/-- One round of the processing thread; without an event it waits again. -/
def processEventQueue (top : List Accepted → Option Accepted) (now : Int) (next : EventCode) : EventCode :=
  .lock .eventQueue <|
  look fun s =>
    match top s.eventQueue with
    | some x =>
      change (fun s => { s with eventQueue := s.eventQueue.erase x, dequeued := s.dequeued ++ [x] }) <|
      .unlock .eventQueue <|
      processEvent matchesPattern x now <|
      .lock .stats <|
      change (fun s => { s with stats := { s.stats with
        totalEventsProcessed := s.stats.totalEventsProcessed + 1, pendingEvents := s.eventQueue.length } }) <|
      .unlock .stats next
    | none => .unlock .eventQueue next

def processTypes : List String → EventCode → EventCode
  | [], next => next
  | ty :: rest, next => processBatch matchesPattern ty (processTypes rest next)

/-- One round of the batch thread. -/
def processBatchQueue (now : Int) (order : List String → List String) (next : EventCode) : EventCode :=
  .lock .batches <|
  .act .other (fun s => { s with batchConfigs := s.batchConfigs.map fun _ c => c.pass now }) fun s =>
    .unlock .batches <|
    processTypes matchesPattern
      ((order s.batchConfigs.keys).filter fun ty => s.batchConfigs[ty]?.any (BatchConfig.due · now)) next

end

/-! ## Threads -/

/-- How an unordered map may be walked through. -/
structure Iteration where
  order : List String → List String
  perm : ∀ keys, (order keys).Perm keys

/-- How `event_queue_.top()` may choose. -/
structure Top where
  top : List Accepted → Option Accepted
  isTop : ∀ queue x, top queue = some x → EventManager.IsTop queue x

inductive Op where
  | subscribe (eventTypePattern : String)
  | unsubscribe (subscriptionId : Nat)
  | publish (e : Event)
  | enableBatching (eventType : String) (batchInterval : Int) (maxBatchSize : Nat) (now : Int)
  | disableBatching (eventType : String)
  | flush (wakeUps : Nat) (iteration : Iteration)
  | getStatistics
  | setMaxQueueSize (maxSize : Nat)
  | processEventQueue (top : Top) (now : Int)
  | processBatchQueue (now : Int) (iteration : Iteration)

variable (matchesPattern : String → String → Bool)

def Op.code : Op → EventCode
  | .subscribe pattern => EventLocks.subscribe pattern .done
  | .unsubscribe id => EventLocks.unsubscribe id .done
  | .publish e => EventLocks.publish e .done
  | .enableBatching ty interval size now => EventLocks.enableBatching ty interval size now .done
  | .disableBatching ty => EventLocks.disableBatching matchesPattern ty .done
  | .flush wakeUps iteration => EventLocks.flush matchesPattern wakeUps iteration.order .done
  | .getStatistics => EventLocks.getStatistics .done
  | .setMaxQueueSize maxSize => change (fun s => { s with maxQueueSize := maxSize }) .done
  | .processEventQueue top now => EventLocks.processEventQueue matchesPattern top.top now .done
  | .processBatchQueue now iteration => EventLocks.processBatchQueue matchesPattern now iteration.order .done

/-- The batch thread runs once batching was enabled. -/
def Op.runsOn (s : EventManager) : Op → Thread → Bool
  | .processEventQueue _ _, t => t = .processing
  | .processBatchQueue _ _, t => t = .batch ∧ s.batchThread = true
  | _, .client _ => true
  | _, _ => false

abbrev Threads := Lib.Threads Thread Mutex Label EventManager

inductive Action where
  | start (t : Thread) (op : Op)
  | run (t : Thread)

def step (s : Threads) : Action → Threads
  | .start t op => if op.runsOn s.data t then s.start t (op.code matchesPattern) else s
  | .run t => s.advance t

def fresh : Threads := ⟨{}, fun _ => none, fun _ => .done⟩

/-! ## Every function keeps the order -/

def rank : Mutex → Nat
  | .batches => 0
  | .subscriptions => 1
  | .eventQueue => 1
  | .stats => 2

theorem rank_lt (m : Mutex) : rank m < 3 := by
  cases m <;> decide

/-- A batch is closed when it has no events. -/
def Empty : Label → EventManager → Prop
  | .closes ty, s => s.pending ty = []
  | .other, _ => True

abbrev Obeys (held : List Mutex) (c : EventCode) : Prop := c.Obeys rank Empty held

variable {next : EventCode} {held : List Mutex} {f : EventManager → EventManager} {s : EventManager} {m : Mutex}

theorem obeys_lock (hm : ∀ m' ∈ held, rank m' < rank m) (h : Obeys (m :: held) next) : Obeys held (.lock m next) :=
  ⟨hm, h⟩

theorem obeys_lock_first (h : Obeys [m] next) : Obeys [] (.lock m next) :=
  obeys_lock (fun _ hm' => absurd hm' List.not_mem_nil) h

theorem obeys_lock_second {m m' : Mutex} (hm : rank m' < rank m) (h : Obeys [m, m'] next) :
    Obeys [m'] (.lock m next) :=
  obeys_lock (fun _ hm'' => List.mem_singleton.mp hm'' ▸ hm) h

theorem obeys_unlock (h : Obeys held next) : Obeys (m :: held) (.unlock m next) :=
  ⟨held, rfl, h⟩

theorem obeys_act {next : EventManager → EventCode}
    (h : ∀ s, Obeys held (next s)) : Obeys held (.act .other f next) :=
  fun s => ⟨fun _ => h s, fun hP => absurd trivial hP⟩

theorem obeys_change (h : Obeys held next) : Obeys held (change f next) :=
  obeys_act fun _ => h

theorem obeys_look {next : EventManager → EventCode} (h : ∀ s, Obeys held (next s)) : Obeys held (look next) :=
  obeys_act h

theorem obeys_closes {ty : String} {next : EventManager → EventCode}
    (hempty : ∀ s, s.pending ty = [] → Obeys held (next s))
    (hstuck : ∀ s, s.pending ty ≠ [] → Code.Stuck held (next s)) : Obeys held (.act (.closes ty) id next) :=
  fun s => ⟨hempty s, hstuck s⟩

/-- A section of `stats_mutex_` inside another. -/
theorem obeys_stats (hm : rank m < rank .stats)
    (h : Obeys [m] next) : Obeys [m] (.lock .stats (change f (.unlock .stats next))) :=
  obeys_lock_second hm (obeys_change (obeys_unlock h))

theorem obeys_subscribe (pattern : String) (h : Obeys [] next) : Obeys [] (subscribe pattern next) :=
  obeys_lock_first <| obeys_change <| obeys_stats (by decide) <| obeys_unlock h

theorem obeys_unsubscribe (id : Nat) (h : Obeys [] next) : Obeys [] (unsubscribe id next) := by
  refine obeys_lock_first (obeys_look fun s => ?_)
  split
  · exact obeys_change (obeys_stats (by decide) (obeys_unlock h))
  · exact obeys_unlock h

theorem obeys_publish (e : Event) (h : Obeys [] next) : Obeys [] (publish e next) := by
  refine obeys_lock_first (obeys_change (obeys_unlock (obeys_lock_first (obeys_look fun s => ?_))))
  split
  · exact obeys_unlock h
  · exact obeys_change (obeys_stats (by decide) (obeys_unlock h))

theorem obeys_enableBatching (ty : String) (interval : Int) (size : Nat) (now : Int)
    (h : Obeys [] next) : Obeys [] (enableBatching ty interval size now next) :=
  obeys_lock_first <| obeys_change <| obeys_unlock h

theorem obeys_getStatistics (h : Obeys [] next) : Obeys [] (getStatistics next) :=
  obeys_lock_first <| obeys_look fun _ => obeys_unlock h

theorem obeys_notify (x : Accepted) (subs : List Subscription)
    (h : Obeys held next) : Obeys held (notify x subs next) := by
  induction subs with
  | nil => exact h
  | cons sub left ih => exact obeys_change ih

/-- Called with nothing held, or with `batches_mutex_`. -/
theorem obeys_deliver (x : Accepted) (hheld : ∀ m ∈ held, rank m < rank .subscriptions)
    (h : Obeys held next) : Obeys held (deliver matchesPattern x next) :=
  obeys_lock hheld <| obeys_look fun _ => obeys_unlock <| obeys_notify _ _ h

theorem obeys_deliverAll (xs : List Accepted) (h : Obeys [] next) : Obeys [] (deliverAll matchesPattern xs next) := by
  induction xs with
  | nil => exact h
  | cons x xs ih => exact obeys_deliver matchesPattern x (fun _ hm => absurd hm List.not_mem_nil) ih

theorem obeys_processBatch (ty : String) (h : Obeys [] next) : Obeys [] (processBatch matchesPattern ty next) :=
  obeys_lock_first <| obeys_act fun _ => obeys_unlock <| obeys_deliverAll matchesPattern _ h

theorem obeys_processEvent (x : Accepted) (now : Int) (h : Obeys [] next) :
    Obeys [] (processEvent matchesPattern x now next) := by
  have hdirect : Obeys [.batches] (deliver matchesPattern x (.unlock .batches next)) :=
    obeys_deliver matchesPattern x (fun m hm => by rw [List.mem_singleton.mp hm]; decide) (obeys_unlock h)
  refine obeys_lock_first (obeys_look fun s => ?_)
  split
  · split
    · dsimp only
      split
      · exact obeys_change (obeys_unlock (obeys_processBatch matchesPattern _ h))
      · exact obeys_change (obeys_unlock h)
    · exact hdirect
  · exact hdirect

/-- Called with `batches_mutex_` held, `processBatch` waits for it. -/
theorem processBatch_stuck (ty : String) (next : EventCode) :
    Code.Stuck [.batches] (processBatch matchesPattern ty next) :=
  List.mem_singleton.mpr rfl

theorem obeys_disableBatching (ty : String) (h : Obeys [] next) :
    Obeys [] (disableBatching matchesPattern ty next) := by
  refine obeys_lock_first (obeys_closes (fun s hs => ?_) fun s hs => ?_)
  · split
    · rename_i c hc
      rw [if_pos (by simpa [EventManager.pending, hc] using hs)]
      exact obeys_change (obeys_unlock h)
    · exact obeys_unlock h
  · split
    · rename_i c hc
      rw [if_neg (by simpa [EventManager.pending, hc] using hs)]
      exact processBatch_stuck matchesPattern ty _
    · rename_i hc
      exact absurd (by simp [EventManager.pending, hc]) hs

theorem obeys_waitForQueue (wakeUps : Nat) (h : Obeys [.eventQueue] next) :
    Obeys [.eventQueue] (waitForQueue wakeUps next) := by
  induction wakeUps with
  | zero => exact obeys_unlock (obeys_lock_first h)
  | succ n ih =>
    refine obeys_unlock (obeys_lock_first (obeys_look fun s => ?_))
    split
    · exact h
    · exact ih

theorem obeys_flushLoop (types : List String) (h : Obeys [.batches] next) :
    Obeys [.batches] (flushLoop matchesPattern types next) := by
  induction types with
  | nil => exact h
  | cons ty rest ih =>
    refine obeys_closes (fun s hs => ?_) fun s hs => ?_
    · rw [if_pos hs]
      exact ih
    · rw [if_neg hs]
      exact processBatch_stuck matchesPattern ty _

theorem obeys_flush (wakeUps : Nat) (order : List String → List String) (h : Obeys [] next) :
    Obeys [] (flush matchesPattern wakeUps order next) := by
  have hbatches : Obeys [] (.lock .batches (look fun s =>
      flushLoop matchesPattern (order s.batchConfigs.keys) (.unlock .batches next))) :=
    obeys_lock_first (obeys_look fun _ => obeys_flushLoop matchesPattern _ (obeys_unlock h))
  refine obeys_lock_first (obeys_look fun s => ?_)
  split
  · exact obeys_unlock hbatches
  · exact obeys_waitForQueue wakeUps (obeys_unlock hbatches)

theorem obeys_processEventQueue (top : List Accepted → Option Accepted) (now : Int)
    (h : Obeys [] next) : Obeys [] (processEventQueue matchesPattern top now next) := by
  refine obeys_lock_first (obeys_look fun s => ?_)
  split
  · refine obeys_change (obeys_unlock (obeys_processEvent matchesPattern _ now ?_))
    exact obeys_lock_first (obeys_change (obeys_unlock h))
  · exact obeys_unlock h

theorem obeys_processTypes (types : List String) (h : Obeys [] next) :
    Obeys [] (processTypes matchesPattern types next) := by
  induction types with
  | nil => exact h
  | cons ty rest ih => exact obeys_processBatch matchesPattern ty ih

theorem obeys_processBatchQueue (now : Int) (order : List String → List String)
    (h : Obeys [] next) : Obeys [] (processBatchQueue matchesPattern now order next) :=
  obeys_lock_first <| obeys_act fun _ => obeys_unlock <| obeys_processTypes matchesPattern _ h

theorem obeys_code (op : Op) : Obeys [] (op.code matchesPattern) := by
  have hdone : Obeys [] .done := rfl
  cases op with
  | subscribe pattern => exact obeys_subscribe pattern hdone
  | unsubscribe id => exact obeys_unsubscribe id hdone
  | publish e => exact obeys_publish e hdone
  | enableBatching ty interval size now => exact obeys_enableBatching ty interval size now hdone
  | disableBatching ty => exact obeys_disableBatching matchesPattern ty hdone
  | flush wakeUps iteration => exact obeys_flush matchesPattern wakeUps iteration.order hdone
  | getStatistics => exact obeys_getStatistics hdone
  | setMaxQueueSize maxSize => exact obeys_change hdone
  | processEventQueue top now => exact obeys_processEventQueue matchesPattern top.top now hdone
  | processBatchQueue now iteration => exact obeys_processBatchQueue matchesPattern now iteration.order hdone

/-! ## Alone, an operation does what its critical sections do -/

theorem runFrom_run (s : Threads) (t : Thread) (n : Nat) :
    runFrom (step matchesPattern) s (List.replicate n (.run t)) = runFrom Threads.advance s (List.replicate n t) := by
  induction n generalizing s with
  | zero => rfl
  | succ n ih => exact ih (s.advance t)

variable {d : EventManager}

theorem runs_alone {s : Threads} {t : Thread} (hidle : s.code t = .done) (hfree : ∀ m, s.owner m = none) {op : Op}
    (hop : op.runsOn s.data t = true) (hd : (op.code matchesPattern).alone [] s.data = some d) :
    ∃ n, let s' := runFrom (step matchesPattern) s (.start t op :: List.replicate n (.run t))
      s'.data = d ∧ s'.code t = .done := by
  have hstart : step matchesPattern s (.start t op) =
      { s with code := Function.update s.code t (op.code matchesPattern) } := by
    simp [step, hop, Threads.start, hidle]
  obtain ⟨n, hn⟩ := Threads.alone_run t (op.code matchesPattern) [] (s := step matchesPattern s (.start t op))
    (by simp [hstart]) ⟨List.nodup_nil, by simp [hstart, hfree]⟩ (by rw [hstart]; exact hd)
  refine ⟨n, ?_⟩
  show _ ∧ _
  rw [runFrom, List.foldl_cons, ← runFrom, runFrom_run]
  exact hn

theorem subscribe_alone (s : EventManager) (pattern : String) :
    (subscribe pattern .done).alone [] s = some (s.subscribe pattern) :=
  rfl

theorem unsubscribe_alone (s : EventManager) (id : Nat) :
    (unsubscribe id .done).alone [] s = some (s.unsubscribe id) := by
  show Code.alone [Mutex.subscriptions] (if s.subscriptions.any (·.id == id) then _ else _) s = _
  unfold EventManager.unsubscribe
  split <;> rfl

variable {n : Nat}

theorem publish_alone (hpc : s.pcs (.client n) = .idle) (e : Event) :
    (publish e .done).alone [] s = (s.publish n e).bind (·.push n) := by
  have hback : Function.update (Function.update s.pcs (.client n) (.publish e)) (.client n) .idle = s.pcs := by
    rw [Function.update_idem, ← hpc, Function.update_eq_self]
  by_cases hfull : s.eventQueue.length ≥ s.maxQueueSize
  · simp [publish, look, change, Code.alone, EventManager.publish, EventManager.push, EventManager.goto, hpc, hfull,
      hback]
  · simp [publish, look, change, Code.alone, EventManager.publish, EventManager.push, EventManager.goto, hpc, hfull,
      hback]

theorem enableBatching_alone (hfree : s.batchesOwner = none) (ty : String) (interval : Int) (size : Nat) (now : Int) :
    (enableBatching ty interval size now .done).alone [] s = s.enableBatching ty interval size now := by
  simp [enableBatching, change, Code.alone, EventManager.enableBatching, hfree]

/-- Where the batch has events, `disableBatching` never returns. -/
theorem disableBatching_alone (hpc : s.pcs (.client n) = .idle) (hfree : s.batchesOwner = none) (ty : String) :
    (disableBatching matchesPattern ty .done).alone [] s =
      if s.pending ty = [] then s.disableBatching n ty else none := by
  cases hc : s.batchConfigs[ty]? with
  | none => simp [disableBatching, Code.alone, EventManager.pending, EventManager.disableBatching, hc, hpc, hfree]
  | some c =>
    by_cases hempty : c.pendingEvents = []
    · simp [disableBatching, change, Code.alone, EventManager.pending, EventManager.disableBatching, hc, hpc, hfree,
        hempty]
    · simp [disableBatching, processBatch, Code.alone, EventManager.pending, hc, hempty]

/-- What an operation of client `n` does in the machine of critical sections, one section
    after the other. -/
def sections (n : Nat) (s : EventManager) : Op → Option EventManager
  | .subscribe pattern => some (s.subscribe pattern)
  | .unsubscribe id => some (s.unsubscribe id)
  | .publish e => (s.publish n e).bind (·.push n)
  | .enableBatching ty interval size now => s.enableBatching ty interval size now
  | .disableBatching ty => if s.pending ty = [] then s.disableBatching n ty else none
  | _ => none

theorem sections_alone (hpc : s.pcs (.client n) = .idle) (hfree : s.batchesOwner = none)
    {op : Op} (hd : sections n s op = some d) :
    op.runsOn s (.client n) = true ∧ (op.code matchesPattern).alone [] s = some d := by
  cases op with
  | subscribe pattern => exact ⟨rfl, (subscribe_alone s pattern).trans hd⟩
  | unsubscribe id => exact ⟨rfl, (unsubscribe_alone s id).trans hd⟩
  | publish e => exact ⟨rfl, (publish_alone hpc e).trans hd⟩
  | enableBatching ty interval size now => exact ⟨rfl, (enableBatching_alone hfree ty interval size now).trans hd⟩
  | disableBatching ty => exact ⟨rfl, (disableBatching_alone matchesPattern hpc hfree ty).trans hd⟩
  | flush | getStatistics | setMaxQueueSize | processEventQueue | processBatchQueue => cases hd

/-- With no mutex taken, a client that runs alone ends with the same state. -/
theorem sections_run {s : Threads} (hidle : s.code (.client n) = .done) (hfree : ∀ m, s.owner m = none)
    (hpc : s.data.pcs (.client n) = .idle) (howner : s.data.batchesOwner = none) {op : Op}
    (hd : sections n s.data op = some d) :
    ∃ k, let s' := runFrom (step matchesPattern) s (.start (.client n) op :: List.replicate k (.run (.client n)))
      s'.data = d ∧ s'.code (.client n) = .done := by
  obtain ⟨hop, halone⟩ := sections_alone matchesPattern hpc howner hd
  exact runs_alone matchesPattern hidle hfree hop halone

/-! ## Runs -/

/-- If the step closes a batch, the batch is empty. -/
def ClosesEmpty (s : Threads) : Action → Prop
  | .start _ _ => True
  | .run t => s.Careful Empty t

theorem fresh_holding : Threads.Holding rank Empty fresh fun _ => [] :=
  ⟨fun _ _ => ⟨fun h => absurd h List.not_mem_nil, fun h => by cases h⟩, fun _ => List.Pairwise.nil, fun _ => rfl⟩

variable {held : Thread → List Mutex}

theorem step_holding {s : Threads} (h : Lib.Threads.Holding rank Empty s held) (a : Action)
    (hq : ClosesEmpty s a) : ∃ held', Lib.Threads.Holding rank Empty (step matchesPattern s a) held' := by
  cases a with
  | start t op =>
    simp only [step]
    split
    · exact Threads.start_holding h t (obeys_code matchesPattern op)
    · exact ⟨held, h⟩
  | run t => exact Threads.advance_holding h hq

theorem step_relocks {s : Threads} (h : Lib.Threads.Holding rank Empty s held) (a : Action)
    (hq : ¬ ClosesEmpty s a) : ∃ t, (step matchesPattern s a).Relocks t := by
  cases a with
  | start t op => exact absurd trivial hq
  | run t => exact ⟨t, Threads.careless_relocks h hq⟩

/-- For any operations of any threads, step by step: no thread ever locks a mutex it owns
    iff `disableBatching` and `flush` find every batch they look at empty; and as long as
    they do, every operation can be finished, unless one of them is about to find a batch
    that is not. -/
theorem no_self_deadlock_iff (actions : List Action) :
    (Throughout (step matchesPattern) (fun s => ∀ t, ¬ s.Relocks t) fresh actions ↔
      EachStep (step matchesPattern) ClosesEmpty fresh actions) ∧
    (EachStep (step matchesPattern) ClosesEmpty fresh actions → ∀ t,
      Threads.Reaches Empty [] (runFrom (step matchesPattern) fresh actions) fun s => s.code t = .done) := by
  constructor
  · exact Threads.relocks_never_iff (fun s a held h hq => step_holding matchesPattern h a hq)
      (fun s a held h hq => step_relocks matchesPattern h a hq) fresh_holding actions
  · intro hq t
    have hhold : ∃ held, Lib.Threads.Holding rank Empty (runFrom (step matchesPattern) fresh actions) held :=
      runFrom_eachStep (I := fun s => ∃ held, Lib.Threads.Holding rank Empty s held)
        (fun s a hs hq => hs.elim fun held h => step_holding matchesPattern h a hq) ⟨_, fresh_holding⟩ hq
    obtain ⟨held, h⟩ := hhold
    exact Threads.can_finish rank_lt t _ h rfl

/-- The first of the maximal elements. -/
def firstTop : Top := by
  refine ⟨fun queue => queue.find? fun x => decide (EventManager.IsTop queue x), fun queue x h => ?_⟩
  simpa using List.find?_some h

/-- One event is published and put into its batch. -/
def batchedEvent : List Action :=
  [.start (.client 0) (.enableBatching "build" 1000 100 0)] ++ List.replicate 3 (.run (.client 0)) ++
  [.start (.client 0) (.publish ⟨"build", "", 0, .normal⟩)] ++ List.replicate 10 (.run (.client 0)) ++
  [.start .processing (.processEventQueue firstTop 0)] ++ List.replicate 11 (.run .processing)

def asListed : Iteration := ⟨id, fun _ => List.Perm.refl _⟩

/-- `disableBatching` and `flush` wait for the mutex they hold. -/
theorem closing_a_batch_deadlocks :
    let s := runFrom (step fun _ _ => true) fresh batchedEvent
    let disabling := runFrom (step fun _ _ => true) s
      ([.start (.client 1) (.disableBatching "build")] ++ List.replicate 2 (.run (.client 1)))
    let flushing := runFrom (step fun _ _ => true) s
      ([.start (.client 1) (.flush 0 asListed)] ++ List.replicate 6 (.run (.client 1)))
    s.data.pending "build" ≠ [] ∧ disabling.Relocks (.client 1) ∧ flushing.Relocks (.client 1) := by
  decide +kernel

end EventLocks

end DockerCpp
