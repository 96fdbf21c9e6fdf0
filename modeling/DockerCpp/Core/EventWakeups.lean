/-
  DockerCpp.Core.EventWakeups — `queue_condition_`, the flag `should_stop_` and the end of
  the event manager's life.

  The machine of `DockerCpp.Core.Event` takes an event whenever there is one. Here the
  processing thread goes through the loop of `processEventQueue`: it tests the flag, locks
  `event_queue_mutex_`, evaluates the predicate of the wait, falls asleep when it is false,
  and evaluates it again when it was woken. `publish` calls `notify_one` after it released
  the mutex, and the clients that wait in `flush` sleep on the same condition variable.
  `resetInstance` stores the flag and calls `notify_all`, both without the mutex, and then
  joins the two threads (`~EventManager` does the same once more, with nothing left to
  join). Which sleeper `notify_one` wakes is an argument of the step; a sleeper may also
  wake up by itself (`spurious`).

  Every step is a step of that machine or leaves it as it is (`base_run`), so what holds
  there holds here.

  `notified_throughout_iff`: the processing thread never sleeps on work, or on the flag,
  without somebody about to notify it, exactly when no notification of a publisher went to
  a client of `flush` while the thread needed it, and no thread fell asleep after the
  notification of `resetInstance`. `lost_until_notified`: after such a loss the thread
  sleeps on, the queue stays as it is and `resetInstance` does not return, whatever the
  other threads do, until an event is accepted.
-/

import DockerCpp.Core.EventQueue

namespace DockerCpp

open Lib

namespace EventManager

variable {matchesPattern : String → String → Bool}

theorem act_sameQueue {s b : EventManager} {a : Action} (h : s.act matchesPattern a = some b) (hpush : ∀ n, a ≠ .push n)
    (hdequeue : ∀ x, a ≠ .dequeue x) : SameQueue s b := by
  have hto := act_to h
  cases hto with
  | push hpc hroom hx => exact absurd rfl (hpush _)
  | dequeue hpc htop => exact absurd rfl (hdequeue _)
  | unsubscribe id =>
    unfold unsubscribe
    split <;> exact ⟨rfl, rfl, rfl⟩
  | takeBatch hpc ho =>
    unfold takeBatch
    split <;> exact ⟨rfl, rfl, rfl⟩
  | resume hpc => exact sameQueue_resume s _ _
  | _ => exact ⟨rfl, rfl, rfl⟩

end EventManager

namespace EventWakeups

/-- Where the processing thread is in `processEventQueue`. -/
inductive Loop where
  /-- At the condition of the loop. -/
  | test
  /-- About to lock `event_queue_mutex_`, or woken and about to lock it again. -/
  | enter
  /-- About to evaluate the predicate of the wait. -/
  | check
  /-- The predicate was false: about to sleep. -/
  | block
  | asleep
  /-- The wait has returned. -/
  | leave
  /-- In `processEvent` and the statistics after it. -/
  | handle
  | exited
  deriving DecidableEq, Repr

/-- The places of the loop at which the thread holds `event_queue_mutex_`. -/
def Loop.locked : Loop → Bool
  | .check | .block | .leave => true
  | _ => false

/-- Where the batch thread is in `processBatchQueue`, between two passes. -/
inductive BatchLoop where
  | test
  | pass
  | exited
  deriving DecidableEq, Repr

/-- Where `resetInstance` is. -/
inductive Reset where
  | idle
  | notify
  | join
  | returned
  deriving DecidableEq, Repr

/-- Who sleeps on `queue_condition_`. -/
inductive Waiter where
  | processing
  | flush (n : Nat)
  deriving DecidableEq, Repr

structure State where
  base : EventManager := {}
  loop : Loop := .test
  batch : BatchLoop := .test
  shouldStop : Bool := false
  reset : Reset := .idle
  /-- The clients in `publish` that have pushed and not notified yet. -/
  notifying : List Nat := []
  /-- The clients that sleep in the wait of `flush`. -/
  sleepers : List Nat := []

namespace State

/-- The predicate of the wait. -/
def Ready (s : State) : Prop := s.base.eventQueue ≠ [] ∨ s.shouldStop = true

instance (s : State) : Decidable s.Ready := inferInstanceAs (Decidable (_ ∨ _))

def waits (s : State) : Waiter → Bool
  | .processing => s.loop == .asleep
  | .flush n => s.sleepers.contains n

def wake (s : State) : Waiter → State
  | .processing => { s with loop := .enter }
  | .flush n => { s with sleepers := s.sleepers.erase n }

/-- The steps that use neither `event_queue_mutex_` nor `queue_condition_` nor the flag.
    A client that is still to notify is in `publish`, and begins no other call. -/
def elsewhere (s : State) : EventManager.Action → Bool
  | .push _ | .dequeue _ | .flush _ | .flushWake _ _ | .processBatchQueue _ _ => false
  | .publish n _ | .disableBatching n _ => !s.notifying.contains n
  | _ => true

/-- `publish`, from the section of the queue to the notification. A full queue ends the
    call. -/
def push (s : State) (n : Nat) : Option State :=
  if s.loop.locked then none
  else (s.base.push n).map fun b =>
    { s with base := b,
             notifying := if s.base.eventQueue.length ≥ s.base.maxQueueSize then s.notifying else n :: s.notifying }

def notifyOne (s : State) (n : Nat) (wakes : Option Waiter) : Option State :=
  if n ∈ s.notifying then
    match wakes with
    | some w => if s.waits w then some ({ s with notifying := s.notifying.erase n }.wake w) else none
    | none => if s.loop ≠ .asleep ∧ s.sleepers = [] then some { s with notifying := s.notifying.erase n } else none
  else none

def flush (s : State) (n : Nat) : Option State :=
  if s.loop.locked ∨ n ∈ s.notifying then none
  else (s.base.flush n).map fun b =>
    { s with base := b, sleepers := if s.base.eventQueue = [] then s.sleepers else n :: s.sleepers }

/-- A client of `flush` has locked the mutex again, woken or because the time is over:
    it goes on, or evaluates the predicate to false and sleeps again. -/
def flushWake (s : State) (n : Nat) (timedOut : Bool) : Option State :=
  if s.loop.locked ∨ (n ∈ s.sleepers ∧ timedOut = false) then none
  else
    match s.base.flushWake n timedOut with
    | some b => some { s with base := b, sleepers := s.sleepers.erase n }
    | none => if s.base.pcs (.client n) = .flushWait then some { s with sleepers := n :: s.sleepers } else none

/-- The wait has returned: the loop ends, or takes `x`. -/
def leave (s : State) (x : Accepted) : Option State :=
  if s.loop ≠ .leave then none
  else if s.shouldStop then some { s with loop := .exited }
  else if s.base.eventQueue = [] then some { s with loop := .test }
  else (s.base.dequeue x).map fun b => { s with base := b, loop := .handle }

/-- The batch thread at the condition of its loop. -/
def batchTest (s : State) : Option State :=
  if s.base.batchThread = true ∧ s.batch = .test ∧ s.base.pcs .batch = .idle then
    some { s with batch := if s.shouldStop then .exited else .pass }
  else none

def processBatchQueue (s : State) (now : Int) (order : List String) : Option State :=
  if s.batch = .pass then (s.base.processBatchQueue now order).map fun b => { s with base := b, batch := .test }
  else none

/-- `resetInstance` has joined both threads. -/
def join (s : State) : Option State :=
  if s.reset = .join ∧ s.loop = .exited ∧ (s.base.batchThread = true → s.batch = .exited) then
    some { s with reset := .returned }
  else none

/-- A change of the processing thread's place in its loop. -/
def advance (s : State) (source target : Loop) : Option State :=
  if s.loop = source then some { s with loop := target } else none

inductive Action where
  | other (a : EventManager.Action)
  | push (n : Nat)
  | notifyOne (n : Nat) (wakes : Option Waiter)
  | flush (n : Nat)
  | flushWake (n : Nat) (timedOut : Bool)
  | test
  | enter
  | check
  | sleep
  | leave (x : Accepted)
  | again
  | batchTest
  | processBatchQueue (now : Int) (order : List String)
  | stop
  | notifyAll
  | join
  | spurious (w : Waiter)

variable (matchesPattern : String → String → Bool)

/-- `none` when the thread is not there, or waits. -/
def enabled (s : State) : Action → Option State
  | .other a =>
    if s.elsewhere a then (s.base.act matchesPattern a).map fun b => { s with base := b } else none
  | .push n => s.push n
  | .notifyOne n wakes => s.notifyOne n wakes
  | .flush n => s.flush n
  | .flushWake n timedOut => s.flushWake n timedOut
  | .test => s.advance .test (if s.shouldStop then .exited else .enter)
  | .enter => s.advance .enter .check
  | .check => s.advance .check (if s.Ready then .leave else .block)
  | .sleep => s.advance .block .asleep
  | .leave x => s.leave x
  | .again => if s.base.pcs .processing = .idle then s.advance .handle .test else none
  | .batchTest => s.batchTest
  | .processBatchQueue now order => s.processBatchQueue now order
  | .stop => if s.reset = .idle then some { s with shouldStop := true, reset := .notify } else none
  | .notifyAll =>
    if s.reset = .notify then
      some { s with reset := .join, loop := if s.loop = .asleep then .enter else s.loop, sleepers := [] }
    else none
  | .join => s.join
  | .spurious w => if s.waits w then some (s.wake w) else none

/-- When `resetInstance` returns, the manager is gone. -/
def act (s : State) (a : Action) : Option State := if s.reset = .returned then none else s.enabled matchesPattern a

/-- An action that cannot be taken is skipped. -/
def step (s : State) (a : Action) : State := (s.act matchesPattern a).getD s

/-! ## What a step does -/

/-- The states an action can lead to. -/
inductive StepTo (s : State) : Action → State → Prop
  | stay (a : Action) : StepTo s a s
  | other {a : EventManager.Action} {b : EventManager} : s.elsewhere a = true → s.base.act matchesPattern a = some b →
      EventManager.SameQueue s.base b → StepTo s (.other a) { s with base := b }
  | drop {n : Nat} {b : EventManager} : s.base.push n = some b → EventManager.SameQueue s.base b →
      StepTo s (.push n) { s with base := b }
  | push {n : Nat} {b : EventManager} : s.loop.locked = false → s.base.push n = some b →
      s.base.eventQueue.length < s.base.maxQueueSize → StepTo s (.push n) { s with base := b, notifying := n :: s.notifying }
  | notifyOne {n : Nat} {w : Waiter} : n ∈ s.notifying → s.waits w = true →
      StepTo s (.notifyOne n (some w)) ({ s with notifying := s.notifying.erase n }.wake w)
  | notifyNobody {n : Nat} : n ∈ s.notifying → s.loop ≠ .asleep →
      StepTo s (.notifyOne n none) { s with notifying := s.notifying.erase n }
  | flush {n : Nat} {b : EventManager} (sleepers : List Nat) : s.base.flush n = some b →
      StepTo s (.flush n) { s with base := b, sleepers := sleepers }
  | flushWake {n : Nat} {timedOut : Bool} {b : EventManager} (sleepers : List Nat) : s.base.flushWake n timedOut = some b →
      StepTo s (.flushWake n timedOut) { s with base := b, sleepers := sleepers }
  | flushAgain {n : Nat} {timedOut : Bool} (sleepers : List Nat) :
      StepTo s (.flushWake n timedOut) { s with sleepers := sleepers }
  | quit : s.loop = .test → s.shouldStop = true → StepTo s .test { s with loop := .exited }
  | begin : s.loop = .test → s.shouldStop = false → StepTo s .test { s with loop := .enter }
  | enter : s.loop = .enter → StepTo s .enter { s with loop := .check }
  | found : s.loop = .check → s.Ready → StepTo s .check { s with loop := .leave }
  | block : s.loop = .check → ¬ s.Ready → StepTo s .check { s with loop := .block }
  | sleep : s.loop = .block → StepTo s .sleep { s with loop := .asleep }
  | stopped {x : Accepted} : s.loop = .leave → s.shouldStop = true → StepTo s (.leave x) { s with loop := .exited }
  | nothing {x : Accepted} : s.loop = .leave → s.shouldStop = false → s.base.eventQueue = [] →
      StepTo s (.leave x) { s with loop := .test }
  | dequeue {x : Accepted} {b : EventManager} : s.loop = .leave → s.shouldStop = false → s.base.dequeue x = some b →
      StepTo s (.leave x) { s with base := b, loop := .handle }
  | again : s.loop = .handle → s.base.pcs .processing = .idle → StepTo s .again { s with loop := .test }
  | batchTest (batch : BatchLoop) : s.batch = .test → (batch = .exited → s.base.pcs .batch = .idle) →
      StepTo s .batchTest { s with batch := batch }
  | processBatchQueue {now : Int} {order : List String} {b : EventManager} : s.batch = .pass →
      s.base.processBatchQueue now order = some b →
      StepTo s (.processBatchQueue now order) { s with base := b, batch := .test }
  | stop : s.reset = .idle → StepTo s .stop { s with shouldStop := true, reset := .notify }
  | notifyAll : s.reset = .notify → StepTo s .notifyAll
      { s with reset := .join, loop := if s.loop = .asleep then .enter else s.loop, sleepers := [] }
  | join : s.reset = .join → s.loop = .exited → (s.base.batchThread = true → s.batch = .exited) →
      StepTo s .join { s with reset := .returned }
  | spurious {w : Waiter} : s.waits w = true → StepTo s (.spurious w) (s.wake w)

variable {matchesPattern} {s s' : State} {n : Nat} {a : Action}

theorem advance_some {source target : Loop} (h : s.advance source target = some s') :
    s.loop = source ∧ s' = { s with loop := target } := by
  unfold advance at h
  split at h
  · rename_i hloop
    cases h
    exact ⟨hloop, rfl⟩
  · cases h

theorem push_to (h : s.push n = some s') : StepTo matchesPattern s (.push n) s' := by
  unfold push at h
  split at h
  · cases h
  · rename_i hlocked
    obtain ⟨b, hb, rfl⟩ := Option.map_eq_some_iff.mp h
    by_cases hroom : s.base.eventQueue.length ≥ s.base.maxQueueSize
    · rw [if_pos hroom]
      refine .drop hb ?_
      have hto : EventManager.StepTo matchesPattern s.base (.push n) b := EventManager.push_to hb
      cases hto with
      | push hpc hless hx => omega
      | _ => exact ⟨rfl, rfl, rfl⟩
    · rw [if_neg hroom]
      exact .push (by simpa using hlocked) hb (Nat.lt_of_not_le hroom)

theorem notifyOne_to {wakes : Option Waiter} (h : s.notifyOne n wakes = some s') :
    StepTo matchesPattern s (.notifyOne n wakes) s' := by
  unfold notifyOne at h
  split at h
  · rename_i hn
    split at h
    · split at h
      · rename_i hw
        cases h
        exact .notifyOne hn hw
      · cases h
    · split at h
      · rename_i hno
        cases h
        exact .notifyNobody hn hno.1
      · cases h
  · cases h

theorem flush_to (h : s.flush n = some s') : StepTo matchesPattern s (.flush n) s' := by
  unfold flush at h
  split at h
  · cases h
  · obtain ⟨b, hb, rfl⟩ := Option.map_eq_some_iff.mp h
    exact .flush _ hb

theorem flushWake_to {timedOut : Bool} (h : s.flushWake n timedOut = some s') :
    StepTo matchesPattern s (.flushWake n timedOut) s' := by
  unfold flushWake at h
  split at h
  · cases h
  · split at h
    · rename_i b hb
      cases h
      exact .flushWake _ hb
    · split at h
      · cases h
        exact .flushAgain _
      · cases h

theorem leave_to {x : Accepted} (h : s.leave x = some s') : StepTo matchesPattern s (.leave x) s' := by
  unfold leave at h
  split at h
  · cases h
  · rename_i hloop
    have hloop : s.loop = .leave := not_not.mp hloop
    split at h
    · rename_i hstop
      cases h
      exact .stopped hloop hstop
    · rename_i hstop
      have hstop : s.shouldStop = false := by simpa using hstop
      split at h
      · rename_i hempty
        cases h
        exact .nothing hloop hstop hempty
      · obtain ⟨b, hb, rfl⟩ := Option.map_eq_some_iff.mp h
        exact .dequeue hloop hstop hb

theorem enabled_to (h : s.enabled matchesPattern a = some s') : StepTo matchesPattern s a s' := by
  cases a with
  | other a =>
    simp only [enabled] at h
    split at h
    · rename_i he
      obtain ⟨b, hb, rfl⟩ := Option.map_eq_some_iff.mp h
      refine .other he hb (EventManager.act_sameQueue hb ?_ ?_)
      · intro n hn
        rw [hn] at he
        cases he
      · intro x hx
        rw [hx] at he
        cases he
    · cases h
  | push n => exact push_to h
  | notifyOne n wakes => exact notifyOne_to h
  | flush n => exact flush_to h
  | flushWake n timedOut => exact flushWake_to h
  | test =>
    obtain ⟨hloop, rfl⟩ := advance_some h
    by_cases hstop : s.shouldStop = true
    · rw [if_pos hstop]
      exact .quit hloop hstop
    · rw [if_neg hstop]
      exact .begin hloop (by simpa using hstop)
  | enter =>
    obtain ⟨hloop, rfl⟩ := advance_some h
    exact .enter hloop
  | check =>
    obtain ⟨hloop, rfl⟩ := advance_some h
    by_cases hready : s.Ready
    · rw [if_pos hready]
      exact .found hloop hready
    · rw [if_neg hready]
      exact .block hloop hready
  | sleep =>
    obtain ⟨hloop, rfl⟩ := advance_some h
    exact .sleep hloop
  | leave x => exact leave_to h
  | again =>
    simp only [enabled] at h
    split at h
    · rename_i hidle
      obtain ⟨hloop, rfl⟩ := advance_some h
      exact .again hloop hidle
    · cases h
  | batchTest =>
    simp only [enabled, batchTest] at h
    split at h
    · rename_i hidle
      cases h
      exact .batchTest _ hidle.2.1 fun _ => hidle.2.2
    · cases h
  | processBatchQueue now order =>
    simp only [enabled, processBatchQueue] at h
    split at h
    · rename_i hpass
      obtain ⟨b, hb, rfl⟩ := Option.map_eq_some_iff.mp h
      exact .processBatchQueue hpass hb
    · cases h
  | stop =>
    simp only [enabled] at h
    split at h
    · rename_i hidle
      cases h
      exact .stop hidle
    · cases h
  | notifyAll =>
    simp only [enabled] at h
    split at h
    · rename_i hnotify
      cases h
      exact .notifyAll hnotify
    · cases h
  | join =>
    simp only [enabled, join] at h
    split at h
    · rename_i hjoin
      cases h
      exact .join hjoin.1 hjoin.2.1 hjoin.2.2
    · cases h
  | spurious w =>
    simp only [enabled] at h
    split at h
    · rename_i hw
      cases h
      exact .spurious hw
    · cases h

theorem step_to (s : State) (a : Action) : StepTo matchesPattern s a (s.step matchesPattern a) := by
  unfold step act
  split
  · exact .stay a
  · cases h : s.enabled matchesPattern a with
    | none => exact .stay a
    | some s' => exact enabled_to h

/-! ## The machine below -/

/-- The step of the machine below that an action takes, when it takes one. -/
def Action.below : Action → Option EventManager.Action
  | .other a => some a
  | .push n => some (.push n)
  | .flush n => some (.flush n)
  | .flushWake n timedOut => some (.flushWake n timedOut)
  | .leave x => some (.dequeue x)
  | .processBatchQueue now order => some (.processBatchQueue now order)
  | _ => none

theorem base_step (s : State) (a : Action) :
    (s.step matchesPattern a).base = s.base ∨
      ∃ a', a.below = some a' ∧ (s.step matchesPattern a).base = s.base.step matchesPattern a' := by
  have taken : ∀ (a' : EventManager.Action) {b : EventManager}, s.base.act matchesPattern a' = some b →
      b = s.base.step matchesPattern a' := fun _ _ h => by simp [EventManager.step, h]
  have hto : StepTo matchesPattern s a _ := step_to s a
  generalize s.step matchesPattern a = s' at hto ⊢
  cases hto with
  | other he h hsame => exact Or.inr ⟨_, rfl, taken _ h⟩
  | @drop n b h hsame => exact Or.inr ⟨_, rfl, taken (.push n) h⟩
  | @push n b hfree h hroom => exact Or.inr ⟨_, rfl, taken (.push n) h⟩
  | @flush n b sleepers h => exact Or.inr ⟨_, rfl, taken (.flush n) h⟩
  | @flushWake n timedOut b sleepers h => exact Or.inr ⟨_, rfl, taken (.flushWake n timedOut) h⟩
  | @dequeue x b hloop hstop h => exact Or.inr ⟨_, rfl, taken (.dequeue x) h⟩
  | @processBatchQueue now order b hpass h => exact Or.inr ⟨_, rfl, taken (.processBatchQueue now order) h⟩
  | @notifyOne n w hn hw => cases w <;> exact Or.inl rfl
  | @spurious w hw => cases w <;> exact Or.inl rfl
  | _ => exact Or.inl rfl

/-- What the manager does is a run of the machine without the condition variable. -/
theorem base_run (s : State) (actions : List Action) :
    ∃ actions', (runFrom (step matchesPattern) s actions).base =
      runFrom (EventManager.step matchesPattern) s.base actions' := by
  induction actions generalizing s with
  | nil => exact ⟨[], rfl⟩
  | cons a actions ih =>
    obtain ⟨rest, hrest⟩ := ih (s.step matchesPattern a)
    rcases @base_step matchesPattern s a with hsame | ⟨a', -, hstep⟩
    · rw [hsame] at hrest
      exact ⟨rest, hrest⟩
    · rw [hstep] at hrest
      exact ⟨a' :: rest, hrest⟩

theorem step_of_returned (h : s.reset = .returned) (a : Action) : s.step matchesPattern a = s := by
  simp [step, act, h]

theorem step_of_enabled (h : s.reset ≠ .returned) (he : s.enabled matchesPattern a = some s') :
    s.step matchesPattern a = s' := by
  simp [step, act, h, he]

theorem step_of_disabled (h : s.enabled matchesPattern a = none) : s.step matchesPattern a = s := by
  simp [step, act, h]

/-- When `resetInstance` has returned, the processing thread has ended. -/
def Over (s : State) : Prop := s.reset = .returned → s.loop = .exited

theorem step_over (h : Over s) (a : Action) : Over (s.step matchesPattern a) := by
  by_cases hret : s.reset = .returned
  · rw [step_of_returned hret]
    exact h
  · have hto : StepTo matchesPattern s a _ := step_to s a
    generalize s.step matchesPattern a = s' at hto ⊢
    intro hret'
    cases hto with
    | join hjoin hloop hbatch => exact hloop
    | stop hidle => cases hret'
    | notifyAll hnotify => cases hret'
    | @notifyOne n w hn hw => cases w <;> exact absurd hret' hret
    | @spurious w hw => cases w <;> exact absurd hret' hret
    | _ => exact absurd hret' hret

/-! ## Lost notifications -/

/-- Somebody is about to notify. -/
def Pending (s : State) : Prop := s.notifying ≠ [] ∨ s.reset = .notify

instance (s : State) : Decidable s.Pending := inferInstanceAs (Decidable (_ ∨ _))

/-- When the processing thread sleeps although there is something to do, it will be
    notified. -/
def Notified (s : State) : Prop := s.loop = .asleep → s.Ready → s.Pending

instance (s : State) : Decidable s.Notified := inferInstanceAs (Decidable (_ → _ → _))

/-- The step takes no notification from the processing thread that it needs: the last one
    of a publisher does not go to a client of `flush`, and the thread does not fall asleep
    on the flag once `resetInstance` has notified. -/
def Heard (s : State) : Action → Prop
  | .notifyOne n (some (.flush m)) =>
    n ∈ s.notifying → m ∈ s.sleepers → s.loop = .asleep → s.Ready → s.notifying.erase n ≠ [] ∨ s.reset = .notify
  | .sleep => s.loop = .block → s.shouldStop = true → s.Pending
  | _ => True

theorem sameQueue_flush {s b : EventManager} (h : s.flush n = some b) : EventManager.SameQueue s b :=
  @EventManager.act_sameQueue (fun _ _ => true) _ _ (.flush n) h (fun _ => by simp) fun _ => by simp

theorem sameQueue_flushWake {s b : EventManager} {timedOut : Bool} (h : s.flushWake n timedOut = some b) :
    EventManager.SameQueue s b :=
  @EventManager.act_sameQueue (fun _ _ => true) _ _ (.flushWake n timedOut) h (fun _ => by simp)
    fun _ => by simp

theorem sameQueue_processBatchQueue {s b : EventManager} {now : Int} {order : List String}
    (h : s.processBatchQueue now order = some b) : EventManager.SameQueue s b :=
  @EventManager.act_sameQueue (fun _ _ => true) _ _ (.processBatchQueue now order) h (fun _ => by simp)
    fun _ => by simp

/-- The thread that is about to sleep has seen an empty queue, and holds the mutex. -/
structure Inv (s : State) : Prop where
  blocked : s.loop = .block → s.base.eventQueue = []
  stopped : s.shouldStop = true ↔ s.reset ≠ .idle

theorem fresh_inv : Inv {} := ⟨by simp, by simp⟩

theorem step_inv (h : Inv s) (a : Action) : Inv (s.step matchesPattern a) := by
  have hto : StepTo matchesPattern s a _ := step_to s a
  generalize s.step matchesPattern a = s' at hto ⊢
  cases hto with
  | stay => exact h
  | other he hact hsame => exact ⟨fun hb => hsame.1.trans (h.blocked hb), h.stopped⟩
  | drop hact hsame => exact ⟨fun hb => hsame.1.trans (h.blocked hb), h.stopped⟩
  | push hfree hact hroom =>
    refine ⟨fun hb => ?_, h.stopped⟩
    rw [show s.loop = .block from hb] at hfree
    cases hfree
  | @notifyOne n w hn hw =>
    cases w with
    | processing => exact ⟨by simp [wake], h.stopped⟩
    | flush m => exact ⟨h.blocked, h.stopped⟩
  | notifyNobody hn hloop => exact ⟨h.blocked, h.stopped⟩
  | flush sleepers hact =>
    exact ⟨fun hb => (sameQueue_flush hact).1.trans (h.blocked hb), h.stopped⟩
  | flushWake sleepers hact =>
    exact ⟨fun hb => (sameQueue_flushWake hact).1.trans (h.blocked hb), h.stopped⟩
  | flushAgain sleepers => exact ⟨h.blocked, h.stopped⟩
  | block hloop hready => exact ⟨fun _ => not_not.mp fun hne => hready (Or.inl hne), h.stopped⟩
  | batchTest batch hidle => exact ⟨h.blocked, h.stopped⟩
  | processBatchQueue hpass hact =>
    exact ⟨fun hb => (sameQueue_processBatchQueue hact).1.trans (h.blocked hb), h.stopped⟩
  | stop hidle => exact ⟨h.blocked, by simp⟩
  | notifyAll hnotify =>
    refine ⟨fun hb => ?_, ?_⟩
    · by_cases hasleep : s.loop = .asleep
      · simp [hasleep] at hb
      · simp only [hasleep, if_false] at hb
        exact h.blocked hb
    · simpa [hnotify] using h.stopped
  | join hjoin hloop hbatch => exact ⟨h.blocked, by simpa [hjoin] using h.stopped⟩
  | @spurious w hw =>
    cases w with
    | processing => exact ⟨by simp [wake], h.stopped⟩
    | flush m => exact ⟨h.blocked, h.stopped⟩
  | _ => exact ⟨by simp, h.stopped⟩

theorem Notified.same (hs : Notified s) (hq : s'.base.eventQueue = s.base.eventQueue)
    (hl : s'.loop = s.loop) (hstop : s'.shouldStop = s.shouldStop) (hn : s'.notifying = s.notifying)
    (hr : s'.reset = s.reset) : Notified s' := by
  unfold Notified Ready Pending
  rw [hq, hl, hstop, hn, hr]
  exact hs

theorem notified_of_awake (h : s.loop ≠ .asleep) : Notified s := fun hasleep => absurd hasleep h

/-- The steps that cannot lose a notification. -/
theorem step_notified (hs : Notified s) (hsleep : a ≠ .sleep)
    (hflush : ∀ n m, a ≠ .notifyOne n (some (.flush m))) : Notified (s.step matchesPattern a) := by
  have hto : StepTo matchesPattern s a _ := step_to s a
  generalize s.step matchesPattern a = s' at hto ⊢
  cases hto with
  | stay => exact hs
  | other he hact hsame => exact hs.same hsame.1 rfl rfl rfl rfl
  | drop hact hsame => exact hs.same hsame.1 rfl rfl rfl rfl
  | push hfree hact hroom => exact fun _ _ => Or.inl (List.cons_ne_nil _ _)
  | @notifyOne n w hn hw =>
    cases w with
    | processing => exact notified_of_awake (by simp [wake])
    | flush m => exact absurd rfl (hflush n m)
  | notifyNobody hn hloop => exact notified_of_awake hloop
  | flush sleepers hact => exact hs.same (sameQueue_flush hact).1 rfl rfl rfl rfl
  | flushWake sleepers hact => exact hs.same (sameQueue_flushWake hact).1 rfl rfl rfl rfl
  | flushAgain sleepers => exact hs.same rfl rfl rfl rfl rfl
  | sleep hloop => exact absurd rfl hsleep
  | batchTest batch hbatch hidle => exact hs.same rfl rfl rfl rfl rfl
  | processBatchQueue hpass hact =>
    exact hs.same (sameQueue_processBatchQueue hact).1 rfl rfl rfl rfl
  | stop hidle => exact fun _ _ => Or.inr rfl
  | notifyAll hnotify =>
    refine notified_of_awake ?_
    by_cases hasleep : s.loop = .asleep <;> simp [hasleep]
  | join hjoin hloop hbatch => exact notified_of_awake (by simp [hloop])
  | @spurious w hw =>
    cases w with
    | processing => exact notified_of_awake (by simp [wake])
    | flush m => exact hs.same rfl rfl rfl rfl rfl
  | _ => exact notified_of_awake (by simp)

theorem sleep_notified_iff (hi : Inv s) (ho : Over s) (hs : Notified s) :
    Notified (s.step matchesPattern .sleep) ↔ Heard s .sleep := by
  by_cases hblock : s.loop = .block
  · have hhere : s.reset ≠ .returned := by
      intro hret
      rw [ho hret] at hblock
      cases hblock
    have hstep : s.step matchesPattern .sleep = { s with loop := .asleep } :=
      step_of_enabled hhere (by simp [enabled, advance, hblock])
    rw [hstep]
    constructor
    · intro h _ hstop
      exact h rfl (Or.inr hstop)
    · intro h _ hready
      rcases hready with hne | hstop
      · exact absurd (hi.blocked hblock) hne
      · exact h hblock hstop
  · rw [step_of_disabled (by simp [enabled, advance, hblock])]
    exact iff_of_true hs fun h => absurd h hblock

theorem notifyOne_notified_iff (ho : Over s) (hs : Notified s) (n m : Nat) :
    Notified (s.step matchesPattern (.notifyOne n (some (.flush m)))) ↔ Heard s (.notifyOne n (some (.flush m))) := by
  by_cases hwakes : n ∈ s.notifying ∧ m ∈ s.sleepers ∧ s.reset ≠ .returned
  · obtain ⟨hn, hm, hhere⟩ := hwakes
    have hstep : s.step matchesPattern (.notifyOne n (some (.flush m))) =
        { s with notifying := s.notifying.erase n, sleepers := s.sleepers.erase m } :=
      step_of_enabled hhere (by simp [enabled, notifyOne, hn, waits, hm, wake])
    rw [hstep]
    exact ⟨fun h _ _ => h, fun h => h hn hm⟩
  · have hstep : s.step matchesPattern (.notifyOne n (some (.flush m))) = s := by
      by_cases hret : s.reset = .returned
      · exact step_of_returned hret _
      · refine step_of_disabled ?_
        by_cases hn : n ∈ s.notifying
        · have hm : m ∉ s.sleepers := fun hm => hwakes ⟨hn, hm, hret⟩
          simp [enabled, notifyOne, hn, waits, hm]
        · simp [enabled, notifyOne, hn]
    rw [hstep]
    refine iff_of_true hs fun hn hm hasleep _ => ?_
    by_contra
    refine hwakes ⟨hn, hm, fun hret => ?_⟩
    rw [ho hret] at hasleep
    cases hasleep

theorem step_notified_iff (hi : Inv s) (ho : Over s) (hs : Notified s) (a : Action) :
    Notified (s.step matchesPattern a) ↔ Heard s a := by
  have lossless : a ≠ .sleep → (∀ n m, a ≠ .notifyOne n (some (.flush m))) → Heard s a →
      (Notified (s.step matchesPattern a) ↔ Heard s a) :=
    fun hsleep hflush hheard => iff_of_true (step_notified hs hsleep hflush) hheard
  cases a with
  | sleep => exact sleep_notified_iff hi ho hs
  | notifyOne n wakes =>
    cases wakes with
    | none => exact lossless (by simp) (by simp) trivial
    | some w =>
      cases w with
      | processing => exact lossless (by simp) (by simp) trivial
      | flush m => exact notifyOne_notified_iff ho hs n m
  | _ => exact lossless (by simp) (by simp) trivial

theorem notified_throughout_iff (actions : List Action) :
    Throughout (step matchesPattern) Notified {} actions ↔ EachStep (step matchesPattern) Heard {} actions := by
  refine throughout_iff_eachStep (I := fun s => Inv s ∧ Over s) (P := Notified) ?_ ?_ ⟨fresh_inv, by simp [Over]⟩
    (notified_of_awake (by simp)) actions
  · intro s a hs
    exact ⟨step_inv hs.1 a, step_over hs.2 a⟩
  · intro s a hs hn
    exact step_notified_iff hs.1 hs.2 hn a

/-! ## After a loss -/

/-- The step brings the processing thread no notification that is not under way: no event
    is accepted, `resetInstance` is not called, and the thread does not wake up by itself. -/
def Silent (s : State) : Action → Prop
  | .push _ => s.base.maxQueueSize ≤ s.base.eventQueue.length
  | .stop => False
  | .spurious w => w ≠ .processing
  | _ => True

/-- The thread sleeps, nobody is about to notify, and the queue is that of `b`. -/
structure Stranded (b : EventManager) (s : State) : Prop where
  asleep : s.loop = .asleep
  silent : ¬ s.Pending
  waiting : s.reset ≠ .returned
  queue : EventManager.SameQueue b s.base

theorem Stranded.same {b : EventManager} (h : Stranded b s) (hq : EventManager.SameQueue s.base s'.base)
    (hl : s'.loop = s.loop) (hn : s'.notifying = s.notifying) (hr : s'.reset = s.reset) : Stranded b s' := by
  refine ⟨hl.trans h.asleep, ?_, hr ▸ h.waiting, ?_⟩
  · unfold Pending
    rw [hn, hr]
    exact h.silent
  · exact ⟨hq.1.trans h.queue.1, hq.2.1.trans h.queue.2.1, hq.2.2.trans h.queue.2.2⟩

theorem step_stranded {b : EventManager} (h : Stranded b s) (hq : Silent s a) :
    Stranded b (s.step matchesPattern a) := by
  have hnobody : s.notifying = [] := by
    by_contra hne
    exact h.silent (Or.inl hne)
  have hto : StepTo matchesPattern s a _ := step_to s a
  generalize s.step matchesPattern a = s' at hto ⊢
  cases hto with
  | stay => exact h
  | other he hact hsame => exact h.same hsame rfl rfl rfl
  | drop hact hsame => exact h.same hsame rfl rfl rfl
  | push hfree hact hroom => exact absurd hroom (Nat.not_lt.mpr hq)
  | notifyOne hn hw => simp [hnobody] at hn
  | notifyNobody hn hloop => simp [hnobody] at hn
  | flush sleepers hact => exact h.same (sameQueue_flush hact) rfl rfl rfl
  | flushWake sleepers hact => exact h.same (sameQueue_flushWake hact) rfl rfl rfl
  | flushAgain sleepers => exact h.same ⟨rfl, rfl, rfl⟩ rfl rfl rfl
  | batchTest batch hbatch hidle => exact h.same ⟨rfl, rfl, rfl⟩ rfl rfl rfl
  | processBatchQueue hpass hact => exact h.same (sameQueue_processBatchQueue hact) rfl rfl rfl
  | stop hidle => exact hq.elim
  | notifyAll hnotify => exact absurd (Or.inr hnotify) h.silent
  | join hjoin hloop hbatch => simp [h.asleep] at hloop
  | @spurious w hw =>
    cases w with
    | processing => exact absurd rfl hq
    | flush m => exact h.same ⟨rfl, rfl, rfl⟩ rfl rfl rfl
  | quit hloop _ | begin hloop _ | enter hloop | found hloop _ | block hloop _ | sleep hloop | stopped hloop _
  | nothing hloop _ _ | dequeue hloop _ _ | again hloop _ => simp [h.asleep] at hloop

theorem stranded_of_not_notified (ho : Over s) (h : ¬ Notified s) : Stranded s.base s := by
  obtain ⟨hasleep, hrest⟩ := Classical.not_imp.mp h
  obtain ⟨-, hsilent⟩ := Classical.not_imp.mp hrest
  refine ⟨hasleep, hsilent, fun hret => ?_, ⟨rfl, rfl, rfl⟩⟩
  rw [ho hret] at hasleep
  cases hasleep

theorem run_over (actions : List Action) : Over (runFrom (step matchesPattern) {} actions) :=
  runFrom_invariant (I := Over) (fun _ a hs => step_over hs a) (by simp [Over]) actions

theorem lost_until_notified {s : State} {before after : List Action} (hs : runFrom (step matchesPattern) {} before = s)
    (hlost : ¬ Notified s) (hsilent : EachStep (step matchesPattern) Silent s after) :
    let s' := runFrom (step matchesPattern) s after
    s'.loop = .asleep ∧ s'.reset ≠ .returned ∧ EventManager.SameQueue s.base s'.base := by
  have ho : Over s := hs ▸ run_over before
  have h := runFrom_eachStep (I := Stranded s.base) (Q := Silent) (fun _ _ hs hq => step_stranded hs hq)
    (stranded_of_not_notified ho hlost) hsilent
  exact ⟨h.asleep, h.waiting, h.queue⟩

/-- The thread sleeps on an empty queue; the notification of a publisher goes to a client
    that has begun to wait in `flush` meanwhile. -/
def stolen : List Action :=
  let e : Event := { type := "build", data := "", id := 1 }
  [.test, .enter, .check, .sleep, .other (.publish 0 e), .push 0, .flush 1, .notifyOne 0 (some (.flush 1))]

/-- `resetInstance` stores the flag and notifies between the predicate and the sleep. -/
def late : List Action := [.test, .enter, .check, .stop, .notifyAll, .sleep]

/-- The event stays in the queue while the client of `flush` sleeps again, is woken by the
    clock, and returns. -/
theorem stolen_notification_leaves_the_event :
    let s := runFrom (step fun _ _ => true) {} stolen
    ¬ Notified s ∧ s.base.eventQueue.length = 1 ∧
      (let s' := runFrom (step fun _ _ => true) s [.flushWake 1 false, .flushWake 1 true]
       s'.loop = .asleep ∧ s'.reset ≠ .returned ∧ EventManager.SameQueue s.base s'.base) := by
  intro s
  have hlost : ¬ Notified s := by decide +kernel
  refine ⟨hlost, by decide +kernel, ?_⟩
  exact @lost_until_notified _ s stolen _ rfl hlost ⟨trivial, trivial, trivial⟩

/-- The thread that `resetInstance` joins sleeps. -/
example :
    let s := runFrom (step fun _ _ => true) {} late
    ¬ Notified s ∧ s.loop = .asleep ∧ s.reset = .join := by
  decide +kernel

end State

end EventWakeups

end DockerCpp
