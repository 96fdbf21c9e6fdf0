/-
  DockerCpp.Core.EventReset — the processing thread left alone, `resetInstance`, and what
  becomes of the events.

  While the other threads stand still, every step of the processing thread makes `drainSteps`
  smaller, and it can take one until it sleeps on an empty queue or waits for a
  `batches_mutex_` that another thread owns (`processing_empties_queue`). Once the flag is
  stored, a thread that is neither asleep nor about to sleep ends by its own steps: it
  finishes the event it has, and takes no other (`processing_thread_ends`).

  What `resetInstance` leaves behind is exact: when it returns,
  both threads are out of every delivery, so an accepted event was delivered to all
  subscriptions that matched it, or is still in the queue or in a batch and will not be
  delivered, or is in the hands of a client that is in `flush` or `disableBatching`
  (`returned_leaves`).
-/

import DockerCpp.Core.EventFlush
import DockerCpp.Core.EventProgress
import DockerCpp.Core.EventWakeups

namespace DockerCpp

open Lib

namespace EventManager

variable {matchesPattern : String → String → Bool}

/-- Only these steps begin the work of a thread of the manager. -/
def Action.begins : Thread → Action → Bool
  | .processing, .dequeue _ => true
  | .batch, .processBatchQueue _ _ => true
  | .client _, _ => true
  | _, _ => false

theorem goto_idle {s s' : EventManager} {t u : Thread} {pc : Pc} (hidle : s.pcs t = .idle)
    (hp : s'.pcs = Function.update s.pcs u pc) (hu : s.pcs u ≠ .idle) : s'.pcs t = .idle := by
  have hne : t ≠ u := by
    intro heq
    rw [heq] at hidle
    exact hu hidle
  rw [hp, Function.update_of_ne hne]
  exact hidle

theorem resume_pcs (s : EventManager) (t : Thread) (k : After) :
    ∃ pc, (s.resume t k).pcs = Function.update s.pcs t pc := by
  cases k with
  | types rest => cases rest <;> exact ⟨_, rfl⟩
  | flushing rest =>
    cases rest with
    | nil => exact ⟨_, rfl⟩
    | cons ty rest =>
      simp only [resume]
      split <;> exact ⟨_, rfl⟩
  | _ => exact ⟨_, rfl⟩

theorem step_idle {s : EventManager} {t : Thread} (hidle : s.pcs t = .idle) {a : Action} (ha : a.begins t = false) :
    (s.step matchesPattern a).pcs t = .idle := by
  have hto := step_to matchesPattern s a
  generalize s.step matchesPattern a = s' at hto ⊢
  have client : ∀ {n : Nat} {pc : Pc}, s'.pcs = Function.update s.pcs (.client n) pc → s'.pcs t = .idle := by
    intro n pc hp
    rw [hp]
    cases t with
    | client m => cases ha
    | processing | batch => exact hidle
  cases hto with
  | stay | subscribe pattern | setMaxQueueSize maxSize | enableBatching ty interval size now hfree
  | eraseBatch hfree hempty => exact hidle
  | unsubscribe id =>
    unfold unsubscribe
    split <;> exact hidle
  | publish e hpc => exact client rfl
  | drop hpc hfull => exact client rfl
  | push hpc hroom hx => exact client rfl
  | dequeue hpc htop =>
    cases t with
    | processing => cases ha
    | batch | client n => exact hidle
  | direct hpc hfree hoff => exact goto_idle hidle rfl (by rw [hpc]; simp)
  | batched hpc hfree hc hpend hnext => exact goto_idle hidle rfl (by rw [hpc]; simp)
  | takeBatch hpc ho =>
    unfold takeBatch
    split <;> exact goto_idle hidle rfl (by rw [hpc]; simp)
  | endDelivery hpc => exact goto_idle hidle rfl (by rw [hpc]; simp)
  | snapshot hpc => exact goto_idle hidle rfl (by rw [hpc]; simp)
  | call hpc => exact goto_idle hidle rfl (by rw [hpc]; simp)
  | finish hpc => exact goto_idle hidle rfl (by rw [hpc]; simp)
  | @resume u k hpc =>
    obtain ⟨pc, hpcs⟩ := resume_pcs s u k
    exact goto_idle hidle hpcs (by rw [hpc]; simp)
  | closeBatch ty hpc hfree => exact client rfl
  | scan types hpc hfree =>
    cases t with
    | batch => cases ha
    | processing | client n => exact hidle
  | flush hpc hnext => exact client rfl
  | flushLock order hpc hfree => exact client rfl

theorem step_batchThread {s : EventManager} {a : Action} (h : (s.step matchesPattern a).batchThread = false) :
    s.batchThread = false := by
  have hto := step_to matchesPattern s a
  generalize s.step matchesPattern a = s' at hto h
  cases hto with
  | unsubscribe id =>
    unfold unsubscribe at h
    split at h <;> exact h
  | takeBatch hpc ho =>
    unfold takeBatch at h
    split at h <;> exact h
  | @resume t k hpc =>
    cases k with
    | types rest => cases rest <;> exact h
    | flushing rest =>
      cases rest with
      | nil => exact h
      | cons ty rest =>
        simp only [resume] at h
        split at h <;> exact h
    | _ => exact h
  | enableBatching ty interval size now hfree => cases h
  | _ => exact h

end EventManager

namespace EventWakeups

namespace State

variable {matchesPattern : String → String → Bool}

/-! ## Where the two threads are -/

/-- Outside of its deliveries a thread has nothing in its hands, and when `resetInstance`
    has returned both threads have ended. -/
structure Lines (s : State) : Prop where
  processing : s.loop ≠ .handle → s.base.pcs .processing = .idle
  batch : s.batch = .exited ∨ s.base.batchThread = false → s.base.pcs .batch = .idle
  returned : s.reset = .returned → s.loop = .exited ∧ (s.base.batchThread = true → s.batch = .exited)

theorem Lines.same {s s' : State} (h : Lines s) (hb : s'.base = s.base) (hp : s'.loop ≠ .handle → s.loop ≠ .handle)
    (hbatch : s'.batch = s.batch) (hr : s'.reset ≠ .returned) : Lines s' := by
  refine ⟨fun hl => ?_, fun hx => ?_, fun hx => absurd hx hr⟩
  · rw [hb]
    exact h.processing (hp hl)
  · rw [hb]
    rw [hb, hbatch] at hx
    exact h.batch hx

/-- A step of the machine below that begins nothing. -/
theorem Lines.below {s s' : State} (h : Lines s) {a : EventManager.Action} {b : EventManager}
    (hact : s.base.act matchesPattern a = some b) (hb : s'.base = b) (hp : a.begins .processing = false)
    (hq : a.begins .batch = false) (hl : s'.loop = s.loop) (hbatch : s'.batch = s.batch) (hr : s'.reset ≠ .returned) :
    Lines s' := by
  have hstep : b = s.base.step matchesPattern a := by simp [EventManager.step, hact]
  rw [hstep] at hb
  refine ⟨fun hloop => ?_, fun hx => ?_, fun hx => absurd hx hr⟩
  · rw [hl] at hloop
    rw [hb]
    exact EventManager.step_idle (h.processing hloop) hp
  · rw [hb]
    refine EventManager.step_idle (h.batch ?_) hq
    rw [hb, hbatch] at hx
    exact hx.imp_right EventManager.step_batchThread

variable {s : State} {x : Accepted} {a : Action}

theorem elsewhere_begins {a : EventManager.Action} (h : s.elsewhere a = true) :
    a.begins .processing = false ∧ a.begins .batch = false := by
  cases a <;> simp [elsewhere, EventManager.Action.begins] at h ⊢

theorem step_lines (h : Lines s) (a : Action) : Lines (s.step matchesPattern a) := by
  by_cases hret : s.reset = .returned
  · rw [step_of_returned hret]
    exact h
  · have hto : StepTo matchesPattern s a _ := step_to s a
    generalize s.step matchesPattern a = s' at hto ⊢
    cases hto with
    | stay => exact h
    | other he hact hsame =>
      obtain ⟨hp, hq⟩ := elsewhere_begins he
      exact h.below hact rfl hp hq rfl rfl hret
    | @drop n b hact hsame =>
      exact @Lines.below matchesPattern _ _ h (.push n) _ hact rfl rfl rfl rfl rfl hret
    | @push n b hfree hact hroom =>
      exact @Lines.below matchesPattern _ _ h (.push n) _ hact rfl rfl rfl rfl rfl hret
    | @notifyOne n w hn hw =>
      cases w with
      | processing =>
        have hloop : s.loop = .asleep := by simpa [waits] using hw
        exact h.same rfl (by simp [hloop]) rfl hret
      | flush m => exact h.same rfl id rfl hret
    | notifyNobody hn hloop => exact h.same rfl id rfl hret
    | @flush n b sleepers hact =>
      exact @Lines.below matchesPattern _ _ h (.flush n) _ hact rfl rfl rfl rfl rfl hret
    | @flushWake n timedOut b sleepers hact =>
      exact @Lines.below matchesPattern _ _ h (.flushWake n timedOut) _ hact rfl rfl rfl rfl rfl hret
    | flushAgain sleepers => exact h.same rfl id rfl hret
    | quit hloop _ | begin hloop _ | enter hloop | found hloop _ | block hloop _ | sleep hloop | stopped hloop _
    | nothing hloop _ _ => exact h.same rfl (by simp [hloop]) rfl hret
    | @dequeue x b hloop hstop hact =>
      have hstep : b = s.base.step matchesPattern (.dequeue x) := by simp [EventManager.step, EventManager.act, hact]
      refine ⟨by simp, fun hx => ?_, fun hx => absurd hx hret⟩
      rw [hstep]
      refine EventManager.step_idle (h.batch ?_) rfl
      rw [hstep] at hx
      exact hx.imp_right EventManager.step_batchThread
    | again hloop hidle => exact ⟨fun _ => hidle, h.batch, fun hx => absurd hx hret⟩
    | batchTest batch hbatch hidle =>
      refine ⟨h.processing, fun hx => ?_, fun hx => absurd hx hret⟩
      rcases hx with hx | hx
      · exact hidle hx
      · exact h.batch (Or.inr hx)
    | @processBatchQueue now order b hpass hact =>
      have hstep : b = s.base.step matchesPattern (.processBatchQueue now order) := by
        simp [EventManager.step, EventManager.act, hact]
      refine ⟨fun hloop => ?_, fun hx => ?_, fun hx => absurd hx hret⟩
      · rw [hstep]
        exact EventManager.step_idle (h.processing hloop) rfl
      · -- the batch thread is there: it makes the pass
        rcases hx with hx | hx
        · cases hx
        · simp only [EventManager.processBatchQueue] at hact
          split at hact
          · rename_i hidle
            cases hact
            exact absurd (hx.symm.trans hidle.2.1) (by simp)
          · cases hact
    | stop hidle => exact h.same rfl id rfl (by simp)
    | notifyAll hnotify =>
      refine h.same rfl ?_ rfl (by simp)
      by_cases hasleep : s.loop = .asleep <;> simp [hasleep]
    | join hjoin hloop hbatch => exact ⟨h.processing, h.batch, fun _ => ⟨hloop, hbatch⟩⟩
    | @spurious w hw =>
      cases w with
      | processing =>
        have hloop : s.loop = .asleep := by simpa [waits] using hw
        exact h.same rfl (by simp [hloop]) rfl hret
      | flush m => exact h.same rfl id rfl hret

theorem run_lines (actions : List Action) : Lines (runFrom (step matchesPattern) {} actions) :=
  runFrom_invariant (I := Lines) (fun _ a hs => step_lines hs a) ⟨fun _ => rfl, fun _ => rfl, by simp⟩ actions

theorem run_base_known (actions : List Action) :
    EventManager.Known matchesPattern (runFrom (step matchesPattern) {} actions).base := by
  obtain ⟨actions', hbase⟩ := @base_run matchesPattern {} actions
  rw [hbase]
  exact EventManager.run_known actions'

/-- What is known of every state of a run. -/
structure Reached (matchesPattern : String → String → Bool) (s : State) : Prop where
  base : EventManager.Known matchesPattern s.base
  lines : Lines s

theorem run_reached (actions : List Action) :
    Reached matchesPattern (runFrom (step matchesPattern) {} actions) := ⟨run_base_known actions, run_lines actions⟩

/-! ## The steps of the processing thread -/

def Action.processing : Action → Bool
  | .test | .enter | .check | .sleep | .leave _ | .again => true
  | .other a => a.processing
  | _ => false

/-- What the processing thread can do next. -/
def Proceeds (matchesPattern : String → String → Bool) (s : State) (a : Action) : Prop :=
  a.processing = true ∧ (s.act matchesPattern a).isSome = true

instance (s : State) (a : Action) : Decidable (Proceeds matchesPattern s a) := inferInstanceAs (Decidable (_ ∧ _))

/-- The thread with the event it has dequeued. -/
theorem handling_shorter (h : Reached matchesPattern s) {a : EventManager.Action} (ha : a.processing = true)
    (he : s.elsewhere a = true) {b : EventManager} (hb : s.base.act matchesPattern a = some b) :
    s.loop = .handle ∧ EventManager.Known matchesPattern b ∧ EventManager.Shorter s.base b := by
  have hbusy : s.base.pcs .processing ≠ .idle → s.loop = .handle := by
    intro hpc
    by_contra hloop
    exact hpc (h.lines.processing hloop)
  have hknown : EventManager.Known matchesPattern b := by
    have hknown := EventManager.step_known h.base a
    rwa [EventManager.step, hb, Option.getD_some] at hknown
  cases a with
  | processEvent now =>
    refine ⟨hbusy fun hpc => ?_, hknown, EventManager.processEvent_shorter hb⟩
    simp [EventManager.act, EventManager.processEvent, hpc] at hb
  | work t =>
    cases t with
    | processing =>
      refine ⟨hbusy fun hpc => ?_, hknown, EventManager.work_shorter h.base.fits hb⟩
      simp [EventManager.act, EventManager.work, hpc] at hb
    | batch | client n => cases ha
  | dequeue x => cases he
  | _ => cases ha

/-- A thread that cannot go on with its event waits for the mutex. -/
theorem handling_blocked (h : Reached matchesPattern s) (hhere : s.reset ≠ .returned)
    (hloop : s.loop = .handle) (hnone : ∀ a, ¬ Proceeds matchesPattern s a) : s.base.Blocked := by
  have stuck : ∀ a : Action, a.processing = true → (s.enabled matchesPattern a).isSome = true → False :=
    fun a ha he => hnone a ⟨ha, by simpa [act, hhere] using he⟩
  by_cases hidle : s.base.pcs .processing = .idle
  · exact (stuck .again rfl (by simp [enabled, advance, hloop, hidle])).elim
  · refine @EventManager.blocked_of_disabled matchesPattern _ h.base.fits h.base.owned hidle ?_
    intro a ha
    cases hact : s.base.act matchesPattern a with
    | none => rfl
    | some b =>
      by_cases he : s.elsewhere a = true
      · exact (stuck (.other a) ha (by simp [enabled, he, hact])).elim
      · -- the thread is not at its queue
        cases a with
        | dequeue x => simp [EventManager.act, EventManager.dequeue, hidle] at hact
        | processEvent now => exact absurd rfl he
        | work t => exact absurd rfl he
        | _ => cases ha

/-! ## The processing thread empties the queue -/

/-- The thread ends only at the flag. -/
def Exits (s : State) : Prop := s.loop = .exited → s.shouldStop = true

theorem step_exits (h : Exits s) (a : Action) : Exits (s.step matchesPattern a) := by
  have hto : StepTo matchesPattern s a _ := step_to s a
  generalize s.step matchesPattern a = s' at hto ⊢
  cases hto with
  | quit hloop hstop => exact fun _ => hstop
  | stopped hloop hstop => exact fun _ => hstop
  | stop hidle => exact fun _ => rfl
  | notifyAll hnotify =>
    intro hexited
    by_cases hasleep : s.loop = .asleep
    · simp [hasleep] at hexited
    · exact h (by simpa [hasleep] using hexited)
  | @notifyOne n w hn hw =>
    cases w with
    | processing => exact fun hexited => by cases hexited
    | flush m => exact h
  | @spurious w hw =>
    cases w with
    | processing => exact fun hexited => by cases hexited
    | flush m => exact h
  | begin | enter | found | block | sleep | nothing | dequeue | again => exact fun hexited => by cases hexited
  | _ => exact h

/-- The steps around the loop that the thread takes at most before it has an event or
    sleeps. -/
def loopSteps (s : State) : Nat :=
  match s.loop with
  | .handle => 5
  | .test => 4
  | .enter => 3
  | .check => 2
  | .block => 1
  | .leave => if s.base.eventQueue = [] then 5 else 1
  | .asleep | .exited => 0

def drainSteps (s : State) : Nat := s.base.drainSteps + 5 * s.base.eventQueue.length + s.loopSteps

/-- The flag is not stored, and a thread that sleeps has seen an empty queue. -/
structure Draining (matchesPattern : String → String → Bool) (s : State) : Prop extends Reached matchesPattern s where
  running : s.shouldStop = false
  here : s.reset ≠ .returned
  looping : s.loop ≠ .exited
  blocked : s.loop = .block → s.base.eventQueue = []
  asleep : s.loop = .asleep → s.base.eventQueue = []

theorem dequeue_length {s b : EventManager} (h : s.dequeue x = some b) :
    s.eventQueue.length = b.eventQueue.length + 1 := by
  unfold EventManager.dequeue at h
  split at h
  · rename_i htop
    cases h
    have hlen := List.length_erase_of_mem htop.2.1
    have hpos := List.length_pos_of_mem htop.2.1
    show _ = (s.eventQueue.erase x).length + 1
    omega
  · cases h

theorem proceeds_draining (h : Draining matchesPattern s) (hp : Proceeds matchesPattern s a) :
    Draining matchesPattern (s.step matchesPattern a) ∧ (s.step matchesPattern a).drainSteps < s.drainSteps := by
  have hlines := @step_lines matchesPattern _ h.lines a
  obtain ⟨s', hs'⟩ := Option.isSome_iff_exists.mp hp.2
  have hstep : s.step matchesPattern a = s' := by rw [step, hs', Option.getD_some]
  have he : s.enabled matchesPattern a = some s' := by simpa [act, h.here] using hs'
  rw [hstep] at hlines ⊢
  have advanced : ∀ {loop : Loop}, s' = { s with loop := loop } → loop ≠ .exited →
      (loop = .block → s.base.eventQueue = []) → (loop = .asleep → s.base.eventQueue = []) → Draining matchesPattern s' := by
    intro loop hs hlooping hblocked hasleep
    subst hs
    exact ⟨⟨h.base, hlines⟩, h.running, h.here, hlooping, hblocked, hasleep⟩
  cases a with
  | test =>
    obtain ⟨hloop, rfl⟩ := advance_some he
    simp only [h.running, Bool.false_eq_true, if_false] at advanced ⊢
    exact ⟨advanced rfl (by simp) (by simp) (by simp), by simp [drainSteps, loopSteps, hloop]⟩
  | enter =>
    obtain ⟨hloop, rfl⟩ := advance_some he
    exact ⟨advanced rfl (by simp) (by simp) (by simp), by simp [drainSteps, loopSteps, hloop]⟩
  | check =>
    obtain ⟨hloop, rfl⟩ := advance_some he
    by_cases hempty : s.base.eventQueue = []
    · have hready : ¬ s.Ready := by simp [Ready, hempty, h.running]
      rw [if_neg hready] at advanced ⊢
      exact ⟨advanced rfl (by simp) (fun _ => hempty) (by simp), by simp [drainSteps, loopSteps, hloop]⟩
    · have hready : s.Ready := Or.inl hempty
      rw [if_pos hready] at advanced ⊢
      exact ⟨advanced rfl (by simp) (by simp) (by simp), by simp [drainSteps, loopSteps, hloop, hempty]⟩
  | sleep =>
    obtain ⟨hloop, rfl⟩ := advance_some he
    exact ⟨advanced rfl (by simp) (by simp) fun _ => h.blocked hloop, by simp [drainSteps, loopSteps, hloop]⟩
  | leave x =>
    simp only [enabled, leave] at he
    split at he
    · cases he
    · rename_i hloop
      have hloop : s.loop = .leave := not_not.mp hloop
      rw [if_neg (by simp [h.running])] at he
      split at he
      · rename_i hempty
        cases he
        exact ⟨advanced rfl (by simp) (by simp) (by simp), by simp [drainSteps, loopSteps, hloop, hempty]⟩
      · rename_i hne
        obtain ⟨b, hb, rfl⟩ := Option.map_eq_some_iff.mp he
        have hknown : EventManager.Known matchesPattern b := by
          have hknown := EventManager.step_known h.base (.dequeue x)
          rwa [EventManager.step, EventManager.act, hb, Option.getD_some] at hknown
        refine ⟨⟨⟨hknown, hlines⟩, h.running, h.here, by simp, by simp, by simp⟩, ?_⟩
        obtain ⟨gone, hgone⟩ := h.base.accounted
        have hless := EventManager.dequeue_decreases hgone hb
        have hlen := dequeue_length hb
        simp only [drainSteps, loopSteps, hloop, hne, if_false]
        omega
  | again =>
    simp only [enabled] at he
    split at he
    · obtain ⟨hloop, rfl⟩ := advance_some he
      exact ⟨advanced rfl (by simp) (by simp) (by simp), by simp [drainSteps, loopSteps, hloop]⟩
    · cases he
  | other a =>
    simp only [enabled] at he
    split at he
    · rename_i helse
      obtain ⟨b, hb, rfl⟩ := Option.map_eq_some_iff.mp he
      obtain ⟨hloop, hknown, hshorter⟩ := handling_shorter h.toReached hp.1 helse hb
      refine ⟨⟨⟨hknown, hlines⟩, h.running, h.here, h.looping, by simp [hloop], by simp [hloop]⟩, ?_⟩
      have hless := hshorter.drainSteps
      simp only [drainSteps, loopSteps, hloop, hshorter.queue]
      omega
    · cases he
  | _ => cases hp.1

theorem drained_of_disabled (h : Draining matchesPattern s) (hnone : ∀ a, ¬ Proceeds matchesPattern s a) :
    (s.loop = .asleep ∧ s.base.eventQueue = [] ∧ s.base.pcs .processing = .idle) ∨ s.base.Blocked := by
  have stuck : ∀ a : Action, a.processing = true → (s.enabled matchesPattern a).isSome = true → False :=
    fun a ha he => hnone a ⟨ha, by simpa [act, h.here] using he⟩
  cases hloop : s.loop with
  | test => exact (stuck .test rfl (by simp [enabled, advance, hloop])).elim
  | enter => exact (stuck .enter rfl (by simp [enabled, advance, hloop])).elim
  | check => exact (stuck .check rfl (by simp [enabled, advance, hloop])).elim
  | block => exact (stuck .sleep rfl (by simp [enabled, advance, hloop])).elim
  | asleep => exact Or.inl ⟨rfl, h.asleep hloop, h.lines.processing (by simp [hloop])⟩
  | leave =>
    have hidle := h.lines.processing (by simp [hloop])
    by_cases hempty : s.base.eventQueue = []
    · exact (stuck (.leave ⟨0, { type := "", data := "", id := 0 }⟩) rfl
        (by simp [enabled, leave, hloop, h.running, hempty])).elim
    · obtain ⟨x, hx⟩ := EventManager.exists_isTop hempty
      exact (stuck (.leave x) rfl
        (by simp [enabled, leave, hloop, h.running, hempty, EventManager.dequeue, hidle, hx])).elim
  | handle => exact Or.inr (handling_blocked h.toReached h.here hloop hnone)
  | exited => exact absurd hloop h.looping

/-- Before `resetInstance`, a processing thread that does not sleep, left to run alone, stops
    within `drainSteps`: asleep with the queue empty and its event dealt with, or at
    `batches_mutex_` while another thread owns it. -/
theorem processing_empties_queue {s : State} {before actions : List Action}
    (hs : runFrom (step matchesPattern) {} before = s) (hrunning : s.shouldStop = false) (hawake : s.loop ≠ .asleep)
    (hproceeds : EachStep (step matchesPattern) (Proceeds matchesPattern) s actions) :
    let s' := runFrom (step matchesPattern) s actions
    actions.length ≤ s.drainSteps ∧ ((∀ a, ¬ Proceeds matchesPattern s' a) →
      (s'.loop = .asleep ∧ s'.base.eventQueue = [] ∧ s'.base.pcs .processing = .idle) ∨ s'.base.Blocked) := by
  have hinv : Inv s := hs ▸ runFrom_invariant (I := Inv) (fun _ a hi => step_inv hi a) fresh_inv before
  have hexits : Exits s := hs ▸ runFrom_invariant (I := Exits) (fun _ a hi => step_exits hi a) (by simp [Exits]) before
  have hover : Over s := hs ▸ runFrom_invariant (I := Over) (fun _ a hi => step_over hi a) (by simp [Over]) before
  have hlooping : s.loop ≠ .exited := by
    intro hexited
    simp [hexits hexited] at hrunning
  have hdraining : Draining matchesPattern s :=
    ⟨hs ▸ run_reached before, hrunning, fun hret => hlooping (hover hret), hlooping, hinv.blocked, fun h => absurd h hawake⟩
  have hlast := runFrom_eachStep (I := Draining matchesPattern) (fun _ _ hs hp => (proceeds_draining hs hp).1) hdraining
    hproceeds
  have hle := length_add_le_of_decreasing (μ := drainSteps) (fun _ _ hs hp => (proceeds_draining hs hp).1)
    (fun _ _ hs hp => (proceeds_draining hs hp).2) hdraining hproceeds
  exact ⟨by omega, drained_of_disabled hlast⟩

def build : Event := { type := "build", data := "", id := 1 }

def deploy : Event := { type := "deploy", data := "", id := 2 }

/-- The thread has dequeued one event, and another one is in the queue. -/
def busy : List Action :=
  [.other (.subscribe "*"), .other (.publish 0 build), .push 0, .notifyOne 0 none, .test, .enter, .check, .leave ⟨0, build⟩,
    .other (.publish 0 deploy), .push 0, .notifyOne 0 none]

/-- The steps for one event that one subscription matches. -/
def handleOne : List Action := .other (.processEvent 0) :: List.replicate 6 (.other (.work .processing)) ++ [.again]

def empty : List Action :=
  handleOne ++ [.test, .enter, .check, .leave ⟨1, deploy⟩] ++ handleOne ++ [.test, .enter, .check, .sleep]

theorem busy_thread_empties_queue :
    let s := runFrom (step fun _ _ => true) {} busy
    let s' := runFrom (step fun _ _ => true) s empty
    s.base.pcs .processing = .dequeued ⟨0, build⟩ ∧ s.base.eventQueue = [⟨1, deploy⟩] ∧ s'.loop = .asleep ∧
      empty.length ≤ s.drainSteps ∧ ((∀ a, ¬ Proceeds (fun _ _ => true) s' a) →
        (s'.loop = .asleep ∧ s'.base.eventQueue = [] ∧ s'.base.pcs .processing = .idle) ∨ s'.base.Blocked) :=
  ⟨by decide +kernel, by decide +kernel, by decide +kernel,
    @processing_empties_queue _ _ busy _ rfl (by decide +kernel) (by decide +kernel) (by decide +kernel)⟩

/-! ## The processing thread ends -/

/-- The steps the processing thread still takes once the flag is stored, at most. -/
def exitSteps (s : State) : Nat :=
  match s.loop with
  | .handle => s.base.stepsLeft (s.base.pcs .processing) + 2
  | .enter => 3
  | .check => 2
  | .test | .leave => 1
  | .block | .asleep | .exited => 0

/-- The flag is stored, and the thread does not wait. -/
structure Ending (matchesPattern : String → String → Bool) (s : State) : Prop extends Reached matchesPattern s where
  stop : s.shouldStop = true
  awake : s.loop ≠ .asleep
  outside : s.loop ≠ .block
  here : s.reset ≠ .returned

theorem proceeds_ending (h : Ending matchesPattern s) (hp : Proceeds matchesPattern s a) :
    Ending matchesPattern (s.step matchesPattern a) ∧ (s.step matchesPattern a).exitSteps < s.exitSteps := by
  have hlines := @step_lines matchesPattern _ h.lines a
  obtain ⟨s', hs'⟩ := Option.isSome_iff_exists.mp hp.2
  have hstep : s.step matchesPattern a = s' := by rw [step, hs', Option.getD_some]
  have he : s.enabled matchesPattern a = some s' := by simpa [act, h.here] using hs'
  have hready : s.Ready := Or.inr h.stop
  rw [hstep] at hlines ⊢
  have advanced : ∀ {loop : Loop}, s' = { s with loop := loop } → loop ≠ .asleep → loop ≠ .block →
      Ending matchesPattern s' := by
    intro loop hs hawake houtside
    subst hs
    exact ⟨⟨h.base, hlines⟩, h.stop, hawake, houtside, h.here⟩
  cases a with
  | test =>
    obtain ⟨hloop, rfl⟩ := advance_some he
    rw [if_pos h.stop] at advanced ⊢
    exact ⟨advanced rfl (by simp) (by simp), by simp [exitSteps, hloop]⟩
  | enter =>
    obtain ⟨hloop, rfl⟩ := advance_some he
    exact ⟨advanced rfl (by simp) (by simp), by simp [exitSteps, hloop]⟩
  | check =>
    obtain ⟨hloop, rfl⟩ := advance_some he
    rw [if_pos hready] at advanced ⊢
    exact ⟨advanced rfl (by simp) (by simp), by simp [exitSteps, hloop]⟩
  | sleep =>
    obtain ⟨hloop, rfl⟩ := advance_some he
    exact absurd hloop h.outside
  | leave x =>
    simp only [enabled, leave] at he
    split at he
    · cases he
    · rename_i hloop
      have hloop : s.loop = .leave := not_not.mp hloop
      rw [if_pos h.stop] at he
      cases he
      exact ⟨advanced rfl (by simp) (by simp), by simp [exitSteps, hloop]⟩
  | again =>
    simp only [enabled] at he
    split at he
    · obtain ⟨hloop, rfl⟩ := advance_some he
      refine ⟨advanced rfl (by simp) (by simp), ?_⟩
      simp only [exitSteps, hloop]
      omega
    · cases he
  | other a =>
    simp only [enabled] at he
    split at he
    · rename_i helse
      obtain ⟨b, hb, rfl⟩ := Option.map_eq_some_iff.mp he
      obtain ⟨hloop, hknown, hshorter⟩ := handling_shorter h.toReached hp.1 helse hb
      refine ⟨⟨⟨hknown, hlines⟩, h.stop, h.awake, h.outside, h.here⟩, ?_⟩
      have hless := hshorter.less
      simp only [exitSteps, hloop]
      omega
    · cases he
  | _ => cases hp.1

theorem exited_of_disabled (h : Ending matchesPattern s) (hnone : ∀ a, ¬ Proceeds matchesPattern s a) :
    s.loop = .exited ∨ s.base.Blocked := by
  have stuck : ∀ a : Action, a.processing = true → (s.enabled matchesPattern a).isSome = true → False := by
    intro a ha he
    exact hnone a ⟨ha, by simpa [act, h.here] using he⟩
  have anything : Accepted := ⟨0, { type := "", data := "", id := 0 }⟩
  cases hloop : s.loop with
  | test => exact (stuck .test rfl (by simp [enabled, advance, hloop])).elim
  | enter => exact (stuck .enter rfl (by simp [enabled, advance, hloop])).elim
  | check => exact (stuck .check rfl (by simp [enabled, advance, hloop])).elim
  | block => exact absurd hloop h.outside
  | asleep => exact absurd hloop h.awake
  | leave => exact (stuck (.leave anything) rfl (by simp [enabled, leave, hloop, h.stop])).elim
  | handle => exact Or.inr (handling_blocked h.toReached h.here hloop hnone)
  | exited => exact Or.inl rfl

/-- The thread that sees the flag takes no event. -/
theorem proceeds_dequeued (h : Ending matchesPattern s) (hp : Proceeds matchesPattern s a) :
    (s.step matchesPattern a).base.dequeued = s.base.dequeued := by
  have hto : StepTo matchesPattern s a _ := step_to s a
  generalize s.step matchesPattern a = s' at hto ⊢
  cases hto with
  | other he hact hsame => exact hsame.2.2
  | dequeue hloop hstop hact => simp [h.stop] at hstop
  | drop | push | notifyOne | flush | flushWake | processBatchQueue | spurious => cases hp.1
  | _ => rfl

/-- From the notification of `resetInstance` on: the thread that is not about to sleep, left to
    run alone, takes no other event, and ends within the steps it still has for the one it
    holds, unless another thread keeps `batches_mutex_`. -/
theorem processing_thread_ends {s : State} {before actions : List Action}
    (hs : runFrom (step matchesPattern) {} before = s) (hjoin : s.reset = .join) (hawake : s.loop ≠ .asleep)
    (houtside : s.loop ≠ .block) (hproceeds : EachStep (step matchesPattern) (Proceeds matchesPattern) s actions) :
    let s' := runFrom (step matchesPattern) s actions
    actions.length ≤ s.exitSteps ∧ s'.base.dequeued = s.base.dequeued ∧
      ((∀ a, ¬ Proceeds matchesPattern s' a) → s'.loop = .exited ∨ s'.base.Blocked) := by
  have hinv : Inv s := hs ▸ runFrom_invariant (I := Inv) (fun _ a hi => step_inv hi a) fresh_inv before
  have hending : Ending matchesPattern s :=
    ⟨hs ▸ run_reached before, hinv.stopped.mpr (by simp [hjoin]), hawake, houtside, by simp [hjoin]⟩
  have hlast := runFrom_eachStep (I := fun s' => Ending matchesPattern s' ∧ s'.base.dequeued = s.base.dequeued)
    (fun _ _ hs hp => ⟨(proceeds_ending hs.1 hp).1, (proceeds_dequeued hs.1 hp).trans hs.2⟩) ⟨hending, rfl⟩ hproceeds
  have hle := length_add_le_of_decreasing (μ := exitSteps) (fun _ _ hs hp => (proceeds_ending hs hp).1)
    (fun _ _ hs hp => (proceeds_ending hs hp).2) hending hproceeds
  exact ⟨by omega, hlast.2, exited_of_disabled hlast.1⟩

def stopped : List Action := busy ++ [.stop, .notifyAll]

def finish : List Action := handleOne ++ [.test]

/-- The thread finishes its event and leaves the other one in the queue. -/
theorem busy_thread_ends :
    let s := runFrom (step fun _ _ => true) {} stopped
    let s' := runFrom (step fun _ _ => true) s finish
    s.base.pcs .processing = .dequeued ⟨0, build⟩ ∧ s'.loop = .exited ∧ s'.base.eventQueue = [⟨1, deploy⟩] ∧
      finish.length ≤ s.exitSteps ∧ s'.base.dequeued = s.base.dequeued ∧
      ((∀ a, ¬ Proceeds (fun _ _ => true) s' a) → s'.loop = .exited ∨ s'.base.Blocked) :=
  ⟨by decide +kernel, by decide +kernel, by decide +kernel,
    @processing_thread_ends _ _ stopped _ rfl (by decide +kernel) (by decide +kernel) (by decide +kernel)
      (by decide +kernel)⟩

/-! ## What is left behind -/

/-- No `enableBatching` drops pending events. -/
def Careful (s : State) (a : Action) : Prop := ∀ a', a = .other a' → s.base.Careful a'

theorem careful_accounted (h : EventManager.Accounted matchesPattern [] s.base)
    (hc : Careful s a) : EventManager.Accounted matchesPattern [] (s.step matchesPattern a).base := by
  rcases @base_step matchesPattern s a with hsame | ⟨a', hbelow, hstep⟩
  · rw [hsame]
    exact h
  · have hlost : s.base.lostBy a' = [] := by
      cases a' with
      | enableBatching ty interval size now =>
        have hcareful : s.base.batchesOwner = none → s.base.pending ty = [] := by
          cases a with
          | other a => exact hc _ (congrArg Action.other (Option.some.inj hbelow))
          | _ => cases hbelow
        simp only [EventManager.lostBy]
        split
        · rename_i hfree
          exact hcareful hfree
        · rfl
      | _ => rfl
    have hnext := EventManager.step_accounted matchesPattern h a'
    rw [hlost, List.append_nil] at hnext
    rw [hstep]
    exact hnext

/-- An event that waits in a place of the manager has not been given to anybody. -/
theorem callsOf_of_waiting {s : EventManager} (h : EventManager.Accounted matchesPattern [] s) {p : Place}
    (hp : p = .queue ∨ ∃ ty, p = .pending ty) (hx : x ∈ s.things p) : s.callsOf x.ticket = [] := by
  have hhere : x.ticket ∈ s.placing (·.ticket) p := List.mem_map_of_mem hx
  have elsewhere : ∀ q, x.ticket ∈ s.placing (·.ticket) q → p = q :=
    fun q hq => h.once.placed.apart x.ticket p q hhere hq
  by_contra hcalled
  rcases h.once.silent x.ticket hcalled with ⟨d, hd, hticket⟩ | ⟨t, d, left, hn, hticket⟩
  · have hq := elsewhere .delivered (by
      rw [← hticket]
      exact List.mem_map_of_mem (List.mem_map_of_mem hd))
    rcases hp with rfl | ⟨ty, rfl⟩ <;> cases hq
  · obtain ⟨k, hnext, hload⟩ := EventManager.load_of_notifying hn
    have hq := elsewhere (k.place t) (by
      rw [← hticket]
      exact EventManager.mem_place (·.ticket) hnext hload)
    unfold After.place at hq
    rcases hp with rfl | ⟨ty, rfl⟩ <;> split at hq <;> cases hq

/-- Where the manager has left an event. -/
inductive Left (matchesPattern : String → String → Bool) (s : EventManager) (x : Accepted) : Prop
  | delivered : s.Delivered matchesPattern x → Left matchesPattern s x
  | queued : x ∈ s.eventQueue → s.callsOf x.ticket = [] → Left matchesPattern s x
  | pending (ty : String) : x ∈ s.pending ty → s.callsOf x.ticket = [] → Left matchesPattern s x
  | client (n : Nat) : s.Carries (.client n) x → Left matchesPattern s x

theorem left_of_idle {s : EventManager} (h : EventManager.Accounted matchesPattern [] s)
    (hp : s.pcs .processing = .idle) (hb : s.pcs .batch = .idle) (hx : x ∈ s.accepted) :
    Left matchesPattern s x := by
  obtain ⟨p, hmem⟩ := h.placed.somewhere x ⟨by simpa using hx, by simp⟩
  have hmem : x ∈ s.things p := by simpa [EventManager.placing] using hmem
  cases p with
  | queue => exact .queued hmem (callsOf_of_waiting h (Or.inl rfl) hmem)
  | pending ty => exact .pending ty hmem (callsOf_of_waiting h (Or.inr ⟨ty, rfl⟩) hmem)
  | delivered =>
    obtain ⟨d, hd, rfl⟩ := List.mem_map.mp hmem
    exact .delivered ⟨d, hd, rfl, h.once.delivered d hd⟩
  | held t =>
    cases t with
    | processing => simp [EventManager.things, hp, Pc.held] at hmem
    | batch => simp [EventManager.things, hb, Pc.held] at hmem
    | client n => exact .client n (Or.inl hmem)
  | taken t =>
    cases t with
    | processing => simp [EventManager.things, hp, Pc.taken] at hmem
    | batch => simp [EventManager.things, hb, Pc.taken] at hmem
    | client n => exact .client n (Or.inr hmem)

theorem returned_leaves {actions : List Action} (hcareful : EachStep (step matchesPattern) Careful {} actions)
    (hreturned : (runFrom (step matchesPattern) {} actions).reset = .returned) :
    let b := (runFrom (step matchesPattern) {} actions).base
    b.pcs .processing = .idle ∧ b.pcs .batch = .idle ∧ ∀ x ∈ b.accepted, Left matchesPattern b x := by
  intro b
  have hlines := @run_lines matchesPattern actions
  obtain ⟨hloop, hbatch⟩ := hlines.returned hreturned
  have hp : b.pcs .processing = .idle := hlines.processing (by simp [hloop])
  have hb : b.pcs .batch = .idle := by
    refine hlines.batch ?_
    cases hthread : (runFrom (step matchesPattern) {} actions).base.batchThread with
    | false => exact Or.inr rfl
    | true => exact Or.inl (hbatch hthread)
  have haccounted := runFrom_eachStep (I := fun s => EventManager.Accounted matchesPattern [] s.base) (Q := Careful)
    (fun _ _ hs hc => careful_accounted hs hc) (EventManager.fresh_accounted matchesPattern) hcareful
  exact ⟨hp, hb, fun x hx => left_of_idle haccounted hp hb hx⟩

/-- The thread sleeps, an event is accepted, and `resetInstance` is faster than the thread. -/
def abandoned : List Action :=
  [.test, .enter, .check, .sleep, .other (.publish 0 build), .push 0, .stop, .notifyAll, .notifyOne 0 none, .enter, .check,
    .leave ⟨0, build⟩, .join]

/-- The event is left in the queue. -/
theorem abandoned_event_is_left :
    let b := (runFrom (step fun _ _ => true) {} abandoned).base
    b.eventQueue = [⟨0, build⟩] ∧
      b.pcs .processing = .idle ∧ b.pcs .batch = .idle ∧ ∀ x ∈ b.accepted, Left (fun _ _ => true) b x := by
  refine ⟨by decide +kernel, returned_leaves ?_ (by decide +kernel)⟩
  refine eachStep_of_forall ?_ _
  intro a ha s a' heq
  subst heq
  obtain rfl : a' = .publish 0 build := by simpa [abandoned] using ha
  trivial

end State

end EventWakeups

end DockerCpp
