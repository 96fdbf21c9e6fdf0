/-
  DockerCpp.Runtime.ContainerLifecycle — what holds of a container between its
  operations, whatever the system did during them.

  Every transition the table allows keeps `Consistent` (`moved_consistent`): monitoring
  is on exactly in RUNNING, the removed flag is set exactly in REMOVED, a container that
  is starting, running or paused has a process, one that is being or has been removed
  holds no resource. Each operation ends in a state that is not one of the passing ones
  (`Settled`), so `lifecycle_invariant` holds after every sequence of calls.

  `restart` never reaches its inner `stop` and `start`: it reads the state its own
  transition has just stored, so it returns in RESTARTING (`restart_never_running`) and
  `restart_leaves_restarting` runs it on a running container.

  A launch that fails throws before STARTING is stored, so the handler of `start` goes to
  ERROR from the state the container was in; STOPPED has no edge to ERROR, and there the
  handler's own exception takes the place of the launch's (`failed_start_iff`).
-/

import DockerCpp.Runtime.ContainerFrames

namespace DockerCpp.Runtime.Container

open Lib Lib.Prog

variable {σ : Type} (os : Os σ)

/-! ## What the table allows -/

variable {s new : ContainerState} {c c' : Container} {w : World σ} {p : Prog (World σ) Error Unit} {e : Error}

theorem valid_starting (h : isStateTransitionValid c s .starting = true) :
    (s = .created ∨ s = .stopped ∨ s = .restarting) ∧ c.removed = false := by
  cases s with
  | created | stopped | restarting => exact ⟨by decide, (Bool.not_eq_true' c.removed).mp h⟩
  | starting | running | paused | stopping | removing | removed | dead | error => cases h

theorem valid_running (h : isStateTransitionValid c s .running = true) :
    (s = .starting ∨ s = .paused) ∧ 0 < c.mainPid := by
  cases s with
  | starting | paused => exact ⟨by decide, of_decide_eq_true h⟩
  | created | running | stopping | stopped | restarting | removing | removed | dead | error => cases h

theorem valid_paused (h : isStateTransitionValid c s .paused = true) : s = .running := by
  cases s with
  | running => rfl
  | created | starting | paused | stopping | stopped | restarting | removing | removed | dead | error => cases h

theorem valid_removed (h : isStateTransitionValid c s .removed = true) : s = .removing := by
  cases s with
  | removing => rfl
  | created | starting | running | paused | stopping | stopped | restarting | removed | dead | error => cases h

theorem invalid_created (c : Container) (s : ContainerState) : isStateTransitionValid c s .created = false := by
  cases s <;> rfl

/-- REMOVED has no edge out. -/
theorem invalid_from_removed (c : Container) (t : ContainerState) : isStateTransitionValid c .removed t = false := by
  cases t <;> rfl

/-! ## Consistency, transition by transition -/

structure Consistent (c : Container) : Prop where
  monitoring : c.monitoringActive = true ↔ c.state = .running
  removedFlag : c.removed = true ↔ c.state = .removed
  live : c.state = .starting ∨ c.state = .running ∨ c.state = .paused → 0 < c.mainPid ∧ c.processManager.isSome = true
  empty : c.state = .removing ∨ c.state = .removed →
    c.processManager = none ∧ c.cgroupManager = none ∧ c.namespaceManagers = []

theorem exited_state (c : Container) : (exited c).state = c.state := by unfold exited; split <;> rfl

theorem exited_removed (c : Container) : (exited c).removed = c.removed := by unfold exited; split <;> rfl

theorem exited_mainPid (c : Container) : (exited c).mainPid = c.mainPid := by unfold exited; split <;> rfl

theorem exited_processManager (c : Container) : (exited c).processManager = c.processManager := by
  unfold exited; split <;> rfl

theorem exited_cgroupManager (c : Container) : (exited c).cgroupManager = c.cgroupManager := by
  unfold exited; split <;> rfl

theorem exited_namespaceManagers (c : Container) : (exited c).namespaceManagers = c.namespaceManagers := by
  unfold exited; split <;> rfl

/-- Leaving a state, a consistent container is not monitored. -/
theorem exited_monitoring (h : Consistent c) : (exited c).monitoringActive = false := by
  unfold exited
  split
  · rfl
  · rename_i hs
    have := mt h.monitoring.mp hs
    simpa using this

attribute [local simp] exited_state exited_removed exited_mainPid exited_processManager exited_cgroupManager
  exited_namespaceManagers

/-- A container whose state has an edge out is not removed. -/
theorem not_removed {t : ContainerState} (h : Consistent c)
    (hv : isStateTransitionValid c c.state t = true) : c.removed = false := by
  cases hr : c.removed with
  | false => rfl
  | true =>
    rw [h.removedFlag.mp hr, invalid_from_removed] at hv
    cases hv

theorem moved_consistent {r : Res Error Unit} (h : Consistent c)
    (hv : isStateTransitionValid c c.state new = true) (hm : Moved c new r c') : Consistent c' := by
  have hr := not_removed h hv
  have hmon := exited_monitoring h
  cases hm with
  | created now => rw [invalid_created] at hv; cases hv
  | starting hpid => exact ⟨by simp [hmon], by simp [hr], fun _ => ⟨hpid, rfl⟩, by simp⟩
  | startFailed =>
    have hs := (valid_starting hv).1
    refine ⟨?_, ?_, ?_, ?_⟩
    · rcases hs with e | e | e <;> simp [hmon, e]
    · rcases hs with e | e | e <;> simp [hr, e]
    · rcases hs with e | e | e <;> simp [e]
    · rcases hs with e | e | e <;> simp [e]
  | running now =>
    obtain ⟨hs, hpid⟩ := valid_running hv
    have hlive := h.live (hs.imp_right Or.inr)
    exact ⟨by simp, by simp [hr], fun _ => by simpa using hlive, by simp⟩
  | paused =>
    have hlive := h.live (Or.inr (Or.inl (valid_paused hv)))
    exact ⟨by simp [hmon], by simp [hr], fun _ => by simpa using hlive, by simp⟩
  | stopping code reason => exact ⟨by simp [hmon], by simp [hr], by simp, by simp⟩
  | stopped now => exact ⟨by simp [hmon], by simp [hr], by simp, by simp⟩
  | removing => exact ⟨by simp [hmon], by simp [hr], by simp, by simp⟩
  | removed =>
    have hempty := h.empty (Or.inl (valid_removed hv))
    exact ⟨by simp [hmon], by simp, by simp, fun _ => by simpa using hempty⟩
  | dead now => exact ⟨by simp, by simp [hr], by simp, by simp⟩
  | restarting code reason => exact ⟨by simp [hmon], by simp [hr], by simp, by simp⟩
  | error now => exact ⟨by simp, by simp [hr], by simp, by simp⟩

/-- What no lifecycle operation changes. -/
structure SameIdentity (c c' : Container) : Prop where
  id : c'.id = c.id
  config : c'.config = c.config
  eventCallback : c'.eventCallback = c.eventCallback
  mutex : c'.mutex = c.mutex
  callbackMutex : c'.callbackMutex = c.callbackMutex

theorem SameIdentity.refl (c : Container) : SameIdentity c c := ⟨rfl, rfl, rfl, rfl, rfl⟩

theorem SameIdentity.trans {a b c : Container} (h : SameIdentity a b) (h' : SameIdentity b c) : SameIdentity a c :=
  ⟨h'.id.trans h.id, h'.config.trans h.config, h'.eventCallback.trans h.eventCallback, h'.mutex.trans h.mutex,
    h'.callbackMutex.trans h.callbackMutex⟩

theorem exited_identity (c : Container) : SameIdentity c (exited c) := by
  unfold exited
  split
  · exact ⟨rfl, rfl, rfl, rfl, rfl⟩
  · exact SameIdentity.refl c

theorem moved_identity {r : Res Error Unit} (hm : Moved c new r c') : SameIdentity c c' := by
  obtain ⟨h1, h2, h3, h4, h5⟩ := exited_identity c
  cases hm <;> exact ⟨h1, h2, h3, h4, h5⟩

theorem moved_ok (hm : Moved c new (.ok ()) c') : c'.state = new := by
  cases hm <;> rfl

/-- Only a launch throws, and then the state is as before. -/
theorem moved_thrown (hm : Moved c new (.thrown e) c') : new = .starting ∧ c'.state = c.state := by
  cases hm
  exact ⟨rfl, exited_state c⟩

/-! ## Operations -/

/-- What every part of an operation keeps of the world it began in. -/
structure Kept (w w' : World σ) : Prop where
  listener : w'.listener = w.listener
  identity : SameIdentity w.c w'.c
  consistent : Consistent w'.c

theorem Kept.refl (h : Consistent w.c) : Kept w w := ⟨rfl, SameIdentity.refl w.c, h⟩

theorem Kept.trans {w w' w'' : World σ} (h : Kept w w') (h' : Kept w' w'') : Kept w w'' :=
  ⟨h'.listener.trans h.listener, h.identity.trans h'.identity, h'.consistent⟩

theorem touches_exitOnly (w w' : World σ) (h : Touches Eq w w') : Touches ExitOnly w w' :=
  ⟨h.1, h.2 ▸ Frame.refl w.c⟩

theorem exitOnly_kept {w w' : World σ} (h : Consistent w.c) (ht : Touches ExitOnly w w') :
    Kept w w' ∧ w'.c.state = w.c.state := by
  obtain ⟨c', os', l'⟩ := w'
  obtain ⟨rfl, code, reason, rfl⟩ := ht
  exact ⟨⟨rfl, ⟨rfl, rfl, rfl, rfl, rfl⟩, ⟨h.monitoring, h.removedFlag, h.live, h.empty⟩⟩, rfl⟩

/-- The states an operation leaves a container in. -/
def Settled : ContainerState → Prop
  | .created | .running | .paused | .stopped | .restarting | .removed | .error => True
  | .starting | .stopping | .removing | .dead => False

theorem transitionState_kept (new : ContainerState) (h : Consistent w.c) :
    Ends (transitionState os .abstracted new) w fun r w' => Kept w w' ∧
      match r with
      | .ok _ => w'.c.state = new
      | .thrown _ => w'.c.state = w.c.state ∧ (new = .starting ∨ isStateTransitionValid w.c w.c.state new = false)
      | .blocked => False := by
  refine Ends.mono (transitionState_ends os new w) ?_
  intro r w' hpost
  obtain ⟨hl, hm⟩ := hpost
  split at hm
  · rename_i hv
    refine ⟨⟨hl, moved_identity hm, moved_consistent h hv hm⟩, ?_⟩
    cases r with
    | ok _ => exact moved_ok hm
    | thrown e => exact ⟨(moved_thrown hm).2, Or.inl (moved_thrown hm).1⟩
    | blocked => cases hm
  · rename_i hv
    obtain ⟨rfl, hc⟩ := hm
    refine ⟨⟨hl, hc ▸ SameIdentity.refl w.c, hc ▸ h⟩, congrArg Container.state hc, Or.inr ?_⟩
    simpa using hv

/-- What a body that `orError` wraps owes it: a settled state if it returns, and if it
    throws any state but DEAD, which has no edge to ERROR. -/
def Owes (w : World σ) : Res Error Unit → World σ → Prop
  | .ok _, w' => Kept w w' ∧ Settled w'.c.state
  | .thrown _, w' => Kept w w' ∧ w'.c.state ≠ .dead
  | .blocked, _ => False

/-- What an operation gives. -/
def Settles (w : World σ) (r : Res Error Unit) (w' : World σ) : Prop :=
  r ≠ .blocked ∧ Kept w w' ∧ Settled w'.c.state

theorem settled_not_dead (h : Settled s) : s ≠ .dead := by
  intro e
  obtain rfl := e
  exact h

/-- ERROR is reachable from every passing state but DEAD. -/
theorem settled_of_no_error (c : Container) (h : s ≠ .dead)
    (hv : isStateTransitionValid c s .error = false) : Settled s := by
  cases s with
  | dead => exact absurd rfl h
  | starting | stopping | removing => cases hv
  | created | running | paused | stopped | restarting | removed | error => trivial

theorem orError_settles (hp : Ends p w (Owes w)) : Ends (orError os .abstracted p) w (Settles w) := by
  simp only [orError, ends_tryCatch]
  refine Ends.mono hp ?_
  intro r w1 h1
  cases r with
  | ok _ => exact ⟨by simp, h1.1, h1.2⟩
  | blocked => exact h1.elim
  | thrown e =>
    simp only [orElse_thrown, ends_bind]
    refine Ends.mono (transitionState_kept os .error h1.1.consistent) ?_
    intro r w2 hpost
    obtain ⟨hk, h2⟩ := hpost
    cases r with
    | ok _ =>
      rw [andThen_ok, ends_throw]
      refine ⟨by simp, h1.1.trans hk, ?_⟩
      rw [h2]
      trivial
    | blocked => exact h2.elim
    | thrown e' =>
      obtain ⟨hs, hv⟩ := h2
      refine ⟨by simp, h1.1.trans hk, ?_⟩
      rw [hs]
      exact settled_of_no_error w1.c h1.2 (hv.resolve_left (by simp))

theorem guarded_settles {target : ContainerState} (h : Consistent w.c)
    (hs : Settled w.c.state) (hp : canTransitionTo w.c target = true → Ends p w (Settles w)) :
    Ends (guarded target p) w (Settles w) := by
  simp only [guarded, self, ends_bind, ends_read, andThen_ok]
  split
  · rename_i hc
    exact hp hc
  · rw [ends_throw]
    exact ⟨by simp, Kept.refl h, hs⟩

theorem start_settles (h : Consistent w.c) (hs : Settled w.c.state) : Ends (start os .abstracted) w (Settles w) := by
  simp only [start, lockGuard_abstracted]
  refine guarded_settles h hs fun _ => orError_settles os ?_
  simp only [ends_bind]
  refine Ends.mono (transitionState_kept os .starting h) ?_
  intro r w1 hpost
  obtain ⟨hk1, h1⟩ := hpost
  cases r with
  | blocked => exact h1.elim
  | thrown e => exact ⟨hk1, h1.1 ▸ settled_not_dead hs⟩
  | ok _ =>
    have hs1 : w1.c.state = .starting := h1
    simp only [andThen_ok, readC, ends_bind, ends_read]
    split
    · rw [ends_throw]
      exact ⟨hk1, by simp [hs1]⟩
    · refine Ends.mono (transitionState_kept os .running hk1.consistent) ?_
      intro r w2 hpost
      obtain ⟨hk2, h2⟩ := hpost
      cases r with
      | ok _ => exact ⟨hk1.trans hk2, by rw [h2]; trivial⟩
      | thrown e => exact ⟨hk1.trans hk2, by simp [h2.1, hs1]⟩
      | blocked => exact h2.elim

/-- Between STOPPING and STOPPED. -/
theorem stop_wait_returns (timeout pid : Int) : Returns (Touches ExitOnly) (when (0 < pid) do
      stopWait os timeout.toNat
      let alive ← isProcessRunning os
      when alive do
        killMain os sigkill
        waitForProcessExit os 5) := by
  refine returns_when (returns_bind ((stopWait_returns os _).weaken touches_exitOnly) fun _ => ?_)
  refine returns_bind ((isProcessRunning_returns os).weaken touches_exitOnly) fun _ => returns_when ?_
  exact returns_bind ((killMain_returns os _).weaken touches_exitOnly) fun _ => waitForProcessExit_returns os 5

theorem stop_settles (timeout : Int) (h : Consistent w.c) (hs : Settled w.c.state) :
    Ends (stop os .abstracted timeout) w (Settles w) := by
  simp only [stop, lockGuard_abstracted]
  refine guarded_settles h hs fun _ => orError_settles os ?_
  rw [ends_bind]
  refine Ends.mono (killMain_returns os sigterm w) ?_
  intro r w1 hpost
  obtain ⟨⟨_, rfl⟩, ht1⟩ := hpost
  obtain ⟨hk1, hs1⟩ := exitOnly_kept h (touches_exitOnly _ _ ht1)
  rw [andThen_ok, ends_bind]
  refine Ends.mono (transitionState_kept os .stopping hk1.consistent) ?_
  intro r w2 hpost
  obtain ⟨hk2, h2⟩ := hpost
  cases r with
  | blocked => exact h2.elim
  | thrown e => exact ⟨hk1.trans hk2, by rw [h2.1, hs1]; exact settled_not_dead hs⟩
  | ok _ =>
    have hs2 : w2.c.state = .stopping := h2
    rw [andThen_ok, ends_bind, readC, ends_read, andThen_ok, ends_bind]
    refine Ends.mono (stop_wait_returns os timeout _ w2) ?_
    intro r w3 hpost
    obtain ⟨⟨_, rfl⟩, ht3⟩ := hpost
    obtain ⟨hk3, hs3⟩ := exitOnly_kept hk2.consistent ht3
    rw [andThen_ok]
    refine Ends.mono (transitionState_kept os .stopped hk3.consistent) ?_
    intro r w4 hpost
    obtain ⟨hk4, h4⟩ := hpost
    have hk : Kept w w4 := ((hk1.trans hk2).trans hk3).trans hk4
    cases r with
    | ok _ => exact ⟨hk, by rw [h4]; trivial⟩
    | thrown e => exact ⟨hk, by simp [h4.1, hs3, hs2]⟩
    | blocked => exact h4.elim

/-- A transition alone, to a state that is not a passing one. -/
theorem transitionState_settles (new : ContainerState) (hn : Settled new) (h : Consistent w.c)
    (hs : Settled w.c.state) : Ends (transitionState os .abstracted new) w (Settles w) := by
  refine Ends.mono (transitionState_kept os new h) ?_
  intro r w' hpost
  obtain ⟨hk, h'⟩ := hpost
  cases r with
  | ok _ => exact ⟨by simp, hk, h' ▸ hn⟩
  | thrown e => exact ⟨by simp, hk, h'.1 ▸ hs⟩
  | blocked => exact h'.elim

theorem pause_settles (h : Consistent w.c) (hs : Settled w.c.state) : Ends (pause os .abstracted) w (Settles w) := by
  simp only [pause, lockGuard_abstracted]
  exact guarded_settles h hs fun _ => transitionState_settles os .paused trivial h hs

theorem resume_settles (h : Consistent w.c) (hs : Settled w.c.state) :
    Ends (resume os .abstracted) w (Settles w) := by
  simp only [resume, lockGuard_abstracted]
  exact guarded_settles h hs fun _ => transitionState_settles os .running trivial h hs

/-- The body of `restart` once the call is accepted: the state its transition stored is
    RESTARTING, so neither inner operation runs. -/
theorem restart_body_ends (timeout : Int) (h : Consistent w.c)
    (hv : isStateTransitionValid w.c w.c.state .restarting = true) :
    Ends (do
      transitionState os .abstracted .restarting
      let st ← readC (·.state)
      when (st = .running) (unlocked .abstracted (stop os .abstracted timeout))
      let st ← readC (·.state)
      when (st = .stopped) (unlocked .abstracted (start os .abstracted))) w fun r w' =>
        r = .ok () ∧ Kept w w' ∧ w'.c.state = .restarting ∧ w'.c.mainPid = w.c.mainPid := by
  rw [ends_bind]
  refine Ends.mono (transitionState_ends os .restarting w) ?_
  intro r w hpost
  obtain ⟨c1, os1, l1⟩ := w
  obtain ⟨hl, hm⟩ := hpost
  simp only [hv, if_true] at hl hm
  have hk : Kept w ⟨c1, os1, l1⟩ := ⟨hl, moved_identity hm, moved_consistent h hv hm⟩
  cases hm with
  | restarting code reason =>
    simp only [andThen_ok, readC, ends_bind, ends_read, ends_when, reduceCtorEq, if_false]
    exact ⟨trivial, hk, trivial, exited_mainPid w.c⟩

theorem restart_ends (timeout : Int) (h : Consistent w.c) (hv : canTransitionTo w.c .restarting = true) :
    Ends (restart os .abstracted timeout) w fun r w' =>
      r = .ok () ∧ Kept w w' ∧ w'.c.state = .restarting ∧ w'.c.mainPid = w.c.mainPid := by
  rw [restart, lockGuard_abstracted, guarded, ends_bind, self, ends_read, andThen_ok, if_pos hv, orError, ends_tryCatch]
  refine Ends.mono (restart_body_ends os timeout h hv) ?_
  intro r w' hpost
  obtain ⟨rfl, h'⟩ := hpost
  exact ⟨rfl, h'⟩

theorem restart_settles (timeout : Int) (h : Consistent w.c) (hs : Settled w.c.state) :
    Ends (restart os .abstracted timeout) w (Settles w) := by
  by_cases hv : canTransitionTo w.c .restarting = true
  · refine Ends.mono (restart_ends os timeout h hv) ?_
    intro r w' hpost
    obtain ⟨rfl, hk, hs', -⟩ := hpost
    exact ⟨by simp, hk, by rw [hs']; trivial⟩
  · simp only [restart, lockGuard_abstracted]
    exact guarded_settles h hs fun hv' => absurd hv' hv

/-- The second half of `remove`, from REMOVING on: nothing in it throws. -/
theorem remove_body_returns (force : Bool) (h : Consistent w.c) (hs : w.c.state = .removing) : Ends (do
      let c ← self
      when (force ∧ c.state = .running) do
        let _ ← sys (os.kill c.mainPid sigkill)
        waitForProcessExit os 5
      cleanupResources os
      transitionState os .abstracted .removed
      modifyC fun c => { c with removed := true }) w fun r w' => r = .ok () ∧ Kept w w' ∧ w'.c.state = .removed := by
  simp only [ends_bind, self, ends_read, andThen_ok, hs, reduceCtorEq, and_false, ends_when, if_false]
  refine Ends.mono (cleanupResources_ends os w) ?_
  intro r w' hpost
  obtain ⟨rfl, hl1, hc1⟩ := hpost
  obtain ⟨os1, rfl⟩ := world_eq hl1 hc1
  rw [andThen_ok, ends_bind]
  have h1 : Consistent { w.c with processManager := none, cgroupManager := none, namespaceManagers := [] } :=
    ⟨h.monitoring, h.removedFlag, by simp [hs], fun _ => ⟨rfl, rfl, rfl⟩⟩
  refine Ends.mono (transitionState_kept os .removed h1) ?_
  intro r w hpost
  obtain ⟨c2, os2, l2⟩ := w
  obtain ⟨⟨hl2, hid2, hc2⟩, h2⟩ := hpost
  cases r with
  | blocked => exact h2.elim
  | thrown e =>
    -- REMOVING leads to REMOVED whatever the container holds
    have hv := h2.2.resolve_left (by simp)
    rw [hs] at hv
    cases hv
  | ok _ =>
    have hs2 : c2.state = .removed := h2
    simp only [andThen_ok, modifyC, ends_modify]
    refine ⟨trivial, ⟨hl2, ⟨hid2.id, hid2.config, hid2.eventCallback, hid2.mutex, hid2.callbackMutex⟩, ?_⟩, hs2⟩
    exact ⟨hc2.monitoring, by simp [hs2], hc2.live, hc2.empty⟩

/-- `remove` throws on a running container that it is not to kill and on one whose state
    has no edge to REMOVING, and then the state stays. -/
theorem remove_ends (force : Bool) (h : Consistent w.c) : Ends (remove os .abstracted force) w fun r w' => Kept w w' ∧
      ((r = .ok () ∧ w'.c.state = .removed) ∨ ((∃ e, r = .thrown e) ∧ w'.c.state = w.c.state ∧
        (w.c.state = .running ∧ force = false ∨ isStateTransitionValid w.c w.c.state .removing = false))) := by
  simp only [remove, lockGuard_abstracted]
  rw [ends_bind, self, ends_read, andThen_ok]
  split
  · rename_i hr
    rw [ends_throw]
    exact ⟨Kept.refl h, Or.inr ⟨⟨_, rfl⟩, rfl, Or.inl ⟨hr.1, by simpa using hr.2⟩⟩⟩
  · rw [ends_bind]
    refine Ends.mono (transitionState_kept os .removing h) ?_
    intro r w1 hpost
    obtain ⟨hk1, h1⟩ := hpost
    cases r with
    | blocked => exact h1.elim
    | thrown e => exact ⟨hk1, Or.inr ⟨⟨e, rfl⟩, h1.1, Or.inr (h1.2.resolve_left (by simp))⟩⟩
    | ok _ =>
      rw [andThen_ok, orError, ends_tryCatch]
      refine Ends.mono (remove_body_returns os force hk1.consistent h1) ?_
      intro r w2 hpost
      obtain ⟨rfl, hk2, hs2⟩ := hpost
      exact ⟨hk1.trans hk2, Or.inl ⟨rfl, hs2⟩⟩

theorem remove_settles (force : Bool) (h : Consistent w.c) (hs : Settled w.c.state) :
    Ends (remove os .abstracted force) w (Settles w) := by
  refine Ends.mono (remove_ends os force h) ?_
  intro r w' hpost
  obtain ⟨hk, ⟨rfl, hs'⟩ | ⟨⟨e, rfl⟩, hs', -⟩⟩ := hpost
  · exact ⟨by simp, hk, hs' ▸ trivial⟩
  · exact ⟨by simp, hk, hs' ▸ hs⟩

theorem kill_settles (sig : Int) (h : Consistent w.c) (hs : Settled w.c.state) :
    Ends (kill os .abstracted sig) w (Settles w) := by
  simp only [kill, lockGuard_abstracted]
  refine Ends.mono (killMain_returns os sig w) ?_
  intro r w' hpost
  obtain ⟨⟨_, rfl⟩, ht⟩ := hpost
  obtain ⟨hk, hs'⟩ := exitOnly_kept h (touches_exitOnly _ _ ht)
  exact ⟨by simp, hk, hs' ▸ hs⟩

/-! ## Runs -/

inductive Op where
  | start
  | stop (timeout : Int)
  | pause
  | resume
  | restart (timeout : Int)
  | remove (force : Bool)
  | kill (sig : Int)
  deriving DecidableEq, Repr

def Op.run (k : Locking) : Op → Prog (World σ) Error Unit
  | .start => Container.start os k
  | .stop timeout => Container.stop os k timeout
  | .pause => Container.pause os k
  | .resume => Container.resume os k
  | .restart timeout => Container.restart os k timeout
  | .remove force => Container.remove os k force
  | .kill sig => Container.kill os k sig

theorem run_settles (op : Op) (h : Consistent w.c) (hs : Settled w.c.state) :
    Ends (op.run os .abstracted) w (Settles w) := by
  cases op with
  | start => exact start_settles os h hs
  | stop timeout => exact stop_settles os timeout h hs
  | pause => exact pause_settles os h hs
  | resume => exact resume_settles os h hs
  | restart timeout => exact restart_settles os timeout h hs
  | remove force => exact remove_settles os force h hs
  | kill sig => exact kill_settles os sig h hs

/-- Calls one after the other; a caller goes on after one that threw. -/
def runAll (ops : List Op) (w : World σ) : World σ := ops.foldl (fun w op => (op.run os .abstracted w).2) w

/-- A new container, with the callback its owner set. -/
def fresh (config : ContainerConfig) (s : σ) (cb : Option EventCallback) (l : Listener) : World σ :=
  ⟨{ (make os config s).1 with eventCallback := cb }, (make os config s).2, l⟩

theorem fresh_consistent (config : ContainerConfig) (s : σ) (cb : Option EventCallback) (l : Listener) :
    Consistent (fresh os config s cb l).c ∧ Settled (fresh os config s cb l).c.state :=
  ⟨⟨by simp [fresh, make], by simp [fresh, make], by simp [fresh, make], by simp [fresh, make]⟩, trivial⟩

theorem runAll_consistent (ops : List Op) (w : World σ) (h : Consistent w.c) (hs : Settled w.c.state) :
    Consistent (runAll os ops w).c ∧ Settled (runAll os ops w).c.state := by
  induction ops generalizing w with
  | nil => exact ⟨h, hs⟩
  | cons op ops ih =>
    obtain ⟨-, hk, hs'⟩ := run_settles os op h hs
    exact ih _ hk.consistent hs'

/-- Between operations a container is in a settled state, is monitored exactly when it
    runs, is flagged removed exactly when it is, has a process while it runs or is paused,
    and holds nothing once removed. -/
theorem lifecycle_invariant (config : ContainerConfig) (s : σ) (cb : Option EventCallback) (l : Listener)
    (ops : List Op) :
    let c := (runAll os ops (fresh os config s cb l)).c
    Settled c.state ∧
    (c.monitoringActive = true ↔ c.state = .running) ∧
    (c.removed = true ↔ c.state = .removed) ∧
    (c.state = .running ∨ c.state = .paused → 0 < c.mainPid ∧ c.processManager.isSome = true) ∧
    (c.state = .removed → c.processManager = none ∧ c.cgroupManager = none ∧ c.namespaceManagers = []) := by
  obtain ⟨h0, hs0⟩ := fresh_consistent os config s cb l
  obtain ⟨h, hs⟩ := runAll_consistent os ops _ h0 hs0
  exact ⟨hs, h.monitoring, h.removedFlag, fun hr => h.live (Or.inr hr), fun hr => h.empty (Or.inr hr)⟩

/-- A `restart` that is accepted returns, in RESTARTING and with the process it had:
    whatever the system does, the container is not running. -/
theorem restart_never_running (config : ContainerConfig) (s : σ) (cb : Option EventCallback) (l : Listener)
    (ops : List Op) (timeout : Int)
    (hv : canTransitionTo (runAll os ops (fresh os config s cb l)).c .restarting = true) :
    Ends (restart os .abstracted timeout) (runAll os ops (fresh os config s cb l)) fun r w' =>
      r = .ok () ∧ w'.c.state = .restarting ∧ w'.c.state ≠ .running ∧
        w'.c.mainPid = (runAll os ops (fresh os config s cb l)).c.mainPid := by
  obtain ⟨h0, hs0⟩ := fresh_consistent os config s cb l
  obtain ⟨h, -⟩ := runAll_consistent os ops _ h0 hs0
  refine Ends.mono (restart_ends os timeout h hv) ?_
  intro r w' hpost
  obtain ⟨hr, -, hs, hp⟩ := hpost
  exact ⟨hr, hs, by simp [hs], hp⟩

/-- A system where every call succeeds: a fork gives a new process, and a process runs
    until it gets SIGTERM or SIGKILL. -/
structure Procs where
  next : Int := 100
  live : List Int := []
  deriving DecidableEq, Repr

def calmOs : Os Procs where
  unshare _ s := (none, s)
  cgroup _ _ s := (none, s)
  getMetrics _ s := (.error "no metrics", s)
  pipe s := (none, s)
  fork _ s := (.ok s.next, { next := s.next + 1, live := s.next :: s.live })
  readErrorPipe _ s := (.nothing, s)
  kill pid sig s :=
    (decide (pid ∈ s.live), if sig = sigterm ∨ sig = sigkill then { s with live := s.live.filter (· ≠ pid) } else s)
  waitpid pid _ s := if pid ∈ s.live then ((0, .other), s) else ((pid, .exited 0), s)
  sleepMs _ s := s
  systemNow s := (7, s)
  steadyNow s := (0, s)
  uniform _ s := (0, s)
  notify _ _ _ s := s

def runningWorld : World Procs := runAll calmOs [.start] (fresh calmOs { id := "c", name := "web" } {} none {})

/-- Stopping and launching both succeed here, yet the process the container had goes on
    and no other is started. -/
theorem restart_leaves_restarting :
    runningWorld.c.state = .running ∧ runningWorld.c.mainPid = 100 ∧
    Ends (stop calmOs .abstracted 10) runningWorld (fun r w' => r = .ok () ∧ w'.os.live = []) ∧
    Ends (restart calmOs .abstracted 10) runningWorld (fun r w' =>
      r = .ok () ∧ w'.c.state = .restarting ∧ w'.c.mainPid = 100 ∧ w'.os = { next := 101, live := [100] }) := by
  unfold Ends
  decide +kernel

theorem restart_never_running_calm :
    canTransitionTo runningWorld.c .restarting = true ∧
    Ends (restart calmOs .abstracted 10) runningWorld fun r w' =>
      r = .ok () ∧ w'.c.state = .restarting ∧ w'.c.state ≠ .running ∧ w'.c.mainPid = runningWorld.c.mainPid :=
  have hv : canTransitionTo runningWorld.c .restarting = true := by decide +kernel
  ⟨hv, restart_never_running calmOs _ _ _ _ [.start] 10 hv⟩

/-! ## Failed starts -/

/-- A launch that throws ends the transition to STARTING before the state is stored. -/
theorem transitionState_launch_thrown (hv : canTransitionTo w.c .starting = true)
    (hf : Ends (executeStateTransition os .starting) w fun r _ => r = .thrown e) :
    Ends (transitionState os .abstracted .starting) w fun r w' =>
      r = .thrown e ∧ w'.c.id = w.c.id ∧ w'.c.state = w.c.state := by
  have hthrown : Ends (transitionState os .abstracted .starting) w fun r _ => r = .thrown e := by
    have hexit : (onStateExited w.c.state : Prog (World σ) Error Unit) = pure () := by
      rcases (valid_starting hv).1 with h | h | h <;> rw [h] <;> rfl
    have hvalid : isStateTransitionValid w.c w.c.state .starting = true := hv
    rw [transitionState, ends_bind, self, ends_read, andThen_ok, if_pos hvalid, ends_bind, enterState, hexit, ends_bind,
      ends_pure, andThen_ok, ends_bind]
    refine Ends.mono hf ?_
    intro r w' hr
    rw [hr]
    rfl
  refine Ends.mono (hthrown.and (transitionState_ends os .starting w)) ?_
  intro r w' hpost
  obtain ⟨rfl, -, hm⟩ := hpost
  have hmoved : Moved w.c .starting (.thrown e) w'.c := by
    rwa [if_pos (show isStateTransitionValid w.c w.c.state .starting = true from hv)] at hm
  exact ⟨rfl, (moved_identity hmoved).id, (moved_thrown hmoved).2⟩

/-- The handler of `start`, from a state the table lets a container start in. -/
theorem handler_ends (e : Error) (hs : w.c.state = .created ∨ w.c.state = .stopped ∨ w.c.state = .restarting) :
    Ends (do transitionState os .abstracted .error; throw e : Prog (World σ) Error Unit) w fun r w' =>
      if w.c.state = .stopped then r = .thrown (.invalidState w.c.id .stopped .error) ∧ w'.c.state = .stopped
      else r = .thrown e ∧ w'.c.state = .error := by
  rw [ends_bind]
  refine Ends.mono (transitionState_ends os .error w) ?_
  intro r w' hpost
  obtain ⟨-, hm⟩ := hpost
  have hedge : isStateTransitionValid w.c w.c.state .error = decide (w.c.state ≠ .stopped) := by
    rcases hs with h | h | h <;> rw [h] <;> rfl
  rw [hedge] at hm
  by_cases hst : w.c.state = .stopped
  · rw [if_neg (by simp [hst])] at hm
    obtain ⟨rfl, hc⟩ := hm
    rw [andThen_thrown, if_pos hst, hc, hst]
    exact ⟨rfl, rfl⟩
  · rw [if_pos (by simp [hst])] at hm
    cases r with
    | ok _ =>
      rw [andThen_ok, ends_throw, if_neg hst]
      exact ⟨rfl, moved_ok hm⟩
    | thrown e' => exact absurd (moved_thrown hm).1 (by simp)
    | blocked => cases hm

theorem start_launch_thrown (hv : canTransitionTo w.c .starting = true)
    (hf : Ends (executeStateTransition os .starting) w fun r _ => r = .thrown e) :
    Ends (start os .abstracted) w fun r w' =>
      if w.c.state = .stopped then r = .thrown (.invalidState w.c.id .stopped .error) ∧ w'.c.state = .stopped
      else r = .thrown e ∧ w'.c.state = .error := by
  rw [start, lockGuard_abstracted, guarded, ends_bind, self, ends_read, andThen_ok, if_pos hv, orError, ends_tryCatch,
    ends_bind]
  refine Ends.mono (transitionState_launch_thrown os hv hf) ?_
  intro r w1 hpost
  obtain ⟨rfl, hid, hs1⟩ := hpost
  rw [andThen_thrown, orElse_thrown, ← hid, ← hs1]
  exact handler_ends os e (hs1 ▸ (valid_starting hv).1)

/-- Where the launch of a `start` that passes its check fails, the container ends in ERROR
    and the caller sees the launch's failure iff the container was not STOPPED. -/
theorem failed_start_iff (w : World σ) (e : Error) (hv : canTransitionTo w.c .starting = true)
    (hf : Ends (executeStateTransition os .starting) w fun r _ => r = .thrown e) :
    Ends (start os .abstracted) w (fun r w' => w'.c.state = .error ∧ r = .thrown e) ↔ w.c.state ≠ .stopped := by
  have h := start_launch_thrown os hv hf
  constructor
  · intro herror hst
    have hstopped : Ends (start os .abstracted) w fun _ w' => w'.c.state = .stopped := by
      refine Ends.mono h ?_
      intro r w' hpost
      rw [if_pos hst] at hpost
      exact hpost.2
    have hboth := herror.1.symm.trans hstopped
    cases hboth
  · intro hst
    refine Ends.mono h ?_
    intro r w' hpost
    rw [if_neg hst] at hpost
    exact ⟨hpost.2, hpost.1⟩

/-- A system that can fork once. -/
def brittleOs : Os Procs :=
  { calmOs with fork := fun config s => if s.next = 100 then calmOs.fork config s else (.error "no more processes", s) }

def stoppedWorld : World Procs :=
  runAll brittleOs [.start, .stop 10] (fresh brittleOs { id := "c", name := "web" } {} none {})

def noMoreProcesses : Error := .runtime
  "Process start failed: [docker-cpp 5000] Failed to create process: Failed to fork process: no more processes"

/-- Started again after a stop, the container stays STOPPED and the caller sees the
    handler's exception. -/
theorem a_stopped_container_hides_its_failure :
    stoppedWorld.c.state = .stopped ∧ stoppedWorld.c.removed = false ∧
    Ends (executeStateTransition brittleOs .starting) stoppedWorld (fun r _ => r = .thrown noMoreProcesses) ∧
    Ends (start brittleOs .abstracted) stoppedWorld (fun r w' =>
      r = .thrown (.invalidState "c" .stopped .error) ∧ w'.c.state = .stopped) := by
  unfold Ends
  decide +kernel

theorem failed_start_iff_stopped :
    ¬ Ends (start brittleOs .abstracted) stoppedWorld (fun r w' =>
      w'.c.state = .error ∧ r = .thrown noMoreProcesses) := by
  have hv : canTransitionTo stoppedWorld.c .starting = true := by decide +kernel
  have hf : Ends (executeStateTransition brittleOs .starting) stoppedWorld fun r _ => r = .thrown noMoreProcesses := by
    unfold Ends
    decide +kernel
  rw [failed_start_iff brittleOs stoppedWorld noMoreProcesses hv hf]
  decide +kernel

end DockerCpp.Runtime.Container
