/-
  DockerCpp.Runtime.MemberRules — a rule for what the member functions of a container keep.

  The member functions of `container.cpp` are made of a few parts: signals, waits and pauses,
  the clock, callbacks, notes on the container that concern no resource, the launch of a
  process, the clean-up, and the look at the process that `getStats` takes. An assertion that
  each of these keeps (`Upheld`) survives every member function (`member_upheld`), and so
  every sequence of calls (`callAll_upheld`).
-/

import DockerCpp.Runtime.OsFrames
import DockerCpp.Runtime.Refusal

namespace DockerCpp.Runtime.Container

open Lib Lib.Prog

variable {σ : Type}

/-- What a container owns, and who it is, stays. -/
structure SameResources (c c' : Container) : Prop where
  id : c'.id = c.id
  mainPid : c'.mainPid = c.mainPid
  processManager : c'.processManager = c.processManager
  cgroupManager : c'.cgroupManager = c.cgroupManager
  namespaceManagers : c'.namespaceManagers = c.namespaceManagers

def owned (c : Container) :=
  (c.id, c.mainPid, c.processManager, c.cgroupManager, c.namespaceManagers)

theorem SameResources.of_eq {c c' : Container} (h : owned c' = owned c) : SameResources c c' := by
  simp only [owned, Prod.mk.injEq] at h
  obtain ⟨hid, hpid, hprocesses, hcgroup, hnamespaces⟩ := h
  exact ⟨hid, hpid, hprocesses, hcgroup, hnamespaces⟩

structure Upheld (os : Os σ) (P : World σ → Prop) : Prop where
  clock : ∀ w, P w → P { w with os := (os.systemNow w.os).2 }
  metrics : ∀ g w, P w → P { w with os := (os.getMetrics g w.os).2 }
  signal : ∀ pid sig w, P w → P { w with os := (os.kill pid sig w.os).2 }
  wait : ∀ pid w, P w → P { w with os := (os.waitpid pid false w.os).2 }
  sleepMs : ∀ ms w, P w → P { w with os := os.sleepMs ms w.os }
  notify : ∀ id old new w, P w → P { w with os := os.notify id old new w.os }
  notes : ∀ c' w, P w → SameResources w.c c' → P { w with c := c' }
  launch : Stable P (executeStateTransition os .starting)
  cleanup : Stable P (cleanupResources os)
  probe : Stable P (probeProcess os)

namespace Upheld

variable {os : Os σ} {P : World σ → Prop} (h : Upheld os P) {p : Prog (World σ) Error Unit}

theorem guarded {target : ContainerState} (hp : Stable P p) : Stable P (guarded target p) :=
  stable_bind (stable_read _) fun _ => stable_ite hp (stable_throw _)

theorem unlocked (hp : Stable P p) : Stable P (unlocked .abstracted p) := by
  have hfree : ∀ m, Stable P (lock .abstracted m : Prog (World σ) Error Unit) := fun _ _ hw => hw
  refine stable_bind (hfree mutexOf) fun _ => stable_bind ?_ fun _ => hfree mutexOf
  exact stable_tryCatch hp fun _ => stable_bind (hfree mutexOf) fun _ => stable_throw _

include h

theorem modifyC {f : Container → Container} (hf : ∀ c, owned (f c) = owned c) :
    Stable P (modifyC f : Prog (World σ) Error Unit) :=
  stable_modify fun w hw => h.notes (f w.c) w hw (.of_eq (hf w.c))

/-! ## Processes -/

theorem isProcessRunning : Stable P (isProcessRunning os) :=
  stable_bind (stable_read _) fun pid => stable_ite (stable_pure _) (stable_call (h.signal pid 0))

theorem killMain (sig : Int) : Stable P (killMain os sig) :=
  stable_bind (stable_read _) fun pid =>
    stable_ite (stable_bind (stable_call (h.signal pid sig)) fun _ => stable_pure _) (stable_pure _)

theorem stopWait (seconds : Nat) : Stable P (stopWait os seconds) := by
  induction seconds with
  | zero => exact stable_bind h.isProcessRunning fun _ => stable_pure _
  | succ seconds ih =>
    refine stable_bind h.isProcessRunning fun _ => stable_ite ?_ (stable_pure _)
    exact stable_bind (stable_modify (h.sleepMs 1000)) fun _ => ih

theorem waitForProcessExit (timeout : Nat) : Stable P (waitForProcessExit os timeout) := by
  have record : ∀ st, Stable P (Container.modifyC fun c => recordExit c st : Prog (World σ) Error Unit) := by
    intro st
    cases st <;> exact h.modifyC fun _ => rfl
  refine stable_bind (stable_read _) fun pid => stable_ite ?_ (stable_pure _)
  refine stable_bind (stable_call (h.wait pid)) fun r => ?_
  refine stable_ite (stable_bind (stable_modify (h.sleepMs _)) fun _ => ?_) (stable_ite (record _) (stable_pure _))
  exact stable_bind (stable_call (h.wait pid)) fun _ => stable_ite (record _) (stable_pure _)

/-! ## Transitions -/

theorem executeStateTransition (new : ContainerState) : Stable P (executeStateTransition os new) := by
  cases new with
  | starting => exact h.launch
  | stopping => exact h.waitForProcessExit 10
  | removing => exact h.cleanup
  | restarting => exact h.waitForProcessExit 5
  | created | running | paused | stopped | removed | dead | error => exact stable_pure _

theorem onStateExited (old : ContainerState) : Stable P (onStateExited old : Prog (World σ) Error Unit) := by
  cases old with
  | running => exact h.modifyC fun _ => rfl
  | created | starting | paused | stopping | stopped | removing | removed | dead | restarting | error =>
    exact stable_pure _

theorem onStateEntered (new : ContainerState) : Stable P (onStateEntered os new) := by
  have hstamp : ∀ {f : Int → Container → Container}, (∀ now c, owned (f now c) = owned c) → Stable P (do
      let now ← sys os.systemNow
      Container.modifyC (f now) : Prog (World σ) Error Unit) :=
    fun hf => stable_bind (stable_call h.clock) fun now => h.modifyC (hf now)
  have hstop : Stable P (stopMonitoring : Prog (World σ) Error Unit) := h.modifyC fun _ => rfl
  have hfinished : Stable P (stampFinished os) := hstamp fun _ _ => rfl
  cases new with
  | created => exact hstamp fun _ _ => rfl
  | running =>
    refine stable_bind (stable_call h.clock) fun now => ?_
    refine stable_bind (h.modifyC fun _ => rfl) fun _ => stable_bind (stable_read _) fun _ => ?_
    exact stable_ite (stable_pure _) (h.modifyC fun _ => rfl)
  | stopped => exact hfinished
  | removed => exact h.modifyC fun _ => rfl
  | dead =>
    exact stable_bind hfinished fun _ => stable_bind (h.modifyC fun _ => rfl) fun _ => hstop
  | error => exact stable_bind hfinished fun _ => hstop
  | starting | paused | stopping | removing | restarting => exact stable_pure _

theorem notifyCallback (old new : ContainerState) : Stable P (notifyCallback os .abstracted old new) := by
  have hnotify : ∀ id, Stable P (modify fun w => { w with os := os.notify id old new w.os } :
      Prog (World σ) Error Unit) := fun id => stable_modify (h.notify id old new)
  rw [Container.notifyCallback, lockGuard_abstracted]
  refine stable_bind (stable_read _) fun cb => ?_
  cases cb with
  | none => exact stable_pure _
  | some cb =>
    refine stable_ignoreErrors ?_
    cases cb with
    | client => exact stable_bind (stable_read _) fun _ => hnotify _
    | registry =>
      simp only [runCallback, getInfo, onContainerEvent, lockGuard_abstracted]
      exact stable_bind (stable_read _) fun _ => stable_bind (stable_read _) fun _ =>
        stable_ite (hnotify _) (stable_pure _)

theorem transitionState (new : ContainerState) : Stable P (transitionState os .abstracted new) := by
  refine stable_bind (stable_read _) fun c => stable_ite ?_ (stable_throw _)
  refine stable_bind ?_ fun _ => h.notifyCallback _ _
  refine stable_bind (h.onStateExited _) fun _ => stable_bind (h.executeStateTransition new) fun _ => ?_
  exact stable_bind (h.modifyC fun _ => rfl) fun _ => h.onStateEntered new

/-! ## Member functions -/

theorem orError (hp : Stable P p) : Stable P (orError os .abstracted p) :=
  stable_tryCatch hp fun _ => stable_bind (h.transitionState .error) fun _ => stable_throw _

theorem start : Stable P (start os .abstracted) := by
  rw [Container.start, lockGuard_abstracted]
  refine guarded (h.orError (stable_bind (h.transitionState .starting) fun _ => ?_))
  exact stable_bind (stable_read _) fun _ => stable_ite (stable_throw _) (h.transitionState .running)

theorem stop (timeout : Int) : Stable P (stop os .abstracted timeout) := by
  rw [Container.stop, lockGuard_abstracted]
  refine guarded (h.orError (stable_bind (h.killMain sigterm) fun _ => ?_))
  refine stable_bind (h.transitionState .stopping) fun _ => stable_bind (stable_read _) fun pid => ?_
  refine stable_bind (stable_when (stable_bind (h.stopWait _) fun _ => ?_)) fun _ => h.transitionState .stopped
  refine stable_bind h.isProcessRunning fun _ => stable_when ?_
  exact stable_bind (h.killMain sigkill) fun _ => h.waitForProcessExit 5

theorem restart (timeout : Int) : Stable P (restart os .abstracted timeout) := by
  rw [Container.restart, lockGuard_abstracted]
  refine guarded (h.orError (stable_bind (h.transitionState .restarting) fun _ => stable_bind (stable_read _) fun _ => ?_))
  refine stable_bind (stable_when (unlocked (h.stop timeout))) fun _ => ?_
  exact stable_bind (stable_read _) fun _ => stable_when (unlocked h.start)

theorem remove (force : Bool) : Stable P (remove os .abstracted force) := by
  rw [Container.remove, lockGuard_abstracted]
  refine stable_bind (stable_read _) fun c => stable_ite (stable_throw _) ?_
  refine stable_bind (h.transitionState .removing) fun _ => h.orError ?_
  refine stable_bind (stable_read _) fun c => stable_bind (stable_when ?_) fun _ => ?_
  · exact stable_bind (stable_call (h.signal c.mainPid sigkill)) fun _ => h.waitForProcessExit 5
  · refine stable_bind h.cleanup fun _ => stable_bind (h.transitionState .removed) fun _ => ?_
    exact h.modifyC fun _ => rfl

theorem getStats : Stable P (getStats os) := by
  refine stable_bind (stable_call h.clock) fun now => stable_bind (stable_read _) fun g => ?_
  cases g with
  | none => exact stable_bind h.probe fun _ => stable_pure _
  | some g =>
    refine stable_bind (stable_call (h.metrics g)) fun r => ?_
    cases r with
    | error text => exact stable_pure _
    | ok m => exact stable_bind h.probe fun _ => stable_pure _

theorem cleanup_member : Stable P (Container.cleanup os) := by
  refine stable_bind (stable_read _) fun _ => stable_ite (stable_pure _) (stable_ignoreErrors ?_)
  refine stable_bind (h.modifyC fun _ => rfl) fun _ => ?_
  exact stable_bind h.cleanup fun _ => h.modifyC fun _ => rfl

end Upheld

variable {os : Os σ} {P : World σ → Prop} (h : Upheld os P)

include h

theorem op_upheld (op : Op) : Stable P (op.run os .abstracted) := by
  cases op with
  | start => exact h.start
  | stop timeout => exact h.stop timeout
  | pause =>
    rw [Op.run, pause, lockGuard_abstracted]
    exact Upheld.guarded (h.transitionState .paused)
  | resume =>
    rw [Op.run, resume, lockGuard_abstracted]
    exact Upheld.guarded (h.transitionState .running)
  | restart timeout => exact h.restart timeout
  | remove force => exact h.remove force
  | kill sig =>
    rw [Op.run, kill, lockGuard_abstracted]
    exact h.killMain sig

theorem member_upheld (m : Member) : Stable P (m.run os .abstracted) := by
  cases m with
  | op o => exact op_upheld h o
  | isProcessRunning => exact stable_bind h.isProcessRunning fun _ => stable_pure _
  | updateResources limits =>
    simp only [Member.run, updateResources, lockGuard_abstracted]
    exact stable_bind (stable_read _) fun c => stable_ite (stable_pure _) (stable_throw _)
  | getStats => exact stable_bind h.getStats fun _ => stable_pure _
  | setEventCallback cb =>
    simp only [Member.run, setEventCallback, lockGuard_abstracted]
    exact h.modifyC fun _ => rfl
  | removeEventCallback =>
    simp only [Member.run, removeEventCallback, lockGuard_abstracted]
    exact h.modifyC fun _ => rfl
  | updateConfig config =>
    simp only [Member.run, updateConfig, lockGuard_abstracted]
    exact h.modifyC fun _ => rfl
  | startMonitoring =>
    exact stable_bind (stable_read _) fun _ =>
      stable_ite (stable_pure _) (h.modifyC fun _ => rfl)
  | stopMonitoring => exact h.modifyC fun _ => rfl
  | cleanup => exact h.cleanup_member

theorem callAll_upheld (members : List Member) {w : World σ} (hw : P w) : P (callAll os members w) := by
  induction members generalizing w with
  | nil => exact hw
  | cons m members ih => exact ih (member_upheld h m w hw)

end DockerCpp.Runtime.Container
