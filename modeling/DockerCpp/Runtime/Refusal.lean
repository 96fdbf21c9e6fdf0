/-
  DockerCpp.Runtime.Refusal — operations that are refused, and the end of a container.

  `start`, `stop`, `pause`, `resume` and `restart` ask the table before they do anything;
  `remove` first looks for a running container and then leaves the question to the
  transition, which asks before it leaves the old state. `refusal` is the state an operation
  is refused for. A refused operation throws and leaves the world as it was: the container
  with everything it owns, and the system, so it has sent no signal and called no callback.

  The table has no edge out of REMOVED, and no member function stores a state but by a
  transition. So once removed a container refuses all six operations, whatever is called on
  it (`refused_operations`).
-/

import DockerCpp.Runtime.ContainerMove

namespace DockerCpp.Runtime.Container

open Lib Lib.Prog

variable {σ : Type} (os : Os σ)

/-- The target an operation's initial check refuses, if it does. -/
def refusal (c : Container) : Op → Option ContainerState
  | .start => if canTransitionTo c .starting then none else some .starting
  | .stop _ => if canTransitionTo c .stopping then none else some .stopping
  | .pause => if canTransitionTo c .paused then none else some .paused
  | .resume => if canTransitionTo c .running then none else some .running
  | .restart _ => if canTransitionTo c .restarting then none else some .restarting
  | .remove force =>
    if c.state = .running ∧ !force then some .removed
    else if canTransitionTo c .removing then none else some .removing
  | .kill _ => none

/-! ## What a check looks at -/

/-- The fields a check reads: those the table's conditions look at, and those of the error. -/
structure SameChecks (c c' : Container) : Prop where
  id : c'.id = c.id
  state : c'.state = c.state
  removed : c'.removed = c.removed
  mainPid : c'.mainPid = c.mainPid

theorem table_conditions : ∀ t ∈ getStateTransitionTable,
    t.condition = always ∨ t.condition = notRemoved ∨ t.condition = hasPid := by
  simp [getStateTransitionTable]

theorem SameChecks.canTransitionTo {c c' : Container} (h : SameChecks c c') (target : ContainerState) :
    canTransitionTo c' target = canTransitionTo c target := by
  unfold Runtime.canTransitionTo isStateTransitionValid
  rw [h.state]
  cases hfind : getStateTransitionTable.find? fun t => t.source == c.state && t.target == target with
  | none => rfl
  | some t =>
    rcases table_conditions t (List.mem_of_find?_eq_some hfind) with hc | hc | hc
    · simp [hc, always]
    · simp [hc, notRemoved, h.removed]
    · simp [hc, hasPid, h.mainPid]

/-! ## A refusal changes nothing -/

variable {w : World σ} {target : ContainerState}

/-- A guard whose body throws, and leaves the state it found, whoever owns the mutex. -/
theorem lockGuard_throws (k : Locking) (hfree : w.c.mutex = none) {body : Prog (World σ) Error Unit}
    {e : Error} (h : ∀ v : World σ, SameChecks w.c v.c → body v = (.thrown e, v)) :
    lockGuard k mutexOf body w = (.thrown e, w) := by
  cases k with
  | abstracted =>
    rw [lockGuard_abstracted]
    exact h w ⟨rfl, rfl, rfl, rfl⟩
  | thread t =>
    have hends : Ends (lockGuard (.thread t) mutexOf body) w fun r w' => r = .thrown e ∧ w' = w := by
      rw [ends_lockGuard_free (m := mutexOf) hfree, Ends, h (mutexOf.setOwner (some t) w) ⟨rfl, rfl, rfl, rfl⟩]
      refine ⟨rfl, ?_⟩
      obtain ⟨c, o, l⟩ := w
      have hm : c.mutex = none := hfree
      show World.mk { c with mutex := none } o l = _
      rw [← hm]
    exact Prod.ext hends.1 hends.2

theorem guarded_throws (hv : canTransitionTo w.c target = false) (body : Prog (World σ) Error Unit) :
    guarded target body w = (.thrown (.invalidState w.c.id w.c.state target), w) := by
  show (if canTransitionTo w.c target then body else throw _) w = _
  rw [hv]
  rfl

theorem transitionState_throws (k : Locking) (hv : canTransitionTo w.c target = false) :
    transitionState os k target w = (.thrown (.invalidState w.c.id w.c.state target), w) := by
  have hv' : isStateTransitionValid w.c w.c.state target = false := hv
  show (if isStateTransitionValid w.c w.c.state target then _ else throw _) w = _
  rw [hv']
  rfl

/-- A refusal by the check an operation starts with. -/
theorem guarded_refuses (k : Locking) (hfree : w.c.mutex = none) {target target' : ContainerState}
    (h : (if canTransitionTo w.c target then none else some target) = some target')
    (body : Prog (World σ) Error Unit) :
    lockGuard k mutexOf (guarded target body) w = (.thrown (.invalidState w.c.id w.c.state target'), w) := by
  split at h
  · cases h
  · rename_i hv
    obtain rfl := Option.some.inj h
    refine lockGuard_throws k hfree fun v hsame => ?_
    rw [← hsame.id, ← hsame.state]
    exact guarded_throws ((hsame.canTransitionTo target).trans (Bool.eq_false_iff.mpr hv)) body

/-- `remove` refuses a running container itself, and leaves the rest to the transition. -/
theorem remove_refuses (k : Locking) (hfree : w.c.mutex = none) {force : Bool}
    (h : refusal w.c (.remove force) = some target) :
    remove os k force w = (.thrown (.invalidState w.c.id w.c.state target), w) := by
  refine lockGuard_throws k hfree fun v hsame => ?_
  rw [← hsame.id, ← hsame.state]
  simp only [refusal, ← hsame.state] at h
  show (if v.c.state = .running ∧ !force then throw _ else _) v = _
  split at h
  · rename_i hrun
    obtain rfl := Option.some.inj h
    rw [if_pos hrun]
    rfl
  · rename_i hrun
    rw [if_neg hrun]
    split at h
    · cases h
    · rename_i hv
      obtain rfl := Option.some.inj h
      have hv' := (hsame.canTransitionTo .removing).trans (Bool.eq_false_iff.mpr hv)
      show Prog.bind (transitionState os k .removing) _ v = _
      rw [Prog.bind, transitionState_throws os k hv']

theorem refused_unchanged (k : Locking) (hfree : w.c.mutex = none) (op : Op)
    (h : refusal w.c op = some target) : op.run os k w = (.thrown (.invalidState w.c.id w.c.state target), w) := by
  cases op with
  | start => exact guarded_refuses k hfree h _
  | stop timeout => exact guarded_refuses k hfree h _
  | pause => exact guarded_refuses k hfree h _
  | resume => exact guarded_refuses k hfree h _
  | restart timeout => exact guarded_refuses k hfree h _
  | remove force => exact remove_refuses os k hfree h
  | kill sig => cases h

/-! ## The other member functions -/

/-- `updateResources` does not change any limit. -/
def updateResources (k : Locking) (_limits : ResourceLimits) : Prog (World σ) Error Unit :=
  lockGuard k mutexOf do
    let c ← self
    if c.state = .running then pure () else throw (.invalidState c.id c.state .running)

def removeEventCallback (k : Locking) : Prog (World σ) Error Unit :=
  lockGuard k callbackMutexOf (modifyC fun c => { c with eventCallback := none })

/-- The public member functions that do more than return a field. -/
inductive Member where
  | op (o : Op)
  | isProcessRunning
  | updateResources (limits : ResourceLimits)
  | getStats
  | setEventCallback (cb : EventCallback)
  | removeEventCallback
  | updateConfig (config : ContainerConfig)
  | startMonitoring
  | stopMonitoring
  | cleanup

def Member.run (k : Locking) : Member → Prog (World σ) Error Unit
  | .op o => o.run os k
  | .isProcessRunning => do
    let _ ← Container.isProcessRunning os
    pure ()
  | .updateResources limits => Container.updateResources k limits
  | .getStats => do
    let _ ← Container.getStats os
    pure ()
  | .setEventCallback cb => Container.setEventCallback k cb
  | .removeEventCallback => Container.removeEventCallback k
  | .updateConfig config => Container.updateConfig k config
  | .startMonitoring => Container.startMonitoring
  | .stopMonitoring => Container.stopMonitoring
  | .cleanup => Container.cleanup os

/-- One call after the other; a caller goes on after one that threw. -/
def callAll (members : List Member) (w : World σ) : World σ :=
  members.foldl (fun w m => (m.run os .abstracted w).2) w

/-! ## The end of a container -/

/-- The state is REMOVED, and no call is under way. -/
def Gone (w : World σ) : Prop := w.c.state = .removed ∧ w.c.mutex = none

theorem refusal_of_removed {c : Container} (h : c.state = .removed) (op : Op) :
    (∃ sig, op = .kill sig) ∨ ∃ target, refusal c op = some target := by
  have hno : ∀ target, canTransitionTo c target = false := by
    intro target
    rw [canTransitionTo, h]
    exact invalid_from_removed c target
  cases op with
  | kill sig => exact Or.inl ⟨sig, rfl⟩
  | start => exact Or.inr ⟨.starting, by simp [refusal, hno]⟩
  | stop timeout => exact Or.inr ⟨.stopping, by simp [refusal, hno]⟩
  | pause => exact Or.inr ⟨.paused, by simp [refusal, hno]⟩
  | resume => exact Or.inr ⟨.running, by simp [refusal, hno]⟩
  | restart timeout => exact Or.inr ⟨.restarting, by simp [refusal, hno]⟩
  | remove force => exact Or.inr ⟨.removing, by simp [refusal, hno, h]⟩

theorem stays_gone {α : Type} {p : Prog (World σ) Error α} (h : Returns (Touches Eq) p) : Stable Gone p := by
  intro w hw
  refine Ends.mono (h w) ?_
  intro r w' hpost
  obtain ⟨-, -, hc⟩ := hpost
  rw [Gone, ← hc]
  exact hw

theorem modifyC_gone {f : Container → Container} (h : ∀ c, (f c).state = c.state ∧ (f c).mutex = c.mutex) :
    Stable Gone (modifyC f : Prog (World σ) Error Unit) :=
  stable_modify fun w hw => ⟨(h w.c).1.trans hw.1, (h w.c).2.trans hw.2⟩

theorem op_gone (op : Op) : Stable Gone (op.run os .abstracted) := by
  intro w hw
  rcases refusal_of_removed hw.1 op with ⟨sig, rfl⟩ | ⟨target, h⟩
  · simp only [Op.run, kill, lockGuard_abstracted]
    exact stays_gone (killMain_returns os sig) w hw
  · rw [Ends, refused_unchanged os .abstracted hw.2 op h]
    exact hw

theorem cleanup_gone : Stable Gone (cleanup os) := by
  refine stable_bind (stable_read _) fun gone => stable_ite (stable_pure _) ?_
  refine stable_tryCatch (stable_bind (modifyC_gone fun _ => ⟨rfl, rfl⟩) fun _ => stable_bind ?_ fun _ =>
    modifyC_gone fun _ => ⟨rfl, rfl⟩) fun _ => stable_pure _
  intro w hw
  refine Ends.mono (cleanupResources_ends os w) ?_
  intro r w' hpost
  obtain ⟨-, -, hc⟩ := hpost
  rw [Gone, hc]
  exact hw

/-- No member function leaves REMOVED. -/
theorem member_gone (m : Member) : Stable Gone (m.run os .abstracted) := by
  cases m with
  | op o => exact op_gone os o
  | isProcessRunning => exact stable_bind (stays_gone (isProcessRunning_returns os)) fun _ => stable_pure _
  | updateResources limits =>
    simp only [Member.run, updateResources, lockGuard_abstracted]
    exact stable_bind (stable_read _) fun c => stable_ite (stable_pure _) (stable_throw _)
  | getStats => exact stable_bind (stays_gone (getStats_returns os)) fun _ => stable_pure _
  | setEventCallback cb =>
    simp only [Member.run, setEventCallback, lockGuard_abstracted]
    exact modifyC_gone fun _ => ⟨rfl, rfl⟩
  | removeEventCallback =>
    simp only [Member.run, removeEventCallback, lockGuard_abstracted]
    exact modifyC_gone fun _ => ⟨rfl, rfl⟩
  | updateConfig config =>
    simp only [Member.run, updateConfig, lockGuard_abstracted]
    exact modifyC_gone fun _ => ⟨rfl, rfl⟩
  | startMonitoring =>
    exact stable_bind (stable_read _) fun _ => stable_ite (stable_pure _) (modifyC_gone fun _ => ⟨rfl, rfl⟩)
  | stopMonitoring => exact modifyC_gone fun _ => ⟨rfl, rfl⟩
  | cleanup => exact cleanup_gone os

theorem callAll_gone (members : List Member) (h : Gone w) : Gone (callAll os members w) := by
  induction members generalizing w with
  | nil => exact h
  | cons m members ih => exact ih (member_gone os m w h)

/-- An operation that its initial check refuses throws `InvalidContainerStateError` and leaves
    the whole world as it was. A removed container stays removed, whatever is called on it,
    and refuses every operation but `kill`. -/
theorem refused_operations (w : World σ) (k : Locking) (hfree : w.c.mutex = none) :
    (∀ op target, refusal w.c op = some target →
      op.run os k w = (.thrown (.invalidState w.c.id w.c.state target), w)) ∧
    (w.c.state = .removed → ∀ members, (callAll os members w).c.state = .removed ∧
      ∀ op : Op, (∃ sig, op = .kill sig) ∨ ∃ target, op.run os k (callAll os members w) =
        (.thrown (.invalidState (callAll os members w).c.id .removed target), callAll os members w)) := by
  refine ⟨fun op target h => refused_unchanged os k hfree op h, fun hs members => ?_⟩
  have hgone : Gone (callAll os members w) := callAll_gone os members ⟨hs, hfree⟩
  refine ⟨hgone.1, fun op => ?_⟩
  rcases refusal_of_removed hgone.1 op with hkill | ⟨target, h⟩
  · exact Or.inl hkill
  · have hrun := refused_unchanged os k hgone.2 op h
    rw [hgone.1] at hrun
    exact Or.inr ⟨target, hrun⟩

def removedWorld : World Procs :=
  runAll calmOs [.start, .stop 10, .remove false] (fresh calmOs { id := "c", name := "web" } {} none {})

theorem refused_operations_removed :
    removedWorld.c.state = .removed ∧
    (∀ op target, refusal removedWorld.c op = some target →
      op.run calmOs (.thread 1) removedWorld = (.thrown (.invalidState "c" .removed target), removedWorld)) ∧
    ∀ members, (callAll calmOs members removedWorld).c.state = .removed ∧
      ∀ op : Op, (∃ sig, op = .kill sig) ∨ ∃ target, op.run calmOs (.thread 1) (callAll calmOs members removedWorld) =
        (.thrown (.invalidState (callAll calmOs members removedWorld).c.id .removed target),
          callAll calmOs members removedWorld) := by
  have hs : removedWorld.c.state = .removed := by decide +kernel
  have hid : removedWorld.c.id = "c" := by decide +kernel
  have h := refused_operations calmOs removedWorld (.thread 1) (by decide +kernel)
  rw [hs, hid] at h
  exact ⟨hs, h.1, h.2 rfl⟩

end DockerCpp.Runtime.Container
