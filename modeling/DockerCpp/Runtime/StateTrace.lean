/-
  DockerCpp.Runtime.StateTrace — what the event callback of a container is told
  (`Container::transitionState`).

  `os.recording` is any system with a memory of the calls of the client's callback. A
  transition that returns tells it once, after the new state is stored and entered; one that
  throws tells nothing, and nothing else of an operation does (`transitionState_tells`,
  `enterState_unheard`). So whatever is called and however the system answers, what the callback
  has been told is a walk through the table from CREATED to the present state
  (`callback_follows_states`): no change of state is missed, told twice or out of order.
-/

import DockerCpp.Runtime.Beside
import DockerCpp.Runtime.ContainerLifecycle

namespace DockerCpp.Runtime

open Lib Lib.Prog

variable {σ : Type}

structure Notice where
  id : String
  old : ContainerState
  new : ContainerState
  deriving DecidableEq, Repr

/-- The system, with a memory of what the callback was told. -/
def Os.recording (os : Os σ) : Os (σ × List Notice) :=
  (os.beside (List Notice)).refit (os.beside (List Notice)).cgroup
    fun id old new s => (os.notify id old new s.1, s.2 ++ [⟨id, old, new⟩])

namespace Container

/-! ## The parts that make no notification -/

section leaves

variable {os : Os σ} {I : σ → Prop} {config : ContainerConfig} (h : os.Leaves I)

include h

theorem cleanupResources_on : Stable (On config I) (cleanupResources os) :=
  stable_bind (cleanupProcessManager_on h) fun _ => stable_bind (cleanupCgroup_apart (on_apart h)) fun _ =>
    modifyC_on fun _ => rfl

theorem executeStateTransition_on (hfork : os.Forks (processConfig config) I I) (new : ContainerState) :
    Stable (On config I) (executeStateTransition os new) := by
  cases new with
  | starting =>
    refine stable_bind (setupNamespaces_apart (on_apart h)) fun _ => ?_
    refine stable_bind (setupCgroups_apart (on_apart h)) fun _ w hw => ?_
    refine Ends.mono (startProcess_crosses h h hfork w hw) ?_
    intro r w' hpost
    rcases hpost with hon | ⟨hon, -⟩ <;> exact hon
  | stopping => exact waitForProcessExit_on h 10
  | removing => exact cleanupResources_on h
  | restarting => exact waitForProcessExit_on h 5
  | created | running | paused | stopped | removed | dead | error => exact stable_pure _

theorem enterState_on (hfork : os.Forks (processConfig config) I I) (old new : ContainerState) :
    Stable (On config I) (enterState os old new) := by
  refine stable_bind (onStateExited_on _) fun _ => stable_bind (executeStateTransition_on h hfork new) fun _ => ?_
  exact stable_bind (modifyC_on fun _ => rfl) fun _ => onStateEntered_on h new

end leaves

variable (os : Os σ)

theorem cleanupResources_recording :
    cleanupResources os.recording = cleanupResources (os.beside (List Notice)) := by
  rw [cleanupResources, cleanupResources, Os.recording, cleanupProcessManager_refit]
  rfl

theorem enterState_recording (old new : ContainerState) :
    enterState os.recording old new = enterState (os.beside (List Notice)) old new := by
  cases new with
  | starting =>
    have hlaunch : launchProcess os.recording = launchProcess (os.beside (List Notice)) := by
      simp only [launchProcess, Os.recording, destroyManager_refit]
      rfl
    have hstart : startProcess os.recording = startProcess (os.beside (List Notice)) := by
      rw [startProcess, startProcess, hlaunch]
      rfl
    simp only [enterState, executeStateTransition, hstart]
    rfl
  | removing =>
    simp only [enterState, executeStateTransition, cleanupResources_recording]
    rfl
  | created | running | paused | stopping | stopped | removed | dead | restarting | error => rfl

theorem enterState_unheard (old new : ContainerState) : Unheard (enterState os.recording old new) := by
  refine unheard_of_on fun config l => ?_
  rw [enterState_recording]
  exact enterState_on (beside_leaves os l) (beside_forks os (processConfig config) l) old new

theorem cleanupResources_unheard : Unheard (cleanupResources os.recording) := by
  refine unheard_of_on fun _ l => ?_
  rw [cleanupResources_recording]
  exact cleanupResources_on (beside_leaves os l)

/-! ## A transition -/

/-- A client's callback is behind the container's. -/
def heard (w : World σ) : Bool :=
  match w.c.eventCallback with
  | none => false
  | some .client => true
  | some .registry => w.listener.globalCallback

theorem notifyCallback_tells (old new : ContainerState) (w : World (σ × List Notice)) :
    Ends (notifyCallback os.recording .abstracted old new) w fun _ w' =>
      w'.os.2 = w.os.2 ++ if heard w then [⟨w.c.id, old, new⟩] else [] := by
  rw [notifyCallback, lockGuard_abstracted, ends_bind, readC, ends_read, andThen_ok]
  cases hcb : w.c.eventCallback with
  | none =>
    simp only [heard, hcb, Bool.false_eq_true, if_false, List.append_nil]
    rfl
  | some cb =>
    cases cb with
    | client =>
      simp only [heard, hcb, if_true]
      rfl
    | registry =>
      simp only [ignoreErrors, runCallback, getInfo, onContainerEvent, lockGuard_abstracted, readC, ends_tryCatch,
        ends_bind, ends_read, andThen_ok, heard, hcb]
      split
      · rfl
      · exact (List.append_nil _).symm

theorem transitionState_tells (new : ContainerState) (w : World (σ × List Notice)) :
    Ends (transitionState os.recording .abstracted new) w fun r w' =>
      (r = .ok () → w'.os.2 = w.os.2 ++ if heard w then [⟨w.c.id, w.c.state, new⟩] else []) ∧
      (r ≠ .ok () → w'.os.2 = w.os.2) := by
  rw [transitionState, ends_bind, self, ends_read, andThen_ok]
  split
  · rw [ends_bind]
    refine Ends.mono ((enterState_unheard os w.c.state new w).and (enterState_moved os.recording new w)) ?_
    intro r w1 hpost
    obtain ⟨hunheard, hlistener, hmoved⟩ := hpost
    have hid := moved_identity hmoved
    cases r with
    | thrown e => exact ⟨fun hok => (by cases hok), fun _ => hunheard⟩
    | blocked => cases hmoved
    | ok _ =>
      rw [andThen_ok]
      refine Ends.mono ((notifyCallback_tells os w.c.state new w1).and
        (notifyCallback_returns os.recording w.c.state new w1)) ?_
      intro r w2 hpost
      obtain ⟨htold, ⟨u, hr⟩, -⟩ := hpost
      have hheard : heard w1 = heard w := by rw [heard, heard, hid.eventCallback, hlistener]
      rw [hunheard, hheard, hid.id] at htold
      exact ⟨fun _ => htold, fun hne => absurd hr hne⟩
  · rw [ends_throw]
    exact ⟨fun hok => (by cases hok), fun _ => rfl⟩

/-! ## Walks through the table -/

/-- The table has a row for the step. -/
def Edge (e : ContainerState × ContainerState) : Prop :=
  ∃ t ∈ getStateTransitionTable, t.source = e.1 ∧ t.target = e.2

theorem edge_of_valid {c : Container} {old new : ContainerState} (h : isStateTransitionValid c old new = true) :
    Edge (old, new) := by
  unfold isStateTransitionValid at h
  split at h
  · rename_i t hfind
    have hrow := List.find?_some hfind
    rw [Bool.and_eq_true, beq_iff_eq, beq_iff_eq] at hrow
    exact ⟨t, List.mem_of_find?_eq_some hfind, hrow⟩
  · cases h

def Walk : ContainerState → List (ContainerState × ContainerState) → ContainerState → Prop
  | source, [], target => source = target
  | source, e :: walk, target => e.1 = source ∧ Edge e ∧ Walk e.2 walk target

theorem Walk.append {source middle target : ContainerState} {walk walk' : List (ContainerState × ContainerState)}
    (h : Walk source walk middle) (h' : Walk middle walk' target) : Walk source (walk ++ walk') target := by
  induction walk generalizing source with
  | nil =>
    obtain rfl : source = middle := h
    exact h'
  | cons e walk ih =>
    obtain ⟨hsource, hedge, hrest⟩ := h
    exact ⟨hsource, hedge, ih hrest⟩

def notices (id : String) (walk : List (ContainerState × ContainerState)) : List Notice :=
  walk.map fun e => ⟨id, e.1, e.2⟩

/-- From one world to the other the state has taken the walk that the callback was told. -/
structure Follows (w w' : World (σ × List Notice)) : Prop where
  listener : w'.listener = w.listener
  id : w'.c.id = w.c.id
  eventCallback : w'.c.eventCallback = w.c.eventCallback
  walked : ∃ walk, Walk w.c.state walk w'.c.state ∧
    w'.os.2 = w.os.2 ++ if heard w then notices w.c.id walk else []

theorem Follows.stay {w w' : World (σ × List Notice)} (hl : w'.listener = w.listener) (hid : w'.c.id = w.c.id)
    (hcb : w'.c.eventCallback = w.c.eventCallback) (hs : w'.c.state = w.c.state) (ht : w'.os.2 = w.os.2) :
    Follows w w' :=
  ⟨hl, hid, hcb, [], hs.symm, by simp [ht, notices]⟩

instance : Frame (Follows (σ := σ)) where
  refl w := Follows.stay rfl rfl rfl rfl rfl
  trans {w w' w''} h h' := by
    obtain ⟨walk, hwalk, htold⟩ := h.walked
    obtain ⟨walk', hwalk', htold'⟩ := h'.walked
    refine ⟨h'.listener.trans h.listener, h'.id.trans h.id, h'.eventCallback.trans h.eventCallback, walk ++ walk',
      hwalk.append hwalk', ?_⟩
    have hheard : heard w' = heard w := by rw [heard, heard, h.eventCallback, h.listener]
    rw [htold', htold, hheard, h.id]
    cases heard w <;> simp [notices]

/-! ## Operations -/

theorem transitionState_follows (new : ContainerState) :
    Within Follows (transitionState os.recording .abstracted new) := by
  intro w
  refine Ends.mono ((transitionState_tells os new w).and (transitionState_ends os.recording new w)) ?_
  intro r w' hpost
  obtain ⟨⟨htold, hunheard⟩, hl, hm⟩ := hpost
  split at hm
  · rename_i hv
    have hid := moved_identity hm
    cases r with
    | blocked => cases hm
    | thrown e =>
      exact ⟨by simp, Follows.stay hl hid.id hid.eventCallback (moved_thrown hm).2 (hunheard (by simp))⟩
    | ok _ =>
      refine ⟨by simp, hl, hid.id, hid.eventCallback, [(w.c.state, new)], ?_, htold rfl⟩
      exact ⟨rfl, edge_of_valid hv, (moved_ok hm).symm⟩
  · obtain ⟨rfl, hc⟩ := hm
    exact ⟨by simp, Follows.stay hl (by rw [hc]) (by rw [hc]) (by rw [hc]) (hunheard (by simp))⟩

/-- A part that leaves state, identity and callback alone. -/
theorem unheard_follows {α : Type} {p : Prog (World (σ × List Notice)) Error α} (hq : Unheard p)
    (hp : Returns (Touches ExitOnly) p) : Within Follows p := by
  intro w
  refine Ends.mono ((hq w).and (hp w)) ?_
  intro r w' hpost
  obtain ⟨htold, ⟨a, rfl⟩, hl, code, reason, hc⟩ := hpost
  exact ⟨by simp, Follows.stay hl (by rw [hc]) (by rw [hc]) (by rw [hc]) htold⟩

theorem killMain_follows (sig : Int) : Within Follows (killMain os.recording sig) :=
  unheard_follows (killMain_unheard os _ _ sig) ((killMain_returns os.recording sig).weaken touches_exitOnly)

theorem waitForProcessExit_follows (timeout : Nat) : Within Follows (waitForProcessExit os.recording timeout) :=
  unheard_follows (waitForProcessExit_unheard os _ _ timeout) (waitForProcessExit_returns os.recording timeout)

theorem cleanupResources_follows : Within Follows (cleanupResources os.recording) := by
  intro w
  refine Ends.mono ((cleanupResources_unheard os w).and (cleanupResources_ends os.recording w)) ?_
  intro r w' hpost
  obtain ⟨htold, rfl, hl, hc⟩ := hpost
  exact ⟨by simp, Follows.stay hl (by rw [hc]) (by rw [hc]) (by rw [hc]) htold⟩

variable {p : Prog (World (σ × List Notice)) Error Unit}

theorem orError_follows (hp : Within Follows p) : Within Follows (orError os.recording .abstracted p) :=
  within_tryCatch hp fun _ => within_bind (transitionState_follows os .error) fun _ => within_throw _

theorem guarded_follows {target : ContainerState} (hp : Within Follows p) : Within Follows (guarded target p) :=
  within_bind (returns_read _).within fun _ => within_ite hp (within_throw _)

theorem start_follows : Within Follows (start os.recording .abstracted) := by
  rw [start, lockGuard_abstracted]
  refine guarded_follows (orError_follows os (within_bind (transitionState_follows os .starting) fun _ => ?_))
  exact within_bind (returns_read _).within fun _ => within_ite (within_throw _) (transitionState_follows os .running)

theorem stop_follows (timeout : Int) : Within Follows (stop os.recording .abstracted timeout) := by
  rw [stop, lockGuard_abstracted]
  refine guarded_follows (orError_follows os (within_bind (killMain_follows os sigterm) fun _ => ?_))
  refine within_bind (transitionState_follows os .stopping) fun _ => within_bind (returns_read _).within fun pid => ?_
  refine within_bind (unheard_follows (stop_wait_unheard os _ _ timeout pid) (stop_wait_returns os.recording timeout pid))
    fun _ => ?_
  exact transitionState_follows os .stopped

theorem unlocked_follows (hp : Within Follows p) : Within Follows (unlocked .abstracted p) := by
  have hfree : ∀ m, Within Follows (lock .abstracted m : Prog (World (σ × List Notice)) Error Unit) :=
    fun _ => (returns_pure ()).within
  refine within_bind (hfree mutexOf) fun _ => within_bind ?_ fun _ => hfree mutexOf
  exact within_tryCatch hp fun _ => within_bind (hfree mutexOf) fun _ => within_throw _

theorem restart_follows (timeout : Int) : Within Follows (restart os.recording .abstracted timeout) := by
  rw [restart, lockGuard_abstracted]
  refine guarded_follows (orError_follows os (within_bind (transitionState_follows os .restarting) fun _ => ?_))
  refine within_bind (returns_read _).within fun _ => ?_
  refine within_bind (within_when (unlocked_follows (stop_follows os timeout))) fun _ => ?_
  exact within_bind (returns_read _).within fun _ => within_when (unlocked_follows (start_follows os))

theorem remove_follows (force : Bool) : Within Follows (remove os.recording .abstracted force) := by
  have hkill : ∀ pid : Int, Within Follows (do
      let _ ← sys (os.recording.kill pid sigkill)
      waitForProcessExit os.recording 5 : Prog (World (σ × List Notice)) Error Unit) := by
    intro pid
    refine within_bind (returns_call fun w => ?_).within fun _ => waitForProcessExit_follows os 5
    exact Follows.stay rfl rfl rfl rfl rfl
  rw [remove, lockGuard_abstracted]
  refine within_bind (returns_read _).within fun c => within_ite (within_throw _) ?_
  refine within_bind (transitionState_follows os .removing) fun _ => orError_follows os ?_
  refine within_bind (returns_read _).within fun c => within_bind (within_when (hkill c.mainPid)) fun _ => ?_
  refine within_bind (cleanupResources_follows os) fun _ => within_bind (transitionState_follows os .removed) fun _ => ?_
  exact Returns.within fun w => ⟨⟨(), rfl⟩, Follows.stay rfl rfl rfl rfl rfl⟩

theorem op_follows (op : Op) : Within Follows (op.run os.recording .abstracted) := by
  cases op with
  | start => exact start_follows os
  | stop timeout => exact stop_follows os timeout
  | pause =>
    rw [Op.run, pause, lockGuard_abstracted]
    exact guarded_follows (transitionState_follows os .paused)
  | resume =>
    rw [Op.run, resume, lockGuard_abstracted]
    exact guarded_follows (transitionState_follows os .running)
  | restart timeout => exact restart_follows os timeout
  | remove force => exact remove_follows os force
  | kill sig =>
    rw [Op.run, kill, lockGuard_abstracted]
    exact killMain_follows os sig

theorem runAll_follows (ops : List Op) (w : World (σ × List Notice)) : Follows w (runAll os.recording ops w) := by
  induction ops generalizing w with
  | nil => exact Frame.refl w
  | cons op ops ih => exact Frame.trans (op_follows os op w).2 (ih _)

theorem hexDigits_told (n : Nat) (s : σ × List Notice) : (hexDigits os.recording n s).2.2 = s.2 := by
  induction n generalizing s with
  | zero => rfl
  | succ n ih => exact ih _

theorem fresh_told (config : ContainerConfig) (s : σ × List Notice) (cb : Option EventCallback) (l : Listener) :
    (fresh os.recording config s cb l).os.2 = s.2 := by
  by_cases hid : config.id = ""
  · simp only [fresh, make, hid, if_true]
    exact hexDigits_told os 64 s
  · simp only [fresh, make, hid, if_false]
    rfl

/-- A refused `pause` between is not told, nor is the `kill`. -/
example :
    (runAll calmOs.recording [.pause, .start, .kill 9, .stop 10]
      (fresh calmOs.recording { id := "c", name := "web" } ({}, []) (some .client) {})).os.2 =
    notices "c" [(.created, .starting), (.starting, .running), (.running, .stopping), (.stopping, .stopped)] := by
  decide +kernel

end Container

end DockerCpp.Runtime
