/-
  DockerCpp.Runtime.RegistryLocks — the registry with its mutexes taken for real.

  A container that the registry created calls back into `Container::getInfo` on every
  transition, and `getInfo` takes the mutex that the operation already holds: every
  transition blocks its own thread (`transitionState_blocks`). `removeContainer` takes the
  registry's mutex twice, and so does `getContainerByName` when the name is registered.

  So the containers of a registry none of whose calls blocked are all in CREATED
  (`Quiet`), and `completes_iff_lockFree` says which runs complete: those without a
  `removeContainer`, a `getContainerByName` of a registered name, or a `start` or `remove`
  of a container. `a_start_waits_for_itself` runs the shortest of the others.
-/

import DockerCpp.Runtime.RegistryIndex

namespace DockerCpp.Runtime

open Lib Lib.Prog

namespace Container

variable {σ : Type} (os : Os σ) (t : Tid)

/-! ## A container of the registry -/

/-- As the registry hands it out: no operation has moved it and none is running. -/
structure Idle (c : Container) : Prop where
  state : c.state = .created
  removed : c.removed = false
  mutex : c.mutex = none
  callbackMutex : c.callbackMutex = none
  eventCallback : c.eventCallback = some .registry

/-- During an operation of thread `t` on such a container. -/
structure Busy (c : Container) : Prop where
  mutex : c.mutex = some t
  callbackMutex : c.callbackMutex = none
  eventCallback : c.eventCallback = some .registry

variable {t}

theorem Busy.of_identity {c c' : Container} (h : Busy t c) (hid : SameIdentity c c') : Busy t c' :=
  ⟨hid.mutex.trans h.mutex, hid.callbackMutex.trans h.callbackMutex, hid.eventCallback.trans h.eventCallback⟩

variable {w : World σ}

/-- The callback asks for the mutex its own thread holds. -/
theorem notifyCallback_blocks (h : Busy t w.c) (old new : ContainerState) :
    Ends (notifyCallback os (.thread t) old new) w fun r w' => r = .blocked ∧ w'.c.mutex = some t := by
  rw [notifyCallback, ends_lockGuard_free (m := callbackMutexOf) h.callbackMutex, ends_bind, readC, ends_read, andThen_ok,
    show (callbackMutexOf.setOwner (some t) w).c.eventCallback = some .registry from h.eventCallback]
  have hm : mutexOf.owner (callbackMutexOf.setOwner (some t) w) = some t := h.mutex
  simp only [ignoreErrors, ends_tryCatch, runCallback, ends_bind, getInfo]
  rw [ends_lockGuard_owned hm]
  exact ⟨rfl, h.mutex⟩

/-- A transition the table allows blocks, unless it is a launch that throws. -/
theorem transitionState_blocks (h : Busy t w.c) {new : ContainerState}
    (hv : isStateTransitionValid w.c w.c.state new = true) :
    Ends (transitionState os (.thread t) new) w fun r w' =>
      r = .blocked ∧ w'.c.mutex = some t ∨
        new = .starting ∧ (∃ e, r = .thrown e) ∧ Busy t w'.c ∧ w'.c.state = w.c.state := by
  rw [transitionState, ends_bind, self, ends_read, andThen_ok, if_pos hv, ends_bind]
  refine Ends.mono (enterState_moved os new w) ?_
  intro r w1 hpost
  obtain ⟨-, hm⟩ := hpost
  have h1 : Busy t w1.c := h.of_identity (moved_identity hm)
  cases r with
  | blocked => cases hm
  | thrown e => exact Or.inr ⟨(moved_thrown hm).1, ⟨e, rfl⟩, h1, (moved_thrown hm).2⟩
  | ok _ =>
    rw [andThen_ok]
    refine Ends.mono (notifyCallback_blocks os h1 w.c.state new) ?_
    exact fun r w' hb => Or.inl hb

theorem Idle.busy (h : Idle w.c) : Busy t (mutexOf.setOwner (some t) w).c :=
  ⟨rfl, h.callbackMutex, h.eventCallback⟩

/-- A launch that throws is followed by the transition to ERROR, which blocks. -/
theorem start_blocks (h : Idle w.c) :
    Ends (start os (.thread t)) w fun r w' => r = .blocked ∧ w'.c.mutex = some t := by
  rw [start, ends_lockGuard_free (m := mutexOf) h.mutex]
  generalize hw0 : mutexOf.setOwner (some t) w = w0
  have hbusy : Busy t w0.c := hw0 ▸ h.busy
  have hstate : w0.c.state = .created := by rw [← hw0]; exact h.state
  have hv : isStateTransitionValid w0.c w0.c.state .starting = true := by
    have hr : w0.c.removed = false := by rw [← hw0]; exact h.removed
    rw [hstate]
    simp [isStateTransitionValid, getStateTransitionTable, notRemoved, hr]
  rw [guarded, ends_bind, self, ends_read, andThen_ok, canTransitionTo, if_pos hv, orError, ends_tryCatch,
    ends_bind]
  refine Ends.mono (transitionState_blocks os hbusy hv) ?_
  intro r w1 hpost
  rcases hpost with ⟨rfl, hmx⟩ | ⟨-, ⟨e, rfl⟩, h1, hs1⟩
  · exact ⟨rfl, hmx⟩
  · rw [andThen_thrown, orElse_thrown, ends_bind]
    refine Ends.mono (transitionState_blocks os h1 ?_) ?_
    · rw [hs1, hstate]
      rfl
    · intro r w2 hpost
      rcases hpost with ⟨rfl, hmx⟩ | ⟨hn, -⟩
      · exact ⟨rfl, hmx⟩
      · cases hn

theorem remove_blocks (force : Bool) (h : Idle w.c) :
    Ends (remove os (.thread t) force) w fun r w' => r = .blocked ∧ w'.c.mutex = some t := by
  rw [remove, ends_lockGuard_free (m := mutexOf) h.mutex]
  generalize hw0 : mutexOf.setOwner (some t) w = w0
  have hbusy : Busy t w0.c := hw0 ▸ h.busy
  have hstate : w0.c.state = .created := by rw [← hw0]; exact h.state
  rw [ends_bind, self, ends_read, andThen_ok, if_neg (by simp [hstate]), ends_bind]
  have hv : isStateTransitionValid w0.c w0.c.state .removing = true := by
    rw [hstate]
    rfl
  refine Ends.mono (transitionState_blocks os hbusy hv) ?_
  intro r w1 hpost
  rcases hpost with ⟨rfl, hmx⟩ | ⟨hn, -⟩
  · exact ⟨rfl, hmx⟩
  · cases hn

/-- An operation the table refuses gives the mutex back and changes nothing. -/
theorem guarded_refused (h : Idle w.c) {target : ContainerState} (body : Prog (World σ) Error Unit)
    (hv : ∀ c : Container, isStateTransitionValid c .created target = false) :
    Ends (lockGuard (.thread t) mutexOf (guarded target body)) w fun r w' => r ≠ .blocked ∧ w' = w := by
  have hst : (mutexOf.setOwner (some t) w).c.state = .created := h.state
  rw [ends_lockGuard_free (m := mutexOf) h.mutex, guarded, ends_bind, self, ends_read, andThen_ok, canTransitionTo, hst, hv,
    if_neg (by simp), ends_throw]
  refine ⟨by simp, ?_⟩
  obtain ⟨c, o, l⟩ := w
  have hm := h.mutex
  dsimp only at hm
  show World.mk { c with mutex := none } o l = _
  rw [← hm]

theorem kill_idle (sig : Int) (h : Idle w.c) :
    Ends (kill os (.thread t) sig) w fun r w' => r ≠ .blocked ∧ Idle w'.c ∧ w'.listener = w.listener := by
  rw [kill, ends_lockGuard_free (m := mutexOf) h.mutex]
  refine Ends.mono (killMain_returns os sig _) ?_
  intro r w' hpost
  obtain ⟨⟨_, rfl⟩, hl, hc⟩ := hpost
  refine ⟨by simp, ?_, hl⟩
  show Idle { w'.c with mutex := none }
  rw [← hc]
  exact ⟨h.state, h.removed, rfl, h.callbackMutex, h.eventCallback⟩

theorem updateConfig_idle (config : ContainerConfig) (h : Idle w.c) :
    Ends (updateConfig (.thread t) config) w fun r w' => r ≠ .blocked ∧ Idle w'.c ∧ w'.listener = w.listener := by
  rw [updateConfig, ends_lockGuard_free (m := mutexOf) h.mutex, modifyC, ends_modify]
  exact ⟨by simp, ⟨h.state, h.removed, rfl, h.callbackMutex, h.eventCallback⟩, rfl⟩

end Container

namespace Registry

variable {σ : Type} (os : Os σ) {t : Tid}

/-! ## A registry none of whose calls blocked -/

structure Quiet (s : Registry σ) : Prop where
  mutex : s.mutex = none
  callbackMutex : s.listener.callbackMutex = none
  allocated : ∀ (id : String) (ref : Ref), s.containers[id]? = some ref → ref < s.next
  idle : ∀ ref < s.next, Container.Idle (s.heap ref)

variable {s : Registry σ} {ref : Ref} {p : Prog (World σ) Error Unit} {body : Prog (Registry σ) Error α}
  {α : Type}

theorem Quiet.created (h : Quiet s) {id : String} (he : (id, ref) ∈ s.containers.toList) :
    (s.heap ref).state = .created :=
  (h.idle ref (h.allocated id ref (Std.TreeMap.mem_toList_iff_getElem?_eq_some.mp he))).state

def Completes {α : Type} (p : Prog (Registry σ) Error α) (s : Registry σ) : Prop :=
  Ends p s fun r s' => r ≠ .blocked ∧ Quiet s'

def Blocks {α : Type} (p : Prog (Registry σ) Error α) (s : Registry σ) : Prop := Ends p s fun r _ => r = .blocked

/-- The registry with its mutex taken by `t`, and given back. -/
def taken (t : Tid) (s : Registry σ) : Registry σ := { s with mutex := some t }
def freed (s : Registry σ) : Registry σ := { s with mutex := none }

theorem guard_completes (h : Quiet s) (hb : Ends body (taken t s) fun r s' => r ≠ .blocked ∧ Quiet (freed s')) :
    Completes (lockGuard (.thread t) mutexOf body) s := by
  rw [Completes, ends_lockGuard_free (m := mutexOf) h.mutex]
  refine Ends.mono hb ?_
  intro r s' hpost
  obtain ⟨hr, hq⟩ := hpost
  cases r with
  | ok a => exact ⟨by simp, hq⟩
  | thrown e => exact ⟨by simp, hq⟩
  | blocked => exact absurd rfl hr

theorem Quiet.of_osOnly {s s' : Registry σ} (h : Quiet s) (ho : OsOnly (taken t s) s') : Quiet (freed s') := by
  obtain ⟨o, rfl⟩ := ho
  exact ⟨rfl, h.callbackMutex, h.allocated, h.idle⟩

theorem guard_osOnly (h : Quiet s) (hb : Returns OsOnly body) : Completes (lockGuard (.thread t) mutexOf body) s := by
  refine guard_completes h (Ends.mono (hb _) ?_)
  intro r s' hpost
  obtain ⟨⟨a, rfl⟩, ho⟩ := hpost
  exact ⟨by simp, h.of_osOnly ho⟩

theorem getContainer_ends (id : String) (h : Quiet s) :
    Ends (getContainer (.thread t) id) s fun r s' => r = .ok s.containers[id]? ∧ s' = s := by
  rw [getContainer, ends_lockGuard_free (m := mutexOf) h.mutex, ends_read]
  refine ⟨rfl, ?_⟩
  obtain ⟨cs, ns, mx, l, hp, nx, o⟩ := s
  have hm := h.mutex
  dsimp only at hm
  subst hm
  rfl

theorem onContainer_completes (h : Quiet s)
    (hp : Ends p (worldOf ref s) fun r w' => r ≠ .blocked ∧ Container.Idle w'.c ∧ w'.listener = s.listener) :
    Completes (onContainer ref p) s := by
  rw [Completes, onContainer, ends_zoom]
  refine Ends.mono hp ?_
  intro r w hpost
  obtain ⟨hr, hi, hl⟩ := hpost
  refine ⟨hr, h.mutex, by rw [← h.callbackMutex, ← hl]; rfl, h.allocated, ?_⟩
  intro ref' hr'
  by_cases e : ref' = ref
  · subst e
    simpa [putWorld] using hi
  · simpa [putWorld, e] using h.idle ref' hr'

theorem forward_completes (id : String) (h : Quiet s) (hp : ∀ w : World σ, Container.Idle w.c →
      Ends p w fun r w' => r ≠ .blocked ∧ Container.Idle w'.c ∧ w'.listener = w.listener) :
    Completes (forward (.thread t) id p) s := by
  rw [Completes, forward, ends_bind]
  refine Ends.mono (getContainer_ends id h) ?_
  intro r s' hpost
  obtain ⟨rfl, rfl⟩ := hpost
  rw [andThen_ok]
  split
  · rw [ends_throw]
    exact ⟨by simp, h⟩
  · rename_i ref hc
    exact onContainer_completes h (hp _ (h.idle ref (h.allocated id ref hc)))

theorem forward_blocks {id : String} (h : Quiet s) (hc : s.containers[id]? = some ref)
    (hp : ∀ w : World σ, Container.Idle w.c → Ends p w fun r _ => r = .blocked) :
    Blocks (forward (.thread t) id p) s := by
  rw [Blocks, forward, ends_bind]
  refine Ends.mono (getContainer_ends id h) ?_
  intro r s' hpost
  obtain ⟨rfl, rfl⟩ := hpost
  rw [andThen_ok, hc]
  exact hp _ (h.idle ref (h.allocated id ref hc))

/-- With every container in CREATED there is nothing to clean up or to stop. -/
theorem stoppedLong_quiet {entries : List (String × Ref)}
    (h : ∀ e ∈ entries, (s.heap e.2).state = .created) (k : Locking) :
    Ends (stoppedLong os k entries) s fun r s' => r = .ok [] ∧ s' = s := by
  induction entries with
  | nil => exact ⟨rfl, rfl⟩
  | cons e rest ih =>
    obtain ⟨id, ref⟩ := e
    have hst : (s.heap ref).state = .created := h _ List.mem_cons_self
    simp only [stoppedLong, getState, ends_bind, ends_read, andThen_ok, hst, reduceCtorEq, or_self, if_false]
    exact ih fun e he => h e (List.mem_cons_of_mem _ he)

theorem stopForShutdown_quiet (h : (s.heap ref).state = .created) (k : Locking) :
    Ends (stopForShutdown os k ref) s fun r s' => r = .ok () ∧ s' = s := by
  simp only [stopForShutdown, getState, ends_bind, ends_read, andThen_ok, ends_when, h, reduceCtorEq, or_self, if_false]
  exact ⟨trivial, trivial⟩

theorem createContainer_completes (config : ContainerConfig) (h : Quiet s) :
    Completes (createContainer os (.thread t) config) s := by
  refine Ends.mono (createContainer_ends os (.thread t) config s) ?_
  intro r s' hends
  rcases hends with ⟨-, -, hm, -⟩ | ⟨-, rfl, rfl⟩ | ⟨-, ⟨e, rfl⟩, o, rfl⟩
  · exact absurd h.mutex hm
  · refine ⟨by simp, h.mutex, h.callbackMutex, created_allocated os config h.allocated, fun ref hr => ?_⟩
    by_cases e : ref = s.next
    · rw [e, created_heap_new]
      exact ⟨rfl, rfl, rfl, rfl, rfl⟩
    · rw [created_heap_old os config s e]
      exact h.idle ref (Nat.lt_of_le_of_ne (Nat.lt_succ_iff.mp hr) e)
  · exact ⟨by simp, h.mutex, h.callbackMutex, h.allocated, h.idle⟩

theorem cleanupStoppedContainers_completes (h : Quiet s) : Completes (cleanupStoppedContainers os (.thread t)) s := by
  refine guard_completes h ?_
  rw [ends_bind, ends_read, andThen_ok, ends_bind]
  refine Ends.mono (stoppedLong_quiet os (s := taken t s) (fun e he => h.created he) (.thread t)) ?_
  intro r s' hpost
  obtain ⟨rfl, rfl⟩ := hpost
  exact ⟨by simp [forEach, pure], h.of_osOnly ⟨s.os, rfl⟩⟩

theorem cleanupRemovedContainers_completes (h : Quiet s) : Completes (cleanupRemovedContainers (.thread t)) s := by
  refine guard_completes h ?_
  rw [ends_modify]
  refine ⟨by simp, rfl, h.callbackMutex, ?_, h.idle⟩
  intro id ref hc
  simp only [freed, taken, getElem?_foldl_erase] at hc
  split at hc
  · cases hc
  · exact h.allocated id ref hc

/-- The guards on the registry's callback mutex. -/
theorem setGlobalCallback_ends (b : Bool) (h : s.listener.callbackMutex = none) :
    Ends (lockGuard (.thread t) callbackMutexOf
        (modify fun s => { s with listener := { s.listener with globalCallback := b } }) : Prog (Registry σ) Error Unit) s
      fun r s' => r = .ok () ∧ s' = { s with listener := { s.listener with globalCallback := b } } := by
  rw [ends_lockGuard_free (m := callbackMutexOf) h, ends_modify]
  refine ⟨rfl, ?_⟩
  show ({ s with listener := { globalCallback := b, callbackMutex := none } } : Registry σ) = _
  rw [← h]

theorem shutdown_completes (h : Quiet s) : Completes (shutdown os (.thread t)) s := by
  refine guard_completes h ?_
  rw [ends_bind, ends_read, andThen_ok, ends_bind]
  refine Ends.mono (ends_forEach (I := fun s' => s' = taken t s) ?_ rfl) ?_
  · intro e he _ e'
    obtain rfl := e'
    exact stopForShutdown_quiet os (s := taken t s) (h.created he) (.thread t)
  · intro r s1 hpost
    obtain ⟨rfl, rfl⟩ := hpost
    rw [andThen_ok, ends_bind, ends_modify, andThen_ok]
    refine Ends.mono (setGlobalCallback_ends false h.callbackMutex) ?_
    intro r s2 hpost
    obtain ⟨rfl, rfl⟩ := hpost
    exact ⟨by simp, rfl, h.callbackMutex, by simp [freed], h.idle⟩

/-! ## Which calls complete -/

/-- The calls that no thread waits for itself in, where the earlier ones completed. -/
def Call.LockFree (s : Registry σ) : Call → Prop
  | .removeContainer _ _ => False
  | .getContainerByName name => s.nameToId[name]? = none
  | .startContainer id => s.containers[id]? = none
  | .direct ref .start => s.next ≤ ref
  | .direct ref (.remove _) => s.next ≤ ref
  | _ => True

theorem done_completes {p : Prog (Registry σ) Error α} (hp : Completes p s) : Completes (done p) s := by
  rw [Completes, done, ends_bind]
  refine Ends.mono hp ?_
  intro r s' hpost
  obtain ⟨hr, hq⟩ := hpost
  cases r with
  | ok a => exact ⟨by simp [pure], hq⟩
  | thrown e => exact ⟨by simp, hq⟩
  | blocked => exact absurd rfl hr

theorem held_completes (h : Quiet s) (hp : ref < s.next → ∀ w : World σ, Container.Idle w.c →
      Ends p w fun r w' => r ≠ .blocked ∧ Container.Idle w'.c ∧ w'.listener = w.listener) :
    Completes (held ref p) s := by
  rw [Completes, held, ends_bind, ends_read, andThen_ok, ends_when]
  split
  · rename_i hr
    exact onContainer_completes h (hp hr _ (h.idle ref hr))
  · exact ⟨by simp, h⟩

theorem held_blocks (h : Quiet s) (hr : ref < s.next)
    (hp : ∀ w : World σ, Container.Idle w.c → Ends p w fun r _ => r = .blocked) : Blocks (held ref p) s := by
  rw [Blocks, held, ends_bind, ends_read, andThen_ok, ends_when, if_pos hr]
  exact hp _ (h.idle ref hr)

/-- What is refused in CREATED leaves the container as it was. -/
theorem refused_idle {target : ContainerState} (body : Prog (World σ) Error Unit)
    (hv : ∀ c : Container, isStateTransitionValid c .created target = false) (w : World σ) (h : Container.Idle w.c) :
    Ends (lockGuard (.thread t) Container.mutexOf (Container.guarded target body)) w fun r w' =>
      r ≠ .blocked ∧ Container.Idle w'.c ∧ w'.listener = w.listener := by
  refine Ends.mono (Container.guarded_refused h body hv) ?_
  intro r w' hpost
  obtain ⟨hr, rfl⟩ := hpost
  exact ⟨hr, h, rfl⟩

theorem call_completes (c : Call) (h : Quiet s) (hf : c.LockFree s) : Completes (c.run os (.thread t)) s := by
  have refused := @refused_idle σ t
  cases c with
  | createContainer config => exact done_completes (createContainer_completes os config h)
  | getContainer id => exact done_completes (guard_osOnly h (returns_read _))
  | getContainerByName name =>
    refine done_completes (guard_completes h ?_)
    rw [ends_bind, ends_read, andThen_ok, show (taken t s).nameToId[name]? = none from hf]
    exact ⟨by simp, h.of_osOnly ⟨s.os, rfl⟩⟩
  | removeContainer id force => exact hf.elim
  | listContainers all => exact done_completes (guard_osOnly h (returns_read _))
  | listContainerIds all => exact done_completes (guard_osOnly h (returns_read _))
  | startContainer id =>
    rw [Completes, Call.run, startContainer, forward, ends_bind]
    refine Ends.mono (getContainer_ends id h) ?_
    intro r s' hpost
    obtain ⟨rfl, rfl⟩ := hpost
    rw [andThen_ok, show s'.containers[id]? = none from hf, ends_throw]
    exact ⟨by simp, h⟩
  | stopContainer id timeout => exact forward_completes id h (refused _ fun _ => rfl)
  | pauseContainer id => exact forward_completes id h (refused _ fun _ => rfl)
  | resumeContainer id => exact forward_completes id h (refused _ fun _ => rfl)
  | restartContainer id timeout => exact forward_completes id h (refused _ fun _ => rfl)
  | killContainer id sig => exact forward_completes id h fun w => Container.kill_idle os sig
  | getContainerCount => exact done_completes (guard_osOnly h (returns_read _))
  | getRunningContainerCount => exact done_completes (guard_osOnly h (returns_read _))
  | getAllContainerStats =>
    exact done_completes (guard_osOnly h (returns_bind (returns_read _) fun _ => collectStats_osOnly os _))
  | getAggregatedStats =>
    exact done_completes (guard_osOnly h (returns_bind (returns_read _) fun _ =>
      returns_bind (collectStats_osOnly os _) fun _ => returns_bind (sys_osOnly _) fun _ => returns_pure _))
  | cleanupStoppedContainers => exact cleanupStoppedContainers_completes os h
  | cleanupRemovedContainers => exact cleanupRemovedContainers_completes h
  | shutdown => exact shutdown_completes os h
  | setGlobalEventCallback =>
    refine Ends.mono (setGlobalCallback_ends true h.callbackMutex) ?_
    intro r s' hpost
    obtain ⟨rfl, rfl⟩ := hpost
    exact ⟨by simp, h.mutex, h.callbackMutex, h.allocated, h.idle⟩
  | removeGlobalEventCallback =>
    refine Ends.mono (setGlobalCallback_ends false h.callbackMutex) ?_
    intro r s' hpost
    obtain ⟨rfl, rfl⟩ := hpost
    exact ⟨by simp, h.mutex, h.callbackMutex, h.allocated, h.idle⟩
  | direct ref op =>
    cases op with
    | start => exact held_completes h fun hr => absurd hr (Nat.not_lt.mpr hf)
    | remove force => exact held_completes h fun hr => absurd hr (Nat.not_lt.mpr hf)
    | stop timeout => exact held_completes h fun _ => refused _ fun _ => rfl
    | pause => exact held_completes h fun _ => refused _ fun _ => rfl
    | resume => exact held_completes h fun _ => refused _ fun _ => rfl
    | restart timeout => exact held_completes h fun _ => refused _ fun _ => rfl
    | kill sig => exact held_completes h fun _ w => Container.kill_idle os sig
  | updateConfig ref config => exact held_completes h fun _ w => Container.updateConfig_idle config

theorem call_blocks (c : Call) (h : Quiet s) (hf : ¬ c.LockFree s) : Blocks (c.run os (.thread t)) s := by
  -- what a second lock of the registry's mutex by its owner does
  have again : ∀ id, Ends (getContainer (.thread t) id) (taken t s) fun r _ => r = .blocked := by
    intro id
    have hm : mutexOf.owner (taken t s) = some t := rfl
    rw [getContainer, ends_lockGuard_owned hm]
  have starts : ∀ w : World σ, Container.Idle w.c → Ends (Container.start os (.thread t)) w fun r _ => r = .blocked :=
    fun w hw => Ends.mono (Container.start_blocks os hw) fun _ _ hb => hb.1
  cases c with
  | removeContainer id force =>
    rw [Blocks, Call.run, removeContainer, ends_lockGuard_free (m := mutexOf) h.mutex, ends_bind]
    refine Ends.mono (again id) ?_
    intro r s' e
    obtain rfl := e
    rfl
  | getContainerByName name =>
    obtain ⟨id, hid⟩ := Option.ne_none_iff_exists'.mp hf
    rw [Blocks, Call.run, done, ends_bind, getContainerByName, ends_lockGuard_free (m := mutexOf) h.mutex, ends_bind, ends_read,
      andThen_ok, show (mutexOf.setOwner (some t) s).nameToId[name]? = some id from hid]
    refine Ends.mono (again id) ?_
    intro r s' e
    obtain rfl := e
    rfl
  | startContainer id =>
    obtain ⟨ref, hc⟩ := Option.ne_none_iff_exists'.mp hf
    exact forward_blocks h hc starts
  | direct ref op =>
    cases op with
    | start => exact held_blocks h (Nat.not_le.mp hf) starts
    | remove force =>
      exact held_blocks h (Nat.not_le.mp hf) fun w hw =>
        Ends.mono (Container.remove_blocks os force hw) fun _ _ hb => hb.1
    | stop | pause | resume | restart | kill => exact absurd trivial hf
  | _ => exact absurd trivial hf

/-! ## Runs -/

/-- A call by a thread. -/
def lockedStep (s : Registry σ) (tc : Tid × Call) : Registry σ := (tc.2.run os (.thread tc.1) s).2

theorem empty_quiet (heap : Ref → Container) (o : σ) : Quiet (empty heap o) :=
  ⟨rfl, rfl, by simp [empty], by simp [empty]⟩

/-- Calls taken one after the other, by any threads, all run to completion exactly when
    each is lock-free where it is taken. -/
theorem completes_iff_lockFree (heap : Ref → Container) (o : σ) (run : List (Tid × Call)) :
    EachStep (lockedStep os) (fun s tc => (tc.2.run os (.thread tc.1) s).1 ≠ .blocked) (empty heap o) run ↔
      EachStep (lockedStep os) (fun s tc => tc.2.LockFree s) (empty heap o) run := by
  have agree : ∀ (s : Registry σ) (tc : Tid × Call), Quiet s →
      ((tc.2.run os (.thread tc.1) s).1 ≠ .blocked ↔ tc.2.LockFree s) := by
    intro s tc h
    constructor
    · intro hr
      by_contra hf
      exact hr (call_blocks os tc.2 h hf)
    · exact fun hf => (call_completes os tc.2 h hf).1
  refine eachStep_congr (I := Quiet) ?_ agree (empty_quiet heap o) run
  intro s tc h hr
  exact (call_completes os tc.2 h ((agree s tc h).mp hr)).2

/-- A thread creates a container and starts it: it waits for the mutex it holds, and so
    it does when it asks for the container by name or has it removed. -/
theorem a_start_waits_for_itself :
    let s := lockedStep Container.calmOs (empty anyHeap {})
      (1, .createContainer { id := "c1", name := "web", image := "nginx" })
    Ends (Call.run Container.calmOs (.thread 1) (.startContainer "c1")) s
      (fun r s' => r = .blocked ∧ (s'.heap 0).mutex = some 1) ∧
    Ends (Call.run Container.calmOs (.thread 1) (.getContainerByName "web")) s
      (fun r s' => r = .blocked ∧ s'.mutex = some 1) ∧
    Ends (Call.run Container.calmOs (.thread 1) (.removeContainer "c1" true)) s
      (fun r s' => r = .blocked ∧ s'.mutex = some 1) := by
  unfold Ends
  decide +kernel

end Registry

end DockerCpp.Runtime
