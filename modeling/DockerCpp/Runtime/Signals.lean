/-
  DockerCpp.Runtime.Signals — which operations of a container may signal a pid that has
  been reaped.

  The process manager looks before it signals: a pid it has just found RUNNING is not
  reaped by its next call (`stopProcess_spared`, `destroy_spared`). The container does not: `kill`
  and the first step of `stop` send to `main_pid_`, which survives the end of the process,
  the reaping and even the removal. So a run sends no signal to a reaped pid as long as
  `kill` (but for signal 0) and an accepted `stop` are called only before the main process
  was reaped, and no other process gets its pid while `stop` waits, which takes an answer
  to signal 0 for its process's (`no_signal_to_a_reaped_pid`). `restart` and `remove`
  never reach their own signals (`restart_spared`, `remove_spared`).
-/

import DockerCpp.Lib.Run
import DockerCpp.Runtime.ContainerKernel
import DockerCpp.Runtime.ContainerLifecycle

namespace DockerCpp.Runtime

open Lib Lib.Prog

namespace Kernel

variable {σ : Type}

/-- No unrelated process has `pid` or is about to get it. -/
def NoTakeOver (pid : Int) (k : Kernel σ) : Prop :=
  (∀ ms ∈ k.moves, .takeOver pid ∉ ms) ∧ ∀ e, k.procs pid ≠ some (.reaped e true)

/-- No signal went astray; with `b`, the pid `pid` is not taken over either. -/
def Spared (pid : Int) (b : Prop) (k : Kernel σ) : Prop := k.stray = [] ∧ (b → NoTakeOver pid k)

variable {pid : Int} {b : Prop}

theorem NoTakeOver.passed {k k' : Kernel σ} (h : NoTakeOver pid k) (hp : Passed k k') : NoTakeOver pid k' := by
  refine ⟨fun ms hms => h.1 ms (List.mem_of_mem_tail (hp.moves ▸ hms)), fun e he => ?_⟩
  have haged := hp.aged pid
  rw [he] at haged
  rcases haged.to_reaped with hl | ⟨-, ht, -⟩
  · exact h.2 e hl
  · obtain ⟨ms, hms, hm⟩ := mem_of_mem_headD ht
    exact h.1 ms hms hm

variable {k : Kernel σ}

theorem NoTakeOver.set (h : NoTakeOver pid k) (q : Int) {l : Life} (hl : ∀ e, l ≠ .reaped e true) :
    NoTakeOver pid (k.set q l) := by
  refine ⟨h.1, fun e he => ?_⟩
  by_cases hq : pid = q
  · subst hq
    rw [set_procs_self, Option.some.injEq] at he
    exact hl e he
  · rw [set_procs_ne k _ hq] at he
    exact h.2 e he

theorem Spared.set (h : Spared pid b k) (q : Int) {l : Life} (hl : ∀ e, l ≠ .reaped e true) :
    Spared pid b (k.set q l) := ⟨h.1, fun hb => (h.2 hb).set q hl⟩

theorem spared_kept (q : Int) : Kept q (Spared (σ := σ) pid b) where
  passed h hp := ⟨hp.stray.trans h.1, fun hb => (h.2 hb).passed hp⟩
  reap h _ := h.set q (by simp)

theorem waitpid_spared (f : σ → WaitStatus × σ) (q : Int) (hang : Bool) (h : Spared pid b k) :
    Spared pid b (waitpid f q hang k).2 := by
  have hadv := (spared_kept q).passed h (advance_passed k)
  unfold waitpid
  split
  · split
    · exact hadv.set q (by simp)
    · exact hadv
  · exact hadv.set q (by simp)
  · exact hadv
  · exact hadv

theorem fork_spared (f : σ → Except String Int × σ) (h : Spared pid b k) : Spared pid b (fork f k).2 := by
  have hother : Spared pid b (other f k).2 := (spared_kept pid).other f h
  simp only [fork]
  split
  · split
    · exact hother.set _ (by simp)
    · exact hother
  · exact hother

theorem not_reaped_passed {q : Int} {k k' : Kernel σ} (h : ¬ k.Reaped q) (hp : Passed k k') : ¬ k'.Reaped q := by
  intro hr
  obtain ⟨e, taken, he⟩ := hr
  have haged := hp.aged q
  rw [he] at haged
  rcases haged.to_reaped with hl | ⟨-, -, before, hl⟩
  · exact h ⟨e, taken, hl⟩
  · exact h ⟨e, before, hl⟩

theorem kill_spared (f : σ → Bool × σ) {q : Int} (sig : Int) (h : Spared pid b k)
    (hs : sig = 0 ∨ ¬ k.Reaped q) : Spared pid b (kill f q sig k).2 :=
  (spared_kept q).passed h (kill_passed f q k (hs.imp_right fun hr => not_reaped_passed hr (advance_passed k)))

theorem not_reaped_of_running {q : Int} (h : k.Running q) : ¬ k.Reaped q := by
  intro hr
  obtain ⟨e, taken, he⟩ := hr
  rw [Running, he] at h
  cases h

/-- Who answers signal 0 on a pid that is not taken over has not been reaped. -/
theorem not_reaped_of_answer {f : σ → Bool × σ} (h : NoTakeOver pid k)
    (ha : (kill f pid 0 k).1 = true) : ¬ (kill f pid 0 k).2.Reaped pid := by
  intro hr
  obtain ⟨e, taken, he⟩ := hr
  have hpass := kill_passed f pid k (Or.inl rfl)
  have hadv : k.advance.procs pid = some (.reaped e taken) := hpass.procs ▸ he
  cases taken with
  | false => simp [kill, hadv] at ha
  | true => exact (h.passed (advance_passed k)).2 e hadv

end Kernel

namespace ProcessManager

variable {σ : Type} (base : Os σ) {p : Int} {b : Prop}

open Kernel

theorem other_spared {α : Type} (f : σ → α × σ) :
    Stable (fun s => Spared p b s.os) (sys (other f) : Prog (Pm (Kernel σ)) Error α) :=
  stable_call fun _ hs => (spared_kept p).other f hs

theorem sleepMs_spared (ms : Nat) : Stable (fun s => Spared p b s.os) (sleepMs (kernelOs base) ms) :=
  stable_modify fun _ hs => (spared_kept p).other (fun s => ((), base.sleepMs ms s)) hs

theorem updateProcessStatus_spared (q : Int) :
    Stable (fun s => Spared p b s.os) (updateProcessStatus (kernelOs base) q) :=
  updateProcessStatus_kept base (spared_kept q)

/-- What a program that goes on with `f` owes when `isProcessRunning` said yes and no. -/
theorem isProcessRunning_bind_spared {α : Type} {f : Bool → Prog (Pm (Kernel σ)) Error α} {q : Int}
    (htrue : ∀ s, Spared p b s.os → ¬ s.os.Reaped q → Ends (f true) s fun _ s' => Spared p b s'.os)
    (hfalse : Stable (fun s => Spared p b s.os) (f false)) :
    Stable (fun s => Spared p b s.os) (isProcessRunning (kernelOs base) q >>= f) := by
  intro s hs
  rw [ends_bind]
  refine Ends.mono (isProcessRunning_ends base (spared_kept q) hs) ?_
  intro r s' hpost
  obtain ⟨-, hs', a, rfl, hrun⟩ := hpost
  rw [andThen_ok]
  cases a with
  | true => exact htrue s' hs' (not_reaped_of_running (hrun rfl))
  | false => exact hfalse s' hs'

theorem killProcess_spared {q : Int} (sig : Int) {s : Pm (Kernel σ)} (hs : Spared p b s.os) (hr : ¬ s.os.Reaped q) :
    Ends (killProcess (kernelOs base) q sig) s fun _ s' => Spared p b s'.os := by
  simp only [killProcess, ends_bind, ends_read, andThen_ok]
  split
  · exact hs
  · simp only [sys, ends_bind, ends_call, andThen_ok]
    have hs' := kill_spared (base.kill q sig) sig hs (Or.inr hr)
    split
    · exact updateProcessStatus_spared base q _ hs'
    · exact hs'

theorem stopWait_spared (q : Int) (start timeout sleeps : Nat) :
    Stable (fun s => Spared p b s.os) (stopWait (kernelOs base) q start timeout sleeps) := by
  have hdone : Stable (fun s => Spared p b s.os) (do updateProcessStatus (kernelOs base) q; pure true) :=
    stable_bind (updateProcessStatus_spared base q) fun _ => stable_pure _
  have hkill : ∀ s : Pm (Kernel σ), Spared p b s.os → ¬ s.os.Reaped q →
      Ends (do killProcess (kernelOs base) q sigkill; pure false) s fun _ s' => Spared p b s'.os := by
    intro s hs hr
    exact ends_bind_stable (Q := fun _ _ => True) ⟨killProcess_spared base sigkill hs hr, fun _ _ => trivial⟩
      fun _ s' hs' _ => stable_pure _ s' hs'
  induction sleeps with
  | zero =>
    refine isProcessRunning_bind_spared base (fun s hs hr => ?_) hdone
    rw [if_pos rfl, ends_bind]
    simp only [sys, ends_call, andThen_ok]
    exact hkill ⟨s.mgr, _⟩ ((spared_kept q).other base.steadyNow hs) (not_reaped_passed hr (other_passed _ _))
  | succ sleeps ih =>
    refine isProcessRunning_bind_spared base (fun s hs hr => ?_) hdone
    rw [if_pos rfl, ends_bind]
    simp only [sys, ends_call, andThen_ok]
    have hs' : Spared p b (other base.steadyNow s.os).2 := (spared_kept q).other base.steadyNow hs
    split
    · exact hkill ⟨s.mgr, _⟩ hs' (not_reaped_passed hr (other_passed _ _))
    · exact stable_bind (sleepMs_spared base 100) (fun _ => ih) _ hs'

theorem stopProcess_spared (q : Int) (timeout : Nat) :
    Stable (fun s => Spared p b s.os) (stopProcess (kernelOs base) q timeout) := by
  refine stable_bind (stable_read _) fun _ => stable_ite (stable_throw _) ?_
  refine isProcessRunning_bind_spared base (fun s hs hr => ?_) (stable_pure _)
  simp only [Bool.not_true, Bool.false_eq_true, if_false, ends_bind, sys, ends_call, andThen_ok]
  have hs' := kill_spared (base.kill q sigterm) sigterm hs (Or.inr hr)
  split
  · exact stable_bind (other_spared base.steadyNow) (fun start => stopWait_spared base q start timeout _) _ hs'
  · exact hs'

theorem destroyProcess_spared (q : Int) : Stable (fun s => Spared p b s.os) (destroyProcess (kernelOs base) q) := by
  have hkill : ∀ sig, ∀ s : Pm (Kernel σ), Spared p b s.os → ¬ s.os.Reaped q →
      Spared p b ((kernelOs base).kill q sig s.os).2 := fun sig s hs hr => kill_spared _ sig hs (Or.inr hr)
  refine isProcessRunning_bind_spared base (fun s hs hr => ?_) (stable_pure _)
  rw [if_pos rfl, ends_bind]
  simp only [sys, ends_call, andThen_ok]
  refine stable_bind (sleepMs_spared base 100) (fun _ => ?_) ⟨s.mgr, _⟩ (hkill sigterm s hs hr)
  refine isProcessRunning_bind_spared base (fun s hs hr => ?_) (stable_pure _)
  exact hkill sigkill s hs hr

theorem destroy_spared : Stable (fun s => Spared p b s.os) (destroy (kernelOs base)) := by
  have hall : ∀ l : List ProcessInfo, Stable (fun s => Spared p b s.os) (destroyAll (kernelOs base) l) := by
    intro l
    induction l with
    | nil => exact stable_pure _
    | cons info rest ih => exact stable_bind (destroyProcess_spared base info.pid) fun _ => ih
  exact stable_bind (stable_read _) fun _ => stable_bind (hall _) fun _ => stable_modify fun _ hs => hs

theorem createProcess_spared (config : ProcessConfig) :
    Stable (fun s => Spared p b s.os) (createProcess (kernelOs base) config) := by
  have hwait : ∀ q e, Stable (fun s => Spared p b s.os)
      (do let _ ← sys ((kernelOs base).waitpid q true); throw e : Prog (Pm (Kernel σ)) Error Int) :=
    fun q e => stable_bind (stable_call fun _ hs => waitpid_spared _ q true hs) fun _ => stable_throw e
  refine stable_bind (other_spared _) fun r => ?_
  cases r with
  | some text => exact stable_throw _
  | none =>
    refine stable_bind (stable_call fun _ hs => fork_spared _ hs) fun r => ?_
    cases r with
    | error text => exact stable_throw _
    | ok pid =>
      refine stable_bind (sleepMs_spared base 10) fun _ => stable_bind (other_spared _) fun r => ?_
      cases r with
      | childError text => exact hwait pid _
      | failed text => exact hwait pid _
      | nothing =>
        exact stable_bind (other_spared _) fun _ => stable_bind (stable_modify fun _ hs => hs) fun _ => stable_pure _

end ProcessManager

/-! ## The container's own functions -/

namespace Container

variable {σ : Type} (base : Os σ) {p : Int} {b : Prop}

open Kernel

/-- No signal went astray and the pid `p` is left alone; with `b`, it is the main pid. -/
abbrev SparedBy (p : Int) (b : Prop) : World (Kernel σ) → Prop :=
  Tracks fun pid _ _ k => Spared p b k ∧ (b → pid = p)

theorem spared_steady : Steady fun pid _ _ (k : Kernel σ) => Spared p b k ∧ (b → pid = p) :=
  fun _ _ _ _ _ h hp => ⟨(spared_kept p).passed h.1 hp, h.2⟩

/-- A change of the container that leaves the main pid. -/
theorem modifyC_spared {f : Container → Container} (h : ∀ c, (f c).mainPid = c.mainPid) :
    Stable (SparedBy p b) (modifyC f : Prog (World (Kernel σ)) Error Unit) :=
  stable_modify fun w hw => ⟨hw.1, fun hb => (h w.c).trans (hw.2 hb)⟩

theorem recordExit_mainPid (c : Container) (st : WaitStatus) : (recordExit c st).mainPid = c.mainPid := by
  cases st <;> rfl

theorem waitpid_sparedBy (q : Int) : Stable (SparedBy p b) (sys ((kernelOs base).waitpid q false)) :=
  stable_call fun _ hw => ⟨waitpid_spared _ q false hw.1, hw.2⟩

theorem waitForProcessExit_spared (timeout : Nat) :
    Stable (SparedBy p b) (waitForProcessExit (kernelOs base) timeout) := by
  have hrecord : ∀ st, Stable (SparedBy p b) (modifyC fun c => recordExit c st : Prog (World (Kernel σ)) Error Unit) :=
    fun st => modifyC_spared fun c => recordExit_mainPid c st
  refine stable_bind (stable_read _) fun pid => stable_ite ?_ (stable_pure _)
  refine stable_bind (waitpid_sparedBy base pid) fun r => stable_ite ?_ (stable_ite (hrecord _) (stable_pure _))
  refine stable_bind (sleep_apart (tracks_apart base spared_steady) _) fun _ => stable_bind (waitpid_sparedBy base pid) fun _ => ?_
  exact stable_ite (hrecord _) (stable_pure _)

theorem onProcessManager_spared {α : Type} (m : ProcessManager) {q : Prog (Pm (Kernel σ)) Error α}
    (hq : Stable (fun s => Spared p b s.os) q) : Stable (SparedBy p b) (onProcessManager m q) :=
  stable_zoom (J := SparedBy p b) hq (fun _ hw => hw.1) fun _ _ hw hs => ⟨hs, hw.2⟩

theorem destroyManager_spared (o : Option ProcessManager) :
    Stable (SparedBy p b) (destroyManager (kernelOs base) o) := by
  cases o with
  | some m =>
    exact stable_zoom (J := SparedBy p b) (ProcessManager.destroy_spared base) (fun _ hw => hw.1)
      fun _ _ hw hs => ⟨hs, hw.2⟩
  | none => exact stable_pure _

theorem cleanupResources_spared : Stable (SparedBy p b) (cleanupResources (kernelOs base)) := by
  refine stable_bind ?_ fun _ => stable_bind (cleanupCgroup_apart (tracks_apart base spared_steady)) fun _ =>
      modifyC_spared fun _ => rfl
  refine stable_bind (stable_read _) fun r => ?_
  cases r with
  | none => exact stable_pure _
  | some m =>
    refine stable_bind (stable_read _) fun pid => stable_bind (stable_ignoreErrors ?_) fun _ => ?_
    · exact stable_bind (onProcessManager_spared m (ProcessManager.stopProcess_spared base pid 5)) fun _ =>
        stable_pure _
    · exact stable_bind (stable_read _) fun m' => stable_bind (modifyC_spared fun _ => rfl) fun _ =>
        destroyManager_spared base m'

theorem probeProcess_spared : Stable (SparedBy p b) (probeProcess (kernelOs base)) := by
  refine stable_bind (stable_read _) fun c => ?_
  cases c.processManager with
  | none => exact stable_pure _
  | some m =>
    refine stable_ignoreErrors (stable_bind (onProcessManager_spared m ?_) fun _ => stable_pure _)
    refine stable_bind (stable_read _) fun r => ?_
    cases r with
    | none => exact stable_throw _
    | some info =>
      refine stable_bind (fun s hs => ?_) fun _ => stable_pure _
      exact (ProcessManager.determineProcessStatus_kept base (spared_kept _) (fun _ => True) s ⟨trivial, hs⟩).2

theorem getStats_spared : Stable (SparedBy p b) (getStats (kernelOs base)) := by
  refine stable_bind (other_tracks spared_steady _) fun now => stable_bind (stable_read _) fun g => ?_
  cases g with
  | none => exact stable_bind (probeProcess_spared base) fun _ => stable_pure _
  | some g =>
    refine stable_bind (other_tracks spared_steady _) fun r => ?_
    cases r with
    | error _ => exact stable_pure _
    | ok m => exact stable_bind (probeProcess_spared base) fun _ => stable_pure _

/-! ### Launching -/

/-- No signal went astray, whatever the main pid is. -/
abbrev Quiet : World (Kernel σ) → Prop := SparedBy 0 False

theorem modifyC_quiet (f : Container → Container) : Stable Quiet (modifyC f : Prog (World (Kernel σ)) Error Unit) :=
  stable_modify fun _ hw => ⟨hw.1, False.elim⟩

theorem startProcess_quiet : Stable Quiet (startProcess (kernelOs base)) := by
  have hlaunch : Stable Quiet (launchProcess (kernelOs base)) := by
    refine stable_bind (stable_read _) fun c => stable_bind (modifyC_quiet _) fun _ => ?_
    refine stable_bind (destroyManager_spared base _) fun _ => ?_
    refine stable_bind (onProcessManager_spared _ (ProcessManager.createProcess_spared base _)) fun pid => ?_
    refine stable_ite (stable_throw _) (stable_bind (modifyC_quiet _) fun _ => ?_)
    cases c.cgroupManager with
    | some g => exact stable_ignoreErrors (cgroupCall_apart (tracks_apart base spared_steady) g _)
    | none => exact stable_pure _
  refine stable_bind (stable_tryCatch hlaunch fun _ => stable_throw _) fun _ => ?_
  refine stable_bind (sleep_apart (tracks_apart base spared_steady) _) fun _ => ?_
  refine stable_bind (isProcessRunning_apart (tracks_apart base spared_steady)) fun _ => stable_ite (stable_pure _) ?_
  refine stable_bind (stable_read _) fun pid => stable_bind (waitpid_sparedBy base pid) fun r => ?_
  exact stable_bind (modifyC_quiet _) fun _ => stable_throw _

theorem transitionState_quiet (new : ContainerState) :
    Stable Quiet (transitionState (kernelOs base) .abstracted new) := by
  refine transitionState_tracks base spared_steady ?_
  cases new with
  | starting =>
    exact stable_bind (setupNamespaces_apart (tracks_apart base spared_steady)) fun _ =>
      stable_bind (setupCgroups_apart (tracks_apart base spared_steady)) fun _ => startProcess_quiet base
  | stopping => exact waitForProcessExit_spared base 10
  | removing => exact cleanupResources_spared base
  | restarting => exact waitForProcessExit_spared base 5
  | created | running | paused | stopped | removed | dead | error => exact stable_pure _

theorem start_quiet : Stable Quiet (start (kernelOs base) .abstracted) := by
  rw [start, lockGuard_abstracted]
  refine guarded_tracks (orError_tracks base spared_steady ?_)
  refine stable_bind (transitionState_quiet base .starting) fun _ => stable_bind (stable_read _) fun _ => ?_
  exact stable_ite (stable_throw _) (transitionState_quiet base .running)

variable {w : World (Kernel σ)}

/-- A transition that returns has stored its state. -/
theorem transitionState_state (new : ContainerState) (hw : Quiet w) :
    Ends (transitionState (kernelOs base) .abstracted new) w fun r w' =>
      Quiet w' ∧ ∀ a, r = .ok a → w'.c.state = new := by
  refine Ends.mono (Ends.and (transitionState_quiet base new w hw) (transitionState_ends (kernelOs base) new w)) ?_
  intro r w' hpost
  obtain ⟨hw', -, hm⟩ := hpost
  refine ⟨hw', ?_⟩
  rintro a rfl
  split at hm
  · exact moved_ok hm
  · cases hm.1

/-- `restart` reads RESTARTING and calls neither `stop` nor `start`. -/
theorem restart_spared (timeout : Int) : Stable Quiet (restart (kernelOs base) .abstracted timeout) := by
  rw [restart, lockGuard_abstracted]
  refine guarded_tracks (orError_tracks base spared_steady fun w hw => ?_)
  refine ends_bind_stable (transitionState_state base .restarting hw) fun _ w' hw' hst => ?_
  simp only [readC, ends_bind, ends_read, andThen_ok, hst, reduceCtorEq, ends_when, if_false]
  exact hw'

/-- `remove` reads REMOVING and does not reach its SIGKILL. -/
theorem remove_spared (force : Bool) : Stable Quiet (remove (kernelOs base) .abstracted force) := by
  rw [remove, lockGuard_abstracted]
  refine stable_bind (stable_read _) fun c => stable_ite (stable_throw _) fun w hw => ?_
  refine ends_bind_stable (transitionState_state base .removing hw) fun _ w' hw' hst => ?_
  refine orError_ends base spared_steady ?_
  rw [ends_bind, self, ends_read, andThen_ok, when, if_neg (by simp [hst])]
  refine stable_bind (stable_pure ()) (fun _ => stable_bind (cleanupResources_spared base) fun _ => ?_) w' hw'
  exact stable_bind (transitionState_quiet base .removed) fun _ => modifyC_quiet _

/-! ### Signalling the main process -/

theorem killMain_spared (sig : Int) (hw : SparedBy p b w)
    (hs : sig = 0 ∨ ¬ w.os.Reaped w.c.mainPid) : Ends (killMain (kernelOs base) sig) w fun _ w' => SparedBy p b w' := by
  simp only [killMain, readC, ends_bind, ends_read, andThen_ok]
  split
  · exact ⟨kill_spared _ sig hw.1 hs, hw.2⟩
  · exact hw

theorem isProcessRunning_alive (hw : SparedBy p True w) :
    Ends (isProcessRunning (kernelOs base)) w fun r w' => SparedBy p True w' ∧
      ∀ alive, r = .ok alive → alive = true → ¬ w'.os.Reaped w'.c.mainPid := by
  refine Ends.and (isProcessRunning_apart (tracks_apart base spared_steady) w hw) ?_
  have hpid : w.c.mainPid = p := hw.2 trivial
  simp only [isProcessRunning, readC, ends_bind, ends_read, andThen_ok]
  split
  · rintro alive ⟨⟩ ⟨⟩
  · rintro alive ⟨⟩ ha
    show ¬ Kernel.Reaped _ w.c.mainPid
    rw [hpid] at ha ⊢
    exact not_reaped_of_answer (hw.1.2 trivial) ha

/-- Between STOPPING and STOPPED: a main process that answers has not been reaped. -/
theorem stop_wait_spared (timeout pid : Int) : Stable (SparedBy p True) (when (0 < pid) do
      stopWait (kernelOs base) timeout.toNat
      let alive ← isProcessRunning (kernelOs base)
      when alive do
        killMain (kernelOs base) sigkill
        waitForProcessExit (kernelOs base) 5 : Prog (World (Kernel σ)) Error Unit) := by
  refine stable_when (stable_bind (stopWait_apart (tracks_apart base spared_steady) _) fun _ => ?_)
  intro w hw
  refine ends_bind_stable (isProcessRunning_alive base hw) ?_
  intro alive w' hw' hr
  unfold when
  split
  · rename_i ha
    refine ends_bind_stable (Q := fun _ _ => True) ⟨killMain_spared base sigkill hw' (Or.inr (hr ha)),
        fun _ _ => trivial⟩ ?_
    exact fun _ w'' hw'' _ => waitForProcessExit_spared base 5 w'' hw''
  · exact hw'

theorem stop_spared (timeout : Int) (hw : w.os.stray = []) (h : canTransitionTo w.c .stopping = true →
      ¬ w.os.Reaped w.c.mainPid ∧ ∀ ms ∈ w.os.moves, .takeOver w.c.mainPid ∉ ms) :
    Ends (stop (kernelOs base) .abstracted timeout) w fun _ w' => w'.os.stray = [] := by
  rw [stop, lockGuard_abstracted, guarded, ends_bind, self, ends_read, andThen_ok]
  split
  · rename_i hv
    obtain ⟨hr, hm⟩ := h hv
    have hw1 : SparedBy w.c.mainPid True w := ⟨⟨hw, fun _ => ⟨hm, fun e he => hr ⟨e, true, he⟩⟩⟩, fun _ => rfl⟩
    refine Ends.mono (Q := fun _ w' => SparedBy w.c.mainPid True w') ?_ fun _ _ hw' => hw'.1.1
    refine orError_ends base spared_steady ?_
    refine ends_bind_stable (Q := fun _ _ => True) ⟨killMain_spared base sigterm hw1 (Or.inr hr), fun _ _ => trivial⟩ ?_
    intro _ w' hw' _
    have hstopping : Stable (SparedBy w.c.mainPid True) (transitionState (kernelOs base) .abstracted .stopping) :=
      transitionState_tracks base spared_steady (waitForProcessExit_spared base 10)
    refine stable_bind hstopping (fun _ => stable_bind (stable_read _) fun pid => ?_) w' hw'
    exact stable_bind (stop_wait_spared base timeout pid) fun _ =>
      transitionState_tracks base spared_steady (stable_pure _)
  · exact hw

/-! ## Runs -/

inductive Use where
  | op (o : Op)
  | getStats
  deriving DecidableEq, Repr

def Use.run : Use → Prog (World (Kernel σ)) Error Unit
  | .op o => o.run (kernelOs base) .abstracted
  | .getStats => do
    let _ ← Container.getStats (kernelOs base)
    pure ()

/-- One call, with what happens in the system during it. -/
def use (w : World (Kernel σ)) (u : Use × List (List Move)) : World (Kernel σ) :=
  (u.1.run base { w with os := w.os.during u.2 }).2

/-- A signal is sent before the main process is reaped, and no other process gets the pid
    during a `stop`. -/
def Careful (w : World (Kernel σ)) : Use × List (List Move) → Prop
  | (.op (.kill sig), _) => sig = 0 ∨ ¬ w.os.Reaped w.c.mainPid
  | (.op (.stop _), moves) => canTransitionTo w.c .stopping = true →
      ¬ w.os.Reaped w.c.mainPid ∧ ∀ ms ∈ moves, .takeOver w.c.mainPid ∉ ms
  | _ => True

theorem use_spared (hw : w.os.stray = []) (u : Use × List (List Move)) (h : Careful w u) :
    (use base w u).os.stray = [] := by
  obtain ⟨u, moves⟩ := u
  have hq : Quiet { w with os := w.os.during moves } := ⟨⟨hw, False.elim⟩, False.elim⟩
  have hstray : ∀ {q : Prog (World (Kernel σ)) Error Unit}, Stable Quiet q →
      (q { w with os := w.os.during moves }).2.os.stray = [] := fun hstable => (hstable _ hq).1.1
  cases u with
  | getStats => exact hstray (stable_bind (getStats_spared base) fun _ => stable_pure _)
  | op o =>
    cases o with
    | start => exact hstray (start_quiet base)
    | stop timeout => exact stop_spared base timeout (w := { w with os := w.os.during moves }) hw h
    | pause => exact hstray (pause_tracks base spared_steady)
    | resume => exact hstray (resume_tracks base spared_steady)
    | restart timeout => exact hstray (restart_spared base timeout)
    | remove force => exact hstray (remove_spared base force)
    | kill sig =>
      simp only [use, Use.run, Op.run, kill, lockGuard_abstracted]
      exact (killMain_spared base sig hq h).1.1

/-- A new container on a kernel that has sent nothing yet. -/
def onKernel (procs : Int → Option Life) (fate : Int → Exit) (s : σ) (config : ContainerConfig)
    (cb : Option EventCallback) (l : Listener) : World (Kernel σ) :=
  fresh (kernelOs base) config { procs := procs, fate := fate, rest := s } cb l

theorem onKernel_stray (procs : Int → Option Life) (fate : Int → Exit) (s : σ) (config : ContainerConfig)
    (cb : Option EventCallback) (l : Listener) : (onKernel base procs fate s config cb l).os.stray = [] := by
  have hdigits : ∀ n (k : Kernel σ), k.stray = [] → (hexDigits (kernelOs base) n k).2.stray = [] := by
    intro n
    induction n with
    | zero => exact fun _ hk => hk
    | succ n ih => exact fun k hk => ih _ ((other_passed _ k).stray.trans hk)
  have hid : ∀ k : Kernel σ, k.stray = [] → (generateContainerId (kernelOs base) k).2.stray = [] := by
    intro k hk
    rw [generateContainerId]
    exact hdigits 64 k hk
  simp only [onKernel, fresh, make]
  refine (other_passed base.systemNow _).stray.trans ?_
  split
  · exact hid _ rfl
  · rfl

/-- In every run of a container's operations in which `kill` and an accepted `stop` are
    called only before the main process was reaped, and no other process gets its pid
    during a `stop`, no signal goes to a reaped pid. -/
theorem no_signal_to_a_reaped_pid (procs : Int → Option Life) (fate : Int → Exit) (s : σ) (config : ContainerConfig)
    (cb : Option EventCallback) (l : Listener) (uses : List (Use × List (List Move)))
    (h : EachStep (use base) Careful (onKernel base procs fate s config cb l) uses) :
    Throughout (use base) (fun w => w.os.stray = []) (onKernel base procs fate s config cb l) uses :=
  throughout_of_eachStep (I := fun w => w.os.stray = []) (fun _ u hw hq => use_spared base hw u hq) (fun _ hw => hw)
    (onKernel_stray base procs fate s config cb l) h

/-- A container whose process will have pid 100. -/
def idle : World (Kernel Int) :=
  onKernel plainOs (fun _ => none) (fun _ => .code 127) 100 { id := "c", name := "web" } none {}

/-- A `kill` after a `stop`, and a `stop` after a `getStats` that found the process ended. -/
theorem a_reaped_pid_is_signalled :
    (runFrom (use plainOs) idle
      [(.op .start, []), (.op (.stop 10), [[.exit 100 (.code 0)]]), (.op (.kill 9), [])]).os.stray =
      [(100, 9)] ∧
    (runFrom (use plainOs) idle
      [(.op .start, []), (.getStats, [[.exit 100 (.code 0)]]), (.op (.stop 10), [])]).os.stray =
      [(100, 15)] ∧
    ¬ Throughout (use plainOs) (fun w => w.os.stray = []) idle
      [(.op .start, []), (.op (.stop 10), [[.exit 100 (.code 0)]]), (.op (.kill 9), [])] := by
  have hstray : (runFrom (use plainOs) idle
      [(.op .start, []), (.op (.stop 10), [[.exit 100 (.code 0)]]), (.op (.kill 9), [])]).os.stray = [(100, 9)] := by
    decide +kernel
  refine ⟨hstray, by decide +kernel, fun h => ?_⟩
  have hlast := h.last
  rw [hstray] at hlast
  cases hlast

theorem no_signal_to_a_reaped_pid_stopped :
    Throughout (use plainOs) (fun w => w.os.stray = []) idle
      [(.op .start, []), (.op (.kill 15), []), (.op (.stop 1), [[], [], [.exit 100 (.signal 15)]]),
        (.op (.remove false), [])] :=
  no_signal_to_a_reaped_pid plainOs _ _ _ _ _ _ _
    ⟨trivial, Or.inr (by decide +kernel), fun _ => ⟨by decide +kernel, by decide +kernel⟩, trivial, trivial⟩

end Container

end DockerCpp.Runtime
