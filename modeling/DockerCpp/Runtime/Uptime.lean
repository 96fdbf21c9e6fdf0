/-
  DockerCpp.Runtime.Uptime — how long a container says it has been up
  (`ContainerInfo::getUptime`).

  `clocked base reading` is the system `base` with a clock: its n-th reading is
  `reading n`, whoever asks. Nothing else of a system call moves the clock on, so what a
  container has stamped lies at or before the next reading (`Stamped`), whatever the
  calls of an operation answer.

  `started_at_` is stamped on entering RUNNING, `finished_at_` on entering STOPPED and
  ERROR. A container that is paused, restarting or was removed while it ran has been
  stamped as started since it was last stamped as finished, and there `getUptime`
  subtracts the later stamp from the earlier one (`uptime_nonneg_iff`,
  `a_paused_container_has_negative_uptime`).
-/

import DockerCpp.Runtime.ContainerLifecycle
import DockerCpp.Runtime.OsFrames
import Mathlib.Data.Int.ConditionallyCompleteOrder

namespace DockerCpp.Runtime

open Lib Lib.Prog

variable {σ : Type}

/-- `duration_cast<seconds>` of nanoseconds. -/
def toSeconds (ns : Int) : Int := ns.tdiv 1000000000

def ContainerInfo.getUptime (os : Os σ) (info : ContainerInfo) (s : σ) : Int × σ :=
  if info.state = .running ∧ 0 < info.startedAt then
    let now := os.systemNow s
    (toSeconds (now.1 - info.startedAt), now.2)
  else if 0 < info.startedAt ∧ 0 < info.finishedAt then (toSeconds (info.finishedAt - info.startedAt), s)
  else (0, s)

theorem toSeconds_nonneg_iff (ns : Int) : 0 ≤ toSeconds ns ↔ -1000000000 < ns := by
  unfold toSeconds
  rcases Int.le_total 0 ns with h | h
  · rw [Int.tdiv_eq_ediv_of_nonneg h]
    omega
  · have hneg : ns.tdiv 1000000000 = -((-ns) / 1000000000) := by
      rw [← Int.tdiv_eq_ediv_of_nonneg (by omega), Int.neg_tdiv, Int.neg_neg]
    rw [hneg]
    omega

/-! ## A clock -/

/-- A call that does not read the clock. -/
def off {α : Type} (f : σ → α × σ) (s : σ × Nat) : α × σ × Nat := ((f s.1).1, (f s.1).2, s.2)

def clocked (base : Os σ) (reading : Nat → Int) : Os (σ × Nat) :=
  { base.through off with systemNow := fun s => (reading s.2, s.1, s.2 + 1) }

section clock

variable (base : Os σ) (reading : Nat → Int)

/-- The clock has been read at least `n` times. -/
def Since (n : Nat) (pm : Pm (σ × Nat)) : Prop := n ≤ pm.os.2

namespace ProcessManager

variable {n : Nat}

theorem clocked_leaves : (clocked base reading).Leaves (n ≤ ·.2) :=
  { base.through_leaves off fun _ _ h => h with systemNow := fun _ h => Nat.le_succ_of_le h }

theorem createProcess_since (config : ProcessConfig) :
    Stable (Since n) (createProcess (clocked base reading) config) := by
  have hcross : Crosses (Since n) (Since n) (createProcess (clocked base reading) config) :=
    createProcess_crosses (clocked_leaves base reading) (clocked_leaves base reading) ?_
  · intro pm hpm
    refine Ends.mono (hcross pm hpm) ?_
    intro r pm' hpost
    rcases hpost with h | ⟨h, -⟩
    · exact h
    · exact h
  · intro s hs
    cases hr : ((clocked base reading).fork config s).1 with
    | ok pid => exact Or.inl ⟨⟨pid, rfl⟩, hs⟩
    | error text => exact Or.inr ⟨⟨text, rfl⟩, hs⟩

end ProcessManager

namespace Container

/-! ## Stamps -/

/-- An assertion on a container's state and stamps, and on how often the clock was read. -/
def Timed (A : ContainerState → Int → Int → Nat → Prop) (w : World (σ × Nat)) : Prop :=
  A w.c.state w.c.startedAt w.c.finishedAt w.os.2

/-- Reading the clock again does not end `A`. -/
def Lasting (A : ContainerState → Int → Int → Nat → Prop) : Prop :=
  ∀ ⦃st a f n n'⦄, A st a f n → n ≤ n' → A st a f n'

variable {A : ContainerState → Int → Int → Nat → Prop}

theorem off_timed {α : Type} (f : σ → α × σ) : Stable (Timed A) (sys (off f) : Prog (World (σ × Nat)) Error α) :=
  stable_call fun _ h => h

theorem timed_apart : Apart (clocked base reading) (Timed A) where
  unshare _ _ hw := hw
  cgroup _ _ _ hw := hw
  probe _ _ hw := hw
  sleepMs _ _ hw := hw
  notify _ _ _ _ hw := hw
  resources _ _ _ hw := hw

theorem modifyC_timed {f : Container → Container} (h : ∀ c, (f c).state = c.state ∧ (f c).startedAt = c.startedAt ∧
    (f c).finishedAt = c.finishedAt) : Stable (Timed A) (modifyC f : Prog (World (σ × Nat)) Error Unit) := by
  refine stable_modify fun w hw => ?_
  obtain ⟨h1, h2, h3⟩ := h w.c
  rw [Timed, h1, h2, h3]
  exact hw

theorem killMain_timed (sig : Int) : Stable (Timed A) (killMain (clocked base reading) sig) :=
  stable_bind (stable_read _) fun _ => stable_ite (stable_bind (off_timed _) fun _ => stable_pure _) (stable_pure _)

theorem recordExit_stamps (st : WaitStatus) (c : Container) : (recordExit c st).state = c.state ∧
    (recordExit c st).startedAt = c.startedAt ∧ (recordExit c st).finishedAt = c.finishedAt := by
  cases st <;> exact ⟨rfl, rfl, rfl⟩

theorem waitForProcessExit_timed (timeout : Nat) :
    Stable (Timed A) (waitForProcessExit (clocked base reading) timeout) := by
  have record : ∀ st, Stable (Timed A) (modifyC fun c => recordExit c st : Prog (World (σ × Nat)) Error Unit) :=
    fun st => modifyC_timed (recordExit_stamps st)
  refine stable_bind (stable_read _) fun _ => stable_ite ?_ (stable_pure _)
  refine stable_bind (off_timed _) fun _ => stable_ite ?_ (stable_ite (record _) (stable_pure _))
  refine stable_bind (sleep_apart (timed_apart base reading) _) fun _ => stable_bind (off_timed _) fun _ => ?_
  exact stable_ite (record _) (stable_pure _)

section lasting

variable (hA : Lasting A)

include hA

/-- What runs on the process manager may read the clock. -/
theorem zoom_timed {α : Type} {get : World (σ × Nat) → Pm (σ × Nat)}
    {set : Pm (σ × Nat) → World (σ × Nat) → World (σ × Nat)}
    {p : Prog (Pm (σ × Nat)) Error α} (hp : ∀ n, Stable (Since n) p) (hget : ∀ w, (get w).os = w.os)
    (hset : ∀ pm w, (set pm w).os = pm.os ∧ (set pm w).c.state = w.c.state ∧ (set pm w).c.startedAt = w.c.startedAt ∧
      (set pm w).c.finishedAt = w.c.finishedAt) : Stable (Timed A) (zoom get set p) := by
  intro w hw
  rw [ends_zoom]
  have hlater := hp w.os.2 (get w) (by rw [Since, hget])
  refine Ends.mono hlater ?_
  intro r pm hpm
  obtain ⟨h0, h1, h2, h3⟩ := hset pm w
  rw [Timed, h0, h1, h2, h3]
  exact hA hw hpm

theorem destroyManager_timed (o : Option ProcessManager) :
    Stable (Timed A) (destroyManager (clocked base reading) o) := by
  cases o with
  | some m =>
    exact zoom_timed hA (fun n => ProcessManager.destroy_onOs (ProcessManager.clocked_leaves base reading)) (fun _ => rfl)
      fun _ _ => ⟨rfl, rfl, rfl, rfl⟩
  | none => exact stable_pure _

theorem onProcessManager_timed {α : Type} (m : ProcessManager) {p : Prog (Pm (σ × Nat)) Error α}
    (hp : ∀ n, Stable (Since n) p) : Stable (Timed A) (onProcessManager m p) :=
  zoom_timed hA hp (fun _ => rfl) fun _ _ => ⟨rfl, rfl, rfl, rfl⟩

theorem startProcess_timed : Stable (Timed A) (startProcess (clocked base reading)) := by
  refine stable_bind (stable_tryCatch ?_ fun _ => stable_throw _) fun _ => ?_
  · refine stable_bind (stable_read _) fun c => stable_bind (modifyC_timed fun _ => ⟨rfl, rfl, rfl⟩) fun _ => ?_
    refine stable_bind (destroyManager_timed base reading hA _) fun _ => ?_
    refine stable_bind (onProcessManager_timed hA _ fun n => ProcessManager.createProcess_since base reading _) fun _ => ?_
    refine stable_ite (stable_throw _) (stable_bind (modifyC_timed fun _ => ⟨rfl, rfl, rfl⟩) fun _ => ?_)
    cases c.cgroupManager with
    | some g => exact stable_ignoreErrors (cgroupCall_apart (timed_apart base reading) g _)
    | none => exact stable_pure _
  · refine stable_bind (sleep_apart (timed_apart base reading) _) fun _ =>
      stable_bind (isProcessRunning_apart (timed_apart base reading)) fun _ => ?_
    refine stable_ite (stable_pure _) (stable_bind (stable_read _) fun _ => stable_bind (off_timed _) fun r => ?_)
    refine stable_bind (modifyC_timed fun c => ?_) fun _ => stable_throw _
    cases r.2 <;> exact ⟨rfl, rfl, rfl⟩

theorem cleanupResources_timed : Stable (Timed A) (cleanupResources (clocked base reading)) := by
  refine stable_bind (stable_bind (stable_read _) fun m => ?_) fun _ =>
    stable_bind (cleanupCgroup_apart (timed_apart base reading)) fun _ => modifyC_timed fun _ => ⟨rfl, rfl, rfl⟩
  cases m with
  | none => exact stable_pure _
  | some m =>
    refine stable_bind (stable_read _) fun pid =>
      stable_bind (stable_ignoreErrors (stable_bind ?_ fun _ => stable_pure _)) fun _ =>
      stable_bind (stable_read _) fun m' => ?_
    · exact onProcessManager_timed hA m fun n =>
        ProcessManager.stopProcess_onOs (ProcessManager.clocked_leaves base reading) pid 5
    · exact stable_bind (modifyC_timed fun _ => ⟨rfl, rfl, rfl⟩) fun _ => destroyManager_timed base reading hA m'

/-- The action of a state stamps nothing. -/
theorem executeStateTransition_timed (new : ContainerState) :
    Stable (Timed A) (executeStateTransition (clocked base reading) new) := by
  cases new with
  | starting =>
    exact stable_bind (setupNamespaces_apart (timed_apart base reading)) fun _ =>
      stable_bind (setupCgroups_apart (timed_apart base reading)) fun _ =>
      startProcess_timed base reading hA
  | stopping => exact waitForProcessExit_timed base reading 10
  | removing => exact cleanupResources_timed base reading hA
  | restarting => exact waitForProcessExit_timed base reading 5
  | created | running | paused | stopped | removed | dead | error => exact stable_pure _

end lasting

/-! ## Entering a state -/

/-- Both stamps are readings made so far; in CREATED, STOPPED and ERROR the container was
    not started since it was last stamped as finished. -/
structure Stamped (st : ContainerState) (startedAt finishedAt : Int) (n : Nat) : Prop where
  started : 0 < startedAt ∧ startedAt ≤ reading n
  finished : 0 < finishedAt ∧ finishedAt ≤ reading n
  ended : st = .created ∨ st = .stopped ∨ st = .error → startedAt ≤ finishedAt

variable {reading}

theorem stamped_lasting (hr : Monotone reading) : Lasting (Stamped reading) := fun _ _ _ _ _ h hn =>
  ⟨⟨h.started.1, h.started.2.trans (hr hn)⟩, ⟨h.finished.1, h.finished.2.trans (hr hn)⟩, h.ended⟩

variable {w : World (σ × Nat)} {p : Prog (World (σ × Nat)) Error Unit}

theorem enter_stamped (hr : Monotone reading) {new : ContainerState} (hn : new ≠ .created)
    (hw : Timed (Stamped reading) w) :
    Ends (do
      modifyC fun c => { c with state := new }
      onStateEntered (clocked base reading) new) w fun _ w' => Timed (Stamped reading) w' := by
  obtain ⟨⟨ha, hle⟩, ⟨hf, hle'⟩, hend⟩ := hw
  have hnow : 0 < reading w.os.2 := lt_of_lt_of_le ha hle
  have hnext : reading w.os.2 ≤ reading (w.os.2 + 1) := hr (Nat.le_succ _)
  -- the states that stamp nothing ask nothing of the stamps
  have hopen : ∀ st : ContainerState, ¬ (st = .created ∨ st = .stopped ∨ st = .error) →
      Stamped reading st w.c.startedAt w.c.finishedAt w.os.2 :=
    fun st hst => ⟨⟨ha, hle⟩, ⟨hf, hle'⟩, fun h => absurd h hst⟩
  rw [ends_bind, modifyC, ends_modify, andThen_ok]
  cases new with
  | created => exact absurd rfl hn
  | running =>
    have hrun : Stamped reading .running (reading w.os.2) w.c.finishedAt (w.os.2 + 1) :=
      ⟨⟨hnow, hnext⟩, ⟨hf, hle'.trans hnext⟩, by simp⟩
    simp only [onStateEntered, sys, modifyC, startMonitoring, readC, ends_bind, ends_call, ends_modify, ends_read,
        andThen_ok]
    split
    · exact hrun
    · exact hrun
  | stopped => exact ⟨⟨ha, hle.trans hnext⟩, ⟨hnow, hnext⟩, fun _ => hle⟩
  | dead => exact ⟨⟨ha, hle.trans hnext⟩, ⟨hnow, hnext⟩, fun _ => hle⟩
  | error => exact ⟨⟨ha, hle.trans hnext⟩, ⟨hnow, hnext⟩, fun _ => hle⟩
  | removed => exact hopen .removed (by decide)
  | starting => exact hopen .starting (by decide)
  | paused => exact hopen .paused (by decide)
  | stopping => exact hopen .stopping (by decide)
  | removing => exact hopen .removing (by decide)
  | restarting => exact hopen .restarting (by decide)

theorem transitionState_stamped (hr : Monotone reading) (new : ContainerState) :
    Stable (Timed (Stamped reading)) (transitionState (clocked base reading) .abstracted new) := by
  intro w hw
  rw [transitionState, ends_bind, self, ends_read, andThen_ok]
  split
  · rename_i hv
    have hn : new ≠ .created := by
      intro h
      rw [h, invalid_created] at hv
      cases hv
    refine stable_bind (stable_bind ?_ fun _ => stable_bind ?_ fun _ => ?_) (fun _ => ?_) w hw
    · cases w.c.state with
      | running => exact modifyC_timed fun _ => ⟨rfl, rfl, rfl⟩
      | created | starting | paused | stopping | stopped | removing | removed | dead | restarting | error =>
        exact stable_pure _
    · exact executeStateTransition_timed base reading (stamped_lasting hr) new
    · exact fun w' hw' => enter_stamped base hr hn hw'
    · exact notifyCallback_apart (timed_apart base reading) _ _
  · exact hw

theorem orError_stamped (hr : Monotone reading) (hp : Stable (Timed (Stamped reading)) p) :
    Stable (Timed (Stamped reading)) (orError (clocked base reading) .abstracted p) :=
  stable_tryCatch hp fun _ => stable_bind (transitionState_stamped base hr .error) fun _ => stable_throw _

theorem guarded_stamped {target : ContainerState}
    (hp : Stable (Timed (Stamped reading)) p) : Stable (Timed (Stamped reading)) (guarded target p) :=
  stable_bind (stable_read _) fun _ => stable_ite hp (stable_throw _)

theorem start_stamped (hr : Monotone reading) :
    Stable (Timed (Stamped reading)) (start (clocked base reading) .abstracted) := by
  rw [start, lockGuard_abstracted]
  refine guarded_stamped (orError_stamped base hr (stable_bind (transitionState_stamped base hr .starting) fun _ => ?_))
  exact stable_bind (stable_read _) fun _ => stable_ite (stable_throw _) (transitionState_stamped base hr .running)

theorem stop_stamped (hr : Monotone reading) (timeout : Int) :
    Stable (Timed (Stamped reading)) (stop (clocked base reading) .abstracted timeout) := by
  rw [stop, lockGuard_abstracted]
  refine guarded_stamped (orError_stamped base hr (stable_bind (killMain_timed base reading _) fun _ => ?_))
  refine stable_bind (transitionState_stamped base hr .stopping) fun _ => stable_bind (stable_read _) fun _ => ?_
  refine stable_bind (stable_when (stable_bind (stopWait_apart (timed_apart base reading) _) fun _ => ?_)) fun _ =>
    transitionState_stamped base hr .stopped
  refine stable_bind (isProcessRunning_apart (timed_apart base reading)) fun _ => stable_when ?_
  exact stable_bind (killMain_timed base reading _) fun _ => waitForProcessExit_timed base reading 5

theorem restart_stamped (hr : Monotone reading) (timeout : Int) :
    Stable (Timed (Stamped reading)) (restart (clocked base reading) .abstracted timeout) := by
  have hunlocked : ∀ {p : Prog (World (σ × Nat)) Error Unit}, Stable (Timed (Stamped reading)) p →
      Stable (Timed (Stamped reading)) (unlocked .abstracted p) := fun hp =>
    stable_bind (fun _ h => h) fun _ => stable_bind (stable_tryCatch hp fun _ => stable_bind (fun _ h => h) fun _ =>
      stable_throw _) fun _ => fun _ h => h
  rw [restart, lockGuard_abstracted]
  refine guarded_stamped (orError_stamped base hr
    (stable_bind (transitionState_stamped base hr .restarting) fun _ => ?_))
  refine stable_bind (stable_read _) fun _ =>
    stable_bind (stable_when (hunlocked (stop_stamped base hr timeout))) fun _ => ?_
  exact stable_bind (stable_read _) fun _ => stable_when (hunlocked (start_stamped base hr))

theorem remove_stamped (hr : Monotone reading) (force : Bool) :
    Stable (Timed (Stamped reading)) (remove (clocked base reading) .abstracted force) := by
  rw [remove, lockGuard_abstracted]
  refine stable_bind (stable_read _) fun _ => stable_ite (stable_throw _) ?_
  refine stable_bind (transitionState_stamped base hr .removing) fun _ => orError_stamped base hr ?_
  refine stable_bind (stable_read _) fun _ => stable_bind (stable_when ?_) fun _ => ?_
  · exact stable_bind (off_timed _) fun _ => waitForProcessExit_timed base reading 5
  · refine stable_bind (cleanupResources_timed base reading (stamped_lasting hr)) fun _ => ?_
    exact stable_bind (transitionState_stamped base hr .removed) fun _ => modifyC_timed fun _ => ⟨rfl, rfl, rfl⟩

theorem run_stamped (hr : Monotone reading) (op : Op) :
    Stable (Timed (Stamped reading)) (op.run (clocked base reading) .abstracted) := by
  cases op with
  | start => exact start_stamped base hr
  | stop timeout => exact stop_stamped base hr timeout
  | pause =>
    rw [Op.run, pause, lockGuard_abstracted]
    exact guarded_stamped (transitionState_stamped base hr .paused)
  | resume =>
    rw [Op.run, resume, lockGuard_abstracted]
    exact guarded_stamped (transitionState_stamped base hr .running)
  | restart timeout => exact restart_stamped base hr timeout
  | remove force => exact remove_stamped base hr force
  | kill sig =>
    rw [Op.run, kill, lockGuard_abstracted]
    exact killMain_timed base reading sig

/-! ## Runs -/

theorem fresh_stamped (hr : Monotone reading) (h0 : 0 < reading 0) (config : ContainerConfig) (s : σ)
    (cb : Option EventCallback) (l : Listener) :
    Timed (Stamped reading) (fresh (clocked base reading) config (s, 0) cb l) := by
  have hmade : ∀ n, Stamped reading .created (reading n) (reading n) (n + 1) := fun n =>
    have hpos : 0 < reading n := lt_of_lt_of_le h0 (hr (Nat.zero_le n))
    ⟨⟨hpos, hr (Nat.le_succ n)⟩, ⟨hpos, hr (Nat.le_succ n)⟩, fun _ => le_refl _⟩
  exact hmade _

theorem runAll_stamped (hr : Monotone reading) (ops : List Op) (hw : Timed (Stamped reading) w) :
    Timed (Stamped reading) (runAll (clocked base reading) ops w) := by
  induction ops generalizing w with
  | nil => exact hw
  | cons op ops ih => exact ih (run_stamped base hr op w hw)

/-- In RUNNING the uptime is not negative, nor where no start was stamped since the last
    end. -/
theorem getUptime_nonneg_iff (hw : Timed (Stamped reading) w) {info : ContainerInfo}
    (hst : info.state = w.c.state) (ha : info.startedAt = w.c.startedAt) (hf : info.finishedAt = w.c.finishedAt) :
    0 ≤ (info.getUptime (clocked base reading) w.os).1 ↔
      w.c.state = .running ∨ w.c.startedAt - w.c.finishedAt < 1000000000 := by
  obtain ⟨⟨hpos, hle⟩, ⟨hpos', -⟩, -⟩ := hw
  unfold ContainerInfo.getUptime
  rw [hst, ha, hf]
  by_cases hrun : w.c.state = .running
  · rw [if_pos ⟨hrun, hpos⟩]
    refine ⟨fun _ => Or.inl hrun, fun _ => (toSeconds_nonneg_iff _).mpr ?_⟩
    show -1000000000 < reading w.os.2 - w.c.startedAt
    omega
  · rw [if_neg (fun h => hrun h.1), if_pos ⟨hpos, hpos'⟩, toSeconds_nonneg_iff]
    constructor
    · intro h
      exact Or.inr (by omega)
    · intro h
      have := h.resolve_left hrun
      omega

/-- After any operations, under any clock that does not go back: `getInfo()` gives an
    uptime that is not negative iff the container is not paused, restarting or removed, or
    was last started less than a second after it was created or last ended. -/
theorem uptime_nonneg_iff (hr : Monotone reading) (h0 : 0 < reading 0) (config : ContainerConfig) (s : σ)
    (cb : Option EventCallback) (l : Listener) (ops : List Op) :
    let w := runAll (clocked base reading) ops (fresh (clocked base reading) config (s, 0) cb l)
    Ends (getInfo .abstracted) w fun r w' => ∃ info, r = .ok info ∧
      (0 ≤ (info.getUptime (clocked base reading) w'.os).1 ↔
        (w.c.state = .paused ∨ w.c.state = .restarting ∨ w.c.state = .removed →
          w.c.startedAt - w.c.finishedAt < 1000000000)) := by
  intro w
  have hw : Timed (Stamped reading) w := runAll_stamped base hr ops (fresh_stamped base hr h0 config s cb l)
  have hsettled : Settled w.c.state := by
    obtain ⟨hc, hs⟩ := fresh_consistent (clocked base reading) config (s, 0) cb l
    exact (runAll_consistent (clocked base reading) ops _ hc hs).2
  rw [getInfo, lockGuard_abstracted, readC, ends_read]
  refine ⟨_, rfl, ?_⟩
  rw [getUptime_nonneg_iff base hw rfl rfl rfl]
  have hended := hw.ended
  cases hst : w.c.state with
  | created | stopped | error =>
    have hle := hended (by simp [hst])
    simp only [reduceCtorEq, false_or, or_self, false_implies, iff_true]
    omega
  | running => simp
  | paused | restarting | removed => simp
  | starting | stopping | removing | dead =>
    rw [hst] at hsettled
    exact hsettled.elim

end Container

end clock

/-- Readings a second apart. -/
def everySecond (n : Nat) : Int := 1000000000 * (n + 1)

theorem everySecond_monotone : Monotone everySecond := by
  intro m n h
  have : (m : Int) ≤ n := by exact_mod_cast h
  unfold everySecond
  omega

namespace Container

def pausedWorld : World (Procs × Nat) :=
  runAll (clocked calmOs everySecond) [.start, .pause]
    (fresh (clocked calmOs everySecond) { id := "c", name := "web" } ({}, 0) none {})

/-- Created at second 1, running from second 3 on, then paused. -/
theorem a_paused_container_has_negative_uptime :
    pausedWorld.c.state = .paused ∧ pausedWorld.c.startedAt = 3000000000 ∧ pausedWorld.c.finishedAt = 1000000000 ∧
    Ends (getInfo .abstracted) pausedWorld fun r w' => ∃ info, r = .ok info ∧
      (info.getUptime (clocked calmOs everySecond) w'.os).1 = -2 := by
  refine ⟨by decide +kernel, by decide +kernel, by decide +kernel, ?_⟩
  rw [getInfo, lockGuard_abstracted, readC, ends_read]
  exact ⟨_, rfl, by decide +kernel⟩

theorem uptime_nonneg_iff_paused :
    Ends (getInfo .abstracted) pausedWorld fun r w' => ∃ info, r = .ok info ∧
      ¬ 0 ≤ (info.getUptime (clocked calmOs everySecond) w'.os).1 := by
  have h := uptime_nonneg_iff calmOs everySecond_monotone (by decide) { id := "c", name := "web" } {} none {}
    [.start, .pause]
  refine Ends.mono h ?_
  intro r w' hpost
  obtain ⟨info, hinfo, hiff⟩ := hpost
  refine ⟨info, hinfo, ?_⟩
  rw [hiff]
  exact fun hcond => absurd (hcond (Or.inl (by decide +kernel))) (by decide +kernel)

end Container

end DockerCpp.Runtime
