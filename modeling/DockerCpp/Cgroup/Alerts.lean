/-
  DockerCpp.Cgroup.Alerts — what becomes of an alert of the resource monitor.

  `checkAlerts` calls `triggerAlert` with `alerts_mutex_` held, and that begins by locking it
  (`resource_monitor.cpp`): the loop stops there, before the callbacks and with
  `monitoring_mutex_` held. In the machine of `Cgroup.MonitorLocks`, with any number of clients
  in any interleaving with the loop, and whatever thresholds are set, callbacks installed and
  values read:
  - no callback is ever called (`no_alert_is_delivered`);
  - once the loop has come to an alert, nothing is added to the history of any cgroup any more,
    though nothing tells the clients (`an_alert_ends_collection`).
-/

import DockerCpp.Cgroup.MonitorLocks
import DockerCpp.Lib.Stalls

namespace DockerCpp.Cgroup.MonitorLocks

open Lib DockerCpp.Runtime

/-- No callback has been called. -/
def Unalerted (mon : ResourceMonitor) : Prop := ∀ alerts ∈ mon.alertCallbacks, alerts = []

/-- What a step of a thread may do: no callback is called, and only the loop adds to the history. -/
structure Allowed (t : Thread) (mon mon' : ResourceMonitor) : Prop where
  unalerted : Unalerted mon → Unalerted mon'
  history : t ≠ .loop → mon'.metricsHistory = mon.metricsHistory

theorem Allowed.refl (t : Thread) (mon : ResourceMonitor) : Allowed t mon mon := ⟨id, fun _ => rfl⟩

abbrev Mute (t : Thread) : List Mutex → MonitorCode → Prop := Lib.Code.Keeps fun d d' => Allowed t d.monitor d'.monitor

variable {t : Thread} {held : List Mutex} {next : MonitorCode} {f : ResourceMonitor → ResourceMonitor}

theorem mute_change (hf : ∀ mon, Allowed t mon (f mon)) (hnext : Mute t held next) : Mute t held (change f next) :=
  fun d => ⟨hf d.monitor, hnext⟩

theorem mute_look {next : Shared → MonitorCode} (hnext : ∀ d, Mute t held (next d)) : Mute t held (look next) :=
  fun d => ⟨Allowed.refl t d.monitor, hnext d⟩

/-- An action on the flags of the loop. -/
theorem mute_flags {l : Label} {f : Shared → Shared} {next : Shared → MonitorCode} (hf : ∀ d, (f d).monitor = d.monitor)
    (hnext : ∀ d, Mute t held (next d)) : Mute t held (.act l f next) := by
  intro d
  have hsame : Allowed t d.monitor (f d).monitor := by
    rw [hf d]
    exact Allowed.refl t d.monitor
  exact ⟨hsame, hnext d⟩

theorem mute_lock {m : Mutex} (hnext : Mute t (m :: held) next) : Mute t held (.lock m next) := Or.inr hnext

theorem mute_unlock {m : Mutex} (hnext : Mute t held next) : Mute t (m :: held) (.unlock m next) := ⟨held, rfl, hnext⟩

/-! ## The functions -/

theorem mute_startMonitoringThread (hnext : Mute t held next) : Mute t held (startMonitoringThread next) := by
  refine mute_look fun d => ?_
  split
  · exact hnext
  · exact mute_flags (fun _ => rfl) fun _ => mute_flags (fun _ => rfl) fun _ => hnext

theorem mute_stopMonitoringThread (hnext : Mute t held next) : Mute t held (stopMonitoringThread next) := by
  refine mute_look fun d => ?_
  split
  · refine mute_flags (fun _ => rfl) fun _ => mute_look fun d => ?_
    split
    · exact hnext
    · exact mute_flags (fun _ => rfl) fun _ => hnext
  · exact hnext

theorem mute_startMonitoring (cgroupPath : String) : Mute t [] (startMonitoring cgroupPath .done) := by
  refine mute_lock (mute_look fun d => ?_)
  split
  · exact mute_unlock rfl
  · refine mute_change (fun _ => ⟨id, fun _ => rfl⟩) (mute_look fun d => ?_)
    split
    · exact mute_unlock rfl
    · exact mute_startMonitoringThread (mute_unlock rfl)

theorem mute_stopMonitoring (cgroupPath : String) : Mute t [] (stopMonitoring cgroupPath .done) := by
  refine mute_lock (mute_look fun d => ?_)
  split
  · refine mute_change (fun _ => ⟨id, fun _ => rfl⟩) (mute_look fun d => ?_)
    split
    · exact mute_stopMonitoringThread (mute_unlock rfl)
    · exact mute_unlock rfl
  · exact mute_unlock rfl

theorem mute_forEach {body : String → MonitorCode → MonitorCode}
    (hbody : ∀ path next, Mute t held next → Mute t held (body path next)) (hnext : Mute t held next) (paths : List String) :
    Mute t held (forEach body next paths) := by
  induction paths with
  | nil => exact hnext
  | cons path paths ih => exact hbody path _ ih

/-- The only function that stores, and the loop's. -/
theorem mute_collectOne (pass : Pass) (path : String) (hnext : Mute .loop held next) :
    Mute .loop held (collectOne pass path next) := by
  unfold collectOne
  cases pass.current path with
  | none => exact hnext
  | some m => exact mute_lock (mute_change (fun _ => ⟨id, fun h => absurd rfl h⟩) (mute_unlock hnext))

/-- The alert itself is behind the lock. -/
theorem mute_checkAlert {α : Type} [LT α] [DecidableLT α] (threshold : ResourceMonitor → String → Option α) (value : α)
    (alertType : String) (shown : Rat) (path : String) (hnext : Mute t held next) :
    Mute t held (checkAlert threshold value alertType shown path next) := by
  refine mute_lock (mute_look fun d => ?_)
  split
  · exact Or.inl List.mem_cons_self
  · exact mute_unlock hnext

theorem mute_checkOne (pass : Pass) (path : String) (hnext : Mute t held next) : Mute t held (checkOne pass path next) := by
  unfold checkOne
  cases pass.current path with
  | none => exact hnext
  | some m =>
    exact mute_checkAlert _ _ _ _ _ (mute_checkAlert _ _ _ _ _ (mute_checkAlert _ _ _ _ _ hnext))

theorem mute_round (round : Round) : Mute .loop [] round.code := by
  refine mute_lock (mute_look fun d => mute_forEach (fun path next => mute_collectOne _ path) ?_ _)
  refine mute_unlock (mute_lock (mute_look fun d => mute_forEach (fun path next => mute_checkOne _ path) ?_ _))
  exact mute_unlock rfl

theorem mute_guarded (m : Mutex) (hf : ∀ mon, Allowed t mon (f mon)) : Mute t [] (guarded m f) :=
  mute_lock (mute_change hf (mute_unlock rfl))

theorem mute_asked (m : Mutex) : Mute t [] (asked m) := mute_lock (mute_look fun _ => mute_unlock rfl)

/-- A new callback has not been called. -/
theorem setAlertCallback_allowed (t : Thread) (mon : ResourceMonitor) : Allowed t mon (setAlertCallback mon) := by
  refine ⟨fun h alerts hmem => ?_, fun _ => rfl⟩
  rcases List.mem_append.mp hmem with hold | hnew
  · exact h alerts hold
  · exact List.mem_singleton.mp hnew

theorem mute_call (t : Thread) (c : Call) : Mute t [] c.code := by
  cases c with
  | startMonitoring path => exact mute_startMonitoring path
  | stopMonitoring path => exact mute_stopMonitoring path
  | isMonitoring path => exact mute_asked _
  | getHistoricalMetrics path startTime endTime => exact mute_asked _
  | setCpuThreshold path limit => exact mute_guarded _ fun _ => ⟨id, fun _ => rfl⟩
  | setMemoryThreshold path limit => exact mute_guarded _ fun _ => ⟨id, fun _ => rfl⟩
  | setIoThreshold path limit => exact mute_guarded _ fun _ => ⟨id, fun _ => rfl⟩
  | hasCpuAlert path => exact mute_asked _
  | hasMemoryAlert path => exact mute_asked _
  | hasIoAlert path => exact mute_asked _
  | setAlertCallback => exact mute_guarded _ (setAlertCallback_allowed t)

/-! ## Runs -/

abbrev Kept (s : State) (held : Thread → List Mutex) : Prop := s.Kept (fun t d d' => Allowed t d.monitor d'.monitor) held

variable {held : Thread → List Mutex} {s : State}

theorem step_kept (h : Kept s held) (a : Action) : ∃ held', Kept (step s a) held' := by
  cases a with
  | call n c => exact Threads.start_kept h (mute_call _ c)
  | run t =>
    simp only [step]
    split
    · exact ⟨held, h⟩
    · exact Threads.advance_kept h t
  | iterate round =>
    cases hc : s.code .loop with
    | done =>
      simp only [step, hc]
      split
      · split
        · exact h.begin hc rfl rfl (mute_round round)
        · exact ⟨held, h.owns, h.nodup, h.keeps⟩
      · exact ⟨held, h⟩
    | lock m next => exact ⟨held, by simpa only [step, hc] using h⟩
    | unlock m next => exact ⟨held, by simpa only [step, hc] using h⟩
    | act l f next => exact ⟨held, by simpa only [step, hc] using h⟩

theorem run_kept (actions : List Action) : ∃ held, Kept (runFrom step fresh actions) held :=
  runFrom_invariant (I := fun s : State => ∃ held, Kept s held) (fun _ a h => h.elim fun _ h => step_kept h a)
    ⟨_, Threads.kept_idle _⟩ actions

/-- Who changes the monitor. -/
theorem step_monitor (h : Kept s held) (a : Action) : (step s a).data.monitor = s.data.monitor ∨
      ∃ t, a = .run t ∧ step s a = s.advance t ∧ Allowed t s.data.monitor (step s a).data.monitor := by
  cases a with
  | call n c =>
    refine Or.inl ?_
    simp only [step, Threads.start]
    split <;> rfl
  | run t =>
    simp only [step]
    split
    · exact Or.inl rfl
    · rcases Threads.advance_data h t with hsame | hallowed
      · exact Or.inl (by rw [hsame])
      · exact Or.inr ⟨t, rfl, rfl, hallowed⟩
  | iterate round =>
    refine Or.inl ?_
    simp only [step]
    split
    · split
      · split <;> rfl
      · rfl
    · rfl

/-- Whatever the clients do and the loop reads, no alert callback has been called. -/
theorem no_alert_is_delivered (actions : List Action) : Unalerted (runFrom step fresh actions).data.monitor := by
  have hstep : ∀ s a, ((∃ held, Kept s held) ∧ Unalerted s.data.monitor) →
      (∃ held, Kept (step s a) held) ∧ Unalerted (step s a).data.monitor := by
    intro s a h
    obtain ⟨⟨held, hk⟩, hun⟩ := h
    refine ⟨step_kept hk a, ?_⟩
    rcases step_monitor hk a with hsame | ⟨t, -, -, hallowed⟩
    · rw [hsame]
      exact hun
    · exact hallowed.unalerted hun
  have hfresh : (∃ held, Kept fresh held) ∧ Unalerted fresh.data.monitor :=
    ⟨⟨_, Threads.kept_idle _⟩, fun _ hmem => by cases hmem⟩
  exact (runFrom_invariant (I := fun s : State => (∃ held, Kept s held) ∧ Unalerted s.data.monitor) hstep hfresh actions).2

/-! ## After an alert -/

theorem relocks_step (h : Kept s held) (hr : s.Relocks .loop) (a : Action) : (step s a).Relocks .loop := by
  cases a with
  | call n c => exact Threads.relocks_start hr (.client n) c.code
  | run t =>
    simp only [step]
    split
    · exact hr
    · exact Threads.relocks_advance h hr t
  | iterate round =>
    obtain ⟨m, next, hc, ho⟩ := hr
    simp only [step, hc]
    exact ⟨m, next, hc, ho⟩

/-- A thread that locks what it owns changes nothing. -/
theorem relocks_run {t : Thread} (hr : s.Relocks t) : s.advance t = s := by
  obtain ⟨m, next, hc, ho⟩ := hr
  simp [Threads.advance, hc, ho]

/-- Once the loop has stopped at an alert, it stays there and no sample of any cgroup is stored,
    whatever the clients do. -/
theorem an_alert_ends_collection (before after : List Action) (hr : (runFrom step fresh before).Relocks .loop) :
    (runFrom step fresh (before ++ after)).Relocks .loop ∧
      (runFrom step fresh (before ++ after)).data.monitor.metricsHistory =
        (runFrom step fresh before).data.monitor.metricsHistory := by
  have hrun : runFrom step fresh (before ++ after) = runFrom step (runFrom step fresh before) after := by
    simp [runFrom]
  rw [hrun]
  generalize hs : runFrom step fresh before = s at hr
  have hkept : ∃ held, Kept s held := hs ▸ run_kept before
  have hstep : ∀ s₁ a, ((∃ held, Kept s₁ held) ∧ s₁.Relocks .loop ∧
      s₁.data.monitor.metricsHistory = s.data.monitor.metricsHistory) →
      (∃ held, Kept (step s₁ a) held) ∧ (step s₁ a).Relocks .loop ∧
        (step s₁ a).data.monitor.metricsHistory = s.data.monitor.metricsHistory := by
    intro s₁ a h
    obtain ⟨⟨held, hk⟩, hr₁, hhistory⟩ := h
    refine ⟨step_kept hk a, relocks_step hk hr₁ a, ?_⟩
    rcases step_monitor hk a with hsame | ⟨t, -, hadvance, hallowed⟩
    · rw [hsame]
      exact hhistory
    · by_cases ht : t = .loop
      · rw [hadvance, ht, relocks_run hr₁]
        exact hhistory
      · exact (hallowed.history ht).trans hhistory
  exact (runFrom_invariant (I := fun s₁ : State => (∃ held, Kept s₁ held) ∧ s₁.Relocks .loop ∧
    s₁.data.monitor.metricsHistory = s.data.monitor.metricsHistory) hstep ⟨hkept, hr, rfl⟩ after).2

/-- The cgroup goes on being called monitored, and its one sample is the one before the alert. -/
theorem one_sample_before_the_alert :
    let s := runFrom step fresh (alerting ++ List.replicate 5 (.run .loop))
    s.Relocks .loop ∧ (s.data.monitor.metricsHistory "/sys/fs/cgroup/web").length = 1 ∧
      "/sys/fs/cgroup/web" ∈ s.data.monitor.monitoredCgroups := by
  intro s
  have hr : (runFrom step fresh alerting).Relocks .loop := by decide +kernel
  obtain ⟨hstays, hhistory⟩ := an_alert_ends_collection alerting (List.replicate 5 (.run .loop)) hr
  refine ⟨hstays, ?_, by decide +kernel⟩
  rw [hhistory]
  decide +kernel

end DockerCpp.Cgroup.MonitorLocks
