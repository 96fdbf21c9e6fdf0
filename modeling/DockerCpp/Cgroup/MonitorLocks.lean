/-
  DockerCpp.Cgroup.MonitorLocks — the resource monitor lock by lock, with its thread.

  Each function of `resource_monitor.cpp` is the sequence of its locks of
  `monitoring_mutex_`, `metrics_mutex_` and `alerts_mutex_`, its unlocks, and what it does
  between them. Any number of clients call them in any interleaving with the thread of
  `monitoringLoop`, which a first `startMonitoring` creates and the `stopMonitoring` of the
  last cgroup joins. A round of the loop is given what its readings give; what a question such
  as `hasCpuAlert` answers is not kept. Callbacks do nothing but take their alert. On its own,
  a check gets stuck exactly where that of `Cgroup.Monitor` does (`checkOne_agrees`).

  The loop locks `metrics_mutex_` and `alerts_mutex_` under `monitoring_mutex_` and no function
  the other way round, so what is left are two deadlocks, each of which needs nothing but
  permission to happen (`no_deadlock_iff`):
  - `triggerAlert` locks `alerts_mutex_`, which `checkAlerts` holds when it calls it, so any
    alert at all stops the loop for good;
  - `stopMonitoring` joins the loop with `monitoring_mutex_` held, which the loop needs to
    finish its round.
  `a_stop_hangs_and_an_alert_relocks` has a run of each.
-/

import DockerCpp.Cgroup.Observation
import DockerCpp.Lib.Nesting

namespace DockerCpp.Cgroup.MonitorLocks

open Lib DockerCpp.Runtime

inductive Mutex where
  | monitoring
  | metrics
  | alerts
  deriving DecidableEq, Repr

/-- `monitoring_thread_`; it is joinable from its creation until it has been joined. -/
inductive LoopThread where
  | notJoinable
  | running
  | ended
  deriving DecidableEq, Repr

structure Shared where
  monitor : ResourceMonitor := {}
  /-- `monitoring_active_`. -/
  active : Bool := false
  thread : LoopThread := .notJoinable

inductive Label where
  | join
  | other
  deriving DecidableEq, Repr

abbrev MonitorCode := Lib.Code Mutex Label Shared

def change (f : ResourceMonitor → ResourceMonitor) (next : MonitorCode) : MonitorCode :=
  .act .other (fun d => { d with monitor := f d.monitor }) fun _ => next

def look (next : Shared → MonitorCode) : MonitorCode := .act .other id next

/-! ## Starting and stopping, each function followed by `next` -/

def startMonitoringThread (next : MonitorCode) : MonitorCode :=
  look fun d =>
    if d.active then next
    else
      .act .other (fun d => { d with active := true }) fun _ =>
      .act .other (fun d => { d with thread := .running }) fun _ =>
      next

def startMonitoring (cgroupPath : String) (next : MonitorCode) : MonitorCode :=
  .lock .monitoring <|
  look fun d =>
    if cgroupPath ∈ d.monitor.monitoredCgroups then .unlock .monitoring next
    else
      change (fun mon => { mon with monitoredCgroups := cgroupPath :: mon.monitoredCgroups }) <|
      look fun d =>
        if d.active then .unlock .monitoring next else startMonitoringThread <| .unlock .monitoring next

def stopMonitoringThread (next : MonitorCode) : MonitorCode :=
  look fun d =>
    if d.active then
      .act .other (fun d => { d with active := false }) fun _ =>
      look fun d =>
        if d.thread = .notJoinable then next
        else .act .join (fun d => { d with thread := .notJoinable }) fun _ => next
    else next

def stopMonitoring (cgroupPath : String) (next : MonitorCode) : MonitorCode :=
  .lock .monitoring <|
  look fun d =>
    if cgroupPath ∈ d.monitor.monitoredCgroups then
      change (fun mon => { mon with monitoredCgroups := mon.monitoredCgroups.erase cgroupPath }) <|
      look fun d =>
        if d.monitor.monitoredCgroups = [] then stopMonitoringThread <| .unlock .monitoring next
        else .unlock .monitoring next
    else .unlock .monitoring next

/-! ## The loop -/

/-- One pass over `monitored_cgroups_`, an unordered map: the order in which its paths are met,
    and what `getCurrentMetricsImpl` returns for each. -/
structure Pass where
  order : List String → List String
  perm : ∀ paths, (order paths).Perm paths
  reading : String → ResourceMetrics

/-- The reading, unless the path makes `getCurrentMetricsImpl` throw. -/
def Pass.current (pass : Pass) (cgroupPath : String) : Option ResourceMetrics :=
  match ResourceMonitor.managerName cgroupPath with
  | .ok _ => some (pass.reading cgroupPath)
  | .error _ => none

def forEach (body : String → MonitorCode → MonitorCode) (next : MonitorCode) : List String → MonitorCode
  | [] => next
  | cgroupPath :: paths => body cgroupPath (forEach body next paths)

def store (cgroupPath : String) (m : ResourceMetrics) (next : MonitorCode) : MonitorCode :=
  .lock .metrics <|
  change (ResourceMonitor.storeMetrics cgroupPath m) <|
  .unlock .metrics next

def collectOne (pass : Pass) (cgroupPath : String) (next : MonitorCode) : MonitorCode :=
  (pass.current cgroupPath).elim next fun m => store cgroupPath m next

def collectMetrics (pass : Pass) (next : MonitorCode) : MonitorCode :=
  .lock .monitoring <|
  look fun d =>
  forEach (collectOne pass) (.unlock .monitoring next) (pass.order d.monitor.monitoredCgroups)

def triggerAlert (alert : Alert) (next : MonitorCode) : MonitorCode :=
  .lock .alerts <|
  change (fun mon => { mon with alertCallbacks := mon.alertCallbacks.map (· ++ [alert]) }) <|
  .unlock .alerts next

/-- One of the three checks of `checkAlerts`. -/
def checkAlert {α : Type} [LT α] [DecidableLT α] (threshold : ResourceMonitor → String → Option α) (value : α)
    (alertType : String) (shown : Rat) (cgroupPath : String) (next : MonitorCode) : MonitorCode :=
  .lock .alerts <|
  look fun d =>
    if ResourceMonitor.above (threshold d.monitor cgroupPath) value then
      triggerAlert ⟨cgroupPath, alertType, shown⟩ <| .unlock .alerts next
    else .unlock .alerts next

def check (cgroupPath : String) (m : ResourceMetrics) (next : MonitorCode) : MonitorCode :=
  checkAlert ResourceMonitor.cpuThresholds m.cpuUsagePercent "cpu" m.cpuUsagePercent cgroupPath <|
  checkAlert ResourceMonitor.memoryThresholds m.memoryUsagePercent "memory" m.memoryUsagePercent cgroupPath <|
  checkAlert ResourceMonitor.ioThresholds (ResourceMonitor.totalIo m) "io" (ResourceMonitor.totalIo m) cgroupPath next

def checkOne (pass : Pass) (cgroupPath : String) (next : MonitorCode) : MonitorCode :=
  (pass.current cgroupPath).elim next fun m => check cgroupPath m next

def checkAlerts (pass : Pass) (next : MonitorCode) : MonitorCode :=
  .lock .monitoring <|
  look fun d =>
  forEach (checkOne pass) (.unlock .monitoring next) (pass.order d.monitor.monitoredCgroups)

/-- `monitoringLoop` once around, up to the sleep. -/
structure Round where
  collecting : Pass
  checking : Pass

def Round.code (round : Round) : MonitorCode := collectMetrics round.collecting <| checkAlerts round.checking .done

/-! ## Calls -/

inductive Call where
  | startMonitoring (cgroupPath : String)
  | stopMonitoring (cgroupPath : String)
  | isMonitoring (cgroupPath : String)
  | getHistoricalMetrics (cgroupPath : String) (startTime endTime : Nat)
  | setCpuThreshold (cgroupPath : String) (thresholdPercent : Rat)
  | setMemoryThreshold (cgroupPath : String) (thresholdPercent : Rat)
  | setIoThreshold (cgroupPath : String) (bytesPerSecond : Nat)
  | hasCpuAlert (cgroupPath : String)
  | hasMemoryAlert (cgroupPath : String)
  | hasIoAlert (cgroupPath : String)
  | setAlertCallback
  deriving DecidableEq, Repr

/-- A change under a mutex. -/
def guarded (m : Mutex) (f : ResourceMonitor → ResourceMonitor) : MonitorCode :=
  .lock m <| change f <| .unlock m .done

/-- A question that is answered under a mutex. -/
def asked (m : Mutex) : MonitorCode := .lock m <| look fun _ => .unlock m .done

/-- `thresholds_[cgroup_path] = limit`. -/
def assign {α : Type} (thresholds : String → Option α) (cgroupPath : String) (limit : α) : String → Option α :=
  fun path => if path = cgroupPath then some limit else thresholds path

def setCpuThreshold (cgroupPath : String) (limit : Rat) (mon : ResourceMonitor) : ResourceMonitor :=
  { mon with cpuThresholds := assign mon.cpuThresholds cgroupPath limit }

def setMemoryThreshold (cgroupPath : String) (limit : Rat) (mon : ResourceMonitor) : ResourceMonitor :=
  { mon with memoryThresholds := assign mon.memoryThresholds cgroupPath limit }

def setIoThreshold (cgroupPath : String) (limit : Nat) (mon : ResourceMonitor) : ResourceMonitor :=
  { mon with ioThresholds := assign mon.ioThresholds cgroupPath limit }

def setAlertCallback (mon : ResourceMonitor) : ResourceMonitor :=
  { mon with alertCallbacks := mon.alertCallbacks ++ [[]] }

def Call.code : Call → MonitorCode
  | .startMonitoring cgroupPath => MonitorLocks.startMonitoring cgroupPath .done
  | .stopMonitoring cgroupPath => MonitorLocks.stopMonitoring cgroupPath .done
  | .isMonitoring _ => asked .monitoring
  | .getHistoricalMetrics _ _ _ => asked .metrics
  | .setCpuThreshold cgroupPath limit => guarded .alerts (MonitorLocks.setCpuThreshold cgroupPath limit)
  | .setMemoryThreshold cgroupPath limit => guarded .alerts (MonitorLocks.setMemoryThreshold cgroupPath limit)
  | .setIoThreshold cgroupPath limit => guarded .alerts (MonitorLocks.setIoThreshold cgroupPath limit)
  | .hasCpuAlert _ | .hasMemoryAlert _ | .hasIoAlert _ => asked .alerts
  | .setAlertCallback => guarded .alerts MonitorLocks.setAlertCallback

/-! ## A cgroup that is checked without disturbance -/

variable {α : Type}

theorem checkAlert_alone [LT α] [DecidableLT α] (threshold : ResourceMonitor → String → Option α) (value : α)
    (alertType : String) (shown : Rat) (cgroupPath : String) (next : MonitorCode) (d : Shared) :
    (checkAlert threshold value alertType shown cgroupPath next).alone [.monitoring] d =
      if ResourceMonitor.above (threshold d.monitor cgroupPath) value then none else next.alone [.monitoring] d := by
  by_cases habove : ResourceMonitor.above (threshold d.monitor cgroupPath) value = true
  · simp [checkAlert, look, triggerAlert, Lib.Code.alone, habove]
  · simp [checkAlert, look, Lib.Code.alone, habove]

variable {d : Shared}

/-- Alone, the check of a cgroup locks what it holds exactly where `checkAlerts` of
    `Cgroup.Monitor` blocks on a free `alerts_mutex_`. -/
theorem checkOne_agrees (env : Env) (metrics : Tree → String → Option ResourceMetrics) (t : Prog.Tid)
    (cgroupPath : String) {s : MonitorState} (hfree : s.monitor.alertsMutex = none) {pass : Pass}
    (hpass : ∀ name, ResourceMonitor.managerName cgroupPath = .ok name →
      pass.reading cgroupPath = ResourceMonitor.readMetrics metrics cgroupPath name s.tree)
    (hd : d.monitor = s.monitor) :
    (ResourceMonitor.checkOne env metrics (.thread t) cgroupPath s).1 = .blocked ↔
      (checkOne pass cgroupPath .done).alone [.monitoring] d = none := by
  have hends := (ResourceMonitor.checkOne_ends env metrics t cgroupPath s).2
  have hblocked : (ResourceMonitor.checkOne env metrics (.thread t) cgroupPath s).1 = .blocked ↔
      ResourceMonitor.checkStops metrics s.monitor s.tree cgroupPath = true := by
    split at hends
    · rename_i hstops
      exact ⟨fun _ => hstops, fun _ => hends⟩
    · rename_i hstops
      rw [hends.1]
      exact ⟨nofun, fun h => absurd h hstops⟩
  rw [hblocked]
  unfold ResourceMonitor.checkStops checkOne Pass.current
  cases hname : ResourceMonitor.managerName cgroupPath with
  | error e => simp [Lib.Code.alone]
  | ok name =>
    simp only [Option.elim, check, checkAlert_alone, hpass name hname, hd, hfree, Lib.Code.alone]
    generalize ResourceMonitor.above (s.monitor.cpuThresholds cgroupPath) _ = cpu
    generalize ResourceMonitor.above (s.monitor.memoryThresholds cgroupPath) _ = memory
    generalize ResourceMonitor.above (s.monitor.ioThresholds cgroupPath) _ = io
    cases cpu <;> cases memory <;> cases io <;> simp

/-! ## Threads -/

inductive Thread where
  | client (n : Nat)
  | loop
  deriving DecidableEq, Repr

abbrev State := Threads Thread Mutex Label Shared

inductive Action where
  /-- A client that has nothing to do calls a function. -/
  | call (n : Nat) (c : Call)
  | run (t : Thread)
  /-- The loop looks at `monitoring_active_`, at its beginning or after its sleep. -/
  | iterate (round : Round)

def step (s : State) : Action → State
  | .call n c => s.start (.client n) c.code
  | .run t => if (s.code t).label = some .join ∧ s.data.thread = .running then s else s.advance t
  | .iterate round =>
    match s.code .loop with
    | .done =>
      if s.data.thread = .running then
        if s.data.active then { s with code := Function.update s.code .loop round.code }
        else { s with data := { s.data with thread := .ended } }
      else s
    | _ => s

def fresh : State := Threads.idle {}

/-- A thread locks a mutex it owns, or one is in `join`, owns `monitoring_mutex_` and keeps the
    loop from it. -/
def Deadlocked (s : State) : Prop :=
  (∃ t, s.Relocks t) ∨
    ∃ t, (s.code t).label = some .join ∧ s.owner .monitoring = some t ∧ (s.code .loop).wants = some .monitoring

/-! ## What may happen

What each client may call, and what each cgroup may be found at. -/

structure Policy where
  may : Nat → Call → Prop
  reads : String → ResourceMetrics → Prop
  some_reading : ∀ path, ∃ m, reads path m

namespace Policy

variable (p : Policy) {cgroupPath path : String} {f : ResourceMonitor → ResourceMonitor} {m : ResourceMetrics}
  {c : Call} {n : Nat} {code : Thread → MonitorCode}

def Allows : Action → Prop
  | .call n c => p.may n c
  | .run _ => True
  | .iterate round => ∀ path, p.reads path (round.collecting.reading path) ∧ p.reads path (round.checking.reading path)

def Starts (path : String) : Prop := ∃ n, p.may n (.startMonitoring path)

def Stops (path : String) : Prop := ∃ n, p.may n (.stopMonitoring path)

/-- A check may find the cgroup at `m`. -/
def Finds (path : String) (m : ResourceMetrics) : Prop :=
  p.reads path m ∧ ∃ name, ResourceMonitor.managerName path = .ok name

/-- Nothing a check may find is above a threshold the cgroup may be given. -/
structure Quiet (path : String) : Prop where
  cpu : ∀ m, p.Finds path m → ∀ n limit, p.may n (.setCpuThreshold path limit) → ¬ limit < m.cpuUsagePercent
  memory : ∀ m, p.Finds path m → ∀ n limit, p.may n (.setMemoryThreshold path limit) → ¬ limit < m.memoryUsagePercent
  io : ∀ m, p.Finds path m → ∀ n limit, p.may n (.setIoThreshold path limit) → ¬ limit < ResourceMonitor.totalIo m

/-- What may be started is not stopped and has no alert. -/
def Safe : Prop := ∀ path, p.Starts path → ¬ p.Stops path ∧ p.Quiet path

/-- The cgroups and the thresholds are owed to permitted calls. -/
structure Known (d : Shared) : Prop where
  monitored : ∀ path ∈ d.monitor.monitoredCgroups, p.Starts path
  cpu : ∀ path limit, d.monitor.cpuThresholds path = some limit → ∃ n, p.may n (.setCpuThreshold path limit)
  memory : ∀ path limit, d.monitor.memoryThresholds path = some limit → ∃ n, p.may n (.setMemoryThreshold path limit)
  io : ∀ path limit, d.monitor.ioThresholds path = some limit → ∃ n, p.may n (.setIoThreshold path limit)

end Policy

variable {p : Policy}

theorem known_fresh : p.Known {} := by
  refine ⟨fun _ hmem => absurd hmem List.not_mem_nil, ?_, ?_, ?_⟩
  all_goals
    intro path limit hlimit
    cases hlimit

/-- A threshold that is there is the one just assigned or was there before. -/
theorem assign_owed {thresholds : String → Option α} {limit : α}
    {Owed : String → α → Prop} (hnew : Owed cgroupPath limit)
    (hold : ∀ path limit, thresholds path = some limit → Owed path limit) (path : String) (limit' : α)
    (h : assign thresholds cgroupPath limit path = some limit') : Owed path limit' := by
  unfold assign at h
  split at h
  · rename_i hpath
    rw [hpath, ← Option.some.inj h]
    exact hnew
  · exact hold path limit' h

/-! ## Safe functions nest one way -/

/-- The only nestings. -/
def Below : Mutex → Mutex → Prop
  | .monitoring, .metrics | .monitoring, .alerts => True
  | _, _ => False

abbrev Nests (p : Policy) : List Mutex → MonitorCode → Prop := Lib.Code.Nests Below (· ≠ .join) p.Known

variable {held : List Mutex} {next : MonitorCode}

theorem nests_act {f : Shared → Shared} {next : Shared → MonitorCode}
    (h : ∀ d, p.Known d → p.Known (f d) ∧ Nests p held (next d)) : Nests p held (.act .other f next) :=
  ⟨nofun, h⟩

theorem nests_look {next : Shared → MonitorCode} (h : ∀ d, p.Known d → Nests p held (next d)) :
    Nests p held (look next) :=
  nests_act fun d hd => ⟨hd, h d hd⟩

theorem nests_unlock {m : Mutex} (h : Nests p held next) : Nests p (m :: held) (.unlock m next) := ⟨held, rfl, h⟩

theorem nests_guarded (m : Mutex)
    (hf : ∀ d, p.Known d → p.Known { d with monitor := f d.monitor }) : Nests p [] (guarded m f) :=
  ⟨fun _ => nofun, nests_act fun d hd => ⟨hf d hd, nests_unlock rfl⟩⟩

theorem nests_asked (m : Mutex) : Nests p [] (asked m) := ⟨fun _ => nofun, nests_look fun _ _ => nests_unlock rfl⟩

theorem nests_startMonitoringThread (h : Nests p held next) : Nests p held (startMonitoringThread next) := by
  refine nests_look fun d _ => ?_
  split
  · exact h
  · exact nests_act fun _ hd => ⟨⟨hd.monitored, hd.cpu, hd.memory, hd.io⟩,
      nests_act fun _ hd => ⟨⟨hd.monitored, hd.cpu, hd.memory, hd.io⟩, h⟩⟩

theorem nests_startMonitoring (hmay : p.Starts cgroupPath) : Nests p [] (startMonitoring cgroupPath .done) := by
  have hunlock : Nests p [.monitoring] (.unlock .monitoring .done) := nests_unlock rfl
  refine ⟨fun _ => nofun, nests_look fun d _ => ?_⟩
  split
  · exact hunlock
  · refine nests_act fun d hd => ⟨⟨?_, hd.cpu, hd.memory, hd.io⟩, nests_look fun d _ => ?_⟩
    · intro path hmem
      rcases List.mem_cons.mp hmem with rfl | hold
      · exact hmay
      · exact hd.monitored path hold
    · split
      · exact hunlock
      · exact nests_startMonitoringThread hunlock

/-- What may be stopped is not there, so there is nothing to join. -/
theorem nests_stopMonitoring (hsafe : p.Safe) (hmay : p.Stops cgroupPath) :
    Nests p [] (stopMonitoring cgroupPath .done) := by
  refine ⟨fun _ => nofun, nests_look fun d hd => ?_⟩
  split
  · rename_i hmem
    exact absurd hmay (hsafe cgroupPath (hd.monitored cgroupPath hmem)).1
  · exact nests_unlock rfl

theorem nests_forEach {body : String → MonitorCode → MonitorCode} {paths : List String}
    (hbody : ∀ path ∈ paths, ∀ next, Nests p held next → Nests p held (body path next)) (hnext : Nests p held next) :
    Nests p held (forEach body next paths) := by
  induction paths with
  | nil => exact hnext
  | cons path paths ih =>
    exact hbody path List.mem_cons_self _ (ih fun path hmem => hbody path (List.mem_cons_of_mem _ hmem))

theorem below_monitoring {m : Mutex} (h : Below .monitoring m) : ∀ m' ∈ [Mutex.monitoring], Below m' m := by
  intro m' hm'
  rw [List.mem_singleton.mp hm']
  exact h

theorem nests_store (cgroupPath : String) (m : ResourceMetrics) (h : Nests p [.monitoring] next) :
    Nests p [.monitoring] (store cgroupPath m next) :=
  ⟨below_monitoring trivial, nests_act fun _ hd => ⟨⟨hd.monitored, hd.cpu, hd.memory, hd.io⟩, nests_unlock h⟩⟩

/-- A check that finds nothing. -/
theorem nests_checkAlert [LT α] [DecidableLT α] {threshold : ResourceMonitor → String → Option α} {value : α}
    (hquiet : ∀ d, p.Known d → ∀ limit, threshold d.monitor cgroupPath = some limit → ¬ limit < value)
    (alertType : String) (shown : Rat) (h : Nests p [.monitoring] next) :
    Nests p [.monitoring] (checkAlert threshold value alertType shown cgroupPath next) := by
  refine ⟨below_monitoring trivial, nests_look fun d hd => ?_⟩
  split
  · rename_i habove
    unfold ResourceMonitor.above at habove
    split at habove
    · rename_i limit hlimit
      exact absurd (of_decide_eq_true habove) (hquiet d hd limit hlimit)
    · cases habove
  · exact nests_unlock h

theorem nests_check (hquiet : p.Quiet cgroupPath) (hm : p.Finds cgroupPath m)
    (h : Nests p [.monitoring] next) : Nests p [.monitoring] (check cgroupPath m next) := by
  refine nests_checkAlert ?_ _ _ (nests_checkAlert ?_ _ _ (nests_checkAlert ?_ _ _ h))
  · intro d hd limit hlimit
    obtain ⟨n, hn⟩ := hd.cpu cgroupPath limit hlimit
    exact hquiet.cpu m hm n limit hn
  · intro d hd limit hlimit
    obtain ⟨n, hn⟩ := hd.memory cgroupPath limit hlimit
    exact hquiet.memory m hm n limit hn
  · intro d hd limit hlimit
    obtain ⟨n, hn⟩ := hd.io cgroupPath limit hlimit
    exact hquiet.io m hm n limit hn

theorem current_finds {pass : Pass} (hpass : p.reads path (pass.reading path))
    (hm : pass.current path = some m) : p.Finds path m := by
  unfold Pass.current at hm
  split at hm
  · rename_i name hname
    rw [← Option.some.inj hm]
    exact ⟨hpass, name, hname⟩
  · cases hm

theorem nests_round (hsafe : p.Safe) {round : Round} (hround : p.Allows (.iterate round)) : Nests p [] round.code := by
  refine ⟨fun _ => nofun, nests_look fun d _ => nests_forEach (fun path _ next hnext => ?_) (nests_unlock ?_)⟩
  · unfold collectOne
    cases round.collecting.current path with
    | none => exact hnext
    | some m => exact nests_store path m hnext
  · refine ⟨fun _ => nofun, nests_look fun d hd => nests_forEach (fun path hmem next hnext => ?_) (nests_unlock rfl)⟩
    have hstarts := hd.monitored path (((round.checking.perm _).mem_iff).mp hmem)
    unfold checkOne
    cases hm : round.checking.current path with
    | none => exact hnext
    | some m => exact nests_check (hsafe path hstarts).2 (current_finds (hround path).2 hm) hnext

theorem nests_code (hsafe : p.Safe) (hmay : p.may n c) : Nests p [] c.code := by
  cases c with
  | startMonitoring path => exact nests_startMonitoring ⟨n, hmay⟩
  | stopMonitoring path => exact nests_stopMonitoring hsafe ⟨n, hmay⟩
  | isMonitoring path => exact nests_asked _
  | getHistoricalMetrics path start stop => exact nests_asked _
  | hasCpuAlert path => exact nests_asked _
  | hasMemoryAlert path => exact nests_asked _
  | hasIoAlert path => exact nests_asked _
  | setAlertCallback => exact nests_guarded _ fun d hd => ⟨hd.monitored, hd.cpu, hd.memory, hd.io⟩
  | setCpuThreshold path limit =>
    exact nests_guarded _ fun d hd => ⟨hd.monitored, assign_owed ⟨n, hmay⟩ hd.cpu, hd.memory, hd.io⟩
  | setMemoryThreshold path limit =>
    exact nests_guarded _ fun d hd => ⟨hd.monitored, hd.cpu, assign_owed ⟨n, hmay⟩ hd.memory, hd.io⟩
  | setIoThreshold path limit =>
    exact nests_guarded _ fun d hd => ⟨hd.monitored, hd.cpu, hd.memory, assign_owed ⟨n, hmay⟩ hd.io⟩

/-! ## Safe runs -/

abbrev Nested (p : Policy) (s : State) : Prop := ∃ held, Threads.Nested (fun _ => Below) (· ≠ .join) p.Known s held

theorem fresh_nested : Nested p fresh :=
  ⟨fun _ => [], known_fresh, by simp [fresh, Threads.idle], fun _ => List.nodup_nil, fun _ => rfl⟩

theorem step_nested (hsafe : p.Safe) {s : State} (h : Nested p s) {a : Action} (ha : p.Allows a) :
    Nested p (step s a) := by
  obtain ⟨held, h⟩ := h
  cases a with
  | call n c => exact Threads.start_nested h (nests_code hsafe ha)
  | run t =>
    simp only [step]
    split
    · exact ⟨held, h⟩
    · exact Threads.advance_nested h t
  | iterate round =>
    simp only [step]
    split
    · rename_i hdone
      split
      · split
        · have hstart := Threads.start_nested h (t := .loop) (nests_round hsafe ha)
          simpa only [Threads.start, hdone] using hstart
        · exact ⟨held, ⟨h.data.monitored, h.data.cpu, h.data.memory, h.data.io⟩, h.owns, h.nodup, h.nests⟩
      · exact ⟨held, h⟩
    · exact ⟨held, h⟩

theorem nested_not_deadlocked {s : State} (h : Nested p s) : ¬ Deadlocked s := by
  obtain ⟨held, h⟩ := h
  intro hdead
  rcases hdead with ⟨t, m, next, hc, ho⟩ | ⟨t, hjoin, -⟩
  · have hbelow := h.along hc ho
    cases m <;> exact hbelow
  · cases hc : s.code t with
    | act l f next =>
      rw [hc] at hjoin
      exact h.label hc (Option.some.inj hjoin)
    | done | lock m next | unlock m next =>
      rw [hc] at hjoin
      cases hjoin

/-! ## The ways into a deadlock -/

abbrev Reach (p : Policy) : State → Prop := Reachable step p.Allows fresh

theorem reach_closed : Threads.Closed (Reach p) (· = .join) := by
  intro s t hs hlabel
  have hstep : step s (.run t) = s.advance t := if_neg fun hwaits => hlabel _ hwaits.1 rfl
  rw [← hstep]
  exact hs.next trivial

section

variable {d : Shared} {owner : Mutex → Option Thread} {code : Thread → MonitorCode} {t : Thread}

theorem reach_act {f : Shared → Shared} {next : Shared → MonitorCode}
    (h : Reach p ⟨d, owner, Function.update code t (.act .other f next)⟩) :
    Reach p ⟨f d, owner, Function.update code t (next d)⟩ :=
  reach_closed.act (l := .other) nofun h

variable {yes no : Shared → MonitorCode} {P : Shared → Prop}

theorem reach_then [DecidablePred P]
    (h : Reach p ⟨d, owner, Function.update code t (look fun d => if P d then yes d else no d)⟩) (hP : P d) :
    Reach p ⟨d, owner, Function.update code t (yes d)⟩ := by
  have hnext := reach_act h
  rw [if_pos hP] at hnext
  exact hnext

theorem reach_else [DecidablePred P]
    (h : Reach p ⟨d, owner, Function.update code t (look fun d => if P d then yes d else no d)⟩) (hP : ¬ P d) :
    Reach p ⟨d, owner, Function.update code t (no d)⟩ := by
  have hnext := reach_act h
  rw [if_neg hP] at hnext
  exact hnext

end

theorem reach_call {owner : Mutex → Option Thread}
    (h : Reach p ⟨d, owner, code⟩) (hdone : code (.client n) = .done) (hmay : p.may n c) :
    Reach p ⟨d, owner, Function.update code (.client n) c.code⟩ := by
  have hstep : step ⟨d, owner, code⟩ (.call n c) = ⟨d, owner, Function.update code (.client n) c.code⟩ := by
    simp [step, Threads.start, hdone]
  rw [← hstep]
  exact h.next hmay

theorem reach_round (h : Reach p (Threads.idle d)) (hthread : d.thread = .running)
    (hactive : d.active = true) (round : Round) (hround : p.Allows (.iterate round)) :
    Reach p ⟨d, fun _ => none, Function.update (fun _ => .done) .loop round.code⟩ := by
  have hstep : step (Threads.idle d) (.iterate round) =
      ⟨d, fun _ => none, Function.update (fun _ => .done) .loop round.code⟩ := by
    simp [step, Threads.idle, hthread, hactive]
  rw [← hstep]
  exact h.next hround

theorem back_to_idle {t : Thread} :
    (⟨d, fun _ => none, Function.update (fun _ => .done) t .done⟩ : State) = Threads.idle d := by
  rw [Function.update_eq_self_iff.mpr rfl, Threads.idle]

theorem reach_guarded (h : Reach p (Threads.idle d)) (hmay : p.may n c) {m : Mutex} (hc : c.code = guarded m f) :
    Reach p (Threads.idle { d with monitor := f d.monitor }) := by
  have hcalled := reach_call h rfl hmay
  rw [hc] at hcalled
  have hlocked := reach_closed.lock rfl hcalled
  have hchanged := reach_act hlocked
  have hdone := reach_closed.unlock rfl hchanged
  rw [back_to_idle] at hdone
  exact hdone

/-- What starting one cgroup leaves. -/
def monitoring (path : String) : Shared := ⟨{ monitoredCgroups := [path] }, true, .running⟩

theorem reach_started (h : p.Starts path) : Reach p (Threads.idle (monitoring path)) := by
  obtain ⟨n, hmay⟩ := h
  have hlocked := reach_closed.lock rfl (reach_call (Reachable.refl : Reach p fresh) rfl hmay)
  have hadded := reach_act (reach_else hlocked List.not_mem_nil)
  have hthread := reach_else (reach_else hadded Bool.false_ne_true) Bool.false_ne_true
  have hdone := reach_closed.unlock rfl (reach_act (reach_act hthread))
  rw [back_to_idle] at hdone
  exact hdone

def Pass.of (reading : String → ResourceMetrics) : Pass := ⟨id, List.Perm.refl, reading⟩

/-- A round that finds the same all the way. -/
def Round.of (reading : String → ResourceMetrics) : Round := ⟨Pass.of reading, Pass.of reading⟩

/-- The loop is about to begin a round when the last cgroup is stopped. -/
theorem reach_join (hstart : p.Starts path) (hstop : p.Stops path) : ∃ s, Reach p s ∧ Deadlocked s := by
  obtain ⟨n, hmay⟩ := hstop
  choose reading hreading using p.some_reading
  have hloop := reach_round (reach_started hstart) rfl rfl (Round.of reading) fun path => ⟨hreading path, hreading path⟩
  have hlocked := reach_closed.lock rfl (reach_call hloop rfl hmay)
  have herased := reach_act (reach_then hlocked List.mem_cons_self)
  have hactive := reach_then (reach_then herased (List.erase_cons_head ..)) rfl
  have hjoin := reach_else (reach_act hactive) nofun
  refine ⟨_, hjoin, Or.inr ⟨.client n, ?_, ?_, ?_⟩⟩
  · simp [Lib.Code.label]
  · simp
  · simp [Lib.Code.wants, Round.code, collectMetrics]

theorem reading_with (hm : p.reads path m) :
    ∃ reading : String → ResourceMetrics, reading path = m ∧ ∀ q, p.reads q (reading q) := by
  choose reading hreading using p.some_reading
  refine ⟨Function.update reading path m, Function.update_self .., fun q => ?_⟩
  by_cases hq : q = path
  · rw [hq, Function.update_self]
    exact hm
  · rw [Function.update_of_ne hq]
    exact hreading q

/-- A pass over one cgroup. -/
theorem reach_pass (hpath : d.monitor.monitoredCgroups = [path])
    {reading : String → ResourceMetrics} (hm : (Pass.of reading).current path = some m)
    {body : String → ResourceMetrics → MonitorCode → MonitorCode} {next : MonitorCode}
    (h : Reach p ⟨d, fun _ => none, Function.update code .loop (.lock .monitoring <| look fun d =>
      forEach (fun cgroupPath next => ((Pass.of reading).current cgroupPath).elim next fun m => body cgroupPath m next)
        (.unlock .monitoring next) ((Pass.of reading).order d.monitor.monitoredCgroups))⟩) :
    Reach p ⟨d, Function.update (fun _ => none) .monitoring (some .loop),
      Function.update code .loop (body path m (.unlock .monitoring next))⟩ := by
  have hbody := reach_act (reach_closed.lock rfl h)
  rw [hpath] at hbody
  simp only [Pass.of, id, forEach] at hbody hm
  rw [hm] at hbody
  exact hbody

/-- The loop gets to the checks of the cgroup. -/
theorem reach_check (h : Reach p (Threads.idle d))
    (hpath : d.monitor.monitoredCgroups = [path]) (hthread : d.thread = .running) (hactive : d.active = true)
    (hm : p.Finds path m) :
    ∃ d', Reach p ⟨d', Function.update (fun _ => none) .monitoring (some .loop),
      Function.update (fun _ => .done) .loop (check path m (.unlock .monitoring .done))⟩ ∧
      d'.monitor = ResourceMonitor.storeMetrics path m d.monitor := by
  obtain ⟨hreads, name, hname⟩ := hm
  obtain ⟨reading, hreading, hall⟩ := reading_with hreads
  have hcurrent : (Pass.of reading).current path = some m := by
    simp [Pass.current, hname, Pass.of, hreading]
  have hround := reach_round h hthread hactive (Round.of reading) fun q => ⟨hall q, hall q⟩
  have hstored := reach_act (reach_closed.lock rfl (reach_pass hpath hcurrent hround))
  have hcollected := reach_closed.unlock rfl (reach_closed.unlock rfl hstored)
  have hchecking := reach_pass (d := { d with monitor := ResourceMonitor.storeMetrics path m d.monitor }) hpath hcurrent
    hcollected
  exact ⟨_, hchecking, rfl⟩

section

variable {α : Type} [LT α] [DecidableLT α] {threshold : ResourceMonitor → String → Option α} {value : α}
  {alertType : String} {shown : Rat} {path : String} {d : Shared} {code : Thread → MonitorCode} {t : Thread}

/-- A check of a cgroup without the threshold. -/
theorem reach_unset (hnone : threshold d.monitor path = none)
    (h : Reach p ⟨d, Function.update (fun _ => none) .monitoring (some .loop),
      Function.update code t (checkAlert threshold value alertType shown path next)⟩) :
    Reach p ⟨d, Function.update (fun _ => none) .monitoring (some .loop), Function.update code t next⟩ := by
  have hlocked := reach_closed.lock rfl h
  have hbelow := reach_else hlocked (by simp [ResourceMonitor.above, hnone])
  exact reach_closed.unlock rfl hbelow

/-- A check that finds the cgroup above its threshold. -/
theorem reach_relock {limit : α} (hlimit : threshold d.monitor path = some limit) (habove : limit < value)
    (h : Reach p ⟨d, Function.update (fun _ => none) .monitoring (some .loop),
      Function.update code t (checkAlert threshold value alertType shown path next)⟩) :
    ∃ s, Reach p s ∧ Deadlocked s := by
  have hlocked := reach_closed.lock rfl h
  have hfound := reach_then hlocked (by simpa [ResourceMonitor.above, hlimit] using habove)
  exact ⟨_, hfound, Or.inl ⟨t, .alerts, _, Function.update_self .., by simp⟩⟩

end

/-- One cgroup is monitored, one threshold is set, and the loop gets to its checks. -/
theorem reach_limited (hstart : p.Starts path) (hmay : p.may n c) (hc : c.code = guarded .alerts f)
    (hf : ∀ mon, (f mon).monitoredCgroups = mon.monitoredCgroups) (hm : p.Finds path m) :
    ∃ d, Reach p ⟨d, Function.update (fun _ => none) .monitoring (some .loop),
      Function.update (fun _ => .done) .loop (check path m (.unlock .monitoring .done))⟩ ∧
      d.monitor = ResourceMonitor.storeMetrics path m (f { monitoredCgroups := [path] }) :=
  reach_check (reach_guarded (reach_started hstart) hmay hc) (hf _) rfl rfl hm

theorem reach_alert (hstart : p.Starts path) (hloud : ¬ p.Quiet path) : ∃ s, Reach p s ∧ Deadlocked s := by
  by_contra hnone
  refine hloud ⟨?_, ?_, ?_⟩
  · intro m hm n limit hmay habove
    obtain ⟨d, hcheck, hd⟩ := reach_limited hstart hmay rfl (fun _ => rfl) hm
    have hlimit : d.monitor.cpuThresholds path = some limit := hd ▸ if_pos rfl
    exact hnone (reach_relock hlimit habove hcheck)
  · intro m hm n limit hmay habove
    obtain ⟨d, hcheck, hd⟩ := reach_limited hstart hmay rfl (fun _ => rfl) hm
    have hcpu : d.monitor.cpuThresholds path = none := hd ▸ rfl
    have hlimit : d.monitor.memoryThresholds path = some limit := hd ▸ if_pos rfl
    exact hnone (reach_relock hlimit habove (reach_unset hcpu hcheck))
  · intro m hm n limit hmay habove
    obtain ⟨d, hcheck, hd⟩ := reach_limited hstart hmay rfl (fun _ => rfl) hm
    have hcpu : d.monitor.cpuThresholds path = none := hd ▸ rfl
    have hmemory : d.monitor.memoryThresholds path = none := hd ▸ rfl
    have hlimit : d.monitor.ioThresholds path = some limit := hd ▸ if_pos rfl
    exact hnone (reach_relock hlimit habove (reach_unset hmemory (reach_unset hcpu hcheck)))

/-- Whatever the clients may call and the cgroups may be found at, no interleaving comes to a
    deadlock iff no cgroup that may be started may also be stopped, or may be found above a
    threshold it may be given. -/
theorem no_deadlock_iff (p : Policy) :
    (∀ actions, (∀ a ∈ actions, p.Allows a) → Throughout step (fun s => ¬ Deadlocked s) fresh actions) ↔
      ∀ path, p.Starts path → ¬ p.Stops path ∧ p.Quiet path := by
  rw [throughout_iff_reachable]
  constructor
  · intro hnever path hstart
    constructor
    · intro hstop
      obtain ⟨s, hs, hdead⟩ := reach_join hstart hstop
      exact hnever s hs hdead
    · by_contra hloud
      obtain ⟨s, hs, hdead⟩ := reach_alert hstart hloud
      exact hnever s hs hdead
  · intro hsafe s hs
    exact nested_not_deadlocked (hs.invariant (I := Nested p) (fun s a h ha => step_nested hsafe h ha) fresh_nested)

def started : List Action :=
  [.call 0 (.startMonitoring "/sys/fs/cgroup/web")] ++ List.replicate 8 (.run (.client 0))

/-- The loop has begun a round when client 1 stops the cgroup. -/
def stopping : List Action :=
  started ++ [.iterate (Round.of fun _ => ResourceMonitor.noMetrics), .call 1 (.stopMonitoring "/sys/fs/cgroup/web")] ++
  List.replicate 7 (.run (.client 1))

/-- The cgroup is found at 90 percent of a processor, with a threshold of 50. -/
def alerting : List Action :=
  started ++ [.call 0 (.setCpuThreshold "/sys/fs/cgroup/web" 50)] ++ List.replicate 3 (.run (.client 0)) ++
  [.iterate (Round.of fun _ => { ResourceMonitor.noMetrics with cpuUsagePercent := 90 })] ++
  List.replicate 10 (.run .loop)

/-- Client 1 joins the loop with the mutex the loop waits for; the loop locks `alerts_mutex_`
    a second time. -/
theorem a_stop_hangs_and_an_alert_relocks :
    Deadlocked (runFrom step fresh stopping) ∧ (runFrom step fresh alerting).Relocks .loop := by
  refine ⟨Or.inr ⟨.client 1, ?_⟩, ?_⟩
  · decide +kernel
  · decide +kernel

end DockerCpp.Cgroup.MonitorLocks
