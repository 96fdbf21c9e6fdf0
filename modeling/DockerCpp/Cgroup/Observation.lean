/-
  DockerCpp.Cgroup.Observation — what the resource monitor does to the tree it observes.

  A look at a cgroup destroys it: the temporary manager `getCurrentMetricsImpl` reads
  through has a destructor, and the destructor does not know that the manager created
  nothing (`a_look_destroys_the_cgroup`). A call leaves the tree as it is exactly when every
  cgroup it looks at is `Untouchable` (`observation_unchanged_iff`). Which ones it looks at is
  `visited`: an alert that is raised ends `checkAlerts`, whose thread waits for itself.
-/

import DockerCpp.Cgroup.Destruction
import DockerCpp.Cgroup.Monitor

namespace DockerCpp.Cgroup

open Lib Lib.Prog DockerCpp.Runtime

namespace ResourceMonitor

/-! ## One look -/

def mountDir : Path := ["sys", "fs", "cgroup"]

/-- The tree after a look at a path. -/
def looked (env : Env) (cgroupPath : String) (t : Tree) : Tree :=
  match managerName cgroupPath with
  | .error _ => t
  | .ok name => CgroupManager.destroyed env (temporary name) t

/-- A look at the path changes nothing. -/
def Inert (env : Env) (t : Tree) (cgroupPath : String) : Prop :=
  ∀ name, managerName cgroupPath = .ok name → CgroupManager.Untouchable env (temporary name) t

theorem temporary_path (name : String) : (temporary name).cgroupPath = mountPoint ++ "/" ++ name := rfl

theorem locate_mountPoint (t : Tree) : t.locate mountPoint = t.walk [] ["", "sys", "fs", "cgroup"] := by
  have hparts : components mountPoint = ["", "sys", "fs", "cgroup"] := by decide +kernel
  have horigin : t.origin mountPoint = [] := rfl
  unfold Tree.locate
  rw [if_neg (by decide +kernel), hparts, horigin]

theorem locate_temporary (t : Tree) (name : String) :
    t.locate (temporary name).cgroupPath = (t.locate mountPoint).bind fun p => t.walk p (components name) := by
  have hparts : components mountPoint = ["", "sys", "fs", "cgroup"] := by decide +kernel
  have hslash : (mountPoint ++ "/" ++ name).toList = '/' :: ("sys/fs/cgroup/".toList ++ name.toList) := by
    simp [mountPoint]
  have horigin : t.origin (mountPoint ++ "/" ++ name) = [] := by
    unfold Tree.origin
    rw [hslash, List.head?_cons, if_pos rfl]
  have hne : mountPoint ++ "/" ++ name ≠ "" := by
    intro heq
    rw [heq] at hslash
    cases hslash
  rw [temporary_path, locate_mountPoint]
  unfold Tree.locate
  rw [if_neg hne, components_slash, horigin, Tree.walk_append, hparts]

variable {t : Tree} {env : Env} {cgroupPath : String}

theorem mem_paths_of_isDir {p : Path} (h : t.isDir p = true) (hne : p ≠ []) : p ∈ t.dirs.map (·.1) := by
  unfold Tree.isDir at h
  have hsome : (t.dir? p).isSome = true := by simpa [hne] using h
  obtain ⟨d, hd⟩ := Option.isSome_iff_exists.mp hsome
  exact List.mem_map.mpr ⟨(p, d), Tree.mem_dirs_of_dir? hd, rfl⟩

theorem prefixes_of_root (t : Tree) : ∀ r, r <+: [] → t.isDir r = true := by
  intro r hr
  rw [List.prefix_nil.mp hr]
  rfl

theorem locate_mountPoint_eq {p : Path} (h : t.locate mountPoint = some p) :
    p = mountDir ∧ ∀ r, r <+: p → t.isDir r = true := by
  rw [locate_mountPoint] at h
  refine ⟨?_, Tree.walk_isDir (prefixes_of_root t) h⟩
  have hwalk : t.isDir ["sys"] = true ∧ t.isDir ["sys", "fs"] = true ∧ t.isDir mountDir = true ∧ mountDir = p := by
    simpa [Tree.walk, mountDir] using h
  exact hwalk.2.2.2.symm

/-- The directory a temporary manager stands for is one of the tree, or the root. -/
theorem locate_temporary_dir {name : String} {q : Path} (h : t.locate (temporary name).cgroupPath = some q) :
    t.locate mountPoint = some mountDir ∧ ∃ r ∈ t.dirs.map (·.1), q <+: r := by
  rw [locate_temporary] at h
  obtain ⟨p, hp, hwalk⟩ := Option.bind_eq_some_iff.mp h
  obtain ⟨rfl, hdirs⟩ := locate_mountPoint_eq hp
  refine ⟨hp, ?_⟩
  by_cases hq : q = []
  · exact ⟨mountDir, mem_paths_of_isDir (hdirs _ List.prefix_rfl) (by decide), hq ▸ List.nil_prefix⟩
  · exact ⟨q, mem_paths_of_isDir (Tree.walk_isDir hdirs hwalk q List.prefix_rfl) hq, List.prefix_rfl⟩

theorem looked_inert (hw : t.WellFormed) (h : Inert env t cgroupPath) : looked env cgroupPath t = t := by
  unfold looked
  cases hname : managerName cgroupPath with
  | error e => rfl
  | ok name => exact CgroupManager.destroyed_untouchable hw (h name hname)

theorem destroyed_of_unlocated {name : String} (h : t.locate mountPoint = none) :
    CgroupManager.destroyed env (temporary name) t = t := by
  unfold CgroupManager.destroyed
  rw [locate_temporary, h]
  rfl

theorem burden_looked_le (env : Env) (cgroupPath : String) (t : Tree) :
    Tree.burden mountDir (looked env cgroupPath t) ≤ Tree.burden mountDir t := by
  unfold looked
  cases managerName cgroupPath with
  | error e => exact Nat.le_refl _
  | ok name =>
    cases hp : t.locate mountPoint with
    | none => exact Nat.le_of_eq (by simp only [destroyed_of_unlocated hp])
    | some p =>
      obtain ⟨rfl, -⟩ := locate_mountPoint_eq hp
      exact CgroupManager.burden_destroyed_le env hp

theorem burden_looked_lt (h : ¬ Inert env t cgroupPath) :
    Tree.burden mountDir (looked env cgroupPath t) < Tree.burden mountDir t := by
  unfold Inert at h
  push Not at h
  obtain ⟨name, hname, htouch⟩ := h
  obtain ⟨q, hq⟩ : ∃ q, t.locate (temporary name).cgroupPath = some q := by
    unfold CgroupManager.Untouchable at htouch
    push Not at htouch
    obtain ⟨q, hq, -⟩ := htouch
    exact ⟨q, hq⟩
  unfold looked
  simp only [hname]
  exact CgroupManager.burden_destroyed_lt (locate_temporary_dir hq).1 (fun _ hq' => (locate_temporary_dir hq').2) htouch

/-! ## A look after the other -/

/-- The paths of a loop up to the first that stops it. -/
def upTo (stops : String → Bool) : List String → List String
  | [] => []
  | p :: ps => if stops p then [p] else p :: upTo stops ps

def lookedUpTo (env : Env) (stops : Tree → String → Bool) : List String → Tree → Tree
  | [], t => t
  | p :: ps, t => if stops t p then looked env p t else lookedUpTo env stops ps (looked env p t)

theorem burden_lookedUpTo_le (env : Env) (stops : Tree → String → Bool) (ps : List String) (t : Tree) :
    Tree.burden mountDir (lookedUpTo env stops ps t) ≤ Tree.burden mountDir t := by
  induction ps generalizing t with
  | nil => exact Nat.le_refl _
  | cons p ps ih =>
    unfold lookedUpTo
    split
    · exact burden_looked_le env p t
    · exact Nat.le_trans (ih _) (burden_looked_le env p t)

/-- What one look has changed no later one restores. -/
theorem lookedUpTo_eq_iff (hw : t.WellFormed) (stops : Tree → String → Bool) (ps : List String) :
    lookedUpTo env stops ps t = t ↔ ∀ p ∈ upTo (stops t) ps, Inert env t p := by
  induction ps with
  | nil => simp [lookedUpTo, upTo]
  | cons p ps ih =>
    have hfirst : p ∈ upTo (stops t) (p :: ps) := by
      unfold upTo
      split <;> exact List.mem_cons_self
    by_cases hinert : Inert env t p
    · have hsame := looked_inert hw hinert
      unfold lookedUpTo upTo
      rw [hsame]
      by_cases hstops : stops t p = true
      · simp [hstops, hinert]
      · simp [hstops, hinert, ih]
    · constructor
      · intro heq
        have hle : Tree.burden mountDir (lookedUpTo env stops (p :: ps) t) ≤
            Tree.burden mountDir (looked env p t) := by
          unfold lookedUpTo
          split
          · exact Nat.le_refl _
          · exact burden_lookedUpTo_le env stops ps _
        have hlt := burden_looked_lt hinert
        rw [heq] at hle
        omega
      · exact fun hall => absurd (hall p hfirst) hinert

/-! ## Programs -/

section

variable (env : Env) (metrics : Tree → String → Option ResourceMetrics) (t : Tid)

/-- How `getCurrentMetricsImpl` ends. -/
def metricsResult (cgroupPath : String) (tree : Tree) : Res MonitorError ResourceMetrics :=
  match managerName cgroupPath with
  | .error e => .thrown e
  | .ok name => .ok (readMetrics metrics cgroupPath name tree)

theorem getCurrentMetricsImpl_eq (cgroupPath : String) (s : MonitorState) :
    getCurrentMetricsImpl env metrics cgroupPath s =
      (metricsResult metrics cgroupPath s.tree, { s with tree := looked env cgroupPath s.tree }) := by
  unfold getCurrentMetricsImpl metricsResult looked
  cases managerName cgroupPath with
  | error e => rfl
  | ok name =>
    show (_, { s with tree := (CgroupManager.destruct env ⟨temporary name, s.tree⟩).2.tree }) = _
    rw [CgroupManager.destruct_eq]

theorem ends_getCurrentMetricsImpl (cgroupPath : String) (s : MonitorState)
    (Q : Res MonitorError ResourceMetrics → MonitorState → Prop) :
    Ends (getCurrentMetricsImpl env metrics cgroupPath) s Q ↔
      Q (metricsResult metrics cgroupPath s.tree) { s with tree := looked env cgroupPath s.tree } := by
  rw [Ends, getCurrentMetricsImpl_eq]

/-- What a check of an alert reads of the monitor. -/
structure SameChecks (mon mon' : ResourceMonitor) : Prop where
  cpu : mon'.cpuThresholds = mon.cpuThresholds
  memory : mon'.memoryThresholds = mon.memoryThresholds
  io : mon'.ioThresholds = mon.ioThresholds
  metricsMutex : mon'.metricsMutex = mon.metricsMutex
  alertsMutex : mon'.alertsMutex = mon.alertsMutex

/-- One iteration of a loop: a look, after which the loop stops or goes on. -/
def Look (stops : ResourceMonitor → Tree → String → Bool) (cgroupPath : String) (s : MonitorState)
    (r : Res MonitorError Unit) (s' : MonitorState) : Prop :=
  s'.tree = looked env cgroupPath s.tree ∧
    if stops s.monitor s.tree cgroupPath then r = .blocked else r = .ok () ∧ SameChecks s.monitor s'.monitor

theorem loop_ends {stops : ResourceMonitor → Tree → String → Bool} {body : String → Prog MonitorState MonitorError Unit}
    (hstops : ∀ mon mon', SameChecks mon mon' → stops mon' = stops mon)
    (hbody : ∀ p s, Ends (body p) s (Look env stops p s)) (ps : List String) (s : MonitorState) :
    Ends (forEach body ps) s fun _ s' => s'.tree = lookedUpTo env (stops s.monitor) ps s.tree := by
  induction ps generalizing s with
  | nil => rfl
  | cons p ps ih =>
    simp only [forEach, ends_bind]
    refine Ends.mono (hbody p s) ?_
    rintro r s' ⟨htree, hnext⟩
    unfold lookedUpTo
    by_cases hstop : stops s.monitor s.tree p = true
    · rw [if_pos hstop] at hnext ⊢
      subst hnext
      exact htree
    · rw [if_neg hstop] at hnext ⊢
      obtain ⟨rfl, hsame⟩ := hnext
      rw [← htree, ← hstops _ _ hsame]
      exact ih s'

/-- The store of the metrics waits for `metrics_mutex_`. -/
def collectStops (mon : ResourceMonitor) (_ : Tree) (cgroupPath : String) : Bool :=
  match managerName cgroupPath with
  | .error _ => false
  | .ok _ => mon.metricsMutex.isSome

/-- A check waits for `alerts_mutex_`, which the thread holds itself when it raises an alert. -/
def checkStops (mon : ResourceMonitor) (tree : Tree) (cgroupPath : String) : Bool :=
  match managerName cgroupPath with
  | .error _ => false
  | .ok name =>
    let m := readMetrics metrics cgroupPath name tree
    mon.alertsMutex.isSome || (above (mon.cpuThresholds cgroupPath) m.cpuUsagePercent ||
      (above (mon.memoryThresholds cgroupPath) m.memoryUsagePercent || above (mon.ioThresholds cgroupPath) (totalIo m)))

theorem collectOne_ends (p : String) (s : MonitorState) :
    Ends (collectOne env metrics (.thread t) p) s (Look env collectStops p s) := by
  simp only [collectOne, ignoreErrors, ends_tryCatch, ends_bind, ends_getCurrentMetricsImpl]
  unfold Look collectStops metricsResult
  cases managerName p with
  | error e => exact ⟨rfl, rfl, rfl, rfl, rfl, rfl, rfl⟩
  | ok name =>
    rw [andThen_ok]
    cases hmutex : s.monitor.metricsMutex with
    | none =>
      rw [ends_lockGuard_free hmutex]
      exact ⟨rfl, rfl, rfl, rfl, rfl, hmutex.symm, rfl⟩
    | some o =>
      rw [ends_lockGuard_owned hmutex]
      exact ⟨rfl, rfl⟩

theorem checkAlert_ends {α : Type} [LT α] [DecidableLT α] (threshold : ResourceMonitor → String → Option α)
    (hthreshold : ∀ mon o, threshold { mon with alertsMutex := o } = threshold mon) (value : α) (alertType : String)
    (shown : Rat) (p : String) (s : MonitorState) :
    Ends (checkAlert (.thread t) threshold value alertType shown p) s fun r s' => s'.tree = s.tree ∧
      if s.monitor.alertsMutex.isSome || above (threshold s.monitor p) value then r = .blocked
      else r = .ok () ∧ s' = s := by
  cases hmutex : s.monitor.alertsMutex with
  | some o =>
    rw [checkAlert, ends_lockGuard_owned hmutex]
    exact ⟨rfl, rfl⟩
  | none =>
    rw [checkAlert, ends_lockGuard_free hmutex]
    simp only [ends_bind, ends_read, andThen_ok, alertsMutexOf, hthreshold, when, Option.isSome_none, Bool.false_or]
    by_cases habove : above (threshold s.monitor p) value = true
    · have howned : alertsMutexOf.owner { s with monitor := { s.monitor with alertsMutex := some t } } = some t := rfl
      simp only [habove, if_true, triggerAlert]
      rw [ends_lockGuard_owned howned]
      exact ⟨rfl, rfl⟩
    · have hback : ({ s with monitor := { s.monitor with alertsMutex := none } } : MonitorState) = s := by rw [← hmutex]
      simp only [habove, Bool.false_eq_true, if_false]
      exact ⟨rfl, rfl, hback⟩

/-- A check that stops the loop, or goes on to the rest. -/
theorem checkAlert_then {α : Type} [LT α] [DecidableLT α] (threshold : ResourceMonitor → String → Option α)
    (hthreshold : ∀ mon o, threshold { mon with alertsMutex := o } = threshold mon) (value : α) (alertType : String)
    (shown : Rat) (p : String) (s : MonitorState) {rest : Prog MonitorState MonitorError Unit} {stop : Bool}
    (hrest : Ends rest s fun r s' => s'.tree = s.tree ∧ if s.monitor.alertsMutex.isSome || stop then r = .blocked
      else r = .ok () ∧ s' = s) :
    Ends (checkAlert (.thread t) threshold value alertType shown p >>= fun _ => rest) s fun r s' => s'.tree = s.tree ∧
      if s.monitor.alertsMutex.isSome || (above (threshold s.monitor p) value || stop) then r = .blocked
      else r = .ok () ∧ s' = s := by
  rw [ends_bind]
  refine Ends.mono (checkAlert_ends t threshold hthreshold value alertType shown p s) ?_
  rintro r s' ⟨htree, hnext⟩
  by_cases hstop : (s.monitor.alertsMutex.isSome || above (threshold s.monitor p) value) = true
  · rw [if_pos hstop] at hnext
    subst hnext
    rw [← Bool.or_assoc, hstop]
    exact ⟨htree, rfl⟩
  · rw [if_neg hstop] at hnext
    obtain ⟨rfl, rfl⟩ := hnext
    rw [Bool.not_eq_true, Bool.or_eq_false_iff] at hstop
    rw [hstop.1] at hrest
    simp only [hstop.1, hstop.2, Bool.false_or]
    exact hrest

theorem checkOne_ends (p : String) (s : MonitorState) :
    Ends (checkOne env metrics (.thread t) p) s (Look env (checkStops metrics) p s) := by
  unfold checkOne ignoreErrors
  rw [ends_tryCatch, ends_bind, ends_getCurrentMetricsImpl]
  unfold Look checkStops metricsResult
  cases managerName p with
  | error e => exact ⟨rfl, rfl, rfl, rfl, rfl, rfl, rfl⟩
  | ok name =>
    rw [andThen_ok]
    have hio := checkAlert_ends t ioThresholds (fun _ _ => rfl)
      (totalIo (readMetrics metrics p name s.tree)) "io" (totalIo (readMetrics metrics p name s.tree)) p
      { s with tree := looked env p s.tree }
    have hmemory := checkAlert_then t memoryThresholds (fun _ _ => rfl)
      (readMetrics metrics p name s.tree).memoryUsagePercent "memory"
      (readMetrics metrics p name s.tree).memoryUsagePercent p _ hio
    have hcpu := checkAlert_then t cpuThresholds (fun _ _ => rfl)
      (readMetrics metrics p name s.tree).cpuUsagePercent "cpu"
      (readMetrics metrics p name s.tree).cpuUsagePercent p _ hmemory
    refine Ends.mono hcpu ?_
    rintro r s' ⟨htree, hnext⟩
    split at hnext
    · rename_i hstop
      subst hnext
      exact ⟨htree, by rw [if_pos hstop]⟩
    · rename_i hstop
      obtain ⟨rfl, rfl⟩ := hnext
      exact ⟨htree, by rw [if_neg hstop]; exact ⟨rfl, rfl, rfl, rfl, rfl, rfl⟩⟩

end

/-- The cgroups a call looks at. -/
def visited (metrics : Tree → String → Option ResourceMetrics) (s : MonitorState) : Observation → List String
  | .getCurrentMetrics p => [p]
  | .hasCpuAlert p => if s.monitor.alertsMutex = none ∧ s.monitor.cpuThresholds p ≠ none then [p] else []
  | .hasMemoryAlert p => if s.monitor.alertsMutex = none ∧ s.monitor.memoryThresholds p ≠ none then [p] else []
  | .hasIoAlert p => if s.monitor.alertsMutex = none ∧ s.monitor.ioThresholds p ≠ none then [p] else []
  | .collectMetrics =>
    if s.monitor.monitoringMutex = none then upTo (collectStops s.monitor s.tree) s.monitor.monitoredCgroups else []
  | .checkAlerts =>
    if s.monitor.monitoringMutex = none then upTo (checkStops metrics s.monitor s.tree) s.monitor.monitoredCgroups
    else []

theorem looked_eq_iff (hw : t.WellFormed) (p : String) : looked env p t = t ↔ Inert env t p := by
  constructor
  · intro heq
    by_contra hinert
    have hlt := burden_looked_lt hinert
    rw [heq] at hlt
    exact Nat.lt_irrefl _ hlt
  · exact looked_inert hw

theorem done_state {α : Type} (p : Prog MonitorState MonitorError α) (s : MonitorState) : (done p s).2 = (p s).2 := by
  show (Prog.bind p _ s).2 = _
  unfold Prog.bind
  rcases p s with ⟨r, s'⟩
  cases r <;> rfl

/-- The tree after `hasCpuAlert` and its like. -/
theorem hasAlert_tree {α : Type} [LT α] [DecidableLT α] (env : Env) (metrics : Tree → String → Option ResourceMetrics)
    (t : Tid) (threshold : ResourceMonitor → String → Option α)
    (hthreshold : ∀ mon o, threshold { mon with alertsMutex := o } = threshold mon) (value : ResourceMetrics → α)
    (p : String) (s : MonitorState) :
    (hasAlert env metrics (.thread t) threshold value p s).2.tree =
      if s.monitor.alertsMutex = none ∧ threshold s.monitor p ≠ none then looked env p s.tree else s.tree := by
  show Ends (hasAlert env metrics (.thread t) threshold value p) s fun _ s' => s'.tree = _
  unfold hasAlert
  cases hmutex : s.monitor.alertsMutex with
  | some o =>
    rw [ends_lockGuard_owned hmutex]
    simp
  | none =>
    rw [ends_lockGuard_free hmutex]
    simp only [ends_bind, ends_read, andThen_ok, alertsMutexOf, hthreshold]
    cases hlimit : threshold s.monitor p with
    | none => rfl
    | some limit =>
      simp only [ends_tryCatch, ends_bind, ends_getCurrentMetricsImpl]
      unfold metricsResult
      cases managerName p with
      | error e => rfl
      | ok name => rfl

/-- The tree after `collectMetrics` or `checkAlerts`. -/
theorem tick_tree {t : Tid} {stops : ResourceMonitor → Tree → String → Bool}
    {body : String → Prog MonitorState MonitorError Unit}
    (hstops : ∀ mon mon', SameChecks mon mon' → stops mon' = stops mon)
    (hbody : ∀ p s, Ends (body p) s (Look env stops p s)) (s : MonitorState) :
    Ends (lockGuard (.thread t) monitoringMutexOf do
      forEach body (← Prog.read fun s => s.monitor.monitoredCgroups)) s fun _ s' =>
        s'.tree = if s.monitor.monitoringMutex = none then
          lookedUpTo env (stops s.monitor) s.monitor.monitoredCgroups s.tree else s.tree := by
  cases hmutex : s.monitor.monitoringMutex with
  | some o =>
    rw [ends_lockGuard_owned hmutex]
    rfl
  | none =>
    rw [ends_lockGuard_free hmutex, if_pos rfl, ends_bind, ends_read, andThen_ok]
    refine Ends.mono (loop_ends env hstops hbody _ _) ?_
    intro r s' htree
    have hsame : stops { s.monitor with monitoringMutex := some t } = stops s.monitor :=
      hstops _ _ ⟨rfl, rfl, rfl, rfl, rfl⟩
    have htree' : s'.tree = lookedUpTo env (stops s.monitor) s.monitor.monitoredCgroups s.tree := hsame ▸ htree
    cases r with
    | ok _ => exact htree'
    | thrown e => exact htree'
    | blocked => exact htree'

theorem collectStops_congr (mon mon' : ResourceMonitor) (h : SameChecks mon mon') :
    collectStops mon' = collectStops mon := by
  funext tree p
  unfold collectStops
  rw [h.metricsMutex]

theorem checkStops_congr (metrics : Tree → String → Option ResourceMetrics) (mon mon' : ResourceMonitor)
    (h : SameChecks mon mon') : checkStops metrics mon' = checkStops metrics mon := by
  funext tree p
  unfold checkStops
  rw [h.cpu, h.memory, h.io, h.alertsMutex]

theorem if_looked_eq_iff (hw : t.WellFormed) (c : Prop) [Decidable c] (p : String) :
    (if c then looked env p t else t) = t ↔ ∀ p' ∈ (if c then [p] else []), Inert env t p' := by
  by_cases hc : c
  · simp [hc, looked_eq_iff hw]
  · simp [hc]

theorem if_lookedUpTo_eq_iff (hw : t.WellFormed) (c : Prop) [Decidable c]
    (stops : Tree → String → Bool) (ps : List String) :
    (if c then lookedUpTo env stops ps t else t) = t ↔ ∀ p ∈ (if c then upTo (stops t) ps else []), Inert env t p := by
  by_cases hc : c
  · simp [hc, lookedUpTo_eq_iff hw]
  · simp [hc]

/-- A call leaves the tree as it is exactly when each cgroup it looks at is left alone by
    the destructor of the temporary manager. -/
theorem observation_unchanged_iff (env : Env) (metrics : Tree → String → Option ResourceMetrics) (t : Tid)
    (o : Observation) (s : MonitorState) (hw : s.tree.WellFormed) :
    (observe env metrics (.thread t) o s).2.tree = s.tree ↔ ∀ p ∈ visited metrics s o, Inert env s.tree p := by
  cases o with
  | getCurrentMetrics p =>
    simp only [observe, done_state, getCurrentMetrics, getCurrentMetricsImpl_eq, visited, looked_eq_iff hw,
      List.mem_singleton, forall_eq]
  | hasCpuAlert p =>
    simp only [observe, done_state, hasCpuAlert, visited]
    rw [hasAlert_tree env metrics t cpuThresholds (fun _ _ => rfl), if_looked_eq_iff hw]
  | hasMemoryAlert p =>
    simp only [observe, done_state, hasMemoryAlert, visited]
    rw [hasAlert_tree env metrics t memoryThresholds (fun _ _ => rfl), if_looked_eq_iff hw]
  | hasIoAlert p =>
    simp only [observe, done_state, hasIoAlert, visited]
    rw [hasAlert_tree env metrics t ioThresholds (fun _ _ => rfl), if_looked_eq_iff hw]
  | collectMetrics =>
    have htree := tick_tree (t := t) collectStops_congr (collectOne_ends env metrics t) s
    unfold Ends at htree
    simp only [observe, collectMetrics, visited]
    rw [htree, if_lookedUpTo_eq_iff hw]
  | checkAlerts =>
    have htree := tick_tree (t := t) (checkStops_congr metrics) (checkOne_ends env metrics t) s
    unfold Ends at htree
    simp only [observe, checkAlerts, visited]
    rw [htree, if_lookedUpTo_eq_iff hw]

/-- A cgroup file system with one cgroup in it, of one process. -/
def oneCgroup : Tree :=
  { dirs := [(["sys"], {}), (["sys", "fs"], {}), (["sys", "fs", "cgroup"], { procs := [1] }),
      (["sys", "fs", "cgroup", "web"], { files := [("cpu.max", "max 100000")], procs := [42] })] }

/-- A look at the cgroup moves its process to the root cgroup; where directories can be
    removed it removes the cgroup, and a look at any other path the cgroup `temp_monitor`. -/
theorem a_look_destroys_the_cgroup :
    let looking := fun (t : Tree) p =>
      (observe willing (fun _ _ => none) (.thread 1) (.getCurrentMetrics p) ⟨{}, t⟩).2.tree
    (looking oneCgroup "/sys/fs/cgroup/web").members ["sys", "fs", "cgroup"] = [1, 42] ∧
      (looking oneCgroup "/sys/fs/cgroup/web").members ["sys", "fs", "cgroup", "web"] = [] ∧
      (looking { oneCgroup with pinned := false } "/sys/fs/cgroup/web").isDirectory "/sys/fs/cgroup/web" = false ∧
      (looking
        { oneCgroup with
          dirs := oneCgroup.dirs ++ [(["sys", "fs", "cgroup", "temp_monitor"], {})], pinned := false }
        "/proc").isDirectory "/sys/fs/cgroup/temp_monitor" = false := by
  decide +kernel

theorem oneCgroup_wellFormed : oneCgroup.WellFormed := ⟨by decide, by decide⟩

theorem observation_unchanged_iff_one_cgroup :
    oneCgroup.WellFormed ∧
      ((observe willing (fun _ _ => none) (.thread 1) (.getCurrentMetrics "/sys/fs/cgroup/db") ⟨{}, oneCgroup⟩).2.tree =
        oneCgroup ↔ ∀ p ∈ visited (fun _ _ => none) ⟨{}, oneCgroup⟩ (.getCurrentMetrics "/sys/fs/cgroup/db"),
          Inert willing oneCgroup p) :=
  ⟨oneCgroup_wellFormed, observation_unchanged_iff willing (fun _ _ => none) 1 (.getCurrentMetrics "/sys/fs/cgroup/db")
    ⟨{}, oneCgroup⟩ oneCgroup_wellFormed⟩

end ResourceMonitor

end DockerCpp.Cgroup
