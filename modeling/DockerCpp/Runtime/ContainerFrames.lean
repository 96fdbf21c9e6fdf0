/-
  DockerCpp.Runtime.ContainerFrames — what each function of a container may change.

  Whatever the system answers: waiting for the process changes only the recorded exit,
  the namespace and cgroup setup only their own field and never throw, clean-up always
  empties the three resources, and a launch either leaves a positive pid and a process
  manager or throws, with the rest of the container as it was (`Launched`). From these
  follows what a transition may leave (`Moved`, `enterState_moved`): everything later
  proofs use about a transition.
-/

import DockerCpp.Runtime.Container

namespace DockerCpp.Runtime

open Lib Lib.Prog

/-- Nothing is promised about the state, only that the program does not block. -/
def Anything {S : Type} (_ _ : S) : Prop := True

instance {S : Type} : Frame (Anything (S := S)) := ⟨fun _ => trivial, fun _ _ => trivial⟩

namespace ProcessManager

variable {σ : Type} (os : Os σ)

theorem sys_returns {α : Type} (f : σ → α × σ) : Returns Anything (sys f : Prog (Pm σ) Error α) :=
  returns_call fun _ => trivial

theorem sleepMs_returns (ms : Nat) : Returns Anything (sleepMs os ms) := returns_modify fun _ => trivial

theorem modify_returns (f : Pm σ → Pm σ) : Returns Anything (modify f : Prog (Pm σ) Error Unit) :=
  returns_modify fun _ => trivial

theorem createProcess_within (config : ProcessConfig) : Within Anything (createProcess os config) := by
  unfold createProcess
  refine within_bind (sys_returns _).within fun r => ?_
  cases r with
  | some text => exact within_throw _
  | none =>
    refine within_bind (sys_returns _).within fun r => ?_
    cases r with
    | error text => exact within_throw _
    | ok pid =>
      refine within_bind (sleepMs_returns os 10).within fun _ => within_bind (sys_returns _).within fun r => ?_
      cases r with
      | childError text => exact within_bind (sys_returns _).within fun _ => within_throw _
      | failed text => exact within_bind (sys_returns _).within fun _ => within_throw _
      | nothing =>
        exact within_bind (sys_returns _).within fun _ =>
          within_bind (modify_returns _).within fun _ => (returns_pure _).within

/-- Looking at a process changes only the system. -/
def SameManager (s s' : Pm σ) : Prop := s'.mgr = s.mgr

instance : Frame (SameManager (σ := σ)) := ⟨fun _ => rfl, fun h h' => h'.trans h⟩

theorem determineProcessStatus_sameManager (pid : Int) : Returns SameManager (determineProcessStatus os pid) := by
  have hsys : ∀ {α : Type} (f : σ → α × σ), Returns SameManager (sys f : Prog (Pm σ) Error α) :=
    fun f => returns_call fun _ => rfl
  unfold determineProcessStatus
  refine returns_bind (hsys _) fun _ => returns_ite ?_ (returns_pure _)
  refine returns_bind (hsys _) fun _ => returns_ite (returns_pure _) ?_
  exact returns_ite (returns_pure _) (returns_pure _)

theorem getProcessInfo_sameManager (pid : Int) : Within SameManager (getProcessInfo os pid) := by
  refine within_bind (returns_read _).within fun r => ?_
  cases r with
  | none => exact within_throw _
  | some info =>
    exact within_bind (determineProcessStatus_sameManager os pid).within fun _ => (returns_pure _).within

theorem determineProcessStatus_returns (pid : Int) : Returns Anything (determineProcessStatus os pid) :=
  (determineProcessStatus_sameManager os pid).weaken fun _ _ _ => trivial

theorem isProcessRunning_returns (pid : Int) : Returns Anything (isProcessRunning os pid) :=
  returns_bind (determineProcessStatus_returns os pid) fun _ => returns_pure _

theorem updateProcessStatus_returns (pid : Int) : Returns Anything (updateProcessStatus os pid) := by
  unfold updateProcessStatus
  refine returns_bind (determineProcessStatus_returns os pid) fun st => returns_bind (returns_read _) fun r => ?_
  cases r with
  | none => exact returns_pure _
  | some info =>
    refine returns_bind (modify_returns _) fun _ => returns_ite ?_ (returns_pure _)
    refine returns_bind (sys_returns _) fun _ => returns_bind (modify_returns _) fun _ => ?_
    refine returns_bind (sys_returns _) fun _ => ?_
    exact returns_ite (returns_bind (modify_returns _) fun _ => modify_returns _) (modify_returns _)

theorem killProcess_within (pid sig : Int) : Within Anything (killProcess os pid sig) := by
  unfold killProcess
  refine within_bind (returns_read _).within fun _ => within_ite (within_throw _) ?_
  refine within_bind (sys_returns _).within fun _ => within_ite ?_ (within_throw _)
  exact (updateProcessStatus_returns os pid).within

theorem stopWait_within (pid : Int) (start timeout : Nat) :
    ∀ sleeps, Within Anything (stopWait os pid start timeout sleeps) := by
  intro sleeps
  have hkill : Within Anything (do killProcess os pid sigkill; pure false) :=
    within_bind (killProcess_within os pid sigkill) fun _ => (returns_pure _).within
  have hdone : Within Anything (do updateProcessStatus os pid; pure true) :=
    within_bind (updateProcessStatus_returns os pid).within fun _ => (returns_pure _).within
  induction sleeps with
  | zero =>
    unfold stopWait
    refine within_bind (isProcessRunning_returns os pid).within fun _ => within_ite ?_ hdone
    exact within_bind (sys_returns _).within fun _ => hkill
  | succ sleeps ih =>
    unfold stopWait
    refine within_bind (isProcessRunning_returns os pid).within fun _ => within_ite ?_ hdone
    refine within_bind (sys_returns _).within fun _ => within_ite hkill ?_
    exact within_bind (sleepMs_returns os 100).within fun _ => ih

theorem stopProcess_within (pid : Int) (timeout : Nat) : Within Anything (stopProcess os pid timeout) := by
  unfold stopProcess
  refine within_bind (returns_read _).within fun _ => within_ite (within_throw _) ?_
  refine within_bind (isProcessRunning_returns os pid).within fun _ => within_ite (returns_pure _).within ?_
  refine within_bind (sys_returns _).within fun _ => within_ite ?_ (within_throw _)
  exact within_bind (sys_returns _).within fun _ => stopWait_within os pid _ timeout _

theorem destroyProcess_returns (pid : Int) : Returns Anything (destroyProcess os pid) := by
  unfold destroyProcess
  refine returns_bind (isProcessRunning_returns os pid) fun _ => returns_ite ?_ (returns_pure _)
  refine returns_bind (sys_returns _) fun _ => returns_bind (sleepMs_returns os 100) fun _ => ?_
  refine returns_bind (isProcessRunning_returns os pid) fun _ => returns_ite ?_ (returns_pure _)
  exact returns_bind (sys_returns _) fun _ => returns_pure _

theorem destroy_returns : Returns Anything (destroy os) := by
  have hall : ∀ l : List ProcessInfo, Returns Anything (destroyAll os l) := by
    intro l
    induction l with
    | nil => exact returns_pure _
    | cons info rest ih => exact returns_bind (destroyProcess_returns os info.pid) fun _ => ih
  exact returns_bind (returns_read _) fun _ => returns_bind (hall _) fun _ => modify_returns _

end ProcessManager

namespace Container

variable {σ : Type} (os : Os σ) (k : Locking)

/-- A frame of the container, as one of the world: nothing else but the system moves. -/
def Touches (R : Container → Container → Prop) (w w' : World σ) : Prop := w'.listener = w.listener ∧ R w.c w'.c

instance {R : Container → Container → Prop} [Frame R] : Frame (Touches (σ := σ) R) :=
  ⟨fun w => ⟨rfl, Frame.refl w.c⟩, fun h h' => ⟨h'.1.trans h.1, Frame.trans h.2 h'.2⟩⟩

/-- The world after a call, when the container and the listener are known. -/
theorem world_eq {w : World σ} {c : Container} {l : Listener} (hl : w.listener = l) (hc : w.c = c) :
    ∃ o, w = ⟨c, o, l⟩ := by
  obtain ⟨c', o, l'⟩ := w
  subst hl hc
  exact ⟨o, rfl⟩

/-- Only the recorded exit. -/
def ExitOnly (c c' : Container) : Prop := ∃ code reason, c' = { c with exitCode := code, exitReason := reason }

instance : Frame ExitOnly :=
  ⟨fun c => ⟨c.exitCode, c.exitReason, rfl⟩, by rintro c _ _ ⟨_, _, rfl⟩ ⟨x, y, rfl⟩; exact ⟨x, y, rfl⟩⟩

def NamespacesOnly (c c' : Container) : Prop := ∃ ns, c' = { c with namespaceManagers := ns }

instance : Frame NamespacesOnly :=
  ⟨fun c => ⟨c.namespaceManagers, rfl⟩, by rintro c _ _ ⟨_, rfl⟩ ⟨x, rfl⟩; exact ⟨x, rfl⟩⟩

def CgroupOnly (c c' : Container) : Prop := ∃ g, c' = { c with cgroupManager := g }

instance : Frame CgroupOnly :=
  ⟨fun c => ⟨c.cgroupManager, rfl⟩, by rintro c _ _ ⟨_, rfl⟩ ⟨x, rfl⟩; exact ⟨x, rfl⟩⟩

variable {R : Container → Container → Prop}

theorem sys_returns {α : Type} [Frame R] (f : σ → α × σ) :
    Returns (Touches R) (sys f : Prog (World σ) Error α) := returns_call fun w => ⟨rfl, Frame.refl w.c⟩

theorem sleep_returns [Frame R] (f : σ → σ) :
    Returns (Touches R) (modify fun w => { w with os := f w.os } : Prog (World σ) Error Unit) :=
  returns_modify fun w => ⟨rfl, Frame.refl w.c⟩

theorem readC_returns {α : Type} [Frame R] (f : Container → α) :
    Returns (Touches R) (readC f : Prog (World σ) Error α) := returns_read _

theorem modifyC_returns {f : Container → Container} (h : ∀ c, R c (f c)) :
    Returns (Touches R) (modifyC f : Prog (World σ) Error Unit) := returns_modify fun w => ⟨rfl, h w.c⟩

theorem ignoreErrors_returns [Frame R] {p : Prog (World σ) Error Unit}
    (h : Within (Touches R) p) : Returns (Touches R) (ignoreErrors p) :=
  returns_tryCatch h fun _ => returns_pure _

theorem cgroupCall_within (g : CgroupConfig) (f : CgroupCall) : Within (Touches Eq) (cgroupCall os g f) := by
  refine within_bind (sys_returns _).within fun r => ?_
  cases r with
  | some text => exact within_throw _
  | none => exact (returns_pure _).within

theorem cgroupCall_ignored (g : CgroupConfig) (f : CgroupCall) :
    Returns (Touches Eq) (ignoreErrors (cgroupCall os g f)) := ignoreErrors_returns (cgroupCall_within os g f)

/-! ## Processes -/

theorem isProcessRunning_returns : Returns (Touches Eq) (isProcessRunning os) :=
  returns_bind (readC_returns _) fun _ => returns_ite (returns_pure _) (sys_returns _)

theorem killMain_returns (sig : Int) : Returns (Touches Eq) (killMain os sig) :=
  returns_bind (readC_returns _) fun _ =>
    returns_ite (returns_bind (sys_returns _) fun _ => returns_pure _) (returns_pure _)

theorem stopWait_returns : ∀ seconds, Returns (Touches Eq) (stopWait os seconds) := by
  intro seconds
  induction seconds with
  | zero => exact returns_bind (isProcessRunning_returns os) fun _ => returns_pure _
  | succ seconds ih =>
    exact returns_bind (isProcessRunning_returns os) fun _ =>
      returns_ite (returns_bind (sleep_returns _) fun _ => ih) (returns_pure _)

theorem recordExit_exitOnly (st : WaitStatus) (c : Container) : ExitOnly c (recordExit c st) := by
  cases st with
  | exited code => exact ⟨code, c.exitReason, rfl⟩
  | signaled sig => exact ⟨_, _, rfl⟩
  | other => exact Frame.refl c

theorem waitForProcessExit_returns (timeout : Nat) : Returns (Touches ExitOnly) (waitForProcessExit os timeout) := by
  have record : ∀ st, Returns (Touches ExitOnly) (modifyC fun c => recordExit c st : Prog (World σ) Error Unit) :=
    fun st => modifyC_returns (recordExit_exitOnly st)
  refine returns_bind (readC_returns _) fun _ => returns_ite ?_ (returns_pure _)
  refine returns_bind (sys_returns _) fun _ => returns_ite ?_ (returns_ite (record _) (returns_pure _))
  refine returns_bind (sleep_returns _) fun _ => returns_bind (sys_returns _) fun _ => ?_
  exact returns_ite (record _) (returns_pure _)

/-- A launch that went through: a manager and a positive pid, all else as before. -/
def Launched (c c' : Container) : Prop :=
  ∃ m pid, 0 < pid ∧ c' = { c with processManager := some m, mainPid := pid }

/-- A launch that did not: a manager, and maybe the new process's pid and exit code. -/
def LaunchFailed (c c' : Container) : Prop :=
  ∃ m pid code, c' = { c with processManager := some m, mainPid := pid, exitCode := code }

theorem destroyManager_returns (o : Option ProcessManager) : Returns (Touches Eq) (destroyManager os o) := by
  cases o with
  | some m => exact returns_zoom (ProcessManager.destroy_returns os) fun _ _ _ => ⟨rfl, rfl⟩
  | none => exact returns_pure _

theorem launchProcess_ends (w : World σ) : Ends (launchProcess os) w fun r w' => w'.listener = w.listener ∧
    match r with
    | .ok _ => Launched w.c w'.c
    | .thrown _ => LaunchFailed w.c w'.c
    | .blocked => False := by
  simp only [launchProcess, self, modifyC, ends_bind, ends_read, ends_modify, andThen_ok]
  refine Ends.mono (destroyManager_returns os _ _) ?_
  intro r w' hpost
  obtain ⟨⟨_, rfl⟩, hl1, hc1⟩ := hpost
  obtain ⟨os1, rfl⟩ := world_eq hl1 hc1.symm
  simp only [andThen_ok, ends_bind, onProcessManager, ends_zoom]
  refine Ends.mono (ProcessManager.createProcess_within os _ _) ?_
  intro r pm hpost
  obtain ⟨hb, -⟩ := hpost
  cases r with
  | ok pid =>
    simp only [andThen_ok]
    split
    · exact ⟨rfl, pm.mgr, w.c.mainPid, w.c.exitCode, rfl⟩
    · rename_i hpid
      simp only [ends_bind, ends_modify, andThen_ok]
      split
      · refine Ends.mono (cgroupCall_ignored os _ _ _) ?_
        intro r w' hpost
        obtain ⟨⟨_, rfl⟩, hl2, hc2⟩ := hpost
        obtain ⟨os2, rfl⟩ := world_eq hl2 hc2.symm
        exact ⟨rfl, pm.mgr, pid, by omega, rfl⟩
      · exact ⟨rfl, pm.mgr, pid, by omega, rfl⟩
  | thrown e => exact ⟨rfl, pm.mgr, w.c.mainPid, w.c.exitCode, rfl⟩
  | blocked => exact absurd rfl hb

theorem startProcess_ends (w : World σ) : Ends (startProcess os) w fun r w' => w'.listener = w.listener ∧
    match r with
    | .ok _ => Launched w.c w'.c
    | .thrown _ => LaunchFailed w.c w'.c
    | .blocked => False := by
  simp only [startProcess, ends_bind, ends_tryCatch]
  refine Ends.mono (launchProcess_ends os w) ?_
  intro r w hpost
  obtain ⟨c1, os1, l1⟩ := w
  obtain ⟨hl1, h1⟩ := hpost
  dsimp only at hl1 h1
  subst hl1
  cases r with
  | ok _ =>
    simp only [orElse_ok, andThen_ok, ends_bind, ends_modify]
    refine Ends.mono (isProcessRunning_returns os _) ?_
    intro r w' hpost
    obtain ⟨⟨b, rfl⟩, hl2, hc2⟩ := hpost
    obtain ⟨os2, rfl⟩ := world_eq hl2 hc2.symm
    simp only [andThen_ok]
    split
    · exact ⟨rfl, h1⟩
    · obtain ⟨m, pid, -, rfl⟩ := h1
      simp only [ends_bind, readC, sys, modifyC, ends_read, ends_call, ends_modify, andThen_ok, ends_throw]
      cases (os.waitpid pid false os2).1.2 with
      | exited code => exact ⟨trivial, m, pid, code, rfl⟩
      | signaled sig => exact ⟨trivial, m, pid, _, rfl⟩
      | other => exact ⟨trivial, m, pid, _, rfl⟩
  | thrown e => exact ⟨rfl, h1⟩
  | blocked => exact h1.elim

/-! ## Namespaces, cgroups and clean-up -/

theorem addNamespace_within (type : NamespaceType) : Within (Touches NamespacesOnly) (addNamespace os type) := by
  refine within_bind (sys_returns _).within fun r => ?_
  cases r with
  | some text => exact within_throw _
  | none =>
    refine within_ite (modifyC_returns fun c => ?_).within (returns_pure _).within
    exact ⟨_, rfl⟩

theorem setupNamespaces_returns : Returns (Touches NamespacesOnly) (setupNamespaces os) :=
  ignoreErrors_returns (within_bind (addNamespace_within os _) fun _ => within_bind (addNamespace_within os _) fun _ =>
    within_bind (addNamespace_within os _) fun _ => within_bind (addNamespace_within os _) fun _ =>
    within_bind (addNamespace_within os _) fun _ => (ignoreErrors_returns (addNamespace_within os _)).within)

theorem setCgroupManager_ends (g : Option CgroupConfig) (w : World σ) : Ends (setCgroupManager os g) w fun r w' =>
    r = .ok () ∧ w'.listener = w.listener ∧ w'.c = { w.c with cgroupManager := g } := by
  simp only [setCgroupManager, readC, modifyC, ends_bind, ends_read, ends_modify, andThen_ok]
  split
  · refine Ends.mono (cgroupCall_ignored os _ _ _) ?_
    intro r w' hpost
    obtain ⟨⟨_, rfl⟩, hl, hc⟩ := hpost
    exact ⟨rfl, hl, hc.symm⟩
  · exact ⟨rfl, rfl, rfl⟩

theorem cgroupCall_cgroupOnly (g : CgroupConfig) (f : CgroupCall) : Within (Touches CgroupOnly) (cgroupCall os g f) :=
  (cgroupCall_within os g f).weaken fun w _ h => ⟨h.1, w.c.cgroupManager, h.2 ▸ rfl⟩

theorem setupCgroups_returns : Returns (Touches CgroupOnly) (setupCgroups os) := by
  have hcall : ∀ g f, Within (Touches CgroupOnly) (cgroupCall os g f) := cgroupCall_cgroupOnly os
  refine ignoreErrors_returns (within_bind (returns_read _).within fun c => ?_)
  refine within_bind (fun w => ?_) fun _ => ?_
  · refine Ends.mono (setCgroupManager_ends os _ w) ?_
    intro r w' hpost
    obtain ⟨rfl, hl, hc⟩ := hpost
    exact ⟨by simp, hl, _, hc⟩
  · refine within_bind (hcall _ _) fun _ => ?_
    refine within_bind (within_when (within_bind (hcall _ _) fun _ => hcall _ _)) fun _ => ?_
    refine within_bind (within_when (within_bind (hcall _ _) fun _ => hcall _ _)) fun _ => ?_
    exact within_when (hcall _ _)

theorem cleanupProcessManager_ends (w : World σ) : Ends (cleanupProcessManager os) w fun r w' =>
    r = .ok () ∧ w'.listener = w.listener ∧ w'.c = { w.c with processManager := none } := by
  simp only [cleanupProcessManager, readC, ends_bind, ends_read, andThen_ok]
  split
  · rename_i m hm
    simp only [ends_bind, ends_read, andThen_ok, ignoreErrors, ends_tryCatch, onProcessManager, ends_zoom]
    refine Ends.mono (ProcessManager.stopProcess_within os _ _ _) ?_
    intro r pm hpost
    obtain ⟨hb, -⟩ := hpost
    have rest : ∀ m' os', Ends (do
          let m' ← read fun w : World σ => w.c.processManager
          modifyC fun c => { c with processManager := none }
          destroyManager os m') { w with c := { w.c with processManager := some m' }, os := os' } fun r w' =>
        r = .ok () ∧ w'.listener = w.listener ∧ w'.c = { w.c with processManager := none } := by
      intro m' os'
      simp only [modifyC, ends_bind, ends_read, ends_modify, andThen_ok]
      refine Ends.mono (destroyManager_returns os _ _) ?_
      intro r w' hpost
      obtain ⟨⟨_, rfl⟩, hl, hc⟩ := hpost
      exact ⟨rfl, hl, hc.symm⟩
    cases r with
    | ok _ => exact rest pm.mgr pm.os
    | thrown e => exact rest pm.mgr pm.os
    | blocked => exact absurd rfl hb
  · rename_i hm
    refine ⟨rfl, rfl, ?_⟩
    show w.c = _
    rw [← hm]

theorem cleanupCgroup_ends (w : World σ) : Ends (cleanupCgroup os) w fun r w' =>
    r = .ok () ∧ w'.listener = w.listener ∧ w'.c = { w.c with cgroupManager := none } := by
  simp only [cleanupCgroup, readC, ends_bind, ends_read, andThen_ok]
  split
  · simp only [ends_bind]
    refine Ends.mono (cgroupCall_ignored os _ _ _) ?_
    intro r w' hpost
    obtain ⟨⟨_, rfl⟩, hl, hc⟩ := hpost
    obtain ⟨os1, rfl⟩ := world_eq hl hc.symm
    exact setCgroupManager_ends os none _
  · rename_i hg
    refine ⟨rfl, rfl, ?_⟩
    show w.c = _
    rw [← hg]

/-- Clean-up always returns and empties the three resources. -/
theorem cleanupResources_ends (w : World σ) : Ends (cleanupResources os) w fun r w' =>
    r = .ok () ∧ w'.listener = w.listener ∧
      w'.c = { w.c with processManager := none, cgroupManager := none, namespaceManagers := [] } := by
  simp only [cleanupResources, ends_bind]
  refine Ends.mono (cleanupProcessManager_ends os w) ?_
  intro r w1 hpost
  obtain ⟨rfl, hl1, hc1⟩ := hpost
  simp only [andThen_ok, ends_bind]
  refine Ends.mono (cleanupCgroup_ends os w1) ?_
  intro r w2 hpost
  obtain ⟨rfl, hl2, hc2⟩ := hpost
  simp only [andThen_ok, modifyC, ends_modify]
  exact ⟨trivial, hl2.trans hl1, by rw [hc2, hc1]⟩

/-! ## Transitions -/

/-- `onStateExited`: leaving RUNNING stops the monitoring. -/
def exited (c : Container) : Container := if c.state = .running then { c with monitoringActive := false } else c

/-- What the transition of `c` to a state may leave, by how it ended. -/
inductive Moved (c : Container) : ContainerState → Res Error Unit → Container → Prop
  | created (now : Int) : Moved c .created (.ok ()) { exited c with state := .created, createdAt := now }
  | starting {ns : List NamespaceManager} {g : Option CgroupConfig} {m : ProcessManager} {pid : Int} : 0 < pid →
      Moved c .starting (.ok ()) { exited c with
        state := .starting, namespaceManagers := ns, cgroupManager := g, processManager := some m, mainPid := pid }
  /-- The launch threw: the state is not stored. -/
  | startFailed {e : Error} {ns : List NamespaceManager} {g : Option CgroupConfig} {m : ProcessManager} {pid code : Int} :
      Moved c .starting (.thrown e) { exited c with
        namespaceManagers := ns, cgroupManager := g, processManager := some m, mainPid := pid, exitCode := code }
  | running (now : Int) :
      Moved c .running (.ok ()) { exited c with state := .running, startedAt := now, monitoringActive := true }
  | paused : Moved c .paused (.ok ()) { exited c with state := .paused }
  | stopping (code : Int) (reason : String) :
      Moved c .stopping (.ok ()) { exited c with state := .stopping, exitCode := code, exitReason := reason }
  | stopped (now : Int) : Moved c .stopped (.ok ()) { exited c with state := .stopped, finishedAt := now }
  | removing : Moved c .removing (.ok ()) { exited c with
      state := .removing, processManager := none, cgroupManager := none, namespaceManagers := [] }
  | removed : Moved c .removed (.ok ()) { exited c with state := .removed, removed := true }
  | dead (now : Int) : Moved c .dead (.ok ()) { exited c with
      state := .dead, finishedAt := now, exitReason := "Container died unexpectedly", monitoringActive := false }
  | restarting (code : Int) (reason : String) :
      Moved c .restarting (.ok ()) { exited c with state := .restarting, exitCode := code, exitReason := reason }
  | error (now : Int) :
      Moved c .error (.ok ()) { exited c with state := .error, finishedAt := now, monitoringActive := false }

theorem onStateExited_ends (w : World σ) : Ends (onStateExited w.c.state) w fun r w' =>
    r = .ok () ∧ w'.listener = w.listener ∧ w'.c = exited w.c := by
  unfold exited
  split
  · rename_i h
    have : (onStateExited w.c.state : Prog (World σ) Error Unit) = stopMonitoring := by rw [h]; rfl
    rw [this]
    exact ⟨rfl, rfl, rfl⟩
  · rename_i h
    have : (onStateExited w.c.state : Prog (World σ) Error Unit) = pure () := by
      revert h
      cases w.c.state <;> simp [onStateExited]
    rw [this]
    exact ⟨rfl, rfl, rfl⟩

/-! ## Statistics -/

theorem probeProcess_returns : Returns (Touches Eq) (probeProcess os) := by
  intro w
  simp only [probeProcess, self, ends_bind, ends_read, andThen_ok]
  split
  · rename_i m hm
    simp only [ignoreErrors, ends_tryCatch, ends_bind, onProcessManager, ends_zoom]
    refine Ends.mono (ProcessManager.getProcessInfo_sameManager os w.c.mainPid ⟨m, w.os⟩) ?_
    intro r pm hpost
    obtain ⟨hb, hmgr⟩ := hpost
    have same : w.c = { w.c with processManager := some pm.mgr } := by rw [hmgr, ← hm]
    cases r with
    | ok _ => exact ⟨⟨(), rfl⟩, rfl, same⟩
    | thrown e => exact ⟨⟨(), rfl⟩, rfl, same⟩
    | blocked => exact absurd rfl hb
  · exact ⟨⟨(), rfl⟩, rfl, rfl⟩

theorem getStats_returns : Returns (Touches Eq) (getStats os) := by
  refine returns_bind (sys_returns _) fun now => returns_bind (readC_returns _) fun g => ?_
  cases g with
  | none => exact returns_bind (probeProcess_returns os) fun _ => returns_pure _
  | some g =>
    refine returns_bind (sys_returns _) fun r => ?_
    cases r with
    | error _ => exact returns_pure _
    | ok m => exact returns_bind (probeProcess_returns os) fun _ => returns_pure _

/-! ## Entering a state -/

/-- The whole of a transition but its callback, from the state before. -/
theorem enterState_moved (new : ContainerState) (w : World σ) :
    Ends (enterState os w.c.state new) w fun r w' => w'.listener = w.listener ∧ Moved w.c new r w'.c := by
  simp only [enterState, ends_bind]
  refine Ends.mono (onStateExited_ends w) ?_
  intro r w' hpost
  obtain ⟨rfl, hl0, hc0⟩ := hpost
  obtain ⟨os0, rfl⟩ := world_eq hl0 hc0
  simp only [andThen_ok, ends_bind]
  have wait : ∀ t, Ends (waitForProcessExit os t) ⟨exited w.c, os0, w.listener⟩ fun r w' => r = .ok () ∧
      w'.listener = w.listener ∧ ∃ code reason, w'.c = { exited w.c with exitCode := code, exitReason := reason } := by
    intro t
    refine Ends.mono (waitForProcessExit_returns os t _) ?_
    intro r w' hpost
    obtain ⟨⟨_, rfl⟩, hl, hc⟩ := hpost
    exact ⟨rfl, hl, hc⟩
  cases new with
  | created => exact ⟨rfl, .created _⟩
  | starting =>
    simp only [executeStateTransition, ends_bind]
    refine Ends.mono (setupNamespaces_returns os _) ?_
    intro r w' hpost
    obtain ⟨⟨_, rfl⟩, hl1, ns, hc1⟩ := hpost
    obtain ⟨os1, rfl⟩ := world_eq hl1 hc1
    simp only [andThen_ok, ends_bind]
    refine Ends.mono (setupCgroups_returns os _) ?_
    intro r w' hpost
    obtain ⟨⟨_, rfl⟩, hl2, g, hc2⟩ := hpost
    obtain ⟨os2, rfl⟩ := world_eq hl2 hc2
    simp only [andThen_ok]
    refine Ends.mono (startProcess_ends os _) ?_
    intro r w hpost
    obtain ⟨c3, os3, l3⟩ := w
    obtain ⟨hl3, h3⟩ := hpost
    dsimp only at hl3 h3
    subst hl3
    cases r with
    | ok _ =>
      obtain ⟨m, pid, hpid, rfl⟩ := h3
      exact ⟨rfl, .starting hpid⟩
    | thrown e =>
      obtain ⟨m, pid, code, rfl⟩ := h3
      exact ⟨rfl, .startFailed⟩
    | blocked => exact h3.elim
  | running =>
    simp only [executeStateTransition, ends_pure, andThen_ok, modifyC, ends_bind, ends_modify, onStateEntered, sys,
      ends_call, startMonitoring, readC, ends_read]
    split
    · rename_i hm
      refine ⟨rfl, ?_⟩
      have h := Moved.running (c := w.c) (os.systemNow os0).1
      rwa [show ({ exited w.c with state := .running, startedAt := (os.systemNow os0).1, monitoringActive := true } :
        Container) = { exited w.c with state := .running, startedAt := (os.systemNow os0).1 } by
          rw [← hm]] at h
    · exact ⟨rfl, .running _⟩
  | paused => exact ⟨rfl, .paused⟩
  | stopping =>
    refine Ends.mono (wait 10) ?_
    intro r w' hpost
    obtain ⟨rfl, hl1, code, reason, hc1⟩ := hpost
    obtain ⟨os1, rfl⟩ := world_eq hl1 hc1
    exact ⟨rfl, .stopping code reason⟩
  | stopped => exact ⟨rfl, .stopped _⟩
  | removing =>
    refine Ends.mono (cleanupResources_ends os _) ?_
    intro r w' hpost
    obtain ⟨rfl, hl1, hc1⟩ := hpost
    obtain ⟨os1, rfl⟩ := world_eq hl1 hc1
    exact ⟨rfl, .removing⟩
  | removed => exact ⟨rfl, .removed⟩
  | dead => exact ⟨rfl, .dead _⟩
  | restarting =>
    refine Ends.mono (wait 5) ?_
    intro r w' hpost
    obtain ⟨rfl, hl1, code, reason, hc1⟩ := hpost
    obtain ⟨os1, rfl⟩ := world_eq hl1 hc1
    exact ⟨rfl, .restarting code reason⟩
  | error => exact ⟨rfl, .error _⟩

/-- With mutexes abstracted the callback leaves the container alone, whichever it is. -/
theorem notifyCallback_returns (old new : ContainerState) :
    Returns (Touches Eq) (notifyCallback os .abstracted old new) := by
  simp only [notifyCallback, lockGuard_abstracted]
  refine returns_bind (readC_returns _) fun cb => ?_
  cases cb with
  | none => exact returns_pure _
  | some cb =>
    refine ignoreErrors_returns (Returns.within ?_)
    cases cb with
    | client => exact returns_bind (readC_returns _) fun _ => sleep_returns _
    | registry =>
      simp only [runCallback, getInfo, onContainerEvent, lockGuard_abstracted]
      exact returns_bind (readC_returns _) fun _ => returns_bind (returns_read _) fun _ =>
        returns_ite (sleep_returns _) (returns_pure _)

/-- A transition with mutexes abstracted: refused, or moved. -/
theorem transitionState_ends (new : ContainerState) (w : World σ) :
    Ends (transitionState os .abstracted new) w fun r w' => w'.listener = w.listener ∧
      if isStateTransitionValid w.c w.c.state new then Moved w.c new r w'.c
      else r = .thrown (.invalidState w.c.id w.c.state new) ∧ w'.c = w.c := by
  simp only [transitionState, self, ends_bind, ends_read, andThen_ok]
  split
  · simp only [ends_bind]
    refine Ends.mono (enterState_moved os new w) ?_
    intro r w1 hpost
    obtain ⟨hl1, h1⟩ := hpost
    cases r with
    | ok _ =>
      rw [andThen_ok]
      refine Ends.mono (notifyCallback_returns os _ _ w1) ?_
      intro r w2 hpost
      obtain ⟨⟨_, rfl⟩, hl2, hc2⟩ := hpost
      exact ⟨hl2.trans hl1, hc2 ▸ h1⟩
    | thrown e => exact ⟨hl1, h1⟩
    | blocked => exact absurd h1 (by rintro ⟨⟩)
  · exact ⟨rfl, rfl, rfl⟩

end Container

end DockerCpp.Runtime
