/-
  DockerCpp.Runtime.OsFrames — what the parts of the runtime keep of the system, for any
  system.

  `os.Leaves I` says that no call but `fork` ends `I`. Whatever is left in this sense
  survives everything the process manager and the container do up to and after the `fork`
  of `createProcess`. A statement that only some of the calls leave, or one on the container
  as well, needs less for the resources (`Apart`).
-/

import DockerCpp.Runtime.ContainerFrames

namespace DockerCpp.Runtime

open Lib Lib.Prog

variable {σ : Type}

structure Os.Leaves (os : Os σ) (I : σ → Prop) : Prop where
  unshare : ∀ type s, I s → I (os.unshare type s).2
  cgroup : ∀ g f s, I s → I (os.cgroup g f s).2
  pipe : ∀ s, I s → I (os.pipe s).2
  readErrorPipe : ∀ pid s, I s → I (os.readErrorPipe pid s).2
  kill : ∀ pid sig s, I s → I (os.kill pid sig s).2
  waitpid : ∀ pid hang s, I s → I (os.waitpid pid hang s).2
  sleepMs : ∀ ms s, I s → I (os.sleepMs ms s)
  systemNow : ∀ s, I s → I (os.systemNow s).2
  steadyNow : ∀ s, I s → I (os.steadyNow s).2
  notify : ∀ id old new s, I s → I (os.notify id old new s)

/-- What `lift` keeps, every call through it leaves. -/
theorem Os.through_leaves {τ : Type} (os : Os σ) (lift : {α : Type} → (σ → α × σ) → τ → α × τ) {J : τ → Prop}
    (h : ∀ {α : Type} (f : σ → α × σ) s, J s → J (lift f s).2) : (os.through lift).Leaves J where
  unshare _ s hs := h _ s hs
  cgroup _ _ s hs := h _ s hs
  pipe s hs := h _ s hs
  readErrorPipe _ s hs := h _ s hs
  kill _ _ s hs := h _ s hs
  waitpid _ _ s hs := h _ s hs
  sleepMs _ s hs := h _ s hs
  systemNow s hs := h _ s hs
  steadyNow s hs := h _ s hs
  notify _ _ _ s hs := h _ s hs

/-- A `fork` for `config` gets a child and leads from `I` to `J`, or fails and stays in `I`. -/
def Os.Forks (os : Os σ) (config : ProcessConfig) (I J : σ → Prop) : Prop :=
  ∀ s, I s → (∃ pid, (os.fork config s).1 = .ok pid) ∧ J (os.fork config s).2 ∨
    (∃ text, (os.fork config s).1 = .error text) ∧ I (os.fork config s).2

variable {os : Os σ} {I : σ → Prop}

/-! ## The process manager -/

namespace ProcessManager

/-- The system of a process manager satisfies `I`. -/
def OnOs (I : σ → Prop) (pm : Pm σ) : Prop := I pm.os

theorem sys_onOs {α : Type} {f : σ → α × σ} (h : ∀ s, I s → I (f s).2) :
    Stable (OnOs I) (sys f : Prog (Pm σ) Error α) := stable_call fun pm => h pm.os

theorem modify_onOs {f : Pm σ → Pm σ} (h : ∀ pm, (f pm).os = pm.os) :
    Stable (OnOs I) (modify f : Prog (Pm σ) Error Unit) := by
  refine stable_modify fun pm hpm => ?_
  rw [OnOs, h]
  exact hpm

variable (h : os.Leaves I)

include h

theorem sleepMs_onOs (ms : Nat) : Stable (OnOs I) (sleepMs os ms) := stable_modify fun pm => h.sleepMs ms pm.os

/-- A `createProcess` that gets no child leaves `I`, and one that gets a child leaves what the
    `fork` led to. -/
theorem createProcess_crosses {J : σ → Prop} (hJ : os.Leaves J) {config : ProcessConfig}
    (hfork : os.Forks config I J) : Crosses (OnOs I) (OnOs J) (createProcess os config) := by
  refine crosses_bind (sys_onOs h.pipe) fun r => ?_
  cases r with
  | some text => exact crosses_throw _
  | none =>
    intro pm hpm
    simp only [ends_bind, sys, ends_call, andThen_ok]
    rcases hfork pm.os hpm with ⟨⟨pid, hr⟩, hforked⟩ | ⟨⟨text, hr⟩, hforked⟩
    · simp only [hr]
      refine Ends.mono (stable_bind (sleepMs_onOs hJ 10) ?_ { pm with os := (os.fork config pm.os).2 } hforked)
        fun _ _ => Or.inl
      refine fun _ => stable_bind (sys_onOs (hJ.readErrorPipe pid)) fun answer => ?_
      cases answer with
      | childError text => exact stable_bind (sys_onOs (hJ.waitpid pid true)) fun _ => stable_throw _
      | failed text => exact stable_bind (sys_onOs (hJ.waitpid pid true)) fun _ => stable_throw _
      | nothing =>
        exact stable_bind (sys_onOs hJ.systemNow) fun _ => stable_bind (modify_onOs fun _ => rfl) fun _ => stable_pure _
    · simp only [hr]
      exact Or.inr ⟨hforked, fun _ hok => by cases hok⟩

theorem determineProcessStatus_onOs (pid : Int) : Stable (OnOs I) (determineProcessStatus os pid) := by
  refine stable_bind (sys_onOs (h.kill pid 0)) fun _ => stable_ite ?_ (stable_pure _)
  refine stable_bind (sys_onOs (h.waitpid pid false)) fun _ => stable_ite (stable_pure _) ?_
  exact stable_ite (stable_pure _) (stable_pure _)

theorem isProcessRunning_onOs (pid : Int) : Stable (OnOs I) (isProcessRunning os pid) :=
  stable_bind (determineProcessStatus_onOs h pid) fun _ => stable_pure _

theorem updateProcessStatus_onOs (pid : Int) : Stable (OnOs I) (updateProcessStatus os pid) := by
  refine stable_bind (determineProcessStatus_onOs h pid) fun st => stable_bind (stable_read _) fun r => ?_
  cases r with
  | none => exact stable_pure _
  | some info =>
    refine stable_bind (modify_onOs fun _ => rfl) fun _ => stable_ite ?_ (stable_pure _)
    refine stable_bind (sys_onOs h.systemNow) fun _ => stable_bind (modify_onOs fun _ => rfl) fun _ => ?_
    refine stable_bind (sys_onOs (h.waitpid pid false)) fun _ => ?_
    exact stable_ite (stable_bind (modify_onOs fun _ => rfl) fun _ => modify_onOs fun _ => rfl)
        (modify_onOs fun _ => rfl)

theorem killProcess_onOs (pid sig : Int) : Stable (OnOs I) (killProcess os pid sig) := by
  refine stable_bind (stable_read _) fun _ => stable_ite (stable_throw _) ?_
  refine stable_bind (sys_onOs (h.kill pid sig)) fun _ => stable_ite ?_ (stable_throw _)
  exact updateProcessStatus_onOs h pid

theorem stopWait_onOs (pid : Int) (start timeout sleeps : Nat) :
    Stable (OnOs I) (stopWait os pid start timeout sleeps) := by
  have hkill : Stable (OnOs I) (do killProcess os pid sigkill; pure false) :=
    stable_bind (killProcess_onOs h pid sigkill) fun _ => stable_pure _
  have hdone : Stable (OnOs I) (do updateProcessStatus os pid; pure true) :=
    stable_bind (updateProcessStatus_onOs h pid) fun _ => stable_pure _
  induction sleeps with
  | zero =>
    unfold stopWait
    refine stable_bind (isProcessRunning_onOs h pid) fun _ => stable_ite ?_ hdone
    exact stable_bind (sys_onOs h.steadyNow) fun _ => hkill
  | succ sleeps ih =>
    unfold stopWait
    refine stable_bind (isProcessRunning_onOs h pid) fun _ => stable_ite ?_ hdone
    refine stable_bind (sys_onOs h.steadyNow) fun _ => stable_ite hkill ?_
    exact stable_bind (sleepMs_onOs h 100) fun _ => ih

theorem stopProcess_onOs (pid : Int) (timeout : Nat) : Stable (OnOs I) (stopProcess os pid timeout) := by
  refine stable_bind (stable_read _) fun _ => stable_ite (stable_throw _) ?_
  refine stable_bind (isProcessRunning_onOs h pid) fun _ => stable_ite (stable_pure _) ?_
  refine stable_bind (sys_onOs (h.kill pid _)) fun _ => stable_ite ?_ (stable_throw _)
  exact stable_bind (sys_onOs h.steadyNow) fun _ => stopWait_onOs h pid _ timeout _

theorem destroyProcess_onOs (pid : Int) : Stable (OnOs I) (destroyProcess os pid) := by
  refine stable_bind (isProcessRunning_onOs h pid) fun _ => stable_ite ?_ (stable_pure _)
  refine stable_bind (sys_onOs (h.kill pid _)) fun _ => stable_bind (sleepMs_onOs h 100) fun _ => ?_
  refine stable_bind (isProcessRunning_onOs h pid) fun _ => stable_ite ?_ (stable_pure _)
  exact stable_bind (sys_onOs (h.kill pid _)) fun _ => stable_pure _

theorem destroy_onOs : Stable (OnOs I) (destroy os) := by
  have hall : ∀ l : List ProcessInfo, Stable (OnOs I) (destroyAll os l) := by
    intro l
    induction l with
    | nil => exact stable_pure _
    | cons info rest ih => exact stable_bind (destroyProcess_onOs h info.pid) fun _ => ih
  exact stable_bind (stable_read _) fun _ => stable_bind (hall _) fun _ => modify_onOs fun _ => rfl

end ProcessManager

namespace Container

/-! ## Resources -/

/-- Neither the calls made for the resources, nor a probe, a pause or a callback, nor the
    resources themselves, have to do with `P`. -/
structure Apart (os : Os σ) (P : World σ → Prop) : Prop where
  unshare : ∀ type w, P w → P { w with os := (os.unshare type w.os).2 }
  cgroup : ∀ g f w, P w → P { w with os := (os.cgroup g f w.os).2 }
  probe : ∀ pid w, P w → P { w with os := (os.kill pid 0 w.os).2 }
  sleepMs : ∀ ms w, P w → P { w with os := os.sleepMs ms w.os }
  notify : ∀ id old new w, P w → P { w with os := os.notify id old new w.os }
  resources : ∀ ns g w, P w → P { w with c := { w.c with namespaceManagers := ns, cgroupManager := g } }

theorem stable_ignoreErrors {P : World σ → Prop} {p : Prog (World σ) Error Unit} (h : Stable P p) :
    Stable P (ignoreErrors p) := stable_tryCatch h fun _ => stable_pure _

section apart

variable {P : World σ → Prop} (hP : Apart os P)

include hP

theorem cgroupCall_apart (g : CgroupConfig) (f : CgroupCall) : Stable P (cgroupCall os g f) := by
  refine stable_bind (stable_call (hP.cgroup g f)) fun r => ?_
  cases r with
  | some text => exact stable_throw _
  | none => exact stable_pure _

theorem addNamespace_apart (type : NamespaceType) : Stable P (addNamespace os type) := by
  refine stable_bind (stable_call (hP.unshare type)) fun r => ?_
  cases r with
  | some text => exact stable_throw _
  | none => exact stable_ite (stable_modify fun w => hP.resources _ w.c.cgroupManager w) (stable_pure _)

theorem setupNamespaces_apart : Stable P (setupNamespaces os) := by
  have hadd := addNamespace_apart hP
  exact stable_ignoreErrors (stable_bind (hadd _) fun _ => stable_bind (hadd _) fun _ => stable_bind (hadd _) fun _ =>
    stable_bind (hadd _) fun _ => stable_bind (hadd _) fun _ => stable_ignoreErrors (hadd _))

theorem setCgroupManager_apart (g : Option CgroupConfig) : Stable P (setCgroupManager os g) := by
  refine stable_bind (stable_read _) fun old => ?_
  refine stable_bind (stable_modify fun w => hP.resources w.c.namespaceManagers g w) fun _ => ?_
  cases old with
  | some o => exact stable_ignoreErrors (cgroupCall_apart hP o _)
  | none => exact stable_pure _

theorem setupCgroups_apart : Stable P (setupCgroups os) := by
  have hcall := cgroupCall_apart hP
  refine stable_ignoreErrors (stable_bind (stable_read _) fun c => ?_)
  refine stable_bind (setCgroupManager_apart hP _) fun _ => stable_bind (hcall _ _) fun _ => ?_
  refine stable_bind (stable_when (stable_bind (hcall _ _) fun _ => hcall _ _)) fun _ => ?_
  refine stable_bind (stable_when (stable_bind (hcall _ _) fun _ => hcall _ _)) fun _ => ?_
  exact stable_when (hcall _ _)

theorem cleanupCgroup_apart : Stable P (cleanupCgroup os) := by
  refine stable_bind (stable_read _) fun r => ?_
  cases r with
  | some g => exact stable_bind (stable_ignoreErrors (cgroupCall_apart hP g _)) fun _ => setCgroupManager_apart hP none
  | none => exact stable_pure _

theorem sleep_apart (ms : Nat) :
    Stable P (modify fun w => { w with os := os.sleepMs ms w.os } : Prog (World σ) Error Unit) :=
  stable_modify (hP.sleepMs ms)

theorem isProcessRunning_apart : Stable P (isProcessRunning os) :=
  stable_bind (stable_read _) fun pid => stable_ite (stable_pure _) (stable_call (hP.probe pid))

theorem stopWait_apart (seconds : Nat) : Stable P (stopWait os seconds) := by
  induction seconds with
  | zero => exact stable_bind (isProcessRunning_apart hP) fun _ => stable_pure _
  | succ seconds ih =>
    refine stable_bind (isProcessRunning_apart hP) fun _ => stable_ite ?_ (stable_pure _)
    exact stable_bind (sleep_apart hP _) fun _ => ih

theorem notifyCallback_apart (old new : ContainerState) : Stable P (notifyCallback os .abstracted old new) := by
  have hnotify : ∀ id, Stable P (modify fun w => { w with os := os.notify id old new w.os } :
      Prog (World σ) Error Unit) := fun id => stable_modify (hP.notify id old new)
  rw [notifyCallback, lockGuard_abstracted]
  refine stable_bind (stable_read _) fun cb => ?_
  cases cb with
  | none => exact stable_pure _
  | some cb =>
    refine stable_ignoreErrors ?_
    cases cb with
    | client => exact stable_bind (stable_read _) fun _ => hnotify _
    | registry =>
      simp only [runCallback, getInfo, onContainerEvent, lockGuard_abstracted]
      exact stable_bind (stable_read _) fun _ => stable_bind (stable_read _) fun _ =>
        stable_ite (hnotify _) (stable_pure _)

end apart

/-! ## A launch -/

/-- The container has this configuration, and its system satisfies `I`. -/
def On (config : ContainerConfig) (I : σ → Prop) (w : World σ) : Prop := w.c.config = config ∧ I w.os

variable {config : ContainerConfig}

theorem sys_on {α : Type} {f : σ → α × σ} (h : ∀ s, I s → I (f s).2) :
    Stable (On config I) (sys f : Prog (World σ) Error α) := stable_call fun w hw => ⟨hw.1, h w.os hw.2⟩

theorem modifyC_on {f : Container → Container} (h : ∀ c, (f c).config = c.config) :
    Stable (On config I) (modifyC f : Prog (World σ) Error Unit) :=
  stable_modify fun w hw => ⟨(h w.c).trans hw.1, hw.2⟩

theorem onStateExited_on (old : ContainerState) :
    Stable (On config I) (onStateExited old : Prog (World σ) Error Unit) := by
  cases old with
  | running => exact modifyC_on fun _ => rfl
  | created | starting | paused | stopping | stopped | removing | removed | dead | restarting | error =>
    exact stable_pure _

section leaves

variable (h : os.Leaves I)

include h

theorem on_apart : Apart os (On config I) where
  unshare type w hw := ⟨hw.1, h.unshare type w.os hw.2⟩
  cgroup g f w hw := ⟨hw.1, h.cgroup g f w.os hw.2⟩
  probe pid w hw := ⟨hw.1, h.kill pid 0 w.os hw.2⟩
  sleepMs ms w hw := ⟨hw.1, h.sleepMs ms w.os hw.2⟩
  notify id old new w hw := ⟨hw.1, h.notify id old new w.os hw.2⟩
  resources _ _ _ hw := hw

theorem destroyManager_on (o : Option ProcessManager) : Stable (On config I) (destroyManager os o) := by
  cases o with
  | some m =>
    exact stable_zoom (ProcessManager.destroy_onOs h) (fun _ hw => hw.2) fun _ _ hw hpm => ⟨hw.1, hpm⟩
  | none => exact stable_pure _

theorem stampFinished_on : Stable (On config I) (stampFinished os) :=
  stable_bind (sys_on h.systemNow) fun _ => modifyC_on fun _ => rfl

theorem onStateEntered_on (new : ContainerState) : Stable (On config I) (onStateEntered os new) := by
  have hstop : Stable (On config I) (stopMonitoring : Prog (World σ) Error Unit) := modifyC_on fun _ => rfl
  cases new with
  | created => exact stable_bind (sys_on h.systemNow) fun _ => modifyC_on fun _ => rfl
  | running =>
    refine stable_bind (sys_on h.systemNow) fun _ => stable_bind (modifyC_on fun _ => rfl) fun _ => ?_
    exact stable_bind (stable_read _) fun _ => stable_ite (stable_pure _) (modifyC_on fun _ => rfl)
  | stopped => exact stampFinished_on h
  | removed => exact modifyC_on fun _ => rfl
  | dead =>
    exact stable_bind (stampFinished_on h) fun _ => stable_bind (modifyC_on fun _ => rfl) fun _ => hstop
  | error => exact stable_bind (stampFinished_on h) fun _ => hstop
  | starting | paused | stopping | removing | restarting => exact stable_pure _

/-- A transition to a state without an action. -/
theorem transitionState_on {new : ContainerState} (hnew : executeStateTransition os new = pure ()) :
    Stable (On config I) (transitionState os .abstracted new) := by
  refine stable_bind (stable_read _) fun c => stable_ite ?_ (stable_throw _)
  refine stable_bind ?_ fun _ => notifyCallback_apart (on_apart h) _ _
  rw [enterState, hnew]
  refine stable_bind (onStateExited_on _) fun _ => stable_bind (stable_pure _) fun _ => ?_
  exact stable_bind (modifyC_on fun _ => rfl) fun _ => onStateEntered_on h new

variable {J : σ → Prop} (hJ : os.Leaves J) (hfork : os.Forks (processConfig config) I J)

include hJ hfork

theorem launchProcess_crosses : Crosses (On config I) (On config J) (launchProcess os) := by
  refine crosses_bind_read fun w hw => crosses_bind (modifyC_on fun _ => rfl) fun _ => ?_
  refine crosses_bind (destroyManager_on h w.c.processManager) fun _ => ?_
  rw [hw.1]
  refine Crosses.bind ?_ fun pid => stable_ite (stable_throw _) ?_
  · exact (ProcessManager.createProcess_crosses h hJ hfork).zoom (fun _ hw => hw.2) (fun _ _ hw hpm => ⟨hw.1, hpm⟩)
      fun _ _ hw hpm => ⟨hw.1, hpm⟩
  · refine stable_bind (modifyC_on fun _ => rfl) fun _ => ?_
    cases w.c.cgroupManager with
    | some g => exact stable_ignoreErrors (cgroupCall_apart (on_apart hJ) g _)
    | none => exact stable_pure _

theorem startProcess_crosses : Crosses (On config I) (On config J) (startProcess os) := by
  refine Crosses.bind ?_ fun _ => ?_
  · exact (launchProcess_crosses h hJ hfork).tryCatch (fun _ => stable_throw _) (fun _ => stable_throw _)
      fun _ _ _ => nofun
  · refine stable_bind (sleep_apart (on_apart hJ) 100) fun _ => ?_
    refine stable_bind (isProcessRunning_apart (on_apart hJ)) fun _ => ?_
    refine stable_ite (stable_pure _) (stable_bind (stable_read _) fun pid => ?_)
    refine stable_bind (sys_on (hJ.waitpid pid false)) fun r => stable_bind (modifyC_on fun c => ?_) fun _ =>
      stable_throw _
    cases r.2 <;> rfl

theorem transitionState_crosses : Crosses (On config I) (On config J) (transitionState os .abstracted .starting) := by
  refine crosses_bind (stable_read _) fun c => ?_
  split
  · refine Crosses.bind (crosses_bind (onStateExited_on _) fun _ => Crosses.bind ?_ fun _ => ?_) fun _ =>
      notifyCallback_apart (on_apart hJ) _ _
    · refine crosses_bind (setupNamespaces_apart (on_apart h)) fun _ => ?_
      exact crosses_bind (setupCgroups_apart (on_apart h)) fun _ => startProcess_crosses h hJ hfork
    · exact stable_bind (modifyC_on fun _ => rfl) fun _ => onStateEntered_on hJ _
  · exact crosses_throw _

/-- `start` forks once for the configuration, or not at all and fails. -/
theorem start_crosses : Crosses (On config I) (On config J) (start os .abstracted) := by
  have hcatch : ∀ {I' : σ → Prop}, os.Leaves I' → ∀ e : Error, Stable (On config I') (do
      transitionState os .abstracted .error
      throw e : Prog (World σ) Error Unit) :=
    fun h' _ => stable_bind (transitionState_on h' rfl) fun _ => stable_throw _
  rw [start, lockGuard_abstracted]
  refine crosses_bind (stable_read _) fun c => ?_
  split
  · refine Crosses.tryCatch ?_ (hcatch h) (hcatch hJ) fun e w => ?_
    · refine (transitionState_crosses h hJ hfork).bind fun _ => stable_bind (stable_read _) fun _ => ?_
      exact stable_ite (stable_throw _) (transitionState_on hJ rfl)
    · rw [ends_bind]
      refine Ends.mono (Q := fun _ _ => True) trivial ?_
      intro r w' _
      cases r <;> exact fun _ => nofun
  · exact crosses_throw _

end leaves

end Container

end DockerCpp.Runtime
