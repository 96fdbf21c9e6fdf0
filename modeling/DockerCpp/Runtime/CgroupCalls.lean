/-
  DockerCpp.Runtime.CgroupCalls — the cgroup calls of a container.

  Every manager a container makes is for the cgroup of its id, and the first call on it is
  `create`. When that throws, the rest of `setupCgroups` is left out, but the manager stays:
  the process is added to its cgroup all the same, and the clean-up destroys it. So a
  statement on the system survives every member function once the calls for this cgroup keep
  it, where a setter only counts if a `create` can return (`Os.Bears`, `managed_upheld`).
-/

import DockerCpp.Runtime.Beside
import DockerCpp.Runtime.MemberRules

namespace DockerCpp.Runtime

open Lib Lib.Prog

variable {σ : Type}

/-- The cgroup `setupCgroups` makes for the container `id`. -/
def OfContainer (id : String) (g : CgroupConfig) : Prop := g.name = "docker-cpp-" ++ id ∧ g.parentPath = "/docker-cpp"

theorem ofContainer_cgroupConfig (c : Container) : OfContainer c.id (Container.cgroupConfig c) := by
  unfold Container.cgroupConfig Container.generateCgroupName
  simp only
  split <;> split <;> split <;> exact ⟨rfl, rfl⟩

/-- The system without cgroups. -/
def Os.cgroupless (os : Os σ) : Os σ := os.refit (fun _ _ s => (none, s)) os.notify

structure Os.Bears (os : Os σ) (id : String) (T : σ → Prop) : Prop where
  others : os.cgroupless.Leaves T
  fork : ∀ config s, T s → T (os.fork config s).2
  getMetrics : ∀ g s, T s → T (os.getMetrics g s).2
  create : ∀ g s, OfContainer id g → T s → T (os.cgroup g .create s).2 ∧
    ((os.cgroup g .create s).1 = none → ∀ f s', T s' → T (os.cgroup g f s').2)
  addProcess : ∀ g pid s, OfContainer id g → T s → T (os.cgroup g (.addProcess pid) s).2
  destroy : ∀ g s, OfContainer id g → T s → T (os.cgroup g .destroy s).2
  destruct : ∀ g s, OfContainer id g → T s → T (os.cgroup g .destruct s).2

namespace Container

/-- The container is the one of this id, its cgroup manager is for the cgroup of the id, and
    the system satisfies `T`. -/
structure Managed (id : String) (T : σ → Prop) (w : World σ) : Prop where
  own : w.c.id = id
  manager : ∀ g, w.c.cgroupManager = some g → OfContainer id g
  system : T w.os

variable {os : Os σ} {id : String} {T : σ → Prop}

theorem modifyC_managed {f : Container → Container} (hid : ∀ c, (f c).id = c.id)
    (hg : ∀ c, (f c).cgroupManager = c.cgroupManager) :
    Stable (Managed id T) (modifyC f : Prog (World σ) Error Unit) :=
  stable_modify fun w hw => ⟨(hid w.c).trans hw.own, fun g hsome => hw.manager g ((hg w.c).symm.trans hsome), hw.system⟩

theorem sys_managed {α : Type} {f : σ → α × σ} (h : ∀ s, T s → T (f s).2) :
    Stable (Managed id T) (sys f : Prog (World σ) Error α) :=
  stable_call fun w hw => ⟨hw.own, hw.manager, h w.os hw.system⟩

theorem cgroupCall_managed {g : CgroupConfig} {f : CgroupCall} (hf : ∀ s, T s → T (os.cgroup g f s).2) :
    Stable (Managed id T) (cgroupCall os g f) := by
  refine stable_bind (sys_managed hf) fun r => ?_
  cases r with
  | some text => exact stable_throw _
  | none => exact stable_pure _

section bears

variable (h : os.Bears id T)

include h

/-! ## Processes -/

theorem sleep_managed (ms : Nat) :
    Stable (Managed id T) (modify fun w => { w with os := os.sleepMs ms w.os } : Prog (World σ) Error Unit) :=
  stable_modify fun w hw => ⟨hw.own, hw.manager, h.others.sleepMs ms w.os hw.system⟩

theorem isProcessRunning_managed : Stable (Managed id T) (isProcessRunning os) :=
  stable_bind (stable_read _) fun pid => stable_ite (stable_pure _) (sys_managed (h.others.kill pid 0))

theorem destroyManager_managed (o : Option ProcessManager) : Stable (Managed id T) (destroyManager os o) := by
  cases o with
  | none => exact stable_pure _
  | some m =>
    have hdestroy := ProcessManager.destroy_onOs h.others
    rw [Os.cgroupless, ProcessManager.destroy_refit] at hdestroy
    exact stable_zoom hdestroy (fun _ hw => hw.system) fun _ _ hw hpm => ⟨hw.own, hw.manager, hpm⟩

theorem createProcess_managed (m : ProcessManager) (config : ProcessConfig) :
    Stable (Managed id T) (onProcessManager m (ProcessManager.createProcess os config)) := by
  have hforks : os.cgroupless.Forks config T T := by
    intro s hs
    cases hr : (os.cgroupless.fork config s).1 with
    | ok pid => exact Or.inl ⟨⟨pid, rfl⟩, h.fork config s hs⟩
    | error text => exact Or.inr ⟨⟨text, rfl⟩, h.fork config s hs⟩
  have hcreate : Stable (ProcessManager.OnOs T) (ProcessManager.createProcess os config) := by
    intro pm hpm
    refine Ends.mono (ProcessManager.createProcess_crosses h.others h.others hforks pm hpm) ?_
    intro r pm' hpost
    rcases hpost with hon | ⟨hon, -⟩ <;> exact hon
  exact stable_zoom hcreate (fun _ hw => hw.system) fun _ _ hw hpm => ⟨hw.own, hw.manager, hpm⟩

theorem cleanupProcessManager_managed : Stable (Managed id T) (cleanupProcessManager os) := by
  refine stable_bind (stable_read _) fun m => ?_
  cases m with
  | none => exact stable_pure _
  | some m =>
    refine stable_bind (stable_read _) fun pid => stable_bind (stable_ignoreErrors ?_) fun _ => ?_
    · have hstop := ProcessManager.stopProcess_onOs h.others pid 5
      rw [Os.cgroupless, ProcessManager.stopProcess_refit] at hstop
      refine stable_bind ?_ fun _ => stable_pure _
      exact stable_zoom hstop (fun _ hw => hw.system) fun _ _ hw hpm => ⟨hw.own, hw.manager, hpm⟩
    · refine stable_bind (stable_read _) fun m' => ?_
      exact stable_bind (modifyC_managed (fun _ => rfl) fun _ => rfl) fun _ => destroyManager_managed h m'

/-! ## Cgroups and namespaces -/

theorem setCgroupManager_managed {o : Option CgroupConfig} (ho : ∀ g, o = some g → OfContainer id g) :
    Stable (Managed id T) (setCgroupManager os o) := by
  intro w hw
  have hset : Managed id T { w with c := { w.c with cgroupManager := o } } := ⟨hw.own, ho, hw.system⟩
  rw [setCgroupManager, ends_bind, readC, ends_read, andThen_ok, ends_bind, modifyC, ends_modify, andThen_ok]
  cases hold : w.c.cgroupManager with
  | none => exact hset
  | some old =>
    have hdestruct : Stable (Managed id T) (cgroupCall os old .destruct) :=
      cgroupCall_managed fun s => h.destruct old s (hw.manager old hold)
    exact stable_ignoreErrors hdestruct _ hset

/-- The limits are reached after a `create` that returned. -/
theorem setupCgroups_managed : Stable (Managed id T) (setupCgroups os) := by
  refine stable_ignoreErrors fun w hw => ?_
  have hof : OfContainer id (cgroupConfig w.c) := hw.own ▸ ofContainer_cgroupConfig w.c
  rw [ends_bind, self, ends_read, andThen_ok, ends_bind]
  refine Ends.mono (setCgroupManager_managed h (fun g hg => Option.some.inj hg ▸ hof) w hw) ?_
  intro r w1 hw1
  cases r with
  | thrown e => exact hw1
  | blocked => exact hw1
  | ok _ =>
    obtain ⟨hcreate, hsetters⟩ := h.create (cgroupConfig w.c) w1.os hof hw1.system
    have hw2 : Managed id T { w1 with os := (os.cgroup (cgroupConfig w.c) .create w1.os).2 } :=
      ⟨hw1.own, hw1.manager, hcreate⟩
    rw [andThen_ok, ends_bind, cgroupCall, ends_bind, sys, ends_call, andThen_ok]
    cases hr : (os.cgroup (cgroupConfig w.c) .create w1.os).1 with
    | some text => exact hw2
    | none =>
      have hcall : ∀ f, Stable (Managed id T) (cgroupCall os (cgroupConfig w.c) f) :=
        fun f => cgroupCall_managed fun s => hsetters hr f s
      have hrest : Stable (Managed id T) (do
          when (0 < w.c.config.resources.cpuShares) do
            cgroupCall os (cgroupConfig w.c) (.setCpuMax (cgroupConfig w.c).maxUsec (cgroupConfig w.c).periodUsec)
            cgroupCall os (cgroupConfig w.c) (.setCpuWeight (cgroupConfig w.c).weight)
          when (0 < w.c.config.resources.memoryLimit) do
            cgroupCall os (cgroupConfig w.c) (.setMemoryMax (cgroupConfig w.c).maxBytes)
            cgroupCall os (cgroupConfig w.c) (.setMemorySwapMax (cgroupConfig w.c).swapMaxBytes)
          when (0 < w.c.config.resources.pidsLimit)
            (cgroupCall os (cgroupConfig w.c) (.setPidMax (cgroupConfig w.c).pidMax))) := by
        refine stable_bind (stable_when (stable_bind (hcall _) fun _ => hcall _)) fun _ => ?_
        refine stable_bind (stable_when (stable_bind (hcall _) fun _ => hcall _)) fun _ => ?_
        exact stable_when (hcall _)
      exact hrest _ hw2

theorem cleanupCgroup_managed : Stable (Managed id T) (cleanupCgroup os) := by
  intro w hw
  rw [cleanupCgroup, ends_bind, readC, ends_read, andThen_ok]
  cases hg : w.c.cgroupManager with
  | none => exact hw
  | some g =>
    have hdestroy : Stable (Managed id T) (cgroupCall os g .destroy) :=
      cgroupCall_managed fun s => h.destroy g s (hw.manager g hg)
    exact stable_bind (stable_ignoreErrors hdestroy) (fun _ => setCgroupManager_managed h (by simp)) w hw

theorem cleanupResources_managed : Stable (Managed id T) (cleanupResources os) :=
  stable_bind (cleanupProcessManager_managed h) fun _ => stable_bind (cleanupCgroup_managed h) fun _ =>
    modifyC_managed (fun _ => rfl) fun _ => rfl

theorem setupNamespaces_managed : Stable (Managed id T) (setupNamespaces os) := by
  have hadd : ∀ type, Stable (Managed id T) (addNamespace os type) := by
    intro type
    refine stable_bind (sys_managed (h.others.unshare type)) fun r => ?_
    cases r with
    | some text => exact stable_throw _
    | none => exact stable_ite (modifyC_managed (fun _ => rfl) fun _ => rfl) (stable_pure _)
  exact stable_ignoreErrors (stable_bind (hadd _) fun _ => stable_bind (hadd _) fun _ => stable_bind (hadd _) fun _ =>
    stable_bind (hadd _) fun _ => stable_bind (hadd _) fun _ => stable_ignoreErrors (hadd _))

theorem launchProcess_managed : Stable (Managed id T) (launchProcess os) := by
  intro w hw
  rw [launchProcess, ends_bind, self, ends_read, andThen_ok]
  refine stable_bind ?_ (fun _ => ?_) w hw
  · exact modifyC_managed (fun _ => rfl) fun _ => rfl
  refine stable_bind (destroyManager_managed h _) fun _ => stable_bind (createProcess_managed h _ _) fun pid => ?_
  refine stable_ite (stable_throw _) (stable_bind (modifyC_managed (fun _ => rfl) fun _ => rfl) fun _ => ?_)
  cases hg : w.c.cgroupManager with
  | none => exact stable_pure _
  | some g => exact stable_ignoreErrors (cgroupCall_managed fun s => h.addProcess g pid s (hw.manager g hg))

theorem startProcess_managed : Stable (Managed id T) (startProcess os) := by
  refine stable_bind (stable_tryCatch (launchProcess_managed h) fun _ => stable_throw _) fun _ => ?_
  refine stable_bind (sleep_managed h 100) fun _ => stable_bind (isProcessRunning_managed h) fun _ => ?_
  refine stable_ite (stable_pure _) (stable_bind (stable_read _) fun pid => ?_)
  refine stable_bind (sys_managed (h.others.waitpid pid false)) fun r => stable_bind ?_ fun _ => stable_throw _
  cases r.2 <;> exact modifyC_managed (fun _ => rfl) fun _ => rfl

/-! ## Member functions -/

theorem probeProcess_managed : Stable (Managed id T) (probeProcess os) := by
  refine stable_bind (stable_read _) fun c => ?_
  cases c.processManager with
  | none => exact stable_pure _
  | some m =>
    refine stable_ignoreErrors (stable_bind ?_ fun _ => stable_pure _)
    have hinfo : Stable (ProcessManager.OnOs T) (ProcessManager.getProcessInfo os c.mainPid) := by
      refine stable_bind (stable_read _) fun r => ?_
      cases r with
      | none => exact stable_throw _
      | some info =>
        exact stable_bind (ProcessManager.determineProcessStatus_onOs h.others c.mainPid) fun _ => stable_pure _
    exact stable_zoom hinfo (fun _ hw => hw.system) fun _ _ hw hpm => ⟨hw.own, hw.manager, hpm⟩

theorem managed_upheld : Upheld os (Managed id T) where
  clock w hw := ⟨hw.own, hw.manager, h.others.systemNow w.os hw.system⟩
  metrics g w hw := ⟨hw.own, hw.manager, h.getMetrics g w.os hw.system⟩
  signal pid sig w hw := ⟨hw.own, hw.manager, h.others.kill pid sig w.os hw.system⟩
  wait pid w hw := ⟨hw.own, hw.manager, h.others.waitpid pid false w.os hw.system⟩
  sleepMs ms w hw := ⟨hw.own, hw.manager, h.others.sleepMs ms w.os hw.system⟩
  notify who old new w hw := ⟨hw.own, hw.manager, h.others.notify who old new w.os hw.system⟩
  notes _ _ hw hsame :=
    ⟨hsame.id.trans hw.own, fun g hg => hw.manager g (hsame.cgroupManager.symm.trans hg), hw.system⟩
  launch := stable_bind (setupNamespaces_managed h) fun _ => stable_bind (setupCgroups_managed h) fun _ =>
    startProcess_managed h
  cleanup := cleanupResources_managed h
  probe := probeProcess_managed h

end bears

end Container

end DockerCpp.Runtime
