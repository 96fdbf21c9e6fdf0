/-
  DockerCpp.Runtime.Beside — a system with something kept beside it.

  `os.beside β` is the system `os` with a `β` that no call touches. A model of one kind of
  call is such a system with that call refitted: what the callback was told
  (`Runtime.StateTrace`), the files behind the cgroup calls (`Cgroup.Frozen`). The parts of a
  container that make neither call are the same programs on the refitted system
  (`stopWait_refit` and its like), so they leave the `β` alone (`Unheard`).
-/

import DockerCpp.Runtime.OsFrames

namespace DockerCpp.Runtime

open Lib Lib.Prog

variable {σ β : Type}

def onSystem {α : Type} (f : σ → α × σ) (s : σ × β) : α × σ × β := ((f s.1).1, (f s.1).2, s.2)

def Os.beside (os : Os σ) (β : Type) : Os (σ × β) := os.through onSystem

theorem beside_leaves (os : Os σ) (b : β) : (os.beside β).Leaves fun s => s.2 = b :=
  os.through_leaves onSystem fun _ _ h => h

theorem beside_forks (os : Os σ) (config : ProcessConfig) (b : β) :
    (os.beside β).Forks config (fun s => s.2 = b) fun s => s.2 = b := by
  intro s hs
  cases hr : ((os.beside β).fork config s).1 with
  | ok pid => exact Or.inl ⟨⟨pid, rfl⟩, hs⟩
  | error text => exact Or.inr ⟨⟨text, rfl⟩, hs⟩

/-- The system with other cgroups and another callback. -/
def Os.refit (os : Os σ) (cgroup : CgroupConfig → CgroupCall → σ → Option String × σ)
    (notify : String → ContainerState → ContainerState → σ → σ) : Os σ :=
  { os with cgroup := cgroup, notify := notify }

section refit

variable (os : Os σ) (cgroup : CgroupConfig → CgroupCall → σ → Option String × σ)
  (notify : String → ContainerState → ContainerState → σ → σ)

namespace ProcessManager

theorem stopProcess_refit (pid : Int) (timeout : Nat) :
    stopProcess (os.refit cgroup notify) pid timeout = stopProcess os pid timeout := by
  have hwait : ∀ start sleeps, stopWait (os.refit cgroup notify) pid start timeout sleeps =
      stopWait os pid start timeout sleeps := by
    intro start sleeps
    induction sleeps with
    | zero => rfl
    | succ sleeps ih =>
      unfold stopWait
      simp only [ih]
      rfl
  simp only [stopProcess, hwait]
  rfl

theorem destroy_refit : destroy (os.refit cgroup notify) = destroy os := by
  have hall : ∀ l : List ProcessInfo, destroyAll (os.refit cgroup notify) l = destroyAll os l := by
    intro l
    induction l with
    | nil => rfl
    | cons info rest ih =>
      rw [destroyAll, destroyAll, ih]
      rfl
  simp only [destroy, hall]

end ProcessManager

namespace Container

theorem stopWait_refit (seconds : Nat) : stopWait (os.refit cgroup notify) seconds = stopWait os seconds := by
  induction seconds with
  | zero => rfl
  | succ seconds ih =>
    rw [stopWait, stopWait, ih]
    rfl

theorem destroyManager_refit (o : Option ProcessManager) :
    destroyManager (os.refit cgroup notify) o = destroyManager os o := by
  cases o with
  | none => rfl
  | some m => rw [destroyManager, destroyManager, ProcessManager.destroy_refit]

theorem cleanupProcessManager_refit :
    cleanupProcessManager (os.refit cgroup notify) = cleanupProcessManager os := by
  simp only [cleanupProcessManager, ProcessManager.stopProcess_refit, destroyManager_refit]

end Container

end refit

namespace Container

/-! ## What every system keeps -/

section leaves

variable {os : Os σ} {I : σ → Prop} {config : ContainerConfig} (h : os.Leaves I)

include h

theorem killMain_on (sig : Int) : Stable (On config I) (killMain os sig) :=
  stable_bind (stable_read _) fun pid =>
    stable_ite (stable_bind (sys_on (h.kill pid sig)) fun _ => stable_pure _) (stable_pure _)

theorem waitForProcessExit_on (timeout : Nat) : Stable (On config I) (waitForProcessExit os timeout) := by
  have record : ∀ st, Stable (On config I) (modifyC fun c => recordExit c st : Prog (World σ) Error Unit) := by
    intro st
    refine modifyC_on fun c => ?_
    cases st <;> rfl
  refine stable_bind (stable_read _) fun pid => stable_ite ?_ (stable_pure _)
  refine stable_bind (sys_on (h.waitpid pid false)) fun r => stable_ite ?_ (stable_ite (record _) (stable_pure _))
  refine stable_bind (sleep_apart (on_apart h) _) fun _ => ?_
  exact stable_bind (sys_on (h.waitpid pid false)) fun _ => stable_ite (record _) (stable_pure _)

theorem cleanupProcessManager_on : Stable (On config I) (cleanupProcessManager os) := by
  refine stable_bind (stable_read _) fun m => ?_
  cases m with
  | none => exact stable_pure _
  | some m =>
    refine stable_bind (stable_read _) fun pid => stable_bind (stable_ignoreErrors ?_) fun _ => ?_
    · refine stable_bind ?_ fun _ => stable_pure _
      exact stable_zoom (ProcessManager.stopProcess_onOs h pid 5) (fun _ hw => hw.2) fun _ _ hw hpm => ⟨hw.1, hpm⟩
    · refine stable_bind (stable_read _) fun m' => stable_bind (modifyC_on fun _ => rfl) fun _ => ?_
      exact destroyManager_on h m'

end leaves

/-! ## What is kept beside -/

/-- However the program ends, what is kept beside the system is as before. -/
def Unheard {α : Type} (p : Prog (World (σ × β)) Error α) : Prop := ∀ w, Ends p w fun _ w' => w'.os.2 = w.os.2

theorem unheard_of_on {α : Type} {p : Prog (World (σ × β)) Error α}
    (h : ∀ config b, Stable (On config fun s => s.2 = b) p) : Unheard p :=
  fun w => Ends.mono (h w.c.config w.os.2 w ⟨rfl, rfl⟩) fun _ _ hon => hon.2

section unheard

variable (os : Os σ) (cgroup : CgroupConfig → CgroupCall → σ × β → Option String × σ × β)
  (notify : String → ContainerState → ContainerState → σ × β → σ × β)

theorem killMain_unheard (sig : Int) : Unheard (killMain ((os.beside β).refit cgroup notify) sig) :=
  unheard_of_on fun _ b => killMain_on (beside_leaves os b) sig

theorem waitForProcessExit_unheard (timeout : Nat) :
    Unheard (waitForProcessExit ((os.beside β).refit cgroup notify) timeout) :=
  unheard_of_on fun _ b => waitForProcessExit_on (beside_leaves os b) timeout

/-- Between STOPPING and STOPPED. -/
theorem stop_wait_unheard (timeout pid : Int) : Unheard (when (0 < pid) do
      stopWait ((os.beside β).refit cgroup notify) timeout.toNat
      let alive ← isProcessRunning ((os.beside β).refit cgroup notify)
      when alive do
        killMain ((os.beside β).refit cgroup notify) sigkill
        waitForProcessExit ((os.beside β).refit cgroup notify) 5) := by
  refine unheard_of_on fun config b => ?_
  have h := beside_leaves os b
  have hprobe := isProcessRunning_apart (@on_apart _ _ _ config h)
  rw [stopWait_refit]
  refine stable_when (stable_bind (stopWait_apart (on_apart h) _) fun _ => ?_)
  refine stable_bind hprobe fun _ => stable_when ?_
  exact stable_bind (killMain_on h sigkill) fun _ => waitForProcessExit_on h 5

end unheard

end Container

end DockerCpp.Runtime
