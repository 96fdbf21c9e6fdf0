/-
  DockerCpp.Runtime.ContainerKernel — what a container's functions leave alone in the
  process table.

  An assertion on the main pid, the recorded exit, the process manager and the kernel
  (`Tracks`) that the passing of moves does not end survives everything a container does
  but its waits, its signals and its launches: the namespace and cgroup calls, the clock,
  the callbacks and the bookkeeping of a transition. So a transition keeps it as soon as
  the action of the new state does (`transitionState_tracks`).
-/

import DockerCpp.Runtime.Kernel
import DockerCpp.Runtime.OsFrames

namespace DockerCpp.Runtime.Container

open Lib Lib.Prog

variable {σ : Type} (base : Os σ)

/-- An assertion on what the process table has to do with a container. -/
def Tracks (A : Int → Int → Option ProcessManager → Kernel σ → Prop) (w : World (Kernel σ)) : Prop :=
  A w.c.mainPid w.c.exitCode w.c.processManager w.os

/-- The moves do not end `A`. -/
def Steady (A : Int → Int → Option ProcessManager → Kernel σ → Prop) : Prop :=
  ∀ ⦃pid code m k k'⦄, A pid code m k → Kernel.Passed k k' → A pid code m k'

variable {A : Int → Int → Option ProcessManager → Kernel σ → Prop} (hA : Steady A)

include hA

theorem other_tracks {α : Type} (f : σ → α × σ) :
    Stable (Tracks A) (sys (Kernel.other f) : Prog (World (Kernel σ)) Error α) :=
  stable_call fun w hw => hA hw (Kernel.other_passed f w.os)

theorem tracks_apart : Apart (kernelOs base) (Tracks A) where
  unshare type w hw := hA hw (Kernel.other_passed (base.unshare type) w.os)
  cgroup g f w hw := hA hw (Kernel.other_passed (base.cgroup g f) w.os)
  probe pid w hw := hA hw (Kernel.kill_passed _ pid w.os (Or.inl rfl))
  sleepMs ms w hw := hA hw (Kernel.other_passed (fun s => ((), base.sleepMs ms s)) w.os)
  notify id old new w hw := hA hw (Kernel.other_passed (fun s => ((), base.notify id old new s)) w.os)
  resources _ _ _ hw := hw

omit hA in
theorem modifyC_tracks {f : Container → Container} (h : ∀ c, (f c).mainPid = c.mainPid ∧ (f c).exitCode = c.exitCode ∧
    (f c).processManager = c.processManager) : Stable (Tracks A) (modifyC f : Prog (World (Kernel σ)) Error Unit) := by
  refine stable_modify fun w hw => ?_
  obtain ⟨h1, h2, h3⟩ := h w.c
  rw [Tracks, h1, h2, h3]
  exact hw

/-! ## Transitions -/

theorem stampFinished_tracks : Stable (Tracks A) (stampFinished (kernelOs base)) :=
  stable_bind (other_tracks hA _) fun _ => modifyC_tracks fun _ => ⟨rfl, rfl, rfl⟩

omit hA in
theorem stopMonitoring_tracks : Stable (Tracks A) (stopMonitoring : Prog (World (Kernel σ)) Error Unit) :=
  modifyC_tracks fun _ => ⟨rfl, rfl, rfl⟩

theorem onStateEntered_tracks (new : ContainerState) : Stable (Tracks A) (onStateEntered (kernelOs base) new) := by
  cases new with
  | created => exact stable_bind (other_tracks hA _) fun _ => modifyC_tracks fun _ => ⟨rfl, rfl, rfl⟩
  | running =>
    refine stable_bind (other_tracks hA _) fun _ => stable_bind (modifyC_tracks fun _ => ⟨rfl, rfl, rfl⟩) fun _ => ?_
    exact stable_bind (stable_read _) fun _ => stable_ite (stable_pure _) (modifyC_tracks fun _ => ⟨rfl, rfl, rfl⟩)
  | stopped => exact stampFinished_tracks base hA
  | removed => exact modifyC_tracks fun _ => ⟨rfl, rfl, rfl⟩
  | dead =>
    exact stable_bind (stampFinished_tracks base hA) fun _ =>
      stable_bind (modifyC_tracks fun _ => ⟨rfl, rfl, rfl⟩) fun _ =>
      stopMonitoring_tracks
  | error => exact stable_bind (stampFinished_tracks base hA) fun _ => stopMonitoring_tracks
  | starting | paused | stopping | removing | restarting => exact stable_pure _

omit hA in
theorem onStateExited_tracks (old : ContainerState) :
    Stable (Tracks A) (onStateExited old : Prog (World (Kernel σ)) Error Unit) := by
  cases old with
  | running => exact stopMonitoring_tracks
  | created | starting | paused | stopping | stopped | removing | removed | dead | restarting | error =>
    exact stable_pure _

theorem transitionState_tracks {new : ContainerState}
    (hexec : Stable (Tracks A) (executeStateTransition (kernelOs base) new)) :
    Stable (Tracks A) (transitionState (kernelOs base) .abstracted new) := by
  refine stable_bind (stable_read _) fun c => stable_ite ?_ (stable_throw _)
  refine stable_bind ?_ fun _ => notifyCallback_apart (tracks_apart base hA) _ _
  refine stable_bind (onStateExited_tracks _) fun _ => stable_bind hexec fun _ => ?_
  exact stable_bind (modifyC_tracks fun _ => ⟨rfl, rfl, rfl⟩) fun _ => onStateEntered_tracks base hA new

variable {p : Prog (World (Kernel σ)) Error Unit}

theorem orError_ends {w : World (Kernel σ)} (hp : Ends p w fun _ w' => Tracks A w') :
    Ends (orError (kernelOs base) .abstracted p) w fun _ w' => Tracks A w' :=
  ends_tryCatch_stable hp fun _ => stable_bind (transitionState_tracks base hA (stable_pure _)) fun _ => stable_throw _

theorem orError_tracks (hp : Stable (Tracks A) p) :
    Stable (Tracks A) (orError (kernelOs base) .abstracted p) := fun w hw => orError_ends base hA (hp w hw)

omit hA in
theorem guarded_tracks {target : ContainerState} (hp : Stable (Tracks A) p) :
    Stable (Tracks A) (guarded target p) := stable_bind (stable_read _) fun _ => stable_ite hp (stable_throw _)

/-- `pause` and `resume` only move the state. -/
theorem pause_tracks : Stable (Tracks A) (pause (kernelOs base) .abstracted) := by
  rw [pause, lockGuard_abstracted]
  exact guarded_tracks (transitionState_tracks base hA (stable_pure _))

theorem resume_tracks : Stable (Tracks A) (resume (kernelOs base) .abstracted) := by
  rw [resume, lockGuard_abstracted]
  exact guarded_tracks (transitionState_tracks base hA (stable_pure _))

end DockerCpp.Runtime.Container
