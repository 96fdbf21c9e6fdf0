/-
  DockerCpp.Runtime.Liveness — the check `startProcess` ends with.

  After the launch and a pause of 100 ms, `start` asks `kill(pid, 0)` whether the process is
  there. `start_by_check`: the answer decides, for any system. If the call succeeds `start`
  returns with the container RUNNING, else it throws and the container is not RUNNING.

  Signal 0 reaches a zombie as well as a running child, so a child that has ended is noticed
  only if somebody has reaped it before (`dead_child_noticed_iff`). `sharedOs` is the kernel
  of `Runtime.Kernel` with other threads of the process in it, which may wait for any pid
  between two calls of `start`, as `getStats` does without a lock.
-/

import DockerCpp.Runtime.Kernel
import DockerCpp.Runtime.ContainerLifecycle

namespace DockerCpp.Runtime.Container

open Lib Lib.Prog

section

variable {σ : Type} (os : Os σ)

/-! ## The answer decides -/

/-- The action of STARTING up to the check. -/
def upToCheck : Prog (World σ) Error Unit := do
  setupNamespaces os
  setupCgroups os
  tryCatch (launchProcess os) fun e => throw (.runtime ("Process start failed: " ++ e.what))
  modify fun w => { w with os := os.sleepMs 100 w.os }

/-- The end of `startProcess`. -/
def livenessCheck : Prog (World σ) Error Unit := do
  if ← isProcessRunning os then pure ()
  else do
    let pid ← readC (·.mainPid)
    let r ← sys (os.waitpid pid false)
    modifyC fun c => recordEarlyExit c r.2
    throw (exitedEarly r.2)

theorem starting_eq : executeStateTransition os .starting = (upToCheck os >>= fun _ => livenessCheck os) := by
  simp only [upToCheck, LawfulMonad.bind_assoc]
  rfl

/-- Once the check is reached there is a process. -/
theorem upToCheck_pid {w w₁ : World σ} (h : upToCheck os w = (.ok (), w₁)) : 0 < w₁.c.mainPid := by
  have hends : Ends (upToCheck os) w fun r w' => r = .ok () → 0 < w'.c.mainPid := by
    simp only [upToCheck, ends_bind]
    refine Ends.mono (setupNamespaces_returns os w) ?_
    intro r w₂ hpost
    obtain ⟨⟨_, rfl⟩, -⟩ := hpost
    rw [andThen_ok, ends_bind]
    refine Ends.mono (setupCgroups_returns os w₂) ?_
    intro r w₃ hpost
    obtain ⟨⟨_, rfl⟩, -⟩ := hpost
    rw [andThen_ok, ends_bind, ends_tryCatch]
    refine Ends.mono (launchProcess_ends os w₃) ?_
    intro r w₄ hpost
    obtain ⟨-, hl⟩ := hpost
    cases r with
    | ok _ =>
      obtain ⟨m, pid, hpid, hc⟩ := hl
      have hmain : 0 < w₄.c.mainPid := by
        rw [hc]
        exact hpid
      exact fun _ => hmain
    | thrown e =>
      intro hr
      cases hr
    | blocked => exact hl.elim
  rw [Ends, h] at hends
  exact hends rfl

/-- The check passes exactly if the signal does. -/
theorem livenessCheck_ends {w : World σ} (hpid : 0 < w.c.mainPid) :
    Ends (livenessCheck os) w fun r _ =>
      if (os.kill w.c.mainPid 0 w.os).1 then r = .ok () else ∃ e, r = .thrown e := by
  have hnot : ¬ w.c.mainPid ≤ 0 := by omega
  simp only [livenessCheck, isProcessRunning, readC, sys, ends_bind, ends_read, andThen_ok, if_neg hnot, ends_call]
  split
  · rfl
  · exact ⟨_, rfl⟩

/-- A launch that passes the check completes the transition to STARTING. -/
theorem transitionState_launched {w : World σ} (hv : canTransitionTo w.c .starting = true)
    (hf : Ends (executeStateTransition os .starting) w fun r _ => r = .ok ()) :
    Ends (transitionState os .abstracted .starting) w fun r w' =>
      r = .ok () ∧ w'.c.state = .starting ∧ 0 < w'.c.mainPid := by
  have hvalid : isStateTransitionValid w.c w.c.state .starting = true := hv
  have hok : Ends (transitionState os .abstracted .starting) w fun r _ => r = .ok () := by
    have hexit : (onStateExited w.c.state : Prog (World σ) Error Unit) = pure () := by
      rcases (valid_starting hv).1 with h | h | h <;> rw [h] <;> rfl
    rw [transitionState, ends_bind, self, ends_read, andThen_ok, if_pos hvalid, ends_bind, enterState, hexit, ends_bind,
      ends_pure, andThen_ok, ends_bind]
    refine Ends.mono hf ?_
    rintro r w₁ rfl
    rw [andThen_ok, ends_bind, modifyC, ends_modify, andThen_ok, onStateEntered, ends_pure, andThen_ok]
    refine Ends.mono (notifyCallback_returns os _ _ _) ?_
    intro r w₂ hpost
    obtain ⟨⟨_, rfl⟩, -⟩ := hpost
    rfl
  refine Ends.mono (hok.and (transitionState_ends os .starting w)) ?_
  intro r w' hpost
  obtain ⟨rfl, -, hm⟩ := hpost
  rw [if_pos hvalid] at hm
  refine ⟨rfl, moved_ok hm, ?_⟩
  generalize w'.c = c' at hm ⊢
  cases hm with
  | starting hpid => exact hpid

/-- What the check's signal answers decides how `start` ends. -/
theorem start_by_check {w w₁ : World σ} (hv : canTransitionTo w.c .starting = true)
    (hup : upToCheck os w = (.ok (), w₁)) :
    Ends (start os .abstracted) w fun r w' =>
      if (os.kill w₁.c.mainPid 0 w₁.os).1 then r = .ok () ∧ w'.c.state = .running
      else (∃ e, r = .thrown e) ∧ w'.c.state ≠ .running := by
  have hexec : Ends (executeStateTransition os .starting) w fun r _ =>
      if (os.kill w₁.c.mainPid 0 w₁.os).1 then r = .ok () else ∃ e, r = .thrown e := by
    rw [starting_eq, ends_bind, Ends, hup]
    exact livenessCheck_ends os (upToCheck_pid os hup)
  cases hk : (os.kill w₁.c.mainPid 0 w₁.os).1 with
  | false =>
    simp only [hk, Bool.false_eq_true, if_false] at hexec ⊢
    obtain ⟨e, he⟩ := hexec
    refine Ends.mono (start_launch_thrown os hv he) ?_
    intro r w' hpost
    split at hpost
    · exact ⟨⟨_, hpost.1⟩, by simp [hpost.2]⟩
    · exact ⟨⟨_, hpost.1⟩, by simp [hpost.2]⟩
  | true =>
    simp only [hk, if_true] at hexec ⊢
    rw [start, lockGuard_abstracted, guarded, ends_bind, self, ends_read, andThen_ok, if_pos hv, orError, ends_tryCatch,
      ends_bind]
    refine Ends.mono (transitionState_launched os hv hexec) ?_
    intro r w₂ hpost
    obtain ⟨rfl, hs, hpid⟩ := hpost
    have hnot : ¬ w₂.c.mainPid ≤ 0 := by omega
    rw [andThen_ok, ends_bind, readC, ends_read, andThen_ok, if_neg hnot]
    refine Ends.mono (transitionState_ends os .running w₂) ?_
    intro r w₃ hpost
    obtain ⟨-, hm⟩ := hpost
    have hvalid : isStateTransitionValid w₂.c w₂.c.state .running = true := by
      rw [hs]
      simp [isStateTransitionValid, getStateTransitionTable, hasPid, hpid]
    rw [if_pos hvalid] at hm
    have hr : r = .ok () := by
      generalize w₃.c = c₃ at hm
      cases hm
      rfl
    subst hr
    exact ⟨rfl, moved_ok hm⟩

end

/-! ## A child that has ended -/

/-- The kernel, with the pids that other threads wait for before the next call, before the
    one after it, and so on. -/
structure Shared (σ : Type) where
  kernel : Kernel σ
  waits : List (List Int) := []

namespace Shared

variable {σ : Type} (base : Os σ)

/-- The waits that are due, with WNOHANG. -/
def waited (s : Shared σ) : Kernel σ :=
  (s.waits.headD []).foldl (fun k pid => ((kernelOs base).waitpid pid false k).2) s.kernel

def lift {α : Type} (f : Kernel σ → α × Kernel σ) (s : Shared σ) : α × Shared σ :=
  ((f (s.waited base)).1, { kernel := (f (s.waited base)).2, waits := s.waits.tail })

/-- The table in which the next call finds `pid`. -/
def life (s : Shared σ) (pid : Int) : Option Life := (s.waited base).advance.procs pid

end Shared

def sharedOs {σ : Type} (base : Os σ) : Os (Shared σ) := (kernelOs base).through (Shared.lift base)

section

variable {σ : Type} (base : Os σ)

/-- An unrelated process has the pid of the reaped child and may be signalled. -/
def Mistaken (s : Shared σ) (pid : Int) (taken : Bool) : Prop :=
  taken = true ∧ (base.kill pid 0 (s.waited base).advance.rest).1 = true

/-- Signal 0 reaches a running child, a zombie, and whoever got the pid of a reaped one. -/
theorem probe_iff {s : Shared σ} {pid : Int} {l : Life} (hl : s.life base pid = some l) :
    ((sharedOs base).kill pid 0 s).1 = true ↔ ∀ e taken, l = .reaped e taken → Mistaken base s pid taken := by
  have hkill : ((sharedOs base).kill pid 0 s).1 = (Kernel.kill (base.kill pid 0) pid 0 (s.waited base)).1 := rfl
  have hprocs : (s.waited base).advance.procs pid = some l := hl
  rw [hkill, Kernel.kill, hprocs]
  cases l with
  | running => simp
  | zombie e => simp
  | reaped e taken =>
    simp only [if_true, Bool.and_eq_true]
    constructor
    · rintro hboth e' taken' ⟨⟩
      exact hboth
    · exact fun h => h e taken rfl

/-- Whatever has become of the child when the check is made, `start` throws and the
    container is not RUNNING exactly if another thread has reaped the child, and no other
    process is mistaken for it. In particular a zombie passes. -/
theorem dead_child_noticed_iff {w w₁ : World (Shared σ)} {l : Life} (hv : canTransitionTo w.c .starting = true)
    (hup : upToCheck (sharedOs base) w = (.ok (), w₁)) (hl : w₁.os.life base w₁.c.mainPid = some l) :
    Ends (start (sharedOs base) .abstracted) w (fun r w' => (∃ e, r = .thrown e) ∧ w'.c.state ≠ .running) ↔
      ∃ e taken, l = .reaped e taken ∧ ¬ Mistaken base w₁.os w₁.c.mainPid taken := by
  have hstart := start_by_check (sharedOs base) hv hup
  have hprobe := probe_iff base hl
  cases hk : ((sharedOs base).kill w₁.c.mainPid 0 w₁.os).1 with
  | true =>
    simp only [hk, if_true] at hstart
    constructor
    · rintro ⟨-, hnot⟩
      exact absurd hstart.2 hnot
    · rintro ⟨e, taken, hreaped, hnot⟩
      exact absurd (hprobe.mp hk e taken hreaped) hnot
  | false =>
    simp only [hk, Bool.false_eq_true, if_false] at hstart
    refine ⟨fun _ => ?_, fun _ => hstart⟩
    by_contra hnone
    push Not at hnone
    exact absurd (hprobe.mpr fun e taken hreaped => hnone e taken hreaped) (by simp [hk])

end

/-- Process 100 exits with code 1 as soon as it is there. -/
def shortLived (waits : List (List Int)) : World (Shared Int) :=
  fresh (sharedOs plainOs) { id := "c", name := "web" }
    { kernel := { rest := 100, moves := List.replicate 30 [.exit 100 (.code 1)] }, waits } none {}

/-- Another thread reaps the process between the launch and the check. -/
def reapedInTime : World (Shared Int) := shortLived (List.replicate 15 [] ++ [[100]])

theorem dead_child_noticed_iff_reaped :
    (upToCheck (sharedOs plainOs) reapedInTime).2.os.life plainOs 100 = some (.reaped (.code 1) false) ∧
      Ends (start (sharedOs plainOs) .abstracted) reapedInTime fun r w' =>
        (∃ e, r = .thrown e) ∧ w'.c.state ≠ .running := by
  have hpid : (upToCheck (sharedOs plainOs) reapedInTime).2.c.mainPid = 100 := by decide +kernel
  have hlife : (upToCheck (sharedOs plainOs) reapedInTime).2.os.life plainOs 100 = some (.reaped (.code 1) false) := by
    decide +kernel
  refine ⟨hlife, (dead_child_noticed_iff plainOs (by decide +kernel) (Prod.ext (by decide +kernel) rfl) ?_).mpr
    ⟨.code 1, false, rfl, fun hm => Bool.false_ne_true hm.1⟩⟩
  rw [hpid, hlife]

/-- Nobody waits for the process: it is a zombie at the check, and `start` succeeds. -/
theorem a_zombie_is_started :
    (upToCheck (sharedOs plainOs) (shortLived [])).1 = .ok () ∧
    (upToCheck (sharedOs plainOs) (shortLived [])).2.c.mainPid = 100 ∧
    (upToCheck (sharedOs plainOs) (shortLived [])).2.os.life plainOs 100 = some (.zombie (.code 1)) ∧
    (start (sharedOs plainOs) .abstracted (shortLived [])).1 = .ok () ∧
    (start (sharedOs plainOs) .abstracted (shortLived [])).2.c.state = .running := by
  decide +kernel

end DockerCpp.Runtime.Container
