/-
  DockerCpp.Runtime.ContainerMove — moving a container (`Container(Container&&)`,
  `operator=(Container&&)`) and destroying the one it was moved from.

  A move takes over the identity, the state, the pid, the stamps and the flags. It does
  not mention `process_manager_`, `cgroup_manager_`, `namespace_managers_` and
  `event_callback_`: the new container has none of them, the old one keeps them all, and
  its `removed_` flag is not set. So the destructor of the moved-from object still stops
  the process and destroys the cgroup of the container that was moved away
  (`moving_a_running_container_kills_it`); a move hands everything over only if there was
  nothing to hand over (`move_transfers_iff`).
-/

import DockerCpp.Runtime.ContainerLifecycle

namespace DockerCpp.Runtime.Container

open Lib Lib.Prog

variable {σ : Type} (os : Os σ)

/-! ## The destructor -/

def cleanup : Prog (World σ) Error Unit := do
  if ← readC (·.removed) then pure ()
  else
    ignoreErrors do
      stopMonitoring
      cleanupResources os
      modifyC fun c => { c with removed := true }

/-- The process manager goes with the container. -/
def dropProcessManager : Prog (World σ) Error Unit := do
  let m ← readC (·.processManager)
  modifyC fun c => { c with processManager := none }
  destroyManager os m

/-- `~Container`: `cleanup`, and then the members in the reverse order of their
    declaration. -/
def destroy : Prog (World σ) Error Unit := do
  cleanup os
  setCgroupManager os none
  dropProcessManager os

/-! ## Moves -/

/-- What a move leaves in the strings and vectors it moved from; the standard does not
    say. -/
structure Leftover where
  id : String := ""
  config : ContainerConfig := {}
  exitReason : String := ""
  deriving DecidableEq, Repr

/-- The container the move constructor makes of `c`. -/
def moveConstruct (c : Container) : Container :=
  { id := c.id, config := c.config, state := c.state, removed := c.removed, mainPid := c.mainPid,
    exitCode := c.exitCode, exitReason := c.exitReason, createdAt := c.createdAt, startedAt := c.startedAt,
    finishedAt := c.finishedAt, monitoringActive := c.monitoringActive }

/-- `d` after `c` was move-assigned to it. -/
def moveAssign (d c : Container) : Container :=
  { d with
    id := c.id, config := c.config, state := c.state, removed := c.removed, mainPid := c.mainPid,
    exitCode := c.exitCode, exitReason := c.exitReason, createdAt := c.createdAt, startedAt := c.startedAt,
    finishedAt := c.finishedAt, monitoringActive := c.monitoringActive }

/-- `c` after either move. -/
def movedFrom (left : Leftover) (c : Container) : Container :=
  { c with id := left.id, config := left.config, exitReason := left.exitReason, monitoringActive := false }

/-- The moved-from container and the system, beside the container that was made of it. -/
structure Beside (σ : Type) where
  source : World σ
  target : Container

def destroySource : Prog (Beside σ) Error Unit := zoom (·.source) (fun w b => { b with source := w }) (destroy os)

/-- `d` has what `c` owned, and the end of the moved-from `c` is no event of the system:
    no signal, no call of a cgroup. -/
structure Transfers (left : Leftover) (w : World σ) (d : Container) : Prop where
  state : d.state = w.c.state
  processManager : d.processManager = w.c.processManager
  cgroupManager : d.cgroupManager = w.c.cgroupManager
  namespaceManagers : d.namespaceManagers = w.c.namespaceManagers
  eventCallback : d.eventCallback = w.c.eventCallback
  silent : Ends (destroySource os) ⟨{ w with c := movedFrom left w.c }, d⟩ fun r b =>
    r = .ok () ∧ b.source.os = w.os ∧ b.target = d

/-- There is nothing a move could lose. -/
structure OwnsNothing (c : Container) : Prop where
  processManager : c.processManager = none
  cgroupManager : c.cgroupManager = none
  namespaceManagers : c.namespaceManagers = []
  eventCallback : c.eventCallback = none

/-! ## Destroying a container without managers -/

/-- What is left of a container without managers. -/
def Bare (s : σ) (w : World σ) : Prop := w.c.processManager = none ∧ w.c.cgroupManager = none ∧ w.os = s

variable {w : World σ}

theorem cleanupResources_bare {s : σ} (h : Bare s w) :
    Ends (cleanupResources os) w fun r w' => r = .ok () ∧ Bare s w' := by
  obtain ⟨hp, hg, hs⟩ := h
  simp only [cleanupResources, cleanupProcessManager, cleanupCgroup, readC, modifyC, ends_bind, ends_read, ends_modify,
    andThen_ok, hp, hg, ends_pure]
  exact ⟨trivial, rfl, rfl, hs⟩

theorem dropMembers_bare {s : σ} (h : Bare s w) :
    Ends (do setCgroupManager os none; dropProcessManager os) w fun r w' => r = .ok () ∧ w'.os = s := by
  obtain ⟨hp, hg, hs⟩ := h
  simp only [setCgroupManager, dropProcessManager, readC, modifyC, ends_bind, ends_read, ends_modify, andThen_ok, hg,
    ends_pure, hp, destroyManager]
  exact ⟨trivial, hs⟩

/-- A container without managers goes silently. -/
theorem destroy_bare {s : σ} (h : Bare s w) : Ends (destroy os) w fun r w' => r = .ok () ∧ w'.os = s := by
  rw [destroy, ends_bind, cleanup, ends_bind, readC, ends_read, andThen_ok]
  split
  · rw [ends_pure, andThen_ok]
    exact dropMembers_bare os h
  · rw [ignoreErrors, ends_tryCatch, ends_bind, stopMonitoring, modifyC, ends_modify, andThen_ok, ends_bind]
    refine Ends.mono (cleanupResources_bare os (s := s)
      (w := { w with c := { w.c with monitoringActive := false } }) h) ?_
    intro r w1 hpost
    obtain ⟨rfl, h1⟩ := hpost
    rw [andThen_ok, modifyC, ends_modify, orElse_ok, andThen_ok]
    exact dropMembers_bare os (w := { w1 with c := { w1.c with removed := true } }) h1

theorem transfers_iff (left : Leftover) (w : World σ) {d : Container} (hs : d.state = w.c.state)
    (hd : OwnsNothing d) : Transfers os left w d ↔ OwnsNothing w.c := by
  constructor
  · intro h
    exact ⟨h.processManager ▸ hd.processManager, h.cgroupManager ▸ hd.cgroupManager,
      h.namespaceManagers ▸ hd.namespaceManagers, h.eventCallback ▸ hd.eventCallback⟩
  · intro h
    refine ⟨hs, hd.processManager.trans h.processManager.symm, hd.cgroupManager.trans h.cgroupManager.symm,
      hd.namespaceManagers.trans h.namespaceManagers.symm, hd.eventCallback.trans h.eventCallback.symm, ?_⟩
    rw [destroySource, ends_zoom]
    have hbare : Bare w.os { w with c := movedFrom left w.c } := ⟨h.processManager, h.cgroupManager, rfl⟩
    refine Ends.mono (destroy_bare os hbare) ?_
    intro r w' hpost
    exact ⟨hpost.1, hpost.2, rfl⟩

/-- Constructed from `std::move(c)`, or move-assigned from it when just made, a container
    takes over what `c` owned and lets it go silently iff `c` owned nothing: no process
    manager, no cgroup, no namespaces and no callback. -/
theorem move_transfers_iff (left : Leftover) (w : World σ) (config : ContainerConfig) (s : σ) :
    (Transfers os left w (moveConstruct w.c) ↔ OwnsNothing w.c) ∧
    (Transfers os left w (moveAssign (make os config s).1 w.c) ↔ OwnsNothing w.c) :=
  ⟨transfers_iff os left w rfl ⟨rfl, rfl, rfl, rfl⟩, transfers_iff os left w rfl ⟨rfl, rfl, rfl, rfl⟩⟩

/-- The running container is now `d`, which has no process manager; the end of the
    moved-from object terminates its process. -/
theorem moving_a_running_container_kills_it :
    let d := moveConstruct runningWorld.c
    runningWorld.c.processManager.isSome = true ∧ runningWorld.c.cgroupManager.isSome = true ∧
    d.state = .running ∧ d.mainPid = 100 ∧ d.processManager = none ∧ d.cgroupManager = none ∧
    runningWorld.os.live = [100] ∧
    Ends (destroySource calmOs) ⟨{ runningWorld with c := movedFrom {} runningWorld.c }, d⟩ fun r b =>
      r = .ok () ∧ b.source.os.live = [] := by
  unfold Ends
  decide +kernel

end DockerCpp.Runtime.Container
