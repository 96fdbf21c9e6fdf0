/-
  DockerCpp.Cgroup.Frozen — the limits of a container on a cgroup file system.

  There the directory of a cgroup cannot be removed by unlinking its control files
  (`pinned`), and `remove_all` is all that `destroy` tries. `create` throws when the directory
  is there, before it writes anything, and the setters of `setupCgroups` come after it. So the
  first `setupCgroups` that gets as far as the directory is the last one that writes a control
  file: whatever is called on the container afterwards, `updateConfig` and another `start`
  included, only the members of the cgroups change (`limits_stay`). A container that is made
  later for the same id starts in that position.

  `cgroupOs` has the calls of a container's managers act on the file tree. A call finds the
  manager as it was constructed: each setter stores its own field before it writes it and
  reads no other.
-/

import DockerCpp.Cgroup.Destruction
import DockerCpp.Runtime.CgroupCalls

namespace DockerCpp.Cgroup

open Lib Lib.Prog DockerCpp.Runtime

/-! ## The control files of a tree -/

namespace Tree

/-- Every directory with its control files. -/
def contents (t : Tree) : List (Path × List (String × String)) := t.dirs.map fun e => (e.1, e.2.files)

/-- The trees differ in the members of their directories at most. -/
structure SameFiles (t t' : Tree) : Prop where
  contents : t'.contents = t.contents
  cwd : t'.cwd = t.cwd
  pinned : t'.pinned = t.pinned

theorem SameFiles.refl (t : Tree) : SameFiles t t := ⟨rfl, rfl, rfl⟩

theorem SameFiles.trans {t t' t'' : Tree} (h : SameFiles t t') (h' : SameFiles t' t'') : SameFiles t t'' :=
  ⟨h'.contents.trans h.contents, h'.cwd.trans h.cwd, h'.pinned.trans h.pinned⟩

theorem lookup_contents (t : Tree) (p : Path) : t.contents.lookup p = (t.dir? p).map (·.files) := by
  unfold contents dir?
  induction t.dirs with
  | nil => rfl
  | cons e dirs ih =>
    rw [List.map_cons, List.lookup_cons, List.lookup_cons, ih]
    cases p == e.1 <;> rfl

variable {t t' : Tree}

theorem SameFiles.file? (h : SameFiles t t') (p : Path) (name : String) : t'.file? p name = t.file? p name := by
  have hfiles : (t'.dir? p).map (·.files) = (t.dir? p).map (·.files) := by
    rw [← lookup_contents, ← lookup_contents, h.contents]
  unfold Tree.file?
  cases ht : t.dir? p <;> cases ht' : t'.dir? p <;> simp_all

theorem SameFiles.isDir (h : SameFiles t t') (p : Path) : t'.isDir p = t.isDir p := by
  unfold Tree.isDir
  rw [← Option.isSome_map (f := (·.files)), ← lookup_contents, h.contents, lookup_contents, Option.isSome_map]

theorem SameFiles.isDirectory (h : SameFiles t t') (text : String) : t'.isDirectory text = t.isDirectory text := by
  unfold Tree.isDirectory locate origin
  rw [walk_congr h.isDir, h.cwd]

theorem moveProcess_sameFiles (t : Tree) (p : Path) (pid : Int) : SameFiles t (t.moveProcess p pid) :=
  ⟨by simp [contents, moveProcess, Function.comp_def], rfl, rfl⟩

theorem removeAll_pinned {t : Tree} (h : t.pinned = true) (p : Path) : (t.removeAll p).2 = t := by
  unfold removeAll
  rw [if_pos h]

end Tree

/-! ## The calls of a manager -/

namespace CgroupManager

variable {env : Env} {t : Tree}

/-- The files are those of `t`. -/
def Like (t : Tree) (s : CgroupState) : Prop := Tree.SameFiles t s.tree

theorem move_like (file : String) (p : Path) (pid : Int) :
    Stable (Like t) (flush env file fun t => t.moveProcess p pid) :=
  stable_ite (stable_pure _) (stable_modify fun s hs => hs.trans (Tree.moveProcess_sameFiles s.tree p pid))

theorem addProcess_like (pid : Int) : Stable (Like t) (addProcess env pid) := by
  refine stable_bind (stable_read _) fun path => stable_bind (stable_read _) fun _ => stable_ite (stable_throw _) ?_
  refine stable_ite (stable_throw _) (stable_bind (stable_read _) fun r => ?_)
  cases r with
  | none => exact stable_throw _
  | some p => exact move_like _ p pid

theorem removeProcess_like (pid : Int) : Stable (Like t) (removeProcess env pid) := by
  refine stable_bind (stable_read _) fun m => stable_bind (stable_read _) fun _ => stable_ite (stable_throw _) ?_
  refine stable_bind (stable_read _) fun r => ?_
  cases r with
  | none => exact stable_throw _
  | some p => exact move_like _ p pid

theorem getProcesses_like : Stable (Like t) (getProcesses env) := by
  refine stable_bind (stable_read _) fun path => stable_bind (stable_read _) fun _ => stable_ite (stable_throw _) ?_
  refine stable_bind (stable_read _) fun r => ?_
  cases r with
  | none => exact stable_throw _
  | some p => exact stable_read _

theorem destroy_like (hpinned : t.pinned = true) : Stable (Like t) (destroy env) := by
  refine stable_bind (stable_read _) fun _ => stable_ite ?_ (stable_pure _)
  refine stable_bind (stable_tryCatch ?_ fun _ => stable_pure _) fun _ => ?_
  · exact stable_bind getProcesses_like fun _ => stable_forEach removeProcess_like _
  · refine stable_bind (stable_read _) fun path => stable_bind (stable_read _) fun r => ?_
    cases r with
    | none => exact stable_pure _
    | some p =>
      refine stable_bind (stable_call fun s hs => ?_) fun _ => stable_ite (stable_pure _) (stable_throw _)
      show Tree.SameFiles t (s.tree.removeAll p).2
      rw [Tree.removeAll_pinned (hs.pinned.trans hpinned)]
      exact hs

theorem destruct_like (hpinned : t.pinned = true) : Stable (Like t) (destruct env) := by
  refine stable_tryCatch (stable_bind (stable_read _) fun _ => ?_) fun _ => stable_pure _
  exact stable_ite (destroy_like hpinned) (stable_pure _)

/-- The directory is there, so `create` throws before it does anything. -/
theorem create_refused {s : CgroupState} (hthere : s.tree.isDirectory s.mgr.cgroupPath = true) :
    Ends (create env) s fun r s' => (∃ e, r = .thrown e) ∧ s' = s := by
  rw [create, ends_bind, ends_read, andThen_ok, ends_bind, exists_, ends_read, andThen_ok, if_pos hthere]
  exact ⟨⟨_, rfl⟩, rfl⟩

end CgroupManager

/-! ## The system -/

/-- What the caller catches; a manager waits for nobody. -/
def caught : Res CgroupError Unit → Option String
  | .ok _ => none
  | .thrown e => some e.message
  | .blocked => some ""

variable {σ : Type}

def cgroupOs (env : Env) (base : Os σ) : Os (σ × Tree) :=
  (base.beside Tree).refit
    (fun g f s =>
      let r := CgroupManager.perform env f ⟨.make g, s.2⟩
      (caught r.1, s.1, r.2.tree))
    (base.beside Tree).notify

theorem cgroupOs_leaves (env : Env) (base : Os σ) (P : Tree → Prop) :
    (cgroupOs env base).cgroupless.Leaves fun s => P s.2 :=
  ⟨fun _ _ h => h, fun _ _ _ h => h, fun _ h => h, fun _ _ h => h, fun _ _ _ h => h, fun _ _ _ h => h, fun _ _ h => h,
    fun _ h => h, fun _ h => h, fun _ _ _ _ h => h⟩

/-- Nothing is asked of the system. -/
theorem cgroupOs_bears_any (env : Env) (base : Os σ) (id : String) : (cgroupOs env base).Bears id fun _ => True :=
  ⟨cgroupOs_leaves env base fun _ => True, fun _ _ _ => trivial, fun _ _ _ => trivial,
    fun _ _ _ _ => ⟨trivial, fun _ _ _ _ => trivial⟩, fun _ _ _ _ _ => trivial, fun _ _ _ _ => trivial,
    fun _ _ _ _ => trivial⟩

/-- The directory `setupCgroups` makes for the container `id`. -/
def containerPath (id : String) : String := "/docker-cpp" ++ "/" ++ ("docker-cpp-" ++ id)

theorem cgroupPath_of {id : String} {g : CgroupConfig} (h : OfContainer id g) :
    (CgroupManager.make g).cgroupPath = containerPath id := by
  unfold CgroupManager.make buildCgroupPath containerPath
  rw [h.1, h.2, if_neg (by decide +kernel)]

theorem cgroupOs_bears_files (env : Env) (base : Os σ) {id : String} {t : Tree} (hpinned : t.pinned = true)
    (hthere : t.isDirectory (containerPath id) = true) :
    (cgroupOs env base).Bears id fun s => Tree.SameFiles t s.2 where
  others := cgroupOs_leaves env base (Tree.SameFiles t)
  fork _ _ hs := hs
  getMetrics _ _ hs := hs
  create g s hg hs := by
    have hdir : s.2.isDirectory (CgroupManager.make g).cgroupPath = true := by
      rw [cgroupPath_of hg, hs.isDirectory]
      exact hthere
    obtain ⟨⟨e, hr⟩, hstate⟩ := @CgroupManager.create_refused env ⟨.make g, s.2⟩ hdir
    constructor
    · show Tree.SameFiles t (CgroupManager.create env ⟨.make g, s.2⟩).2.tree
      rw [hstate]
      exact hs
    · intro hreturned
      have hcaught : caught (CgroupManager.create env ⟨.make g, s.2⟩).1 = none := hreturned
      rw [hr] at hcaught
      cases hcaught
  addProcess g pid s _ hs := CgroupManager.addProcess_like pid ⟨.make g, s.2⟩ hs
  destroy g s _ hs := CgroupManager.destroy_like hpinned ⟨.make g, s.2⟩ hs
  destruct g s _ hs := CgroupManager.destruct_like hpinned ⟨.make g, s.2⟩ hs

/-- Once the directory of a container's cgroup is there, no control file changes any more. -/
theorem limits_stay (env : Env) (base : Os σ) (config : ContainerConfig) (s : σ × Tree) (cb : Option EventCallback)
    (l : Listener) (before after : List Container.Member) {w : World (σ × Tree)}
    (hw : Container.callAll (cgroupOs env base) before (Container.fresh (cgroupOs env base) config s cb l) = w)
    (hpinned : w.os.2.pinned = true) (hthere : w.os.2.isDirectory (containerPath w.c.id) = true) :
    Tree.SameFiles w.os.2 (Container.callAll (cgroupOs env base) after w).os.2 := by
  have hfresh : Container.Managed (Container.fresh (cgroupOs env base) config s cb l).c.id (fun _ => True)
      (Container.fresh (cgroupOs env base) config s cb l) := ⟨rfl, by simp [Container.fresh, Container.make], trivial⟩
  have hbefore := Container.callAll_upheld (Container.managed_upheld (cgroupOs_bears_any env base _)) before hfresh
  rw [hw] at hbefore
  have hstart : Container.Managed w.c.id (fun s => Tree.SameFiles w.os.2 s.2) w :=
    ⟨rfl, hbefore.own ▸ hbefore.manager, Tree.SameFiles.refl _⟩
  exact (Container.callAll_upheld (Container.managed_upheld (cgroupOs_bears_files env base hpinned hthere)) after hstart).system

def withMemory (bytes : Nat) : ContainerConfig :=
  { id := "1", name := "web", image := "nginx", resources := { memoryLimit := bytes } }

/-- A cgroup file system with the parent directory. -/
def cgroupRoot : Tree := { dirs := [([], {}), (["docker-cpp"], {})] }

def firstStart : World (Container.Procs × Tree) :=
  Container.callAll (cgroupOs willing Container.calmOs) [.op .start]
    (Container.fresh (cgroupOs willing Container.calmOs) (withMemory 1000) ({}, cgroupRoot) none {})

theorem firstStart_made : firstStart.c.id = "1" ∧ firstStart.os.2.pinned = true ∧
    firstStart.os.2.isDirectory (containerPath "1") = true ∧
    firstStart.os.2.file? ["docker-cpp", "docker-cpp-1"] "memory.max" = some "1000" := by
  decide +kernel

/-- The second start runs with a limit of 2000 bytes configured and one of 1000 in place. -/
theorem a_new_limit_is_not_applied :
    let w := Container.callAll (cgroupOs willing Container.calmOs)
      [.updateConfig (withMemory 2000), .op (.stop 10), .op .start] firstStart
    w.c.state = .running ∧ w.c.config.resources.memoryLimit = 2000 ∧ Tree.SameFiles firstStart.os.2 w.os.2 ∧
      w.os.2.file? ["docker-cpp", "docker-cpp-1"] "memory.max" = some "1000" := by
  intro w
  obtain ⟨hid, hpinned, hthere, hlimit⟩ := firstStart_made
  have hsame : Tree.SameFiles firstStart.os.2 w.os.2 :=
    limits_stay willing Container.calmOs (withMemory 1000) ({}, cgroupRoot) none {} [.op .start] _ rfl hpinned
      (hid ▸ hthere)
  have hrunning : w.c.state = .running ∧ w.c.config.resources.memoryLimit = 2000 := by decide +kernel
  exact ⟨hrunning.1, hrunning.2, hsame, (hsame.file? _ _).trans hlimit⟩

end DockerCpp.Cgroup
