/-
  DockerCpp.Cgroup.Destruction — what the destructor of a cgroup manager does to the file
  tree (`destruct_eq`): nothing if its directory is not there; else the members are moved to
  the parent, if the system lets them, and the directory is removed, if the file system does.

  The destructor does not ask who made the directory. Each thing it does is for good:
  `burden`, the number of directories and of the processes that are not in the parent, never
  grows (`burden_destroyed_le`) and shrinks unless the directory is `Untouchable`
  (`burden_destroyed_lt`).
-/

import DockerCpp.Cgroup.Containment
import Mathlib.Algebra.Order.BigOperators.Group.List

namespace DockerCpp.Cgroup

open Lib Lib.Prog DockerCpp.Runtime

/-! ## Walks -/

namespace Tree

theorem walk_append (t : Tree) (p : Path) (cs cs' : List String) :
    t.walk p (cs ++ cs') = (t.walk p cs).bind fun q => t.walk q cs' := by
  induction cs generalizing p with
  | nil => rfl
  | cons c cs ih =>
    simp only [List.cons_append, walk, ih]
    split
    · rfl
    · split
      · rfl
      · split
        · rfl
        · rfl

/-- A walk stays among directories. -/
theorem walk_isDir {t : Tree} {p q : Path} {cs : List String} (hp : ∀ r, r <+: p → t.isDir r = true)
    (h : t.walk p cs = some q) : ∀ r, r <+: q → t.isDir r = true := by
  induction cs generalizing p with
  | nil =>
    obtain rfl : p = q := by simpa [walk] using h
    exact hp
  | cons c cs ih =>
    simp only [walk] at h
    split at h
    · exact ih hp h
    · split at h
      · exact ih (fun r hr => hp r (hr.trans (List.dropLast_prefix p))) h
      · split at h
        · rename_i hdir
          refine ih ?_ h
          intro r hr
          rcases List.prefix_concat_iff.mp hr with rfl | hr
          · exact hdir
          · exact hp r hr
        · cases h

theorem dir?_moveProcess (t : Tree) (p q : Path) (pid : Int) :
    (t.moveProcess p pid).dir? q = (t.dir? q).map fun d => { d with procs := movedProcs p q pid d.procs } := by
  unfold dir? moveProcess
  simp only
  induction t.dirs with
  | nil => rfl
  | cons e dirs ih =>
    rw [List.map_cons, List.lookup_cons, List.lookup_cons]
    by_cases he : q = e.1
    · subst he
      simp
    · have hne : (q == e.1) = false := by simpa using he
      simp only [hne, ih]

theorem isDir_moveProcess (t : Tree) (p q : Path) (pid : Int) : (t.moveProcess p pid).isDir q = t.isDir q := by
  unfold isDir
  rw [dir?_moveProcess, Option.isSome_map]

theorem locate_moveProcess (t : Tree) (p : Path) (pid : Int) (text : String) :
    (t.moveProcess p pid).locate text = t.locate text := by
  unfold locate
  rw [walk_congr (isDir_moveProcess t p · pid)]
  rfl

/-- The members of a directory moved to `p`. -/
def moveAll (t : Tree) (p : Path) (pids : List Int) : Tree := pids.foldl (·.moveProcess p ·) t

theorem locate_moveAll (t : Tree) (p : Path) (pids : List Int) (text : String) :
    (t.moveAll p pids).locate text = t.locate text := by
  induction pids generalizing t with
  | nil => rfl
  | cons pid pids ih =>
    show ((t.moveProcess p pid).moveAll p pids).locate text = _
    rw [ih, locate_moveProcess]

end Tree

/-! ## The destructor -/

namespace CgroupManager

def procsFile (dir : String) : String := dir ++ "/cgroup.procs"

theorem openDir_procs (env : Env) (dir : String) (s : CgroupState) :
    openDir env dir "cgroup.procs" s = if env.openFails (procsFile dir) then none else s.tree.locate dir := by
  unfold openDir procsFile
  rw [String.append_assoc]
  rfl

/-- The parent's `cgroup.procs` cannot be written. -/
def parentRefuses (env : Env) (m : CgroupManager) : Bool :=
  env.openFails (procsFile (parentDir m.config)) || env.writeFails (procsFile (parentDir m.config))

/-- The system lets the members of the cgroup be read and moved to the parent. -/
def movable (env : Env) (m : CgroupManager) : Bool :=
  !env.openFails (procsFile m.cgroupPath) && !parentRefuses env m

/-- The tree once `destroy` has moved the members of `q`. -/
def emptied (env : Env) (m : CgroupManager) (q : Path) (t : Tree) : Tree :=
  match t.locate (parentDir m.config) with
  | some p => if movable env m then t.moveAll p (t.members q) else t
  | none => t

def destroyed (env : Env) (m : CgroupManager) (t : Tree) : Tree :=
  match t.locate m.cgroupPath with
  | some q => ((emptied env m q t).removeAll q).2
  | none => t

variable {env : Env} {s : CgroupState}

theorem removeProcess_moves {p : Path} (hdir : s.tree.isDirectory s.mgr.cgroupPath = true)
    (hp : s.tree.locate (parentDir s.mgr.config) = some p) (hfree : parentRefuses env s.mgr = false) (pid : Int) :
    Ends (removeProcess env pid) s fun r s' => r = .ok () ∧ s' = { s with tree := s.tree.moveProcess p pid } := by
  unfold parentRefuses at hfree
  rw [Bool.or_eq_false_iff] at hfree
  have hwrite : env.writeFails (parentDir s.mgr.config ++ "/cgroup.procs") = false := hfree.2
  simp only [removeProcess, exists_, flush, ends_bind, ends_read, andThen_ok, hdir, openDir_procs, hfree.1, hp, hwrite,
    Bool.not_true, Bool.false_eq_true, if_false]
  exact ⟨rfl, rfl⟩

theorem removeProcess_refused (hdir : s.tree.isDirectory s.mgr.cgroupPath = true)
    (hrefused : s.tree.locate (parentDir s.mgr.config) = none ∨ parentRefuses env s.mgr = true) (pid : Int) :
    Ends (removeProcess env pid) s fun r s' => r ≠ .blocked ∧ s' = s := by
  simp only [removeProcess, exists_, flush, ends_bind, ends_read, andThen_ok, hdir, openDir_procs, Bool.not_true,
    Bool.false_eq_true, if_false]
  by_cases hopen : env.openFails (procsFile (parentDir s.mgr.config)) = true
  · simp [hopen]
  · rw [if_neg hopen]
    cases hp : s.tree.locate (parentDir s.mgr.config) with
    | none => simp
    | some p =>
      have hwrite : env.writeFails (procsFile (parentDir s.mgr.config)) = true := by
        simpa [hp, parentRefuses, hopen] using hrefused
      unfold procsFile at hwrite
      simp [hwrite]

theorem removeProcesses_moves {p : Path} (pids : List Int) (hdir : s.tree.isDirectory s.mgr.cgroupPath = true)
    (hp : s.tree.locate (parentDir s.mgr.config) = some p) (hfree : parentRefuses env s.mgr = false) :
    Ends (forEach (removeProcess env) pids) s fun r s' =>
      r = .ok () ∧ s' = { s with tree := s.tree.moveAll p pids } := by
  induction pids generalizing s with
  | nil => exact ⟨rfl, rfl⟩
  | cons pid pids ih =>
    simp only [forEach, ends_bind]
    refine Ends.mono (removeProcess_moves hdir hp hfree pid) ?_
    rintro r s' ⟨rfl, rfl⟩
    refine ih ?_ ?_ hfree
    · show ((s.tree.moveProcess p pid).locate s.mgr.cgroupPath).isSome = true
      rw [Tree.locate_moveProcess]
      exact hdir
    · show (s.tree.moveProcess p pid).locate _ = _
      rw [Tree.locate_moveProcess]
      exact hp

theorem removeProcesses_refused (pids : List Int) (hdir : s.tree.isDirectory s.mgr.cgroupPath = true)
    (hrefused : s.tree.locate (parentDir s.mgr.config) = none ∨ parentRefuses env s.mgr = true) :
    Ends (forEach (removeProcess env) pids) s fun r s' => r ≠ .blocked ∧ s' = s := by
  induction pids with
  | nil => simp [forEach]
  | cons pid pids ih =>
    simp only [forEach, ends_bind]
    refine Ends.mono (removeProcess_refused hdir hrefused pid) ?_
    rintro r s' ⟨hr, rfl⟩
    cases r with
    | ok _ => exact ih
    | thrown e => exact ⟨by simp, rfl⟩
    | blocked => exact absurd rfl hr

/-- The `try` of `destroy`. -/
theorem emptying_ends {q : Path} (hq : s.tree.locate s.mgr.cgroupPath = some q) :
    Ends (ignoreErrors do
      let processes ← getProcesses env
      forEach (removeProcess env) processes) s fun r s' =>
        r = .ok () ∧ s' = { s with tree := emptied env s.mgr q s.tree } := by
  have hdir : s.tree.isDirectory s.mgr.cgroupPath = true := by simp [Tree.isDirectory, hq]
  simp only [ignoreErrors, ends_tryCatch, ends_bind, getProcesses, exists_, ends_read, andThen_ok, hdir, openDir_procs,
    Bool.not_true, Bool.false_eq_true, if_false]
  by_cases hown : env.openFails (procsFile s.mgr.cgroupPath) = true
  · have hsame : emptied env s.mgr q s.tree = s.tree := by
      unfold emptied
      cases s.tree.locate (parentDir s.mgr.config) with
      | none => rfl
      | some p => simp [movable, hown]
    rw [if_pos hown, hsame]
    exact ⟨rfl, rfl⟩
  · rw [if_neg hown, hq]
    simp only [ends_read, andThen_ok]
    by_cases hrefused : s.tree.locate (parentDir s.mgr.config) = none ∨ parentRefuses env s.mgr = true
    · have hsame : emptied env s.mgr q s.tree = s.tree := by
        unfold emptied
        rcases hrefused with hnone | hrefuses
        · rw [hnone]
        · cases s.tree.locate (parentDir s.mgr.config) with
          | none => rfl
          | some p => simp [movable, hrefuses]
      rw [hsame]
      refine Ends.mono (removeProcesses_refused _ hdir hrefused) ?_
      rintro r s' ⟨hr, rfl⟩
      cases r with
      | ok _ => exact ⟨rfl, rfl⟩
      | thrown e => exact ⟨rfl, rfl⟩
      | blocked => exact absurd rfl hr
    · rw [not_or, Bool.not_eq_true] at hrefused
      obtain ⟨p, hp⟩ := Option.ne_none_iff_exists'.mp hrefused.1
      have hmoved : emptied env s.mgr q s.tree = s.tree.moveAll p (s.tree.members q) := by
        unfold emptied
        simp [hp, movable, hown, hrefused.2]
      rw [hmoved]
      refine Ends.mono (removeProcesses_moves _ hdir hp hrefused.2) ?_
      rintro r s' ⟨rfl, rfl⟩
      exact ⟨rfl, rfl⟩

theorem locate_emptied (env : Env) (m : CgroupManager) (q : Path) (t : Tree) (text : String) :
    (emptied env m q t).locate text = t.locate text := by
  unfold emptied
  split
  · split
    · exact Tree.locate_moveAll _ _ _ _
    · rfl
  · rfl

theorem destruct_eq (env : Env) (s : CgroupState) :
    destruct env s = (.ok (), { s with tree := destroyed env s.mgr s.tree }) := by
  have hends : Ends (destruct env) s fun r s' =>
      r = .ok () ∧ s' = { s with tree := destroyed env s.mgr s.tree } := by
    unfold destroyed
    show Ends (tryCatch (do if ← exists_ then destroy env) fun _ => pure ()) s _
    cases hq : s.tree.locate s.mgr.cgroupPath with
    | none => simp [exists_, Tree.isDirectory, hq]
    | some q =>
      have hdir : s.tree.isDirectory s.mgr.cgroupPath = true := by simp [Tree.isDirectory, hq]
      simp only [exists_, ends_tryCatch, ends_bind, ends_read, andThen_ok, hdir, if_true, destroy]
      refine Ends.mono (emptying_ends hq) ?_
      rintro r s' ⟨rfl, rfl⟩
      have hstill : (emptied env s.mgr q s.tree).locate s.mgr.cgroupPath = some q := by rw [locate_emptied, hq]
      simp only [andThen_ok, ends_bind, ends_read, hstill, ends_call]
      by_cases hremoved : ((emptied env s.mgr q s.tree).removeAll q).1 = true
      · rw [if_pos hremoved]
        exact ⟨rfl, rfl⟩
      · rw [if_neg hremoved]
        exact ⟨rfl, rfl⟩
  exact Prod.ext hends.1 hends.2

end CgroupManager

/-! ## What is left -/

namespace Tree

/-- A directory is there once, and a process is in one directory. -/
structure WellFormed (t : Tree) : Prop where
  once : (t.dirs.map (·.1)).Nodup
  single : ∀ e ∈ t.dirs, ∀ e' ∈ t.dirs, ∀ pid ∈ e.2.procs, pid ∈ e'.2.procs → e.1 = e'.1

/-- The directories, and the processes that are not in `p`. -/
def burden (p : Path) (t : Tree) : Nat :=
  t.dirs.length + (t.dirs.map fun e => if e.1 = p then 0 else e.2.procs.length).sum

variable {t : Tree} {p : Path}

theorem mem_dirs_of_dir? {d : Dir} (h : t.dir? p = some d) : (p, d) ∈ t.dirs := by
  unfold dir? at h
  obtain ⟨l, l', heq, -⟩ := List.lookup_eq_some_iff.mp h
  rw [heq]
  simp

theorem WellFormed.dir?_eq (h : t.WellFormed) {e : Path × Dir} (he : e ∈ t.dirs) : t.dir? e.1 = some e.2 := by
  cases hd : t.dir? e.1 with
  | none =>
    have hnone := List.lookup_eq_none_iff.mp hd e he
    simp at hnone
  | some d => rw [← List.inj_on_of_nodup_map h.once (mem_dirs_of_dir? hd) he rfl]

theorem paths_moveAll (t : Tree) (p : Path) (pids : List Int) :
    (t.moveAll p pids).dirs.map (·.1) = t.dirs.map (·.1) := by
  induction pids generalizing t with
  | nil => rfl
  | cons pid pids ih =>
    show ((t.moveProcess p pid).moveAll p pids).dirs.map (·.1) = _
    rw [ih]
    simp [moveProcess, Function.comp_def]

theorem pinned_moveAll (t : Tree) (p : Path) (pids : List Int) : (t.moveAll p pids).pinned = t.pinned := by
  induction pids generalizing t with
  | nil => rfl
  | cons pid pids ih => exact ih (t.moveProcess p pid)

theorem movedProcs_length_le (p q : Path) (pid : Int) (procs : List Int) :
    (if q = p then 0 else (movedProcs p q pid procs).length) ≤ if q = p then 0 else procs.length := by
  unfold movedProcs
  split
  · exact Nat.le_refl _
  · exact List.length_filter_le _ _

theorem burden_moveProcess_le (t : Tree) (p : Path) (pid : Int) : burden p (t.moveProcess p pid) ≤ burden p t := by
  unfold burden moveProcess
  simp only [List.length_map, List.map_map]
  refine Nat.add_le_add_left (List.sum_le_sum ?_) _
  exact fun e _ => movedProcs_length_le p e.1 pid e.2.procs

/-- A process that comes from elsewhere. -/
theorem burden_moveProcess_lt {pid : Int} {e : Path × Dir} (he : e ∈ t.dirs) (hp : e.1 ≠ p)
    (hpid : pid ∈ e.2.procs) : burden p (t.moveProcess p pid) < burden p t := by
  unfold burden moveProcess
  simp only [List.length_map, List.map_map]
  refine Nat.add_lt_add_left (List.sum_lt_sum _ _ (fun e _ => movedProcs_length_le p e.1 pid e.2.procs) ⟨e, he, ?_⟩) _
  have hlt : (e.2.procs.filter (· != pid)).length < e.2.procs.length := by
    rw [List.length_filter_lt_length_iff_exists]
    exact ⟨pid, hpid, by simp⟩
  simpa [movedProcs, hp] using hlt

theorem burden_moveAll_le (t : Tree) (p : Path) (pids : List Int) : burden p (t.moveAll p pids) ≤ burden p t := by
  induction pids generalizing t with
  | nil => exact Nat.le_refl _
  | cons pid pids ih => exact Nat.le_trans (ih (t.moveProcess p pid)) (burden_moveProcess_le t p pid)

theorem burden_moveAll_members_lt {p q : Path} (hne : q ≠ p) (hq : t.members q ≠ []) :
    burden p (t.moveAll p (t.members q)) < burden p t := by
  unfold members at hq ⊢
  cases hd : t.dir? q with
  | none => simp [hd] at hq
  | some d =>
    cases hprocs : d.procs with
    | nil => simp [hd, hprocs] at hq
    | cons pid pids =>
      have hmove : burden p (t.moveProcess p pid) < burden p t :=
        burden_moveProcess_lt (mem_dirs_of_dir? hd) hne (by simp [hprocs])
      simp only [Option.map_some, Option.getD_some, hprocs]
      exact Nat.lt_of_le_of_lt (burden_moveAll_le (t.moveProcess p pid) p pids) hmove

theorem burden_removeAll_le (t : Tree) (p q : Path) : burden p (t.removeAll q).2 ≤ burden p t := by
  unfold removeAll
  split
  · exact Nat.le_refl _
  · have hsub := List.filter_sublist (p := fun e : Path × Dir => !q.isPrefixOf e.1) (l := t.dirs)
    exact Nat.add_le_add hsub.length_le (List.Sublist.sum_le_sum (hsub.map _) fun _ _ => Nat.zero_le _)

theorem burden_removeAll_lt {q r : Path} (p : Path) (hpinned : t.pinned = false)
    (hr : r ∈ t.dirs.map (·.1)) (hbelow : q <+: r) : burden p (t.removeAll q).2 < burden p t := by
  obtain ⟨e, he, rfl⟩ := List.mem_map.mp hr
  unfold removeAll
  rw [if_neg (by simp [hpinned])]
  have hsub := List.filter_sublist (p := fun e : Path × Dir => !q.isPrefixOf e.1) (l := t.dirs)
  refine Nat.add_lt_add_of_lt_of_le ?_ (List.Sublist.sum_le_sum (hsub.map _) fun _ _ => Nat.zero_le _)
  rw [List.length_filter_lt_length_iff_exists]
  exact ⟨e, he, by simpa using hbelow⟩

/-- A member of `p` stays where it is. -/
theorem moveProcess_member (h : t.WellFormed) {pid : Int} (hpid : pid ∈ t.members p) : t.moveProcess p pid = t := by
  unfold members at hpid
  cases hd : t.dir? p with
  | none => simp [hd] at hpid
  | some d =>
    simp only [hd, Option.map_some, Option.getD_some] at hpid
    have hmem := mem_dirs_of_dir? hd
    have hsame : ∀ e ∈ t.dirs, (e.1, { e.2 with procs := movedProcs p e.1 pid e.2.procs }) = e := by
      intro e he
      by_cases hp : e.1 = p
      · have hdir := h.dir?_eq he
        rw [hp, hd, Option.some.injEq] at hdir
        have hin : pid ∈ e.2.procs := hdir ▸ hpid
        have hkeep : movedProcs p e.1 pid e.2.procs = e.2.procs := by
          unfold movedProcs
          rw [if_pos hp, if_pos hin]
        rw [hkeep]
      · have hout : pid ∉ e.2.procs := fun hin => hp (h.single e he (p, d) hmem pid hin hpid)
        have hfilter : e.2.procs.filter (· != pid) = e.2.procs := by
          rw [List.filter_eq_self]
          exact fun a ha => by simpa using fun heq : a = pid => hout (heq ▸ ha)
        simp [movedProcs, hp, hfilter]
    unfold moveProcess
    rw [List.map_congr_left (g := id) hsame, List.map_id]

theorem moveAll_members (h : t.WellFormed) {pids : List Int} (hpids : ∀ pid ∈ pids, pid ∈ t.members p) :
    t.moveAll p pids = t := by
  induction pids with
  | nil => rfl
  | cons pid pids ih =>
    show (t.moveProcess p pid).moveAll p pids = t
    rw [moveProcess_member h (hpids pid List.mem_cons_self)]
    exact ih fun pid' hmem => hpids pid' (List.mem_cons_of_mem _ hmem)

end Tree

namespace CgroupManager

/-- The directory is not there; or it cannot be removed, and its members stay: there are
    none, or they cannot be moved, or the directory is its own parent. -/
def Untouchable (env : Env) (m : CgroupManager) (t : Tree) : Prop :=
  ∀ q, t.locate m.cgroupPath = some q → t.pinned = true ∧
    (t.members q = [] ∨ movable env m = false ∨ ∀ p, t.locate (parentDir m.config) = some p → p = q)

variable {m : CgroupManager} {t : Tree} {env : Env} {p : Path}

theorem destroyed_untouchable (hw : t.WellFormed) (h : Untouchable env m t) : destroyed env m t = t := by
  unfold destroyed
  cases hq : t.locate m.cgroupPath with
  | none => rfl
  | some q =>
    obtain ⟨hpinned, hmembers⟩ := h q hq
    have hsame : emptied env m q t = t := by
      unfold emptied
      cases hp : t.locate (parentDir m.config) with
      | none => rfl
      | some p =>
        rcases hmembers with hnone | hstay | hself
        · simp [hnone, Tree.moveAll]
        · simp [hstay]
        · obtain rfl := hself p hp
          simp only [Tree.moveAll_members hw fun _ hmem => hmem, ite_self]
    simp [hsame, Tree.removeAll, hpinned]

theorem burden_emptied_le
    (hp : t.locate (parentDir m.config) = some p) (q : Path) : Tree.burden p (emptied env m q t) ≤ Tree.burden p t := by
  unfold emptied
  rw [hp]
  simp only
  split
  · exact Tree.burden_moveAll_le t p _
  · exact Nat.le_refl _

theorem burden_destroyed_le (env : Env)
    (hp : t.locate (parentDir m.config) = some p) : Tree.burden p (destroyed env m t) ≤ Tree.burden p t := by
  unfold destroyed
  cases t.locate m.cgroupPath with
  | none => exact Nat.le_refl _
  | some q => exact Nat.le_trans (Tree.burden_removeAll_le _ p q) (burden_emptied_le hp q)

theorem burden_destroyed_lt (hp : t.locate (parentDir m.config) = some p)
    (hdir : ∀ q, t.locate m.cgroupPath = some q → ∃ r ∈ t.dirs.map (·.1), q <+: r)
    (h : ¬ Untouchable env m t) : Tree.burden p (destroyed env m t) < Tree.burden p t := by
  unfold Untouchable at h
  push Not at h
  obtain ⟨q, hq, hwhy⟩ := h
  unfold destroyed
  simp only [hq]
  have hpaths : (emptied env m q t).dirs.map (·.1) = t.dirs.map (·.1) := by
    unfold emptied
    rw [hp]
    simp only
    split
    · exact Tree.paths_moveAll t p _
    · rfl
  by_cases hpinned : t.pinned = true
  · obtain ⟨hmembers, hmovable, p', hp', hne⟩ := hwhy hpinned
    obtain rfl : p = p' := by simpa [hp] using hp'
    have hmoved : emptied env m q t = t.moveAll p (t.members q) := by
      unfold emptied
      simp [hp, hmovable]
    refine Nat.lt_of_le_of_lt (Tree.burden_removeAll_le _ p q) ?_
    rw [hmoved]
    exact Tree.burden_moveAll_members_lt hne.symm hmembers
  · rw [Bool.not_eq_true] at hpinned
    obtain ⟨r, hr, hbelow⟩ := hdir q hq
    refine Nat.lt_of_lt_of_le (Tree.burden_removeAll_lt p ?_ (hpaths ▸ hr) hbelow) (burden_emptied_le hp q)
    unfold emptied
    rw [hp]
    simp only
    split
    · rw [Tree.pinned_moveAll, hpinned]
    · exact hpinned

end CgroupManager

end DockerCpp.Cgroup
