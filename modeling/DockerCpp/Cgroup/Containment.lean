/-
  DockerCpp.Cgroup.Containment — where a container's cgroup is.

  The id of a container becomes a part of the path its cgroup manager creates and removes,
  and nothing on the way looks at it: `validate` checks the name, `createContainer` that the
  id is not taken. The parts of the id after its first slash therefore walk freely. The
  cgroup is a child of its parent directory exactly when they come back (`childName`), and
  two of them are different directories exactly when they come back to different names
  (`cgroup_paths_iff`). The ids `isValidContainerId` accepts do (`valid_ids_are_kept_apart`).
-/

import DockerCpp.Cgroup.Manager
import DockerCpp.Lib.Split
import DockerCpp.Runtime.ContainerConfig
import DockerCpp.Runtime.RegistryIndex

namespace DockerCpp.Cgroup

open Lib DockerCpp.Runtime

def lexical (text : String) : Path := LexPath.resolve (components text)

def parentOf (c : Container) : Path := lexical (Container.cgroupConfig c).parentPath

/-- The directory the container's cgroup manager creates and removes. -/
def cgroupDir (c : Container) : Path := lexical (buildCgroupPath (Container.cgroupConfig c))

def DirectChild (c : Container) : Prop := ∃ name, cgroupDir c = parentOf c ++ [name]

/-- The child of the parent directory an id leads to, if it leads to one: its parts after
    the first slash go nowhere, or to a sibling, or over the root and back. -/
def childName (id : String) : Option String :=
  match components id with
  | [] => none
  | first :: rest =>
    match LexPath.reduce rest with
    | (0, []) => some ("docker-cpp-" ++ first)
    | (1, [name]) => some name
    | (_ + 2, [parent, name]) => if parent = "docker-cpp" then some name else none
    | _ => none

/-! ## The path -/

theorem components_slash (s t : String) : components (s ++ "/" ++ t) = components s ++ components t := by
  unfold components
  have hslash : "/".toList = ['/'] := rfl
  rw [String.toList_append, String.toList_append, hslash, List.append_assoc, List.singleton_append,
    List.splitOn_append_cons_self, List.map_append]

theorem components_append {pre : String} (h : '/' ∉ pre.toList) (s : String) :
    components (pre ++ s) = (components s).modifyHead (pre ++ ·) := by
  unfold components
  rw [String.toList_append, splitOn_append_of_notMem h]
  cases s.toList.splitOn '/' with
  | nil => rfl
  | cons first rest => simp [String.ofList_append]

theorem components_ne_nil (s : String) : components s ≠ [] := by
  unfold components
  simp [List.splitOn_ne_nil]

theorem components_of_no_slash {s : String} (h : '/' ∉ s.toList) : components s = [s] := by
  have happend := components_append h ""
  rw [String.append_empty] at happend
  rw [happend]
  simp [components]

@[simp] theorem cgroupConfig_parentPath (c : Container) : (Container.cgroupConfig c).parentPath = "/docker-cpp" := by
  unfold Container.cgroupConfig
  simp only
  split <;> split <;> split <;> rfl

@[simp] theorem cgroupConfig_name (c : Container) : (Container.cgroupConfig c).name = "docker-cpp-" ++ c.id := by
  unfold Container.cgroupConfig Container.generateCgroupName
  simp only
  split <;> split <;> split <;> rfl

theorem parentOf_eq (c : Container) : parentOf c = ["docker-cpp"] := by
  unfold parentOf
  rw [cgroupConfig_parentPath]
  decide +kernel

theorem push_first (first : String) :
    LexPath.push ["docker-cpp"] ("docker-cpp-" ++ first) = ["docker-cpp", "docker-cpp-" ++ first] := by
  have hlong : ∀ s : String, s.toList.length < 3 → "docker-cpp-" ++ first ≠ s := by
    intro s hs heq
    have hlen := congrArg (fun t : String => t.toList.length) heq
    simp only [String.toList_append, List.length_append] at hlen
    have hpre : "docker-cpp-".toList.length = 11 := by decide +kernel
    omega
  unfold LexPath.push
  rw [if_neg (not_or.mpr ⟨hlong "" (by decide +kernel), hlong "." (by decide +kernel)⟩),
    if_neg (hlong ".." (by decide +kernel))]
  rfl

/-- The walk of the id's parts starts below the parent. -/
theorem cgroupDir_eq {c : Container} {first : String} {rest : List String} (h : components c.id = first :: rest) :
    cgroupDir c = LexPath.climb ["docker-cpp", "docker-cpp-" ++ first] (LexPath.reduce rest).1 ++
      (LexPath.reduce rest).2 := by
  have hparts : components (buildCgroupPath (Container.cgroupConfig c)) =
      components "/docker-cpp" ++ ("docker-cpp-" ++ first) :: rest := by
    unfold buildCgroupPath
    rw [cgroupConfig_parentPath, cgroupConfig_name, if_neg (by decide +kernel), components_slash,
      components_append (by decide +kernel), h]
    rfl
  have hroot : LexPath.resolveFrom [] (components "/docker-cpp") = ["docker-cpp"] := by decide +kernel
  unfold cgroupDir lexical LexPath.resolve
  rw [hparts, LexPath.resolveFrom, List.foldl_append, List.foldl_cons]
  show LexPath.resolveFrom (LexPath.push (LexPath.resolveFrom [] (components "/docker-cpp")) _) rest = _
  rw [hroot, push_first, LexPath.resolveFrom_eq]

/-- The cgroup is the child its id leads to, and no child if it leads to none. -/
theorem cgroupDir_child_iff (c : Container) (name : String) :
    cgroupDir c = ["docker-cpp", name] ↔ childName c.id = some name := by
  unfold childName
  cases hc : components c.id with
  | nil => exact absurd hc (components_ne_nil _)
  | cons first rest =>
    rw [cgroupDir_eq hc]
    simp only
    rcases LexPath.reduce rest with ⟨up, down⟩
    match up, down with
    | 0, [] => simp [LexPath.climb]
    | 0, n :: ns => simp [LexPath.climb]
    | 1, [] => simp [LexPath.climb]
    | 1, [n] => simp [LexPath.climb]
    | 1, n :: n' :: ns => simp [LexPath.climb]
    | up + 2, [] => simp [LexPath.climb]
    | up + 2, [n] => simp [LexPath.climb]
    | up + 2, [n, n'] =>
      by_cases hn : n = "docker-cpp"
      · simp [LexPath.climb, hn]
      · simp [LexPath.climb, hn]
    | up + 2, n :: n' :: n'' :: ns => simp [LexPath.climb]

theorem directChild_iff (c : Container) : DirectChild c ↔ ∃ name, childName c.id = some name := by
  unfold DirectChild
  rw [parentOf_eq]
  exact exists_congr fun name => cgroupDir_child_iff c name

/-! ## Two containers -/

/-- Two cgroups are children of their parent, and different ones for different ids, exactly
    when both ids lead to a child and not to the same. -/
theorem cgroup_paths_iff (c c' : Container) :
    (DirectChild c ∧ DirectChild c' ∧ (c.id ≠ c'.id → cgroupDir c ≠ cgroupDir c')) ↔
      (childName c.id).isSome ∧ (childName c'.id).isSome ∧
        (c.id ≠ c'.id → childName c.id ≠ childName c'.id) := by
  rw [directChild_iff, directChild_iff, Option.isSome_iff_exists, Option.isSome_iff_exists]
  refine and_congr_right ?_
  rintro ⟨name, hname⟩
  refine and_congr_right ?_
  rintro ⟨name', hname'⟩
  have hdir := (cgroupDir_child_iff c name).mpr hname
  have hdir' := (cgroupDir_child_iff c' name').mpr hname'
  rw [hdir, hdir', hname, hname']
  simp

theorem childName_of_no_slash {id : String} (h : '/' ∉ id.toList) : childName id = some ("docker-cpp-" ++ id) := by
  unfold childName
  rw [components_of_no_slash h]
  rfl

theorem no_slash_of_valid {id : String} (h : isValidContainerId id = true) : '/' ∉ id.toList := by
  intro hmem
  unfold isValidContainerId at h
  rw [Bool.and_eq_true, List.all_eq_true] at h
  exact absurd (h.2 '/' hmem) (by decide)

/-- The check `createContainer` does not make is enough. -/
theorem valid_ids_are_kept_apart {c c' : Container} (h : isValidContainerId c.id = true)
    (h' : isValidContainerId c'.id = true) (hne : c.id ≠ c'.id) :
    DirectChild c ∧ DirectChild c' ∧ cgroupDir c ≠ cgroupDir c' := by
  have hname := childName_of_no_slash (no_slash_of_valid h)
  have hname' := childName_of_no_slash (no_slash_of_valid h')
  refine ⟨(directChild_iff c).mpr ⟨_, hname⟩, (directChild_iff c').mpr ⟨_, hname'⟩, ?_⟩
  rw [(cgroupDir_child_iff c _).mpr hname, (cgroupDir_child_iff c' _).mpr hname']
  intro heq
  simp only [List.cons.injEq, and_true, true_and] at heq
  exact hne (String.append_right_inj _ |>.mp heq)

/-- The registry creates a container whose cgroup is `/etc`, and two whose cgroups are one
    directory. -/
theorem an_id_walks_out_of_the_parent :
    let s := runFrom (Registry.step Container.calmOs) (Registry.empty Registry.anyHeap {})
      [.createContainer { id := "x/../../etc", name := "a", image := "nginx" },
        .createContainer { id := "y", name := "b", image := "nginx" },
        .createContainer { id := "y/", name := "c", image := "nginx" }]
    s.containers.toList = [("x/../../etc", 0), ("y", 1), ("y/", 2)] ∧ cgroupDir (s.heap 0) = ["etc"] ∧
      cgroupDir (s.heap 1) = ["docker-cpp", "docker-cpp-y"] ∧ cgroupDir (s.heap 1) = cgroupDir (s.heap 2) := by
  decide +kernel

end DockerCpp.Cgroup
