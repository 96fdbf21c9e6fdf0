/-
  DockerCpp.Cgroup.Tree — the files a cgroup manager works on: directories with their
  control files and their member processes.

  A path in the source is a string; `locate` walks its components, each of which must be a
  directory, so that `.` and `..` are resolved as the system does (there are no links). A
  `cgroup.procs` is not kept as text: it is the list of members, and a pid written to it
  moves the process. Every directory has one.

  `pinned` is a cgroup file system: the kernel refuses to unlink control files, and
  `std::filesystem::remove_all` fails on the first. On another file system it removes the
  directory and everything below.
-/

import DockerCpp.Lib.Assoc
import DockerCpp.Lib.LexPath
import Mathlib.Data.String.Basic

namespace DockerCpp.Cgroup

abbrev Path := List String

structure Dir where
  /-- The control files but `cgroup.procs`, with their contents. -/
  files : List (String × String) := []
  procs : List Int := []
  deriving DecidableEq, Repr

structure Tree where
  dirs : List (Path × Dir)
  cwd : Path := []
  pinned : Bool := true
  deriving DecidableEq, Repr

/-- The parts of a path between its slashes. -/
def components (text : String) : List String := (text.toList.splitOn '/').map String.ofList

namespace Tree

def dir? (t : Tree) (p : Path) : Option Dir := t.dirs.lookup p

def isDir (t : Tree) (p : Path) : Bool := p.isEmpty || (t.dir? p).isSome

def walk (t : Tree) : Path → List String → Option Path
  | p, [] => some p
  | p, c :: rest =>
    if c = "" ∨ c = "." then t.walk p rest
    else if c = ".." then t.walk p.dropLast rest
    else if t.isDir (p ++ [c]) then t.walk (p ++ [c]) rest
    else none

def origin (t : Tree) (text : String) : Path := if text.toList.head? = some '/' then [] else t.cwd

/-- The directory a text denotes. -/
def locate (t : Tree) (text : String) : Option Path :=
  if text = "" then none else t.walk (t.origin text) (components text)

/-- `exists(p) && is_directory(p)`. -/
def isDirectory (t : Tree) (text : String) : Bool := (t.locate text).isSome

/-- `std::filesystem::exists`: a directory, or a control file of one. -/
def exists_ (t : Tree) (text : String) : Bool :=
  t.isDirectory text ||
    match t.walk (t.origin text) (components text).dropLast with
    | some p =>
      match t.dir? p with
      | some d => (components text).getLast? == some "cgroup.procs" ||
          d.files.any fun f => (components text).getLast? == some f.1
      | none => false
    | none => false

def members (t : Tree) (p : Path) : List Int := ((t.dir? p).map (·.procs)).getD []

def file? (t : Tree) (p : Path) (name : String) : Option String := (t.dir? p).bind (·.files.lookup name)

def setFile (name content : String) (d : Dir) : Dir :=
  { d with files := d.files.filter (·.1 != name) ++ [(name, content)] }

def updateDir (t : Tree) (p : Path) (f : Dir → Dir) : Tree :=
  { t with dirs := t.dirs.map fun e => if e.1 = p then (e.1, f e.2) else e }

def writeFile (t : Tree) (p : Path) (name content : String) : Tree := t.updateDir p (setFile name content)

/-- What the members of a directory become when `pid` moves to `p`. -/
def movedProcs (p q : Path) (pid : Int) (procs : List Int) : List Int :=
  if q = p then (if pid ∈ procs then procs else procs ++ [pid]) else procs.filter (· != pid)

/-- A pid written to the `cgroup.procs` of `p`. -/
def moveProcess (t : Tree) (p : Path) (pid : Int) : Tree :=
  { t with dirs := t.dirs.map fun e => (e.1, { e.2 with procs := movedProcs p e.1 pid e.2.procs }) }

def makeDir (t : Tree) (p : Path) : Tree := if t.isDir p then t else { t with dirs := t.dirs ++ [(p, {})] }

/-- `create_directories` from `p` on. -/
def makeDirs (t : Tree) : Path → List String → Tree
  | _, [] => t
  | p, c :: rest => (t.makeDir (Lib.LexPath.push p c)).makeDirs (Lib.LexPath.push p c) rest

/-- `std::filesystem::remove_all`: whether it succeeded, and the tree. -/
def removeAll (t : Tree) (p : Path) : Bool × Tree :=
  if t.pinned then (false, t) else (true, { t with dirs := t.dirs.filter fun e => !p.isPrefixOf e.1 })

/-! ## Walks -/

/-- A walk only asks which paths are directories. -/
theorem walk_congr {t t' : Tree} (h : ∀ q, t'.isDir q = t.isDir q) (p : Path) (cs : List String) :
    t'.walk p cs = t.walk p cs := by
  induction cs generalizing p with
  | nil => rfl
  | cons c cs ih => simp only [walk, ih, h]

/-! ## Writes -/

theorem lookup_setFile (name content : String) (d : Dir) (other : String) :
    (setFile name content d).files.lookup other = if other = name then some content else d.files.lookup other := by
  unfold setFile
  rw [List.lookup_append]
  induction d.files with
  | nil =>
    by_cases h : other = name
    · simp [h]
    · rw [if_neg h, Lib.Assoc.lookup_cons_of_ne h]
      rfl
  | cons f files ih =>
    obtain ⟨key, text⟩ := f
    by_cases hkey : key = name
    · rw [List.filter_cons_of_neg (by simp [hkey]), ih]
      by_cases h : other = name
      · rw [if_pos h, if_pos h]
      · rw [if_neg h, if_neg h, Lib.Assoc.lookup_cons_of_ne (hkey ▸ h)]
    · rw [List.filter_cons_of_pos (by simp [hkey])]
      by_cases hother : other = key
      · rw [hother, if_neg hkey]
        simp
      · rw [Lib.Assoc.lookup_cons_of_ne hother, Lib.Assoc.lookup_cons_of_ne hother, ih]

theorem dir?_updateDir (t : Tree) (p q : Path) (f : Dir → Dir) :
    (t.updateDir p f).dir? q = if q = p then (t.dir? q).map f else t.dir? q := by
  unfold dir? updateDir
  simp only
  induction t.dirs with
  | nil => simp
  | cons e dirs ih =>
    obtain ⟨r, d⟩ := e
    rw [List.map_cons]
    by_cases hq : q = r
    · by_cases hp : r = p
      · simp [hq, hp]
      · simp [hq, hp]
    · by_cases hp : r = p
      · simp only [hp, if_true]
        rw [Lib.Assoc.lookup_cons_of_ne (hp ▸ hq), Lib.Assoc.lookup_cons_of_ne (hp ▸ hq), ih]
      · simp only [hp, if_false]
        rw [Lib.Assoc.lookup_cons_of_ne hq, Lib.Assoc.lookup_cons_of_ne hq, ih]

theorem isDir_writeFile (t : Tree) (p q : Path) (name content : String) :
    (t.writeFile p name content).isDir q = t.isDir q := by
  unfold isDir writeFile
  rw [dir?_updateDir]
  split
  · rw [Option.isSome_map]
  · rfl

theorem locate_writeFile (t : Tree) (p : Path) (name content text : String) :
    (t.writeFile p name content).locate text = t.locate text := by
  unfold locate
  rw [walk_congr (isDir_writeFile t p · name content)]
  rfl

theorem file?_writeFile {t : Tree} {p : Path} (h : (t.dir? p).isSome = true) (name content : String) (q : Path)
    (other : String) :
    (t.writeFile p name content).file? q other = if q = p ∧ other = name then some content else t.file? q other := by
  unfold file? writeFile
  rw [dir?_updateDir]
  by_cases hq : q = p
  · obtain ⟨d, hd⟩ := Option.isSome_iff_exists.mp h
    rw [hq, if_pos rfl, hd]
    simp [lookup_setFile]
  · simp [hq]

/-! ## New directories -/

theorem isDir_makeDir (t : Tree) (p q : Path) : (t.makeDir p).isDir q = true ↔ t.isDir q = true ∨ q = p := by
  unfold makeDir
  split
  · rename_i hp
    constructor
    · exact Or.inl
    · intro h
      rcases h with h | rfl
      · exact h
      · exact hp
  · unfold isDir dir?
    rw [List.lookup_append]
    by_cases hq : q = p
    · simp [hq]
    · rw [Lib.Assoc.lookup_cons_of_ne hq]
      simp [hq]

theorem isDir_makeDirs {t : Tree} {q : Path} (h : t.isDir q = true) (p : Path) (cs : List String) :
    (t.makeDirs p cs).isDir q = true := by
  induction cs generalizing t p with
  | nil => exact h
  | cons c cs ih => exact ih ((isDir_makeDir t _ q).mpr (Or.inl h)) _

theorem makeDirs_cwd (t : Tree) (p : Path) (cs : List String) : (t.makeDirs p cs).cwd = t.cwd := by
  induction cs generalizing t p with
  | nil => rfl
  | cons c cs ih =>
    refine (ih _ _).trans ?_
    unfold makeDir
    split
    · rfl
    · rfl

/-- The components of a path can be walked once its directories are made. -/
theorem walk_makeDirs {t t' : Tree} {p : Path} {cs : List String}
    (h : ∀ q, (t.makeDirs p cs).isDir q = true → t'.isDir q = true) :
    t'.walk p cs = some (Lib.LexPath.resolveFrom p cs) := by
  induction cs generalizing t p with
  | nil => rfl
  | cons c cs ih =>
    have hrest := ih h
    have hmade : t'.isDir (Lib.LexPath.push p c) = true :=
      h _ (isDir_makeDirs ((isDir_makeDir t _ _).mpr (Or.inr rfl)) _ cs)
    show t'.walk p (c :: cs) = some (Lib.LexPath.resolveFrom (Lib.LexPath.push p c) cs)
    rw [← hrest, walk]
    unfold Lib.LexPath.push at hmade ⊢
    split
    · rfl
    · split
      · rfl
      · rename_i hstay hup
        rw [if_neg hstay, if_neg hup] at hmade
        rw [if_pos hmade]

theorem isDirectory_makeDirs (t : Tree) {text : String} (h : text ≠ "") :
    (t.makeDirs (t.origin text) (components text)).isDirectory text = true := by
  have horigin : (t.makeDirs (t.origin text) (components text)).origin text = t.origin text := by
    unfold origin
    rw [makeDirs_cwd]
  unfold isDirectory locate
  rw [if_neg h, horigin, walk_makeDirs (t := t) fun _ hq => hq]
  rfl

end Tree

end DockerCpp.Cgroup
