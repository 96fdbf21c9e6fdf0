/-
  DockerCpp.Runtime.NamespaceHandles — namespace managers as owners of file descriptors
  (`namespace_manager.cpp`).

  A manager has a descriptor: 0 when it made its namespace itself, and one that the client
  hands over when it is to hold a namespace that exists. What is handed over at a positive
  descriptor is closed by the destructor or by an assignment over the manager, and moves
  leave -1 behind. Beside the managers is the descriptor table of the process: descriptors
  are numbers that are used again, so a manager is given the file it was handed (`file`) as
  a mark of what its descriptor is to name. `closes` is what the managers have closed. Both
  are there for the statements only.

  - Throughout a run every descriptor that a manager holds names the file it was handed
    and is held once, iff the client handed over only open descriptors that no manager held
    and closed none that one did (`sound_throughout_iff`).
  - In such a run every file handed over at a positive descriptor is open while exactly one
    manager holds it, and has been closed once when none does (`closed_once`).
  - `joinNamespace` leaves the table as it was however it ends (`joinNamespace_files`).
-/

import DockerCpp.Lib.Owners
import DockerCpp.Lib.Run
import DockerCpp.Runtime.Container

namespace DockerCpp.Runtime.NamespaceHandles

open Lib

/-- The `NAMESPACE_*` errors of a `ContainerError`. -/
inductive NamespaceError where
  | creationFailed (message : String)
  | notFound (message : String)
  | joinFailed (message : String)
  deriving DecidableEq, Repr

def getNamespacePath : NamespaceType → String
  | .pid => "pid"
  | .network => "net"
  | .mount => "mnt"
  | .uts => "uts"
  | .ipc => "ipc"
  | .user => "user"
  | .cgroup => "cgroup"

structure Owner where
  ns : NamespaceManager
  /-- What the descriptor named when it was handed over. -/
  file : Option Nat := none
  deriving DecidableEq, Repr

/-- What a move leaves behind. -/
def Owner.movedFrom (o : Owner) : Owner := { o with ns := { o.ns with fd := -1 } }

structure State where
  /-- The descriptor table: which file, counted in the order they were opened. -/
  files : Nat → Option Nat := fun _ => none
  opened : Nat := 0
  objects : Nat → Option Owner := fun _ => none
  closes : List (Option Nat) := []
  /-- Handed over at a positive descriptor. -/
  handed : List (Option Nat) := []

namespace State

/-- The system gives out a descriptor that is free. -/
def openFile (s : State) (fd : Nat) : State :=
  { s with files := Function.update s.files fd (some s.opened), opened := s.opened + 1 }

def closeFile (s : State) (fd : Nat) : State := { s with files := Function.update s.files fd none }

def put (s : State) (a : Nat) (o : Option Owner) : State := { s with objects := Function.update s.objects a o }

/-- `closeNamespace`, as far as the system sees it. -/
def closeNamespace (s : State) (o : Owner) : State :=
  if 0 < o.ns.fd then { s.closeFile o.ns.fd.toNat with closes := s.files o.ns.fd.toNat :: s.closes } else s

/-- `NamespaceManager(type)`, with what `unshare` answers. -/
def create (s : State) (a : Nat) (type : NamespaceType) (unshare : Option String) : Except NamespaceError Unit × State :=
  match unshare with
  | some text => (.error (.creationFailed ("Failed to create namespace: " ++ text)), s)
  | none => (.ok (), s.put a (some { ns := ⟨type, 0⟩ }))

/-- `NamespaceManager(type, fd)`. -/
def adopt (s : State) (a : Nat) (type : NamespaceType) (fd : Int) : Except NamespaceError Unit × State :=
  if fd < 0 then (.error (.notFound "Invalid file descriptor for namespace"), s)
  else
    let file := s.files fd.toNat
    (.ok (), { s.put a (some { ns := ⟨type, fd⟩, file := file }) with
      handed := if 0 < fd then file :: s.handed else s.handed })

def move (s : State) (dst src : Nat) (o : Owner) : State := { s with objects := moved s.objects dst src o.movedFrom }

/-- `openNamespace`: the path, and the descriptor or the error of `open`. -/
def openNamespace (s : State) (pid : Int) (type : NamespaceType) (answer : Except String Nat) :
    Except NamespaceError Nat × State :=
  match answer with
  | .error text => (.error (.notFound ("Failed to open namespace file: /proc/" ++ toString pid ++ "/ns/" ++
      getNamespacePath type ++ " - " ++ text)), s)
  | .ok fd => (.ok fd, s.openFile fd)

/-- `joinNamespace`; the test for a negative descriptor is never met, `openNamespace` throws. -/
def joinNamespace (s : State) (pid : Int) (type : NamespaceType) (answer : Except String Nat) (setns : Option String) :
    Except NamespaceError Unit × State :=
  match s.openNamespace pid type answer with
  | (.error e, s) => (.error e, s)
  | (.ok fd, s) =>
    let s := s.closeFile fd
    match setns with
    | some text => (.error (.joinFailed ("Failed to join namespace: " ++ text)), s)
    | none => (.ok (), s)

end State

inductive Action where
  | openFile (fd : Nat)
  | closeFile (fd : Nat)
  | create (a : Nat) (type : NamespaceType) (unshare : Option String)
  | adopt (a : Nat) (type : NamespaceType) (fd : Int)
  | moveConstruct (dst src : Nat)
  | moveAssign (dst src : Nat)
  | destroy (a : Nat)
  | join (pid : Int) (type : NamespaceType) (answer : Except String Nat) (setns : Option String)

/-- The descriptor that `open` answers with, if it does, is free. -/
def State.isFree (s : State) : Except String Nat → Bool
  | .ok fd => (s.files fd).isNone
  | .error _ => true

/-- An object is constructed where there is none, and `open` answers with a free descriptor. -/
def step (s : State) : Action → State
  | .openFile fd => if s.files fd = none then s.openFile fd else s
  | .closeFile fd => s.closeFile fd
  | .create a type unshare => if s.objects a = none then (s.create a type unshare).2 else s
  | .adopt a type fd => if s.objects a = none then (s.adopt a type fd).2 else s
  | .moveConstruct dst src => (s.objects src).elim s fun o => if s.objects dst = none then s.move dst src o else s
  | .moveAssign dst src => (s.objects src).elim s fun o => (s.objects dst).elim s fun d =>
      if dst = src then s else (s.closeNamespace d).move dst src o
  | .destroy a => (s.objects a).elim s fun o => (s.closeNamespace o).put a none
  | .join pid type answer setns =>
      if s.isFree answer then (s.joinNamespace pid type answer setns).2 else s

variable {s : State}

/-- The table is as before; of a file that was opened only the count is left. -/
theorem joinNamespace_files (pid : Int) (type : NamespaceType) {answer : Except String Nat}
    (setns : Option String) (hfree : s.isFree answer = true) :
    ∃ n, (s.joinNamespace pid type answer setns).2 = { s with opened := s.opened + n } := by
  cases answer with
  | error text => exact ⟨0, rfl⟩
  | ok fd =>
    have hnone : s.files fd = none := Option.isNone_iff_eq_none.mp hfree
    have hback : (s.openFile fd).closeFile fd = { s with opened := s.opened + 1 } := by
      simp only [State.closeFile, State.openFile, Function.update_idem]
      rw [← hnone, Function.update_eq_self]
    refine ⟨1, ?_⟩
    rw [← hback]
    cases setns with
    | none => rfl
    | some text => rfl

/-! ## Who holds what -/

def Holds (o : Owner) (fd : Int) : Prop := o.ns.fd = fd ∧ 0 < fd

abbrev State.Held (s : State) (a : Nat) (fd : Int) : Prop := Lib.Held Holds s.objects a fd

/-- Every descriptor a manager holds names the file it was handed, and is held once. -/
structure Sound (s : State) : Prop where
  named : ∀ a o, s.objects a = some o → 0 < o.ns.fd → o.file.isSome = true ∧ s.files o.ns.fd.toNat = o.file
  exclusive : Exclusive Holds s.objects

/-- The client closes no descriptor that a manager holds, and hands over one that is open and that
    none holds. -/
def Careful (s : State) : Action → Prop
  | .closeFile fd => ∀ a, ¬ s.Held a fd
  | .adopt a _ fd => s.objects a = none → 0 < fd → (s.files fd.toNat).isSome = true ∧ ∀ b, ¬ s.Held b fd
  | _ => True

theorem movedFrom_holds (o : Owner) (fd : Int) : ¬ Holds o.movedFrom fd := by
  intro h
  obtain ⟨hfd, hpos⟩ := h
  have hmoved : o.movedFrom.ns.fd = -1 := rfl
  omega

theorem sound_fresh : Sound {} where
  named _ _ h := by cases h
  exclusive _ _ _ h := absurd h (not_held_at rfl _)

namespace Sound

variable {s : State} {a : Nat} {o : Owner}

/-- A manager that holds nothing, or none at all, takes the place of one. -/
theorem idle (h : Sound s) {x : Option Owner} (hx : ∀ o fd, x = some o → ¬ Holds o fd) : Sound (s.put a x) where
  named b o hb hpos := by
    by_cases hba : b = a
    · rw [hba] at hb
      exact absurd ⟨rfl, hpos⟩ (hx o o.ns.fd (by simpa [State.put] using hb))
    · exact h.named b o (by simpa [State.put, hba] using hb) hpos
  exclusive := h.exclusive.put fun o fd ho hh => absurd hh (hx o fd ho)

theorem move (h : Sound s) {dst src : Nat} (hne : dst ≠ src) (o : Owner) : Sound (s.move dst src o) where
  named b o₁ hb hpos := by
    by_cases hbs : b = src
    · have heq : o.movedFrom = o₁ := by simpa [State.move, moved, hbs] using hb
      rw [← heq] at hpos
      exact absurd ⟨rfl, hpos⟩ (movedFrom_holds o _)
    · by_cases hbd : b = dst
      · have heq : s.objects src = some o₁ := by simpa [State.move, moved, hbs, hbd, hne] using hb
        exact h.named src o₁ heq hpos
      · exact h.named b o₁ (by simpa [State.move, moved, hbs, hbd] using hb) hpos
  exclusive := h.exclusive.move hne (movedFrom_holds o)

/-- A descriptor that nobody holds may name anything. -/
theorem files (h : Sound s) {fd : Nat} (hfd : ∀ a, ¬ s.Held a fd) (f : Option Nat) :
    Sound { s with files := Function.update s.files fd f } where
  named a o ha hpos := by
    obtain ⟨hsome, hname⟩ := h.named a o ha hpos
    have hne : o.ns.fd.toNat ≠ fd := by
      intro heq
      exact hfd a ⟨o, ha, by omega, by omega⟩
    exact ⟨hsome, by simpa [hne] using hname⟩
  exclusive := h.exclusive

/-- `closeNamespace`, with what it assigns. -/
theorem close (h : Sound s) (ha : s.objects a = some o) : Sound ((s.closeNamespace o).put a (some o.movedFrom)) := by
  have hput : Sound (s.put a (some o.movedFrom)) := h.idle fun o' fd ho' => by
    rw [← Option.some.inj ho']
    exact movedFrom_holds o fd
  unfold State.closeNamespace
  split
  · rename_i hpos
    have hfree : ∀ b, ¬ (s.put a (some o.movedFrom)).Held b (o.ns.fd.toNat : Nat) := by
      intro b hb
      by_cases hba : b = a
      · rw [hba, State.Held, State.put, held_put_self] at hb
        obtain ⟨o', ho', hh⟩ := hb
        rw [← Option.some.inj ho'] at hh
        exact movedFrom_holds o _ hh
      · have hb : s.Held b (o.ns.fd.toNat : Nat) := (held_put_ne hba).mp hb
        exact hba (h.exclusive b a _ hb ⟨o, ha, by omega, by omega⟩)
    have hclosed := hput.files hfree none
    exact ⟨hclosed.named, hclosed.exclusive⟩
  · exact hput

end Sound

/-- The states between, in which `closeNamespace` has assigned -1. -/
theorem move_closed (s : State) (dst src : Nat) (d o : Owner) (hne : dst ≠ src) :
    (s.closeNamespace d).move dst src o = ((s.closeNamespace d).put dst (some d.movedFrom)).move dst src o := by
  simp [State.move, State.put, moved, Ne.symm hne]

theorem put_closed (s : State) (a : Nat) (o : Owner) :
    (s.closeNamespace o).put a none = ((s.closeNamespace o).put a (some o.movedFrom)).put a none := by
  simp [State.put]

/-! ## What becomes of a file that was handed over -/

/-- A manager holds the file. -/
def State.Owns (s : State) (a f : Nat) : Prop := ∃ o, s.objects a = some o ∧ 0 < o.ns.fd ∧ o.file = some f

structure Accounted (s : State) : Prop extends Sound s where
  injective : ∀ fd fd' f, s.files fd = some f → s.files fd' = some f → fd = fd'
  old : ∀ fd f, s.files fd = some f → f < s.opened
  handed_old : ∀ f, some f ∈ s.handed → f < s.opened
  owned : ∀ a f, s.Owns a f → some f ∈ s.handed
  closed : ∀ x ∈ s.closes, ∃ f, x = some f ∧ some f ∈ s.handed
  books : ∀ f, some f ∈ s.handed → (∃ a, s.Owns a f) ∧ s.closes.count (some f) = 0 ∨
    (∀ fd, s.files fd ≠ some f) ∧ s.closes.count (some f) = 1

theorem accounted_fresh : Accounted {} where
  toSound := sound_fresh
  injective _ _ _ h := by cases h
  old _ _ h := by cases h
  handed_old _ h := by cases h
  owned _ _ h := by
    obtain ⟨o, ho, -⟩ := h
    cases ho
  closed _ h := by cases h
  books _ h := by cases h

namespace Accounted

variable {s : State} {a f : Nat} {o : Owner}

/-- Who owns a file holds the descriptor that names it. -/
theorem owns_named (h : Accounted s) (ha : s.Owns a f) : ∃ fd : Nat, s.Held a fd ∧ s.files fd = some f := by
  obtain ⟨o, ho, hpos, hfile⟩ := ha
  obtain ⟨-, hname⟩ := h.named a o ho hpos
  exact ⟨o.ns.fd.toNat, ⟨o, ho, by omega, by omega⟩, hname.trans hfile⟩

theorem owns_unique (h : Accounted s) {b : Nat} (ha : s.Owns a f) (hb : s.Owns b f) : a = b := by
  obtain ⟨fd, hheld, hname⟩ := h.owns_named ha
  obtain ⟨fd', hheld', hname'⟩ := h.owns_named hb
  rw [h.injective fd' fd f hname' hname] at hheld'
  exact h.exclusive a b fd hheld hheld'

/-- Other objects, with the same files in their hands. -/
theorem objects (h : Accounted s) {objects' : Nat → Option Owner} (hs : Sound { s with objects := objects' })
    (howns : ∀ f, (∃ a, State.Owns { s with objects := objects' } a f) ↔ ∃ a, s.Owns a f) :
    Accounted { s with objects := objects' } where
  toSound := hs
  injective := h.injective
  old := h.old
  handed_old := h.handed_old
  owned a f ha := by
    obtain ⟨b, hb⟩ := (howns f).mp ⟨a, ha⟩
    exact h.owned b f hb
  closed := h.closed
  books f hf := by
    rcases h.books f hf with ⟨hown, hcount⟩ | hgone
    · exact Or.inl ⟨(howns f).mpr hown, hcount⟩
    · exact Or.inr hgone

theorem idle (h : Accounted s) {x : Option Owner} (hx : ∀ o fd, x = some o → ¬ Holds o fd)
    (ha : ∀ fd, ¬ s.Held a fd) : Accounted (s.put a x) := by
  refine h.objects (h.toSound.idle hx) fun f => ?_
  have hother : ∀ b, b ≠ a → (State.Owns (s.put a x) b f ↔ s.Owns b f) := by
    intro b hba
    simp [State.Owns, State.put, hba]
  constructor
  · intro hown
    obtain ⟨b, hb⟩ := hown
    have hba : b ≠ a := by
      intro hba
      obtain ⟨o, ho, hpos, -⟩ := hb
      exact hx o o.ns.fd (by simpa [State.put, hba] using ho) ⟨rfl, hpos⟩
    exact ⟨b, (hother b hba).mp hb⟩
  · intro hown
    obtain ⟨b, hb⟩ := hown
    have hba : b ≠ a := by
      intro hba
      obtain ⟨o, ho, hpos, -⟩ := hb
      exact ha o.ns.fd ⟨o, hba ▸ ho, rfl, hpos⟩
    exact ⟨b, (hother b hba).mpr hb⟩

theorem move (h : Accounted s) {dst src : Nat} (hne : dst ≠ src) (hdst : ∀ fd, ¬ s.Held dst fd) (o : Owner) :
    Accounted (s.move dst src o) := by
  refine h.objects (h.toSound.move hne o) fun f => ?_
  constructor
  · intro hown
    obtain ⟨b, o₁, hb, hpos, hfile⟩ := hown
    by_cases hbs : b = src
    · have heq : o.movedFrom = o₁ := by simpa [moved, hbs] using hb
      rw [← heq] at hpos
      exact absurd ⟨rfl, hpos⟩ (movedFrom_holds o _)
    · by_cases hbd : b = dst
      · exact ⟨src, o₁, by simpa [moved, hbs, hbd, hne] using hb, hpos, hfile⟩
      · exact ⟨b, o₁, by simpa [moved, hbs, hbd] using hb, hpos, hfile⟩
  · intro hown
    obtain ⟨b, o₁, hb, hpos, hfile⟩ := hown
    have hbd : b ≠ dst := fun hbd => hdst o₁.ns.fd ⟨o₁, hbd ▸ hb, rfl, hpos⟩
    by_cases hbs : b = src
    · exact ⟨dst, o₁, by simpa [moved, hne, hbs] using hb, hpos, hfile⟩
    · exact ⟨b, o₁, by simpa [moved, hbs, hbd] using hb, hpos, hfile⟩

theorem opens (h : Accounted s) {fd : Nat} (hfree : s.files fd = none) : Accounted (s.openFile fd) := by
  have hnobody : ∀ a, ¬ s.Held a fd := by
    intro a ha
    obtain ⟨o, ho, hfd, hpos⟩ := ha
    obtain ⟨hsome, hname⟩ := h.named a o ho (hfd ▸ hpos)
    rw [hfd, Int.toNat_natCast, hfree] at hname
    rw [← hname] at hsome
    cases hsome
  have hback : ∀ fd' f, (s.openFile fd).files fd' = some f → fd' = fd ∧ f = s.opened ∨ s.files fd' = some f := by
    intro fd' f hf
    by_cases hfd : fd' = fd
    · exact Or.inl ⟨hfd, by simpa [State.openFile, hfd, eq_comm] using hf⟩
    · exact Or.inr (by simpa [State.openFile, hfd] using hf)
  have hsound := h.toSound.files hnobody (some s.opened)
  constructor
  · exact ⟨hsound.named, hsound.exclusive⟩
  · intro fd₁ fd₂ f h₁ h₂
    rcases hback fd₁ f h₁ with ⟨hfd₁, hf₁⟩ | h₁ <;> rcases hback fd₂ f h₂ with ⟨hfd₂, hf₂⟩ | h₂
    · rw [hfd₁, hfd₂]
    · have := h.old fd₂ f h₂
      omega
    · have := h.old fd₁ f h₁
      omega
    · exact h.injective fd₁ fd₂ f h₁ h₂
  · intro fd' f hf
    rcases hback fd' f hf with ⟨-, hf⟩ | hf
    · rw [hf]
      exact Nat.lt_succ_self _
    · exact Nat.lt_succ_of_lt (h.old fd' f hf)
  · intro f hf
    exact Nat.lt_succ_of_lt (h.handed_old f hf)
  · exact h.owned
  · exact h.closed
  · intro f hf
    rcases h.books f hf with hown | ⟨hgone, hcount⟩
    · exact Or.inl hown
    · refine Or.inr ⟨fun fd' hfd' => ?_, hcount⟩
      rcases hback fd' f hfd' with ⟨-, hnew⟩ | hfd'
      · have := h.handed_old f hf
        omega
      · exact hgone fd' hfd'

/-- A descriptor that no manager holds is closed. -/
theorem closes_free (h : Accounted s) {fd : Nat} (hfd : ∀ a, ¬ s.Held a fd) : Accounted (s.closeFile fd) := by
  have hback : ∀ fd' f, (s.closeFile fd).files fd' = some f → s.files fd' = some f := by
    intro fd' f hf
    by_cases heq : fd' = fd
    · simp [State.closeFile, heq] at hf
    · simpa [State.closeFile, heq] using hf
  have hsound := h.toSound.files hfd none
  constructor
  · exact ⟨hsound.named, hsound.exclusive⟩
  · intro fd₁ fd₂ f h₁ h₂
    exact h.injective fd₁ fd₂ f (hback fd₁ f h₁) (hback fd₂ f h₂)
  · intro fd' f hf
    exact h.old fd' f (hback fd' f hf)
  · exact h.handed_old
  · exact h.owned
  · exact h.closed
  · intro f hf
    rcases h.books f hf with hown | ⟨hgone, hcount⟩
    · exact Or.inl hown
    · exact Or.inr ⟨fun fd' hfd' => hgone fd' (hback fd' f hfd'), hcount⟩

/-- `closeNamespace`, with what it assigns: the file of the manager is closed for good. -/
theorem close (h : Accounted s) (ha : s.objects a = some o) :
    Accounted ((s.closeNamespace o).put a (some o.movedFrom)) := by
  have hsound := h.toSound.close ha
  unfold State.closeNamespace at hsound ⊢
  split at hsound
  · rename_i hpos
    obtain ⟨hsome, hname⟩ := h.named a o ha hpos
    obtain ⟨g, hg⟩ := Option.isSome_iff_exists.mp hsome
    rw [hg] at hname
    have howns : s.Owns a g := ⟨o, ha, hpos, hg⟩
    have hcount : s.closes.count (some g) = 0 := by
      rcases h.books g (h.owned a g howns) with ⟨-, hcount⟩ | ⟨hgone, -⟩
      · exact hcount
      · exact absurd hname (hgone _)
    have hback : ∀ fd f, Function.update s.files o.ns.fd.toNat none fd = some f → f ≠ g ∧ s.files fd = some f := by
      intro fd f hf
      by_cases heq : fd = o.ns.fd.toNat
      · simp [heq] at hf
      · have hf : s.files fd = some f := by simpa [heq] using hf
        exact ⟨fun hfg => heq (h.injective fd _ g (hfg ▸ hf) hname), hf⟩
    have hkept : ∀ b f, (∃ o', Function.update s.objects a (some o.movedFrom) b = some o' ∧ 0 < o'.ns.fd ∧
        o'.file = some f) ↔ b ≠ a ∧ s.Owns b f := by
      intro b f
      by_cases hba : b = a
      · subst hba
        have hmoved : o.movedFrom.ns.fd = -1 := rfl
        simp [hmoved]
      · simp [hba, State.Owns]
    rw [if_pos hpos, hname]
    constructor
    · rw [hname] at hsound
      exact hsound
    · intro fd₁ fd₂ f h₁ h₂
      exact h.injective fd₁ fd₂ f (hback fd₁ f h₁).2 (hback fd₂ f h₂).2
    · intro fd f hf
      exact h.old fd f (hback fd f hf).2
    · exact h.handed_old
    · intro b f hb
      exact h.owned b f ((hkept b f).mp hb).2
    · intro x hx
      rcases List.mem_cons.mp hx with hx | hx
      · exact ⟨g, hx, h.owned a g howns⟩
      · exact h.closed x hx
    · intro f hf
      by_cases hfg : f = g
      · refine Or.inr ⟨fun fd hfd => (hback fd f hfd).1 hfg, ?_⟩
        rw [hfg, State.put, List.count_cons_self, hcount]
      · have hsame : (some g :: s.closes).count (some f) = s.closes.count (some f) :=
          List.count_cons_of_ne (by simpa using Ne.symm hfg)
        rcases h.books f hf with ⟨⟨b, hb⟩, hzero⟩ | ⟨hgone, hone⟩
        · have hba : b ≠ a := by
            intro hba
            obtain ⟨o', ho', -, hfile⟩ := hb
            rw [hba, ha] at ho'
            cases ho'
            rw [hg] at hfile
            exact hfg (Option.some.inj hfile).symm
          exact Or.inl ⟨⟨b, (hkept b f).mpr ⟨hba, hb⟩⟩, hsame.trans hzero⟩
        · exact Or.inr ⟨fun fd hfd => hgone fd (hback fd f hfd).2, hsame.trans hone⟩
  · rename_i hpos
    rw [if_neg hpos]
    refine h.idle (fun o' fd ho' => ?_) fun fd hheld => ?_
    · rw [← Option.some.inj ho']
      exact movedFrom_holds o fd
    · rw [State.Held, held_at ha] at hheld
      exact hpos (hheld.1 ▸ hheld.2)

theorem closed_holds (s : State) (a : Nat) (o : Owner) (fd : Int) :
    ¬ State.Held ((s.closeNamespace o).put a (some o.movedFrom)) a fd := by
  intro hheld
  obtain ⟨o', ho', hh⟩ := held_put_self.mp hheld
  rw [← Option.some.inj ho'] at hh
  exact movedFrom_holds o fd hh

/-- An open descriptor that no manager holds is handed over. -/
theorem adopt (h : Accounted s) (hnone : s.objects a = none) (type : NamespaceType) {fd : Int} (hpos : 0 < fd)
    (hopen : s.files fd.toNat = some f) (hfree : ∀ b, ¬ s.Held b fd) :
    Accounted { s.put a (some { ns := ⟨type, fd⟩, file := some f }) with handed := some f :: s.handed } := by
  have hunowned : ∀ b, ¬ s.Owns b f := by
    intro b hb
    obtain ⟨fd', hheld, hname⟩ := h.owns_named hb
    rw [h.injective fd' _ f hname hopen] at hheld
    rw [Int.toNat_of_nonneg (Int.le_of_lt hpos)] at hheld
    exact hfree b hheld
  have hunclosed : s.closes.count (some f) = 0 := by
    refine List.count_eq_zero.mpr fun hmem => ?_
    obtain ⟨f', hf', hhanded⟩ := h.closed _ hmem
    cases hf'
    rcases h.books f hhanded with ⟨⟨b, hb⟩, -⟩ | ⟨hgone, -⟩
    · exact hunowned b hb
    · exact hgone _ hopen
  have hkept : ∀ b g, (∃ o', Function.update s.objects a (some { ns := ⟨type, fd⟩, file := some f }) b = some o' ∧
      0 < o'.ns.fd ∧ o'.file = some g) ↔ b = a ∧ g = f ∨ s.Owns b g := by
    intro b g
    by_cases hba : b = a
    · subst hba
      simp [hpos, State.Owns, hnone, eq_comm]
    · simp [hba, State.Owns]
  constructor
  · constructor
    · intro b o hb hposb
      by_cases hba : b = a
      · rw [hba] at hb
        have heq := Option.some.inj ((Function.update_self a _ s.objects).symm.trans hb)
        rw [← heq]
        exact ⟨rfl, hopen⟩
      · exact h.named b o (by simpa [State.put, hba] using hb) hposb
    · refine h.exclusive.put fun o fd' ho hh b hb => ?_
      rw [← Option.some.inj ho] at hh
      have hfd : fd = fd' := hh.1
      rw [← hfd] at hb
      exact absurd hb (hfree b)
  · exact h.injective
  · exact h.old
  · intro g hg
    rcases List.mem_cons.mp hg with hg | hg
    · rw [Option.some.inj hg]
      exact h.old _ f hopen
    · exact h.handed_old g hg
  · intro b g hb
    rcases (hkept b g).mp hb with ⟨-, hg⟩ | hb
    · rw [hg]
      exact List.mem_cons_self
    · exact List.mem_cons_of_mem _ (h.owned b g hb)
  · intro x hx
    obtain ⟨g, hg, hhanded⟩ := h.closed x hx
    exact ⟨g, hg, List.mem_cons_of_mem _ hhanded⟩
  · intro g hg
    by_cases hgf : g = f
    · exact Or.inl ⟨⟨a, (hkept a g).mpr (Or.inl ⟨rfl, hgf⟩)⟩, hgf ▸ hunclosed⟩
    · have hg : some g ∈ s.handed := by simpa [hgf] using hg
      rcases h.books g hg with ⟨⟨b, hb⟩, hcount⟩ | hgone
      · exact Or.inl ⟨⟨b, (hkept b g).mpr (Or.inr hb)⟩, hcount⟩
      · exact Or.inr hgone

end Accounted

theorem step_accounted (h : Accounted s) {act : Action} (hcareful : Careful s act) : Accounted (step s act) := by
  cases act with
  | openFile fd =>
    simp only [step]
    split
    · rename_i hfree
      exact h.opens hfree
    · exact h
  | closeFile fd => exact h.closes_free hcareful
  | create a type unshare =>
    simp only [step]
    split
    · rename_i hnone
      cases unshare with
      | some text => exact h
      | none =>
        refine h.idle (fun o fd ho hh => ?_) (not_held_at hnone)
        rw [← Option.some.inj ho] at hh
        have hfd : 0 = fd := hh.1
        exact absurd hh.2 (by omega)
    · exact h
  | adopt a type fd =>
    simp only [step]
    split
    · rename_i hnone
      simp only [State.adopt]
      by_cases hneg : fd < 0
      · rw [if_pos hneg]
        exact h
      · rw [if_neg hneg]
        by_cases hpos : 0 < fd
        · obtain ⟨hopen, hfree⟩ := hcareful hnone hpos
          obtain ⟨f, hf⟩ := Option.isSome_iff_exists.mp hopen
          simp only [hf, hpos, if_true]
          exact h.adopt hnone type hpos hf hfree
        · simp only [hpos, if_false]
          refine h.idle (fun o fd' ho hh => ?_) (not_held_at hnone)
          rw [← Option.some.inj ho] at hh
          have hfd : fd = fd' := hh.1
          exact absurd hh.2 (by omega)
    · exact h
  | moveConstruct dst src =>
    simp only [step]
    cases hsrc : s.objects src with
    | none => exact h
    | some o =>
      simp only [Option.elim]
      split
      · rename_i hdst
        refine h.move (fun heq => ?_) (not_held_at hdst) o
        rw [heq, hsrc] at hdst
        cases hdst
      · exact h
  | moveAssign dst src =>
    simp only [step]
    cases hsrc : s.objects src with
    | none => exact h
    | some o =>
      simp only [Option.elim]
      cases hdst : s.objects dst with
      | none => exact h
      | some d =>
        simp only
        split
        · exact h
        · rename_i hne
          rw [move_closed s dst src d o hne]
          exact (h.close hdst).move hne (Accounted.closed_holds s dst d) o
  | destroy a =>
    simp only [step]
    cases ha : s.objects a with
    | none => exact h
    | some o =>
      simp only [Option.elim]
      rw [put_closed]
      exact (h.close ha).idle (fun _ _ ho => by cases ho) (Accounted.closed_holds s a o)
  | join pid type answer setns =>
    simp only [step]
    split
    · rename_i hfree
      obtain ⟨n, hn⟩ := joinNamespace_files pid type setns hfree
      rw [hn]
      exact ⟨⟨h.named, h.exclusive⟩, h.injective, fun fd f hf => Nat.lt_add_right n (h.old fd f hf),
        fun f hf => Nat.lt_add_right n (h.handed_old f hf), h.owned, h.closed, h.books⟩
    · exact h

theorem careless_unsound {act : Action} (hcareless : ¬ Careful s act) : ¬ Sound (step s act) := by
  intro hsound
  cases act with
  | closeFile fd =>
    refine hcareless fun a ha => ?_
    obtain ⟨o, ho, hfd, hpos⟩ := ha
    obtain ⟨hsome, hname⟩ := hsound.named a o ho (hfd ▸ hpos)
    have hnone : (step s (.closeFile fd)).files o.ns.fd.toNat = none := by simp [step, State.closeFile, hfd]
    rw [hnone] at hname
    rw [← hname] at hsome
    cases hsome
  | adopt a type fd =>
    refine hcareless fun hnone hpos => ?_
    have hneg : ¬ fd < 0 := by omega
    simp only [step, if_pos hnone, State.adopt, if_neg hneg, if_pos hpos] at hsound
    have hthere := Function.update_self a (some { ns := ⟨type, fd⟩, file := s.files fd.toNat : Owner }) s.objects
    refine ⟨(hsound.named a _ hthere hpos).1, fun b hb => ?_⟩
    have hba : b ≠ a := by
      intro hba
      exact not_held_at hnone fd (hba ▸ hb)
    exact hba (hsound.exclusive b a fd ((held_put_ne hba).mpr hb) ⟨_, hthere, rfl, hpos⟩)
  | openFile fd => exact hcareless trivial
  | create a type unshare => exact hcareless trivial
  | moveConstruct dst src => exact hcareless trivial
  | moveAssign dst src => exact hcareless trivial
  | destroy a => exact hcareless trivial
  | join pid type answer setns => exact hcareless trivial

/-- Throughout a run every descriptor that a manager holds names what it was handed, iff the client
    was careful at each step. -/
theorem sound_throughout_iff (actions : List Action) :
    Throughout step Sound {} actions ↔ EachStep step Careful {} actions :=
  throughout_iff_of_kept (G := Accounted) (fun _ _ h hq => step_accounted h hq) (fun _ _ _ hq => careless_unsound hq)
    (fun _ h => h.toSound) accounted_fresh actions

/-- A file that was handed over at a positive descriptor is open in the hands of one manager, or has
    been closed once and for all; and the managers close nothing else. -/
theorem closed_once {actions : List Action} (hcareful : EachStep step Careful {} actions) :
    let s := runFrom step {} actions
    (∀ f, some f ∈ s.handed →
      (∃ fd, s.files fd = some f) ∧ (∃! a, s.Owns a f) ∧ s.closes.count (some f) = 0 ∨
      (∀ fd, s.files fd ≠ some f) ∧ (∀ a, ¬ s.Owns a f) ∧ s.closes.count (some f) = 1) ∧
    ∀ x ∈ s.closes, x ∈ s.handed := by
  intro s
  have h : Accounted s := runFrom_eachStep (I := Accounted) (fun _ _ h hq => step_accounted h hq) accounted_fresh hcareful
  refine ⟨fun f hf => ?_, fun x hx => ?_⟩
  · rcases h.books f hf with ⟨⟨a, ha⟩, hcount⟩ | ⟨hgone, hcount⟩
    · obtain ⟨fd, -, hname⟩ := h.owns_named ha
      exact Or.inl ⟨⟨fd, hname⟩, ⟨a, ha, fun b hb => h.owns_unique hb ha⟩, hcount⟩
    · refine Or.inr ⟨hgone, fun a ha => ?_, hcount⟩
      obtain ⟨fd, -, hname⟩ := h.owns_named ha
      exact hgone fd hname
  · obtain ⟨f, hx, hf⟩ := h.closed x hx
    rw [hx]
    exact hf

/-- A manager with a descriptor is moved over one that has another. -/
def exchange : List Action :=
  [.openFile 3, .adopt 0 .pid 3, .openFile 4, .adopt 1 .uts 4, .moveAssign 1 0, .destroy 0]

theorem exchange_careful : EachStep step Careful {} exchange := by
  refine ⟨trivial, fun _ _ => ⟨by decide, fun b hb => not_held_at rfl _ hb⟩, trivial, fun _ _ => ⟨by decide, ?_⟩,
    trivial, trivial, trivial⟩
  intro b hb
  obtain ⟨o, ho, hfd, -⟩ := hb
  by_cases hb0 : b = 0
  · subst hb0
    cases ho
    cases hfd
  · have hnone : (none : Option Owner) = some o := by
      rw [← ho]
      simp [step, State.adopt, State.put, State.openFile, hb0]
    cases hnone

theorem exchange_closes_one :
    let s := runFrom step {} exchange
    (∃! a, s.Owns a 0) ∧ (∀ a, ¬ s.Owns a 1) ∧ s.closes = [some 1] := by
  intro s
  have hclosed := closed_once exchange_careful
  have hcloses : s.closes = [some 1] := by decide
  refine ⟨?_, ?_, hcloses⟩
  · rcases hclosed.1 0 (by decide) with ⟨-, howner, -⟩ | ⟨-, -, hcount⟩
    · exact howner
    · exact absurd hcount (by decide)
  · rcases hclosed.1 1 (by decide) with ⟨-, -, hcount⟩ | ⟨-, hnobody, -⟩
    · exact absurd hcount (by decide)
    · exact hnobody

end DockerCpp.Runtime.NamespaceHandles
