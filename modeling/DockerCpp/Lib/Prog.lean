/-
  DockerCpp.Lib.Prog — imperative code with exceptions and mutexes, as functions on a
  state.

  A program maps a state to how it ended and the state it left. It ends normally (`ok`),
  by an exception (`thrown`), or it never goes on (`blocked`: its thread waits for a
  mutex nobody will release). The state a program left by an exception is kept: what was
  assigned before the throw stays assigned, and a handler runs in that state.

  A mutex is a field of the state that holds its owner. `Locking` says how a program
  takes mutexes: `thread t` is thread `t` taking them for real, `abstracted` is a reading in
  which every mutex is free. `lockGuard` is the scope of a `std::lock_guard`: released at
  the end of its body however the body ends, unless the body blocks.

  `Ends p s Q`: run from `s`, `p` ends in a result and a state that satisfy `Q`. The
  rules reduce it over the constructs of a program; a caller uses a callee's `Ends` fact
  through `Ends.mono` and `ends_bind`, without unfolding it.
-/

import Mathlib.Logic.Basic

namespace Lib

inductive Res (ε α : Type) where
  | ok (a : α)
  | thrown (e : ε)
  | blocked
  deriving DecidableEq, Repr

def Prog (S ε α : Type) : Type := S → Res ε α × S

namespace Prog

variable {S T ε α β γ : Type}

def bind (p : Prog S ε α) (f : α → Prog S ε β) : Prog S ε β := fun s =>
  match p s with
  | (.ok a, s') => f a s'
  | (.thrown e, s') => (.thrown e, s')
  | (.blocked, s') => (.blocked, s')

instance : Monad (Prog S ε) where
  pure a := fun s => (.ok a, s)
  bind := bind

theorem bind_returning (p : Prog S ε α) : Prog.bind p pure = p := by
  funext s
  unfold Prog.bind
  rcases p s with ⟨r, s'⟩
  cases r <;> rfl

theorem bind_bind (p : Prog S ε α) (f : α → Prog S ε β) (g : β → Prog S ε γ) :
    Prog.bind (Prog.bind p f) g = Prog.bind p fun a => Prog.bind (f a) g := by
  funext s
  unfold Prog.bind
  rcases p s with ⟨r, s'⟩
  cases r <;> rfl

instance : LawfulMonad (Prog S ε) := LawfulMonad.mk' _ bind_returning (fun _ _ => rfl) bind_bind

def throw (e : ε) : Prog S ε α := fun s => (.thrown e, s)

/-- A range-based `for`. -/
def forEach (body : α → Prog S ε Unit) : List α → Prog S ε Unit
  | [] => pure ()
  | a :: rest => do
    body a
    forEach body rest

/-- `try p catch h`: a block is not an exception, no handler sees it. -/
def tryCatch (p : Prog S ε α) (h : ε → Prog S ε α) : Prog S ε α := fun s =>
  match p s with
  | (.ok a, s') => (.ok a, s')
  | (.thrown e, s') => h e s'
  | (.blocked, s') => (.blocked, s')

def read (f : S → α) : Prog S ε α := fun s => (.ok (f s), s)

def modify (f : S → S) : Prog S ε Unit := fun s => (.ok (), f s)

/-- A call that always returns and may change the state. -/
def call (f : S → α × S) : Prog S ε α := fun s => (.ok (f s).1, (f s).2)

def when (c : Prop) [Decidable c] (p : Prog S ε Unit) : Prog S ε Unit := if c then p else pure ()

/-- A program on a part of the state. -/
def zoom (get : T → S) (set : S → T → T) (p : Prog S ε α) : Prog T ε α := fun t =>
  ((p (get t)).1, set (p (get t)).2 t)

theorem forEach_append (body : α → Prog S ε Unit) (l l' : List α) :
    forEach body (l ++ l') = (forEach body l >>= fun _ => forEach body l') := by
  induction l with
  | nil => rfl
  | cons a l ih => simp only [List.cons_append, forEach, ih, LawfulMonad.bind_assoc]

theorem forEach_ite (body : α → Prog S ε Unit) (c : Prop) [Decidable c] (l : List α) :
    forEach body (if c then l else []) = when c (forEach body l) := by
  unfold when
  split
  · rfl
  · rfl

/-! ## Mutexes -/

abbrev Tid := Nat

inductive Locking where
  | abstracted
  | thread (t : Tid)
  deriving DecidableEq, Repr

/-- Where a state keeps a mutex's owner. -/
structure Mutex (S : Type) where
  owner : S → Option Tid
  setOwner : Option Tid → S → S

def lock (k : Locking) (m : Mutex S) : Prog S ε Unit := fun s =>
  match k with
  | .abstracted => (.ok (), s)
  | .thread t =>
    match m.owner s with
    | none => (.ok (), m.setOwner (some t) s)
    | some _ => (.blocked, s)

def unlock (k : Locking) (m : Mutex S) : Prog S ε Unit := fun s =>
  match k with
  | .abstracted => (.ok (), s)
  | .thread _ => (.ok (), m.setOwner none s)

def lockGuard (k : Locking) (m : Mutex S) (body : Prog S ε α) : Prog S ε α := do
  lock k m
  let a ← tryCatch body fun e => do unlock k m; throw e
  unlock k m
  pure a

/-! ## How a program ends -/

def Ends (p : Prog S ε α) (s : S) (Q : Res ε α → S → Prop) : Prop := Q (p s).1 (p s).2

/-- What `Q` asks of a result when the rest of the program is `f`. -/
def andThen (f : α → Prog S ε β) (Q : Res ε β → S → Prop) : Res ε α → S → Prop
  | .ok a, s => Ends (f a) s Q
  | .thrown e, s => Q (.thrown e) s
  | .blocked, s => Q .blocked s

/-- What `Q` asks of a result that a handler `h` sees first. -/
def orElse (h : ε → Prog S ε α) (Q : Res ε α → S → Prop) : Res ε α → S → Prop
  | .ok a, s => Q (.ok a) s
  | .thrown e, s => Ends (h e) s Q
  | .blocked, s => Q .blocked s

@[simp] theorem andThen_ok (f : α → Prog S ε β) (Q : Res ε β → S → Prop) (a : α) (s : S) :
    andThen f Q (.ok a) s = Ends (f a) s Q := rfl

@[simp] theorem andThen_thrown (f : α → Prog S ε β) (Q : Res ε β → S → Prop) (e : ε) (s : S) :
    andThen f Q (.thrown e) s = Q (.thrown e) s := rfl

@[simp] theorem andThen_blocked (f : α → Prog S ε β) (Q : Res ε β → S → Prop) (s : S) :
    andThen f Q .blocked s = Q .blocked s := rfl

@[simp] theorem orElse_ok (h : ε → Prog S ε α) (Q : Res ε α → S → Prop) (a : α) (s : S) :
    orElse h Q (.ok a) s = Q (.ok a) s := rfl

@[simp] theorem orElse_thrown (h : ε → Prog S ε α) (Q : Res ε α → S → Prop) (e : ε) (s : S) :
    orElse h Q (.thrown e) s = Ends (h e) s Q := rfl

@[simp] theorem orElse_blocked (h : ε → Prog S ε α) (Q : Res ε α → S → Prop) (s : S) :
    orElse h Q .blocked s = Q .blocked s := rfl

variable {p : Prog S ε α} {R R' : S → S → Prop} {s : S} {Q Q' : Res ε α → S → Prop} {body : α → Prog S ε Unit}

theorem Ends.mono (h : Ends p s Q) (hq : ∀ r s', Q r s' → Q' r s') : Ends p s Q' := hq _ _ h

theorem Ends.of_run {s s' : S} {r : Res ε α} {Q : Res ε α → S → Prop} (h : Ends p s Q)
    (hrun : p s = (r, s')) : Q r s' := by
  unfold Ends at h
  rw [hrun] at h
  exact h

@[simp] theorem ends_pure (a : α) (s : S) (Q : Res ε α → S → Prop) :
    Ends (pure a : Prog S ε α) s Q ↔ Q (.ok a) s := Iff.rfl

@[simp] theorem ends_throw (e : ε) (s : S) (Q : Res ε α → S → Prop) :
    Ends (throw e : Prog S ε α) s Q ↔ Q (.thrown e) s := Iff.rfl

@[simp] theorem ends_read (f : S → α) (s : S) (Q : Res ε α → S → Prop) :
    Ends (read f : Prog S ε α) s Q ↔ Q (.ok (f s)) s := Iff.rfl

@[simp] theorem ends_modify (f : S → S) (s : S) (Q : Res ε Unit → S → Prop) :
    Ends (modify f : Prog S ε Unit) s Q ↔ Q (.ok ()) (f s) := Iff.rfl

@[simp] theorem ends_call (f : S → α × S) (s : S) (Q : Res ε α → S → Prop) :
    Ends (call f : Prog S ε α) s Q ↔ Q (.ok (f s).1) (f s).2 := Iff.rfl

@[simp] theorem ends_bind (p : Prog S ε α) (f : α → Prog S ε β) (s : S) (Q : Res ε β → S → Prop) :
    Ends (p >>= f) s Q ↔ Ends p s (andThen f Q) := by
  show Ends (Prog.bind p f) s Q ↔ _
  unfold Ends Prog.bind andThen
  rcases h : p s with ⟨r, s'⟩
  cases r <;> rfl

@[simp] theorem ends_tryCatch (p : Prog S ε α) (h : ε → Prog S ε α) (s : S) (Q : Res ε α → S → Prop) :
    Ends (tryCatch p h) s Q ↔ Ends p s (orElse h Q) := by
  unfold Ends tryCatch orElse
  rcases hp : p s with ⟨r, s'⟩
  cases r <;> rfl

@[simp] theorem ends_when (c : Prop) [Decidable c] (p : Prog S ε Unit) (s : S) (Q : Res ε Unit → S → Prop) :
    Ends (when c p) s Q ↔ if c then Ends p s Q else Q (.ok ()) s := by
  unfold when
  split
  · exact Iff.rfl
  · exact Iff.rfl

@[simp] theorem ends_zoom (get : T → S) (set : S → T → T) (p : Prog S ε α) (t : T)
    (Q : Res ε α → T → Prop) :
    Ends (zoom get set p) t Q ↔ Ends p (get t) fun r s' => Q r (set s' t) := Iff.rfl

/-- The invariant rule of a loop whose body always returns; the invariant may speak of the
    elements done so far. -/
theorem ends_forEach_done {I : List α → S → Prop} {l : List α}
    (h : ∀ done a rest, done ++ a :: rest = l → ∀ s, I done s →
      Ends (body a) s fun r s' => r = .ok () ∧ I (done ++ [a]) s')
    (hs : I [] s) : Ends (forEach body l) s fun r s' => r = .ok () ∧ I l s' := by
  suffices loop : ∀ rest done s, done ++ rest = l → I done s →
      Ends (forEach body rest) s fun r s' => r = .ok () ∧ I l s' from loop l [] s rfl hs
  intro rest
  induction rest with
  | nil =>
    intro done s e hd
    rw [List.append_nil] at e
    exact ⟨rfl, e ▸ hd⟩
  | cons a rest ih =>
    intro done s e hd
    simp only [forEach, ends_bind]
    refine Ends.mono (h done a rest e s hd) ?_
    intro r s' hpost
    obtain ⟨rfl, hd'⟩ := hpost
    exact ih (done ++ [a]) s' (by rw [← e, List.append_assoc, List.singleton_append]) hd'

theorem ends_forEach {I : S → Prop} {l : List α}
    (h : ∀ a ∈ l, ∀ s, I s → Ends (body a) s fun r s' => r = .ok () ∧ I s') (hs : I s) :
    Ends (forEach body l) s fun r s' => r = .ok () ∧ I s' := by
  refine ends_forEach_done (I := fun _ => I) ?_ hs
  intro done a rest e
  refine h a ?_
  rw [← e]
  exact List.mem_append_right _ List.mem_cons_self

/-! ## What a program may change

A frame is a relation from the state before to the state after that holds of doing
nothing and composes. `Returns R p`: `p` always returns, within `R`; `Within R p`: `p`
returns or throws, within `R`. -/

class Frame (R : S → S → Prop) : Prop where
  refl (s : S) : R s s
  trans {s t u : S} : R s t → R t u → R s u

instance : Frame (S := S) Eq := ⟨fun _ => rfl, fun h h' => h.trans h'⟩

def Returns (R : S → S → Prop) (p : Prog S ε α) : Prop :=
  ∀ s, Ends p s fun r s' => (∃ a, r = .ok a) ∧ R s s'

def Within (R : S → S → Prop) (p : Prog S ε α) : Prop :=
  ∀ s, Ends p s fun r s' => r ≠ .blocked ∧ R s s'

theorem Returns.within (h : Returns R p) : Within R p := by
  intro s
  obtain ⟨⟨a, ha⟩, hR⟩ := h s
  exact ⟨by rw [ha]; simp, hR⟩

theorem Returns.weaken (h : Returns R p) (hR : ∀ s s', R s s' → R' s s') : Returns R' p :=
  fun s => ⟨(h s).1, hR _ _ (h s).2⟩

theorem Within.weaken (h : Within R p) (hR : ∀ s s', R s s' → R' s s') : Within R' p :=
  fun s => ⟨(h s).1, hR _ _ (h s).2⟩

theorem returns_modify {f : S → S} (h : ∀ s, R s (f s)) : Returns R (modify f : Prog S ε Unit) :=
  fun s => ⟨⟨(), rfl⟩, h s⟩

theorem returns_call {f : S → α × S} (h : ∀ s, R s (f s).2) : Returns R (call f : Prog S ε α) :=
  fun s => ⟨⟨_, rfl⟩, h s⟩

theorem returns_ite {c : Prop} [Decidable c] {p q : Prog S ε α} (hp : Returns R p) (hq : Returns R q) :
    Returns R (if c then p else q) := by
  split
  · exact hp
  · exact hq

theorem within_ite {c : Prop} [Decidable c] {p q : Prog S ε α} (hp : Within R p) (hq : Within R q) :
    Within R (if c then p else q) := by
  split
  · exact hp
  · exact hq

section frames

variable {R : S → S → Prop} [Frame R]

theorem returns_pure (a : α) : Returns R (pure a : Prog S ε α) := fun s => ⟨⟨a, rfl⟩, Frame.refl s⟩

theorem returns_read (f : S → α) : Returns R (read f : Prog S ε α) := fun s => ⟨⟨f s, rfl⟩, Frame.refl s⟩

variable {p : Prog S ε α} {f : α → Prog S ε β} {h : ε → Prog S ε α}

theorem returns_bind (hp : Returns R p) (hf : ∀ a, Returns R (f a)) : Returns R (p >>= f) := by
  intro s
  rw [ends_bind]
  refine Ends.mono (hp s) ?_
  intro r s' hpost
  obtain ⟨⟨a, rfl⟩, hR⟩ := hpost
  rw [andThen_ok]
  refine Ends.mono (hf a s') ?_
  intro r s'' hpost
  obtain ⟨hok, hR'⟩ := hpost
  exact ⟨hok, Frame.trans hR hR'⟩

theorem returns_when {c : Prop} [Decidable c] {p : Prog S ε Unit} (hp : Returns R p) : Returns R (when c p) :=
  returns_ite hp (returns_pure _)

theorem within_when {c : Prop} [Decidable c] {p : Prog S ε Unit} (hp : Within R p) : Within R (when c p) :=
  within_ite hp (returns_pure _).within

theorem within_throw (e : ε) : Within R (throw e : Prog S ε α) := fun s => ⟨by simp [throw], Frame.refl s⟩

theorem within_bind (hp : Within R p) (hf : ∀ a, Within R (f a)) : Within R (p >>= f) := by
  intro s
  rw [ends_bind]
  refine Ends.mono (hp s) ?_
  intro r s' hpost
  obtain ⟨hb, hR⟩ := hpost
  cases r with
  | ok a =>
    rw [andThen_ok]
    refine Ends.mono (hf a s') ?_
    intro r s'' hpost
    obtain ⟨hb', hR'⟩ := hpost
    exact ⟨hb', Frame.trans hR hR'⟩
  | thrown e => exact ⟨by simp, hR⟩
  | blocked => exact absurd rfl hb

theorem within_tryCatch (hp : Within R p) (hh : ∀ e, Within R (h e)) : Within R (tryCatch p h) := by
  intro s
  rw [ends_tryCatch]
  refine Ends.mono (hp s) ?_
  intro r s' hpost
  obtain ⟨hb, hR⟩ := hpost
  cases r with
  | ok a => exact ⟨by simp, hR⟩
  | thrown e =>
    rw [orElse_thrown]
    refine Ends.mono (hh e s') ?_
    intro r s'' hpost
    obtain ⟨hb', hR'⟩ := hpost
    exact ⟨hb', Frame.trans hR hR'⟩
  | blocked => exact absurd rfl hb

/-- A handler that never throws turns a program that may throw into one that returns. -/
theorem returns_tryCatch (hp : Within R p) (hh : ∀ e, Returns R (h e)) : Returns R (tryCatch p h) := by
  intro s
  rw [ends_tryCatch]
  refine Ends.mono (hp s) ?_
  intro r s' hpost
  obtain ⟨hb, hR⟩ := hpost
  cases r with
  | ok a => exact ⟨⟨a, rfl⟩, hR⟩
  | thrown e =>
    rw [orElse_thrown]
    refine Ends.mono (hh e s') ?_
    intro r s'' hpost
    obtain ⟨hok, hR'⟩ := hpost
    exact ⟨hok, Frame.trans hR hR'⟩
  | blocked => exact absurd rfl hb

end frames

theorem returns_zoom {R' : T → T → Prop} {get : T → S} {set : S → T → T}
    (hp : Returns R p) (h : ∀ t s', R (get t) s' → R' t (set s' t)) : Returns R' (zoom get set p) :=
  fun t => ⟨(hp (get t)).1, h t _ (hp (get t)).2⟩

/-! ## Invariants

`Keeps I E p`: from a state in `I`, `p` returns or throws an error in `E`, and leaves a
state in `I`. -/

def okOr (E : ε → Prop) : Res ε α → Prop
  | .ok _ => True
  | .thrown e => E e
  | .blocked => False

def Keeps (I : S → Prop) (E : ε → Prop) (p : Prog S ε α) : Prop := ∀ s, I s → Ends p s fun r s' => okOr E r ∧ I s'

section keeps

variable {I : S → Prop} {E : ε → Prop}

theorem keeps_pure (a : α) : Keeps I E (pure a : Prog S ε α) := fun _ hs => ⟨trivial, hs⟩

theorem keeps_throw {e : ε} (h : E e) : Keeps I E (throw e : Prog S ε α) := fun _ hs => ⟨h, hs⟩

theorem keeps_read (f : S → α) : Keeps I E (read f : Prog S ε α) := fun _ hs => ⟨trivial, hs⟩

theorem keeps_modify {f : S → S} (h : ∀ s, I s → I (f s)) : Keeps I E (modify f : Prog S ε Unit) :=
  fun s hs => ⟨trivial, h s hs⟩

variable {f : α → Prog S ε β}

theorem keeps_bind {p : Prog S ε α} (hp : Keeps I E p) (hf : ∀ a, Keeps I E (f a)) : Keeps I E (p >>= f) := by
  intro s hs
  rw [ends_bind]
  refine Ends.mono (hp s hs) ?_
  intro r s' hpost
  obtain ⟨hr, hs'⟩ := hpost
  cases r with
  | ok a => exact hf a s' hs'
  | thrown e => exact ⟨hr, hs'⟩
  | blocked => exact hr.elim

/-- What is read is known in the states of `I`. -/
theorem keeps_bind_read {g : S → α} {a : α} (ha : ∀ s, I s → g s = a) (hf : Keeps I E (f a)) :
    Keeps I E (read g >>= f) := by
  intro s hs
  rw [ends_bind, ends_read, andThen_ok, ha s hs]
  exact hf s hs

theorem keeps_when {c : Prop} [Decidable c] {p : Prog S ε Unit} (hp : c → Keeps I E p) : Keeps I E (when c p) := by
  unfold when
  split
  · rename_i hc
    exact hp hc
  · exact keeps_pure ()

theorem keeps_tryCatch {E' : ε → Prop} {p : Prog S ε α} {h : ε → Prog S ε α} (hp : Keeps I E' p)
    (hh : ∀ e, E' e → Keeps I E (h e)) : Keeps I E (tryCatch p h) := by
  intro s hs
  rw [ends_tryCatch]
  refine Ends.mono (hp s hs) ?_
  intro r s' hpost
  obtain ⟨hr, hs'⟩ := hpost
  cases r with
  | ok a => exact ⟨trivial, hs'⟩
  | thrown e => exact hh e hr s' hs'
  | blocked => exact hr.elim

theorem keeps_forEach {body : α → Prog S ε Unit} {l : List α} (h : ∀ a ∈ l, Keeps I E (body a)) :
    Keeps I E (forEach body l) := by
  induction l with
  | nil => exact keeps_pure ()
  | cons a l ih =>
    refine keeps_bind (h a List.mem_cons_self) ?_
    exact fun _ => ih fun b hb => h b (List.mem_cons_of_mem _ hb)

end keeps

/-! ## States that are never left

`Stable I p`: from a state in `I`, however `p` ends, it leaves a state in `I`. -/

def Stable (I : S → Prop) (p : Prog S ε α) : Prop := ∀ s, I s → Ends p s fun _ s' => I s'

theorem Ends.and (h : Ends p s Q) (h' : Ends p s Q') : Ends p s fun r s' => Q r s' ∧ Q' r s' := ⟨h, h'⟩

/-- A program goes on from what its first part is known to have returned. -/
theorem ends_bind_stable {I : S → Prop} {Q : α → S → Prop} {f : α → Prog S ε β}
    (hp : Ends p s fun r s' => I s' ∧ ∀ a, r = .ok a → Q a s')
    (hf : ∀ a s', I s' → Q a s' → Ends (f a) s' fun _ s'' => I s'') : Ends (p >>= f) s fun _ s' => I s' := by
  rw [ends_bind]
  refine Ends.mono hp ?_
  intro r s' hpost
  obtain ⟨hs', hq⟩ := hpost
  cases r with
  | ok a => exact hf a s' hs' (hq a rfl)
  | thrown e => exact hs'
  | blocked => exact hs'

section stable

variable {I : S → Prop}

theorem stable_pure (a : α) : Stable I (pure a : Prog S ε α) := fun _ hs => hs

theorem stable_throw (e : ε) : Stable I (throw e : Prog S ε α) := fun _ hs => hs

theorem stable_read (f : S → α) : Stable I (read f : Prog S ε α) := fun _ hs => hs

theorem stable_modify {f : S → S} (h : ∀ s, I s → I (f s)) : Stable I (modify f : Prog S ε Unit) := h

theorem stable_call {f : S → α × S} (h : ∀ s, I s → I (f s).2) : Stable I (call f : Prog S ε α) := h

variable {p : Prog S ε α} {h : ε → Prog S ε α}

theorem stable_bind {f : α → Prog S ε β} (hp : Stable I p) (hf : ∀ a, Stable I (f a)) : Stable I (p >>= f) :=
  fun s hs => ends_bind_stable (Q := fun _ _ => True) ⟨hp s hs, fun _ _ => trivial⟩ fun a s' hs' _ => hf a s' hs'

theorem stable_ite {c : Prop} [Decidable c] {p q : Prog S ε α} (hp : Stable I p) (hq : Stable I q) :
    Stable I (if c then p else q) := by
  split
  · exact hp
  · exact hq

theorem stable_when {c : Prop} [Decidable c] {p : Prog S ε Unit} (hp : Stable I p) : Stable I (when c p) :=
  stable_ite hp (stable_pure ())

theorem ends_tryCatch_stable {s : S} (hp : Ends p s fun _ s' => I s')
    (hh : ∀ e, Stable I (h e)) : Ends (tryCatch p h) s fun _ s' => I s' := by
  rw [ends_tryCatch]
  refine Ends.mono hp ?_
  intro r s' hs'
  cases r with
  | ok a => exact hs'
  | thrown e => exact hh e s' hs'
  | blocked => exact hs'

theorem stable_tryCatch (hp : Stable I p) (hh : ∀ e, Stable I (h e)) :
    Stable I (tryCatch p h) := fun s hs => ends_tryCatch_stable (hp s hs) hh

theorem stable_forEach {body : α → Prog S ε Unit} (h : ∀ a, Stable I (body a)) (l : List α) :
    Stable I (forEach body l) := by
  induction l with
  | nil => exact stable_pure ()
  | cons a l ih => exact stable_bind (h a) fun _ => ih

theorem stable_zoom {J : T → Prop} {get : T → S} {set : S → T → T} (hp : Stable I p)
    (hget : ∀ t, J t → I (get t)) (hset : ∀ t s', J t → I s' → J (set s' t)) : Stable J (zoom get set p) :=
  fun t ht => hset t _ ht (hp (get t) (hget t ht))

end stable

/-! ## Getting from one set of states to another

`Crosses I J p`: from a state in `I`, `p` leaves a state in `J`, or it does not return and
leaves one in `I`. -/

def Crosses (I J : S → Prop) (p : Prog S ε α) : Prop :=
  ∀ s, I s → Ends p s fun r s' => J s' ∨ I s' ∧ ∀ a, r ≠ .ok a

section crosses

variable {I J : S → Prop}

theorem crosses_throw (e : ε) : Crosses I J (throw e : Prog S ε α) := fun _ hs => Or.inr ⟨hs, fun _ => nofun⟩

variable {p : Prog S ε α} {f : α → Prog S ε β}

/-- The crossing is in the rest. -/
theorem crosses_bind (hp : Stable I p) (hf : ∀ a, Crosses I J (f a)) : Crosses I J (p >>= f) := by
  intro s hs
  rw [ends_bind]
  refine Ends.mono (hp s hs) ?_
  intro r s' hs'
  cases r with
  | ok a => exact hf a s' hs'
  | thrown e => exact Or.inr ⟨hs', fun _ => nofun⟩
  | blocked => exact Or.inr ⟨hs', fun _ => nofun⟩

theorem crosses_bind_read {g : S → α} (hf : ∀ s, I s → Crosses I J (f (g s))) :
    Crosses I J (read g >>= f) := fun s hs => hf s hs s hs

/-- The crossing is in the first part. -/
theorem Crosses.bind (hp : Crosses I J p) (hf : ∀ a, Stable J (f a)) : Crosses I J (p >>= f) := by
  intro s hs
  rw [ends_bind]
  refine Ends.mono (hp s hs) ?_
  intro r s' hpost
  rcases hpost with hJ | ⟨hI, hfails⟩
  · cases r with
    | ok a => exact Ends.mono (hf a s' hJ) fun _ _ => Or.inl
    | thrown e => exact Or.inl hJ
    | blocked => exact Or.inl hJ
  · cases r with
    | ok a => exact absurd rfl (hfails a)
    | thrown e => exact Or.inr ⟨hI, fun _ => nofun⟩
    | blocked => exact Or.inr ⟨hI, fun _ => nofun⟩

/-- A handler that throws. -/
theorem Crosses.tryCatch {h : ε → Prog S ε α} (hp : Crosses I J p) (hI : ∀ e, Stable I (h e))
    (hJ : ∀ e, Stable J (h e)) (hthrows : ∀ e s, Ends (h e) s fun r _ => ∀ a, r ≠ .ok a) :
    Crosses I J (tryCatch p h) := by
  intro s hs
  rw [ends_tryCatch]
  refine Ends.mono (hp s hs) ?_
  intro r s' hpost
  cases r with
  | ok a => exact hpost
  | blocked => exact hpost
  | thrown e =>
    rcases hpost with hJ' | ⟨hI', -⟩
    · exact Ends.mono (hJ e s' hJ') fun _ _ => Or.inl
    · exact Ends.mono ((hI e s' hI').and (hthrows e s')) fun _ _ => Or.inr

theorem Crosses.zoom {I' J' : T → Prop} {get : T → S} {set : S → T → T} (hp : Crosses I J p)
    (hget : ∀ t, I' t → I (get t)) (hI : ∀ t s', I' t → I s' → I' (set s' t)) (hJ : ∀ t s', I' t → J s' → J' (set s' t)) :
    Crosses I' J' (zoom get set p) := by
  intro t ht
  rw [ends_zoom]
  refine Ends.mono (hp (get t) (hget t ht)) ?_
  intro r s' hpost
  rcases hpost with hJ' | ⟨hI', hfails⟩
  · exact Or.inl (hJ t s' ht hJ')
  · exact Or.inr ⟨hI t s' ht hI', hfails⟩

end crosses

/-! ## Mutexes -/

@[simp] theorem lockGuard_abstracted (m : Mutex S) (body : Prog S ε α) :
    lockGuard .abstracted m body = body := by
  funext s
  show Prog.bind (tryCatch body _) _ s = _
  unfold Prog.bind tryCatch
  rcases h : body s with ⟨r, s'⟩
  cases r <;> rfl

/-- What `Q` asks of the body of a guard on `m`, which is released unless the body blocks. -/
def released (m : Mutex S) (Q : Res ε α → S → Prop) : Res ε α → S → Prop
  | .ok a, s => Q (.ok a) (m.setOwner none s)
  | .thrown e, s => Q (.thrown e) (m.setOwner none s)
  | .blocked, s => Q .blocked s

theorem ends_lockGuard_free {m : Mutex S} (h : m.owner s = none) (t : Tid) (body : Prog S ε α)
    (Q : Res ε α → S → Prop) :
    Ends (lockGuard (.thread t) m body) s Q ↔ Ends body (m.setOwner (some t) s) (released m Q) := by
  have hlock : (lock (.thread t) m : Prog S ε Unit) s = (.ok (), m.setOwner (some t) s) := by simp [lock, h]
  simp only [lockGuard, ends_bind]
  rw [Ends, hlock, andThen_ok, ends_bind, ends_tryCatch]
  unfold Ends
  cases (body (m.setOwner (some t) s)).1 <;> rfl

/-- A guard on a mutex that has an owner never goes on. -/
theorem ends_lockGuard_owned {m : Mutex S} {t' : Tid} (h : m.owner s = some t') (t : Tid) (body : Prog S ε α)
    (Q : Res ε α → S → Prop) : Ends (lockGuard (.thread t) m body) s Q ↔ Q .blocked s := by
  have hlock : (lock (.thread t) m : Prog S ε Unit) s = (.blocked, s) := by simp [lock, h]
  simp only [lockGuard, ends_bind]
  rw [Ends, hlock, andThen_blocked]

end Prog

end Lib
