/-
  DockerCpp.Lib.Text — searching in texts, which are lists.

  `find` and `replace` are the operations of a string with positions; `trim` drops what is
  at both ends. `Regex` is a
  backtracking matcher: `ways` lists every way to match at the beginning of a text, in
  the order in which they are tried, each with what its groups caught and the rest of the
  text. `scan` lists the matches in a text from left to right, for expressions that do not
  match the empty text.
-/

import Mathlib.Data.List.DropRight

namespace Lib

variable {α : Type}

/-! ## Positions -/

section

variable [BEq α]

def indexOf (pattern : List α) : List α → Option Nat
  | [] => if pattern.isEmpty then some 0 else none
  | x :: xs => if pattern.isPrefixOf (x :: xs) then some 0 else (indexOf pattern xs).map (· + 1)

/-- The first occurrence at or after a position. -/
def find (pattern text : List α) (start : Nat) : Option Nat := (indexOf pattern (text.drop start)).map (start + ·)

variable {pattern text : List α}

theorem indexOf_lt {i : Nat} (hp : pattern ≠ []) (h : indexOf pattern text = some i) : i < text.length := by
  induction text generalizing i with
  | nil => simp [indexOf, hp] at h
  | cons x xs ih =>
    unfold indexOf at h
    split at h
    · rw [← Option.some.inj h]
      exact Nat.zero_lt_succ _
    · obtain ⟨j, hj, rfl⟩ := Option.map_eq_some_iff.mp h
      exact Nat.succ_lt_succ (ih hj)

theorem find_bounds {start i : Nat} (hp : pattern ≠ []) (h : find pattern text start = some i) :
    start ≤ i ∧ i < text.length := by
  obtain ⟨j, hj, rfl⟩ := Option.map_eq_some_iff.mp h
  have hlt := indexOf_lt hp hj
  rw [List.length_drop] at hlt
  omega

theorem find_append (pattern pre rest : List α) :
    find pattern (pre ++ rest) pre.length = (indexOf pattern rest).map (pre.length + ·) := by
  rw [find, List.drop_left]

theorem indexOf_cons [LawfulBEq α] {pattern : List α} {x : α} {xs : List α} (h : ¬ pattern <+: x :: xs) :
    indexOf pattern (x :: xs) = (indexOf pattern xs).map (· + 1) := by
  rw [indexOf, if_neg (by rwa [List.isPrefixOf_iff_prefix])]

theorem indexOf_singleton [LawfulBEq α] {c : α} {pre : List α} (h : c ∉ pre) (post : List α) :
    indexOf [c] (pre ++ c :: post) = some pre.length := by
  induction pre with
  | nil => simp [indexOf, List.isPrefixOf]
  | cons x xs ih =>
    obtain ⟨hx, hxs⟩ := List.ne_and_not_mem_of_not_mem_cons h
    simp [indexOf, List.isPrefixOf, hx, ih hxs]

theorem indexOf_singleton_none [LawfulBEq α] {c : α} {text : List α} (h : c ∉ text) : indexOf [c] text = none := by
  induction text with
  | nil => rfl
  | cons x xs ih =>
    obtain ⟨hx, hxs⟩ := List.ne_and_not_mem_of_not_mem_cons h
    simp [indexOf, List.isPrefixOf, hx, ih hxs]

theorem indexOf_eq_none_iff [LawfulBEq α] : indexOf pattern text = none ↔ ¬pattern <:+: text := by
  induction text with
  | nil => simp [indexOf]
  | cons x xs ih =>
    rw [List.infix_cons_iff, indexOf]
    by_cases hp : pattern <+: x :: xs
    · rw [if_pos (List.isPrefixOf_iff_prefix.mpr hp)]
      simp [hp]
    · rw [if_neg (by rwa [List.isPrefixOf_iff_prefix]), Option.map_eq_none_iff, ih]
      simp [hp]

theorem indexOf_some [LawfulBEq α] {i : Nat} (h : indexOf pattern text = some i)
    (hp : pattern ≠ []) : ∃ pre post, text = pre ++ (pattern ++ post) ∧ pre.length = i ∧ ¬pattern <:+: pre := by
  induction text generalizing i with
  | nil => simp [indexOf, hp] at h
  | cons x xs ih =>
    by_cases hfirst : pattern <+: x :: xs
    · rw [indexOf, if_pos (List.isPrefixOf_iff_prefix.mpr hfirst)] at h
      cases h
      obtain ⟨post, hpost⟩ := hfirst
      exact ⟨[], post, hpost.symm, rfl, by simpa using hp⟩
    · rw [indexOf_cons hfirst] at h
      obtain ⟨j, hj, rfl⟩ := Option.map_eq_some_iff.mp h
      obtain ⟨pre, post, rfl, rfl, hpre⟩ := ih hj
      refine ⟨x :: pre, post, rfl, rfl, ?_⟩
      rw [List.infix_cons_iff]
      intro hin
      rcases hin with hstart | hin
      · exact hfirst (hstart.trans (List.prefix_append (x :: pre) _))
      · exact hpre hin

theorem indexOf_pair [LawfulBEq α] {a b : α} (hab : a ≠ b) {pre : List α} (h : ¬[a, b] <:+: pre) (post : List α) :
    indexOf [a, b] (pre ++ ([a, b] ++ post)) = some pre.length := by
  induction pre with
  | nil => simp [indexOf]
  | cons x xs ih =>
    have hfirst : ¬[a, b] <+: x :: (xs ++ ([a, b] ++ post)) := by
      intro hstart
      cases xs with
      | nil =>
        simp only [List.nil_append, List.cons_append, List.cons_prefix_cons] at hstart
        exact hab hstart.2.1.symm
      | cons y xs =>
        simp only [List.cons_append, List.cons_prefix_cons] at hstart
        obtain ⟨rfl, rfl, _⟩ := hstart
        exact h (List.prefix_append [a, b] xs).isInfix
    rw [List.cons_append, indexOf_cons hfirst, ih fun hin => h (hin.trans (List.suffix_cons x xs).isInfix)]
    rfl

/-- A text is put together from parts without the pattern. -/
theorem exists_pieces [LawfulBEq α] {pattern : List α} (hp : pattern ≠ []) (text : List α) :
    ∃ pieces, pieces ≠ [] ∧ (∀ piece ∈ pieces, ¬pattern <:+: piece) ∧ text = pattern.intercalate pieces := by
  induction hn : text.length using Nat.strong_induction_on generalizing text with
  | _ n ih =>
    cases hindex : indexOf pattern text with
    | none =>
      refine ⟨[text], List.cons_ne_nil _ _, ?_, by simp⟩
      intro piece hpiece
      rw [List.mem_singleton.mp hpiece]
      exact indexOf_eq_none_iff.mp hindex
    | some i =>
      obtain ⟨pre, post, rfl, _, hpre⟩ := indexOf_some hindex hp
      have hshorter : post.length < n := by
        have := List.length_pos_iff.mpr hp
        simp only [List.length_append] at hn
        omega
      obtain ⟨pieces, hne, hpieces, rfl⟩ := ih _ hshorter post rfl
      refine ⟨pre :: pieces, List.cons_ne_nil _ _, List.forall_mem_cons.mpr ⟨hpre, hpieces⟩, ?_⟩
      obtain ⟨next, rest, rfl⟩ := List.exists_cons_of_ne_nil hne
      rw [List.intercalate_cons_cons, List.append_assoc]

theorem find_eq_none_iff [LawfulBEq α] : find pattern text 0 = none ↔ ¬pattern <:+: text := by
  rw [find, List.drop_zero, Option.map_eq_none_iff, indexOf_eq_none_iff]

end

theorem bne_of_notMem [BEq α] [LawfulBEq α] {d : α} {run : List α} (h : d ∉ run) : ∀ x ∈ run, (x != d) = true := by
  intro x hx
  rw [bne_iff_ne]
  intro heq
  exact h (heq ▸ hx)

/-! A run of elements and what follows it. -/

variable {p : α → Bool}

theorem dropWhile_run {run rest : List α} (h : ∀ x ∈ run, p x = true)
    (hrest : ∀ x, rest.head? = some x → p x = false) : (run ++ rest).dropWhile p = rest := by
  rw [List.dropWhile_append_of_pos h]
  cases rest with
  | nil => rfl
  | cons x rest => simp [hrest x rfl]

theorem takeWhile_run {run rest : List α} (h : ∀ x ∈ run, p x = true)
    (hrest : ∀ x, rest.head? = some x → p x = false) : (run ++ rest).takeWhile p = run := by
  rw [List.takeWhile_append_of_pos h]
  cases rest with
  | nil => simp
  | cons x rest => simp [hrest x rfl]

/-! Both ends. -/

def trim (p : α → Bool) (xs : List α) : List α := (xs.dropWhile p).rdropWhile p

def Trimmed (p : α → Bool) (xs : List α) : Prop := xs.head?.any p = false ∧ xs.getLast?.any p = false

instance (p : α → Bool) (xs : List α) : Decidable (Trimmed p xs) := inferInstanceAs (Decidable (_ ∧ _))

theorem trimmed_trim (p : α → Bool) (xs : List α) : Trimmed p (trim p xs) := by
  have hhead := List.head?_dropWhile_not p xs
  constructor
  · cases hfirst : (trim p xs).head? with
    | none => rfl
    | some x =>
      obtain ⟨rest, hrest⟩ := List.head?_eq_some_iff.mp hfirst
      obtain ⟨dropped, hdropped⟩ := List.rdropWhile_prefix p (xs.dropWhile p)
      rw [← hdropped, ← trim, hrest] at hhead
      simpa using hhead
  · cases hlast : (trim p xs).getLast? with
    | none => rfl
    | some x =>
      have hne : trim p xs ≠ [] := List.ne_nil_of_mem (List.mem_of_getLast? hlast)
      rw [List.getLast?_eq_some_getLast hne] at hlast
      cases hlast
      exact Bool.eq_false_iff.mpr (List.rdropWhile_last_not p (xs.dropWhile p) hne)

theorem trim_subset (p : α → Bool) (xs : List α) : trim p xs ⊆ xs := fun _ hx =>
  List.dropWhile_subset p ((List.rdropWhile_prefix p _).subset hx)

theorem trim_pad {before xs after : List α} (h : Trimmed p xs) (hbefore : ∀ x ∈ before, p x = true)
    (hafter : ∀ x ∈ after, p x = true) : trim p (before ++ (xs ++ after)) = xs := by
  cases xs with
  | nil =>
    have hall : ∀ x ∈ before ++ ([] ++ after), p x = true := by
      intro x hx
      rcases List.mem_append.mp hx with hx | hx
      · exact hbefore x hx
      · exact hafter x hx
    rw [trim, List.dropWhile_eq_nil_iff.mpr hall]
    rfl
  | cons x xs =>
    have hfirst : ∀ y, (x :: xs ++ after).head? = some y → p y = false := by
      intro y hy
      cases hy
      exact h.1
    have hlast : ∀ y, (x :: xs).reverse.head? = some y → p y = false := by
      intro y hy
      rw [List.head?_reverse] at hy
      have hend := h.2
      rwa [hy] at hend
    rw [trim, dropWhile_run hbefore hfirst, List.rdropWhile, List.reverse_append,
      dropWhile_run (fun y hy => hafter y (List.mem_reverse.mp hy)) hlast, List.reverse_reverse]

/-- A list is cut in one way at the first occurrence of an element. -/
theorem append_cons_inj {d : α} {xs xs' ys ys' : List α} (h : d ∉ xs) (h' : d ∉ xs')
    (heq : xs ++ d :: ys = xs' ++ d :: ys') : xs = xs' ∧ ys = ys' := by
  induction xs generalizing xs' with
  | nil =>
    cases xs' with
    | nil => exact ⟨rfl, (List.cons.inj heq).2⟩
    | cons x xs' => exact absurd ((List.cons.inj heq).1 ▸ List.mem_cons_self) h'
  | cons x xs ih =>
    cases xs' with
    | nil => exact absurd ((List.cons.inj heq).1 ▸ List.mem_cons_self) h
    | cons x' xs' =>
      obtain ⟨rfl, htail⟩ := List.cons.inj heq
      obtain ⟨rfl, hrest⟩ := ih (fun hmem => h (List.mem_cons_of_mem _ hmem))
        (fun hmem => h' (List.mem_cons_of_mem _ hmem)) htail
      exact ⟨rfl, hrest⟩

/-! Two neighbours. -/

theorem pair_infix_cons {a b x : α} {xs : List α} :
    [a, b] <:+: x :: xs ↔ (a = x ∧ xs.head? = some b) ∨ [a, b] <:+: xs := by
  rw [List.infix_cons_iff, List.cons_prefix_cons]
  cases xs with
  | nil => simp
  | cons y xs => simp [eq_comm]

theorem pair_infix_append_cons {a b d : α} (hd : d ≠ b) {xs ys : List α} :
    [a, b] <:+: xs ++ d :: ys ↔ [a, b] <:+: xs ∨ [a, b] <:+: d :: ys := by
  induction xs with
  | nil => simp
  | cons x xs ih =>
    have hhead : (xs ++ d :: ys).head? = some b ↔ xs.head? = some b := by
      cases xs with
      | nil => simp [hd]
      | cons y xs => simp
    rw [List.cons_append, pair_infix_cons, pair_infix_cons, ih, hhead, or_assoc]

theorem pair_infix_append_of_notMem {a b : α} {xs ys : List α} (h : a ∉ xs) : [a, b] <:+: xs ++ ys ↔ [a, b] <:+: ys := by
  induction xs with
  | nil => rfl
  | cons x xs ih =>
    obtain ⟨hx, hxs⟩ := List.ne_and_not_mem_of_not_mem_cons h
    rw [List.cons_append, pair_infix_cons, ih hxs]
    simp [hx]

def replace (text : List α) (position length : Nat) (new : List α) : List α :=
  text.take position ++ new ++ text.drop (position + length)

theorem replace_append (pre old post new : List α) :
    replace (pre ++ (old ++ post)) pre.length old.length new = pre ++ (new ++ post) := by
  rw [replace, List.take_left, List.drop_append]
  simp

/-! ## Regular expressions -/

inductive Regex (α : Type) where
  | empty
  | one (p : α → Bool)
  /-- As many as possible, and fewer when the rest does not match. -/
  | many (p : α → Bool)
  | seq (r r' : Regex α)
  | alt (r r' : Regex α)
  | group (n : Nat) (r : Regex α)

/-- What is left after any number of elements, the longest run of them first. -/
def manyRests (p : α → Bool) : List α → List (List α)
  | [] => [[]]
  | x :: xs => if p x then manyRests p xs ++ [x :: xs] else [x :: xs]

/-- If nothing can follow before the run is over, only the longest run counts. -/
theorem manyRests_flatMap {β : Type} {f : List α → List β} (h : ∀ x xs, p x = true → f (x :: xs) = [])
    (xs : List α) : (manyRests p xs).flatMap f = f (xs.dropWhile p) := by
  induction xs with
  | nil => simp [manyRests]
  | cons x xs ih =>
    by_cases hx : p x = true
    · simp [manyRests, hx, ih, h x xs hx]
    · simp [manyRests, hx]

namespace Regex

abbrev Captures (α : Type) := List (Nat × List α)

def plus (p : α → Bool) : Regex α := .seq (.one p) (.many p)

def literal [BEq α] : List α → Regex α
  | [] => .empty
  | x :: xs => .seq (.one (· == x)) (literal xs)

def ways : Regex α → List α → List (Captures α × List α)
  | .empty, xs => [([], xs)]
  | .one p, x :: xs => if p x then [([], xs)] else []
  | .one _, [] => []
  | .many p, xs => (manyRests p xs).map ([], ·)
  | .seq r r', xs => (r.ways xs).flatMap fun m => (r'.ways m.2).map fun m' => (m.1 ++ m'.1, m'.2)
  | .alt r r', xs => r.ways xs ++ r'.ways xs
  | .group n r, xs => (r.ways xs).map fun m => (m.1 ++ [(n, xs.take (xs.length - m.2.length))], m.2)

@[simp] theorem ways_empty (xs : List α) : (Regex.empty : Regex α).ways xs = [([], xs)] := rfl

@[simp] theorem ways_one_cons (p : α → Bool) (x : α) (xs : List α) :
    (Regex.one p).ways (x :: xs) = if p x then [([], xs)] else [] := rfl

@[simp] theorem ways_one_nil (p : α → Bool) : (Regex.one p).ways [] = [] := rfl

@[simp] theorem ways_many (p : α → Bool) (xs : List α) : (Regex.many p).ways xs = (manyRests p xs).map ([], ·) := rfl

@[simp] theorem ways_seq (r r' : Regex α) (xs : List α) : (Regex.seq r r').ways xs =
    (r.ways xs).flatMap fun m => (r'.ways m.2).map fun m' => (m.1 ++ m'.1, m'.2) := rfl

@[simp] theorem ways_alt (r r' : Regex α) (xs : List α) :
    (Regex.alt r r').ways xs = r.ways xs ++ r'.ways xs := rfl

@[simp] theorem ways_group (n : Nat) (r : Regex α) (xs : List α) : (Regex.group n r).ways xs =
    (r.ways xs).map fun m => (m.1 ++ [(n, xs.take (xs.length - m.2.length))], m.2) := rfl

def first (r : Regex α) (xs : List α) : Option (Captures α × List α) := (r.ways xs).head?

variable {r : Regex α} {xs : List α} {p : α → Bool}

theorem ways_seq_single {xs rest : List α} {captures : Captures α} (h : r.ways xs = [(captures, rest)])
    (r' : Regex α) : (Regex.seq r r').ways xs = (r'.ways rest).map fun m => (captures ++ m.1, m.2) := by
  rw [ways_seq, h, List.flatMap_singleton]

theorem ways_seq_nil (h : r.ways xs = []) (r' : Regex α) : (Regex.seq r r').ways xs = [] := by
  rw [ways_seq, h, List.flatMap_nil]

theorem ways_one {x : α} (h : p x = true) (xs : List α) : (Regex.one p).ways (x :: xs) = [([], xs)] := by
  rw [ways_one_cons, if_pos h]

theorem ways_one_none {x : α} (h : p x = false) (xs : List α) : (Regex.one p).ways (x :: xs) = [] := by
  rw [ways_one_cons, h]
  rfl

/-! A text, a run of elements, and a group up to a delimiter. -/

theorem ways_literal [BEq α] [LawfulBEq α] (p rest : List α) : (literal p).ways (p ++ rest) = [([], rest)] := by
  induction p with
  | nil => rfl
  | cons x p ih => simp [literal, ih]

theorem ways_literal_none [BEq α] [LawfulBEq α] {p xs : List α} (h : ¬p <+: xs) : (literal p).ways xs = [] := by
  induction p generalizing xs with
  | nil => exact absurd List.nil_prefix h
  | cons x p ih =>
    cases xs with
    | nil => rfl
    | cons y xs =>
      by_cases hxy : y = x
      · subst hxy
        have htail : ¬p <+: xs := fun hp => h (List.cons_prefix_cons.mpr ⟨rfl, hp⟩)
        simp [literal, ih htail]
      · simp [literal, hxy]

theorem take_run (run rest : List α) : (run ++ rest).take ((run ++ rest).length - rest.length) = run := by
  simp

theorem first_group_single {run rest : List α} (h : r.ways (run ++ rest) = [([], rest)]) (n : Nat) :
    (Regex.group n r).first (run ++ rest) = some ([(n, run)], rest) := by
  rw [first, ways_group, h, List.map_singleton, take_run]
  rfl

theorem ways_many_none (h : ∀ x, xs.head? = some x → p x = false) : (Regex.many p).ways xs = [([], xs)] := by
  cases xs with
  | nil => rfl
  | cons x xs => simp [manyRests, h x rfl]

theorem manyRests_head? (p : α → Bool) (xs : List α) : (manyRests p xs).head? = some (xs.dropWhile p) := by
  induction xs with
  | nil => rfl
  | cons x xs ih =>
    unfold manyRests
    by_cases hx : p x = true
    · simp [hx, List.head?_append, ih]
    · simp [hx]

/-- The longest run is tried first. -/
theorem first_group_plus {run rest : List α} (hne : run ≠ []) (h : ∀ x ∈ run, p x = true)
    (hrest : ∀ x, rest.head? = some x → p x = false) (n : Nat) :
    (Regex.group n (.plus p)).first (run ++ rest) = some ([(n, run)], rest) := by
  cases run with
  | nil => exact absurd rfl hne
  | cons x run =>
    have hdrop : (run ++ rest).dropWhile p = rest := dropWhile_run (fun y hy => h y (List.mem_cons_of_mem _ hy)) hrest
    have hlongest := manyRests_head? p (run ++ rest)
    rw [hdrop] at hlongest
    simpa [first, plus, h x List.mem_cons_self, hlongest] using take_run (x :: run) rest

theorem ways_group_plus_none (h : ∀ x, xs.head? = some x → p x = false) (n : Nat) :
    (Regex.group n (.plus p)).ways xs = [] := by
  cases xs with
  | nil => rfl
  | cons x xs => simp [plus, h x rfl]

def StartsWith (d : α) (q : Regex α) : Prop := q.ways [] = [] ∧ ∀ x xs, x ≠ d → q.ways (x :: xs) = []

theorem StartsWith.seq {d : α} {q : Regex α} (h : StartsWith d q) (r : Regex α) : StartsWith d (.seq q r) :=
  ⟨by simp [h.1], fun x xs hx => by simp [h.2 x xs hx]⟩

section

variable [BEq α] [LawfulBEq α] {d : α} {q : Regex α}

theorem startsWith_one : StartsWith d (.one (· == d)) :=
  ⟨rfl, fun x xs hx => by simp [hx]⟩

variable {run xs : List α}

/-- The delimiter does not match inside the run: only the whole of it counts. -/
theorem manyRests_until {β : Type} (hq : StartsWith d q) (h : d ∉ run) (after : List α)
    (f : List α → Captures α × List α → β) :
    (manyRests (· != d) (run ++ d :: after)).flatMap (fun ys => (q.ways ys).map (f ys)) =
      (q.ways (d :: after)).map (f (d :: after)) := by
  rw [manyRests_flatMap fun x xs hx => by rw [hq.2 x xs (bne_iff_ne.mp hx), List.map_nil],
    List.dropWhile_append_of_pos (bne_of_notMem h)]
  simp

theorem manyRests_unended {β : Type} (hq : StartsWith d q) (h : d ∉ xs) (f : List α → Captures α × List α → β) :
    (manyRests (· != d) xs).flatMap (fun ys => (q.ways ys).map (f ys)) = [] := by
  rw [manyRests_flatMap fun x xs hx => by rw [hq.2 x xs (bne_iff_ne.mp hx), List.map_nil],
    List.dropWhile_eq_nil_iff.mpr (bne_of_notMem h), hq.1, List.map_nil]

theorem ways_many_until (hq : StartsWith d q) (h : d ∉ run) (n : Nat) (after : List α) :
    (Regex.seq (.group n (.many (· != d))) q).ways (run ++ d :: after) =
      (q.ways (d :: after)).map fun m => ((n, run) :: m.1, m.2) := by
  have hrun := manyRests_until hq h after fun ys m =>
    ((n, (run ++ d :: after).take ((run ++ d :: after).length - ys.length)) :: m.1, m.2)
  rw [take_run] at hrun
  rw [← hrun]
  simp [List.flatMap_map, Function.comp_def]

theorem ways_many_unended (hq : StartsWith d q) (h : d ∉ xs) (n : Nat) :
    (Regex.seq (.group n (.many (· != d))) q).ways xs = [] := by
  have hrun := manyRests_unended hq h fun ys m => ((n, xs.take (xs.length - ys.length)) :: m.1, m.2)
  rw [← hrun]
  simp [List.flatMap_map, Function.comp_def]

theorem ways_plus_until (hq : StartsWith d q) (hne : run ≠ []) (h : d ∉ run) (n : Nat) (after : List α) :
    (Regex.seq (.group n (.plus (· != d))) q).ways (run ++ d :: after) =
      (q.ways (d :: after)).map fun m => ((n, run) :: m.1, m.2) := by
  cases run with
  | nil => exact absurd rfl hne
  | cons x run =>
    obtain ⟨hx, hmem⟩ := List.ne_and_not_mem_of_not_mem_cons h
    have hrun := manyRests_until hq hmem after fun ys m =>
      ((n, (x :: run ++ d :: after).take ((x :: run ++ d :: after).length - ys.length)) :: m.1, m.2)
    rw [take_run] at hrun
    rw [← hrun]
    simp [plus, Ne.symm hx, List.flatMap_map, Function.comp_def]

theorem ways_plus_empty (q : Regex α) (n : Nat) (after : List α) :
    (Regex.seq (.group n (.plus (· != d))) q).ways (d :: after) = [] := by
  simp [plus]

theorem ways_plus_unended (hq : StartsWith d q) (h : d ∉ xs) (n : Nat) :
    (Regex.seq (.group n (.plus (· != d))) q).ways xs = [] := by
  cases xs with
  | nil => simp [plus]
  | cons x xs =>
    obtain ⟨hx, hmem⟩ := List.ne_and_not_mem_of_not_mem_cons h
    have hrun := manyRests_unended hq hmem fun ys m =>
      ((n, (x :: xs).take ((x :: xs).length - ys.length)) :: m.1, m.2)
    rw [← hrun]
    simp [plus, Ne.symm hx, List.flatMap_map, Function.comp_def]

end

end Regex

structure Match (α : Type) where
  position : Nat
  length : Nat
  captures : Regex.Captures α

def Match.str (m : Match α) (n : Nat) : List α := (m.captures.lookup n).getD []

def Match.matched (m : Match α) (n : Nat) : Bool := (m.captures.lookup n).isSome

/-- The first `skip` elements belong to the last match. -/
def scan (r : Regex α) : (skip position : Nat) → List α → List (Match α)
  | _, _, [] => []
  | skip + 1, position, _ :: xs => scan r skip (position + 1) xs
  | 0, position, x :: xs =>
    match r.first (x :: xs) with
    | some (captures, rest) =>
      let length := (x :: xs).length - rest.length
      ⟨position, length, captures⟩ :: scan r (length - 1) (position + 1) xs
    | none => scan r 0 (position + 1) xs

theorem scan_skip (r : Regex α) (skip position : Nat) (xs : List α) :
    scan r skip position xs = scan r 0 (position + skip) (xs.drop skip) := by
  induction xs generalizing skip position with
  | nil => simp [scan]
  | cons x xs ih =>
    cases skip with
    | zero => rfl
    | succ skip =>
      rw [scan, ih, List.drop_succ_cons]
      congr 1
      omega

theorem scan_none {r : Regex α} {x : α} {xs : List α} (h : r.first (x :: xs) = none) (position : Nat) :
    scan r 0 position (x :: xs) = scan r 0 (position + 1) xs := by
  rw [scan, h]

theorem scan_some {r : Regex α} {pre rest : List α} {captures : Regex.Captures α} (hne : pre ≠ [])
    (h : r.first (pre ++ rest) = some (captures, rest)) (position : Nat) :
    scan r 0 position (pre ++ rest) = ⟨position, pre.length, captures⟩ :: scan r 0 (position + pre.length) rest := by
  cases pre with
  | nil => exact absurd rfl hne
  | cons x xs =>
    rw [List.cons_append] at h ⊢
    have hlen : (x :: (xs ++ rest)).length - rest.length = xs.length + 1 := by
      simp only [List.length_cons, List.length_append]
      omega
    rw [scan, h]
    simp only [hlen, Nat.add_sub_cancel]
    rw [scan_skip, List.drop_left]
    simp only [List.length_cons]
    congr 2
    omega

end Lib
