/-
  DockerCpp.Lib.Stream — texts as an input stream reads them.

  `pieces d` is what a loop of `getline` with the delimiter `d` reads: a piece ends at a
  delimiter or with the text, and nothing follows a last delimiter. `word` is `>>` into a
  string. `strtoull` is how `>>` and `std::stoull` read an unsigned integer of 64 bits:
  blanks, a sign, digits; without a digit, or with too many, it fails, and what follows is
  not looked at.
-/

import DockerCpp.Lib.Text
import Mathlib.Algebra.Group.Nat.Defs

namespace Lib.Stream

/-! ## Pieces -/

section

variable {α : Type} [BEq α]

def pieces (d : α) : List α → List (List α)
  | [] => []
  | x :: xs =>
    if x == d then [] :: pieces d xs
    else
      match pieces d xs with
      | [] => [[x]]
      | l :: ls => (x :: l) :: ls

variable [LawfulBEq α] {d : α}

theorem pieces_append {l : List α} (h : d ∉ l) (rest : List α) : pieces d (l ++ d :: rest) = l :: pieces d rest := by
  induction l with
  | nil => simp [pieces]
  | cons x l ih =>
    obtain ⟨hx, hl⟩ := List.ne_and_not_mem_of_not_mem_cons h
    simp [pieces, Ne.symm hx, ih hl]

theorem pieces_of_notMem {l : List α} (hne : l ≠ []) (h : d ∉ l) : pieces d l = [l] := by
  induction l with
  | nil => exact absurd rfl hne
  | cons x l ih =>
    obtain ⟨hx, hl⟩ := List.ne_and_not_mem_of_not_mem_cons h
    cases l with
    | nil => simp [pieces, Ne.symm hx]
    | cons y l => rw [pieces, ih (List.cons_ne_nil y l) hl, if_neg (by simpa using Ne.symm hx)]

/-- Lines that are written one after the other are read again. -/
theorem pieces_flatMap {ls : List (List α)} (h : ∀ l ∈ ls, d ∉ l) : pieces d (ls.flatMap (· ++ [d])) = ls := by
  induction ls with
  | nil => rfl
  | cons l ls ih =>
    rw [List.flatMap_cons, List.append_assoc, List.singleton_append, pieces_append (h l List.mem_cons_self),
      ih fun l' hl' => h l' (List.mem_cons_of_mem _ hl')]

theorem notMem_of_mem_pieces {text l : List α} (h : l ∈ pieces d text) : d ∉ l := by
  induction text generalizing l with
  | nil => cases h
  | cons x xs ih =>
    unfold pieces at h
    split at h
    · rcases List.mem_cons.mp h with rfl | hmem
      · exact List.not_mem_nil
      · exact ih hmem
    · rename_i hx
      have hd : d ≠ x := fun heq => hx (beq_iff_eq.mpr heq.symm)
      split at h
      · rw [List.mem_singleton.mp h, List.mem_singleton]
        exact hd
      · rename_i first ls hfirst
        rw [hfirst] at ih
        rcases List.mem_cons.mp h with rfl | hmem
        · rw [List.mem_cons, not_or]
          exact ⟨hd, ih List.mem_cons_self⟩
        · exact ih (List.mem_cons_of_mem _ hmem)

omit [LawfulBEq α] in
theorem subset_of_mem_pieces {text l : List α} (h : l ∈ pieces d text) : l ⊆ text := by
  induction text generalizing l with
  | nil => cases h
  | cons x xs ih =>
    unfold pieces at h
    split at h
    · rcases List.mem_cons.mp h with rfl | hmem
      · exact List.nil_subset _
      · exact List.subset_cons_of_subset x (ih hmem)
    · split at h
      · rw [List.mem_singleton.mp h]
        exact List.cons_subset_cons x (List.nil_subset xs)
      · rename_i first ls hfirst
        rw [hfirst] at ih
        rcases List.mem_cons.mp h with rfl | hmem
        · exact List.cons_subset_cons x (ih List.mem_cons_self)
        · exact List.subset_cons_of_subset x (ih (List.mem_cons_of_mem _ hmem))

end

/-! ## Words and numbers -/

def isSpace (c : Char) : Bool := c == ' ' || c == '\t' || c == '\n' || c == '\x0b' || c == '\x0c' || c == '\r'

def isWord (w : List Char) : Bool := !w.isEmpty && w.all (!isSpace ·)

/-- The first word, and the text after it. -/
def word (text : List Char) : Option (List Char × List Char) :=
  match text.dropWhile isSpace with
  | [] => none
  | c :: rest => some ((c :: rest).takeWhile (!isSpace ·), (c :: rest).dropWhile (!isSpace ·))

/-- A minus sign gives the complement, as `strtoull` has it. -/
def strtoull (text : List Char) : Option Nat :=
  let start := text.dropWhile isSpace
  let unsigned := if start.head? = some '-' ∨ start.head? = some '+' then start.tail else start
  let digits := unsigned.takeWhile Char.isDigit
  let n := Nat.ofDigitChars 10 digits 0
  if digits = [] ∨ 2 ^ 64 ≤ n then none
  else if start.head? = some '-' then some ((2 ^ 64 - n) % 2 ^ 64)
  else some n

theorem isSpace_of_isDigit {c : Char} (h : c.isDigit = true) : isSpace c = false := by
  simp only [isSpace, Bool.or_eq_false_iff, beq_eq_false_iff_ne]
  refine ⟨⟨⟨⟨⟨?_, ?_⟩, ?_⟩, ?_⟩, ?_⟩, ?_⟩
  all_goals
    rintro rfl
    exact absurd h (by decide)

theorem isWord_iff {w : List Char} : isWord w = true ↔ w ≠ [] ∧ ∀ c ∈ w, isSpace c = false := by
  simp [isWord]

theorem notMem_of_isWord {w : List Char} (h : isWord w = true) {c : Char} (hc : isSpace c = true) : c ∉ w := by
  intro hmem
  rw [(isWord_iff.mp h).2 c hmem] at hc
  cases hc

theorem word_append {w rest : List Char} (h : isWord w = true) (hrest : ∀ c, rest.head? = some c → isSpace c = true) :
    word (w ++ rest) = some (w, rest) := by
  obtain ⟨hne, hw⟩ := isWord_iff.mp h
  have hnot : ∀ x ∈ w, (!isSpace x) = true := fun x hx => by rw [hw x hx]; rfl
  have hstop : ∀ x, rest.head? = some x → (!isSpace x) = false := fun x hx => by rw [hrest x hx]; rfl
  cases w with
  | nil => exact absurd rfl hne
  | cons c w =>
    have hstart : (c :: w ++ rest).dropWhile isSpace = c :: (w ++ rest) := by
      simp [hw c List.mem_cons_self]
    simp only [word, hstart]
    rw [← List.cons_append, takeWhile_run hnot hstop, dropWhile_run hnot hstop]

/-- A printed number is read as it is, behind blanks and in front of anything but a digit. -/
theorem strtoull_toDigits {n : Nat} (h : n < 2 ^ 64) (blanks rest : List Char) (hblanks : ∀ c ∈ blanks, isSpace c = true)
    (hrest : ∀ c, rest.head? = some c → c.isDigit = false) :
    strtoull (blanks ++ (Nat.toDigits 10 n ++ rest)) = some n := by
  have hdigit : ∀ c ∈ Nat.toDigits 10 n, c.isDigit = true := fun c hc =>
    Nat.isDigit_of_mem_toDigits (by decide) (by decide) hc
  have hvalue : Nat.ofDigitChars 10 (Nat.toDigits 10 n) 0 = n := Nat.ofDigitChars_ten_toDigits
  have hne : Nat.toDigits 10 n ≠ [] := Nat.toDigits_ne_nil
  have hhead : ∀ c, (Nat.toDigits 10 n ++ rest).head? = some c → c.isDigit = true := by
    intro c hc
    cases hdigits : Nat.toDigits 10 n with
    | nil => exact absurd hdigits hne
    | cons x ds =>
      rw [hdigits, List.cons_append, List.head?_cons, Option.some.injEq] at hc
      exact hc ▸ hdigit x (hdigits ▸ List.mem_cons_self)
  have hskip : (blanks ++ (Nat.toDigits 10 n ++ rest)).dropWhile isSpace = Nat.toDigits 10 n ++ rest :=
    dropWhile_run hblanks fun c hc => isSpace_of_isDigit (hhead c hc)
  have hsign : ∀ sign : Char, sign.isDigit = false → (Nat.toDigits 10 n ++ rest).head? ≠ some sign := by
    intro sign hsign heq
    rw [hhead sign heq] at hsign
    cases hsign
  have htake := takeWhile_run hdigit hrest
  simp only [strtoull, hskip, hsign '-' (by decide), hsign '+' (by decide), or_self, if_false, htake, hvalue]
  rw [if_neg (by simp only [hne, false_or]; omega)]

end Lib.Stream
