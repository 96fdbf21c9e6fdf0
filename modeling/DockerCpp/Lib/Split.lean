/-
  DockerCpp.Lib.Split — lists cut at a separator (`List.splitOn`) and put together again
  (`List.intercalate`): when the first or the last part is empty, and what a cut of one
  list being an initial segment of the cut of another says about the lists.
-/

import Mathlib.Data.List.Basic

namespace Lib

variable {α : Type}

theorem intercalate_cons (sep : α) (l : List α) (ls : List (List α)) :
    [sep].intercalate (l :: ls) = l ++ ls.flatMap (sep :: ·) := by
  induction ls generalizing l with
  | nil => simp
  | cons m ls ih =>
    rw [List.intercalate_cons_cons, ih, List.flatMap_cons]
    simp

variable [BEq α] [LawfulBEq α] {sep : α}

theorem splitOn_head?_iff (xs : List α) : (xs.splitOn sep).head? = some [] ↔ xs = [] ∨ xs.head? = some sep := by
  cases xs with
  | nil => simp
  | cons x xs =>
    rw [List.splitOn_cons_eq_if_modifyHead]
    by_cases hx : x = sep
    · simp [hx]
    · cases hs : xs.splitOn sep with
      | nil => exact absurd hs (List.splitOn_ne_nil _ _)
      | cons l ls => simp [hx]

theorem splitOn_getLast?_iff (xs : List α) :
    (xs.splitOn sep).getLast? = some [] ↔ xs = [] ∨ xs.getLast? = some sep := by
  constructor
  · intro h
    have hx : [sep].intercalate (xs.splitOn sep) = xs := List.intercalate_splitOn sep
    obtain ⟨init, hinit⟩ := List.getLast?_eq_some_iff.mp h
    rw [hinit] at hx
    cases init with
    | nil => exact Or.inl (by rw [← hx]; rfl)
    | cons l init =>
      right
      rw [← hx, List.cons_append, intercalate_cons]
      simp
  · intro h
    rcases h with rfl | h
    · rfl
    · obtain ⟨ys, rfl⟩ := List.getLast?_eq_some_iff.mp h
      rw [List.splitOn_append_cons_self]
      simp

theorem splitOn_prefix_iff (xs ys : List α) :
    xs.splitOn sep <+: ys.splitOn sep ↔ xs = ys ∨ xs ++ [sep] <+: ys := by
  constructor
  · intro h
    obtain ⟨rest, hrest⟩ := h
    have hxs : [sep].intercalate (xs.splitOn sep) = xs := List.intercalate_splitOn sep
    have hys : [sep].intercalate (ys.splitOn sep) = ys := List.intercalate_splitOn sep
    rw [← hrest] at hys
    cases hs : xs.splitOn sep with
    | nil => exact absurd hs (List.splitOn_ne_nil _ _)
    | cons l ls =>
      rw [hs, intercalate_cons] at hxs
      rw [hs, List.cons_append, intercalate_cons, List.flatMap_append, ← List.append_assoc, hxs] at hys
      cases rest with
      | nil => exact Or.inl (by simpa using hys)
      | cons m rest => exact Or.inr ⟨m ++ rest.flatMap (sep :: ·), by rw [← hys]; simp⟩
  · intro h
    rcases h with rfl | ⟨zs, rfl⟩
    · exact List.prefix_rfl
    · rw [List.append_assoc, List.singleton_append, List.splitOn_append_cons_self]
      exact List.prefix_append _ _

/-- Before the first separator. -/
theorem splitOn_append_of_notMem {pre : List α} (h : sep ∉ pre) (xs : List α) :
    (pre ++ xs).splitOn sep = (xs.splitOn sep).modifyHead (pre ++ ·) := by
  induction pre with
  | nil =>
    rw [List.nil_append]
    cases xs.splitOn sep <;> rfl
  | cons a pre ih =>
    have ha : a ≠ sep := fun heq => h (heq ▸ List.mem_cons_self)
    have hpre : sep ∉ pre := fun hmem => h (List.mem_cons_of_mem _ hmem)
    rw [List.cons_append, List.splitOn_cons_eq_if_modifyHead, if_neg (by simpa using ha), ih hpre]
    cases xs.splitOn sep <;> rfl

end Lib
