/-
  DockerCpp.Lib.Assoc — association lists with strictly increasing keys: an ordered map
  that can be nested in an inductive type.

  `put` keeps the keys increasing (`sorted_put`) and changes one entry (`mem_put`); a lookup
  is membership (`lookup_eq_some`), and two sorted lists with the same entries are equal
  (`Sorted.ext`). Keys that are only distinct are enough for a lookup of an entry
  (`lookup_of_mem`).
-/

import Mathlib.Order.Lattice

namespace Lib.Assoc

section

variable {α β : Type} [BEq α] [LawfulBEq α]

theorem lookup_cons_of_ne {k k' : α} (h : k ≠ k') (v : β) (l : List (α × β)) : ((k', v) :: l).lookup k = l.lookup k := by
  rw [List.lookup_cons, beq_false_of_ne h]

variable {l : List (α × β)}

theorem mem_of_lookup {k : α} {v : β} (h : l.lookup k = some v) : (k, v) ∈ l := by
  obtain ⟨before, after, rfl, _⟩ := List.lookup_eq_some_iff.mp h
  exact List.mem_append_right _ List.mem_cons_self

theorem lookup_of_mem (h : (l.map (·.1)).Nodup) {k : α} {v : β} (hmem : (k, v) ∈ l) : l.lookup k = some v := by
  induction l with
  | nil => cases hmem
  | cons e l ih =>
    obtain ⟨k', v'⟩ := e
    obtain ⟨hfirst, hrest⟩ := List.nodup_cons.mp h
    rcases List.mem_cons.mp hmem with heq | hmem
    · cases heq
      exact List.lookup_cons_self
    · have hne : k ≠ k' := fun heq => hfirst (heq ▸ List.mem_map_of_mem (f := fun e => e.1) hmem)
      rw [lookup_cons_of_ne hne, ih hrest hmem]

end

variable {κ ν : Type} [LinearOrder κ]

def Sorted (l : List (κ × ν)) : Prop := l.Pairwise fun a b => a.1 < b.1

instance (l : List (κ × ν)) : Decidable (Sorted l) := inferInstanceAs (Decidable (l.Pairwise _))

def put (k : κ) (v : ν) : List (κ × ν) → List (κ × ν)
  | [] => [(k, v)]
  | e :: rest =>
    if k < e.1 then (k, v) :: e :: rest
    else if k = e.1 then (k, v) :: rest
    else e :: put k v rest

variable {l : List (κ × ν)} {k : κ} {v : ν}

theorem Sorted.tail {e : κ × ν} (h : Sorted (e :: l)) : Sorted l := (List.pairwise_cons.mp h).2

theorem Sorted.head_lt {e : κ × ν} (h : Sorted (e :: l)) : ∀ e' ∈ l, e.1 < e'.1 :=
  (List.pairwise_cons.mp h).1

theorem mem_put (h : Sorted l) (e : κ × ν) : e ∈ put k v l ↔ e = (k, v) ∨ e ∈ l ∧ e.1 ≠ k := by
  induction l with
  | nil => simp [put]
  | cons a l ih =>
    have hlt := h.head_lt
    unfold put
    by_cases hk : k < a.1
    · -- every key of the list is greater
      have hne : ∀ e ∈ a :: l, e.1 ≠ k := by
        intro e he heq
        rcases List.mem_cons.mp he with rfl | he
        · exact absurd (heq ▸ hk) (lt_irrefl _)
        · exact absurd (heq ▸ (hk.trans (hlt e he))) (lt_irrefl _)
      rw [if_pos hk, List.mem_cons]
      constructor
      · intro he
        rcases he with he | he
        · exact Or.inl he
        · exact Or.inr ⟨he, hne e he⟩
      · intro he
        rcases he with he | he
        · exact Or.inl he
        · exact Or.inr he.1
    · rw [if_neg hk]
      by_cases heq : k = a.1
      · rw [if_pos heq, List.mem_cons, List.mem_cons]
        constructor
        · intro he
          rcases he with he | he
          · exact Or.inl he
          · exact Or.inr ⟨Or.inr he, fun h' => absurd (heq ▸ h' ▸ hlt e he) (lt_irrefl _)⟩
        · intro he
          rcases he with he | ⟨he | he, hne⟩
          · exact Or.inl he
          · exact absurd (he ▸ heq.symm) hne
          · exact Or.inr he
      · rw [if_neg heq, List.mem_cons, ih h.tail, List.mem_cons]
        constructor
        · intro he
          rcases he with rfl | he | ⟨he, hne⟩
          · exact Or.inr ⟨Or.inl rfl, fun h' => heq h'.symm⟩
          · exact Or.inl he
          · exact Or.inr ⟨Or.inr he, hne⟩
        · intro he
          rcases he with he | ⟨he | he, hne⟩
          · exact Or.inr (Or.inl he)
          · exact Or.inl he
          · exact Or.inr (Or.inr ⟨he, hne⟩)

theorem put_ne_nil (k : κ) (v : ν) (l : List (κ × ν)) : put k v l ≠ [] := by
  cases l with
  | nil => simp [put]
  | cons a l =>
    unfold put
    split
    · simp
    · split
      · simp
      · simp

theorem sorted_put (h : Sorted l) : Sorted (put k v l) := by
  induction l with
  | nil => simp [put, Sorted]
  | cons a l ih =>
    have hlt := h.head_lt
    unfold put
    by_cases hk : k < a.1
    · rw [if_pos hk]
      refine List.pairwise_cons.mpr ⟨?_, h⟩
      intro e he
      rcases List.mem_cons.mp he with rfl | he
      · exact hk
      · exact hk.trans (hlt e he)
    · rw [if_neg hk]
      by_cases heq : k = a.1
      · rw [if_pos heq]
        exact List.pairwise_cons.mpr ⟨fun e he => heq ▸ hlt e he, h.tail⟩
      · rw [if_neg heq]
        refine List.pairwise_cons.mpr ⟨?_, ih h.tail⟩
        intro e he
        rcases (mem_put h.tail e).mp he with rfl | ⟨he, -⟩
        · exact lt_of_le_of_ne (not_lt.mp hk) (Ne.symm heq)
        · exact hlt e he

/-- After all that are there. -/
theorem put_last (h : ∀ e ∈ l, e.1 < k) : put k v l = l ++ [(k, v)] := by
  induction l with
  | nil => rfl
  | cons a l ih =>
    have ha := h a List.mem_cons_self
    rw [put, if_neg (not_lt_of_gt ha), if_neg (ne_of_gt ha), ih fun e he => h e (List.mem_cons_of_mem _ he)]
    rfl

theorem Sorted.unique (h : Sorted l) {v w : ν} (hv : (k, v) ∈ l) (hw : (k, w) ∈ l) : v = w := by
  induction l with
  | nil => cases hv
  | cons a l ih =>
    rcases List.mem_cons.mp hv with rfl | hv'
    · rcases List.mem_cons.mp hw with hw' | hw'
      · exact (Prod.mk.inj hw').2.symm
      · exact absurd (h.head_lt _ hw') (lt_irrefl _)
    · rcases List.mem_cons.mp hw with rfl | hw'
      · exact absurd (h.head_lt _ hv') (lt_irrefl _)
      · exact ih h.tail hv' hw'

theorem lookup_eq_some (h : Sorted l) : l.lookup k = some v ↔ (k, v) ∈ l := by
  constructor
  · exact mem_of_lookup
  · intro hv
    cases hl : l.lookup k with
    | none =>
      have := List.lookup_eq_none_iff.mp hl (k, v) hv
      simp at this
    | some w => rw [h.unique (mem_of_lookup hl) hv]

theorem Sorted.ext {l l' : List (κ × ν)} (h : Sorted l) (h' : Sorted l') (hmem : ∀ e, e ∈ l ↔ e ∈ l') : l = l' := by
  have hnodup : ∀ {m : List (κ × ν)}, Sorted m → m.Nodup := by
    intro m hm
    exact hm.imp fun hlt heq => absurd (heq ▸ hlt) (lt_irrefl _)
  have hperm := (List.perm_ext_iff_of_nodup (hnodup h) (hnodup h')).mpr hmem
  refine hperm.eq_of_pairwise ?_ h h'
  intro a b _ _ hab hba
  exact absurd (hab.trans hba) (lt_irrefl _)

end Lib.Assoc
