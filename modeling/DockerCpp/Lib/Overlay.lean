/-
  DockerCpp.Lib.Overlay — finite maps laid over each other.

  `overlay base ms` writes the maps of `ms` over `base` one after the other: a key has the
  value of the last map that holds it, or the base's (`getElem?_overlay`). When the maps
  are the entries of an ordered map, the last is the one under the greatest name
  (`getLast?_ordered`).
-/

import Mathlib.Data.List.Induction
import Mathlib.Data.String.Basic

namespace Lib

open Std

variable {κ ν α : Type} {cmp : κ → κ → Ordering}

section

variable [TransCmp cmp]

def overlay (base : ExtTreeMap κ ν cmp) (ms : List (ExtTreeMap κ ν cmp)) : ExtTreeMap κ ν cmp :=
  ms.foldl (fun acc m => acc ∪ m) base

theorem mem_overlay {base : ExtTreeMap κ ν cmp} {ms : List (ExtTreeMap κ ν cmp)} {k : κ} :
    k ∈ overlay base ms ↔ k ∈ base ∨ ∃ m ∈ ms, k ∈ m := by
  induction ms generalizing base with
  | nil => simp [overlay]
  | cons m ms ih =>
    have h : overlay base (m :: ms) = overlay (base ∪ m) ms := rfl
    rw [h, ih, ExtTreeMap.mem_union_iff, or_assoc]
    simp

theorem getElem?_overlay (base : ExtTreeMap κ ν cmp) (ms : List (ExtTreeMap κ ν cmp)) (k : κ) :
    (overlay base ms)[k]? = (ms.filterMap (·[k]?)).getLast?.or base[k]? := by
  induction ms generalizing base with
  | nil => rfl
  | cons m ms ih =>
    have h : overlay base (m :: ms) = overlay (base ∪ m) ms := rfl
    rw [h, ih, ExtTreeMap.getElem?_union]
    cases hm : m[k]? with
    | none => simp [hm]
    | some v =>
      simp only [List.filterMap_cons, hm, List.getLast?_cons]
      cases (ms.filterMap (·[k]?)).getLast? <;> rfl

end

/-- Entries written one after the other: a key has the value of its last entry. -/
theorem getElem?_foldl_insert [TransCmp cmp] [LawfulEqCmp cmp] [DecidableEq κ] (m : ExtTreeMap κ ν cmp)
    (es : List (κ × ν)) (k : κ) :
    (es.foldl (fun m e => m.insert e.1 e.2) m)[k]? =
      (es.filterMap fun e => if e.1 = k then some e.2 else none).getLast?.or m[k]? := by
  induction es generalizing m with
  | nil => rfl
  | cons e es ih =>
    rw [List.foldl_cons, ih, ExtTreeMap.getElem?_insert]
    by_cases he : e.1 = k
    · rw [if_pos (LawfulEqCmp.compare_eq_iff_eq.mpr he)]
      simp only [List.filterMap_cons, if_pos he, List.getLast?_cons]
      cases (es.filterMap _).getLast? <;> rfl
    · rw [if_neg (fun h => he (LawfulEqCmp.compare_eq_iff_eq.mp h))]
      simp [he]

variable {es : List (κ × ν)}

/-- What is found was an entry. -/
theorem mem_of_getElem?_foldl_insert [TransCmp cmp] [LawfulEqCmp cmp] [DecidableEq κ] {k : κ} {v : ν}
    (h : (es.foldl (fun m e => m.insert e.1 e.2) (∅ : ExtTreeMap κ ν cmp))[k]? = some v) : (k, v) ∈ es := by
  rw [getElem?_foldl_insert, ExtTreeMap.getElem?_empty, Option.or_none] at h
  obtain ⟨e, he, hv⟩ := List.mem_filterMap.mp (List.mem_of_getLast? h)
  split at hv
  · rename_i hk
    rw [← hk, ← Option.some.inj hv]
    exact he
  · cases hv

/-- When the entries under a key are those of `found`, it is found before `m`. -/
theorem getElem?_foldl_insert_of_entries [TransCmp cmp] [LawfulEqCmp cmp] [DecidableEq κ] (m : ExtTreeMap κ ν cmp)
    {k : κ} {found : Option ν} (h : ∀ v, (k, v) ∈ es ↔ found = some v) :
    (es.foldl (fun m e => m.insert e.1 e.2) m)[k]? = found.or m[k]? := by
  rw [getElem?_foldl_insert]
  congr 1
  have hmem : ∀ v, v ∈ es.filterMap (fun e => if e.1 = k then some e.2 else none) ↔ found = some v := by
    intro v
    rw [← h v, List.mem_filterMap]
    constructor
    · rintro ⟨e, he, hv⟩
      split at hv
      · rename_i hk
        rw [← hk, ← Option.some.inj hv]
        exact he
      · cases hv
    · intro hv
      exact ⟨(k, v), hv, if_pos rfl⟩
  cases hlast : (es.filterMap fun e => if e.1 = k then some e.2 else none).getLast? with
  | none =>
    cases found with
    | none => rfl
    | some v =>
      have hv := (hmem v).mpr rfl
      rw [List.getLast?_eq_none_iff.mp hlast] at hv
      cases hv
  | some v => exact ((hmem v).mp (List.mem_of_getLast? hlast)).symm

/-- The greatest key an entry is found under, in a list sorted by keys. -/
theorem getLast?_sorted [TransCmp cmp] [LawfulEqCmp cmp] (f : α → Option ν) {l : List (κ × α)}
    (hl : l.Pairwise fun a b => cmp a.1 b.1 = .lt) (v : ν) :
    (l.filterMap fun e => f e.2).getLast? = some v ↔
      ∃ e ∈ l, f e.2 = some v ∧ ∀ e' ∈ l, (f e'.2).isSome → (cmp e'.1 e.1).isLE := by
  induction l using List.reverseRecOn with
  | nil => simp
  | append_singleton l e ih =>
    have hlt : ∀ e' ∈ l, cmp e'.1 e.1 = .lt := fun e' he' => (List.pairwise_append.mp hl).2.2 e' he' e (by simp)
    have ih := ih (List.pairwise_append.mp hl).1
    cases he : f e.2 with
    | none =>
      have hone : [e].filterMap (fun e => f e.2) = [] := by simp [he]
      rw [List.filterMap_append, hone, List.append_nil, ih]
      constructor
      · intro h
        obtain ⟨e0, h0, hv, hmax⟩ := h
        refine ⟨e0, List.mem_append_left _ h0, hv, ?_⟩
        intro e' he' hs
        rcases List.mem_append.mp he' with h' | h'
        · exact hmax e' h' hs
        · rw [List.mem_singleton.mp h', he] at hs
          cases hs
      · intro h
        obtain ⟨e0, h0, hv, hmax⟩ := h
        rcases List.mem_append.mp h0 with h0 | h0
        · exact ⟨e0, h0, hv, fun e' he' => hmax e' (List.mem_append_left _ he')⟩
        · rw [List.mem_singleton.mp h0, he] at hv
          cases hv
    | some w =>
      have hone : [e].filterMap (fun e => f e.2) = [w] := by simp [he]
      rw [List.filterMap_append, hone, List.getLast?_concat]
      constructor
      · intro h
        refine ⟨e, by simp, he.trans h, ?_⟩
        intro e' he' _
        rcases List.mem_append.mp he' with h' | h'
        · rw [hlt e' h']
          rfl
        · have hself : cmp e.1 e.1 = .eq := ReflCmp.compare_self
          rw [List.mem_singleton.mp h', hself]
          rfl
      · intro h
        obtain ⟨e0, h0, hv, hmax⟩ := h
        rcases List.mem_append.mp h0 with h0 | h0
        · -- an earlier entry is not the greatest
          have hle := hmax e (by simp) (by rw [he]; rfl)
          have hsw : cmp e.1 e0.1 = (cmp e0.1 e.1).swap := OrientedCmp.eq_swap
          rw [hsw, hlt e0 h0] at hle
          cases hle
        · rw [List.mem_singleton.mp h0, he] at hv
          exact hv

theorem getLast?_ordered [TransCmp cmp] [LawfulEqCmp cmp] (f : α → Option ν) (m : ExtTreeMap κ α cmp) (v : ν) :
    (m.toList.filterMap fun e => f e.2).getLast? = some v ↔
      ∃ n a, m[n]? = some a ∧ f a = some v ∧ ∀ n' a', m[n']? = some a' → (f a').isSome → (cmp n' n).isLE := by
  rw [getLast?_sorted f ExtTreeMap.ordered_keys_toList]
  constructor
  · intro h
    obtain ⟨⟨n, a⟩, he, hv, hmax⟩ := h
    refine ⟨n, a, ExtTreeMap.mem_toList_iff_getElem?_eq_some.mp he, hv, ?_⟩
    intro n' a' hn' hs
    exact hmax (n', a') (ExtTreeMap.mem_toList_iff_getElem?_eq_some.mpr hn') hs
  · intro h
    obtain ⟨n, a, hn, hv, hmax⟩ := h
    refine ⟨(n, a), ExtTreeMap.mem_toList_iff_getElem?_eq_some.mpr hn, hv, ?_⟩
    intro e' he' hs
    exact hmax e'.1 e'.2 (ExtTreeMap.mem_toList_iff_getElem?_eq_some.mp he') hs

end Lib
