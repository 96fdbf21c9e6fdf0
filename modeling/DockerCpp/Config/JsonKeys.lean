/-
  DockerCpp.Config.JsonKeys — keys and the paths they are split into.

  `keyOf` is the key a load gives to a path. It names the key again that was split into the
  path exactly for the keys that neither are empty nor have a dot at an end
  (`keyOf_splitKey`); for any other key it is shorter (`keyOf_splitKey_length_lt`), so that no
  set of keys with such a key among them comes back from a save and a load. A path is an
  initial segment of another when its key with a dot is one of the other's
  (`splitKey_prefix_iff`).
-/

import DockerCpp.Config.Json
import DockerCpp.Lib.Split

namespace DockerCpp.Config

open Lib

def keyFrom (key : String) (path : List String) : String := path.foldl fullKey key

def keyOf (path : List String) : String := keyFrom "" path

/-- Not empty, no dot at either end. -/
def Splits (key : String) : Prop := key ≠ "" ∧ key.toList.head? ≠ some '.' ∧ key.toList.getLast? ≠ some '.'

instance (key : String) : Decidable (Splits key) := inferInstanceAs (Decidable (_ ∧ _ ∧ _))

theorem fullKey_root (p : String) : fullKey "" p = p := if_pos rfl

variable {key : String}

theorem keyFrom_toList (h : key ≠ "") (path : List String) :
    (keyFrom key path).toList = key.toList ++ (path.map String.toList).flatMap ('.' :: ·) := by
  induction path generalizing key with
  | nil => simp [keyFrom]
  | cons p path ih =>
    have hstep : fullKey key p = key ++ "." ++ p := if_neg h
    have hne : key ++ "." ++ p ≠ "" := by
      intro h0
      have := congrArg String.toList h0
      simp at this
    show (keyFrom (fullKey key p) path).toList = _
    rw [hstep, ih hne]
    simp

theorem keyOf_cons_empty (path : List String) : keyOf ("" :: path) = keyOf path := rfl

theorem keyOf_toList {p : String} (h : p ≠ "") (path : List String) :
    (keyOf (p :: path)).toList = ['.'].intercalate ((p :: path).map String.toList) := by
  show (keyFrom (fullKey "" p) path).toList = _
  rw [fullKey_root, keyFrom_toList h, List.map_cons, intercalate_cons]

theorem keyOf_length_le (path : List String) :
    (keyOf path).toList.length ≤ (['.'].intercalate (path.map String.toList)).length := by
  induction path with
  | nil => simp [keyOf, keyFrom]
  | cons p path ih =>
    by_cases hp : p = ""
    · subst hp
      rw [keyOf_cons_empty]
      refine ih.trans ?_
      rw [List.map_cons, intercalate_cons]
      cases path with
      | nil => simp
      | cons q path =>
        rw [List.map_cons, intercalate_cons]
        simp
    · rw [keyOf_toList hp]

theorem map_toList_ofList (parts : List (List Char)) : (parts.map String.ofList).map String.toList = parts := by
  rw [List.map_map]
  exact List.map_id'' (fun _ => by simp) parts

/-- A key with a dot at its end loses it, one without does not. -/
theorem splitKey_of_dot {init : List Char} (h : key.toList = init ++ ['.']) :
    splitKey key = (init.splitOn '.').map String.ofList := by
  unfold splitKey
  rw [h, List.splitOn_append_cons_self]
  simp

theorem splitKey_of_no_dot (hne : key ≠ "") (h : key.toList.getLast? ≠ some '.') :
    splitKey key = (key.toList.splitOn '.').map String.ofList := by
  have hlast : (key.toList.splitOn '.').getLast? ≠ some [] := by
    intro h0
    rcases (splitOn_getLast?_iff _).mp h0 with h0 | h0
    · exact hne (by simpa using h0)
    · exact h h0
  unfold splitKey
  simp only [if_neg hlast]

theorem splitKey_toList (h : Splits key) : (splitKey key).map String.toList = key.toList.splitOn '.' := by
  rw [splitKey_of_no_dot h.1 h.2.2, map_toList_ofList]

theorem splitKey_empty : splitKey "" = [] := rfl

theorem keyOf_splitKey (h : Splits key) : keyOf (splitKey key) = key := by
  have hl := splitKey_toList h
  cases hs : splitKey key with
  | nil =>
    rw [hs] at hl
    exact absurd hl.symm (List.splitOn_ne_nil _ _)
  | cons p path =>
    have hp : p ≠ "" := by
      intro hp
      rw [hs, hp] at hl
      have : (key.toList.splitOn '.').head? = some [] := by rw [← hl]; rfl
      rcases (splitOn_head?_iff _).mp this with h0 | h0
      · exact h.1 (by simpa using h0)
      · exact h.2.1 h0
    apply String.toList_inj.mp
    rw [keyOf_toList hp, ← hs, hl, List.intercalate_splitOn]

theorem keyOf_splitKey_length_lt (hne : key ≠ "") (h : ¬Splits key) :
    (keyOf (splitKey key)).toList.length < key.toList.length := by
  by_cases hlast : key.toList.getLast? = some '.'
  · obtain ⟨init, hinit⟩ := List.getLast?_eq_some_iff.mp hlast
    have hle := keyOf_length_le (splitKey key)
    rw [splitKey_of_dot hinit, map_toList_ofList, List.intercalate_splitOn] at hle
    rw [splitKey_of_dot hinit, hinit, List.length_append]
    exact Nat.lt_succ_of_le hle
  · have hhead : key.toList.head? = some '.' := by
      by_contra h0
      exact h ⟨hne, h0, hlast⟩
    -- the first part is empty, and there is another
    obtain ⟨rest, hrest⟩ := List.head?_eq_some_iff.mp hhead
    have hsplit : splitKey key = "" :: (rest.splitOn '.').map String.ofList := by
      rw [splitKey_of_no_dot hne hlast, hrest]
      have := List.splitOn_append_cons_self (a := '.') [] rest
      rw [List.nil_append] at this
      rw [this]
      rfl
    have hle := keyOf_length_le ((rest.splitOn '.').map String.ofList)
    rw [map_toList_ofList, List.intercalate_splitOn] at hle
    rw [hsplit, keyOf_cons_empty, hrest]
    exact Nat.lt_succ_of_le hle

theorem splitKey_prefix_iff {k k' : String} (h : Splits k) (h' : Splits k') :
    splitKey k <+: splitKey k' ↔ k = k' ∨ k.toList ++ ['.'] <+: k'.toList := by
  have hinj : Function.Injective String.toList := fun a b hab => String.toList_inj.mp hab
  rw [← List.prefix_map_iff_of_injective hinj, splitKey_toList h, splitKey_toList h', splitOn_prefix_iff,
    String.toList_inj]

/-- A path of names that are not empty and have no dots is found again in its key. -/
theorem splitKey_keyOf {path : List String} (hne : path ≠ []) (h : ∀ p ∈ path, p ≠ "" ∧ '.' ∉ p.toList) :
    Splits (keyOf path) ∧ splitKey (keyOf path) = path := by
  cases path with
  | nil => exact absurd rfl hne
  | cons p path =>
    have hp := h p (by simp)
    have hl := keyOf_toList hp.1 path
    have hsplit : (keyOf (p :: path)).toList.splitOn '.' = (p :: path).map String.toList := by
      rw [hl]
      refine List.splitOn_intercalate '.' ?_ (by simp)
      intro l hl'
      obtain ⟨q, hq, rfl⟩ := List.mem_map.mp hl'
      exact (h q hq).2
    have hparts : ∀ l ∈ (keyOf (p :: path)).toList.splitOn '.', l ≠ [] := by
      intro l hl' h0
      rw [hsplit] at hl'
      obtain ⟨q, hq, rfl⟩ := List.mem_map.mp hl'
      exact (h q hq).1 (by simpa using h0)
    have hk : keyOf (p :: path) ≠ "" := by
      intro h0
      rw [h0] at hparts
      exact hparts [] (by simp) rfl
    have hS : Splits (keyOf (p :: path)) := by
      refine ⟨hk, ?_, ?_⟩
      · intro h0
        exact hparts [] (List.mem_of_mem_head? ((splitOn_head?_iff _).mpr (Or.inr h0))) rfl
      · intro h0
        exact hparts [] (List.mem_of_mem_getLast? ((splitOn_getLast?_iff _).mpr (Or.inr h0))) rfl
    refine ⟨hS, ?_⟩
    have := splitKey_toList hS
    rw [hsplit] at this
    exact List.map_injective_iff.mpr (fun a b hab => String.toList_inj.mp hab) this

end DockerCpp.Config
