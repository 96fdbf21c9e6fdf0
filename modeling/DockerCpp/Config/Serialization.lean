/-
  DockerCpp.Config.Serialization — when a configuration can be saved at all (nlohmann::json).

  `serializeToJson` writes the values one after the other into a tree. A write goes wrong on
  the empty key, which has no parts, and at a node that holds a value where the path goes on.
  A path that was written is never free again: a later write replaces its value or a part of
  the path before it (`addValue_covers`). So a save succeeds exactly when no key is empty and
  no key's parts continue those of a key written before (`serialize_safe_iff`).

  Sub-configurations bring about such keys (`a_sub_configuration_has_an_empty_key`).
-/

import DockerCpp.Config.Restriction

namespace DockerCpp.Config

open Lib

/-- `q` goes on where `p` ends. -/
def Continues (p q : List String) : Prop := p <+: q ∧ p ≠ q

instance (p q : List String) : Decidable (Continues p q) := inferInstanceAs (Decidable (_ ∧ _))

theorem continues_cons {k : String} {p q : List String} : Continues (k :: p) (k :: q) ↔ Continues p q := by
  unfold Continues
  rw [List.cons_prefix_cons]
  simp

theorem Continues.of_shorter {p q r : List String} (h : p <+: q) (h' : Continues q r) : Continues p r := by
  refine ⟨h.trans h'.1, ?_⟩
  rintro rfl
  exact h'.2 (h'.1.eq_of_length (le_antisymm h'.1.length_le h.length_le))

theorem splitKey_eq_nil_iff (key : String) : splitKey key = [] ↔ key = "" := by
  constructor
  · intro h
    by_contra hne
    have hparts : ∀ l : List Char, (l.splitOn '.').map String.ofList ≠ [] :=
      fun l h0 => List.splitOn_ne_nil _ _ (List.map_eq_nil_iff.mp h0)
    by_cases hlast : key.toList.getLast? = some '.'
    · obtain ⟨init, hinit⟩ := List.getLast?_eq_some_iff.mp hlast
      exact hparts _ ((splitKey_of_dot hinit).symm.trans h)
    · exact hparts _ ((splitKey_of_no_dot hne hlast).symm.trans h)
  · rintro rfl
    exact splitKey_empty

/-! ## One value -/

variable (dump : Json → String) {path : List String} {v : ConfigValue} {j : Json}

/-- A write succeeds iff no value is in its way. -/
theorem addValue_ok_iff (hj : Ordered j) (hne : path ≠ []) :
    (∃ j', addValue (ofValue v) j path = .ok j') ↔ ∀ e ∈ entries dump j, ¬Continues e.1 path := by
  induction path generalizing j with
  | nil => exact absurd rfl hne
  | cons k rest ih =>
    cases hm : members j with
    | none =>
      obtain ⟨x, hx⟩ := members_none dump hm
      refine iff_of_false ?_ fun h => h _ hx ⟨List.nil_prefix, by simp⟩
      rintro ⟨j', hadd⟩
      obtain ⟨fields, child, hm', -⟩ := addValue_ok hadd
      rw [hm] at hm'
      cases hm'
    | some fields =>
      have ho := hj.members hm
      -- values in the way are those in the way of the rest, in the child
      have hchild : (∀ e ∈ entries dump j, ¬Continues e.1 (k :: rest)) ↔
          ∀ e ∈ entries dump (childOf fields k), ¬Continues e.1 rest := by
        constructor
        · rintro h ⟨p, x⟩ he hc
          exact h (k :: p, x) ((mem_entries_members hm _).mpr ((mem_entries_childOf ho).mp he)) (continues_cons.mpr hc)
        · rintro h ⟨p, x⟩ he hc
          have he := (mem_entries_members hm _).mp he
          cases p with
          | nil => exact not_nil_mem_entries_object _ _ he
          | cons k' p =>
            obtain ⟨rfl, -⟩ := List.cons_prefix_cons.mp hc.1
            exact h (p, x) ((mem_entries_childOf ho).mpr he) (continues_cons.mp hc)
      rw [hchild]
      cases rest with
      | nil =>
        refine iff_of_true ⟨_, assign_of_members hm k _⟩ ?_
        rintro e - ⟨hpre, hne⟩
        exact hne (List.prefix_nil.mp hpre)
      | cons k' rest =>
        rw [← ih (ordered_childOf ho k) (by simp), addValue_of_members hm]
        constructor
        · rintro ⟨j', hadd⟩
          cases hc : addValue (ofValue v) (childOf fields k) (k' :: rest) with
          | error e =>
            rw [hc] at hadd
            cases hadd
          | ok child => exact ⟨child, rfl⟩
        · rintro ⟨child, hc⟩
          exact ⟨_, by rw [hc]; rfl⟩

/-- A write leaves a value at its path, and one on the way to every path there was. -/
theorem addValue_covers {j j' : Json} (hj : Ordered j) (h : addValue (ofValue v) j path = .ok j') :
    (path, v) ∈ entries dump j' ∧ ∀ e ∈ entries dump j, ∃ e' ∈ entries dump j', e'.1 <+: e.1 := by
  induction path generalizing j j' with
  | nil => cases h
  | cons k rest ih =>
    obtain ⟨fields, child, hm, rfl, hchild⟩ := addValue_ok h
    have ho := hj.members hm
    have hc : (rest, v) ∈ entries dump child ∧
        ∀ e ∈ entries dump (childOf fields k), ∃ e' ∈ entries dump child, e'.1 <+: e.1 := by
      rcases hchild with ⟨rfl, rfl⟩ | ⟨-, hchild⟩
      · have hmem : ([], v) ∈ entries dump (ofValue v) := mem_entries_ofValue.mpr rfl
        exact ⟨hmem, fun e _ => ⟨_, hmem, List.nil_prefix⟩⟩
      · exact ih (ordered_childOf ho k) hchild
    refine ⟨(mem_entries_put ho).mpr (by rw [if_pos rfl]; exact hc.1), ?_⟩
    rintro ⟨p, x⟩ he
    rw [mem_entries_members hm] at he
    cases p with
    | nil => exact absurd he (not_nil_mem_entries_object _ _)
    | cons k' p =>
      by_cases hk : k' = k
      · subst hk
        obtain ⟨e', he', hpre⟩ := hc.2 _ ((mem_entries_childOf ho).mpr he)
        exact ⟨(k' :: e'.1, e'.2), (mem_entries_put ho).mpr (by rw [if_pos rfl]; exact he'),
          List.cons_prefix_cons.mpr ⟨rfl, hpre⟩⟩
      · exact ⟨(k' :: p, x), (mem_entries_put ho).mpr (by rw [if_neg hk]; exact he), List.prefix_rfl⟩

/-! ## All values -/

/-- The tree holds values of paths that were written, and on the way to each of them. -/
structure Written (paths : List (List String)) (j : Json) : Prop where
  ordered : Ordered j
  sound : ∀ e ∈ entries dump j, e.1 ∈ paths
  covers : ∀ p ∈ paths, ∃ e ∈ entries dump j, e.1 <+: p

theorem written_null : Written dump [] .null :=
  ⟨.leaf (by simp), fun _ he => absurd he List.not_mem_nil, fun _ hp => absurd hp List.not_mem_nil⟩

variable {dump} {paths : List (List String)}

theorem Written.addValue {j j' : Json}
    (h : Written dump paths j) (hadd : addValue (ofValue v) j path = .ok j') : Written dump (path :: paths) j' := by
  obtain ⟨hordered, hsound⟩ := addValue_sound dump h.ordered hadd
  obtain ⟨hmem, hcovers⟩ := addValue_covers dump h.ordered hadd
  refine ⟨hordered, fun e he => ?_, fun p hp => ?_⟩
  · rcases hsound e he with rfl | hold
    · exact List.mem_cons_self
    · exact List.mem_cons_of_mem _ (h.sound e hold)
  · rcases List.mem_cons.mp hp with rfl | hp
    · exact ⟨_, hmem, List.prefix_rfl⟩
    · obtain ⟨e, he, hpre⟩ := h.covers p hp
      obtain ⟨e', he', hpre'⟩ := hcovers e he
      exact ⟨e', he', hpre'.trans hpre⟩

/-- What is in the way of a write are the paths that were written. -/
theorem Written.free_iff (h : Written dump paths j) (path : List String) :
    (∀ e ∈ entries dump j, ¬Continues e.1 path) ↔ ∀ p ∈ paths, ¬Continues p path := by
  constructor
  · intro hfree p hp hc
    obtain ⟨e, he, hpre⟩ := h.covers p hp
    exact hfree e he (Continues.of_shorter hpre hc)
  · intro hfree e he
    exact hfree e.1 (h.sound e he)

theorem addValues_ok_iff (h : Written dump paths j) (l : List (String × ConfigValue)) : (∃ T, addValues j l = .ok T) ↔
      (∀ e ∈ l, e.1 ≠ "") ∧ (∀ p ∈ paths, ∀ e ∈ l, ¬Continues p (splitKey e.1)) ∧
      l.Pairwise fun a b => ¬Continues (splitKey a.1) (splitKey b.1) := by
  induction l generalizing j paths with
  | nil => simp [addValues]
  | cons e rest ih =>
    have hstep : (∃ T, addValues j (e :: rest) = .ok T) ↔
        ∃ j', addValue (ofValue e.2) j (splitKey e.1) = .ok j' ∧ ∃ T, addValues j' rest = .ok T := by
      constructor
      · rintro ⟨T, hT⟩
        obtain ⟨j', hadd, hrest⟩ := addValues_cons_ok hT
        exact ⟨j', hadd, T, hrest⟩
      · rintro ⟨j', hadd, T, hrest⟩
        refine ⟨T, ?_⟩
        show (addValue (ofValue e.2) j (splitKey e.1) >>= fun j => addValues j rest) = .ok T
        rw [hadd]
        exact hrest
    rw [hstep, List.pairwise_cons]
    constructor
    · rintro ⟨j', hadd, hrest⟩
      obtain ⟨hne, hpaths, hpair⟩ := (ih (h.addValue hadd)).mp hrest
      have hkey : splitKey e.1 ≠ [] := fun h0 => by
        rw [h0] at hadd
        cases hadd
      have hfree := (h.free_iff _).mp ((addValue_ok_iff dump h.ordered hkey).mp ⟨j', hadd⟩)
      refine ⟨fun e' he' => ?_, fun p hp e' he' => ?_, hpaths _ List.mem_cons_self, hpair⟩
      · rcases List.mem_cons.mp he' with rfl | he'
        · exact fun h0 => hkey ((splitKey_eq_nil_iff _).mpr h0)
        · exact hne e' he'
      · rcases List.mem_cons.mp he' with rfl | he'
        · exact hfree p hp
        · exact hpaths p (List.mem_cons_of_mem _ hp) e' he'
    · rintro ⟨hne, hpaths, hfirst, hpair⟩
      have hkey : splitKey e.1 ≠ [] := fun h0 => hne e List.mem_cons_self ((splitKey_eq_nil_iff _).mp h0)
      have hfree := (h.free_iff (splitKey e.1)).mpr fun p hp => hpaths p hp e List.mem_cons_self
      obtain ⟨j', hadd⟩ := (addValue_ok_iff (v := e.2) dump h.ordered hkey).mpr hfree
      refine ⟨j', hadd, (ih (h.addValue hadd)).mpr ⟨fun e' he' => hne e' (List.mem_cons_of_mem _ he'), ?_, hpair⟩⟩
      intro p hp e' he'
      rcases List.mem_cons.mp hp with rfl | hp
      · exact hfirst e' he'
      · exact hpaths p hp e' (List.mem_cons_of_mem _ he')

/-- For every manager and every order its values are iterated in: `toJsonString` returns iff
    no key is empty and no key's parts go on where those of an earlier key end. -/
theorem serialize_safe_iff (dump4 : Json → String) (c : Layered.ConfigManager) (order : List (String × ConfigValue))
    (h : order.Perm c.values.toList) :
    (∃ text, toJsonString dump4 order = .ok text) ↔
      "" ∉ c.values ∧ order.Pairwise fun a b => ¬Continues (splitKey a.1) (splitKey b.1) := by
  have hempty : (∀ e ∈ order, e.1 ≠ "") ↔ "" ∉ c.values := by
    constructor
    · intro hne hmem
      exact hne ("", c.values[""]) (h.mem_iff.mpr ((Layered.mem_toList_iff _ _ _).mpr
        (Std.ExtTreeMap.getElem?_eq_some_getElem hmem))) rfl
    · rintro hnot ⟨k, v⟩ he rfl
      exact hnot (Std.ExtTreeMap.mem_iff_isSome_getElem?.mpr
        (by rw [(Layered.mem_toList_iff _ _ _).mp (h.mem_iff.mp he)]; rfl))
  have hsaved : (∃ text, toJsonString dump4 order = .ok text) ↔ ∃ T, addValues .null order = .ok T := by
    unfold toJsonString serializeToJson
    cases addValues .null order with
    | error e =>
      refine iff_of_false ?_ ?_
      · rintro ⟨text, htext⟩
        cases htext
      · rintro ⟨T, hT⟩
        cases hT
    | ok T => exact ⟨fun _ => ⟨T, rfl⟩, fun _ => ⟨_, rfl⟩⟩
  rw [hsaved, addValues_ok_iff (written_null dump4), hempty]
  simp

/-- Keys with a first part in common. -/
def dottedKeys : Layered.ConfigManager :=
  (({} : Layered.ConfigManager).set "a.b" (.integer 1)).set "a.c" (.boolean true)

/-- The tree of `dottedKeys` as `dump(4)` writes it. -/
noncomputable def dottedText : Json → String :=
  writtenAs (.object [("a", .object [("b", .integer 1), ("c", .boolean true)])])
    "\x7b\n    \"a\": \x7b\n        \"b\": 1,\n        \"c\": true\n    \x7d\n\x7d"

theorem serialize_safe_iff_dottedKeys :
    dottedKeys.values.toList = [("a.b", .integer 1), ("a.c", .boolean true)] ∧
    ∃ text, toJsonString dottedText dottedKeys.values.toList = .ok text :=
  ⟨by decide +kernel, (serialize_safe_iff dottedText dottedKeys _ (List.Perm.refl _)).mpr (by decide +kernel)⟩

/-- A prefix that is a key leaves an empty key, and no order saves the sub-configuration. -/
theorem a_sub_configuration_has_an_empty_key :
    let c := (({} : Layered.ConfigManager).set "a" (.integer 1)).getSubConfig "a"
    Layered.Reachable c ∧ c.values.toList = [("", .integer 1)] ∧
    ∀ dump4 order, order.Perm c.values.toList → toJsonString dump4 order = .error .undefined := by
  intro c
  have hlist : c.values.toList = [("", .integer 1)] := by decide +kernel
  refine ⟨(Layered.Reachable.fresh.set _ _).getSubConfig _, hlist, ?_⟩
  intro dump4 order h
  rw [hlist] at h
  rw [List.perm_singleton.mp h]
  rfl

end DockerCpp.Config
