/-
  DockerCpp.Config.JsonEntries — a JSON tree as the set of its entries: the path and the
  value of each of its leaves.

  (1) Loading sets the entries of the tree, in order (`processJson_eq`).

  (2) Saving adds entries. An `addValue` yields no entry but the new one and old ones
  (`addValue_sound`), and yields all of them when the new path neither continues an old one
  nor is continued by one (`addValue_complete`).

  (3) In a tree with increasing keys no entry's path continues another's (`entry_unique`), and
  a tree without empty objects is determined by its entries (`Shaped.ext`).
-/

import DockerCpp.Config.JsonKeys
import Mathlib.Algebra.Group.Int.Defs

namespace DockerCpp.Config

open Lib

/-! ## Entries -/

/-- The value a leaf is loaded as. -/
def leafValue (dump : Json → String) : Json → Option ConfigValue
  | .string s => some (.string s)
  | .integer n => some (.integer (Int32.ofInt n))
  | .float bits => some (.double bits)
  | .boolean b => some (.boolean b)
  | .array items => some (.string (processJsonArray dump items))
  | .null | .object _ => none

abbrev Entry := List String × ConfigValue

variable (dump : Json → String)

mutual

def entries : Json → List Entry
  | .object fields => fieldEntries fields
  | j => (leafValue dump j).toList.map fun v => ([], v)

def fieldEntries : List (String × Json) → List Entry
  | [] => []
  | (k, value) :: rest => (entries value).map (fun e => (k :: e.1, e.2)) ++ fieldEntries rest

end

/-- Setting the entries of a tree that is loaded under `key`. -/
def setAll (key : String) (es : List Entry) (c : ConfigManager) : ConfigManager :=
  es.foldl (fun c e => c.set (keyFrom key e.1) e.2) c

theorem setAll_map_cons (key k : String) (es : List Entry) (c : ConfigManager) :
    setAll key (es.map fun e => (k :: e.1, e.2)) c = setAll (fullKey key k) es c := by
  unfold setAll
  rw [List.foldl_map]
  rfl

mutual

theorem processJson_eq : ∀ (j : Json) (key : String) (c : ConfigManager),
    processJson dump j key c = setAll key (entries dump j) c
  | .object fields, key, c => processFields_eq fields key c
  | .null, _, _ => rfl
  | .string _, _, _ => rfl
  | .integer _, _, _ => rfl
  | .float _, _, _ => rfl
  | .boolean _, _, _ => rfl
  | .array _, _, _ => rfl

theorem processFields_eq : ∀ (fields : List (String × Json)) (key : String) (c : ConfigManager),
    processFields dump fields key c = setAll key (fieldEntries dump fields) c
  | [], _, _ => rfl
  | (k, value) :: rest, key, c => by
    have hsplit : ∀ es es' : List Entry, setAll key (es ++ es') c = setAll key es' (setAll key es c) :=
      fun es es' => List.foldl_append
    simp only [processFields, fieldEntries]
    rw [processFields_eq rest, processJson_eq value, hsplit, setAll_map_cons]

end

variable {dump}

theorem not_nil_mem_entries_object (fields : List (String × Json)) (x : ConfigValue) :
    ([], x) ∉ entries dump (.object fields) := by
  show ([], x) ∉ fieldEntries dump fields
  induction fields with
  | nil => exact List.not_mem_nil
  | cons f rest ih => simp [fieldEntries, ih]

variable {fields : List (String × Json)} {p path : List String} {x v : ConfigValue} {j T : Json} {k : String}
  {l : List (String × ConfigValue)} {K : String → Prop}

theorem mem_entries_object :
    (k :: p, x) ∈ entries dump (.object fields) ↔ ∃ value, (k, value) ∈ fields ∧ (p, x) ∈ entries dump value := by
  show (k :: p, x) ∈ fieldEntries dump fields ↔ _
  induction fields with
  | nil => simp [fieldEntries]
  | cons f rest ih =>
    simp only [fieldEntries, List.mem_append, List.mem_map, ih, List.mem_cons]
    constructor
    · intro h
      rcases h with ⟨e, he, heq⟩ | ⟨value, hv, hp⟩
      · obtain ⟨hk, hx⟩ := Prod.mk.inj heq
        obtain ⟨rfl, rfl⟩ := List.cons.inj hk
        exact ⟨f.2, Or.inl rfl, hx ▸ he⟩
      · exact ⟨value, Or.inr hv, hp⟩
    · intro h
      obtain ⟨value, hf | hv, hp⟩ := h
      · subst hf
        exact Or.inl ⟨(p, x), hp, rfl⟩
      · exact Or.inr ⟨value, hv, hp⟩

theorem mem_entries_leaf (h : ∀ fields, j ≠ .object fields) {e : Entry} :
    e ∈ entries dump j ↔ e.1 = [] ∧ leafValue dump j = some e.2 := by
  have heq : entries dump j = (leafValue dump j).toList.map fun v => ([], v) := by
    cases j with
    | object fields => exact absurd rfl (h fields)
    | _ => rfl
  rw [heq]
  constructor
  · intro he
    obtain ⟨v, hv, rfl⟩ := List.mem_map.mp he
    exact ⟨rfl, Option.mem_toList.mp hv⟩
  · intro he
    exact List.mem_map.mpr ⟨e.2, Option.mem_toList.mpr he.2, Prod.ext he.1.symm rfl⟩

theorem mem_entries_ofValue {e : Entry} : e ∈ entries dump (ofValue v) ↔ e = ([], v) := by
  have hleaf : ∀ fields, ofValue v ≠ .object fields := by cases v <;> simp [ofValue]
  have hv : leafValue dump (ofValue v) = some v := by cases v <;> simp [ofValue, leafValue]
  rw [mem_entries_leaf hleaf, hv]
  constructor
  · intro h
    exact Prod.ext h.1 (Option.some.inj h.2).symm
  · rintro rfl
    exact ⟨rfl, rfl⟩

/-! ## Trees with increasing keys -/

inductive Ordered : Json → Prop
  | leaf {j : Json} (h : ∀ fields, j ≠ .object fields) : Ordered j
  | object {fields : List (String × Json)} (sorted : Assoc.Sorted fields) (values : ∀ f ∈ fields, Ordered f.2) :
      Ordered (.object fields)

theorem Ordered.sorted (h : Ordered (.object fields)) : Assoc.Sorted fields := by
  cases h with
  | leaf h => exact absurd rfl (h fields)
  | object sorted _ => exact sorted

theorem Ordered.values (h : Ordered (.object fields)) : ∀ f ∈ fields, Ordered f.2 := by
  cases h with
  | leaf h => exact absurd rfl (h fields)
  | object _ values => exact values

theorem entry_unique (h : Ordered j) {p q : List String} {x y : ConfigValue} (hp : (p, x) ∈ entries dump j)
    (hq : (q, y) ∈ entries dump j) (hpq : p <+: q) : p = q ∧ x = y := by
  induction p generalizing j q with
  | nil =>
    have hleaf : ∀ fields, j ≠ .object fields := by
      rintro fields rfl
      exact not_nil_mem_entries_object fields x hp
    obtain ⟨-, hx⟩ := (mem_entries_leaf hleaf).mp hp
    obtain ⟨hq, hy⟩ := (mem_entries_leaf hleaf).mp hq
    exact ⟨hq.symm, Option.some.inj (hx.symm.trans hy)⟩
  | cons k p ih =>
    cases h with
    | leaf h => cases ((mem_entries_leaf h).mp hp).1
    | object sorted values =>
      obtain ⟨value, hv, hp⟩ := mem_entries_object.mp hp
      cases q with
      | nil => exact absurd hpq (by simp)
      | cons k' q =>
        obtain ⟨rfl, htail⟩ := List.cons_prefix_cons.mp hpq
        obtain ⟨value', hv', hq⟩ := mem_entries_object.mp hq
        obtain rfl := sorted.unique hv hv'
        obtain ⟨rfl, rfl⟩ := ih (values _ hv) hp hq htail
        exact ⟨rfl, rfl⟩

/-! ## Adding a value -/

/-- The members `operator[]` finds in a node; an object made of null has none. -/
def members : Json → Option (List (String × Json))
  | .object fields => some fields
  | .null => some []
  | _ => none

theorem assign_of_members (h : members j = some fields) (k : String)
    (w : Json) : assign j k w = .ok (.object (Assoc.put k w fields)) := by
  cases j with
  | object _ => cases h; rfl
  | null => cases h; rfl
  | _ => cases h

/-- The child a path goes through. -/
def childOf (fields : List (String × Json)) (k : String) : Json := (fields.lookup k).getD (.object [])

theorem descend_of_members (h : members j = some fields) (k : String) : descend j k = .ok (childOf fields k) := by
  cases j with
  | object _ => cases h; rfl
  | null => cases h; rfl
  | _ => cases h

theorem mem_entries_members (h : members j = some fields) (e : Entry) :
    e ∈ entries dump j ↔ e ∈ entries dump (.object fields) := by
  cases j with
  | object _ => cases h; rfl
  | null => cases h; simp [entries, fieldEntries, leafValue]
  | _ => cases h

theorem Ordered.members (h : Ordered j) (hm : members j = some fields) : Ordered (.object fields) := by
  cases j with
  | object _ => cases hm; exact h
  | null => cases hm; exact .object List.Pairwise.nil (by simp)
  | _ => cases hm

/-- A node without members is a leaf with a value. -/
theorem members_none (dump : Json → String) (h : members j = none) : ∃ x, ([], x) ∈ entries dump j := by
  cases j with
  | object _ => cases h
  | null => cases h
  | _ => exact ⟨_, List.mem_singleton.mpr rfl⟩

/-- What `assign` does to the entries of a node. -/
theorem mem_entries_put (h : Ordered (.object fields)) {k k' : String} {w : Json}
    :
    (k' :: p, x) ∈ entries dump (.object (Assoc.put k w fields)) ↔
      if k' = k then (p, x) ∈ entries dump w else (k' :: p, x) ∈ entries dump (.object fields) := by
  rw [mem_entries_object]
  by_cases hk : k' = k
  · subst hk
    rw [if_pos rfl]
    constructor
    · intro hpost
      obtain ⟨value, hv, hp⟩ := hpost
      rcases (Assoc.mem_put h.sorted _).mp hv with hv | ⟨-, hne⟩
      · exact (Prod.mk.inj hv).2 ▸ hp
      · exact absurd rfl hne
    · intro hp
      exact ⟨w, (Assoc.mem_put h.sorted _).mpr (Or.inl rfl), hp⟩
  · rw [if_neg hk, mem_entries_object]
    constructor
    · intro hpost
      obtain ⟨value, hv, hp⟩ := hpost
      rcases (Assoc.mem_put h.sorted _).mp hv with hv | ⟨hv, -⟩
      · exact absurd (Prod.mk.inj hv).1 hk
      · exact ⟨value, hv, hp⟩
    · intro hpost
      obtain ⟨value, hv, hp⟩ := hpost
      exact ⟨value, (Assoc.mem_put h.sorted _).mpr (Or.inr ⟨hv, hk⟩), hp⟩

theorem ordered_put (h : Ordered (.object fields)) {w : Json}
    (hw : Ordered w) : Ordered (.object (Assoc.put k w fields)) := by
  refine .object (Assoc.sorted_put h.sorted) ?_
  intro f hf
  rcases (Assoc.mem_put h.sorted f).mp hf with rfl | ⟨hf, -⟩
  · exact hw
  · exact h.values f hf

theorem mem_entries_childOf (h : Ordered (.object fields)) :
    (p, x) ∈ entries dump (childOf fields k) ↔ (k :: p, x) ∈ entries dump (.object fields) := by
  rw [mem_entries_object]
  unfold childOf
  cases hl : fields.lookup k with
  | none =>
    constructor
    · intro hp
      cases hp
    · intro hpost
      obtain ⟨value, hv, -⟩ := hpost
      rw [(Assoc.lookup_eq_some h.sorted).mpr hv] at hl
      cases hl
  | some value =>
    have hv := (Assoc.lookup_eq_some h.sorted).mp hl
    constructor
    · intro hp
      exact ⟨value, hv, hp⟩
    · intro hpost
      obtain ⟨value', hv', hp⟩ := hpost
      exact h.sorted.unique hv hv' ▸ hp

theorem ordered_childOf (h : Ordered (.object fields)) (k : String) : Ordered (childOf fields k) := by
  unfold childOf
  cases hl : fields.lookup k with
  | none => exact .object List.Pairwise.nil (by simp)
  | some value => exact h.values _ ((Assoc.lookup_eq_some h.sorted).mp hl)

theorem addValue_of_members {w j : Json} (h : members j = some fields) (k k' : String) (rest : List String) :
    addValue w j (k :: k' :: rest) =
      (addValue w (childOf fields k) (k' :: rest)).map fun child => .object (Assoc.put k child fields) := by
  simp only [addValue, descend_of_members h]
  show (addValue w (childOf fields k) (k' :: rest) >>= assign j k) = _
  cases addValue w (childOf fields k) (k' :: rest) with
  | error e => rfl
  | ok child => exact assign_of_members h k child

/-- An `addValue` that succeeds: the node has members, and its child at the first part is
    the value, or what the rest of the path makes of the child there. -/
theorem addValue_ok {w j j' : Json} {rest : List String} (h : addValue w j (k :: rest) = .ok j') :
    ∃ fields child, members j = some fields ∧ j' = .object (Assoc.put k child fields) ∧
      (rest = [] ∧ child = w ∨ rest ≠ [] ∧ addValue w (childOf fields k) rest = .ok child) := by
  cases hm : members j with
  | none =>
    -- a leaf refuses both `assign` and `descend`
    cases rest with
    | nil => cases j <;> cases hm <;> cases h
    | cons k' rest => cases j <;> cases hm <;> cases h
  | some fields =>
    refine ⟨fields, ?_⟩
    cases rest with
    | nil =>
      have h : assign j k w = .ok j' := h
      rw [assign_of_members hm] at h
      exact ⟨w, rfl, (Except.ok.inj h).symm, Or.inl ⟨rfl, rfl⟩⟩
    | cons k' rest =>
      rw [addValue_of_members hm] at h
      cases hc : addValue w (childOf fields k) (k' :: rest) with
      | error e =>
        rw [hc] at h
        cases h
      | ok child =>
        rw [hc] at h
        exact ⟨child, rfl, (Except.ok.inj h).symm, Or.inr ⟨by simp, rfl⟩⟩

theorem addValue_sound (dump : Json → String) {j j' : Json} (hj : Ordered j)
    (h : addValue (ofValue v) j path = .ok j') :
    Ordered j' ∧ ∀ e ∈ entries dump j', e = (path, v) ∨ e ∈ entries dump j := by
  induction path generalizing j j' with
  | nil => cases h
  | cons k rest ih =>
    obtain ⟨fields, child, hm, rfl, hchild⟩ := addValue_ok h
    have ho := hj.members hm
    -- the child is ordered, and has the rest of the path or an old entry
    have hc : Ordered child ∧ ∀ e ∈ entries dump child, e = (rest, v) ∨ e ∈ entries dump (childOf fields k) := by
      rcases hchild with ⟨rfl, rfl⟩ | ⟨-, hchild⟩
      · refine ⟨.leaf (by cases v <;> simp [ofValue]), ?_⟩
        intro e he
        exact Or.inl (mem_entries_ofValue.mp he)
      · exact ih (ordered_childOf ho k) hchild
    refine ⟨ordered_put ho hc.1, ?_⟩
    intro e he
    obtain ⟨p, x⟩ := e
    cases p with
    | nil => exact absurd he (not_nil_mem_entries_object _ x)
    | cons k' p =>
      rw [mem_entries_put ho] at he
      rw [mem_entries_members hm]
      by_cases hk : k' = k
      · subst hk
        rw [if_pos rfl] at he
        rcases hc.2 _ he with heq | hold
        · obtain ⟨rfl, rfl⟩ := Prod.mk.inj heq
          exact Or.inl rfl
        · exact Or.inr ((mem_entries_childOf ho).mp hold)
      · rw [if_neg hk] at he
        exact Or.inr he

/-- Neither path continues the other. -/
def Apart (p q : List String) : Prop := ¬p <+: q ∧ ¬q <+: p

theorem addValue_complete (hj : Ordered j) (hne : path ≠ []) (h : ∀ e ∈ entries dump j, Apart e.1 path) :
    ∃ j', addValue (ofValue v) j path = .ok j' ∧ ∀ e, e ∈ entries dump j' ↔ e = (path, v) ∨ e ∈ entries dump j := by
  induction path generalizing j with
  | nil => exact absurd rfl hne
  | cons k rest ih =>
    cases hm : members j with
    | none =>
      obtain ⟨x, hx⟩ := members_none dump hm
      exact absurd List.nil_prefix (h _ hx).1
    | some fields =>
      have ho := hj.members hm
      have hold : ∀ p x, (p, x) ∈ entries dump (childOf fields k) → Apart p rest := by
        intro p x hp
        have := h (k :: p, x) ((mem_entries_members hm _).mpr ((mem_entries_childOf ho).mp hp))
        exact ⟨fun hpre => this.1 (List.cons_prefix_cons.mpr ⟨rfl, hpre⟩),
          fun hpre => this.2 (List.cons_prefix_cons.mpr ⟨rfl, hpre⟩)⟩
      obtain ⟨child, hadd, hchild⟩ : ∃ child,
          addValue (ofValue v) j (k :: rest) = .ok (.object (Assoc.put k child fields)) ∧
          ∀ e, e ∈ entries dump child ↔ e = (rest, v) ∨ e ∈ entries dump (childOf fields k) := by
        cases rest with
        | nil =>
          refine ⟨ofValue v, assign_of_members hm k _, ?_⟩
          intro e
          rw [mem_entries_ofValue]
          constructor
          · exact Or.inl
          · intro he
            rcases he with he | he
            · exact he
            · exact absurd List.nil_prefix (hold e.1 e.2 he).2
        | cons k' rest =>
          obtain ⟨child, hadd, hchild⟩ := ih (ordered_childOf ho k) (by simp) fun e he => hold e.1 e.2 he
          refine ⟨child, ?_, hchild⟩
          rw [addValue_of_members hm, hadd]
          rfl
      refine ⟨_, hadd, ?_⟩
      intro e
      obtain ⟨p, x⟩ := e
      rw [mem_entries_members hm]
      cases p with
      | nil => simp [not_nil_mem_entries_object]
      | cons k' p =>
        rw [mem_entries_put ho]
        by_cases hk : k' = k
        · subst hk
          rw [if_pos rfl, hchild, mem_entries_childOf ho]
          simp
        · rw [if_neg hk]
          simp [hk]

/-! ## Adding all values -/

theorem addValues_cons_ok {e : String × ConfigValue} {rest : List (String × ConfigValue)}
    (h : addValues j (e :: rest) = .ok T) :
    ∃ j', addValue (ofValue e.2) j (splitKey e.1) = .ok j' ∧ addValues j' rest = .ok T := by
  have h : (addValue (ofValue e.2) j (splitKey e.1) >>= fun j => addValues j rest) = .ok T := h
  cases hadd : addValue (ofValue e.2) j (splitKey e.1) with
  | error fault =>
    rw [hadd] at h
    cases h
  | ok j' =>
    rw [hadd] at h
    exact ⟨j', rfl, h⟩

theorem addValues_sound (dump : Json → String) (hj : Ordered j) (h : addValues j l = .ok T) :
    Ordered T ∧ ∀ x ∈ entries dump T, x ∈ entries dump j ∨ ∃ e ∈ l, x = (splitKey e.1, e.2) := by
  induction l generalizing j with
  | nil =>
    cases h
    exact ⟨hj, fun x hx => Or.inl hx⟩
  | cons e rest ih =>
    obtain ⟨j', hadd, h⟩ := addValues_cons_ok h
    obtain ⟨hj', hone⟩ := addValue_sound dump hj hadd
    obtain ⟨hT, hall⟩ := ih hj' h
    refine ⟨hT, ?_⟩
    intro x hx
    rcases hall x hx with hx | ⟨e', he', rfl⟩
    · rcases hone x hx with rfl | hx
      · exact Or.inr ⟨e, by simp, rfl⟩
      · exact Or.inl hx
    · exact Or.inr ⟨e', by simp [he'], rfl⟩

/-- Every key that was added has parts. -/
theorem addValues_parts (h : addValues j l = .ok T) : ∀ e ∈ l, e.1 ≠ "" := by
  induction l generalizing j with
  | nil => simp
  | cons e rest ih =>
    obtain ⟨j', hadd, h⟩ := addValues_cons_ok h
    intro e' he' h0
    rcases List.mem_cons.mp he' with rfl | he'
    · rw [h0, splitKey_empty] at hadd
      cases hadd
    · exact ih h e' he' h0

theorem addValues_complete (dump : Json → String) (hj : Ordered j)
    (hne : ∀ e ∈ l, splitKey e.1 ≠ []) (hl : l.Pairwise fun a b => Apart (splitKey a.1) (splitKey b.1))
    (hold : ∀ x ∈ entries dump j, ∀ e ∈ l, Apart x.1 (splitKey e.1)) :
    ∃ T, addValues j l = .ok T ∧
      ∀ x, x ∈ entries dump T ↔ x ∈ entries dump j ∨ ∃ e ∈ l, x = (splitKey e.1, e.2) := by
  induction l generalizing j with
  | nil => exact ⟨j, rfl, by simp⟩
  | cons e rest ih =>
    obtain ⟨hhead, htail⟩ := List.pairwise_cons.mp hl
    obtain ⟨j', hadd, hone⟩ := addValue_complete (v := e.2) hj (hne e (by simp)) fun x hx => hold x hx e (by simp)
    have hj' := (addValue_sound dump hj hadd).1
    have hold' : ∀ x ∈ entries dump j', ∀ e' ∈ rest, Apart x.1 (splitKey e'.1) := by
      intro x hx e' he'
      rcases (hone x).mp hx with rfl | hx
      · exact hhead e' he'
      · exact hold x hx e' (by simp [he'])
    obtain ⟨T, hT, hall⟩ := ih hj' (fun e' he' => hne e' (by simp [he'])) htail hold'
    refine ⟨T, ?_, ?_⟩
    · show (addValue (ofValue e.2) j (splitKey e.1) >>= fun j => addValues j rest) = .ok T
      rw [hadd]
      exact hT
    · intro x
      rw [hall, hone]
      simp only [List.mem_cons, exists_eq_or_imp]
      tauto

/-! ## Trees without empty objects -/

/-- A leaf that is stored as it is: a string, a boolean, a float or an `int`. -/
def Leaf : Json → Prop
  | .string _ | .boolean _ => True
  | .float bits => isFinite bits = true
  | .integer n => -2 ^ 31 ≤ n ∧ n < 2 ^ 31
  | .null | .array _ | .object _ => False

/-- Below the root no object is empty, and its keys satisfy `K`. -/
inductive Shaped (K : String → Prop) : Json → Prop
  | leaf {j : Json} (h : Leaf j) : Shaped K j
  | object {fields : List (String × Json)} (hne : fields ≠ []) (sorted : Assoc.Sorted fields)
      (keys : ∀ f ∈ fields, K f.1) (values : ∀ f ∈ fields, Shaped K f.2) : Shaped K (.object fields)

theorem Leaf.not_object (h : Leaf j) : ∀ fields, j ≠ .object fields := by
  rintro fields rfl
  exact h

theorem Leaf.ofValue (dump : Json → String) (h : Leaf j) : ∃ v, leafValue dump j = some v ∧ j = ofValue v := by
  cases j with
  | string s => exact ⟨_, rfl, rfl⟩
  | integer n => exact ⟨_, rfl, by rw [Config.ofValue, Int32.toInt_ofInt_of_le h.1 h.2]⟩
  | float bits => exact ⟨_, rfl, rfl⟩
  | boolean b => exact ⟨_, rfl, rfl⟩
  | null => cases h
  | array items => cases h
  | object fields => cases h

theorem Shaped.ordered (h : Shaped K j) : Ordered j := by
  induction h with
  | leaf h => exact .leaf h.not_object
  | object _ sorted _ _ ih => exact .object sorted ih

theorem Shaped.exists_entry (dump : Json → String) (h : Shaped K j) : ∃ e, e ∈ entries dump j := by
  induction h with
  | leaf h =>
    obtain ⟨v, hv, -⟩ := h.ofValue dump
    exact ⟨([], v), (mem_entries_leaf h.not_object).mpr ⟨rfl, hv⟩⟩
  | @object fields hne _ _ _ ih =>
    obtain ⟨f, hf⟩ := List.exists_mem_of_ne_nil fields hne
    obtain ⟨e, he⟩ := ih f hf
    exact ⟨(f.1 :: e.1, e.2), mem_entries_object.mpr ⟨f.2, hf, he⟩⟩

theorem Shaped.keys_of_entry (h : Shaped K j) (hp : (p, x) ∈ entries dump j) : ∀ k ∈ p, K k := by
  induction h generalizing p with
  | leaf h =>
    have hnil : p = [] := ((mem_entries_leaf h.not_object).mp hp).1
    simp [hnil]
  | object _ _ keys _ ih =>
    cases p with
    | nil => simp
    | cons k p =>
      obtain ⟨value, hv, hp⟩ := mem_entries_object.mp hp
      intro k' hk'
      rcases List.mem_cons.mp hk' with rfl | hk'
      · exact keys _ hv
      · exact ih _ hv hp k' hk'

/-- One half of `Shaped.ext`: the fields of a tree are fields of any tree with the same entries. -/
theorem field_of_entries {fields fields' : List (String × Json)}
    (sorted : Assoc.Sorted fields) (sorted' : Assoc.Sorted fields') (values : ∀ f ∈ fields, Shaped K f.2)
    (hsame : ∀ e, e ∈ entries dump (.object fields) ↔ e ∈ entries dump (.object fields')) {f : String × Json}
    (hf : f ∈ fields) : ∃ value, (f.1, value) ∈ fields' ∧ ∀ e, e ∈ entries dump f.2 ↔ e ∈ entries dump value := by
  obtain ⟨e, he⟩ := (values f hf).exists_entry dump
  obtain ⟨value, hv, -⟩ := mem_entries_object.mp ((hsame _).mp (mem_entries_object.mpr ⟨f.2, hf, he⟩))
  refine ⟨value, hv, ?_⟩
  intro e'
  constructor
  · intro he'
    obtain ⟨value', hv', he'⟩ := mem_entries_object.mp ((hsame _).mp (mem_entries_object.mpr ⟨f.2, hf, he'⟩))
    exact sorted'.unique hv' hv ▸ he'
  · intro he'
    obtain ⟨value', hv', he'⟩ := mem_entries_object.mp
      ((hsame (f.1 :: e'.1, e'.2)).mpr (mem_entries_object.mpr ⟨value, hv, he'⟩))
    exact sorted.unique hv' hf ▸ he'

theorem Shaped.ext {t t' : Json} (h : Shaped K t) (h' : Shaped K t')
    (hsame : ∀ e, e ∈ entries dump t ↔ e ∈ entries dump t') : t = t' := by
  induction h generalizing t' with
  | leaf h =>
    obtain ⟨v, hv, rfl⟩ := h.ofValue dump
    have hmem := (hsame ([], v)).mp ((mem_entries_leaf h.not_object).mpr ⟨rfl, hv⟩)
    cases h' with
    | leaf h' =>
      obtain ⟨v', hv', rfl⟩ := h'.ofValue dump
      have hvv : leafValue dump (Config.ofValue v') = some v := ((mem_entries_leaf h'.not_object).mp hmem).2
      rw [Option.some.inj (hvv.symm.trans hv')]
    | object => exact absurd hmem (not_nil_mem_entries_object _ v)
  | @object fields hne sorted keys values ih =>
    cases h' with
    | leaf h' =>
      obtain ⟨v', hv', -⟩ := h'.ofValue dump
      have hmem := (hsame ([], v')).mpr ((mem_entries_leaf h'.not_object).mpr ⟨rfl, hv'⟩)
      exact absurd hmem (not_nil_mem_entries_object _ v')
    | @object fields' hne' sorted' keys' values' =>
      congr 1
      apply sorted.ext sorted'
      intro f
      constructor
      · intro hf
        obtain ⟨value, hv, heq⟩ := field_of_entries sorted sorted' values hsame hf
        obtain rfl := ih f hf (values' _ hv) heq
        exact hv
      · intro hf
        obtain ⟨value, hv, heq⟩ := field_of_entries sorted' sorted values' (fun e => (hsame e).symm) hf
        obtain rfl := ih _ hv (values' _ hf) fun e => (heq e).symm
        exact hv

theorem Shaped.held (h : Shaped K j) : j.Held := by
  induction h with
  | @leaf j h =>
    cases j with
    | string s => exact .string s
    | integer n => exact .integer ⟨by have := h.1; omega, by have := h.2; omega⟩
    | float bits => exact .float h
    | boolean b => exact .boolean b
    | null => cases h
    | array items => cases h
    | object fields => cases h
  | object _ sorted _ _ ih => exact .object sorted ih

theorem Shaped.mono {K K' : String → Prop} (hK : ∀ k, K k → K' k) (h : Shaped K j) : Shaped K' j := by
  induction h with
  | leaf h => exact .leaf h
  | object hne sorted keys _ ih => exact .object hne sorted (fun f hf => hK _ (keys f hf)) ih

/-! ## Saving yields a tree without empty objects -/

/-- A value JSON can hold. -/
def Storable (v : ConfigValue) : Prop := Leaf (ofValue v)

theorem Shaped.storable (h : Shaped K j) (hp : (p, x) ∈ entries dump j) : Storable x := by
  induction h generalizing p with
  | @leaf j h =>
    obtain ⟨v, hv, heq⟩ := h.ofValue dump
    have hx : leafValue dump j = some x := ((mem_entries_leaf h.not_object).mp hp).2
    rw [Option.some.inj (hx.symm.trans hv)]
    unfold Storable
    rw [← heq]
    exact h
  | object _ _ _ _ ih =>
    cases p with
    | nil => exact absurd hp (not_nil_mem_entries_object _ x)
    | cons k p =>
      obtain ⟨value, hv, hp⟩ := mem_entries_object.mp hp
      exact ih _ hv hp

/-- A node that `addValue` is called on. -/
def Started (j : Json) : Prop := j = .null ∨ j = .object [] ∨ Shaped (fun _ => True) j

theorem Started.members (h : Started j) (hm : members j = some fields) :
    Assoc.Sorted fields ∧ ∀ f ∈ fields, Shaped (fun _ => True) f.2 := by
  rcases h with rfl | rfl | h
  · cases hm
    exact ⟨List.Pairwise.nil, by simp⟩
  · cases hm
    exact ⟨List.Pairwise.nil, by simp⟩
  · cases h with
    | @leaf j h =>
      cases j with
      | null => cases h
      | object _ => cases h
      | _ => cases hm
    | object _ sorted _ values =>
      cases hm
      exact ⟨sorted, values⟩

theorem addValue_shaped (hv : Storable v) {j j' : Json} (hj : Started j)
    (h : addValue (ofValue v) j path = .ok j') : Shaped (fun _ => True) j' := by
  induction path generalizing j j' with
  | nil => cases h
  | cons k rest ih =>
    obtain ⟨fields, child, hm, rfl, hchild⟩ := addValue_ok h
    obtain ⟨sorted, values⟩ := hj.members hm
    have hc : Shaped (fun _ => True) child := by
      rcases hchild with ⟨-, rfl⟩ | ⟨-, hchild⟩
      · exact .leaf hv
      · refine ih ?_ hchild
        unfold childOf
        cases hl : fields.lookup k with
        | none => exact Or.inr (Or.inl rfl)
        | some value => exact Or.inr (Or.inr (values _ ((Assoc.lookup_eq_some sorted).mp hl)))
    refine .object (Assoc.put_ne_nil _ _ _) (Assoc.sorted_put sorted) (fun _ _ => trivial) ?_
    intro f hf
    rcases (Assoc.mem_put sorted f).mp hf with rfl | ⟨hf, -⟩
    · exact hc
    · exact values f hf

theorem addValues_shaped (hl : ∀ e ∈ l, Storable e.2) (hj : Started j)
    (h : addValues j l = .ok T) : l = [] ∧ T = j ∨ Shaped (fun _ => True) T := by
  induction l generalizing j with
  | nil =>
    cases h
    exact Or.inl ⟨rfl, rfl⟩
  | cons e rest ih =>
    obtain ⟨j', hadd, h⟩ := addValues_cons_ok h
    have hj' := addValue_shaped (hl e (by simp)) hj hadd
    right
    rcases ih (fun e' he' => hl e' (by simp [he'])) (Or.inr (Or.inr hj')) h with ⟨-, rfl⟩ | hT
    · exact hj'
    · exact hT

end DockerCpp.Config
