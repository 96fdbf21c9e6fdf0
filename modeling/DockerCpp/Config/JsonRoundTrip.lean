/-
  DockerCpp.Config.JsonRoundTrip — saving and loading a configuration as JSON.

  (1) A configuration comes back from a save and a load exactly when no key is empty or has
  a dot at an end, and no key followed by a dot is an initial segment of another
  (`save_load_iff`). A key `a` and a key `a.b` do not fit in one tree: depending on the
  iteration order `a.b` is refused or `a` replaces it (`a_dotted_prefix_does_not_fit`).

  (2) A document of nested objects comes back from a load and a save, in every iteration
  order (`load_save_identity`).
-/

import DockerCpp.Config.JsonEntries
import DockerCpp.Lib.Run
import Mathlib.Algebra.Order.BigOperators.Group.List
import Mathlib.Logic.Encodable.Basic
import Mathlib.Logic.Equiv.List

namespace DockerCpp.Config

open Lib

/-! ## What a load leaves -/

@[simp] theorem notifyChange_values (c : ConfigManager) (key : String) (old new : ConfigValue) :
    (c.notifyChange key old new).values = c.values := by
  unfold ConfigManager.notifyChange
  split <;> rfl

@[simp] theorem notifyChange_layers (c : ConfigManager) (key : String) (old new : ConfigValue) :
    (c.notifyChange key old new).layers = c.layers := by
  unfold ConfigManager.notifyChange
  split <;> rfl

theorem set_values (c : ConfigManager) (key : String) (value : ConfigValue) :
    (c.set key value).values = c.values.insert key value := notifyChange_values _ _ _ _

theorem set_layers (c : ConfigManager) (key : String) (value : ConfigValue) :
    (c.set key value).layers = c.layers := notifyChange_layers _ _ _ _

theorem setAll_values (es : List Entry) (c : ConfigManager) :
    (setAll "" es c).values = (es.map fun e => (keyOf e.1, e.2)).foldl (fun m e => m.insert e.1 e.2) c.values := by
  induction es generalizing c with
  | nil => rfl
  | cons e es ih =>
    show (setAll "" es (c.set (keyOf e.1) e.2)).values = _
    rw [ih, set_values]
    rfl

theorem setAll_layers (es : List Entry) (c : ConfigManager) : (setAll "" es c).layers = c.layers := by
  induction es generalizing c with
  | nil => rfl
  | cons e es ih =>
    show (setAll "" es (c.set (keyOf e.1) e.2)).layers = _
    rw [ih, set_layers]

/-- Every value a load leaves is that of an entry. -/
theorem setAll_sound {es : List Entry} {k : String} {v : ConfigValue} (h : (setAll "" es {}).values[k]? = some v) :
    ∃ p, (p, v) ∈ es ∧ keyOf p = k := by
  rw [setAll_values] at h
  obtain ⟨⟨p, w⟩, hp, heq⟩ := List.mem_map.mp (mem_of_getElem?_foldl_insert h)
  obtain ⟨rfl, rfl⟩ := Prod.mk.inj heq
  exact ⟨p, hp, rfl⟩

/-- And an entry's value is left when no other entry has its key with another value. -/
theorem setAll_complete {es : List Entry} {p : List String} {v : ConfigValue} (hp : (p, v) ∈ es)
    (h : ∀ q w, (q, w) ∈ es → keyOf q = keyOf p → w = v) : (setAll "" es {}).values[keyOf p]? = some v := by
  cases hl : (setAll "" es {}).values[keyOf p]? with
  | none =>
    rw [setAll_values, getElem?_foldl_insert, Option.or_eq_none_iff, List.getLast?_eq_none_iff,
      List.filterMap_eq_nil_iff] at hl
    have := hl.1 (keyOf p, v) (List.mem_map.mpr ⟨(p, v), hp, rfl⟩)
    simp at this
  | some w =>
    obtain ⟨q, hq, hk⟩ := setAll_sound hl
    rw [h q w hq hk]

theorem load_of_parse (codec : Codec) {text : String} {t : Json} (h : codec.parse text = .ok t) (c : ConfigManager) :
    ConfigManager.loadFromJsonString codec text c = (.ok (), setAll "" (entries codec.dump t) c.clear) := by
  have hmerge : ConfigManager.mergeFromJsonString codec text = Prog.modify (processJson codec.dump t "") := by
    unfold ConfigManager.mergeFromJsonString
    rw [h]
  show (ConfigManager.mergeFromJsonString codec text) c.clear = _
  rw [hmerge, ← processJson_eq]
  rfl

/-! ## Saving and loading -/

/-- What is saved, with `values_` iterated as `order`, is loaded as the values of `c`. -/
def RoundTrips (codec : Codec) (c : ConfigManager) (order : List (String × ConfigValue)) : Prop :=
  ∃ text, toJsonString codec.dump4 order = .ok text ∧
    ∃ c', ConfigManager.loadFromJsonString codec text {} = (.ok (), c') ∧ c'.values = c.values ∧ c'.layers = ∅

/-- Keys that fit in one tree. -/
def Saveable (keys : List String) : Prop :=
  (∀ k ∈ keys, Splits k) ∧ ∀ k ∈ keys, ∀ k' ∈ keys, ¬k.toList ++ ['.'] <+: k'.toList

instance (keys : List String) : Decidable (Saveable keys) := inferInstanceAs (Decidable (_ ∧ _))

/-- In a list nothing has a property that is always found again further up. -/
theorem not_of_ascent {α : Type} {l : List α} {f : α → Nat} {P : α → Prop}
    (h : ∀ a ∈ l, P a → ∃ b ∈ l, P b ∧ f a < f b) : ∀ a ∈ l, ¬P a := by
  intro a ha hP
  have hclimb : ∀ n, ∃ b ∈ l, P b ∧ n ≤ f b := by
    intro n
    induction n with
    | zero => exact ⟨a, ha, hP, Nat.zero_le _⟩
    | succ n ih =>
      obtain ⟨b, hb, hPb, hn⟩ := ih
      obtain ⟨b', hb', hPb', hlt⟩ := h b hb hPb
      exact ⟨b', hb', hPb', by omega⟩
  obtain ⟨b, hb, -, hle⟩ := hclimb ((l.map f).sum + 1)
  have hsum : f b ≤ (l.map f).sum := List.le_sum_of_mem (List.mem_map.mpr ⟨b, hb, rfl⟩)
  omega

section

variable {codec : Codec} {c : ConfigManager} {order : List (String × ConfigValue)}

theorem mem_order (h : order.Perm c.values.toList) (k : String) (v : ConfigValue) :
    (k, v) ∈ order ↔ c.values[k]? = some v := by
  rw [h.mem_iff, Std.ExtTreeMap.mem_toList_iff_getElem?_eq_some]

theorem mem_keys_iff (h : order.Perm c.values.toList) (k : String) : k ∈ c.values.keys ↔ ∃ v, (k, v) ∈ order := by
  rw [Std.ExtTreeMap.mem_keys, Std.ExtTreeMap.mem_iff_isSome_getElem?, Option.isSome_iff_exists]
  exact exists_congr fun v => (mem_order h k v).symm

theorem held_of_addValues (hv : ∀ e ∈ order, Storable e.2) {T : Json} (hT : addValues .null order = .ok T) :
    T.Held := by
  rcases addValues_shaped hv (Or.inl rfl) hT with ⟨-, rfl⟩ | hT
  · exact .null
  · exact hT.held

/-- A save that loads again: every value is that of an entry of the saved tree. -/
theorem RoundTrips.entries (h : order.Perm c.values.toList) (hv : ∀ e ∈ order, Storable e.2)
    (hrt : RoundTrips codec c order) :
    ∃ T, addValues .null order = .ok T ∧
      ∀ e ∈ order, ∃ p, (p, e.2) ∈ entries codec.dump T ∧ keyOf p = e.1 := by
  obtain ⟨text, htext, c', hload, hvalues, -⟩ := hrt
  cases hT : addValues .null order with
  | error fault =>
    unfold toJsonString serializeToJson at htext
    rw [hT] at htext
    cases htext
  | ok T =>
    refine ⟨T, rfl, ?_⟩
    have hdump : text = codec.dump4 T := by
      unfold toJsonString serializeToJson at htext
      rw [hT] at htext
      exact (Except.ok.inj htext).symm
    rw [hdump, load_of_parse codec (codec.parse_dump4 T (held_of_addValues hv hT))] at hload
    intro e he
    have hk : c'.values[e.1]? = some e.2 := by rw [hvalues]; exact (mem_order h _ _).mp he
    rw [← (Prod.mk.inj hload).2] at hk
    exact setAll_sound hk

theorem saveable_of_roundTrips (h : order.Perm c.values.toList) (hv : ∀ e ∈ order, Storable e.2)
    (hrt : RoundTrips codec c order) : Saveable c.values.keys := by
  obtain ⟨T, hT, hentry⟩ := hrt.entries h hv
  obtain ⟨hordered, hsound⟩ := addValues_sound codec.dump (.leaf (by simp)) hT
  have hparts := addValues_parts hT
  -- every key is the one a load gives to the path of a key
  have hfrom : ∀ e ∈ order, ∃ e' ∈ order, keyOf (splitKey e'.1) = e.1 ∧
      (splitKey e'.1, e.2) ∈ Config.entries codec.dump T := by
    intro e he
    obtain ⟨p, hp, hk⟩ := hentry e he
    rcases hsound _ hp with h0 | ⟨e', he', heq⟩
    · cases h0
    · obtain ⟨rfl, -⟩ := Prod.mk.inj heq
      exact ⟨e', he', hk, hp⟩
  have hsplits : ∀ e ∈ order, Splits e.1 := by
    intro e he
    by_contra hbad
    refine not_of_ascent (P := fun e => ¬Splits e.1) (f := fun e => e.1.toList.length) ?_ e he hbad
    intro a ha hbad
    obtain ⟨b, hb, hk, -⟩ := hfrom a ha
    have hbad' : ¬Splits b.1 := by
      intro hs
      rw [keyOf_splitKey hs] at hk
      exact hbad (hk ▸ hs)
    refine ⟨b, hb, hbad', ?_⟩
    rw [← hk]
    exact keyOf_splitKey_length_lt (hparts b hb) hbad'
  have hpath : ∀ e ∈ order, (splitKey e.1, e.2) ∈ Config.entries codec.dump T := by
    intro e he
    obtain ⟨e', he', hk, hp⟩ := hfrom e he
    rw [keyOf_splitKey (hsplits e' he')] at hk
    exact hk ▸ hp
  constructor
  · intro k hk
    obtain ⟨v, hv⟩ := (mem_keys_iff h k).mp hk
    exact hsplits _ hv
  · intro k hk k' hk' hpre
    obtain ⟨v, hv⟩ := (mem_keys_iff h k).mp hk
    obtain ⟨v', hv'⟩ := (mem_keys_iff h k').mp hk'
    have hp := (splitKey_prefix_iff (hsplits _ hv) (hsplits _ hv')).mpr (Or.inr hpre)
    obtain ⟨heq, -⟩ := entry_unique hordered (hpath _ hv) (hpath _ hv') hp
    have hkk : k = k' := by
      have := congrArg keyOf heq
      rw [keyOf_splitKey (hsplits _ hv), keyOf_splitKey (hsplits _ hv')] at this
      exact this
    rw [hkk] at hpre
    have := hpre.length_le
    simp at this

/-- A tree with the values of `c` under the paths of their keys is loaded as `c`. -/
theorem setAll_tree (h : order.Perm c.values.toList) (hsplits : ∀ k v, (k, v) ∈ order → Splits k) {T : Json}
    (hT : ∀ p v, (p, v) ∈ entries codec.dump T ↔ ∃ k, (k, v) ∈ order ∧ splitKey k = p) :
    (setAll "" (entries codec.dump T) {}).values = c.values := by
  apply Std.ExtTreeMap.ext_getElem?
  intro k
  apply Option.ext
  intro v
  rw [← mem_order h]
  constructor
  · intro hload
    obtain ⟨p, hp, rfl⟩ := setAll_sound hload
    obtain ⟨k, hk, rfl⟩ := (hT _ _).mp hp
    rw [keyOf_splitKey (hsplits k v hk)]
    exact hk
  · intro hk
    have hback := keyOf_splitKey (hsplits k v hk)
    have hp := (hT (splitKey k) v).mpr ⟨k, hk, rfl⟩
    rw [← hback]
    refine setAll_complete hp ?_
    intro q w hq hqk
    obtain ⟨k', hk', rfl⟩ := (hT _ _).mp hq
    rw [keyOf_splitKey (hsplits k' w hk'), hback] at hqk
    subst hqk
    exact Option.some.inj (((mem_order h _ _).mp hk').symm.trans ((mem_order h _ _).mp hk))

theorem splitKey_apart (h : order.Perm c.values.toList) (hs : Saveable c.values.keys) :
    order.Pairwise fun a b => Apart (splitKey a.1) (splitKey b.1) := by
  have hmem : ∀ e ∈ order, e.1 ∈ c.values.keys := fun e he => (mem_keys_iff h _).mpr ⟨_, he⟩
  have hfree : ∀ a ∈ order, ∀ b ∈ order, splitKey a.1 <+: splitKey b.1 → a.1 = b.1 := by
    intro a ha b hb hpre
    rcases (splitKey_prefix_iff (hs.1 _ (hmem a ha)) (hs.1 _ (hmem b hb))).mp hpre with heq | hpre
    · exact heq
    · exact absurd hpre (hs.2 _ (hmem a ha) _ (hmem b hb))
  have hdistinct : c.values.toList.Pairwise fun a b => a.1 ≠ b.1 :=
    Std.ExtTreeMap.distinct_keys_toList.imp fun hab heq => hab (compare_eq_iff_eq.mpr heq)
  refine List.Pairwise.imp_of_mem ?_ (h.symm.pairwise hdistinct fun hab heq => hab heq.symm)
  intro a b ha hb hne
  exact ⟨fun hpre => hne (hfree a ha b hb hpre), fun hpre => hne (hfree b hb a ha hpre).symm⟩

theorem splitKey_ne_nil {k : String} (h : Splits k) : splitKey k ≠ [] := by
  intro h0
  have := keyOf_splitKey h
  rw [h0] at this
  exact h.1 this.symm

theorem roundTrips_of_saveable (h : order.Perm c.values.toList) (hv : ∀ e ∈ order, Storable e.2)
    (hs : Saveable c.values.keys) : RoundTrips codec c order := by
  have hsplits : ∀ k v, (k, v) ∈ order → Splits k := fun k v he => hs.1 _ ((mem_keys_iff h _).mpr ⟨v, he⟩)
  have hnull : Ordered .null := .leaf (by simp)
  obtain ⟨T, hT, hentries⟩ := addValues_complete codec.dump hnull
    (fun e he => splitKey_ne_nil (hsplits e.1 e.2 he)) (splitKey_apart h hs) (fun x hx => absurd hx List.not_mem_nil)
  have hparse := codec.parse_dump4 T (held_of_addValues hv hT)
  refine ⟨codec.dump4 T, ?_, _, load_of_parse codec hparse {}, ?_, setAll_layers _ _⟩
  · unfold toJsonString serializeToJson
    rw [hT]
    rfl
  · apply setAll_tree h hsplits
    intro p v
    rw [hentries]
    constructor
    · intro hpost
      rcases hpost with h0 | ⟨e, he, heq⟩
      · cases h0
      · obtain ⟨rfl, rfl⟩ := Prod.mk.inj heq
        exact ⟨e.1, he, rfl⟩
    · intro hpost
      obtain ⟨k, hk, rfl⟩ := hpost
      exact Or.inr ⟨(k, v), hk, rfl⟩

theorem roundTrips_iff (h : order.Perm c.values.toList) (hv : ∀ e ∈ order, Storable e.2) :
    RoundTrips codec c order ↔ Saveable c.values.keys :=
  ⟨saveable_of_roundTrips h hv, roundTrips_of_saveable h hv⟩

end

/-! ## A codec

A library to see what the results say about one document: it writes and reads that document
as the real one does. The other trees are numbered, and their numbers written in strokes. -/

section

def textCode (s : String) : Nat := Encodable.encode (s.toList.map Char.toNat)

theorem textCode_injective : Function.Injective textCode := by
  intro s t h
  have hchars := List.map_injective_iff.mpr (fun a b => Char.toNat_inj.mp) (Encodable.encode_injective h)
  exact String.toList_inj.mp hchars

mutual

def treeCode : Json → Nat
  | .null => Nat.pair 0 0
  | .string s => Nat.pair 1 (textCode s)
  | .integer n => Nat.pair 2 (Encodable.encode n)
  | .float bits => Nat.pair 3 bits.toNat
  | .boolean b => Nat.pair 4 b.toNat
  | .array items => Nat.pair 5 (itemsCode items)
  | .object fields => Nat.pair 6 (fieldsCode fields)

def itemsCode : List Json → Nat
  | [] => 0
  | item :: rest => Nat.pair (treeCode item) (itemsCode rest) + 1

def fieldsCode : List (String × Json) → Nat
  | [] => 0
  | (k, value) :: rest => Nat.pair (textCode k) (Nat.pair (treeCode value) (fieldsCode rest)) + 1

end

mutual

theorem treeCode_injective : ∀ j j' : Json, treeCode j = treeCode j' → j = j' := by
  intro j j' h
  cases j <;> cases j' <;> simp only [treeCode, Nat.pair_eq_pair] at h <;> try omega
  · rfl
  · rw [textCode_injective h.2]
  · rw [Encodable.encode_injective h.2]
  · rw [UInt64.toNat_inj.mp h.2]
  · rename_i b b'
    cases b <;> cases b' <;> simp_all
  · rw [itemsCode_injective _ _ h.2]
  · rw [fieldsCode_injective _ _ h.2]

theorem itemsCode_injective : ∀ l l' : List Json, itemsCode l = itemsCode l' → l = l'
  | [], [], _ => rfl
  | [], _ :: _, h => by simp [itemsCode] at h
  | _ :: _, [], h => by simp [itemsCode] at h
  | a :: l, b :: l', h => by
    simp only [itemsCode, Nat.add_right_cancel_iff, Nat.pair_eq_pair] at h
    rw [treeCode_injective a b h.1, itemsCode_injective l l' h.2]

theorem fieldsCode_injective : ∀ l l' : List (String × Json), fieldsCode l = fieldsCode l' → l = l'
  | [], [], _ => rfl
  | [], _ :: _, h => by simp [fieldsCode] at h
  | _ :: _, [], h => by simp [fieldsCode] at h
  | (k, a) :: l, (k', b) :: l', h => by
    simp only [fieldsCode, Nat.add_right_cancel_iff, Nat.pair_eq_pair] at h
    rw [textCode_injective h.1, treeCode_injective a b h.2.1, fieldsCode_injective l l' h.2.2]

end

def strokesOf (j : Json) : String := String.ofList (List.replicate (treeCode j) '1')

theorem strokesOf_injective : Function.Injective strokesOf := by
  intro j j' h
  have hlen := congrArg (fun s => s.toList.length) h
  simp only [strokesOf, String.toList_ofList, List.length_replicate] at hlen
  exact treeCode_injective _ _ hlen

/-- `tree` is written as `text`, in place of the strokes for it. -/
noncomputable def writtenAs (tree : Json) (text : String) (j : Json) : String :=
  Equiv.swap (strokesOf tree) text (strokesOf j)

theorem writtenAs_injective (tree : Json) (text : String) : Function.Injective (writtenAs tree text) :=
  (Equiv.injective _).comp strokesOf_injective

open Classical in
/-- A library that writes `tree` as `text`. -/
noncomputable def writing (tree : Json) (text : String) : Codec where
  dump := strokesOf
  dump4 := writtenAs tree text
  parse t := if h : ∃ j, writtenAs tree text j = t then .ok h.choose else .error (.parseError "not a tree")
  parse_dump4 j _ := by
    have h : ∃ j', writtenAs tree text j' = writtenAs tree text j := ⟨j, rfl⟩
    rw [dif_pos h, writtenAs_injective tree text h.choose_spec]

theorem writing_dump4 (tree : Json) (text : String) : (writing tree text).dump4 tree = text := by
  exact Equiv.swap_apply_left _ _

theorem writing_parse {tree : Json} (h : tree.Held) (text : String) : (writing tree text).parse text = .ok tree := by
  rw [← (writing tree text).parse_dump4 tree h, writing_dump4]

end

/-! ## Configurations that were set key by key -/

inductive Edit where
  | setString (key : String) (s : String)
  | setInt (key : String) (n : Int32)
  | setBool (key : String) (b : Bool)
  | remove (key : String)
  deriving DecidableEq, Repr

def Edit.apply (c : ConfigManager) : Edit → ConfigManager
  | .setString key s => c.set key (.string s)
  | .setInt key n => c.set key (.integer n)
  | .setBool key b => c.set key (.boolean b)
  | .remove key => c.remove key

/-- A fresh configuration after some calls of `set` and `remove`. -/
def edited (edits : List Edit) : ConfigManager := runFrom Edit.apply {} edits

def AllStorable (c : ConfigManager) : Prop := ∀ (k : String) (v : ConfigValue), c.values[k]? = some v → Storable v

theorem set_storable {c : ConfigManager} (h : AllStorable c) {key : String} {value : ConfigValue}
    (hv : Storable value) : AllStorable (c.set key value) := by
  intro k v hk
  rw [set_values, Std.ExtTreeMap.getElem?_insert] at hk
  split at hk
  · exact Option.some.inj hk ▸ hv
  · exact h k v hk

theorem remove_storable {c : ConfigManager} (h : AllStorable c) (key : String) : AllStorable (c.remove key) := by
  unfold ConfigManager.remove
  split
  · intro k v hk
    rw [notifyChange_values, Std.ExtTreeMap.getElem?_erase] at hk
    split at hk
    · cases hk
    · exact h k v hk
  · exact h

theorem edited_storable (edits : List Edit) : AllStorable (edited edits) := by
  have hempty : AllStorable {} := by
    intro k v hk
    simp at hk
  refine runFrom_invariant ?_ hempty edits
  intro c edit hc
  cases edit with
  | setString key s => exact set_storable hc trivial
  | setInt key n => exact set_storable hc ⟨Int32.le_toInt n, Int32.toInt_lt n⟩
  | setBool key b => exact set_storable hc trivial
  | remove key => exact remove_storable hc key

theorem edited_order_storable {edits : List Edit} {order : List (String × ConfigValue)}
    (h : order.Perm (edited edits).values.toList) : ∀ e ∈ order, Storable e.2 :=
  fun e he => edited_storable edits e.1 e.2 ((mem_order h _ _).mp he)

/-- A configuration that was set key by key comes back from a save and a load exactly when
    its keys fit in one tree, whatever order `values_` is iterated in. -/
theorem save_load_iff (codec : Codec) (edits : List Edit) (order : List (String × ConfigValue))
    (h : order.Perm (edited edits).values.toList) :
    RoundTrips codec (edited edits) order ↔ Saveable (edited edits).values.keys :=
  roundTrips_iff h (edited_order_storable h)

def serverEdits : List Edit :=
  [.setString "app.name" "docker-cpp", .setBool "debug.enabled" true, .setInt "server.port" 80,
   .setInt "server.port" 8080, .remove "app", .setString "a..b" ""]

def serverTree : Json :=
  .object [("a", .object [("", .object [("b", .string "")])]), ("app", .object [("name", .string "docker-cpp")]),
    ("debug", .object [("enabled", .boolean true)]), ("server", .object [("port", .integer 8080)])]

/-- `dump(4)` of `serverTree`. -/
def serverText : String :=
  "\n".intercalate ["\x7b",
    "    \"a\": \x7b", "        \"\": \x7b", "            \"b\": \"\"", "        \x7d", "    \x7d,",
    "    \"app\": \x7b", "        \"name\": \"docker-cpp\"", "    \x7d,",
    "    \"debug\": \x7b", "        \"enabled\": true", "    \x7d,",
    "    \"server\": \x7b", "        \"port\": 8080", "    \x7d", "\x7d"]

theorem save_load_iff_server :
    (edited serverEdits).values.toList = [("a..b", .string ""), ("app.name", .string "docker-cpp"),
      ("debug.enabled", .boolean true), ("server.port", .integer 8080)] ∧
    toJsonString (writing serverTree serverText).dump4 (edited serverEdits).values.toList = .ok serverText ∧
    RoundTrips (writing serverTree serverText) (edited serverEdits) (edited serverEdits).values.toList := by
  have hvalues : (edited serverEdits).values.toList = [("a..b", .string ""), ("app.name", .string "docker-cpp"),
      ("debug.enabled", .boolean true), ("server.port", .integer 8080)] := by decide +kernel
  refine ⟨hvalues, ?_, (save_load_iff _ serverEdits _ (List.Perm.refl _)).mpr (by decide +kernel)⟩
  have htree : serializeToJson [("a..b", .string ""), ("app.name", .string "docker-cpp"),
      ("debug.enabled", .boolean true), ("server.port", .integer 8080)] = .ok serverTree := rfl
  rw [hvalues, toJsonString, htree]
  exact congrArg Except.ok (writing_dump4 serverTree serverText)

def overlappingEdits : List Edit := [.setInt "a" 1, .setInt "a.b" 2]

/-- `a` and `a.b`: with `a` first the node is refused, with `a.b` first it is replaced, and no
    order comes back. -/
theorem a_dotted_prefix_does_not_fit :
    (edited overlappingEdits).values.toList = [("a", .integer 1), ("a.b", .integer 2)] ∧
      serializeToJson [("a", .integer 1), ("a.b", .integer 2)] = .error (.typeError "number") ∧
      serializeToJson [("a.b", .integer 2), ("a", .integer 1)] = .ok (.object [("a", .integer 1)]) ∧
      ∀ codec order, order.Perm (edited overlappingEdits).values.toList →
        ¬RoundTrips codec (edited overlappingEdits) order := by
  refine ⟨by decide +kernel, rfl, rfl, ?_⟩
  intro codec order h hrt
  have hs := saveable_of_roundTrips h (edited_order_storable h) hrt
  exact absurd hs (by decide +kernel)

/-! ## Loading and saving -/

/-- A name that a dotted key can hold. -/
def Name (k : String) : Prop := k ≠ "" ∧ '.' ∉ k.toList

instance (k : String) : Decidable (Name k) := inferInstanceAs (Decidable (_ ∧ _))

section

variable {dump : Json → String} {fields : List (String × Json)}

/-- The entries of a document are what a load of it sets, each under a key of its own. -/
theorem document_lookup (h : Shaped Name (.object fields)) (k : String) (v : ConfigValue) :
    (setAll "" (entries dump (.object fields)) {}).values[k]? = some v ↔
      Splits k ∧ (splitKey k, v) ∈ entries dump (.object fields) := by
  have hpath : ∀ p x, (p, x) ∈ entries dump (.object fields) → Splits (keyOf p) ∧ splitKey (keyOf p) = p := by
    intro p x hp
    refine splitKey_keyOf ?_ (h.keys_of_entry hp)
    rintro rfl
    exact not_nil_mem_entries_object fields x hp
  constructor
  · intro hk
    obtain ⟨p, hp, rfl⟩ := setAll_sound hk
    obtain ⟨hs, heq⟩ := hpath p v hp
    exact ⟨hs, heq.symm ▸ hp⟩
  · intro hpost
    obtain ⟨hs, hp⟩ := hpost
    have := setAll_complete hp (by
      intro q w hq hqk
      rw [← (hpath q w hq).2, hqk, keyOf_splitKey hs] at hq
      exact (entry_unique h.ordered hq hp List.prefix_rfl).2)
    rwa [keyOf_splitKey hs] at this

/-- The entries of a document are saved as they were loaded. -/
theorem document_saved (h : Shaped Name (.object fields)) {order : List (String × ConfigValue)}
    (ho : order.Perm (setAll "" (entries dump (.object fields)) {}).values.toList) :
    addValues .null order = .ok (.object fields) := by
  have hmem : ∀ k v, (k, v) ∈ order ↔ Splits k ∧ (splitKey k, v) ∈ entries dump (.object fields) := by
    intro k v
    rw [mem_order ho, document_lookup h]
  -- the keys fit in one tree, since their paths are in one
  have hs : Saveable (setAll "" (entries dump (.object fields)) {}).values.keys := by
    constructor
    · intro k hk
      obtain ⟨v, hv⟩ := (mem_keys_iff ho k).mp hk
      exact ((hmem k v).mp hv).1
    · intro k hk k' hk' hpre
      obtain ⟨v, hv⟩ := (mem_keys_iff ho k).mp hk
      obtain ⟨v', hv'⟩ := (mem_keys_iff ho k').mp hk'
      obtain ⟨hsk, hp⟩ := (hmem k v).mp hv
      obtain ⟨hsk', hp'⟩ := (hmem k' v').mp hv'
      obtain ⟨heq, -⟩ := entry_unique h.ordered hp hp' ((splitKey_prefix_iff hsk hsk').mpr (Or.inr hpre))
      have hkk := congrArg keyOf heq
      rw [keyOf_splitKey hsk, keyOf_splitKey hsk'] at hkk
      rw [hkk] at hpre
      have := hpre.length_le
      simp at this
  have hnull : Ordered .null := .leaf (by simp)
  obtain ⟨T, hT, hentries⟩ := addValues_complete dump hnull
    (fun e he => splitKey_ne_nil ((hmem e.1 e.2).mp he).1) (splitKey_apart ho hs)
    (fun x hx => absurd hx List.not_mem_nil)
  have hsame : ∀ e, e ∈ entries dump T ↔ e ∈ entries dump (.object fields) := by
    intro e
    rw [hentries]
    constructor
    · intro hpost
      rcases hpost with h0 | ⟨e', he', rfl⟩
      · cases h0
      · exact ((hmem e'.1 e'.2).mp he').2
    · intro he
      obtain ⟨p, x⟩ := e
      have hne : p ≠ [] := by
        rintro rfl
        exact not_nil_mem_entries_object fields x he
      obtain ⟨hsk, heq⟩ := splitKey_keyOf hne (h.keys_of_entry he)
      exact Or.inr ⟨(keyOf p, x), (hmem _ _).mpr ⟨hsk, heq.symm ▸ he⟩, by rw [heq]⟩
  have hshaped : Shaped (fun _ => True) T := by
    have hstor : ∀ e ∈ order, Storable e.2 := fun e he => h.storable ((hmem e.1 e.2).mp he).2
    rcases addValues_shaped hstor (Or.inl rfl) hT with ⟨hnil, -⟩ | hT
    · -- a document has an entry, so something was saved
      obtain ⟨e, he⟩ := h.exists_entry dump
      obtain ⟨p, x⟩ := e
      rcases (hentries _).mp ((hsame _).mpr he) with h0 | ⟨e', he', -⟩
      · cases h0
      · rw [hnil] at he'
        cases he'
    · exact hT
  rw [hT, hshaped.ext (h.mono fun _ _ => trivial) hsame]

end

/-- A document of nested objects comes back from a load and a save: every text it is parsed
    from, every manager it is loaded into, every order `values_` is iterated in. -/
theorem load_save_identity (codec : Codec) (text : String) (fields : List (String × Json)) (c : ConfigManager)
    (hparse : codec.parse text = .ok (.object fields)) (hdoc : Shaped Name (.object fields)) :
    ∃ c', ConfigManager.loadFromJsonString codec text c = (.ok (), c') ∧ ∀ order, order.Perm c'.values.toList →
      ∃ saved, toJsonString codec.dump4 order = .ok saved ∧ codec.parse saved = .ok (.object fields) := by
  refine ⟨_, load_of_parse codec hparse c, ?_⟩
  intro order ho
  have hclear : (setAll "" (entries codec.dump (.object fields)) c.clear).values =
      (setAll "" (entries codec.dump (.object fields)) {}).values := by
    rw [setAll_values, setAll_values]
    rfl
  rw [hclear] at ho
  refine ⟨codec.dump4 (.object fields), ?_, codec.parse_dump4 _ hdoc.held⟩
  unfold toJsonString serializeToJson
  rw [document_saved hdoc ho]
  rfl

def serverDocument : List (String × Json) :=
  [("app", .object [("debug", .boolean true), ("name", .string "docker-cpp")]),
   ("load", .float 4602678819172646912), ("port", .integer 8080)]

theorem serverDocument_shaped : Shaped Name (.object serverDocument) := by
  refine .object (by simp [serverDocument]) (by decide +kernel) (by decide +kernel) ?_
  intro f hf
  simp only [serverDocument, List.mem_cons, List.not_mem_nil, or_false] at hf
  rcases hf with rfl | rfl | rfl
  · refine .object (by simp) (by decide +kernel) (by decide +kernel) ?_
    intro f hf
    simp only [List.mem_cons, List.not_mem_nil, or_false] at hf
    rcases hf with rfl | rfl
    · exact .leaf trivial
    · exact .leaf trivial
  · exact .leaf (show isFinite _ = true by decide +kernel)
  · exact .leaf ⟨by decide, by decide⟩

/-- `dump(4)` of `serverDocument`. -/
def documentText : String :=
  "\n".intercalate ["\x7b", "    \"app\": \x7b", "        \"debug\": true,", "        \"name\": \"docker-cpp\"",
    "    \x7d,", "    \"load\": 0.5,", "    \"port\": 8080", "\x7d"]

theorem load_save_identity_server :
    let codec := writing (.object serverDocument) documentText
    ∃ c', ConfigManager.loadFromJsonString codec documentText {} = (.ok (), c') ∧
      ∀ order, order.Perm c'.values.toList → ∃ saved, toJsonString codec.dump4 order = .ok saved ∧
        codec.parse saved = .ok (.object serverDocument) :=
  load_save_identity _ documentText serverDocument {} (writing_parse serverDocument_shaped.held _) serverDocument_shaped

end DockerCpp.Config
