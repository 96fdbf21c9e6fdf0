/-
  DockerCpp.Config.Notifications — which changes of a configuration are reported.

  `set`, `remove` and `clear` are the only functions that write `values_`; `merge` and the
  JSON functions call them. So a run comes down to writes (`run_writes`), and a change is
  what a write does to the own value of a key. `set` and `remove` report what they change.
  `clear` reports nothing, and `loadFromJsonString` clears (`notifications_complete_iff`).

  The order in which `merge` sets the values of the other configuration is any order of
  them.
-/

import DockerCpp.Config.Fallback

namespace DockerCpp.Config

open Lib

/-- A key, the value before and the value after. -/
abbrev Change := String × ConfigValue × ConfigValue

/-! ## Writes -/

inductive Write where
  | set (key : String) (value : ConfigValue)
  | remove (key : String)
  | clear
  /-- The second loop of `merge`, which leaves the values alone. -/
  | emplaceLayers (layers : List (String × Values))

def Write.apply (c : ConfigManager) : Write → ConfigManager
  | .set key value => c.set key value
  | .remove key => c.remove key
  | .clear => c.clear
  | .emplaceLayers layers => { c with layers := layers.foldl (fun ls e => ls.insertIfNew e.1 e.2) c.layers }

inductive Op where
  | set (key : String) (value : ConfigValue)
  | remove (key : String)
  | clear
  | merge (other : ConfigManager) (order : List (String × ConfigValue)) (perm : order.Perm other.values.toList)
  | mergeFromJsonString (text : String)
  | loadFromJsonString (text : String)

/-- `merge`, with `other.values_` iterated as `order`. -/
def ConfigManager.mergeIn (order : List (String × ConfigValue)) (c other : ConfigManager) : ConfigManager :=
  let c' := order.foldl (fun c e => c.set e.1 e.2) c
  { c' with layers := other.layers.toList.foldl (fun ls e => ls.insertIfNew e.1 e.2) c'.layers }

theorem merge_eq_mergeIn (c other : ConfigManager) : c.merge other = c.mergeIn other.values.toList other := rfl

variable (b : Build)

/-- Where it throws, what was written stays. -/
def Op.apply (c : ConfigManager) : Op → ConfigManager
  | .set key value => c.set key value
  | .remove key => c.remove key
  | .clear => c.clear
  | .merge other order _ => c.mergeIn order other
  | .mergeFromJsonString text => (b.mergeFromJsonString text c).2
  | .loadFromJsonString text => (b.loadFromJsonString text c).2

def setWrites (es : List (String × ConfigValue)) : List Write := es.map fun e => .set e.1 e.2

def Op.writes : Op → List Write
  | .set key value => [.set key value]
  | .remove key => [.remove key]
  | .clear => [.clear]
  | .merge other order _ => setWrites order ++ [.emplaceLayers other.layers.toList]
  | .mergeFromJsonString text => setWrites (b.parse text).entries
  | .loadFromJsonString text => .clear :: setWrites (b.parse text).entries

theorem run_setWrites (c : ConfigManager) (es : List (String × ConfigValue)) :
    runFrom Write.apply c (setWrites es) = c.setEach es := by
  rw [runFrom, setWrites, List.foldl_map]
  rfl

theorem apply_writes (c : ConfigManager) (op : Op) : op.apply b c = runFrom Write.apply c (op.writes b) := by
  cases op with
  | set key value => rfl
  | remove key => rfl
  | clear => rfl
  | merge other order perm =>
    have hsets : List.foldl Write.apply c (setWrites order) = c.setEach order := run_setWrites c order
    rw [Op.writes, runFrom, List.foldl_append, hsets]
    rfl
  | mergeFromJsonString text =>
    rw [Op.apply, mergeFromJsonString_eq, Op.writes, run_setWrites]
  | loadFromJsonString text =>
    rw [Op.apply, loadFromJsonString_eq, Op.writes, runFrom, List.foldl_cons, ← runFrom, run_setWrites]
    rfl

theorem run_writes (c : ConfigManager) (ops : List Op) :
    runFrom (Op.apply b) c ops = runFrom Write.apply c (ops.flatMap (Op.writes b)) := by
  induction ops generalizing c with
  | nil => rfl
  | cons op ops ih =>
    rw [List.flatMap_cons, runFrom, List.foldl_cons, ← runFrom, ih, apply_writes]
    simp only [runFrom, List.foldl_append]

/-! ## Changes and reports -/

/-- The keys whose value is not what it was. -/
def changes (before after : Values) : List Change :=
  (before ∪ after).keys.filterMap fun k =>
    if before[k]? = after[k]? then none else some (k, before[k]?.getD .empty, after[k]?.getD .empty)

/-- The notifications from `c` to `c'`. -/
def news (c c' : ConfigManager) : List Change := c'.notified.drop c.notified.length

/-- What the write changes it reports, in order. -/
def Reported (c : ConfigManager) (w : Write) : Prop :=
  (changes c.values (w.apply c).values).Sublist (news c (w.apply c))

/-- The changes of all writes, one after the other. -/
def changesAlong : ConfigManager → List Write → List Change
  | _, [] => []
  | c, w :: ws => changes c.values (w.apply c).values ++ changesAlong (w.apply c) ws

/-- Notifications are enabled, and a callback is installed. -/
def Recording (c : ConfigManager) : Prop := c.changeCallback = true ∧ c.changeNotificationsEnabled = true

/-- If the write clears, there are no values to clear. -/
def FindsNothing (c : ConfigManager) : Write → Prop
  | .clear => c.values = ∅
  | _ => True

/-- The same, of a call. -/
def ClearsNothing (c : ConfigManager) : Op → Prop
  | .clear => c.values = ∅
  | .loadFromJsonString _ => c.values = ∅
  | _ => True

variable {before after : Values} {c : ConfigManager}

theorem mem_changes {ch : Change} : ch ∈ changes before after ↔ before[ch.1]? ≠ after[ch.1]? ∧
      ch = (ch.1, before[ch.1]?.getD .empty, after[ch.1]?.getD .empty) := by
  constructor
  · intro h
    obtain ⟨k, -, hk⟩ := List.mem_filterMap.mp h
    split at hk
    · cases hk
    · rename_i hne
      rw [← Option.some.inj hk]
      exact ⟨hne, rfl⟩
  · rintro ⟨hne, heq⟩
    have hmem : ch.1 ∈ (before ∪ after).keys := by
      rw [Std.ExtTreeMap.mem_keys, Std.ExtTreeMap.mem_union_iff, Std.ExtTreeMap.mem_iff_isSome_getElem?,
        Std.ExtTreeMap.mem_iff_isSome_getElem?]
      cases hb : before[ch.1]? with
      | some v => exact Or.inl rfl
      | none =>
        cases ha : after[ch.1]? with
        | some v => exact Or.inr rfl
        | none => exact absurd (hb.trans ha.symm) hne
    exact List.mem_filterMap.mpr ⟨ch.1, hmem, by rw [if_neg hne, ← heq]⟩

theorem changes_self (values : Values) : changes values values = [] := by
  rw [List.eq_nil_iff_forall_not_mem]
  intro ch h
  exact (mem_changes.mp h).1 rfl

/-- A key changes at most once. -/
theorem changes_nodup (before after : Values) : (changes before after).Nodup := by
  rw [List.Nodup, changes, List.pairwise_filterMap]
  refine List.Pairwise.imp ?_ Std.ExtTreeMap.nodup_keys
  rintro k k' hne ch hch ch' hch' rfl
  split at hch
  · cases hch
  · split at hch'
    · cases hch'
    · rw [← Option.some.inj hch'] at hch
      exact hne (Prod.mk.inj (Option.some.inj hch)).1

/-- Where only `k` has changed, that is the only change. -/
theorem changes_sublist {k : String} (h : ∀ k', k' ≠ k → before[k']? = after[k']?) :
    (changes before after).Sublist [(k, before[k]?.getD .empty, after[k]?.getD .empty)] := by
  have hall : ∀ ch ∈ changes before after, ch = (k, before[k]?.getD .empty, after[k]?.getD .empty) := by
    intro ch hch
    obtain ⟨hne, heq⟩ := mem_changes.mp hch
    by_cases hk : ch.1 = k
    · rwa [hk] at heq
    · exact absurd (h ch.1 hk) hne
  have hnodup := changes_nodup before after
  revert hall hnodup
  cases changes before after with
  | nil => exact fun _ _ => List.nil_sublist _
  | cons ch rest =>
    intro hall hnodup
    cases rest with
    | nil => rw [hall ch List.mem_cons_self]
    | cons ch' rest =>
      have hsame := (hall ch List.mem_cons_self).trans (hall ch' (by simp)).symm
      exact absurd (hsame ▸ List.mem_cons_self) (List.nodup_cons.mp hnodup).1

theorem changes_empty_iff (values : Values) : changes values ∅ = [] ↔ values = ∅ := by
  constructor
  · intro h
    refine Std.ExtTreeMap.ext_getElem? fun k => ?_
    by_contra hne
    have hmem : (k, values[k]?.getD .empty, ConfigValue.empty) ∈ changes values ∅ :=
      mem_changes.mpr ⟨hne, by simp⟩
    rw [h] at hmem
    cases hmem
  · rintro rfl
    exact changes_self ∅

/-! ## One write -/

theorem notifyChange_recording (h : Recording c) (key : String) (old new : ConfigValue) :
    c.notifyChange key old new = { c with notified := c.notified ++ [(key, old, new)] } := by
  rw [ConfigManager.notifyChange, h.1, h.2]
  rfl

theorem set_recording (h : Recording c) (key : String) (value : ConfigValue) : c.set key value = { c with
      values := c.values.insert key value,
      notified := c.notified ++ [(key, c.values[key]?.getD .empty, value)] } :=
  notifyChange_recording (c := { c with values := c.values.insert key value }) h key _ _

theorem remove_recording (h : Recording c) {key : String} {old : ConfigValue} (hold : c.values[key]? = some old) :
    c.remove key = { c with values := c.values.erase key, notified := c.notified ++ [(key, old, .empty)] } := by
  rw [ConfigManager.remove, hold]
  exact notifyChange_recording (c := { c with values := c.values.erase key }) h key _ _

theorem apply_recording (h : Recording c) (w : Write) : Recording (w.apply c) := by
  cases w with
  | set key value =>
    rw [Write.apply, set_recording h]
    exact h
  | remove key =>
    cases hold : c.values[key]? with
    | some old =>
      rw [Write.apply, remove_recording h hold]
      exact h
    | none =>
      rw [Write.apply, ConfigManager.remove, hold]
      exact h
  | clear => exact h
  | emplaceLayers layers => exact h

/-- Notifications are only added. -/
theorem notified_apply (h : Recording c) (w : Write) : (w.apply c).notified = c.notified ++ news c (w.apply c) := by
  have hprefix : c.notified <+: (w.apply c).notified := by
    cases w with
    | set key value =>
      rw [Write.apply, set_recording h]
      exact List.prefix_append _ _
    | remove key =>
      cases hold : c.values[key]? with
      | some old =>
        rw [Write.apply, remove_recording h hold]
        exact List.prefix_append _ _
      | none =>
        rw [Write.apply, ConfigManager.remove, hold]
    | clear => exact List.prefix_rfl
    | emplaceLayers layers => exact List.prefix_rfl
  obtain ⟨new, hnew⟩ := hprefix
  rw [news, ← hnew, List.drop_left]

theorem reported_set (h : Recording c) (key : String) (value : ConfigValue) : Reported c (.set key value) := by
  have hchange : (changes c.values (c.values.insert key value)).Sublist
      [(key, c.values[key]?.getD .empty, (c.values.insert key value)[key]?.getD .empty)] :=
    changes_sublist fun k' hk' => by
      rw [Std.ExtTreeMap.getElem?_insert, if_neg (by simpa using Ne.symm hk')]
  rw [Std.ExtTreeMap.getElem?_insert_self] at hchange
  simpa only [Reported, Write.apply, set_recording h, news, List.drop_left, Option.getD_some] using hchange

theorem reported_remove (h : Recording c) (key : String) : Reported c (.remove key) := by
  cases hold : c.values[key]? with
  | some old =>
    have hchange : (changes c.values (c.values.erase key)).Sublist
        [(key, c.values[key]?.getD .empty, (c.values.erase key)[key]?.getD .empty)] :=
      changes_sublist fun k' hk' => by
        rw [Std.ExtTreeMap.getElem?_erase, if_neg (by simpa using Ne.symm hk')]
    rw [Std.ExtTreeMap.getElem?_erase_self, hold] at hchange
    simpa only [Reported, Write.apply, remove_recording h hold, news, List.drop_left, Option.getD_some,
      Option.getD_none] using hchange
  | none =>
    have hstay : c.remove key = c := by rw [ConfigManager.remove, hold]
    rw [Reported, Write.apply, hstay, changes_self]
    exact List.nil_sublist _

theorem reported_clear_iff (c : ConfigManager) : Reported c .clear ↔ c.values = ∅ := by
  have hnone : news c c.clear = [] := List.drop_length
  rw [Reported, Write.apply, hnone, List.sublist_nil]
  exact changes_empty_iff c.values

/-- Every write reports what it changes, but for a clear. -/
theorem reported_iff (h : Recording c) (w : Write) : Reported c w ↔ FindsNothing c w := by
  cases w with
  | set key value => exact iff_of_true (reported_set h key value) trivial
  | remove key => exact iff_of_true (reported_remove h key) trivial
  | clear => exact reported_clear_iff c
  | emplaceLayers layers =>
    refine iff_of_true ?_ trivial
    rw [Reported, Write.apply, changes_self]
    exact List.nil_sublist _

/-! ## Runs -/

theorem setWrites_findNothing (c : ConfigManager) (es : List (String × ConfigValue)) :
    EachStep Write.apply FindsNothing c (setWrites es) := by
  induction es generalizing c with
  | nil => trivial
  | cons e es ih => exact ⟨trivial, ih _⟩

theorem writes_findNothing_iff (c : ConfigManager) (op : Op) :
    EachStep Write.apply FindsNothing c (op.writes b) ↔ ClearsNothing c op := by
  cases op with
  | set key value => exact iff_of_true ⟨trivial, trivial⟩ trivial
  | remove key => exact iff_of_true ⟨trivial, trivial⟩ trivial
  | clear => exact and_iff_left trivial
  | merge other order perm =>
    exact iff_of_true (eachStep_append.mpr ⟨setWrites_findNothing c order, trivial, trivial⟩) trivial
  | mergeFromJsonString text => exact iff_of_true (setWrites_findNothing c _) trivial
  | loadFromJsonString text => exact and_iff_left (setWrites_findNothing _ _)

theorem run_findNothing_iff (c : ConfigManager) (ops : List Op) :
    EachStep Write.apply FindsNothing c (ops.flatMap (Op.writes b)) ↔ EachStep (Op.apply b) ClearsNothing c ops := by
  induction ops generalizing c with
  | nil => exact Iff.rfl
  | cons op ops ih =>
    rw [List.flatMap_cons, eachStep_append, writes_findNothing_iff, ← apply_writes, ih]
    exact Iff.rfl

/-- Where every write reports what it changes, the changes of the run are among the
    notifications, in order. -/
theorem changesAlong_sublist (h : Recording c) {ws : List Write} (hw : EachStep Write.apply Reported c ws) :
    ∃ new, (runFrom Write.apply c ws).notified = c.notified ++ new ∧ (changesAlong c ws).Sublist new := by
  induction ws generalizing c with
  | nil => exact ⟨[], (List.append_nil _).symm, List.nil_sublist _⟩
  | cons w ws ih =>
    obtain ⟨new, hnew, hsub⟩ := ih (apply_recording h w) hw.2
    refine ⟨news c (w.apply c) ++ new, ?_, hw.1.append hsub⟩
    rw [← List.append_assoc, ← notified_apply h w]
    exact hnew

/-- An empty configuration whose changes are recorded. -/
def recorder : ConfigManager := { changeCallback := true, changeNotificationsEnabled := true }

/-- In both builds, for every sequence of calls: every write reports what it changes iff
    no call of `clear` or `loadFromJsonString` finds values to clear; and then the changes
    of the whole run are notified in order. -/
theorem notifications_complete_iff (ops : List Op) :
    (EachStep Write.apply Reported recorder (ops.flatMap (Op.writes b)) ↔
      EachStep (Op.apply b) ClearsNothing recorder ops) ∧
    (EachStep (Op.apply b) ClearsNothing recorder ops →
      (changesAlong recorder (ops.flatMap (Op.writes b))).Sublist (runFrom (Op.apply b) recorder ops).notified) := by
  have hrec : Recording recorder := ⟨rfl, rfl⟩
  have hiff : EachStep Write.apply Reported recorder (ops.flatMap (Op.writes b)) ↔
      EachStep (Op.apply b) ClearsNothing recorder ops := by
    rw [← run_findNothing_iff]
    exact eachStep_congr (I := Recording) (fun _ w h _ => apply_recording h w) (fun _ w h => reported_iff h w) hrec _
  refine ⟨hiff, fun h => ?_⟩
  obtain ⟨new, hnew, hsub⟩ := changesAlong_sublist hrec (hiff.mpr h)
  rw [run_writes, hnew]
  exact hsub

/-- `k` is set and cleared; the last notification says that it has a value. -/
theorem a_cleared_key_is_not_reported :
    let c := runFrom (Op.apply .fallback) recorder [.set "k" (.integer 1), .clear]
    c.values.toList = [] ∧ c.notified = [("k", .empty, .integer 1)] ∧
    changesAlong recorder [.set "k" (.integer 1), .clear] =
      [("k", .empty, .integer 1), ("k", .integer 1, .empty)] := by
  decide +kernel

end DockerCpp.Config
