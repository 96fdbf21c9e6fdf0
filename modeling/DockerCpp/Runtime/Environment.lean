/-
  DockerCpp.Runtime.Environment — the laws of `getEnvironment` and `setEnvironment`.

  An entry belongs to a key if it begins with the key and `=`. A key without `=` ends at the
  first `=` of its entries, so an entry belongs to at most one such key, whatever its value
  is and whether or not one key is the beginning of another. Entries without `=` belong to
  none. `setEnvironment` takes the entries of the key away and adds one that is well formed
  (`environment_laws`).
-/

import DockerCpp.Lib.Text
import DockerCpp.Runtime.ContainerConfig

namespace DockerCpp.Runtime.ContainerConfig

/-! ## Entries -/

theorem isEntryOf_iff (key var : String) : isEntryOf key var = true ↔ (key ++ "=").toList <+: var.toList := by
  rw [isEntryOf, beq_iff_eq, List.prefix_iff_eq_take, eq_comm]

theorem isEntryOf_entry (key value : String) : isEntryOf key (key ++ "=" ++ value) = true := by
  rw [isEntryOf_iff, String.toList_append (s := key ++ "=")]
  exact List.prefix_append _ _

/-- A key ends at the first `=`. -/
theorem key_unique {j k var : String} (hj : '=' ∉ j.toList) (hk : '=' ∉ k.toList) (h : isEntryOf j var = true)
    (h' : isEntryOf k var = true) : j = k := by
  obtain ⟨value, hvalue⟩ := (isEntryOf_iff j var).mp h
  obtain ⟨value', hvalue'⟩ := (isEntryOf_iff k var).mp h'
  rw [← hvalue', String.toList_append, String.toList_append, List.append_assoc, List.append_assoc] at hvalue
  exact String.toList_inj.mp (Lib.append_cons_inj hj hk hvalue).1

theorem isEntryOf_other {j k var : String} (hj : '=' ∉ j.toList) (hk : '=' ∉ k.toList) (hne : j ≠ k)
    (h : isEntryOf k var = true) : isEntryOf j var = false := by
  rw [← Bool.not_eq_true]
  intro h'
  exact hne (key_unique hj hk h' h)

/-! ## Reading and writing -/

variable (config : ContainerConfig)

theorem find?_others (k : String) : (config.env.filter (!isEntryOf k ·)).find? (isEntryOf k) = none := by
  rw [List.find?_filter, List.find?_eq_none]
  simp

theorem getEnvironment_set_self (k v : String) : (config.setEnvironment k v).getEnvironment k = v := by
  have hfind : (config.setEnvironment k v).env.find? (isEntryOf k) = some (k ++ "=" ++ v) := by
    rw [setEnvironment, List.find?_append, find?_others, Option.none_or]
    simp [isEntryOf_entry]
  rw [getEnvironment, hfind]
  simp

theorem getEnvironment_set_of_ne {j k : String} (hj : '=' ∉ j.toList) (hk : '=' ∉ k.toList) (hne : j ≠ k) (v : String) :
    (config.setEnvironment k v).getEnvironment j = config.getEnvironment j := by
  have hkept : (config.env.filter (!isEntryOf k ·)).find? (isEntryOf j) = config.env.find? (isEntryOf j) := by
    rw [List.find?_filter]
    congr 1
    funext var
    cases hvar : isEntryOf j var with
    | false => simp
    | true => simp [isEntryOf_other hk hj hne.symm hvar]
  have hfind : (config.setEnvironment k v).env.find? (isEntryOf j) = config.env.find? (isEntryOf j) := by
    rw [setEnvironment, List.find?_append, hkept]
    simp [isEntryOf_other hj hk hne (isEntryOf_entry k v)]
  rw [getEnvironment, hfind, getEnvironment]

theorem countP_set (k v : String) : (config.setEnvironment k v).env.countP (isEntryOf k) = 1 := by
  have hothers : (config.env.filter (!isEntryOf k ·)).countP (isEntryOf k) = 0 := by
    rw [List.countP_eq_zero]
    intro var hvar
    simpa using (List.mem_filter.mp hvar).2
  rw [setEnvironment, List.countP_append, hothers]
  simp [isEntryOf_entry]

theorem setEnvironment_set (k v w : String) :
    (config.setEnvironment k v).setEnvironment k w = config.setEnvironment k w := by
  simp [setEnvironment, isEntryOf_entry]

/-! ## The checks -/

/-- A text that `validate` has for an entry. -/
def EnvComplaint (text : String) : Prop := ∃ var, text ∈ envError var

theorem envError_entry (k v : String) : envError (k ++ "=" ++ v) = [] := by
  simp [envError]

/-- Every text was there before. -/
theorem validate_set_subset (k v : String) : (config.setEnvironment k v).validate ⊆ config.validate := by
  have henv : ∀ text, text ∈ (config.setEnvironment k v).env.flatMap envError → text ∈ config.env.flatMap envError := by
    intro text h
    obtain ⟨var, hvar, htext⟩ := List.mem_flatMap.mp h
    rcases List.mem_append.mp hvar with hold | hnew
    · exact List.mem_flatMap.mpr ⟨var, List.mem_of_mem_filter hold, htext⟩
    · rw [List.mem_singleton.mp hnew, envError_entry] at htext
      cases htext
  intro text h
  simp only [validate, List.mem_append] at h ⊢
  exact h.imp_left (Or.imp_left (Or.imp_left (Or.imp_right (henv text))))

theorem environment_laws {j k : String} (hj : '=' ∉ j.toList) (hk : '=' ∉ k.toList) (v w : String) :
    (config.setEnvironment k v).getEnvironment k = v ∧
    (config.setEnvironment k v).env.countP (fun var => (k ++ "=").toList.isPrefixOf var.toList) = 1 ∧
    (j ≠ k → (config.setEnvironment k v).getEnvironment j = config.getEnvironment j) ∧
    ((config.setEnvironment k v).setEnvironment k w).env = (config.setEnvironment k w).env ∧
    ((∀ text ∈ config.validate, ¬EnvComplaint text) →
      ∀ text ∈ (config.setEnvironment k v).validate, ¬EnvComplaint text) := by
  have htest : (fun var : String => (k ++ "=").toList.isPrefixOf var.toList) = isEntryOf k := by
    funext var
    rw [Bool.eq_iff_iff, List.isPrefixOf_iff_prefix, isEntryOf_iff]
  refine ⟨getEnvironment_set_self config k v, htest ▸ countP_set config k v,
    fun hne => getEnvironment_set_of_ne config hj hk hne v, by rw [setEnvironment_set], ?_⟩
  intro hnone text htext
  exact hnone text (validate_set_subset config k v htext)

/-- `A` has two entries, is the beginning of `AB`, and gets a value with `=`. -/
theorem environment_laws_of_duplicates :
    let config : ContainerConfig := { env := ["A=1", "AB=2", "A=3", "X"] }
    (config.setEnvironment "A" "x=y").env = ["AB=2", "X", "A=x=y"] ∧
    (config.setEnvironment "A" "x=y").getEnvironment "A" = "x=y" ∧
    (config.setEnvironment "A" "x=y").getEnvironment "AB" = "2" := by
  intro config
  obtain ⟨hset, _, hother, _⟩ := environment_laws config (j := "AB") (k := "A") (by decide) (by decide) "x=y" ""
  exact ⟨by decide, hset, (hother (by decide)).trans (by decide)⟩

end DockerCpp.Runtime.ContainerConfig
