/-
  DockerCpp.Runtime.RegistryNames — whether every registered container has a configuration
  that `validate` accepts, with mutexes abstracted.

  `createContainer` validates the caller's configuration and then replaces its id and name.
  A name that was free stays; one that was taken gets a dash, six characters and perhaps a
  counter. Every character that is added may stand in a name (`drawName_shape`), so the
  registered name is accepted exactly when it still has at most 63 bytes
  (`finalConfig_valid_iff`), that is when the requested name is free, or a name of that length
  is free among those the loop tries (`finalName_fits_iff`).

  `valid_throughout_iff_fits`: in a run from the empty registry every registered
  configuration is valid exactly when this was so at each creation and no client gave a
  registered container an invalid configuration.
  `a_replaced_name_is_too_long` creates two containers of one name of 57 bytes.
-/

import DockerCpp.Runtime.RegistryIndex

namespace DockerCpp.Runtime

/-! ## Accepted names -/

/-- A character that may stand in a name. -/
def NameChar (c : Char) : Prop := (c.isAlphanum || c == '_' || c == '.' || c == '-') = true

theorem isValidContainerName_iff (name : String) : isValidContainerName name = true ↔
    name.utf8ByteSize ≤ 63 ∧ ∃ c rest, name.toList = c :: rest ∧ c.isAlphanum = true ∧ ∀ d ∈ rest, NameChar d := by
  unfold isValidContainerName
  split
  · rename_i h
    simp only [Bool.false_eq_true, false_iff]
    intro hpost
    obtain ⟨hsize, c, rest, hl, -⟩ := hpost
    rcases h with rfl | h
    · cases hl
    · omega
  · rename_i h
    have hsize : name.utf8ByteSize ≤ 63 := by
      have := not_or.mp h
      omega
    cases hl : name.toList with
    | nil => simp
    | cons c rest => simp [hsize, NameChar]

/-- Appending what may stand in a name costs only length. -/
theorem isValidContainerName_append {name suffix : String} (h : isValidContainerName name = true)
    (hs : ∀ d ∈ suffix.toList, NameChar d) :
    isValidContainerName (name ++ suffix) = true ↔ (name ++ suffix).utf8ByteSize ≤ 63 := by
  obtain ⟨-, c, rest, hl, hc, hrest⟩ := (isValidContainerName_iff name).mp h
  rw [isValidContainerName_iff]
  refine ⟨fun hpost => hpost.1, fun hsize => ⟨hsize, c, rest ++ suffix.toList, ?_, hc, ?_⟩⟩
  · rw [String.toList_append, hl, List.cons_append]
  · intro d hd
    rcases List.mem_append.mp hd with hd | hd
    · exact hrest d hd
    · exact hs d hd

namespace ContainerConfig

theorem nameErrors_eq_nil_iff (config : ContainerConfig) :
    config.nameErrors = [] ↔ isValidContainerName config.name = true := by
  unfold nameErrors
  split
  · rename_i h
    simp [h, isValidContainerName]
  · split
    · rename_i hv
      simp [hv]
    · rename_i hv
      simp [hv]

variable {config : ContainerConfig}

/-- A valid configuration under another id and name. -/
theorem validate_rename (h : config.validate = []) (id name : String) :
    { config with id := id, name := name }.validate = [] ↔ isValidContainerName name = true := by
  rw [← nameErrors_eq_nil_iff { config with id := id, name := name }]
  simp only [validate, List.append_eq_nil_iff] at h ⊢
  obtain ⟨⟨⟨⟨⟨⟨himage, -⟩, hdir⟩, henv⟩, hres⟩, huser⟩, hport⟩ := h
  simp only [himage, hdir, henv, hres, huser, hport, true_and, and_true]

theorem validName_of_validate (h : config.validate = []) :
    isValidContainerName config.name = true := (validate_rename h config.id config.name).mp h

end ContainerConfig

namespace Registry

open Lib Lib.Prog

variable {σ : Type} (os : Os σ)

/-! ## The name that is registered -/

theorem nameChars_allowed (n : Nat) (o : σ) : ∀ d ∈ (nameChars os n o).1, NameChar d := by
  have hchar : ∀ i : Fin 36, NameChar (nameChar i) := by
    unfold NameChar
    decide
  induction n generalizing o with
  | zero => simp [nameChars]
  | succ n ih =>
    intro d hd
    rw [nameChars, List.mem_cons] at hd
    rcases hd with rfl | hd
    · exact hchar _
    · exact ih _ d hd

theorem nameChars_length (n : Nat) (o : σ) : (nameChars os n o).1.length = n := by
  induction n generalizing o with
  | zero => rfl
  | succ n ih => rw [nameChars, List.length_cons, ih]

theorem counter_allowed (n : Nat) : ∀ d ∈ ("-" ++ toString n).toList, NameChar d := by
  intro d hd
  rw [String.toList_append, List.mem_append] at hd
  rcases hd with hd | hd
  · obtain rfl : d = '-' := List.mem_singleton.mp hd
    unfold NameChar
    decide
  · rw [show toString n = n.repr from rfl, Nat.toList_repr] at hd
    simp [NameChar, Char.isAlphanum, Nat.isDigit_of_mem_toDigits (by decide) (by decide) hd]

/-- Every character takes a byte at least. -/
theorem length_le_utf8ByteSize (l : List Char) : l.length ≤ (String.ofList l).utf8ByteSize := by
  induction l with
  | nil => exact Nat.zero_le _
  | cons c l ih =>
    have hpos := c.utf8Size_pos
    rw [String.ofList_cons, String.utf8ByteSize_append, String.utf8ByteSize_singleton, List.length_cons]
    omega

/-- A digit takes one. -/
theorem utf8ByteSize_digits {l : List Char} (h : ∀ c ∈ l, c.isDigit = true) :
    (String.ofList l).utf8ByteSize = l.length := by
  induction l with
  | nil => rfl
  | cons c l ih =>
    have hdigit := h c List.mem_cons_self
    have hsize : c.utf8Size = 1 := by
      simp only [Char.isDigit, Bool.and_eq_true, decide_eq_true_eq] at hdigit
      exact if_pos (UInt32.le_trans hdigit.2 (by decide))
    rw [String.ofList_cons, String.utf8ByteSize_append, String.utf8ByteSize_singleton, hsize,
      ih fun d hd => h d (List.mem_cons_of_mem c hd), List.length_cons, Nat.add_comm]

theorem utf8ByteSize_toString (n : Nat) : (toString n).utf8ByteSize = (Nat.toDigits 10 n).length := by
  rw [Nat.toString_eq_ofList_toDigits]
  exact utf8ByteSize_digits fun c hc => Nat.isDigit_of_mem_toDigits (by decide) (by decide) hc

theorem utf8ByteSize_toString_mono {n n' : Nat} (h : n ≤ n') :
    (toString n).utf8ByteSize ≤ (toString n').utf8ByteSize := by
  rw [utf8ByteSize_toString, utf8ByteSize_toString]
  have hpos : 0 < (Nat.toDigits 10 n').length := Nat.length_toDigits_pos
  have hn' := (Nat.length_toDigits_le_iff (by decide) hpos).mp (Nat.le_refl (Nat.toDigits 10 n').length)
  exact (Nat.length_toDigits_le_iff (by decide) hpos).mpr (Nat.lt_of_le_of_lt h hn')

/-- A later candidate is no shorter. -/
theorem candidate_size_mono (name : String) {i j : Nat} (h : i ≤ j) :
    (candidate name 1 name i).utf8ByteSize ≤ (candidate name 1 name j).utf8ByteSize := by
  cases i with
  | zero =>
    cases j with
    | zero => exact Nat.le_refl _
    | succ j =>
      simp only [candidate, String.utf8ByteSize_append]
      omega
  | succ i =>
    cases j with
    | zero => exact absurd h (Nat.not_succ_le_zero i)
    | succ j =>
      have hcounter := @utf8ByteSize_toString_mono (1 + i) (1 + j) (by omega)
      simp only [candidate, String.utf8ByteSize_append]
      omega

theorem uniqueName_shape (names : Std.TreeMap String String) (base : String) (o : σ) :
    ∃ suffix : String, (uniqueName os names base o).1 = base ++ suffix ∧ ∀ d ∈ suffix.toList, NameChar d := by
  have hchars : ∀ d ∈ (String.ofList (nameChars os 6 o).1).toList, NameChar d := by
    rw [String.toList_ofList]
    exact nameChars_allowed os 6 o
  obtain ⟨i, _, _, heq⟩ := uniqueName_first os names base o
  cases i with
  | zero => exact ⟨_, heq, hchars⟩
  | succ i =>
    refine ⟨String.ofList (nameChars os 6 o).1 ++ ("-" ++ toString (1 + i)), ?_, ?_⟩
    · rw [heq, candidate, String.append_assoc, String.append_assoc]
    · intro d hd
      rw [String.toList_append, List.mem_append] at hd
      rcases hd with hd | hd
      · exact hchars d hd
      · exact counter_allowed (1 + i) d hd

variable {config : ContainerConfig} {s : Registry σ}

/-- What is added to a name may stand in it. -/
theorem drawName_shape (names : Std.TreeMap String String) (hne : config.name ≠ "") (o : σ) :
    ∃ suffix : String, (drawName os names config o).1 = config.name ++ suffix ∧ ∀ d ∈ suffix.toList, NameChar d := by
  rw [drawName, if_neg hne]
  split
  · obtain ⟨suffix, e, hs⟩ := uniqueName_shape os names (config.name ++ "-") o
    refine ⟨"-" ++ suffix, by rw [e, String.append_assoc], fun d hd => ?_⟩
    rw [String.toList_append, List.mem_append] at hd
    rcases hd with hd | hd
    · obtain rfl : d = '-' := List.mem_singleton.mp hd
      unfold NameChar
      decide
    · exact hs d hd
  · exact ⟨"", by simp, by simp⟩

theorem name_ne_empty (h : config.validate = []) : config.name ≠ "" := by
  intro e
  have hv := ContainerConfig.validName_of_validate h
  rw [e] at hv
  cases hv

/-- Of all the checks only the length of the name can fail. -/
theorem finalConfig_valid_iff (h : config.validate = []) (s : Registry σ) :
    (finalConfig os config s).validate = [] ↔ (finalConfig os config s).name.utf8ByteSize ≤ 63 := by
  obtain ⟨suffix, e, hs⟩ := drawName_shape os s.nameToId (name_ne_empty h) (drawId os config s.os).2
  rw [finalConfig, ContainerConfig.validate_rename h]
  dsimp only
  rw [e]
  exact isValidContainerName_append (ContainerConfig.validName_of_validate h) hs

/-- The requested name, a dash and the six characters drawn for it. The characters of the id,
    if it has to be drawn, come first. -/
def drawnName (config : ContainerConfig) (s : Registry σ) : String :=
  config.name ++ "-" ++ String.ofList (nameChars os 6 (drawId os config s.os).2).1

/-- The registered name is at most 63 bytes iff the requested one is free, or there is a free name
    of at most 63 bytes among the drawn one and that with a counter behind it. -/
theorem finalName_fits_iff (h : config.validate = []) (s : Registry σ) :
    (finalConfig os config s).name.utf8ByteSize ≤ 63 ↔ (s.nameToId.contains config.name = true →
      ∃ i, (candidate (drawnName os config s) 1 (drawnName os config s) i).utf8ByteSize ≤ 63 ∧
        s.nameToId.contains (candidate (drawnName os config s) 1 (drawnName os config s) i) = false) := by
  show (drawName os s.nameToId config (drawId os config s.os).2).1.utf8ByteSize ≤ 63 ↔ _
  rw [drawName, if_neg (name_ne_empty h)]
  cases htaken : s.nameToId.contains config.name with
  | false =>
    have hvalid := (isValidContainerName_iff config.name).mp (ContainerConfig.validName_of_validate h)
    simp [hvalid.1]
  | true =>
    obtain ⟨i, -, hfirst, hname⟩ := uniqueName_first os s.nameToId (config.name ++ "-") (drawId os config s.os).2
    simp only [if_true, hname, forall_const]
    constructor
    · exact fun hsize => ⟨i, hsize, hfirst.free⟩
    · rintro ⟨j, hsize, hfree⟩
      -- the loop stops at the first free candidate, and no later one is shorter
      have hij : i ≤ j := by
        by_contra hlt
        exact Bool.false_ne_true (hfree.symm.trans (hfirst.before j (by omega)))
      exact Nat.le_trans (candidate_size_mono _ hij) hsize

/-! ## Runs -/

def AllValid (s : Registry σ) : Prop :=
  ∀ (id : String) (ref : Ref), s.containers[id]? = some ref → (s.heap ref).config.validate = []

/-- The calls after which every registered configuration is as valid as before. -/
def Call.Fits (s : Registry σ) : Call → Prop
  | .createContainer config => Admitted os config s → s.nameToId.contains config.name = true →
      ∃ i, (candidate (drawnName os config s) 1 (drawnName os config s) i).utf8ByteSize ≤ 63 ∧
        s.nameToId.contains (candidate (drawnName os config s) 1 (drawnName os config s) i) = false
  | .updateConfig ref config => (∃ id : String, s.containers[id]? = some ref) → config.validate = []
  | _ => True

/-- A name of 57 bytes or more that is taken never fits, whatever is drawn. -/
theorem not_fits_of_long (hadmitted : Admitted os config s)
    (htaken : s.nameToId.contains config.name = true) (hlong : 57 ≤ config.name.utf8ByteSize) :
    ¬Call.Fits os s (.createContainer config) := by
  intro hfits
  obtain ⟨i, hsize, -⟩ := hfits hadmitted htaken
  have hdrawn : 64 ≤ (drawnName os config s).utf8ByteSize := by
    have hchars := length_le_utf8ByteSize (nameChars os 6 (drawId os config s.os).2).1
    rw [nameChars_length] at hchars
    rw [drawnName, String.utf8ByteSize_append, String.utf8ByteSize_append, show "-".utf8ByteSize = 1 from rfl]
    omega
  have hleast : (drawnName os config s).utf8ByteSize ≤ _ := candidate_size_mono (drawnName os config s) (Nat.zero_le i)
  omega

theorem Forgets.allValid {s s' : Registry σ} (h : Forgets s s') (hv : AllValid s) : AllValid s' := by
  intro id ref hc
  rw [h.config ref]
  exact hv id ref (h.registered id ref hc)

theorem created_allValid_iff (h : Sound s) (hadmitted : Admitted os config s) (hv : AllValid s) :
    AllValid (created os config s) ↔ (finalConfig os config s).name.utf8ByteSize ≤ 63 := by
  have hnew := created_enters os hadmitted
  rw [← finalConfig_valid_iff os hadmitted.1 s, ← newContainer_config, ← created_heap_new]
  constructor
  · intro hall
    exact hall _ s.next ((hnew.containers _).trans (if_pos rfl))
  · intro hone id ref hc
    rw [hnew.containers] at hc
    split at hc
    · cases hc
      exact hone
    · rw [hnew.others ref (Nat.ne_of_lt (h.allocated id ref hc))]
      exact hv id ref hc

theorem createContainer_allValid (config : ContainerConfig) (h : Sound s) (hv : AllValid s) :
    Ends (createContainer os .abstracted config) s fun _ s' =>
      AllValid s' ↔ Call.Fits os s (.createContainer config) := by
  refine Ends.mono (createContainer_ends os .abstracted config s) ?_
  intro r s' hends
  rcases hends with ⟨-, hk, -⟩ | ⟨hadmitted, -, rfl⟩ | ⟨hrefused, -, o, rfl⟩
  · exact absurd rfl hk
  · rw [created_allValid_iff os h hadmitted hv, finalName_fits_iff os hadmitted.1]
    exact ⟨fun hsize _ => hsize, fun hfits => hfits hadmitted⟩
  · exact ⟨fun _ hadmitted => absurd hadmitted hrefused, fun _ => hv⟩

theorem updateConfig_allValid (ref : Ref) (config : ContainerConfig) (h : Sound s) (hv : AllValid s) :
    Ends (held ref (Container.updateConfig .abstracted config)) s fun _ s' =>
      AllValid s' ↔ Call.Fits os s (.updateConfig ref config) := by
  refine Ends.mono (held_updateConfig ref config s) ?_
  intro _ s' hs'
  subst hs'
  split
  · constructor
    · intro hall hpost
      obtain ⟨id, hc⟩ := hpost
      simpa using hall id ref hc
    · intro hfits id ref' hc
      show (Function.update s.heap ref _ ref').config.validate = []
      by_cases e : ref' = ref
      · subst e
        rw [Function.update_self]
        exact hfits ⟨id, hc⟩
      · rw [Function.update_of_ne e]
        exact hv id ref' hc
  · rename_i hr
    refine ⟨?_, fun _ => hv⟩
    intro _ hpost
    obtain ⟨id, hc⟩ := hpost
    exact absurd (h.allocated id ref hc) hr

theorem call_allValid (c : Call) (h : Sound s) (hv : AllValid s) :
    Ends (c.run os .abstracted) s fun _ s' => AllValid s' ↔ c.Fits os s := by
  cases c with
  | createContainer config => exact done_ends (createContainer_allValid os config h hv)
  | updateConfig ref config => exact updateConfig_allValid os ref config h hv
  | cleanupRemovedContainers =>
    simp only [Call.run, cleanupRemovedContainers, lockGuard_abstracted, ends_modify]
    refine ⟨fun _ => trivial, fun _ id ref hc => ?_⟩
    simp only [getElem?_foldl_erase] at hc
    split at hc
    · cases hc
    · exact hv id ref hc
  | _ =>
    refine Ends.mono (call_forgets os _ rfl h) ?_
    intro _ s' hforgets
    exact ⟨fun _ => trivial, fun _ => hforgets.allValid hv⟩

/-- In a run from the empty registry every registered configuration is valid throughout, exactly
    when for each name that was taken a name of at most 63 bytes was free among those tried, and
    no client made a registered configuration invalid. -/
theorem valid_throughout_iff_fits (heap : Ref → Container) (o : σ) (calls : List Call) :
    Throughout (step os) AllValid (empty heap o) calls ↔
      EachStep (step os) (fun s c => c.Fits os s) (empty heap o) calls :=
  throughout_iff_eachStep (I := Sound) (fun _ c h => (call_ends os c h).1) (fun _ c h hv => call_allValid os c h hv)
    (empty_sound heap o) (by simp [AllValid, empty]) calls

/-- 57 bytes. -/
def longName : String := "a23456789-b23456789-c23456789-d23456789-e23456789-f234567"

/-- Both configurations are valid, and the second container gets a name of 64 bytes. -/
theorem a_replaced_name_is_too_long :
    let config : ContainerConfig := { id := "c1", name := longName, image := "nginx" }
    let s := runFrom (step Container.calmOs) (empty anyHeap {})
      [.createContainer config, .createContainer { config with id := "c2" }]
    config.validate = [] ∧ { config with id := "c2" }.validate = [] ∧
    s.containers["c2"]? = some 1 ∧ (s.heap 1).config.name = longName ++ "-000000" ∧
    isValidContainerName (s.heap 1).config.name = false ∧ ¬AllValid s := by
  intro config s
  have hrun : s.containers["c2"]? = some 1 ∧ (s.heap 1).config.name = longName ++ "-000000" := by decide +kernel
  have hlong : isValidContainerName (s.heap 1).config.name = false := by
    rw [hrun.2]
    decide +kernel
  refine ⟨by decide +kernel, by decide +kernel, hrun.1, hrun.2, hlong, fun hall => ?_⟩
  have hv := ContainerConfig.validName_of_validate (hall "c2" 1 hrun.1)
  rw [hlong] at hv
  cases hv

end Registry

end DockerCpp.Runtime
