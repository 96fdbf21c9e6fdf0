/-
  DockerCpp.Runtime.RegistryCreate — `createContainer` as one step on the registry.

  The id and the name a container gets are functions of the two maps and of the random
  draws (`drawId`, `drawName`). The loop of `generateUniqueName` ends: among one more
  candidates than there are names one is free (`candidate_free`).

  `createContainer_ends` is all that the call can do: with an accepted configuration and a
  free id the registry becomes `created`; otherwise it throws and only the generators
  moved; on a mutex that has an owner it never goes on. `createContainer_atomic` reads off
  what this means for the maps: both gain one entry that was not there, or none.
-/

import DockerCpp.Runtime.Registry
import Mathlib.Data.List.Nodup
import Mathlib.Data.List.Perm.Subperm
import Mathlib.Data.Nat.Find

namespace DockerCpp.Runtime

open Lib Lib.Prog

variable {σ : Type} (os : Os σ)

namespace Container

/-! ## A container whose mutexes are free -/

theorem setEventCallback_ends (k : Locking) (cb : EventCallback) {w : World σ} (h : w.c.callbackMutex = none) :
    Ends (setEventCallback k cb) w fun r w' =>
      r = .ok () ∧ w' = { w with c := { w.c with eventCallback := some cb } } := by
  cases k with
  | abstracted =>
    rw [setEventCallback, lockGuard_abstracted, modifyC, ends_modify]
    exact ⟨rfl, rfl⟩
  | thread t =>
    rw [setEventCallback, ends_lockGuard_free (m := callbackMutexOf) h, modifyC, ends_modify]
    refine ⟨rfl, ?_⟩
    show World.mk { w.c with eventCallback := some cb, callbackMutex := none } w.os w.listener = _
    rw [← h]

theorem getInfo_ends (k : Locking) {w : World σ} (h : w.c.mutex = none) :
    Ends (getInfo k) w fun r w' => (∃ info, r = .ok info ∧ info.id = w.c.id) ∧ w' = w := by
  cases k with
  | abstracted =>
    rw [getInfo, lockGuard_abstracted, readC, ends_read]
    exact ⟨⟨_, rfl, rfl⟩, rfl⟩
  | thread t =>
    rw [getInfo, ends_lockGuard_free (m := mutexOf) h, readC, ends_read]
    refine ⟨⟨_, rfl, rfl⟩, ?_⟩
    show World.mk { w.c with mutex := none } w.os w.listener = _
    rw [← h]

end Container

namespace Registry

/-! ## The name generator -/

/-- The candidates the loop tries, from the current one on. -/
def candidate (name : String) (counter : Nat) (current : String) : Nat → String
  | 0 => current
  | i + 1 => name ++ "-" ++ toString (counter + i)

theorem candidate_succ (name : String) (counter : Nat) (current : String) (i : Nat) :
    candidate name counter current (i + 1) = candidate name (counter + 1) (name ++ "-" ++ toString counter) i := by
  cases i with
  | zero => rfl
  | succ i => rw [candidate, candidate, Nat.add_right_comm, Nat.add_assoc]

/-- A candidate that is the first free one. -/
structure FirstFree (taken : String → Bool) (name : String) (counter : Nat) (current : String) (i : Nat) : Prop where
  free : taken (candidate name counter current i) = false
  before : ∀ j < i, taken (candidate name counter current j) = true

variable {taken : String → Bool} {current name : String} {s : Registry σ} {config : ContainerConfig}

theorem FirstFree.succ {counter i : Nat} (h : FirstFree taken name counter current (i + 1)) :
    FirstFree taken name (counter + 1) (name ++ "-" ++ toString counter) i where
  free := by rw [← candidate_succ]; exact h.free
  before j hj := by rw [← candidate_succ]; exact h.before (j + 1) (Nat.succ_lt_succ hj)

theorem FirstFree.of_exists {counter bound : Nat}
    (h : ∃ i < bound, taken (candidate name counter current i) = false) :
    ∃ i < bound, FirstFree taken name counter current i := by
  obtain ⟨i, hi, hfree⟩ := h
  have hexists : ∃ i, taken (candidate name counter current i) = false := ⟨i, hfree⟩
  refine ⟨Nat.find hexists, Nat.lt_of_le_of_lt (Nat.find_min' hexists hfree) hi, Nat.find_spec hexists, ?_⟩
  intro j hj
  exact Bool.eq_true_of_not_eq_false (Nat.find_min hexists hj)

theorem firstUnique_eq {fuel counter i : Nat} (h : FirstFree taken name counter current i) (hi : i < fuel) :
    firstUnique taken name fuel counter current = candidate name counter current i := by
  induction fuel generalizing counter current i with
  | zero => exact absurd hi (Nat.not_lt_zero i)
  | succ fuel ih =>
    cases i with
    | zero => exact if_neg (Bool.eq_false_iff.mp h.free)
    | succ i =>
      rw [candidate_succ, ← ih h.succ (Nat.lt_of_succ_lt_succ hi)]
      exact if_pos (h.before 0 (Nat.succ_pos i))

theorem toString_nat_injective {a b : Nat} (h : toString a = toString b) : a = b := by
  have hl : Nat.toDigits 10 a = Nat.toDigits 10 b := by
    rw [← Nat.toList_repr, ← Nat.toList_repr]
    exact congrArg String.toList h
  rw [← Nat.ofDigitChars_ten_toDigits (n := a), hl, Nat.ofDigitChars_ten_toDigits]

theorem candidate_injective (name : String) {i j : Nat} (h : candidate name 1 name i = candidate name 1 name j) :
    i = j := by
  have ne : ∀ n : Nat, name ≠ name ++ "-" ++ toString n := by
    intro n e
    have hl := congrArg String.length e
    have : "-".length = 1 := rfl
    simp only [String.length_append] at hl
    omega
  cases i with
  | zero =>
    cases j with
    | zero => rfl
    | succ j => exact absurd h (ne _)
  | succ i =>
    cases j with
    | zero => exact absurd h.symm (ne _)
    | succ j =>
      have hs := toString_nat_injective ((String.append_right_inj _).mp h)
      omega

/-- One more candidate than names taken: one of them is free. -/
theorem candidate_free (names : Std.TreeMap String String) (name : String) :
    ∃ i < names.size + 1, names.contains (candidate name 1 name i) = false := by
  by_contra hall
  have hsub : (List.range (names.size + 1)).map (candidate name 1 name) ⊆ names.keys := by
    intro x hx
    obtain ⟨i, hi, rfl⟩ := List.mem_map.mp hx
    rw [Std.TreeMap.mem_keys, Std.TreeMap.mem_iff_contains]
    by_contra hc
    exact hall ⟨i, by simpa using hi, Bool.eq_false_of_not_eq_true hc⟩
  have hnodup : ((List.range (names.size + 1)).map (candidate name 1 name)).Nodup :=
    List.Nodup.map (fun _ _ => candidate_injective name) List.nodup_range
  have hlen := (List.subperm_of_subset hnodup hsub).length_le
  simp at hlen

/-! ## What is drawn -/

/-- The id of a new container, and the system after the draw. -/
def drawId (config : ContainerConfig) (o : σ) : String × σ :=
  if config.id = "" then Container.generateContainerId os o else (config.id, o)

def uniqueName (names : Std.TreeMap String String) (base : String) (o : σ) : String × σ :=
  let chars := nameChars os 6 o
  let name := base ++ String.ofList chars.1
  (firstUnique names.contains name (names.size + 1) 1 name, chars.2)

/-- The bound on the turns of the loop is never reached. -/
theorem uniqueName_first (names : Std.TreeMap String String) (base : String) (o : σ) :
    let name := base ++ String.ofList (nameChars os 6 o).1
    ∃ i < names.size + 1, FirstFree names.contains name 1 name i ∧
      (uniqueName os names base o).1 = candidate name 1 name i := by
  intro name
  obtain ⟨i, hi, hfirst⟩ := FirstFree.of_exists (candidate_free names name)
  exact ⟨i, hi, hfirst, firstUnique_eq hfirst hi⟩

/-- The name of a new container, and the system after the draw. -/
def drawName (names : Std.TreeMap String String) (config : ContainerConfig) (o : σ) : String × σ :=
  if config.name = "" then uniqueName os names "docker-cpp-" o
  else if names.contains config.name then uniqueName os names (config.name ++ "-") o
  else (config.name, o)

theorem drawId_ne_empty (config : ContainerConfig) (o : σ) : (drawId os config o).1 ≠ "" := by
  unfold drawId
  split
  · intro e
    have hl := congrArg String.toList e
    rw [Container.generateContainerId, String.toList_ofList, Container.hexDigits] at hl
    cases hl
  · rename_i hne
    exact hne

theorem drawName_free (names : Std.TreeMap String String) (config : ContainerConfig) (o : σ) :
    names[(drawName os names config o).1]? = none := by
  have hunique : ∀ base, names.contains (uniqueName os names base o).1 = false := by
    intro base
    obtain ⟨i, _, hfirst, heq⟩ := uniqueName_first os names base o
    rw [heq]
    exact hfirst.free
  refine Std.TreeMap.getElem?_eq_none_of_contains_eq_false ?_
  unfold drawName
  split
  · exact hunique _
  · split
    · exact hunique _
    · rename_i hfree
      exact Bool.eq_false_of_not_eq_true hfree

theorem chooseId_ends (config : ContainerConfig) (s : Registry σ) : Ends (chooseId os config) s fun r s' =>
    r = .ok (drawId os config s.os).1 ∧ s' = { s with os := (drawId os config s.os).2 } := by
  unfold chooseId drawId
  split
  · exact ⟨rfl, rfl⟩
  · exact ⟨rfl, rfl⟩

theorem generateUniqueName_ends (base : String) (s : Registry σ) : Ends (generateUniqueName os base) s fun r s' =>
    r = .ok (uniqueName os s.nameToId base s.os).1 ∧ s' = { s with os := (uniqueName os s.nameToId base s.os).2 } := by
  simp only [generateUniqueName, sys, isNameUnique, Bool.not_not, ends_bind, ends_call, andThen_ok, ends_read]
  exact ⟨rfl, rfl⟩

theorem chooseName_ends (config : ContainerConfig) (s : Registry σ) : Ends (chooseName os config) s fun r s' =>
    r = .ok (drawName os s.nameToId config s.os).1 ∧ s' = { s with os := (drawName os s.nameToId config s.os).2 } := by
  simp only [chooseName, drawName, isNameUnique, ends_bind, ends_read, andThen_ok]
  by_cases he : config.name = ""
  · rw [if_pos he, if_pos he]
    exact generateUniqueName_ends os _ s
  · rw [if_neg he, if_neg he]
    cases s.nameToId.contains config.name with
    | true => exact generateUniqueName_ends os _ s
    | false => exact ⟨rfl, rfl⟩

/-! ## Creation -/

/-- Only the system moved. -/
def OsOnly (s s' : Registry σ) : Prop := ∃ o, s' = { s with os := o }

instance : Frame (OsOnly (σ := σ)) :=
  ⟨fun s => ⟨s.os, rfl⟩, by rintro s _ _ ⟨_, rfl⟩ ⟨o, rfl⟩; exact ⟨o, rfl⟩⟩

/-- `final_config`. -/
def finalConfig (config : ContainerConfig) (s : Registry σ) : ContainerConfig :=
  let id := drawId os config s.os
  { config with id := id.1, name := (drawName os s.nameToId config id.2).1 }

/-- The new container and the system after its constructor. -/
def newContainer (config : ContainerConfig) (s : Registry σ) : Container × σ :=
  let made := Container.make os (finalConfig os config s)
    (drawName os s.nameToId config (drawId os config s.os).2).2
  ({ made.1 with eventCallback := some .registry }, made.2)

/-- The registry after a creation. -/
def created (config : ContainerConfig) (s : Registry σ) : Registry σ :=
  let final := finalConfig os config s
  let made := newContainer os config s
  { s with
    heap := Function.update s.heap s.next made.1
    next := s.next + 1
    os := made.2
    containers := s.containers.insert final.id s.next
    nameToId := s.nameToId.insert final.name final.id }

/-- The checks before the new container is built. -/
def Admitted (config : ContainerConfig) (s : Registry σ) : Prop :=
  config.validate = [] ∧ s.containers[(drawId os config s.os).1]? = none

/-- How `createContainer` ends once it has the mutex. -/
def CreateEnds (config : ContainerConfig) (s : Registry σ) (r : Res Error Ref) (s' : Registry σ) : Prop :=
  (Admitted os config s ∧ r = .ok s.next ∧ s' = created os config s) ∨
    (¬Admitted os config s ∧ (∃ e, r = .thrown e) ∧ OsOnly s s')

theorem newContainer_id (config : ContainerConfig) (s : Registry σ) :
    (newContainer os config s).1.id = (finalConfig os config s).id := by
  have hne : (finalConfig os config s).id ≠ "" := drawId_ne_empty os config s.os
  simp [newContainer, Container.make, hne]

theorem newContainer_config (config : ContainerConfig) (s : Registry σ) :
    (newContainer os config s).1.config = finalConfig os config s := by
  have hne : (finalConfig os config s).id ≠ "" := drawId_ne_empty os config s.os
  simp [newContainer, Container.make, hne]

theorem newContainer_state (config : ContainerConfig) (s : Registry σ) :
    (newContainer os config s).1.state = .created := rfl

theorem created_heap_new (config : ContainerConfig) (s : Registry σ) :
    (created os config s).heap s.next = (newContainer os config s).1 := Function.update_self ..

theorem created_heap_old (config : ContainerConfig) (s : Registry σ) {ref : Ref} (h : ref ≠ s.next) :
    (created os config s).heap ref = s.heap ref := Function.update_of_ne h ..

theorem created_allocated (config : ContainerConfig)
    (h : ∀ (id : String) (ref : Ref), s.containers[id]? = some ref → ref < s.next) (id : String) (ref : Ref)
    (hc : (created os config s).containers[id]? = some ref) : ref < (created os config s).next := by
  simp only [created, Std.TreeMap.getElem?_insert] at hc
  split at hc
  · cases hc
    exact Nat.lt_succ_self _
  · exact Nat.lt_succ_of_lt (h id ref hc)

/-- The mutexes it takes are the new container's. -/
theorem buildContainer_ends (k : Locking) (config : ContainerConfig) (s : Registry σ) :
    Ends (buildContainer os k config) s fun r s' =>
      let made := Container.make os config s.os
      r = .ok s.next ∧ s' = { s with
        heap := Function.update s.heap s.next { made.1 with eventCallback := some .registry }
        next := s.next + 1
        os := made.2
        containers := s.containers.insert made.1.id s.next
        nameToId := s.nameToId.insert made.1.config.name made.1.id } := by
  rw [buildContainer, ends_bind, makeContainer, ends_call, andThen_ok]
  dsimp only
  rw [ends_bind, onContainer, ends_zoom]
  refine Ends.mono (Container.setEventCallback_ends k .registry (by simp [worldOf, Container.make])) ?_
  intro r w hpost
  obtain ⟨rfl, rfl⟩ := hpost
  rw [andThen_ok, ends_bind, registerContainer, ends_bind, onContainer, ends_zoom]
  refine Ends.mono (Container.getInfo_ends k (by simp [worldOf, putWorld, Container.make])) ?_
  intro r w hpost
  obtain ⟨⟨info, rfl, hid⟩, rfl⟩ := hpost
  rw [andThen_ok, ends_modify, andThen_ok, ends_pure]
  refine ⟨rfl, ?_⟩
  simp [worldOf, putWorld, hid]

/-- What stands under the guard. -/
theorem createBody_ends (k : Locking) (config : ContainerConfig) (s : Registry σ) :
    Ends (do
      validateContainerConfig config
      let id ← chooseId os config
      if ← read fun s => s.containers.contains id then throw (.runtime ("Container ID already exists: " ++ id))
      else do
        let name ← chooseName os config
        tryCatch (buildContainer os k { config with id := id, name := name }) fun e =>
          throw (.configuration ("Failed to create container: " ++ e.what))) s (CreateEnds os config s) := by
  rw [validateContainerConfig, ends_bind]
  split
  · rename_i hv
    rw [ends_pure, andThen_ok, ends_bind]
    refine Ends.mono (chooseId_ends os config s) ?_
    intro r s1 hpost
    obtain ⟨rfl, rfl⟩ := hpost
    rw [andThen_ok, ends_bind, ends_read, andThen_ok]
    split
    · rename_i htaken
      rw [ends_throw]
      refine Or.inr ⟨?_, ⟨_, rfl⟩, _, rfl⟩
      intro hadmitted
      simp [Std.TreeMap.contains_eq_isSome_getElem?, hadmitted.2] at htaken
    · rename_i hfree
      rw [ends_bind]
      refine Ends.mono (chooseName_ends os config _) ?_
      intro r s2 hpost
      obtain ⟨rfl, rfl⟩ := hpost
      rw [andThen_ok, ends_tryCatch]
      refine Ends.mono (buildContainer_ends os k _ _) ?_
      intro r s3 hpost
      obtain ⟨rfl, rfl⟩ := hpost
      refine Or.inl ⟨⟨hv, ?_⟩, rfl, ?_⟩
      · simpa using hfree
      · have hid := newContainer_id os config s
        have hname := congrArg ContainerConfig.name (newContainer_config os config s)
        simp only [created, ← hid, ← hname]
        rfl
  · rename_i hv
    rw [ends_throw]
    exact Or.inr ⟨fun hadmitted => hv hadmitted.1, ⟨_, rfl⟩, s.os, rfl⟩

/-- Giving the mutex back. -/
theorem CreateEnds.release {t : Tid} (h : s.mutex = none) {r : Res Error Ref}
    {s' : Registry σ} (hends : CreateEnds os config { s with mutex := some t } r s') :
    r ≠ .blocked ∧ CreateEnds os config s r { s' with mutex := none } := by
  obtain ⟨cs, ns, mx, l, hp, nx, o⟩ := s
  dsimp only at h
  subst h
  rcases hends with ⟨hadmitted, rfl, rfl⟩ | ⟨hrefused, ⟨e, rfl⟩, o', rfl⟩
  · exact ⟨by simp, Or.inl ⟨hadmitted, rfl, rfl⟩⟩
  · exact ⟨by simp, Or.inr ⟨hrefused, ⟨e, rfl⟩, o', rfl⟩⟩

theorem createContainer_ends (k : Locking) (config : ContainerConfig) (s : Registry σ) :
    Ends (createContainer os k config) s fun r s' =>
      (r = .blocked ∧ k ≠ .abstracted ∧ s.mutex ≠ none ∧ s' = s) ∨ CreateEnds os config s r s' := by
  cases k with
  | abstracted =>
    rw [createContainer, lockGuard_abstracted]
    exact Ends.mono (createBody_ends os .abstracted config s) fun _ _ h => Or.inr h
  | thread t =>
    cases hm : s.mutex with
    | some t' =>
      rw [createContainer, ends_lockGuard_owned (m := mutexOf) hm]
      exact Or.inl ⟨rfl, by simp, by simp, rfl⟩
    | none =>
      rw [createContainer, ends_lockGuard_free (m := mutexOf) hm]
      refine Ends.mono (createBody_ends os (.thread t) config _) ?_
      intro r s' hends
      obtain ⟨hb, hends'⟩ := hends.release os hm
      cases r with
      | blocked => exact absurd rfl hb
      | ok ref => exact Or.inr hends'
      | thrown e => exact Or.inr hends'

/-- The container at `ref` was entered: under an id and a name that were not there, in
    state CREATED, and nothing else changed. -/
structure Enters (s s' : Registry σ) (ref : Ref) (id name : String) : Prop where
  newId : s.containers[id]? = none
  newName : s.nameToId[name]? = none
  containers : ∀ i : String, s'.containers[i]? = if i = id then some ref else s.containers[i]?
  nameToId : ∀ n : String, s'.nameToId[n]? = if n = name then some id else s.nameToId[n]?
  ownId : (s'.heap ref).id = id
  ownName : (s'.heap ref).config.name = name
  state : (s'.heap ref).state = .created
  others : ∀ ref', ref' ≠ ref → s'.heap ref' = s.heap ref'

/-- Both maps gain an entry, or they stay as they are. -/
def Atomic (k : Locking) (config : ContainerConfig) (s : Registry σ) : Res Error Ref → Registry σ → Prop
  | .ok ref, s' => Admitted os config s ∧ ∃ id name, Enters s s' ref id name
  | .thrown _, s' => ¬Admitted os config s ∧ s'.containers = s.containers ∧ s'.nameToId = s.nameToId ∧ s'.heap = s.heap
  | .blocked, s' => k ≠ .abstracted ∧ s.mutex ≠ none ∧ s' = s

theorem created_enters (h : Admitted os config s) :
    Enters s (created os config s) s.next (finalConfig os config s).id (finalConfig os config s).name where
  newId := h.2
  newName := drawName_free os s.nameToId config _
  containers i := by simp [created, Std.TreeMap.getElem?_insert, eq_comm (a := i)]
  nameToId n := by simp [created, Std.TreeMap.getElem?_insert, eq_comm (a := n)]
  ownId := by rw [created_heap_new, newContainer_id]
  ownName := by rw [created_heap_new, newContainer_config]
  state := by rw [created_heap_new, newContainer_state]
  others _ := created_heap_old os config s

/-- Whatever the registry, the configuration, the draws and the locking: both maps gain
    one new entry for the container that is returned, or they stay as they are. That the
    two maps are inverse to each other is not needed, since both keys are looked up first. -/
theorem createContainer_atomic (k : Locking) (config : ContainerConfig) (s : Registry σ) :
    Ends (createContainer os k config) s (Atomic os k config s) := by
  refine Ends.mono (createContainer_ends os k config s) ?_
  intro r s' hends
  rcases hends with ⟨rfl, hk, hm, rfl⟩ | ⟨hadmitted, rfl, rfl⟩ | ⟨hrefused, ⟨e, rfl⟩, o, rfl⟩
  · exact ⟨hk, hm, rfl⟩
  · exact ⟨hadmitted, _, _, created_enters os hadmitted⟩
  · exact ⟨hrefused, rfl, rfl, rfl⟩

end Registry

end DockerCpp.Runtime
