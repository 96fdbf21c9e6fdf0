/-
  DockerCpp.Runtime.RegistryIndex — the two maps of the registry as inverses of each
  other, with mutexes abstracted.

  `IndexInverse`: an entry of `name_to_id_` leads to a container of that name, and every
  container is found under its name. `Sound` holds in every reachable state: registered
  containers are allocated and every allocated one is consistent, so every operation on
  one keeps its name (`onContainer_steady`).

  All calls but three only take registrations away and change no configuration
  (`call_forgets`). `call_ends` decides for each call whether the maps stay inverse. Two can
  break them: `cleanupRemovedContainers` when a registered container is REMOVED, since it
  leaves the name behind, and an `updateConfig` that renames a registered container.
  `inverse_throughout_iff_careful` says so for whole runs, and
  `a_cleanup_of_removed_containers_keeps_the_name` is such a run.
-/

import DockerCpp.Lib.Run
import DockerCpp.Runtime.RegistryCreate

namespace DockerCpp.Runtime.Registry

open Lib Lib.Prog

variable {σ : Type} (os : Os σ)

/-! ## What every reachable state satisfies -/

structure Sound (s : Registry σ) : Prop where
  allocated : ∀ (id : String) (ref : Ref), s.containers[id]? = some ref → ref < s.next
  settled : ∀ ref < s.next, Container.Consistent (s.heap ref) ∧ Container.Settled (s.heap ref).state

/-- No container, name or registration changed. -/
structure Steady (s s' : Registry σ) : Prop where
  containers : s'.containers = s.containers
  nameToId : s'.nameToId = s.nameToId
  identity : ∀ ref, Container.SameIdentity (s.heap ref) (s'.heap ref)
  sound : Sound s'

variable {s s' s'' : Registry σ} {p : Prog (World σ) Error Unit} {α : Type} {ref : Ref} {I : Registry σ → Prop}
  {Q : Res Error α → Prop}

theorem Steady.refl (h : Sound s) : Steady s s :=
  ⟨rfl, rfl, fun _ => Container.SameIdentity.refl _, h⟩

theorem Steady.trans (h : Steady s s') (h' : Steady s' s'') : Steady s s'' :=
  ⟨h'.containers.trans h.containers, h'.nameToId.trans h.nameToId,
    fun ref => (h.identity ref).trans (h'.identity ref), h'.sound⟩

/-- An operation of a container, through the registry or a client's copy. -/
theorem onContainer_steady (h : Sound s) (hr : ref < s.next)
    (hp : ∀ w : World σ, Container.Consistent w.c → Container.Settled w.c.state → Ends p w (Container.Settles w)) :
    Ends (onContainer ref p) s fun r s' => r ≠ .blocked ∧ Steady s s' := by
  simp only [onContainer, ends_zoom]
  obtain ⟨hc, hst⟩ := h.settled ref hr
  refine Ends.mono (hp (worldOf ref s) hc hst) ?_
  intro r w hpost
  obtain ⟨hb, hk, hs⟩ := hpost
  refine ⟨hb, rfl, rfl, ?_, h.allocated, ?_⟩
  · intro ref'
    by_cases e : ref' = ref
    · subst e
      simpa [putWorld, worldOf] using hk.identity
    · simpa [putWorld, e] using Container.SameIdentity.refl (s.heap ref')
  · intro ref' hr'
    by_cases e : ref' = ref
    · subst e
      simpa [putWorld] using And.intro hk.consistent hs
    · simpa [putWorld, e] using h.settled ref' hr'

theorem OsOnly.steady (h : Sound s) (ho : OsOnly s s') : Steady s s' := by
  obtain ⟨o, rfl⟩ := ho
  exact ⟨rfl, rfl, fun _ => Container.SameIdentity.refl _, h.allocated, h.settled⟩

theorem sys_osOnly (f : σ → α × σ) : Returns OsOnly (sys f : Prog (Registry σ) Error α) :=
  returns_call fun _ => ⟨_, rfl⟩

/-- A member function that leaves its container alone. -/
theorem onContainer_osOnly {p : Prog (World σ) Error α} (ref : Ref)
    (hp : Returns (Container.Touches Eq) p) : Returns OsOnly (onContainer ref p) := by
  refine returns_zoom hp ?_
  intro s w hpost
  obtain ⟨hl, hc⟩ := hpost
  refine ⟨w.os, ?_⟩
  simp only [putWorld, hl, ← hc]
  simp [worldOf]

theorem getInfo_returns : Returns (Container.Touches Eq) (Container.getInfo .abstracted : Prog (World σ) Error _) := by
  simp only [Container.getInfo, lockGuard_abstracted]
  exact Container.readC_returns _

theorem stoppedLong_osOnly : ∀ entries, Returns OsOnly (stoppedLong os .abstracted entries) := by
  intro entries
  induction entries with
  | nil => exact returns_pure _
  | cons e rest ih =>
    refine returns_bind (returns_read _) fun _ => returns_ite ?_ ih
    exact returns_bind (onContainer_osOnly _ getInfo_returns) fun _ => returns_bind (sys_osOnly _) fun _ =>
      returns_bind ih fun _ => returns_pure _

theorem collectStats_osOnly : ∀ entries, Returns OsOnly (collectStats os entries) := by
  intro entries
  induction entries with
  | nil => exact returns_pure _
  | cons e rest ih =>
    refine returns_bind (returns_read _) fun _ => returns_ite ?_ ih
    exact returns_bind (onContainer_osOnly _ (Container.getStats_returns os)) fun _ => returns_bind ih fun _ =>
      returns_pure _

/-! ## The index -/

structure IndexInverse (s : Registry σ) : Prop where
  ofName : ∀ name id : String, s.nameToId[name]? = some id →
    ∃ ref, s.containers[id]? = some ref ∧ (s.heap ref).config.name = name
  ofId : ∀ (id : String) (ref : Ref), s.containers[id]? = some ref → s.nameToId[(s.heap ref).config.name]? = some id

/-- Only the lookups and the registered names count. -/
theorem IndexInverse.congr (hi : IndexInverse s)
    (hcs : ∀ id : String, s'.containers[id]? = s.containers[id]?) (hns : s'.nameToId = s.nameToId)
    (hnames : ∀ (id : String) (ref : Ref), s.containers[id]? = some ref →
      (s'.heap ref).config.name = (s.heap ref).config.name) : IndexInverse s' := by
  constructor
  · intro name id hn
    rw [hns] at hn
    obtain ⟨ref, hc, hname⟩ := hi.ofName name id hn
    exact ⟨ref, (hcs id).trans hc, (hnames id ref hc).trans hname⟩
  · intro id ref hc
    rw [hcs] at hc
    rw [hnames id ref hc, hns]
    exact hi.ofId id ref hc

theorem Steady.inverse (h : Steady s s') (hi : IndexInverse s) : IndexInverse s' :=
  hi.congr (fun id => by rw [h.containers]) h.nameToId fun _ ref _ => by rw [(h.identity ref).config]

/-- What every operation but two does. -/
def Keeps (s s' : Registry σ) : Prop := Sound s' ∧ (IndexInverse s → IndexInverse s')

/-- What every operation but those two and `createContainer` does: registrations may go,
    and no configuration changes. -/
structure Forgets (s s' : Registry σ) : Prop where
  keeps : Keeps s s'
  registered : ∀ (id : String) (ref : Ref), s'.containers[id]? = some ref → s.containers[id]? = some ref
  config : ∀ ref, (s'.heap ref).config = (s.heap ref).config

theorem Steady.forgets (h : Steady s s') : Forgets s s' :=
  ⟨⟨h.sound, h.inverse⟩, fun id ref hc => by rwa [h.containers] at hc, fun ref => (h.identity ref).config⟩

theorem Forgets.trans (h : Forgets s s') (h' : Forgets s' s'') : Forgets s s'' :=
  ⟨⟨h'.keeps.1, fun hi => h'.keeps.2 (h.keeps.2 hi)⟩, fun id ref hc => h.registered id ref (h'.registered id ref hc),
    fun ref => (h'.config ref).trans (h.config ref)⟩

theorem erase_inverse {id : String} (hc : s.containers[id]? = some ref) (hi : IndexInverse s) : IndexInverse { s with
      containers := s.containers.erase id, nameToId := s.nameToId.erase (s.heap ref).config.name } := by
  constructor
  · intro name i hn
    simp only [Std.TreeMap.getElem?_erase, compare_eq_iff_eq] at hn ⊢
    split at hn
    · cases hn
    · rename_i hne
      obtain ⟨ref', hc', hname⟩ := hi.ofName name i hn
      refine ⟨ref', ?_, hname⟩
      -- another name leads to another id, since one id has one container
      rw [if_neg]
      · exact hc'
      · intro e
        obtain rfl := e
        rw [hc] at hc'
        cases hc'
        exact hne hname
  · intro i ref' hc'
    simp only [Std.TreeMap.getElem?_erase, compare_eq_iff_eq] at hc' ⊢
    split at hc'
    · cases hc'
    · rename_i hne
      have h' := hi.ofId i ref' hc'
      rw [if_neg]
      · exact h'
      · intro e
        rw [← e, hi.ofId id ref hc] at h'
        exact hne (by simpa using h')

/-- A new container in the first free cell. -/
theorem Enters.inverse {id name : String} (h : Enters s s' s.next id name) (hs : Sound s)
    (hi : IndexInverse s) : IndexInverse s' := by
  -- the cells the maps led to are older than the new one
  have old : ∀ (i : String) (ref : Ref), s.containers[i]? = some ref → s'.heap ref = s.heap ref := fun i ref hr =>
    h.others ref (Nat.ne_of_lt (hs.allocated i ref hr))
  constructor
  · intro n i hn
    rw [h.nameToId] at hn
    rw [h.containers]
    split at hn
    · rename_i e
      cases hn
      exact ⟨s.next, if_pos rfl, h.ownName.trans e.symm⟩
    · obtain ⟨ref, hc, hn'⟩ := hi.ofName n i hn
      refine ⟨ref, ?_, by rw [old i ref hc]; exact hn'⟩
      rw [if_neg]
      · exact hc
      · intro e
        rw [e, h.newId] at hc
        cases hc
  · intro i ref hr
    rw [h.containers] at hr
    rw [h.nameToId]
    split at hr
    · rename_i e
      cases hr
      rw [if_pos h.ownName, e]
    · have h' := hi.ofId i ref hr
      rw [old i ref hr, if_neg]
      · exact h'
      · intro e
        rw [e, h.newName] at h'
        cases h'

/-! ## Operations -/

theorem unregisterContainer_forgets (id : String) (h : Sound s) :
    Ends (unregisterContainer id) s fun r s' => r = .ok () ∧ Forgets s s' := by
  simp only [unregisterContainer, ends_bind, ends_read, andThen_ok]
  split
  · rename_i ref hc
    rw [ends_modify]
    have hreg : ∀ (i : String) (ref' : Ref), (s.containers.erase id)[i]? = some ref' → s.containers[i]? = some ref' := by
      intro i ref' hc'
      rw [Std.TreeMap.getElem?_erase] at hc'
      split at hc'
      · cases hc'
      · exact hc'
    exact ⟨rfl, ⟨⟨fun i ref' hc' => h.allocated i ref' (hreg i ref' hc'), h.settled⟩, erase_inverse hc⟩, hreg,
      fun _ => rfl⟩
  · exact ⟨rfl, (Steady.refl h).forgets⟩

theorem newContainer_settled (config : ContainerConfig) (s : Registry σ) :
    Container.Consistent (newContainer os config s).1 ∧ Container.Settled (newContainer os config s).1.state :=
  ⟨⟨by simp [newContainer, Container.make], by simp [newContainer, Container.make],
    by simp [newContainer, Container.make], by simp [newContainer, Container.make]⟩, trivial⟩

theorem created_sound (config : ContainerConfig) (h : Sound s) : Sound (created os config s) := by
  refine ⟨created_allocated os config h.allocated, fun ref hr => ?_⟩
  by_cases e : ref = s.next
  · rw [e, created_heap_new]
    exact newContainer_settled os config s
  · rw [created_heap_old os config s e]
    exact h.settled ref (Nat.lt_of_le_of_ne (Nat.lt_succ_iff.mp hr) e)

theorem createContainer_keeps (config : ContainerConfig) (h : Sound s) :
    Ends (createContainer os .abstracted config) s fun r s' => r ≠ .blocked ∧ Keeps s s' := by
  refine Ends.mono (createContainer_ends os .abstracted config s) ?_
  intro r s' hends
  rcases hends with ⟨-, hk, -⟩ | ⟨hadmitted, rfl, rfl⟩ | ⟨-, ⟨e, rfl⟩, ho⟩
  · exact absurd rfl hk
  · exact ⟨by simp, created_sound os config h, (created_enters os hadmitted).inverse h⟩
  · exact ⟨by simp, (OsOnly.steady h ho).forgets.keeps⟩

/-- The lookup finds an allocated cell. -/
theorem forward_steady (id : String) (h : Sound s)
    (hp : ∀ w : World σ, Container.Consistent w.c → Container.Settled w.c.state → Ends p w (Container.Settles w)) :
    Ends (forward .abstracted id p) s fun r s' => r ≠ .blocked ∧ Steady s s' := by
  simp only [forward, getContainer, lockGuard_abstracted, ends_bind, ends_read, andThen_ok]
  split
  · rw [ends_throw]
    exact ⟨by simp, Steady.refl h⟩
  · rename_i ref hc
    exact onContainer_steady h (h.allocated id ref hc) hp

/-- `remove`, then the registration goes if it returned. -/
theorem removeAndUnregister_forgets (id : String) (force : Bool) (h : Sound s) (hr : ref < s.next) : Ends (do
      onContainer ref (Container.remove os .abstracted force)
      unregisterContainer id) s fun r s' => r ≠ .blocked ∧ Forgets s s' := by
  rw [ends_bind]
  refine Ends.mono (onContainer_steady h hr fun w => Container.remove_settles os force) ?_
  intro r s1 hpost
  obtain ⟨hb, hs1⟩ := hpost
  cases r with
  | blocked => exact absurd rfl hb
  | thrown e => exact ⟨by simp, hs1.forgets⟩
  | ok _ =>
    rw [andThen_ok]
    refine Ends.mono (unregisterContainer_forgets id hs1.sound) ?_
    intro r s2 hpost
    obtain ⟨rfl, hk⟩ := hpost
    exact ⟨by simp, hs1.forgets.trans hk⟩

theorem removeContainer_forgets (id : String) (force : Bool) (h : Sound s) :
    Ends (removeContainer os .abstracted id force) s fun r s' => r ≠ .blocked ∧ Forgets s s' := by
  simp only [removeContainer, getContainer, lockGuard_abstracted]
  rw [ends_bind, ends_read, andThen_ok]
  split
  · rw [ends_throw]
    exact ⟨by simp, (Steady.refl h).forgets⟩
  · rename_i ref hc
    exact removeAndUnregister_forgets os id force h (h.allocated id ref hc)

theorem ignoreErrors_ends {p : Prog (Registry σ) Error Unit}
    (h : Ends p s fun r s' => r ≠ .blocked ∧ I s') : Ends (ignoreErrors p) s fun r s' => r = .ok () ∧ I s' := by
  rw [ignoreErrors, ends_tryCatch]
  refine Ends.mono h ?_
  intro r s' hpost
  obtain ⟨hb, hI⟩ := hpost
  cases r with
  | ok _ => exact ⟨rfl, hI⟩
  | thrown e => exact ⟨rfl, hI⟩
  | blocked => exact absurd rfl hb

theorem removeStopped_forgets (id : String) (h : Sound s) :
    Ends (removeStopped os .abstracted id) s fun r s' => r = .ok () ∧ Forgets s s' := by
  rw [removeStopped, ends_bind, ends_read, andThen_ok]
  split
  · rename_i ref hc
    exact ignoreErrors_ends (removeAndUnregister_forgets os id true h (h.allocated id ref hc))
  · exact ⟨rfl, (Steady.refl h).forgets⟩

theorem cleanupStoppedContainers_forgets (h : Sound s) :
    Ends (cleanupStoppedContainers os .abstracted) s fun r s' => r = .ok () ∧ Forgets s s' := by
  simp only [cleanupStoppedContainers, lockGuard_abstracted]
  rw [ends_bind, ends_read, andThen_ok, ends_bind]
  refine Ends.mono (stoppedLong_osOnly os _ s) ?_
  intro r s1 hpost
  obtain ⟨⟨toRemove, rfl⟩, ho⟩ := hpost
  rw [andThen_ok]
  refine ends_forEach (I := Forgets s) ?_ (ho.steady h).forgets
  intro id _ s' hk
  refine Ends.mono (removeStopped_forgets os id hk.keeps.1) ?_
  intro r s'' hpost
  obtain ⟨rfl, hk'⟩ := hpost
  exact ⟨rfl, hk.trans hk'⟩

theorem stopForShutdown_steady (ref : Ref) (h : Sound s) (hr : ref < s.next) :
    Ends (stopForShutdown os .abstracted ref) s fun r s' => r = .ok () ∧ Steady s s' := by
  simp only [stopForShutdown, getState, ends_bind, ends_read, andThen_ok, ends_when]
  split
  · exact ignoreErrors_ends (onContainer_steady h hr fun w => Container.stop_settles os 5)
  · exact ⟨trivial, Steady.refl h⟩

theorem shutdown_forgets (h : Sound s) : Ends (shutdown os .abstracted) s fun r s' => r = .ok () ∧ Forgets s s' := by
  simp only [shutdown, lockGuard_abstracted]
  rw [ends_bind, ends_read, andThen_ok, ends_bind]
  refine Ends.mono (ends_forEach (I := Steady s) ?_ (Steady.refl h)) ?_
  · intro w he s1 hs1
    obtain ⟨id, ref⟩ := w
    have hc : s1.containers[id]? = some ref := by
      rw [hs1.containers]
      exact Std.TreeMap.mem_toList_iff_getElem?_eq_some.mp he
    refine Ends.mono (stopForShutdown_steady os ref hs1.sound (hs1.sound.allocated id ref hc)) ?_
    intro r s2 hpost
    obtain ⟨rfl, hs2⟩ := hpost
    exact ⟨rfl, hs1.trans hs2⟩
  · intro r s1 hpost
    obtain ⟨rfl, hs1⟩ := hpost
    simp only [andThen_ok, ends_bind, ends_modify]
    exact ⟨trivial, ⟨⟨by simp, hs1.sound.settled⟩, fun _ => ⟨by simp, by simp⟩⟩, by simp,
      fun ref => (hs1.identity ref).config⟩

/-! ## Calls -/

/-- The calls that leave the index as it was, or as inverse as it was. -/
def Call.Careful (s : Registry σ) : Call → Prop
  | .cleanupRemovedContainers =>
    ∀ (id : String) (ref : Ref), s.containers[id]? = some ref → (s.heap ref).state ≠ .removed
  | .updateConfig ref config =>
    (∃ id : String, s.containers[id]? = some ref) → config.name = (s.heap ref).config.name
  | _ => True

/-- Erasing a list of keys. -/
theorem getElem?_foldl_erase (ids : List String) (m : Std.TreeMap String Ref) (id : String) :
    (ids.foldl (fun m id => m.erase id) m)[id]? = if id ∈ ids then none else m[id]? := by
  induction ids generalizing m with
  | nil => simp
  | cons i ids ih =>
    rw [List.foldl_cons, ih, Std.TreeMap.getElem?_erase]
    by_cases e : i = id
    · simp [e]
    · have e' : ¬id = i := fun h => e h.symm
      simp [e, e']

theorem cleanupRemovedContainers_ends (h : Sound s) :
    Ends (cleanupRemovedContainers .abstracted) s fun _ s' => Sound s' ∧
      (IndexInverse s → (IndexInverse s' ↔ Call.Careful s .cleanupRemovedContainers)) := by
  simp only [cleanupRemovedContainers, lockGuard_abstracted, ends_modify]
  generalize hids : (s.containers.toList.filter fun e => (s.heap e.2).state == .removed).map (·.1) = ids
  have hmem : ∀ id : String, id ∈ ids ↔ ∃ ref, s.containers[id]? = some ref ∧ (s.heap ref).state = .removed := by
    intro id
    simp [← hids, Std.TreeMap.mem_toList_iff_getElem?_eq_some]
  refine ⟨⟨?_, h.settled⟩, fun hi => ⟨?_, ?_⟩⟩
  · intro id ref hc
    simp only [getElem?_foldl_erase] at hc
    split at hc
    · cases hc
    · exact h.allocated id ref hc
  · -- the name of an erased container leads nowhere
    intro hi' id ref hc hst
    obtain ⟨ref', hc', -⟩ := hi'.ofName _ id (hi.ofId id ref hc)
    simp only [getElem?_foldl_erase, if_pos ((hmem id).mpr ⟨ref, hc, hst⟩)] at hc'
    cases hc'
  · intro hcareful
    refine hi.congr (fun id => ?_) rfl fun _ _ _ => rfl
    simp only [getElem?_foldl_erase]
    rw [if_neg]
    intro hid
    obtain ⟨ref, hc, hst⟩ := (hmem id).mp hid
    exact hcareful id ref hc hst

/-- A client that gives a container it holds another configuration. -/
theorem held_updateConfig (ref : Ref) (config : ContainerConfig) (s : Registry σ) :
    Ends (held ref (Container.updateConfig .abstracted config)) s fun _ s' => s' =
      if ref < s.next then { s with heap := Function.update s.heap ref { s.heap ref with config := config } } else s := by
  simp only [held, Container.updateConfig, Container.modifyC, onContainer, lockGuard_abstracted, ends_bind, ends_read,
    andThen_ok, ends_when, ends_zoom, ends_modify]
  split
  · rfl
  · rfl

theorem updateConfig_ends (ref : Ref) (config : ContainerConfig) (h : Sound s) :
    Ends (held ref (Container.updateConfig .abstracted config)) s fun _ s' => Sound s' ∧
      (IndexInverse s → (IndexInverse s' ↔ Call.Careful s (.updateConfig ref config))) := by
  refine Ends.mono (held_updateConfig ref config s) ?_
  intro _ s' hs'
  split at hs'
  · rename_i hr
    have heap' : ∀ ref', s'.heap ref' = if ref' = ref then { s.heap ref with config := config } else s.heap ref' := by
      intro ref'
      simp only [hs', Function.update_apply]
    have hcs : s'.containers = s.containers := by rw [hs']
    have hns : s'.nameToId = s.nameToId := by rw [hs']
    have hnext : s'.next = s.next := by rw [hs']
    refine ⟨⟨fun id ref' hc => ?_, fun ref' hr' => ?_⟩, fun hi => ⟨?_, ?_⟩⟩
    · rw [hnext]
      exact h.allocated id ref' (hcs ▸ hc)
    · rw [heap']
      split
      · obtain ⟨hc, hst⟩ := h.settled ref hr
        exact ⟨⟨hc.monitoring, hc.removedFlag, hc.live, hc.empty⟩, hst⟩
      · exact h.settled ref' (hnext ▸ hr')
    · intro hi' hpost
      obtain ⟨id, hc⟩ := hpost
      obtain ⟨ref', hc', hname⟩ := hi'.ofName _ id (hns ▸ hi.ofId id ref hc)
      rw [hcs, hc] at hc'
      rw [heap', if_pos (Option.some.inj hc').symm] at hname
      exact hname
    · intro hcareful
      refine hi.congr (fun id => by rw [hcs]) hns fun id ref' hc => ?_
      rw [heap']
      split
      · rename_i e
        subst e
        exact hcareful ⟨id, hc⟩
      · rfl
  · rename_i hr
    rw [hs']
    refine ⟨h, fun hi => ⟨?_, fun _ => hi⟩⟩
    intro _ hpost
    obtain ⟨id, hc⟩ := hpost
    exact absurd (h.allocated id ref hc) hr

theorem done_ends {p : Prog (Registry σ) Error α}
    (hp : Ends p s fun _ s' => I s') : Ends (done p) s fun _ s' => I s' := by
  rw [done, ends_bind]
  refine Ends.mono hp ?_
  intro r s' hI
  cases r <;> exact hI

theorem held_steady (ref : Ref) (h : Sound s)
    (hp : ∀ w : World σ, Container.Consistent w.c → Container.Settled w.c.state → Ends p w (Container.Settles w)) :
    Ends (held ref p) s fun r s' => r ≠ .blocked ∧ Steady s s' := by
  simp only [held, ends_bind, ends_read, andThen_ok, ends_when]
  split
  · rename_i hr
    exact onContainer_steady h hr hp
  · exact ⟨by simp, Steady.refl h⟩

/-- The three calls that enter a container or change a configuration or the index. -/
def Call.Forgetful : Call → Bool
  | .createContainer _ | .cleanupRemovedContainers | .updateConfig _ _ => false
  | _ => true

theorem forgets_ends {p : Prog (Registry σ) Error α}
    (hp : Ends p s fun r s' => Q r ∧ Forgets s s') : Ends p s fun _ s' => Forgets s s' :=
  Ends.mono hp fun _ _ hpost => hpost.2

theorem steady_ends {p : Prog (Registry σ) Error α}
    (hp : Ends p s fun r s' => Q r ∧ Steady s s') : Ends p s fun _ s' => Forgets s s' :=
  Ends.mono hp fun _ _ hpost => hpost.2.forgets

theorem osOnly_ends {p : Prog (Registry σ) Error α} (h : Sound s) (hp : Returns OsOnly p) :
    Ends p s fun _ s' => Forgets s s' :=
  Ends.mono (hp s) fun _ _ hpost => (hpost.2.steady h).forgets

theorem call_forgets (c : Call) (hf : c.Forgetful = true) (h : Sound s) :
    Ends (c.run os .abstracted) s fun _ s' => Forgets s s' := by
  have listens : ∀ b, Ends (modify fun s => { s with listener := { s.listener with globalCallback := b } } :
      Prog (Registry σ) Error Unit) s fun r s' => r = .ok () ∧ Steady s s' :=
    fun b => ⟨rfl, rfl, rfl, fun _ => Container.SameIdentity.refl _, h.allocated, h.settled⟩
  cases c with
  | createContainer config => cases hf
  | getContainer id => exact done_ends (osOnly_ends h (returns_read _))
  | getContainerByName name =>
    refine done_ends (osOnly_ends h ?_)
    simp only [getContainerByName, getContainer, lockGuard_abstracted]
    refine returns_bind (returns_read _) fun r => ?_
    cases r with
    | some id => exact returns_read _
    | none => exact returns_pure _
  | removeContainer id force => exact forgets_ends (removeContainer_forgets os id force h)
  | listContainers all => exact done_ends (osOnly_ends h (returns_read _))
  | listContainerIds all => exact done_ends (osOnly_ends h (returns_read _))
  | startContainer id => exact steady_ends (forward_steady id h fun _ => Container.start_settles os)
  | stopContainer id timeout => exact steady_ends (forward_steady id h fun _ => Container.stop_settles os timeout)
  | pauseContainer id => exact steady_ends (forward_steady id h fun _ => Container.pause_settles os)
  | resumeContainer id => exact steady_ends (forward_steady id h fun _ => Container.resume_settles os)
  | restartContainer id timeout => exact steady_ends (forward_steady id h fun _ => Container.restart_settles os timeout)
  | killContainer id sig => exact steady_ends (forward_steady id h fun _ => Container.kill_settles os sig)
  | getContainerCount => exact done_ends (osOnly_ends h (returns_read _))
  | getRunningContainerCount => exact done_ends (osOnly_ends h (returns_read _))
  | getAllContainerStats =>
    refine done_ends (osOnly_ends h ?_)
    simp only [getAllContainerStats, lockGuard_abstracted]
    exact returns_bind (returns_read _) fun _ => collectStats_osOnly os _
  | getAggregatedStats =>
    refine done_ends (osOnly_ends h ?_)
    simp only [getAggregatedStats, lockGuard_abstracted]
    exact returns_bind (returns_read _) fun _ => returns_bind (collectStats_osOnly os _) fun _ =>
      returns_bind (sys_osOnly _) fun _ => returns_pure _
  | cleanupStoppedContainers => exact forgets_ends (cleanupStoppedContainers_forgets os h)
  | cleanupRemovedContainers => cases hf
  | shutdown => exact forgets_ends (shutdown_forgets os h)
  | setGlobalEventCallback =>
    simp only [Call.run, setGlobalEventCallback, lockGuard_abstracted]
    exact steady_ends (listens true)
  | removeGlobalEventCallback =>
    simp only [Call.run, removeGlobalEventCallback, lockGuard_abstracted]
    exact steady_ends (listens false)
  | direct ref op => exact steady_ends (held_steady ref h fun _ => Container.run_settles os op)
  | updateConfig ref config => cases hf

/-- A call that keeps the index, whatever it was. -/
theorem Keeps.inverse_iff (h : Keeps s s') : Sound s' ∧ (IndexInverse s → (IndexInverse s' ↔ True)) :=
  ⟨h.1, fun hi => ⟨fun _ => trivial, fun _ => h.2 hi⟩⟩

/-- What one call does to the index, for each call. -/
theorem call_ends (c : Call) (h : Sound s) :
    Ends (c.run os .abstracted) s fun _ s' => Sound s' ∧ (IndexInverse s → (IndexInverse s' ↔ c.Careful s)) := by
  cases c with
  | createContainer config =>
    exact done_ends (Ends.mono (createContainer_keeps os config h) fun _ _ hpost => hpost.2.inverse_iff)
  | cleanupRemovedContainers => exact cleanupRemovedContainers_ends h
  | updateConfig ref config => exact updateConfig_ends ref config h
  | _ => exact Ends.mono (call_forgets os _ rfl h) fun _ _ hforgets => hforgets.keeps.inverse_iff

/-! ## Runs -/

/-- `isNameUnique` refuses exactly the names of the registered containers. -/
def NamesExact (s : Registry σ) : Prop := ∀ name : String,
  s.isNameUnique name = false ↔ ∃ (id : String) (ref : Ref), s.containers[id]? = some ref ∧ (s.heap ref).config.name = name

theorem IndexInverse.namesExact (hi : IndexInverse s) : NamesExact s := by
  intro name
  rw [isNameUnique, Bool.not_eq_false', Std.TreeMap.contains_eq_isSome_getElem?, Option.isSome_iff_exists]
  constructor
  · intro hpost
    obtain ⟨id, hn⟩ := hpost
    exact ⟨id, hi.ofName name id hn⟩
  · intro hpost
    obtain ⟨id, ref, hc, rfl⟩ := hpost
    exact ⟨id, hi.ofId id ref hc⟩

def step (s : Registry σ) (c : Call) : Registry σ := (c.run os .abstracted s).2

theorem empty_sound (heap : Ref → Container) (o : σ) : Sound (empty heap o) := ⟨by simp [empty], by simp [empty]⟩

/-- In a run from the empty registry the two maps are inverse to each other throughout,
    and with them `isNameUnique` right, exactly when every call of it was careful. -/
theorem inverse_throughout_iff_careful (heap : Ref → Container) (o : σ) (calls : List Call) :
    Throughout (step os) (fun s => IndexInverse s ∧ NamesExact s) (empty heap o) calls ↔
      EachStep (step os) (fun s c => c.Careful s) (empty heap o) calls := by
  refine throughout_iff_eachStep (I := Sound) (fun s c h => (call_ends os c h).1) ?_ (empty_sound heap o) ?_ calls
  · intro s c h hp
    have hc := (call_ends os c h).2 hp.1
    exact ⟨fun h' => hc.mp h'.1, fun hq => ⟨hc.mpr hq, (hc.mpr hq).namesExact⟩⟩
  · have hi : IndexInverse (empty heap o) := ⟨by simp [empty], by simp [empty]⟩
    exact ⟨hi, hi.namesExact⟩

def anyHeap : Ref → Container := fun _ => (Container.make Container.calmOs {} {}).1

/-- A container is created, its owner removes it, and the registry forgets it: its name
    stays taken. -/
theorem a_cleanup_of_removed_containers_keeps_the_name :
    let s := runFrom (step Container.calmOs) (empty anyHeap {})
      [.createContainer { id := "c1", name := "web", image := "nginx" }, .direct 0 (.remove false),
        .cleanupRemovedContainers]
    s.containers.isEmpty = true ∧ s.nameToId["web"]? = some "c1" ∧ s.isNameUnique "web" = false ∧ ¬ IndexInverse s := by
  intro s
  have hname : s.nameToId["web"]? = some "c1" := by decide +kernel
  have hnone : s.containers["c1"]? = none := by decide +kernel
  refine ⟨by decide +kernel, hname, by decide +kernel, fun hi => ?_⟩
  obtain ⟨ref, hc, -⟩ := hi.ofName "web" "c1" hname
  rw [hnone] at hc
  cases hc

end DockerCpp.Runtime.Registry
