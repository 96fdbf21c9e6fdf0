/-
  DockerCpp.Runtime.RegistryCleanup — what `cleanupStoppedContainers` takes away, with
  mutexes abstracted.

  The first loop reads the clock once for each container it finds STOPPED, DEAD or ERROR
  (`looks`); a container is `Expired` when its `finished_at` lies more than five minutes
  before that reading. The second loop swallows what `remove` throws, so a container could
  be passed over. None is: DEAD is never reached, the other two states have an edge to
  REMOVING, and from there on `remove` cannot throw (`removeStopped_ends`).

  `Swept gone s s'` is the exact effect: the registrations and names of the ids in `gone`
  went, their containers are REMOVED, and everything else is as it was. One turn of the
  loop adds its id to `gone` (`Swept.next`), and `cleanupStoppedContainers_exact` has
  exactly the expired ones there at the end.
-/

import DockerCpp.Runtime.RegistryIndex

namespace DockerCpp.Runtime.Registry

open Lib Lib.Prog

variable {σ : Type} (os : Os σ)

/-! ## The first loop -/

/-- A container the first loop looks at, and the clock at that moment. -/
structure Look where
  id : String
  ref : Ref
  now : Int
  deriving DecidableEq, Repr

def looks (heap : Ref → Container) : List (String × Ref) → σ → List Look
  | [], _ => []
  | (id, ref) :: rest, o =>
    let st := (heap ref).state
    if st = .stopped ∨ st = .dead ∨ st = .error then
      ⟨id, ref, (os.systemNow o).1⟩ :: looks heap rest (os.systemNow o).2
    else looks heap rest o

def Look.late (heap : Ref → Container) (l : Look) : Bool := fiveMinutes < l.now - (heap l.ref).finishedAt

/-- STOPPED, DEAD or ERROR when the loop came to it, with a `finished_at` more than five
    minutes back. -/
def Expired (s : Registry σ) (id : String) : Prop :=
  ∃ l ∈ looks os s.heap s.containers.toList s.os, l.id = id ∧ l.late s.heap = true

instance (s : Registry σ) (id : String) : Decidable (Expired os s id) :=
  inferInstanceAs (Decidable (∃ l ∈ looks os s.heap s.containers.toList s.os, _))

/-- Each container in one of the three states is looked at once, in the order of the map. -/
theorem looks_entries (heap : Ref → Container) (entries : List (String × Ref)) (o : σ) :
    (looks os heap entries o).map (fun l => (l.id, l.ref)) = entries.filter fun e =>
      (heap e.2).state = .stopped ∨ (heap e.2).state = .dead ∨ (heap e.2).state = .error := by
  induction entries generalizing o with
  | nil => rfl
  | cons e rest ih =>
    obtain ⟨id, ref⟩ := e
    rw [looks, List.filter_cons]
    by_cases hst : (heap ref).state = .stopped ∨ (heap ref).state = .dead ∨ (heap ref).state = .error
    · simp only [if_pos hst, decide_eq_true hst, List.map_cons, ih, if_true]
    · simp only [if_neg hst, decide_eq_false hst, ih, Bool.false_eq_true, if_false]

theorem mem_looks {heap : Ref → Container} {entries : List (String × Ref)} {o : σ} {l : Look}
    (h : l ∈ looks os heap entries o) : (l.id, l.ref) ∈ entries ∧
      ((heap l.ref).state = .stopped ∨ (heap l.ref).state = .dead ∨ (heap l.ref).state = .error) := by
  have hmem := List.mem_map_of_mem (f := fun l : Look => (l.id, l.ref)) h
  rw [looks_entries, List.mem_filter] at hmem
  exact ⟨hmem.1, by simpa using hmem.2⟩

/-- What the first loop collects. -/
def expiredIds (s : Registry σ) : List String :=
  ((looks os s.heap s.containers.toList s.os).filter (Look.late s.heap)).map (·.id)

variable {s : Registry σ} {id : String} {ref : Ref}

theorem mem_expiredIds : id ∈ expiredIds os s ↔ Expired os s id := by
  simp only [expiredIds, Expired, List.mem_map, List.mem_filter]
  constructor
  · intro hpost
    obtain ⟨l, ⟨hl, hlate⟩, e⟩ := hpost
    exact ⟨l, hl, e, hlate⟩
  · intro hpost
    obtain ⟨l, hl, e, hlate⟩ := hpost
    exact ⟨l, ⟨hl, hlate⟩, e⟩

theorem expiredIds_nodup (s : Registry σ) : (expiredIds os s).Nodup := by
  have hkeys : (s.containers.toList.map (·.1)).Nodup := by
    rw [Std.TreeMap.map_fst_toList_eq_keys]
    exact Std.TreeMap.nodup_keys
  have hlooks : ((looks os s.heap s.containers.toList s.os).map (·.id)).Nodup := by
    have e := congrArg (List.map (·.1)) (looks_entries os s.heap s.containers.toList s.os)
    rw [List.map_map] at e
    exact e ▸ hkeys.sublist (List.filter_sublist.map _)
  exact hlooks.sublist (List.filter_sublist.map _)

/-- An id the second loop comes to is registered, was not done before and has stopped. -/
theorem expiredIds_split {done rest : List String}
    (e : done ++ id :: rest = expiredIds os s) : id ∉ done ∧ ∃ ref, s.containers[id]? = some ref ∧
      ((s.heap ref).state = .stopped ∨ (s.heap ref).state = .dead ∨ (s.heap ref).state = .error) := by
  have hnodup := expiredIds_nodup os s
  have hmem : id ∈ expiredIds os s := e ▸ List.mem_append_right _ List.mem_cons_self
  obtain ⟨l, hl, rfl, -⟩ := (mem_expiredIds os).mp hmem
  obtain ⟨hentry, hst⟩ := mem_looks os hl
  rw [← e, List.nodup_append] at hnodup
  exact ⟨fun hd => hnodup.2.2 _ hd _ List.mem_cons_self rfl, l.ref,
    Std.TreeMap.mem_toList_iff_getElem?_eq_some.mp hentry, hst⟩

theorem stoppedLong_ends (entries : List (String × Ref)) (s : Registry σ) :
    Ends (stoppedLong os .abstracted entries) s fun r s' =>
      r = .ok (((looks os s.heap entries s.os).filter (Look.late s.heap)).map (·.id)) ∧ OsOnly s s' := by
  induction entries generalizing s with
  | nil => exact ⟨rfl, s.os, rfl⟩
  | cons e rest ih =>
    obtain ⟨id, ref⟩ := e
    simp only [stoppedLong, getState, looks, ends_bind, ends_read, andThen_ok]
    split
    · simp only [onContainer, Container.getInfo, Container.readC, sys, worldOf, putWorld, lockGuard_abstracted, ends_bind,
        ends_read, ends_zoom, ends_call, andThen_ok, Function.update_eq_self]
      refine Ends.mono (ih _) ?_
      intro r s' hpost
      obtain ⟨rfl, o, rfl⟩ := hpost
      rw [andThen_ok, ends_pure]
      refine ⟨?_, o, rfl⟩
      rw [List.filter_cons, Look.late]
      split
      · rename_i hlate
        simp [hlate]
      · rename_i hlate
        simp [hlate]
    · exact ih s

/-! ## The second loop -/

/-- The ids in `gone` were taken away, and nothing else. -/
structure Swept (gone : String → Prop) (s s' : Registry σ) : Prop where
  containers : ∀ (id : String) (ref : Ref),
    s'.containers[id]? = some ref ↔ s.containers[id]? = some ref ∧ ¬gone id
  nameToId : ∀ name id : String, s'.nameToId[name]? = some id ↔ s.nameToId[name]? = some id ∧ ¬gone id
  removed : ∀ (id : String) (ref : Ref), s.containers[id]? = some ref → gone id → (s'.heap ref).state = .removed
  others : ∀ ref, (∀ id : String, s.containers[id]? = some ref → ¬gone id) → s'.heap ref = s.heap ref

/-- STOPPED and ERROR lead to REMOVING, and DEAD is no state of a settled container. -/
theorem stopped_removable {c : Container} (hs : Container.Settled c.state)
    (hst : c.state = .stopped ∨ c.state = .dead ∨ c.state = .error) :
    c.state ≠ .running ∧ isStateTransitionValid c c.state .removing = true := by
  rcases hst with e | e | e
  · rw [e]
    exact ⟨by simp, rfl⟩
  · exact absurd e (Container.settled_not_dead hs)
  · rw [e]
    exact ⟨by simp, rfl⟩

/-- One turn of the second loop: the removal goes through and both entries go. -/
theorem removeStopped_ends (h : Sound s) (hc : s.containers[id]? = some ref)
    (hst : (s.heap ref).state = .stopped ∨ (s.heap ref).state = .dead ∨ (s.heap ref).state = .error) :
    Ends (removeStopped os .abstracted id) s fun r s' => r = .ok () ∧ ∃ c : Container, c.state = .removed ∧
      s'.heap = Function.update s.heap ref c ∧ s'.containers = s.containers.erase id ∧
      s'.nameToId = s.nameToId.erase (s.heap ref).config.name := by
  obtain ⟨hcons, hset⟩ := h.settled ref (h.allocated id ref hc)
  obtain ⟨hrun, hv⟩ := stopped_removable hset hst
  rw [removeStopped, ends_bind, ends_read, andThen_ok, hc]
  dsimp only
  rw [ignoreErrors, ends_tryCatch, ends_bind, onContainer, ends_zoom]
  refine Ends.mono (Container.remove_ends os true (w := worldOf ref s) hcons) ?_
  intro r w hpost
  obtain ⟨hk, ⟨rfl, hrem⟩ | ⟨-, -, ⟨hr, -⟩ | hinv⟩⟩ := hpost
  · have hc' : (putWorld ref w s).containers[id]? = some ref := hc
    rw [andThen_ok, unregisterContainer, ends_bind, ends_read, andThen_ok, hc']
    dsimp only
    rw [ends_modify]
    refine ⟨rfl, w.c, hrem, rfl, rfl, ?_⟩
    have hname : w.c.config.name = (s.heap ref).config.name := congrArg ContainerConfig.name hk.identity.config
    simp [putWorld, hname]
  · exact absurd hr hrun
  · exact absurd (hv.symm.trans hinv) (by simp)

/-- A container is registered once. -/
theorem IndexInverse.id_unique (hi : IndexInverse s) {id id' : String}
    (h : s.containers[id]? = some ref) (h' : s.containers[id']? = some ref) : id' = id :=
  Option.some.inj ((hi.ofId id' ref h').symm.trans (hi.ofId id ref h))

/-- A turn takes away its id and no more. -/
theorem Swept.next {s s1 s2 : Registry σ} {gone : String → Prop} {c : Container}
    (hi : IndexInverse s) (h : Swept gone s s1) (hc : s.containers[id]? = some ref) (hrem : c.state = .removed)
    (hheap : s2.heap = Function.update s1.heap ref c) (hcs : s2.containers = s1.containers.erase id)
    (hns : s2.nameToId = s1.nameToId.erase (s.heap ref).config.name) : Swept (fun i => gone i ∨ i = id) s s2 := by
  constructor
  · intro i ref'
    simp only [hcs, Std.TreeMap.getElem?_erase, compare_eq_iff_eq]
    by_cases e : id = i
    · simp [e]
    · rw [if_neg e, h.containers]
      simp [Ne.symm e]
  · intro name i
    simp only [hns, Std.TreeMap.getElem?_erase, compare_eq_iff_eq]
    by_cases e : (s.heap ref).config.name = name
    · -- the name leads to `id` and nowhere else
      have hid : s.nameToId[name]? = some id := e ▸ hi.ofId id ref hc
      rw [if_pos e, hid]
      simp +contextual
    · rw [if_neg e, h.nameToId]
      have hne : s.nameToId[name]? = some i → i ≠ id := by
        intro hn hid
        obtain ⟨ref', hc', hname⟩ := hi.ofName name i hn
        rw [hid, hc] at hc'
        cases hc'
        exact e hname
      constructor
      · intro hpost
        obtain ⟨hn, hg⟩ := hpost
        exact ⟨hn, by simp [hg, hne hn]⟩
      · intro hpost
        obtain ⟨hn, hg⟩ := hpost
        exact ⟨hn, fun hgone => hg (Or.inl hgone)⟩
  · intro i ref' hc' hgone
    rw [hheap]
    by_cases e : ref' = ref
    · rw [e, Function.update_self]
      exact hrem
    · rw [Function.update_of_ne e]
      refine h.removed i ref' hc' (hgone.resolve_right ?_)
      intro hid
      rw [hid, hc] at hc'
      exact e (Option.some.inj hc').symm
  · intro ref' hstay
    have hne : ref' ≠ ref := fun e => hstay id (e ▸ hc) (Or.inr rfl)
    rw [hheap, Function.update_of_ne hne]
    exact h.others ref' fun i hc' hg => hstay i hc' (Or.inl hg)

/-! ## Both loops -/

theorem cleanupStoppedContainers_ends (h : Sound s) (hi : IndexInverse s) :
    Ends (cleanupStoppedContainers os .abstracted) s fun r s' => r = .ok () ∧ Swept (Expired os s) s s' := by
  simp only [cleanupStoppedContainers, lockGuard_abstracted]
  rw [ends_bind, ends_read, andThen_ok, ends_bind]
  have hfirst : Ends (stoppedLong os .abstracted s.containers.toList) s fun r s' =>
    r = .ok (expiredIds os s) ∧ OsOnly s s' := stoppedLong_ends os _ s
  refine Ends.mono hfirst ?_
  intro r s0 hpost
  obtain ⟨rfl, ho⟩ := hpost
  rw [andThen_ok]
  have hstart : Forgets s s0 ∧ Swept (· ∈ []) s s0 := ⟨(ho.steady h).forgets, by
    obtain ⟨o, rfl⟩ := ho
    exact ⟨by simp, by simp, by simp, fun _ _ => rfl⟩⟩
  -- the ids done so far are the ones that are gone
  refine Ends.mono (ends_forEach_done (I := fun done s1 => Forgets s s1 ∧ Swept (· ∈ done) s s1) ?_ hstart) ?_
  · intro done id rest e s1 hI
    obtain ⟨hf, hsw⟩ := hI
    obtain ⟨hfresh, ref, hc, hst⟩ := expiredIds_split os e
    have hc1 : s1.containers[id]? = some ref := (hsw.containers id ref).mpr ⟨hc, hfresh⟩
    have hheap : s1.heap ref = s.heap ref := hsw.others ref fun i hc' hdone => by
      rw [hi.id_unique hc hc'] at hdone
      exact hfresh hdone
    have hturn := removeStopped_ends os hf.keeps.1 hc1 (hheap ▸ hst)
    refine Ends.mono ((removeStopped_forgets os id hf.keeps.1).and hturn) ?_
    intro r s2 hpost
    obtain ⟨⟨hr, hf2⟩, -, c, hrem, hheap2, hcs, hns⟩ := hpost
    rw [hheap] at hns
    have hsw2 := hsw.next hi hc hrem hheap2 hcs hns
    exact ⟨hr, hf.trans hf2, by simpa using hsw2⟩
  · intro r s' hpost
    obtain ⟨hr, -, hsw⟩ := hpost
    simp only [mem_expiredIds] at hsw
    exact ⟨hr, hsw⟩

/-- The calls that leave the two maps inverse to each other wherever they are made. -/
def Call.KeepsIndex : Call → Bool
  | .cleanupRemovedContainers | .updateConfig _ _ => false
  | _ => true

theorem Call.KeepsIndex.careful {c : Call} (h : c.KeepsIndex = true) (s : Registry σ) : c.Careful s := by
  cases c with
  | cleanupRemovedContainers | updateConfig => cases h
  | _ => trivial

/-- In every registry reached by creations, lifecycle operations and the other calls that
    keep the index, and whatever the clock shows: the clean-up returns, exactly the expired
    containers and their names are gone, each of them is REMOVED, and no other container or
    name was touched. -/
theorem cleanupStoppedContainers_exact (heap : Ref → Container) (o : σ) {s : Registry σ}
    (h : Reachable (step os) (fun c => c.KeepsIndex = true) (empty heap o) s) :
    Ends (cleanupStoppedContainers os .abstracted) s fun r s' => r = .ok () ∧ Swept (Expired os s) s s' := by
  have hinv : Sound s ∧ IndexInverse s := by
    refine h.invariant (I := fun s => Sound s ∧ IndexInverse s) ?_ ⟨empty_sound heap o, by simp [empty], by simp [empty]⟩
    intro s c hs hc
    obtain ⟨hs', hi'⟩ := call_ends os c hs.1
    exact ⟨hs', (hi' hs.2).mpr (Call.KeepsIndex.careful hc s)⟩
  exact cleanupStoppedContainers_ends os hinv.1 hinv.2

/-- The clock moves by 400 seconds with every process that is started. -/
def slowOs : Os Container.Procs :=
  { Container.calmOs with systemNow := fun s => (s.next * 400000000000, s) }

/-- The first container stopped before the second one started. -/
def oneStopped : List Call :=
  [.createContainer { id := "c1", name := "web", image := "nginx" }, .startContainer "c1", .stopContainer "c1" 10,
    .createContainer { id := "c2", name := "db", image := "redis" }, .startContainer "c2"]

theorem cleanupStoppedContainers_exact_oneStopped :
    let s := runFrom (step slowOs) (empty anyHeap {}) oneStopped
    Expired slowOs s "c1" ∧ ¬Expired slowOs s "c2" ∧
    Ends (cleanupStoppedContainers slowOs .abstracted) s fun r s' => r = .ok () ∧ Swept (Expired slowOs s) s s' := by
  intro s
  exact ⟨by decide +kernel, by decide +kernel,
    cleanupStoppedContainers_exact slowOs anyHeap {} ⟨oneStopped, by decide, rfl⟩⟩

end DockerCpp.Runtime.Registry
