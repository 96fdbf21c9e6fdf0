/-
  DockerCpp.Core.EventBatch — events are neither lost nor delivered twice.

  Every step leaves an accepted event where it is or moves it to another place, with one
  exception: `enableBatching` on a type that is batched replaces the configuration, and
  drops what was pending there (`a_second_enableBatching_drops_what_is_pending`). So
  events are in exactly one place throughout a run, and a delivered one was given once to
  each subscription that matched, exactly when no `enableBatching` met pending events
  (`exactlyOnce_throughout_iff_careful`). In any run this is so for the events that were
  not dropped (`run_accounted`).
-/

import DockerCpp.Core.EventPlaces
import DockerCpp.Core.EventQueue

namespace DockerCpp

open Lib

/-- The delivery a thread is in, and the listeners that are left. -/
def Pc.notifying : Pc → Option (Delivery × List Subscription)
  | .notify d left _ _ => some (d, left)
  | _ => none

/-- The thread carries no event. -/
structure Pc.Empty (pc : Pc) : Prop where
  held : pc.held = []
  taken : pc.taken = []
  notifying : pc.notifying = none

theorem Pc.Empty.of_eq {pc pc' : Pc} (h : pc = pc') (h' : pc'.Empty) : pc.Empty := h ▸ h'

namespace EventManager

/-! ## Deliveries -/

/-- The listeners called for an accepted event, by the ids of their subscriptions. -/
def callsOf (s : EventManager) (ticket : Nat) : List Nat := (s.calls.filter (·.1.ticket == ticket)).map (·.2)

/-- An event is in one place. When it is delivered, each subscription that matched was
    called once, and nobody else; while it is being delivered, those before the ones that
    are left; otherwise nobody. -/
structure ExactlyOnce (matchesPattern : String → String → Bool) (s : EventManager) : Prop where
  placed : AllPlaced s
  delivered : ∀ d ∈ s.delivered, s.callsOf d.event.ticket = (matched matchesPattern d).map (·.id)
  notifying : ∀ t d left, (s.pcs t).notifying = some (d, left) →
    s.callsOf d.event.ticket ++ left.map (·.id) = (matched matchesPattern d).map (·.id)
  silent : ∀ ticket, s.callsOf ticket ≠ [] → (∃ d ∈ s.delivered, d.event.ticket = ticket) ∨
    ∃ t d left, (s.pcs t).notifying = some (d, left) ∧ d.event.ticket = ticket

/-- As `ExactlyOnce`, of the tickets that are `live`. -/
structure Once (matchesPattern : String → String → Bool) (live : Nat → Prop) (s : EventManager) : Prop where
  placed : Placed live (s.placing (·.ticket))
  delivered : ∀ d ∈ s.delivered, s.callsOf d.event.ticket = (matched matchesPattern d).map (·.id)
  notifying : ∀ t d left, (s.pcs t).notifying = some (d, left) →
    s.callsOf d.event.ticket ++ left.map (·.id) = (matched matchesPattern d).map (·.id)
  silent : ∀ ticket, s.callsOf ticket ≠ [] → (∃ d ∈ s.delivered, d.event.ticket = ticket) ∨
    ∃ t d left, (s.pcs t).notifying = some (d, left) ∧ d.event.ticket = ticket

variable {matchesPattern : String → String → Bool} {live live' : Nat → Prop} {s s' s₁ : EventManager}
  {t : Thread}
  {pc : Pc} {T : Type} {xs gone : List Accepted} {f : Accepted → T} {ty : String}
  {k : After} {x : Accepted} {d : Delivery} {left : List Subscription}

theorem exactlyOnce_iff : ExactlyOnce matchesPattern s ↔ Once matchesPattern (· < s.accepted.length) s := by
  constructor
  · intro h
    have hplaced := h.placed
    rw [AllPlaced, contents_eq] at hplaced
    exact ⟨hplaced, h.delivered, h.notifying, h.silent⟩
  · intro h
    refine ⟨?_, h.delivered, h.notifying, h.silent⟩
    rw [AllPlaced, contents_eq]
    exact h.placed

/-- No listener is called, and no delivery begins or ends. -/
structure Quiet (s s' : EventManager) : Prop where
  calls : s'.calls = s.calls
  delivered : s'.delivered = s.delivered
  notifying : ∀ t, (s'.pcs t).notifying = (s.pcs t).notifying

theorem Quiet.goto (h : Quiet s s₁) (hn : pc.notifying = (s₁.pcs t).notifying) : Quiet s (s₁.goto t pc) :=
  ⟨h.calls, h.delivered, fun u => (forall_goto Pc.notifying hn u).trans (h.notifying u)⟩

theorem Quiet.refl (s : EventManager) : Quiet s s := ⟨rfl, rfl, fun _ => rfl⟩

theorem Once.quiet (h : Once matchesPattern live s) (hq : Quiet s s')
    (hp : Placed live' (s'.placing (·.ticket))) : Once matchesPattern live' s' := by
  have hcalls : s'.callsOf = s.callsOf := by
    funext ticket
    simp only [callsOf, hq.calls]
  refine ⟨hp, ?_, ?_, ?_⟩
  · rw [hcalls, hq.delivered]
    exact h.delivered
  · intro t d left ht
    rw [hq.notifying] at ht
    rw [hcalls]
    exact h.notifying t d left ht
  · intro ticket hne
    rw [hcalls] at hne
    simp only [hq.delivered, hq.notifying]
    exact h.silent ticket hne

/-- An event of a delivery is in the place of its thread. -/
theorem mem_place (f : Accepted → T)
    (hk : (s.pcs t).next = some k) (hx : x ∈ (s.pcs t).load) : f x ∈ s.placing f (k.place t) := by
  rw [placing_place hk]
  exact List.mem_map_of_mem hx

theorem place_thread {k k' : After} {t u : Thread} (h : k.place t = k'.place u) : t = u := by
  unfold After.place at h
  split at h <;> split at h <;> first | exact Place.held.inj h | exact Place.taken.inj h | cases h

theorem load_of_notifying (h : pc.notifying = some (d, left)) : ∃ k, pc.next = some k ∧ d.event ∈ pc.load := by
  cases pc with
  | notify d' left' xs k =>
    cases h
    exact ⟨k, rfl, by simp [Pc.load]⟩
  | _ => cases h

/-- Two threads do not deliver one event. -/
theorem thread_unique (h : Placed live (s.placing (·.ticket))) {t u : Thread}
    (hk : (s.pcs t).next = some k) (hx : x ∈ (s.pcs t).load)
    (hu : (s.pcs u).notifying = some (d, left)) (he : d.event.ticket = x.ticket) : u = t := by
  obtain ⟨k', hk', hd⟩ := load_of_notifying hu
  have hmem := mem_place (·.ticket) hk' hd
  rw [he] at hmem
  exact place_thread (h.apart x.ticket _ _ hmem (mem_place (·.ticket) hk hx))

/-- A delivered event is not being delivered. -/
theorem not_delivered (h : Placed live (s.placing (·.ticket)))
    (hk : (s.pcs t).next = some k) (hx : x ∈ (s.pcs t).load) (hd : d ∈ s.delivered) :
    d.event.ticket ≠ x.ticket := by
  intro he
  have hmem : x.ticket ∈ s.placing (·.ticket) .delivered := by
    rw [← he]
    exact List.mem_map_of_mem (List.mem_map_of_mem hd)
  have hplace := h.apart x.ticket _ _ hmem (mem_place (·.ticket) hk hx)
  unfold After.place at hplace
  split at hplace <;> cases hplace

/-- The listeners of an event are looked up. -/
theorem snapshot_once (h : Once matchesPattern live s)
    (hpc : s.pcs t = .deliver (x :: xs) k)
    (hs' : s' = s.goto t (.notify ⟨x, s.subscriptions⟩ (matched matchesPattern ⟨x, s.subscriptions⟩) xs k))
    (hp : Placed live' (s'.placing (·.ticket))) : Once matchesPattern live' s' := by
  subst hs'
  have hnext : (s.pcs t).next = some k := by rw [hpc]; rfl
  have hload : x ∈ (s.pcs t).load := by simp [hpc, Pc.load]
  have hnone : (s.pcs t).notifying = none := by rw [hpc]; rfl
  have hsilent : s.callsOf x.ticket = [] := by
    by_contra hne
    rcases h.silent x.ticket hne with ⟨d, hd, he⟩ | ⟨u, d, left, hu, he⟩
    · exact not_delivered h.placed hnext hload hd he
    · have hut := thread_unique h.placed hnext hload hu he
      rw [hut, hnone] at hu
      cases hu
  refine ⟨hp, h.delivered, ?_, ?_⟩
  · intro u d left hu
    by_cases hut : u = t
    · subst hut
      rw [goto_self] at hu
      cases hu
      show s.callsOf x.ticket ++ _ = _
      rw [hsilent, List.nil_append]
    · rw [goto_other s hut] at hu
      exact h.notifying u d left hu
  · intro ticket hne
    rcases h.silent ticket hne with hdone | ⟨u, d, left, hu, he⟩
    · exact Or.inl hdone
    · have hut : u ≠ t := by
        intro e
        rw [e, hnone] at hu
        cases hu
      exact Or.inr ⟨u, d, left, by rw [goto_other s hut]; exact hu, he⟩

/-- A listener is called. -/
theorem call_once (h : Once matchesPattern live s)
    {sub : Subscription}
    (hpc : s.pcs t = .notify d (sub :: left) xs k)
    (hs' : s' = { s with calls := s.calls ++ [(d.event, sub.id)] }.goto t (.notify d left xs k))
    (hp : Placed live' (s'.placing (·.ticket))) : Once matchesPattern live' s' := by
  subst hs'
  have hnext : (s.pcs t).next = some k := by rw [hpc]; rfl
  have hload : d.event ∈ (s.pcs t).load := by simp [hpc, Pc.load]
  have hnot : (s.pcs t).notifying = some (d, sub :: left) := by rw [hpc]; rfl
  have hcalls : ∀ ticket, callsOf ({ s with calls := s.calls ++ [(d.event, sub.id)] }.goto t (.notify d left xs k)) ticket =
      s.callsOf ticket ++ if d.event.ticket = ticket then [sub.id] else [] := by
    intro ticket
    show ((s.calls ++ [(d.event, sub.id)]).filter _).map _ = _
    rw [List.filter_append, List.map_append]
    by_cases he : d.event.ticket = ticket
    · simp [callsOf, he]
    · simp [callsOf, he]
  refine ⟨hp, ?_, ?_, ?_⟩
  · intro d' hd'
    have hne : ¬ d.event.ticket = d'.event.ticket := fun e => not_delivered h.placed hnext hload hd' e.symm
    rw [hcalls, if_neg hne, List.append_nil]
    exact h.delivered d' hd'
  · intro u d' left' hu
    by_cases hut : u = t
    · subst hut
      rw [goto_self] at hu
      cases hu
      rw [hcalls, if_pos rfl, List.append_assoc]
      exact h.notifying u d (sub :: left) hnot
    · rw [goto_other _ hut] at hu
      have hne : ¬ d.event.ticket = d'.event.ticket :=
        fun e => hut (thread_unique h.placed hnext hload hu e.symm)
      rw [hcalls, if_neg hne, List.append_nil]
      exact h.notifying u d' left' hu
  · intro ticket hne
    by_cases he : d.event.ticket = ticket
    · exact Or.inr ⟨t, d, left, by rw [goto_self]; rfl, he⟩
    · rw [hcalls, if_neg he, List.append_nil] at hne
      rcases h.silent ticket hne with hdone | ⟨u, d', left', hu, he'⟩
      · exact Or.inl hdone
      · have hut : u ≠ t := by
          intro e
          rw [e, hnot] at hu
          cases hu
          exact he he'
        exact Or.inr ⟨u, d', left', by rw [goto_other _ hut]; exact hu, he'⟩

/-- Nobody is left to be called for an event. -/
theorem finish_once (h : Once matchesPattern live s)
    (hpc : s.pcs t = .notify d [] xs k)
    (hs' : s' = { s with delivered := s.delivered ++ [d] }.goto t (.deliver xs k))
    (hp : Placed live' (s'.placing (·.ticket))) : Once matchesPattern live' s' := by
  subst hs'
  have hnot : (s.pcs t).notifying = some (d, []) := by rw [hpc]; rfl
  refine ⟨hp, ?_, ?_, ?_⟩
  · intro d' hd'
    rcases List.mem_append.mp hd' with hd' | hd'
    · exact h.delivered d' hd'
    · rw [List.mem_singleton.mp hd']
      have hcalls := h.notifying t d [] hnot
      rw [List.map_nil, List.append_nil] at hcalls
      exact hcalls
  · intro u d' left' hu
    by_cases hut : u = t
    · subst hut
      rw [goto_self] at hu
      cases hu
    · rw [goto_other _ hut] at hu
      exact h.notifying u d' left' hu
  · intro ticket hne
    rcases h.silent ticket hne with ⟨d', hd', he⟩ | ⟨u, d', left', hu, he⟩
    · exact Or.inl ⟨d', List.mem_append_left _ hd', he⟩
    · by_cases hut : u = t
      · rw [hut, hnot] at hu
        cases hu
        exact Or.inl ⟨d, List.mem_append_right _ (by simp), he⟩
      · exact Or.inr ⟨u, d', left', by rw [goto_other _ hut]; exact hu, he⟩

/-! ## A batch is emptied -/

/-- The batch of `ty` is replaced or erased, and the rest stays. -/
structure Emptied (s s' : EventManager) (ty : String) : Prop where
  accepted : s'.accepted = s.accepted
  queue : s'.eventQueue = s.eventQueue
  pcs : s'.pcs = s.pcs
  quiet : Quiet s s'
  pending : ∀ ty', s'.pending ty' = if ty = ty' then [] else s.pending ty'

/-- What was pending there is nowhere. -/
theorem Emptied.placed {live live' : T → Prop}
    (he : Emptied s s' ty) (h : Placed live (s.placing f)) (hlive : ∀ u, live' u ↔ live u ∧ u ∉ (s.pending ty).map f) :
    Placed live' (s'.placing f) := by
  refine h.clear (.pending ty) hlive ?_ ?_
  · rw [placing, things, he.pending, if_pos rfl]
    rfl
  · intro p hp
    cases p with
    | queue => simp only [placing, things, he.queue]
    | held t => simp only [placing, things, he.pcs]
    | pending ty' =>
      have hty : ¬ty = ty' := fun heq => hp (by rw [heq])
      simp only [placing, things]
      rw [he.pending, if_neg hty]
    | taken t => simp only [placing, things, he.pcs]
    | delivered => simp only [placing, things, he.quiet.delivered]

theorem Emptied.still (he : Emptied s s' ty) (hempty : s.pending ty = []) : Still s s' := by
  have hpend : ∀ ty', s'.pending ty' = s.pending ty' := by
    intro ty'
    rw [he.pending]
    split
    · rename_i hty
      rw [← hty, hempty]
    · rfl
  exact ⟨he.accepted, he.queue, hpend, he.quiet.delivered, fun t => by rw [he.pcs], fun t => by rw [he.pcs]⟩

theorem Emptied.drops (he : Emptied s s' ty) (h : AllPlaced s) (hne : s.pending ty ≠ []) : ¬ AllPlaced s' := by
  intro h'
  rw [AllPlaced, contents_eq] at h h'
  obtain ⟨x, xs, hx⟩ := List.exists_cons_of_ne_nil hne
  have hlive := h.known x.ticket (.pending ty) (by simp [placing, things, hx])
  rw [← he.accepted] at hlive
  obtain ⟨p, hp⟩ := h'.somewhere x.ticket hlive
  have hout := ((he.placed h fun _ => Iff.rfl).known x.ticket p hp).2
  simp [hx] at hout

theorem erase_emptied (s : EventManager) (ty : String) (o : Option Thread) :
    Emptied s { s with batchConfigs := s.batchConfigs.erase ty, batchesOwner := o } ty :=
  ⟨rfl, rfl, rfl, ⟨rfl, rfl, fun _ => rfl⟩, pending_erase rfl⟩

theorem enableBatching_emptied (s : EventManager) (ty : String) (interval : Int) (size : Nat) (now : Int) :
    Emptied s { s with batchConfigs := s.batchConfigs.insert ty ⟨interval, size, true, [], now⟩, batchThread := true } ty :=
  ⟨rfl, rfl, rfl, ⟨rfl, rfl, fun _ => rfl⟩, pending_insert (c := ⟨interval, size, true, [], now⟩) rfl⟩

/-! ## Every step -/

/-- The owner of the mutex and the statistics are nothing an event sees. -/
theorem still_owner_stats (s : EventManager) (o : Option Thread) (stats : EventStatistics) :
    Still s { s with batchesOwner := o, stats := stats } ∧ Quiet s { s with batchesOwner := o, stats := stats } :=
  ⟨⟨rfl, rfl, fun _ => rfl, rfl, fun _ => rfl, fun _ => rfl⟩, ⟨rfl, rfl, fun _ => rfl⟩⟩

/-- A thread without events goes on without. -/
theorem still_quiet_goto (h : Still s s₁ ∧ Quiet s s₁)
    (hwas : (s₁.pcs t).Empty) (hpc : pc.Empty) : Still s (s₁.goto t pc) ∧ Quiet s (s₁.goto t pc) :=
  ⟨h.1.goto (hpc.held.trans hwas.held.symm) (hpc.taken.trans hwas.taken.symm),
    h.2.goto (hpc.notifying.trans hwas.notifying.symm)⟩

/-- It takes or releases the mutex, or counts. -/
theorem goto_owner_stats (o : Option Thread) (stats : EventStatistics) (hwas : (s.pcs t).Empty) (hpc : pc.Empty) :
    Still s ({ s with batchesOwner := o, stats := stats }.goto t pc) ∧
      Quiet s ({ s with batchesOwner := o, stats := stats }.goto t pc) :=
  still_quiet_goto (still_owner_stats s o stats) hwas hpc

theorem resume_still_quiet (hl : Locked s) (hpc : s.pcs t = .after k) :
    Still s (s.resume t k) ∧ Quiet s (s.resume t k) := by
  have hwas : (s.pcs t).Empty := .of_eq hpc ⟨rfl, rfl, rfl⟩
  cases k with
  | direct => exact goto_owner_stats none s.stats hwas ⟨rfl, rfl, rfl⟩
  | count => exact goto_owner_stats s.batchesOwner _ hwas ⟨rfl, rfl, rfl⟩
  | types rest =>
    cases rest with
    | nil => exact goto_owner_stats s.batchesOwner s.stats hwas ⟨rfl, rfl, rfl⟩
    | cons ty rest => exact goto_owner_stats s.batchesOwner s.stats hwas ⟨rfl, rfl, rfl⟩
  | flushing rest =>
    cases rest with
    | nil => exact goto_owner_stats none s.stats hwas ⟨rfl, rfl, rfl⟩
    | cons ty rest =>
      simp only [resume]
      split
      · exact goto_owner_stats s.batchesOwner s.stats hwas ⟨rfl, rfl, rfl⟩
      · exact goto_owner_stats s.batchesOwner s.stats hwas ⟨rfl, rfl, rfl⟩
  | erase ty =>
    -- the batch that is erased was emptied, under the mutex
    have hempty : s.pending ty = [] := by
      rcases (hl.at hpc _ rfl rfl).2 ty rfl with hbatch | hempty
      · cases hbatch
      · exact hempty
    have herased := erase_emptied s ty none
    exact still_quiet_goto ⟨herased.still hempty, herased.quiet⟩ hwas ⟨rfl, rfl, rfl⟩

theorem takeBatch_quiet (hpc : s.pcs t = .processBatch ty k) : Quiet s (s.takeBatch t ty k) := by
  obtain ⟨-, -, hcalls, hdel, -⟩ := takeBatch_fields s t ty k
  refine ⟨hcalls, hdel, fun u => ?_⟩
  by_cases hu : u = t
  · subst hu
    rw [takeBatch_self, hpc]
    rfl
  · rw [takeBatch_other s hu]

/-- No `enableBatching` gets the mutex while events of its type are pending. -/
def Careful (s : EventManager) : Action → Prop
  | .enableBatching ty _ _ _ => s.batchesOwner = none → s.pending ty = []
  | _ => True

variable (matchesPattern)

theorem step_enableBatching (hfree : s.batchesOwner = none) (ty : String) (interval : Int) (size : Nat)
    (now : Int) : Emptied s (s.step matchesPattern (.enableBatching ty interval size now)) ty := by
  have he := enableBatching_emptied s ty interval size now
  simpa only [step, act, enableBatching, hfree, if_true, Option.getD_some] using he

/-- A step that drops nothing leaves every event somewhere, and what it accepts is new. -/
theorem careful_placed {live live' : T → Prop} (hl : Locked s)
    (h : Placed live (s.placing f)) {a : Action} (hc : Careful s a) {new : List Accepted}
    (hacc : (s.step matchesPattern a).accepted = s.accepted ++ new) (hnew : ∀ x ∈ new, ¬live (f x))
    (hlive : ∀ u, live' u ↔ live u ∨ u ∈ new.map f) : Placed live' ((s.step matchesPattern a).placing f) := by
  have hs := step_to matchesPattern s a
  generalize s.step matchesPattern a = s' at hs hacc ⊢
  have hkeep : s'.accepted = s.accepted → Placed live (s'.placing f) → Placed live' (s'.placing f) := by
    intro hsame hp
    have hnil : new = [] := by simpa using hsame.symm.trans hacc
    have heq : live' = live := by
      funext u
      simp [hlive u, hnil]
    rw [heq]
    exact hp
  have hstill : Still s s' → Placed live' (s'.placing f) := fun hst => hkeep hst.accepted (hst.placed h)
  cases hs with
  | stay => exact hkeep rfl h
  | subscribe pattern => exact hkeep rfl h
  | unsubscribe id =>
    have hsame : Still s (s.unsubscribe id) := by
      unfold unsubscribe
      split
      · exact ⟨rfl, rfl, fun _ => rfl, rfl, fun _ => rfl, fun _ => rfl⟩
      · exact .refl s
    exact hstill hsame
  | setMaxQueueSize maxSize => exact hkeep rfl h
  | publish e hpc => exact hstill (goto_owner_stats s.batchesOwner _ (.of_eq hpc ⟨rfl, rfl, rfl⟩) ⟨rfl, rfl, rfl⟩).1
  | drop hpc hfull => exact hstill (goto_owner_stats s.batchesOwner s.stats (.of_eq hpc ⟨rfl, rfl, rfl⟩) ⟨rfl, rfl, rfl⟩).1
  | @push n e x hpc hroom hx =>
    have hgrown : s.accepted ++ [x] = s.accepted ++ new := hacc
    obtain rfl := List.append_cancel_left hgrown
    refine push_placed h (hnew x List.mem_cons_self) (fun u => ?_) hpc _
    rw [hlive u, List.map_singleton, List.mem_singleton]
  | dequeue hpc htop => exact hkeep rfl (dequeue_placed h hpc htop.1)
  | direct hpc hfree hoff =>
    exact hstill ((still_owner_stats s (some .processing) s.stats).1.goto (by rw [hpc]; rfl) (by rw [hpc]; rfl))
  | @batched now x c c' pc hpc hfree hconf hpend hnext =>
    have hempty : pc.Empty := by
      rcases hnext with rfl | rfl
      · exact ⟨rfl, rfl, rfl⟩
      · exact ⟨rfl, rfl, rfl⟩
    exact hkeep rfl (batched_placed h hpc hconf hpend hempty.held hempty.taken)
  | takeBatch hpc ho => exact hkeep (takeBatch_fields s _ _ _).2.1 (takeBatch_placed h hpc)
  | endDelivery hpc =>
    have hwas : (s.pcs _).Empty := .of_eq hpc ⟨by simp [Pc.held], by simp [Pc.taken], rfl⟩
    exact hstill (goto_owner_stats s.batchesOwner s.stats hwas ⟨rfl, rfl, rfl⟩).1
  | snapshot hpc => exact hstill ((Still.refl s).goto (by rw [hpc]; rfl) (by rw [hpc]; rfl))
  | @call t d sub left xs k hpc =>
    have hsame : Still s { s with calls := s.calls ++ [(d.event, sub.id)] } :=
      ⟨rfl, rfl, fun _ => rfl, rfl, fun _ => rfl, fun _ => rfl⟩
    exact hstill (hsame.goto (by rw [hpc]; rfl) (by rw [hpc]; rfl))
  | finish hpc => exact hkeep rfl (finish_placed h hpc)
  | resume hpc => exact hstill (resume_still_quiet hl hpc).1
  | enableBatching ty interval size now hfree =>
    exact hstill ((enableBatching_emptied s ty interval size now).still (hc hfree))
  | eraseBatch hfree hempty => exact hstill ((erase_emptied s _ s.batchesOwner).still hempty)
  | closeBatch ty hpc hfree => exact hstill (goto_owner_stats _ s.stats (.of_eq hpc ⟨rfl, rfl, rfl⟩) ⟨rfl, rfl, rfl⟩).1
  | @scan now order types hpc hfree =>
    have hsame : Still s { s with batchConfigs := s.batchConfigs.map fun _ c => BatchConfig.pass c now } :=
      ⟨rfl, rfl, pending_pass rfl, rfl, fun _ => rfl, fun _ => rfl⟩
    exact hstill (hsame.goto (by rw [hpc]; rfl) (by rw [hpc]; rfl))
  | @flush _ n pc hpc hnext =>
    have hwas : (s.pcs (.client n)).Empty := by
      rcases hpc with hpc | hpc
      · exact .of_eq hpc ⟨rfl, rfl, rfl⟩
      · exact .of_eq hpc ⟨rfl, rfl, rfl⟩
    have hempty : pc.Empty := by
      rcases hnext with rfl | rfl
      · exact ⟨rfl, rfl, rfl⟩
      · exact ⟨rfl, rfl, rfl⟩
    exact hstill (goto_owner_stats s.batchesOwner s.stats hwas hempty).1
  | flushLock order hpc hfree => exact hstill (goto_owner_stats _ s.stats (.of_eq hpc ⟨rfl, rfl, rfl⟩) ⟨rfl, rfl, rfl⟩).1

/-- Every step that is not about a listener is quiet. -/
theorem step_once (hl : Locked s) (h : Once matchesPattern live s) (a : Action)
    (hp : Placed live' ((s.step matchesPattern a).placing (·.ticket))) :
    Once matchesPattern live' (s.step matchesPattern a) := by
  have hs := step_to matchesPattern s a
  generalize s.step matchesPattern a = s' at hs hp ⊢
  cases hs with
  | snapshot hpc => exact snapshot_once h hpc rfl hp
  | call hpc => exact call_once h hpc rfl hp
  | finish hpc => exact finish_once h hpc rfl hp
  | unsubscribe id =>
    have hquiet : Quiet s (s.unsubscribe id) := by
      unfold unsubscribe
      split
      · exact ⟨rfl, rfl, fun _ => rfl⟩
      · exact .refl s
    exact h.quiet hquiet hp
  | takeBatch hpc ho => exact h.quiet (takeBatch_quiet hpc) hp
  | resume hpc => exact h.quiet (resume_still_quiet hl hpc).2 hp
  | publish e hpc => exact h.quiet ⟨rfl, rfl, forall_goto Pc.notifying (by rw [hpc]; rfl)⟩ hp
  | drop hpc hfull => exact h.quiet ⟨rfl, rfl, forall_goto Pc.notifying (by rw [hpc]; rfl)⟩ hp
  | push hpc hroom hx => exact h.quiet ⟨rfl, rfl, forall_goto Pc.notifying (by rw [hpc]; rfl)⟩ hp
  | dequeue hpc htop => exact h.quiet ⟨rfl, rfl, forall_goto Pc.notifying (by rw [hpc]; rfl)⟩ hp
  | direct hpc hfree hoff => exact h.quiet ⟨rfl, rfl, forall_goto Pc.notifying (by rw [hpc]; rfl)⟩ hp
  | batched hpc hfree hconf hpend hnext =>
    refine h.quiet ⟨rfl, rfl, forall_goto Pc.notifying ?_⟩ hp
    rw [hpc]
    rcases hnext with rfl | rfl
    · rfl
    · rfl
  | endDelivery hpc => exact h.quiet ⟨rfl, rfl, forall_goto Pc.notifying (by rw [hpc]; rfl)⟩ hp
  | closeBatch ty hpc hfree => exact h.quiet ⟨rfl, rfl, forall_goto Pc.notifying (by rw [hpc]; rfl)⟩ hp
  | scan types hpc hfree => exact h.quiet ⟨rfl, rfl, forall_goto Pc.notifying (by rw [hpc]; rfl)⟩ hp
  | @flush _ n pc hpc hnext =>
    have hwas : (s.pcs (.client n)).notifying = none := by
      rcases hpc with hpc | hpc
      · rw [hpc]; rfl
      · rw [hpc]; rfl
    refine h.quiet ⟨rfl, rfl, forall_goto Pc.notifying ?_⟩ hp
    rcases hnext with rfl | rfl
    · exact hwas.symm
    · exact hwas.symm
  | flushLock order hpc hfree => exact h.quiet ⟨rfl, rfl, forall_goto Pc.notifying (by rw [hpc]; rfl)⟩ hp
  | _ => exact h.quiet ⟨rfl, rfl, fun _ => rfl⟩ hp

/-- What is accepted has the next ticket. -/
theorem step_accepted (s : EventManager) (a : Action) :
    ∃ new, (s.step matchesPattern a).accepted = s.accepted ++ new ∧
      (new = [] ∨ ∃ x, new = [x] ∧ x.ticket = s.accepted.length) := by
  rcases step_queue matchesPattern s a with ⟨-, hsame, -⟩ | ⟨x, hx⟩ | ⟨x, hx⟩
  · exact ⟨[], by rw [hsame, List.append_nil], Or.inl rfl⟩
  · exact ⟨[x], hx.accepted, Or.inr ⟨x, rfl, hx.ticket⟩⟩
  · exact ⟨[], by rw [hx.accepted, List.append_nil], Or.inl rfl⟩

theorem step_exactlyOnce (hl : Locked s) (h : ExactlyOnce matchesPattern s) {a : Action}
    (hc : Careful s a) : ExactlyOnce matchesPattern (s.step matchesPattern a) := by
  rw [exactlyOnce_iff] at h ⊢
  obtain ⟨new, hacc, hnew⟩ := step_accepted matchesPattern s a
  refine step_once matchesPattern hl h a (careful_placed matchesPattern hl h.placed hc hacc ?_ ?_)
  · intro x hx
    rcases hnew with rfl | ⟨y, rfl, hy⟩
    · cases hx
    · rw [List.mem_singleton.mp hx, hy]
      exact Nat.lt_irrefl _
  · intro u
    rw [hacc, List.length_append]
    rcases hnew with rfl | ⟨y, rfl, hy⟩
    · simp
    · simp only [List.length_singleton, List.map_singleton, List.mem_singleton, hy]
      omega

theorem step_exactlyOnce_iff (hl : Locked s) (h : ExactlyOnce matchesPattern s) (a : Action) :
    ExactlyOnce matchesPattern (s.step matchesPattern a) ↔ Careful s a := by
  constructor
  · intro h'
    cases a with
    | enableBatching ty interval size now =>
      intro hfree
      by_contra hne
      exact (step_enableBatching matchesPattern hfree ty interval size now).drops h.placed hne h'.placed
    | _ => trivial
  · intro hc
    exact step_exactlyOnce matchesPattern hl h hc

theorem fresh_exactlyOnce : ExactlyOnce matchesPattern {} := by
  refine ⟨⟨?_, ?_, ?_, ?_⟩, by simp, ?_, by simp [callsOf]⟩
  · intro p
    cases p <;> simp [contents, pending, Pc.held, Pc.taken]
  · intro t p q hp
    cases p <;> simp [contents, pending, Pc.held, Pc.taken] at hp
  · simp
  · intro t p hp
    cases p <;> simp [contents, pending, Pc.held, Pc.taken] at hp
  · intro t d left ht
    cases ht

theorem fresh_locked : Locked {} := fun _ => lockedAt_of_next rfl

/-- In a run every accepted event is in exactly one place throughout, and is delivered
    once to each subscription that matched, exactly when no `enableBatching` of it found
    events pending in the batch of its type. -/
theorem exactlyOnce_throughout_iff_careful (actions : List Action) :
    Throughout (step matchesPattern) (ExactlyOnce matchesPattern) {} actions ↔
      EachStep (step matchesPattern) Careful {} actions := by
  refine throughout_iff_eachStep (I := Locked) (P := ExactlyOnce matchesPattern)
    (fun s a hl => step_locked matchesPattern hl a) ?_ fresh_locked (fresh_exactlyOnce matchesPattern) actions
  intro s a hl h
  exact step_exactlyOnce_iff matchesPattern hl h a

/-! ## What is dropped -/

def lostBy (s : EventManager) : Action → List Accepted
  | .enableBatching ty _ _ _ => if s.batchesOwner = none then s.pending ty else []
  | _ => []

/-- The events that are dropped in a run. -/
def lost : EventManager → List Action → List Accepted
  | _, [] => []
  | s, a :: actions => s.lostBy a ++ lost (s.step matchesPattern a) actions

/-- The events that were accepted and not dropped are in one place each, as tickets and as
    they are, and were delivered once. -/
structure Accounted (gone : List Accepted) (s : EventManager) : Prop where
  locked : Locked s
  conserved : Conserved s
  known : ∀ x ∈ gone, x ∈ s.accepted
  once : Once matchesPattern (fun u => u ∈ s.accepted.map (·.ticket) ∧ u ∉ gone.map (·.ticket)) s
  placed : Placed (fun x => x ∈ s.accepted.map id ∧ x ∉ gone.map id) (s.placing id)

theorem Conserved.ticket_lt (h : Conserved s) (hx : x ∈ s.accepted) : x.ticket < s.accepted.length := by
  have hmem : x.ticket ∈ s.accepted.map (·.ticket) := List.mem_map_of_mem hx
  rw [h.tickets] at hmem
  exact List.mem_range.mp hmem

theorem careful_or_drops (s : EventManager) (a : Action) :
    (Careful s a ∧ s.lostBy a = []) ∨
      ∃ ty interval size now, a = .enableBatching ty interval size now ∧ s.batchesOwner = none := by
  cases a with
  | enableBatching ty interval size now =>
    by_cases hfree : s.batchesOwner = none
    · exact Or.inr ⟨ty, interval, size, now, rfl, hfree⟩
    · exact Or.inl ⟨fun h => absurd h hfree, if_neg hfree⟩
  | _ => exact Or.inl ⟨trivial, rfl⟩

/-- One step, for a view that tells the next event from those before it. -/
theorem step_placed (hl : Locked s)
    (h : Placed (fun u => u ∈ s.accepted.map f ∧ u ∉ gone.map f) (s.placing f)) (hgone : ∀ x ∈ gone, x ∈ s.accepted)
    (hfresh : ∀ x ∈ s.accepted, ∀ y : Accepted, y.ticket = s.accepted.length → f x ≠ f y) (a : Action) :
    Placed (fun u => u ∈ (s.step matchesPattern a).accepted.map f ∧ u ∉ (gone ++ s.lostBy a).map f)
      ((s.step matchesPattern a).placing f) := by
  rcases careful_or_drops s a with ⟨hc, hnone⟩ | ⟨ty, interval, size, now, rfl, hfree⟩
  · obtain ⟨new, hacc, hnew⟩ := step_accepted matchesPattern s a
    have hother : ∀ y ∈ new, ∀ x ∈ s.accepted, f x ≠ f y := by
      intro y hy x hx
      rcases hnew with rfl | ⟨z, rfl, hz⟩
      · cases hy
      · rw [List.mem_singleton.mp hy]
        exact hfresh x hx z hz
    refine careful_placed matchesPattern hl h hc hacc ?_ ?_
    · intro y hy hlive
      obtain ⟨x, hx, heq⟩ := List.mem_map.mp hlive.1
      exact hother y hy x hx heq
    · intro u
      rw [hacc, hnone, List.append_nil, List.map_append, List.mem_append]
      constructor
      · intro hu
        rcases hu with ⟨hold | hnewer, hkept⟩
        · exact Or.inl ⟨hold, hkept⟩
        · exact Or.inr hnewer
      · intro hu
        rcases hu with ⟨hold, hkept⟩ | hnewer
        · exact ⟨Or.inl hold, hkept⟩
        · refine ⟨Or.inr hnewer, fun hmem => ?_⟩
          obtain ⟨y, hy, rfl⟩ := List.mem_map.mp hnewer
          obtain ⟨x, hx, heq⟩ := List.mem_map.mp hmem
          exact hother y hy x (hgone x hx) heq
  · have he := step_enableBatching matchesPattern hfree ty interval size now
    refine he.placed h fun u => ?_
    rw [he.accepted, lostBy, if_pos hfree, List.map_append, List.mem_append, not_or, and_assoc]

theorem step_accounted (h : Accounted matchesPattern gone s) (a : Action) :
    Accounted matchesPattern (gone ++ s.lostBy a) (s.step matchesPattern a) := by
  have hplaced : ∀ {T : Type} (f : Accepted → T), (∀ x y : Accepted, f x = f y → x.ticket = y.ticket) →
      Placed (fun u => u ∈ s.accepted.map f ∧ u ∉ gone.map f) (s.placing f) →
      Placed (fun u => u ∈ (s.step matchesPattern a).accepted.map f ∧ u ∉ (gone ++ s.lostBy a).map f)
        ((s.step matchesPattern a).placing f) := by
    intro T f hf hp
    refine step_placed matchesPattern h.locked hp h.known ?_ a
    intro x hx y hy heq
    have hlt := h.conserved.ticket_lt hx
    rw [hf x y heq, hy] at hlt
    exact Nat.lt_irrefl _ hlt
  have hlost : ∀ x ∈ s.lostBy a, x ∈ s.accepted := by
    intro x hx
    rcases careful_or_drops s a with ⟨-, hnone⟩ | ⟨ty, interval, size, now, rfl, hfree⟩
    · rw [hnone] at hx
      cases hx
    · rw [lostBy, if_pos hfree] at hx
      have hmem : x ∈ s.placing id (.pending ty) := by simpa [placing, things] using hx
      simpa using (h.placed.known x (.pending ty) hmem).1
  have hgrows : s.accepted ⊆ (s.step matchesPattern a).accepted := by
    obtain ⟨new, hacc, -⟩ := step_accepted matchesPattern s a
    rw [hacc]
    exact List.subset_append_left _ _
  refine ⟨step_locked matchesPattern h.locked a, conserved_step matchesPattern h.conserved a, ?_, ?_, ?_⟩
  · intro x hx
    rcases List.mem_append.mp hx with hx | hx
    · exact hgrows (h.known x hx)
    · exact hgrows (hlost x hx)
  · exact step_once matchesPattern h.locked h.once a (hplaced (·.ticket) (fun _ _ heq => heq) h.once.placed)
  · exact hplaced id (fun x y heq => congrArg Accepted.ticket heq) h.placed

theorem run_accounted (h : Accounted matchesPattern gone s) (actions : List Action) :
    Accounted matchesPattern (gone ++ lost matchesPattern s actions) (runFrom (step matchesPattern) s actions) := by
  induction actions generalizing gone s with
  | nil => simpa [lost, runFrom] using h
  | cons a actions ih =>
    have hrest := ih (step_accounted matchesPattern h a)
    rwa [List.append_assoc] at hrest

theorem fresh_accounted : Accounted matchesPattern [] {} := by
  have hempty : ∀ {T : Type} (f : Accepted → T) (p : Place), placing f {} p = [] := by
    intro T f p
    cases p <;> simp [placing, things, pending, Pc.held, Pc.taken]
  have hnothing : ∀ {T : Type} (f : Accepted → T),
      Placed (fun u => u ∈ List.map f [] ∧ u ∉ List.map f []) (placing f {}) := by
    intro T f
    refine ⟨fun p => by rw [hempty]; exact List.nodup_nil, fun u p q hp => ?_, fun u hu => ?_, fun u p hp => ?_⟩
    · rw [hempty] at hp
      cases hp
    · cases hu.1
    · rw [hempty] at hp
      cases hp
  have hfresh := exactlyOnce_iff.mp (fresh_exactlyOnce matchesPattern)
  exact ⟨fresh_locked, fresh_conserved, fun _ hx => hx, ⟨hnothing _, hfresh.delivered, hfresh.notifying, hfresh.silent⟩,
    hnothing id⟩

/-- The interval of a batch is changed while an event is pending in it: the event is
    nowhere. -/
theorem a_second_enableBatching_drops_what_is_pending :
    let e : Event := { type := "build", data := "", id := 1 }
    let s := runFrom (step fun _ _ => true) {} [.enableBatching "build" 1000 100 0, .publish 0 e, .push 0, .dequeue ⟨0, e⟩,
      .processEvent 1]
    let s' := s.step (fun _ _ => true) (.enableBatching "build" 500 100 2)
    s.pending "build" = [⟨0, e⟩] ∧ s'.pending "build" = [] ∧ s'.accepted = [⟨0, e⟩] ∧ s'.eventQueue = [] ∧
      s'.delivered = [] ∧ ¬ AllPlaced s' := by
  intro e s s'
  have hpend : s.pending "build" = [⟨0, e⟩] := by decide +kernel
  have hfree : s.batchesOwner = none := by decide +kernel
  have hplaced : AllPlaced s := by
    have hrun : Locked s ∧ ExactlyOnce (fun _ _ => true) s := by
      refine runFrom_eachStep (I := fun s => Locked s ∧ ExactlyOnce (fun _ _ => true) s) (Q := Careful) ?_
        ⟨fresh_locked, fresh_exactlyOnce _⟩ ?_
      · intro s a hs hc
        exact ⟨step_locked _ hs.1 a, (step_exactlyOnce_iff _ hs.1 hs.2 a).mpr hc⟩
      · exact ⟨fun _ => by decide +kernel, trivial, trivial, trivial, trivial, trivial⟩
    exact hrun.2.placed
  refine ⟨hpend, by decide +kernel, by decide +kernel, by decide +kernel, by decide +kernel, ?_⟩
  exact (step_enableBatching _ hfree "build" 500 100 2).drops hplaced (by rw [hpend]; simp)

end EventManager

end DockerCpp
