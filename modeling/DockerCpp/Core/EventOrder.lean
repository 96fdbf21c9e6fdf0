/-
  DockerCpp.Core.EventOrder — the order in which the events of a type reach a subscription.

  Events of one type wait in one line: those a thread has taken out and still delivers,
  then those pending in the batch, then the one the processing thread has just dequeued
  (`line`). The line is in the order of the queue (`Orderly`), and every step keeps it so,
  with one exception: a call of a listener puts its event in front of what the other threads
  still deliver. Two threads can each have taken a part of one batch out, and then the later
  part may be delivered first (`the_batch_thread_is_overtaken`). Where no listener is called
  out of turn, deliveries are in order (`deliveries_in_order`).
-/

import DockerCpp.Core.EventOwner

namespace DockerCpp

open Lib

def ofType (ty : String) (xs : List Accepted) : List Accepted := xs.filter (·.event.type == ty)

namespace Pc

/-- What a thread has still to give to the subscription `i`, if it matches. -/
def todo (i : Nat) (ty : String) : Pc → List Accepted
  | .deliver xs _ => ofType ty xs
  | .notify d left xs _ => ofType ty ((if i ∈ left.map (·.id) then [d.event] else []) ++ xs)
  | _ => []

def fetched : Pc → List Accepted
  | .dequeued x => [x]
  | _ => []

end Pc

/-- The thread neither has an event nor delivers one. -/
structure Pc.Resting (pc : Pc) : Prop where
  todo : ∀ i ty, pc.todo i ty = []
  fetched : pc.fetched = []
  notNotify : ∀ d left xs k, pc ≠ .notify d left xs k

namespace EventManager

/-- The events of a type that were given to a subscription, in this order. -/
def callsTo (s : EventManager) (i : Nat) (ty : String) : List Accepted :=
  ofType ty ((s.calls.filter (·.2 == i)).map (·.1))

/-- The queue gave `x` out before `y`. -/
def Before (s : EventManager) (x y : Accepted) : Prop := [x, y].Sublist s.dequeued

/-- Each subscription gets the events of a type in the order of the queue. -/
def InOrder (s : EventManager) : Prop := ∀ i ty, (s.callsTo i ty).Pairwise s.Before

/-- No listener is called for an event while another thread has still to give the same
    subscription an event of this type that the queue gave out before. -/
def InTurn (s : EventManager) : Action → Prop
  | .work t => ∀ d sub left xs k, s.pcs t = .notify d (sub :: left) xs k →
      ∀ u, u ≠ t → ∀ y ∈ (s.pcs u).todo sub.id d.event.event.type, s.Before d.event y
  | _ => True

/-! ## What holds anyway -/

def AllEnabled (s : EventManager) : Prop :=
  ∀ (ty : String) (c : BatchConfig), s.batchConfigs[ty]? = some c → c.enabled = true

variable {s s' : EventManager} {ty : String} {t : Thread} {x : Accepted} {xs : List Accepted} {k : After}
  {sub : Subscription}
  {d : Delivery} {left : List Subscription}

theorem AllEnabled.insert (h : AllEnabled s) {c : BatchConfig} (hc : c.enabled = true)
    (hs' : s'.batchConfigs = s.batchConfigs.insert ty c) : AllEnabled s' := by
  intro ty' c' hc'
  rw [hs', Std.ExtTreeMap.getElem?_insert] at hc'
  split at hc'
  · cases hc'
    exact hc
  · exact h ty' c' hc'

theorem AllEnabled.erase (h : AllEnabled s) (hs' : s'.batchConfigs = s.batchConfigs.erase ty) : AllEnabled s' := by
  intro ty' c' hc'
  rw [hs', Std.ExtTreeMap.getElem?_erase] at hc'
  split at hc'
  · cases hc'
  · exact h ty' c' hc'

theorem takeBatch_enabled (h : AllEnabled s) (t : Thread) (ty : String) (k : After) :
    AllEnabled (s.takeBatch t ty k) := by
  unfold takeBatch
  split
  · rename_i c hc
    exact h.insert (c := { c with pendingEvents := [] }) (h ty c hc) rfl
  · exact h

theorem resume_enabled (h : AllEnabled s) (t : Thread) (k : After) : AllEnabled (s.resume t k) := by
  cases k with
  | direct => exact h
  | count => exact h
  | types rest => cases rest <;> exact h
  | flushing rest =>
    cases rest with
    | nil => exact h
    | cons ty rest =>
      simp only [resume]
      split <;> exact h
  | erase ty => exact h.erase rfl

theorem processEvent_enabled (h : AllEnabled s) {now : Int} (hs : s.processEvent now = some s') : AllEnabled s' := by
  unfold processEvent at hs
  split at hs
  · rename_i x hpc
    split at hs
    · cases hs
    · simp only at hs
      split at hs
      · rename_i c hc
        split at hs
        · rename_i hon
          split at hs
          · cases hs
            exact h.insert (c := { c with pendingEvents := c.pendingEvents ++ [x], lastFlush := now }) hon rfl
          · cases hs
            exact h.insert (c := { c with pendingEvents := c.pendingEvents ++ [x] }) hon rfl
        · cases hs
          exact h
      · cases hs
        exact h
  · cases hs

variable (matchesPattern : String → String → Bool)

/-- No batch is ever disabled: `disableBatching` erases it. -/
theorem step_enabled (h : AllEnabled s) (a : Action) : AllEnabled (s.step matchesPattern a) := by
  by_cases ha : ∃ now, a = .processEvent now
  · obtain ⟨now, rfl⟩ := ha
    unfold step
    cases hs : s.act matchesPattern (.processEvent now) with
    | none => exact h
    | some s' => exact processEvent_enabled h hs
  · have hs := step_to matchesPattern s a
    generalize s.step matchesPattern a = s' at hs ⊢
    cases hs with
    | batched => exact absurd ⟨_, rfl⟩ ha
    | unsubscribe id =>
      unfold unsubscribe
      split <;> exact h
    | takeBatch hpc ho => exact takeBatch_enabled h _ _ _
    | resume hpc => exact resume_enabled h _ _
    | enableBatching ty interval size now hfree => exact h.insert (c := ⟨interval, size, true, [], now⟩) rfl rfl
    | eraseBatch hfree hempty => exact h.erase rfl
    | scan types hpc hfree =>
      intro ty c hc
      change (s.batchConfigs.map _)[ty]? = _ at hc
      rw [Std.ExtTreeMap.getElem?_map] at hc
      obtain ⟨c₀, hc₀, rfl⟩ := Option.map_eq_some_iff.mp hc
      have hon := h ty c₀ hc₀
      unfold BatchConfig.pass
      split <;> exact hon
    | _ => exact h

/-! ## The line -/

theorem ofType_append (ty : String) (xs ys : List Accepted) : ofType ty (xs ++ ys) = ofType ty xs ++ ofType ty ys :=
  List.filter_append xs ys

theorem ofType_sublist {xs ys : List Accepted} (h : xs.Sublist ys) (ty : String) :
    (ofType ty xs).Sublist (ofType ty ys) := h.filter _

def waiting (s : EventManager) (ty : String) : List Accepted :=
  ofType ty (s.pending ty ++ (s.pcs .processing).fetched)

/-- The events of a type for a subscription: those it got, those the thread `t` has still to
    give to it, and those nobody has taken out. -/
def line (s : EventManager) (i : Nat) (ty : String) (t : Thread) : List Accepted :=
  s.callsTo i ty ++ ((s.pcs t).todo i ty ++ s.waiting ty)

/-- Lines are in the order of the queue. Batches are of one type, and subscriptions have
    different ids. -/
structure Orderly (s : EventManager) : Prop where
  order : ∀ i ty t, (s.line i ty t).Pairwise s.Before
  known : ∀ i ty t, ∀ x ∈ s.line i ty t, x ∈ s.dequeued
  enabled : AllEnabled s
  typed : ∀ ty, ∀ x ∈ s.pending ty, x.event.type = ty
  ids : (s.subscriptions.map (·.id)).Nodup
  fresh : ∀ sub ∈ s.subscriptions, sub.id < s.nextSubscriptionId
  left : ∀ t d left xs k, s.pcs t = .notify d left xs k → (left.map (·.id)).Nodup

theorem Orderly.inOrder (h : Orderly s) : InOrder s := by
  intro i ty
  exact (List.pairwise_append.mp (h.order i ty .batch)).1

/-- Nothing is subscribed, dequeued or delivered, and one thread goes on. -/
structure Calm (s s' : EventManager) (t : Thread) : Prop where
  dequeued : s'.dequeued = s.dequeued
  calls : s'.calls = s.calls
  subscriptions : s'.subscriptions = s.subscriptions
  nextId : s'.nextSubscriptionId = s.nextSubscriptionId
  others : ∀ u, u ≠ t → s'.pcs u = s.pcs u

theorem Calm.goto (s s₁ : EventManager) (hd : s₁.dequeued = s.dequeued) (hc : s₁.calls = s.calls)
    (hs : s₁.subscriptions = s.subscriptions) (hn : s₁.nextSubscriptionId = s.nextSubscriptionId) (hp : s₁.pcs = s.pcs)
    (t : Thread) (pc : Pc) : Calm s (s₁.goto t pc) t :=
  ⟨hd, hc, hs, hn, fun u hu => by rw [goto_other s₁ hu, hp]⟩

/-- A shorter line stays in order. -/
theorem Orderly.calm (h : Orderly s) (hc : Calm s s' t) (henabled : AllEnabled s')
    (htyped : ∀ ty, ∀ x ∈ s'.pending ty, x.event.type = ty)
    (hline : ∀ i ty u, (s'.line i ty u).Sublist (s.line i ty u))
    (hself : ∀ d left xs k, s'.pcs t = .notify d left xs k → (left.map (·.id)).Nodup) : Orderly s' where
  order i ty u := by
    have hbefore : s'.Before = s.Before := by
      unfold Before
      rw [hc.dequeued]
    rw [hbefore]
    exact (h.order i ty u).sublist (hline i ty u)
  known i ty u x hx := by
    rw [hc.dequeued]
    exact h.known i ty u x ((hline i ty u).subset hx)
  enabled := henabled
  typed := htyped
  ids := hc.subscriptions ▸ h.ids
  fresh := by rw [hc.subscriptions, hc.nextId]; exact h.fresh
  left u d left xs k hu := by
    by_cases hut : u = t
    · subst hut
      exact hself d left xs k hu
    · rw [hc.others u hut] at hu
      exact h.left u d left xs k hu

/-- The thread has no more to do than before, and the batches have no more events. -/
theorem Calm.line (hc : Calm s s' t)
    (hpending : ∀ ty, (s'.pending ty).Sublist (s.pending ty)) (hfetched : (s'.pcs t).fetched.Sublist (s.pcs t).fetched)
    (htodo : ∀ i ty, ((s'.pcs t).todo i ty).Sublist ((s.pcs t).todo i ty)) (i : Nat) (ty : String) (u : Thread) :
    (s'.line i ty u).Sublist (s.line i ty u) := by
  have hwaiting : (s'.waiting ty).Sublist (s.waiting ty) := by
    refine ofType_sublist ((hpending ty).append ?_) ty
    by_cases hp : Thread.processing = t
    · rw [hp]
      exact hfetched
    · rw [hc.others _ hp]
  have hcalls : s'.callsTo i ty = s.callsTo i ty := by
    unfold callsTo
    rw [hc.calls]
  unfold EventManager.line
  rw [hcalls]
  refine (List.Sublist.refl _).append (List.Sublist.append ?_ hwaiting)
  by_cases hut : u = t
  · subst hut
    exact htodo i ty
  · rw [hc.others u hut]

/-- A thread goes on to something that is no delivery. -/
theorem Orderly.rest (h : Orderly s) (hc : Calm s s' t) (henabled : AllEnabled s')
    (hpending : ∀ ty, (s'.pending ty).Sublist (s.pending ty)) (hpc : (s'.pcs t).Resting) : Orderly s' := by
  refine h.calm hc henabled (fun ty x hx => h.typed ty x ((hpending ty).subset hx)) ?_ ?_
  · refine hc.line hpending ?_ ?_
    · rw [hpc.fetched]
      exact List.nil_sublist _
    · intro i ty
      rw [hpc.todo]
      exact List.nil_sublist _
  · exact fun d left xs k hnotify => absurd hnotify (hpc.notNotify d left xs k)

/-- A thread goes on, and nothing else changes that the order depends on. -/
theorem Orderly.goto (h : Orderly s) (s₁ : EventManager) (pc : Pc) (hpc : pc.Resting)
    (hd : s₁.dequeued = s.dequeued) (hc : s₁.calls = s.calls) (hs : s₁.subscriptions = s.subscriptions)
    (hn : s₁.nextSubscriptionId = s.nextSubscriptionId) (hp : s₁.pcs = s.pcs)
    (hb : s₁.batchConfigs = s.batchConfigs) : Orderly (s₁.goto t pc) := by
  have hpending : ∀ ty, (s₁.goto t pc).pending ty = s.pending ty := by
    intro ty
    show (s₁.batchConfigs[ty]?.map _).getD [] = _
    rw [hb]
    rfl
  refine h.rest (Calm.goto s s₁ hd hc hs hn hp t pc) ?_ (fun ty => by rw [hpending]) ?_
  · intro ty c hc
    exact h.enabled ty c (hb ▸ hc)
  · rw [goto_self]
    exact hpc

/-! ## The steps of an event -/

theorem Before.mono {zs : List Accepted} (h : s'.dequeued = s.dequeued ++ zs) {x y : Accepted}
    (hxy : s.Before x y) : s'.Before x y := by
  unfold Before
  rw [h]
  exact hxy.trans (List.sublist_append_left _ _)

theorem dequeue_orderly (h : Orderly s) (hpc : s.pcs .processing = .idle) (queue : List Accepted) :
    Orderly ({ s with eventQueue := queue, dequeued := s.dequeued ++ [x] }.goto .processing (.dequeued x)) := by
  have hline : ∀ i ty u, line ({ s with eventQueue := queue, dequeued := s.dequeued ++ [x] }.goto .processing
      (.dequeued x)) i ty u = s.line i ty u ++ ofType ty [x] := by
    intro i ty u
    have hwait : waiting
        ({ s with eventQueue := queue, dequeued := s.dequeued ++ [x] }.goto .processing (.dequeued x)) ty =
        s.waiting ty ++ ofType ty [x] := by
      unfold waiting
      rw [goto_self, hpc, ← ofType_append]
      simp only [Pc.fetched, List.append_nil]
      rfl
    have htodo : ((({ s with eventQueue := queue, dequeued := s.dequeued ++ [x] } : EventManager).goto .processing
        (.dequeued x)).pcs u).todo i ty = (s.pcs u).todo i ty := by
      by_cases hu : u = .processing
      · subst hu
        rw [goto_self, hpc]
        rfl
      · rw [goto_other _ hu]
    unfold line
    rw [hwait, htodo, List.append_assoc, List.append_assoc]
    rfl
  refine ⟨?_, ?_, h.enabled, h.typed, h.ids, h.fresh, ?_⟩
  · intro i ty u
    rw [hline, List.pairwise_append]
    refine ⟨(h.order i ty u).imp (Before.mono rfl), ?_, ?_⟩
    · exact (List.pairwise_singleton _ x).sublist List.filter_sublist
    · intro c hc y hy
      obtain rfl : y = x := by simpa using List.mem_of_mem_filter hy
      exact (List.singleton_sublist.mpr (h.known i ty u c hc)).append (List.Sublist.refl [y])
  · intro i ty u c hc
    rw [hline] at hc
    rcases List.mem_append.mp hc with hc | hc
    · exact List.mem_append_left _ (h.known i ty u c hc)
    · exact List.mem_append_right _ (List.mem_of_mem_filter hc)
  · intro t d left xs k hnotify
    by_cases ht : t = .processing
    · subst ht
      rw [goto_self] at hnotify
      cases hnotify
    · rw [goto_other _ ht] at hnotify
      exact h.left t d left xs k hnotify

theorem ofType_singleton_of_ne (h : x.event.type ≠ ty) : ofType ty [x] = [] := by
  simp [ofType, h]

theorem ofType_self (h : ∀ x ∈ xs, x.event.type = ty) : ofType ty xs = xs :=
  List.filter_eq_self.mpr fun x hx => by simpa using h x hx

theorem ofType_other {ty ty' : String} (h : ∀ x ∈ xs, x.event.type = ty) (hne : ty ≠ ty') : ofType ty' xs = [] :=
  List.filter_eq_nil_iff.mpr fun x hx => by simpa [h x hx] using hne

/-- An event that is not batched: its type has no batch, since none is disabled. -/
theorem direct_orderly (h : Orderly s) (hpc : s.pcs .processing = .dequeued x)
    (hoff : ∀ c : BatchConfig, s.batchConfigs[x.event.type]? = some c → c.enabled = false) (o : Option Thread) :
    Orderly ({ s with batchesOwner := o }.goto .processing (.deliver [x] .direct)) := by
  have hempty : s.pending x.event.type = [] := by
    cases hc : s.batchConfigs[x.event.type]? with
    | none => exact pending_of_none hc
    | some c =>
      have hon := h.enabled _ c hc
      rw [hoff c hc] at hon
      cases hon
  have hc : Calm s ({ s with batchesOwner := o }.goto .processing (.deliver [x] .direct)) .processing :=
    Calm.goto s { s with batchesOwner := o } rfl rfl rfl rfl rfl _ _
  refine h.calm hc h.enabled h.typed ?_ ?_
  · intro i ty u
    unfold line waiting
    rw [goto_self]
    refine (List.Sublist.refl _).append ?_
    by_cases hu : u = .processing
    · subst hu
      rw [goto_self, hpc]
      by_cases hty : x.event.type = ty
      · subst hty
        show (ofType _ [x] ++ ofType _ (s.pending _ ++ [])).Sublist ([] ++ ofType _ (s.pending _ ++ [x]))
        rw [hempty]
        simp [ofType]
      · show (ofType ty [x] ++ ofType ty (s.pending ty ++ [])).Sublist ([] ++ ofType ty (s.pending ty ++ [x]))
        rw [ofType_singleton_of_ne hty]
        exact ofType_sublist ((List.Sublist.refl _).append (List.nil_sublist _)) ty
    · rw [goto_other _ hu]
      refine (List.Sublist.refl _).append (ofType_sublist ?_ ty)
      exact (List.Sublist.refl _).append (List.nil_sublist _)
  · intro d left xs k hnotify
    rw [goto_self] at hnotify
    cases hnotify

/-- The event goes to the end of its batch. -/
theorem batched_orderly (h : Orderly s) {c c' : BatchConfig} {pc : Pc}
    (hpc : s.pcs .processing = .dequeued x) (hconf : s.batchConfigs[x.event.type]? = some c)
    (hpend : c'.pendingEvents = c.pendingEvents ++ [x]) (hrest : pc.Resting)
    (henabled : AllEnabled ({ s with batchConfigs := s.batchConfigs.insert x.event.type c' }.goto .processing pc)) :
    Orderly ({ s with batchConfigs := s.batchConfigs.insert x.event.type c' }.goto .processing pc) := by
  have hpending : ∀ ty, ({ s with batchConfigs := s.batchConfigs.insert x.event.type c' }.goto .processing pc).pending ty =
      if x.event.type = ty then c'.pendingEvents else s.pending ty := pending_insert rfl
  have hc : Calm s ({ s with batchConfigs := s.batchConfigs.insert x.event.type c' }.goto .processing pc) .processing :=
    Calm.goto s { s with batchConfigs := s.batchConfigs.insert x.event.type c' } rfl rfl rfl rfl rfl _ _
  have hwait : ∀ ty, waiting ({ s with batchConfigs := s.batchConfigs.insert x.event.type c' }.goto .processing pc) ty =
      s.waiting ty := by
    intro ty
    unfold waiting
    rw [hpending, goto_self, hrest.fetched, hpc]
    by_cases hty : x.event.type = ty
    · subst hty
      rw [if_pos rfl, hpend, pending_of_some hconf, List.append_nil]
      rfl
    · rw [if_neg hty, ofType_append, ofType_append]
      show _ = ofType ty (s.pending ty) ++ ofType ty [x]
      rw [ofType_singleton_of_ne hty]
      rfl
  refine h.calm hc henabled ?_ ?_ ?_
  · intro ty y hy
    rw [hpending] at hy
    split at hy
    · rename_i hty
      rw [hpend] at hy
      rcases List.mem_append.mp hy with hy | hy
      · rw [← pending_of_some hconf] at hy
        rw [h.typed _ y hy, hty]
      · rw [List.mem_singleton.mp hy, hty]
    · exact h.typed ty y hy
  · intro i ty u
    unfold line
    rw [hwait]
    by_cases hu : u = .processing
    · subst hu
      rw [goto_self, hrest.todo, hpc]
      exact List.Sublist.refl _
    · rw [goto_other _ hu]
      exact List.Sublist.refl _
  · intro d left xs k hnotify
    rw [goto_self] at hnotify
    exact absurd hnotify (hrest.notNotify d left xs k)

theorem takeBatch_calm (s : EventManager) (t : Thread) (ty : String) (k : After) : Calm s (s.takeBatch t ty k) t := by
  unfold takeBatch
  split
  · rename_i c hc
    exact Calm.goto s { s with batchConfigs := s.batchConfigs.insert ty { c with pendingEvents := [] } }
      rfl rfl rfl rfl rfl _ _
  · exact Calm.goto s s rfl rfl rfl rfl rfl _ _

/-- A batch is taken out by a thread: it is at the head of what waits. -/
theorem takeBatch_orderly (h : Orderly s) (hpc : s.pcs t = .processBatch ty k) : Orderly (s.takeBatch t ty k) := by
  have hc := takeBatch_calm s t ty k
  have hpending := takeBatch_pending s t ty k
  have hfetched : ((s.takeBatch t ty k).pcs .processing).fetched = (s.pcs .processing).fetched := by
    by_cases hp : Thread.processing = t
    · rw [hp, takeBatch_self, hpc]
      rfl
    · rw [hc.others _ hp]
  refine h.calm hc (takeBatch_enabled h.enabled t ty k) ?_ ?_ ?_
  · intro ty' x hx
    rw [hpending] at hx
    split at hx
    · cases hx
    · exact h.typed ty' x hx
  · intro i ty' u
    have hcalls : (s.takeBatch t ty k).callsTo i ty' = s.callsTo i ty' := by
      unfold callsTo
      rw [hc.calls]
    unfold line waiting
    rw [hcalls, hpending, hfetched]
    refine (List.Sublist.refl _).append ?_
    by_cases hu : u = t
    · subst hu
      rw [takeBatch_self, hpc]
      show (ofType ty' (s.pending ty) ++ _).Sublist ([] ++ _)
      by_cases hty : ty = ty'
      · subst hty
        rw [if_pos rfl, List.nil_append, List.nil_append, ofType_append]
      · rw [if_neg hty, ofType_other (h.typed ty) hty]
    · rw [hc.others u hu]
      refine (List.Sublist.refl _).append (ofType_sublist (List.Sublist.append ?_ (List.Sublist.refl _)) ty')
      split
      · exact List.nil_sublist _
      · exact List.Sublist.refl _
  · intro d left xs k' hnotify
    rw [takeBatch_self] at hnotify
    cases hnotify

theorem snapshot_orderly (h : Orderly s) (hpc : s.pcs t = .deliver (x :: xs) k) :
    Orderly (s.goto t (.notify ⟨x, s.subscriptions⟩ (matched matchesPattern ⟨x, s.subscriptions⟩) xs k)) := by
  have hc : Calm s (s.goto t (.notify ⟨x, s.subscriptions⟩ (matched matchesPattern ⟨x, s.subscriptions⟩) xs k)) t :=
    Calm.goto s s rfl rfl rfl rfl rfl _ _
  refine h.calm hc h.enabled h.typed (hc.line (fun _ => List.Sublist.refl _) ?_ ?_) ?_
  · rw [goto_self]
    exact List.nil_sublist _
  · intro i ty
    rw [goto_self, hpc]
    refine ofType_sublist ?_ ty
    split
    · exact List.Sublist.refl _
    · exact List.sublist_cons_self x xs
  · intro d left xs' k' hnotify
    rw [goto_self] at hnotify
    cases hnotify
    exact h.ids.sublist (List.filter_sublist.map _)

theorem finish_orderly (h : Orderly s) (hpc : s.pcs t = .notify d [] xs k) (delivered : List Delivery) :
    Orderly ({ s with delivered := delivered }.goto t (.deliver xs k)) := by
  have hc : Calm s ({ s with delivered := delivered }.goto t (.deliver xs k)) t :=
    Calm.goto s { s with delivered := delivered } rfl rfl rfl rfl rfl _ _
  refine h.calm hc h.enabled h.typed (hc.line (fun _ => List.Sublist.refl _) ?_ ?_) ?_
  · rw [goto_self]
    exact List.nil_sublist _
  · intro i ty
    rw [goto_self, hpc]
    exact List.Sublist.refl _
  · intro d' left xs' k' hnotify
    rw [goto_self] at hnotify
    cases hnotify

theorem callsTo_snoc (s : EventManager) (x : Accepted) (j i : Nat) (ty : String) (t : Thread) (pc : Pc) :
    callsTo ({ s with calls := s.calls ++ [(x, j)] }.goto t pc) i ty =
      s.callsTo i ty ++ if j = i then ofType ty [x] else [] := by
  show ofType ty (((s.calls ++ [(x, j)]).filter _).map _) = _
  rw [List.filter_append, List.map_append, ofType_append]
  by_cases hj : j = i
  · simp [callsTo, hj]
  · simp [callsTo, hj, ofType]

theorem waiting_of_notify (hpc : s.pcs t = .notify d left xs k) {s₁ : EventManager} (hp : s₁.pcs = s.pcs)
    (hb : s₁.batchConfigs = s.batchConfigs) (left' : List Subscription) (ty : String) :
    waiting (s₁.goto t (.notify d left' xs k)) ty = s.waiting ty := by
  have hfetched : ((s₁.goto t (.notify d left' xs k)).pcs .processing).fetched = (s.pcs .processing).fetched := by
    by_cases ht : Thread.processing = t
    · rw [ht, goto_self, hpc]
      rfl
    · rw [goto_other _ ht, hp]
  unfold waiting pending
  rw [hfetched]
  show ofType ty ((s₁.batchConfigs[ty]?.map _).getD [] ++ _) = _
  rw [hb]

/-- The subscription that is called, for the type of the event. -/
theorem called_line (h : Orderly s) (hpc : s.pcs t = .notify d (sub :: left) xs k)
    (hturn : ∀ u, u ≠ t → ∀ y ∈ (s.pcs u).todo sub.id d.event.event.type, s.Before d.event y) (u : Thread) :
    let s' := { s with calls := s.calls ++ [(d.event, sub.id)] }.goto t (.notify d left xs k)
    (s'.line sub.id d.event.event.type u).Pairwise s.Before ∧
      ∀ x ∈ s'.line sub.id d.event.event.type u, x ∈ s.dequeued := by
  intro s'
  have hnodup := h.left t d (sub :: left) xs k hpc
  have hgone : sub.id ∉ left.map (·.id) := by
    rw [List.map_cons, List.nodup_cons] at hnodup
    exact hnodup.1
  have hown : ofType d.event.event.type [d.event] = [d.event] := ofType_self (by simp)
  have hcalls : s'.callsTo sub.id d.event.event.type = s.callsTo sub.id d.event.event.type ++ [d.event] := by
    rw [callsTo_snoc, if_pos rfl, hown]
  have hwait : s'.waiting d.event.event.type = s.waiting d.event.event.type := waiting_of_notify hpc rfl rfl left _
  have htodo : (s.pcs t).todo sub.id d.event.event.type = d.event :: ofType d.event.event.type xs := by
    rw [hpc]
    show ofType _ ((if _ then _ else _) ++ xs) = _
    rw [if_pos (by simp), ofType_append, hown]
    rfl
  have hline := h.order sub.id d.event.event.type t
  have hknown := h.known sub.id d.event.event.type t
  unfold line at hline hknown
  rw [htodo] at hline hknown
  by_cases hu : u = t
  · subst hu
    have htodo' : (s'.pcs u).todo sub.id d.event.event.type = ofType d.event.event.type xs := by
      show ((({ s with calls := _ } : EventManager).goto u _).pcs u).todo _ _ = _
      rw [goto_self]
      show ofType _ ((if _ then _ else _) ++ xs) = _
      rw [if_neg hgone, List.nil_append]
    have hsame : s'.line sub.id d.event.event.type u =
        s.callsTo sub.id d.event.event.type ++ (d.event :: ofType d.event.event.type xs ++ s.waiting d.event.event.type) := by
      unfold line
      rw [hcalls, hwait, htodo', List.append_assoc]
      rfl
    rw [hsame]
    exact ⟨hline, hknown⟩
  · have htodo' : (s'.pcs u).todo sub.id d.event.event.type = (s.pcs u).todo sub.id d.event.event.type := by
      show ((({ s with calls := _ } : EventManager).goto t _).pcs u).todo _ _ = _
      rw [goto_other _ hu]
    have hother := h.order sub.id d.event.event.type u
    have hotherKnown := h.known sub.id d.event.event.type u
    unfold line at hother hotherKnown ⊢
    rw [hcalls, hwait, htodo']
    rw [List.pairwise_append] at hline hother
    refine ⟨?_, ?_⟩
    · rw [List.append_assoc, List.pairwise_append, List.singleton_append, List.pairwise_cons]
      refine ⟨hother.1, ⟨?_, hother.2.1⟩, ?_⟩
      · intro y hy
        rcases List.mem_append.mp hy with hy | hy
        · exact hturn u hu y hy
        · exact (List.pairwise_cons.mp hline.2.1).1 y (List.mem_append_right _ hy)
      · intro c hc y hy
        rcases List.mem_cons.mp hy with rfl | hy
        · exact hline.2.2 c hc _ List.mem_cons_self
        · exact hother.2.2 c hc y hy
    · intro x hx
      rw [List.append_assoc, List.mem_append, List.singleton_append, List.mem_cons] at hx
      rcases hx with hx | rfl | hx
      · exact hotherKnown x (List.mem_append_left _ hx)
      · exact hknown _ (List.mem_append_right _ (List.mem_append_left _ List.mem_cons_self))
      · exact hotherKnown x (List.mem_append_right _ hx)

/-- Another subscription, or another type: nothing is called, and no more is to do. -/
theorem uncalled_line (hpc : s.pcs t = .notify d (sub :: left) xs k) {i : Nat}
    (hne : ¬ (sub.id = i ∧ d.event.event.type = ty)) (u : Thread) :
    (line ({ s with calls := s.calls ++ [(d.event, sub.id)] }.goto t (.notify d left xs k)) i ty u).Sublist
      (s.line i ty u) := by
  have hcalls : callsTo ({ s with calls := s.calls ++ [(d.event, sub.id)] }.goto t (.notify d left xs k)) i ty =
      s.callsTo i ty := by
    rw [callsTo_snoc]
    split
    · rename_i hi
      rw [ofType_singleton_of_ne fun hty => hne ⟨hi, hty⟩, List.append_nil]
    · rw [List.append_nil]
  have hwait : waiting ({ s with calls := s.calls ++ [(d.event, sub.id)] }.goto t (.notify d left xs k)) ty =
      s.waiting ty := waiting_of_notify hpc rfl rfl left ty
  unfold line
  rw [hcalls, hwait]
  refine (List.Sublist.refl _).append (List.Sublist.append ?_ (List.Sublist.refl _))
  by_cases hu : u = t
  · subst hu
    rw [goto_self, hpc]
    refine ofType_sublist (List.Sublist.append ?_ (List.Sublist.refl _)) ty
    by_cases hleft : i ∈ left.map (·.id)
    · rw [if_pos hleft, if_pos (by rw [List.map_cons]; exact List.mem_cons_of_mem _ hleft)]
    · rw [if_neg hleft]
      exact List.nil_sublist _
  · rw [goto_other _ hu]

/-- A listener is called: its event goes before what the other threads still have for the
    subscription, so it has to come before them. -/
theorem call_orderly (h : Orderly s) (hpc : s.pcs t = .notify d (sub :: left) xs k)
    (hturn : ∀ u, u ≠ t → ∀ y ∈ (s.pcs u).todo sub.id d.event.event.type, s.Before d.event y) :
    Orderly ({ s with calls := s.calls ++ [(d.event, sub.id)] }.goto t (.notify d left xs k)) := by
  have hlines : ∀ i ty u,
      (line ({ s with calls := s.calls ++ [(d.event, sub.id)] }.goto t (.notify d left xs k)) i ty u).Pairwise
        s.Before ∧
      ∀ x ∈ line ({ s with calls := s.calls ++ [(d.event, sub.id)] }.goto t (.notify d left xs k)) i ty u,
        x ∈ s.dequeued := by
    intro i ty u
    by_cases hcalled : sub.id = i ∧ d.event.event.type = ty
    · obtain ⟨rfl, rfl⟩ := hcalled
      exact called_line h hpc hturn u
    · have hsub := uncalled_line hpc hcalled u
      exact ⟨(h.order i ty u).sublist hsub, fun x hx => h.known i ty u x (hsub.subset hx)⟩
  refine ⟨fun i ty u => (hlines i ty u).1, fun i ty u => (hlines i ty u).2, h.enabled, h.typed, h.ids, h.fresh, ?_⟩
  intro u d' left' xs' k' hnotify
  by_cases hu : u = t
  · subst hu
    rw [goto_self] at hnotify
    cases hnotify
    have hnodup := h.left u d (sub :: left) xs k hpc
    rw [List.map_cons, List.nodup_cons] at hnodup
    exact hnodup.2
  · rw [goto_other _ hu] at hnotify
    exact h.left u d' left' xs' k' hnotify

/-! ## Runs -/

theorem Orderly.subscribed (h : Orderly s) (hd : s'.dequeued = s.dequeued) (hc : s'.calls = s.calls)
    (hb : s'.batchConfigs = s.batchConfigs) (hp : s'.pcs = s.pcs) (hids : (s'.subscriptions.map (·.id)).Nodup)
    (hfresh : ∀ sub ∈ s'.subscriptions, sub.id < s'.nextSubscriptionId) : Orderly s' where
  order i ty t := by
    have hline : s'.line i ty t = s.line i ty t := by
      unfold line waiting callsTo pending
      rw [hc, hb, hp]
    unfold Before
    rw [hline, hd]
    exact h.order i ty t
  known i ty t := by
    have hline : s'.line i ty t = s.line i ty t := by
      unfold line waiting callsTo pending
      rw [hc, hb, hp]
    rw [hline, hd]
    exact h.known i ty t
  enabled ty c hc' := h.enabled ty c (hb ▸ hc')
  typed ty x hx := by
    unfold pending at hx
    rw [hb] at hx
    exact h.typed ty x hx
  ids := hids
  fresh := hfresh
  left := hp ▸ h.left

theorem resume_orderly (h : Orderly s) (t : Thread) (k : After) : Orderly (s.resume t k) := by
  cases k with
  | direct =>
    exact h.goto { s with batchesOwner := none } (.after .count)
      ⟨fun _ _ => rfl, rfl, by simp⟩ rfl rfl rfl rfl rfl rfl
  | count => exact h.goto { s with stats := _ } .idle ⟨fun _ _ => rfl, rfl, by simp⟩ rfl rfl rfl rfl rfl rfl
  | types rest =>
    cases rest with
    | nil => exact h.goto s .idle ⟨fun _ _ => rfl, rfl, by simp⟩ rfl rfl rfl rfl rfl rfl
    | cons ty rest =>
      exact h.goto s (.processBatch ty (.types rest))
        ⟨fun _ _ => rfl, rfl, by simp⟩ rfl rfl rfl rfl rfl rfl
  | flushing rest =>
    cases rest with
    | nil => exact h.goto { s with batchesOwner := none } .idle ⟨fun _ _ => rfl, rfl, by simp⟩ rfl rfl rfl rfl rfl rfl
    | cons ty rest =>
      simp only [resume]
      split
      · exact h.goto s (.after (.flushing rest)) ⟨fun _ _ => rfl, rfl, by simp⟩ rfl rfl rfl rfl rfl rfl
      · exact h.goto s (.processBatch ty (.flushing rest)) ⟨fun _ _ => rfl, rfl, by simp⟩ rfl rfl rfl rfl rfl rfl
  | erase ty =>
    have hc : Calm s (s.resume t (.erase ty)) t :=
      Calm.goto s { s with batchConfigs := s.batchConfigs.erase ty, batchesOwner := none } rfl rfl rfl rfl rfl _ _
    refine h.rest hc (h.enabled.erase rfl) ?_ ?_
    · intro ty'
      have herase : (s.resume t (.erase ty)).pending ty' = if ty = ty' then [] else s.pending ty' :=
          pending_erase rfl ty'
      rw [herase]
      split
      · exact List.nil_sublist _
      · exact List.Sublist.refl _
    · unfold resume
      rw [goto_self]
      exact ⟨fun _ _ => rfl, rfl, by simp⟩

/-- A batch is replaced or erased. -/
theorem Orderly.emptied (h : Orderly s) (hc : Calm s s' .batch) (hp : s'.pcs = s.pcs)
    (henabled : AllEnabled s') (ty : String)
    (hpending : ∀ ty', s'.pending ty' = if ty = ty' then [] else s.pending ty') :
    Orderly s' := by
  have hsub : ∀ ty', (s'.pending ty').Sublist (s.pending ty') := by
    intro ty'
    rw [hpending]
    split
    · exact List.nil_sublist _
    · exact List.Sublist.refl _
  refine h.calm hc henabled (fun ty' x hx => h.typed ty' x ((hsub ty').subset hx)) (hc.line hsub ?_ ?_) ?_
  · rw [hp]
  · intro i ty'
    rw [hp]
  · intro d left xs k hnotify
    rw [hp] at hnotify
    exact h.left _ d left xs k hnotify

theorem step_orderly (h : Orderly s) {a : Action} (hturn : InTurn s a) : Orderly (s.step matchesPattern a) := by
  have hs := step_to matchesPattern s a
  have henabled := step_enabled matchesPattern h.enabled a
  generalize s.step matchesPattern a = s' at hs henabled ⊢
  cases hs with
  | stay => exact h
  | subscribe pattern =>
    refine h.subscribed rfl rfl rfl rfl ?_ ?_
    · show ((s.subscriptions ++ [_]).map _).Nodup
      rw [List.map_append, List.nodup_append]
      refine ⟨h.ids, by simp, ?_⟩
      intro i hi j hj
      obtain ⟨sub, hsub, rfl⟩ := List.mem_map.mp hi
      obtain rfl : j = s.nextSubscriptionId := by simpa using hj
      exact Nat.ne_of_lt (h.fresh sub hsub)
    · intro sub hsub
      show sub.id < s.nextSubscriptionId + 1
      rcases List.mem_append.mp hsub with hsub | hsub
      · exact Nat.lt_succ_of_lt (h.fresh sub hsub)
      · rw [List.mem_singleton.mp hsub]
        exact Nat.lt_succ_self _
  | unsubscribe id =>
    unfold unsubscribe
    split
    · refine h.subscribed rfl rfl rfl rfl ?_ ?_
      · exact h.ids.sublist (List.eraseP_sublist.map _)
      · exact fun sub hsub => h.fresh sub (List.eraseP_sublist.subset hsub)
    · exact h
  | setMaxQueueSize maxSize => exact h.subscribed rfl rfl rfl rfl h.ids h.fresh
  | publish e hpc =>
    exact h.goto { s with stats := _ } (.publish e)
      ⟨fun _ _ => rfl, rfl, by simp⟩ rfl rfl rfl rfl rfl rfl
  | drop hpc hfull => exact h.goto s .idle ⟨fun _ _ => rfl, rfl, by simp⟩ rfl rfl rfl rfl rfl rfl
  | push hpc hroom hx =>
    exact h.goto { s with eventQueue := _, accepted := _, stats := _ } .idle
      ⟨fun _ _ => rfl, rfl, by simp⟩ rfl rfl rfl rfl rfl rfl
  | dequeue hpc htop => exact dequeue_orderly h hpc _
  | direct hpc hfree hoff => exact direct_orderly h hpc hoff _
  | batched hpc hfree hconf hpend hnext =>
    refine batched_orderly h hpc hconf hpend ?_ henabled
    rcases hnext with rfl | rfl
    · exact ⟨fun _ _ => rfl, rfl, by simp⟩
    · exact ⟨fun _ _ => rfl, rfl, by simp⟩
  | takeBatch hpc ho => exact takeBatch_orderly h hpc
  | @endDelivery t k hpc => exact h.goto s (.after k) ⟨fun _ _ => rfl, rfl, by simp⟩ rfl rfl rfl rfl rfl rfl
  | snapshot hpc => exact snapshot_orderly matchesPattern h hpc
  | call hpc => exact call_orderly h hpc (hturn _ _ _ _ _ hpc)
  | finish hpc => exact finish_orderly h hpc _
  | resume hpc => exact resume_orderly h _ _
  | enableBatching ty interval size now hfree =>
    refine h.emptied ⟨rfl, rfl, rfl, rfl, fun _ _ => rfl⟩ rfl henabled ty ?_
    exact pending_insert (c := ⟨interval, size, true, [], now⟩) rfl
  | @eraseBatch n ty hfree hempty =>
    exact h.emptied ⟨rfl, rfl, rfl, rfl, fun _ _ => rfl⟩ rfl henabled ty (pending_erase rfl)
  | closeBatch ty hpc hfree =>
    exact h.goto { s with batchesOwner := _ } (.processBatch ty (.erase ty))
      ⟨fun _ _ => rfl, rfl, by simp⟩ rfl rfl rfl rfl rfl rfl
  | @scan now order types hpc hfree =>
    refine h.rest (Calm.goto s { s with batchConfigs := s.batchConfigs.map fun _ c => BatchConfig.pass c now }
      rfl rfl rfl rfl rfl _ _) henabled ?_ ?_
    · intro ty
      have hsame : pending { s with batchConfigs := s.batchConfigs.map fun _ c => BatchConfig.pass c now } ty =
          s.pending ty :=
        pending_pass rfl ty
      exact hsame ▸ List.Sublist.refl _
    · rw [goto_self]
      exact ⟨fun _ _ => rfl, rfl, by simp⟩
  | flush hpc hnext =>
    refine h.goto s _ ?_ rfl rfl rfl rfl rfl rfl
    rcases hnext with rfl | rfl
    · exact ⟨fun _ _ => rfl, rfl, by simp⟩
    · exact ⟨fun _ _ => rfl, rfl, by simp⟩
  | flushLock order hpc hfree =>
    exact h.goto { s with batchesOwner := _ } (.after (.flushing order))
      ⟨fun _ _ => rfl, rfl, by simp⟩ rfl rfl rfl rfl rfl rfl

theorem fresh_orderly : Orderly {} := by
  have hempty : ∀ ty, pending {} ty = [] := fun ty => by simp [pending]
  have hline : ∀ i ty t, line {} i ty t = [] := by
    intro i ty t
    unfold line waiting
    rw [hempty]
    rfl
  refine ⟨?_, ?_, ?_, ?_, List.nodup_nil, by simp, ?_⟩
  · intro i ty t
    rw [hline]
    exact List.Pairwise.nil
  · intro i ty t x hx
    rw [hline] at hx
    cases hx
  · intro ty c hc
    simp at hc
  · intro ty x hx
    rw [hempty] at hx
    cases hx
  · intro t d left xs k hnotify
    cases hnotify

/-- In a run in which no listener is called out of turn, every subscription gets the events
    of a type in the order in which they were dequeued, in every state. -/
theorem deliveries_in_order (actions : List Action) (h : EachStep (step matchesPattern) InTurn {} actions) :
    Throughout (step matchesPattern) InOrder {} actions := by
  refine throughout_of_eachStep ?_ (fun _ hs => hs.inOrder) fresh_orderly h
  exact fun s a hs hturn => step_orderly matchesPattern hs hturn

/-- The batch thread has taken the first event out and has not called the listener yet; the
    processing thread takes out the second one and calls it. -/
theorem the_batch_thread_is_overtaken :
    let e₀ : Event := { type := "build", data := "", id := 1 }
    let e₁ : Event := { type := "build", data := "", id := 2 }
    let s := runFrom (step fun _ _ => true) {} [.subscribe "build", .enableBatching "build" 10 2 0,
      .publish 0 e₀, .push 0, .dequeue ⟨0, e₀⟩, .processEvent 1, .work .processing, .publish 0 e₁, .push 0,
      .processBatchQueue 10 ["build"], .work .batch, .work .batch,
      .dequeue ⟨1, e₁⟩, .processEvent 20, .work .processing, .work .processing, .work .processing,
      .work .batch, .work .batch]
    s.dequeued = [⟨0, e₀⟩, ⟨1, e₁⟩] ∧ s.calls = [(⟨1, e₁⟩, 1), (⟨0, e₀⟩, 1)] ∧ ¬ InOrder s := by
  intro e₀ e₁ s
  have hdequeued : s.dequeued = [⟨0, e₀⟩, ⟨1, e₁⟩] := by decide +kernel
  have hcalls : s.callsTo 1 "build" = [⟨1, e₁⟩, ⟨0, e₀⟩] := by decide +kernel
  refine ⟨hdequeued, by decide +kernel, fun horder => ?_⟩
  have hpair := horder 1 "build"
  rw [hcalls] at hpair
  have hbefore : [⟨1, e₁⟩, ⟨0, e₀⟩].Sublist s.dequeued := (List.pairwise_cons.mp hpair).1 _ List.mem_cons_self
  rw [hdequeued] at hbefore
  exact absurd (hbefore.eq_of_length rfl) (by decide)

/-- `InTurn` for the manager's own threads. -/
def checkTurn (s : EventManager) (t : Thread) : Bool :=
  match s.pcs t with
  | .notify d (sub :: _) _ _ => [Thread.processing, .batch].all fun u =>
      u == t || ((s.pcs u).todo sub.id d.event.event.type).all fun y => decide ([d.event, y].Sublist s.dequeued)
  | _ => true

theorem inTurn_of_check (hclients : ∀ n, s.pcs (.client n) = .idle)
    (h : s.checkTurn t = true) : InTurn s (.work t) := by
  intro d sub left xs k hpc u hu y hy
  rw [checkTurn, hpc] at h
  obtain ⟨hprocessing, hbatch⟩ : (Thread.processing ≠ t →
        ∀ y ∈ (s.pcs .processing).todo sub.id d.event.event.type, s.Before d.event y) ∧
      (Thread.batch ≠ t → ∀ y ∈ (s.pcs .batch).todo sub.id d.event.event.type, s.Before d.event y) := by
    simpa [or_iff_not_imp_left, Before] using h
  cases u with
  | processing => exact hprocessing hu y hy
  | batch => exact hbatch hu y hy
  | client n =>
    rw [hclients] at hy
    cases hy

/-- The batch thread and the processing thread have each taken out one event of the type; they
    call the listener one after the other. -/
def deliveriesInTurn : List Action :=
  let e₀ : Event := { type := "build", data := "", id := 1 }
  let e₁ : Event := { type := "build", data := "", id := 2 }
  [.subscribe "build", .enableBatching "build" 10 2 0,
    .publish 0 e₀, .push 0, .dequeue ⟨0, e₀⟩, .processEvent 1, .work .processing, .publish 0 e₁, .push 0,
    .processBatchQueue 10 ["build"], .work .batch, .work .batch,
    .dequeue ⟨1, e₁⟩, .processEvent 20, .work .processing,
    .work .batch, .work .batch, .work .processing, .work .processing]

theorem deliveriesInTurn_inTurn : EachStep (step fun _ _ => true) InTurn {} deliveriesInTurn := by
  refine ⟨trivial, trivial, trivial, trivial, trivial, trivial, ?_, trivial, trivial, trivial, ?_, ?_, trivial, trivial,
    ?_, ?_, ?_, ?_, ?_, trivial⟩
  all_goals
    refine inTurn_of_check (fun n => ?_) (by decide +kernel)
    cases n <;> rfl

theorem deliveries_in_order_both_threads :
    (runFrom (step fun _ _ => true) {} deliveriesInTurn).calls =
        [(⟨0, { type := "build", data := "", id := 1 }⟩, 1), (⟨1, { type := "build", data := "", id := 2 }⟩, 1)] ∧
      EachStep (step fun _ _ => true) InTurn {} deliveriesInTurn ∧
      Throughout (step fun _ _ => true) InOrder {} deliveriesInTurn :=
  ⟨by decide +kernel, deliveriesInTurn_inTurn, deliveries_in_order _ _ deliveriesInTurn_inTurn⟩

end EventManager

end DockerCpp
