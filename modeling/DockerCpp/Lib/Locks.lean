/-
  DockerCpp.Lib.Locks — threads that lock and unlock mutexes around steps on shared data.

  What a thread still has to do is its `Code`. A step of a thread is one lock, one unlock
  or one action; an action has a label, changes the data and may look at them to go on. A
  mutex has an owner and is not recursive: a thread that locks what it owns never goes on
  (`Relocks`).

  `Obeys` is a discipline for code: mutexes are taken in the order of their ranks and
  given back last first, with an assumption on the data at each label; where the
  assumption fails the code goes on to lock what it holds. Of threads that obey, it is
  proved that none ever locks a mutex it owns iff the assumption holds at every action
  taken (`relocks_never_iff`), and that every thread can then still be brought to its end,
  unless some thread is about to act against the assumption (`can_finish`).
-/

import Mathlib.Logic.Function.Basic
import Mathlib.Data.List.Pairwise
import DockerCpp.Lib.Run

namespace Lib

inductive Code (M L D : Type) where
  | done
  | lock (m : M) (next : Code M L D)
  | unlock (m : M) (next : Code M L D)
  | act (l : L) (f : D → D) (next : D → Code M L D)

structure Threads (T M L D : Type) where
  data : D
  owner : M → Option T
  code : T → Code M L D

namespace Threads

variable {T M L D : Type} [DecidableEq T] [DecidableEq M]

/-- The next step of a thread; nothing happens while it waits for a mutex. -/
def advance (s : Threads T M L D) (t : T) : Threads T M L D :=
  match s.code t with
  | .done => s
  | .lock m next =>
    if s.owner m = none then
      { s with owner := Function.update s.owner m (some t), code := Function.update s.code t next }
    else s
  | .unlock m next => { s with owner := Function.update s.owner m none, code := Function.update s.code t next }
  | .act _ f next => { s with data := f s.data, code := Function.update s.code t (next s.data) }

/-- A thread that has nothing to do is given something. -/
def start (s : Threads T M L D) (t : T) (c : Code M L D) : Threads T M L D :=
  match s.code t with
  | .done => { s with code := Function.update s.code t c }
  | _ => s

/-- The thread's next step locks a mutex it owns. -/
def Relocks (s : Threads T M L D) (t : T) : Prop := ∃ m next, s.code t = .lock m next ∧ s.owner m = some t

instance (s : Threads T M L D) (t : T) : Decidable (s.Relocks t) :=
  match h : s.code t with
  | .lock m next => decidable_of_iff (s.owner m = some t) ⟨fun ho => ⟨m, next, h, ho⟩, fun hr => by
      obtain ⟨m', next', hc, ho⟩ := hr
      rw [h] at hc
      cases hc
      exact ho⟩
  | .done | .unlock _ _ | .act _ _ _ => isFalse fun hr => by
      obtain ⟨m', next', hc, -⟩ := hr
      rw [h] at hc
      cases hc

/-- If the thread's next step is an action, what its label assumes holds. -/
def Careful (P : L → D → Prop) (s : Threads T M L D) (t : T) : Prop := ∀ l f next, s.code t = .act l f next → P l s.data

end Threads

/-! ## The discipline -/

namespace Code

variable {M L D : Type}

/-- It begins by locking what is held. -/
def Stuck (held : List M) : Code M L D → Prop
  | .lock m _ => m ∈ held
  | _ => False

/-- With the mutexes held, the last one first. -/
def Obeys (rank : M → Nat) (P : L → D → Prop) : List M → Code M L D → Prop
  | held, .done => held = []
  | held, .lock m next => (∀ m' ∈ held, rank m' < rank m) ∧ Obeys rank P (m :: held) next
  | held, .unlock m next => ∃ rest, held = m :: rest ∧ Obeys rank P rest next
  | held, .act l _ next => ∀ d, (P l d → Obeys rank P held (next d)) ∧ (¬ P l d → Stuck held (next d))

end Code

namespace Threads

variable {T M L D : Type} {rank : M → Nat} {P : L → D → Prop}

/-- What each thread holds, and that it obeys with that. -/
structure Holding (rank : M → Nat) (P : L → D → Prop) (s : Threads T M L D) (held : T → List M) : Prop where
  owns : ∀ t m, m ∈ held t ↔ s.owner m = some t
  falling : ∀ t, (held t).Pairwise fun m m' => rank m' < rank m
  obeys : ∀ t, (s.code t).Obeys rank P (held t)

variable {s : Threads T M L D} {held : T → List M} {t : T} {next : Code M L D} {m : M} {waiting : List T}
  {Goal : Threads T M L D → Prop}

/-- At a lock, everything the thread holds has a lower rank. -/
theorem Holding.below (h : Holding rank P s held)
    (hc : s.code t = .lock m next) {m' : M} (ho : s.owner m' = some t) : rank m' < rank m := by
  have hob := h.obeys t
  rw [hc, Code.Obeys] at hob
  exact hob.1 m' ((h.owns t m').mpr ho)

theorem Holding.not_relocks (h : Holding rank P s held) (t : T) : ¬ s.Relocks t := by
  rintro ⟨m, next, hc, ho⟩
  exact absurd (h.below hc ho) (Nat.lt_irrefl _)

theorem Holding.done_owns_nothing (h : Holding rank P s held)
    (hc : s.code t = .done) (m : M) : s.owner m ≠ some t := by
  intro ho
  have hob := h.obeys t
  rw [hc, Code.Obeys] at hob
  have hmem := (h.owns t m).mpr ho
  rw [hob] at hmem
  cases hmem

theorem Holding.unlock_owns (h : Holding rank P s held)
    (hc : s.code t = .unlock m next) : ∃ rest, held t = m :: rest ∧ next.Obeys rank P rest := by
  have hob := h.obeys t
  rw [hc, Code.Obeys] at hob
  exact hob

variable [DecidableEq T] {s s' : Threads T M L D}

/-- A thread moves on, with another list of what it holds. -/
theorem Holding.update (h : Holding rank P s held) {c : Code M L D}
    (hc : s'.code = Function.update s.code t c) {mine : List M} (hmine : ∀ m, m ∈ mine ↔ s'.owner m = some t)
    (hother : ∀ u, u ≠ t → ∀ m, s'.owner m = some u ↔ s.owner m = some u)
    (hfall : mine.Pairwise fun m m' => rank m' < rank m) (hob : c.Obeys rank P mine) :
    Holding rank P s' (Function.update held t mine) := by
  refine ⟨fun u m => ?_, fun u => ?_, fun u => ?_⟩ <;> by_cases hu : u = t
  · rw [hu, Function.update_self]
    exact hmine m
  · rw [Function.update_of_ne hu, h.owns u m]
    exact (hother u hu m).symm
  · rw [hu, Function.update_self]
    exact hfall
  · rw [Function.update_of_ne hu]
    exact h.falling u
  · rw [hc, hu, Function.update_self, Function.update_self]
    exact hob
  · rw [hc, Function.update_of_ne hu, Function.update_of_ne hu]
    exact h.obeys u

theorem act_holding (h : Holding rank P s held) {l : L} {f : D → D}
    {next : D → Code M L D} (hc : s.code t = .act l f next) (hP : P l s.data) :
    ∃ held', Holding rank P { s with data := f s.data, code := Function.update s.code t (next s.data) } held' := by
  have hob := h.obeys t
  rw [hc, Code.Obeys] at hob
  exact ⟨_, h.update rfl (h.owns t) (fun _ _ _ => Iff.rfl) (h.falling t) ((hob s.data).1 hP)⟩

theorem start_holding (h : Holding rank P s held) (t : T) {c : Code M L D}
    (hc : c.Obeys rank P []) : ∃ held', Holding rank P (s.start t c) held' := by
  unfold start
  split
  · rename_i hdone
    have hnone : ∀ m, m ∈ ([] : List M) ↔ s.owner m = some t := by
      intro m
      simp [h.done_owns_nothing hdone m]
    exact ⟨_, h.update rfl hnone (fun _ _ _ => Iff.rfl) List.Pairwise.nil hc⟩
  · exact ⟨held, h⟩

variable [DecidableEq M] {owner : M → Option T}

omit [DecidableEq T] in
/-- Who owns what after a lock of a free mutex. -/
theorem owns_lock (hfree : owner m = none) (t : T) {mine : List M} (hmine : ∀ m', m' ∈ mine ↔ owner m' = some t) :
    (∀ m', m' ∈ m :: mine ↔ Function.update owner m (some t) m' = some t) ∧
      ∀ u, u ≠ t → ∀ m', Function.update owner m (some t) m' = some u ↔ owner m' = some u := by
  refine ⟨fun m' => ?_, fun u hu m' => ?_⟩
  · by_cases hm : m' = m
    · simp [hm]
    · simp [hm, hmine]
  · by_cases hm : m' = m
    · simp [hm, hfree, Ne.symm hu]
    · simp [hm]

omit [DecidableEq T] in
theorem owns_unlock {rest : List M} (hmine : ∀ m', m' ∈ m :: rest ↔ owner m' = some t) (hnot : m ∉ rest) :
    (∀ m', m' ∈ rest ↔ Function.update owner m none m' = some t) ∧
      ∀ u, u ≠ t → ∀ m', Function.update owner m none m' = some u ↔ owner m' = some u := by
  have ht : owner m = some t := (hmine m).mp List.mem_cons_self
  refine ⟨fun m' => ?_, fun u hu m' => ?_⟩
  · by_cases hm : m' = m
    · simp [hm, hnot]
    · simp [hm, ← hmine]
  · by_cases hm : m' = m
    · simp [hm, ht, Ne.symm hu]
    · simp [hm]

theorem lock_holding (h : Holding rank P s held) (hc : s.code t = .lock m next) (hfree : s.owner m = none) :
    ∃ held', Holding rank P { s with
      owner := Function.update s.owner m (some t), code := Function.update s.code t next } held' := by
  have hob := h.obeys t
  rw [hc, Code.Obeys] at hob
  obtain ⟨hmine, hother⟩ := owns_lock hfree t (h.owns t)
  exact ⟨_, h.update rfl hmine hother (List.pairwise_cons.mpr ⟨hob.1, h.falling t⟩) hob.2⟩

theorem unlock_holding (h : Holding rank P s held) (hc : s.code t = .unlock m next) : ∃ held', Holding rank P { s with
      owner := Function.update s.owner m none, code := Function.update s.code t next } held' := by
  obtain ⟨rest, hh, hnext⟩ := h.unlock_owns hc
  have hfall := h.falling t
  rw [hh, List.pairwise_cons] at hfall
  have hnot : m ∉ rest := fun hmem => absurd (hfall.1 m hmem) (Nat.lt_irrefl _)
  obtain ⟨hmine, hother⟩ := owns_unlock (fun m' => hh ▸ h.owns t m') hnot
  exact ⟨_, h.update rfl hmine hother hfall.2 hnext⟩

theorem advance_holding (h : Holding rank P s held)
    (hP : s.Careful P t) : ∃ held', Holding rank P (s.advance t) held' := by
  unfold advance
  split
  · exact ⟨held, h⟩
  · rename_i m next hc
    split
    · rename_i hfree
      exact lock_holding h hc hfree
    · exact ⟨held, h⟩
  · rename_i m next hc
    exact unlock_holding h hc
  · rename_i l f next hc
    exact act_holding h hc (hP l f next hc)

/-- An action against the assumption leaves its thread at a mutex it owns. -/
theorem careless_relocks (h : Holding rank P s held) (hP : ¬ s.Careful P t) : (s.advance t).Relocks t := by
  simp only [Careful, not_forall] at hP
  obtain ⟨l, f, next, hc, hP⟩ := hP
  have hob := h.obeys t
  rw [hc, Code.Obeys] at hob
  have hstuck := (hob s.data).2 hP
  simp only [advance, hc, Relocks, Function.update_self]
  cases hn : next s.data with
  | lock m next' =>
    rw [hn] at hstuck
    exact ⟨m, next', rfl, (h.owns t m).mp hstuck⟩
  | done | unlock m next' | act l' f' next' =>
    rw [hn] at hstuck
    exact hstuck.elim

/-! ## Runs

What is started, when and by whom is up to the machine that uses the threads: a command
either advances a thread or starts code that obeys. -/

section runs

variable {A : Type} {step : Threads T M L D → A → Threads T M L D} {Q : Threads T M L D → A → Prop}

omit [DecidableEq T] [DecidableEq M] in
/-- No thread ever locks a mutex it owns iff every action is taken where its label's
    assumption holds. -/
theorem relocks_never_iff
    (hstep : ∀ s a held, Holding rank P s held → Q s a → ∃ held', Holding rank P (step s a) held')
    (hcareless : ∀ s a held, Holding rank P s held → ¬ Q s a → ∃ t, (step s a).Relocks t)
    {s : Threads T M L D} {held : T → List M} (h : Holding rank P s held) (actions : List A) :
    Throughout step (fun s => ∀ t, ¬ s.Relocks t) s actions ↔ EachStep step Q s actions := by
  induction actions generalizing s held with
  | nil => exact ⟨fun _ => trivial, fun _ => h.not_relocks⟩
  | cons a actions ih =>
    constructor
    · rintro ⟨-, hrest⟩
      by_cases hQ : Q s a
      · obtain ⟨held', h'⟩ := hstep s a held h hQ
        exact ⟨hQ, (ih h').mp hrest⟩
      · obtain ⟨t, ht⟩ := hcareless s a held h hQ
        exact absurd ht (hrest.first t)
    · rintro ⟨hQ, hrest⟩
      obtain ⟨held', h'⟩ := hstep s a held h hQ
      exact ⟨h.not_relocks, (ih h').mpr hrest⟩

end runs

/-! ## Every thread can finish

To take a mutex that another thread owns, run that thread until it gives it back. If it
waits for a mutex itself, that one has a higher rank, and so on; the ranks are bounded. -/

/-- Steps of other threads than `waiting`, all of them careful, end in a state that
    satisfies `Goal` or in one where a thread is about to act against the assumption. -/
def Reaches (P : L → D → Prop) (waiting : List T) (s : Threads T M L D) (Goal : Threads T M L D → Prop) : Prop :=
  ∃ ts : List T, (∀ t ∈ ts, t ∉ waiting) ∧ EachStep advance (Careful P) s ts ∧
    (Goal (runFrom advance s ts) ∨ ∃ t, ¬ (runFrom advance s ts).Careful P t)

theorem Reaches.here (h : Goal s) : Reaches P waiting s Goal :=
  ⟨[], by simp, trivial, Or.inl h⟩

theorem Reaches.step
    (ht : t ∉ waiting) (h : s.Careful P t → Reaches P waiting (s.advance t) Goal) : Reaches P waiting s Goal := by
  by_cases hP : s.Careful P t
  · obtain ⟨ts, hts, hq, hgoal⟩ := h hP
    exact ⟨t :: ts, List.forall_mem_cons.mpr ⟨ht, hts⟩, ⟨hP, hq⟩, hgoal⟩
  · exact ⟨[], by simp, trivial, Or.inr ⟨t, hP⟩⟩

/-- What a step of another thread leaves alone. -/
structure SameFor (s s' : Threads T M L D) (t : T) : Prop where
  code : s'.code t = s.code t
  owner : ∀ m, s'.owner m = some t ↔ s.owner m = some t

theorem advance_other (h : Holding rank P s held) {t u : T} (hu : u ≠ t) : SameFor s (s.advance t) u := by
  unfold advance
  split
  · exact ⟨rfl, fun _ => Iff.rfl⟩
  · rename_i m next hc
    split
    · rename_i hfree
      refine ⟨Function.update_of_ne hu _ _, fun m' => ?_⟩
      by_cases hm : m' = m
      · simp [hm, hfree, Ne.symm hu]
      · simp [hm]
    · exact ⟨rfl, fun _ => Iff.rfl⟩
  · rename_i m next hc
    obtain ⟨rest, hh, -⟩ := h.unlock_owns hc
    have hmine : s.owner m = some t := (h.owns t m).mp (by simp [hh])
    refine ⟨Function.update_of_ne hu _ _, fun m' => ?_⟩
    by_cases hm : m' = m
    · simp [hm, hmine, Ne.symm hu]
    · simp [hm]
  · exact ⟨Function.update_of_ne hu _ _, fun _ => Iff.rfl⟩

theorem run_others (h : Holding rank P s held) {u : T} {ts : List T}
    (hts : u ∉ ts) (hq : EachStep advance (Careful P) s ts) : SameFor s (runFrom advance s ts) u := by
  induction ts generalizing s held with
  | nil => exact ⟨rfl, fun _ => Iff.rfl⟩
  | cons t ts ih =>
    obtain ⟨hut, hts⟩ := List.ne_and_not_mem_of_not_mem_cons hts
    obtain ⟨held', h'⟩ := advance_holding h hq.1
    have hstep := advance_other h hut
    have hrest := ih h' hts hq.2
    exact ⟨hrest.code.trans hstep.code, fun m => (hrest.owner m).trans (hstep.owner m)⟩

theorem run_holding (h : Holding rank P s held) {ts : List T}
    (hq : EachStep advance (Careful P) s ts) : ∃ held', Holding rank P (runFrom advance s ts) held' :=
  runFrom_eachStep (I := fun s => ∃ held, Holding rank P s held)
    (fun _ _ hs hP => hs.elim fun _ hs => advance_holding hs hP) ⟨held, h⟩ hq

/-- Threads that wait are found as they were left. -/
theorem Reaches.trans {waiting waiting' : List T} {Mid Goal : Threads T M L D → Prop}
    (hs : Holding rank P s held) (hsub : ∀ t ∈ waiting', t ∈ waiting) (h : Reaches P waiting s Mid)
    (hmid : ∀ s' held', Holding rank P s' held' → (∀ t ∈ waiting, SameFor s s' t) → Mid s' →
        Reaches P waiting' s' Goal) :
    Reaches P waiting' s Goal := by
  obtain ⟨ts, hts, hq, hend⟩ := h
  have hts' : ∀ t ∈ ts, t ∉ waiting' := fun t ht hw => hts t ht (hsub t hw)
  rcases hend with hend | hend
  · obtain ⟨held', hs'⟩ := run_holding hs hq
    have hsame : ∀ t ∈ waiting, SameFor s (runFrom advance s ts) t := fun t ht =>
      run_others hs (fun hmem => hts t hmem ht) hq
    obtain ⟨ts', hother, hq', hgoal⟩ := hmid _ held' hs' hsame hend
    refine ⟨ts ++ ts', ?_, eachStep_append.mpr ⟨hq, hq'⟩, ?_⟩
    · intro t ht
      rcases List.mem_append.mp ht with ht | ht
      · exact hts' t ht
      · exact hother t ht
    · rw [runFrom, List.foldl_append]
      exact hgoal
  · exact ⟨ts, hts', hq, Or.inr hend⟩

/-- Threads that hold nothing of the mutex's rank or above. -/
def Below (rank : M → Nat) (s : Threads T M L D) (waiting : List T) (m : M) : Prop :=
  ∀ t ∈ waiting, ∀ m', s.owner m' = some t → rank m' < rank m

omit [DecidableEq T] [DecidableEq M] in
theorem Below.same (h : Below rank s waiting m) (hsame : ∀ t ∈ waiting, SameFor s s' t) : Below rank s' waiting m :=
  fun t ht m' ho => h t ht m' (((hsame t ht).owner m').mp ho)

/-- The owner of `m` runs until it gives it back, if every mutex of a higher rank can be
    freed. -/
theorem give_back {u : T}
    (hfree : ∀ m', rank m < rank m' → ∀ (s : Threads T M L D) held waiting, Holding rank P s held →
      Below rank s waiting m' → Reaches P waiting s fun s' => s'.owner m' = none)
    (c : Code M L D) (h : Holding rank P s held) (hc : s.code u = c)
    (ho : s.owner m = some u) (hw : Below rank s waiting m) :
    Reaches P waiting s fun s' => s'.owner m = none := by
  have hu : ∀ {s : Threads T M L D}, s.owner m = some u → Below rank s waiting m → u ∉ waiting := fun ho hw hmem =>
    absurd (hw u hmem m ho) (Nat.lt_irrefl _)
  have hkept : ∀ {s : Threads T M L D} {held : T → List M}, Holding rank P s held → s.owner m = some u →
      Below rank s waiting m → Below rank (s.advance u) waiting m := fun h ho hw =>
    hw.same fun t ht => advance_other h (fun heq => hu ho hw (heq ▸ ht))
  induction c generalizing s held with
  | done => exact absurd ho (h.done_owns_nothing hc m)
  | act l f next ih =>
    refine Reaches.step (hu ho hw) fun hP => ?_
    obtain ⟨held', h'⟩ := advance_holding h hP
    refine ih s.data h' ?_ ?_ (hkept h ho hw)
    · simp [advance, hc]
    · simpa [advance, hc] using ho
  | unlock m' next ih =>
    refine Reaches.step (hu ho hw) fun hP => ?_
    obtain ⟨held', h'⟩ := advance_holding h hP
    by_cases hm : m = m'
    · exact Reaches.here (by simp [advance, hc, hm])
    · refine ih h' ?_ ?_ (hkept h ho hw)
      · simp [advance, hc]
      · simpa [advance, hc, hm] using ho
  | lock m' next ih =>
    have hlt : rank m < rank m' := h.below hc ho
    have hw' : Below rank s (u :: waiting) m' := by
      intro t ht m₁ ho₁
      rcases List.mem_cons.mp ht with rfl | ht
      · exact h.below hc ho₁
      · exact Nat.lt_trans (hw t ht m₁ ho₁) hlt
    -- first `m'` is freed by the threads that do not wait; then `u` takes it and goes on
    refine Reaches.trans h (fun t ht => List.mem_cons_of_mem u ht) (hfree m' hlt s held (u :: waiting) h hw') ?_
    intro s' held' h' hsame hnone
    have hcode : s'.code u = .lock m' next := ((hsame u List.mem_cons_self).code).trans hc
    have ho' : s'.owner m = some u := ((hsame u List.mem_cons_self).owner m).mpr ho
    have hw₂ : Below rank s' waiting m := hw.same fun t ht => hsame t (List.mem_cons_of_mem u ht)
    refine Reaches.step (hu ho' hw₂) fun hP => ?_
    obtain ⟨held₂, h₂⟩ := advance_holding h' hP
    refine ih h₂ ?_ ?_ (hkept h' ho' hw₂)
    · simp [advance, hcode, hnone]
    · have hm : m ≠ m' := fun heq => absurd hlt (heq ▸ Nat.lt_irrefl _)
      simpa [advance, hcode, hnone, hm] using ho'

theorem free_mutex {bound : Nat} (hbound : ∀ m, rank m < bound) (m : M)
    (h : Holding rank P s held) (hw : Below rank s waiting m) :
    Reaches P waiting s fun s' => s'.owner m = none := by
  -- on the number of ranks above that of `m`
  induction hn : bound - rank m using Nat.strongRecOn generalizing m s held waiting with
  | _ n ih =>
    cases ho : s.owner m with
    | none => exact Reaches.here ho
    | some u =>
      refine give_back (fun m' hlt s' held' waiting' h' hw' => ?_) (s.code u) h rfl ho hw
      have hless : bound - rank m' < n := by
        have := hbound m'
        omega
      exact ih _ hless m' h' hw' rfl

/-- From every state the discipline allows, careful steps bring the thread to its end, or
    some thread to an action against the assumption. -/
theorem can_finish {bound : Nat} (hbound : ∀ m, rank m < bound) (t : T) (c : Code M L D)
    (h : Holding rank P s held) (hc : s.code t = c) :
    Reaches P [] s fun s' => s'.code t = .done := by
  have hmove : ∀ {s : Threads T M L D} {held : T → List M}, Holding rank P s held →
      (∀ held', Holding rank P (s.advance t) held' → Reaches P [] (s.advance t) fun s' => s'.code t = .done) →
      Reaches P [] s fun s' => s'.code t = .done := by
    intro s held h hrest
    refine Reaches.step (t := t) List.not_mem_nil fun hP => ?_
    obtain ⟨held', h'⟩ := advance_holding h hP
    exact hrest held' h'
  induction c generalizing s held with
  | done => exact Reaches.here hc
  | act l f next ih => exact hmove h fun held' h' => ih s.data h' (by simp [advance, hc])
  | unlock m next ih => exact hmove h fun held' h' => ih h' (by simp [advance, hc])
  | lock m next ih =>
    have hw : Below rank s [t] m := by
      intro u hu m' ho
      rw [List.mem_singleton.mp hu] at ho
      exact h.below hc ho
    refine Reaches.trans h (fun u hu => absurd hu List.not_mem_nil) (free_mutex hbound m h hw) ?_
    intro s' held' h' hsame hnone
    have hcode : s'.code t = .lock m next := ((hsame t List.mem_cons_self).code).trans hc
    exact hmove h' fun held₂ h₂ => ih h₂ (by simp [advance, hcode, hnone])

end Threads

/-! ## A thread on its own -/

/-- What the code does to the data when no other thread runs; `none` if it locks what it
    holds. -/
def Code.alone {M L D : Type} [DecidableEq M] : List M → Code M L D → D → Option D
  | _, .done, d => some d
  | held, .lock m next, d => if m ∈ held then none else next.alone (m :: held) d
  | held, .unlock m next, d => next.alone (held.erase m) d
  | held, .act _ f next, d => (next d).alone held (f d)

namespace Threads

variable {T M L D : Type} [DecidableEq T] [DecidableEq M]

/-- The thread holds `held`, and no thread holds anything else. -/
def Only (s : Threads T M L D) (t : T) (held : List M) : Prop :=
  held.Nodup ∧ ∀ m, s.owner m = if m ∈ held then some t else none

variable {s : Threads T M L D}

theorem code_advance {t u : T} (hu : u ≠ t) : (s.advance t).code u = s.code u := by
  unfold advance
  split
  · rfl
  · split
    · exact Function.update_of_ne hu _ _
    · rfl
  · exact Function.update_of_ne hu _ _
  · exact Function.update_of_ne hu _ _

theorem code_runs {t u : T} (n : Nat) (hu : u ≠ t) : (runFrom advance s (List.replicate n t)).code u = s.code u := by
  induction n generalizing s with
  | zero => rfl
  | succ n ih => exact ih.trans (code_advance hu)

theorem alone_run (t : T) (c : Code M L D) (held : List M) (hc : s.code t = c)
    (ho : s.Only t held) {d : D} (hd : c.alone held s.data = some d) :
    ∃ n, (runFrom advance s (List.replicate n t)).data = d ∧
      (runFrom advance s (List.replicate n t)).code t = .done := by
  have hnext : ∀ s : Threads T M L D, (∃ n, (runFrom advance (s.advance t) (List.replicate n t)).data = d ∧
      (runFrom advance (s.advance t) (List.replicate n t)).code t = .done) →
      ∃ n, (runFrom advance s (List.replicate n t)).data = d ∧
        (runFrom advance s (List.replicate n t)).code t = .done := by
    rintro s ⟨n, h⟩
    exact ⟨n + 1, h⟩
  induction c generalizing held s with
  | done => exact ⟨0, Option.some.inj hd, hc⟩
  | act l f next ih =>
    refine hnext s (ih s.data held ?_ ?_ ?_)
    · simp [advance, hc]
    · simpa [advance, hc, Only] using ho
    · simpa [advance, hc, Code.alone] using hd
  | unlock m next ih =>
    refine hnext s (ih (held.erase m) ?_ ?_ ?_)
    · simp [advance, hc]
    · refine ⟨ho.1.erase m, fun m' => ?_⟩
      by_cases hm : m' = m
      · simp [advance, hc, hm, ho.1.not_mem_erase]
      · simp [advance, hc, hm, ho.2 m']
    · simpa [advance, hc, Code.alone] using hd
  | lock m next ih =>
    have hnot : m ∉ held := by
      intro hmem
      simp [Code.alone, hmem] at hd
    have hfree : s.owner m = none := by simp [ho.2 m, hnot]
    refine hnext s (ih (m :: held) ?_ ?_ ?_)
    · simp [advance, hc, hfree]
    · refine ⟨List.nodup_cons.mpr ⟨hnot, ho.1⟩, fun m' => ?_⟩
      by_cases hm : m' = m
      · simp [advance, hc, hfree, hm]
      · simp [advance, hc, hfree, hm, ho.2 m']
    · simpa [advance, hc, hfree, Code.alone, hnot] using hd

end Threads

/-! ## Step by step -/

/-- The label of the action the code begins with. -/
def Code.label {M L D : Type} : Code M L D → Option L
  | .act l _ _ => some l
  | .done | .lock _ _ | .unlock _ _ => none

namespace Threads

variable {T M L D : Type} [DecidableEq T] [DecidableEq M]

/-- No thread has anything to do. -/
def idle (d : D) : Threads T M L D := ⟨d, fun _ => none, fun _ => .done⟩

omit [DecidableEq T] [DecidableEq M] in
theorem eq_idle {s : Threads T M L D} (hdone : ∀ t, s.code t = .done) (hfree : ∀ m, s.owner m = none) :
    s = idle s.data := by
  rcases s with ⟨d, owner, code⟩
  rw [idle, Threads.mk.injEq]
  exact ⟨rfl, funext hfree, funext hdone⟩

/-- Steps of threads stay in `R`, except those with a label `W`, which may have to wait. -/
def Closed (R : Threads T M L D → Prop) (W : L → Prop) : Prop :=
  ∀ s t, R s → (∀ l, (s.code t).label = some l → ¬ W l) → R (s.advance t)

section closed

variable {R : Threads T M L D → Prop} {W : L → Prop} {d : D} {owner : M → Option T} {code : T → Code M L D} {t : T}

theorem Closed.act (hR : Closed R W) {l : L} {f : D → D} {next : D → Code M L D} (hl : ¬ W l)
    (h : R ⟨d, owner, Function.update code t (.act l f next)⟩) : R ⟨f d, owner, Function.update code t (next d)⟩ := by
  have hstep := hR _ t h (by simpa [Code.label] using hl)
  simpa [advance] using hstep

theorem Closed.lock (hR : Closed R W) {m : M} {next : Code M L D} (hfree : owner m = none)
    (h : R ⟨d, owner, Function.update code t (.lock m next)⟩) :
    R ⟨d, Function.update owner m (some t), Function.update code t next⟩ := by
  have hstep := hR _ t h (by simp [Code.label])
  simpa [advance, hfree] using hstep

/-- The mutex was locked where it was free, so it is as before. -/
theorem Closed.unlock (hR : Closed R W) {m : M} {next : Code M L D} (hfree : owner m = none)
    (h : R ⟨d, Function.update owner m (some t), Function.update code t (.unlock m next)⟩) :
    R ⟨d, owner, Function.update code t next⟩ := by
  have hstep := hR _ t h (by simp [Code.label])
  have hback : Function.update owner m none = owner := by rw [← hfree, Function.update_eq_self]
  simpa [advance, hback] using hstep

end closed

end Threads

end Lib
