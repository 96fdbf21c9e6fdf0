/-
  DockerCpp.Lib.Nesting — which mutexes a thread locks while it holds which others, and
  threads that wait for each other.

  `Nests A B I held c`: with `held`, the code `c` locks `m` while it holds `m'` only if
  `A m' m`, and the labels of its actions satisfy `B`, on data that satisfy `I`, which `c`
  keeps. Each thread has its own relation; of threads that nest within theirs, one that waits
  for `m` while it owns `m'` has `A m' m` (`Nested.along`). A circular wait over two mutexes
  is one of two threads (`pair_of_circular`), so it needs two threads that may nest the two
  the one way and the other.
-/

import Mathlib.Data.Set.Basic
import DockerCpp.Lib.Locks

namespace Lib

/-- The mutex the code begins by locking. -/
def Code.wants {M L D : Type} : Code M L D → Option M
  | .lock m _ => some m
  | .done | .unlock _ _ | .act _ _ _ => none

/-! ## Nesting -/

def Code.Nests {M L D : Type} (A : M → M → Prop) (B : L → Prop) (I : D → Prop) : List M → Code M L D → Prop
  | held, .done => held = []
  | held, .lock m next => (∀ m' ∈ held, A m' m) ∧ Nests A B I (m :: held) next
  | held, .unlock m next => ∃ rest, held = m :: rest ∧ Nests A B I rest next
  | held, .act l f next => B l ∧ ∀ d, I d → I (f d) ∧ Nests A B I held (next d)

namespace Threads

variable {T M L D : Type} {A : T → M → M → Prop} {B : L → Prop} {I : D → Prop}

structure Nested (A : T → M → M → Prop) (B : L → Prop) (I : D → Prop) (s : Threads T M L D) (held : T → List M) :
    Prop where
  data : I s.data
  owns : ∀ t m, m ∈ held t ↔ s.owner m = some t
  nodup : ∀ t, (held t).Nodup
  nests : ∀ t, (s.code t).Nests (A t) B I (held t)

variable {s : Threads T M L D} {held : T → List M} {t : T}

theorem Nested.along (h : Nested A B I s held) {m : M}
    {next : Code M L D} (hc : s.code t = .lock m next) {m' : M} (ho : s.owner m' = some t) : A t m' m := by
  have hn := h.nests t
  rw [hc, Code.Nests] at hn
  exact hn.1 m' ((h.owns t m').mpr ho)

theorem Nested.label (h : Nested A B I s held) {l : L} {f : D → D}
    {next : D → Code M L D} (hc : s.code t = .act l f next) : B l := by
  have hn := h.nests t
  rw [hc, Code.Nests] at hn
  exact hn.1

theorem Nested.done_owns_nothing (h : Nested A B I s held) (hc : s.code t = .done) : held t = [] := by
  have hn := h.nests t
  rw [hc, Code.Nests] at hn
  exact hn

/-- When no thread has anything to do, every mutex is free. -/
theorem Nested.all_free (h : Nested A B I s held) (hdone : ∀ t, s.code t = .done) (m : M) : s.owner m = none := by
  cases ho : s.owner m with
  | none => rfl
  | some t =>
    have hmem := (h.owns t m).mpr ho
    rw [h.done_owns_nothing (hdone t)] at hmem
    cases hmem

variable [DecidableEq T]

/-- A thread moves on, with another list of what it holds. -/
theorem Nested.update {s s' : Threads T M L D} (h : Nested A B I s held) {c : Code M L D}
    (hc : s'.code = Function.update s.code t c) {mine : List M}
    (hmine : ∀ m, m ∈ mine ↔ s'.owner m = some t)
    (hother : ∀ u, u ≠ t → ∀ m, s'.owner m = some u ↔ s.owner m = some u) (hnodup : mine.Nodup)
    (hn : c.Nests (A t) B I mine) (hdata : I s'.data) : Nested A B I s' (Function.update held t mine) := by
  refine ⟨hdata, fun u m => ?_, fun u => ?_, fun u => ?_⟩ <;> by_cases hu : u = t
  · rw [hu, Function.update_self]
    exact hmine m
  · rw [Function.update_of_ne hu, h.owns u m]
    exact (hother u hu m).symm
  · rw [hu, Function.update_self]
    exact hnodup
  · rw [Function.update_of_ne hu]
    exact h.nodup u
  · rw [hc, hu, Function.update_self, Function.update_self]
    exact hn
  · rw [hc, Function.update_of_ne hu, Function.update_of_ne hu]
    exact h.nests u

theorem start_nested (h : Nested A B I s held) {c : Code M L D}
    (hc : c.Nests (A t) B I []) : ∃ held', Nested A B I (s.start t c) held' := by
  unfold start
  split
  · rename_i hdone
    have hmine : ∀ m, m ∈ ([] : List M) ↔ s.owner m = some t := by
      intro m
      rw [← h.done_owns_nothing hdone]
      exact h.owns t m
    exact ⟨_, h.update rfl hmine (fun _ _ _ => Iff.rfl) List.nodup_nil hc h.data⟩
  · exact ⟨held, h⟩

variable [DecidableEq M]

theorem advance_nested (h : Nested A B I s held) (t : T) : ∃ held', Nested A B I (s.advance t) held' := by
  have hn := h.nests t
  cases hc : s.code t with
  | done =>
    simp only [advance, hc]
    exact ⟨held, h⟩
  | act l f next =>
    rw [hc, Code.Nests] at hn
    obtain ⟨hdata, hnext⟩ := hn.2 s.data h.data
    simp only [advance, hc]
    exact ⟨_, h.update rfl (h.owns t) (fun _ _ _ => Iff.rfl) (h.nodup t) hnext hdata⟩
  | unlock m next =>
    rw [hc, Code.Nests] at hn
    obtain ⟨rest, hheld, hnext⟩ := hn
    have hnodup := h.nodup t
    rw [hheld, List.nodup_cons] at hnodup
    obtain ⟨hmine, hother⟩ := owns_unlock (fun m' => hheld ▸ h.owns t m') hnodup.1
    simp only [advance, hc]
    exact ⟨_, h.update rfl hmine hother hnodup.2 hnext h.data⟩
  | lock m next =>
    rw [hc, Code.Nests] at hn
    simp only [advance, hc]
    split
    · rename_i hfree
      have hnot : m ∉ held t := by
        rw [h.owns, hfree]
        exact (Option.some_ne_none t).symm
      obtain ⟨hmine, hother⟩ := owns_lock hfree t (h.owns t)
      exact ⟨_, h.update rfl hmine hother (List.nodup_cons.mpr ⟨hnot, h.nodup t⟩) hn.2 h.data⟩
    · exact ⟨held, h⟩

/-! ## Circular waits -/

omit [DecidableEq T] [DecidableEq M]

/-- `t` waits for a mutex that `u` owns. -/
def Waits (s : Threads T M L D) (t u : T) : Prop := ∃ m next, s.code t = .lock m next ∧ s.owner m = some u

theorem waits_of_wants {t u : T} {m : M} (hc : (s.code t).wants = some m)
    (ho : s.owner m = some u) : s.Waits t u := by
  unfold Code.wants at hc
  split at hc
  · rename_i m' next hcode
    exact ⟨m', next, hcode, (Option.some.inj hc).symm ▸ ho⟩
  · cases hc
  · cases hc
  · cases hc

/-- A set of threads, each waiting for a mutex that another one of them owns. -/
def Circular (s : Threads T M L D) : Prop := ∃ X : Set T, X.Nonempty ∧ ∀ t ∈ X, ∃ u ∈ X, u ≠ t ∧ s.Waits t u

theorem circular_of_pair {t u : T} (hne : t ≠ u) (htu : s.Waits t u) (hut : s.Waits u t) : s.Circular := by
  refine ⟨{t, u}, ⟨t, Or.inl rfl⟩, fun v hv => ?_⟩
  rcases hv with rfl | rfl
  · exact ⟨u, Or.inr rfl, hne.symm, htu⟩
  · exact ⟨t, Or.inl rfl, hne, hut⟩

theorem pair_of_circular (htwo : ∀ m m' m'' : M, m ≠ m' → m' ≠ m'' → m = m'') (h : s.Circular) :
    ∃ t u, t ≠ u ∧ s.Waits t u ∧ s.Waits u t := by
  obtain ⟨X, ⟨t, ht⟩, hX⟩ := h
  obtain ⟨u, hu, -, m, -, -, hm⟩ := hX t ht
  obtain ⟨v, hv, hvu, m', next', hc', hm'⟩ := hX u hu
  obtain ⟨w, -, hwv, m'', next'', hc'', hm''⟩ := hX v hv
  have hne : m ≠ m' := by
    intro heq
    rw [heq, hm'] at hm
    exact hvu (Option.some.inj hm)
  have hne' : m' ≠ m'' := by
    intro heq
    rw [← heq, hm'] at hm''
    exact hwv (Option.some.inj hm'').symm
  -- what `v` waits for is the other mutex, the one `u` owns
  have hback : s.owner m'' = some u := by rw [← htwo m m' m'' hne hne', hm]
  exact ⟨u, v, hvu.symm, ⟨m', next', hc', hm'⟩, ⟨m'', next'', hc'', hback⟩⟩

end Threads

end Lib
