/-
  DockerCpp.Lib.Stalls — what threads keep although one of them may stop for ever.

  A thread that locks a mutex it holds never goes on, so what its code would do after that
  lock does not happen. `Code.Keeps R held c`: with `held`, every action that `c` gets to
  changes the data as `R` says. Each thread has its own `R`; threads whose code keeps to theirs
  go on doing so in any interleaving (`advance_kept`, `start_kept`), and a step of a thread is
  in its `R` (`advance_data`). One that stopped at a mutex it owns stays there
  (`relocks_advance`).
-/

import DockerCpp.Lib.Locks

namespace Lib

def Code.Keeps {M L D : Type} (R : D → D → Prop) : List M → Code M L D → Prop
  | held, .done => held = []
  | held, .lock m next => m ∈ held ∨ Keeps R (m :: held) next
  | held, .unlock m next => ∃ rest, held = m :: rest ∧ Keeps R rest next
  | held, .act _ f next => ∀ d, R d (f d) ∧ Keeps R held (next d)

namespace Threads

variable {T M L D : Type} {R : T → D → D → Prop}

structure Kept (R : T → D → D → Prop) (s : Threads T M L D) (held : T → List M) : Prop where
  owns : ∀ t m, m ∈ held t ↔ s.owner m = some t
  nodup : ∀ t, (held t).Nodup
  keeps : ∀ t, (s.code t).Keeps (R t) (held t)

theorem kept_idle (d : D) : Kept R (idle d : Threads T M L D) fun _ => [] where
  owns _ _ := by simp [idle]
  nodup _ := List.nodup_nil
  keeps _ := rfl

variable [DecidableEq T] {held : T → List M} {c : Code M L D} {t : T} {s s' : Threads T M L D}

/-- A thread moves on, with another list of what it holds. -/
theorem Kept.update (h : Kept R s held)
    (hc : s'.code = Function.update s.code t c) {mine : List M} (hmine : ∀ m, m ∈ mine ↔ s'.owner m = some t)
    (hother : ∀ u, u ≠ t → ∀ m, s'.owner m = some u ↔ s.owner m = some u) (hnodup : mine.Nodup)
    (hkeeps : c.Keeps (R t) mine) : Kept R s' (Function.update held t mine) := by
  refine ⟨fun u m => ?_, fun u => ?_, fun u => ?_⟩ <;> by_cases hu : u = t
  · rw [hu, Function.update_self]
    exact hmine m
  · rw [Function.update_of_ne hu, h.owns u m]
    exact (hother u hu m).symm
  · rw [hu, Function.update_self]
    exact hnodup
  · rw [Function.update_of_ne hu]
    exact h.nodup u
  · rw [hc, hu, Function.update_self, Function.update_self]
    exact hkeeps
  · rw [hc, Function.update_of_ne hu, Function.update_of_ne hu]
    exact h.keeps u

/-- A thread with nothing to do, which holds nothing, is given something. -/
theorem Kept.begin (h : Kept R s held) (hdone : s.code t = .done)
    (hc : s'.code = Function.update s.code t c) (howner : s'.owner = s.owner)
    (hkeeps : c.Keeps (R t) []) : ∃ held', Kept R s' held' := by
  have hnone : held t = [] := by
    have hk := h.keeps t
    rw [hdone, Code.Keeps] at hk
    exact hk
  refine ⟨_, h.update hc (fun m => ?_) (fun _ _ _ => by rw [howner]) List.nodup_nil hkeeps⟩
  rw [howner, ← h.owns t m, hnone]

variable {s : Threads T M L D}

theorem start_kept (h : Kept R s held) (hc : c.Keeps (R t) []) : ∃ held', Kept R (s.start t c) held' := by
  unfold start
  split
  · rename_i hdone
    exact h.begin hdone rfl rfl hc
  · exact ⟨held, h⟩

variable [DecidableEq M]

theorem advance_kept (h : Kept R s held) (t : T) : ∃ held', Kept R (s.advance t) held' := by
  have hk := h.keeps t
  cases hc : s.code t with
  | done =>
    simp only [advance, hc]
    exact ⟨held, h⟩
  | act l f next =>
    rw [hc, Code.Keeps] at hk
    simp only [advance, hc]
    exact ⟨_, h.update rfl (h.owns t) (fun _ _ _ => Iff.rfl) (h.nodup t) (hk s.data).2⟩
  | unlock m next =>
    rw [hc, Code.Keeps] at hk
    obtain ⟨rest, hheld, hnext⟩ := hk
    have hnodup := h.nodup t
    rw [hheld, List.nodup_cons] at hnodup
    obtain ⟨hmine, hother⟩ := owns_unlock (fun m' => hheld ▸ h.owns t m') hnodup.1
    simp only [advance, hc]
    exact ⟨_, h.update rfl hmine hother hnodup.2 hnext⟩
  | lock m next =>
    simp only [advance, hc]
    split
    · rename_i hfree
      have hnot : m ∉ held t := by
        intro hmem
        rw [(h.owns t m).mp hmem] at hfree
        cases hfree
      rw [hc, Code.Keeps] at hk
      obtain ⟨hmine, hother⟩ := owns_lock hfree t (h.owns t)
      exact ⟨_, h.update rfl hmine hother (List.nodup_cons.mpr ⟨hnot, h.nodup t⟩) (hk.resolve_left hnot)⟩
    · exact ⟨held, h⟩

/-- What a step of a thread does to the data. -/
theorem advance_data (h : Kept R s held) (t : T) : (s.advance t).data = s.data ∨ R t s.data (s.advance t).data := by
  have hk := h.keeps t
  cases hc : s.code t with
  | done => exact Or.inl (by simp only [advance, hc])
  | unlock m next => exact Or.inl (by simp only [advance, hc])
  | lock m next =>
    refine Or.inl ?_
    simp only [advance, hc]
    split <;> rfl
  | act l f next =>
    rw [hc, Code.Keeps] at hk
    simp only [advance, hc]
    exact Or.inr (hk s.data).1

/-! ## For ever -/

omit [DecidableEq M] in
/-- A thread that stopped has something to do, so it is not given anything else. -/
theorem relocks_start (hr : s.Relocks t) (u : T) (c : Code M L D) : (s.start u c).Relocks t := by
  obtain ⟨m, next, hc, ho⟩ := hr
  unfold start
  split
  · rename_i hdone
    have hut : t ≠ u := by
      intro hut
      rw [← hut, hc] at hdone
      cases hdone
    exact ⟨m, next, by simpa [hut] using hc, ho⟩
  · exact ⟨m, next, hc, ho⟩

/-- Nobody else gives back what it holds. -/
theorem relocks_advance (h : Kept R s held) (hr : s.Relocks t) (u : T) : (s.advance u).Relocks t := by
  obtain ⟨m, next, hc, ho⟩ := hr
  by_cases hut : u = t
  · have hsame : s.advance u = s := by simp [advance, hut, hc, ho]
    rw [hsame]
    exact ⟨m, next, hc, ho⟩
  · refine ⟨m, next, (code_advance (Ne.symm hut)).trans hc, ?_⟩
    have hk := h.keeps u
    cases hcu : s.code u with
    | done => simpa only [advance, hcu] using ho
    | act l f next' => simpa only [advance, hcu] using ho
    | lock m' next' =>
      simp only [advance, hcu]
      split
      · rename_i hfree
        have hm : m ≠ m' := by
          intro hm
          rw [← hm, ho] at hfree
          cases hfree
        simpa [hm] using ho
      · exact ho
    | unlock m' next' =>
      rw [hcu, Code.Keeps] at hk
      obtain ⟨rest, hheld, -⟩ := hk
      have hmine : s.owner m' = some u := (h.owns u m').mp (hheld ▸ List.mem_cons_self)
      have hm : m ≠ m' := by
        intro hm
        rw [← hm, ho] at hmine
        exact hut (Option.some.inj hmine).symm
      simp only [advance, hcu]
      simpa [hm] using ho

end Threads

end Lib
