/-
  DockerCpp.Lib.Dfs — depth-first topological sort of a finite graph.

  `visit` marks a vertex as being visited, visits its successors, and appends it to the
  vertices that are done; meeting a vertex that is being visited is a cycle. The recursion
  is bounded by fuel.

  If the search ends, the order is topological (`TopoSorted`: every vertex once, after its
  successors), holds every root and only what a root leads to (`order_ok`). If it fails,
  with more fuel than vertices, the graph has a cycle (`order_error`). So on an acyclic
  graph it succeeds (`order_of_acyclic`), and it fails if a root is on a cycle, since none
  goes through a topological order (`TopoSorted.no_cycle`). More fuel than was enough
  changes nothing (`order_of_le`).
-/

import Mathlib.Data.List.Nodup
import Mathlib.Data.List.Perm.Subperm
import Mathlib.Logic.Relation

namespace Lib.Dfs

open Relation

variable {V : Type}

inductive Stop (V : Type) where
  | cycle (v : V)
  | outOfFuel
  deriving DecidableEq, Repr

structure St (V : Type) where
  visiting : List V := []
  done : List V := []

/-- Visits, one after the other, until one fails. -/
def visitAll (f : V → St V → Except (Stop V) (St V)) : List V → St V → Except (Stop V) (St V)
  | [], st => .ok st
  | v :: vs, st =>
    match f v st with
    | .ok st' => visitAll f vs st'
    | .error e => .error e

/-! ## Topological orders -/

variable (succ : V → List V)

def Edge (a b : V) : Prop := b ∈ succ a

def Acyclic : Prop := ∀ v, ¬ TransGen (Edge succ) v v

inductive TopoSorted : List V → Prop
  | nil : TopoSorted []
  | snoc {r : List V} {v : V} : TopoSorted r → v ∉ r → (∀ d ∈ succ v, d ∈ r) → TopoSorted (r ++ [v])

/-- What a search that ended has done. -/
structure Finishes (vs : List V) (st st' : St V) : Prop where
  visiting : st'.visiting = st.visiting
  sorted : TopoSorted succ st'.done
  all : ∀ v ∈ vs, v ∈ st'.done
  keeps : ∀ x ∈ st.done, x ∈ st'.done
  fresh : ∀ x ∈ st'.done, x ∈ st.done ∨ ∃ v ∈ vs, ReflTransGen (Edge succ) v x
  /-- What is being visited is not finished by it. -/
  apart : ∀ x ∈ st'.done, x ∈ st.done ∨ x ∉ st.visiting

section

variable {succ}

theorem acyclic_of_rank (rank : V → Nat) (h : ∀ a b, b ∈ succ a → rank b < rank a) : Acyclic succ := by
  intro v hv
  have hdown : ∀ {a b}, TransGen (Edge succ) a b → rank b < rank a := by
    intro a b hab
    induction hab with
    | single he => exact h _ _ he
    | tail _ he ih => exact Nat.lt_trans (h _ _ he) ih
  exact Nat.lt_irrefl _ (hdown hv)

variable {r : List V} {f : V → St V → Except (Stop V) (St V)}

theorem TopoSorted.closed (h : TopoSorted succ r) : ∀ v ∈ r, ∀ d ∈ succ v, d ∈ r := by
  induction h with
  | nil =>
    intro v hv
    cases hv
  | snoc _ _ hd ih =>
    intro v hv d hdv
    rcases List.mem_append.mp hv with hv | hv
    · exact List.mem_append_left _ (ih v hv d hdv)
    · rw [List.mem_singleton.mp hv] at hdv
      exact List.mem_append_left _ (hd d hdv)

theorem TopoSorted.closed_along (h : TopoSorted succ r) {a b : V} (ha : a ∈ r)
    (hab : TransGen (Edge succ) a b) : b ∈ r := by
  induction hab with
  | single he => exact h.closed a ha _ he
  | tail _ he ih => exact h.closed _ ih _ he

theorem TopoSorted.nodup (h : TopoSorted succ r) : r.Nodup := by
  induction h with
  | nil => exact List.nodup_nil
  | snoc _ hv _ ih =>
    rw [← List.concat_eq_append]
    exact List.Nodup.concat hv ih

/-- A vertex comes after its successors. -/
theorem TopoSorted.split (h : TopoSorted succ r) {v d : V} (hv : v ∈ r) (hd : d ∈ succ v) :
    ∃ before after, r = before ++ v :: after ∧ d ∈ before := by
  induction h with
  | nil => cases hv
  | @snoc r u _ _ hu ih =>
    rcases List.mem_append.mp hv with hv | hv
    · obtain ⟨before, after, hr, hd⟩ := ih hv
      exact ⟨before, after ++ [u], by simp [hr], hd⟩
    · rw [List.mem_singleton.mp hv] at hd ⊢
      exact ⟨r, [], rfl, hu d hd⟩

/-- None leads to one that comes later. -/
theorem TopoSorted.pairwise (h : TopoSorted succ r) : r.Pairwise fun a b => b ∉ succ a := by
  induction h with
  | nil => exact List.Pairwise.nil
  | @snoc r v hr hv _ ih =>
    refine List.pairwise_append.mpr ⟨ih, List.pairwise_singleton _ _, ?_⟩
    intro a ha b hb hab
    rw [List.mem_singleton.mp hb] at hab
    exact hv (hr.closed a ha v hab)

/-- No cycle goes through a vertex of a topological order. -/
theorem TopoSorted.no_cycle (h : TopoSorted succ r) {v : V} (hv : v ∈ r) : ¬ TransGen (Edge succ) v v := by
  induction h with
  | nil => cases hv
  | @snoc r u hr hu hd ih =>
    rcases List.mem_append.mp hv with hv | hv
    · exact ih hv
    · rw [List.mem_singleton.mp hv]
      intro hcycle
      -- the first step leads into `r`, and nothing leads out of it
      obtain ⟨d, he, hrest⟩ := TransGen.head'_iff.mp hcycle
      rcases reflTransGen_iff_eq_or_transGen.mp hrest with rfl | hrest
      · exact hu (hd _ he)
      · exact hu (hr.closed_along (hd d he) hrest)

theorem visitAll_ok
    (hf : ∀ v st st', f v st = .ok st' → TopoSorted succ st.done → Finishes succ [v] st st') (vs : List V)
    {st st' : St V} (h : visitAll f vs st = .ok st') (hs : TopoSorted succ st.done) : Finishes succ vs st st' := by
  induction vs generalizing st with
  | nil =>
    obtain rfl := Except.ok.inj h
    exact ⟨rfl, hs, fun v hv => (by cases hv), fun x hx => hx, fun x hx => Or.inl hx, fun x hx => Or.inl hx⟩
  | cons v vs ih =>
    unfold visitAll at h
    cases hv : f v st with
    | error e =>
      rw [hv] at h
      cases h
    | ok st1 =>
      rw [hv] at h
      have h1 := hf v st st1 hv hs
      have h2 := ih h h1.sorted
      refine ⟨h2.visiting.trans h1.visiting, h2.sorted, ?_, fun x hx => h2.keeps x (h1.keeps x hx), ?_, ?_⟩
      · intro u hu
        rcases List.mem_cons.mp hu with rfl | hu
        · exact h2.keeps u (h1.all u (by simp))
        · exact h2.all u hu
      · intro x hx
        rcases h2.fresh x hx with hx1 | ⟨u, hu, hr⟩
        · rcases h1.fresh x hx1 with hx0 | ⟨u, hu, hr⟩
          · exact Or.inl hx0
          · exact Or.inr ⟨v, by simp, (List.mem_singleton.mp hu) ▸ hr⟩
        · exact Or.inr ⟨u, List.mem_cons_of_mem _ hu, hr⟩
      · intro x hx
        rcases h2.apart x hx with hx1 | hx1
        · exact h1.apart x hx1
        · exact Or.inr (h1.visiting ▸ hx1)

theorem visitAll_error
    (hf : ∀ v st st', f v st = .ok st' → TopoSorted succ st.done → Finishes succ [v] st st') (vs : List V)
    {st : St V} {e : Stop V} (h : visitAll f vs st = .error e) (hs : TopoSorted succ st.done) :
    ∃ v ∈ vs, ∃ st', f v st' = .error e ∧ st'.visiting = st.visiting ∧ TopoSorted succ st'.done := by
  induction vs generalizing st with
  | nil => cases h
  | cons v vs ih =>
    unfold visitAll at h
    cases hv : f v st with
    | error e' =>
      rw [hv] at h
      obtain rfl := Except.error.inj h
      exact ⟨v, by simp, st, hv, rfl, hs⟩
    | ok st1 =>
      rw [hv] at h
      have h1 := hf v st st1 hv hs
      obtain ⟨u, hu, st2, hu2, hvis, hs2⟩ := ih h h1.sorted
      exact ⟨u, List.mem_cons_of_mem _ hu, st2, hu2, hvis.trans h1.visiting, hs2⟩

end

/-! ## The search -/

variable [DecidableEq V]

def visit : Nat → V → St V → Except (Stop V) (St V)
  | 0, _, _ => .error .outOfFuel
  | fuel + 1, v, st =>
    if v ∈ st.visiting then .error (.cycle v)
    else if v ∈ st.done then .ok st
    else
      match visitAll (visit fuel) (succ v) { st with visiting := v :: st.visiting } with
      | .ok st' => .ok ⟨st'.visiting.erase v, st'.done ++ [v]⟩
      | .error e => .error e

def visitRoot (fuel : Nat) (v : V) (st : St V) : Except (Stop V) (St V) :=
  if v ∈ st.done then .ok st else visit succ fuel v st

def order (fuel : Nat) (roots : List V) : Except (Stop V) (List V) :=
  match visitAll (visitRoot succ fuel) roots {} with
  | .ok st => .ok st.done
  | .error e => .error e

variable {succ}

theorem visit_ok (fuel : Nat) : ∀ (v : V) (st st' : St V), visit succ fuel v st = .ok st' → TopoSorted succ st.done →
    Finishes succ [v] st st' := by
  induction fuel with
  | zero =>
    intro v st st' h
    cases h
  | succ fuel ih =>
    intro v st st' h hs
    unfold visit at h
    split at h
    · cases h
    · rename_i hvis
      split at h
      · rename_i hdone
        obtain rfl := Except.ok.inj h
        exact ⟨rfl, hs, by simpa using hdone, fun x hx => hx, fun x hx => Or.inl hx, fun x hx => Or.inl hx⟩
      · rename_i hdone
        split at h
        · rename_i st1 h1
          obtain rfl := Except.ok.inj h
          have hsub := visitAll_ok ih (succ v) h1 hs
          -- `v` is being visited while its successors are, so it is not among them
          have hv : v ∉ st1.done := by
            intro hx
            rcases hsub.apart v hx with hx | hx
            · exact hdone hx
            · exact hx (by simp)
          refine ⟨?_, .snoc hsub.sorted hv hsub.all, by simp, ?_, ?_, ?_⟩
          · show st1.visiting.erase v = st.visiting
            rw [hsub.visiting]
            simp
          · intro x hx
            exact List.mem_append_left _ (hsub.keeps x hx)
          · intro x hx
            rcases List.mem_append.mp hx with hx | hx
            · rcases hsub.fresh x hx with hx0 | ⟨d, hd, hr⟩
              · exact Or.inl hx0
              · exact Or.inr ⟨v, by simp, .head hd hr⟩
            · exact Or.inr ⟨v, by simp, (List.mem_singleton.mp hx) ▸ .refl⟩
          · intro x hx
            rcases List.mem_append.mp hx with hx | hx
            · rcases hsub.apart x hx with hx0 | hx0
              · exact Or.inl hx0
              · exact Or.inr fun hm => hx0 (List.mem_cons_of_mem _ hm)
            · exact Or.inr ((List.mem_singleton.mp hx) ▸ hvis)
        · cases h

theorem visitRoot_ok (fuel : Nat) (v : V) (st st' : St V) (h : visitRoot succ fuel v st = .ok st')
    (hs : TopoSorted succ st.done) : Finishes succ [v] st st' := by
  unfold visitRoot at h
  split at h
  · rename_i hdone
    obtain rfl := Except.ok.inj h
    exact ⟨rfl, hs, by simpa using hdone, fun x hx => hx, fun x hx => Or.inl hx, fun x hx => Or.inl hx⟩
  · exact visit_ok fuel v st st' h hs

variable {fuel : Nat} {univ roots : List V}

theorem order_ok {roots r : List V} (h : order succ fuel roots = .ok r) :
    TopoSorted succ r ∧ (∀ v ∈ roots, v ∈ r) ∧ ∀ x ∈ r, ∃ v ∈ roots, ReflTransGen (Edge succ) v x := by
  unfold order at h
  split at h
  · rename_i st hst
    obtain rfl := Except.ok.inj h
    have hf := visitAll_ok (visitRoot_ok fuel) roots hst .nil
    exact ⟨hf.sorted, hf.all, fun x hx => (hf.fresh x hx).resolve_left (by simp)⟩
  · cases h

/-! ## More fuel changes nothing -/

omit [DecidableEq V] in
theorem visitAll_congr {f g : V → St V → Except (Stop V) (St V)}
    (h : ∀ v st, f v st ≠ .error .outOfFuel → g v st = f v st) (vs : List V) {st : St V}
    (hf : visitAll f vs st ≠ .error .outOfFuel) : visitAll g vs st = visitAll f vs st := by
  induction vs generalizing st with
  | nil => rfl
  | cons v vs ih =>
    unfold visitAll at hf ⊢
    have hv : f v st ≠ .error .outOfFuel := by
      intro he
      rw [he] at hf
      exact hf rfl
    rw [h v st hv]
    cases hst : f v st with
    | error e => rfl
    | ok st' =>
      rw [hst] at hf
      exact ih hf

theorem visit_succ (fuel : Nat) : ∀ (v : V) (st : St V), visit succ fuel v st ≠ .error .outOfFuel →
    visit succ (fuel + 1) v st = visit succ fuel v st := by
  induction fuel with
  | zero =>
    intro v st h
    exact absurd rfl h
  | succ fuel ih =>
    intro v st h
    unfold visit at h
    rw [visit, visit]
    by_cases hvis : v ∈ st.visiting
    · rw [if_pos hvis, if_pos hvis]
    · rw [if_neg hvis] at h ⊢
      rw [if_neg hvis]
      by_cases hdone : v ∈ st.done
      · rw [if_pos hdone, if_pos hdone]
      · rw [if_neg hdone] at h ⊢
        rw [if_neg hdone, visitAll_congr ih]
        intro he
        rw [he] at h
        exact h rfl

theorem order_succ {roots : List V} (h : order succ fuel roots ≠ .error .outOfFuel) :
    order succ (fuel + 1) roots = order succ fuel roots := by
  have hroot : ∀ v st, visitRoot succ fuel v st ≠ .error .outOfFuel →
      visitRoot succ (fuel + 1) v st = visitRoot succ fuel v st := by
    intro v st hv
    unfold visitRoot at hv ⊢
    split
    · rfl
    · rename_i hdone
      rw [if_neg hdone] at hv
      exact visit_succ fuel v st hv
  unfold order at h ⊢
  rw [visitAll_congr hroot]
  intro he
  rw [he] at h
  exact h rfl

theorem order_of_le {fuel fuel' : Nat} (hle : fuel ≤ fuel') {roots : List V}
    (h : order succ fuel roots ≠ .error .outOfFuel) : order succ fuel' roots = order succ fuel roots := by
  induction hle with
  | refl => rfl
  | @step n _ ih => rw [order_succ (by rwa [ih]), ih]

/-! ## Failures are cycles -/

/-- The vertices being visited form a path to `v`; there are as many as the fuel used. -/
theorem visit_error {univ : List V} (huniv : ∀ a ∈ univ, ∀ b ∈ succ a, b ∈ univ) (fuel : Nat) :
    ∀ (v : V) (st : St V) (e : Stop V), visit succ fuel v st = .error e → TopoSorted succ st.done → v ∈ univ →
      (∀ u ∈ st.visiting, u ∈ univ ∧ TransGen (Edge succ) u v) → st.visiting.Nodup →
      univ.length < fuel + st.visiting.length → ∃ w, e = .cycle w ∧ TransGen (Edge succ) w w := by
  induction fuel with
  | zero =>
    intro v st e h hs hv hpath hnd hlen
    have hle := (List.subperm_of_subset hnd fun u hu => (hpath u hu).1).length_le
    omega
  | succ fuel ih =>
    intro v st e h hs hv hpath hnd hlen
    unfold visit at h
    split at h
    · rename_i hvis
      exact ⟨v, (Except.error.inj h).symm, (hpath v hvis).2⟩
    · rename_i hvis
      split at h
      · cases h
      · split at h
        · cases h
        · rename_i e' h1
          obtain rfl := Except.error.inj h
          obtain ⟨d, hd, st', hd', hvst, hs'⟩ := visitAll_error (visit_ok fuel) (succ v) h1 hs
          refine ih d st' e' hd' hs' (huniv v hv d hd) ?_ ?_ ?_
          · intro u hu
            rw [hvst] at hu
            rcases List.mem_cons.mp hu with rfl | hu
            · exact ⟨hv, .single hd⟩
            · exact ⟨(hpath u hu).1, .tail (hpath u hu).2 hd⟩
          · rw [hvst]
            exact List.nodup_cons.mpr ⟨hvis, hnd⟩
          · rw [hvst]
            simp only [List.length_cons]
            omega

theorem order_error (huniv : ∀ a ∈ univ, ∀ b ∈ succ a, b ∈ univ) (hroots : ∀ v ∈ roots, v ∈ univ)
    (hfuel : univ.length < fuel) {e : Stop V} (h : order succ fuel roots = .error e) :
    ∃ w, e = .cycle w ∧ TransGen (Edge succ) w w := by
  unfold order at h
  split at h
  · cases h
  · rename_i e' h1
    obtain rfl := Except.error.inj h
    obtain ⟨v, hv, st, hvst, hvis, hs⟩ := visitAll_error (visitRoot_ok fuel) roots h1 .nil
    unfold visitRoot at hvst
    split at hvst
    · cases hvst
    · refine visit_error huniv fuel v st e' hvst hs (hroots v hv) ?_ ?_ ?_
      · intro u hu
        rw [hvis] at hu
        cases hu
      · rw [hvis]
        exact List.nodup_nil
      · omega

theorem order_of_acyclic (huniv : ∀ a ∈ univ, ∀ b ∈ succ a, b ∈ univ)
    (hroots : ∀ v ∈ roots, v ∈ univ) (hfuel : univ.length < fuel) (ha : Acyclic succ) :
    ∃ r, order succ fuel roots = .ok r := by
  cases h : order succ fuel roots with
  | ok r => exact ⟨r, rfl⟩
  | error e =>
    obtain ⟨w, -, hw⟩ := order_error huniv hroots hfuel h
    exact absurd hw (ha w)

end Lib.Dfs
