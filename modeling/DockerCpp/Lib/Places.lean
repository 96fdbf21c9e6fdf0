/-
  DockerCpp.Lib.Places — tokens in places.

  `Placed live c`: every live token is in exactly one place, there once, and no other
  token is anywhere. It survives moving tokens from one place to another (`Placed.move`),
  adding a new one (`Placed.add`) and throwing away what is in a place (`Placed.clear`).
-/

import Mathlib.Data.List.Nodup
import Mathlib.Data.List.Perm.Basic

namespace Lib

variable {P T : Type} {live live' : T → Prop} {c c' : P → List T}

structure Placed (live : T → Prop) (c : P → List T) : Prop where
  nodup : ∀ p, (c p).Nodup
  apart : ∀ t p q, t ∈ c p → t ∈ c q → p = q
  somewhere : ∀ t, live t → ∃ p, t ∈ c p
  known : ∀ t p, t ∈ c p → live t

theorem Placed.move (h : Placed live c) (p q : P) (ts : List T) (hpq : p ≠ q) (hp : (c p).Perm (ts ++ c' p))
    (hq : (c' q).Perm (c q ++ ts)) (ho : ∀ r, r ≠ p → r ≠ q → c' r = c r) : Placed live c' := by
  have hts : ∀ t ∈ ts, t ∈ c p := fun t ht => hp.mem_iff.mpr (List.mem_append_left _ ht)
  have hnodup : (ts ++ c' p).Nodup := hp.nodup_iff.mp (h.nodup p)
  -- where a token is now, from where it was
  have hfrom : ∀ t r, t ∈ c' r → (r = q ∧ t ∈ ts) ∨ (t ∈ c r ∧ (r = p → t ∉ ts)) := by
    intro t r ht
    by_cases hrq : r = q
    · subst hrq
      rcases List.mem_append.mp (hq.mem_iff.mp ht) with ht | ht
      · exact Or.inr ⟨ht, fun e => absurd e.symm hpq⟩
      · exact Or.inl ⟨rfl, ht⟩
    · by_cases hrp : r = p
      · subst hrp
        refine Or.inr ⟨hp.mem_iff.mpr (List.mem_append_right _ ht), fun _ hmem => ?_⟩
        exact List.disjoint_of_nodup_append hnodup hmem ht
      · rw [ho r hrp hrq] at ht
        exact Or.inr ⟨ht, fun e => absurd e hrp⟩
  refine ⟨?_, ?_, ?_, ?_⟩
  · intro r
    by_cases hrq : r = q
    · subst hrq
      refine hq.nodup_iff.mpr (List.Nodup.append (h.nodup r) hnodup.of_append_left ?_)
      intro t ht hmem
      exact hpq (h.apart t p r (hts t hmem) ht)
    · by_cases hrp : r = p
      · subst hrp
        exact hnodup.of_append_right
      · rw [ho r hrp hrq]
        exact h.nodup r
  · intro t r u hr hu
    rcases hfrom t r hr with ⟨rfl, hmem⟩ | ⟨hr', hrp⟩
    · rcases hfrom t u hu with ⟨rfl, -⟩ | ⟨hu', hup⟩
      · rfl
      · have hpu := h.apart t u p hu' (hts t hmem)
        exact absurd hmem (hup hpu)
    · rcases hfrom t u hu with ⟨rfl, hmem⟩ | ⟨hu', -⟩
      · have hpr := h.apart t r p hr' (hts t hmem)
        exact absurd hmem (hrp hpr)
      · exact h.apart t r u hr' hu'
  · intro t ht
    obtain ⟨r, hr⟩ := h.somewhere t ht
    by_cases hrq : r = q
    · subst hrq
      exact ⟨r, hq.mem_iff.mpr (List.mem_append_left _ hr)⟩
    · by_cases hrp : r = p
      · subst hrp
        rcases List.mem_append.mp (hp.mem_iff.mp hr) with hmem | hmem
        · exact ⟨q, hq.mem_iff.mpr (List.mem_append_right _ hmem)⟩
        · exact ⟨r, hmem⟩
      · exact ⟨r, by rw [ho r hrp hrq]; exact hr⟩
  · intro t r hr
    rcases hfrom t r hr with ⟨-, hmem⟩ | ⟨hr', -⟩
    · exact h.known t p (hts t hmem)
    · exact h.known t r hr'

theorem Placed.add (h : Placed live c) (q : P) (t : T) (hnew : ¬ live t) (hlive : ∀ u, live' u ↔ live u ∨ u = t)
    (hq : (c' q).Perm (c q ++ [t])) (ho : ∀ r, r ≠ q → c' r = c r) : Placed live' c' := by
  have hnowhere : ∀ r, t ∉ c r := fun r hr => hnew (h.known t r hr)
  have hfrom : ∀ u r, u ∈ c' r ↔ u ∈ c r ∨ (r = q ∧ u = t) := by
    intro u r
    by_cases hrq : r = q
    · subst hrq
      simp [hq.mem_iff]
    · simp [ho r hrq, hrq]
  refine ⟨?_, ?_, ?_, ?_⟩
  · intro r
    by_cases hrq : r = q
    · subst hrq
      refine hq.nodup_iff.mpr (List.Nodup.append (h.nodup r) (List.nodup_singleton t) ?_)
      intro u hu hut
      rw [List.mem_singleton.mp hut] at hu
      exact hnowhere r hu
    · rw [ho r hrq]
      exact h.nodup r
  · intro u r v hr hv
    rcases (hfrom u r).mp hr with hr | ⟨hrq, hut⟩
    · rcases (hfrom u v).mp hv with hv | ⟨-, hut⟩
      · exact h.apart u r v hr hv
      · exact absurd (hut ▸ hr) (hnowhere r)
    · rcases (hfrom u v).mp hv with hv | ⟨hvq, -⟩
      · exact absurd (hut ▸ hv) (hnowhere v)
      · rw [hrq, hvq]
  · intro u hu
    rcases (hlive u).mp hu with hu | hut
    · obtain ⟨r, hr⟩ := h.somewhere u hu
      exact ⟨r, (hfrom u r).mpr (Or.inl hr)⟩
    · exact ⟨q, (hfrom u q).mpr (Or.inr ⟨rfl, hut⟩)⟩
  · intro u r hr
    rw [hlive]
    rcases (hfrom u r).mp hr with hr | ⟨-, hut⟩
    · exact Or.inl (h.known u r hr)
    · exact Or.inr hut

theorem Placed.clear (h : Placed live c) (p : P) (hlive : ∀ u, live' u ↔ live u ∧ u ∉ c p) (hp : c' p = [])
    (ho : ∀ r, r ≠ p → c' r = c r) : Placed live' c' := by
  have hfrom : ∀ u r, u ∈ c' r → r ≠ p ∧ u ∈ c r := by
    intro u r hr
    by_cases hrp : r = p
    · rw [hrp, hp] at hr
      cases hr
    · exact ⟨hrp, ho r hrp ▸ hr⟩
  refine ⟨?_, ?_, ?_, ?_⟩
  · intro r
    by_cases hrp : r = p
    · rw [hrp, hp]
      exact List.nodup_nil
    · rw [ho r hrp]
      exact h.nodup r
  · intro u r v hr hv
    exact h.apart u r v (hfrom u r hr).2 (hfrom u v hv).2
  · intro u hu
    obtain ⟨hlived, hout⟩ := (hlive u).mp hu
    obtain ⟨r, hr⟩ := h.somewhere u hlived
    have hrp : r ≠ p := fun heq => hout (heq ▸ hr)
    exact ⟨r, by rwa [ho r hrp]⟩
  · intro u r hr
    obtain ⟨hrp, hbefore⟩ := hfrom u r hr
    exact (hlive u).mpr ⟨h.known u r hbefore, fun hin => hrp (h.apart u r p hbefore hin)⟩

end Lib
