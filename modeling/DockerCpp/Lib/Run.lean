/-
  DockerCpp.Lib.Run — runs of a deterministic machine: commands taken one after the
  other by a step function.

  `throughout_iff_eachStep` turns a question about a whole run into one about a step: if,
  in the states of an invariant, `P` survives exactly the commands that satisfy `Q`, then
  `P` holds throughout a run exactly when every command of it satisfied `Q` where it was
  taken.
-/

import Mathlib.Logic.Basic

namespace Lib

variable {S C : Type} (step : S → C → S)

def runFrom (s : S) (cs : List C) : S := cs.foldl step s

def Throughout (P : S → Prop) : S → List C → Prop
  | s, [] => P s
  | s, c :: cs => P s ∧ Throughout P (step s c) cs

def EachStep (Q : S → C → Prop) : S → List C → Prop
  | _, [] => True
  | s, c :: cs => Q s c ∧ EachStep Q (step s c) cs

instance Throughout.decidable (P : S → Prop) [DecidablePred P] : ∀ s cs, Decidable (Throughout step P s cs)
  | s, [] => inferInstanceAs (Decidable (P s))
  | s, c :: cs =>
    have := Throughout.decidable P (step s c) cs
    inferInstanceAs (Decidable (P s ∧ Throughout step P (step s c) cs))

instance EachStep.decidable (Q : S → C → Prop) [∀ s c, Decidable (Q s c)] : ∀ s cs, Decidable (EachStep step Q s cs)
  | _, [] => isTrue trivial
  | s, c :: cs =>
    have := EachStep.decidable Q (step s c) cs
    inferInstanceAs (Decidable (Q s c ∧ EachStep step Q (step s c) cs))

variable {step} {cs : List C} {s : S} {Q Q' : S → C → Prop} {I P : S → Prop} {Ok : C → Prop}

theorem Throughout.first (h : Throughout step P s cs) : P s := by
  cases cs with
  | nil => exact h
  | cons c cs => exact h.1

theorem Throughout.last (h : Throughout step P s cs) : P (runFrom step s cs) := by
  induction cs generalizing s with
  | nil => exact h
  | cons c cs ih => exact ih h.2

theorem eachStep_append {cs cs' : List C} :
    EachStep step Q s (cs ++ cs') ↔ EachStep step Q s cs ∧ EachStep step Q (runFrom step s cs) cs' := by
  induction cs generalizing s with
  | nil => exact ⟨fun h => ⟨trivial, h⟩, fun h => h.2⟩
  | cons c cs ih => exact (and_congr Iff.rfl ih).trans and_assoc.symm

theorem eachStep_of_forall (h : ∀ c ∈ cs, ∀ s, Q s c) (s : S) : EachStep step Q s cs := by
  induction cs generalizing s with
  | nil => trivial
  | cons c cs ih => exact ⟨h c List.mem_cons_self s, ih (fun c' hc' => h c' (List.mem_cons_of_mem _ hc')) _⟩

theorem runFrom_eachStep (h : ∀ s c, I s → Q s c → I (step s c)) (hs : I s)
    (hq : EachStep step Q s cs) : I (runFrom step s cs) := by
  induction cs generalizing s with
  | nil => exact hs
  | cons c cs ih => exact ih (h s c hs hq.1) hq.2

theorem runFrom_invariant (h : ∀ s c, I s → I (step s c)) (hs : I s) (cs : List C) : I (runFrom step s cs) := by
  induction cs generalizing s with
  | nil => exact hs
  | cons c cs ih => exact ih (h s c hs)

/-- What the states of an invariant have in common holds throughout. -/
theorem throughout_of_eachStep {I P : S → Prop} (h : ∀ s c, I s → Q s c → I (step s c))
    (hP : ∀ s, I s → P s) (hs : I s) (hq : EachStep step Q s cs) : Throughout step P s cs := by
  induction cs generalizing s with
  | nil => exact hP s hs
  | cons c cs ih => exact ⟨hP s hs, ih (h s c hs hq.1) hq.2⟩

theorem throughout_iff_eachStep {I P : S → Prop} (hI : ∀ s c, I s → I (step s c))
    (h : ∀ s c, I s → P s → (P (step s c) ↔ Q s c)) (hs : I s) (hp : P s) (cs : List C) :
    Throughout step P s cs ↔ EachStep step Q s cs := by
  induction cs generalizing s with
  | nil => exact ⟨fun _ => trivial, fun _ => hp⟩
  | cons c cs ih =>
    constructor
    · intro hpost
      obtain ⟨-, ht⟩ := hpost
      exact ⟨(h s c hs hp).mp ht.first, (ih (hI s c hs) ht.first).mp ht⟩
    · intro hpost
      obtain ⟨hq, he⟩ := hpost
      have hp' := (h s c hs hp).mpr hq
      exact ⟨hp, (ih (hI s c hs) hp').mpr he⟩

/-- For a `P` that needs more to survive a step: what the commands that satisfy `Q` keep, and the
    others end `P`. -/
theorem throughout_iff_of_kept {G P : S → Prop} (hkept : ∀ s c, G s → Q s c → G (step s c))
    (hends : ∀ s c, G s → ¬ Q s c → ¬ P (step s c)) (hP : ∀ s, G s → P s) (hs : G s) (cs : List C) :
    Throughout step P s cs ↔ EachStep step Q s cs := by
  constructor
  · intro ht
    induction cs generalizing s with
    | nil => trivial
    | cons c cs ih =>
      have hq : Q s c := Classical.byContradiction fun hq => hends s c hs hq ht.2.first
      exact ⟨hq, ih (hkept s c hs hq) ht.2⟩
  · exact throughout_of_eachStep hkept hP hs

/-- The states that commands of a kind lead to. -/
def Reachable (step : S → C → S) (Ok : C → Prop) (start s : S) : Prop :=
  ∃ cs, (∀ c ∈ cs, Ok c) ∧ runFrom step start cs = s

theorem Reachable.refl {start : S} : Reachable step Ok start start := ⟨[], fun _ => nofun, rfl⟩

theorem Reachable.next {start s : S} (h : Reachable step Ok start s) {c : C} (hc : Ok c) :
    Reachable step Ok start (step s c) := by
  obtain ⟨cs, hcs, rfl⟩ := h
  refine ⟨cs ++ [c], fun c' hc' => ?_, by simp [runFrom]⟩
  rcases List.mem_append.mp hc' with hold | hnew
  · exact hcs c' hold
  · rw [List.mem_singleton.mp hnew]
    exact hc

theorem Reachable.invariant {start s : S} (hs : Reachable step Ok start s)
    (h : ∀ s c, I s → Ok c → I (step s c)) (hstart : I start) : I s := by
  obtain ⟨cs, hcs, rfl⟩ := hs
  exact runFrom_eachStep h hstart (eachStep_of_forall (fun c hc _ => hcs c hc) start)

/-- Throughout every run, or in every state that is reached. -/
theorem throughout_iff_reachable {start : S} :
    (∀ cs, (∀ c ∈ cs, Ok c) → Throughout step P start cs) ↔ ∀ s, Reachable step Ok start s → P s := by
  constructor
  · intro h s hs
    obtain ⟨cs, hcs, rfl⟩ := hs
    exact (h cs hcs).last
  · intro h cs hcs
    exact throughout_of_eachStep (Q := fun _ c => Ok c) (fun _ _ hs hc => hs.next hc) h Reachable.refl
      (eachStep_of_forall (fun c hc _ => hcs c hc) start)

theorem EachStep.mono (hI : ∀ s c, I s → Q s c → I (step s c))
    (h : ∀ s c, I s → Q s c → Q' s c) (hs : I s) (hq : EachStep step Q s cs) :
    EachStep step Q' s cs := by
  induction cs generalizing s with
  | nil => trivial
  | cons c cs ih => exact ⟨h s c hs hq.1, ih (hI s c hs hq.1) hq.2⟩

/-- Two conditions on steps that agree in the states an invariant allows, where the
    invariant survives the steps that satisfy them. -/
theorem eachStep_congr (hI : ∀ s c, I s → Q s c → I (step s c))
    (h : ∀ s c, I s → (Q s c ↔ Q' s c)) (hs : I s) (cs : List C) :
    EachStep step Q s cs ↔ EachStep step Q' s cs :=
  ⟨.mono hI (fun s c hs => (h s c hs).mp) hs,
    .mono (fun s c hs hq => hI s c hs ((h s c hs).mpr hq)) (fun s c hs => (h s c hs).mpr) hs⟩

/-- A run of steps that each make a measure smaller is no longer than the measure. -/
theorem length_add_le_of_decreasing {μ : S → Nat}
    (hI : ∀ s c, I s → Q s c → I (step s c)) (h : ∀ s c, I s → Q s c → μ (step s c) < μ s) (hs : I s)
    (hq : EachStep step Q s cs) : cs.length + μ (runFrom step s cs) ≤ μ s := by
  induction cs generalizing s with
  | nil => simp [runFrom]
  | cons c cs ih =>
    have hfirst := h s c hs hq.1
    have hrest := ih (hI s c hs hq.1) hq.2
    simp only [runFrom, List.foldl_cons, List.length_cons] at hrest ⊢
    omega

end Lib
