/-
  DockerCpp.Lib.Owners — objects at addresses, each of which may hold resources, and moves
  of what one object holds to another.

  A resource is held at most once (`Exclusive`). An object that is put at an address keeps
  that if what it holds is new or was held there (`Exclusive.put`), and so does a move,
  which leaves the object it moves from with nothing (`Exclusive.move`).
-/

import Mathlib.Logic.Function.Basic

namespace Lib

variable {A O R : Type} (Holds : O → R → Prop)

/-- The object at `a` holds `r`. -/
def Held (objects : A → Option O) (a : A) (r : R) : Prop := ∃ o, objects a = some o ∧ Holds o r

def Exclusive (objects : A → Option O) : Prop := ∀ a b r, Held Holds objects a r → Held Holds objects b r → a = b

variable {Holds} {objects : A → Option O} {a : A} {r : R}

theorem held_at {o : O} (h : objects a = some o) : Held Holds objects a r ↔ Holds o r := by
  constructor
  · intro hheld
    obtain ⟨o', ho', hr⟩ := hheld
    rw [h] at ho'
    rw [Option.some.inj ho']
    exact hr
  · intro hr
    exact ⟨o, h, hr⟩

theorem not_held_at (h : objects a = none) (r : R) : ¬ Held Holds objects a r := by
  intro hheld
  obtain ⟨o, ho, -⟩ := hheld
  rw [h] at ho
  cases ho

variable [DecidableEq A] {x : Option O}

theorem held_put_self : Held Holds (Function.update objects a x) a r ↔ ∃ o, x = some o ∧ Holds o r := by
  simp [Held]

theorem held_put_ne {a b : A} (hb : b ≠ a) :
    Held Holds (Function.update objects a x) b r ↔ Held Holds objects b r := by
  simp [Held, hb]

theorem Exclusive.put (h : Exclusive Holds objects)
    (hx : ∀ o r, x = some o → Holds o r → ∀ b, Held Holds objects b r → b = a) :
    Exclusive Holds (Function.update objects a x) := by
  have hput : ∀ r b, Held Holds (Function.update objects a x) a r → Held Holds (Function.update objects a x) b r →
      b = a := by
    intro r b ha hb
    by_cases hba : b = a
    · exact hba
    · obtain ⟨o, ho, hr⟩ := held_put_self.mp ha
      exact hx o r ho hr b ((held_put_ne hba).mp hb)
  intro b c r hb hc
  by_cases hba : b = a
  · subst hba
    exact (hput r c hb hc).symm
  · by_cases hca : c = a
    · subst hca
      exact hput r b hc hb
    · exact h b c r ((held_put_ne hba).mp hb) ((held_put_ne hca).mp hc)

/-- The object at `src` goes to `dst`, and an empty one stays. -/
def moved (objects : A → Option O) (dst src : A) (empty : O) : A → Option O :=
  Function.update (Function.update objects dst (objects src)) src (some empty)

theorem held_moved {dst src : A} (hne : dst ≠ src) {empty : O} (hempty : ∀ r, ¬ Holds empty r) :
    Held Holds (moved objects dst src empty) a r ↔
      a ≠ src ∧ if a = dst then Held Holds objects src r else Held Holds objects a r := by
  unfold moved
  by_cases ha : a = src
  · subst ha
    simp [held_put_self, hempty]
  · rw [held_put_ne ha]
    by_cases hd : a = dst
    · subst hd
      simp [ha, Held]
    · rw [held_put_ne hd]
      simp [ha, hd]

theorem Exclusive.move (h : Exclusive Holds objects) {dst src : A} (hne : dst ≠ src) {empty : O}
    (hempty : ∀ r, ¬ Holds empty r) : Exclusive Holds (moved objects dst src empty) := by
  have hback : ∀ a r, Held Holds (moved objects dst src empty) a r →
      Held Holds objects (if a = dst then src else a) r ∧ a ≠ src := by
    intro a r ha
    obtain ⟨hsrc, ha⟩ := (held_moved hne hempty).mp ha
    refine ⟨?_, hsrc⟩
    split
    · rename_i hd
      simpa [hd] using ha
    · rename_i hd
      simpa [hd] using ha
  intro a b r ha hb
  obtain ⟨ha, has⟩ := hback a r ha
  obtain ⟨hb, hbs⟩ := hback b r hb
  have heq := h _ _ r ha hb
  by_cases had : a = dst
  · by_cases hbd : b = dst
    · exact had.trans hbd.symm
    · rw [if_pos had, if_neg hbd] at heq
      exact absurd heq.symm hbs
  · by_cases hbd : b = dst
    · rw [if_neg had, if_pos hbd] at heq
      exact absurd heq has
    · rw [if_neg had, if_neg hbd] at heq
      exact heq

end Lib
