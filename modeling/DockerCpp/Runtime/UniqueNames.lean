/-
  DockerCpp.Runtime.UniqueNames — the loop of `generateUniqueName` ends.

  The loop is taken here turn by turn, with `counter` the `int` that it is: `counter++` at the
  greatest `int` is undefined. Nothing in the loop bounds the turns. The names it tries are all
  different and there are finitely many in `name_to_id_`, so one of the first, one more than there
  are names, is free; the counter is then still an `int`, and the bound that `firstUnique` has on
  its turns is never reached (`generateUniqueName_fresh`).
-/

import DockerCpp.Runtime.RegistryCreate
import Mathlib.Algebra.Group.Nat.Defs

namespace DockerCpp.Runtime.Registry

open Lib Lib.Prog

/-! ## Turn by turn -/

inductive Naming where
  | trying (counter : Nat) (uniqueName : String)
  | found (uniqueName : String)
  | overflow
  deriving DecidableEq, Repr

/-- The condition of the loop, and the body if it holds. -/
def Naming.turn (taken : String → Bool) (name : String) : Naming → Naming
  | .trying counter uniqueName =>
    if taken uniqueName then
      if counter < 2 ^ 31 - 1 then .trying (counter + 1) (name ++ "-" ++ toString counter) else .overflow
    else .found uniqueName
  | .found uniqueName => .found uniqueName
  | .overflow => .overflow

theorem turns_eq {taken : String → Bool} {name : String} {counter i : Nat} {current : String}
    (h : FirstFree taken name counter current i) (hi : counter + i ≤ 2 ^ 31 - 1) :
    (Naming.turn taken name)^[i + 1] (.trying counter current) = .found (candidate name counter current i) := by
  induction i generalizing counter current with
  | zero => exact if_neg (Bool.eq_false_iff.mp h.free)
  | succ i ih =>
    have hturn : Naming.turn taken name (.trying counter current) =
        .trying (counter + 1) (name ++ "-" ++ toString counter) := by
      have htaken : taken current = true := h.before 0 (Nat.succ_pos i)
      rw [Naming.turn, if_pos htaken, if_pos (by omega)]
    rw [Function.iterate_succ_apply, hturn, ih h.succ (by omega), candidate_succ]

theorem candidate_extends (name : String) (i : Nat) : ∃ rest, candidate name 1 name i = name ++ rest := by
  cases i with
  | zero => exact ⟨"", by simp [candidate]⟩
  | succ i => exact ⟨"-" ++ toString (1 + i), by rw [candidate, String.append_assoc]⟩

/-! ## The name -/

variable {σ : Type} (os : Os σ)

theorem generateUniqueName_fresh (s : Registry σ) (base : String) (hsize : s.nameToId.size < 2 ^ 31 - 1) :
    let name := base ++ String.ofList (nameChars os 6 s.os).1
    ∃ unique, (∃ turns ≤ s.nameToId.size + 1,
        (Naming.turn (fun n => !s.isNameUnique n) name)^[turns] (.trying 1 name) = .found unique) ∧
      Ends (generateUniqueName os base) s (fun r _ => r = .ok unique) ∧
      (∃ rest, unique = base ++ rest) ∧ s.isNameUnique unique = true := by
  intro name
  have htaken : (fun n => !s.isNameUnique n) = s.nameToId.contains := by
    funext n
    rw [isNameUnique, Bool.not_not]
  obtain ⟨i, hi, hfirst, heq⟩ := uniqueName_first os s.nameToId base s.os
  refine ⟨candidate name 1 name i, ⟨i + 1, hi, ?_⟩, ?_, ?_, ?_⟩
  · rw [htaken]
    exact turns_eq hfirst (by omega)
  · apply (generateUniqueName_ends os base s).mono
    intro r s' h
    rw [h.1, heq]
  · obtain ⟨rest, hrest⟩ := candidate_extends name i
    exact ⟨String.ofList (nameChars os 6 s.os).1 ++ rest, by rw [hrest, String.append_assoc]⟩
  · rw [isNameUnique, hfirst.free]
    rfl

/-- The names of two registered containers, both of which the loop tries. -/
theorem generateUniqueName_fresh_of_two_names :
    let s : Registry Container.Procs :=
      { empty (fun _ => (Container.make Container.calmOs {} {}).1) {} with
        nameToId := Std.TreeMap.ofList [("web-000000", "a"), ("web-000000-1", "b")] }
    s.nameToId.size = 2 ∧ (generateUniqueName Container.calmOs "web-" s).1 = .ok "web-000000-2" ∧
      s.isNameUnique "web-000000-2" = true := by
  intro s
  have hsize : s.nameToId.size = 2 := by decide
  have hresult : (generateUniqueName Container.calmOs "web-" s).1 = .ok "web-000000-2" := by decide
  obtain ⟨unique, _, hends, _, hfree⟩ := generateUniqueName_fresh Container.calmOs s "web-" (hsize ▸ by decide)
  have hsame : Res.ok unique = Res.ok "web-000000-2" := hends.symm.trans hresult
  cases hsame
  exact ⟨hsize, hresult, hfree⟩

end DockerCpp.Runtime.Registry
