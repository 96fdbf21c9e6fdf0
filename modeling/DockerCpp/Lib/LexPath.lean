/-
  DockerCpp.Lib.LexPath — the lexical meaning of a path: its components taken one after the
  other, `.` and the empty one staying, `..` going up (and staying at the root), any other
  going down.

  A relative path goes up some steps and then down some names, whatever it is taken from
  (`reduce`, `resolveFrom_eq`).
-/

import Mathlib.Data.List.Basic

namespace Lib.LexPath

def push (stack : List String) (c : String) : List String :=
  if c = "" ∨ c = "." then stack else if c = ".." then stack.dropLast else stack ++ [c]

def resolveFrom (stack : List String) (cs : List String) : List String := cs.foldl push stack

/-- An absolute path given by its components. -/
def resolve (cs : List String) : List String := resolveFrom [] cs

def pushRelative (r : Nat × List String) (c : String) : Nat × List String :=
  if c = "" ∨ c = "." then r
  else if c = ".." then (if r.2 = [] then (r.1 + 1, []) else (r.1, r.2.dropLast))
  else (r.1, r.2 ++ [c])

/-- The steps up and the names down that a relative path amounts to. -/
def reduce (cs : List String) : Nat × List String := cs.foldl pushRelative (0, [])

def climb (stack : List String) (n : Nat) : List String := stack.take (stack.length - n)

theorem climb_succ (stack : List String) (n : Nat) : (climb stack n).dropLast = climb stack (n + 1) := by
  unfold climb
  rw [List.dropLast_eq_take, List.length_take, List.take_take]
  congr 1
  omega

theorem push_climb (stack : List String) (r : Nat × List String) (c : String) :
    push (climb stack r.1 ++ r.2) c = climb stack (pushRelative r c).1 ++ (pushRelative r c).2 := by
  unfold push pushRelative
  by_cases hstay : c = "" ∨ c = "."
  · rw [if_pos hstay, if_pos hstay]
  · rw [if_neg hstay, if_neg hstay]
    by_cases hup : c = ".."
    · rw [if_pos hup, if_pos hup]
      by_cases hr : r.2 = []
      · rw [if_pos hr, hr, List.append_nil, List.append_nil, climb_succ]
      · rw [if_neg hr, List.dropLast_append_of_ne_nil hr]
    · rw [if_neg hup, if_neg hup, List.append_assoc]

theorem resolveFrom_eq (stack : List String) (cs : List String) :
    resolveFrom stack cs = climb stack (reduce cs).1 ++ (reduce cs).2 := by
  have hgen : ∀ r : Nat × List String, resolveFrom (climb stack r.1 ++ r.2) cs =
      climb stack (cs.foldl pushRelative r).1 ++ (cs.foldl pushRelative r).2 := by
    induction cs with
    | nil => exact fun r => rfl
    | cons c cs ih =>
      intro r
      show resolveFrom (push (climb stack r.1 ++ r.2) c) cs = _
      rw [push_climb]
      exact ih (pushRelative r c)
  simpa [climb, reduce] using hgen (0, [])

end Lib.LexPath
