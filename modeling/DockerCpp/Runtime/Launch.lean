/-
  DockerCpp.Runtime.Launch — what the child of `start` executes.

  `startProcess` makes the program of `command[0]` and the arguments of the rest of
  `command` and `args`; the child of `createProcess` hands the arguments to `execve` as they
  are, and `argv[0]` is one of them. So the program gets its first argument for its own
  name and never sees it among its arguments (`launched_command`). `execve` reads C strings,
  so a text is cut at its first NUL.

  `launching` is any system that remembers the configurations it forked a child for;
  what the child does is `Runtime.Handshake`'s.
-/

import DockerCpp.Runtime.Handshake
import DockerCpp.Runtime.Kernel
import DockerCpp.Runtime.OsFrames
import Mathlib.Data.List.TakeWhile

namespace DockerCpp.Runtime

open Lib Lib.Prog

/-! ## `execve` -/

/-- What `c_str()` points to, up to the NUL that ends it. -/
def cStr (s : String) : String := .ofList (s.toList.takeWhile (· ≠ '\x00'))

theorem cStr_eq_iff (s : String) : cStr s = s ↔ '\x00' ∉ s.toList := by
  rw [cStr, ← String.toList_inj, String.toList_ofList, List.takeWhile_eq_self_iff]
  constructor
  · intro h hmem
    exact absurd rfl (of_decide_eq_true (h _ hmem))
  · intro h c hc
    refine decide_eq_true ?_
    rintro rfl
    exact h hc

theorem map_cStr_eq_iff (l : List String) : l.map cStr = l ↔ ∀ s ∈ l, '\x00' ∉ s.toList := by
  induction l with
  | nil => simp
  | cons s l ih => simp [cStr_eq_iff, ih]

namespace ProcessManager

/-- A vector of `char*`; `none` is the null pointer at its end. -/
def createArgv (args : List String) : List (Option String) := args.map (some <| cStr ·) ++ [none]

def createEnvp (env : List String) : List (Option String) := env.map (some <| cStr ·) ++ [none]

end ProcessManager

/-- The strings of a vector up to its null pointer. -/
def entries : List (Option String) → List String
  | some s :: rest => s :: entries rest
  | none :: _ | [] => []

theorem entries_terminated (l : List String) : entries (l.map (some <| cStr ·) ++ [none]) = l.map cStr := by
  induction l with
  | nil => rfl
  | cons s l ih => simp [entries, ih]

/-- What a call of `execve` gets. -/
structure Exec where
  program : String
  argv : List String
  envp : List String
  deriving DecidableEq, Repr

def execve (config : ProcessConfig) : Exec where
  program := cStr config.executable
  argv := entries (ProcessManager.createArgv config.args)
  envp := entries (ProcessManager.createEnvp config.env)

/-- The call `start` leads to, for a command that is not empty. -/
theorem execve_processConfig {config : ContainerConfig} {program : String} {rest : List String}
    (h : config.command = program :: rest) : execve (Container.processConfig config) =
      ⟨cStr program, (rest ++ config.args).map cStr, config.env.map cStr⟩ := by
  simp only [execve, ProcessManager.createArgv, ProcessManager.createEnvp, entries_terminated]
  simp [Container.processConfig, h]

namespace Child

variable (f : Faults) (config : ProcessConfig)

/-- The calls of `execve` a child makes. -/
def execs : List Move → Child → List Exec
  | [], _ => []
  | m :: moves, c => (if m = .step ∧ c.pc = .exec then [execve config] else []) ++ execs moves (c.move f config m)

variable {c : Child} {moves : List Move}

theorem mem_execs {call : Exec} (h : call ∈ execs f config moves c) : call = execve config := by
  induction moves generalizing c with
  | nil => cases h
  | cons m moves ih =>
    rcases List.mem_append.mp h with hnow | hlater
    · split at hnow
      · exact List.mem_singleton.mp hnow
      · cases hnow
    · exact ih hlater

/-- The call of `execve` is still to come. -/
def early : ChildPc → Bool
  | .closeRead | .setup _ | .chdir | .exec => true
  | .report _ | .closeWrite | .exit | .exited | .executing | .ended => false

theorem early_move (h : early c.pc = false) (m : Move) : early (c.move f config m).pc = false := by
  cases m with
  | programEnds =>
    by_cases hpc : c.pc = .executing
    · simp [move, hpc, early]
    · simpa [move, hpc] using h
  | step => cases hpc : c.pc <;> simp_all [move, step, early]

theorem execs_late (h : early c.pc = false) : execs f config moves c = [] := by
  induction moves generalizing c with
  | nil => rfl
  | cons m moves ih =>
    have hnot : ¬ (m = .step ∧ c.pc = .exec) := by
      intro hpost
      obtain ⟨-, hpc⟩ := hpost
      simp [hpc, early] at h
    rw [execs, if_neg hnot, ih (early_move f config h m)]
    rfl

/-- Before the call, a step of a child that will execute leads to the call or nearer to it. -/
theorem early_step (h : early c.pc = true) (hpc : c.pc ≠ .exec) (hfate : fate f config c = true) :
    early (c.step f config).pc = true := by
  rcases c with ⟨pc, written, writeEnd⟩
  cases pc with
  | closeRead => rfl
  | setup rest =>
    cases rest with
    | nil => rfl
    | cons ns rest =>
      have hns : f.unshare ns = false := by simp_all [fate]
      simp [step, hns, early]
  | chdir =>
    by_cases hdir : config.workingDir = ""
    · simp [step, hdir, early]
    · have hnone : f.chdir config.workingDir = none := by simp_all [fate, chdirWorks]
      simp [step, hdir, hnone, early]
  | exec => exact absurd rfl hpc
  | report error | closeWrite | exit | exited | executing | ended => cases h

/-- A child that has come to execute the program made the call, once. -/
theorem execs_executing (h : early c.pc = true)
    (hrun : (run f config moves c).pc = .executing) : execs f config moves c = [execve config] := by
  induction moves generalizing c with
  | nil =>
    have hpc : c.pc = .executing := hrun
    rw [hpc] at h
    cases h
  | cons m moves ih =>
    have hfate : fate f config c = true := by
      rw [← fate_run f config (m :: moves) c, fate, hrun]
    cases m with
    | programEnds =>
      have hpc : c.pc ≠ .executing := by
        intro hpc
        rw [hpc] at h
        cases h
      have hsame : c.move f config .programEnds = c := by simp [move, hpc]
      have hrun' : (run f config moves (c.move f config .programEnds)).pc = .executing := hrun
      rw [hsame] at hrun'
      rw [execs, if_neg (by simp), hsame]
      exact ih h hrun'
    | step =>
      by_cases hpc : c.pc = .exec
      · have hlate : early (c.step f config).pc = false := by
          simp only [step, hpc]
          split <;> rfl
        rw [execs, if_pos ⟨rfl, hpc⟩, show c.move f config .step = c.step f config from rfl, execs_late f config hlate]
        rfl
      · rw [execs, if_neg fun hboth => hpc hboth.2]
        exact ih (early_step f config h hpc hfate) hrun

end Child

/-! ## The children of `start` -/

/-- A system, and the configurations of the children it forked. -/
structure Launches (σ : Type) where
  base : σ
  forked : List ProcessConfig := []

namespace Launches

variable {σ : Type}

def lift {α : Type} (g : σ → α × σ) (s : Launches σ) : α × Launches σ := ((g s.base).1, { s with base := (g s.base).2 })

def launching (base : Os σ) : Os (Launches σ) :=
  { base.through lift with
    fork := fun config s =>
      match base.fork config s.base with
      | (.ok pid, b) => (.ok pid, ⟨b, s.forked ++ [config]⟩)
      | (.error text, b) => (.error text, { s with base := b }) }

theorem launching_leaves (base : Os σ) (l : List ProcessConfig) : (launching base).Leaves fun s => s.forked = l :=
  { base.through_leaves lift fun _ _ h => h with }

/-- `start` forks one child, for the container's command, or throws. -/
theorem start_forks (base : Os σ) (w : World (Launches σ)) :
    Ends (Container.start (launching base) .abstracted) w fun r w' =>
      w'.os.forked = w.os.forked ++ [Container.processConfig w.c.config] ∨
        w'.os.forked = w.os.forked ∧ ∀ a, r ≠ .ok a := by
  have hcross : Crosses (Container.On w.c.config _) (Container.On w.c.config _)
      (Container.start (launching base) .abstracted) :=
    Container.start_crosses (launching_leaves base w.os.forked)
      (launching_leaves base (w.os.forked ++ [Container.processConfig w.c.config])) ?_
  · refine Ends.mono (hcross w ⟨rfl, rfl⟩) ?_
    intro r w' hpost
    rcases hpost with ⟨-, hforked⟩ | ⟨⟨-, hforked⟩, hfails⟩
    · exact Or.inl hforked
    · exact Or.inr ⟨hforked, hfails⟩
  · intro s hs
    rcases hfork : base.fork (Container.processConfig w.c.config) s.base with ⟨r, b⟩
    cases r with
    | ok pid => exact Or.inl ⟨⟨pid, by simp [launching, hfork]⟩, by simp [launching, hfork, hs]⟩
    | error text => exact Or.inr ⟨⟨text, by simp [launching, hfork]⟩, by simp [launching, hfork, hs]⟩

/-- The child of `start` calls `execve` with `command` and `args` but without `command[0]`,
    whatever they are. The program and the environment are the ones asked for exactly if
    no text of them has a NUL. -/
theorem launched_command (base : Os σ) (w : World (Launches σ)) {program : String} {rest : List String}
    (hcommand : w.c.config.command = program :: rest) :
    Ends (Container.start (launching base) .abstracted) w fun r w' =>
      ∃ forked, w'.os.forked = w.os.forked ++ forked ∧ (r = .ok () → forked.length = 1) ∧ forked.length ≤ 1 ∧
        ∀ config ∈ forked, ∀ f moves,
          ((Child.run f config moves {}).pc = .executing → ∃ call, Child.execs f config moves {} = [call]) ∧
          ∀ call ∈ Child.execs f config moves {},
            call.argv = (rest ++ w.c.config.args).map cStr ∧ call.argv ≠ w.c.config.command ++ w.c.config.args ∧
            (call.program = program ↔ '\x00' ∉ program.toList) ∧
            (call.envp = w.c.config.env ↔ ∀ s ∈ w.c.config.env, '\x00' ∉ s.toList) := by
  refine Ends.mono (start_forks base w) ?_
  intro r w' hpost
  rcases hpost with hforked | ⟨hforked, hfails⟩
  · refine ⟨_, hforked, fun _ => rfl, le_refl 1, ?_⟩
    intro config hconfig f moves
    obtain rfl := List.mem_singleton.mp hconfig
    refine ⟨fun hrun => ⟨_, Child.execs_executing f _ rfl hrun⟩, ?_⟩
    intro call hcall
    rw [Child.mem_execs f _ hcall, execve_processConfig hcommand]
    refine ⟨rfl, ?_, cStr_eq_iff program, map_cStr_eq_iff _⟩
    intro hargv
    have hlen := congrArg List.length hargv
    simp only [hcommand, List.length_map, List.length_append, List.length_cons] at hlen
    omega
  · refine ⟨[], by simpa using hforked, fun hr => absurd hr (hfails ()), Nat.zero_le 1, ?_⟩
    intro config hpost
    obtain ⟨⟩ := hpost

def echo : World (Launches Int) :=
  Container.fresh (launching plainOs)
    { id := "c", name := "web", command := ["/bin/echo", "-n"], args := ["hello"], env := ["LANG=C"] } { base := 100 }
    none {}

theorem launched_command_echo :
    Ends (Container.start (launching plainOs) .abstracted) echo fun r w' =>
      ∃ forked, w'.os.forked = echo.os.forked ++ forked ∧ (r = .ok () → forked.length = 1) ∧ forked.length ≤ 1 ∧
        ∀ config ∈ forked, ∀ f moves,
          ((Child.run f config moves {}).pc = .executing → ∃ call, Child.execs f config moves {} = [call]) ∧
          ∀ call ∈ Child.execs f config moves {},
            call.argv = (["-n"] ++ echo.c.config.args).map cStr ∧
            call.argv ≠ echo.c.config.command ++ echo.c.config.args ∧
            (call.program = "/bin/echo" ↔ '\x00' ∉ "/bin/echo".toList) ∧
            (call.envp = echo.c.config.env ↔ ∀ s ∈ echo.c.config.env, '\x00' ∉ s.toList) :=
  launched_command plainOs echo rfl

/-- `start` succeeds, and no call of the child fails. The program prints `hello` and a line
    end: it takes `-n` for its name. -/
theorem the_first_argument_is_lost :
    (Container.start (launching plainOs) .abstracted echo).1 = .ok () ∧
    ((Container.start (launching plainOs) .abstracted echo).2.os.forked.map fun config =>
        Child.execs ⟨fun _ => false, fun _ => none, fun _ => none⟩ config (List.replicate 9 .step) {}) =
      [[⟨"/bin/echo", ["-n", "hello"], ["LANG=C"]⟩]] ∧
    echo.c.config.command ++ echo.c.config.args = ["/bin/echo", "-n", "hello"] := by
  decide +kernel

end Launches

end DockerCpp.Runtime
