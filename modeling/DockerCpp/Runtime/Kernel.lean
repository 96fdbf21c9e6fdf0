/-
  DockerCpp.Runtime.Kernel — the processes under the runtime: a child runs, is a zombie
  that keeps how it ended, or has been reaped.

  `kernelOs base` is an `Os` over any other `base`: signals, waits and forks go to the
  process table, every other call to `base`. Signal 0 reaches a running child and a zombie;
  `waitpid` reaps a zombie and answers how it ended, once. Pids are positive: the pids from 0
  down, which stand for any child or for a group, are unknown here. A reaped pid is free: a
  later fork or an unrelated process may get it (`taken`). What the children and the other
  processes do is an input: before each call the next list of `moves` happens, so a child
  may end between any two calls.

  `stray` keeps every signal other than 0 that was sent to a reaped pid.

  A call either lets the due moves happen and leaves the table alone (`Passed`), or reaps
  a zombie after that, or starts a child. `Kept pid I` says that the first, and the second
  for `pid`, do not leave `I`; whatever is kept in this sense survives a status query of the process manager, and
  the query answers RUNNING only for a child that runs (`determineProcessStatus_ends`).
-/

import DockerCpp.Runtime.ProcessManager
import Mathlib.Logic.Function.Basic

namespace DockerCpp.Runtime

open Lib Lib.Prog

/-- How a process ended. -/
inductive Exit where
  | code (code : Int)
  | signal (sig : Int)
  deriving DecidableEq, Repr

def Exit.status : Exit → WaitStatus
  | .code c => .exited c
  | .signal s => .signaled s

inductive Life where
  | running
  | zombie (e : Exit)
  /-- Reaped by a `waitpid` of this process; `taken`: an unrelated process has the pid. -/
  | reaped (e : Exit) (taken : Bool)
  deriving DecidableEq, Repr

/-- What happens outside the runtime. -/
inductive Move where
  | exit (pid : Int) (e : Exit)
  | takeOver (pid : Int)
  deriving DecidableEq, Repr

structure Kernel (σ : Type) where
  procs : Int → Option Life := fun _ => none
  /-- What happens before the next call, before the one after it, and so on. -/
  moves : List (List Move) := []
  /-- How a child ends that a call blocks on. -/
  fate : Int → Exit := fun _ => .code 127
  stray : List (Int × Int) := []
  rest : σ

namespace Kernel

variable {σ : Type}

def set (k : Kernel σ) (pid : Int) (l : Life) : Kernel σ := { k with procs := Function.update k.procs pid (some l) }

def move (k : Kernel σ) : Move → Kernel σ
  | .exit pid e => if k.procs pid = some .running then k.set pid (.zombie e) else k
  | .takeOver pid =>
    match k.procs pid with
    | some (.reaped e _) => k.set pid (.reaped e true)
    | _ => k

/-- The system, with what happens in it during the next call. -/
def during (k : Kernel σ) (moves : List (List Move)) : Kernel σ := { k with moves := moves }

/-- The moves that are due happen. -/
def advance (k : Kernel σ) : Kernel σ := k.moves.headD [] |>.foldl move { k with moves := k.moves.tail }

/-- A call that has nothing to do with processes. -/
def other {α : Type} (f : σ → α × σ) (k : Kernel σ) : α × Kernel σ :=
  ((f k.advance.rest).1, { k.advance with rest := (f k.advance.rest).2 })

def kill (f : σ → Bool × σ) (pid sig : Int) (k : Kernel σ) : Bool × Kernel σ :=
  match k.advance.procs pid with
  | some .running | some (.zombie _) => (true, k.advance)
  | some (.reaped _ taken) =>
    let k' := if sig = 0 then k.advance else { k.advance with stray := k.advance.stray ++ [(pid, sig)] }
    (taken && (f k'.rest).1, { k' with rest := (f k'.rest).2 })
  | none => ((f k.advance.rest).1, { k.advance with rest := (f k.advance.rest).2 })

/-- A `waitpid` that reaps nothing leaves the status word to `f`. -/
def waitpid (f : σ → WaitStatus × σ) (pid : Int) (hang : Bool) (k : Kernel σ) : (Int × WaitStatus) × Kernel σ :=
  match k.advance.procs pid with
  | some .running =>
    if hang then ((pid, (k.fate pid).status), k.advance.set pid (.reaped (k.fate pid) false))
    else ((0, (f k.advance.rest).1), { k.advance with rest := (f k.advance.rest).2 })
  | some (.zombie e) => ((pid, e.status), k.advance.set pid (.reaped e false))
  | some (.reaped _ _) | none => ((-1, (f k.advance.rest).1), { k.advance with rest := (f k.advance.rest).2 })

/-- A new child gets a positive pid that no process has. -/
def isFree (k : Kernel σ) (pid : Int) : Bool :=
  0 < pid && match k.procs pid with
    | none | some (.reaped _ false) => true
    | some .running | some (.zombie _) | some (.reaped _ true) => false

def fork (f : σ → Except String Int × σ) (k : Kernel σ) : Except String Int × Kernel σ :=
  let r := other f k
  match r.1 with
  | .ok pid => if r.2.isFree pid then (.ok pid, r.2.set pid .running) else (.error "no free pid", r.2)
  | .error text => (.error text, r.2)

end Kernel

def kernelOs {σ : Type} (base : Os σ) : Os (Kernel σ) :=
  { base.through Kernel.other with
    fork := fun config => Kernel.fork (base.fork config)
    kill := fun pid sig => Kernel.kill (base.kill pid sig) pid sig
    waitpid := fun pid hang =>
      Kernel.waitpid (fun s => ((base.waitpid pid hang s).1.2, (base.waitpid pid hang s).2)) pid hang }

/-- A base whose calls all succeed; it keeps the next pid. -/
def plainOs : Os Int where
  unshare _ s := (none, s)
  cgroup _ _ s := (none, s)
  getMetrics _ s := (.ok ⟨0, 0, 0, 0, 0, 0⟩, s)
  pipe s := (none, s)
  fork _ s := (.ok s, s + 1)
  readErrorPipe _ s := (.nothing, s)
  kill _ _ s := (true, s)
  waitpid pid _ s := ((pid, .other), s)
  sleepMs _ s := s
  systemNow s := (7, s)
  steadyNow s := (0, s)
  uniform n s := (⟨0, Nat.succ_pos n⟩, s)
  notify _ _ _ s := s

/-! ## What a call does to the process table -/

namespace Kernel

variable {σ : Type}

/-- The due moves happened, and nothing else the table shows. -/
structure Passed (k k' : Kernel σ) : Prop where
  procs : k'.procs = k.advance.procs
  moves : k'.moves = k.moves.tail
  stray : k'.stray = k.stray

theorem foldl_move_moves (ms : List Move) (k : Kernel σ) :
    (ms.foldl move k).moves = k.moves ∧ (ms.foldl move k).stray = k.stray := by
  induction ms generalizing k with
  | nil => exact ⟨rfl, rfl⟩
  | cons m ms ih =>
    have hm : (k.move m).moves = k.moves ∧ (k.move m).stray = k.stray := by
      unfold move
      split
      · split
        · exact ⟨rfl, rfl⟩
        · exact ⟨rfl, rfl⟩
      · split
        · exact ⟨rfl, rfl⟩
        · exact ⟨rfl, rfl⟩
    rw [List.foldl_cons, (ih _).1, (ih _).2]
    exact hm

theorem advance_passed (k : Kernel σ) : Passed k k.advance :=
  ⟨rfl, (foldl_move_moves _ _).1, (foldl_move_moves _ _).2⟩

theorem advance_rest_passed (k : Kernel σ) (s : σ) : Passed k { k.advance with rest := s } :=
  ⟨rfl, (advance_passed k).moves, (advance_passed k).stray⟩

theorem other_passed {α : Type} (f : σ → α × σ) (k : Kernel σ) : Passed k (other f k).2 := advance_rest_passed k _

@[simp] theorem set_procs_self (k : Kernel σ) (pid : Int) (l : Life) : (k.set pid l).procs pid = some l :=
  Function.update_self ..

theorem set_procs_ne (k : Kernel σ) {pid q : Int} (l : Life) (h : q ≠ pid) : (k.set pid l).procs q = k.procs q :=
  Function.update_of_ne h ..

def Running (k : Kernel σ) (pid : Int) : Prop := k.procs pid = some .running

def Reaped (k : Kernel σ) (pid : Int) : Prop := ∃ e taken, k.procs pid = some (.reaped e taken)

instance (k : Kernel σ) (pid : Int) : Decidable (k.Reaped pid) :=
  match h : k.procs pid with
  | some (.reaped e taken) => isTrue ⟨e, taken, h⟩
  | some .running | some (.zombie _) | none => isFalse fun ⟨_, _, h'⟩ => nomatch h.symm.trans h'

/-- How the life of `pid` may go on while the moves `ms` happen. -/
inductive Aged (ms : List Move) (pid : Int) : Option Life → Option Life → Prop
  | same (l : Option Life) : Aged ms pid l l
  | exit {e : Exit} : .exit pid e ∈ ms → Aged ms pid (some .running) (some (.zombie e))
  | takeOver {e : Exit} {taken : Bool} : .takeOver pid ∈ ms →
      Aged ms pid (some (.reaped e taken)) (some (.reaped e true))

theorem move_aged (k : Kernel σ) (m : Move) (pid : Int) : Aged [m] pid (k.procs pid) ((k.move m).procs pid) := by
  cases m with
  | exit q e =>
    simp only [move]
    split
    · rename_i hr
      by_cases hq : pid = q
      · obtain rfl := hq
        rw [hr, set_procs_self]
        exact .exit List.mem_cons_self
      · rw [set_procs_ne k _ hq]
        exact .same _
    · exact .same _
  | takeOver q =>
    simp only [move]
    split
    · rename_i e taken hr
      by_cases hq : pid = q
      · obtain rfl := hq
        rw [hr, set_procs_self]
        exact .takeOver List.mem_cons_self
      · rw [set_procs_ne k _ hq]
        exact .same _
    · exact .same _

variable {pid : Int} {ms : List Move} {l : Option Life} {e : Exit} {k : Kernel σ} {I : Kernel σ → Prop}

theorem Aged.mono {ms ms' : List Move} {l l' : Option Life} (h : Aged ms pid l l') (hsub : ms ⊆ ms') :
    Aged ms' pid l l' := by
  cases h with
  | same => exact .same l
  | exit he => exact .exit (hsub he)
  | takeOver ht => exact .takeOver (hsub ht)

theorem Aged.trans {l l' l'' : Option Life} (h : Aged ms pid l l') (h' : Aged ms pid l' l'') : Aged ms pid l l'' := by
  cases h with
  | same => exact h'
  | exit he =>
    cases h'
    exact .exit he
  | takeOver ht =>
    cases h' with
    | same => exact .takeOver ht
    | takeOver _ => exact .takeOver ht

theorem foldl_move_aged (ms : List Move) (k : Kernel σ) (pid : Int) :
    Aged ms pid (k.procs pid) ((ms.foldl move k).procs pid) := by
  induction ms generalizing k with
  | nil => exact .same _
  | cons m ms ih =>
    have first : Aged (m :: ms) pid (k.procs pid) ((k.move m).procs pid) := (move_aged k m pid).mono (by simp)
    exact first.trans ((ih (k.move m)).mono (List.subset_cons_self m ms))

theorem Passed.aged {k k' : Kernel σ} (h : Passed k k') (pid : Int) :
    Aged (k.moves.headD []) pid (k.procs pid) (k'.procs pid) := by
  rw [h.procs]
  exact foldl_move_aged (k.moves.headD []) { k with moves := k.moves.tail } pid

theorem Aged.to_zombie (h : Aged ms pid l (some (.zombie e))) :
    l = some (.zombie e) ∨ l = some .running ∧ .exit pid e ∈ ms := by
  cases h with
  | same => exact Or.inl rfl
  | exit he => exact Or.inr ⟨rfl, he⟩

theorem Aged.to_reaped {taken : Bool} (h : Aged ms pid l (some (.reaped e taken))) :
    l = some (.reaped e taken) ∨ taken = true ∧ .takeOver pid ∈ ms ∧ ∃ before, l = some (.reaped e before) := by
  cases h with
  | same => exact Or.inl rfl
  | takeOver ht => exact Or.inr ⟨rfl, ht, _, rfl⟩

theorem Aged.of_zombie (h : Aged ms pid (some (.zombie e)) l) : l = some (.zombie e) := by
  cases h with
  | same => rfl

theorem Aged.of_reaped {taken : Bool}
    (h : Aged ms pid (some (.reaped e taken)) l) : ∃ taken', l = some (.reaped e taken') := by
  cases h with
  | same => exact ⟨taken, rfl⟩
  | takeOver _ => exact ⟨true, rfl⟩

theorem mem_of_mem_headD {ms : List (List Move)} {m : Move} (h : m ∈ ms.headD []) : ∃ l ∈ ms, m ∈ l := by
  cases ms with
  | nil => cases h
  | cons l rest => exact ⟨l, List.mem_cons_self, h⟩

theorem Aged.isSome {l l' : Option Life} (h : Aged ms pid l l') : l'.isSome = l.isSome := by
  cases h <;> rfl

/-- Every signal passes but one that goes to a reaped pid and is not 0. -/
theorem kill_passed (f : σ → Bool × σ) (pid : Int) {sig : Int} (k : Kernel σ) (h : sig = 0 ∨ ¬ k.advance.Reaped pid) :
    Passed k (kill f pid sig k).2 := by
  unfold kill
  split
  · exact advance_passed k
  · exact advance_passed k
  · rename_i e taken hl
    have h0 : sig = 0 := h.resolve_right fun hr => hr ⟨e, taken, hl⟩
    rw [if_pos h0]
    exact advance_rest_passed k _
  · exact advance_rest_passed k _

/-- A `waitpid` with `WNOHANG`, by what the pid is when it looks. -/
theorem waitpid_ends (f : σ → WaitStatus × σ) (pid : Int) (k : Kernel σ) :
    ∃ k', Passed k k' ∧
      match k'.procs pid with
      | some .running => ∃ st, waitpid f pid false k = ((0, st), k')
      | some (.zombie e) => waitpid f pid false k = ((pid, e.status), k'.set pid (.reaped e false))
      | some (.reaped _ _) | none => ∃ st, waitpid f pid false k = ((-1, st), k') := by
  unfold waitpid
  rcases hl : k.advance.procs pid with _ | l
  · exact ⟨_, advance_rest_passed k _, by simp only [hl]; exact ⟨_, rfl⟩⟩
  · cases l with
    | running => exact ⟨_, advance_rest_passed k _, by simp only [hl]; exact ⟨_, rfl⟩⟩
    | zombie e => exact ⟨_, advance_passed k, by simp only [hl]⟩
    | reaped e taken => exact ⟨_, advance_rest_passed k _, by simp only [hl]; exact ⟨_, rfl⟩⟩

/-- What neither the moves nor a reaping of `pid` end. -/
structure Kept (pid : Int) (I : Kernel σ → Prop) : Prop where
  passed {k k' : Kernel σ} : I k → Passed k k' → I k'
  reap {k : Kernel σ} {e : Exit} : I k → k.procs pid = some (.zombie e) → I (k.set pid (.reaped e false))

theorem Kept.other (h : Kept pid I) {α : Type} (f : σ → α × σ) (hk : I k) :
    I (other f k).2 := h.passed hk (other_passed f k)

theorem Kept.waitpid (h : Kept pid I) (f : σ → WaitStatus × σ) (hk : I k) : I (waitpid f pid false k).2 := by
  obtain ⟨k', hpass, hw⟩ := waitpid_ends f pid k
  have hk' := h.passed hk hpass
  split at hw
  · obtain ⟨st, hw⟩ := hw
    rw [hw]
    exact hk'
  · rename_i e hl
    rw [hw]
    exact h.reap hk' hl
  · obtain ⟨st, hw⟩ := hw
    rw [hw]
    exact hk'
  · obtain ⟨st, hw⟩ := hw
    rw [hw]
    exact hk'

/-- Signal 0 is answered by any child that has not been reaped. -/
theorem kill_false {f : σ → Bool × σ} {pid sig : Int} (hc : (k.procs pid).isSome = true)
    (h : (kill f pid sig k).1 = false) : k.advance.Reaped pid := by
  unfold kill at h
  split at h
  · cases h
  · cases h
  · rename_i e taken hl
    exact ⟨e, taken, hl⟩
  · rename_i hl
    have := ((advance_passed k).aged pid).isSome
    rw [hl, hc] at this
    cases this

end Kernel

/-! ## Status queries -/

namespace ProcessManager

variable {σ : Type} (base : Os σ) {pid : Int} {I : Kernel σ → Prop}

open Kernel in
theorem determineProcessStatus_ends (hI : Kept pid I) {s : Pm (Kernel σ)} (hs : I s.os) :
    Ends (determineProcessStatus (kernelOs base) pid) s fun r s' => s'.mgr = s.mgr ∧ I s'.os ∧
      ∃ st, r = .ok st ∧ (st = .running → s'.os.Running pid) ∧
        (0 < pid → st ≠ .running → (s.os.procs pid).isSome = true → s'.os.Reaped pid) := by
  simp only [determineProcessStatus, sys, kernelOs, ends_bind, ends_call, andThen_ok]
  have hpass := kill_passed (base.kill pid 0) pid s.os (Or.inl rfl)
  have hs1 := hI.passed hs hpass
  have hzombie : ProcessStatus.zombie ≠ .running := by decide
  have hunknown : ProcessStatus.unknown ≠ .running := by decide
  split
  · simp only [ends_bind, ends_call, andThen_ok]
    obtain ⟨k', hpass', hw⟩ := waitpid_ends
      (fun s => ((base.waitpid pid false s).1.2, (base.waitpid pid false s).2)) pid
          (kill (base.kill pid 0) pid 0 s.os).2
    have hs2 := hI.passed hs1 hpass'
    split at hw
    · rename_i hl
      obtain ⟨st, hw⟩ := hw
      simp only [hw, show ¬ (0 : Int) = -1 by decide, if_false]
      split
      · rename_i h0
        exact ⟨rfl, hs2, _, rfl, fun _ => hl, fun hp => absurd h0 (by omega)⟩
      · exact ⟨rfl, hs2, _, rfl, fun _ => hl, fun _ hne => absurd rfl hne⟩
    · rename_i e hl
      simp only [hw, if_true, ends_pure]
      exact ⟨trivial, hI.reap hs2 hl, _, rfl, (absurd · hzombie), fun _ _ _ => ⟨e, false, set_procs_self ..⟩⟩
    · rename_i e taken hl
      obtain ⟨st, hw⟩ := hw
      simp only [hw, if_true]
      split
      · exact ⟨rfl, hs2, _, rfl, (absurd · hzombie), fun _ _ _ => ⟨e, taken, hl⟩⟩
      · exact ⟨rfl, hs2, _, rfl, (absurd · hunknown), fun _ _ _ => ⟨e, taken, hl⟩⟩
    · rename_i hl
      obtain ⟨st, hw⟩ := hw
      have hnone : (s.os.procs pid).isSome ≠ true := by
        rw [← (hpass.aged pid).isSome, ← (hpass'.aged pid).isSome, hl]
        decide
      simp only [hw, if_true]
      split
      · exact ⟨rfl, hs2, _, rfl, (absurd · hzombie), fun _ _ hc => absurd hc hnone⟩
      · exact ⟨rfl, hs2, _, rfl, (absurd · hunknown), fun _ _ hc => absurd hc hnone⟩
  · rename_i hk
    rw [ends_pure]
    refine ⟨rfl, hs1, _, rfl, (absurd · hunknown), fun _ _ hc => ?_⟩
    obtain ⟨e, taken, hl⟩ := kill_false hc (by simpa using hk)
    exact ⟨e, taken, hpass.procs ▸ hl⟩

/-- What is kept in the table, and any fact about the manager, survives a query. -/
theorem determineProcessStatus_kept (hI : Kernel.Kept pid I) (J : ProcessManager → Prop) :
    Stable (fun s => J s.mgr ∧ I s.os) (determineProcessStatus (kernelOs base) pid) := by
  intro s hs
  obtain ⟨hm, hs', -⟩ := determineProcessStatus_ends base hI hs.2
  exact ⟨hm ▸ hs.1, hs'⟩

theorem isProcessRunning_ends (hI : Kernel.Kept pid I) {s : Pm (Kernel σ)} (hs : I s.os) :
    Ends (isProcessRunning (kernelOs base) pid) s fun r s' => s'.mgr = s.mgr ∧ I s'.os ∧
      ∃ b, r = .ok b ∧ (b = true → s'.os.Running pid) := by
  simp only [isProcessRunning, ends_bind]
  refine Ends.mono (determineProcessStatus_ends base hI hs) ?_
  intro r s' hpost
  obtain ⟨hm, hs', st, rfl, hrun, -⟩ := hpost
  exact ⟨hm, hs', _, rfl, fun hb => hrun (by simpa using hb)⟩

/-- What is kept in the table survives a status update's locked part. -/
theorem recordStatus_kept (hI : Kernel.Kept pid I) (st : ProcessStatus) :
    Stable (fun s => I s.os) (recordStatus (kernelOs base) pid st) := by
  refine stable_bind (stable_read _) fun r => ?_
  cases r with
  | none => exact stable_pure _
  | some info =>
    refine stable_bind (stable_modify fun _ hs => hs) fun _ => stable_ite ?_ (stable_pure _)
    refine stable_bind (stable_call fun s hs => hI.other _ hs) fun _ =>
      stable_bind (stable_modify fun _ hs => hs) fun _ => ?_
    refine stable_bind (stable_call fun s hs => hI.waitpid _ hs) fun _ => stable_ite ?_ (stable_modify fun _ hs => hs)
    exact stable_bind (stable_modify fun _ hs => hs) fun _ => stable_modify fun _ hs => hs

theorem updateProcessStatus_kept (hI : Kernel.Kept pid I) :
    Stable (fun s => I s.os) (updateProcessStatus (kernelOs base) pid) := by
  rw [updateProcessStatus]
  refine stable_bind (fun s hs => ?_) fun st => recordStatus_kept base hI st
  obtain ⟨-, hs', -⟩ := determineProcessStatus_ends base hI hs
  exact hs'

end ProcessManager

end DockerCpp.Runtime
