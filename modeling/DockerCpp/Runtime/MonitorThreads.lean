/-
  DockerCpp.Runtime.MonitorThreads — process managers, their monitoring threads, and moves.

  A thread of `monitoringLoop` works on the object whose `startMonitoring` created it, for as
  long as it runs. A move of that object (`process_manager.cpp`) takes the thread's handle, the
  flags and the processes elsewhere and leaves the old object with `should_stop_monitoring_`
  set: the thread goes on looking there, and ends when it sees the flag.

  One client creates, uses, moves and destroys managers at any addresses; `stopMonitoring`,
  the destructor and the move assignment wait in `join`. A thread's test of its flag and the
  round that follows are one step; exit callbacks return. A moved-from map and callback are
  empty. The old object of a move may be destroyed under its thread; the thread's next look
  at it is `undefined`.

  - Handles are not lost: every thread that runs is held by one manager, and no handle is
    dropped before its thread was joined (`threads_are_held`).
  - A manager that says it monitors is looked after by a thread throughout a run iff no
    manager was moved while it did (`watched_throughout_iff`). After a move to where no
    thread runs, nothing but stopping, moving or destroying the manager changes that
    (`unwatched_until_stopped`).
  - A join can return without undefined behaviour iff the object on which the thread runs is
    there and has been told to stop (`stop_returns_iff`). Without such moves every join can
    return (`careful_stop_returns`); it may not after the old object of a move is started
    again (`moved_then_restarted_hangs`).
-/

import Mathlib.Logic.Relation
import DockerCpp.Lib.Owners
import DockerCpp.Lib.Run
import DockerCpp.Runtime.Kernel

namespace DockerCpp.Runtime.MonitorThreads

open Lib

/-- A `ProcessManager`; `thread` is the number of the thread in `monitoring_thread_`. -/
structure Manager where
  mgr : ProcessManager := {}
  thread : Option Nat := none
  /-- `should_stop_monitoring_`. -/
  shouldStop : Bool := false
  /-- `monitoring_active_`. -/
  active : Bool := false

/-- What a move leaves behind. -/
def Manager.movedFrom : Manager := { shouldStop := true }

/-- What follows `stopMonitoring` in the function that called it. -/
inductive After where
  | returns
  | destructs
  | assigns (src : Nat)
  deriving DecidableEq, Repr

structure State (σ : Type) where
  objects : Nat → Option Manager := fun _ => none
  /-- The object on which a thread runs. -/
  this : Nat → Option Nat := fun _ => none
  /-- Threads created so far. -/
  created : Nat := 0
  /-- The object whose thread the client is joining. -/
  joining : Option (Nat × After) := none
  terminated : Bool := false
  /-- A thread has used an object that was destroyed. -/
  undefined : Bool := false
  os : σ

variable {σ : Type} (os : Os σ)

namespace State

/-- The thread in `monitoring_thread_` of the object at `a`. -/
def handle (s : State σ) (a : Nat) : Option Nat := (s.objects a).bind (·.thread)

/-- The handle at `a` is overwritten or destroyed. -/
def dropHandle (s : State σ) (a : Nat) : State σ := { s with terminated := s.terminated || (s.handle a).isSome }

def put (s : State σ) (a : Nat) (o : Option Manager) : State σ := { s with objects := Function.update s.objects a o }

/-- The members of the object at `src` are moved to the one at `dst`. -/
def move (s : State σ) (dst src : Nat) : State σ :=
  let s := s.dropHandle dst
  { s with objects := moved s.objects dst src .movedFrom }

/-- The rest of the destructor. -/
def destruct (s : State σ) (a : Nat) (o : Manager) : State σ :=
  let s := s.dropHandle a
  { s.put a none with os := (ProcessManager.destroy os ⟨o.mgr, s.os⟩).2.os }

def finish (s : State σ) (a : Nat) (o : Manager) : After → State σ
  | .returns => s
  | .destructs => s.destruct os a o
  | .assigns src => s.move a src

def startMonitoring (s : State σ) (a : Nat) (o : Manager) : State σ :=
  if o.active then s
  else
    let s := s.dropHandle a
    { s.put a (some { o with shouldStop := false, thread := some s.created, active := true }) with
      this := Function.update s.this s.created (some a), created := s.created + 1 }

/-- `stopMonitoring` up to the join, and what follows where there is nothing to stop. -/
def stopMonitoring (s : State σ) (a : Nat) (o : Manager) (k : After) : State σ :=
  if o.active then { s.put a (some { o with shouldStop := true }) with joining := some (a, k) }
  else s.finish os a o k

/-- The rest of `stopMonitoring`, once the thread has ended. -/
def joined (s : State σ) (a : Nat) (o : Manager) (k : After) : State σ :=
  if o.thread.bind s.this = none then
    finish os { s.put a (some { o with thread := none, active := false }) with joining := none } a
      { o with thread := none, active := false } k
  else s

/-- The thread looks at its flag, ends or goes once around. -/
def round (s : State σ) (t a : Nat) (o : Manager) : State σ :=
  if o.shouldStop then { s with this := Function.update s.this t none }
  else
    let r := (ProcessManager.monitoringTick os ⟨o.mgr, s.os⟩).2
    { s.put a (some { o with mgr := r.mgr }) with os := r.os }

end State

inductive Call (σ : Type) where
  | construct (a : Nat)
  /-- Any other member function. -/
  | use (a : Nat) (f : Pm σ → Pm σ)
  | startMonitoring (a : Nat)
  | stopMonitoring (a : Nat)
  | destroy (a : Nat)
  | moveConstruct (dst src : Nat)
  | moveAssign (dst src : Nat)

inductive Action (σ : Type) where
  | call (c : Call σ)
  /-- The join is over, if it can be. -/
  | join
  | round (t : Nat)

/-- A call on objects that are there. -/
def State.perform (s : State σ) : Call σ → State σ
  | .construct a => if (s.objects a).isNone then s.put a (some {}) else s
  | .use a f => (s.objects a).elim s fun o =>
      { s.put a (some { o with mgr := (f ⟨o.mgr, s.os⟩).mgr }) with os := (f ⟨o.mgr, s.os⟩).os }
  | .startMonitoring a => (s.objects a).elim s (s.startMonitoring a)
  | .stopMonitoring a => (s.objects a).elim s fun o => s.stopMonitoring os a o .returns
  | .destroy a => (s.objects a).elim s fun o => s.stopMonitoring os a o .destructs
  | .moveConstruct dst src => if (s.objects dst).isNone ∧ (s.objects src).isSome then s.move dst src else s
  | .moveAssign dst src =>
      if dst = src ∨ (s.objects src).isNone then s
      else (s.objects dst).elim s fun o => s.stopMonitoring os dst o (.assigns src)

def step (s : State σ) : Action σ → State σ
  | .call c => if s.joining.isNone then s.perform os c else s
  | .join => s.joining.elim s fun ⟨a, k⟩ => (s.objects a).elim s fun o => s.joined os a o k
  | .round t => (s.this t).elim s fun a => (s.objects a).elim { s with undefined := true } (s.round os t a)

def fresh (x : σ) : State σ := { os := x }

/-! ## Handles -/

def Holds (o : Manager) (t : Nat) : Prop := o.thread = some t

abbrev State.Held (s : State σ) (a t : Nat) : Prop := Lib.Held Holds s.objects a t

theorem movedFrom_holds (t : Nat) : ¬ Holds .movedFrom t := by
  intro h
  cases h

variable {s : State σ} {k : After} {o : Manager} {act : Action σ} {dst src : Nat}

/-- Nothing is held at `a`, so nothing is lost there. -/
theorem dropHandle_eq_self {a : Nat} (ha : ∀ t, ¬ s.Held a t) : s.dropHandle a = s := by
  have hnone : s.handle a = none := by
    cases hh : s.handle a with
    | none => rfl
    | some t =>
      obtain ⟨o, ho, ht⟩ := Option.bind_eq_some_iff.mp hh
      exact absurd ⟨o, ho, ht⟩ (ha t)
  simp only [State.dropHandle, hnone, Option.isSome_none, Bool.or_false]

structure Inv (s : State σ) : Prop where
  active : ∀ a o, s.objects a = some o → o.active = o.thread.isSome
  exclusive : Exclusive Holds s.objects
  old : ∀ a t, s.Held a t → t < s.created
  held : ∀ t a, s.this t = some a → ∃ c, s.Held c t
  told : ∀ a k, s.joining = some (a, k) →
    (∃ o, s.objects a = some o ∧ o.active = true ∧ o.shouldStop = true) ∧ ∀ src, k = .assigns src → src ≠ a
  calm : s.terminated = false

theorem inv_fresh (x : σ) : Inv (fresh x) where
  active _ _ h := by cases h
  exclusive _ _ _ h := absurd h (not_held_at rfl _)
  old _ _ h := absurd h (not_held_at rfl _)
  held _ _ h := by cases h
  told _ _ h := by cases h
  calm := rfl

/-! ## What a step can do -/

def After.source : After → Option Nat
  | .assigns src => some src
  | .returns | .destructs => none

/-- The objects to and from which the step moves. -/
def moving (s : State σ) : Action σ → Option (Nat × Nat)
  | .call (.moveConstruct dst src) =>
      if s.joining.isNone ∧ (s.objects dst).isNone ∧ (s.objects src).isSome then some (dst, src) else none
  | .call (.moveAssign dst src) =>
      if s.joining.isNone ∧ dst ≠ src ∧ (s.objects src).isSome ∧ (s.objects dst).any (!·.active) then some (dst, src)
      else none
  | .join => s.joining.bind fun w => if (s.handle w.1).bind s.this = none then w.2.source.map (w.1, ·) else none
  | _ => none

/-- The stop that the step begins or ends. -/
def stopping (s : State σ) : Action σ → Option (Nat × After)
  | .call (.stopMonitoring a) => some (a, .returns)
  | .call (.destroy a) => some (a, .destructs)
  | .call (.moveAssign dst src) => some (dst, .assigns src)
  | .join => s.joining
  | _ => none

/-- What a step is made of, but for a move. -/
inductive Change (s : State σ) : Option (Nat × After) → State σ → Prop where
  | use {a o} (ha : s.objects a = some o) (m : ProcessManager) (x : σ) :
      Change s none { s.put a (some { o with mgr := m }) with os := x }
  | construct {a} (hj : s.joining = none) (ha : s.objects a = none) : Change s none (s.put a (some {}))
  | start {a o} (hj : s.joining = none) (ha : s.objects a = some o) (hidle : o.active = false) :
      Change s none (s.startMonitoring a o)
  | tell {a o k} (hj : s.joining = none) (ha : s.objects a = some o) (hactive : o.active = true)
      (hk : ∀ src, k = .assigns src → src ≠ a) :
      Change s (some (a, k)) { s.put a (some { o with shouldStop := true }) with joining := some (a, k) }
  | stop {a o k} (hj : s.joining = some (a, k)) (ha : s.objects a = some o) (hended : o.thread.bind s.this = none) :
      Change s (some (a, k)) { s.put a (some { o with thread := none, active := false }) with joining := none }
  | destruct {a o} (hj : s.joining = none) (ha : s.objects a = some o) (hidle : o.active = false) :
      Change s (some (a, .destructs)) (s.destruct os a o)
  | ended {t a o} (ht : s.this t = some a) (ha : s.objects a = some o) (hstop : o.shouldStop = true) :
      Change s none { s with this := Function.update s.this t none }
  | undefined : Change s none { s with undefined := true }

def Changes (m : Option (Nat × After)) : State σ → State σ → Prop :=
  Relation.ReflTransGen fun s s' => ∃ m', (m' = none ∨ m' = m) ∧ Change os s m' s'

/-- A move can be made in `s`. -/
structure Movable (s : State σ) (dst src : Nat) : Prop where
  free : s.joining = none
  ne : dst ≠ src
  idle : ∀ o, s.objects dst = some o → o.active = false

/-- A number of changes and then, if there is one, a move of what was there before. -/
def Does (stop : Option (Nat × After)) (moves : Option (Nat × Nat)) (s s' : State σ) : Prop :=
  ∃ s₁, Changes os stop s s₁ ∧ match moves with
    | none => s' = s₁
    | some (dst, src) =>
      Movable s₁ dst src ∧ s₁.objects src = s.objects src ∧ s₁.this = s.this ∧ s' = s₁.move dst src

variable {os} in
theorem Change.does {s s' : State σ} {m : Option (Nat × After)} (h : Change os s m s') : Does os m none s s' :=
  ⟨s', Relation.ReflTransGen.single ⟨m, Or.inr rfl, h⟩, rfl⟩

theorem does_nothing (m : Option (Nat × After)) (s : State σ) : Does os m none s s :=
  ⟨s, Relation.ReflTransGen.refl, rfl⟩

variable {os} in
theorem Movable.does (h : Movable s dst src) (m : Option (Nat × After)) :
    Does os m (some (dst, src)) s (s.move dst src) :=
  ⟨s, Relation.ReflTransGen.refl, h, rfl, rfl, rfl⟩

variable {os} in
/-- What every change keeps is there before the move. -/
theorem Does.ends {I : State σ → Prop} {stop : Option (Nat × After)} {moves : Option (Nat × Nat)} {s s' : State σ}
    (h : Does os stop moves s s')
    (hI : ∀ s₁ s₂ m, (m = none ∨ m = stop) → Change os s₁ m s₂ → I s₁ → I s₂) (hs : I s) :
    ∃ s₁, I s₁ ∧ (moves = none ∧ s' = s₁ ∨ ∃ dst src, moves = some (dst, src) ∧ Movable s₁ dst src ∧
      s₁.objects src = s.objects src ∧ s₁.this = s.this ∧ s' = s₁.move dst src) := by
  obtain ⟨s₁, hchanges, hmoves⟩ := h
  have h₁ : I s₁ := by
    clear hmoves
    induction hchanges with
    | refl => exact hs
    | tail _ hc ih =>
      obtain ⟨m, hm, hc⟩ := hc
      exact hI _ _ m hm hc ih
  refine ⟨s₁, h₁, ?_⟩
  cases moves with
  | none => exact Or.inl ⟨rfl, hmoves⟩
  | some p => exact Or.inr ⟨p.1, p.2, rfl, hmoves⟩

/-- The rest of a stop, in a state where the manager does not monitor. -/
theorem finish_does {a : Nat} (hj : s.joining = none) (ha : s.objects a = some o)
    (hidle : o.active = false) (hk : ∀ src, k = .assigns src → src ≠ a) :
    Does os (some (a, k)) (k.source.map (a, ·)) s (s.finish os a o k) := by
  cases k with
  | returns => exact does_nothing os _ s
  | destructs => exact (Change.destruct hj ha hidle).does
  | assigns src =>
    have hmovable : Movable s a src := by
      refine ⟨hj, (hk src rfl).symm, fun o' ho' => ?_⟩
      rw [ha] at ho'
      rw [← Option.some.inj ho']
      exact hidle
    exact hmovable.does _

theorem join_does {a : Nat} (hj : s.joining = some (a, k))
    (hk : ∀ src, k = .assigns src → src ≠ a) (ha : s.objects a = some o) :
    Does os (some (a, k)) (moving s .join) s (s.joined os a o k) := by
  by_cases hended : o.thread.bind s.this = none
  · have hmoving : moving s .join = k.source.map (a, ·) := by
      simp only [moving, hj, Option.bind_some, State.handle, ha, hended, if_true]
    rw [hmoving, State.joined, if_pos hended]
    let s₁ : State σ := { s.put a (some { o with thread := none, active := false }) with joining := none }
    have hstop : Change os s (some (a, k)) s₁ := .stop hj ha hended
    have hthere : s₁.objects a = some { o with thread := none, active := false } := Function.update_self _ _ _
    obtain ⟨s₂, hs₂, hmoves⟩ := finish_does os (s := s₁) rfl hthere rfl hk
    refine ⟨s₂, Relation.ReflTransGen.head ⟨_, Or.inr rfl, hstop⟩ hs₂, ?_⟩
    cases k with
    | returns => exact hmoves
    | destructs => exact hmoves
    | assigns src =>
      obtain ⟨hmovable, hsrc, hthis, hmove⟩ := hmoves
      exact ⟨hmovable, hsrc.trans (Function.update_of_ne (hk src rfl) _ _), hthis, hmove⟩
  · have hmoving : moving s .join = none := by
      simp only [moving, hj, Option.bind_some, State.handle, ha, hended, if_false]
    rw [hmoving, State.joined, if_neg hended]
    exact does_nothing os _ s

/-- A call that stops, up to where it waits or to its end. -/
theorem stop_does {a : Nat} (hj : s.joining = none) (ha : s.objects a = some o)
    (hk : ∀ src, k = .assigns src → src ≠ a) :
    Does os (some (a, k)) (if o.active then none else k.source.map (a, ·)) s (s.stopMonitoring os a o k) := by
  unfold State.stopMonitoring
  split
  · rename_i hactive
    exact (Change.tell hj ha hactive hk).does
  · rename_i hidle
    exact finish_does os hj ha (by simpa using hidle) hk

theorem call_does (hj : s.joining = none) (c : Call σ) :
    Does os (stopping s (.call c)) (moving s (.call c)) s (s.perform os c) := by
  cases c with
  | construct a =>
    simp only [State.perform]
    split
    · rename_i hnone
      exact (Change.construct hj (Option.isNone_iff_eq_none.mp hnone)).does
    · exact does_nothing os _ s
  | use a f =>
    simp only [State.perform]
    cases ha : s.objects a with
    | none => exact does_nothing os _ s
    | some o => exact (Change.use ha _ _).does
  | startMonitoring a =>
    simp only [State.perform]
    cases ha : s.objects a with
    | none => exact does_nothing os _ s
    | some o =>
      cases hactive : o.active with
      | true =>
        simp only [Option.elim, State.startMonitoring, hactive, if_true]
        exact does_nothing os _ s
      | false => exact (Change.start hj ha hactive).does
  | stopMonitoring a =>
    simp only [State.perform]
    cases ha : s.objects a with
    | none => exact does_nothing os _ s
    | some o =>
      have hstop := stop_does os hj ha (k := .returns) fun _ hk => by cases hk
      rw [show (if o.active then none else After.returns.source.map (a, ·)) = none by split <;> rfl] at hstop
      exact hstop
  | destroy a =>
    simp only [State.perform]
    cases ha : s.objects a with
    | none => exact does_nothing os _ s
    | some o =>
      have hstop := stop_does os hj ha (k := .destructs) fun _ hk => by cases hk
      rw [show (if o.active then none else After.destructs.source.map (a, ·)) = none by split <;> rfl] at hstop
      exact hstop
  | moveConstruct dst src =>
    simp only [State.perform, moving, hj, Option.isNone_none, true_and]
    split
    · rename_i hthere
      have hnone := Option.isNone_iff_eq_none.mp hthere.1
      have hmovable : Movable s dst src := by
        refine ⟨hj, fun heq => ?_, fun o ho => ?_⟩
        · rw [heq] at hnone
          simp [hnone] at hthere
        · rw [hnone] at ho
          cases ho
      exact hmovable.does _
    · exact does_nothing os _ s
  | moveAssign dst src =>
    simp only [State.perform, moving, stopping, hj, Option.isNone_none, true_and]
    by_cases hgo : dst = src ∨ (s.objects src).isNone
    · rw [if_pos hgo, if_neg]
      · exact does_nothing os _ s
      · intro hmoves
        rcases hgo with heq | hnone
        · exact hmoves.1 heq
        · simp [Option.isNone_iff_eq_none.mp hnone] at hmoves
    · rw [if_neg hgo]
      obtain ⟨hne, hsome⟩ := not_or.mp hgo
      have hsrc : (s.objects src).isSome = true := by simpa [Option.isSome_iff_ne_none] using hsome
      cases hd : s.objects dst with
      | none =>
        simp only [Option.any_none, Bool.false_eq_true, and_false, if_false]
        exact does_nothing os _ s
      | some o =>
        have hstop := stop_does os hj hd (k := .assigns src) fun src' hk => by
          cases hk
          exact Ne.symm hne
        cases hactive : o.active with
        | true => simpa [hactive] using hstop
        | false => simpa [hactive, hne, hsrc, After.source] using hstop

/-- All that a step can do. -/
theorem step_does (h : Inv s) (act : Action σ) : Does os (stopping s act) (moving s act) s (step os s act) := by
  cases act with
  | call c =>
    cases hj : s.joining with
    | none =>
      simp only [step, hj, Option.isNone_none, if_true]
      exact call_does os hj c
    | some w =>
      have hmoving : moving s (.call c) = none := by
        cases c <;> simp [moving, hj]
      simp only [step, hj, Option.isNone_some, Bool.false_eq_true, if_false, hmoving]
      exact does_nothing os _ s
  | join =>
    simp only [step, stopping]
    cases hj : s.joining with
    | none =>
      rw [show moving s .join = none by simp [moving, hj]]
      exact does_nothing os _ s
    | some w =>
      rcases w with ⟨a, k⟩
      obtain ⟨⟨o, ha, -, -⟩, hk⟩ := h.told a k hj
      simp only [Option.elim, ha]
      exact join_does os hj hk ha
  | round t =>
    simp only [step]
    cases ht : s.this t with
    | none => exact does_nothing os _ s
    | some a =>
      simp only [Option.elim]
      cases ha : s.objects a with
      | none => exact Change.undefined.does
      | some o =>
        simp only [State.round]
        split
        · rename_i hstop
          exact (Change.ended ht ha hstop).does
        · exact (Change.use ha _ _).does

/-! ## Handles are not lost -/

namespace Inv

variable {os} {s : State σ} {a : Nat} {o : Manager}

theorem withOs (h : Inv s) (x : σ) : Inv { s with os := x } :=
  ⟨h.active, h.exclusive, h.old, h.held, h.told, h.calm⟩

theorem free (h : Inv s) : Inv { s with joining := none } where
  active := h.active
  exclusive := h.exclusive
  old := h.old
  held := h.held
  told _ _ hj := by cases hj
  calm := h.calm

theorem idle_holds (h : Inv s) (ha : s.objects a = some o) (hidle : o.active = false) (t : Nat) : ¬ s.Held a t := by
  rw [State.Held, held_at ha]
  intro ht
  have hactive := h.active a o ha
  rw [hidle, ht] at hactive
  cases hactive

/-- An object goes on with the handle it had. -/
theorem keep (h : Inv s) (ha : s.objects a = some o) {o' : Manager} (hthread : o'.thread = o.thread)
    (hactive : o'.active = o.active) (hstop : o.shouldStop = true → o'.shouldStop = true) : Inv (s.put a (some o')) := by
  have hheld : ∀ b t, (s.put a (some o')).Held b t ↔ s.Held b t := by
    intro b t
    by_cases hb : b = a
    · rw [hb, State.Held, State.Held, held_at ha]
      simp [State.put, Lib.Held, Holds, hthread]
    · exact held_put_ne hb
  constructor
  · intro b o₁ hb
    by_cases hba : b = a
    · rw [hba] at hb
      have heq : o' = o₁ := by simpa [State.put] using hb
      rw [← heq, hthread, hactive]
      exact h.active a o ha
    · exact h.active b o₁ (by simpa [State.put, hba] using hb)
  · intro b c t hb hc
    exact h.exclusive b c t ((hheld b t).mp hb) ((hheld c t).mp hc)
  · intro b t hb
    exact h.old b t ((hheld b t).mp hb)
  · intro t b hb
    obtain ⟨c, hc⟩ := h.held t b hb
    exact ⟨c, (hheld c t).mpr hc⟩
  · intro b k hj
    obtain ⟨⟨o₁, ho₁, hact, htold⟩, hk⟩ := h.told b k hj
    refine ⟨?_, hk⟩
    by_cases hba : b = a
    · rw [hba, ha] at ho₁
      cases ho₁
      exact ⟨o', by simp [State.put, hba], hactive.trans hact, hstop htold⟩
    · exact ⟨o₁, by simpa [State.put, hba] using ho₁, hact, htold⟩
  · exact h.calm

/-- The processes may change. -/
theorem used (h : Inv s) (ha : s.objects a = some o) (m : ProcessManager) (x : σ) :
    Inv { s.put a (some { o with mgr := m }) with os := x } := by
  have hput : Inv (s.put a (some { o with mgr := m })) := h.keep ha rfl rfl id
  exact hput.withOs x

/-- An object that monitors nothing, or none at all, is put where no running thread is held. -/
theorem idle (h : Inv s) (hj : s.joining = none) {x : Option Manager}
    (hx : ∀ o, x = some o → o.active = false ∧ o.thread = none) (ha : ∀ t, s.Held a t → s.this t = none) :
    Inv (s.put a x) := by
  have hnone : ∀ t, ¬ (s.put a x).Held a t := by
    intro t ht
    obtain ⟨o, ho, hh⟩ := held_put_self.mp ht
    rw [Holds, (hx o ho).2] at hh
    cases hh
  have hback : ∀ b t, (s.put a x).Held b t → b ≠ a ∧ s.Held b t := by
    intro b t hb
    by_cases hba : b = a
    · rw [hba] at hb
      exact absurd hb (hnone t)
    · exact ⟨hba, (held_put_ne hba).mp hb⟩
  constructor
  · intro b o hb
    by_cases hba : b = a
    · rw [hba] at hb
      obtain ⟨hact, hth⟩ := hx o (by simpa [State.put] using hb)
      rw [hact, hth]
      rfl
    · exact h.active b o (by simpa [State.put, hba] using hb)
  · intro b c t hb hc
    exact h.exclusive b c t (hback b t hb).2 (hback c t hc).2
  · intro b t hb
    exact h.old b t (hback b t hb).2
  · intro t b hb
    obtain ⟨c, hc⟩ := h.held t b hb
    have hca : c ≠ a := by
      intro hca
      rw [hca] at hc
      have hgone := ha t hc
      rw [show s.this t = some b from hb] at hgone
      cases hgone
    exact ⟨c, (held_put_ne hca).mpr hc⟩
  · intro b k hb
    rw [show (s.put a x).joining = s.joining from rfl, hj] at hb
    cases hb
  · exact h.calm

theorem movable_holds (h : Inv s) {dst src : Nat} (hm : Movable s dst src) (t : Nat) : ¬ s.Held dst t := by
  intro hheld
  obtain ⟨o, ho, ht⟩ := hheld
  exact h.idle_holds ho (hm.idle o ho) t ⟨o, ho, ht⟩

theorem move (h : Inv s) {dst src : Nat} (hm : Movable s dst src) : Inv (s.move dst src) := by
  have hdst := h.movable_holds hm
  have hne := hm.ne
  unfold State.move
  rw [dropHandle_eq_self hdst]
  constructor
  · intro b o hb
    by_cases hbs : b = src
    · have heq : Manager.movedFrom = o := by simpa [moved, hbs] using hb
      rw [← heq]
      rfl
    · by_cases hbd : b = dst
      · exact h.active src o (by simpa [moved, hbs, hbd, hne] using hb)
      · exact h.active b o (by simpa [moved, hbs, hbd] using hb)
  · exact h.exclusive.move hne movedFrom_holds
  · intro b t hb
    have hb := ((held_moved hne movedFrom_holds).mp hb).2
    split at hb
    · exact h.old src t hb
    · exact h.old b t hb
  · intro t b hb
    obtain ⟨c, hc⟩ := h.held t b hb
    have hcd : c ≠ dst := fun hcd => hdst t (hcd ▸ hc)
    by_cases hcs : c = src
    · exact ⟨dst, (held_moved hne movedFrom_holds).mpr ⟨hne, by simpa [hcs] using hc⟩⟩
    · exact ⟨c, (held_moved hne movedFrom_holds).mpr ⟨hcs, by simpa [hcd] using hc⟩⟩
  · intro b k hb
    rw [show s.joining = none from hm.free] at hb
    cases hb
  · exact h.calm

theorem start (h : Inv s) (hj : s.joining = none) (ha : s.objects a = some o) (hidle : o.active = false) :
    Inv (s.startMonitoring a o) := by
  have hnone := h.idle_holds ha hidle
  simp only [State.startMonitoring, hidle, Bool.false_eq_true, if_false, dropHandle_eq_self hnone]
  have hback : ∀ b t, Lib.Held Holds (Function.update s.objects a
      (some { o with shouldStop := false, thread := some s.created, active := true })) b t ↔
        if b = a then t = s.created else s.Held b t := by
    intro b t
    split
    · rename_i hb
      rw [hb, held_put_self]
      simp [Holds, eq_comm]
    · rename_i hb
      exact held_put_ne hb
  constructor
  · intro b o₁ hb
    by_cases hba : b = a
    · rw [hba] at hb
      have heq := Option.some.inj ((Function.update_self a _ s.objects).symm.trans hb)
      rw [← heq]
      rfl
    · exact h.active b o₁ (by simpa [State.put, hba] using hb)
  · refine h.exclusive.put ?_
    intro o₁ t ho₁ ht b hb
    rw [← Option.some.inj ho₁] at ht
    have hlt := h.old b t hb
    rw [← Option.some.inj ht] at hlt
    exact absurd hlt (Nat.lt_irrefl _)
  · intro b t hb
    have hb := (hback b t).mp hb
    split at hb
    · rw [hb]
      exact Nat.lt_succ_self _
    · exact Nat.lt_succ_of_lt (h.old b t hb)
  · intro t b hb
    by_cases ht : t = s.created
    · exact ⟨a, (hback a t).mpr (by simpa using ht)⟩
    · obtain ⟨c, hc⟩ := h.held t b (by simpa [ht] using hb)
      have hca : c ≠ a := fun hca => hnone t (hca ▸ hc)
      exact ⟨c, (hback c t).mpr (by simpa [hca] using hc)⟩
  · intro b k hb
    rw [show s.joining = some (b, k) from hb] at hj
    cases hj
  · exact h.calm

theorem tell (h : Inv s) (ha : s.objects a = some o) (hactive : o.active = true) {k : After}
    (hk : ∀ src, k = .assigns src → src ≠ a) :
    Inv { s.put a (some { o with shouldStop := true }) with joining := some (a, k) } := by
  have hput : Inv (s.put a (some { o with shouldStop := true })) := h.keep ha rfl rfl fun _ => rfl
  refine ⟨hput.active, hput.exclusive, hput.old, hput.held, ?_, hput.calm⟩
  intro b k' hb
  cases hb
  exact ⟨⟨_, Function.update_self _ _ _, hactive, rfl⟩, hk⟩

theorem ended (h : Inv s) (t : Nat) : Inv { s with this := Function.update s.this t none } := by
  refine ⟨h.active, h.exclusive, h.old, ?_, h.told, h.calm⟩
  intro u b hu
  by_cases hut : u = t
  · simp [hut] at hu
  · exact h.held u b (by simpa [hut] using hu)

theorem stop (h : Inv s) (ha : s.objects a = some o) (hended : o.thread.bind s.this = none) :
    Inv { s.put a (some { o with thread := none, active := false }) with joining := none } := by
  refine h.free.idle rfl (fun o' ho' => ?_) fun t ht => ?_
  · rw [← Option.some.inj ho']
    exact ⟨rfl, rfl⟩
  · rw [State.Held, held_at ha] at ht
    rw [ht] at hended
    exact hended

theorem change (h : Inv s) {m : Option (Nat × After)} {s' : State σ} (hc : Change os s m s') : Inv s' := by
  cases hc with
  | use ha m x => exact h.used ha m x
  | construct hj ha =>
    refine h.idle hj (fun o ho => ?_) fun t ht => absurd ht (not_held_at ha t)
    rw [← Option.some.inj ho]
    exact ⟨rfl, rfl⟩
  | start hj ha hidle => exact h.start hj ha hidle
  | tell hj ha hactive hk => exact h.tell ha hactive hk
  | stop hj ha hended => exact h.stop ha hended
  | destruct hj ha hidle =>
    have hnone := h.idle_holds ha hidle
    simp only [State.destruct, dropHandle_eq_self hnone]
    exact (h.idle hj (fun _ ho => by cases ho) fun t ht => absurd ht (hnone t)).withOs _
  | @ended t _ _ ht ha hstop => exact h.ended t
  | undefined => exact ⟨h.active, h.exclusive, h.old, h.held, h.told, h.calm⟩

end Inv

theorem step_inv (h : Inv s) (act : Action σ) : Inv (step os s act) := by
  obtain ⟨s₁, h₁, hend⟩ := (step_does os h act).ends (fun _ _ _ _ hc h => h.change hc) h
  rcases hend with ⟨-, hs'⟩ | ⟨dst, src, -, hm, -, -, hs'⟩
  · rw [hs']
    exact h₁
  · rw [hs']
    exact h₁.move hm

/-- In every run each thread that runs is held by exactly one manager, and no handle is dropped
    while its thread is to be joined. -/
theorem threads_are_held (x : σ) (actions : List (Action σ)) :
    let s := runFrom (step os) (fresh x) actions
    s.terminated = false ∧ ∀ t a, s.this t = some a → ∃! c, s.Held c t := by
  intro s
  have h : Inv s := runFrom_invariant (I := Inv) (fun _ act h => step_inv os h act) (inv_fresh x) actions
  refine ⟨h.calm, fun t a ht => ?_⟩
  obtain ⟨c, hc⟩ := h.held t a ht
  exact ⟨c, hc, fun b hb => h.exclusive b c t hb hc⟩

/-! ## Who looks after a manager -/

/-- Every manager that says it monitors, apart from one that is being stopped, has not been told
    to stop and a thread runs on it. -/
def Watched (s : State σ) : Prop :=
  ∀ a o, s.objects a = some o → o.active = true → (∀ k, s.joining ≠ some (a, k)) →
    o.shouldStop = false ∧ ∃ t, s.this t = some a

/-- No manager is moved that monitors. -/
def Careful (s : State σ) (act : Action σ) : Prop :=
  ∀ dst src o, moving s act = some (dst, src) → s.objects src = some o → o.active = false

/-- So far every thread runs on the manager that holds it. -/
structure AtHome (s : State σ) : Prop extends Inv s where
  home : ∀ t a, s.this t = some a → s.Held a t
  watched : Watched s

theorem atHome_fresh (x : σ) : AtHome (fresh x) where
  toInv := inv_fresh x
  home _ _ h := by cases h
  watched _ _ h := by cases h

namespace AtHome

variable {os} {s : State σ} {a : Nat} {o : Manager}

/-- No thread runs on a manager that does not say it monitors. -/
theorem no_thread (h : AtHome s) (ha : ∀ t, ¬ s.Held a t) (t : Nat) : s.this t ≠ some a :=
  fun ht => ha t (h.home t a ht)

theorem used (h : AtHome s) (ha : s.objects a = some o) (m : ProcessManager) (x : σ) :
    AtHome { s.put a (some { o with mgr := m }) with os := x } where
  toInv := h.toInv.used ha m x
  home t b ht := by
    have hb := h.home t b ht
    by_cases hba : b = a
    · rw [hba, State.Held, held_at ha] at hb
      rw [hba]
      exact held_put_self.mpr ⟨_, rfl, hb⟩
    · exact (held_put_ne hba).mpr hb
  watched b o₁ hb hactive hj := by
    by_cases hba : b = a
    · subst hba
      have heq := Option.some.inj ((Function.update_self b _ s.objects).symm.trans hb)
      subst heq
      exact h.watched b o ha hactive hj
    · exact h.watched b o₁ (by simpa [State.put, hba] using hb) hactive hj

theorem idle (h : AtHome s) (hj : s.joining = none) {x : Option Manager}
    (hx : ∀ o, x = some o → o.active = false ∧ o.thread = none) (ha : ∀ t, s.Held a t → s.this t = none) :
    AtHome (s.put a x) where
  toInv := h.toInv.idle hj hx ha
  home t b ht := by
    have hb := h.home t b ht
    have hba : b ≠ a := by
      intro hba
      have hgone := ha t (hba ▸ hb)
      rw [show s.this t = some b from ht] at hgone
      cases hgone
    exact (held_put_ne hba).mpr hb
  watched b o₁ hb hactive hk := by
    have hba : b ≠ a := by
      intro hba
      subst hba
      have hidle := (hx o₁ (by simpa [State.put] using hb)).1
      rw [hidle] at hactive
      cases hactive
    exact h.watched b o₁ (by simpa [State.put, hba] using hb) hactive hk

/-- A manager that is moved without monitoring anything takes no thread along. -/
theorem move (h : AtHome s) {dst src : Nat} (hm : Movable s dst src)
    (hsrc : ∀ o, s.objects src = some o → o.active = false) : AtHome (s.move dst src) := by
  have hdst := h.movable_holds hm
  have hne := hm.ne
  have hnone : ∀ t, ¬ s.Held src t := by
    intro t hheld
    obtain ⟨o, ho, ht⟩ := hheld
    exact h.toInv.idle_holds ho (hsrc o ho) t ⟨o, ho, ht⟩
  refine ⟨h.toInv.move hm, ?_, ?_⟩
  · unfold State.move
    rw [dropHandle_eq_self hdst]
    intro t b ht
    have hb := h.home t b ht
    have hbd : b ≠ dst := fun hbd => hdst t (hbd ▸ hb)
    have hbs : b ≠ src := fun hbs => hnone t (hbs ▸ hb)
    exact (held_moved hne movedFrom_holds).mpr ⟨hbs, by simpa [hbd] using hb⟩
  · unfold State.move
    rw [dropHandle_eq_self hdst]
    intro b o hb hactive hk
    by_cases hbs : b = src
    · have heq : Manager.movedFrom = o := by simpa [moved, hbs] using hb
      rw [← heq] at hactive
      cases hactive
    · by_cases hbd : b = dst
      · have hidle := hsrc o (by simpa [moved, hbs, hbd, hne] using hb)
        rw [hidle] at hactive
        cases hactive
      · exact h.watched b o (by simpa [moved, hbs, hbd] using hb) hactive hk

theorem start (h : AtHome s) (hj : s.joining = none) (ha : s.objects a = some o) (hidle : o.active = false) :
    AtHome (s.startMonitoring a o) := by
  have hinv := h.toInv.start hj ha hidle
  have hnone := h.idle_holds ha hidle
  simp only [State.startMonitoring, hidle, Bool.false_eq_true, if_false, dropHandle_eq_self hnone] at hinv ⊢
  refine ⟨hinv, ?_, ?_⟩
  · intro t b ht
    by_cases htc : t = s.created
    · have hb : b = a := by simpa [htc, eq_comm] using ht
      rw [hb, htc]
      exact held_put_self.mpr ⟨_, rfl, rfl⟩
    · have hb := h.home t b (by simpa [htc] using ht)
      have hba : b ≠ a := fun hba => hnone t (hba ▸ hb)
      exact (held_put_ne hba).mpr hb
  · intro b o₁ hb hactive hk
    by_cases hba : b = a
    · subst hba
      have heq := Option.some.inj ((Function.update_self b _ s.objects).symm.trans hb)
      subst heq
      exact ⟨rfl, s.created, Function.update_self _ _ _⟩
    · obtain ⟨hstop, t, ht⟩ := h.watched b o₁ (by simpa [State.put, hba] using hb) hactive hk
      have hlt := h.old b t (h.home t b ht)
      exact ⟨hstop, t, by simpa [Nat.ne_of_lt hlt] using ht⟩

theorem tell (h : AtHome s) (hj : s.joining = none) (ha : s.objects a = some o) (hactive : o.active = true)
    {k : After} (hk : ∀ src, k = .assigns src → src ≠ a) :
    AtHome { s.put a (some { o with shouldStop := true }) with joining := some (a, k) } := by
  refine ⟨h.toInv.tell ha hactive hk, ?_, ?_⟩
  · intro t b ht
    have hb := h.home t b ht
    by_cases hba : b = a
    · rw [hba, State.Held, held_at ha] at hb
      rw [hba]
      exact held_put_self.mpr ⟨_, rfl, hb⟩
    · exact (held_put_ne hba).mpr hb
  · intro b o₁ hb hact hk
    have hba : b ≠ a := by
      intro hba
      exact hk k (by rw [hba])
    exact h.watched b o₁ (by simpa [State.put, hba] using hb) hact fun k => by simp [hj]

theorem stop (h : AtHome s) {k : After} (hj : s.joining = some (a, k)) (ha : s.objects a = some o)
    (hended : o.thread.bind s.this = none) :
    AtHome { s.put a (some { o with thread := none, active := false }) with joining := none } := by
  have hgone : ∀ t, s.Held a t → s.this t = none := by
    intro t ht
    rw [State.Held, held_at ha] at ht
    rw [ht] at hended
    exact hended
  refine ⟨h.toInv.stop ha hended, ?_, ?_⟩
  · intro t b ht
    have hb := h.home t b ht
    have hba : b ≠ a := by
      intro hba
      have hnone := hgone t (hba ▸ hb)
      rw [show s.this t = some b from ht] at hnone
      cases hnone
    exact (held_put_ne hba).mpr hb
  · intro b o₁ hb hactive hk
    have hba : b ≠ a := by
      intro hba
      subst hba
      have heq := Option.some.inj ((Function.update_self b _ s.objects).symm.trans hb)
      subst heq
      cases hactive
    refine h.watched b o₁ (by simpa [State.put, hba] using hb) hactive fun k' hk' => hba ?_
    rw [hj] at hk'
    cases hk'
    rfl

theorem ended (h : AtHome s) {t : Nat} (ht : s.this t = some a) (ha : s.objects a = some o) (hstop : o.shouldStop = true) :
    AtHome { s with this := Function.update s.this t none } := by
  refine ⟨h.toInv.ended t, ?_, ?_⟩
  · intro u b hu
    by_cases hut : u = t
    · simp [hut] at hu
    · exact h.home u b (by simpa [hut] using hu)
  · intro b o₁ hb hactive hk
    obtain ⟨hrunning, u, hu⟩ := h.watched b o₁ hb hactive hk
    have hut : u ≠ t := by
      intro hut
      rw [hut, ht] at hu
      cases hu
      rw [show s.objects a = some o₁ from hb] at ha
      cases ha
      rw [hstop] at hrunning
      cases hrunning
    exact ⟨hrunning, u, by simpa [hut] using hu⟩

theorem change (h : AtHome s) {m : Option (Nat × After)} {s' : State σ} (hc : Change os s m s') : AtHome s' := by
  cases hc with
  | use ha m x => exact h.used ha m x
  | construct hj ha =>
    refine h.idle hj (fun o ho => ?_) fun t ht => absurd ht (not_held_at ha t)
    rw [← Option.some.inj ho]
    exact ⟨rfl, rfl⟩
  | start hj ha hidle => exact h.start hj ha hidle
  | tell hj ha hactive hk => exact h.tell hj ha hactive hk
  | stop hj ha hended => exact h.stop hj ha hended
  | destruct hj ha hidle =>
    have hnone := h.idle_holds ha hidle
    simp only [State.destruct, dropHandle_eq_self hnone]
    have hput := h.idle hj (x := none) (fun _ ho => by cases ho) fun t ht => absurd ht (hnone t)
    exact ⟨hput.toInv.withOs _, hput.home, hput.watched⟩
  | ended ht ha hstop => exact h.ended ht ha hstop
  | undefined => exact ⟨h.toInv.change (Change.undefined : Change os s none _), h.home, h.watched⟩

end AtHome

theorem step_atHome (h : AtHome s) (hcareful : Careful s act) : AtHome (step os s act) := by
  obtain ⟨s₁, h₁, hend⟩ := (step_does os h.toInv act).ends (fun _ _ _ _ hc h => h.change hc) h
  rcases hend with ⟨-, hs'⟩ | ⟨dst, src, hmoving, hm, hsame, -, hs'⟩
  · rw [hs']
    exact h₁
  · rw [hs']
    exact h₁.move hm fun o ho => hcareful dst src o hmoving (hsame ▸ ho)

/-- A step that moves to where no thread runs brings none there. -/
theorem step_leaves (h : Inv s) (hmoving : moving s act = some (dst, src)) (hnobody : ∀ t, s.this t ≠ some dst)
    (ho : s.objects src = some o) :
    (step os s act).objects dst = some o ∧ (∀ t, (step os s act).this t ≠ some dst) ∧ (step os s act).joining = none := by
  obtain ⟨s₁, h₁, hend⟩ := (step_does os h act).ends (fun _ _ _ _ hc h => h.change hc) h
  rw [hmoving] at hend
  rcases hend with ⟨hnone, -⟩ | ⟨dst', src', heq, hm, hsame, hthis, hs'⟩
  · cases hnone
  · cases heq
    rw [hs', State.move, dropHandle_eq_self (h₁.movable_holds hm)]
    refine ⟨by simp [moved, hm.ne, hsame.trans ho], fun t => ?_, hm.free⟩
    show s₁.this t ≠ some dst
    rw [hthis]
    exact hnobody t

theorem careless_unwatched (h : AtHome s) (hcareless : ¬ Careful s act) : ¬ Watched (step os s act) := by
  simp only [Careful, not_forall, Bool.not_eq_false] at hcareless
  obtain ⟨dst, src, o, hmoving, ho, hactive⟩ := hcareless
  have hfrom : ∀ t, s.this t ≠ some dst := by
    obtain ⟨s₁, h₁, hend⟩ := (step_does os h.toInv act).ends (fun _ _ _ _ hc h => h.change hc) h
    rw [hmoving] at hend
    rcases hend with ⟨hnone, -⟩ | ⟨dst', src', heq, hm, -, hthis, -⟩
    · cases hnone
    · cases heq
      rw [← hthis]
      exact h₁.no_thread (h₁.movable_holds hm)
  obtain ⟨hthere, hnobody, hfree⟩ := step_leaves os h.toInv hmoving hfrom ho
  intro hw
  obtain ⟨-, t, ht⟩ := hw dst o hthere hactive fun k => by simp [hfree]
  exact hnobody t ht

/-- Every manager that says it monitors is looked after, throughout a run, iff none was moved while
    it did. -/
theorem watched_throughout_iff (x : σ) (actions : List (Action σ)) :
    Throughout (step os) Watched (fresh x) actions ↔ EachStep (step os) Careful (fresh x) actions :=
  throughout_iff_of_kept (G := AtHome) (fun _ _ h hq => step_atHome os h hq) (fun _ _ h hq => careless_unwatched os h hq)
    (fun _ h => h.watched) (atHome_fresh x) actions

/-! ## After such a move -/

/-- The call stops, moves or destroys the manager at `a`. -/
def Call.Ends (a : Nat) : Call σ → Prop
  | .stopMonitoring b | .destroy b => b = a
  | .moveConstruct _ src => src = a
  | .moveAssign dst src => dst = a ∨ src = a
  | .construct _ | .use _ _ | .startMonitoring _ => False

/-- The manager says it monitors, no thread runs on it, and it is not being stopped or moved. -/
structure Unwatched (a : Nat) (s : State σ) : Prop where
  active : (s.objects a).map (·.active) = some true
  nobody : ∀ t, s.this t ≠ some a
  left : ∀ b k, s.joining = some (b, k) → b ≠ a ∧ k ≠ .assigns a

namespace Unwatched

variable {os} {s : State σ} {a b : Nat} {o : Manager}

theorem there (h : Unwatched a s) (hb : s.objects b = none) : b ≠ a := by
  intro hba
  have hactive := h.active
  rw [← hba, hb] at hactive
  cases hactive

theorem put (h : Unwatched a s) {x : Option Manager} (hx : b = a → x.map (·.active) = some true) (y : σ) :
    Unwatched a { s.put b x with os := y } := by
  refine ⟨?_, h.nobody, h.left⟩
  by_cases hba : b = a
  · simp [State.put, hba, hx hba]
  · simpa [State.put, Ne.symm hba] using h.active

theorem dropHandle (h : Unwatched a s) (b : Nat) : Unwatched a (s.dropHandle b) := ⟨h.active, h.nobody, h.left⟩

theorem move (h : Unwatched a s) {dst src : Nat} (hdst : dst ≠ a) (hsrc : src ≠ a) : Unwatched a (s.move dst src) :=
  ⟨by simpa [State.move, State.dropHandle, moved, hdst.symm, hsrc.symm] using h.active, h.nobody, h.left⟩

theorem start (h : Unwatched a s) (hb : s.objects b = some o) (hidle : o.active = false) :
    Unwatched a (s.startMonitoring b o) := by
  have hba : b ≠ a := by
    intro hba
    have hactive := h.active
    rw [← hba, hb] at hactive
    simp [hidle] at hactive
  simp only [State.startMonitoring, hidle, Bool.false_eq_true, if_false]
  refine ⟨by simpa [State.put, State.dropHandle, Ne.symm hba] using h.active, ?_, h.left⟩
  intro t ht
  by_cases htc : t = s.created
  · exact hba (by simpa [htc, State.dropHandle] using ht)
  · exact h.nobody t (by simpa [htc, State.dropHandle] using ht)

theorem change (h : Unwatched a s) {m : Option (Nat × After)} {s' : State σ} (hc : Change os s m s')
    (hm : ∀ b k, m = some (b, k) → b ≠ a ∧ k ≠ .assigns a) : Unwatched a s' := by
  cases hc with
  | use hb m x =>
    refine h.put (fun hba => ?_) _
    have hactive := h.active
    rw [← hba, hb] at hactive
    exact hactive
  | construct hj hb => exact h.put (fun hba => absurd hba (h.there hb)) _
  | start hj hb hidle => exact h.start hb hidle
  | tell hj hb hactive hk =>
    have hspared := hm _ _ rfl
    refine ⟨by simpa [State.put, Ne.symm hspared.1] using h.active, h.nobody, ?_⟩
    intro c k' hc
    cases hc
    exact hspared
  | stop hj hb hended =>
    have hspared := hm _ _ rfl
    exact ⟨by simpa [State.put, Ne.symm hspared.1] using h.active, h.nobody, fun _ _ hj => by cases hj⟩
  | destruct hj hb hidle => exact (h.dropHandle _).put (fun hba => absurd hba (hm _ _ rfl).1) _
  | @ended t _ _ ht hb hstop =>
    refine ⟨h.active, ?_, h.left⟩
    intro u hu
    by_cases hut : u = t
    · simp [hut] at hu
    · exact h.nobody u (by simpa [hut] using hu)
  | undefined => exact ⟨h.active, h.nobody, h.left⟩

end Unwatched

/-- The stop of a step, if it has one, is of another manager. -/
theorem stopping_spares {a : Nat} (h : Unwatched a s)
    (hact : ∀ c, act = .call c → ¬ c.Ends a) {b : Nat} (hstop : stopping s act = some (b, k)) :
    b ≠ a ∧ k ≠ .assigns a := by
  cases act with
  | join => exact h.left b k hstop
  | round t => cases hstop
  | call c =>
    have hc := hact c rfl
    cases c with
    | construct b => cases hstop
    | use b f => cases hstop
    | startMonitoring b => cases hstop
    | moveConstruct dst src => cases hstop
    | stopMonitoring b =>
      cases hstop
      exact ⟨hc, by simp⟩
    | destroy b =>
      cases hstop
      exact ⟨hc, by simp⟩
    | moveAssign dst src =>
      cases hstop
      obtain ⟨hdst, hsrc⟩ := not_or.mp hc
      exact ⟨hdst, by simpa using hsrc⟩

/-- Nor does the step move it, or to it. -/
theorem moving_spares {a : Nat} (h : Unwatched a s)
    (hact : ∀ c, act = .call c → ¬ c.Ends a) (hmoving : moving s act = some (dst, src)) :
    dst ≠ a ∧ src ≠ a := by
  cases act with
  | round t => cases hmoving
  | join =>
    obtain ⟨⟨b, k⟩, hj, hmoving⟩ := Option.bind_eq_some_iff.mp hmoving
    split at hmoving
    · obtain ⟨src', hsource, heq⟩ := Option.map_eq_some_iff.mp hmoving
      cases heq
      obtain ⟨hb, hk⟩ := h.left b k hj
      refine ⟨hb, fun hsrc => ?_⟩
      cases k with
      | returns => cases hsource
      | destructs => cases hsource
      | assigns src' =>
        cases hsource
        exact hk (by rw [hsrc])
    · cases hmoving
  | call c =>
    have hc := hact c rfl
    cases c with
    | construct b => cases hmoving
    | use b f => cases hmoving
    | startMonitoring b => cases hmoving
    | stopMonitoring b => cases hmoving
    | destroy b => cases hmoving
    | moveConstruct dst' src' =>
      simp only [moving] at hmoving
      split at hmoving
      · rename_i hthere
        cases hmoving
        exact ⟨h.there (Option.isNone_iff_eq_none.mp hthere.2.1), hc⟩
      · cases hmoving
    | moveAssign dst' src' =>
      simp only [moving] at hmoving
      split at hmoving
      · cases hmoving
        exact not_or.mp hc
      · cases hmoving

theorem step_unwatched {a : Nat} (hinv : Inv s) (h : Unwatched a s)
    (hact : ∀ c, act = .call c → ¬ c.Ends a) : Unwatched a (step os s act) := by
  have hkeeps : ∀ s₁ s₂ m, (m = none ∨ m = stopping s act) → Change os s₁ m s₂ → Unwatched a s₁ → Unwatched a s₂ := by
    intro s₁ s₂ m hm hc h₁
    refine h₁.change hc fun b k hbk => ?_
    rcases hm with hm | hm
    · rw [hm] at hbk
      cases hbk
    · exact stopping_spares h hact (hm ▸ hbk)
  obtain ⟨s₁, h₁, hend⟩ := (step_does os hinv act).ends hkeeps h
  rcases hend with ⟨-, hs'⟩ | ⟨dst, src, hmoving, -, -, -, hs'⟩
  · rw [hs']
    exact h₁
  · obtain ⟨hdst, hsrc⟩ := moving_spares h hact hmoving
    rw [hs']
    exact h₁.move hdst hsrc

/-- A manager moved while it monitored, to where no thread runs, goes on saying that it does; until
    it is stopped, moved or destroyed no thread runs on it, whatever else is done. -/
theorem unwatched_until_stopped (x : σ) {before after : List (Action σ)} {act : Action σ} {dst src : Nat}
    (hmoving : moving (runFrom (step os) (fresh x) before) act = some (dst, src))
    (hactive : ((runFrom (step os) (fresh x) before).objects src).map (·.active) = some true)
    (hnobody : ∀ t, (runFrom (step os) (fresh x) before).this t ≠ some dst)
    (hafter : ∀ c, .call c ∈ after → ¬ c.Ends dst) :
    let s := runFrom (step os) (fresh x) (before ++ act :: after)
    (s.objects dst).map (·.active) = some true ∧ ∀ t, s.this t ≠ some dst := by
  intro s
  have hinv := runFrom_invariant (I := Inv) (fun _ act h => step_inv os h act) (inv_fresh x) before
  obtain ⟨o, ho, hact⟩ := Option.map_eq_some_iff.mp hactive
  obtain ⟨hthere, hnobody, hfree⟩ := step_leaves os hinv hmoving hnobody ho
  have hstart : Unwatched dst (step os (runFrom (step os) (fresh x) before) act) :=
    ⟨by simp [hthere, hact], hnobody, fun b k hk => by simp [hfree] at hk⟩
  have hs : s = runFrom (step os) (step os (runFrom (step os) (fresh x) before) act) after := by simp [s, runFrom]
  have hend : Inv s ∧ Unwatched dst s := by
    rw [hs]
    refine runFrom_eachStep (I := fun s => Inv s ∧ Unwatched dst s)
      (Q := fun _ act => ∀ c, act = Action.call c → ¬ c.Ends dst)
      (fun _ _ h hq => ⟨step_inv os h.1 _, step_unwatched os h.1 h.2 hq⟩) ⟨step_inv os hinv act, hstart⟩
      (eachStep_of_forall (fun act hmem _ c hc => ?_) _)
    exact hafter c (hc ▸ hmem)
  exact ⟨hend.2.active, hend.2.nobody⟩

/-- A manager is started, moved and started again: it says it monitors, and its only thread is
    the old one. -/
theorem a_moved_manager_is_not_watched :
    let s := runFrom (step plainOs) (fresh 0) ([.call (.construct 0), .call (.startMonitoring 0)] ++
      .call (.moveConstruct 1 0) :: [.call (.startMonitoring 1), .round 0])
    (s.objects 1).map (·.active) = some true ∧ ∀ t, s.this t ≠ some 1 := by
  refine @unwatched_until_stopped _ plainOs 0 _ _ _ _ 0 (by decide) (by decide) (fun t => ?_) (by simp [Call.Ends])
  cases t with
  | zero => decide
  | succ t => exact Option.some_ne_none 1 ∘ Eq.symm

/-! ## Joins -/

/-- The thread that is joined runs on an object which has not been told to stop. -/
structure Hung (a t b : Nat) (k : After) (s : State σ) : Prop where
  joining : s.joining = some (a, k)
  handle : s.handle a = some t
  this : s.this t = some b
  untold : ∀ o, s.objects b = some o → o.shouldStop = false

theorem step_hung {a t b : Nat} (h : Hung a t b k s) (act : Action σ) : Hung a t b k (step os s act) := by
  obtain ⟨o, ha, hthread⟩ := Option.bind_eq_some_iff.mp h.handle
  cases act with
  | call c =>
    simp only [step, h.joining, Option.isNone_some, Bool.false_eq_true, if_false]
    exact h
  | join =>
    have hruns : o.thread.bind s.this ≠ none := by
      rw [hthread, Option.bind_some, h.this]
      simp
    simp only [step, h.joining, Option.elim, ha, State.joined, if_neg hruns]
    exact h
  | round u =>
    simp only [step]
    cases hu : s.this u with
    | none => exact h
    | some c =>
      cases hc : s.objects c with
      | none =>
        simp only [Option.elim, hc]
        exact ⟨h.joining, h.handle, h.this, h.untold⟩
      | some oc =>
        simp only [Option.elim, hc, State.round]
        split
        · rename_i hstop
          -- the thread that ends is another one: its object has been told to stop
          have hut : t ≠ u := by
            intro htu
            rw [← htu, h.this] at hu
            cases hu
            rw [h.untold oc hc] at hstop
            cases hstop
          exact ⟨h.joining, h.handle, by simpa [hut] using h.this, h.untold⟩
        · refine ⟨h.joining, ?_, h.this, ?_⟩
          · by_cases hac : a = c
            · subst hac
              rw [ha] at hc
              cases hc
              simp [State.handle, State.put, hthread]
            · simpa [State.handle, State.put, hac] using h.handle
          · intro o₁ ho₁
            by_cases hbc : b = c
            · subst hbc
              have heq := Option.some.inj ((Function.update_self b _ s.objects).symm.trans ho₁)
              subst heq
              exact h.untold oc hc
            · exact h.untold o₁ (by simpa [State.put, hbc] using ho₁)

theorem finish_waits (s : State σ) (a : Nat) (o : Manager) (k : After) :
    (s.finish os a o k).undefined = s.undefined ∧ (s.finish os a o k).joining = s.joining := by
  cases k with
  | returns => exact ⟨rfl, rfl⟩
  | destructs => exact ⟨rfl, rfl⟩
  | assigns src => exact ⟨rfl, rfl⟩

theorem join_returns {a : Nat} (hj : s.joining = some (a, k))
    (ha : s.objects a = some o) (hended : o.thread.bind s.this = none) :
    (step os s .join).undefined = s.undefined ∧ (step os s .join).joining = none := by
  simp only [step, hj, Option.elim, ha, State.joined, if_pos hended]
  exact finish_waits os _ a _ k

/-- Two more steps are enough: the thread sees the flag, and the join is over. -/
theorem told_returns {a : Nat} (hj : s.joining = some (a, k)) (ha : s.objects a = some o)
    (htold : ∀ t b, o.thread = some t → s.this t = some b → (s.objects b).any (·.shouldStop) = true) :
    ∃ after, (runFrom (step os) s after).undefined = s.undefined ∧ (runFrom (step os) s after).joining = none := by
  cases hth : o.thread.bind s.this with
  | none => exact ⟨[.join], join_returns os hj ha hth⟩
  | some b =>
    obtain ⟨t, ht, hb⟩ := Option.bind_eq_some_iff.mp hth
    have hstop := htold t b ht hb
    obtain ⟨ob, hob⟩ : ∃ ob, s.objects b = some ob := Option.ne_none_iff_exists'.mp fun hnone => by simp [hnone] at hstop
    have hstop : ob.shouldStop = true := by simpa [hob] using hstop
    refine ⟨[.round t, .join], ?_⟩
    have hround : step os s (.round t) = { s with this := Function.update s.this t none } := by
      simp only [step, hb, Option.elim, hob, State.round, if_pos hstop]
    show (step os (step os s (.round t)) .join).undefined = s.undefined ∧
      (step os (step os s (.round t)) .join).joining = none
    rw [hround]
    exact join_returns os (s := { s with this := Function.update s.this t none }) hj ha (by simp [ht])

/-- In every run, a client in `stopMonitoring`, in the destructor or in a move assignment can come
    out of it without undefined behaviour iff the object on which the thread runs is there and has
    been told to stop. -/
theorem stop_returns_iff (x : σ) (before : List (Action σ)) {s : State σ}
    (hs : runFrom (step os) (fresh x) before = s) (hdefined : s.undefined = false) {a : Nat} {k : After}
    (hj : s.joining = some (a, k)) :
    (∃ after, (runFrom (step os) s after).undefined = false ∧ (runFrom (step os) s after).joining = none) ↔
      ∀ t b, s.handle a = some t → s.this t = some b → (s.objects b).any (·.shouldStop) = true := by
  have hinv : Inv s := hs ▸ runFrom_invariant (I := Inv) (fun _ act h => step_inv os h act) (inv_fresh x) before
  constructor
  · intro hreturns t b ht hb
    obtain ⟨after, -, hafter⟩ := hreturns
    by_contra hnot
    have hhung : Hung a t b k s := ⟨hj, ht, hb, fun o ho => by simpa [ho] using hnot⟩
    have hend := runFrom_invariant (I := Hung a t b k) (fun _ act h => step_hung os h act) hhung after
    rw [hend.joining] at hafter
    cases hafter
  · intro htold
    obtain ⟨⟨o, ha, -, -⟩, -⟩ := hinv.told a k hj
    rw [← hdefined]
    exact told_returns os hj ha fun t b ht hb => htold t b (by simp [State.handle, ha, ht]) hb

def restarted : List (Action Int) :=
  [.call (.construct 0), .call (.startMonitoring 0), .call (.moveConstruct 1 0), .call (.startMonitoring 0),
    .call (.stopMonitoring 1)]

/-- The thread of the first start finds the object it runs on started again. -/
theorem moved_then_restarted_hangs :
    let s := runFrom (step plainOs) (fresh 0) restarted
    s.undefined = false ∧ s.joining = some (1, .returns) ∧
      ¬ ∃ after, (runFrom (step plainOs) s after).undefined = false ∧ (runFrom (step plainOs) s after).joining = none := by
  refine ⟨by decide, by decide, fun hreturns => ?_⟩
  have htold := (stop_returns_iff plainOs 0 restarted rfl (by decide) (a := 1) (k := .returns) (by decide)).mp hreturns
    0 0 (by decide) (by decide)
  revert htold
  decide

/-- If no manager was moved while it monitored, every join can return. -/
theorem careful_stop_returns (x : σ) {before : List (Action σ)} (hcareful : EachStep (step os) Careful (fresh x) before)
    (hs : runFrom (step os) (fresh x) before = s) {a : Nat} (hj : s.joining = some (a, k)) :
    ∃ after, (runFrom (step os) s after).undefined = s.undefined ∧ (runFrom (step os) s after).joining = none := by
  have hhome : AtHome s :=
    hs ▸ runFrom_eachStep (I := AtHome) (fun _ _ h hq => step_atHome os h hq) (atHome_fresh x) hcareful
  obtain ⟨⟨o, ha, -, hstop⟩, -⟩ := hhome.told a k hj
  refine told_returns os hj ha fun t b ht hb => ?_
  have hba : b = a := hhome.exclusive b a t (hhome.home t b hb) ⟨o, ha, ht⟩
  simp [hba, ha, hstop]

end DockerCpp.Runtime.MonitorThreads
