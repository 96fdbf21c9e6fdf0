/-
  DockerCpp.Runtime.ExitCallback — how often the exit callback runs for one child, when
  threads update its status at the same time.

  `updateProcessStatus` samples the status (`determineProcessStatus`) before it takes
  `processes_mutex_` and stores it under the mutex (`recordStatus`): the monitoring thread
  and the callers of `monitorProcess`, `waitForProcess`, `stopProcess` and `killProcess` each
  make these two steps, in any interleaving with each other, with status queries that store
  nothing, with the child's end and with the erasure of the entry.

  A sample says RUNNING exactly when it was taken before the child's end
  (`determineProcessStatus_quiet`). So the recorded status never goes back to RUNNING, and
  the callback runs once, exactly when no sample from before the end is stored over one
  from after it (`exit_callback_iff`); `a_stale_sample_revives_the_child` is an
  interleaving where one is.
-/

import DockerCpp.Lib.Run
import DockerCpp.Runtime.Kernel

namespace DockerCpp.Runtime

open Lib Lib.Prog

/-! ## What is recorded -/

namespace ProcessManager

variable {σ : Type} (os : Os σ) {pid : Int} {m : ProcessManager} {i : ProcessInfo}

theorem lookup_update (h : m.lookup pid = some i) (f : ProcessInfo → ProcessInfo)
    (hf : ∀ i, (f i).pid = i.pid) : (m.update pid f).lookup pid = some (f i) := by
  unfold lookup update at *
  generalize m.managed = l at *
  induction l with
  | nil => cases h
  | cons a l ih =>
    rw [List.map_cons]
    by_cases ha : a.pid = pid
    · rw [List.find?_cons_of_pos (by simp [ha])] at h
      rw [List.find?_cons_of_pos (by simp [ha, hf])]
      simpa [ha] using congrArg (Option.map f) h
    · rw [List.find?_cons_of_neg (by simp [ha])] at h
      rw [List.find?_cons_of_neg (by simp [ha])]
      exact ih h

theorem lookup_pid (h : m.lookup pid = some i) : i.pid = pid := by
  simpa using List.find?_some h

/-- `managed_processes_` is a map. -/
def Keyed (m : ProcessManager) (pid : Int) : Prop := ∀ i ∈ m.managed, i.pid = pid → m.lookup pid = some i

theorem keyed_update (h : Keyed m pid) {f : ProcessInfo → ProcessInfo}
    (hf : ∀ i, (f i).pid = i.pid) : Keyed (m.update pid f) pid := by
  intro i hi hpid
  obtain ⟨j, hj, rfl⟩ := List.mem_map.mp hi
  by_cases hjp : j.pid = pid
  · rw [if_pos (by simpa using hjp)]
    exact lookup_update (h j hj hjp) f hf
  · rw [if_neg (by simpa using hjp)] at hpid
    exact absurd hpid hjp

theorem recordStatus_keyed (st : ProcessStatus) : Stable (fun s => Keyed s.mgr pid) (recordStatus os pid st) := by
  have hsys : ∀ {α : Type} (f : σ → α × σ), Stable (fun s => Keyed s.mgr pid) (sys f : Prog (Pm σ) Error α) :=
    fun f => stable_call fun _ hs => hs
  refine stable_bind (stable_read _) fun r => ?_
  cases r with
  | none => exact stable_pure _
  | some info =>
    refine stable_bind (stable_modify fun _ hs => keyed_update hs fun _ => rfl) fun _ => stable_ite ?_ (stable_pure _)
    refine stable_bind (hsys _) fun _ =>
      stable_bind (stable_modify fun _ hs => keyed_update hs fun _ => rfl) fun _ => ?_
    refine stable_bind (hsys _) fun _ => stable_ite ?_ (stable_modify fun _ hs => hs)
    exact stable_bind (stable_modify fun _ hs => keyed_update hs fun _ => rfl) fun _ => stable_modify fun _ hs => hs

/-- What is found after an erasure was there before. -/
theorem lookup_filter (h : Keyed m pid) (q : ProcessInfo → Bool)
    (hi : (m.managed.filter q).find? (·.pid == pid) = some i) : m.lookup pid = some i :=
  h i (List.mem_of_mem_filter (List.mem_of_find?_eq_some hi)) (by simpa using List.find?_some hi)

theorem keyed_filter (h : Keyed m pid) (q : ProcessInfo → Bool) :
    Keyed { m with managed := m.managed.filter q } pid := by
  intro i hi hpid
  have hfound : ((m.managed.filter q).find? (·.pid == pid)).isSome = true :=
    List.find?_isSome.mpr ⟨i, hi, by simpa using hpid⟩
  obtain ⟨j, hj⟩ := Option.isSome_iff_exists.mp hfound
  have hij := (h i (List.mem_of_mem_filter hi) hpid).symm.trans (lookup_filter h q hj)
  rw [Option.some.injEq] at hij
  exact hij ▸ hj

/-- The entry gets the sample, and the callback the entry when RUNNING was left. -/
theorem recordStatus_ends (pid : Int) (st : ProcessStatus) (s : Pm σ) :
    Ends (recordStatus os pid st) s fun _ s' =>
      match s.mgr.lookup pid with
      | none => s'.mgr = s.mgr
      | some info => ∃ i, s'.mgr.lookup pid = some i ∧ i.status = st ∧ s'.mgr.exitCallback =
          if info.status = .running ∧ st ≠ .running then s.mgr.exitCallback.map (· ++ [i]) else s.mgr.exitCallback := by
  have tell : ∀ (m : ProcessManager) (i : ProcessInfo),
      m.lookup pid = some i → i.status = st → m.exitCallback = s.mgr.exitCallback →
      ∃ i', lookup { m with exitCallback := m.exitCallback.map fun seen => seen ++ (m.lookup pid).toList } pid =
          some i' ∧
        i'.status = st ∧ (m.exitCallback.map fun seen => seen ++ (m.lookup pid).toList) =
          s.mgr.exitCallback.map (· ++ [i']) := by
    intro m i hm hst hcb
    exact ⟨i, hm, hst, by rw [hm, hcb]; rfl⟩
  simp only [recordStatus, ends_bind, ends_read, andThen_ok]
  rcases h : s.mgr.lookup pid with _ | info
  · exact rfl
  · simp only [ends_bind, ends_modify, andThen_ok]
    have h1 := lookup_update h (fun i => { i with status := st }) fun _ => rfl
    split
    · simp only [sys, ends_bind, ends_call, ends_modify, andThen_ok]
      have h2 := lookup_update h1 (fun i => { i with endTime := some (os.systemNow s.os).1 }) fun _ => rfl
      split
      · simp only [ends_bind, ends_modify, andThen_ok]
        exact tell _ _ (lookup_update h2 _ fun _ => rfl) rfl rfl
      · exact tell _ _ h2 rfl rfl
    · exact ⟨_, h1, rfl, rfl⟩

end ProcessManager

/-! ## What a sample says -/

namespace Kernel

variable {σ : Type} {pid : Int}

theorem Aged.eq_of_nil {l l' : Option Life} (h : Aged [] pid l l') : l' = l := by
  cases h with
  | same => rfl
  | exit he => cases he
  | takeOver ht => cases ht

/-- With no moves due, nothing about a running child changes. -/
theorem kept_running : Kept pid fun k : Kernel σ => k.moves = [] ∧ k.Running pid where
  passed {k k'} hk h := by
    have haged := h.aged pid
    rw [hk.1] at haged
    exact ⟨by rw [h.moves, hk.1]; rfl, haged.eq_of_nil.trans hk.2⟩
  reap {k e} hk hz := by
    have hrun := hk.2
    rw [Running, hz] at hrun
    cases hrun

/-- The pid is a child's that has ended. -/
def Ended (k : Kernel σ) (pid : Int) : Prop := (k.procs pid).isSome = true ∧ ¬ k.Running pid

theorem kept_ended : Kept pid fun k : Kernel σ => k.moves = [] ∧ k.Ended pid where
  passed {k k'} hk h := by
    have haged := h.aged pid
    rw [hk.1] at haged
    refine ⟨by rw [h.moves, hk.1]; rfl, ?_⟩
    rw [Ended, Running, haged.eq_of_nil]
    exact hk.2
  reap {k e} hk _ := ⟨hk.1, by simp [Ended, Running]⟩

theorem kept_child : Kept pid fun k : Kernel σ => k.moves = [] ∧ (k.procs pid).isSome = true where
  passed {k k'} hk h := ⟨by rw [h.moves, hk.1]; rfl, (h.aged pid).isSome.trans hk.2⟩
  reap {k e} hk _ := ⟨hk.1, by simp⟩

end Kernel

namespace ProcessManager

variable {σ : Type} (base : Os σ) {pid : Int}

/-- A sample of a child says RUNNING exactly when the child ran. -/
theorem determineProcessStatus_quiet (hp : 0 < pid) {s : Pm (Kernel σ)} (hq : s.os.moves = [])
    (hc : (s.os.procs pid).isSome = true) :
    Ends (determineProcessStatus (kernelOs base) pid) s fun r s' => s'.mgr = s.mgr ∧ s'.os.moves = [] ∧
      (s'.os.procs pid).isSome = true ∧ ∃ st, r = .ok st ∧ (st = .running ↔ s.os.Running pid) := by
  by_cases hrun : s.os.Running pid
  · refine Ends.mono (determineProcessStatus_ends base Kernel.kept_running (s := s) ⟨hq, hrun⟩) ?_
    intro r s' hpost
    obtain ⟨hm, ⟨hq', hrun'⟩, st, hr, -, hended⟩ := hpost
    refine ⟨hm, hq', by rw [hrun']; rfl, st, hr, fun _ => hrun, fun _ => ?_⟩
    by_contra hst
    obtain ⟨e, taken, hl⟩ := hended hp hst hc
    rw [Kernel.Running, hl] at hrun'
    cases hrun'
  · refine Ends.mono (determineProcessStatus_ends base Kernel.kept_ended (s := s) ⟨hq, hc, hrun⟩) ?_
    intro r s' hpost
    obtain ⟨hm, ⟨hq', hc', hrun'⟩, st, hr, hrunning, -⟩ := hpost
    exact ⟨hm, hq', hc', st, hr, fun hst => absurd (hrunning hst) hrun', fun h => absurd h hrun⟩

end ProcessManager

/-! ## The race -/

/-- The manager and what each caller of `updateProcessStatus` has sampled, with whether
    that was after the child's end. -/
structure Race (σ : Type) where
  pm : Pm (Kernel σ)
  samples : Nat → Option (ProcessStatus × Bool) := fun _ => none
  /-- A sample from after the end was stored in the child's entry. -/
  noted : Bool := false
  /-- The entry has said something else than RUNNING. -/
  sunk : Bool := false

inductive Act where
  /-- Caller `t` enters `updateProcessStatus`. -/
  | sample (t : Nat)
  /-- Caller `t` goes through the locked part. -/
  | record (t : Nat)
  /-- `isProcessRunning`, `getProcessStatus` or `getProcessInfo`. -/
  | query
  | exit (e : Exit)
  /-- The end of a round of the monitoring loop. -/
  | clean
  /-- `cleanupProcess`. -/
  | erase
  deriving DecidableEq, Repr

namespace Race

open ProcessManager

variable {σ : Type} (base : Os σ) (pid : Int)

def step (s : Race σ) : Act → Race σ
  | .sample t =>
    match s.samples t with
    | some _ => s
    | none =>
      match determineProcessStatus (kernelOs base) pid s.pm with
      | (.ok st, pm) => { s with
          pm := pm
          samples := Function.update s.samples t (some (st, !decide (s.pm.os.procs pid = some .running))) }
      | (_, pm) => { s with pm := pm }
  | .record t =>
    match s.samples t with
    | none => s
    | some (st, late) =>
      let pm := (recordStatus (kernelOs base) pid st s.pm).2
      { s with
        pm := pm
        samples := Function.update s.samples t none
        noted := s.noted || late && (s.pm.mgr.lookup pid).isSome
        sunk := s.sunk || (pm.mgr.lookup pid).any (·.status != .running) }
  | .query => { s with pm := (determineProcessStatus (kernelOs base) pid s.pm).2 }
  | .exit e => { s with pm := { s.pm with os := s.pm.os.move (.exit pid e) } }
  | .clean => { s with pm := { s.pm with mgr := s.pm.mgr.eraseFinished } }
  | .erase => { s with pm := { s.pm with mgr := s.pm.mgr.erase pid } }

/-- How often the callback has run for `pid`. -/
def calls (s : Race σ) : Nat := (s.pm.mgr.exitCallback.getD []).countP (·.pid == pid)

structure Once (s : Race σ) : Prop where
  /-- The status never goes back to RUNNING. -/
  down : s.sunk = true → ∀ i, s.pm.mgr.lookup pid = some i → i.status ≠ .running
  atMost : s.calls pid ≤ 1
  exactly : s.noted = true → s.calls pid = 1

/-- A sample from before the end is not stored once one from after it was, unless the
    entry has been erased. -/
def Timely (s : Race σ) : Act → Prop
  | .record t => (s.samples t).any (fun sample => !sample.2) = true → s.noted = true → s.pm.mgr.lookup pid = none
  | _ => True

instance (s : Race σ) : (a : Act) → Decidable (Timely pid s a)
  | .record t => inferInstanceAs (Decidable ((s.samples t).any (fun sample => !sample.2) = true → s.noted = true →
      s.pm.mgr.lookup pid = none))
  | .sample _ | .query | .exit _ | .clean | .erase => inferInstanceAs (Decidable True)

/-- What holds in every interleaving. -/
structure Inv (s : Race σ) : Prop where
  keyed : Keyed s.pm.mgr pid
  quiet : s.pm.os.moves = []
  child : (s.pm.os.procs pid).isSome = true
  callback : s.pm.mgr.exitCallback.isSome = true
  samples : ∀ t st late, s.samples t = some (st, late) → (late = true ↔ st ≠ .running)
  noted : s.noted = s.sunk
  called : s.sunk = true ↔ 0 < s.calls pid
  status : ∀ i, s.pm.mgr.lookup pid = some i → i.status ≠ .running → s.sunk = true

/-- A child that the manager has just registered, with a callback installed. -/
structure Watched (pm : Pm (Kernel σ)) : Prop where
  keyed : Keyed pm.mgr pid
  quiet : pm.os.moves = []
  running : pm.os.Running pid
  entry : ∃ i, pm.mgr.lookup pid = some i ∧ i.status = .running
  callback : ∃ seen, pm.mgr.exitCallback = some seen ∧ ∀ i ∈ seen, i.pid ≠ pid

variable {pid}

theorem watched_inv {pm : Pm (Kernel σ)} (h : Watched pid pm) :
    Inv pid (⟨pm, fun _ => none, false, false⟩ : Race σ) := by
  obtain ⟨hkeyed, hq, hrun, ⟨i, hi, hst⟩, seen, hseen, hnone⟩ := h
  have hcalls : calls pid (⟨pm, fun _ => none, false, false⟩ : Race σ) = 0 := by
    simp only [calls, hseen, Option.getD_some, List.countP_eq_zero]
    intro i hi
    simpa using hnone i hi
  refine ⟨hkeyed, hq, by rw [hrun]; rfl, by rw [hseen]; rfl, nofun, rfl, ?_, ?_⟩
  · rw [hcalls]
    exact ⟨nofun, nofun⟩
  · intro j hj hne
    rw [show pm.mgr.lookup pid = some i from hi, Option.some.injEq] at hj
    exact absurd (hj ▸ hst) hne

/-! ## One step -/

/-- What a caller's locked part does to a manager that has a callback. -/
inductive Recorded (pid : Int) (s : Race σ) (st : ProcessStatus) (late : Bool) (s' : Race σ) : Prop
  | erased : s.pm.mgr.lookup pid = none → s'.pm.mgr = s.pm.mgr → s'.noted = s.noted → s'.sunk = s.sunk →
      Recorded pid s st late s'
  | stored {info i : ProcessInfo} : s.pm.mgr.lookup pid = some info → s'.pm.mgr.lookup pid = some i → i.status = st →
      s'.noted = (s.noted || late) → s'.sunk = (s.sunk || st != .running) → s'.pm.mgr.exitCallback.isSome = true →
      s'.calls pid = s.calls pid + (if info.status = .running ∧ st ≠ .running then 1 else 0) → Recorded pid s st late s'

variable {s : Race σ}

theorem step_record (hs : Inv pid s) {t : Nat} {st : ProcessStatus} {late : Bool}
    (ht : s.samples t = some (st, late)) : Recorded pid s st late (step base pid s (.record t)) := by
  have hrec := recordStatus_ends (kernelOs base) pid st s.pm
  unfold Ends at hrec
  simp only [step, ht]
  generalize (recordStatus (kernelOs base) pid st s.pm).2 = pm at hrec ⊢
  rcases hl : s.pm.mgr.lookup pid with _ | info
  · rw [hl] at hrec
    exact .erased hl hrec (by simp) (by simp [show pm.mgr = s.pm.mgr from hrec, hl])
  · rw [hl] at hrec
    obtain ⟨i, hi, hst, hcb⟩ := hrec
    obtain ⟨seen, hseen⟩ := Option.isSome_iff_exists.mp hs.callback
    rw [hseen] at hcb
    refine .stored hl hi hst (by simp) (by simp [hi, hst]) ?_ ?_
    · rw [show pm.mgr.exitCallback = _ from hcb]
      split <;> rfl
    · simp only [calls, hcb, hseen]
      split
      · simp [List.countP_append, lookup_pid hi]
      · rfl

theorem step_record_inv (hs : Inv pid s) (t : Nat) : Inv pid (step base pid s (.record t)) := by
  rcases ht : s.samples t with _ | ⟨st, late⟩
  · rw [step, ht]
    exact hs
  · have hkept := recordStatus_kept base Kernel.kept_child st s.pm ⟨hs.quiet, hs.child⟩
    have hsamples : ∀ u st' late', (step base pid s (.record t)).samples u = some (st', late') →
        (late' = true ↔ st' ≠ .running) := by
      intro u st' late' hu
      simp only [step, ht] at hu
      by_cases hut : u = t
      · rw [hut, Function.update_self] at hu
        cases hu
      · rw [Function.update_of_ne hut] at hu
        exact hs.samples u st' late' hu
    have hkeyed : Keyed (step base pid s (.record t)).pm.mgr pid := by
      simp only [step, ht]
      exact recordStatus_keyed _ st s.pm hs.keyed
    have hquiet : (step base pid s (.record t)).pm.os.moves = [] := by
      simp only [step, ht]
      exact hkept.1
    have hchild : ((step base pid s (.record t)).pm.os.procs pid).isSome = true := by
      simp only [step, ht]
      exact hkept.2
    cases step_record base hs ht with
    | erased hl hm hn hk =>
      refine ⟨hkeyed, hquiet, hchild, by rw [hm]; exact hs.callback, hsamples, by rw [hn, hk, hs.noted], ?_, ?_⟩
      · rw [hk, calls, hm]
        exact hs.called
      · rw [hm, hk]
        exact hs.status
    | stored hl hi hst hn hk hcb hcalls =>
      rename_i info i
      have hlate := hs.samples t st late ht
      refine ⟨hkeyed, hquiet, hchild, hcb, hsamples, ?_, ?_, ?_⟩
      · rw [hn, hk, hs.noted]
        congr 1
        rw [Bool.eq_iff_iff, bne_iff_ne]
        exact hlate
      · rw [hk, hcalls]
        have hcalled := hs.called
        by_cases hrun : st = .running
        · simpa [hrun] using hcalled
        · -- the first to leave RUNNING calls; any other finds that one has
          have hstatus := hs.status info hl
          by_cases hinfo : info.status = .running
          · simp [hrun, hinfo]
          · simp [hrun, hinfo, hcalled.mp (hstatus hinfo)]
      · intro j hj hne
        rw [hi, Option.some.injEq] at hj
        rw [← hj, hst] at hne
        simp [hk, hne]

/-- The entry is as it was, or has been erased, and so is what was told of it. -/
theorem Inv.of_mgr (hs : Inv pid s) {m : ProcessManager} {k : Kernel σ}
    {samples : Nat → Option (ProcessStatus × Bool)}
    (hkeyed : Keyed m pid) (hlookup : ∀ i, m.lookup pid = some i → s.pm.mgr.lookup pid = some i)
    (hcb : m.exitCallback = s.pm.mgr.exitCallback) (hq : k.moves = []) (hc : (k.procs pid).isSome = true)
    (hsamples : ∀ t st late, samples t = some (st, late) → (late = true ↔ st ≠ .running)) :
    Inv pid { s with pm := ⟨m, k⟩, samples := samples } := by
  refine ⟨hkeyed, hq, hc, hcb ▸ hs.callback, hsamples, hs.noted, ?_, fun i hi => hs.status i (hlookup i hi)⟩
  rw [calls, hcb]
  exact hs.called

theorem step_inv (hp : 0 < pid) (hs : Inv pid s) (a : Act) : Inv pid (step base pid s a) := by
  cases a with
  | sample t =>
    simp only [step]
    have hdet := determineProcessStatus_quiet base hp hs.quiet hs.child
    unfold Ends at hdet
    generalize determineProcessStatus (kernelOs base) pid s.pm = out at hdet
    obtain ⟨r, pm⟩ := out
    obtain ⟨hm, hq, hc, st, rfl, hst⟩ := hdet
    split
    · exact hs
    · refine hs.of_mgr (m := pm.mgr) (k := pm.os) (hm ▸ hs.keyed) (fun i hi => hm ▸ hi) (by rw [hm]) hq hc ?_
      intro u st' late hu
      by_cases hut : u = t
      · rw [hut, Function.update_self, Option.some.injEq, Prod.mk.injEq] at hu
        obtain ⟨rfl, rfl⟩ := hu
        rw [Bool.not_eq_true', decide_eq_false_iff_not]
        exact not_congr hst.symm
      · rw [Function.update_of_ne hut] at hu
        exact hs.samples u st' late hu
  | record t => exact step_record_inv base hs t
  | query =>
    obtain ⟨hm, hq, hc, -⟩ := determineProcessStatus_quiet base hp hs.quiet hs.child
    exact hs.of_mgr (hm ▸ hs.keyed) (fun i hi => hm ▸ hi) (by rw [hm]) hq hc hs.samples
  | exit e =>
    refine hs.of_mgr hs.keyed (fun _ hi => hi) rfl ?_ ?_ hs.samples
    · exact (Kernel.foldl_move_moves [.exit pid e] s.pm.os).1.trans hs.quiet
    · exact (Kernel.move_aged s.pm.os (.exit pid e) pid).isSome.trans hs.child
  | clean =>
    exact hs.of_mgr (keyed_filter hs.keyed _) (fun i hi => lookup_filter hs.keyed _ hi) rfl hs.quiet hs.child hs.samples
  | erase =>
    exact hs.of_mgr (keyed_filter hs.keyed _) (fun i hi => lookup_filter hs.keyed _ hi) rfl hs.quiet hs.child hs.samples

/-- `Once` sees only the entry, the callback and what has been noted. -/
theorem once_congr {s s' : Race σ} (hlookup : ∀ i, s'.pm.mgr.lookup pid = some i → s.pm.mgr.lookup pid = some i)
    (hcb : s'.pm.mgr.exitCallback = s.pm.mgr.exitCallback) (hn : s'.noted = s.noted) (hk : s'.sunk = s.sunk)
    (h : Once pid s) : Once pid s' := by
  have hcalls : s'.calls pid = s.calls pid := by rw [calls, calls, hcb]
  refine ⟨?_, hcalls ▸ h.atMost, ?_⟩
  · intro hsunk i hi
    exact h.down (hk ▸ hsunk) i (hlookup i hi)
  · intro hnoted
    rw [hcalls]
    exact h.exactly (hn ▸ hnoted)

theorem step_record_once (hs : Inv pid s) (ho : Once pid s) (t : Nat) :
    Once pid (step base pid s (.record t)) ↔ Timely pid s (.record t) := by
  rcases ht : s.samples t with _ | ⟨st, late⟩
  · rw [step, ht]
    refine ⟨fun _ hearly => ?_, fun _ => ho⟩
    rw [ht] at hearly
    cases hearly
  · have hlate := hs.samples t st late ht
    have htimely : Timely pid s (.record t) ↔ (late = false → s.noted = true → s.pm.mgr.lookup pid = none) := by
      simp [Timely, ht]
    rw [htimely]
    cases step_record base hs ht with
    | erased hl hm hn hk => exact ⟨fun _ _ _ => hl, fun _ => once_congr (fun i hi => hm ▸ hi) (by rw [hm]) hn hk ho⟩
    | stored hl hi hst hn hk hcb hcalls =>
      rename_i info i
      by_cases hrun : st = .running
      · -- a stale sample: it may only be stored while nothing newer was
        have hl' : late = false := by
          cases late with
          | false => rfl
          | true => exact absurd hrun (hlate.mp rfl)
        subst hrun hl'
        simp only [ne_eq, not_true_eq_false, and_false, if_false, Nat.add_zero] at hcalls
        rw [Bool.or_false] at hn
        rw [show (ProcessStatus.running != ProcessStatus.running) = false from rfl, Bool.or_false] at hk
        constructor
        · intro ho' _ hnoted
          rw [hs.noted] at hnoted
          exact absurd hst (ho'.down (hk.trans hnoted) i hi)
        · intro h
          have hnot : s.noted = false := by
            cases hnoted : s.noted with
            | false => rfl
            | true =>
              have := h rfl hnoted
              rw [hl] at this
              cases this
          refine ⟨fun hsunk => ?_, hcalls ▸ ho.atMost, fun hnoted => ?_⟩
          · rw [hk, ← hs.noted, hnot] at hsunk
            cases hsunk
          · rw [hn, hnot] at hnoted
            cases hnoted
      · have hl' : late = true := hlate.mpr hrun
        have hone : (step base pid s (.record t)).calls pid = 1 := by
          by_cases hinfo : info.status = .running
          · have hzero : s.calls pid = 0 := by
              by_contra hpos
              exact ho.down (hs.called.mpr (Nat.pos_of_ne_zero hpos)) info hl hinfo
            rw [hcalls, hzero, if_pos ⟨hinfo, hrun⟩]
          · have hsunk := hs.status info hl hinfo
            rw [hcalls, if_neg fun h => hinfo h.1]
            exact ho.exactly (hs.noted.trans hsunk)
        refine ⟨fun _ hfalse => absurd (hl'.symm.trans hfalse) (by decide), fun _ => ⟨?_, hone.le, fun _ => hone⟩⟩
        intro _ j hj
        rw [hi, Option.some.injEq] at hj
        rw [← hj, hst]
        exact hrun

theorem step_once (hp : 0 < pid) (hs : Inv pid s) (ho : Once pid s) (a : Act) :
    Once pid (step base pid s a) ↔ Timely pid s a := by
  cases a with
  | record t => exact step_record_once base hs ho t
  | sample t =>
    refine ⟨fun _ => trivial, fun _ => ?_⟩
    simp only [step]
    have hdet := determineProcessStatus_quiet base hp hs.quiet hs.child
    unfold Ends at hdet
    generalize determineProcessStatus (kernelOs base) pid s.pm = out at hdet
    obtain ⟨r, pm⟩ := out
    obtain ⟨hm, -, -, st, rfl, -⟩ := hdet
    split
    · exact ho
    · exact once_congr (fun i hi => hm ▸ hi) (congrArg ProcessManager.exitCallback hm) rfl rfl ho
  | query =>
    obtain ⟨hm, -⟩ := determineProcessStatus_quiet base hp hs.quiet hs.child
    exact ⟨fun _ => trivial, fun _ => once_congr (fun i hi => hm ▸ hi) (congrArg ProcessManager.exitCallback hm) rfl rfl ho⟩
  | exit e => exact ⟨fun _ => trivial, fun _ => once_congr (s := s) (fun i hi => hi) rfl rfl rfl ho⟩
  | clean =>
    exact ⟨fun _ => trivial, fun _ => once_congr (fun i hi => lookup_filter hs.keyed _ hi) rfl rfl rfl ho⟩
  | erase =>
    exact ⟨fun _ => trivial, fun _ => once_congr (fun i hi => lookup_filter hs.keyed _ hi) rfl rfl rfl ho⟩

/-! ## Runs -/

/-- From a running child's registration on: the recorded status never goes back to
    RUNNING, the callback runs at most once, and exactly once when an update that began
    after the child's end was stored, throughout an interleaving exactly when no sample
    from before the end is stored over one from after it. -/
theorem exit_callback_iff (hp : 0 < pid) (pm : Pm (Kernel σ)) (h : Watched pid pm) (acts : List Act) :
    Throughout (step base pid) (Once pid) ⟨pm, fun _ => none, false, false⟩ acts ↔
      EachStep (step base pid) (Timely pid) ⟨pm, fun _ => none, false, false⟩ acts := by
  have hinv := watched_inv h
  have hzero : calls pid (⟨pm, fun _ => none, false, false⟩ : Race σ) = 0 := by
    by_contra hpos
    cases hinv.called.mpr (Nat.pos_of_ne_zero hpos)
  refine throughout_iff_eachStep (I := Inv pid) (fun s a hs => step_inv base hp hs a)
    (fun s a hs ho => step_once base hp hs ho a) hinv ?_ acts
  exact ⟨nofun, by rw [hzero]; decide, nofun⟩

/-- Process 100, running and registered. -/
def registered : Pm (Kernel Int) :=
  ⟨⟨[⟨100, .running, 0, 7, none, "/bin/sleep 9", []⟩], some []⟩,
    { procs := fun pid => if pid = 100 then some .running else none, rest := 101 }⟩

theorem registered_watched : Watched 100 registered := by
  refine ⟨?_, rfl, rfl, ⟨_, rfl, rfl⟩, [], rfl, nofun⟩
  intro i hi _
  obtain rfl := List.mem_singleton.mp hi
  rfl

/-- Caller 0 samples before the child's end and stores after caller 1 did: the entry says
    RUNNING again, and the next update calls the callback a second time. -/
theorem a_stale_sample_revives_the_child :
    let run := runFrom (step plainOs 100) ⟨registered, fun _ => none, false, false⟩
    let acts : List Act := [.sample 0, .exit (.code 0), .sample 1, .record 1, .record 0]
    (run acts).sunk = true ∧ ((run acts).pm.mgr.lookup 100).map (·.status) = some .running ∧
    calls 100 (run (acts ++ [.sample 2, .record 2])) = 2 ∧
    ¬ Throughout (step plainOs 100) (Once 100) ⟨registered, fun _ => none, false, false⟩ acts := by
  intro run acts
  have hsunk : (run acts).sunk = true := by decide +kernel
  have hback : ((run acts).pm.mgr.lookup 100).map (·.status) = some .running := by decide +kernel
  refine ⟨hsunk, hback, by decide +kernel, ?_⟩
  intro h
  obtain ⟨i, hi, hst⟩ := Option.map_eq_some_iff.mp hback
  exact h.last.down hsunk i hi hst

theorem exit_callback_iff_two_callers :
    Throughout (step plainOs 100) (Once 100) ⟨registered, fun _ => none, false, false⟩
      [.sample 0, .exit (.code 0), .record 0, .sample 1, .sample 2, .record 2, .record 1] :=
  (exit_callback_iff plainOs (by decide) registered registered_watched _).mpr
    ⟨trivial, trivial, by decide +kernel, trivial, trivial, by decide +kernel, by decide +kernel, trivial⟩

end Race

end DockerCpp.Runtime
