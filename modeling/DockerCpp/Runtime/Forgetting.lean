/-
  DockerCpp.Runtime.Forgetting — when the monitoring loop forgets a child that has ended.

  A round of the loop updates every entry of `managed_processes_` and then erases those that
  say STOPPED or ZOMBIE. An update says ZOMBIE only when it is the one that reaps the child.
  Every query reaps as well, and records nothing: once `isProcessRunning` has found a child
  ended, each later update says UNKNOWN, which the loop does not erase.

  So after any calls and rounds a round forgets a child that has ended exactly when nothing
  has reaped it before (`forgotten_iff`, `a_queried_child_is_not_forgotten`). The exit
  callback has run by then in any case: no update leaves RUNNING without it.
-/

import DockerCpp.Runtime.ExitCallback
import Mathlib.Data.List.Nodup

namespace DockerCpp.Runtime

open Lib Lib.Prog

namespace ProcessManager

/-! ## The entries -/

section

variable {m : ProcessManager} {pid q : Int} {f : ProcessInfo → ProcessInfo}

theorem lookup_update_ne (m : ProcessManager) (hf : ∀ i, (f i).pid = i.pid)
    (h : pid ≠ q) : (m.update q f).lookup pid = m.lookup pid := by
  unfold lookup update
  induction m.managed with
  | nil => rfl
  | cons a l ih =>
    rw [List.map_cons, List.find?_cons, List.find?_cons, ih]
    by_cases ha : a.pid = q
    · have hne : (q == pid) = false := beq_false_of_ne (Ne.symm h)
      simp [ha, hf, hne]
    · simp [ha]

theorem pids_update (m : ProcessManager) (q : Int) (hf : ∀ i, (f i).pid = i.pid) :
    (m.update q f).managed.map (·.pid) = m.managed.map (·.pid) := by
  rw [update, List.map_map]
  refine List.map_congr_left fun i _ => ?_
  rw [Function.comp_apply]
  split
  · exact hf i
  · rfl

theorem lookup_isSome_iff : (m.lookup pid).isSome = true ↔ pid ∈ m.managed.map (·.pid) := by
  simp [lookup]

theorem keyed_of_nodup (h : (m.managed.map (·.pid)).Nodup) (pid : Int) : Keyed m pid := by
  intro i hi hpid
  obtain ⟨j, hj⟩ := Option.isSome_iff_exists.mp (lookup_isSome_iff.mpr (List.mem_map.mpr ⟨i, hi, hpid⟩))
  have hij := List.inj_on_of_nodup_map h hi (List.mem_of_find?_eq_some hj) (hpid.trans (lookup_pid hj).symm)
  rw [hj, hij]

theorem lookup_eraseFinished (h : Keyed m pid) {i : ProcessInfo} (hi : m.lookup pid = some i) :
    m.eraseFinished.lookup pid = none ↔ finished i = true := by
  have hmem := List.mem_of_find?_eq_some hi
  constructor
  · intro hnone
    by_contra hkept
    have hin : i ∈ m.managed.filter (!finished ·) := List.mem_filter.mpr ⟨hmem, by simpa using hkept⟩
    have hne := List.find?_eq_none.mp hnone i hin
    exact hne (by simpa using lookup_pid hi)
  · intro hfinished
    cases hj : m.eraseFinished.lookup pid with
    | none => rfl
    | some j =>
      have heq : some i = some j := hi.symm.trans (lookup_filter h _ hj)
      cases heq
      have hkept := (List.mem_filter.mp (List.mem_of_find?_eq_some hj)).2
      rw [hfinished] at hkept
      cases hkept

end

/-! ## What an update of another process changes -/

/-- The callback has received the entry of `pid`. -/
def Told (pid : Int) (m : ProcessManager) : Prop := ∃ seen, m.exitCallback = some seen ∧ ∃ i ∈ seen, i.pid = pid

/-- What an update of `q` leaves alone. -/
structure Apart {σ : Type} (q : Int) (s s' : Pm σ) : Prop where
  pids : s'.mgr.managed.map (·.pid) = s.mgr.managed.map (·.pid)
  entry : ∀ pid, pid ≠ q → s'.mgr.lookup pid = s.mgr.lookup pid
  installed : s'.mgr.exitCallback.isSome = s.mgr.exitCallback.isSome
  told : ∀ pid, Told pid s.mgr → Told pid s'.mgr

instance {σ : Type} (q : Int) : Frame (Apart (σ := σ) q) where
  refl _ := ⟨rfl, fun _ _ => rfl, rfl, fun _ h => h⟩
  trans h h' := ⟨h'.pids.trans h.pids, fun pid hne => (h'.entry pid hne).trans (h.entry pid hne),
    h'.installed.trans h.installed, fun pid ht => h'.told pid (h.told pid ht)⟩

section

variable {σ : Type} (os : Os σ) {pid q : Int}

theorem update_apart {f : ProcessInfo → ProcessInfo} (hf : ∀ i, (f i).pid = i.pid) :
    Returns (Apart q) (modify fun s => { s with mgr := s.mgr.update q f } : Prog (Pm σ) Error Unit) :=
  returns_modify fun s => ⟨pids_update s.mgr q hf, fun _ hne => lookup_update_ne s.mgr hf hne, rfl, fun _ h => h⟩

theorem sys_apart {α : Type} (f : σ → α × σ) : Returns (Apart q) (sys f : Prog (Pm σ) Error α) :=
  returns_call fun _ => ⟨rfl, fun _ _ => rfl, rfl, fun _ h => h⟩

theorem tell_apart : Returns (Apart q) (modify fun s => { s with mgr := { s.mgr with
    exitCallback := s.mgr.exitCallback.map fun seen => seen ++ (s.mgr.lookup q).toList } } :
    Prog (Pm σ) Error Unit) := by
  refine returns_modify fun s => ⟨rfl, fun _ _ => rfl, Option.isSome_map, fun pid h => ?_⟩
  obtain ⟨seen, hseen, i, hi, hpid⟩ := h
  refine ⟨seen ++ (s.mgr.lookup q).toList, ?_, i, List.mem_append_left _ hi, hpid⟩
  rw [hseen]
  rfl

theorem determineProcessStatus_apart : Returns (Apart q) (determineProcessStatus os q) := by
  refine returns_bind (sys_apart _) fun _ => returns_ite ?_ (returns_pure _)
  exact returns_bind (sys_apart _) fun _ => returns_ite (returns_pure _) (returns_ite (returns_pure _) (returns_pure _))

theorem recordStatus_apart (st : ProcessStatus) : Returns (Apart q) (recordStatus os q st) := by
  refine returns_bind (returns_read _) fun r => ?_
  cases r with
  | none => exact returns_pure _
  | some info =>
    refine returns_bind (update_apart fun _ => rfl) fun _ => returns_ite ?_ (returns_pure _)
    refine returns_bind (sys_apart _) fun _ => returns_bind (update_apart fun _ => rfl) fun _ => ?_
    refine returns_bind (sys_apart _) fun _ => returns_ite ?_ tell_apart
    exact returns_bind (update_apart fun _ => rfl) fun _ => tell_apart

theorem updateProcessStatus_apart : Returns (Apart q) (updateProcessStatus os q) :=
  returns_bind (determineProcessStatus_apart os) fun st => recordStatus_apart os st

/-- The entry says what the sample said. -/
theorem updateProcessStatus_records {s : Pm σ} {st : ProcessStatus} (hmanaged : (s.mgr.lookup pid).isSome = true)
    (hsample : Ends (determineProcessStatus os pid) s fun r _ => r = .ok st) :
    Ends (updateProcessStatus os pid) s fun _ s' => ∃ i, s'.mgr.lookup pid = some i ∧ i.status = st := by
  have hpids := (determineProcessStatus_apart os (q := pid) s).2.pids
  rw [updateProcessStatus, ends_bind]
  refine Ends.mono (Q := fun r s' => r = .ok st ∧ s'.mgr.managed.map (·.pid) = s.mgr.managed.map (·.pid))
    ⟨hsample, hpids⟩ ?_
  rintro r s' ⟨rfl, hsame⟩
  rw [lookup_isSome_iff, ← hsame, ← lookup_isSome_iff] at hmanaged
  obtain ⟨info, hinfo⟩ := Option.isSome_iff_exists.mp hmanaged
  rw [andThen_ok]
  refine Ends.mono (recordStatus_ends os pid st s') fun _ s'' hrec => ?_
  rw [hinfo] at hrec
  obtain ⟨i, hi, hst, -⟩ := hrec
  exact ⟨i, hi, hst⟩

/-! ## What every call keeps -/

/-- A callback is installed, and it has heard of `pid` if the entry says so. -/
structure Attended (pid : Int) (m : ProcessManager) : Prop where
  distinct : (m.managed.map (·.pid)).Nodup
  installed : m.exitCallback.isSome = true
  told : ∀ i, m.lookup pid = some i → i.status ≠ .running → Told pid m

theorem sys_attended {α : Type} (f : σ → α × σ) :
    Stable (fun s => Attended pid s.mgr) (sys f : Prog (Pm σ) Error α) := stable_call fun _ hs => hs

theorem recordStatus_attended (q : Int) (st : ProcessStatus) :
    Stable (fun s => Attended pid s.mgr) (recordStatus os q st) := by
  intro s hs
  have hapart := (recordStatus_apart os (q := q) st s).2
  have hrec := recordStatus_ends os q st s
  unfold Ends at hrec ⊢
  generalize (recordStatus os q st s).2 = s' at hapart hrec ⊢
  refine ⟨hapart.pids ▸ hs.distinct, hapart.installed.trans hs.installed, fun i hi hst => ?_⟩
  by_cases hq : pid = q
  · subst hq
    cases hl : s.mgr.lookup pid with
    | none =>
      rw [hl] at hrec
      rw [show s'.mgr = s.mgr from hrec, hl] at hi
      cases hi
    | some info =>
      rw [hl] at hrec
      obtain ⟨j, hj, hstatus, hcallback⟩ := hrec
      cases hi.symm.trans hj
      by_cases hinfo : info.status = .running
      · obtain ⟨seen, hseen⟩ := Option.isSome_iff_exists.mp hs.installed
        rw [if_pos ⟨hinfo, hstatus ▸ hst⟩, hseen] at hcallback
        exact ⟨_, hcallback, i, List.mem_append_right _ List.mem_cons_self, lookup_pid hi⟩
      · exact hapart.told pid (hs.told info hl hinfo)
  · rw [hapart.entry pid hq] at hi
    exact hapart.told pid (hs.told i hi hst)

theorem tended_attended (q : Int) : Tended os q fun s => Attended pid s.mgr := by
  have hquery : Stable (fun s : Pm σ => Attended pid s.mgr) (determineProcessStatus os q) := by
    refine stable_bind (sys_attended _) fun _ => stable_ite ?_ (stable_pure _)
    exact stable_bind (sys_attended _) fun _ => stable_ite (stable_pure _) (stable_ite (stable_pure _) (stable_pure _))
  exact ⟨sys_attended _, fun _ => stable_modify fun _ hs => hs, fun _ => sys_attended _, hquery,
    stable_bind hquery fun st => recordStatus_attended os q st⟩

theorem Attended.eraseFinished {m : ProcessManager} (h : Attended pid m) : Attended pid m.eraseFinished := by
  have hkeyed := keyed_of_nodup h.distinct pid
  refine ⟨h.distinct.sublist (List.filter_sublist.map _), h.installed, fun i hi hst => ?_⟩
  exact h.told i (lookup_filter hkeyed _ hi) hst

theorem monitoringTick_attended : Stable (fun s => Attended pid s.mgr) (monitoringTick os) :=
  stable_monitoringTick (fun q => tended_attended os q) fun _ hs => hs.eraseFinished

end

end ProcessManager

/-! ## What a sample says of a child that has ended -/

namespace Kernel

variable {σ : Type} {pid q : Int}

def Zombie (k : Kernel σ) (pid : Int) : Prop := ∃ e, k.procs pid = some (.zombie e)

theorem Zombie.passed {k k' : Kernel σ} (h : k.Zombie pid) (hp : Passed k k') : k'.Zombie pid := by
  obtain ⟨e, he⟩ := h
  have haged := hp.aged pid
  rw [he] at haged
  exact ⟨e, haged.of_zombie⟩

theorem Reaped.passed {k k' : Kernel σ} (h : k.Reaped pid) (hp : Passed k k') : k'.Reaped pid := by
  obtain ⟨e, taken, hl⟩ := h
  have haged := hp.aged pid
  rw [hl] at haged
  obtain ⟨taken', hl'⟩ := haged.of_reaped
  exact ⟨e, taken', hl'⟩

/-- A zombie waits for its own reaping. -/
theorem zombie_kept (h : q ≠ pid) : Kept q fun k : Kernel σ => k.Zombie pid where
  passed hk hp := hk.passed hp
  reap hk _ := by
    obtain ⟨e, he⟩ := hk
    exact ⟨e, (set_procs_ne _ _ (Ne.symm h)).trans he⟩

theorem reaped_kept (h : q ≠ pid) : Kept q fun k : Kernel σ => k.Reaped pid where
  passed hk hp := hk.passed hp
  reap hk _ := by
    obtain ⟨e, taken, hl⟩ := hk
    exact ⟨e, taken, (set_procs_ne _ _ (Ne.symm h)).trans hl⟩

end Kernel

namespace ProcessManager

variable {σ : Type} (base : Os σ) {pid : Int} {s : Pm (Kernel σ)}

open Kernel in
theorem determineProcessStatus_zombie (h : s.os.Zombie pid) :
    Ends (determineProcessStatus (kernelOs base) pid) s fun r _ => r = .ok .zombie := by
  obtain ⟨e, he⟩ := h.passed (advance_passed s.os)
  have hkill : kill (base.kill pid 0) pid 0 s.os = (true, s.os.advance) := by
    unfold kill
    rw [he]
  obtain ⟨e', he'⟩ := Zombie.passed ⟨e, he⟩ (advance_passed s.os.advance)
  simp only [determineProcessStatus, sys, kernelOs, ends_bind, ends_call, andThen_ok, hkill, if_true]
  simp only [waitpid, he', if_true, ends_pure]

open Kernel in
theorem determineProcessStatus_reaped (hp : 0 < pid) (h : s.os.Reaped pid) :
    Ends (determineProcessStatus (kernelOs base) pid) s fun r _ => r = .ok .unknown := by
  have hpass := kill_passed (base.kill pid 0) pid s.os (Or.inl rfl)
  simp only [determineProcessStatus, sys, kernelOs, ends_bind, ends_call, andThen_ok]
  split
  · obtain ⟨e, taken, hl⟩ := (h.passed hpass).passed (advance_passed _)
    have hne : ¬(-1 : Int) = pid := by omega
    simp only [waitpid, hl, ends_bind, ends_call, andThen_ok, hne, if_false, if_true, ends_pure]
  · exact rfl

/-! ## A round -/

variable {K : Kernel σ → Prop}

/-- A child of which every sample says `st`, whatever is done about the others, is recorded
    so by a round. -/
theorem updates_record (hs : Attended pid s.mgr) (hmanaged : (s.mgr.lookup pid).isSome = true)
    {st : ProcessStatus} (hkept : ∀ q, q ≠ pid → Kernel.Kept q K)
    (hsample : ∀ s : Pm (Kernel σ), K s.os → Ends (determineProcessStatus (kernelOs base) pid) s fun r _ => r = .ok st)
    (hK : K s.os) :
    Ends (forEach (updateProcessStatus (kernelOs base)) (s.mgr.managed.map (·.pid))) s fun r s' => r = .ok () ∧
      Attended pid s'.mgr ∧ ∃ i, s'.mgr.lookup pid = some i ∧ i.status = st := by
  let I : List Int → Pm (Kernel σ) → Prop := fun done s' => Attended pid s'.mgr ∧
    s'.mgr.managed.map (·.pid) = s.mgr.managed.map (·.pid) ∧
    (pid ∈ done → ∃ i, s'.mgr.lookup pid = some i ∧ i.status = st) ∧ (pid ∉ done → K s'.os)
  have hpid : pid ∈ s.mgr.managed.map (·.pid) := lookup_isSome_iff.mp hmanaged
  refine Ends.mono (ends_forEach_done (I := I) ?_ ⟨hs, rfl, fun h => (List.not_mem_nil h).elim, fun _ => hK⟩) ?_
  · intro done q rest hsplit s' ⟨hs', hpids, hdone, htodo⟩
    obtain ⟨⟨_, hok⟩, hapart⟩ := updateProcessStatus_apart (kernelOs base) (q := q) s'
    refine ⟨hok, (tended_attended (kernelOs base) q).update s' hs', hapart.pids.trans hpids, fun hin => ?_, fun hout => ?_⟩
    · by_cases hq : pid = q
      · -- the update of the child itself: its pid comes once
        subst hq
        have hfirst : pid ∉ done := by
          have hnodup := hs.distinct
          rw [← hsplit] at hnodup
          exact fun hmem => (List.nodup_append.mp hnodup).2.2 pid hmem pid List.mem_cons_self rfl
        have hmanaged' : (s'.mgr.lookup pid).isSome = true := by
          rwa [lookup_isSome_iff, hpids]
        exact updateProcessStatus_records (kernelOs base) hmanaged' (hsample s' (htodo hfirst))
      · have hbefore : pid ∈ done := by simpa [hq] using hin
        rw [hapart.entry pid hq]
        exact hdone hbefore
    · have hne : q ≠ pid := fun heq => hout (by simp [heq])
      have hbefore : pid ∉ done := fun hmem => hout (List.mem_append_left _ hmem)
      exact updateProcessStatus_kept base (hkept q hne) s' (htodo hbefore)
  · rintro r s' ⟨rfl, hs', -, hdone, -⟩
    exact ⟨rfl, hs', hdone hpid⟩

/-- And is erased if that is a status the round erases. -/
theorem monitoringTick_ends (hs : Attended pid s.mgr) (hmanaged : (s.mgr.lookup pid).isSome = true)
    {st : ProcessStatus} (hkept : ∀ q, q ≠ pid → Kernel.Kept q K)
    (hsample : ∀ s : Pm (Kernel σ), K s.os → Ends (determineProcessStatus (kernelOs base) pid) s fun r _ => r = .ok st)
    (hK : K s.os) (hst : st ≠ .running) :
    Ends (monitoringTick (kernelOs base)) s fun r s' => r = .ok () ∧ Told pid s'.mgr ∧
      (s'.mgr.lookup pid = none ↔ st = .stopped ∨ st = .zombie) := by
  simp only [monitoringTick, ends_bind, ends_read, andThen_ok]
  refine Ends.mono (updates_record base hs hmanaged hkept hsample hK) ?_
  rintro r s' ⟨rfl, hs', i, hi, rfl⟩
  simp only [andThen_ok, ends_bind, ends_modify, sleepMs]
  refine ⟨trivial, hs'.told i hi hst, ?_⟩
  rw [lookup_eraseFinished (keyed_of_nodup hs'.distinct pid) hi]
  simp [finished]

/-! ## Runs -/

/-- One call, with what happens in the system during it. -/
def take (s : Pm (Kernel σ)) (c : Call × List (List Move)) : Pm (Kernel σ) :=
  (c.1.run (kernelOs base) { s with os := s.os.during c.2 }).2

theorem run_attended (c : Call) : Stable (fun s => Attended pid s.mgr) (c.run (kernelOs base)) := by
  have htended : ∀ q, Tended (kernelOs base) q fun s => Attended pid s.mgr := tended_attended (kernelOs base)
  cases c with
  | isProcessRunning q => exact stable_ignoring (htended q).isProcessRunning
  | getProcessStatus q => exact stable_ignoring (htended q).query
  | getProcessInfo q => exact stable_ignoring (htended q).getProcessInfo
  | monitorProcess q => exact (htended q).update
  | waitForProcess q timeout polls => exact stable_ignoring ((htended q).waitForProcess timeout polls)
  | stopProcess q timeout => exact stable_ignoring ((htended q).stopProcess timeout)
  | killProcess q sig => exact (htended q).killProcess sig
  | monitoringTick => exact monitoringTick_attended (kernelOs base)

theorem take_attended (hs : Attended pid s.mgr) (c : Call × List (List Move)) :
    Attended pid (take base s c).mgr := run_attended base c.1 { s with os := s.os.during c.2 } hs

/-- `pid` runs and is managed, and a callback is installed that has not heard of it. -/
structure Registered (pid : Int) (s : Pm (Kernel σ)) : Prop where
  distinct : (s.mgr.managed.map (·.pid)).Nodup
  running : s.os.Running pid
  entry : ∃ i, s.mgr.lookup pid = some i ∧ i.status = .running
  callback : ∃ seen, s.mgr.exitCallback = some seen ∧ ∀ i ∈ seen, i.pid ≠ pid

theorem Registered.attended (h : Registered pid s) : Attended pid s.mgr := by
  obtain ⟨i, hi, hst⟩ := h.entry
  obtain ⟨seen, hseen, -⟩ := h.callback
  refine ⟨h.distinct, by rw [hseen]; rfl, fun j hj hne => ?_⟩
  cases hi.symm.trans hj
  exact absurd hst hne

/-- After any calls and rounds, with the children ending at any time, a round that starts
    when a managed child has ended returns, the exit callback has run for the child, and the
    child is no longer managed iff no call had reaped it before the round. -/
theorem forgotten_iff (hp : 0 < pid) {s₀ : Pm (Kernel σ)} (h : Registered pid s₀)
    (calls : List (Call × List (List Move))) (moves : List (List Move))
    (hmanaged : ((runFrom (take base) s₀ calls).mgr.lookup pid).isSome = true)
    (hended : (runFrom (take base) s₀ calls).os.Ended pid) :
    let s := runFrom (take base) s₀ calls
    Ends (monitoringTick (kernelOs base)) { s with os := s.os.during moves } fun r s' => r = .ok () ∧
      Told pid s'.mgr ∧ (s'.mgr.lookup pid = none ↔ ¬s.os.Reaped pid) := by
  have hs : Attended pid (runFrom (take base) s₀ calls).mgr :=
    runFrom_invariant (I := fun s : Pm (Kernel σ) => Attended pid s.mgr) (fun _ c hs => take_attended base hs c) h.attended calls
  generalize runFrom (take base) s₀ calls = s at *
  cases hl : s.os.procs pid with
  | none =>
    have hchild := hended.1
    rw [hl] at hchild
    cases hchild
  | some l =>
    cases l with
    | running => exact absurd hl hended.2
    | zombie e =>
      have hnot : ¬s.os.Reaped pid := by
        rintro ⟨e', taken, hl'⟩
        cases hl.symm.trans hl'
      refine Ends.mono (monitoringTick_ends base (s := { s with os := s.os.during moves }) hs hmanaged (K := fun k => k.Zombie pid)
        (fun _ => Kernel.zombie_kept) (fun _ => determineProcessStatus_zombie base) ⟨e, hl⟩ (by decide)) ?_
      rintro r s' ⟨hr, htold, hlookup⟩
      exact ⟨hr, htold, by simp [hlookup, hnot]⟩
    | reaped e taken =>
      have hreaped : s.os.Reaped pid := ⟨e, taken, hl⟩
      refine Ends.mono (monitoringTick_ends base (s := { s with os := s.os.during moves }) hs hmanaged (K := fun k => k.Reaped pid)
        (fun _ => Kernel.reaped_kept) (fun _ => determineProcessStatus_reaped base hp) hreaped (by decide)) ?_
      rintro r s' ⟨hr, htold, hlookup⟩
      exact ⟨hr, htold, by simp [hlookup, hreaped]⟩

theorem registered_registered : Registered 100 Race.registered :=
  ⟨by decide, rfl, ⟨_, rfl, rfl⟩, [], rfl, nofun⟩

/-- Process 100 ends while someone asks for it; the next rounds keep it. -/
theorem a_queried_child_is_not_forgotten :
    let s := runFrom (take plainOs) Race.registered [(.isProcessRunning 100, [[.exit 100 (.code 0)]])]
    s.os.procs 100 = some (.reaped (.code 0) false) ∧ (s.mgr.lookup 100).isSome = true ∧
      ((take plainOs s (.monitoringTick, [])).mgr.lookup 100).map (·.status) = some .unknown ∧
      ((runFrom (take plainOs) s [(.monitoringTick, []), (.monitoringTick, [])]).mgr.lookup 100).isSome = true := by
  decide +kernel

/-- It ends while someone asks for process 200. -/
theorem forgotten_iff_unasked :
    let s := runFrom (take plainOs) Race.registered [(.getProcessStatus 200, [[.exit 100 (.code 0)]])]
    Ends (monitoringTick (kernelOs plainOs)) { s with os := s.os.during [] } fun _ s' =>
      Told 100 s'.mgr ∧ s'.mgr.lookup 100 = none := by
  intro s
  have hended : (runFrom (take plainOs) Race.registered [(.getProcessStatus 200, [[.exit 100 (.code 0)]])]).os.procs 100 =
      some (.zombie (.code 0)) := by decide +kernel
  refine Ends.mono (forgotten_iff plainOs (by decide) registered_registered
    [(.getProcessStatus 200, [[.exit 100 (.code 0)]])] [] (by decide +kernel) ?_) ?_
  · rw [Kernel.Ended, Kernel.Running, hended]
    decide
  · rintro r s ⟨-, htold, hlookup⟩
    exact ⟨htold, hlookup.mpr (by decide +kernel)⟩

end ProcessManager

end DockerCpp.Runtime
