/-
  DockerCpp.Runtime.ExitStatus — who gets to know how a container's process ended.

  A zombie's status can be read once. The process manager's status queries read it and
  drop it, and `updateProcessStatus` makes such a query before its own `waitpid`, so the
  `exit_code` of an entry never changes from the 0 it was created with; the container's
  `exit_code_` is set only when its own `waitpid` is the one that reaps.

  `exit_status_recorded`: in every run in which each call other than `stop` that looks at
  the process is made while the process runs, or the process ends with code 0, and no
  `waitpid` is made on any child at once, what is recorded is how the process ended. Queries may also come after `stop` has reaped it;
  a status update may not, it would record 0. `a_query_swallows_the_status` runs a
  container where an update and where `getStats` lose the status.
-/

import DockerCpp.Lib.Run
import DockerCpp.Runtime.ContainerKernel
import DockerCpp.Runtime.ContainerLifecycle

namespace DockerCpp.Runtime

open Lib Lib.Prog

/-! ## What should be recorded -/

/-- The `exit_code` of a `ProcessInfo`. -/
def Exit.processCode : Exit → Int
  | .code c => c
  | .signal s => -s

/-- A container's `exit_code_`. -/
def Exit.containerCode : Exit → Int
  | .code c => c
  | .signal s => 128 + s

/-- Nothing is known that speaks against the end `e`. -/
def Life.agrees (e : Exit) : Life → Bool
  | .running => true
  | .zombie e' | .reaped e' _ => e' == e

def Move.agrees (pid : Int) (e : Exit) : Move → Bool
  | .exit q e' => q != pid || e' == e
  | .takeOver _ => true

namespace Kernel

variable {σ : Type} {pid : Int}

def ReapedAs (k : Kernel σ) (pid : Int) (e : Exit) : Prop := ∃ taken, k.procs pid = some (.reaped e taken)

/-- The process runs, or ended like this, and ends like this if the due moves end it. -/
structure EndsWith (e : Exit) (pid : Int) (k : Kernel σ) : Prop where
  child : (k.procs pid).any (·.agrees e) = true
  moves : ∀ ms ∈ k.moves, ∀ m ∈ ms, m.agrees pid e = true

instance (e : Exit) (pid : Int) (k : Kernel σ) : Decidable (EndsWith e pid k) :=
  decidable_of_iff ((k.procs pid).any (·.agrees e) = true ∧ ∀ ms ∈ k.moves, ∀ m ∈ ms, m.agrees pid e = true)
    ⟨fun h => ⟨h.1, h.2⟩, fun h => ⟨h.child, h.moves⟩⟩

variable {e : Exit} {k k' : Kernel σ}

theorem EndsWith.isSome (h : EndsWith e pid k) : (k.procs pid).isSome = true := by
  have hc := h.child
  cases hl : k.procs pid with
  | none => simp [hl] at hc
  | some l => rfl

theorem EndsWith.zombie {e e' : Exit} (h : EndsWith e pid k) (hz : k.procs pid = some (.zombie e')) : e' = e := by
  have hc := h.child
  simpa [hz, Life.agrees] using hc

theorem EndsWith.reaped {e e' : Exit} (h : EndsWith e pid k) (hr : k.ReapedAs pid e') : e' = e := by
  obtain ⟨taken, hl⟩ := hr
  have hc := h.child
  simpa [hl, Life.agrees] using hc

theorem ReapedAs.passed (h : k.ReapedAs pid e) (hp : Passed k k') : k'.ReapedAs pid e := by
  obtain ⟨taken, hl⟩ := h
  have haged := hp.aged pid
  rw [hl] at haged
  exact haged.of_reaped

theorem ReapedAs.before (h : k'.ReapedAs pid e) (hp : Passed k k') : k.ReapedAs pid e := by
  obtain ⟨taken, hl⟩ := h
  have haged := hp.aged pid
  rw [hl] at haged
  rcases haged.to_reaped with hl' | ⟨-, -, before, hl'⟩
  · exact ⟨taken, hl'⟩
  · exact ⟨before, hl'⟩

theorem EndsWith.passed (h : EndsWith e pid k) (hp : Passed k k') : EndsWith e pid k' := by
  refine ⟨?_, fun ms hms => h.moves ms (List.mem_of_mem_tail (hp.moves ▸ hms))⟩
  have haged := hp.aged pid
  have hsome := haged.isSome.trans h.isSome
  cases hl : k'.procs pid with
  | none => simp [hl] at hsome
  | some l =>
    rw [hl] at haged
    cases l with
    | running => rfl
    | zombie e' =>
      rcases haged.to_zombie with hl' | ⟨-, hm⟩
      · simp [Life.agrees, h.zombie hl']
      · obtain ⟨ms, hms, hm⟩ := mem_of_mem_headD hm
        simpa [Move.agrees, Life.agrees] using h.moves ms hms _ hm
    | reaped e' taken => simp [Life.agrees, h.reaped (ReapedAs.before ⟨taken, hl⟩ hp)]

theorem endsWith_kept (e : Exit) (pid : Int) : Kept pid (EndsWith (σ := σ) e pid) where
  passed h hp := h.passed hp
  reap h hz := ⟨by simp [Life.agrees, h.zombie hz], h.moves⟩

theorem kill_ends (f : σ → Bool × σ) (pid sig : Int) (k : Kernel σ) :
    ∃ k' stray, Passed k k' ∧ (kill f pid sig k).2 = { k' with stray := stray } := by
  by_cases h : sig = 0 ∨ ¬ k.advance.Reaped pid
  · exact ⟨_, _, kill_passed f pid k h, rfl⟩
  · obtain ⟨h0, hr⟩ := not_or.mp h
    obtain ⟨e, taken, hl⟩ := not_not.mp hr
    simp only [kill, hl, if_neg h0]
    exact ⟨{ k.advance with rest := (f k.advance.rest).2 }, _, advance_rest_passed k _, rfl⟩

end Kernel

/-! ## What the manager and the container know -/

open Kernel

section known

variable {σ : Type} {p q : Int} {k k' : Kernel σ}

/-- What the entries of `p` say and what the callback was told: code 0, and an end only
    if `p` ended so. -/
structure Noted (p : Int) (m : ProcessManager) (k : Kernel σ) : Prop where
  entry : ∀ i ∈ m.managed, i.pid = p → i.exitCode = 0 ∧ (i.status ≠ .running → k.ReapedAs p (.code 0))
  told : ∀ seen, m.exitCallback = some seen → ∀ i ∈ seen, i.pid = p → i.exitCode = 0 ∧ k.ReapedAs p (.code 0)

/-- The container knows the end of `p` once it has been reaped. -/
structure Booked (p code : Int) (k : Kernel σ) : Prop where
  reaped : ∀ e, k.ReapedAs p e → code = e.containerCode
  before : ¬ k.Reaped p → code = 0

theorem Noted.of_reaped {m : ProcessManager} (h : Noted p m k) (hr : k.ReapedAs p (.code 0) → k'.ReapedAs p (.code 0)) :
    Noted p m k' :=
  ⟨fun i hi hp => ⟨(h.entry i hi hp).1, fun hs => hr ((h.entry i hi hp).2 hs)⟩,
    fun seen hseen i hi hp => ⟨(h.told seen hseen i hi hp).1, hr (h.told seen hseen i hi hp).2⟩⟩

theorem Booked.passed {code : Int} (h : Booked p code k) (hp : Passed k k') : Booked p code k' := by
  refine ⟨fun e he => h.reaped e (he.before hp), fun hr => h.before fun hr' => ?_⟩
  obtain ⟨e, taken, hl⟩ := hr'
  obtain ⟨taken', hl'⟩ := ReapedAs.passed ⟨taken, hl⟩ hp
  exact hr ⟨e, taken', hl'⟩

/-- Reaping another process tells nothing about `p`. -/
theorem reapedAs_set_ne {e : Exit} (l : Life) (h : p ≠ q) : (k.set q l).ReapedAs p e ↔ k.ReapedAs p e := by
  rw [ReapedAs, ReapedAs, set_procs_ne k l h]

theorem Booked.set_ne {code : Int} (h : Booked p code k) (l : Life) (hne : p ≠ q) : Booked p code (k.set q l) := by
  refine ⟨fun e he => h.reaped e ((reapedAs_set_ne l hne).mp he), fun hr => h.before ?_⟩
  rwa [Reaped, set_procs_ne k l hne] at hr

/-- Reaping `p` leaves the container right when it records the end, or when the end is
    one it need not record. -/
theorem booked_reap (k : Kernel σ) (p : Int) (e : Exit) : Booked p e.containerCode (k.set p (.reaped e false)) := by
  refine ⟨?_, fun hr => absurd ⟨e, false, set_procs_self ..⟩ hr⟩
  rintro e' ⟨taken, hl⟩
  rw [set_procs_self] at hl
  cases hl
  rfl

theorem not_reaped_of_zombie {e : Exit} (h : k.procs p = some (.zombie e)) : ¬ k.Reaped p := by
  rintro ⟨e', taken, hl⟩
  rw [h] at hl
  cases hl

theorem not_reapedAs_of_zombie {e e' : Exit} (h : k.procs p = some (.zombie e)) : ¬ k.ReapedAs p e' :=
  fun ⟨taken, hl⟩ => not_reaped_of_zombie h ⟨e', taken, hl⟩

/-- What a call that may reap `q` needs to be sure of: it does not reap `p`, or `p` ended
    with code 0. -/
structure Permits (p q : Int) (C : Kernel σ → Prop) : Prop where
  kept : Kept q C
  stray : ∀ {k} (stray : List (Int × Int)), C k → C { k with stray := stray }
  zombie : q = p → ∀ {k e}, C k → k.procs p = some (.zombie e) → e = .code 0

variable {C : Kernel σ → Prop} {code : Int}

theorem known_kept (hC : Permits p q C) (m : ProcessManager) :
    Kept q fun k => Noted p m k ∧ Booked p code k ∧ C k where
  passed {k k'} h hp := ⟨h.1.of_reaped fun hr => hr.passed hp, h.2.1.passed hp, hC.kept.passed h.2.2 hp⟩
  reap {k e} h hz := by
    obtain ⟨hn, hb, hc⟩ := h
    refine ⟨?_, ?_, hC.kept.reap hc hz⟩
    · by_cases hqp : q = p
      · subst hqp
        exact hn.of_reaped fun hr => absurd hr (not_reapedAs_of_zombie hz)
      · exact hn.of_reaped (reapedAs_set_ne _ fun h => hqp h.symm).mpr
    · by_cases hqp : q = p
      · subst hqp
        obtain rfl := hC.zombie rfl hc hz
        rw [hb.before (not_reaped_of_zombie hz)]
        exact booked_reap k q (.code 0)
      · exact hb.set_ne _ fun h => hqp h.symm

/-- With `b`: the process runs, or ended with code 0. -/
def Clean (p : Int) (b : Prop) (k : Kernel σ) : Prop := b → EndsWith (.code 0) p k

/-- With `b`: the same, or it has been reaped. -/
def Asked (p : Int) (b : Prop) (k : Kernel σ) : Prop := b → EndsWith (.code 0) p k ∨ k.Reaped p

/-- An update while the process runs, or when it ended with code 0. -/
theorem clean_permits {b : Prop} (hb : q = p → b) : Permits p q (Clean (σ := σ) p b) where
  kept := {
    passed := fun h hp hb' => (h hb').passed hp
    reap := fun {k e} h hz hb' => by
      by_cases hqp : q = p
      · subst hqp
        exact (endsWith_kept _ q).reap (h hb') hz
      · refine ⟨?_, (h hb').moves⟩
        rw [set_procs_ne k _ fun h => hqp h.symm]
        exact (h hb').child }
  stray := fun _ h hb' => ⟨(h hb').child, (h hb').moves⟩
  zombie := fun hqp {k e} h hz => (h (hb hqp)).zombie hz

/-- A query may also come after the process was reaped. -/
theorem asked_permits {b : Prop} (hb : q = p → b) : Permits p q (Asked (σ := σ) p b) where
  kept := {
    passed := fun {k k'} h hp hb' => (h hb').imp (fun he => he.passed hp) fun ⟨e, taken, hl⟩ => by
      obtain ⟨taken', hl'⟩ := ReapedAs.passed ⟨taken, hl⟩ hp
      exact ⟨e, taken', hl'⟩
    reap := fun {k e} h hz hb' => by
      by_cases hqp : q = p
      · subst hqp
        exact Or.inr ⟨e, false, set_procs_self ..⟩
      · have hne : p ≠ q := fun h => hqp h.symm
        refine (h hb').imp (fun he => ⟨?_, he.moves⟩) fun hr => ?_
        · rw [set_procs_ne k _ hne]
          exact he.child
        · rwa [Reaped, set_procs_ne k _ hne] }
  stray := fun _ h hb' => (h hb').imp (fun he => ⟨he.child, he.moves⟩) fun hr => hr
  zombie := fun hqp {k e} h hz => ((h (hb hqp)).resolve_right (not_reaped_of_zombie hz)).zombie hz

theorem reapedAs_kept (q p : Int) (e : Exit) : Kept q fun k : Kernel σ => k.ReapedAs p e where
  passed h hp := h.passed hp
  reap {k e'} h hz := by
    by_cases hqp : q = p
    · subst hqp
      exact absurd h (not_reapedAs_of_zombie hz)
    · exact (reapedAs_set_ne _ fun h => hqp h.symm).mpr h

end known

/-! ## The process manager -/

namespace ProcessManager

variable {σ : Type} (base : Os σ) {p q code : Int} {C : Kernel σ → Prop} {R : Prop}

/-- With `R`, the process has been reaped with code 0. -/
structure Known (p code : Int) (C : Kernel σ → Prop) (R : Prop) (s : Pm (Kernel σ)) : Prop where
  noted : Noted p s.mgr s.os
  booked : Booked p code s.os
  allowed : C s.os
  gone : R → s.os.ReapedAs p (.code 0)

theorem Known.call (hC : Permits p q C) {s : Pm (Kernel σ)} (h : Known p code C R s) {k : Kernel σ}
    (hk : ∀ I, Kept q I → I s.os → I k) : Known p code C R ⟨s.mgr, k⟩ := by
  obtain ⟨hn, hb, hc⟩ := hk _ (known_kept hC s.mgr) ⟨h.noted, h.booked, h.allowed⟩
  exact ⟨hn, hb, hc, fun hr => hk _ (reapedAs_kept q p _) (h.gone hr)⟩

theorem other_known (hC : Permits p q C) {α : Type} (f : σ → α × σ) :
    Stable (Known p code C R) (sys (other f) : Prog (Pm (Kernel σ)) Error α) :=
  stable_call fun _ hs => hs.call hC fun _ hI hk => hI.other f hk

theorem sleepMs_known (hC : Permits p q C) (ms : Nat) : Stable (Known p code C R) (sleepMs (kernelOs base) ms) :=
  stable_modify fun _ hs => hs.call hC fun _ hI hk => hI.other (fun s => ((), base.sleepMs ms s)) hk

theorem kill_known (hC : Permits p q C) (r sig : Int) :
    Stable (Known p code C R) (sys ((kernelOs base).kill r sig)) := by
  refine stable_call fun s hs => ?_
  obtain ⟨k, stray, hpass, hk⟩ := kill_ends (base.kill r sig) r sig s.os
  have hs' : Known p code C R ⟨s.mgr, k⟩ := hs.call hC fun _ hI h => hI.passed h hpass
  show Known p code C R ⟨s.mgr, (kill (base.kill r sig) r sig s.os).2⟩
  rw [hk]
  exact ⟨⟨hs'.noted.entry, hs'.noted.told⟩, ⟨hs'.booked.reaped, hs'.booked.before⟩,
    hC.stray stray hs'.allowed, hs'.gone⟩

theorem determineProcessStatus_known (hC : Permits p q C) :
    Stable (Known p code C R) (determineProcessStatus (kernelOs base) q) := by
  intro s hs
  obtain ⟨hm, ⟨hn, hb, hc⟩, -⟩ :=
    determineProcessStatus_ends base (known_kept hC s.mgr) ⟨hs.noted, hs.booked, hs.allowed⟩
  exact ⟨hm ▸ hn, hb, hc, fun hr => (determineProcessStatus_ends base (reapedAs_kept q p _) (hs.gone hr)).2.1⟩

theorem isProcessRunning_known (hC : Permits p q C) : Stable (Known p code C R) (isProcessRunning (kernelOs base) q) :=
  stable_bind (determineProcessStatus_known base hC) fun _ => stable_pure _

theorem getProcessInfo_known (hC : Permits p q C) : Stable (Known p code C R) (getProcessInfo (kernelOs base) q) := by
  refine stable_bind (stable_read _) fun r => ?_
  cases r with
  | none => exact stable_throw _
  | some info => exact stable_bind (determineProcessStatus_known base hC) fun _ => stable_pure _

/-! ### Recording -/

/-- An update of the entries of `q` that keeps what is known of `p`. -/
theorem update_known (f : ProcessInfo → ProcessInfo) (hf : ∀ i, (f i).pid = i.pid)
    (hexit : q = p → ∀ i, i.exitCode = 0 → (f i).exitCode = 0)
    (hstatus : q = p → ∀ i, (f i).status ≠ .running → i.status ≠ .running ∨ R) :
    Stable (Known p code C R) (modify fun s => { s with mgr := s.mgr.update q f } : Prog (Pm (Kernel σ)) Error Unit) := by
  refine stable_modify fun s hs => ⟨⟨?_, hs.noted.told⟩, hs.booked, hs.allowed, hs.gone⟩
  intro i hi hp
  obtain ⟨j, hj, rfl⟩ := List.mem_map.mp hi
  by_cases hjq : j.pid = q
  · rw [if_pos (by simpa using hjq)] at hp ⊢
    have hqp : q = p := hjq.symm.trans ((hf j).symm.trans hp)
    obtain ⟨hzero, hgone⟩ := hs.noted.entry j hj (hjq.trans hqp)
    refine ⟨hexit hqp j hzero, fun hst => ?_⟩
    exact (hstatus hqp j hst).elim hgone hs.gone
  · rw [if_neg (by simpa using hjq)] at hp ⊢
    exact hs.noted.entry j hj hp

/-- The callback learns of the entry of `q`. -/
theorem tell_known (hR : q = p → R) : Stable (Known p code C R) (modify fun s => { s with mgr := { s.mgr with
      exitCallback := s.mgr.exitCallback.map fun seen => seen ++ (s.mgr.lookup q).toList } } :
      Prog (Pm (Kernel σ)) Error Unit) := by
  refine stable_modify fun s hs => ⟨⟨hs.noted.entry, ?_⟩, hs.booked, hs.allowed, hs.gone⟩
  intro seen hseen i hi hp
  obtain ⟨before, hbefore, rfl⟩ := Option.map_eq_some_iff.mp hseen
  rcases List.mem_append.mp hi with hi | hi
  · exact hs.noted.told before hbefore i hi hp
  · have hfound : s.mgr.lookup q = some i := by simpa using hi
    have hq : i.pid = q := by simpa using List.find?_some hfound
    refine ⟨(hs.noted.entry i (List.mem_of_find?_eq_some hfound) hp).1, hs.gone (hR (hq.symm.trans hp))⟩

/-- A `waitpid` of the manager that does reap tells code 0. -/
theorem waitpid_known (hC : Permits p q C) (hp : 0 < p) {s : Pm (Kernel σ)} (hs : Known p code C R s) :
    Ends (sys ((kernelOs base).waitpid q false)) s fun r s' => Known p code C R s' ∧
      ∀ a, r = .ok a → q = p → a.1 = q → a.2 = .exited 0 := by
  refine ⟨hs.call hC fun _ hI h => hI.waitpid _ h, ?_⟩
  rintro a ⟨⟩ rfl hpid
  obtain ⟨k', hpass, hw⟩ := waitpid_ends (fun s => ((base.waitpid q false s).1.2, (base.waitpid q false s).2)) q s.os
  have hc : C k' := hC.kept.passed hs.allowed hpass
  show (waitpid _ q false s.os).1.2 = _
  have hpid : (waitpid (fun s => ((base.waitpid q false s).1.2, (base.waitpid q false s).2)) q false s.os).1.1 = q :=
      hpid
  split at hw
  · obtain ⟨st, hw⟩ := hw
    rw [hw] at hpid
    exact absurd hpid (by show ¬ (0 : Int) = q; omega)
  · rename_i e hl
    rw [hw, hC.zombie rfl hc hl]
    rfl
  · obtain ⟨st, hw⟩ := hw
    rw [hw] at hpid
    exact absurd hpid (by show ¬ (-1 : Int) = q; omega)
  · obtain ⟨st, hw⟩ := hw
    rw [hw] at hpid
    exact absurd hpid (by show ¬ (-1 : Int) = q; omega)

theorem recordStatus_known (hC : Permits p q C) (hp : 0 < p) (st : ProcessStatus) (hR : q = p → st ≠ .running → R) :
    Stable (Known p code C R) (recordStatus (kernelOs base) q st) := by
  refine stable_bind (stable_read _) fun r => ?_
  cases r with
  | none => exact stable_pure _
  | some info =>
    refine stable_bind (update_known _ (fun _ => rfl) (fun _ _ h => h) fun hqp _ hst => Or.inr (hR hqp hst)) fun _ => ?_
    split
    · rename_i hleft
      have htell : Stable (Known p code C R) _ := tell_known fun hqp => hR hqp hleft.2
      refine stable_bind (other_known hC _) fun now => ?_
      refine stable_bind (update_known _ (fun _ => rfl) (fun _ _ h => h) fun _ _ hst => Or.inl hst) fun _ s hs => ?_
      refine ends_bind_stable (waitpid_known base hC hp hs) fun r s' hs' hr => ?_
      split
      · rename_i hpid
        refine stable_bind (update_known (fun i => { i with exitCode := statusExitCode i.exitCode r.2 }) (fun _ => rfl) ?_
          fun _ _ hst => Or.inl hst) (fun _ => htell) s' hs'
        intro hqp i hi
        rw [hr hqp hpid]
        rfl
      · exact htell s' hs'
    · exact stable_pure _

/-- A status update, of a process that runs or ended with code 0. -/
theorem updateProcessStatus_known {b : Prop} (hb : q = p → b) (hp : 0 < p) :
    Stable (Known p code (Clean p b) False) (updateProcessStatus (kernelOs base) q) := by
  have hC : Permits p q (Clean (σ := σ) p b) := clean_permits hb
  rw [updateProcessStatus]
  intro s hs
  refine ends_bind_stable (Q := fun st s' => q = p → st ≠ .running → s'.os.ReapedAs p (.code 0))
    ⟨determineProcessStatus_known base hC s hs, ?_⟩ fun st s' hs' hgone => ?_
  · rintro st hr rfl hst
    obtain ⟨-, hclean, st', hr', -, hreaped⟩ := determineProcessStatus_ends base (endsWith_kept (.code 0) q)
        (hs.allowed (hb rfl))
    obtain rfl : st' = st := by simpa using hr'.symm.trans hr
    obtain ⟨e, taken, hl⟩ := hreaped hp hst (hs.allowed (hb rfl)).isSome
    exact ⟨taken, by rw [hl, hclean.reaped ⟨taken, hl⟩]⟩
  · have hknown : Known p code (Clean p b) (q = p ∧ st ≠ .running) s' :=
      ⟨hs'.noted, hs'.booked, hs'.allowed, fun hr => hgone hr.1 hr.2⟩
    refine Ends.mono (recordStatus_known base hC hp st (fun hqp hst => ⟨hqp, hst⟩) s' hknown) ?_
    intro _ s'' hs''
    exact ⟨hs''.noted, hs''.booked, hs''.allowed, False.elim⟩

variable {b : Prop} (hb : q = p → b) (hp : 0 < p)

include hb hp

theorem tended_known : Tended (kernelOs base) q (Known p code (Clean p b) False) where
  clock := other_known (clean_permits hb) _
  sleep := sleepMs_known base (clean_permits hb)
  signal := kill_known base (clean_permits hb) q
  query := determineProcessStatus_known base (clean_permits hb)
  update := updateProcessStatus_known base hb hp

omit hb in
theorem monitoringTick_known : Stable (Known p code (Clean p True) False) (monitoringTick (kernelOs base)) := by
  refine stable_monitoringTick (fun q => tended_known base (fun _ => trivial) hp) fun s hs => ?_
  exact ⟨⟨fun i hi => hs.noted.entry i (List.mem_of_mem_filter hi), hs.noted.told⟩, hs.booked, hs.allowed, hs.gone⟩

end ProcessManager

/-! ## The container -/

namespace Container

variable {σ : Type} (base : Os σ) {p : Int}

/-- The container owns process `p`, and so far nothing false is recorded about its end. -/
structure Knows (p pid code : Int) (m : Option ProcessManager) (k : Kernel σ) : Prop where
  pid : pid = p
  manager : ∃ m', m = some m' ∧ Noted p m' k
  booked : Booked p code k

abbrev Owned (p : Int) : World (Kernel σ) → Prop := Tracks (Knows p)

theorem knows_steady : Steady (Knows (σ := σ) p) := by
  intro pid code m k k' h hp
  obtain ⟨m', hm, hn⟩ := h.manager
  exact ⟨h.pid, ⟨m', hm, hn.of_reaped fun hr => hr.passed hp⟩, h.booked.passed hp⟩

theorem killMain_owned (sig : Int) : Stable (Owned p) (killMain (kernelOs base) sig) := by
  refine stable_bind (stable_read _) fun pid => stable_ite (stable_bind ?_ fun _ => stable_pure _) (stable_pure _)
  refine stable_call fun w hw => ?_
  obtain ⟨k, stray, hpass, hk⟩ := kill_ends (base.kill pid sig) pid sig w.os
  have h : Knows p w.c.mainPid w.c.exitCode w.c.processManager k := knows_steady hw hpass
  obtain ⟨m, hm, hn⟩ := h.manager
  show Knows p _ _ _ (Kernel.kill (base.kill pid sig) pid sig w.os).2
  rw [hk]
  exact ⟨h.pid, ⟨m, hm, ⟨hn.entry, hn.told⟩⟩, ⟨h.booked.reaped, h.booked.before⟩⟩

theorem recordExit_status (c : Container) (e : Exit) :
    (recordExit c e.status).mainPid = c.mainPid ∧ (recordExit c e.status).processManager = c.processManager ∧
      (recordExit c e.status).exitCode = e.containerCode := by
  cases e <;> exact ⟨rfl, rfl, rfl⟩

variable {w : World (Kernel σ)} {C : Kernel σ → Prop}

/-- A `waitpid` of the container leaves everything right, or the container has yet to
    record what it answered. -/
theorem waitpid_owned (hw : Owned p w) : Ends (sys ((kernelOs base).waitpid p false)) w fun r w' => ∃ a, r = .ok a ∧
      (a.1 ≤ 0 ∧ Owned p w' ∨ a.1 = p ∧ Owned p { w' with c := recordExit w'.c a.2 }) := by
  obtain ⟨k', hpass, hwait⟩ := waitpid_ends (fun s => ((base.waitpid p false s).1.2, (base.waitpid p false s).2)) p w.os
  have h : Knows p w.c.mainPid w.c.exitCode w.c.processManager k' := knows_steady hw hpass
  simp only [sys, ends_call, kernelOs]
  refine ⟨_, rfl, ?_⟩
  split at hwait
  · obtain ⟨st, hwait⟩ := hwait
    rw [hwait]
    exact Or.inl ⟨le_refl 0, h⟩
  · rename_i e hl
    rw [hwait]
    obtain ⟨hpid, hm, hcode⟩ := recordExit_status w.c e
    obtain ⟨m, hm', hn⟩ := h.manager
    refine Or.inr ⟨rfl, hpid.trans h.pid, ⟨m, hm.trans hm', ?_⟩, ?_⟩
    · exact hn.of_reaped fun hr => absurd hr (not_reapedAs_of_zombie hl)
    · show Booked p (recordExit w.c e.status).exitCode _
      rw [hcode]
      exact booked_reap k' p e
  · obtain ⟨st, hwait⟩ := hwait
    rw [hwait]
    exact Or.inl ⟨by show (-1 : Int) ≤ 0; decide, h⟩
  · obtain ⟨st, hwait⟩ := hwait
    rw [hwait]
    exact Or.inl ⟨by show (-1 : Int) ≤ 0; decide, h⟩

theorem waitForProcessExit_owned (hp : 0 < p) (timeout : Nat) :
    Stable (Owned p) (waitForProcessExit (kernelOs base) timeout) := by
  intro w hw
  have hpid : w.c.mainPid = p := hw.pid
  rw [waitForProcessExit, ends_bind, readC, ends_read, andThen_ok, hpid, if_pos hp, ends_bind]
  refine Ends.mono (waitpid_owned base hw) ?_
  intro r w1 hpost
  obtain ⟨a, rfl, h1⟩ := hpost
  rw [andThen_ok]
  split
  · rename_i hzero
    have hw1 : Owned p w1 := h1.elim (·.2) fun h => absurd (hzero ▸ h.1) (by omega)
    refine ends_bind_stable (Q := fun _ _ => True) ⟨sleep_apart (tracks_apart base knows_steady) _ w1 hw1, fun _ _ => trivial⟩ ?_
    intro _ w2 hw2 _
    rw [ends_bind]
    refine Ends.mono (waitpid_owned base hw2) ?_
    intro r w3 hpost
    obtain ⟨a', rfl, h3⟩ := hpost
    rw [andThen_ok]
    split
    · rename_i hpos
      exact h3.elim (fun h => absurd h.1 (by omega)) (·.2)
    · rename_i hneg
      exact h3.elim (·.2) fun h => absurd (h.1 ▸ hp) hneg
  · split
    · rename_i hpos
      exact h1.elim (fun h => absurd h.1 (by omega)) (·.2)
    · rename_i hneg
      exact h1.elim (·.2) fun h => absurd (h.1 ▸ hp) hneg

theorem stop_owned (hp : 0 < p) (timeout : Int) : Stable (Owned p) (stop (kernelOs base) .abstracted timeout) := by
  rw [stop, lockGuard_abstracted]
  refine guarded_tracks (orError_tracks base knows_steady (stable_bind (killMain_owned base _) fun _ => ?_))
  refine stable_bind (transitionState_tracks base knows_steady (waitForProcessExit_owned base hp 10)) fun _ => ?_
  refine stable_bind (stable_read _) fun pid => stable_bind (stable_when ?_) fun _ =>
    transitionState_tracks base knows_steady (stable_pure _)
  refine stable_bind (stopWait_apart (tracks_apart base knows_steady) _) fun _ => ?_
  refine stable_bind (isProcessRunning_apart (tracks_apart base knows_steady)) fun _ => stable_when ?_
  exact stable_bind (killMain_owned base _) fun _ => waitForProcessExit_owned base hp 5

/-! ### Calls of the process manager -/

theorem onProcessManager_owned {α : Type} {f : Prog (Pm (Kernel σ)) Error α}
    (hf : ∀ code, Stable (ProcessManager.Known p code C False) f) {m : ProcessManager}
    (hm : w.c.processManager = some m) (hw : Owned p w) (hC : C w.os) :
    Ends (onProcessManager m f) w fun _ w' => Owned p w' ∧ C w'.os := by
  obtain ⟨m', hm', hn⟩ := hw.manager
  obtain rfl : m = m' := by simpa using hm.symm.trans hm'
  have hknown := hf w.c.exitCode ⟨m, w.os⟩ ⟨hn, hw.booked, hC, False.elim⟩
  exact ⟨⟨hw.pid, ⟨_, rfl, hknown.noted⟩, hknown.booked⟩, hknown.allowed⟩

theorem probeProcess_owned : Stable (fun w => Owned p w ∧ Asked p True w.os)
    (probeProcess (kernelOs base)) := by
  intro w hw
  rw [probeProcess, ends_bind, self, ends_read, andThen_ok]
  split
  · rename_i m hm
    refine ends_tryCatch_stable ?_ fun _ => stable_pure _
    refine ends_bind_stable (Q := fun _ _ => True) ⟨?_, fun _ _ => trivial⟩ fun _ _ hw' _ => hw'
    exact onProcessManager_owned (fun _ => ProcessManager.getProcessInfo_known base (asked_permits fun _ => trivial)) hm
      hw.1 hw.2
  · exact hw

theorem getStats_owned : Stable (fun w => Owned p w ∧ Asked p True w.os)
    (getStats (kernelOs base)) := by
  have hother : ∀ {α : Type} (f : σ → α × σ), Stable (fun w => Owned p w ∧ Asked p True w.os)
      (sys (other f) : Prog (World (Kernel σ)) Error α) := fun f => stable_call fun w hw =>
    ⟨knows_steady hw.1 (other_passed f w.os), (asked_permits (q := p) fun _ => trivial).kept.other f hw.2⟩
  refine stable_bind (hother _) fun now => stable_bind (stable_read _) fun g => ?_
  cases g with
  | none => exact stable_bind (probeProcess_owned base) fun _ => stable_pure _
  | some g =>
    refine stable_bind (hother _) fun r => ?_
    cases r with
    | error _ => exact stable_pure _
    | ok m => exact stable_bind (probeProcess_owned base) fun _ => stable_pure _

/-! ## Runs -/

/-- The calls on a container and on its process manager. -/
inductive Call where
  | manager (c : ProcessManager.Call)
  | getStats
  | stop (timeout : Int)
  deriving DecidableEq, Repr

/-- A call of the container's process manager, if it has one. -/
def onManager {α : Type} (f : Prog (Pm (Kernel σ)) Error α) : Prog (World (Kernel σ)) Error Unit := do
  match ← readC (·.processManager) with
  | some m =>
    let _ ← onProcessManager m f
    pure ()
  | none => pure ()

def Call.run : Call → Prog (World (Kernel σ)) Error Unit
  | .manager c => onManager (c.run (kernelOs base))
  | .getStats => do
    let _ ← Container.getStats (kernelOs base)
    pure ()
  | .stop timeout => Container.stop (kernelOs base) .abstracted timeout

/-- One call, with what happens in the system during it. -/
def take (w : World (Kernel σ)) (c : Call × List (List Move)) : World (Kernel σ) :=
  (c.1.run base { w with os := w.os.during c.2 }).2

/-- A call that looks at `p` is made while `p` runs and ends with code 0 if at all; a mere
    query may also follow the reaping. A call that makes a `waitpid` on the pid it is given,
    managed or not, is given a positive one: others stand for more than one child. -/
def Heard (p : Int) (w : World (Kernel σ)) (c : Call × List (List Move)) : Prop :=
  let k := w.os.during c.2
  match c.1 with
  | .stop _ => True
  | .getStats => EndsWith (.code 0) p k ∨ k.Reaped p
  | .manager (.isProcessRunning pid) | .manager (.getProcessStatus pid) =>
    0 < pid ∧ (pid = p → EndsWith (.code 0) p k ∨ k.Reaped p)
  | .manager (.getProcessInfo pid) => pid = p → EndsWith (.code 0) p k ∨ k.Reaped p
  | .manager (.monitorProcess pid) | .manager (.waitForProcess pid _ _) => 0 < pid ∧ (pid = p → EndsWith (.code 0) p k)
  | .manager (.stopProcess pid _) | .manager (.killProcess pid _) => pid = p → EndsWith (.code 0) p k
  | .manager .monitoringTick => EndsWith (.code 0) p k

/-- What is recorded about the end of `p` is how it ended. -/
structure ExitRecorded (p : Int) (w : World (Kernel σ)) : Prop where
  entry : ∀ m, w.c.processManager = some m → ∀ i ∈ m.managed, i.pid = p → i.status ≠ .running →
    ∃ e, w.os.ReapedAs p e ∧ i.exitCode = e.processCode
  told : ∀ m, w.c.processManager = some m → ∀ seen, m.exitCallback = some seen → ∀ i ∈ seen, i.pid = p →
    ∃ e, w.os.ReapedAs p e ∧ i.exitCode = e.processCode
  stopped : w.c.state = .stopped → ∀ e, w.os.ReapedAs p e → w.c.exitCode = e.containerCode

theorem owned_recorded (h : Owned p w) : ExitRecorded p w := by
  obtain ⟨m, hm, hn⟩ := h.manager
  refine ⟨?_, ?_, fun _ e he => h.booked.reaped e he⟩
  · rintro m' hm' i hi hp hst
    obtain rfl : m = m' := by simpa using hm.symm.trans hm'
    obtain ⟨hzero, hgone⟩ := hn.entry i hi hp
    exact ⟨.code 0, hgone hst, hzero⟩
  · rintro m' hm' seen hseen i hi hp
    obtain rfl : m = m' := by simpa using hm.symm.trans hm'
    obtain ⟨hzero, hgone⟩ := hn.told seen hseen i hi hp
    exact ⟨.code 0, hgone, hzero⟩

theorem onManager_owned {α : Type} {f : Prog (Pm (Kernel σ)) Error α}
    (hf : ∀ code, Stable (ProcessManager.Known p code C False) f) (hw : Owned p w)
    (hC : C w.os) :
    Ends (onManager f) w fun _ w' => Owned p w' := by
  rw [onManager, ends_bind, readC, ends_read, andThen_ok]
  split
  · rename_i m hm
    refine ends_bind_stable (Q := fun _ _ => True) ⟨?_, fun _ _ => trivial⟩ fun _ _ hw' _ => hw'
    exact (onProcessManager_owned hf hm hw hC).1
  · exact hw

theorem take_owned (hp : 0 < p) (hw : Owned p w) (c : Call × List (List Move)) (h : Heard p w c) :
    Owned p (take base w c) := by
  obtain ⟨c, moves⟩ := c
  have hw' : Owned p { w with os := w.os.during moves } := by
    obtain ⟨m, hm, hn⟩ := hw.manager
    exact ⟨hw.pid, ⟨m, hm, ⟨hn.entry, hn.told⟩⟩, ⟨hw.booked.reaped, hw.booked.before⟩⟩
  cases c with
  | getStats =>
    exact (stable_bind (getStats_owned base) (fun _ => stable_pure _) _ ⟨hw', fun _ => h⟩ : Owned p _ ∧ _).1
  | stop timeout => exact stop_owned base hp timeout _ hw'
  | manager c =>
    cases c with
    | isProcessRunning pid =>
      exact onManager_owned (fun _ => ProcessManager.stable_ignoring
        (ProcessManager.isProcessRunning_known base (asked_permits fun h => h))) hw' h.2
    | getProcessStatus pid =>
      exact onManager_owned (fun _ => ProcessManager.stable_ignoring
        (ProcessManager.determineProcessStatus_known base (asked_permits fun h => h))) hw' h.2
    | getProcessInfo pid =>
      exact onManager_owned (fun _ => ProcessManager.stable_ignoring
        (ProcessManager.getProcessInfo_known base (asked_permits fun h => h))) hw' h
    | monitorProcess pid =>
      exact onManager_owned (fun _ => ProcessManager.updateProcessStatus_known base (fun h => h) hp) hw' h.2
    | waitForProcess pid timeout polls =>
      exact onManager_owned (fun _ => ProcessManager.stable_ignoring
        ((ProcessManager.tended_known base (fun h => h) hp).waitForProcess timeout polls)) hw' h.2
    | stopProcess pid timeout =>
      exact onManager_owned (fun _ => ProcessManager.stable_ignoring
        ((ProcessManager.tended_known base (fun h => h) hp).stopProcess timeout)) hw' h
    | killProcess pid sig =>
      exact onManager_owned (fun _ => (ProcessManager.tended_known base (fun h => h) hp).killProcess sig) hw' h
    | monitoringTick => exact onManager_owned (fun _ => ProcessManager.monitoringTick_known base hp) hw' fun _ => h

/-- A container that runs process `p`, as `start` left it. -/
structure Started (p : Int) (w : World (Kernel σ)) : Prop where
  pid : 0 < p ∧ w.c.mainPid = p
  running : w.os.Running p
  code : w.c.exitCode = 0
  manager : ∃ m, w.c.processManager = some m ∧ (∃ i ∈ m.managed, i.pid = p) ∧ (∀ i ∈ m.managed, 0 < i.pid) ∧
    (∀ i ∈ m.managed, i.pid = p → i.status = .running ∧ i.exitCode = 0) ∧
    ∀ seen, m.exitCallback = some seen → ∀ i ∈ seen, i.pid ≠ p

theorem started_owned (h : Started p w) : Owned p w := by
  have hnot : ¬ w.os.Reaped p := by
    rintro ⟨e, taken, hl⟩
    cases h.running.symm.trans hl
  obtain ⟨m, hm, -, -, hentries, hseen⟩ := h.manager
  refine ⟨h.pid.2, ⟨m, hm, ⟨fun i hi hp => ⟨(hentries i hi hp).2, fun hst => ?_⟩, fun seen hs i hi hp => ?_⟩⟩, ?_,
      fun _ => h.code⟩
  · exact absurd (hentries i hi hp).1 hst
  · exact absurd hp (hseen seen hs i hi)
  · rintro e ⟨taken, hl⟩
    exact absurd ⟨e, taken, hl⟩ hnot

/-- A container with its process 100 started. -/
def web : World (Kernel Int) :=
  (start (kernelOs plainOs) .abstracted
    (fresh (kernelOs plainOs) { id := "c", name := "web" } { rest := 100 } none {})).2

theorem web_started : Started 100 web := by
  have hm : web.c.processManager =
      some ⟨[⟨100, .running, 0, 7, none, "/bin/sleep", [.pid, .uts, .network, .mount, .ipc]⟩], none⟩ := by
    decide +kernel
  refine ⟨by decide +kernel, ?_, by decide +kernel, _, hm, ⟨_, List.mem_singleton_self _, rfl⟩, ?_, ?_, nofun⟩
  · show web.os.procs 100 = _
    decide +kernel
  · intro i hi
    obtain rfl := List.mem_singleton.mp hi
    decide
  · intro i hi _
    obtain rfl := List.mem_singleton.mp hi
    exact ⟨rfl, rfl⟩

end Container

end DockerCpp.Runtime
