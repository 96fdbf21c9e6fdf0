/-
  DockerCpp.Runtime.Orphans — what becomes of the processes of a container.

  Every launch makes a new process manager, and the one it replaces is destroyed; so is the
  manager of a container that is removed or destroyed (`container.cpp`). The destructor of a
  process manager asks for each process it manages, and one that still runs after SIGTERM and
  a pause is sent SIGKILL (`process_manager.cpp`). A ledger beside the kernel keeps the pids
  the container's forks got, and those of them that were sent SIGKILL while they ran. Over
  every run of the member functions, whatever the processes do meanwhile, a process of the
  container that runs is managed by the manager the container has now, or has been sent
  SIGKILL; after a `remove` that returned, and after the destructor, it has been sent SIGKILL
  (`no_process_is_left`).
-/

import DockerCpp.Runtime.Beside
import DockerCpp.Runtime.Forgetting
import DockerCpp.Runtime.MemberRules

namespace DockerCpp.Runtime

open Lib Lib.Prog

variable {σ : Type}

structure Ledger where
  children : List Int := []
  killed : List Int := []
  deriving DecidableEq, Repr

/-- A new process has the pid. -/
def Ledger.forked (l : Ledger) (pid : Int) : Ledger := ⟨pid :: l.children, l.killed.filter (· ≠ pid)⟩

def ledgerOs (base : Os σ) : Os (Kernel σ × Ledger) :=
  { (kernelOs base).beside Ledger with
    fork := fun config s =>
      let r := (kernelOs base).fork config s.1
      match r.1 with
      | .ok pid => (.ok pid, r.2, s.2.forked pid)
      | .error text => (.error text, r.2, s.2)
    kill := fun pid sig s =>
      let r := (kernelOs base).kill pid sig s.1
      let sent := sig = sigkill ∧ r.2.procs pid = some .running
      (r.1, r.2, if sent then { s.2 with killed := pid :: s.2.killed } else s.2) }

/-! ## Who runs after a call -/

namespace Kernel

theorem Aged.to_running {ms : List Move} {pid : Int} {l : Option Life} (h : Aged ms pid l (some .running)) :
    l = some .running := by
  cases h
  rfl

variable {k k' : Kernel σ} {pid q : Int}

theorem Passed.running (h : Passed k k') (hr : k'.Running pid) : k.Running pid := by
  have haged := h.aged pid
  rw [hr] at haged
  exact haged.to_running

theorem advance_running (hr : k.advance.Running pid) : k.Running pid := (advance_passed k).running hr

theorem kill_procs (f : σ → Bool × σ) (pid sig : Int) (k : Kernel σ) :
    (kill f pid sig k).2.procs = k.advance.procs := by
  unfold kill
  split
  · rfl
  · rfl
  · dsimp only
    split <;> rfl
  · rfl

theorem kill_running {f : σ → Bool × σ} {sig : Int} (hr : (kill f pid sig k).2.Running q) : k.Running q := by
  rw [Running, kill_procs] at hr
  exact advance_running hr

/-- A `waitpid` starts nothing, and one that blocks does not return while the child runs. -/
theorem waitpid_running {f : σ → WaitStatus × σ} {hang : Bool} (hr : (waitpid f pid hang k).2.Running q) :
    k.advance.Running q ∧ (hang = true → q ≠ pid) := by
  have hset : ∀ e, (k.advance.set pid (.reaped e false)).Running q → k.advance.Running q ∧ q ≠ pid := by
    intro e he
    by_cases hq : q = pid
    · rw [Running, hq, set_procs_self] at he
      cases he
    · rw [Running, set_procs_ne _ _ hq] at he
      exact ⟨he, hq⟩
  unfold waitpid at hr
  split at hr
  · split at hr
    · exact ⟨(hset _ hr).1, fun _ => (hset _ hr).2⟩
    · rename_i hhang
      exact ⟨hr, fun h => absurd h hhang⟩
  · exact ⟨(hset _ hr).1, fun _ => (hset _ hr).2⟩
  · rename_i hl
    refine ⟨hr, fun _ hq => ?_⟩
    have hrunning : k.advance.procs pid = some .running := hq ▸ hr
    rw [hl] at hrunning
    cases hrunning
  · rename_i hl
    refine ⟨hr, fun _ hq => ?_⟩
    have hrunning : k.advance.procs pid = some .running := hq ▸ hr
    rw [hl] at hrunning
    cases hrunning

/-- A `fork` fails and passes, or makes a process with a positive pid. -/
theorem fork_ends (f : σ → Except String Int × σ) (k : Kernel σ) :
    ∃ k', Passed k k' ∧
      ((∃ text, fork f k = (.error text, k')) ∨ ∃ pid, 0 < pid ∧ fork f k = (.ok pid, k'.set pid .running)) := by
  refine ⟨(other f k).2, other_passed f k, ?_⟩
  simp only [fork]
  cases (other f k).1 with
  | error text => exact Or.inl ⟨text, rfl⟩
  | ok pid =>
    by_cases hfree : (other f k).2.isFree pid = true
    · have hpos : 0 < pid := by
        rw [isFree, Bool.and_eq_true, decide_eq_true_eq] at hfree
        exact hfree.1
      exact Or.inr ⟨pid, hpos, by simp only [if_pos hfree]⟩
    · exact Or.inl ⟨"no free pid", by simp only [if_neg hfree]⟩

end Kernel

/-! ## Answering for children -/

/-- A child that runs has been sent SIGKILL or is one of `R`. -/
def Answered (R : Int → Prop) (s : Kernel σ × Ledger) : Prop :=
  ∀ pid ∈ s.2.children, 0 < pid ∧ (s.1.Running pid → pid ∈ s.2.killed ∨ R pid)

namespace Answered

variable {R R' : Int → Prop} {s s' : Kernel σ × Ledger}

theorem weaken (h : Answered R s) (hR : ∀ pid, R pid → R' pid) : Answered R' s := by
  intro pid hpid
  obtain ⟨hpos, hans⟩ := h pid hpid
  exact ⟨hpos, fun hr => (hans hr).imp_right (hR pid)⟩

/-- No call but `fork` makes a process run. -/
theorem later (h : Answered R s) (hchildren : s'.2.children = s.2.children) (hkilled : s.2.killed ⊆ s'.2.killed)
    (hrunning : ∀ pid, s'.1.Running pid → s.1.Running pid) : Answered R s' := by
  intro pid hpid
  rw [hchildren] at hpid
  obtain ⟨hpos, hans⟩ := h pid hpid
  exact ⟨hpos, fun hr => (hans (hrunning pid hr)).imp_left fun hk => hkilled hk⟩

theorem passed (h : Answered R s) {k' : Kernel σ} (hp : Kernel.Passed s.1 k') : Answered R (k', s.2) :=
  h.later rfl (fun _ hk => hk) fun _ hr => hp.running hr

/-- One of `R` that does not run, or has been sent SIGKILL, need not be answered for. -/
theorem without (h : Answered R s) {q : Int} (hq : 0 < q → s.1.Running q → q ∈ s.2.killed) :
    Answered (fun pid => R pid ∧ pid ≠ q) s := by
  intro pid hpid
  obtain ⟨hpos, hans⟩ := h pid hpid
  refine ⟨hpos, fun hr => ?_⟩
  by_cases hpq : pid = q
  · exact Or.inl (hpq ▸ hq (hpq ▸ hpos) (hpq ▸ hr))
  · exact (hans hr).imp_right fun hR => ⟨hR, hpq⟩

end Answered

variable (base : Os σ) {R : Int → Prop}

theorem kill_answered (pid sig : Int) (s : Kernel σ × Ledger) (h : Answered R s) :
    Answered R ((ledgerOs base).kill pid sig s).2 := by
  refine h.later ?_ ?_ fun q hr => Kernel.kill_running hr
  · dsimp only [ledgerOs]
    split <;> rfl
  · dsimp only [ledgerOs]
    split
    · exact fun _ hk => List.mem_cons_of_mem _ hk
    · exact fun _ hk => hk

theorem answered_leaves : (ledgerOs base).Leaves (Answered R) where
  unshare type s h := h.passed (Kernel.other_passed (base.unshare type) s.1)
  cgroup g f s h := h.passed (Kernel.other_passed (base.cgroup g f) s.1)
  pipe s h := h.passed (Kernel.other_passed base.pipe s.1)
  readErrorPipe pid s h := h.passed (Kernel.other_passed (base.readErrorPipe pid) s.1)
  kill pid sig s h := kill_answered base pid sig s h
  waitpid _ _ _ h := h.later rfl (fun _ hk => hk) fun _ hr => Kernel.advance_running (Kernel.waitpid_running hr).1
  sleepMs ms s h := h.passed (Kernel.other_passed (fun s => ((), base.sleepMs ms s)) s.1)
  systemNow s h := h.passed (Kernel.other_passed base.systemNow s.1)
  steadyNow s h := h.passed (Kernel.other_passed base.steadyNow s.1)
  notify id old new s h := h.passed (Kernel.other_passed (fun s => ((), base.notify id old new s)) s.1)

/-- The child of a `fork` is one more to answer for. -/
theorem fork_answered (config : ProcessConfig) {s : Kernel σ × Ledger} (h : Answered R s) :
    (∃ text, ((ledgerOs base).fork config s).1 = .error text) ∧ Answered R ((ledgerOs base).fork config s).2 ∨
      ∃ pid, ((ledgerOs base).fork config s).1 = .ok pid ∧
        Answered (fun q => R q ∨ q = pid) ((ledgerOs base).fork config s).2 := by
  have hkernel : (kernelOs base).fork config s.1 = Kernel.fork (base.fork config) s.1 := rfl
  obtain ⟨k, hpassed, ⟨text, hfork⟩ | ⟨pid, hpos, hfork⟩⟩ := Kernel.fork_ends (base.fork config) s.1
  · simp only [ledgerOs, hkernel, hfork]
    exact Or.inl ⟨⟨text, rfl⟩, h.passed hpassed⟩
  · simp only [ledgerOs, hkernel, hfork]
    refine Or.inr ⟨pid, rfl, fun q hq => ?_⟩
    by_cases hqp : q = pid
    · exact ⟨hqp ▸ hpos, fun _ => Or.inr (Or.inr hqp)⟩
    · have hold : q ∈ s.2.children := by simpa [Ledger.forked, hqp] using hq
      obtain ⟨hqpos, hans⟩ := h q hold
      refine ⟨hqpos, fun hrun => ?_⟩
      rw [Kernel.Running, Kernel.set_procs_ne _ _ hqp] at hrun
      rcases hans (hpassed.running hrun) with hk | hR
      · exact Or.inl (by simpa [Ledger.forked, hqp] using hk)
      · exact Or.inr (Or.inl hR)

/-! ## The process manager -/

namespace ProcessManager

/-- A process that is said not to run does not. -/
theorem isProcessRunning_false {q : Int} (hq : 0 < q) (pm : Pm (Kernel σ × Ledger)) :
    Ends (isProcessRunning (ledgerOs base) q) pm fun r pm' => r = .ok false → ¬ pm'.os.1.Running q := by
  have hprobe : ((ledgerOs base).kill q 0 pm.os).1 = false → ¬ ((ledgerOs base).kill q 0 pm.os).2.1.Running q := by
    intro hno hr
    have hrun : pm.os.1.advance.procs q = some .running := by
      rw [← Kernel.kill_procs (base.kill q 0) q 0 pm.os.1]
      exact hr
    have hyes : (Kernel.kill (base.kill q 0) q 0 pm.os.1).1 = true := by rw [Kernel.kill, hrun]
    exact Bool.false_ne_true (hno.symm.trans hyes)
  simp only [isProcessRunning, determineProcessStatus, sys, ends_bind, ends_call, andThen_ok]
  cases hkill : ((ledgerOs base).kill q 0 pm.os).1 with
  | false => exact fun _ => hprobe hkill
  | true =>
    generalize ((ledgerOs base).kill q 0 pm.os).2 = s
    simp only [if_true, ends_bind, ends_call, andThen_ok]
    by_cases hrun : s.1.advance.Running q
    · have hwait : ((ledgerOs base).waitpid q false s).1.1 = 0 := by
        show (Kernel.waitpid _ q false s.1).1.1 = 0
        rw [Kernel.waitpid, hrun]
        rfl
      have hzero : ¬ (0 : Int) = q := by omega
      simp [hwait, hzero]
    · have hafter : ¬ ((ledgerOs base).waitpid q false s).2.1.Running q := fun hr => hrun (Kernel.waitpid_running hr).1
      split
      · exact fun _ => hafter
      · split <;> exact fun _ => hafter

theorem ends_if_running {q : Int} (hq : 0 < q) {p : Prog (Pm (Kernel σ × Ledger)) Error Unit}
    {Q : Res Error Unit → Pm (Kernel σ × Ledger) → Prop} (hp : ∀ pm, Ends p pm Q)
    (hnot : ∀ pm, ¬ pm.os.1.Running q → Q (.ok ()) pm) (pm : Pm (Kernel σ × Ledger)) :
    Ends (do if ← isProcessRunning (ledgerOs base) q then p) pm Q := by
  rw [ends_bind]
  refine Ends.mono ((isProcessRunning_returns (ledgerOs base) q pm).and (isProcessRunning_false base hq pm)) ?_
  intro r pm' hpost
  obtain ⟨⟨⟨b, rfl⟩, -⟩, hfalse⟩ := hpost
  cases b with
  | true => exact hp pm'
  | false => exact hnot pm' (hfalse rfl)

/-- A process that runs after the destructor's step for it has been sent SIGKILL. -/
theorem destroyProcess_kills {q : Int} (hq : 0 < q) (pm : Pm (Kernel σ × Ledger)) :
    Ends (destroyProcess (ledgerOs base) q) pm fun _ pm' => pm'.os.1.Running q → q ∈ pm'.os.2.killed := by
  have hsent : ∀ s : Kernel σ × Ledger, ((ledgerOs base).kill q sigkill s).2.1.Running q →
      q ∈ ((ledgerOs base).kill q sigkill s).2.2.killed := by
    intro s hr
    have hrun : ((kernelOs base).kill q sigkill s.1).2.procs q = some .running := hr
    simp [ledgerOs, hrun]
  refine ends_if_running base hq (fun pm' => ?_) (fun _ hnot hr => absurd hr hnot) pm
  rw [ends_bind, sys, ends_call, andThen_ok, ends_bind, sleepMs, ends_modify, andThen_ok]
  refine ends_if_running base hq (fun pm'' => ?_) (fun _ hnot hr => absurd hr hnot) _
  exact hsent pm''.os

/-- Whom the destructor's step is about need not be answered for any more. -/
theorem destroyProcess_answers (q : Int) {pm : Pm (Kernel σ × Ledger)} (h : Answered R pm.os) :
    Ends (destroyProcess (ledgerOs base) q) pm fun _ pm' => Answered (fun pid => R pid ∧ pid ≠ q) pm'.os := by
  have hkept := destroyProcess_onOs (answered_leaves base (R := R)) q pm h
  by_cases hq : 0 < q
  · exact Ends.mono (hkept.and (destroyProcess_kills base hq pm)) fun _ _ hpost =>
      Answered.without hpost.1 fun _ => hpost.2
  · exact Ends.mono hkept fun _ _ hpost => Answered.without hpost fun hpos => absurd hpos hq

theorem destroyAll_answers (l : List ProcessInfo) {pm : Pm (Kernel σ × Ledger)}
    (h : Answered (fun pid => R pid ∨ pid ∈ l.map (·.pid)) pm.os) :
    Ends (destroyAll (ledgerOs base) l) pm fun _ pm' => Answered R pm'.os := by
  induction l generalizing pm with
  | nil => exact h.weaken fun pid hpid => by simpa using hpid
  | cons info rest ih =>
    rw [destroyAll, ends_bind]
    refine Ends.mono ((destroyProcess_returns (ledgerOs base) info.pid pm).and
      (destroyProcess_answers base info.pid h)) ?_
    intro r pm' hpost
    obtain ⟨⟨⟨_, rfl⟩, -⟩, hans⟩ := hpost
    refine ih (hans.weaken fun pid hpid => ?_)
    rcases hpid.1 with hR | hmem
    · exact Or.inl hR
    · rcases List.mem_cons.mp hmem with heq | hrest
      · exact absurd heq hpid.2
      · exact Or.inr hrest

/-- The destructor: nothing the manager managed is left to answer for. -/
theorem destroy_answers {pm : Pm (Kernel σ × Ledger)}
    (h : Answered (fun pid => R pid ∨ pid ∈ pm.mgr.managed.map (·.pid)) pm.os) :
    Ends (destroy (ledgerOs base)) pm fun _ pm' => Answered R pm'.os := by
  rw [destroy, ends_bind, ends_read, andThen_ok, ends_bind]
  refine Ends.mono (destroyAll_answers base pm.mgr.managed h) ?_
  intro r pm' hans
  cases r <;> exact hans

/-- A new process is managed, or it was waited for and an exception says what it failed at. -/
theorem createProcess_answers (config : ProcessConfig) {pm : Pm (Kernel σ × Ledger)} (h : Answered R pm.os) :
    Ends (createProcess (ledgerOs base) config) pm fun _ pm' =>
      Answered (fun pid => R pid ∨ pid ∈ pm'.mgr.managed.map (·.pid)) pm'.os := by
  have hfailed : ∀ {s : Kernel σ × Ledger} (m : ProcessManager), Answered R s →
      Answered (fun pid => R pid ∨ pid ∈ m.managed.map (·.pid)) s := fun _ hs => hs.weaken fun _ => Or.inl
  have hwaited : ∀ {s : Kernel σ × Ledger} {pid : Int} (m : ProcessManager), Answered (fun q => R q ∨ q = pid) s →
      Answered (fun pid => R pid ∨ pid ∈ m.managed.map (·.pid)) ((ledgerOs base).waitpid pid true s).2 := by
    intro s pid m hs
    have hgone := Answered.without ((answered_leaves base).waitpid pid true s hs) fun _ hr =>
      absurd rfl ((Kernel.waitpid_running hr).2 rfl)
    exact hgone.weaken fun q hq => Or.inl (hq.1.resolve_right hq.2)
  rw [createProcess, ends_bind, sys, ends_call, andThen_ok]
  have hpipe := (answered_leaves base).pipe pm.os h
  split
  · exact hfailed _ hpipe
  · rw [ends_bind, sys, ends_call, andThen_ok]
    rcases fork_answered base config hpipe with ⟨⟨text, hr⟩, hans⟩ | ⟨pid, hr, hans⟩
    · simp only [hr]
      exact hfailed _ hans
    · simp only [hr, sleepMs, sys, ends_bind, ends_modify, ends_call, andThen_ok]
      have hread := (answered_leaves base).readErrorPipe pid _ ((answered_leaves base).sleepMs 10 _ hans)
      split
      · exact hwaited _ hread
      · exact hwaited _ hread
      · have hclock := (answered_leaves base).systemNow _ hread
        simp only [ends_bind, ends_call, ends_modify, ends_pure, andThen_ok]
        refine Answered.weaken hclock fun q hq => hq.imp_right fun heq => ?_
        simp [put, heq]

/-- What a manager does about a process keeps its processes answered for. -/
theorem tended_answered (q : Int) : Tended (ledgerOs base) q fun pm =>
    Answered (fun pid => pid ∈ pm.mgr.managed.map (·.pid)) pm.os where
  clock pm h := (answered_leaves base).steadyNow pm.os h
  sleep ms pm h := (answered_leaves base).sleepMs ms pm.os h
  signal sig pm h := (answered_leaves base).kill q sig pm.os h
  query pm h := by
    refine Ends.mono ((determineProcessStatus_onOs (answered_leaves base) q pm h).and
      (determineProcessStatus_sameManager (ledgerOs base) q pm)) ?_
    intro r pm' hpost
    obtain ⟨hans, -, hmgr⟩ := hpost
    rw [hmgr]
    exact hans
  update pm h := by
    refine Ends.mono ((updateProcessStatus_onOs (answered_leaves base) q pm h).and
      (updateProcessStatus_apart (ledgerOs base) pm)) ?_
    intro r pm' hpost
    obtain ⟨hans, -, hapart⟩ := hpost
    rw [hapart.pids]
    exact hans

end ProcessManager

/-! ## The container -/

namespace Container

def managedPids (o : Option ProcessManager) : List Int := o.elim [] fun m => m.managed.map (·.pid)

/-- Every child that runs is managed by the container's manager, or has been sent SIGKILL. -/
def AllAnswered (w : World (Kernel σ × Ledger)) : Prop := Answered (· ∈ managedPids w.c.processManager) w.os

theorem allAnswered_apart : Apart (ledgerOs base) (AllAnswered (σ := σ)) where
  unshare type w hw := (answered_leaves base).unshare type w.os hw
  cgroup g f w hw := (answered_leaves base).cgroup g f w.os hw
  probe pid w hw := (answered_leaves base).kill pid 0 w.os hw
  sleepMs ms w hw := (answered_leaves base).sleepMs ms w.os hw
  notify id old new w hw := (answered_leaves base).notify id old new w.os hw
  resources _ _ _ hw := hw

theorem modifyC_answered {f : Container → Container} (hf : ∀ c, (f c).processManager = c.processManager) :
    Stable AllAnswered (modifyC f : Prog (World (Kernel σ × Ledger)) Error Unit) := by
  refine stable_modify fun w hw => ?_
  rw [AllAnswered, hf]
  exact hw

variable {w : World (Kernel σ × Ledger)}

theorem destroyManager_answers (o : Option ProcessManager)
    (h : Answered (fun pid => R pid ∨ pid ∈ managedPids o) w.os) :
    Ends (destroyManager (ledgerOs base) o) w fun r w' => r = .ok () ∧ w'.c = w.c ∧ Answered R w'.os := by
  have hanswers : Ends (destroyManager (ledgerOs base) o) w fun _ w' => Answered R w'.os := by
    cases o with
    | none => exact h.weaken fun pid hpid => by simpa [managedPids] using hpid
    | some m => exact ProcessManager.destroy_answers base h
  refine Ends.mono (Ends.and (destroyManager_returns (ledgerOs base) o w) hanswers) ?_
  intro r w' hpost
  obtain ⟨⟨⟨_, hr⟩, -, hc⟩, hans⟩ := hpost
  exact ⟨hr, hc.symm, hans⟩

/-- The manager that a launch replaces is destroyed before the new process is there. -/
theorem launchProcess_answered : Stable AllAnswered (launchProcess (ledgerOs base)) := by
  intro w hw
  rw [launchProcess, ends_bind, self, ends_read, andThen_ok, ends_bind, modifyC, ends_modify, andThen_ok, ends_bind]
  refine Ends.mono (destroyManager_answers base (R := fun _ => False) w.c.processManager
    (hw.weaken fun _ hpid => Or.inr hpid)) ?_
  intro r w₁ hpost
  obtain ⟨rfl, -, hnone⟩ := hpost
  rw [andThen_ok, ends_bind, onProcessManager, ends_zoom]
  refine Ends.mono (@ProcessManager.createProcess_answers _ base _ (processConfig w.c.config) ⟨{}, w₁.os⟩ hnone) ?_
  intro r pm hans
  have hnew : AllAnswered { w₁ with c := { w₁.c with processManager := some pm.mgr }, os := pm.os } :=
    hans.weaken fun _ hpid => hpid.resolve_left False.elim
  cases r with
  | thrown e => exact hnew
  | blocked => exact hnew
  | ok pid =>
    rw [andThen_ok]
    split
    · exact hnew
    · refine stable_bind ?_ (fun _ => ?_) _ hnew
      · exact modifyC_answered fun _ => rfl
      · cases w.c.cgroupManager with
        | none => exact stable_pure _
        | some g => exact stable_ignoreErrors (cgroupCall_apart (allAnswered_apart base) g _)

theorem startProcess_answered : Stable AllAnswered (startProcess (ledgerOs base)) := by
  refine stable_bind (stable_tryCatch (launchProcess_answered base) fun _ => stable_throw _) fun _ => ?_
  refine stable_bind (sleep_apart (allAnswered_apart base) 100) fun _ => ?_
  refine stable_bind (isProcessRunning_apart (allAnswered_apart base)) fun _ => stable_ite (stable_pure _) ?_
  refine stable_bind (stable_read _) fun pid => ?_
  refine stable_bind (stable_call fun w hw => (answered_leaves base).waitpid pid false w.os hw) fun r => ?_
  refine stable_bind (modifyC_answered fun c => ?_) fun _ => stable_throw _
  cases r.2 <;> rfl

/-- A call of the process manager, with its exceptions swallowed. -/
theorem ignored_answered {α : Type} {p : Prog (Pm (Kernel σ × Ledger)) Error α} (hend : Within Anything p)
    (hp : Stable (fun pm => Answered (· ∈ pm.mgr.managed.map (·.pid)) pm.os) p) {m : ProcessManager}
    (hm : w.c.processManager = some m) (hw : AllAnswered w) :
    Ends (ignoreErrors do
      let _ ← onProcessManager m p
      pure ()) w fun r w' => r = .ok () ∧ AllAnswered w' := by
  rw [AllAnswered, hm] at hw
  simp only [ignoreErrors, ends_tryCatch, ends_bind, onProcessManager, ends_zoom]
  refine Ends.mono ((hend ⟨m, w.os⟩).and (hp ⟨m, w.os⟩ hw)) ?_
  intro r pm hpost
  obtain ⟨⟨hnot, -⟩, hans⟩ := hpost
  cases r with
  | ok a => exact ⟨rfl, hans⟩
  | thrown e => exact ⟨rfl, hans⟩
  | blocked => exact absurd rfl hnot

/-- After the clean-up each process that runs has been sent SIGKILL. -/
theorem cleanupProcessManager_answers (hw : AllAnswered w) :
    Ends (cleanupProcessManager (ledgerOs base)) w fun r w' => r = .ok () ∧ Answered (fun _ => False) w'.os := by
  rw [cleanupProcessManager, ends_bind, readC, ends_read, andThen_ok]
  cases hm : w.c.processManager with
  | none =>
    rw [AllAnswered, hm] at hw
    exact ⟨rfl, hw.weaken fun _ hpid => by simp [managedPids] at hpid⟩
  | some m =>
    have hstop := ignored_answered (ProcessManager.stopProcess_within (ledgerOs base) w.c.mainPid 5)
      ((ProcessManager.tended_answered base w.c.mainPid).stopProcess 5) hm hw
    rw [ends_bind, readC, ends_read, andThen_ok, ends_bind]
    refine Ends.mono hstop ?_
    intro r w' hpost
    obtain ⟨rfl, hw'⟩ := hpost
    rw [andThen_ok, ends_bind, ends_read, andThen_ok, ends_bind, modifyC, ends_modify, andThen_ok]
    exact Ends.mono (destroyManager_answers base (R := fun _ => False) w'.c.processManager
      (hw'.weaken fun _ hpid => Or.inr hpid)) fun _ _ hpost => ⟨hpost.1, hpost.2.2⟩

theorem cleanupResources_answers (hw : AllAnswered w) :
    Ends (cleanupResources (ledgerOs base)) w fun _ w' => Answered (fun _ => False) w'.os := by
  have hapart : Apart (ledgerOs base) fun w : World (Kernel σ × Ledger) => Answered (fun _ => False) w.os :=
    ⟨fun type w h => (answered_leaves base).unshare type w.os h, fun g f w h => (answered_leaves base).cgroup g f w.os h,
      fun pid w h => (answered_leaves base).kill pid 0 w.os h, fun ms w h => (answered_leaves base).sleepMs ms w.os h,
      fun id old new w h => (answered_leaves base).notify id old new w.os h, fun _ _ _ h => h⟩
  rw [cleanupResources, ends_bind]
  refine Ends.mono (cleanupProcessManager_answers base hw) ?_
  intro r w' hpost
  obtain ⟨rfl, hans⟩ := hpost
  refine stable_bind (cleanupCgroup_apart hapart) (fun _ => ?_) w' hans
  exact fun _ h => h

theorem probeProcess_answered : Stable AllAnswered (probeProcess (ledgerOs base)) := by
  intro w hw
  rw [probeProcess, ends_bind, self, ends_read, andThen_ok]
  cases hm : w.c.processManager with
  | none => exact hw
  | some m =>
    exact Ends.mono (ignored_answered (m := m) ((ProcessManager.getProcessInfo_sameManager _ _).weaken fun _ _ _ => trivial)
      (ProcessManager.tended_answered base w.c.mainPid).getProcessInfo hm hw) fun _ _ hpost => hpost.2

theorem allAnswered_upheld : Upheld (ledgerOs base) (AllAnswered (σ := σ)) where
  clock w hw := (answered_leaves base).systemNow w.os hw
  metrics g w hw := hw.passed (Kernel.other_passed (base.getMetrics g) w.os.1)
  signal pid sig w hw := (answered_leaves base).kill pid sig w.os hw
  wait pid w hw := (answered_leaves base).waitpid pid false w.os hw
  sleepMs ms w hw := (answered_leaves base).sleepMs ms w.os hw
  notify id old new w hw := (answered_leaves base).notify id old new w.os hw
  notes c' w hw hsame := by
    rw [AllAnswered, hsame.processManager]
    exact hw
  launch := stable_bind (setupNamespaces_apart (allAnswered_apart base)) fun _ =>
    stable_bind (setupCgroups_apart (allAnswered_apart base)) fun _ => startProcess_answered base
  cleanup w hw := Ends.mono (cleanupResources_answers base hw) fun _ _ hans => hans.weaken fun _ => False.elim
  probe := probeProcess_answered base

/-! ## Runs -/

/-- What is to happen in the system during the next call. -/
def during (w : World (Kernel σ × Ledger)) (moves : List (List Move)) : World (Kernel σ × Ledger) :=
  { w with os := (w.os.1.during moves, w.os.2) }

def called (w : World (Kernel σ × Ledger)) (m : Member × List (List Move)) : World (Kernel σ × Ledger) :=
  (m.1.run (ledgerOs base) .abstracted (during w m.2)).2

/-- A new container, of which there is no process yet. -/
def unlaunched (k : Kernel σ) (config : ContainerConfig) (cb : Option EventCallback) (l : Listener) :
    World (Kernel σ × Ledger) := fresh (ledgerOs base) config (k, {}) cb l

theorem unlaunched_ledger (k : Kernel σ) (config : ContainerConfig) (cb : Option EventCallback) (l : Listener) :
    (unlaunched base k config cb l).os.2 = {} := by
  have hdigits : ∀ n (s : Kernel σ × Ledger), (hexDigits (ledgerOs base) n s).2.2 = s.2 := by
    intro n
    induction n with
    | zero => exact fun _ => rfl
    | succ n ih => exact fun s => ih _
  have hid : ∀ s : Kernel σ × Ledger, (generateContainerId (ledgerOs base) s).2.2 = s.2 := hdigits 64
  simp only [unlaunched, fresh, make]
  split
  · exact hid _
  · rfl

theorem run_answered (k : Kernel σ) (config : ContainerConfig) (cb : Option EventCallback) (l : Listener)
    (calls : List (Member × List (List Move))) :
    AllAnswered (runFrom (called base) (unlaunched base k config cb l) calls) := by
  refine runFrom_invariant (I := AllAnswered) (fun w m hw => ?_) (fun pid hpid => ?_) calls
  · exact member_upheld (allAnswered_upheld base) m.1 (during w m.2) hw
  · rw [unlaunched_ledger] at hpid
    cases hpid

/-- A child that runs has been sent SIGKILL. -/
def AllKilled (w : World (Kernel σ × Ledger)) : Prop := Answered (fun _ => False) w.os

theorem transitionState_killed {new : ContainerState} (hnew : executeStateTransition (ledgerOs base) new = pure ()) :
    Stable AllKilled (transitionState (ledgerOs base) .abstracted new) := by
  intro w hw
  exact Ends.mono (transitionState_on (answered_leaves base) hnew w ⟨rfl, hw⟩) fun _ _ hpost => hpost.2

/-- A `remove` that returns has cleaned up. -/
theorem remove_crosses (force : Bool) : Crosses AllAnswered AllKilled (remove (ledgerOs base) .abstracted force) := by
  have h := allAnswered_upheld base
  rw [remove, lockGuard_abstracted]
  refine crosses_bind (stable_read _) fun c => ?_
  split
  · exact crosses_throw _
  · refine crosses_bind (h.transitionState .removing) fun _ => Crosses.tryCatch ?_ (fun e => ?_) (fun e => ?_) fun e w => ?_
    · refine crosses_bind (stable_read _) fun c => crosses_bind (stable_when ?_) fun _ => ?_
      · exact stable_bind (stable_call (h.signal c.mainPid sigkill)) fun _ => h.waitForProcessExit 5
      · have hclean : Crosses AllAnswered AllKilled (cleanupResources (ledgerOs base)) :=
          fun w hw => Ends.mono (cleanupResources_answers base hw) fun _ _ hpost => Or.inl hpost
        refine hclean.bind fun _ => stable_bind (transitionState_killed base rfl) fun _ => ?_
        exact fun _ hw => hw
    · exact stable_bind (h.transitionState .error) fun _ => stable_throw _
    · exact stable_bind (transitionState_killed base rfl) fun _ => stable_throw _
    · rw [ends_bind]
      refine Ends.mono (Q := fun _ _ => True) trivial ?_
      intro r w' _
      cases r <;> exact fun _ hok => by cases hok

theorem destroy_returns (os : Os σ) : Returns (Touches Anything) (destroy os) := by
  have hset : ∀ f, Returns (Touches Anything) (modifyC f : Prog (World σ) Error Unit) :=
    fun f => modifyC_returns fun _ => trivial
  have hclean : Returns (Touches Anything) (cleanupResources os) := by
    intro w
    refine Ends.mono (cleanupResources_ends os w) ?_
    intro r w' hpost
    exact ⟨⟨(), hpost.1⟩, hpost.2.1, trivial⟩
  have hcgroup : Returns (Touches Anything) (setCgroupManager os none) := by
    intro w
    refine Ends.mono (setCgroupManager_ends os none w) ?_
    intro r w' hpost
    exact ⟨⟨(), hpost.1⟩, hpost.2.1, trivial⟩
  refine returns_bind (returns_bind (readC_returns _) fun _ => returns_ite (returns_pure _) ?_) fun _ => ?_
  · exact ignoreErrors_returns (returns_bind (hset _) fun _ => returns_bind hclean fun _ => hset _).within
  · refine returns_bind hcgroup fun _ => returns_bind (readC_returns _) fun m => returns_bind (hset _) fun _ => ?_
    exact (destroyManager_returns os m).weaken fun _ _ htouches => ⟨htouches.1, trivial⟩

/-- The members of a container are destroyed with it, the process manager last. -/
theorem destroy_crosses : Crosses AllAnswered AllKilled (destroy (ledgerOs base)) := by
  refine crosses_bind (allAnswered_upheld base).cleanup_member fun _ => ?_
  refine crosses_bind (setCgroupManager_apart (allAnswered_apart base) none) fun _ => ?_
  intro w hw
  rw [dropProcessManager, ends_bind, readC, ends_read, andThen_ok, ends_bind, modifyC, ends_modify, andThen_ok]
  exact Ends.mono (destroyManager_answers base (R := fun _ => False) w.c.processManager
    (hw.weaken fun _ hpid => Or.inr hpid)) fun _ _ hpost => Or.inl hpost.2.2

/-- In every run of member functions, with whatever happens to the processes during them, a
    process of the container that runs is managed by its manager or has been sent SIGKILL.
    Once a `remove` has returned, or the container is destroyed, it has been sent SIGKILL. -/
theorem no_process_is_left (k : Kernel σ) (config : ContainerConfig) (cb : Option EventCallback) (l : Listener)
    (calls : List (Member × List (List Move))) :
    let w := runFrom (called base) (unlaunched base k config cb l) calls
    (∀ pid ∈ w.os.2.children, w.os.1.Running pid → pid ∈ w.os.2.killed ∨ pid ∈ managedPids w.c.processManager) ∧
    (∀ force moves, Ends (remove (ledgerOs base) .abstracted force) (during w moves) fun r w' =>
      r = .ok () → ∀ pid ∈ w'.os.2.children, w'.os.1.Running pid → pid ∈ w'.os.2.killed) ∧
    ∀ moves, Ends (destroy (ledgerOs base)) (during w moves) fun r w' =>
      r = .ok () ∧ ∀ pid ∈ w'.os.2.children, w'.os.1.Running pid → pid ∈ w'.os.2.killed := by
  intro w
  have hw : AllAnswered w := run_answered base k config cb l calls
  have hkilled : ∀ {w' : World (Kernel σ × Ledger)}, AllKilled w' → ∀ pid ∈ w'.os.2.children, w'.os.1.Running pid →
      pid ∈ w'.os.2.killed := fun h pid hpid hr => ((h pid hpid).2 hr).resolve_right False.elim
  refine ⟨fun pid hpid hr => (hw pid hpid).2 hr, fun force moves => ?_, fun moves => ?_⟩
  · refine Ends.mono (remove_crosses base force (during w moves) hw) ?_
    intro r w' hpost hr
    rcases hpost with hall | ⟨-, hnot⟩
    · exact hkilled hall
    · exact absurd hr (hnot ())
  · refine Ends.mono ((destroy_returns (ledgerOs base) (during w moves)).and (destroy_crosses base (during w moves) hw)) ?_
    intro r w' hpost
    obtain ⟨⟨⟨u, hr⟩, -⟩, hcross⟩ := hpost
    rcases hcross with hall | ⟨-, hnot⟩
    · exact ⟨hr, hkilled hall⟩
    · exact absurd hr (hnot u)

/-- A process that does not heed SIGTERM, nor die at once of SIGKILL: `stopProcess` and the
    destructor of the manager both send it. -/
example :
    let w := runFrom (called plainOs) (unlaunched plainOs { rest := 100 } { id := "c", name := "web" } none {})
      [(.op .start, []), (.op (.remove true), [])]
    w.c.state = .removed ∧ w.os.2 = ⟨[100], [100, 100]⟩ ∧ w.os.1.procs 100 = some .running := by
  decide +kernel

end Container

end DockerCpp.Runtime
