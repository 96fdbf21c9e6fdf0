/-
  DockerCpp.Cgroup.FailedUpdates — what an update that throws leaves behind.

  A setter stores its value in `config_` and then writes a file, `updateConfig` replaces the
  configuration and then applies it, `create` makes the directory first. Nothing is taken
  back when a later step throws. So `getConfig` and `exists` answer as before exactly when
  the call threw before it stored or made anything, or stored what was there
  (`traceless_iff`).
-/

import DockerCpp.Cgroup.Steady

namespace DockerCpp.Cgroup

open Lib Lib.Prog DockerCpp.Runtime

inductive Update where
  | setCpuMax (maxUsec periodUsec : Nat)
  | setCpuWeight (weight : Nat)
  | setMemoryMax (maxBytes : Nat)
  | setMemorySwapMax (maxBytes : Nat)
  | setMemoryLow (lowBytes : Nat)
  | setMemoryHigh (highBytes : Nat)
  | setPidMax (max : Nat)
  | updateConfig (config : CgroupConfig)
  | create
  deriving DecidableEq, Repr

namespace Update

/-- The check before anything is stored. -/
def check : Update → Except CgroupError Unit
  | .setCpuMax maxUsec periodUsec => validateCpuParameters maxUsec periodUsec
  | .setCpuWeight weight => validateCpuWeight weight
  | .setPidMax max => validatePidMax max
  | _ => .ok ()

/-- What is stored in `config_`. -/
def store : Update → CgroupConfig → CgroupConfig
  | .setCpuMax maxUsec periodUsec, g => { g with maxUsec := maxUsec, periodUsec := periodUsec }
  | .setCpuWeight weight, g => { g with weight := weight }
  | .setMemoryMax maxBytes, g => { g with maxBytes := maxBytes }
  | .setMemorySwapMax maxBytes, g => { g with swapMaxBytes := maxBytes }
  | .setMemoryLow lowBytes, g => { g with lowBytes := lowBytes }
  | .setMemoryHigh highBytes, g => { g with highBytes := highBytes }
  | .setPidMax max, g => { g with pidMax := max }
  | .updateConfig config, _ => config
  | .create, g => g

end Update

namespace CgroupManager

variable (env : Env)

def update : Update → Prog CgroupState CgroupError Unit
  | .setCpuMax maxUsec periodUsec => setCpuMax env maxUsec periodUsec
  | .setCpuWeight weight => setCpuWeight env weight
  | .setMemoryMax maxBytes => setMemoryMax env maxBytes
  | .setMemorySwapMax maxBytes => setMemorySwapMax env maxBytes
  | .setMemoryLow lowBytes => setMemoryLow env lowBytes
  | .setMemoryHigh highBytes => setMemoryHigh env highBytes
  | .setPidMax max => setPidMax env max
  | .updateConfig config => updateConfig env config
  | .create => create env

/-- `getConfig` and `exists` answer in both states alike. -/
def Traceless (s s' : CgroupState) : Prop :=
  s'.mgr.config = s.mgr.config ∧ s'.tree.isDirectory s'.mgr.cgroupPath = s.tree.isDirectory s.mgr.cgroupPath

/-- The call throws before it changes anything, or changes nothing. (The constructor never
    builds an empty path, which denotes no directory.) -/
def Harmless (s : CgroupState) : Update → Prop
  | .create => s.tree.isDirectory s.mgr.cgroupPath = true ∨ (env.mkdirError s.mgr.cgroupPath).isSome = true ∨
      s.mgr.cgroupPath = ""
  | u => u.check ≠ .ok () ∨ u.store s.mgr.config = s.mgr.config

/-! ## Writing files -/

def Shows (path : String) (there : Bool) (t : Tree) : Prop := t.isDirectory path = there

def AnyError (_ : CgroupError) : Prop := True

theorem isDirectory_writeFile (t : Tree) (p : Path) (name content text : String) :
    (t.writeFile p name content).isDirectory text = t.isDirectory text := by
  unfold Tree.isDirectory
  rw [Tree.locate_writeFile]

theorem allows_shows (path : String) (there : Bool) : Allows (Shows path there) AnyError :=
  ⟨fun p name content h => (isDirectory_writeFile _ p name content path).trans h, fun _ => trivial⟩

theorem admits_any (g : CgroupConfig) : Admits AnyError g := ⟨fun _ => trivial, fun _ => trivial, fun _ => trivial⟩

variable {env} {s : CgroupState}

/-- The state a call leaves once it has stored a configuration, however it ends. -/
def Stored (s : CgroupState) (config : CgroupConfig) (s' : CgroupState) : Prop :=
  s'.mgr = { s.mgr with config := config } ∧ Shows s.mgr.cgroupPath (s.tree.isDirectory s.mgr.cgroupPath) s'.tree

variable {p : Prog CgroupState CgroupError Unit}

theorem stored_ends {store : CgroupConfig → CgroupConfig}
    (hp : ∀ m there, Steady m (Shows m.cgroupPath there) AnyError p) :
    Ends (modifyConfig store >>= fun _ => p) s fun _ s' => Stored s (store s.mgr.config) s' := by
  simp only [modifyConfig, ends_bind, ends_modify, andThen_ok]
  exact Ends.mono (hp { s.mgr with config := store s.mgr.config } (s.tree.isDirectory s.mgr.cgroupPath) _ ⟨rfl, rfl⟩)
    fun _ _ h => h.2

theorem checked_ends {check : Except CgroupError Unit} (hcheck : check = .ok ())
    {Q : Res CgroupError Unit → CgroupState → Prop} (h : Ends p s Q) : Ends (require check >>= fun _ => p) s Q := by
  rw [hcheck]
  exact h

theorem update_ends {u : Update} (hcreate : u ≠ .create) (hcheck : u.check = .ok ()) :
    Ends (update env u) s fun _ s' => Stored s (u.store s.mgr.config) s' := by
  have hwrite : ∀ file text, Ends (modifyConfig u.store >>= fun _ => writeOwn env file text) s fun _ s' =>
      Stored s (u.store s.mgr.config) s' :=
    fun file text => stored_ends fun m there => steady_writeOwn env (allows_shows m.cgroupPath there) file text
  cases u with
  | setCpuMax maxUsec periodUsec =>
    exact checked_ends hcheck (stored_ends fun m there => steady_writeCpuMax env (allows_shows m.cgroupPath there))
  | setCpuWeight weight => exact checked_ends hcheck (hwrite _ _)
  | setMemoryMax maxBytes => exact hwrite _ _
  | setMemorySwapMax maxBytes => exact hwrite _ _
  | setMemoryLow lowBytes => exact hwrite _ _
  | setMemoryHigh highBytes => exact hwrite _ _
  | setPidMax max => exact checked_ends hcheck (hwrite _ _)
  | updateConfig config =>
    refine stored_ends ?_
    intro m there
    refine keeps_bind (keeps_read _) ?_
    intro found
    cases found with
    | true => exact steady_applyConfiguration env (allows_shows m.cgroupPath there) (admits_any m.config)
    | false => exact keeps_pure ()
  | create => exact absurd rfl hcreate

/-- A refused value is not stored. -/
theorem update_refused {u : Update} {e : CgroupError} (hcheck : u.check = .error e) : update env u s = (.thrown e, s) := by
  cases u with
  | setCpuMax maxUsec periodUsec =>
    have hrefused : validateCpuParameters maxUsec periodUsec = .error e := hcheck
    simp only [update, setCpuMax, hrefused, require]
    rfl
  | setCpuWeight weight =>
    have hrefused : validateCpuWeight weight = .error e := hcheck
    simp only [update, setCpuWeight, hrefused, require]
    rfl
  | setPidMax max =>
    have hrefused : validatePidMax max = .error e := hcheck
    simp only [update, setPidMax, hrefused, require]
    rfl
  | setMemoryMax maxBytes => cases hcheck
  | setMemorySwapMax maxBytes => cases hcheck
  | setMemoryLow lowBytes => cases hcheck
  | setMemoryHigh highBytes => cases hcheck
  | updateConfig config => cases hcheck
  | create => cases hcheck

/-- Where `create` makes the directory, it stays. -/
theorem create_ends (hnew : s.tree.isDirectory s.mgr.cgroupPath = false) (hmkdir : env.mkdirError s.mgr.cgroupPath = none) :
    Ends (create env) s fun _ s' => s'.mgr = s.mgr ∧ Shows s.mgr.cgroupPath (s.mgr.cgroupPath != "") s'.tree := by
  have hmade : Shows s.mgr.cgroupPath (s.mgr.cgroupPath != "")
      (s.tree.makeDirs (s.tree.origin s.mgr.cgroupPath) (components s.mgr.cgroupPath)) := by
    by_cases hpath : s.mgr.cgroupPath = ""
    · rw [hpath]
      rfl
    · rw [Shows, Tree.isDirectory_makeDirs s.tree hpath]
      simp [hpath]
  have hallows := allows_shows s.mgr.cgroupPath (s.mgr.cgroupPath != "")
  have hsteady : Steady s.mgr (Shows s.mgr.cgroupPath (s.mgr.cgroupPath != "")) AnyError (do
      enableControllers env
      applyConfiguration env) :=
    keeps_bind (steady_enableControllers env hallows) fun _ => steady_applyConfiguration env hallows (admits_any _)
  unfold create exists_
  simp only [ends_bind, ends_read, andThen_ok, hnew, hmkdir, Bool.false_eq_true, if_false, modifyTree, ends_modify]
  rw [← ends_bind]
  exact Ends.mono (hsteady _ ⟨rfl, hmade⟩) fun _ _ h => h.2

theorem create_failed_iff {s' : CgroupState} {e : CgroupError} (h : create env s = (.thrown e, s')) :
    Traceless s s' ↔ Harmless env s .create := by
  unfold Harmless
  cases hexists : s.tree.isDirectory s.mgr.cgroupPath with
  | true =>
    have hends : Ends (create env) s fun _ s' => s' = s := by simp [create, exists_, hexists]
    simp [hends.of_run h, Traceless]
  | false =>
    cases hmkdir : env.mkdirError s.mgr.cgroupPath with
    | some message =>
      have hends : Ends (create env) s fun _ s' => s' = s := by simp [create, exists_, hexists, hmkdir]
      simp [hends.of_run h, Traceless]
    | none =>
      obtain ⟨hmgr, htree⟩ := (create_ends hexists hmkdir).of_run h
      unfold Shows at htree
      simp [Traceless, hmgr, htree, hexists]

/-- A call that throws leaves no trace exactly when it threw before it stored or made
    anything, or stored what was there. -/
theorem traceless_iff (env : Env) (u : Update) (s s' : CgroupState) (e : CgroupError)
    (h : update env u s = (.thrown e, s')) : Traceless s s' ↔ Harmless env s u := by
  by_cases hcreate : u = .create
  · subst hcreate
    exact create_failed_iff h
  have hharmless : Harmless env s u ↔ u.check ≠ .ok () ∨ u.store s.mgr.config = s.mgr.config := by
    cases u <;> first | exact Iff.rfl | exact absurd rfl hcreate
  rw [hharmless]
  cases hcheck : u.check with
  | error e' =>
    rw [update_refused hcheck] at h
    cases h
    simp [Traceless]
  | ok _ =>
    obtain ⟨hmgr, htree⟩ := (update_ends hcreate hcheck).of_run h
    unfold Shows at htree
    simp [Traceless, hmgr, htree]

/-- A system that opens no file for writing. -/
def readOnly : Env := { willing with openFails := fun _ => true }

def fresh : CgroupState := ⟨.make { name := "web", parentPath := "/docker-cpp" }, { dirs := [([], {}), (["docker-cpp"], {})] }⟩

def existing : CgroupState :=
  ⟨fresh.mgr, { dirs := [([], {}), (["docker-cpp"], {}), (["docker-cpp", "web"], {})] }⟩

/-- The cgroup whose `create` failed is there, and the limit that was not written is
    configured. -/
theorem a_failed_update_leaves_a_trace :
    (create readOnly fresh).1 =
        .thrown ⟨.ioError, "Failed to open file for writing: /docker-cpp/cgroup.subtree_control"⟩ ∧
      fresh.tree.isDirectory fresh.mgr.cgroupPath = false ∧
      (create readOnly fresh).2.tree.isDirectory fresh.mgr.cgroupPath = true ∧
      (setMemoryMax readOnly 4096 existing).1 =
        .thrown ⟨.ioError, "Failed to open file for writing: /docker-cpp/web/memory.max"⟩ ∧
      existing.mgr.config.maxBytes = 0 ∧ (setMemoryMax readOnly 4096 existing).2.mgr.config.maxBytes = 4096 := by
  decide +kernel

theorem traceless_iff_weight :
    update willing (.setCpuWeight 0) existing =
        (.thrown ⟨.invalidArgument, "CPU weight must be between 1 and 10000"⟩, existing) ∧
      (Traceless existing existing ↔ Harmless willing existing (.setCpuWeight 0)) :=
  ⟨by decide +kernel, traceless_iff willing (.setCpuWeight 0) existing existing
    ⟨.invalidArgument, "CPU weight must be between 1 and 10000"⟩ (by decide +kernel)⟩

end CgroupManager

end DockerCpp.Cgroup
