/-
  DockerCpp.Cgroup.Steady — the member functions that only write control files.

  `Steady m J E p`: with the manager `m` and a tree in `J`, `p` returns or throws an error
  in `E`, and leaves the manager as it is and the tree in `J`. `J` is any property of the
  tree that survives the writing of a control file, `E` any set of errors with the
  IO_ERRORs in it (`Allows`). A setter that is given the value that is already stored is
  steady, if what its check throws is in `E`; so `applyConfiguration` is, which sets what is
  stored.
-/

import DockerCpp.Cgroup.Manager

namespace DockerCpp.Cgroup

open Lib Lib.Prog DockerCpp.Runtime

abbrev Steady {α : Type} (m : CgroupManager) (J : Tree → Prop) (E : CgroupError → Prop)
    (p : Prog CgroupState CgroupError α) : Prop :=
  Keeps (fun s => s.mgr = m ∧ J s.tree) E p

structure Allows (J : Tree → Prop) (E : CgroupError → Prop) : Prop where
  writeFile {t : Tree} (p : Path) (name content : String) : J t → J (t.writeFile p name content)
  ioError (message : String) : E ⟨.ioError, message⟩

/-- What the checks throw on a configuration is in `E`. -/
structure Admits (E : CgroupError → Prop) (g : CgroupConfig) : Prop where
  cpu {e : CgroupError} : validateCpuParameters g.maxUsec g.periodUsec = .error e → E e
  weight {e : CgroupError} : validateCpuWeight g.weight = .error e → E e
  pid {e : CgroupError} : validatePidMax g.pidMax = .error e → E e

section

variable {m : CgroupManager} {J : Tree → Prop} {E : CgroupError → Prop}

theorem steady_modifyTree {f : Tree → Tree} (h : ∀ t, J t → J (f t)) : Steady m J E (CgroupManager.modifyTree f) :=
  keeps_modify fun s hs => ⟨hs.1, h s.tree hs.2⟩

/-- A setter that is given the value that is already stored. -/
theorem steady_modifyConfig {f : CgroupConfig → CgroupConfig} (h : f m.config = m.config) :
    Steady m J E (CgroupManager.modifyConfig f) := by
  refine keeps_modify ?_
  intro s hs
  obtain ⟨rfl, htree⟩ := hs
  refine ⟨?_, htree⟩
  show { s.mgr with config := f s.mgr.config } = s.mgr
  rw [h]

theorem steady_require {check : Except CgroupError Unit} (h : ∀ {e}, check = .error e → E e) :
    Steady m J E (CgroupManager.require check) := by
  cases check with
  | ok u => exact keeps_pure ()
  | error e => exact keeps_throw (h rfl)

variable (env : Env)

theorem steady_flush (file : String) {write : Tree → Tree} (h : ∀ t, J t → J (write t)) :
    Steady m J E (CgroupManager.flush env file write) := by
  unfold CgroupManager.flush
  split
  · exact keeps_pure ()
  · exact steady_modifyTree h

variable (allows : Allows J E)

include allows

theorem steady_writeFileValue (dir name value : String) :
    Steady m J E (CgroupManager.writeFileValue env dir name value) := by
  refine keeps_bind (keeps_read _) ?_
  intro opened
  cases opened with
  | none => exact keeps_throw (allows.ioError _)
  | some p => exact steady_flush env _ fun t => allows.writeFile p name value

theorem steady_readFileValue (dir name : String) : Steady m J E (CgroupManager.readFileValue env dir name) := by
  refine keeps_bind (keeps_read _) ?_
  intro content
  cases content with
  | none => exact keeps_throw (allows.ioError _)
  | some text => exact keeps_pure _

theorem steady_writeOwn (name value : String) : Steady m J E (CgroupManager.writeOwn env name value) :=
  keeps_bind (keeps_read _) fun _ => steady_writeFileValue env allows _ _ _

theorem steady_writeCpuMax : Steady m J E (CgroupManager.writeCpuMax env) :=
  keeps_bind (keeps_read _) fun _ => steady_writeOwn env allows _ _

theorem steady_setCpuMax (h : Admits E m.config) :
    Steady m J E (CgroupManager.setCpuMax env m.config.maxUsec m.config.periodUsec) := by
  refine keeps_bind (steady_require h.cpu) fun _ => ?_
  exact keeps_bind (steady_modifyConfig rfl) fun _ => steady_writeCpuMax env allows

theorem steady_setCpuWeight (h : Admits E m.config) : Steady m J E (CgroupManager.setCpuWeight env m.config.weight) := by
  refine keeps_bind (steady_require h.weight) fun _ => ?_
  exact keeps_bind (steady_modifyConfig rfl) fun _ => steady_writeOwn env allows _ _

theorem steady_setCpuBurst : Steady m J E (CgroupManager.setCpuBurst env m.config.burstUsec) := by
  refine keeps_bind (steady_modifyConfig rfl) fun _ => ?_
  refine keeps_bind (keeps_read _) fun path => ?_
  refine keeps_tryCatch (keeps_bind (steady_readFileValue env allows path "cpu.max") fun _ => keeps_pure ()) ?_
  exact fun _ _ => keeps_pure ()

theorem steady_setBytes {store : Nat → CgroupConfig → CgroupConfig} {file : String} {bytes : Nat}
    (h : store bytes m.config = m.config) : Steady m J E (CgroupManager.setBytes env store file bytes) :=
  keeps_bind (steady_modifyConfig h) fun _ => steady_writeOwn env allows _ _

theorem steady_setOomKillEnable : Steady m J E (CgroupManager.setOomKillEnable env m.config.oomKillEnable) :=
  keeps_bind (steady_modifyConfig rfl) fun _ => steady_writeOwn env allows _ _

theorem steady_setPidMax (h : Admits E m.config) : Steady m J E (CgroupManager.setPidMax env m.config.pidMax) := by
  refine keeps_bind (steady_require h.pid) fun _ => ?_
  exact keeps_bind (steady_modifyConfig rfl) fun _ => steady_writeOwn env allows _ _

theorem steady_enableControllers : Steady m J E (CgroupManager.enableControllers env) := by
  refine keeps_bind (keeps_read _) fun m' => ?_
  refine keeps_when fun _ => ?_
  refine keeps_bind (keeps_tryCatch (steady_readFileValue env allows _ _) fun _ _ => keeps_pure _) fun _ => ?_
  exact steady_writeFileValue env allows _ _ _

theorem steady_applyConfiguration (h : Admits E m.config) : Steady m J E (CgroupManager.applyConfiguration env) := by
  refine keeps_bind_read (a := m) (fun _ hs => hs.1) ?_
  refine keeps_bind (keeps_when fun _ => ?_) fun _ => ?_
  · refine keeps_bind (steady_setCpuMax env allows h) fun _ => ?_
    refine keeps_bind (steady_setCpuWeight env allows h) fun _ => ?_
    exact keeps_when fun _ => steady_setCpuBurst env allows
  refine keeps_bind (keeps_when fun _ => ?_) fun _ => ?_
  · refine keeps_bind (steady_setBytes env allows rfl) fun _ => ?_
    refine keeps_bind (steady_setBytes env allows rfl) fun _ => ?_
    refine keeps_bind (steady_setBytes env allows rfl) fun _ => ?_
    refine keeps_bind (steady_setBytes env allows rfl) fun _ => ?_
    exact steady_setOomKillEnable env allows
  · exact keeps_when fun _ => steady_setPidMax env allows h

end

end DockerCpp.Cgroup
