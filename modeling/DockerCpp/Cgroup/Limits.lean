/-
  DockerCpp.Cgroup.Limits — the limits a container asks for against those a cgroup takes.

  `ContainerConfig::validate` compares the CPU quota with the period and leaves the ranges
  to nobody; `setupCgroups` hands the numbers on, and the cgroup manager checks them. They
  pass exactly in the ranges of `InRange` (`limits_accepted_iff`); outside of them `create`
  throws INVALID_ARGUMENT, which `setupCgroups` logs, and the container runs without limits
  (`a_valid_container_is_refused_its_limits`).

  `setupCalls` are the calls `setupCgroups` makes (`setupCgroups_eq`).

  The swap limit is twice the memory limit, in 64 bits, whatever `memory_swap_limit` says
  (`swap_honoured_iff`); twice a limit of 2^63 is 0, which is written as no limit.
-/

import DockerCpp.Cgroup.Steady
import DockerCpp.Runtime.Container
import DockerCpp.Runtime.ContainerConfig

namespace DockerCpp.Cgroup

open Lib Lib.Prog DockerCpp.Runtime

/-! ## The calls of `setupCgroups` -/

def setupCalls (c : Container) : List CgroupCall :=
  let g := Container.cgroupConfig c
  let r := c.config.resources
  [.create] ++
  (if 0 < r.cpuShares then [.setCpuMax g.maxUsec g.periodUsec, .setCpuWeight g.weight] else []) ++
  (if 0 < r.memoryLimit then [.setMemoryMax g.maxBytes, .setMemorySwapMax g.swapMaxBytes] else []) ++
  (if 0 < r.pidsLimit then [.setPidMax g.pidMax] else [])

theorem setupCgroups_eq {σ : Type} (os : Os σ) :
    Container.setupCgroups os = Container.ignoreErrors (do
      let c ← Container.self
      Container.setCgroupManager os (some (Container.cgroupConfig c))
      forEach (Container.cgroupCall os (Container.cgroupConfig c)) (setupCalls c)) := by
  unfold Container.setupCgroups
  congr 1
  apply bind_congr
  intro c
  apply bind_congr
  intro _
  simp only [setupCalls, forEach_append, forEach_ite, forEach, LawfulMonad.bind_assoc, bind_pure_unit]

/-! ## No INVALID_ARGUMENT -/

def NotInvalid (e : CgroupError) : Prop := e.code ≠ .invalidArgument

def AnyTree (_ : Tree) : Prop := True

theorem allows_notInvalid : Allows AnyTree NotInvalid := ⟨fun _ _ _ _ => trivial, fun _ => by simp [NotInvalid]⟩

/-- The configuration passes the checks of the cgroup manager. -/
def Passes (g : CgroupConfig) : Prop :=
  validateCpuParameters g.maxUsec g.periodUsec = .ok () ∧ validateCpuWeight g.weight = .ok () ∧
    validatePidMax g.pidMax = .ok ()

theorem Passes.admits {g : CgroupConfig} (h : Passes g) : Admits NotInvalid g := by
  obtain ⟨hcpu, hweight, hpid⟩ := h
  constructor
  · intro e he
    rw [hcpu] at he
    cases he
  · intro e he
    rw [hweight] at he
    cases he
  · intro e he
    rw [hpid] at he
    cases he

section

variable {m : CgroupManager} (env : Env)

/-- `create`, where the directory is not there yet. -/
theorem create_steady (h : Passes m.config) {s : CgroupState} (hs : s.mgr = m)
    (hnew : s.tree.isDirectory m.cgroupPath = false) :
    Ends (CgroupManager.create env) s fun r s' => okOr NotInvalid r ∧ s'.mgr = m ∧ AnyTree s'.tree := by
  have hexists : s.tree.isDirectory s.mgr.cgroupPath = false := by rw [hs, hnew]
  unfold CgroupManager.create CgroupManager.exists_
  rw [ends_bind, ends_read, andThen_ok, ends_bind, ends_read, andThen_ok, hexists, if_neg (by simp)]
  cases env.mkdirError s.mgr.cgroupPath with
  | some message =>
    rw [ends_throw]
    exact ⟨by simp [okOr, NotInvalid], hs, trivial⟩
  | none =>
    have hsteady : Steady m AnyTree NotInvalid (do
        CgroupManager.modifyTree fun t => t.makeDirs (t.origin s.mgr.cgroupPath) (components s.mgr.cgroupPath)
        CgroupManager.enableControllers env
        CgroupManager.applyConfiguration env) := by
      refine keeps_bind (steady_modifyTree fun _ _ => trivial) fun _ => ?_
      refine keeps_bind (steady_enableControllers env allows_notInvalid) fun _ => ?_
      exact steady_applyConfiguration env allows_notInvalid h.admits
    exact hsteady s ⟨hs, trivial⟩

end

/-! ## The ranges -/

/-- What the cgroup manager takes. -/
def InRange (r : ResourceLimits) : Prop :=
  1000 ≤ r.cpuPeriod ∧ r.cpuPeriod ≤ 1000000 ∧ (r.cpuQuota = 0 ∨ 1000 ≤ r.cpuQuota) ∧
    1 ≤ r.cpuShares * 1024 ∧ r.cpuShares * 1024 < 10001 ∧ r.pidsLimit ≤ 4194303

/-- The values `setupCgroups` derives pass the checks, and none of the calls it makes throws
    INVALID_ARGUMENT, whatever else fails, where the cgroup is not there yet. -/
def LimitsAccepted (c : Container) : Prop :=
  Passes (Container.cgroupConfig c) ∧
    ∀ env tree, tree.isDirectory (buildCgroupPath (Container.cgroupConfig c)) = false →
      ∀ e s', forEach (CgroupManager.perform env) (setupCalls c) ⟨.make (Container.cgroupConfig c), tree⟩ =
        (.thrown e, s') → e.code ≠ .invalidArgument

variable {c : Container}

theorem setup_not_invalid (h : Passes (Container.cgroupConfig c)) (env : Env) {tree : Tree}
    (hnew : tree.isDirectory (buildCgroupPath (Container.cgroupConfig c)) = false) :
    Ends (forEach (CgroupManager.perform env) (setupCalls c)) ⟨.make (Container.cgroupConfig c), tree⟩ fun r s' =>
      okOr NotInvalid r ∧ s'.mgr = .make (Container.cgroupConfig c) ∧ AnyTree s'.tree := by
  have hrest : ∀ a ∈ (setupCalls c).tail,
      Steady (.make (Container.cgroupConfig c)) AnyTree NotInvalid (CgroupManager.perform env a) := by
    intro a ha
    simp only [setupCalls, List.cons_append, List.nil_append, List.tail_cons, List.mem_append, List.mem_ite_nil_right,
      List.mem_cons, List.not_mem_nil, or_false] at ha
    rcases ha with (⟨-, rfl | rfl⟩ | ⟨-, rfl | rfl⟩) | ⟨-, rfl⟩
    · exact steady_setCpuMax (m := .make (Container.cgroupConfig c)) env allows_notInvalid h.admits
    · exact steady_setCpuWeight (m := .make (Container.cgroupConfig c)) env allows_notInvalid h.admits
    · exact steady_setBytes env allows_notInvalid rfl
    · exact steady_setBytes env allows_notInvalid rfl
    · exact steady_setPidMax (m := .make (Container.cgroupConfig c)) env allows_notInvalid h.admits
  have hcons : setupCalls c = .create :: (setupCalls c).tail := rfl
  rw [hcons]
  simp only [forEach, ends_bind]
  refine Ends.mono (create_steady (m := .make (Container.cgroupConfig c)) env h rfl hnew) ?_
  intro r s' hpost
  obtain ⟨hr, hs'⟩ := hpost
  cases r with
  | ok a => exact keeps_forEach hrest s' hs'
  | thrown e => exact ⟨hr, hs'⟩
  | blocked => exact hr.elim

theorem cgroupConfig_of_shares (h : 0 < c.config.resources.cpuShares) :
    (Container.cgroupConfig c).maxUsec = c.config.resources.cpuQuota ∧
      (Container.cgroupConfig c).periodUsec = c.config.resources.cpuPeriod ∧
      (Container.cgroupConfig c).weight = (c.config.resources.cpuShares * 1024).floor.toNat := by
  unfold Container.cgroupConfig
  simp only [if_pos h]
  split <;> split <;> exact ⟨rfl, rfl, rfl⟩

theorem cgroupConfig_pidMax (c : Container) : (Container.cgroupConfig c).pidMax = c.config.resources.pidsLimit := by
  unfold Container.cgroupConfig
  simp only
  by_cases hp : 0 < c.config.resources.pidsLimit
  · rw [if_pos hp]
  · rw [if_neg hp]
    have : c.config.resources.pidsLimit = 0 := by omega
    rw [this]
    split <;> split <;> rfl

theorem weight_range {x : Rat} : 1 ≤ x.floor.toNat ∧ x.floor.toNat ≤ 10000 ↔ 1 ≤ x ∧ x < 10001 := by
  have hlow : (1 : Int) ≤ x.floor ↔ (1 : Rat) ≤ x := by
    have := Rat.le_floor_iff (x := 1) (a := x)
    simpa using this
  have hhigh : x.floor < 10001 ↔ x < 10001 := by
    have := Rat.floor_lt_iff (a := x) (x := 10001)
    simpa using this
  rw [← hlow, ← hhigh]
  omega

theorem passes_iff (h : 0 < c.config.resources.cpuShares) :
    Passes (Container.cgroupConfig c) ↔ InRange c.config.resources := by
  obtain ⟨hmax, hperiod, hweight⟩ := cgroupConfig_of_shares h
  unfold Passes InRange
  rw [hmax, hperiod, hweight, cgroupConfig_pidMax, ← and_assoc (b := _ < (10001 : Rat)), ← weight_range]
  unfold validateCpuParameters validateCpuWeight validatePidMax maxCpuWeight maxPidMax
  constructor
  · intro hp
    obtain ⟨h1, h2, h3⟩ := hp
    split at h1
    · cases h1
    · split at h1
      · cases h1
      · split at h2
        · cases h2
        · split at h3
          · cases h3
          · omega
  · intro hr
    rw [if_neg (by omega), if_neg (by omega), if_neg (by omega), if_neg (by omega)]
    exact ⟨rfl, rfl, rfl⟩

/-- The limits of a container with a CPU share are accepted by the cgroup layer exactly in
    its ranges. -/
theorem limits_accepted_iff (c : Container) (h : 0 < c.config.resources.cpuShares) :
    LimitsAccepted c ↔ InRange c.config.resources := by
  rw [← passes_iff h]
  constructor
  · exact fun haccepted => haccepted.1
  · intro hp
    refine ⟨hp, ?_⟩
    intro env tree hnew e s' hrun
    exact ((setup_not_invalid hp env hnew).of_run hrun).1

def mounted : Tree := { dirs := [([], {})] }

def sharing (shares : Rat) : Container :=
  { id := "1", config := { id := "1", name := "web", image := "nginx", resources := { cpuShares := shares } }
    createdAt := 0, startedAt := 0, finishedAt := 0 }

/-- Ten CPU shares are valid for the container and a weight of 10240 for the cgroup, whose
    `create` throws after it has made the directory. -/
theorem a_valid_container_is_refused_its_limits :
    (sharing 10).config.validate = [] ∧ 0 < (sharing 10).config.resources.cpuShares ∧
      validateCpuWeight (Container.cgroupConfig (sharing 10)).weight =
        .error ⟨.invalidArgument, "CPU weight must be between 1 and 10000"⟩ ∧
      (forEach (CgroupManager.perform willing) (setupCalls (sharing 10))
        ⟨.make (Container.cgroupConfig (sharing 10)), mounted⟩).1 =
        .thrown ⟨.invalidArgument, "CPU weight must be between 1 and 10000"⟩ := by
  decide +kernel

theorem limits_accepted_iff_one_share :
    0 < (sharing 1).config.resources.cpuShares ∧ (LimitsAccepted (sharing 1) ↔ InRange (sharing 1).config.resources) :=
  ⟨by decide +kernel, limits_accepted_iff (sharing 1) (by decide +kernel)⟩

/-! ## Swap -/

/-- The configured limit where there is one; and a limit, which is not below the memory's. -/
def SwapHonoured (r : ResourceLimits) (swap : Nat) : Prop :=
  (r.memorySwapLimit ≠ 0 → swap = r.memorySwapLimit) ∧ swap ≠ 0 ∧ r.memoryLimit ≤ swap

instance (r : ResourceLimits) (swap : Nat) : Decidable (SwapHonoured r swap) :=
  inferInstanceAs (Decidable ((r.memorySwapLimit ≠ 0 → swap = r.memorySwapLimit) ∧ swap ≠ 0 ∧ r.memoryLimit ≤ swap))

theorem cgroupConfig_swapMaxBytes (h : 0 < c.config.resources.memoryLimit) :
    (Container.cgroupConfig c).swapMaxBytes = c.config.resources.memoryLimit * 2 % 2 ^ 64 := by
  unfold Container.cgroupConfig
  simp only [if_pos h]
  split <;> rfl

theorem setMemorySwapMax_mem_setupCalls (h : 0 < c.config.resources.memoryLimit) (bytes : Nat) :
    .setMemorySwapMax bytes ∈ setupCalls c ↔ bytes = c.config.resources.memoryLimit * 2 % 2 ^ 64 := by
  rw [← cgroupConfig_swapMaxBytes h]
  simp [setupCalls, h]

/-- The swap limit that is set is honoured exactly when the memory limit can be doubled, and
    the configured swap limit, if there is one, is that double. -/
theorem swap_honoured_iff (c : Container) (h : 0 < c.config.resources.memoryLimit) :
    (∀ bytes, .setMemorySwapMax bytes ∈ setupCalls c → SwapHonoured c.config.resources bytes) ↔
      c.config.resources.memoryLimit * 2 < 2 ^ 64 ∧
        (c.config.resources.memorySwapLimit = 0 ∨
          c.config.resources.memorySwapLimit = c.config.resources.memoryLimit * 2) := by
  simp only [setMemorySwapMax_mem_setupCalls h, forall_eq]
  unfold SwapHonoured
  generalize c.config.resources.memoryLimit = limit at h ⊢
  constructor
  · intro hhonoured
    obtain ⟨hswap, -, hle⟩ := hhonoured
    have hfits : limit * 2 < 2 ^ 64 := by omega
    rw [Nat.mod_eq_of_lt hfits] at hswap
    refine ⟨hfits, ?_⟩
    by_cases h0 : c.config.resources.memorySwapLimit = 0
    · exact Or.inl h0
    · exact Or.inr (hswap h0).symm
  · intro hright
    obtain ⟨hfits, hswap⟩ := hright
    rw [Nat.mod_eq_of_lt hfits]
    refine ⟨?_, by omega, by omega⟩
    intro h0
    exact (hswap.resolve_left h0).symm

def limited (memory swap : Nat) : Container :=
  { id := "1", config := { id := "1", name := "web", image := "nginx",
                           resources := { memoryLimit := memory, memorySwapLimit := swap } }
    createdAt := 0, startedAt := 0, finishedAt := 0 }

/-- A memory limit of 2^63 bytes sets no swap limit, and a swap limit of 150 becomes 200. -/
theorem a_swap_limit_is_not_honoured :
    (limited (2 ^ 63) 0).config.validate = [] ∧ .setMemorySwapMax 0 ∈ setupCalls (limited (2 ^ 63) 0) ∧
      CgroupManager.limitText 0 = "max" ∧ (limited 100 150).config.validate = [] ∧
      .setMemorySwapMax 200 ∈ setupCalls (limited 100 150) ∧
      ¬SwapHonoured (limited 100 150).config.resources 200 := by
  decide +kernel

theorem swap_honoured_iff_one_limit :
    0 < (limited 100 0).config.resources.memoryLimit ∧
      ((∀ bytes, .setMemorySwapMax bytes ∈ setupCalls (limited 100 0) →
        SwapHonoured (limited 100 0).config.resources bytes) ↔
      (limited 100 0).config.resources.memoryLimit * 2 < 2 ^ 64 ∧
        ((limited 100 0).config.resources.memorySwapLimit = 0 ∨
          (limited 100 0).config.resources.memorySwapLimit = (limited 100 0).config.resources.memoryLimit * 2)) :=
  ⟨by decide, swap_honoured_iff (limited 100 0) (by decide)⟩

end DockerCpp.Cgroup
