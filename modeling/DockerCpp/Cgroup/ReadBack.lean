/-
  DockerCpp.Cgroup.ReadBack — the limits the statistics report are the limits that were set.

  A setter writes a limit as a decimal number, or as `max` for 0; the statistics read `max`
  as 0 and a number as itself (`readLimit_limitText`). The three setters write different
  files, so that each file has the last limit that was written to it (`ownFile_run`), in
  whatever order they were called.
-/

import DockerCpp.Cgroup.Statistics
import DockerCpp.Lib.Run

namespace DockerCpp.Cgroup

open Lib Lib.Prog Lib.Stream DockerCpp.Runtime

namespace CgroupManager

/-! ## A limit and its text -/

theorem toString_ne_max (n : Nat) : toString n ≠ "max" := by
  intro heq
  have hlist : Nat.toDigits 10 n = ['m', 'a', 'x'] := by
    rw [← Nat.toList_repr]
    exact congrArg String.toList heq
  exact notMem_toDigits (c := 'm') (by decide) n (by rw [hlist]; exact List.mem_cons_self)

theorem lineBreak_notMem_limitText (n : Nat) : '\n' ∉ (limitText n).toList := by
  unfold limitText
  split
  · decide
  · show '\n' ∉ n.repr.toList
    rw [Nat.toList_repr]
    exact notMem_toDigits (by decide) n

theorem firstLine_limitText (n : Nat) : firstLine (limitText n) = limitText n := by
  rw [firstLine, List.takeWhile_eq_self_iff.mpr (bne_of_notMem (lineBreak_notMem_limitText n)), String.ofList_toList]

variable {env : Env} {s : CgroupState} {file : String} {c : CgroupCall} {p : Path} {calls : List CgroupCall}

theorem readLimit_limitText {n : Nat} (hn : n < 2 ^ 64)
    (h : ownFile env file s = some (limitText n)) : readLimit env file s = some n := by
  rw [readLimit, readOwn_of_ownFile h, firstLine_limitText, Option.bind_some]
  by_cases h0 : n = 0
  · rw [h0]
    rfl
  · have htext : limitText n = toString n := if_neg h0
    have hdigits : (toString n).toList = Nat.toDigits 10 n := Nat.toList_repr
    have hnumber := strtoull_toDigits hn [] [] (by simp) (by simp)
    rw [htext, if_neg (toString_ne_max n), hdigits]
    simpa using hnumber

/-! ## A write and the files -/

theorem located_of_ownFile {name content : String} (h : ownFile env name s = some content) :
    ∃ p, s.tree.locate s.mgr.cgroupPath = some p ∧ (s.tree.dir? p).isSome = true := by
  obtain ⟨p, hp, hfile⟩ := Option.bind_eq_some_iff.mp h
  obtain ⟨d, hd, -⟩ := Option.bind_eq_some_iff.mp hfile
  unfold openDir at hp
  split at hp
  · cases hp
  · exact ⟨p, hp, Option.isSome_of_eq_some hd⟩

/-- The state after a setter has stored its value and written its file. -/
def wrote (s : CgroupState) (config : CgroupConfig) (p : Path) (file text : String) : CgroupState :=
  ⟨{ s.mgr with config := config }, s.tree.writeFile p file text⟩

theorem ownFile_wrote (hp : s.tree.locate s.mgr.cgroupPath = some p)
    (hd : (s.tree.dir? p).isSome = true) (hopen : env.openFails (s.mgr.cgroupPath ++ "/" ++ file) = false)
    (config : CgroupConfig) (text other : String) :
    ownFile env other (wrote s config p file text) = if other = file then some text else ownFile env other s := by
  unfold ownFile openDir wrote
  simp only [Tree.locate_writeFile, hp]
  by_cases h : other = file
  · rw [h, hopen, if_neg (by simp), Option.bind_some, Tree.file?_writeFile hd, if_pos ⟨rfl, rfl⟩, if_pos rfl]
  · rw [if_neg h]
    split
    · rfl
    · rw [Option.bind_some, Option.bind_some, Tree.file?_writeFile hd, if_neg (by simp [h])]

/-! ## The setters -/

def limitFiles : List String := ["memory.max", "memory.swap.max", "pids.max"]

/-- The files the limits are set in can be written, and all files can be read. -/
structure Ready (env : Env) (s : CgroupState) : Prop where
  opens : ∀ file ∈ "cgroup.procs" :: limitFiles, env.openFails (s.mgr.cgroupPath ++ "/" ++ file) = false
  writes : ∀ file ∈ limitFiles, env.writeFails (s.mgr.cgroupPath ++ "/" ++ file) = false
  numbers : ∀ file ∈ ["memory.current", "memory.peak", "memory.swap.current"], (readNumber env file s).isSome = true

def isSetter : CgroupCall → Bool
  | .setMemoryMax _ => true
  | .setMemorySwapMax _ => true
  | .setPidMax _ => true
  | _ => false

/-- The file a setter writes, and the limit; `setPidMax` throws on one that is too large. -/
def limitSet : CgroupCall → Option (String × Nat)
  | .setMemoryMax bytes => some ("memory.max", bytes)
  | .setMemorySwapMax bytes => some ("memory.swap.max", bytes)
  | .setPidMax max => if max ≤ maxPidMax then some ("pids.max", max) else none
  | _ => none

theorem Ready.located (h : Ready env s) : ∃ p, s.tree.locate s.mgr.cgroupPath = some p ∧ (s.tree.dir? p).isSome = true := by
  obtain ⟨n, hn⟩ := Option.isSome_iff_exists.mp (h.numbers "memory.current" (by simp))
  obtain ⟨value, hvalue, -⟩ := Option.bind_eq_some_iff.mp hn
  rw [readOwn_eq] at hvalue
  obtain ⟨content, hcontent, -⟩ := Option.map_eq_some_iff.mp hvalue
  exact located_of_ownFile hcontent

theorem writeOwn_run (text : String) (hp : s.tree.locate s.mgr.cgroupPath = some p)
    (hopen : env.openFails (s.mgr.cgroupPath ++ "/" ++ file) = false)
    (hwrite : env.writeFails (s.mgr.cgroupPath ++ "/" ++ file) = false) :
    Ends (writeOwn env file text) s fun r s' => r = .ok () ∧ s' = wrote s s.mgr.config p file text := by
  simp only [writeOwn, writeFileValue, flush, ends_bind, ends_read, andThen_ok, openDir, hopen, hp, if_false,
    Bool.false_eq_true, hwrite]
  exact ⟨rfl, rfl⟩

theorem setBytes_run (h : Ready env s) (hp : s.tree.locate s.mgr.cgroupPath = some p)
    (hfile : file ∈ limitFiles) (store : Nat → CgroupConfig → CgroupConfig) (bytes : Nat) :
    (setBytes env store file bytes s).2 = wrote s (store bytes s.mgr.config) p file (limitText bytes) := by
  have hrun : Ends (setBytes env store file bytes) s fun r s' =>
      r = .ok () ∧ s' = wrote s (store bytes s.mgr.config) p file (limitText bytes) := by
    simp only [setBytes, modifyConfig, ends_bind, ends_modify, andThen_ok]
    exact writeOwn_run (limitText bytes) hp (h.opens file (List.mem_cons_of_mem _ hfile)) (h.writes file hfile)
  exact hrun.2

theorem setPidMax_run (h : Ready env s) (hp : s.tree.locate s.mgr.cgroupPath = some p) {max : Nat}
    (hmax : max ≤ maxPidMax) :
    (setPidMax env max s).2 = wrote s { s.mgr.config with pidMax := max } p "pids.max" (limitText max) := by
  have hvalid : validatePidMax max = .ok () := if_neg (Nat.not_lt.mpr hmax)
  have hrun : Ends (setPidMax env max) s fun r s' =>
      r = .ok () ∧ s' = wrote s { s.mgr.config with pidMax := max } p "pids.max" (limitText max) := by
    simp only [setPidMax, hvalid, require, modifyConfig, ends_bind, ends_pure, ends_modify, andThen_ok]
    exact writeOwn_run (limitText max) hp (h.opens _ (by simp [limitFiles])) (h.writes _ (by simp [limitFiles]))
  exact hrun.2

/-- A setter that is not refused writes its limit to its file. -/
theorem perform_limit (h : Ready env s) (hp : s.tree.locate s.mgr.cgroupPath = some p)
    {n : Nat} (hset : limitSet c = some (file, n)) :
    file ∈ limitFiles ∧ ∃ config, (perform env c s).2 = wrote s config p file (limitText n) := by
  cases c with
  | setMemoryMax bytes =>
    cases hset
    exact ⟨by simp [limitFiles], _, setBytes_run h hp (by simp [limitFiles]) _ n⟩
  | setMemorySwapMax bytes =>
    cases hset
    exact ⟨by simp [limitFiles], _, setBytes_run h hp (by simp [limitFiles]) _ n⟩
  | setPidMax max =>
    simp only [limitSet] at hset
    split at hset
    · rename_i hmax
      cases hset
      exact ⟨by simp [limitFiles], _, setPidMax_run h hp hmax⟩
    · cases hset
  | create => cases hset
  | setCpuMax maxUsec periodUsec => cases hset
  | setCpuWeight weight => cases hset
  | addProcess pid => cases hset
  | destroy => cases hset
  | destruct => cases hset

/-- One that is refused changes nothing. -/
theorem perform_refused (hc : isSetter c = true) (hset : limitSet c = none) : (perform env c s).2 = s := by
  cases c with
  | setPidMax max =>
    have hlarge : maxPidMax < max := by
      simp only [limitSet] at hset
      split at hset
      · cases hset
      · omega
    have hinvalid : validatePidMax max = .error ⟨.invalidArgument, "PID max cannot exceed " ++ toString maxPidMax⟩ :=
      if_pos hlarge
    simp only [perform, setPidMax, hinvalid, require]
    rfl
  | setMemoryMax bytes => cases hset
  | setMemorySwapMax bytes => cases hset
  | create => cases hc
  | setCpuMax maxUsec periodUsec => cases hc
  | setCpuWeight weight => cases hc
  | addProcess pid => cases hc
  | destroy => cases hc
  | destruct => cases hc

/-! ## Any number of setters -/

/-- A client that catches what a setter throws. -/
def setterStep (env : Env) (s : CgroupState) (c : CgroupCall) : CgroupState := (perform env c s).2

/-- The limit a call sets in a file. -/
def limitIn (file : String) (c : CgroupCall) : Option Nat :=
  (limitSet c).bind fun w => if w.1 = file then some w.2 else none

/-- The last limit that the calls set in a file. -/
def lastLimit (file : String) (calls : List CgroupCall) (last : Option Nat) : Option Nat :=
  calls.foldl (fun last c => (limitIn file c).or last) last

theorem ready_step (h : Ready env s) (hc : isSetter c = true) : Ready env (setterStep env s c) := by
  obtain ⟨p, hp, hd⟩ := h.located
  unfold setterStep
  cases hset : limitSet c with
  | none =>
    rw [perform_refused hc hset]
    exact h
  | some w =>
    obtain ⟨file, n⟩ := w
    obtain ⟨hfile, config, hrun⟩ := perform_limit h hp hset
    rw [hrun]
    refine ⟨h.opens, h.writes, ?_⟩
    intro other hother
    have hne : other ≠ file := by
      rintro rfl
      simp only [limitFiles, List.mem_cons, List.not_mem_nil, or_false] at hother hfile
      rcases hfile with rfl | rfl | rfl
      · exact absurd hother (by decide)
      · exact absurd hother (by decide)
      · exact absurd hother (by decide)
    have hsame := ownFile_wrote hp hd (h.opens file (List.mem_cons_of_mem _ hfile)) config (limitText n) other
    rw [if_neg hne] at hsame
    rw [readNumber, readOwn_eq, hsame, ← readOwn_eq]
    exact h.numbers other hother

theorem ownFile_step (h : Ready env s) (hc : isSetter c = true) (file : String) :
    ownFile env file (setterStep env s c) = ((limitIn file c).map limitText).or (ownFile env file s) := by
  obtain ⟨p, hp, hd⟩ := h.located
  unfold setterStep limitIn
  cases hset : limitSet c with
  | none =>
    rw [perform_refused hc hset]
    rfl
  | some w =>
    obtain ⟨written, n⟩ := w
    obtain ⟨hfile, config, hrun⟩ := perform_limit h hp hset
    rw [hrun, ownFile_wrote hp hd (h.opens written (List.mem_cons_of_mem _ hfile)), Option.bind_some]
    by_cases heq : written = file
    · rw [if_pos heq, if_pos heq.symm]
      rfl
    · rw [if_neg heq, if_neg (Ne.symm heq)]
      rfl

theorem ready_run (hcalls : ∀ c ∈ calls, isSetter c = true) (h : Ready env s) :
    Ready env (runFrom (setterStep env) s calls) :=
  runFrom_eachStep (I := Ready env) (Q := fun _ c => isSetter c = true) (fun _ _ hs hc => ready_step hs hc) h
    (eachStep_of_forall (fun c hc _ => hcalls c hc) s)

/-- A file has the last limit that was set in it. -/
theorem ownFile_run (hcalls : ∀ c ∈ calls, isSetter c = true) (h : Ready env s)
    {last : Option Nat} (hlast : ∀ n, last = some n → ownFile env file s = some (limitText n)) :
    ∀ n, lastLimit file calls last = some n → ownFile env file (runFrom (setterStep env) s calls) = some (limitText n) := by
  induction calls generalizing s last with
  | nil => exact hlast
  | cons c calls ih =>
    have hc := hcalls c List.mem_cons_self
    refine ih (fun c' hc' => hcalls c' (List.mem_cons_of_mem _ hc')) (ready_step h hc) ?_
    intro n hn
    rw [ownFile_step h hc]
    cases hin : limitIn file c with
    | none =>
      simp only [hin, Option.none_or] at hn
      exact hlast n hn
    | some n' =>
      simp only [hin, Option.some_or, Option.some.injEq] at hn
      rw [hn]
      rfl

/-! ## The statistics -/

theorem getMemoryStats_limits (h : Ready env s) {m swap : Nat} (hm : readLimit env "memory.max" s = some m)
    (hswap : readLimit env "memory.swap.max" s = some swap) :
    (getMemoryStats env s).limit = m ∧ (getMemoryStats env s).swapLimit = swap := by
  obtain ⟨p, hp, -⟩ := h.located
  have hdir : s.tree.isDirectory s.mgr.cgroupPath = true := Option.isSome_of_eq_some hp
  obtain ⟨current, hcurrent⟩ := Option.isSome_iff_exists.mp (h.numbers "memory.current" (by simp))
  obtain ⟨peak, hpeak⟩ := Option.isSome_iff_exists.mp (h.numbers "memory.peak" (by simp))
  obtain ⟨swapCurrent, hswapCurrent⟩ := Option.isSome_iff_exists.mp (h.numbers "memory.swap.current" (by simp))
  unfold getMemoryStats
  rw [if_pos hdir, hcurrent, hm, hpeak, hswapCurrent, hswap]
  show (if 0 < m then _ else _ : MemoryStats).limit = m ∧ (if 0 < m then _ else _ : MemoryStats).swapLimit = swap
  split
  · exact ⟨rfl, rfl⟩
  · exact ⟨rfl, rfl⟩

theorem getPidStats_max (h : Ready env s) {n : Nat} (hn : readLimit env "pids.max" s = some n) :
    (getPidStats env s).max = n := by
  obtain ⟨p, hp, -⟩ := h.located
  have hdir : s.tree.isDirectory s.mgr.cgroupPath = true := Option.isSome_of_eq_some hp
  have hopen := h.opens "cgroup.procs" List.mem_cons_self
  have hprocesses : Ends (getProcesses env) s fun r _ => r = .ok (s.tree.members p) := by
    simp [getProcesses, exists_, hdir, openDir, hopen, hp]
  unfold getPidStats
  unfold Ends at hprocesses
  rw [if_pos hdir, hprocesses, hn]
  rfl

/-- After any calls of the three setters, the statistics report the last memory limit, the
    last swap limit and the last limit of processes, 0 standing for none. -/
theorem limits_read_back (env : Env) (s : CgroupState) (h : Ready env s) (calls : List CgroupCall)
    (hcalls : ∀ c ∈ calls, isSetter c = true) (m swap n : Nat) (hm : m < 2 ^ 64) (hswap : swap < 2 ^ 64)
    (hn : n ≤ maxPidMax) (hlastM : lastLimit "memory.max" calls none = some m)
    (hlastSwap : lastLimit "memory.swap.max" calls none = some swap)
    (hlastN : lastLimit "pids.max" calls none = some n) :
    (getMemoryStats env (runFrom (setterStep env) s calls)).limit = m ∧
      (getMemoryStats env (runFrom (setterStep env) s calls)).swapLimit = swap ∧
      (getPidStats env (runFrom (setterStep env) s calls)).max = n := by
  have hready := ready_run hcalls h
  have hfile : ∀ file n, lastLimit file calls none = some n →
      ownFile env file (runFrom (setterStep env) s calls) = some (limitText n) := by
    intro file
    refine ownFile_run hcalls h ?_
    intro n hnone
    cases hnone
  have hbound : n < 2 ^ 64 := by
    have : maxPidMax = 4194303 := rfl
    omega
  have hmemory := getMemoryStats_limits hready (readLimit_limitText hm (hfile _ m hlastM))
    (readLimit_limitText hswap (hfile _ swap hlastSwap))
  exact ⟨hmemory.1, hmemory.2, getPidStats_max hready (readLimit_limitText hbound (hfile _ n hlastN))⟩

def measured : CgroupState :=
  ⟨.make { name := "web", parentPath := "/docker-cpp" },
    { dirs := [([], {}), (["docker-cpp"], {}), (["docker-cpp", "web"], { files :=
        [("memory.current", "10\n"), ("memory.peak", "20\n"), ("memory.swap.current", "0\n"), ("memory.max", "max\n")] })] }⟩

theorem ready_measured : Ready willing measured := ⟨fun _ _ => rfl, fun _ _ => rfl, by decide +kernel⟩

theorem limits_read_back_measured :
    Ready willing measured ∧
      let s' := runFrom (setterStep willing) measured
        [.setPidMax 5, .setMemoryMax 7, .setMemorySwapMax 0, .setPidMax 4194304, .setMemoryMax 18446744073709551615]
      (getMemoryStats willing s').limit = 18446744073709551615 ∧ (getMemoryStats willing s').swapLimit = 0 ∧
        (getPidStats willing s').max = 5 :=
  ⟨ready_measured, limits_read_back willing measured ready_measured
    [.setPidMax 5, .setMemoryMax 7, .setMemorySwapMax 0, .setPidMax 4194304, .setMemoryMax 18446744073709551615]
    (by decide) 18446744073709551615 0 5 (by decide) (by decide) (by decide) (by decide) (by decide) (by decide)⟩

end CgroupManager

end DockerCpp.Cgroup
