/-
  DockerCpp.Cgroup.Statistics — what the manager reads off the control files
  (`getCpuStats`, `getMemoryStats`, `getIoStats`, `getPidStats`).

  The functions are const, so they are functions of the state. An exception ends the
  reading, and what was stored before it is returned (`reached`). A percentage is the
  quotient, without the rounding of a `double`; the fields of `MemoryStats` nothing is
  stored in are left out.

  All of them read a file with `readFileValue`, which gives its first line. So `cpu.stat`
  is read rightly exactly when the other lines say 0 or nothing (`cpu_stat_iff`). In a
  line of `io.stat` the pairs come after the blank that ends the part `getIoStats` looks
  for them in; it returns zeros, for whatever devices (`io_stat_iff`).
-/

import DockerCpp.Cgroup.Manager
import DockerCpp.Lib.Assoc
import DockerCpp.Lib.Stream

namespace DockerCpp.Cgroup

open Lib Lib.Prog Lib.Stream DockerCpp.Runtime

structure CpuStats where
  usageUsec : Nat := 0
  userUsec : Nat := 0
  systemUsec : Nat := 0
  nrPeriods : Nat := 0
  nrThrottled : Nat := 0
  throttledUsec : Nat := 0
  usagePercent : Rat := 0
  deriving DecidableEq, Repr

structure MemoryStats where
  current : Nat := 0
  peak : Nat := 0
  limit : Nat := 0
  swapCurrent : Nat := 0
  swapLimit : Nat := 0
  usagePercent : Rat := 0
  deriving DecidableEq, Repr

structure IoStats where
  rbytes : Nat := 0
  wbytes : Nat := 0
  rios : Nat := 0
  wios : Nat := 0
  dbytes : Nat := 0
  dios : Nat := 0
  deriving DecidableEq, Repr

structure PidStats where
  current : Nat := 0
  max : Nat := 0
  deriving DecidableEq, Repr

/-- The statistics when a reading ended, by an exception or not. -/
def reached {α : Type} : Except α α → α
  | .ok stats => stats
  | .error stats => stats

namespace CgroupManager

variable (env : Env)

/-- The content of one of the cgroup's files, if it can be opened. -/
def ownFile (name : String) (s : CgroupState) : Option String :=
  (openDir env s.mgr.cgroupPath name s).bind fun p => s.tree.file? p name

/-- `readFileValue` of one of the cgroup's files. -/
def readOwn (name : String) (s : CgroupState) : Option String :=
  match (readFileValue env s.mgr.cgroupPath name s).1 with
  | .ok value => some value
  | .thrown _ => none
  | .blocked => none

/-! ## CPU -/

def calculateCpuUsagePercent (stats : CpuStats) : Rat :=
  if stats.usageUsec = 0 then 0 else min 100 (stats.usageUsec / 1000000 * 100)

def setCpuStat (stats : CpuStats) (key : String) (value : Nat) : CpuStats :=
  if key = "usage_usec" then { stats with usageUsec := value }
  else if key = "user_usec" then { stats with userUsec := value }
  else if key = "system_usec" then { stats with systemUsec := value }
  else if key = "nr_periods" then { stats with nrPeriods := value }
  else if key = "nr_throttled" then { stats with nrThrottled := value }
  else if key = "throttled_usec" then { stats with throttledUsec := value }
  else stats

/-- `line_stream >> key >> value`. -/
def cpuLine (stats : CpuStats) (line : List Char) : CpuStats :=
  match word line with
  | some (key, rest) =>
    match strtoull rest with
    | some value => setCpuStat stats (String.ofList key) value
    | none => stats
  | none => stats

def getCpuStats (s : CgroupState) : CpuStats :=
  if s.tree.isDirectory s.mgr.cgroupPath then
    match readOwn env "cpu.stat" s with
    | some content =>
      let stats := (pieces '\n' content.toList).foldl cpuLine {}
      { stats with usagePercent := calculateCpuUsagePercent stats }
    | none => {}
  else {}

/-! ## Memory and processes -/

/-- `std::stoull` of a file. -/
def readNumber (name : String) (s : CgroupState) : Option Nat :=
  (readOwn env name s).bind fun value => strtoull value.toList

/-- A limit is a number, or `max` for none. -/
def readLimit (name : String) (s : CgroupState) : Option Nat :=
  (readOwn env name s).bind fun value => if value = "max" then some 0 else strtoull value.toList

/-- A field is assigned what was read; a failure ends the reading. -/
def assign {α : Type} (value : Option Nat) (stats : α) (store : Nat → α) : Except α α :=
  match value with
  | some v => .ok (store v)
  | none => .error stats

def getMemoryStats (s : CgroupState) : MemoryStats :=
  if s.tree.isDirectory s.mgr.cgroupPath then
    reached do
      let stats : MemoryStats := {}
      let stats ← assign (readNumber env "memory.current" s) stats fun v => { stats with current := v }
      let stats ← assign (readLimit env "memory.max" s) stats fun v => { stats with limit := v }
      let stats ← assign (readNumber env "memory.peak" s) stats fun v => { stats with peak := v }
      let stats ← assign (readNumber env "memory.swap.current" s) stats fun v => { stats with swapCurrent := v }
      let stats ← assign (readLimit env "memory.swap.max" s) stats fun v => { stats with swapLimit := v }
      pure (if 0 < stats.limit then { stats with usagePercent := stats.current / stats.limit * 100 } else stats)
  else {}

def getPidStats (s : CgroupState) : PidStats :=
  if s.tree.isDirectory s.mgr.cgroupPath then
    match (getProcesses env s).1 with
    | .ok processes =>
      let stats : PidStats := { current := processes.length }
      reached (assign (readLimit env "pids.max" s) stats fun v => { stats with max := v })
    | .thrown _ => {}
    | .blocked => {}
  else {}

/-! ## Input and output -/

def addIoStat (stats : IoStats) (key : String) (value : Nat) : IoStats :=
  if key = "rbytes" then { stats with rbytes := (stats.rbytes + value) % 2 ^ 64 }
  else if key = "wbytes" then { stats with wbytes := (stats.wbytes + value) % 2 ^ 64 }
  else if key = "rios" then { stats with rios := (stats.rios + value) % 2 ^ 64 }
  else if key = "wios" then { stats with wios := (stats.wios + value) % 2 ^ 64 }
  else if key = "dbytes" then { stats with dbytes := (stats.dbytes + value) % 2 ^ 64 }
  else if key = "dios" then { stats with dios := (stats.dios + value) % 2 ^ 64 }
  else stats

/-- One `key=value`; `std::stoull` may throw. -/
def ioStat (stats : IoStats) (stat : List Char) : Except IoStats IoStats :=
  match find ['='] stat 0 with
  | some pos =>
    match strtoull (stat.drop (pos + 1)) with
    | some value => .ok (addIoStat stats (String.ofList (stat.take pos)) value)
    | none => .error stats
  | none => .ok stats

/-- `substr(3)` throws on a shorter part. -/
def ioLine (stats : IoStats) (line : List Char) : Except IoStats IoStats :=
  match pieces ' ' line with
  | devicePart :: _ =>
    if devicePart.length < 3 then .error stats else (pieces ' ' (devicePart.drop 3)).foldlM ioStat stats
  | [] => .ok stats

def getIoStats (s : CgroupState) : IoStats :=
  if s.tree.isDirectory s.mgr.cgroupPath then
    match readOwn env "io.stat" s with
    | some content => reached ((pieces '\n' content.toList).foldlM ioLine {})
    | none => {}
  else {}

/-! ## Reading a file -/

variable {env} {name content : String} {s : CgroupState}

def firstLine (content : String) : String := String.ofList (content.toList.takeWhile (· != '\n'))

theorem readFileValue_run (env : Env) (dir name : String) (s : CgroupState) :
    readFileValue env dir name s = ((openDir env dir name s).bind fun p => s.tree.file? p name).elim
      (.thrown ⟨.ioError, "Failed to open file for reading: " ++ dir ++ "/" ++ name⟩, s)
      (fun content => (.ok (firstLine content), s)) := by
  unfold readFileValue
  show Prog.bind (read _) _ s = _
  unfold Prog.bind Prog.read
  dsimp only
  cases (openDir env dir name s).bind fun p => s.tree.file? p name <;> rfl

theorem readOwn_eq (env : Env) (name : String) (s : CgroupState) :
    readOwn env name s = (ownFile env name s).map firstLine := by
  rw [readOwn, readFileValue_run, ownFile]
  cases (openDir env s.mgr.cgroupPath name s).bind fun p => s.tree.file? p name <;> rfl

theorem firstLine_append {l : List Char} (h : '\n' ∉ l) (rest : List Char) :
    firstLine (String.ofList (l ++ '\n' :: rest)) = String.ofList l := by
  rw [firstLine, String.toList_ofList, takeWhile_run (bne_of_notMem h) (by simp)]

theorem readOwn_of_ownFile (h : ownFile env name s = some content) : readOwn env name s = some (firstLine content) := by
  rw [readOwn_eq, h]
  rfl

theorem isDirectory_of_ownFile (h : ownFile env name s = some content) : s.tree.isDirectory s.mgr.cgroupPath = true := by
  obtain ⟨p, hp, -⟩ := Option.bind_eq_some_iff.mp h
  unfold openDir at hp
  split at hp
  · cases hp
  · exact Option.isSome_of_eq_some hp

end CgroupManager

/-! ## `cpu.stat` -/

inductive CpuKey where
  | usageUsec
  | userUsec
  | systemUsec
  | nrPeriods
  | nrThrottled
  | throttledUsec
  deriving DecidableEq, Repr

def CpuKey.name : CpuKey → String
  | .usageUsec => "usage_usec"
  | .userUsec => "user_usec"
  | .systemUsec => "system_usec"
  | .nrPeriods => "nr_periods"
  | .nrThrottled => "nr_throttled"
  | .throttledUsec => "throttled_usec"

def CpuStats.value (stats : CpuStats) : CpuKey → Nat
  | .usageUsec => stats.usageUsec
  | .userUsec => stats.userUsec
  | .systemUsec => stats.systemUsec
  | .nrPeriods => stats.nrPeriods
  | .nrThrottled => stats.nrThrottled
  | .throttledUsec => stats.throttledUsec

/-- The lines of a `cpu.stat`: keys and values. -/
structure CpuStatFile where
  entries : List (String × Nat)
  distinct : (entries.map (·.1)).Nodup
  words : ∀ e ∈ entries, isWord e.1.toList = true
  bounded : ∀ e ∈ entries, e.2 < 2 ^ 64

def cpuStatLine (e : String × Nat) : List Char := e.1.toList ++ ' ' :: Nat.toDigits 10 e.2

def CpuStatFile.text (f : CpuStatFile) : String := String.ofList (f.entries.flatMap (cpuStatLine · ++ ['\n']))

/-- 0 for a key that is not listed. -/
def CpuStatFile.listed (f : CpuStatFile) (key : String) : Nat := (f.entries.lookup key).getD 0

namespace CgroupManager

theorem setCpuStat_value (stats : CpuStats) (key : String) (value : Nat) (k : CpuKey) :
    (setCpuStat stats key value).value k = if key = k.name then value else stats.value k := by
  cases k <;> simp only [CpuKey.name, CpuStats.value] <;> grind [setCpuStat]

theorem toDigits_isDigit {n : Nat} {c : Char} (h : c ∈ Nat.toDigits 10 n) : c.isDigit = true :=
  Nat.isDigit_of_mem_toDigits (by decide) (by decide) h

theorem notMem_toDigits {c : Char} (hc : c.isDigit = false) (n : Nat) : c ∉ Nat.toDigits 10 n := by
  intro hmem
  rw [toDigits_isDigit hmem] at hc
  cases hc

theorem lineBreak_notMem_cpuStatLine (f : CpuStatFile) {e : String × Nat} (he : e ∈ f.entries) :
    '\n' ∉ cpuStatLine e := by
  rw [cpuStatLine, List.mem_append, List.mem_cons]
  rintro (hkey | hblank | hdigit)
  · exact notMem_of_isWord (f.words e he) (by decide) hkey
  · exact absurd hblank (by decide)
  · exact notMem_toDigits (by decide) _ hdigit

theorem cpuLine_cpuStatLine (f : CpuStatFile) {e : String × Nat} (he : e ∈ f.entries) (stats : CpuStats) :
    cpuLine stats (cpuStatLine e) = setCpuStat stats e.1 e.2 := by
  have hword : word (cpuStatLine e) = some (e.1.toList, ' ' :: Nat.toDigits 10 e.2) :=
    word_append (f.words e he) (by simp [isSpace])
  have hnumber : strtoull (' ' :: Nat.toDigits 10 e.2) = some e.2 := by
    simpa using strtoull_toDigits (f.bounded e he) [' '] [] (by simp [isSpace]) (by simp)
  simp only [cpuLine, hword, hnumber, String.ofList_toList]

/-- The first line is all that is read. -/
theorem getCpuStats_value (f : CpuStatFile) (h : ownFile env "cpu.stat" s = some f.text) (k : CpuKey) :
    (getCpuStats env s).value k = ((f.entries.take 1).lookup k.name).getD 0 := by
  have hvalue : ∀ stats : CpuStats, ∀ percent, ({ stats with usagePercent := percent }).value k = stats.value k := by
    intro stats percent
    cases k <;> rfl
  rw [getCpuStats, if_pos (isDirectory_of_ownFile h), readOwn_of_ownFile h]
  simp only [hvalue]
  cases hentries : f.entries with
  | nil =>
    rw [CpuStatFile.text, hentries]
    cases k <;> rfl
  | cons e rest =>
    have he : e ∈ f.entries := by
      rw [hentries]
      exact List.mem_cons_self
    have hbreak := lineBreak_notMem_cpuStatLine f he
    have hne : cpuStatLine e ≠ [] := by simp [cpuStatLine]
    have hline : firstLine f.text = String.ofList (cpuStatLine e) := by
      rw [CpuStatFile.text, hentries, List.flatMap_cons, List.append_assoc, List.singleton_append,
        firstLine_append hbreak]
    rw [hline, String.toList_ofList, pieces_of_notMem hne hbreak, List.foldl_cons, List.foldl_nil,
      cpuLine_cpuStatLine f he, setCpuStat_value]
    obtain ⟨key, value⟩ := e
    have hzero : ({} : CpuStats).value k = 0 := by cases k <;> rfl
    by_cases hk : key = k.name
    · simp [hk]
    · simp [Assoc.lookup_cons_of_ne (Ne.symm hk), hk, hzero]

/-- `getCpuStats` returns what a `cpu.stat` lists exactly when the lines after the first
    have a 0 for each of the six keys they list. -/
theorem cpu_stat_iff (env : Env) (s : CgroupState) (f : CpuStatFile) (h : ownFile env "cpu.stat" s = some f.text) :
    (∀ k : CpuKey, (getCpuStats env s).value k = f.listed k.name) ↔
      ∀ e ∈ f.entries.tail, ∀ k : CpuKey, e.1 = k.name → e.2 = 0 := by
  simp only [getCpuStats_value f h, CpuStatFile.listed]
  have hdistinct := f.distinct
  generalize f.entries = entries at hdistinct
  cases entries with
  | nil => simp
  | cons e rest =>
    obtain ⟨key, value⟩ := e
    obtain ⟨hfirst, hrest⟩ := List.nodup_cons.mp hdistinct
    rw [List.tail_cons]
    constructor
    · intro hread e he k hk
      have hmem : k.name ∈ rest.map (·.1) := hk ▸ List.mem_map_of_mem he
      have hne : k.name ≠ key := fun heq => hfirst (heq ▸ hmem)
      have hlookup : rest.lookup k.name = some e.2 := Assoc.lookup_of_mem hrest (hk ▸ he)
      have hvalue := hread k
      rw [List.take_succ_cons, Assoc.lookup_cons_of_ne hne, Assoc.lookup_cons_of_ne hne, hlookup] at hvalue
      exact hvalue.symm
    · intro hzero k
      by_cases hk : k.name = key
      · simp [hk]
      · rw [List.take_succ_cons, Assoc.lookup_cons_of_ne hk, Assoc.lookup_cons_of_ne hk]
        cases hlookup : rest.lookup k.name with
        | none => rfl
        | some v =>
          obtain ⟨l₁, l₂, hl, -⟩ := List.lookup_eq_some_iff.mp hlookup
          exact (hzero (k.name, v) (by rw [hl]; simp) k rfl).symm

/-- A cgroup with one file. -/
def oneFile (name content : String) : CgroupState :=
  ⟨.make { name := "web", parentPath := "/docker-cpp" },
    { dirs := [([], {}), (["docker-cpp"], {}), (["docker-cpp", "web"], { files := [(name, content)] })] }⟩

def threeLines : CpuStatFile where
  entries := [("usage_usec", 500), ("user_usec", 300), ("system_usec", 200)]
  distinct := by decide
  words := by decide +kernel
  bounded := by decide

/-- Of three lines the first is read. -/
theorem only_the_first_line_counts :
    ownFile willing "cpu.stat" (oneFile "cpu.stat" threeLines.text) = some threeLines.text ∧
      threeLines.text = "usage_usec 500\nuser_usec 300\nsystem_usec 200\n" ∧
      (getCpuStats willing (oneFile "cpu.stat" threeLines.text)).usageUsec = 500 ∧
      (getCpuStats willing (oneFile "cpu.stat" threeLines.text)).userUsec = 0 ∧ threeLines.listed "user_usec" = 300 ∧
      (getCpuStats willing (oneFile "cpu.stat" threeLines.text)).systemUsec = 0 ∧
      threeLines.listed "system_usec" = 200 := by
  decide +kernel

theorem cpu_stat_iff_three_lines :
    ownFile willing "cpu.stat" (oneFile "cpu.stat" threeLines.text) = some threeLines.text ∧
      ((∀ k : CpuKey, (getCpuStats willing (oneFile "cpu.stat" threeLines.text)).value k = threeLines.listed k.name) ↔
        ∀ e ∈ threeLines.entries.tail, ∀ k : CpuKey, e.1 = k.name → e.2 = 0) :=
  ⟨by decide +kernel, cpu_stat_iff willing _ threeLines (by decide +kernel)⟩

end CgroupManager

/-! ## `io.stat` -/

inductive IoKey where
  | rbytes
  | wbytes
  | rios
  | wios
  | dbytes
  | dios
  deriving DecidableEq, Repr

def IoKey.name : IoKey → String
  | .rbytes => "rbytes"
  | .wbytes => "wbytes"
  | .rios => "rios"
  | .wios => "wios"
  | .dbytes => "dbytes"
  | .dios => "dios"

def IoStats.value (stats : IoStats) : IoKey → Nat
  | .rbytes => stats.rbytes
  | .wbytes => stats.wbytes
  | .rios => stats.rios
  | .wios => stats.wios
  | .dbytes => stats.dbytes
  | .dios => stats.dios

/-- A device and its `key=value` pairs. -/
structure IoDevice where
  major : Nat
  minor : Nat
  pairs : List (String × Nat)
  deriving DecidableEq, Repr

def IoDevice.number (d : IoDevice) : List Char := Nat.toDigits 10 d.major ++ ':' :: Nat.toDigits 10 d.minor

def ioPair (e : String × Nat) : List Char := ' ' :: e.1.toList ++ '=' :: Nat.toDigits 10 e.2

def IoDevice.line (d : IoDevice) : List Char := d.number ++ d.pairs.flatMap ioPair

/-- The lines of an `io.stat`. -/
structure IoStatFile where
  devices : List IoDevice
  words : ∀ d ∈ devices, ∀ e ∈ d.pairs, isWord e.1.toList = true ∧ '=' ∉ e.1.toList

def IoStatFile.text (f : IoStatFile) : String := String.ofList (f.devices.flatMap (·.line ++ ['\n']))

/-- The sum of the values with a key, over all lines. -/
def IoStatFile.total (f : IoStatFile) (key : String) : Nat :=
  (f.devices.flatMap fun d => (d.pairs.filter (·.1 = key)).map (·.2)).sum

namespace CgroupManager

theorem notMem_number {c : Char} (hdigit : c.isDigit = false) (hcolon : c ≠ ':') (d : IoDevice) : c ∉ d.number := by
  rw [IoDevice.number, List.mem_append, List.mem_cons]
  rintro (hmajor | hc | hminor)
  · exact notMem_toDigits hdigit _ hmajor
  · exact hcolon hc
  · exact notMem_toDigits hdigit _ hminor

theorem lineBreak_notMem_ioLine (f : IoStatFile) {d : IoDevice} (hd : d ∈ f.devices) : '\n' ∉ d.line := by
  rw [IoDevice.line, List.mem_append, List.mem_flatMap]
  rintro (hnumber | ⟨e, he, hpair⟩)
  · exact notMem_number (by decide) (by decide) d hnumber
  · rw [ioPair, List.cons_append, List.mem_cons, List.mem_append, List.mem_cons] at hpair
    rcases hpair with hblank | hkey | hequals | hvalue
    · exact absurd hblank (by decide)
    · exact notMem_of_isWord (f.words d hd e he).1 (by decide) hkey
    · exact absurd hequals (by decide)
    · exact notMem_toDigits (by decide) _ hvalue

/-- The part up to the first blank is the number of the device. -/
theorem ioLine_head (d : IoDevice) : ∃ rest, pieces ' ' d.line = d.number :: rest := by
  have hblank : ' ' ∉ d.number := notMem_number (by decide) (by decide) d
  rw [IoDevice.line]
  cases hpairs : d.pairs with
  | nil =>
    refine ⟨[], ?_⟩
    rw [List.flatMap_nil, List.append_nil, pieces_of_notMem (by simp [IoDevice.number]) hblank]
  | cons e rest =>
    rw [List.flatMap_cons, ioPair, List.cons_append, List.cons_append]
    exact ⟨_, pieces_append hblank _⟩

theorem ioStat_of_notMem {stat : List Char} (h : '=' ∉ stat) (stats : IoStats) : ioStat stats stat = .ok stats := by
  have hfind : find ['='] stat 0 = none := by
    rw [find_eq_none_iff]
    exact fun hoccurs => h (hoccurs.subset List.mem_cons_self)
  rw [ioStat, hfind]

theorem foldlM_ioStat {ls : List (List Char)} (h : ∀ l ∈ ls, '=' ∉ l) (stats : IoStats) :
    ls.foldlM ioStat stats = .ok stats := by
  induction ls with
  | nil => rfl
  | cons l ls ih =>
    rw [List.foldlM_cons, ioStat_of_notMem (h l List.mem_cons_self)]
    exact ih fun l' hl' => h l' (List.mem_cons_of_mem _ hl')

/-- No pair is found in the number of a device. -/
theorem ioLine_line (d : IoDevice) (stats : IoStats) : ioLine stats d.line = .ok stats := by
  obtain ⟨rest, hrest⟩ := ioLine_head d
  have hlength : ¬d.number.length < 3 := by
    have hmajor := List.length_pos_iff.mpr (Nat.toDigits_ne_nil (b := 10) (n := d.major))
    have hminor := List.length_pos_iff.mpr (Nat.toDigits_ne_nil (b := 10) (n := d.minor))
    rw [IoDevice.number, List.length_append, List.length_cons]
    omega
  have hequals : '=' ∉ d.number := notMem_number (by decide) (by decide) d
  rw [ioLine, hrest]
  show (if _ then _ else _) = _
  rw [if_neg hlength]
  exact foldlM_ioStat (fun l hl hmem => hequals (List.mem_of_mem_drop (subset_of_mem_pieces hl hmem))) stats

theorem getIoStats_zero (f : IoStatFile) (h : ownFile env "io.stat" s = some f.text) : getIoStats env s = {} := by
  rw [getIoStats, if_pos (isDirectory_of_ownFile h), readOwn_of_ownFile h]
  show reached _ = _
  cases hdevices : f.devices with
  | nil =>
    rw [IoStatFile.text, hdevices]
    rfl
  | cons d rest =>
    have hbreak := lineBreak_notMem_ioLine f (d := d) (by rw [hdevices]; exact List.mem_cons_self)
    have hne : d.line ≠ [] := by simp [IoDevice.line, IoDevice.number]
    have hline : firstLine f.text = String.ofList d.line := by
      rw [IoStatFile.text, hdevices, List.flatMap_cons, List.append_assoc, List.singleton_append,
        firstLine_append hbreak]
    rw [hline, String.toList_ofList, pieces_of_notMem hne hbreak, List.foldlM_cons, ioLine_line]
    rfl

/-- `getIoStats` returns the sums of an `io.stat` exactly when all of them are 0. -/
theorem io_stat_iff (env : Env) (s : CgroupState) (f : IoStatFile) (h : ownFile env "io.stat" s = some f.text) :
    (∀ k : IoKey, (getIoStats env s).value k = f.total k.name) ↔ ∀ k : IoKey, f.total k.name = 0 := by
  rw [getIoStats_zero f h]
  have hzero : ∀ k : IoKey, ({} : IoStats).value k = 0 := by
    intro k
    cases k <;> rfl
  simp only [hzero, eq_comm]

def oneDevice : IoStatFile where
  devices := [⟨8, 0, [("rbytes", 12345), ("wbytes", 67890), ("rios", 12), ("wios", 34), ("dbytes", 5678), ("dios", 56)]⟩]
  words := by decide +kernel

/-- The line the source gives as an example is read as zeros. -/
theorem no_pair_is_read :
    ownFile willing "io.stat" (oneFile "io.stat" oneDevice.text) = some oneDevice.text ∧
      oneDevice.text = "8:0 rbytes=12345 wbytes=67890 rios=12 wios=34 dbytes=5678 dios=56\n" ∧
      getIoStats willing (oneFile "io.stat" oneDevice.text) = {} ∧ oneDevice.total "rbytes" = 12345 := by
  decide +kernel

theorem io_stat_iff_one_device :
    ownFile willing "io.stat" (oneFile "io.stat" oneDevice.text) = some oneDevice.text ∧
      ((∀ k : IoKey, (getIoStats willing (oneFile "io.stat" oneDevice.text)).value k = oneDevice.total k.name) ↔
        ∀ k : IoKey, oneDevice.total k.name = 0) :=
  ⟨by decide +kernel, io_stat_iff willing _ oneDevice (by decide +kernel)⟩

end CgroupManager

end DockerCpp.Cgroup
