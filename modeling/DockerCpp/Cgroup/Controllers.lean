/-
  DockerCpp.Cgroup.Controllers — what `enableControllers` writes to the parent's
  `cgroup.subtree_control`.

  The kernel reports the enabled controllers by their names, and takes requests `+name` and
  `-name`. `enableControllers` appends its requests to the line it reads (`request`,
  `enableControllers_eq`), so the names that are reported go back without a sign. A first
  request is well formed only where nothing is reported; the next one, made after the first
  was taken, never is (`controller_requests_iff`).
-/

import DockerCpp.Cgroup.Statistics
import DockerCpp.Lib.Split

namespace DockerCpp.Cgroup

open Lib Lib.Prog Lib.Stream DockerCpp.Runtime

/-! ## The kernel's side -/

/-- The parts of a request between its blanks. -/
def tokens (text : List Char) : List (List Char) := (text.splitOn ' ').filter (!·.isEmpty)

/-- `+name` or `-name`. -/
def isRequest : List Char → Bool
  | sign :: _ :: _ => sign == '+' || sign == '-'
  | _ => false

def WellFormed (text : String) : Prop := ∀ token ∈ tokens text.toList, isRequest token = true

instance (text : String) : Decidable (WellFormed text) :=
  List.decidableBAll (fun token => isRequest token = true) (tokens text.toList)

structure ControllerName where
  name : List Char
  word : isWord name = true
  unsigned : isRequest name = false

def cpuName : ControllerName := ⟨['c', 'p', 'u'], rfl, rfl⟩
def memoryName : ControllerName := ⟨['m', 'e', 'm', 'o', 'r', 'y'], rfl, rfl⟩
def ioName : ControllerName := ⟨['i', 'o'], rfl, rfl⟩
def pidsName : ControllerName := ⟨['p', 'i', 'd', 's'], rfl, rfl⟩

/-- The file as the kernel reports it. -/
def listing (names : List ControllerName) : String :=
  if names.isEmpty then "" else String.ofList ([' '].intercalate (names.map (·.name)) ++ ['\n'])

/-- Those of the four controllers that are enabled. -/
def enabledNames (controllers : Nat) : List ControllerName :=
  (if hasController controllers cpuController then [cpuName] else []) ++
  (if hasController controllers memoryController then [memoryName] else []) ++
  (if hasController controllers ioController then [ioName] else []) ++
  (if hasController controllers pidController then [pidsName] else [])

/-- What the kernel reports after it has taken the requests for `controllers`. -/
def reported (names : List ControllerName) (controllers : Nat) : List ControllerName :=
  names ++ (enabledNames controllers).filter fun n => !(names.map (·.name)).contains n.name

namespace CgroupManager

variable (env : Env)

/-! ## What is written -/

/-- The content of the parent's file, if it can be opened. -/
def parentFile (s : CgroupState) : Option String :=
  (openDir env (parentDir s.mgr.config) "cgroup.subtree_control" s).bind fun p => s.tree.file? p "cgroup.subtree_control"

def request (s : CgroupState) : Option String :=
  if controllersToEnable s.mgr.controllersEnabled = "" then none
  else some (((parentFile env s).map firstLine).getD "" ++ controllersToEnable s.mgr.controllersEnabled)

theorem enableControllers_eq (s : CgroupState) :
    enableControllers env s = (request env s).elim (.ok (), s) fun text =>
      writeFileValue env (parentDir s.mgr.config) "cgroup.subtree_control" text s := by
  have hread : Prog.tryCatch (readFileValue env (parentDir s.mgr.config) "cgroup.subtree_control") (fun _ => pure "") s =
      (.ok (((parentFile env s).map firstLine).getD ""), s) := by
    unfold Prog.tryCatch parentFile
    rw [readFileValue_run]
    cases (openDir env (parentDir s.mgr.config) "cgroup.subtree_control" s).bind fun p =>
      s.tree.file? p "cgroup.subtree_control" <;> rfl
  unfold enableControllers request
  show (when (controllersToEnable s.mgr.controllersEnabled ≠ "") _) s = _
  unfold when
  by_cases hwanted : controllersToEnable s.mgr.controllersEnabled = ""
  · rw [if_neg (not_not.mpr hwanted), if_pos hwanted]
    rfl
  · rw [if_pos hwanted, if_neg hwanted]
    show Prog.bind (Prog.tryCatch _ _) _ s = _
    rw [Prog.bind, hread]
    rfl

/-- The state in which `enableController` asks for the controllers. -/
def withController (controller : Nat) (s : CgroupState) : CgroupState :=
  { s with mgr := { s.mgr with controllersEnabled := s.mgr.controllersEnabled ||| controller } }

theorem enableController_eq {s : CgroupState} (h : s.tree.isDirectory s.mgr.cgroupPath = true) (controller : Nat) :
    enableController env controller s = enableControllers env (withController controller s) := by
  show (if (withController controller s).tree.isDirectory (withController controller s).mgr.cgroupPath
    then enableControllers env else pure ()) (withController controller s) = _
  rw [if_pos]
  exact h

end CgroupManager

/-! ## Tokens -/

theorem tokens_append (xs ys : List Char) : tokens (xs ++ ' ' :: ys) = tokens xs ++ tokens ys := by
  rw [tokens, List.splitOn_append_cons_self, List.filter_append]
  rfl

theorem tokens_word {w : List Char} (hne : w ≠ []) (h : ' ' ∉ w) : tokens w = [w] := by
  have hsplit : w.splitOn ' ' = [w] := by
    simpa using splitOn_append_of_notMem h []
  rw [tokens, hsplit]
  simpa using hne

theorem tokens_flatMap {ws : List (List Char)} (h : ∀ w ∈ ws, w ≠ [] ∧ ' ' ∉ w) (xs : List Char) :
    tokens (xs ++ ws.flatMap (' ' :: ·)) = tokens xs ++ ws := by
  induction ws generalizing xs with
  | nil => simp
  | cons w ws ih =>
    obtain ⟨hne, hblank⟩ := h w List.mem_cons_self
    have hrest := ih (fun w' hw' => h w' (List.mem_cons_of_mem _ hw')) (xs ++ ' ' :: w)
    rw [List.flatMap_cons, List.cons_append, ← List.cons_append, ← List.append_assoc, hrest, tokens_append,
      tokens_word hne hblank, List.append_assoc, List.singleton_append]

theorem ControllerName.nonempty (n : ControllerName) : n.name ≠ [] := (isWord_iff.mp n.word).1

theorem ControllerName.blank_notMem (n : ControllerName) : ' ' ∉ n.name := notMem_of_isWord n.word (by decide)

theorem ControllerName.lineBreak_notMem (n : ControllerName) : '\n' ∉ n.name := notMem_of_isWord n.word (by decide)

/-- The line of a listing. -/
def namesLine (names : List ControllerName) : List Char := [' '].intercalate (names.map (·.name))

theorem namesLine_cons (n : ControllerName) (names : List ControllerName) :
    namesLine (n :: names) = n.name ++ (names.map (·.name)).flatMap (' ' :: ·) := by
  rw [namesLine, List.map_cons, intercalate_cons]

theorem firstLine_listing (names : List ControllerName) :
    CgroupManager.firstLine (listing names) = String.ofList (namesLine names) := by
  cases names with
  | nil => rfl
  | cons n names =>
    have hbreak : '\n' ∉ namesLine (n :: names) := by
      rw [namesLine_cons, List.mem_append, List.mem_flatMap]
      rintro (hn | ⟨w, hw, hmem⟩)
      · exact n.lineBreak_notMem hn
      · obtain ⟨n', -, rfl⟩ := List.mem_map.mp hw
        rcases List.mem_cons.mp hmem with hblank | hmem
        · exact absurd hblank (by decide)
        · exact n'.lineBreak_notMem hmem
    show CgroupManager.firstLine (String.ofList (namesLine (n :: names) ++ ['\n'])) = _
    exact CgroupManager.firstLine_append hbreak []

/-- A request for each of the enabled controllers. -/
theorem controllersToEnable_toList (controllers : Nat) :
    (CgroupManager.controllersToEnable controllers).toList =
      ((enabledNames controllers).map fun n => '+' :: n.name).flatMap (' ' :: ·) := by
  unfold CgroupManager.controllersToEnable enabledNames
  cases hasController controllers cpuController <;> cases hasController controllers memoryController <;>
    cases hasController controllers ioController <;> cases hasController controllers pidController <;> decide +kernel

theorem tokens_request (names : List ControllerName) (controllers : Nat) :
    tokens (namesLine names ++ (CgroupManager.controllersToEnable controllers).toList) =
      names.map (·.name) ++ (enabledNames controllers).map fun n => '+' :: n.name := by
  have hplus : ∀ w ∈ (enabledNames controllers).map (fun n => '+' :: n.name), w ≠ [] ∧ ' ' ∉ w := by
    intro w hw
    obtain ⟨n, -, rfl⟩ := List.mem_map.mp hw
    exact ⟨List.cons_ne_nil _ _, by simp [n.blank_notMem]⟩
  rw [controllersToEnable_toList]
  cases names with
  | nil => exact tokens_flatMap hplus []
  | cons n names =>
    have hnames : ∀ w ∈ names.map (·.name), w ≠ [] ∧ ' ' ∉ w := by
      intro w hw
      obtain ⟨n', -, rfl⟩ := List.mem_map.mp hw
      exact ⟨n'.nonempty, n'.blank_notMem⟩
    rw [tokens_flatMap hplus, namesLine_cons, tokens_flatMap hnames, tokens_word n.nonempty n.blank_notMem]
    rfl

/-! ## Two calls -/

theorem controllersToEnable_eq_empty_iff (controllers : Nat) :
    CgroupManager.controllersToEnable controllers = "" ↔ enabledNames controllers = [] := by
  rw [← String.toList_eq_nil_iff, controllersToEnable_toList]
  cases enabledNames controllers with
  | nil => simp
  | cons n names => simp

/-- A request goes through where nothing is reported. -/
theorem wellFormed_request_iff (names : List ControllerName) (controllers : Nat) :
    WellFormed (String.ofList (namesLine names) ++ CgroupManager.controllersToEnable controllers) ↔ names = [] := by
  unfold WellFormed
  rw [String.toList_append, String.toList_ofList, tokens_request]
  constructor
  · intro h
    cases names with
    | nil => rfl
    | cons n names =>
      have hn := h n.name (by simp)
      rw [n.unsigned] at hn
      cases hn
  · intro h
    subst h
    intro token htoken
    obtain ⟨n, -, rfl⟩ := List.mem_map.mp htoken
    cases hname : n.name with
    | nil => exact absurd hname n.nonempty
    | cons c rest => rfl

theorem reported_eq_nil_iff (names : List ControllerName) (controllers : Nat) :
    reported names controllers = [] ↔ names = [] ∧ enabledNames controllers = [] := by
  unfold reported
  cases names with
  | nil => simp
  | cons n names => simp

theorem hasController_or {controllers controller : Nat} (h : hasController controllers controller = true) (again : Nat) :
    hasController (controllers ||| again) controller = true := by
  unfold hasController at h ⊢
  rw [beq_iff_eq] at h ⊢
  rw [Nat.and_or_distrib_right, h]
  apply Nat.eq_of_testBit_eq
  intro i
  rw [Nat.testBit_or, Nat.testBit_and]
  cases controller.testBit i <;> simp

theorem enabledNames_of_or {controllers again : Nat} (h : enabledNames (controllers ||| again) = []) :
    enabledNames controllers = [] := by
  have hoff : ∀ {controller : Nat} {n : ControllerName},
      (if hasController (controllers ||| again) controller then [n] else []) = [] →
        (if hasController controllers controller then [n] else []) = [] := by
    intro controller n hnone
    by_cases hon : hasController controllers controller = true
    · rw [hasController_or hon again] at hnone
      cases hnone
    · rw [if_neg hon]
  unfold enabledNames at h ⊢
  simp only [List.append_eq_nil_iff] at h ⊢
  exact ⟨⟨⟨hoff h.1.1.1, hoff h.1.1.2⟩, hoff h.1.2⟩, hoff h.2⟩

namespace CgroupManager

variable {env : Env} {names : List ControllerName}

theorem request_eq {s : CgroupState} (h : parentFile env s = some (listing names)) :
    request env s = if enabledNames s.mgr.controllersEnabled = [] then none
      else some (String.ofList (namesLine names) ++ controllersToEnable s.mgr.controllersEnabled) := by
  unfold request
  simp only [controllersToEnable_eq_empty_iff, h, Option.map_some, firstLine_listing, Option.getD_some]

theorem wellFormed_iff {s : CgroupState} (h : parentFile env s = some (listing names)) :
    (∀ text, request env s = some text → WellFormed text) ↔
      enabledNames s.mgr.controllersEnabled = [] ∨ names = [] := by
  rw [request_eq h]
  by_cases hnone : enabledNames s.mgr.controllersEnabled = []
  · simp [hnone]
  · simp [hnone, wellFormed_request_iff]

/-- The state in which `enableController` is called again: the first request was taken. -/
structure Resulting (env : Env) (names : List ControllerName) (again : Nat) (s s' : CgroupState) : Prop where
  enabled : s'.mgr.controllersEnabled = s.mgr.controllersEnabled ||| again
  file : parentFile env s' = some (listing (reported names s.mgr.controllersEnabled))

/-- The first request has only requests in it and one for each enabled controller, and the
    second one is well formed too, exactly when neither call asks for a controller, or only
    the second one does and no controller was reported. -/
theorem controller_requests_iff (env : Env) (names : List ControllerName) (again : Nat) (s s' : CgroupState)
    (h : parentFile env s = some (listing names)) (h' : Resulting env names again s s') :
    ((∀ text, request env s = some text → WellFormed text ∧
        ∀ n ∈ enabledNames s.mgr.controllersEnabled, '+' :: n.name ∈ tokens text.toList) ∧
      ∀ text, request env s' = some text → WellFormed text) ↔
      enabledNames s'.mgr.controllersEnabled = [] ∨ enabledNames s.mgr.controllersEnabled = [] ∧ names = [] := by
  have hcontains : ∀ text, request env s = some text →
      ∀ n ∈ enabledNames s.mgr.controllersEnabled, '+' :: n.name ∈ tokens text.toList := by
    intro text htext n hn
    rw [request_eq h] at htext
    split at htext
    · cases htext
    · cases htext
      rw [String.toList_append, String.toList_ofList, tokens_request]
      exact List.mem_append_right _ (List.mem_map_of_mem hn)
  have hfirst : (∀ text, request env s = some text → WellFormed text ∧
      ∀ n ∈ enabledNames s.mgr.controllersEnabled, '+' :: n.name ∈ tokens text.toList) ↔
      enabledNames s.mgr.controllersEnabled = [] ∨ names = [] := by
    rw [← wellFormed_iff h]
    exact forall₂_congr fun text htext => and_iff_left (hcontains text htext)
  have hmore : enabledNames s'.mgr.controllersEnabled = [] → enabledNames s.mgr.controllersEnabled = [] := by
    rw [h'.enabled]
    exact enabledNames_of_or
  rw [hfirst, wellFormed_iff h'.file, reported_eq_nil_iff]
  constructor
  · rintro ⟨hone, hnone | ⟨hnames, hnone⟩⟩
    · exact Or.inl hnone
    · exact Or.inr ⟨hnone, hnames⟩
  · rintro (hnone | ⟨hnone, hnames⟩)
    · exact ⟨Or.inl (hmore hnone), Or.inl hnone⟩
    · exact ⟨Or.inl hnone, Or.inr ⟨hnames, hnone⟩⟩

/-- A cgroup for the CPU whose parent's file has a content. -/
def parentShows (content : String) : CgroupState :=
  ⟨.make { name := "web", parentPath := "/docker-cpp", controllers := cpuController },
    { dirs := [([], {}), (["docker-cpp"], { files := [("cgroup.subtree_control", content)] }),
        (["docker-cpp", "web"], {})] }⟩

def requestWritten (s : CgroupState) : Option String := s.tree.file? ["docker-cpp"] "cgroup.subtree_control"

/-- A name that is reported is written back, at the first call and, after a first request
    that is well formed, at the next. -/
theorem a_reported_name_is_written_back :
    listing [memoryName] = "memory\n" ∧
      requestWritten (enableControllers willing (parentShows "memory\n")).2 = some "memory +cpu" ∧
      ¬WellFormed "memory +cpu" ∧ listing [] = "" ∧
      requestWritten (enableControllers willing (parentShows "")).2 = some " +cpu" ∧ WellFormed " +cpu" ∧
      listing (reported [] cpuController) = "cpu\n" ∧
      requestWritten (enableController willing memoryController (parentShows "cpu\n")).2 = some "cpu +cpu +memory" ∧
      ¬WellFormed "cpu +cpu +memory" := by
  decide +kernel

theorem controller_requests_iff_twice :
    parentFile willing (parentShows "") = some (listing []) ∧
      Resulting willing [] memoryController (parentShows "") (withController memoryController (parentShows "cpu\n")) ∧
      (((∀ text, request willing (parentShows "") = some text → WellFormed text ∧
          ∀ n ∈ enabledNames (parentShows "").mgr.controllersEnabled, '+' :: n.name ∈ tokens text.toList) ∧
        ∀ text, request willing (withController memoryController (parentShows "cpu\n")) = some text → WellFormed text) ↔
        enabledNames (withController memoryController (parentShows "cpu\n")).mgr.controllersEnabled = [] ∨
          enabledNames (parentShows "").mgr.controllersEnabled = [] ∧ ([] : List ControllerName) = []) :=
  ⟨by decide +kernel, ⟨rfl, by decide +kernel⟩, controller_requests_iff willing [] memoryController _ _
    (by decide +kernel) ⟨rfl, by decide +kernel⟩⟩

end CgroupManager

end DockerCpp.Cgroup
