/-
  DockerCpp.Config.Expand — the two expanders of environment variables.

  `expandValue` (`config_manager.cpp`) collects the matches of a regular expression in the
  value and replaces them from back to front; `expandEnvironmentVariable` (`core/config.cpp`)
  looks for the next `$\x7b` in a string it changes on the way. Both are compared with one
  pass over the value: `tokens` cuts it into characters and variables, and `substitute`
  puts the value of each defined variable in its place.

  Positions are those of the source. `std::getenv` gets a C string: a name ends at its
  first NUL.
-/

import Mathlib.Data.List.TakeWhile
import DockerCpp.Lib.Text

namespace DockerCpp

open Lib

abbrev Env := List Char → Option (List Char)

def getenv (env : Env) (name : List Char) : Option (List Char) := env (name.takeWhile (· != '\x00'))

namespace Config

/-! ## config_manager.cpp -/

/-- `\$\{([^}]+)\}` -/
def envPattern : Regex Char :=
  .seq (.one (· == '$')) <| .seq (.one (· == '{')) <|
    .seq (.group 1 (.plus (· != '}'))) (.one (· == '}'))

structure Replacement where
  position : Nat
  length : Nat
  replacement : List Char

def replacements (env : Env) (found : List (Match Char)) : List Replacement :=
  found.filterMap fun m => (getenv env (m.str 1)).map fun v => ⟨m.position, m.length, v⟩

/-- The last replacement is made first. -/
def applyAll (rs : List Replacement) (value : List Char) : List Char :=
  rs.foldr (fun r result => replace result r.position r.length r.replacement) value

def expandValue (env : Env) (value : List Char) : List Char :=
  applyAll (replacements env (scan envPattern 0 0 value)) value

end Config

/-! ## core/config.cpp -/

namespace CoreConfig

def expandFrom (env : Env) (result : List Char) (start : Nat) : List Char :=
  match _hstart : find ['$', '{'] result start with
  | none => result
  | some start' =>
    match _hend : find ['}'] result start' with
    | none => result
    | some stop =>
      match getenv env ((result.drop (start' + 2)).take (stop - start' - 2)) with
      | some replacement => expandFrom env (replace result start' (stop - start' + 1) replacement)
          (start' + replacement.length)
      | none => expandFrom env result (stop + 1)
termination_by result.length - start
decreasing_by
  · have hs := find_bounds (by simp) _hstart
    have he := find_bounds (by simp) _hend
    simp only [replace, List.length_append, List.length_take, List.length_drop]
    omega
  · have hs := find_bounds (by simp) _hstart
    have he := find_bounds (by simp) _hend
    omega

def expandEnvironmentVariable (env : Env) (str : List Char) : List Char := expandFrom env str 0

end CoreConfig

/-! ## One pass -/

inductive Token where
  | text (c : Char)
  | var (name : List Char)

/-- A variable as it is written. -/
def spell (name : List Char) : List Char := '$' :: '{' :: (name ++ ['}'])

theorem spell_append (name after : List Char) : spell name ++ after = '$' :: '{' :: (name ++ '}' :: after) := by
  simp [spell]

theorem spell_length (name : List Char) : (spell name).length = name.length + 3 := by
  simp [spell]

/-- A variable reaches from `$\x7b` to the next closing brace. -/
def tokens : List Char → List Token
  | '$' :: '{' :: tail =>
    if '}' ∈ tail then
      let name := tail.takeWhile (· != '}')
      .var name :: tokens (tail.drop (name.length + 1))
    else .text '$' :: tokens ('{' :: tail)
  | c :: rest => .text c :: tokens rest
  | [] => []
termination_by s => s.length
decreasing_by
  · simp only [List.length_drop, List.length_cons]
    omega
  · simp
  · simp

def Token.render (env : Env) : Token → List Char
  | .text c => [c]
  | .var name => (env name).getD (spell name)

def substitute (env : Env) (s : List Char) : List Char := (tokens s).flatMap (Token.render env)

variable {name : List Char}

theorem takeWhile_name (h : '}' ∉ name) (after : List Char) : (name ++ '}' :: after).takeWhile (· != '}') = name := by
  rw [List.takeWhile_append_of_pos (bne_of_notMem h)]
  simp

theorem tokens_variable (h : '}' ∉ name) (after : List Char) :
    tokens (spell name ++ after) = .var name :: tokens after := by
  have htake : (name ++ '}' :: after).takeWhile (· != '}') = name := takeWhile_name h after
  rw [spell_append, tokens, if_pos (by simp)]
  simp [htake]

theorem tokens_text {c : Char} {rest : List Char} (h : ∀ tail, c :: rest = '$' :: '{' :: tail → '}' ∉ tail) :
    tokens (c :: rest) = .text c :: tokens rest := by
  by_cases hopen : ∃ tail, c :: rest = '$' :: '{' :: tail
  · obtain ⟨tail, heq⟩ := hopen
    have hno := h tail heq
    cases heq
    rw [tokens, if_neg hno]
  · rw [tokens]
    rintro tail rfl rfl
    exact hopen ⟨tail, rfl⟩

theorem getenv_eq (h : '\x00' ∉ name) (env : Env) : getenv env name = env name := by
  rw [getenv, List.takeWhile_eq_self_iff.mpr (bne_of_notMem h)]

theorem substitute_text {c : Char} {rest : List Char} (h : ∀ tail, c :: rest = '$' :: '{' :: tail → '}' ∉ tail)
    (env : Env) : substitute env (c :: rest) = c :: substitute env rest := by
  rw [substitute, tokens_text h]
  rfl

theorem substitute_variable (h : '}' ∉ name) (after : List Char) (env : Env) :
    substitute env (spell name ++ after) = (env name).getD (spell name) ++ substitute env after := by
  rw [substitute, tokens_variable h]
  rfl

/-- The cases of `tokens`, as an induction. -/
inductive Cut : List Char → Prop where
  | nil : Cut []
  | var {name after : List Char} (h : '}' ∉ name) (rest : Cut after) : Cut (spell name ++ after)
  | text {c : Char} {after : List Char} (h : ∀ tail, c :: after = '$' :: '{' :: tail → '}' ∉ tail) (rest : Cut after) :
    Cut (c :: after)

theorem cut (s : List Char) : Cut s := by
  induction hn : s.length using Nat.strongRecOn generalizing s with
  | _ n ih =>
    cases s with
    | nil => exact .nil
    | cons c rest =>
      by_cases hvar : ∃ tail, c :: rest = '$' :: '{' :: tail ∧ '}' ∈ tail
      · obtain ⟨tail, heq, hmem⟩ := hvar
        obtain ⟨name, after, rfl, hno⟩ := List.eq_append_cons_of_mem hmem
        rw [heq, ← spell_append] at hn ⊢
        refine .var hno (ih _ ?_ after rfl)
        simp only [spell, List.length_cons, List.length_append] at hn
        omega
      · exact .text (fun tail heq hmem => hvar ⟨tail, heq, hmem⟩) (ih _ (by rw [← hn]; simp) rest rfl)

/-! ## The regular expression -/

namespace Config

/-- A name, and the closing brace. -/
def namePattern : Regex Char :=
  .seq (.group 1 (.plus (· != '}'))) (.one (· == '}'))

theorem ways_open (tail : List Char) : envPattern.ways ('$' :: '{' :: tail) = namePattern.ways tail := by
  simp [envPattern, namePattern, Regex.plus]

/-- The name reaches to the first closing brace. -/
theorem first_variable {name : List Char} (hne : name ≠ []) (h : '}' ∉ name) (after : List Char) :
    envPattern.first ('$' :: '{' :: (name ++ '}' :: after)) = some ([(1, name)], after) := by
  rw [Regex.first, ways_open, namePattern, Regex.ways_plus_until Regex.startsWith_one hne h, Regex.ways_one rfl]
  rfl

variable {s : List Char}

/-- Nothing matches where no variable with a name begins. -/
theorem first_none (h : ∀ name after, s = '$' :: '{' :: (name ++ '}' :: after) → '}' ∉ name → name = []) :
    envPattern.first s = none := by
  cases s with
  | nil => rfl
  | cons c s =>
    by_cases hc : c = '$'
    · cases s with
      | nil => simp [Regex.first, envPattern, Regex.plus, hc]
      | cons d tail =>
        by_cases hd : d = '{'
        · subst hc hd
          rw [Regex.first, ways_open, namePattern]
          by_cases hmem : '}' ∈ tail
          · obtain ⟨name, after, rfl, hname⟩ := List.eq_append_cons_of_mem hmem
            rw [h name after rfl hname, List.nil_append, Regex.ways_plus_empty]
            rfl
          · rw [Regex.ways_plus_unended Regex.startsWith_one hmem]
            rfl
        · simp [Regex.first, envPattern, Regex.plus, hc, hd]
    · simp [Regex.first, envPattern, Regex.plus, hc]

theorem scan_empty_name (position : Nat) (after : List Char) :
    scan envPattern 0 position ('$' :: '{' :: '}' :: after) = scan envPattern 0 (position + 3) after := by
  have hempty : envPattern.first ('$' :: '{' :: '}' :: after) = none := by
    rw [Regex.first, ways_open]
    simp [namePattern, Regex.plus]
  have hother : ∀ c rest, c ≠ '$' → envPattern.first (c :: rest) = none := fun c rest hc =>
    first_none fun name post heq => absurd (List.cons.inj heq).1 hc
  rw [scan_none hempty, scan_none (hother _ _ (by decide)), scan_none (hother _ _ (by decide))]

theorem scan_variable {name : List Char} (hne : name ≠ []) (h : '}' ∉ name) (position : Nat) (after : List Char) :
    scan envPattern 0 position (spell name ++ after) =
      ⟨position, (spell name).length, [(1, name)]⟩ :: scan envPattern 0 (position + (spell name).length) after := by
  refine scan_some (by simp [spell]) ?_ position
  rw [spell_append]
  exact first_variable hne h after

/-! ## expandValue -/

/-- What is replaced in the rest of a value leaves the text before it alone. -/
theorem applyAll_scan {env : Env} (hempty : env [] = none) (hs : '\x00' ∉ s) (pre : List Char) :
    applyAll (replacements env (scan envPattern 0 pre.length s)) (pre ++ s) = pre ++ substitute env s := by
  induction cut s generalizing pre with
  | nil => simp [scan, replacements, applyAll, substitute, tokens]
  | text h rest ih =>
    rename_i c after
    have hnone : envPattern.first (c :: after) = none := first_none fun name post heq _ => by
      exact absurd (by simp) (h _ heq)
    have := ih (fun hmem => hs (List.mem_cons_of_mem c hmem)) (pre ++ [c])
    rw [scan_none hnone, substitute_text h]
    simpa using this
  | @var name after h rest ih =>
    have hnext := ih (fun hmem => hs (by simp [hmem])) (pre ++ spell name)
    rw [List.length_append, List.append_assoc, List.append_assoc] at hnext
    rw [substitute_variable h]
    by_cases hne : name = []
    · -- the expression wants a name: the three characters are passed one by one
      subst hne
      rw [hempty]
      exact (scan_empty_name pre.length after) ▸ hnext
    · have hname : getenv env name = env name := getenv_eq (fun hmem => hs (by simp [spell, hmem])) env
      have hstr : Match.str ⟨pre.length, (spell name).length, [(1, name)]⟩ 1 = name := rfl
      rw [scan_variable hne h, replacements]
      cases hv : env name with
      | none =>
        rw [List.filterMap_cons_none (by rw [hstr, hname, hv]; rfl)]
        exact hnext
      | some v =>
        rw [List.filterMap_cons_some (by rw [hstr, hname, hv]; rfl)]
        show replace (applyAll (replacements env _) (pre ++ (spell name ++ after))) _ _ v = _
        rw [hnext, replace_append]
        rfl

theorem expandValue_eq {env : Env} (hempty : env [] = none) (hs : '\x00' ∉ s) :
    expandValue env s = substitute env s :=
  applyAll_scan hempty hs []

end Config

/-! ## expandEnvironmentVariable -/

namespace CoreConfig

theorem expandFrom_eq (env : Env) (result : List Char) (start : Nat) :
    expandFrom env result start =
      match find ['$', '{'] result start with
      | none => result
      | some start' =>
        match find ['}'] result start' with
        | none => result
        | some stop =>
          match getenv env ((result.drop (start' + 2)).take (stop - start' - 2)) with
          | some replacement => expandFrom env (replace result start' (stop - start' + 1) replacement)
              (start' + replacement.length)
          | none => expandFrom env result (stop + 1) := by
  rw [expandFrom]
  split
  · rename_i h
    rw [h]
  · rename_i start' h
    rw [h]
    split
    · rename_i h'
      simp only [h']
    · rename_i stop h'
      simp only [h']

theorem expandFrom_noBrace (env : Env) {s : List Char} (h : '}' ∉ s) (pre : List Char) :
    expandFrom env (pre ++ s) pre.length = pre ++ s := by
  rw [expandFrom_eq]
  cases hf : find ['$', '{'] (pre ++ s) pre.length with
  | none => rfl
  | some start =>
    have hnone : find ['}'] (pre ++ s) start = none := by
      have hle := (find_bounds (by simp) hf).1
      rw [find, indexOf_singleton_none]
      · rfl
      · intro hmem
        rw [List.drop_append, List.drop_eq_nil_of_le hle, List.nil_append] at hmem
        exact h (List.mem_of_mem_drop hmem)
    simp only [hnone]

theorem expandFrom_eq_substitute (env : Env) {s : List Char} (hs : '\x00' ∉ s)
    (pre : List Char) : expandFrom env (pre ++ s) pre.length = pre ++ substitute env s := by
  induction cut s generalizing pre with
  | nil =>
    rw [expandFrom_noBrace env (by simp)]
    simp [substitute, tokens]
  | @text c after h rest ih =>
    have hnext := ih (fun hmem => hs (List.mem_cons_of_mem c hmem)) (pre ++ [c])
    have htext : pre ++ c :: after = (pre ++ [c]) ++ after := by simp
    by_cases hopen : ∃ tail, c :: after = '$' :: '{' :: tail
    · -- without a closing brace nothing changes, here or after `c`
      obtain ⟨tail, heq⟩ := hopen
      have hno : '}' ∉ c :: after := by
        rw [heq]
        simp [h tail heq]
      rw [expandFrom_noBrace env (fun hmem => hno (List.mem_cons_of_mem c hmem))] at hnext
      rw [expandFrom_noBrace env hno, substitute_text h, ← List.append_cancel_left hnext]
    · have hfind : find ['$', '{'] ((pre ++ [c]) ++ after) pre.length =
          find ['$', '{'] ((pre ++ [c]) ++ after) (pre ++ [c]).length := by
        have hnot : ¬ ['$', '{'] <+: c :: after := fun ⟨tail, heq⟩ => hopen ⟨tail, heq.symm⟩
        rw [find_append, ← htext, find_append, indexOf_cons hnot, Option.map_map]
        congr 1
        funext i
        simp only [Function.comp, List.length_append, List.length_singleton]
        omega
      rw [htext, expandFrom_eq, hfind, ← expandFrom_eq, hnext, substitute_text h]
      simp
  | @var name after h rest ih =>
    have hnul : '\x00' ∉ after := fun hmem => hs (by simp [hmem])
    have hname : getenv env name = env name := getenv_eq (fun hmem => hs (by simp [spell, hmem])) env
    have hstart : find ['$', '{'] (pre ++ (spell name ++ after)) pre.length = some pre.length := by
      rw [find_append, spell_append]
      rfl
    have hstop : find ['}'] (pre ++ (spell name ++ after)) pre.length = some (pre.length + (name.length + 2)) := by
      have hspell : spell name ++ after = ('$' :: '{' :: name) ++ '}' :: after := by simp [spell]
      rw [find_append, hspell, indexOf_singleton (by simp [h])]
      rfl
    have hcut : ((pre ++ (spell name ++ after)).drop (pre.length + 2)).take
        (pre.length + (name.length + 2) - pre.length - 2) = name := by
      rw [← List.drop_drop, List.drop_left, spell_append]
      simp
    rw [expandFrom_eq, hstart]
    simp only [hstop, hcut, hname]
    rw [substitute_variable h]
    cases hv : env name with
    | none =>
      have hnext := ih hnul (pre ++ spell name)
      have hlen : (pre ++ spell name).length = pre.length + (name.length + 2) + 1 := by
        rw [List.length_append, spell_length]
        omega
      rw [List.append_assoc, List.append_assoc, hlen] at hnext
      exact hnext
    | some v =>
      have hnext := ih hnul (pre ++ v)
      have hlen : pre.length + (name.length + 2) - pre.length + 1 = (spell name).length := by
        rw [spell_length]
        omega
      rw [List.append_assoc, List.append_assoc, List.length_append] at hnext
      simp only [hlen, replace_append]
      exact hnext

end CoreConfig

/-- Both give the value with every defined variable replaced once, for every environment
    in which no variable has an empty name. -/
theorem expanders_agree {env : Env} (hempty : env [] = none) {s : List Char} (hs : '\x00' ∉ s) :
    Config.expandValue env s = substitute env s ∧
    CoreConfig.expandEnvironmentVariable env s = substitute env s :=
  ⟨Config.expandValue_eq hempty hs, CoreConfig.expandFrom_eq_substitute env hs []⟩

/-- `A` stands for a text that looks like a variable. -/
def sampleEnv : Env := fun name =>
  if name = ['A'] then some (spell ['B']) else if name = ['B'] then some ['x'] else none

/-- The variables `A`, `B` and one without a name, one after the other, and one that does
    not end. -/
theorem expanders_agree_nested :
    let s := spell ['A'] ++ (spell ['B'] ++ (spell [] ++ ['$', '{', 'B']))
    Config.expandValue sampleEnv s = spell ['B'] ++ (['x'] ++ (spell [] ++ ['$', '{', 'B'])) ∧
    CoreConfig.expandEnvironmentVariable sampleEnv s = spell ['B'] ++ (['x'] ++ (spell [] ++ ['$', '{', 'B'])) := by
  intro s
  have hsub : substitute sampleEnv s = spell ['B'] ++ (['x'] ++ (spell [] ++ ['$', '{', 'B'])) := by
    decide +kernel
  rw [← hsub]
  exact @expanders_agree sampleEnv rfl s (by decide)

end DockerCpp
