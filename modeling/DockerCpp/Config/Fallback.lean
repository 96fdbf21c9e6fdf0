/-
  DockerCpp.Config.Fallback — reading JSON in both builds, and what a failure leaves.

  Without nlohmann::json `mergeFromJsonString` removes the whitespace, makes three checks
  and then sets what a regular expression finds: strings, integers and booleans under the
  key right before them. `std::stoi` throws on an integer that does not fit; what was set
  before it stays.

  Either way a document comes down to the calls of `set` it makes and what it throws at the
  end (`Build.parse`, `mergeFromJsonString_eq`). `loadFromJsonString` clears the
  configuration first, so a document that is refused leaves nothing of it
  (`failed_json_intact_iff`).
-/

import DockerCpp.Config.JsonRoundTrip
import DockerCpp.Lib.Text

namespace DockerCpp.Config

open Lib Lib.Prog

/-! ## The fallback parser -/

/-- The class of `\s`. -/
def isSpace (c : Char) : Bool := c == ' ' || c == '\t' || c == '\n' || c == '\x0b' || c == '\x0c' || c == '\r'

/-- `std::regex_replace` of `\s+` by nothing. -/
def clean (text : String) : List Char := text.toList.filter (!isSpace ·)

/-- The quotes that do not follow a backslash. -/
def quoteCount : (previous : Option Char) → List Char → Nat
  | _, [] => 0
  | previous, c :: rest => (if c = '"' ∧ previous ≠ some '\\' then 1 else 0) + quoteCount (some c) rest

/-- `"([^"]+)"\s*:\s*`, the key in group `n`. -/
def keyPattern (n : Nat) : Regex Char :=
  .seq (.one (· == '"')) <| .seq (.group n (.plus (· != '"'))) <| .seq (.one (· == '"')) <|
    .seq (.many isSpace) <| .seq (.one (· == ':')) (.many isSpace)

def kvPattern : Regex Char :=
  .alt (.seq (keyPattern 1) <| .seq (.one (· == '"')) <| .seq (.group 2 (.many (· != '"'))) (.one (· == '"'))) <|
  .alt (.seq (keyPattern 3) (.group 4 (.plus Char.isDigit)))
    (.seq (keyPattern 5) (.group 6 (.alt (.literal "true".toList) (.literal "false".toList))))

/-- Digits only; `none` is `std::out_of_range`. -/
def stoi (digits : List Char) : Option Int32 :=
  let n := digits.foldl (fun n c => 10 * n + (c.toNat - '0'.toNat)) 0
  if n ≤ 2147483647 then some (Int32.ofNat n) else none

/-- What a match sets, if anything. -/
def entry (m : Match Char) : Option (Except ContainerError (String × ConfigValue)) :=
  if m.matched 2 then some (.ok (String.ofList (m.str 1), .string (String.ofList (m.str 2))))
  else if m.matched 4 then
    match stoi (m.str 4) with
    | some n => some (.ok (String.ofList (m.str 3), .integer n))
    | none => some (.error ⟨.configInvalid, "JSON parsing failed: stoi"⟩)
  else if m.matched 6 then some (.ok (String.ofList (m.str 5), .boolean (m.str 6 == "true".toList)))
  else none

def store (m : Match Char) : Prog ConfigManager Thrown Unit :=
  match entry m with
  | some (.ok e) => modify fun c => c.set e.1 e.2
  | some (.error e) => throw (.container e)
  | none => pure ()

/-- The checks before the first `set`. -/
def refused (cleaned : List Char) : Option ContainerError :=
  if cleaned = [] ∨ (cleaned.head? ≠ some '{' ∧ cleaned.head? ≠ some '[') ∨
      (cleaned.getLast? ≠ some '}' ∧ cleaned.getLast? ≠ some ']') then
    some ⟨.configInvalid, "Invalid JSON: must start with \x7b or [ and end with \x7d or ]"⟩
  else if quoteCount none cleaned % 2 ≠ 0 then some ⟨.configInvalid, "Invalid JSON: unbalanced quotes"⟩
  else if find [':', '}'] cleaned 0 ≠ none ∨ find [':', ']'] cleaned 0 ≠ none then
    some ⟨.configInvalid, "Invalid JSON: malformed structure"⟩
  else none

/-- What `std::sregex_iterator` finds. -/
def matchesIn (text : String) : List (Match Char) := scan kvPattern 0 0 (clean text)

def mergeFallback (text : String) : Prog ConfigManager Thrown Unit :=
  match refused (clean text) with
  | some e => throw (.container e)
  | none => forEach store (matchesIn text)

/-! ## The two builds -/

inductive Build where
  | nlohmann (codec : Codec)
  | fallback

def Build.mergeFromJsonString : Build → String → Prog ConfigManager Thrown Unit
  | .nlohmann codec, text => ConfigManager.mergeFromJsonString codec text
  | .fallback, text => mergeFallback text

def Build.loadFromJsonString (b : Build) (text : String) : Prog ConfigManager Thrown Unit := do
  modify ConfigManager.clear
  b.mergeFromJsonString text

/-! ## What a document does -/

/-- The calls of `set` it makes, and the exception it ends with. -/
structure Parsed where
  entries : List (String × ConfigValue) := []
  error : Option Thrown := none

def Parsed.result (p : Parsed) : Res Thrown Unit :=
  match p.error with
  | some e => .thrown e
  | none => .ok ()

def parseMatches : List (Match Char) → Parsed
  | [] => {}
  | m :: rest =>
    match entry m with
    | some (.ok e) => { parseMatches rest with entries := e :: (parseMatches rest).entries }
    | some (.error e) => { error := some (.container e) }
    | none => parseMatches rest

def Build.parse : Build → String → Parsed
  | .nlohmann codec, text =>
    match codec.parse text with
    | .error failure => { error := some failure.rethrown }
    | .ok json => { entries := (entries codec.dump json).map fun e => (keyOf e.1, e.2) }
  | .fallback, text =>
    match refused (clean text) with
    | some e => { error := some (.container e) }
    | none => parseMatches (matchesIn text)

def ConfigManager.setEach (c : ConfigManager) (es : List (String × ConfigValue)) : ConfigManager :=
  es.foldl (fun c e => c.set e.1 e.2) c

/-- The values after `es` were set. -/
def writeAll (values : Values) (es : List (String × ConfigValue)) : Values :=
  es.foldl (fun m e => m.insert e.1 e.2) values

theorem setEach_values (c : ConfigManager) (es : List (String × ConfigValue)) :
    (c.setEach es).values = writeAll c.values es := by
  induction es generalizing c with
  | nil => rfl
  | cons e es ih =>
    show ((c.set e.1 e.2).setEach es).values = _
    rw [ih, set_values]
    rfl

theorem setEach_layers (c : ConfigManager) (es : List (String × ConfigValue)) : (c.setEach es).layers = c.layers := by
  induction es generalizing c with
  | nil => rfl
  | cons e es ih =>
    show ((c.set e.1 e.2).setEach es).layers = _
    rw [ih, set_layers]

theorem forEach_store (ms : List (Match Char)) (c : ConfigManager) :
    forEach store ms c = ((parseMatches ms).result, c.setEach (parseMatches ms).entries) := by
  induction ms generalizing c with
  | nil => rfl
  | cons m ms ih =>
    show Prog.bind (store m) (fun _ => forEach store ms) c = _
    unfold Prog.bind store parseMatches
    cases entry m with
    | none => exact ih c
    | some r =>
      cases r with
      | error e => rfl
      | ok e => exact ih (c.set e.1 e.2)

theorem mergeFromJsonString_eq (b : Build) (text : String) (c : ConfigManager) :
    b.mergeFromJsonString text c = ((b.parse text).result, c.setEach (b.parse text).entries) := by
  cases b with
  | nlohmann codec =>
    simp only [Build.mergeFromJsonString, ConfigManager.mergeFromJsonString, Build.parse]
    cases codec.parse text with
    | error failure => rfl
    | ok json =>
      show (Res.ok (), processJson codec.dump json "" c) = (Res.ok (), ConfigManager.setEach c (List.map _ _))
      rw [processJson_eq, ConfigManager.setEach, List.foldl_map]
      rfl
  | fallback =>
    simp only [Build.mergeFromJsonString, mergeFallback, Build.parse]
    cases refused (clean text) with
    | some e => rfl
    | none => exact forEach_store _ c

theorem loadFromJsonString_eq (b : Build) (text : String) (c : ConfigManager) :
    b.loadFromJsonString text c = ((b.parse text).result, c.clear.setEach (b.parse text).entries) :=
  mergeFromJsonString_eq b text c.clear

/-- The last value that is set under a key. -/
def lastUnder (key : String) (es : List (String × ConfigValue)) : Option ConfigValue :=
  (es.filterMap fun e => if e.1 = key then some e.2 else none).getLast?

theorem writeAll_lookup (values : Values) (es : List (String × ConfigValue)) (key : String) :
    (writeAll values es)[key]? = (lastUnder key es).or values[key]? := getElem?_foldl_insert values es key

theorem writeAll_eq_self_iff (values : Values) (es : List (String × ConfigValue)) :
    writeAll values es = values ↔ ∀ k v, lastUnder k es = some v → values[k]? = some v := by
  constructor
  · intro h k v hv
    rw [← h, writeAll_lookup, hv, Option.some_or]
  · intro h
    apply Std.ExtTreeMap.ext_getElem?
    intro k
    rw [writeAll_lookup]
    cases hv : lastUnder k es with
    | none => rfl
    | some v => rw [h k v hv, Option.some_or]

theorem writeAll_empty_iff (values : Values) (es : List (String × ConfigValue)) :
    writeAll ∅ es = values ↔ ∀ k, values[k]? = lastUnder k es := by
  have hlookup : ∀ k, (writeAll ∅ es)[k]? = lastUnder k es := by
    intro k
    rw [writeAll_lookup, Std.ExtTreeMap.getElem?_empty, Option.or_none]
  constructor
  · rintro rfl k
    exact hlookup k
  · intro h
    apply Std.ExtTreeMap.ext_getElem?
    intro k
    rw [hlookup, h]

/-! ## What the fallback finds in a text -/

/-- An integer that `std::stoi` refuses. -/
def tooLarge (m : Match Char) : Bool := !m.matched 2 && m.matched 4 && (stoi (m.str 4)).isNone

/-- The key and the value of any other match. -/
def pair (m : Match Char) : Option (String × ConfigValue) := (entry m).bind Except.toOption

theorem entry_eq (m : Match Char) :
    entry m = if tooLarge m then some (.error ⟨.configInvalid, "JSON parsing failed: stoi"⟩) else (pair m).map .ok := by
  unfold pair tooLarge entry
  cases m.matched 2 <;> cases m.matched 4 <;> cases m.matched 6 <;> cases stoi (m.str 4) <;> rfl

theorem parseMatches_eq (ms : List (Match Char)) :
    parseMatches ms =
      { entries := (ms.takeWhile (!tooLarge ·)).filterMap pair
        error := if ms.any tooLarge then some (.container ⟨.configInvalid, "JSON parsing failed: stoi"⟩) else none } := by
  induction ms with
  | nil => rfl
  | cons m ms ih =>
    rw [parseMatches, entry_eq, List.takeWhile_cons, List.any_cons]
    cases tooLarge m with
    | true => rfl
    | false =>
      rw [ih]
      cases hp : pair m <;> simp [hp]

/-- The text passes the checks and has an integer that does not fit. -/
def Overflows (text : String) : Prop := refused (clean text) = none ∧ (matchesIn text).any tooLarge = true

/-- What is set before that integer. -/
def pairsBefore (text : String) : List (String × ConfigValue) :=
  ((matchesIn text).takeWhile (!tooLarge ·)).filterMap pair

theorem fallback_parse_error_iff (text : String) :
    (∃ e, (Build.fallback.parse text).error = some (.container e)) ↔ refused (clean text) ≠ none ∨ Overflows text := by
  unfold Overflows
  rw [Build.parse]
  cases refused (clean text) with
  | some e => simp
  | none =>
    rw [parseMatches_eq]
    cases (matchesIn text).any tooLarge <;> simp

theorem fallback_parse_entries (text : String) :
    (Build.fallback.parse text).entries = if refused (clean text) = none then pairsBefore text else [] := by
  rw [Build.parse]
  cases refused (clean text) with
  | some e => rfl
  | none => rw [parseMatches_eq, if_pos rfl, pairsBefore]

/-! ## Failures -/

/-- If the call threw a ContainerError, values and layers are those of `c`. -/
def Intact (c : ConfigManager) (r : Res Thrown Unit) (c' : ConfigManager) : Prop :=
  (∃ e, r = .thrown (.container e)) → c'.values = c.values ∧ c'.layers = c.layers

theorem intact_iff (p : Parsed) (c c' : ConfigManager) :
    Intact c p.result c' ↔ ((∃ e, p.error = some (.container e)) → c'.values = c.values ∧ c'.layers = c.layers) := by
  unfold Intact Parsed.result
  cases p.error <;> simp

theorem merge_intact_iff (b : Build) (text : String) (c : ConfigManager) :
    Ends (b.mergeFromJsonString text) c (Intact c) ↔
      ((∃ e, (b.parse text).error = some (.container e)) →
        ∀ k v, lastUnder k (b.parse text).entries = some v → c.values[k]? = some v) := by
  unfold Ends
  rw [mergeFromJsonString_eq, intact_iff, setEach_values, setEach_layers, ← writeAll_eq_self_iff]
  exact imp_congr_right fun _ => and_iff_left rfl

theorem load_intact_iff (b : Build) (text : String) (c : ConfigManager) :
    Ends (b.loadFromJsonString text) c (Intact c) ↔
      ((∃ e, (b.parse text).error = some (.container e)) →
        (∀ k, c.values[k]? = lastUnder k (b.parse text).entries) ∧ c.layers = ∅) := by
  unfold Ends
  rw [loadFromJsonString_eq, intact_iff, setEach_values, setEach_layers, ← writeAll_empty_iff]
  exact imp_congr_right fun _ => and_congr Iff.rfl eq_comm

theorem values_eq_empty_iff (values : Values) : (∀ k, values[k]? = lastUnder k []) ↔ values = ∅ := by
  rw [← writeAll_empty_iff, eq_comm]
  rfl

theorem nlohmann_parse_error_iff (codec : Codec) (text : String) :
    (∃ e, ((Build.nlohmann codec).parse text).error = some (.container e)) ↔
      ∃ what, codec.parse text = .error (.parseError what) := by
  rw [Build.parse]
  cases codec.parse text with
  | ok json => simp
  | error failure => cases failure <;> simp [ParseFailure.rethrown]

/-- With nlohmann::json nothing is set before the text is parsed. -/
theorem nlohmann_sets_nothing {codec : Codec} {text : String} (h : ∃ what, codec.parse text = .error (.parseError what)) :
    ((Build.nlohmann codec).parse text).entries = [] := by
  obtain ⟨what, hwhat⟩ := h
  rw [Build.parse, hwhat]

/-- For every configuration and text. With nlohmann::json a failed merge leaves the
    configuration intact, a failed load only one without values and layers. In the fallback a
    merge that is refused by the checks leaves it intact; one that ends at an integer which
    does not fit, iff the pairs before that integer were there already. A load that is refused
    leaves only one without values and layers intact; one that ends at such an integer, only
    one without layers whose values are the pairs before it. -/
theorem failed_json_intact_iff (codec : Codec) (text : String) (c : ConfigManager) :
    Ends ((Build.nlohmann codec).mergeFromJsonString text) c (Intact c) ∧
    (Ends ((Build.nlohmann codec).loadFromJsonString text) c (Intact c) ↔
      ((∃ what, codec.parse text = .error (.parseError what)) → c.values = ∅ ∧ c.layers = ∅)) ∧
    (Ends (Build.fallback.mergeFromJsonString text) c (Intact c) ↔
      (Overflows text → ∀ k v, lastUnder k (pairsBefore text) = some v → c.values[k]? = some v)) ∧
    (Ends (Build.fallback.loadFromJsonString text) c (Intact c) ↔
      (refused (clean text) ≠ none → c.values = ∅ ∧ c.layers = ∅) ∧
      (Overflows text → (∀ k, c.values[k]? = lastUnder k (pairsBefore text)) ∧ c.layers = ∅)) := by
  refine ⟨?_, ?_, ?_, ?_⟩
  · rw [merge_intact_iff, nlohmann_parse_error_iff]
    intro h k v hv
    rw [nlohmann_sets_nothing h] at hv
    cases hv
  · rw [load_intact_iff, nlohmann_parse_error_iff]
    refine imp_congr_right fun h => ?_
    rw [nlohmann_sets_nothing h, values_eq_empty_iff]
  · rw [merge_intact_iff, fallback_parse_error_iff, fallback_parse_entries, or_imp]
    -- a text that is refused sets nothing
    refine (and_iff_right ?_).trans (imp_congr_right fun h => ?_)
    · intro h k v hv
      rw [if_neg h] at hv
      cases hv
    · rw [if_pos h.1]
  · rw [load_intact_iff, fallback_parse_error_iff, fallback_parse_entries, or_imp]
    refine and_congr (imp_congr_right fun h => ?_) (imp_congr_right fun h => ?_)
    · rw [if_neg h, values_eq_empty_iff]
    · rw [if_pos h.1]

/-- `a` is 1. -/
def oneValue : ConfigManager := ({} : ConfigManager).set "a" (.integer 1)

/-- A text that is not JSON leaves nothing of a configuration it was to replace; and an
    integer that does not fit ends a merge after `a` was set. -/
theorem a_failed_load_loses_the_configuration :
    let loaded := Build.fallback.loadFromJsonString "no JSON" oneValue
    let merged := Build.fallback.mergeFromJsonString "\x7b\"a\": 5, \"b\": 99999999999\x7d" oneValue
    oneValue.values.toList = [("a", .integer 1)] ∧
    loaded.1 = .thrown (.container ⟨.configInvalid, "Invalid JSON: must start with \x7b or [ and end with \x7d or ]"⟩) ∧
    loaded.2.values.toList = [] ∧
    merged.1 = .thrown (.container ⟨.configInvalid, "JSON parsing failed: stoi"⟩) ∧
    merged.2.values.toList = [("a", .integer 5)] := by
  decide +kernel

end DockerCpp.Config
