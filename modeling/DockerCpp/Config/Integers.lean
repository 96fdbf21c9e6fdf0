/-
  DockerCpp.Config.Integers — integers in JSON documents, in both builds.

  A document has integers of any size, and its members in any order. With nlohmann::json one
  beyond 64 bits is a double, which `get<int>` does not give back, and a number beyond every
  double is an out_of_range that nobody catches (`Reads`). Any other leaf is set under its
  dotted key with the library's `get<int>`, which is a static_cast: an integer out of range is
  stored modulo 2^32. The fallback sets every member it finds under the member's own name,
  without the path before it and without white space, and finds no negative integers; one
  that does not fit ends it with CONFIG_INVALID.

  An integer leaf is stored exactly iff it fits and is the last to be set under its dotted key
  (`json_integers_iff`): a later leaf may have the same dotted key.

  - `integers_wrap_and_vanish`: 4294967297 is stored as 1; -5 and a nested 5 are not stored,
    and nothing is thrown.
-/

import DockerCpp.Config.FallbackDocument
import DockerCpp.Config.Lookup

namespace DockerCpp.Config

open Lib Lib.Prog

/-! ## Documents -/

mutual

/-- The integers in a document's objects, with their paths. -/
def integerLeaves : Json → List (List String × Int)
  | .object fields => integerFields fields
  | .integer n => [([], n)]
  | _ => []

def integerFields : List (String × Json) → List (List String × Int)
  | [] => []
  | (k, value) :: rest => (integerLeaves value).map (fun l => (k :: l.1, l.2)) ++ integerFields rest

end

section

-- the double nearest to an integer, as `std::strtod` gives it
variable (double : Int → UInt64)

mutual

/-- The tree the library makes of a document. -/
def treeOf : Json → Json
  | .integer n => if -2 ^ 63 ≤ n ∧ n < 2 ^ 64 then .integer n else .float (double n)
  | .array items => .array (treeItems items)
  | .object fields => .object (treeFields fields)
  | j => j

def treeItems : List Json → List Json
  | [] => []
  | item :: rest => treeOf item :: treeItems rest

/-- Of members with one name the last counts. -/
def treeFields : List (String × Json) → List (String × Json)
  | [] => []
  | (k, value) :: rest =>
    if ((treeFields rest).lookup k).isSome then treeFields rest else Assoc.put k (treeOf value) (treeFields rest)

end

mutual

/-- No number is beyond every double. -/
def inRange : Json → Bool
  | .integer n => (-2 ^ 63 ≤ n ∧ n < 2 ^ 64) || isFinite (double n)
  | .float bits => isFinite bits
  | .array items => itemsInRange items
  | .object fields => fieldsInRange fields
  | _ => true

def itemsInRange : List Json → Bool
  | [] => true
  | item :: rest => inRange item && itemsInRange rest

def fieldsInRange : List (String × Json) → Bool
  | [] => true
  | (_, value) :: rest => inRange value && fieldsInRange rest

end

/-- `text` is the document `j`, for the library. -/
structure Reads (codec : Codec) (text : String) (j : Json) : Prop where
  tree : inRange double j = true → codec.parse text = .ok (treeOf double j)
  failure : inRange double j = false → ∃ what, codec.parse text = .error (.outOfRange what)

end

/-- If the merge returns, every integer leaf is found under its dotted key; otherwise
    CONFIG_INVALID is thrown. -/
def StoresIntegers (b : Build) (text : String) (j : Json) : Prop :=
  ∀ c : ConfigManager, Ends (b.mergeFromJsonString text) c fun r c' =>
    (r = .ok () → ∀ l ∈ integerLeaves j, ∃ v : Int32,
      c'.get .integer (keyOf l.1) = .ok (.integer v) ∧ v.toInt = l.2) ∧
    (r ≠ .ok () → ∃ e, r = .thrown (.container e) ∧ e.code = .configInvalid)

/-! ## Calls of `set` -/

theorem refused_code {cleaned : List Char} {e : ContainerError} (h : refused cleaned = some e) :
    e.code = .configInvalid := by
  unfold refused at h
  split at h
  · cases h
    rfl
  · split at h
    · cases h
      rfl
    · split at h
      · cases h
        rfl
      · cases h

variable {text : String} {calls : List (String × ConfigValue)} {fields : List (String × Json)}

theorem parse_error_code {b : Build} {e : ContainerError}
    (h : (b.parse text).error = some (.container e)) : e.code = .configInvalid := by
  cases b with
  | nlohmann codec =>
    rw [Build.parse] at h
    cases hp : codec.parse text with
    | ok json =>
      rw [hp] at h
      cases h
    | error failure =>
      rw [hp] at h
      cases failure <;> cases h
      rfl
  | fallback =>
    rw [Build.parse] at h
    cases hr : refused (clean text) with
    | some e' =>
      rw [hr] at h
      cases h
      exact refused_code hr
    | none =>
      rw [hr, parseMatches_eq] at h
      dsimp only at h
      split at h
      · cases h
        rfl
      · cases h

theorem setEach_lookup (c : ConfigManager) (calls : List (String × ConfigValue)) (key : String) :
    (c.setEach calls).values[key]? = (lastUnder key calls).or c.values[key]? := by
  rw [setEach_values, writeAll_lookup]

/-- A key that was set is found among the own values. -/
theorem get_of_lastUnder {c : ConfigManager} {key : String} {v : ConfigValue}
    (h : lastUnder key calls = some v) (T : ConfigValueType) :
    (c.setEach calls).get T key = v.get T ConfigManager.typeMismatch := by
  refine ConfigManager.get_of_found ?_ T
  rw [setEach_lookup, h]
  rfl

theorem get_fresh {key : String} {T : ConfigValueType} {v : ConfigValue}
    (h : (({} : ConfigManager).setEach calls).get T key = .ok v) : lastUnder key calls = some v := by
  cases hl : lastUnder key calls with
  | some w =>
    rw [get_of_lastUnder hl] at h
    unfold ConfigValue.get at h
    split at h
    · rw [Except.ok.inj h]
    · cases h
  | none =>
    -- a fresh manager has nothing else
    have hhas : (({} : ConfigManager).setEach calls).has key = false := by
      have hvalues := setEach_lookup {} calls key
      rw [hl] at hvalues
      rw [ConfigManager.has_eq, hvalues, ConfigManager.layerValues, setEach_layers]
      rfl
    unfold ConfigManager.get at h
    rw [hhas] at h
    cases h

/-- What an `int` can hold. -/
def Fits (n : Int) : Prop := -2 ^ 31 ≤ n ∧ n < 2 ^ 31

/-- The integer is stored exactly by these calls. -/
def Exact (calls : List (String × ConfigValue)) (l : List String × Int) : Prop :=
  Fits l.2 ∧ lastUnder (keyOf l.1) calls = some (.integer (Int32.ofInt l.2))

theorem exact_iff (calls : List (String × ConfigValue)) (l : List String × Int) :
    Exact calls l ↔ ∃ v : Int32, lastUnder (keyOf l.1) calls = some (.integer v) ∧ v.toInt = l.2 := by
  constructor
  · rintro ⟨hfits, hv⟩
    exact ⟨_, hv, Int32.toInt_ofInt_of_le hfits.1 hfits.2⟩
  · rintro ⟨v, hv, hn⟩
    refine ⟨hn ▸ ⟨Int32.le_toInt v, Int32.toInt_lt v⟩, ?_⟩
    rw [← hn, Int32.ofInt_toInt]
    exact hv

/-- What counts is the last call under each leaf's key. -/
theorem storesIntegers_iff (b : Build) (text : String) (j : Json) :
    StoresIntegers b text j ↔ (∃ e, (b.parse text).error = some (.container e)) ∨
      (b.parse text).error = none ∧ ∀ l ∈ integerLeaves j, Exact (b.parse text).entries l := by
  unfold StoresIntegers Ends
  simp only [mergeFromJsonString_eq, exact_iff]
  cases herror : (b.parse text).error with
  | some thrown =>
    have hresult : (b.parse text).result = .thrown thrown := by rw [Parsed.result, herror]
    rw [hresult]
    cases thrown with
    | container e =>
      refine iff_of_true (fun c => ⟨fun h => ?_, fun _ => ⟨e, rfl, parse_error_code herror⟩⟩) (Or.inl ⟨e, rfl⟩)
      cases h
    | outOfRange what =>
      refine iff_of_false (fun h => ?_) (by simp)
      obtain ⟨e, he, -⟩ := (h {}).2 (by simp)
      cases he
  | none =>
    have hresult : (b.parse text).result = .ok () := by rw [Parsed.result, herror]
    rw [hresult]
    constructor
    · intro h
      refine Or.inr ⟨rfl, fun l hl => ?_⟩
      obtain ⟨v, hv, hn⟩ := (h {}).1 rfl l hl
      exact ⟨v, get_fresh hv, hn⟩
    · rintro (⟨e, he⟩ | ⟨-, h⟩) c
      · cases he
      · refine ⟨fun _ l hl => ?_, fun h => absurd rfl h⟩
        obtain ⟨v, hv, hn⟩ := h l hl
        exact ⟨v, get_of_lastUnder hv .integer, hn⟩

/-! ## The two builds -/

/-- Each leaf becomes a call of `set`. -/
def nlohmannCalls (dump : Json → String) (fields : List (String × Json)) : List (String × ConfigValue) :=
  (entries dump (.object fields)).map fun e => (keyOf e.1, e.2)

/-- With nlohmann::json the document is read, and each leaf of its tree becomes a call of `set`. -/
theorem nlohmann_integers_iff {codec : Codec} {double : Int → UInt64} (h : Reads double codec text (.object fields)) :
    StoresIntegers (.nlohmann codec) text (.object fields) ↔
      inRange double (.object fields) = true ∧
      ∀ l ∈ integerLeaves (.object fields), Exact (nlohmannCalls codec.dump (treeFields double fields)) l := by
  rw [storesIntegers_iff]
  cases hrange : inRange double (.object fields) with
  | false =>
    obtain ⟨what, hparse⟩ := h.failure hrange
    rw [Build.parse, hparse]
    simp [ParseFailure.rethrown]
  | true =>
    have hparse : (Build.nlohmann codec).parse text = { entries := nlohmannCalls codec.dump (treeFields double fields) } := by
      rw [Build.parse, h.tree hrange]
      rfl
    rw [hparse]
    simp

/-- All that the fallback finds in a text. -/
def pairsFound (text : String) : List (String × ConfigValue) := (matchesIn text).filterMap pair

theorem pairsBefore_eq (h : (matchesIn text).any tooLarge = false) : pairsBefore text = pairsFound text := by
  rw [pairsBefore, pairsFound, List.takeWhile_eq_self_iff.mpr]
  intro m hm
  simpa using List.any_eq_false.mp h m hm

theorem fallback_integers_iff (text : String) (j : Json) :
    StoresIntegers .fallback text j ↔
      refused (clean text) ≠ none ∨ Overflows text ∨ ∀ l ∈ integerLeaves j, Exact (pairsFound text) l := by
  rw [storesIntegers_iff, fallback_parse_error_iff, or_assoc, fallback_parse_entries]
  refine or_congr_right' fun hpassed => or_congr_right' fun hfit => ?_
  rw [not_not] at hpassed
  have hnone : (matchesIn text).any tooLarge = false := by
    rw [← Bool.not_eq_true]
    exact fun h => hfit ⟨hpassed, h⟩
  have herror : (Build.fallback.parse text).error = none := by
    rw [Build.parse, hpassed, parseMatches_eq, hnone]
    rfl
  rw [if_pos hpassed, pairsBefore_eq hnone]
  exact and_iff_right herror

/-- The pairs that are found in a document, with their values. -/
def fallbackCalls (number : UInt64 → String) (fields : List (String × Json)) : List (String × ConfigValue) :=
  (pairsInFields number fields).filterMap fun p => p.2.value.toOption.map (String.ofList p.1, ·)

/-- An integer that `std::stoi` refuses. -/
def Scalar.tooLarge : Scalar → Bool
  | .integer digits => (stoi digits).isNone
  | _ => false

theorem Scalar.value_cases (s : Scalar) :
    (s.tooLarge = true ∧ ∃ e, s.value = .error e) ∨ (s.tooLarge = false ∧ ∃ v, s.value = .ok v) := by
  cases s with
  | integer digits => cases h : stoi digits <;> simp [tooLarge, value, h]
  | _ => exact Or.inr ⟨rfl, _, rfl⟩

theorem readPairs_error_iff (ps : List (List Char × Scalar)) :
    (readPairs ps {}).error = none ↔ ∀ p ∈ ps, p.2.tooLarge = false := by
  induction ps with
  | nil => simp [readPairs]
  | cons p ps ih =>
    show ((readPairs ps {}).after p.1 p.2.value).error = none ↔ _
    rcases p.2.value_cases with ⟨hlarge, e, he⟩ | ⟨hfits, v, hv⟩
    · simp [he, hlarge, Parsed.after]
    · simp [hv, hfits, Parsed.after, ih]

theorem readPairs_entries {ps : List (List Char × Scalar)} (h : ∀ p ∈ ps, p.2.tooLarge = false) :
    (readPairs ps {}).entries = ps.filterMap fun p => p.2.value.toOption.map (String.ofList p.1, ·) := by
  induction ps with
  | nil => rfl
  | cons p ps ih =>
    show ((readPairs ps {}).after p.1 p.2.value).entries = _
    rcases p.2.value_cases with ⟨hlarge, -⟩ | ⟨-, v, hv⟩
    · rw [h p List.mem_cons_self] at hlarge
      cases hlarge
    · rw [List.filterMap_cons, hv, Parsed.after, ih fun p' hp' => h p' (List.mem_cons_of_mem _ hp')]
      rfl

/-- For a document that is written without escapes. -/
theorem fallback_document_iff {number : UInt64 → String} (hn : NumberText number)
    (hj : PlainFields fields) (htext : clean text = compact number (.object fields)) :
    StoresIntegers .fallback text (.object fields) ↔
      refused (clean text) ≠ none ∨ (∃ p ∈ pairsInFields number fields, p.2.tooLarge = true) ∨
      ∀ l ∈ integerLeaves (.object fields), Exact (fallbackCalls number fields) l := by
  have hfound : parseMatches (matchesIn text) = readPairs (pairsInFields number fields) {} := found_document hn hj htext
  have hlarge : (matchesIn text).any tooLarge = true ↔ ∃ p ∈ pairsInFields number fields, p.2.tooLarge = true := by
    have herror := readPairs_error_iff (pairsInFields number fields)
    rw [← hfound, parseMatches_eq] at herror
    cases hany : (matchesIn text).any tooLarge with
    | true => simpa [hany] using herror
    | false => simpa [hany] using herror
  rw [fallback_integers_iff]
  refine or_congr_right' fun hpassed => ?_
  rw [Overflows, and_iff_right (not_not.mp hpassed), hlarge]
  refine or_congr_right' fun hfits => ?_
  have hsmall : ∀ p ∈ pairsInFields number fields, p.2.tooLarge = false := by simpa using hfits
  have hcalls : pairsFound text = fallbackCalls number fields := by
    rw [← pairsBefore_eq (Bool.not_eq_true _ ▸ mt hlarge.mp hfits), fallbackCalls, ← readPairs_entries hsmall, ← hfound,
      parseMatches_eq, pairsBefore]
  rw [hcalls]

/-- For every object document. With nlohmann::json: all integer leaves are stored exactly or
    the document is refused, iff no number is beyond every double, and each of the integers fits
    in an `int` and is the last leaf of the library's tree under its dotted key. In the fallback,
    for every text: iff the checks refuse it, or an integer that it finds does not fit, or each
    integer of the document fits and is the last pair found in the text under its dotted key. Where
    the document is written without escapes and no string begins with a colon, whatever white space
    it has, the pairs are those of the document: under the members' own names, and without
    negative integers. -/
theorem json_integers_iff (codec : Codec) (double : Int → UInt64) {number : UInt64 → String} (hn : NumberText number)
    (text : String) (fields : List (String × Json)) :
    (Reads double codec text (.object fields) →
      (StoresIntegers (.nlohmann codec) text (.object fields) ↔
        inRange double (.object fields) = true ∧
        ∀ l ∈ integerLeaves (.object fields), Exact (nlohmannCalls codec.dump (treeFields double fields)) l)) ∧
    (StoresIntegers .fallback text (.object fields) ↔
      refused (clean text) ≠ none ∨ Overflows text ∨
      ∀ l ∈ integerLeaves (.object fields), Exact (pairsFound text) l) ∧
    (PlainFields fields → clean text = compact number (.object fields) →
      (StoresIntegers .fallback text (.object fields) ↔
        refused (clean text) ≠ none ∨ (∃ p ∈ pairsInFields number fields, p.2.tooLarge = true) ∨
        ∀ l ∈ integerLeaves (.object fields), Exact (fallbackCalls number fields) l)) :=
  ⟨nlohmann_integers_iff, fallback_integers_iff text _, fallback_document_iff hn⟩

theorem held_member (k : String) {n : Int} (h : -2 ^ 63 ≤ n ∧ n < 2 ^ 64) : (Json.object [(k, .integer n)]).Held := by
  refine .object (List.pairwise_singleton _ _) fun f hf => ?_
  rw [List.mem_singleton.mp hf]
  exact .integer h

def portDocument : List (String × Json) := [("port", .integer 8080)]

/-- `dump(4)` of it. -/
def portText : String := "\x7b\n    \"port\": 8080\n\x7d"

theorem json_integers_iff_port :
    StoresIntegers (.nlohmann (writing (.object portDocument) portText)) portText (.object portDocument) ∧
    StoresIntegers .fallback portText (.object portDocument) := by
  have hn : NumberText noNumber := fun bits c hc => absurd hc List.not_mem_nil
  have hexact : ∀ calls, lastUnder "port" calls = some (.integer 8080) →
      ∀ l ∈ integerLeaves (.object portDocument), Exact calls l := by
    intro calls hlast l hl
    obtain rfl : l = (["port"], 8080) := List.mem_singleton.mp hl
    exact ⟨⟨by decide, by decide⟩, hlast⟩
  -- it has no integer beyond 64 bits
  have hreads : Reads (fun _ => 0) (writing (.object portDocument) portText) portText (.object portDocument) :=
    ⟨fun _ => writing_parse (held_member _ ⟨by decide, by decide⟩) portText, fun h => by cases h⟩
  obtain ⟨hnlohmann, -, hfallback⟩ :=
    json_integers_iff (writing (.object portDocument) portText) (fun _ => 0) hn portText portDocument
  constructor
  · exact (hnlohmann hreads).mpr ⟨rfl, hexact _ rfl⟩
  · refine (hfallback ⟨by decide, trivial, trivial⟩ (by decide +kernel)).mpr (Or.inr (Or.inr (hexact _ ?_)))
    decide +kernel

/-- An integer out of range is reduced modulo 2^32; in the fallback a negative integer is
    passed, and a nested one is stored under another key. -/
theorem integers_wrap_and_vanish :
    let text := "\x7b\n    \"n\": 4294967297\n\x7d"
    let wrapped := ConfigManager.mergeFromJsonString (writing (.object [("n", .integer 4294967297)]) text) text {}
    let negative := Build.fallback.mergeFromJsonString "\x7b\"n\": -5\x7d" {}
    let nested := Build.fallback.mergeFromJsonString "\x7b\"a\": \x7b\"n\": 5\x7d\x7d" {}
    wrapped.1 = .ok () ∧ wrapped.2.get .integer "n" = .ok (.integer 1) ∧
    negative.1 = .ok () ∧ negative.2.get .integer "n" = .error (ConfigManager.notFound "n") ∧
    nested.1 = .ok () ∧ nested.2.get .integer "a.n" = .error (ConfigManager.notFound "a.n") := by
  intro text wrapped negative nested
  have hwrapped : wrapped = (.ok (), ({} : ConfigManager).set "n" (.integer 1)) := by
    show ConfigManager.mergeFromJsonString (writing _ text) text {} = _
    rw [ConfigManager.mergeFromJsonString, writing_parse (held_member _ ⟨by decide, by decide⟩)]
    rfl
  rw [hwrapped]
  refine ⟨rfl, ?_, ?_⟩
  · decide +kernel
  · decide +kernel

end DockerCpp.Config
