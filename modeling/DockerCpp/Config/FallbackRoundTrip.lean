/-
  DockerCpp.Config.FallbackRoundTrip — saving and loading without nlohmann::json.

  The fallback writes an object with one pair a line. Strings are escaped, keys are not. The
  reader knows no escapes, drops all white space first, and takes digits for the only
  integers. So of the configurations of strings, `int`s and `bool`s, whose keys are not empty
  and have no quotes and no backslashes, exactly those come back (`fallback_save_load_iff`)
  where

  - no key and no string has white space in it, nor `:}` or `:]`, which the reader refuses;
  - no string has a quote or a backslash;
  - no integer is negative.

  What can be found at all is the necessary half (`found_sound`); for such a configuration
  the reader finds pair by pair what was written (`found_object`).
-/

import DockerCpp.Config.FallbackReader

namespace DockerCpp.Config

open Lib Lib.Prog

/-! ## Saving -/

def escapeChar : Char → List Char
  | '"' => ['\\', '"']
  | '\\' => ['\\', '\\']
  | '\n' => ['\\', 'n']
  | '\r' => ['\\', 'r']
  | '\t' => ['\\', 't']
  | c => [c]

def simpleJsonEscape (str : String) : String := String.ofList (str.toList.flatMap escapeChar)

section

-- how a stream writes a double
variable (number : UInt64 → String)

def valueText : ConfigValue → String
  | .string s => "\"" ++ simpleJsonEscape s ++ "\""
  | .integer n => toString n.toInt
  | .boolean b => if b then "true" else "false"
  | .double bits => number bits

/-- The loop over `values_`, in the order it is iterated. -/
def addPairs : (first : Bool) → List (String × ConfigValue) → String
  | _, [] => ""
  | first, e :: rest =>
    (if first then "" else ",\n") ++ "  \"" ++ e.1 ++ "\": " ++ valueText number e.2 ++ addPairs false rest

def serializeFallback (order : List (String × ConfigValue)) : String := "\x7b\n" ++ addPairs number true order ++ "\n\x7d"

/-- What is saved is loaded as the values of `c`. -/
def FallbackRoundTrips (c : ConfigManager) (order : List (String × ConfigValue)) : Prop :=
  ∃ c', Build.fallback.loadFromJsonString (serializeFallback number order) {} = (.ok (), c') ∧
    c'.values = c.values ∧ c'.layers = ∅

end

/-! ## The text without white space -/

def pairChars (k : List Char) (s : Scalar) : List Char := '"' :: (k ++ '"' :: ':' :: s.text)

def comma : (first : Bool) → List Char
  | true => []
  | false => [',']

/-- The pairs and the end of the object. -/
def membersChars : (first : Bool) → List (List Char × Scalar) → List Char
  | _, [] => ['}']
  | first, p :: rest => comma first ++ (pairChars p.1 p.2 ++ membersChars false rest)

def objectChars (ps : List (List Char × Scalar)) : List Char := '{' :: membersChars true ps

def scalarOf (number : UInt64 → String) : ConfigValue → Scalar
  | .string s => .string (simpleJsonEscape s).toList
  | .integer n => .integer (integerText n.toInt)
  | .boolean b => .boolean b
  | .double bits => .integer (number bits).toList

def pairOf (number : UInt64 → String) (e : String × ConfigValue) : List Char × Scalar := (e.1.toList, scalarOf number e.2)

theorem clean_append (s t : String) : clean (s ++ t) = clean s ++ clean t := by
  rw [clean, String.toList_append, List.filter_append]
  rfl

variable {s : String}

theorem clean_eq_of_noSpace (h : NoSpace s.toList) : clean s = s.toList := by
  refine List.filter_eq_self.mpr fun c hc => ?_
  rw [h c hc]
  rfl

theorem escapeChar_readable {c : Char} (hspace : isSpace c = false) (hquote : c ≠ '"') :
    escapeChar c = if c = '\\' then ['\\', '\\'] else [c] := by
  unfold escapeChar
  split
  · exact absurd rfl hquote
  · rfl
  · cases hspace
  · cases hspace
  · cases hspace
  · rename_i h _ _ _
    rw [if_neg h]

theorem simpleJsonEscape_readable (h : Readable s) : Readable (simpleJsonEscape s) := by
  have hmem : ∀ c ∈ (simpleJsonEscape s).toList, c ∈ s.toList := by
    intro c hc
    rw [simpleJsonEscape, String.toList_ofList] at hc
    obtain ⟨d, hd, hc⟩ := List.mem_flatMap.mp hc
    have hq : d ≠ '"' := fun heq => h.2 (heq ▸ hd)
    rw [escapeChar_readable (h.1 d hd) hq] at hc
    split at hc
    · rename_i hslash
      have : c = '\\' := by simpa using hc
      rw [this, ← hslash]
      exact hd
    · rw [List.mem_singleton.mp hc]
      exact hd
  exact ⟨fun c hc => h.1 c (hmem c hc), fun hc => h.2 (hmem _ hc)⟩

theorem noSpace_of_isDigit {c : Char} (h : c.isDigit = true) : isSpace c = false := by
  by_contra hspace
  simp only [isSpace, Bool.not_eq_false, Bool.or_eq_true, beq_iff_eq] at hspace
  rcases hspace with ((((rfl | rfl) | rfl) | rfl) | rfl) | rfl <;> cases h

/-- What comes back as the value. -/
def decoded : ConfigValue → ConfigValue
  | .string s => .string (simpleJsonEscape s)
  | v => v

variable {v : ConfigValue}

theorem clean_valueText (number : UInt64 → String) (h : ReadableValue v) :
    clean (valueText number v) = (scalarOf number v).text := by
  cases v with
  | string s =>
    have hs := clean_eq_of_noSpace (simpleJsonEscape_readable h).1
    rw [valueText, clean_append, clean_append, hs]
    rfl
  | integer n =>
    have hdigits : NoSpace (integerText n.toInt) := by
      rw [integerText_nonneg h]
      exact fun c hc => noSpace_of_isDigit (toDigits_digit hc)
    exact clean_eq_of_noSpace hdigits
  | boolean b =>
    cases b with
    | true =>
      show clean "true" = "true".toList
      decide
    | false =>
      show clean "false" = "false".toList
      decide
  | double bits => cases h

variable {order : List (String × ConfigValue)} {previous : Option Char} {p : List Char × Scalar}
  {ps : List (List Char × Scalar)}

theorem clean_members (number : UInt64 → String) (h : ∀ e ∈ order, Readable e.1 ∧ ReadableValue e.2) (first : Bool) :
    clean (addPairs number first order ++ "\n\x7d") = membersChars first (order.map (pairOf number)) := by
  induction order generalizing first with
  | nil =>
    show clean ("" ++ "\n\x7d") = ['}']
    decide
  | cons e rest ih =>
    obtain ⟨hkey, hvalue⟩ := h e List.mem_cons_self
    have hrest := ih (fun e' he' => h e' (List.mem_cons_of_mem _ he')) false
    have hcomma : clean (if first then "" else ",\n") = comma first := by cases first <;> decide
    have hquote : clean "  \"" = ['"'] := by decide
    have hcolon : clean "\": " = ['"', ':'] := by decide
    rw [clean_append] at hrest
    simp only [addPairs, clean_append, hcomma, hquote, hcolon, clean_eq_of_noSpace hkey.1,
      clean_valueText number hvalue, List.append_assoc, hrest]
    simp [membersChars, pairChars, pairOf]

theorem clean_serialize (number : UInt64 → String) (h : ∀ e ∈ order, Readable e.1 ∧ ReadableValue e.2) :
    clean (serializeFallback number order) = objectChars (order.map (pairOf number)) := by
  have hopen : clean "\x7b\n" = ['{'] := by decide
  rw [serializeFallback, String.append_assoc, clean_append, clean_members number h, hopen]
  rfl

/-! ## Reading it -/

theorem membersChars_head (ps : List (List Char × Scalar)) :
    ∀ c, (membersChars false ps).head? = some c → c.isDigit = false := by
  intro c hc
  cases ps with
  | nil =>
    cases hc
    rfl
  | cons p rest =>
    cases hc
    rfl

/-- A value the reader finds, whatever pairs follow. -/
theorem scalarOf_ends (number : UInt64 → String) (hv : ReadableValue v)
    (ps : List (List Char × Scalar)) : (scalarOf number v).Ends (membersChars false ps) := by
  cases v with
  | string s => exact (simpleJsonEscape_readable hv).2
  | integer n =>
    show (Scalar.integer (integerText n.toInt)).Ends _
    rw [integerText_nonneg hv]
    exact ⟨Nat.toDigits_ne_nil, fun c hc => toDigits_digit hc, membersChars_head ps⟩
  | boolean b => trivial
  | double bits => cases hv

theorem scalarOf_value (number : UInt64 → String) (hv : ReadableValue v) :
    (scalarOf number v).value = .ok (decoded v) := by
  cases v with
  | string s => simp [scalarOf, Scalar.value, decoded]
  | integer n =>
    have hlt := n.toInt_lt
    have hle : n.toInt.toNat ≤ 2147483647 := by omega
    have hn : Int32.ofNat n.toInt.toNat = n := by
      apply Int32.toInt_inj.mp
      rw [Int32.toInt_ofNat_of_lt (by omega), Int.toNat_of_nonneg hv]
    simp only [scalarOf, Scalar.value, integerText_nonneg hv, stoi_toDigits, if_pos hle, hn]
    rfl
  | boolean b => rfl
  | double bits => cases hv

/-- A pair and the pairs after it. -/
theorem found_pairChars (number : UInt64 → String) {e : String × ConfigValue} (hne : e.1 ≠ "") (hk : Readable e.1)
    (hv : ReadableValue e.2) (ps : List (List Char × Scalar))
    (hspace : NoSpace (pairChars (pairOf number e).1 (pairOf number e).2 ++ membersChars false ps)) :
    found (pairChars (pairOf number e).1 (pairOf number e).2 ++ membersChars false ps) =
      (found (membersChars false ps)).after e.1.toList (.ok (decoded e.2)) := by
  rw [← scalarOf_value number hv]
  exact found_pair hspace ⟨by simp [pairChars, pairOf], by simpa using hne, hk.2, scalarOf_ends number hv ps⟩

theorem found_members (number : UInt64 → String)
    (h : ∀ e ∈ order, e.1 ≠ "" ∧ Readable e.1 ∧ ReadableValue e.2) (first : Bool) :
    found (membersChars first (order.map (pairOf number))) = { entries := order.map fun e => (e.1, decoded e.2) } := by
  induction order generalizing first with
  | nil =>
    show found ('}' :: []) = _
    rw [found_char (by decide) (by decide)]
    rfl
  | cons e rest ih =>
    obtain ⟨hne, hk, hv⟩ := h e List.mem_cons_self
    have hspace : NoSpace (membersChars first ((e :: rest).map (pairOf number))) := by
      rw [← clean_members number (fun e' he' => (h e' he').2)]
      exact clean_noSpace _
    rw [List.map_cons, membersChars] at hspace ⊢
    rw [found_chars hspace (by cases first <;> decide), found_pairChars number hne hk hv _ hspace.right,
      ih fun e' he' => h e' (List.mem_cons_of_mem _ he')]
    simp [Parsed.after]

theorem found_object (number : UInt64 → String) (h : ∀ e ∈ order, e.1 ≠ "" ∧ Readable e.1 ∧ ReadableValue e.2) :
    found (clean (serializeFallback number order)) = { entries := order.map fun e => (e.1, decoded e.2) } := by
  have hspace := clean_noSpace (serializeFallback number order)
  rw [clean_serialize number fun e he => (h e he).2, objectChars] at hspace ⊢
  rw [found_char hspace (by decide), found_members number h]

/-! ## The checks before it -/

/-- Without what the reader takes for a colon in the wrong place. -/
def Harmless (xs : List Char) : Prop := ¬[':', '}'] <:+: xs ∧ ¬[':', ']'] <:+: xs

instance (xs : List Char) : Decidable (Harmless xs) := inferInstanceAs (Decidable (_ ∧ _))

/-- Without quotes and backslashes. -/
def Unescaped (xs : List Char) : Prop := '"' ∉ xs ∧ '\\' ∉ xs

instance (xs : List Char) : Decidable (Unescaped xs) := inferInstanceAs (Decidable (_ ∧ _))

variable {xs : List Char}

/-- Of an object that ends where it should. -/
theorem refused_object_iff (hhead : xs.head? = some '{') (hlast : xs.getLast? = some '}') :
    refused xs = none ↔ quoteCount none xs % 2 = 0 ∧ Harmless xs := by
  have hne : xs ≠ [] := by
    rintro rfl
    cases hhead
  have hframe : ¬(xs = [] ∨ (xs.head? ≠ some '{' ∧ xs.head? ≠ some '[') ∨
      (xs.getLast? ≠ some '}' ∧ xs.getLast? ≠ some ']')) := by
    simp [hne, hhead, hlast]
  rw [refused, if_neg hframe]
  by_cases hquotes : quoteCount none xs % 2 = 0
  · simp [hquotes, Harmless, find_eq_none_iff, or_iff_not_and_not]
  · simp [hquotes]

theorem membersChars_last (first : Bool) (ps : List (List Char × Scalar)) :
    (membersChars first ps).getLast? = some '}' := by
  induction ps generalizing first with
  | nil => rfl
  | cons p rest ih => simp [membersChars, List.getLast?_append, ih]

theorem objectChars_ends (ps : List (List Char × Scalar)) :
    (objectChars ps).head? = some '{' ∧ (objectChars ps).getLast? = some '}' :=
  ⟨rfl, by rw [objectChars, List.getLast?_cons, membersChars_last]; rfl⟩

/-- Behind text without quotes and backslashes a quote counts as before. -/
theorem quoteCount_unescaped (h : Unescaped xs) (previous : Option Char) (hp : previous ≠ some '\\')
    (rest : List Char) :
    ∃ previous', previous' ≠ some '\\' ∧ quoteCount previous (xs ++ rest) = quoteCount previous' rest := by
  induction xs generalizing previous with
  | nil => exact ⟨previous, hp, rfl⟩
  | cons x xs ih =>
    obtain ⟨hquote, hquotes⟩ := List.ne_and_not_mem_of_not_mem_cons h.1
    obtain ⟨hslash, hslashes⟩ := List.ne_and_not_mem_of_not_mem_cons h.2
    obtain ⟨previous', hp', heq⟩ := ih ⟨hquotes, hslashes⟩ (some x) (fun h0 => hslash (Option.some.inj h0).symm)
    refine ⟨previous', hp', ?_⟩
    rw [List.cons_append, quoteCount, if_neg (fun h0 => hquote h0.1.symm), heq, Nat.zero_add]

theorem quoteCount_quote (hp : previous ≠ some '\\') (rest : List Char) :
    quoteCount previous ('"' :: rest) = 1 + quoteCount (some '"') rest := by
  rw [quoteCount, if_pos ⟨rfl, hp⟩]

/-- A string has two. -/
theorem quoteCount_string (h : Unescaped xs) (hp : previous ≠ some '\\')
    (rest : List Char) : quoteCount previous ('"' :: (xs ++ '"' :: rest)) = 2 + quoteCount (some '"') rest := by
  obtain ⟨previous', hp', heq⟩ := quoteCount_unescaped h (some '"') (by decide) ('"' :: rest)
  rw [quoteCount_quote hp, heq, quoteCount_quote hp', ← Nat.add_assoc]

/-- What is written for a value that comes back. -/
def PlainScalar : Scalar → Prop
  | .string v => Unescaped v ∧ Harmless v
  | .integer digits => digits ≠ [] ∧ ∀ c ∈ digits, c.isDigit = true
  | .boolean _ => True

def PlainPair (p : List Char × Scalar) : Prop := Unescaped p.1 ∧ Harmless p.1 ∧ PlainScalar p.2

theorem digits_unescaped {digits : List Char} (h : ∀ c ∈ digits, c.isDigit = true) : Unescaped digits ∧ ':' ∉ digits := by
  refine ⟨⟨fun hc => ?_, fun hc => ?_⟩, fun hc => ?_⟩
  all_goals exact absurd (h _ hc) (by decide)

theorem quoteCount_pair (hp : PlainPair p) (previous : Option Char)
    (hprevious : previous ≠ some '\\') (rest : List Char) :
    ∃ previous', previous' ≠ some '\\' ∧
      quoteCount previous (pairChars p.1 p.2 ++ rest) % 2 = quoteCount previous' rest % 2 := by
  obtain ⟨k, s⟩ := p
  obtain ⟨hk, -, hs⟩ := hp
  have hcolon : ∀ xs, quoteCount (some '"') (':' :: xs) = quoteCount (some ':') xs := by
    intro xs
    rw [quoteCount, if_neg (by decide), Nat.zero_add]
  have hkey : quoteCount previous (pairChars k s ++ rest) = 2 + quoteCount (some ':') (s.text ++ rest) := by
    rw [pairChars, List.cons_append, List.append_assoc, List.cons_append, quoteCount_string hk hprevious, ← hcolon]
    rfl
  have hvalue : ∃ previous', previous' ≠ some '\\' ∧
      quoteCount (some ':') (s.text ++ rest) % 2 = quoteCount previous' rest % 2 := by
    cases s with
    | string v =>
      refine ⟨some '"', by decide, ?_⟩
      rw [Scalar.text, List.cons_append, List.append_assoc, List.singleton_append,
        quoteCount_string hs.1 (by decide), Nat.add_mod_left]
    | integer digits =>
      obtain ⟨previous', hp', heq⟩ := quoteCount_unescaped (digits_unescaped hs.2).1 (some ':') (by decide) rest
      exact ⟨previous', hp', by rw [Scalar.text, heq]⟩
    | boolean b =>
      have hletters : Unescaped (Scalar.boolean b).text := by cases b <;> decide
      obtain ⟨previous', hp', heq⟩ := quoteCount_unescaped hletters (some ':') (by decide) rest
      exact ⟨previous', hp', by rw [heq]⟩
  obtain ⟨previous', hp', heq⟩ := hvalue
  exact ⟨previous', hp', by rw [hkey, Nat.add_mod_left, heq]⟩

theorem quoteCount_members (h : ∀ p ∈ ps, PlainPair p) (first : Bool)
    (hprevious : previous ≠ some '\\') :
    quoteCount previous (membersChars first ps) % 2 = 0 := by
  induction ps generalizing first previous with
  | nil => rfl
  | cons p rest ih =>
    have hcomma : Unescaped (comma first) := by cases first <;> decide
    obtain ⟨before, hbefore, hskip⟩ :=
      quoteCount_unescaped hcomma previous hprevious (pairChars p.1 p.2 ++ membersChars false rest)
    obtain ⟨after, hafter, heq⟩ := quoteCount_pair (h p List.mem_cons_self) before hbefore (membersChars false rest)
    rw [membersChars, hskip, heq]
    exact ih (fun p' hp' => h p' (List.mem_cons_of_mem _ hp')) false hafter

theorem quoteCount_object (h : ∀ p ∈ ps, PlainPair p) : quoteCount none (objectChars ps) % 2 = 0 := by
  rw [objectChars, quoteCount, if_neg (by simp), Nat.zero_add]
  exact quoteCount_members h true (by decide)

/-- The colon of a pair stands before a quote, a digit or a letter. -/
theorem not_infix_pair {b : Char} (hb : b = '}' ∨ b = ']') {p : List Char × Scalar} (hp : PlainPair p)
    {rest : List Char} (hrest : ¬[':', b] <:+: rest) : ¬[':', b] <:+: pairChars p.1 p.2 ++ rest := by
  obtain ⟨k, s⟩ := p
  obtain ⟨-, hk, hs⟩ := hp
  have hquote : '"' ≠ b := by
    rintro rfl
    rcases hb with hb | hb <;> cases hb
  have hharmless : ∀ xs, Harmless xs → ¬[':', b] <:+: xs := by
    intro xs h
    rcases hb with rfl | rfl
    · exact h.1
    · exact h.2
  have hvalue : (s.text ++ rest).head? ≠ some b ∧ ¬[':', b] <:+: s.text ++ rest := by
    cases s with
    | string v =>
      rw [Scalar.text, List.cons_append, List.append_assoc, List.singleton_append, List.head?_cons, pair_infix_cons,
        pair_infix_append_cons hquote, pair_infix_cons]
      simp [hquote, hrest, hharmless v hs.2]
    | integer digits =>
      obtain ⟨c, ds, rfl⟩ := List.exists_cons_of_ne_nil hs.1
      have hc := hs.2 c List.mem_cons_self
      refine ⟨fun heq => ?_, ?_⟩
      · obtain rfl : c = b := Option.some.inj heq
        rcases hb with rfl | rfl <;> cases hc
      · rw [Scalar.text, pair_infix_append_of_notMem (digits_unescaped hs.2).2]
        exact hrest
    | boolean b' =>
      have hcolon : ':' ∉ (Scalar.boolean b').text := by cases b' <;> decide
      refine ⟨fun heq => ?_, by rw [pair_infix_append_of_notMem hcolon]; exact hrest⟩
      cases b' <;> obtain rfl := Option.some.inj heq <;> rcases hb with hb | hb <;> cases hb
  rw [pairChars, List.cons_append, List.append_assoc, List.cons_append, List.cons_append, pair_infix_cons,
    pair_infix_append_cons hquote, pair_infix_cons, pair_infix_cons]
  rintro (⟨hcolon, -⟩ | hkey | ⟨hcolon, -⟩ | ⟨-, hhead⟩ | hinfix)
  · cases hcolon
  · exact hharmless k hk hkey
  · cases hcolon
  · exact hvalue.1 hhead
  · exact hvalue.2 hinfix

theorem not_infix_members {b : Char} (hb : b = '}' ∨ b = ']') {ps : List (List Char × Scalar)}
    (h : ∀ p ∈ ps, PlainPair p) (first : Bool) : ¬[':', b] <:+: membersChars first ps := by
  induction ps generalizing first with
  | nil => simp [membersChars, pair_infix_cons]
  | cons p rest ih =>
    have hcomma : ':' ∉ comma first := by cases first <;> decide
    rw [membersChars, pair_infix_append_of_notMem hcomma]
    exact not_infix_pair hb (h p List.mem_cons_self) (ih (fun p' hp' => h p' (List.mem_cons_of_mem _ hp')) false)

theorem harmless_object (h : ∀ p ∈ ps, PlainPair p) : Harmless (objectChars ps) := by
  have hobject : ∀ b, b = '}' ∨ b = ']' → ¬[':', b] <:+: objectChars ps := by
    intro b hb
    rw [objectChars, pair_infix_cons]
    simp [not_infix_members hb h true]
  exact ⟨hobject _ (Or.inl rfl), hobject _ (Or.inr rfl)⟩

/-! ## What comes back -/

/-- A pair that comes back. -/
def Survives (e : String × ConfigValue) : Prop :=
  NoSpace e.1.toList ∧ Harmless e.1.toList ∧
  match e.2 with
  | .string s => NoSpace s.toList ∧ Unescaped s.toList ∧ Harmless s.toList
  | .integer n => 0 ≤ n.toInt
  | .boolean _ => True
  | .double _ => False

instance : ∀ e : String × ConfigValue, Decidable (Survives e)
  | (_, .string _) => inferInstanceAs (Decidable (_ ∧ _ ∧ _ ∧ _ ∧ _))
  | (_, .integer _) => inferInstanceAs (Decidable (_ ∧ _ ∧ _))
  | (_, .boolean _) => inferInstanceAs (Decidable (_ ∧ _ ∧ True))
  | (_, .double _) => inferInstanceAs (Decidable (_ ∧ _ ∧ False))

/-- A key of a configuration that is to come back. -/
def KeyWritten (k : String) : Prop := k ≠ "" ∧ Unescaped k.toList

theorem simpleJsonEscape_eq_iff (h : Readable s) : simpleJsonEscape s = s ↔ '\\' ∉ s.toList := by
  have hlen : ∀ xs : List Char, NoSpace xs → '"' ∉ xs →
      (xs.flatMap escapeChar).length = xs.length + xs.count '\\' := by
    intro xs
    induction xs with
    | nil => exact fun _ _ => rfl
    | cons x xs ih =>
      intro hspace hquote
      obtain ⟨hx, hxs⟩ := List.ne_and_not_mem_of_not_mem_cons hquote
      rw [List.flatMap_cons, List.length_append, ih hspace.tail hxs,
        escapeChar_readable (hspace x List.mem_cons_self) (Ne.symm hx), List.count_cons]
      by_cases hslash : x = '\\'
      · simp [hslash]
        omega
      · simp [hslash]
        omega
  constructor
  · intro heq
    have hlength := congrArg (fun t => t.toList.length) heq
    simp only [simpleJsonEscape, String.toList_ofList, hlen _ h.1 h.2] at hlength
    exact List.count_eq_zero.mp (by omega)
  · intro hslash
    have hself : ∀ c ∈ s.toList, escapeChar c = [c] := by
      intro c hc
      have hquote : c ≠ '"' := fun heq => h.2 (heq ▸ hc)
      have hne : c ≠ '\\' := fun heq => hslash (heq ▸ hc)
      rw [escapeChar_readable (h.1 c hc) hquote, if_neg hne]
    rw [simpleJsonEscape, List.flatMap_congr hself, List.flatMap_singleton', String.ofList_toList]

theorem Harmless.of_part {xs ys : List Char} (h : Harmless ys) (hxs : xs <:+: ys) : Harmless xs :=
  ⟨fun h0 => h.1 (h0.trans hxs), fun h0 => h.2 (h0.trans hxs)⟩

/-- Keys and values are parts of the text. -/
theorem infix_members (hp : p ∈ ps) (first : Bool) :
    p.1 <:+: membersChars first ps ∧ p.2.text <:+: membersChars first ps := by
  have hpair : ∀ rest, p.1 <:+: pairChars p.1 p.2 ++ rest ∧ p.2.text <:+: pairChars p.1 p.2 ++ rest := fun rest =>
    ⟨⟨['"'], '"' :: ':' :: (p.2.text ++ rest), by simp [pairChars]⟩,
      ⟨'"' :: (p.1 ++ ['"', ':']), rest, by simp [pairChars]⟩⟩
  induction ps generalizing first with
  | nil => cases hp
  | cons q rest ih =>
    rw [membersChars]
    have hmembers := (List.suffix_append (comma first) (pairChars q.1 q.2 ++ membersChars false rest)).isInfix
    rcases List.mem_cons.mp hp with rfl | hp
    · exact (hpair _).imp (·.trans hmembers) (·.trans hmembers)
    · have hrest := (List.suffix_append (pairChars q.1 q.2) (membersChars false rest)).isInfix.trans hmembers
      exact (ih hp false).imp (·.trans hrest) (·.trans hrest)

theorem infix_objectChars (hp : p ∈ ps) : p.1 <:+: objectChars ps ∧ p.2.text <:+: objectChars ps :=
  (infix_members hp true).imp (·.trans (List.suffix_cons _ _).isInfix) (·.trans (List.suffix_cons _ _).isInfix)

section

variable {number : UInt64 → String} {c : ConfigManager} {order : List (String × ConfigValue)}

theorem fallbackRoundTrips_iff :
    FallbackRoundTrips number c order ↔
      refused (clean (serializeFallback number order)) = none ∧
      (found (clean (serializeFallback number order))).error = none ∧
      writeAll ∅ (found (clean (serializeFallback number order))).entries = c.values := by
  have hparse : Build.fallback.parse (serializeFallback number order) =
      (refused (clean (serializeFallback number order))).elim (found (clean (serializeFallback number order)))
        (fun e => { error := some (.container e) }) := by
    rw [Build.parse]
    cases refused (clean (serializeFallback number order)) <;> rfl
  unfold FallbackRoundTrips
  rw [loadFromJsonString_eq, hparse]
  cases refused (clean (serializeFallback number order)) with
  | some e =>
    refine iff_of_false ?_ (by simp)
    rintro ⟨c', heq, -⟩
    cases (Prod.mk.inj heq).1
  | none =>
    constructor
    · rintro ⟨c', heq, hvalues, -⟩
      obtain ⟨hresult, rfl⟩ := Prod.mk.inj heq
      rw [setEach_values] at hvalues
      refine ⟨rfl, ?_, hvalues⟩
      unfold Parsed.result at hresult
      cases herror : (found (clean (serializeFallback number order))).error with
      | none => rfl
      | some e =>
        rw [Option.elim, herror] at hresult
        cases hresult
    · rintro ⟨-, herror, hvalues⟩
      refine ⟨_, Prod.ext ?_ rfl, by rw [setEach_values]; exact hvalues, by rw [setEach_layers]; rfl⟩
      rw [Option.elim, Parsed.result, herror]

theorem writeAll_decoded (h : order.Perm c.values.toList) (k : String) :
    (writeAll ∅ (order.map fun e => (e.1, decoded e.2)))[k]? = c.values[k]?.map decoded := by
  have hentries : ∀ v, (k, v) ∈ order.map (fun e => (e.1, decoded e.2)) ↔ c.values[k]?.map decoded = some v := by
    intro v
    rw [List.mem_map, Option.map_eq_some_iff]
    constructor
    · rintro ⟨⟨k', w⟩, hmem, heq⟩
      obtain ⟨rfl, rfl⟩ := Prod.mk.inj heq
      exact ⟨w, (mem_order h _ _).mp hmem, rfl⟩
    · rintro ⟨w, hw, rfl⟩
      exact ⟨(k, w), (mem_order h _ _).mpr hw, rfl⟩
  rw [writeAll, getElem?_foldl_insert_of_entries ∅ hentries, Std.ExtTreeMap.getElem?_empty, Option.or_none]

/-- What comes back was found. -/
theorem FallbackRoundTrips.readable (h : FallbackRoundTrips number c order) {k : String} {v : ConfigValue}
    (hv : c.values[k]? = some v) : Readable k ∧ ReadableValue v := by
  obtain ⟨-, -, hvalues⟩ := fallbackRoundTrips_iff.mp h
  rw [← hvalues] at hv
  exact found_sound (clean_noSpace _) (k, v) (mem_of_getElem?_foldl_insert hv)

variable {e : String × ConfigValue}

theorem Survives.readable (h : Survives e) (hk : KeyWritten e.1) : e.1 ≠ "" ∧ Readable e.1 ∧ ReadableValue e.2 := by
  obtain ⟨k, v⟩ := e
  refine ⟨hk.1, ⟨h.1, hk.2.1⟩, ?_⟩
  cases v with
  | string s => exact ⟨h.2.2.1, h.2.2.2.1.1⟩
  | integer n => exact h.2.2
  | boolean b => trivial
  | double bits => exact h.2.2

theorem Survives.decoded (h : Survives e) : decoded e.2 = e.2 := by
  obtain ⟨k, v⟩ := e
  cases v with
  | string s =>
    have hs : simpleJsonEscape s = s := (simpleJsonEscape_eq_iff ⟨h.2.2.1, h.2.2.2.1.1⟩).mpr h.2.2.2.1.2
    rw [Config.decoded, hs]
  | _ => rfl

theorem Survives.plainPair (number : UInt64 → String) (h : Survives e)
    (hk : KeyWritten e.1) : PlainPair (pairOf number e) := by
  have hdecoded := h.decoded
  obtain ⟨k, v⟩ := e
  refine ⟨hk.2, h.2.1, ?_⟩
  cases v with
  | string s =>
    have hs : simpleJsonEscape s = s := ConfigValue.string.inj hdecoded
    show Unescaped (simpleJsonEscape s).toList ∧ Harmless (simpleJsonEscape s).toList
    rw [hs]
    exact h.2.2.2
  | integer n =>
    show PlainScalar (.integer (integerText n.toInt))
    rw [integerText_nonneg h.2.2]
    exact ⟨Nat.toDigits_ne_nil, fun c hc => toDigits_digit hc⟩
  | boolean b => trivial
  | double bits => cases h.2.2

theorem FallbackRoundTrips.survives (hround : FallbackRoundTrips number c order) (h : order.Perm c.values.toList)
    (hkeys : ∀ k ∈ c.values, KeyWritten k) {k : String} {v : ConfigValue} (hv : c.values[k]? = some v) :
    Survives (k, v) := by
  have hwritten : ∀ e ∈ order, e.1 ≠ "" ∧ Readable e.1 ∧ ReadableValue e.2 := by
    rintro ⟨k', v'⟩ he
    have hv' := (mem_order h k' v').mp he
    exact ⟨(hkeys k' (Std.ExtTreeMap.mem_iff_isSome_getElem?.mpr (by rw [hv']; rfl))).1, hround.readable hv'⟩
  obtain ⟨hrefused, -, hvalues⟩ := fallbackRoundTrips_iff.mp hround
  have hmem := (mem_order h k v).mpr hv
  obtain ⟨-, hk, hread⟩ := hwritten _ hmem
  -- it was not refused: nothing in it looks like a colon in the wrong place
  rw [clean_serialize number fun e he => (hwritten e he).2,
    refused_object_iff (objectChars_ends _).1 (objectChars_ends _).2] at hrefused
  obtain ⟨hkey, hvalue⟩ := infix_objectChars (List.mem_map.mpr ⟨_, hmem, rfl⟩ : pairOf number (k, v) ∈ _)
  -- and a string was read as it was escaped
  rw [found_object number hwritten] at hvalues
  have hsame : decoded v = v := by
    have hlookup := writeAll_decoded h k
    rw [hvalues, hv] at hlookup
    exact (Option.some.inj hlookup).symm
  refine ⟨hk.1, hrefused.2.of_part hkey, ?_⟩
  cases v with
  | string s =>
    have hs : simpleJsonEscape s = s := ConfigValue.string.inj hsame
    have htext : s.toList <:+: (pairOf number (k, .string s)).2.text := by
      show s.toList <:+: '"' :: ((simpleJsonEscape s).toList ++ ['"'])
      rw [hs]
      exact ⟨['"'], ['"'], by simp⟩
    exact ⟨hread.1, ⟨hread.2, (simpleJsonEscape_eq_iff hread).mp hs⟩, hrefused.2.of_part (htext.trans hvalue)⟩
  | integer n => exact hread
  | boolean b => trivial
  | double bits => exact hread

/-- For every configuration whose keys are not empty and have no quotes and no backslashes,
    in every iteration order: what is saved is loaded again as the same keys and values iff
    no key and no string has white space, `:}` or `:]` in it, no string a quote or a backslash,
    no integer is negative, and there are no doubles. -/
theorem fallback_save_load_iff (number : UInt64 → String) (c : ConfigManager) (order : List (String × ConfigValue))
    (h : order.Perm c.values.toList) (hkeys : ∀ k ∈ c.values, k ≠ "" ∧ '"' ∉ k.toList ∧ '\\' ∉ k.toList) :
    FallbackRoundTrips number c order ↔ ∀ k v, c.values[k]? = some v → Survives (k, v) := by
  constructor
  · exact fun hround k v hv => hround.survives h hkeys hv
  · intro hall
    have hsurvives : ∀ e ∈ order, Survives e ∧ KeyWritten e.1 := by
      rintro ⟨k, v⟩ he
      have hv := (mem_order h k v).mp he
      exact ⟨hall k v hv, hkeys k (Std.ExtTreeMap.mem_iff_isSome_getElem?.mpr (by rw [hv]; rfl))⟩
    have hwritten : ∀ e ∈ order, e.1 ≠ "" ∧ Readable e.1 ∧ ReadableValue e.2 :=
      fun e he => (hsurvives e he).1.readable (hsurvives e he).2
    have hplain : ∀ p ∈ order.map (pairOf number), PlainPair p := by
      intro p hp
      obtain ⟨e, he, rfl⟩ := List.mem_map.mp hp
      exact (hsurvives e he).1.plainPair number (hsurvives e he).2
    refine fallbackRoundTrips_iff.mpr ⟨?_, ?_, ?_⟩
    · rw [clean_serialize number fun e he => (hwritten e he).2,
        refused_object_iff (objectChars_ends _).1 (objectChars_ends _).2]
      exact ⟨quoteCount_object hplain, harmless_object hplain⟩
    · rw [found_object number hwritten]
    · rw [found_object number hwritten]
      refine Std.ExtTreeMap.ext_getElem? fun k => ?_
      rw [writeAll_decoded h]
      cases hv : c.values[k]? with
      | none => rfl
      | some v => exact congrArg some (hall k v hv).decoded

end

/-- The configurations below have no doubles. -/
def noNumber : UInt64 → String := fun _ => ""

def serverValues : ConfigManager :=
  ((({} : ConfigManager).set "app.name" (.string "docker-cpp")).set "debug" (.boolean true)).set "server.port"
    (.integer 8080)

theorem fallback_save_load_iff_server :
    FallbackRoundTrips noNumber serverValues serverValues.values.toList := by
  have hkeys : ∀ k ∈ serverValues.values.keys, k ≠ "" ∧ '"' ∉ k.toList ∧ '\\' ∉ k.toList := by decide +kernel
  have hpairs : ∀ e ∈ serverValues.values.toList, Survives e := by decide +kernel
  refine (fallback_save_load_iff noNumber serverValues _ (List.Perm.refl _) ?_).mpr ?_
  · exact fun k hk => hkeys k (Std.ExtTreeMap.mem_keys.mpr hk)
  · exact fun k v hv => hpairs (k, v) ((mem_order (List.Perm.refl _) k v).mpr hv)

/-- A space, a backslash and a sign are not read as they were written; two characters in a
    string make the whole text unreadable. -/
theorem a_saved_configuration_is_changed :
    let reload := fun (c : ConfigManager) =>
      Build.fallback.loadFromJsonString (serializeFallback noNumber c.values.toList) {}
    (reload (({} : ConfigManager).set "n" (.integer (-5)))).2.values.toList = [] ∧
    (reload (({} : ConfigManager).set "s" (.string "a b"))).2.values.toList = [("s", .string "ab")] ∧
    (reload (({} : ConfigManager).set "s" (.string "a\\b"))).2.values.toList = [("s", .string "a\\\\b")] ∧
    (reload (({} : ConfigManager).set "s" (.string ":]"))).1 =
      .thrown (.container ⟨.configInvalid, "Invalid JSON: malformed structure"⟩) := by
  decide +kernel

end DockerCpp.Config
