/-
  DockerCpp.Config.FallbackDocument — what the fallback parser finds in a JSON document.

  `compact` is a document's text without white space, for documents that are written
  without escapes. The reader has no notion of nesting. In a document where no string
  begins with a colon it finds every member of every object, at any depth and also inside
  arrays, whose value is a string, a boolean, or begins with a digit; it takes the member's
  own name for the key (`found_document`).

  A string that is not the name of such a member is passed. Its closing quote could begin a
  key for the reader, which would reach to the next opening quote; that is no key as long as
  no colon follows it (`Aligned`).
-/

import DockerCpp.Config.FallbackRoundTrip

namespace DockerCpp.Config

open Lib

/-! ## Texts of documents -/

section

-- how a double is written
variable (number : UInt64 → String)

mutual

def compact : Json → List Char
  | .null => "null".toList
  | .string s => '"' :: (clean s ++ ['"'])
  | .integer n => integerText n
  | .float bits => (number bits).toList
  | .boolean b => (Scalar.boolean b).text
  | .array items => '[' :: compactItems true items
  | .object fields => '{' :: compactFields true fields

def compactItems : (first : Bool) → List Json → List Char
  | _, [] => [']']
  | first, item :: rest => (if first then [] else [',']) ++ (compact item ++ compactItems false rest)

def compactFields : (first : Bool) → List (String × Json) → List Char
  | _, [] => ['}']
  | first, (k, value) :: rest =>
    (if first then [] else [',']) ++ ('"' :: (clean k ++ '"' :: ':' :: (compact value ++ compactFields false rest)))

end

/-- What is found of a member's value. -/
def scalar? : Json → Option Scalar
  | .string s => some (.string (clean s))
  | .integer n => if n < 0 then none else some (.integer (integerText n))
  | .float bits =>
    if ((number bits).toList.takeWhile Char.isDigit) = [] then none
    else some (.integer ((number bits).toList.takeWhile Char.isDigit))
  | .boolean b => some (.boolean b)
  | .null | .array _ | .object _ => none

def memberPair (k : String) (value : Json) : Option (List Char × Scalar) :=
  if clean k = [] then none else (scalar? number value).map (clean k, ·)

mutual

/-- The pairs that are found in a document. -/
def pairsIn : Json → List (List Char × Scalar)
  | .array items => pairsInItems items
  | .object fields => pairsInFields fields
  | _ => []

def pairsInItems : List Json → List (List Char × Scalar)
  | [] => []
  | item :: rest => pairsIn item ++ pairsInItems rest

def pairsInFields : List (String × Json) → List (List Char × Scalar)
  | [] => []
  | (k, value) :: rest => (memberPair number k value).toList ++ (pairsIn value ++ pairsInFields rest)

end

end

/-- Written without escapes, and no colon first. -/
def PlainString (s : String) : Prop := Unescaped s.toList ∧ (clean s).head? ≠ some ':'

instance (s : String) : Decidable (PlainString s) := inferInstanceAs (Decidable (_ ∧ _))

mutual

def PlainDocument : Json → Prop
  | .string s => PlainString s
  | .array items => PlainItems items
  | .object fields => PlainFields fields
  | _ => True

def PlainItems : List Json → Prop
  | [] => True
  | item :: rest => PlainDocument item ∧ PlainItems rest

def PlainFields : List (String × Json) → Prop
  | [] => True
  | (k, value) :: rest => PlainString k ∧ PlainDocument value ∧ PlainFields rest

end

/-- How numbers are written: digits, a point, an exponent, signs. -/
def NumberText (number : UInt64 → String) : Prop :=
  ∀ bits, ∀ c ∈ (number bits).toList, c.isDigit = true ∨ c ∈ ['+', '-', '.', 'e', 'E']

/-! ## Alignment -/

/-- Texts whose quotes come in pairs, no opening one before a colon. -/
inductive Aligned : List Char → Prop where
  | nil : Aligned []
  | char {c : Char} {xs : List Char} (hc : c ≠ '"') (h : Aligned xs) : Aligned (c :: xs)
  | string {s xs : List Char} (hs : '"' ∉ s) (hcolon : s.head? ≠ some ':') (h : Aligned xs) :
    Aligned ('"' :: (s ++ '"' :: xs))

theorem Aligned.chars {pre xs : List Char} (hpre : '"' ∉ pre) (h : Aligned xs) : Aligned (pre ++ xs) := by
  induction pre with
  | nil => exact h
  | cons x pre ih =>
    obtain ⟨hx, hmem⟩ := List.ne_and_not_mem_of_not_mem_cons hpre
    exact .char (Ne.symm hx) (ih hmem)

/-- Up to the next quote. -/
theorem Aligned.next {xs : List Char} (h : Aligned xs) {k rest : List Char} (hk : '"' ∉ k)
    (heq : xs = k ++ '"' :: rest) : ∀ tail, rest ≠ ':' :: tail := by
  induction h generalizing k with
  | nil => simp at heq
  | @char c xs hc _ ih =>
    cases k with
    | nil => exact absurd (List.cons.inj heq).1 hc
    | cons x k => exact ih (fun hmem => hk (List.mem_cons_of_mem _ hmem)) (List.cons.inj heq).2
  | @string s xs hs hcolon _ _ =>
    cases k with
    | nil =>
      rintro tail rfl
      have hrest : s ++ '"' :: xs = ':' :: tail := (List.cons.inj heq).2
      cases s with
      | nil => cases (List.cons.inj hrest).1
      | cons x s =>
        rw [(List.cons.inj hrest).1] at hcolon
        exact hcolon rfl
    | cons x k => exact absurd (List.cons.inj heq).1 fun hx => hk (hx ▸ List.mem_cons_self)

/-- A closing quote begins no pair. -/
theorem Aligned.not_isPair {xs : List Char} (h : Aligned xs) : ∀ k s rest, ¬IsPair ('"' :: xs) k s rest := by
  intro k s rest hpair
  exact h.next hpair.unquoted (List.cons.inj hpair.text).2 _ rfl

/-- A string that does not begin a pair is passed. -/
theorem found_string {s rest : List Char} (hspace : NoSpace ('"' :: (s ++ '"' :: rest))) (hs : '"' ∉ s)
    (hno : ∀ k v r, ¬IsPair ('"' :: (s ++ '"' :: rest)) k v r) (h : Aligned rest) :
    found ('"' :: (s ++ '"' :: rest)) = found rest := by
  rw [found_skip hspace hno, found_chars hspace.tail hs, found_skip hspace.tail.right h.not_isPair]

theorem clean_unquoted {s : String} (h : PlainString s) : '"' ∉ clean s :=
  fun hmem => h.1.1 (List.mem_filter.mp hmem).1

theorem integerText_unquoted (n : Int) : '"' ∉ integerText n := by
  have hdigits : ∀ m, '"' ∉ Nat.toDigits 10 m := fun m hmem => absurd (toDigits_digit hmem) (by decide)
  rcases lt_or_ge n 0 with hneg | hpos
  · rw [integerText_neg hneg]
    exact fun hmem => hdigits _ ((List.mem_cons.mp hmem).resolve_left (by decide))
  · rw [integerText_nonneg hpos]
    exact hdigits _

variable {number : UInt64 → String}

theorem number_unquoted (hn : NumberText number) (bits : UInt64) : '"' ∉ (number bits).toList := by
  intro hmem
  rcases hn bits _ hmem with h | h
  · cases h
  · exact absurd h (by decide)

mutual

theorem aligned_compact (hn : NumberText number) : ∀ j : Json, PlainDocument j → ∀ rest, Aligned rest →
    Aligned (compact number j ++ rest)
  | .null, _, _, h => h.chars (show '"' ∉ "null".toList by decide)
  | .string s, hj, rest, h => by
    rw [compact, List.cons_append, List.append_assoc, List.singleton_append]
    exact .string (clean_unquoted hj) hj.2 h
  | .integer n, _, _, h => h.chars (integerText_unquoted n)
  | .float bits, _, _, h => h.chars (number_unquoted hn bits)
  | .boolean b, _, _, h => h.chars (show '"' ∉ (Scalar.boolean b).text by cases b <;> decide)
  | .array items, hj, rest, h => .char (by decide) (aligned_compactItems hn items hj true rest h)
  | .object fields, hj, rest, h => .char (by decide) (aligned_compactFields hn fields hj true rest h)

theorem aligned_compactItems (hn : NumberText number) : ∀ items : List Json, PlainItems items → ∀ first rest,
    Aligned rest → Aligned (compactItems number first items ++ rest)
  | [], _, _, rest, h => .char (by decide) h
  | item :: items, hj, first, rest, h => by
    rw [compactItems, List.append_assoc, List.append_assoc]
    have hitems := aligned_compactItems hn items hj.2 false rest h
    exact (aligned_compact hn item hj.1 _ hitems).chars (by cases first <;> decide)

theorem aligned_compactFields (hn : NumberText number) : ∀ fields : List (String × Json), PlainFields fields →
    ∀ first rest, Aligned rest → Aligned (compactFields number first fields ++ rest)
  | [], _, _, rest, h => .char (by decide) h
  | (k, value) :: fields, hj, first, rest, h => by
    rw [compactFields, List.append_assoc, List.cons_append, List.append_assoc, List.cons_append, List.cons_append,
      List.append_assoc]
    have hfields := aligned_compactFields hn fields hj.2.2 false rest h
    have hvalue := aligned_compact hn value hj.2.1 _ hfields
    exact (Aligned.string (clean_unquoted hj.1) hj.1.2 (.char (by decide) hvalue)).chars (by cases first <;> decide)

end

/-! ## What is found -/

/-- What follows a value. -/
def Stops (rest : List Char) : Prop := ∃ c tail, rest = c :: tail ∧ c ∈ [',', ']', '}']

variable {rest : List Char} {value : Json}

theorem Stops.not_digit (h : Stops rest) : ∀ c, rest.head? = some c → c.isDigit = false := by
  obtain ⟨c, tail, rfl, hc⟩ := h
  intro d hd
  cases hd
  simp only [List.mem_cons, List.not_mem_nil, or_false] at hc
  rcases hc with rfl | rfl | rfl
  · rfl
  · rfl
  · rfl

/-- The first character of a value that is found. -/
def BeginsScalar (c : Char) : Prop := c = '"' ∨ c.isDigit = true ∨ c = 't' ∨ c = 'f'

theorem Scalar.begins {s : Scalar} (h : s.Ends rest) : ∃ c tail, s.text ++ rest = c :: tail ∧ BeginsScalar c := by
  cases s with
  | string v => exact ⟨'"', _, rfl, Or.inl rfl⟩
  | integer digits =>
    obtain ⟨c, ds, rfl⟩ := List.exists_cons_of_ne_nil h.1
    exact ⟨c, _, rfl, Or.inr (Or.inl (h.2.1 c List.mem_cons_self))⟩
  | boolean b =>
    cases b
    · exact ⟨'f', _, rfl, Or.inr (Or.inr (Or.inr rfl))⟩
    · exact ⟨'t', _, rfl, Or.inr (Or.inr (Or.inl rfl))⟩

/-- Nothing is found of the other values. -/
theorem not_begins (hn : NumberText number) (h : scalar? number value = none) (hrest : Stops rest) :
    ∃ c tail, compact number value ++ rest = c :: tail ∧ ¬BeginsScalar c := by
  have hcheck : ∀ c ∈ ['n', '[', '{'] ++ ([',', ']', '}'] ++ ['+', '-', '.', 'e', 'E']), ¬BeginsScalar c := by
    simp only [List.cons_append, List.nil_append, List.forall_mem_cons, List.not_mem_nil, false_implies, implies_true,
      and_true, BeginsScalar]
    decide
  cases value with
  | null => exact ⟨'n', _, rfl, hcheck _ (by decide)⟩
  | string s => cases h
  | integer n =>
    rw [scalar?] at h
    split at h
    · rename_i hneg
      rw [compact, integerText_neg hneg]
      exact ⟨'-', _, rfl, hcheck _ (by decide)⟩
    · cases h
  | float bits =>
    rw [scalar?] at h
    split at h
    · rename_i hnil
      rw [compact]
      cases htext : (number bits).toList with
      | nil =>
        obtain ⟨c, tail, rfl, hc⟩ := hrest
        exact ⟨c, tail, rfl, hcheck c (List.mem_append_right _ (List.mem_append_left _ hc))⟩
      | cons c tail =>
        have hdigit : ¬c.isDigit = true := by
          intro hdigit
          rw [htext, List.takeWhile_cons_of_pos hdigit] at hnil
          cases hnil
        have hc := (hn bits c (by rw [htext]; exact List.mem_cons_self)).resolve_left hdigit
        exact ⟨c, _, rfl, hcheck c (List.mem_append_right _ (List.mem_append_right _ hc))⟩
    · cases h
  | boolean b => cases h
  | array items => exact ⟨'[', _, rfl, hcheck _ (by decide)⟩
  | object fields => exact ⟨'{', _, rfl, hcheck _ (by decide)⟩

/-- A value that is found: its text, and what is passed after it. -/
theorem scalar_written (hn : NumberText number) (hvalue : PlainDocument value) {s : Scalar}
    (h : scalar? number value = some s) (hrest : Stops rest) :
    ∃ passed, compact number value ++ rest = s.text ++ (passed ++ rest) ∧ s.Ends (passed ++ rest) ∧ '"' ∉ passed ∧
      pairsIn number value = [] := by
  cases value with
  | null => cases h
  | string t =>
    cases h
    exact ⟨[], by simp [compact, Scalar.text], clean_unquoted hvalue, List.not_mem_nil, rfl⟩
  | integer n =>
    rw [scalar?] at h
    split at h
    · cases h
    · rename_i hpos
      cases h
      refine ⟨[], rfl, ?_, List.not_mem_nil, rfl⟩
      rw [integerText_nonneg (not_lt.mp hpos)]
      exact ⟨Nat.toDigits_ne_nil, fun c hc => toDigits_digit hc, hrest.not_digit⟩
  | float bits =>
    rw [scalar?] at h
    split at h
    · cases h
    · rename_i hne
      cases h
      refine ⟨(number bits).toList.dropWhile Char.isDigit, ?_, ⟨hne, fun c hc => List.mem_takeWhile_imp hc, ?_⟩, ?_, rfl⟩
      · rw [compact, Scalar.text, ← List.append_assoc, List.takeWhile_append_dropWhile]
      · intro c hc
        have hnot := List.head?_dropWhile_not Char.isDigit (number bits).toList
        cases hdrop : (number bits).toList.dropWhile Char.isDigit with
        | nil =>
          rw [hdrop] at hc
          exact hrest.not_digit c hc
        | cons d tail =>
          rw [hdrop] at hc hnot
          cases hc
          simpa using hnot
      · exact fun hmem => number_unquoted hn bits ((List.dropWhile_sublist _).subset hmem)
  | boolean b =>
    cases h
    exact ⟨[], rfl, trivial, List.not_mem_nil, rfl⟩
  | array items => cases h
  | object fields => cases h

/-- What is read of pairs before the rest of a text. -/
def readPairs (ps : List (List Char × Scalar)) (p : Parsed) : Parsed := ps.foldr (fun e p => p.after e.1 e.2.value) p

theorem readPairs_append (ps ps' : List (List Char × Scalar)) (p : Parsed) :
    readPairs (ps ++ ps') p = readPairs ps (readPairs ps' p) := List.foldr_append

theorem found_member (hn : NumberText number) {k : String} (hk : PlainString k)
    (hvalue : PlainDocument value) (hrest : Stops rest) (haligned : Aligned rest)
    (hspace : NoSpace ('"' :: (clean k ++ '"' :: ':' :: (compact number value ++ rest))))
    (hfound : found (compact number value ++ rest) = readPairs (pairsIn number value) (found rest)) :
    found ('"' :: (clean k ++ '"' :: ':' :: (compact number value ++ rest))) =
      readPairs ((memberPair number k value).toList ++ pairsIn number value) (found rest) := by
  have hvalueSpace : NoSpace (compact number value ++ rest) := hspace.tail.right.tail.tail
  by_cases hpair : ∃ s, clean k ≠ [] ∧ scalar? number value = some s
  · obtain ⟨s, hne, hs⟩ := hpair
    obtain ⟨passed, htext, hends, hpassed, hpairs⟩ := scalar_written hn hvalue hs hrest
    have hmember : memberPair number k value = some (clean k, s) := by rw [memberPair, if_neg hne, hs]; rfl
    have hrestSpace : NoSpace (passed ++ rest) := by
      rw [htext] at hvalueSpace
      exact hvalueSpace.right
    rw [found_pair hspace ⟨by rw [htext], hne, clean_unquoted hk, hends⟩, found_chars hrestSpace hpassed, hmember, hpairs]
    rfl
  · have hno : ∀ k' s r, ¬IsPair ('"' :: (clean k ++ '"' :: ':' :: (compact number value ++ rest))) k' s r := by
      intro k' s r h
      -- both keys end at the first quote
      have hsplit := (List.cons.inj h.text).2
      obtain ⟨rfl, htail⟩ := append_cons_inj (clean_unquoted hk) h.unquoted hsplit
      have hnone : scalar? number value = none := by
        cases hs : scalar? number value with
        | none => rfl
        | some s' => exact absurd ⟨s', h.nonempty, hs⟩ hpair
      obtain ⟨c, tail, heq, hc⟩ := Scalar.begins h.ends
      obtain ⟨c', tail', heq', hc'⟩ := not_begins hn hnone hrest
      have hsame : c :: tail = c' :: tail' := by rw [← heq, ← heq', (List.cons.inj htail).2]
      exact hc' ((List.cons.inj hsame).1 ▸ hc)
    have hmember : memberPair number k value = none := by
      unfold memberPair
      by_cases hne : clean k = []
      · rw [if_pos hne]
      · cases hs : scalar? number value with
        | none => rw [if_neg hne]; rfl
        | some s => exact absurd ⟨s, hne, hs⟩ hpair
    have hafter : Aligned (':' :: (compact number value ++ rest)) :=
      .char (by decide) (aligned_compact hn value hvalue rest haligned)
    rw [found_string hspace (clean_unquoted hk) hno hafter, found_char hspace.tail.right.tail (by decide), hfound,
      hmember]
    rfl

theorem compactItems_stops (number : UInt64 → String) (items : List Json) (rest : List Char) :
    Stops (compactItems number false items ++ rest) := by
  cases items with
  | nil => exact ⟨']', rest, by rw [compactItems]; rfl, by decide⟩
  | cons item items => exact ⟨',', _, by rw [compactItems]; rfl, by decide⟩

theorem compactFields_stops (number : UInt64 → String) (fields : List (String × Json)) (rest : List Char) :
    Stops (compactFields number false fields ++ rest) := by
  cases fields with
  | nil => exact ⟨'}', rest, by rw [compactFields]; rfl, by decide⟩
  | cons f fields => exact ⟨',', _, by rw [compactFields]; rfl, by decide⟩

mutual

theorem found_compact (hn : NumberText number) : ∀ j : Json, PlainDocument j → ∀ rest, Stops rest → Aligned rest →
    NoSpace (compact number j ++ rest) → found (compact number j ++ rest) = readPairs (pairsIn number j) (found rest)
  | .null, _, _, _, _, hspace => found_chars hspace (show '"' ∉ "null".toList by decide)
  | .string s, hj, rest, hrest, haligned, hspace => by
    rw [compact, List.cons_append, List.append_assoc, List.singleton_append] at hspace ⊢
    refine found_string hspace (clean_unquoted hj) (fun k v r h => ?_) haligned
    -- a comma or a bracket follows it, not a colon
    obtain ⟨-, htail⟩ := append_cons_inj (clean_unquoted hj) h.unquoted (List.cons.inj h.text).2
    obtain ⟨c, tail, rfl, hc⟩ := hrest
    rw [(List.cons.inj htail).1] at hc
    exact absurd hc (by decide)
  | .integer n, _, _, _, _, hspace => found_chars hspace (integerText_unquoted n)
  | .float bits, _, _, _, _, hspace => found_chars hspace (number_unquoted hn bits)
  | .boolean b, _, _, _, _, hspace =>
    found_chars hspace (show '"' ∉ (Scalar.boolean b).text by cases b <;> decide)
  | .array items, hj, rest, _, haligned, hspace =>
    (found_char hspace (by decide)).trans (found_compactItems hn items hj true rest haligned hspace.tail)
  | .object fields, hj, rest, _, haligned, hspace =>
    (found_char hspace (by decide)).trans (found_compactFields hn fields hj true rest haligned hspace.tail)

theorem found_compactItems (hn : NumberText number) : ∀ items : List Json, PlainItems items → ∀ first rest,
    Aligned rest → NoSpace (compactItems number first items ++ rest) →
    found (compactItems number first items ++ rest) = readPairs (pairsInItems number items) (found rest)
  | [], _, _, rest, _, hspace => found_char hspace (by decide)
  | item :: items, hj, first, rest, haligned, hspace => by
    rw [compactItems, List.append_assoc, List.append_assoc] at hspace ⊢
    rw [found_chars hspace (by cases first <;> decide),
      found_compact hn item hj.1 _ (compactItems_stops number items rest)
        (aligned_compactItems hn items hj.2 false rest haligned)
        hspace.right,
      found_compactItems hn items hj.2 false rest haligned hspace.right.right, pairsInItems, readPairs_append]

theorem found_compactFields (hn : NumberText number) : ∀ fields : List (String × Json), PlainFields fields →
    ∀ first rest, Aligned rest → NoSpace (compactFields number first fields ++ rest) →
    found (compactFields number first fields ++ rest) = readPairs (pairsInFields number fields) (found rest)
  | [], _, _, rest, _, hspace => found_char hspace (by decide)
  | (k, value) :: fields, hj, first, rest, haligned, hspace => by
    rw [compactFields, List.append_assoc, List.cons_append, List.append_assoc, List.cons_append, List.cons_append,
      List.append_assoc] at hspace ⊢
    have hstops := compactFields_stops number fields rest
    have hfields := aligned_compactFields hn fields hj.2.2 false rest haligned
    have hvalueSpace := hspace.right.tail.right.tail.tail
    have hvalue := found_compact hn value hj.2.1 _ hstops hfields hvalueSpace
    rw [found_chars hspace (by cases first <;> decide),
      found_member hn hj.1 hj.2.1 hstops hfields hspace.right hvalue,
      found_compactFields hn fields hj.2.2 false rest haligned hvalueSpace.right, pairsInFields, readPairs_append,
      readPairs_append, readPairs_append]

end

/-- In the text of a document the pairs of its members are found, in order. -/
theorem found_document (hn : NumberText number) {fields : List (String × Json)} (hj : PlainFields fields)
    {text : String} (htext : clean text = compact number (.object fields)) :
    found (clean text) = readPairs (pairsInFields number fields) {} := by
  have hspace := clean_noSpace text
  rw [htext, compact] at hspace ⊢
  have hfields := found_compactFields hn fields hj true [] .nil (by rw [List.append_nil]; exact hspace.tail)
  rw [List.append_nil] at hfields
  exact (found_char hspace (by decide)).trans hfields

end DockerCpp.Config
