/-
  DockerCpp.Config.FallbackReader — what the fallback parser's regular expression finds.

  In a text without white space the expression matches at a position iff a pair stands there:
  a key in quotes, a colon, and a string, a number or a boolean (`first_pair`,
  `first_pair_none`). So the loop over the matches reads a pair where there is one and passes a
  character otherwise (`found_pair`, `found_skip`).

  Whatever the text is, what is found has no white space and no quotes in its keys and
  strings, and no negative integers (`found_sound`).
-/

import DockerCpp.Config.Fallback

namespace DockerCpp.Config

open Lib

def NoSpace (xs : List Char) : Prop := ∀ c ∈ xs, isSpace c = false

instance (xs : List Char) : Decidable (NoSpace xs) := List.decidableBAll (fun c => isSpace c = false) xs

variable {xs k rest : List Char} {x : Char}

theorem NoSpace.tail (h : NoSpace (x :: xs)) : NoSpace xs :=
  fun c hc => h c (List.mem_cons_of_mem _ hc)

theorem NoSpace.left {xs ys : List Char} (h : NoSpace (xs ++ ys)) : NoSpace xs :=
  fun c hc => h c (List.mem_append_left _ hc)

theorem NoSpace.right {xs ys : List Char} (h : NoSpace (xs ++ ys)) : NoSpace ys :=
  fun c hc => h c (List.mem_append_right _ hc)

theorem NoSpace.head (h : NoSpace xs) : ∀ c, xs.head? = some c → isSpace c = false :=
  fun c hc => h c (List.mem_of_mem_head? hc)

theorem clean_noSpace (text : String) : NoSpace (clean text) := by
  intro c hc
  simpa using (List.mem_filter.mp hc).2

/-! ## Pairs -/

/-- A value as it is written. -/
inductive Scalar where
  | string (v : List Char)
  | integer (digits : List Char)
  | boolean (b : Bool)

namespace Scalar

def text : Scalar → List Char
  | .string v => '"' :: (v ++ ['"'])
  | .integer digits => digits
  | .boolean b => if b then "true".toList else "false".toList

/-- It reaches as far as it can. -/
def Ends (rest : List Char) : Scalar → Prop
  | .string v => '"' ∉ v
  | .integer digits => digits ≠ [] ∧ (∀ c ∈ digits, c.isDigit = true) ∧ ∀ c, rest.head? = some c → c.isDigit = false
  | .boolean _ => True

def captures (k : List Char) : Scalar → Regex.Captures Char
  | .string v => [(1, k), (2, v)]
  | .integer digits => [(3, k), (4, digits)]
  | .boolean b => [(5, k), (6, (Scalar.boolean b).text)]

def value : Scalar → Except ContainerError ConfigValue
  | .string v => .ok (.string (String.ofList v))
  | .integer digits => (stoi digits).elim (.error ⟨.configInvalid, "JSON parsing failed: stoi"⟩) (.ok <| .integer ·)
  | .boolean b => .ok (.boolean b)

end Scalar

/-- A pair at the beginning of a text. -/
structure IsPair (xs k : List Char) (s : Scalar) (rest : List Char) : Prop where
  text : xs = '"' :: (k ++ '"' :: ':' :: (s.text ++ rest))
  nonempty : k ≠ []
  unquoted : '"' ∉ k
  ends : s.Ends rest

/-! ## The regular expression -/

variable {s : Scalar}

/-- `\s*:\s*` -/
def colonPattern : Regex Char := .seq (.many isSpace) <| .seq (.one (· == ':')) (.many isSpace)

theorem colonPattern_ways {rest : List Char} (h : NoSpace rest) : colonPattern.ways (':' :: rest) = [([], rest)] := by
  have hbefore : (Regex.many isSpace).ways (':' :: rest) = [([], ':' :: rest)] :=
    Regex.ways_many_none fun c hc => by
      cases hc
      rfl
  have hcolon : (Regex.one (· == ':')).ways (':' :: rest) = [([], rest)] := Regex.ways_one rfl rest
  rw [colonPattern, Regex.ways_seq_single hbefore, Regex.ways_seq_single hcolon, Regex.ways_many_none h.head]
  rfl

theorem colonPattern_ways_none (h : NoSpace xs) (hcolon : ∀ rest, xs ≠ ':' :: rest) : colonPattern.ways xs = [] := by
  have hnone : (Regex.one (· == ':')).ways xs = [] := by
    cases xs with
    | nil => rfl
    | cons x xs => exact Regex.ways_one_none (by simpa using fun heq => hcolon xs (by rw [heq])) xs
  rw [colonPattern, Regex.ways_seq_single (Regex.ways_many_none h.head), Regex.ways_seq_nil hnone]
  rfl

/-- The key, the closing quote and the colon. -/
def keyTail (n : Nat) : Regex Char := .seq (.group n (.plus (· != '"'))) (.seq (.one (· == '"')) colonPattern)

theorem keyPattern_open (n : Nat) (tail : List Char) : (keyPattern n).ways ('"' :: tail) = (keyTail n).ways tail := by
  have hquote : (Regex.one (· == '"')).ways ('"' :: tail) = [([], tail)] := Regex.ways_one rfl tail
  show (Regex.seq (.one (· == '"')) (keyTail n)).ways ('"' :: tail) = _
  rw [Regex.ways_seq_single hquote]
  simp

theorem keyTail_startsWith : Regex.StartsWith '"' (.seq (.one (· == '"')) colonPattern) :=
  Regex.startsWith_one.seq colonPattern

theorem keyTail_end (after : List Char) :
    (Regex.seq (.one (· == '"')) colonPattern).ways ('"' :: after) = colonPattern.ways after := by
  have hquote : (Regex.one (· == '"')).ways ('"' :: after) = [([], after)] := Regex.ways_one rfl after
  rw [Regex.ways_seq_single hquote]
  simp

theorem keyPattern_ways {k rest : List Char} (hne : k ≠ []) (hk : '"' ∉ k) (h : NoSpace rest) (n : Nat) :
    (keyPattern n).ways ('"' :: (k ++ '"' :: ':' :: rest)) = [([(n, k)], rest)] := by
  rw [keyPattern_open, keyTail, Regex.ways_plus_until keyTail_startsWith hne hk, keyTail_end, colonPattern_ways h]
  rfl

theorem keyPattern_ways_none (h : NoSpace xs)
    (hno : ∀ k rest, xs = '"' :: (k ++ '"' :: ':' :: rest) → '"' ∉ k → k = []) (n : Nat) :
    (keyPattern n).ways xs = [] := by
  cases xs with
  | nil => rfl
  | cons x tail =>
    by_cases hx : x = '"'
    · subst hx
      rw [keyPattern_open, keyTail]
      by_cases hmem : '"' ∈ tail
      · obtain ⟨k, after, rfl, hk⟩ := List.eq_append_cons_of_mem hmem
        by_cases hne : k = []
        · subst hne
          exact Regex.ways_plus_empty _ n after
        · have hcolon : ∀ rest, after ≠ ':' :: rest := fun rest heq => hne (hno k rest (by rw [heq]) hk)
          rw [Regex.ways_plus_until keyTail_startsWith hne hk, keyTail_end,
            colonPattern_ways_none h.tail.right.tail hcolon, List.map_nil]
      · exact Regex.ways_plus_unended keyTail_startsWith hmem n
    · exact Regex.ways_seq_nil (Regex.ways_one_none (by simpa using hx) tail) _

/-- The three kinds of values. -/
def stringPattern : Regex Char := .seq (.one (· == '"')) (.seq (.group 2 (.many (· != '"'))) (.one (· == '"')))

def digitsPattern : Regex Char := .group 4 (.plus Char.isDigit)

def booleanPattern : Regex Char := .group 6 (.alt (.literal "true".toList) (.literal "false".toList))

theorem kvPattern_first {k tail : List Char} (hne : k ≠ []) (hk : '"' ∉ k) (h : NoSpace tail) :
    kvPattern.first ('"' :: (k ++ '"' :: ':' :: tail)) =
      ((stringPattern.first tail).map fun m => ((1, k) :: m.1, m.2)).or
        (((digitsPattern.first tail).map fun m => ((3, k) :: m.1, m.2)).or
          ((booleanPattern.first tail).map fun m => ((5, k) :: m.1, m.2))) := by
  have hways : kvPattern.ways ('"' :: (k ++ '"' :: ':' :: tail)) =
      (stringPattern.ways tail).map (fun m => ((1, k) :: m.1, m.2)) ++
        ((digitsPattern.ways tail).map (fun m => ((3, k) :: m.1, m.2)) ++
          (booleanPattern.ways tail).map (fun m => ((5, k) :: m.1, m.2))) := by
    show (Regex.alt (.seq (keyPattern 1) stringPattern)
      (.alt (.seq (keyPattern 3) digitsPattern) (.seq (keyPattern 5) booleanPattern))).ways _ = _
    simp only [Regex.ways_alt, Regex.ways_seq, keyPattern_ways hne hk h, List.flatMap_cons, List.flatMap_nil, List.append_nil,
      List.singleton_append]
  simp only [Regex.first, hways, List.head?_append, List.head?_map]

theorem stringPattern_first {v : List Char} (hv : '"' ∉ v) (rest : List Char) :
    stringPattern.first ('"' :: (v ++ '"' :: rest)) = some ([(2, v)], rest) := by
  have hquote : (Regex.one (· == '"')).ways ('"' :: (v ++ '"' :: rest)) = [([], v ++ '"' :: rest)] :=
    Regex.ways_one rfl _
  rw [Regex.first, stringPattern, Regex.ways_seq_single hquote,
    Regex.ways_many_until Regex.startsWith_one hv 2 rest]
  rfl

/-- Not a string. -/
theorem stringPattern_first_none (h : ∀ v rest, xs = '"' :: (v ++ '"' :: rest) → '"' ∈ v) :
    stringPattern.first xs = none := by
  rw [Regex.first, List.head?_eq_none_iff]
  cases xs with
  | nil => rfl
  | cons x tail =>
    by_cases hx : x = '"'
    · subst hx
      have hquote : (Regex.one (· == '"')).ways ('"' :: tail) = [([], tail)] := Regex.ways_one rfl tail
      have hmem : '"' ∉ tail := by
        intro hmem
        obtain ⟨v, rest, rfl, hv⟩ := List.eq_append_cons_of_mem hmem
        exact hv (h v rest rfl)
      rw [stringPattern, Regex.ways_seq_single hquote, Regex.ways_many_unended Regex.startsWith_one hmem, List.map_nil]
    · exact Regex.ways_seq_nil (Regex.ways_one_none (by simpa using hx) tail) _

theorem digitsPattern_first {digits rest : List Char} (h : (Scalar.integer digits).Ends rest) :
    digitsPattern.first (digits ++ rest) = some ([(4, digits)], rest) :=
  Regex.first_group_plus h.1 h.2.1 h.2.2 4

theorem digitsPattern_first_none (h : ∀ c, xs.head? = some c → c.isDigit = false) :
    digitsPattern.first xs = none := by
  rw [Regex.first, digitsPattern, Regex.ways_group_plus_none h]
  rfl

theorem booleanPattern_first (b : Bool) (rest : List Char) :
    booleanPattern.first ((Scalar.boolean b).text ++ rest) = some ([(6, (Scalar.boolean b).text)], rest) := by
  refine Regex.first_group_single ?_ 6
  rw [Regex.ways_alt]
  cases b with
  | true =>
    have hfalse : ¬"false".toList <+: (Scalar.boolean true).text ++ rest := by simp [Scalar.text]
    rw [Regex.ways_literal_none hfalse, List.append_nil]
    exact Regex.ways_literal _ rest
  | false =>
    have htrue : ¬"true".toList <+: (Scalar.boolean false).text ++ rest := by simp [Scalar.text]
    rw [Regex.ways_literal_none htrue, List.nil_append]
    exact Regex.ways_literal _ rest

theorem booleanPattern_first_none (h : ∀ b rest, xs ≠ (Scalar.boolean b).text ++ rest) :
    booleanPattern.first xs = none := by
  have htrue : ¬"true".toList <+: xs := fun ⟨rest, heq⟩ => h true rest heq.symm
  have hfalse : ¬"false".toList <+: xs := fun ⟨rest, heq⟩ => h false rest heq.symm
  rw [Regex.first, booleanPattern, Regex.ways_group, Regex.ways_alt, Regex.ways_literal_none htrue,
    Regex.ways_literal_none hfalse]
  rfl

theorem first_pair (hxs : NoSpace xs) (h : IsPair xs k s rest) : kvPattern.first xs = some (s.captures k, rest) := by
  obtain ⟨rfl, hne, hk, hends⟩ := h
  rw [kvPattern_first hne hk hxs.tail.right.tail.tail]
  cases s with
  | string v =>
    rw [Scalar.text, List.cons_append, List.append_assoc, List.singleton_append, stringPattern_first hends]
    rfl
  | integer digits =>
    obtain ⟨c, ds, rfl⟩ := List.exists_cons_of_ne_nil hends.1
    have hc : c.isDigit = true := hends.2.1 c List.mem_cons_self
    have hstring : stringPattern.first (c :: ds ++ rest) = none := stringPattern_first_none fun v after heq => by
      rw [(List.cons.inj heq).1] at hc
      cases hc
    rw [Scalar.text, hstring, digitsPattern_first hends]
    rfl
  | boolean b =>
    have hletter : ∃ c tail, (Scalar.boolean b).text ++ rest = c :: tail ∧ c ≠ '"' ∧ c.isDigit = false := by
      cases b
      · exact ⟨'f', _, rfl, by decide, by decide⟩
      · exact ⟨'t', _, rfl, by decide, by decide⟩
    obtain ⟨c, tail, heq, hc, hdigit⟩ := hletter
    have hstring : stringPattern.first ((Scalar.boolean b).text ++ rest) = none :=
      stringPattern_first_none fun v after hquote => by
        rw [heq] at hquote
        exact absurd (List.cons.inj hquote).1 hc
    have hdigits : digitsPattern.first ((Scalar.boolean b).text ++ rest) = none :=
      digitsPattern_first_none fun d hd => by
        rw [heq] at hd
        cases hd
        exact hdigit
    rw [hstring, hdigits, booleanPattern_first]
    rfl

/-- Where no pair stands nothing is found. -/
theorem first_pair_none (hxs : NoSpace xs) (h : ∀ k s rest, ¬IsPair xs k s rest) : kvPattern.first xs = none := by
  by_cases hkey : ∃ k tail, xs = '"' :: (k ++ '"' :: ':' :: tail) ∧ '"' ∉ k ∧ k ≠ []
  · obtain ⟨k, tail, rfl, hk, hne⟩ := hkey
    have hno : ∀ (s : Scalar) (rest : List Char), tail = s.text ++ rest → ¬s.Ends rest :=
      fun s rest heq hends => h k s rest ⟨by rw [heq], hne, hk, hends⟩
    have hstring : stringPattern.first tail = none := stringPattern_first_none fun v rest heq => by
      by_contra hv
      exact hno (.string v) rest (by rw [heq]; simp [Scalar.text]) hv
    have hdigits : digitsPattern.first tail = none := digitsPattern_first_none fun c hc => by
      by_contra hdigit
      rw [Bool.not_eq_false] at hdigit
      refine hno (.integer (tail.takeWhile Char.isDigit)) (tail.dropWhile Char.isDigit)
        (List.takeWhile_append_dropWhile).symm ⟨?_, ?_, ?_⟩
      · cases tail with
        | nil => cases hc
        | cons d tail =>
          cases hc
          simp [hdigit]
      · exact fun d hd => List.mem_takeWhile_imp hd
      · intro d hd
        have hnot := List.head?_dropWhile_not Char.isDigit tail
        rw [hd] at hnot
        simpa using hnot
    have hboolean : booleanPattern.first tail = none :=
      booleanPattern_first_none fun b rest heq => hno (.boolean b) rest heq trivial
    rw [kvPattern_first hne hk hxs.tail.right.tail.tail, hstring, hdigits, hboolean]
    rfl
  · have hnone : ∀ n, (keyPattern n).ways xs = [] := keyPattern_ways_none hxs fun k rest heq hk => by
      by_contra hne
      exact hkey ⟨k, rest, heq, hk, hne⟩
    simp [Regex.first, kvPattern, hnone]

/-! ## What is found -/

/-- With one more pair before. -/
def Parsed.after (p : Parsed) (key : List Char) : Except ContainerError ConfigValue → Parsed
  | .ok v => { p with entries := (String.ofList key, v) :: p.entries }
  | .error e => { error := some (.container e) }

/-- What the loop over the matches in a text makes of it. -/
def found (xs : List Char) : Parsed := parseMatches (scan kvPattern 0 0 xs)

/-- Positions do not matter. -/
theorem parseMatches_scan (r : Regex Char) (skip position position' : Nat) (xs : List Char) :
    parseMatches (scan r skip position xs) = parseMatches (scan r skip position' xs) := by
  induction xs generalizing skip position position' with
  | nil => simp [scan]
  | cons x xs ih =>
    cases skip with
    | succ skip => exact ih skip _ _
    | zero =>
      unfold scan
      cases r.first (x :: xs) with
      | none => exact ih 0 _ _
      | some m =>
        have hentry : ∀ p p' l, entry ⟨p, l, m.1⟩ = entry ⟨p', l, m.1⟩ := fun _ _ _ => rfl
        simp only [parseMatches]
        rw [hentry position position', ih _ (position + 1) (position' + 1)]

theorem entry_captures (k : List Char) (s : Scalar) (position length : Nat) :
    entry ⟨position, length, s.captures k⟩ = some (s.value.map fun v => (String.ofList k, v)) := by
  cases s with
  | string v => rfl
  | integer digits =>
    simp only [entry, Scalar.captures, Scalar.value, Match.matched]
    cases hn : stoi digits <;> simp [hn, Match.str, List.lookup_cons, Except.map]
  | boolean b => cases b <;> rfl

theorem found_pair (hxs : NoSpace xs) (h : IsPair xs k s rest) : found xs = (found rest).after k s.value := by
  have hfirst := first_pair hxs h
  have hsplit : xs = '"' :: (k ++ '"' :: ':' :: s.text) ++ rest := by
    rw [h.text]
    simp
  rw [hsplit] at hfirst ⊢
  rw [found, scan_some (by simp) hfirst, parseMatches, entry_captures,
    parseMatches_scan kvPattern 0 _ 0]
  cases s.value with
  | error e => rfl
  | ok v => rfl

theorem found_skip (hxs : NoSpace (x :: xs)) (h : ∀ k s rest, ¬IsPair (x :: xs) k s rest) :
    found (x :: xs) = found xs := by
  rw [found, scan_none (first_pair_none hxs h), parseMatches_scan kvPattern 0 _ 0]
  rfl

/-- A pair begins with a quote. -/
theorem found_char (hxs : NoSpace (x :: xs)) (hx : x ≠ '"') : found (x :: xs) = found xs :=
  found_skip hxs fun _ _ _ h => hx (List.cons.inj h.text).1

theorem found_chars {pre xs : List Char} (hxs : NoSpace (pre ++ xs)) (hpre : '"' ∉ pre) : found (pre ++ xs) = found xs := by
  induction pre with
  | nil => rfl
  | cons x pre ih =>
    obtain ⟨hx, hmem⟩ := List.ne_and_not_mem_of_not_mem_cons hpre
    exact (found_char hxs (Ne.symm hx)).trans (ih hxs.tail hmem)

/-! ## Integers as they are written -/

def integerText (n : Int) : List Char := (toString n).toList

theorem integerText_nonneg {n : Int} (h : 0 ≤ n) : integerText n = Nat.toDigits 10 n.toNat := by
  obtain ⟨m, rfl⟩ := Int.eq_ofNat_of_zero_le h
  exact Nat.toList_repr

theorem integerText_neg {n : Int} (h : n < 0) : integerText n = '-' :: Nat.toDigits 10 n.natAbs := by
  obtain ⟨m, rfl⟩ := Int.eq_negSucc_of_lt_zero h
  show ("-" ++ Nat.repr (m + 1)).toList = _
  rw [String.toList_append, Nat.toList_repr]
  rfl

theorem toDigits_digit {n : Nat} {c : Char} (hc : c ∈ Nat.toDigits 10 n) : c.isDigit = true :=
  Nat.isDigit_of_mem_toDigits (by decide) (by decide) hc

theorem stoi_toDigits (n : Nat) : stoi (Nat.toDigits 10 n) = if n ≤ 2147483647 then some (Int32.ofNat n) else none := by
  have hvalue : (Nat.toDigits 10 n).foldl (fun n c => 10 * n + (c.toNat - '0'.toNat)) 0 = n :=
    Nat.ofDigitChars_toDigits (by decide) (by decide)
  rw [stoi, hvalue]

/-! ## In any text -/

/-- A key or a string that can be found. -/
def Readable (s : String) : Prop := NoSpace s.toList ∧ '"' ∉ s.toList

instance (s : String) : Decidable (Readable s) := inferInstanceAs (Decidable (_ ∧ _))

theorem stoi_nonneg {digits : List Char} {n : Int32} (h : stoi digits = some n) : 0 ≤ n.toInt := by
  unfold stoi at h
  simp only at h
  split at h
  · rename_i hle
    rw [← Option.some.inj h, Int32.toInt_ofNat_of_lt (by omega)]
    omega
  · cases h

/-- What a value that is found is like. -/
def ReadableValue : ConfigValue → Prop
  | .string s => Readable s
  | .integer n => 0 ≤ n.toInt
  | .boolean _ => True
  | .double _ => False

theorem Scalar.readable {rest : List Char} (hs : NoSpace (s.text ++ rest)) (hends : s.Ends rest)
    {v : ConfigValue} (hv : s.value = .ok v) : ReadableValue v := by
  cases s with
  | string w =>
    cases hv
    refine ⟨fun c hc => hs c ?_, by rw [String.toList_ofList]; exact hends⟩
    rw [String.toList_ofList] at hc
    simp [Scalar.text, hc]
  | integer digits =>
    rw [Scalar.value] at hv
    cases hn : stoi digits with
    | none =>
      rw [hn] at hv
      cases hv
    | some n =>
      rw [hn] at hv
      cases hv
      exact stoi_nonneg hn
  | boolean b =>
    cases hv
    trivial

theorem found_sound (hxs : NoSpace xs) : ∀ e ∈ (found xs).entries, Readable e.1 ∧ ReadableValue e.2 := by
  induction hn : xs.length using Nat.strongRecOn generalizing xs with
  | _ n ih =>
    cases xs with
    | nil =>
      intro e he
      cases he
    | cons x tail =>
      by_cases hpair : ∃ k s rest, IsPair (x :: tail) k s rest
      · obtain ⟨k, s, rest, h⟩ := hpair
        have hnospace : NoSpace (k ++ '"' :: ':' :: (s.text ++ rest)) := by
          have hall := hxs
          rw [h.text] at hall
          exact hall.tail
        have hlen : rest.length < n := by
          rw [← hn, h.text]
          simp only [List.length_cons, List.length_append]
          omega
        intro e he
        rw [found_pair hxs h] at he
        cases hv : s.value with
        | error err =>
          rw [hv] at he
          cases he
        | ok v =>
          rw [hv] at he
          rcases List.mem_cons.mp he with rfl | he
          · refine ⟨⟨?_, ?_⟩, Scalar.readable hnospace.right.tail.tail h.ends hv⟩
            · rw [String.toList_ofList]
              exact hnospace.left
            · rw [String.toList_ofList]
              exact h.unquoted
          · exact ih _ hlen hnospace.right.tail.tail.right rfl e he
      · rw [found_skip hxs fun k s rest h => hpair ⟨k, s, rest, h⟩]
        exact ih _ (by rw [← hn]; simp) hxs.tail rfl

end DockerCpp.Config
