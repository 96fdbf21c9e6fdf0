/-
  DockerCpp.Lib.EcmaSyntax — the ECMAScript syntax of regular expressions over bytes, as the
  `std::regex` of libstdc++ reads it in the C locale.

  The parser takes one byte after the other (`feed`); nothing is left of it after a
  `regex_error`. It has read the inside of some parentheses, one `Frame` each, of which the
  innermost is still growing, and may be inside an escape, a bracket expression or an
  interval (`Mode`). A quantifier may follow a quantifier, but no assertion or lookahead, and
  `]` and `}` alone are ordinary. The limits of the library (the number of states, the depth
  of its recursion, integers that do not fit in an `int`) are left out.

  An expression without escapes and brackets names ordinary bytes only (`compile_over`).
-/

import DockerCpp.Lib.EcmaRegex

namespace Lib

namespace EcmaSyntax

abbrev byte (c : Char) : UInt8 := c.toUInt8

/-! ## Sets of bytes -/

/-- What `.` matches: not a line break. -/
def dot (c : UInt8) : Bool := c != byte '\n' && c != byte '\r'

def isWord (c : UInt8) : Bool := (Char.ofUInt8 c).isAlphanum || c == byte '_'

/-- Classes by their names, which are in lower case. -/
def classNamed (name : List Char) : Option (UInt8 → Bool) :=
  let graph : UInt8 → Bool := fun c => 0x20 < c && c < 0x7F
  match String.ofList name with
  | "d" | "digit" => some fun c => (Char.ofUInt8 c).isDigit
  | "w" => some isWord
  | "s" | "space" => some fun c => c == 0x20 || (0x09 ≤ c && c ≤ 0x0D)
  | "alnum" => some fun c => (Char.ofUInt8 c).isAlphanum
  | "alpha" => some fun c => (Char.ofUInt8 c).isAlpha
  | "blank" => some fun c => c == 0x20 || c == 0x09
  | "cntrl" => some fun c => c < 0x20 || c == 0x7F
  | "graph" => some graph
  | "lower" => some fun c => (Char.ofUInt8 c).isLower
  | "print" => some fun c => c == 0x20 || graph c
  | "punct" => some fun c => graph c && !(Char.ofUInt8 c).isAlphanum
  | "upper" => some fun c => (Char.ofUInt8 c).isUpper
  | "xdigit" => some fun c => (Char.ofUInt8 c).isDigit || (Char.ofUInt8 c).toLower ∈ ['a', 'b', 'c', 'd', 'e', 'f']
  | _ => none

/-- The names of the bytes up to 127. -/
def collateNames : List String :=
  ("NUL SOH STX ETX EOT ENQ ACK alert backspace tab newline vertical-tab form-feed carriage-return SO SI " ++
    "DLE DC1 DC2 DC3 DC4 NAK SYN ETB CAN EM SUB ESC IS4 IS3 IS2 IS1 " ++
    "space exclamation-mark quotation-mark number-sign dollar-sign percent-sign ampersand apostrophe " ++
    "left-parenthesis right-parenthesis asterisk plus-sign comma hyphen period slash " ++
    "zero one two three four five six seven eight nine colon semicolon less-than-sign equals-sign " ++
    "greater-than-sign question-mark commercial-at A B C D E F G H I J K L M N O P Q R S T U V W X Y Z " ++
    "left-square-bracket backslash right-square-bracket circumflex underscore grave-accent " ++
    "a b c d e f g h i j k l m n o p q r s t u v w x y z " ++
    "left-curly-bracket vertical-line right-curly-bracket tilde DEL").splitOn " "

def collateNamed (name : List Char) : Option UInt8 :=
  (collateNames.findIdx? (· == String.ofList name)).map UInt8.ofNat

/-! ## Escapes -/

/-- Inside an escape: after the backslash, after `\c`, or with some hexadecimal digits to come. -/
inductive Escape where
  | start
  | control
  | hex (left value : Nat)

/-- What an escape stands for. -/
inductive Escaped where
  | char (c : UInt8)
  | set (p : UInt8 → Bool)
  | wordBound (negated : Bool)
  /-- The first digit of a back reference. -/
  | digit (d : Nat)

def hexDigit (c : UInt8) : Option Nat :=
  let d := (Char.ofUInt8 c).toLower
  if d.isDigit then some (d.toNat - '0'.toNat)
  else if 'a' ≤ d ∧ d ≤ 'f' then some (d.toNat - 'a'.toNat + 10)
  else none

def Escape.feed (inBracket : Bool) : Escape → UInt8 → Option (Escape ⊕ Escaped)
  | .start, c =>
    match Char.ofUInt8 c with
    | '0' => some (.inr (.char 0x00))
    | 'b' => some (.inr (if inBracket then .char 0x08 else .wordBound false))
    | 't' => some (.inr (.char 0x09))
    | 'n' => some (.inr (.char 0x0A))
    | 'v' => some (.inr (.char 0x0B))
    | 'f' => some (.inr (.char 0x0C))
    | 'r' => some (.inr (.char 0x0D))
    | 'B' => some (.inr (.wordBound true))
    | 'd' | 's' | 'w' => (classNamed [Char.ofUInt8 c]).map (.inr <| .set ·)
    | 'D' | 'S' | 'W' => (classNamed [(Char.ofUInt8 c).toLower]).map fun p => .inr (.set fun c => !p c)
    | 'c' => some (.inl .control)
    | 'x' => some (.inl (.hex 2 0))
    | 'u' => some (.inl (.hex 4 0))
    | d => some (.inr (if d.isDigit then .digit (d.toNat - '0'.toNat) else .char c))
  | .control, c => some (.inr (.char c))
  | .hex left value, c =>
    (hexDigit c).map fun d =>
      if left ≤ 1 then .inr (.char (UInt8.ofNat (16 * value + d))) else .inl (.hex (left - 1) (16 * value + d))

/-! ## Bracket expressions -/

/-- The last item of a bracket expression: a byte may begin a range. -/
inductive Item where
  | nothing
  | char (c : UInt8)
  | set

structure Bracket where
  negated : Bool
  set : UInt8 → Bool := fun _ => false
  last : Item := .nothing
  /-- And a dash came after it. -/
  dash : Bool := false

namespace Bracket

def add (b : Bracket) (p : UInt8 → Bool) (last : Item) : Bracket :=
  { b with set := fun c => b.set c || p c, last := last, dash := false }

def flush (b : Bracket) (last : Item) : Bracket :=
  match b.last with
  | .char l => b.add (· == l) last
  | _ => { b with last := last }

/-- Bytes are compared as `char`, which is signed. -/
def char (b : Bracket) (c : UInt8) : Option Bracket :=
  match b.last, b.dash with
  | .char l, true =>
    if l.toInt8 ≤ c.toInt8 then some (b.add (fun d => l.toInt8 ≤ d.toInt8 && d.toInt8 ≤ c.toInt8) .nothing) else none
  | .set, true => none
  | _, _ => some (b.flush (.char c))

/-- A set is no end of a range. -/
def whole (b : Bracket) (p : UInt8 → Bool) : Option Bracket := if b.dash then none else some ((b.flush .set).add p .set)

def hyphen (b : Bracket) : Option Bracket :=
  match b.last, b.dash with
  | .nothing, _ | _, true => b.char (byte '-')
  | _, false => some { b with dash := true }

/-- What the expression matches. -/
def close (b : Bracket) : UInt8 → Bool := fun c => ((b.flush .nothing).set c || (b.dash && c == byte '-')) != b.negated

/-- `[:name:]`, `[.name.]` and `[=name=]`. -/
def named (b : Bracket) (kind : UInt8) (name : List UInt8) : Option Bracket :=
  let name := name.map Char.ofUInt8
  if kind = byte ':' then do b.whole (← classNamed (name.map Char.toLower))
  else do
    let c ← collateNamed name
    if kind = byte '=' then b.whole fun d => (Char.ofUInt8 d).toLower == (Char.ofUInt8 c).toLower
    else if b.dash then none
    else b.char c

end Bracket

/-- Inside brackets: between two items, after another opening bracket, inside a name, after the
    name, inside an escape. -/
inductive Inside where
  | items
  | opening
  | name (kind : UInt8) (text : List UInt8)
  | closing (kind : UInt8) (text : List UInt8)
  | escape (e : Escape)

/-- One more byte: it goes on, or it ends with a set. -/
abbrev Bracketed := Option ((Bracket × Inside) ⊕ (UInt8 → Bool))

def Bracket.more (b : Option Bracket) : Bracketed := b.map fun b => .inl (b, .items)

def Bracket.item (b : Bracket) (c : UInt8) : Bracketed :=
  match Char.ofUInt8 c with
  | '-' => more b.hyphen
  | '[' => some (.inl (b, .opening))
  | ']' => some (.inr b.close)
  | '\\' => some (.inl (b, .escape .start))
  | _ => more (b.char c)

def Bracket.feed (b : Bracket) : Inside → UInt8 → Bracketed
  | .items, c => b.item c
  | .opening, c =>
    if c = byte '.' ∨ c = byte ':' ∨ c = byte '=' then some (.inl (b, .name c []))
    else do (← b.char (byte '[')).item c
  | .name kind text, c =>
    some (.inl (b, if c = kind then .closing kind text else .name kind (text ++ [c])))
  | .closing kind text, c => if c = byte ']' then more (b.named kind text) else none
  | .escape e, c => do
    match ← e.feed true c with
    | .inl e => some (.inl (b, .escape e))
    | .inr (.char d) => more (b.char d)
    | .inr (.set p) => more (b.whole p)
    | .inr _ => none

/-! ## Quantifiers -/

inductive Quantifier where
  | star
  | plus
  | option
  /-- Without a second number there is no upper bound. -/
  | interval (low : Nat) (high : Option Nat)
  deriving DecidableEq

def optionals (greedy : Bool) (r : EcmaRegex UInt8) : Nat → EcmaRegex UInt8
  | 0 => .empty
  | n + 1 => .choice greedy (.seq r (optionals greedy r n)) .empty

def Quantifier.apply (greedy : Bool) (r : EcmaRegex UInt8) : Quantifier → EcmaRegex UInt8
  | .star => .star greedy r
  | .plus => .seq r (.star greedy r)
  | .option => .choice greedy r .empty
  | .interval low high =>
    .seq (.concat (List.replicate low r)) (high.elim (.star greedy r) fun high => optionals greedy r (high - low))

/-- Inside braces. -/
inductive Brace where
  | start
  | low (n : Nat)
  | comma (n : Nat)
  | high (n m : Nat)

def Brace.feed : Brace → UInt8 → Option (Brace ⊕ Quantifier)
  | b, c =>
    let digit := if (Char.ofUInt8 c).isDigit then some (c.toNat - '0'.toNat) else none
    match b, digit with
    | .start, some d => some (.inl (.low d))
    | .low n, some d => some (.inl (.low (10 * n + d)))
    | .comma n, some d => some (.inl (.high n d))
    | .high n m, some d => some (.inl (.high n (10 * m + d)))
    | .low n, none =>
      if c = byte ',' then some (.inl (.comma n))
      else if c = byte '}' then some (.inr (.interval n (some n)))
      else none
    | .comma n, none => if c = byte '}' then some (.inr (.interval n none)) else none
    | .high n m, none => if c = byte '}' ∧ n ≤ m then some (.inr (.interval n (some m))) else none
    | .start, none => none

/-! ## The parser -/

/-- What a byte means outside of brackets and braces. -/
inductive Role where
  | ordinary
  | any
  | bol
  | eol
  | bar
  | opening
  | closing
  | escape
  | bracket
  | brace
  | quantifier (q : Quantifier)
  deriving DecidableEq

def role (c : UInt8) : Role :=
  match Char.ofUInt8 c with
  | '.' => .any
  | '^' => .bol
  | '$' => .eol
  | '|' => .bar
  | '(' => .opening
  | ')' => .closing
  | '\\' => .escape
  | '[' => .bracket
  | '{' => .brace
  | '*' => .quantifier .star
  | '+' => .quantifier .plus
  | '?' => .quantifier .option
  | _ => .ordinary

/-- The last thing read in an alternative. -/
inductive Last where
  /-- Nothing that can be repeated: a bar, an assertion, or nothing at all. -/
  | nothing
  | atom (r : EcmaRegex UInt8)
  /-- A question mark makes the quantifier match as little as possible. -/
  | repeated (q : Quantifier) (r : EcmaRegex UInt8)

def Last.toList : Last → List (EcmaRegex UInt8)
  | .nothing => []
  | .atom r => [r]
  | .repeated q r => [q.apply true r]

inductive Kind where
  | group
  | capture (n : Nat)
  | look (negated : Bool)

structure Frame where
  kind : Kind := .group
  alternatives : List (EcmaRegex UInt8) := []
  terms : List (EcmaRegex UInt8) := []
  last : Last := .nothing

namespace Frame

def all (f : Frame) : List (EcmaRegex UInt8) := f.terms ++ f.last.toList

def push (f : Frame) (r : EcmaRegex UInt8) : Frame := { f with terms := f.all, last := .atom r }

def assert (f : Frame) (r : EcmaRegex UInt8) : Frame := { f with terms := f.all ++ [r], last := .nothing }

def bar (f : Frame) : Frame :=
  { f with alternatives := f.alternatives ++ [EcmaRegex.concat f.all], terms := [], last := .nothing }

def body (f : Frame) : EcmaRegex UInt8 := f.alternatives.foldr .alt (EcmaRegex.concat f.all)

/-- The parenthesis that was read in `g` is closed. -/
def close (f g : Frame) : Frame :=
  match g.kind with
  | .group => f.push g.body
  | .capture n => f.push (.group n g.body)
  | .look negated => f.assert (.look negated g.body)

def quantify (f : Frame) (q : Quantifier) : Option Frame :=
  match f.last, q with
  | .nothing, _ => none
  | .atom r, q => some { f with last := .repeated q r }
  | .repeated q r, .option => some { f with last := .atom (q.apply false r) }
  | .repeated q r, q' => some { f with last := .repeated q' (q.apply true r) }

end Frame

inductive Mode where
  | normal
  /-- After an opening parenthesis. -/
  | opened
  /-- And a question mark. -/
  | asked
  | escape (e : Escape)
  | backref (n : Nat)
  | brace (b : Brace)
  /-- After an opening bracket. -/
  | bracketed
  | bracket (b : Bracket) (i : Inside)

structure Parser where
  frame : Frame := {}
  outer : List Frame := []
  /-- The groups that were begun. -/
  groups : Nat := 0
  mode : Mode := .normal

namespace Parser

def into (p : Parser) (m : Mode) : Parser := { p with mode := m }

def push (p : Parser) (r : EcmaRegex UInt8) : Parser := { p with frame := p.frame.push r, mode := .normal }

def assert (p : Parser) (r : EcmaRegex UInt8) : Parser := { p with frame := p.frame.assert r, mode := .normal }

def begin (p : Parser) (k : Kind) : Parser :=
  { p with frame := { kind := k }, outer := p.frame :: p.outer, mode := .normal }

def quantify (p : Parser) (q : Quantifier) : Option Parser :=
  (p.frame.quantify q).map fun f => { p with frame := f, mode := .normal }

/-- Only to a group that has ended. -/
def backref (p : Parser) (n : Nat) : Option Parser :=
  let isOpen := (p.frame :: p.outer).any fun f => match f.kind with | .capture m => m == n | _ => false
  if n ≤ p.groups ∧ isOpen = false then some (p.push (.backref n)) else none

def normal (p : Parser) (c : UInt8) : Option Parser :=
  match role c with
  | .ordinary => some (p.push (.one (· == c)))
  | .any => some (p.push (.one dot))
  | .bol => some (p.assert .bol)
  | .eol => some (p.assert .eol)
  | .bar => some { p with frame := p.frame.bar, mode := .normal }
  | .opening => some (p.into .opened)
  | .closing =>
    match p.outer with
    | f :: outer => some { p with frame := f.close p.frame, outer := outer, mode := .normal }
    | [] => none
  | .escape => some (p.into (.escape .start))
  | .bracket => some (p.into .bracketed)
  | .brace => some (p.into (.brace .start))
  | .quantifier q => p.quantify q

/-- The byte after `(?`. -/
def answer (p : Parser) (c : UInt8) : Option Parser :=
  match Char.ofUInt8 c with
  | ':' => some (p.begin .group)
  | '=' => some (p.begin (.look false))
  | '!' => some (p.begin (.look true))
  | _ => none

def escaped (p : Parser) : Escape ⊕ Escaped → Parser
  | .inl e => p.into (.escape e)
  | .inr (.char c) => p.push (.one (· == c))
  | .inr (.set s) => p.push (.one s)
  | .inr (.wordBound negated) => p.assert (.wordBound negated)
  | .inr (.digit d) => p.into (.backref d)

def bracketed (p : Parser) : (Bracket × Inside) ⊕ (UInt8 → Bool) → Parser
  | .inl (b, i) => p.into (.bracket b i)
  | .inr s => p.push (.one s)

def feed (p : Parser) (c : UInt8) : Option Parser :=
  match p.mode with
  | .normal => p.normal c
  | .opened =>
    if c = byte '?' then some (p.into .asked)
    else ({ p with groups := p.groups + 1 }.begin (.capture (p.groups + 1))).normal c
  | .asked => p.answer c
  | .escape e => (e.feed false c).map p.escaped
  | .backref n =>
    if (Char.ofUInt8 c).isDigit then some (p.into (.backref (10 * n + (c.toNat - '0'.toNat))))
    else do (← p.backref n).normal c
  | .brace b => do
    match ← b.feed c with
    | .inl b => some (p.into (.brace b))
    | .inr q => p.quantify q
  | .bracketed =>
    if c = byte '^' then some (p.into (.bracket { negated := true } .items))
    else (({ negated := false } : Bracket).item c).map p.bracketed
  | .bracket b i => (b.feed i c).map p.bracketed

/-- The end of the text. -/
def finish (p : Parser) : Option (EcmaRegex UInt8) :=
  match p.mode, p.outer with
  | .normal, [] => some p.frame.body
  | .backref n, [] => (p.backref n).map (·.frame.body)
  | _, _ => none

end Parser

/-- `std::regex`; nothing for a `regex_error`. -/
def compile (text : List UInt8) : Option (EcmaRegex UInt8) := do
  (← text.foldlM Parser.feed {}).finish

/-- `std::regex_match`. -/
def regexMatch (r : EcmaRegex UInt8) (t : List UInt8) : Bool := r.fullMatch isWord t

/-! ## Expressions without escapes and brackets -/

/-- The set does not tell `c` from an asterisk. -/
def Blind (c : UInt8) (p : UInt8 → Bool) : Prop := p c = p (byte '*')

theorem blind_dot {c : UInt8} (hc : dot c = true) : Blind c dot := hc.trans (by decide)

theorem blind_ordinary {c d : UInt8} (hc : role c ≠ .ordinary) (hd : role d = .ordinary) : Blind c (· == d) := by
  have hcd : c ≠ d := fun heq => hc (heq ▸ hd)
  have hstar : byte '*' ≠ d := by
    rintro rfl
    cases hd
  simp [Blind, hcd, hstar]

section

variable {P : (UInt8 → Bool) → Prop} {r : EcmaRegex UInt8}

theorem optionals_over (h : r.Over P) (greedy : Bool) (n : Nat) : (optionals greedy r n).Over P := by
  induction n with
  | zero => trivial
  | succ n ih => exact EcmaRegex.choice_over (r := .seq r _) (s := .empty) ⟨h, ih⟩ trivial greedy

theorem Quantifier.apply_over (h : r.Over P) (q : Quantifier) (greedy : Bool) : (q.apply greedy r).Over P := by
  cases q with
  | star => exact h
  | plus => exact ⟨h, h⟩
  | option => exact EcmaRegex.choice_over (s := .empty) h trivial greedy
  | interval low high =>
    refine ⟨EcmaRegex.concat_over fun s hs => ?_, ?_⟩
    · rw [List.eq_of_mem_replicate hs]
      exact h
    · cases high with
      | none => exact h
      | some high => exact optionals_over h greedy _

def Last.Over (P : (UInt8 → Bool) → Prop) : Last → Prop
  | .nothing => True
  | .atom r | .repeated _ r => r.Over P

theorem Last.Over.toList {l : Last} (h : l.Over P) : ∀ r ∈ l.toList, r.Over P := by
  intro r hr
  cases l with
  | nothing => cases hr
  | atom r' => exact List.mem_singleton.mp hr ▸ h
  | repeated q r' => exact List.mem_singleton.mp hr ▸ q.apply_over h true

/-- Every set that was read satisfies `P`. -/
structure Frame.Over (P : (UInt8 → Bool) → Prop) (f : Frame) : Prop where
  alternatives : ∀ r ∈ f.alternatives, r.Over P
  terms : ∀ r ∈ f.terms, r.Over P
  last : f.last.Over P

namespace Frame.Over

variable {f g : Frame}

theorem all (h : f.Over P) : ∀ r ∈ f.all, r.Over P := fun r hr =>
  (List.mem_append.mp hr).elim (h.terms r) (h.last.toList r)

theorem body (h : f.Over P) : f.body.Over P :=
  EcmaRegex.foldr_alt_over h.alternatives (EcmaRegex.concat_over h.all)

variable {r : EcmaRegex UInt8}

theorem push (h : f.Over P) (hr : r.Over P) : (f.push r).Over P :=
  ⟨h.alternatives, h.all, hr⟩

theorem assert (h : f.Over P) (hr : r.Over P) : (f.assert r).Over P := by
  refine ⟨h.alternatives, fun s hs => ?_, trivial⟩
  rcases List.mem_append.mp hs with hs | hs
  · exact h.all s hs
  · exact List.mem_singleton.mp hs ▸ hr

theorem bar (h : f.Over P) : f.bar.Over P := by
  refine ⟨fun s hs => ?_, fun s hs => absurd hs List.not_mem_nil, trivial⟩
  rcases List.mem_append.mp hs with hs | hs
  · exact h.alternatives s hs
  · exact List.mem_singleton.mp hs ▸ EcmaRegex.concat_over h.all

theorem close (hf : f.Over P) (hg : g.Over P) : (f.close g).Over P := by
  unfold Frame.close
  split
  · exact hf.push hg.body
  · exact hf.push hg.body
  · exact hf.assert hg.body

theorem quantify (h : f.Over P) {q : Quantifier} (hq : f.quantify q = some g) : g.Over P := by
  have hlast := h.last
  unfold Frame.quantify at hq
  cases hl : f.last with
  | nothing =>
    rw [hl] at hq
    cases hq
  | atom r =>
    rw [hl] at hq hlast
    cases hq
    exact ⟨h.alternatives, h.terms, hlast⟩
  | repeated q' r =>
    rw [hl] at hq hlast
    cases q <;> cases hq <;> exact ⟨h.alternatives, h.terms, Quantifier.apply_over (P := P) hlast _ _⟩

end Frame.Over

/-- Outside of escapes and brackets. -/
def Mode.plain : Mode → Bool
  | .normal | .opened | .asked | .brace _ => true
  | _ => false

structure Parser.Over (P : (UInt8 → Bool) → Prop) (p : Parser) : Prop where
  frame : p.frame.Over P
  outer : ∀ f ∈ p.outer, f.Over P
  mode : p.mode.plain = true

namespace Parser.Over

variable {p p' : Parser}

theorem blank (k : Kind) : Frame.Over P { kind := k } := ⟨by simp, by simp, trivial⟩

theorem begin (h : p.Over P) (k : Kind) : (p.begin k).Over P := by
  refine ⟨blank k, fun f hf => ?_, rfl⟩
  rcases List.mem_cons.mp hf with rfl | hf
  · exact h.frame
  · exact h.outer f hf

theorem quantify (h : p.Over P) {q : Quantifier} (hq : p.quantify q = some p') : p'.Over P := by
  obtain ⟨f, hf, rfl⟩ := Option.map_eq_some_iff.mp hq
  exact ⟨h.frame.quantify hf, h.outer, rfl⟩

theorem normal (hdot : P dot) (hord : ∀ d, role d = .ordinary → P (· == d)) (h : p.Over P) {c : UInt8}
    (hescape : role c ≠ .escape) (hbracket : role c ≠ .bracket) (hfeed : p.normal c = some p') : p'.Over P := by
  unfold Parser.normal at hfeed
  cases hc : role c <;> rw [hc] at hfeed
  case ordinary =>
    cases hfeed
    exact ⟨h.frame.push (r := .one _) (hord c hc), h.outer, rfl⟩
  case any =>
    cases hfeed
    exact ⟨h.frame.push (r := .one _) hdot, h.outer, rfl⟩
  case bol =>
    cases hfeed
    exact ⟨h.frame.assert (r := .bol) trivial, h.outer, rfl⟩
  case eol =>
    cases hfeed
    exact ⟨h.frame.assert (r := .eol) trivial, h.outer, rfl⟩
  case bar =>
    cases hfeed
    exact ⟨h.frame.bar, h.outer, rfl⟩
  case opening =>
    cases hfeed
    exact ⟨h.frame, h.outer, rfl⟩
  case closing =>
    have houter := h.outer
    cases ho : p.outer with
    | nil =>
      rw [ho] at hfeed
      cases hfeed
    | cons f outer =>
      rw [ho] at hfeed houter
      cases hfeed
      exact ⟨(houter f List.mem_cons_self).close h.frame, fun g hg => houter g (List.mem_cons_of_mem _ hg), rfl⟩
  case escape => exact absurd hc hescape
  case bracket => exact absurd hc hbracket
  case brace =>
    cases hfeed
    exact ⟨h.frame, h.outer, rfl⟩
  case quantifier q => exact h.quantify hfeed

theorem feed (hdot : P dot) (hord : ∀ d, role d = .ordinary → P (· == d)) (h : p.Over P) {c : UInt8}
    (hescape : role c ≠ .escape) (hbracket : role c ≠ .bracket) (hfeed : p.feed c = some p') : p'.Over P := by
  have hmode := h.mode
  unfold Parser.feed at hfeed
  cases hm : p.mode <;> rw [hm] at hfeed hmode
  case normal => exact h.normal hdot hord hescape hbracket hfeed
  case opened =>
    dsimp only at hfeed
    split at hfeed
    · cases hfeed
      exact ⟨h.frame, h.outer, rfl⟩
    · have hbegun : ({ p with groups := p.groups + 1 } : Parser).Over P := ⟨h.frame, h.outer, h.mode⟩
      exact (hbegun.begin _).normal hdot hord hescape hbracket hfeed
  case asked =>
    dsimp only [Parser.answer] at hfeed
    split at hfeed <;> cases hfeed <;> exact h.begin _
  case brace b =>
    obtain ⟨r, -, hr⟩ := Option.bind_eq_some_iff.mp hfeed
    cases r with
    | inl b =>
      cases hr
      exact ⟨h.frame, h.outer, rfl⟩
    | inr q => exact h.quantify hr
  all_goals cases hmode

end Parser.Over

/-- The bytes of a text are named only by those that were not escaped. -/
theorem compile_over (hdot : P dot) (hord : ∀ d, role d = .ordinary → P (· == d)) {text : List UInt8}
    (htext : ∀ c ∈ text, role c ≠ .escape ∧ role c ≠ .bracket) (h : compile text = some r) :
    r.Over P := by
  have hrun : ∀ (text : List UInt8) (p p' : Parser), (∀ c ∈ text, role c ≠ .escape ∧ role c ≠ .bracket) → p.Over P →
      text.foldlM Parser.feed p = some p' → p'.Over P := by
    intro text
    induction text with
    | nil =>
      intro p p' _ hp heq
      cases heq
      exact hp
    | cons c text ih =>
      intro p p' htext hp heq
      obtain ⟨p₁, hp₁, heq⟩ := Option.bind_eq_some_iff.mp heq
      obtain ⟨hescape, hbracket⟩ := htext c List.mem_cons_self
      exact ih p₁ p' (fun d hd => htext d (List.mem_cons_of_mem _ hd)) (hp.feed hdot hord hescape hbracket hp₁) heq
  obtain ⟨p, hp, hfinish⟩ := Option.bind_eq_some_iff.mp h
  have hover := hrun text {} p htext ⟨Parser.Over.blank _, fun f hf => absurd hf List.not_mem_nil, rfl⟩ hp
  have hmode := hover.mode
  unfold Parser.finish at hfinish
  split at hfinish
  · cases hfinish
    exact hover.frame.body
  · rename_i hm _
    rw [hm] at hmode
    cases hmode
  · cases hfinish

end

end EcmaSyntax

end Lib
