/-
  DockerCpp.Core.EventPattern — what a subscription pattern matches.

  `matchesPattern` makes a regular expression of a pattern by replacing each `*` by `.*`.
  Nothing else is escaped: a character with a meaning in regular expressions keeps it, and
  a pattern that is not an expression then matches only itself. So a pattern is a glob when
  it has no `*`, where it is compared, or no such character, and as a rule not otherwise
  (`matchesPattern_glob_iff`). Event types are full of dots, and a dot matches anything
  (`a_dot_matches_any_character`). Strings are bytes.
-/

import DockerCpp.Core.Event
import DockerCpp.Lib.EcmaSyntax
import DockerCpp.Lib.Text

namespace DockerCpp

open Lib EcmaSyntax

namespace EventManager

abbrev asterisk : UInt8 := byte '*'

abbrev dotStar : List UInt8 := [byte '.', byte '*']

/-- The loop of `matchesPattern`: every `*` from `pos` on becomes `.*`. -/
def wildcards (regexPattern : List UInt8) (pos : Nat) : List UInt8 :=
  match h : find [asterisk] regexPattern pos with
  | none => regexPattern
  | some pos => wildcards (replace regexPattern pos 1 dotStar) (pos + 2)
termination_by regexPattern.length - pos
decreasing_by
  have hbounds := find_bounds (by simp) h
  simp only [replace, List.length_append, List.length_take, List.length_drop, List.length_cons, List.length_nil]
  omega

def regexPattern (pattern : List UInt8) : List UInt8 := byte '^' :: wildcards pattern 0 ++ [byte '$']

def matchesPattern (eventType pattern : List UInt8) : Bool :=
  if pattern = [asterisk] then true
  else if asterisk ∉ pattern then eventType == pattern
  else
    match compile (regexPattern pattern) with
    | some re => regexMatch re eventType
    | none => eventType == pattern

/-! ## Globs -/

/-- The text is the pattern with each `*` replaced by some text. -/
inductive Glob : List UInt8 → List UInt8 → Prop
  | nil : Glob [] []
  | star (w : List UInt8) {q t : List UInt8} : Glob q t → Glob (asterisk :: q) (w ++ t)
  | same {c : UInt8} {q t : List UInt8} : c ≠ asterisk → Glob q t → Glob (c :: q) (c :: t)

/-- The pattern with each `*` replaced by nothing. -/
def bare (q : List UInt8) : List UInt8 := q.filter (· ≠ asterisk)

variable {c : UInt8} {q t : List UInt8}

theorem bare_cons (hc : c ≠ asterisk) (q : List UInt8) : bare (c :: q) = c :: bare q := by
  simp [bare, hc]

theorem glob_bare (q : List UInt8) : Glob q (bare q) := by
  induction q with
  | nil => exact .nil
  | cons c q ih =>
    by_cases hc : c = asterisk
    · subst hc
      exact .star [] ih
    · rw [bare_cons hc]
      exact .same hc ih

theorem Glob.bare_sublist (h : Glob q t) : (bare q).Sublist t := by
  induction h with
  | nil => exact .slnil
  | star w _ ih => exact ih.trans (List.sublist_append_right w _)
  | same hc _ ih =>
    rw [bare_cons hc]
    exact ih.cons_cons _

theorem glob_literal (h : asterisk ∉ q) : Glob q t ↔ t = q := by
  have hbare : bare q = q := List.filter_eq_self.mpr fun c hc => decide_eq_true fun heq => h (heq ▸ hc)
  constructor
  · intro hg
    clear hbare
    induction hg with
    | nil => rfl
    | star w _ _ => exact absurd List.mem_cons_self h
    | same _ _ ih => rw [ih fun hq => h (List.mem_cons_of_mem _ hq)]
  · intro heq
    have hg := glob_bare q
    rw [hbare] at hg
    rwa [heq]

theorem glob_star : Glob (asterisk :: q) t ↔ ∃ k ≤ t.length, Glob q (t.drop k) := by
  constructor
  · intro h
    cases h with
    | star w h => exact ⟨w.length, by simp, by rwa [List.drop_left]⟩
    | same hc _ => exact absurd rfl hc
  · intro h
    obtain ⟨k, -, h⟩ := h
    have hg := Glob.star (t.take k) h
    rwa [List.take_append_drop] at hg

theorem glob_same (hc : c ≠ asterisk) : Glob (c :: q) t ↔ t[0]? = some c ∧ Glob q (t.drop 1) := by
  constructor
  · intro h
    cases h with
    | star w _ => exact absurd rfl hc
    | same _ h => exact ⟨rfl, h⟩
  · intro h
    obtain ⟨hfirst, h⟩ := h
    cases t with
    | nil => cases hfirst
    | cons c' t =>
      cases hfirst
      exact .same hc h

/-! ## The translation -/

def expand (q : List UInt8) : List UInt8 := q.flatMap fun c => if c = asterisk then dotStar else [c]

theorem expand_append (q q' : List UInt8) : expand (q ++ q') = expand q ++ expand q' := List.flatMap_append

theorem expand_literal (h : asterisk ∉ q) : expand q = q := by
  induction q with
  | nil => rfl
  | cons c q ih =>
    have hc : c ≠ asterisk := fun heq => h (heq ▸ List.mem_cons_self)
    rw [expand, List.flatMap_cons, if_neg hc]
    exact congrArg (c :: ·) (ih fun hq => h (List.mem_cons_of_mem _ hq))

theorem wildcards_found {s : List UInt8} {pos pos' : Nat} (h : find [asterisk] s pos = some pos') :
    wildcards s pos = wildcards (replace s pos' 1 dotStar) (pos' + 2) := by
  rw [wildcards]
  split
  · simp_all
  · simp_all

theorem wildcards_none {s : List UInt8} {pos : Nat} (h : find [asterisk] s pos = none) : wildcards s pos = s := by
  rw [wildcards]
  split
  · rfl
  · simp_all

theorem wildcards_append (pre rest : List UInt8) : wildcards (pre ++ rest) pre.length = pre ++ expand rest := by
  induction hn : rest.length using Nat.strong_induction_on generalizing pre rest with
  | _ n ih =>
  by_cases hstar : asterisk ∈ rest
  · -- up to the first `*` nothing changes; behind its replacement the loop goes on
    obtain ⟨run, post, rfl, hrun⟩ := List.eq_append_cons_of_mem hstar
    have hfind : find [asterisk] (pre ++ (run ++ asterisk :: post)) pre.length = some (pre ++ run).length := by
      rw [find_append, indexOf_singleton hrun, Option.map_some, List.length_append]
    have hreplace : replace (pre ++ (run ++ asterisk :: post)) (pre ++ run).length 1 dotStar =
        (pre ++ run ++ dotStar) ++ post := by
      simpa using replace_append (pre ++ run) [asterisk] post dotStar
    have hshorter : post.length < n := by
      rw [← hn, List.length_append, List.length_cons]
      omega
    have hrest := ih post.length hshorter (pre ++ run ++ dotStar) post rfl
    rw [List.length_append] at hrest
    rw [wildcards_found hfind, hreplace, expand_append, expand_literal hrun]
    exact hrest.trans (by simp [expand])
  · have hfind : find [asterisk] (pre ++ rest) pre.length = none := by
      rw [find_append, indexOf_singleton_none hstar, Option.map_none]
    rw [wildcards_none hfind, expand_literal hstar]

theorem regexPattern_eq (q : List UInt8) : regexPattern q = byte '^' :: expand q ++ [byte '$'] := by
  rw [regexPattern]
  exact congrArg (fun s => byte '^' :: s ++ [byte '$']) (wildcards_append [] q)

/-! ## Patterns of ordinary characters -/

abbrev Ordinary (c : UInt8) : Prop := role c = .ordinary

/-- What a character of the pattern becomes in the expression. -/
def item (c : UInt8) : EcmaRegex UInt8 := if c = asterisk then .star true (.one dot) else .one (· == c)

theorem feed_expand (hq : ∀ c ∈ q, c = asterisk ∨ Ordinary c) {p : Parser} (hp : p.mode = .normal) :
    ∃ f : Frame, (expand q).foldlM Parser.feed p = some { p with frame := f } ∧
      f.alternatives = p.frame.alternatives ∧ f.all = p.frame.all ++ q.map item := by
  induction q generalizing p with
  | nil => exact ⟨p.frame, rfl, rfl, (List.append_nil _).symm⟩
  | cons c q ih =>
    -- one character of the pattern: the frame gets one more term
    have hstep : ∃ f : Frame, (expand [c]).foldlM Parser.feed p = some { p with frame := f } ∧
        f.alternatives = p.frame.alternatives ∧ f.all = p.frame.all ++ [item c] := by
      by_cases hc : c = asterisk
      · subst hc
        refine ⟨{ p.frame.push (.one dot) with last := .repeated .star (.one dot) }, ?_, rfl, rfl⟩
        show (p.feed (byte '.')).bind _ = _
        rw [Parser.feed, hp]
        cases p
        cases hp
        rfl
      · have hone : expand [c] = [c] := expand_literal fun h => hc (List.mem_singleton.mp h).symm
        refine ⟨p.frame.push (.one (· == c)), ?_, rfl, by rw [item, if_neg hc]; rfl⟩
        rw [hone]
        show (p.feed c).bind _ = _
        rw [Parser.feed, hp]
        dsimp only [Parser.normal]
        rw [(hq c List.mem_cons_self).resolve_left hc]
        cases p
        cases hp
        rfl
    obtain ⟨f₁, hfeed₁, halts₁, hall₁⟩ := hstep
    obtain ⟨f, hfeed, halts, hall⟩ := ih (p := { p with frame := f₁ }) (fun c hc => hq c (List.mem_cons_of_mem _ hc)) hp
    refine ⟨f, ?_, halts.trans halts₁, ?_⟩
    · rw [← List.singleton_append, expand_append, List.foldlM_append, hfeed₁]
      exact hfeed
    · rw [hall, hall₁, List.append_assoc, List.map_cons, List.singleton_append]

theorem compile_plain (hq : ∀ c ∈ q, c = asterisk ∨ Ordinary c) :
    compile (regexPattern q) = some (EcmaRegex.concat (.bol :: q.map item ++ [.eol])) := by
  obtain ⟨f, hfeed, halts, hall⟩ := feed_expand hq (p := Parser.assert {} .bol) rfl
  have hstart : Parser.feed {} (byte '^') = some (Parser.assert {} .bol) := rfl
  have hparse : (regexPattern q).foldlM Parser.feed {} = some { Parser.assert {} .bol with frame := f.assert .eol } := by
    rw [regexPattern_eq, List.cons_append, List.foldlM_cons, hstart]
    show (expand q ++ [byte '$']).foldlM Parser.feed (Parser.assert {} .bol) = _
    rw [List.foldlM_append, hfeed]
    rfl
  rw [compile, hparse]
  show some (f.assert .eol).body = _
  have halts' : (f.assert .eol).alternatives = [] := halts
  have hall' : (f.assert .eol).all = f.all ++ [.eol] := List.append_nil _
  rw [Frame.body, halts', hall', hall]
  rfl

theorem run_items {t : List UInt8} (ht : ∀ c ∈ t, dot c = true) (q : List UInt8) {s : EcmaRegex.Place}
    (hs : s.1 ≤ t.length) :
    (∃ e ∈ EcmaRegex.run isWord t (EcmaRegex.concat (q.map item ++ [.eol])) s, e.1 = t.length) ↔
      Glob q (t.drop s.1) := by
  induction q generalizing s with
  | nil =>
    rw [glob_literal List.not_mem_nil, List.drop_eq_nil_iff]
    constructor
    · rintro ⟨e, he, hend⟩
      obtain ⟨k, hk, he⟩ := EcmaRegex.mem_run_concat_cons.mp he
      rw [EcmaRegex.run] at hk
      split at hk
      · omega
      · cases hk
    · intro h
      have heq : s.1 = t.length := Nat.le_antisymm hs h
      refine ⟨s, EcmaRegex.mem_run_concat_cons.mpr ⟨s, ?_, List.mem_singleton_self s⟩, heq⟩
      rw [EcmaRegex.run, if_pos heq]
      exact List.mem_singleton_self s
  | cons c q ih =>
    simp only [List.map_cons, List.cons_append, EcmaRegex.mem_run_concat_cons]
    by_cases hc : c = asterisk
    · subst hc
      rw [glob_star]
      constructor
      · rintro ⟨e, ⟨k, hk, he⟩, hend⟩
        obtain ⟨hsk, hkt, -⟩ := (EcmaRegex.mem_run_star_one ht hs k).mp hk
        refine ⟨k.1 - s.1, by rw [List.length_drop]; omega, ?_⟩
        rw [List.drop_drop, Nat.add_sub_cancel' hsk]
        exact (ih hkt).mp ⟨e, he, hend⟩
      · rintro ⟨k, hk, hrest⟩
        rw [List.length_drop] at hk
        rw [List.drop_drop] at hrest
        obtain ⟨e, he, hend⟩ := (ih (s := (s.1 + k, s.2)) (by show s.1 + k ≤ t.length; omega)).mpr hrest
        refine ⟨e, ⟨_, (EcmaRegex.mem_run_star_one ht hs (s.1 + k, s.2)).mpr ⟨Nat.le_add_right _ k, ?_, rfl⟩, he⟩, hend⟩
        show s.1 + k ≤ t.length
        omega
    · rw [glob_same hc, item, if_neg hc, List.getElem?_drop, Nat.add_zero, List.drop_drop]
      simp only [EcmaRegex.mem_run_one]
      constructor
      · rintro ⟨e, ⟨k, ⟨d, hd, hcd, rfl⟩, he⟩, hend⟩
        rw [beq_iff_eq] at hcd
        subst hcd
        exact ⟨hd, (ih (s := (s.1 + 1, s.2)) (List.getElem?_eq_some_iff.mp hd).1).mp ⟨e, he, hend⟩⟩
      · rintro ⟨hd, hrest⟩
        obtain ⟨e, he, hend⟩ := (ih (s := (s.1 + 1, s.2)) (List.getElem?_eq_some_iff.mp hd).1).mpr hrest
        exact ⟨e, ⟨_, ⟨c, hd, beq_self_eq_true c, rfl⟩, he⟩, hend⟩

/-- The expression of such a pattern is the glob. -/
theorem regexMatch_plain {t : List UInt8} (ht : ∀ c ∈ t, dot c = true) (q : List UInt8) :
    regexMatch (EcmaRegex.concat (.bol :: q.map item ++ [.eol])) t = true ↔ Glob q t := by
  have hitems := run_items ht q (s := (0, [])) (Nat.zero_le t.length)
  rw [List.drop_zero] at hitems
  rw [regexMatch, EcmaRegex.fullMatch_iff, ← hitems, List.cons_append]
  simp only [EcmaRegex.mem_run_concat_cons]
  simp [EcmaRegex.run]

/-! ## Other patterns -/

/-- A string without line breaks. -/
abbrev SingleLine (s : List UInt8) : Prop := ∀ c ∈ s, dot c = true

theorem matchesPattern_literal (h : asterisk ∉ q) (t : List UInt8) : matchesPattern t q = (t == q) := by
  have hne : q ≠ [asterisk] := by
    rintro rfl
    exact h (List.mem_singleton_self _)
  rw [matchesPattern, if_neg hne, if_pos h]

theorem matchesPattern_regex (hne : q ≠ [asterisk]) (h : asterisk ∈ q) (t : List UInt8) :
    matchesPattern t q = (compile (regexPattern q)).elim (t == q) (regexMatch · t) := by
  rw [matchesPattern, if_neg hne, if_neg (not_not.mpr h)]
  cases compile (regexPattern q) <;> rfl

/-- The text with a `*` in place of each `c`. -/
def disguise (c : UInt8) (t : List UInt8) : List UInt8 := t.map fun d => if d = c then asterisk else d

/-- An expression that does not tell `c` from `*` cannot tell these texts apart. -/
theorem regexMatch_disguise {r : EcmaRegex UInt8} (hr : r.Over (Blind c)) (t : List UInt8) :
    regexMatch r (disguise c t) = regexMatch r t := by
  have hlength : (disguise c t).length = t.length := List.length_map _
  have hrun : EcmaRegex.run isWord (disguise c t) r = EcmaRegex.run isWord t r := by
    refine EcmaRegex.run_congr hlength (fun p hp i => ?_) hr
    rw [disguise, List.getElem?_map]
    cases t[i]? with
    | none => rfl
    | some d =>
      by_cases hd : d = c
      · simpa [hd] using Eq.symm hp
      · simp [hd]
  rw [regexMatch, EcmaRegex.fullMatch, hrun, hlength]
  rfl

/-- Without escapes and bracket expressions. -/
def Unescaped (q : List UInt8) : Prop := ∀ c ∈ q, role c ≠ .escape ∧ role c ≠ .bracket

/-- A special character of the pattern is one that the expression cannot tell from `*`. -/
def Unnamed (q : List UInt8) : Prop :=
  ∃ c ∈ q, c ≠ asterisk ∧ ¬Ordinary c ∧ ∀ r, compile (regexPattern q) = some r → r.Over (Blind c)

/-- The expression has no lookahead, word boundary or back reference, and fewer characters are
    enough for it than the pattern has besides its `*`s. -/
def ShortMatch (q : List UInt8) : Prop :=
  ∀ r, compile (regexPattern q) = some r → r.simple = true ∧ r.least < (bare q).length

theorem Unescaped.regexPattern (h : Unescaped q) : Unescaped (regexPattern q) := by
  have hexpand : Unescaped (expand q) := by
    intro c hc
    obtain ⟨d, hd, hcd⟩ := List.mem_flatMap.mp hc
    split at hcd
    · rcases List.mem_pair.mp hcd with rfl | rfl <;> decide
    · rw [List.mem_singleton.mp hcd]
      exact h d hd
  rw [regexPattern_eq]
  intro c hc
  rcases List.mem_append.mp hc with hc | hc
  · rcases List.mem_cons.mp hc with rfl | hc
    · decide
    · exact hexpand c hc
  · rw [List.mem_singleton.mp hc]
    decide

theorem Unescaped.unnamed (h : Unescaped q) (hq : SingleLine q) (hc : c ∈ q) (hother : c ≠ asterisk)
    (hspecial : ¬Ordinary c) : Unnamed q :=
  ⟨c, hc, hother, hspecial, fun _ hr =>
    compile_over (blind_dot (hq c hc)) (fun _ hd => blind_ordinary hspecial hd) h.regexPattern hr⟩

theorem not_glob (hq : SingleLine q) (hne : q ≠ [asterisk]) (hstar : asterisk ∈ q) (hform : Unnamed q ∨ ShortMatch q) :
    ∃ t, SingleLine t ∧ ¬(matchesPattern t q = true ↔ Glob q t) := by
  by_contra hnone
  have hglob : ∀ t, SingleLine t → (matchesPattern t q = true ↔ Glob q t) :=
    fun t ht => by_contra fun hbad => hnone ⟨t, ht, hbad⟩
  have hline : SingleLine (bare q) := fun d hd => hq d (List.mem_filter.mp hd).1
  have hbare := (hglob _ hline).mpr (glob_bare q)
  rw [matchesPattern_regex hne hstar] at hbare
  cases hr : compile (regexPattern q) with
  | none =>
    -- the pattern matches only itself, but as a glob also what is left without its `*`s
    rw [hr, Option.elim_none, beq_iff_eq] at hbare
    rw [← hbare] at hstar
    exact absurd rfl (of_decide_eq_true (List.mem_filter.mp hstar).2)
  | some r =>
    rw [hr, Option.elim_some] at hbare
    have hmatch : ∀ t, SingleLine t → regexMatch r t = true → (bare q).Sublist t := by
      intro t ht h
      refine ((hglob t ht).mp ?_).bare_sublist
      rwa [matchesPattern_regex hne hstar, hr]
    rcases hform with ⟨c, hc, hother, -, hover⟩ | hshorter
    · -- the expression matches a text with `*` for `c`, which is too short to be the glob
      have hcb : c ∈ bare q := List.mem_filter.mpr ⟨hc, decide_eq_true hother⟩
      have hsub := hmatch (disguise c (bare q)) ?_ ((regexMatch_disguise (hover r hr) _).trans hbare)
      · have hsame := hsub.eq_of_length (List.length_map _).symm
        rw [hsame] at hcb
        obtain ⟨d, -, hd⟩ := List.mem_map.mp hcb
        split at hd
        · exact hother hd.symm
        · rename_i hdc
          exact hdc hd
      · intro d hd
        obtain ⟨e, he, rfl⟩ := List.mem_map.mp hd
        split
        · rfl
        · exact hline e he
    · obtain ⟨hsimple, hleast⟩ := hshorter r hr
      obtain ⟨w, hw, hmem, hfull⟩ := EcmaRegex.fullMatch_shorten hsimple hbare
      have hsub := hmatch w (fun d hd => hline d (hmem d hd)) hfull
      exact absurd (hsub.length_le.trans hw) (Nat.not_le.mpr hleast)

/-- A pattern without a `*`, or without another character that has a meaning in regular
    expressions, is a glob; and no other one, if it has no escapes and brackets, or if its
    expression leaves one of its special characters unnamed, or can do with fewer characters
    than the pattern has. -/
theorem matchesPattern_glob_iff {q : List UInt8} (hq : SingleLine q) :
    ((asterisk ∉ q ∨ ∀ c ∈ q, c = asterisk ∨ Ordinary c) →
      ∀ t, SingleLine t → (matchesPattern t q = true ↔ Glob q t)) ∧
    (Unescaped q ∨ Unnamed q ∨ ShortMatch q → (∀ t, SingleLine t → (matchesPattern t q = true ↔ Glob q t)) →
      asterisk ∉ q ∨ ∀ c ∈ q, c = asterisk ∨ Ordinary c) := by
  constructor
  · intro h t ht
    by_cases hstar : asterisk ∈ q
    · have hplain := h.resolve_left (not_not.mpr hstar)
      by_cases hall : q = [asterisk]
      · subst hall
        exact iff_of_true rfl (glob_star.mpr ⟨_, Nat.le_refl _, by rw [List.drop_length]; exact .nil⟩)
      · rw [matchesPattern_regex hall hstar, compile_plain hplain, Option.elim_some, regexMatch_plain ht]
    · rw [matchesPattern_literal hstar, glob_literal hstar, beq_iff_eq]
  · intro hform h
    by_contra hnot
    obtain ⟨hstar, hspecial⟩ := not_or.mp hnot
    obtain ⟨c, hc, hother⟩ : ∃ c ∈ q, ¬(c = asterisk ∨ Ordinary c) := by
      by_contra hnone
      exact hspecial fun c hc => by_contra fun hother => hnone ⟨c, hc, hother⟩
    obtain ⟨hother, hspecial⟩ := not_or.mp hother
    have hne : q ≠ [asterisk] := by
      rintro rfl
      exact hother (List.mem_singleton.mp hc)
    have hform : Unnamed q ∨ ShortMatch q := hform.elim (fun h => .inl (h.unnamed hq hc hother hspecial)) id
    obtain ⟨t, ht, hbad⟩ := not_glob hq hne (not_not.mp hstar) hform
    exact hbad (h t ht)

def bytes (s : String) : List UInt8 := s.toUTF8.data.toList

/-- `container*` is a glob. A dot that is escaped is still none: the expression `^container\..*$`
    can do without the backslash. -/
theorem matchesPattern_glob_iff_container :
    (∀ t, SingleLine t → (matchesPattern t (bytes "container*") = true ↔ Glob (bytes "container*") t)) ∧
    ¬∀ t, SingleLine t → (matchesPattern t (bytes "container\\.*") = true ↔ Glob (bytes "container\\.*") t) := by
  have hline : SingleLine (bytes "container*") ∧ SingleLine (bytes "container\\.*") := by decide +kernel
  have hplain : ∀ c ∈ bytes "container*", c = asterisk ∨ Ordinary c := by decide +kernel
  have hshorter : ShortMatch (bytes "container\\.*") := by
    have hall : (compile (regexPattern (bytes "container\\.*"))).all (fun r => r.simple && r.least < 11) = true := by
      rw [regexPattern_eq]
      decide +kernel
    have hlength : (bare (bytes "container\\.*")).length = 11 := by decide +kernel
    intro r hr
    rw [hr, Option.all_some, Bool.and_eq_true, decide_eq_true_iff] at hall
    rwa [hlength]
  refine ⟨(matchesPattern_glob_iff hline.1).1 (Or.inr hplain), fun h => ?_⟩
  exact absurd ((matchesPattern_glob_iff hline.2).2 (.inr (.inr hshorter)) h) (by decide +kernel)

/-- A subscription to the events of containers gets those of a type that only starts like
    one. A pattern with an open parenthesis is not an expression, and does not match what
    it starts with. -/
theorem a_dot_matches_any_character :
    matchesPattern (bytes "containers") (bytes "container.*") = true ∧
    ¬Glob (bytes "container.*") (bytes "containers") ∧
    matchesPattern (bytes "(local") (bytes "(local*") = false ∧ Glob (bytes "(local*") (bytes "(local") := by
  refine ⟨?_, fun h => ?_, ?_, ?_⟩
  · rw [matchesPattern, regexPattern_eq]
    decide +kernel
  · exact absurd h.bare_sublist (by decide +kernel)
  · rw [matchesPattern, regexPattern_eq]
    decide +kernel
  · have hbare : bare (bytes "(local*") = bytes "(local" := by decide +kernel
    exact hbare ▸ glob_bare _

end EventManager

end DockerCpp
