/-
  DockerCpp.Core.LoggerFormat — the texts that `formatMessage` and `formatString` put in.

  A pattern is meant to have all its tokens replaced at once (`substituted`). `formatMessage`
  makes one pass for each token, and a pass also finds its token where a text of an earlier one
  was put in: inside it, or where a `%` came to stand before a letter. A message with `%t` or
  `%T` in it is not written as it is (`a_message_is_searched`). The passes come to the same as
  one substitution exactly if none of them meets such a token
  (`formatMessage_simultaneous_iff`).

  `formatString` keeps the position behind the last argument, and every placeholder is
  one of the format (`formatString_one_pass`).
-/

import DockerCpp.Core.Logger
import DockerCpp.Lib.Tokens

namespace DockerCpp

open Lib Lib.Tokens

/-! ## One pass for one token -/

theorem replaceTokens_eq {c : Char} (hc : c ≠ '%') (value pre : List Char) {turns : Nat} {s : List Char}
    (h : s.length ≤ turns) :
    replaceTokens ['%', c] value turns pre.length (pre ++ s) = pre ++ fill '%' [(c, value)] s := by
  induction turns generalizing pre s with
  | zero =>
    rw [List.eq_nil_of_length_eq_zero (Nat.le_zero.mp h)]
    rfl
  | succ turns ih =>
    have hname : ∀ {d u}, [(c, value)].lookup d = some u → d = c := fun hd =>
      (Prod.mk.inj (List.mem_singleton.mp (Assoc.mem_of_lookup hd))).1
    rw [replaceTokens, find_append]
    cases hindex : indexOf ['%', c] s with
    | none =>
      rw [fill_eq_self fun d u hd => hname hd ▸ indexOf_eq_none_iff.mp hindex]
      rfl
    | some i =>
      obtain ⟨x, post, rfl, rfl, hx⟩ := indexOf_some hindex (List.cons_ne_nil _ _)
      have hpost : post.length ≤ turns := by
        simp only [List.length_append, List.length_cons] at h
        omega
      have hreplace := replace_append (pre ++ x) ['%', c] post value
      have hnext := ih (pre ++ x ++ value) hpost
      have hfill : fill '%' [(c, value)] (x ++ (['%', c] ++ post)) =
          x ++ (value ++ fill '%' [(c, value)] post) := by
        rw [fill_append (fun d u hd => hname hd ▸ hx), List.cons_append, List.singleton_append,
          fill_token List.lookup_cons_self]
        intro _ a ha
        cases ha
        exact lookup_singleton hc.symm value
      simp only [List.append_assoc, List.length_append] at hreplace hnext
      rw [hfill]
      simp only [Option.map_some, Nat.add_assoc]
      rw [← hnext]
      exact congrArg _ hreplace

theorem replaceToken_eq {token : String} {c : Char} (htoken : token.toList = ['%', c]) (hc : c ≠ '%') (value : String)
    (text : List Char) : replaceToken token value text = fill '%' [(c, value.toList)] text := by
  rw [replaceToken, htoken]
  exact replaceTokens_eq hc value.toList [] (Nat.le_refl _)

/-! ## All tokens -/

/-- The tokens in the order of the passes, and the texts for them. -/
def tokenTexts (p : Platform) (m : LogMessage) : List (Char × List Char) :=
  [('l', m.level.toString.toList), ('n', m.loggerName.toList), ('v', m.message.toList),
    ('t', (p.putTime m.timestamp).toList), ('T', (p.showThread m.threadId).toList)]

/-- What is meant. -/
def substituted (p : Platform) (pattern : String) (m : LogMessage) : String :=
  .ofList (fill '%' (tokenTexts p m) pattern.toList)

theorem formatMessage_eq_passes (p : Platform) (pattern : String) (m : LogMessage) :
    formatMessage p pattern m = .ofList (passes '%' (tokenTexts p m) pattern.toList) := by
  rw [formatMessage, replaceToken_eq rfl (by decide), replaceToken_eq rfl (by decide), replaceToken_eq rfl (by decide),
    replaceToken_eq rfl (by decide), replaceToken_eq rfl (by decide)]
  rfl

theorem token_ne_mark (p : Platform) (m : LogMessage) : ∀ e ∈ tokenTexts p m, e.1 ≠ '%' := by
  simp [tokenTexts]

/-- The tokens of a pattern, and the characters between them. -/
def patternPieces (pattern : String) : List (Piece Char) := readPieces '%' ['l', 'n', 'v', 't', 'T'] pattern.toList

theorem named_patternPieces (pattern : String) : Named '%' (patternPieces pattern) := named_readPieces (by decide) _

theorem formatMessage_eq_substituted_iff (p : Platform) (pattern : String) (m : LogMessage) :
    formatMessage p pattern m = substituted p pattern m ↔ passes '%' (tokenTexts p m) (render '%' [] (patternPieces pattern)) =
      render '%' (tokenTexts p m) (patternPieces pattern) := by
  rw [formatMessage_eq_passes, substituted, String.ofList_inj, fill_eq_render, patternPieces, render_readPieces]
  rfl

theorem level_text (level : LogLevel) : ∃ a w, level.toString.toList = a :: w ∧ '%' ∉ a :: w ∧ a ≠ 'n' := by
  cases level <;> exact ⟨_, _, rfl, by decide, by decide⟩

/-- A time and a thread id as they are streamed: without `%`, and longer than a token. -/
def Printed (p : Platform) (m : LogMessage) : Prop :=
  ∀ text ∈ [p.putTime m.timestamp, p.showThread m.threadId], '%' ∉ text.toList ∧ 2 < text.toList.length

theorem undisturbed_of_formatMessage {p : Platform} {pattern : String} {m : LogMessage} (hp : Printed p m)
    (h : formatMessage p pattern m = substituted p pattern m) : Undisturbed '%' (tokenTexts p m) (patternPieces pattern) := by
  have hlevel : ¬[Piece.plain '%', .plain 'l'] <:+: patternPieces pattern := readPieces_apart (by decide) _
  have hname : ¬[Piece.plain '%', .plain 'n'] <:+: putIn ('l', m.level.toString.toList) (patternPieces pattern) := by
    obtain ⟨a, w, hw, hmark, ha⟩ := level_text m.level
    exact putIn_apart hw (hw ▸ hmark) ha (readPieces_apart (by decide) _)
  have hlater : ∀ e ∈ [('t', (p.putTime m.timestamp).toList), ('T', (p.showThread m.threadId).toList)],
      '%' ∉ e.2 ∧ 2 < e.2.length := by
    simpa [Printed] using hp
  have hnamed := (named_patternPieces pattern).putIn ('l', m.level.toString.toList)
  rw [formatMessage_eq_substituted_iff] at h
  -- `%l` and `%n` meet none, and behind `%v` no marks are put in
  have hpass := (passes_of_apart (by simp) (named_patternPieces pattern) hlevel).mp h
  have hpass' := (passes_of_apart (by simp) hnamed hname).mp hpass
  have hrest := undisturbed_of_passes hlater (by simp) (hnamed.putIn _) hpass'
  exact ⟨.inr hlevel, .inr hname, hrest⟩

/-- The passes come to one substitution if none of them meets a stray token; with the times and thread ids
    of a stream only then. -/
theorem formatMessage_simultaneous_iff (p : Platform) (pattern : String) (m : LogMessage) :
    (Undisturbed '%' (tokenTexts p m) (patternPieces pattern) → formatMessage p pattern m = substituted p pattern m) ∧
    (Printed p m →
      (formatMessage p pattern m = substituted p pattern m ↔ Undisturbed '%' (tokenTexts p m) (patternPieces pattern))) := by
  have hif : Undisturbed '%' (tokenTexts p m) (patternPieces pattern) → formatMessage p pattern m = substituted p pattern m :=
    fun h => (formatMessage_eq_substituted_iff p pattern m).mpr (h.passes (token_ne_mark p m) (named_patternPieces pattern))
  exact ⟨hif, fun hp => ⟨undisturbed_of_formatMessage hp, hif⟩⟩

/-- `info` with the default pattern and the message `%T`. -/
theorem a_message_is_searched :
    formatMessage ⟨fun _ => "2024-01-02 03:04:05", fun _ => "140735"⟩ "[%l] %n: %v" ⟨.info, "%T", "app", 140735, 0⟩ =
      "[INFO] app: 140735" ∧
    substituted ⟨fun _ => "2024-01-02 03:04:05", fun _ => "140735"⟩ "[%l] %n: %v" ⟨.info, "%T", "app", 140735, 0⟩ =
      "[INFO] app: %T" := by
  decide +kernel

-- a `%` at the end of a text does no harm before a token of the pattern
example : formatMessage ⟨fun _ => "", fun _ => "140735"⟩ "%v%T" ⟨.info, "100%", "app", 140735, 0⟩ = "100%140735" := by decide

/-! ## Placeholders -/

abbrev placeholder : List Char := ['\x7b', '\x7d']

/-- The parts of a format, with a placeholder between each and the next. -/
structure Pieces (format : List Char) (pieces : List (List Char)) : Prop where
  nonempty : pieces ≠ []
  plain : ∀ piece ∈ pieces, ¬placeholder <:+: piece
  join : format = placeholder.intercalate pieces

/-- The parts with the arguments between them, and the placeholders when there are no more. -/
def weave : List (List Char) → List String → List Char
  | [], _ => []
  | [piece], _ => piece
  | piece :: next :: pieces, [] => piece ++ (placeholder ++ weave (next :: pieces) [])
  | piece :: next :: pieces, arg :: args => piece ++ (arg.toList ++ weave (next :: pieces) args)

theorem weave_nil (pieces : List (List Char)) : weave pieces [] = placeholder.intercalate pieces := by
  induction pieces with
  | nil => rfl
  | cons piece pieces ih =>
    cases pieces with
    | nil => simp [weave]
    | cons next pieces => rw [weave, ih, List.intercalate_cons_cons, List.append_assoc]

theorem formatArg_none {done rest : List Char} (h : ¬placeholder <:+: rest) (arg : String) :
    formatArg (done ++ rest, done.length) arg = (done ++ rest, done.length) := by
  rw [formatArg, find_append, indexOf_eq_none_iff.mpr h]
  rfl

/-- The position is behind the argument, and what is behind it is the rest of the format. -/
theorem formatArg_some {piece : List Char} (h : ¬placeholder <:+: piece) (done rest : List Char) (arg : String) :
    formatArg (done ++ (piece ++ (placeholder ++ rest)), done.length) arg =
      (done ++ piece ++ arg.toList ++ rest, (done ++ piece ++ arg.toList).length) := by
  have hreplace := replace_append (done ++ piece) placeholder rest arg.toList
  rw [List.append_assoc, List.length_append] at hreplace
  rw [formatArg, find_append, indexOf_pair (by decide) h, List.length_append, List.length_append, String.length_toList,
    List.append_assoc (done ++ piece), ← hreplace]
  rfl

theorem foldl_formatArg {pieces : List (List Char)} (hne : pieces ≠ [])
    (hplain : ∀ piece ∈ pieces, ¬placeholder <:+: piece) (done : List Char) (args : List String) :
    (args.foldl formatArg (done ++ placeholder.intercalate pieces, done.length)).1 = done ++ weave pieces args := by
  induction pieces generalizing done args with
  | nil => exact absurd rfl hne
  | cons piece pieces ih =>
    obtain ⟨hpiece, hpieces⟩ := List.forall_mem_cons.mp hplain
    cases pieces with
    | nil =>
      have hrest : placeholder.intercalate [piece] = piece := by simp
      rw [hrest, List.foldl_fixed' (formatArg_none hpiece)]
      rfl
    | cons next pieces =>
      cases args with
      | nil => rw [weave_nil]; rfl
      | cons arg args =>
        rw [List.foldl_cons, List.intercalate_cons_cons, List.append_assoc, formatArg_some hpiece,
          ih (List.cons_ne_nil _ _) hpieces, weave]
        simp only [List.append_assoc]

theorem formatString_one_pass (format : String) :
    (∃ pieces, Pieces format.toList pieces) ∧
      ∀ pieces, Pieces format.toList pieces → ∀ args, (formatString format args).toList = weave pieces args := by
  constructor
  · have hplaceholder : placeholder ≠ [] := List.cons_ne_nil _ _
    obtain ⟨pieces, hne, hplain, hjoin⟩ := exists_pieces hplaceholder format.toList
    exact ⟨pieces, hne, hplain, hjoin⟩
  · intro pieces h args
    have hfold := foldl_formatArg h.nonempty h.plain [] args
    rw [List.nil_append, ← h.join] at hfold
    rw [formatString, String.toList_ofList]
    exact hfold

example : formatString "\x7b\x7d\x7d \x7b\x7d" ["\x7b", "x"] = "\x7b\x7d x" := by decide

end DockerCpp
