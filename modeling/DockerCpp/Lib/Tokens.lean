/-
  DockerCpp.Lib.Tokens — tokens in a text: a mark and the name that follows it.

  `fill` puts in the texts of a table from left to right and does not look again at what
  it put in. `passes` goes over the whole text once for each entry, so that an entry also meets
  the texts of the earlier ones. Both are followed on the pieces of the text (`Piece`): there a
  token of the text is one piece, and a mark that came to stand before a name is two, a stray
  token. A pass (`pass`) takes both, where only the first is meant (`putIn`). Each stray token
  changes the weight of the text by the difference between its own and that of the text put in
  for it (`weight_pass`), and so the passes come to one substitution only if there are none
  (`undisturbed_of_passes`).
-/

import DockerCpp.Lib.Assoc
import DockerCpp.Lib.Text

namespace Lib.Tokens

open Assoc

variable {α : Type} [DecidableEq α]

def fill (m : α) (table : List (α × List α)) : List α → List α
  | [] => []
  | [c] => [c]
  | c :: d :: s =>
    if c = m then
      match table.lookup d with
      | some w => w ++ fill m table s
      | none => c :: fill m table (d :: s)
    else c :: fill m table (d :: s)

def passes (m : α) (table : List (α × List α)) (s : List α) : List α :=
  table.foldl (fun s e => fill m [e] s) s

variable {m : α} {table : List (α × List α)} {e : α × List α}

/-! ## One pass -/

variable {c : α}

theorem fill_token {w : List α} (h : table.lookup c = some w) (s : List α) :
    fill m table (m :: c :: s) = w ++ fill m table s := by
  rw [fill, if_pos rfl, h]

theorem fill_mark {s : List α} (h : ∀ a, s.head? = some a → table.lookup a = none) :
    fill m table (m :: s) = m :: fill m table s := by
  cases s with
  | nil => rfl
  | cons d s => rw [fill, if_pos rfl, h d rfl]

theorem fill_mark_cons {d : α} (h : table.lookup d = none) (s : List α) :
    fill m table (m :: d :: s) = m :: fill m table (d :: s) := by
  apply fill_mark
  intro a ha
  cases ha
  exact h

theorem fill_cons (h : c ≠ m) (s : List α) : fill m table (c :: s) = c :: fill m table s := by
  cases s with
  | nil => rfl
  | cons d s => rw [fill, if_neg h]

/-- A text without tokens stays, if none is formed with what follows. -/
theorem fill_append {w r : List α} (h : ∀ c u, table.lookup c = some u → ¬[m, c] <:+: w)
    (hend : w.getLast? = some m → ∀ a, r.head? = some a → table.lookup a = none) :
    fill m table (w ++ r) = w ++ fill m table r := by
  induction w with
  | nil => rfl
  | cons c w ih =>
    have htail := ih (fun d u hd hin => h d u hd (hin.trans (List.suffix_cons c w).isInfix)) (by
      intro hlast
      apply hend
      cases w with
      | nil => cases hlast
      | cons d w => rwa [List.getLast?_cons_cons])
    rw [List.cons_append, List.cons_append, ← htail]
    by_cases hc : c = m
    · subst hc
      apply fill_mark
      intro a ha
      cases w with
      | nil => exact hend rfl a ha
      | cons d w =>
        cases ha
        cases hu : table.lookup a with
        | none => rfl
        | some u => exact absurd (List.prefix_append [c, a] w).isInfix (h a u hu)
    · exact fill_cons hc _

theorem fill_eq_self {s : List α} (h : ∀ c u, table.lookup c = some u → ¬[m, c] <:+: s) :
    fill m table s = s := by
  have hwhole := fill_append (r := []) h fun _ a ha => by cases ha
  rwa [List.append_nil, fill, List.append_nil] at hwhole

theorem lookup_singleton {c d : α} (h : c ≠ d) (w : List α) : [(d, w)].lookup c = none :=
  lookup_cons_of_ne h w []

/-! ## Pieces -/

inductive Piece (α : Type) where
  | plain (a : α)
  | token (c : α)
  deriving DecidableEq

open Piece

variable {ps : List (Piece α)}

def readPieces (m : α) (names : List α) : List α → List (Piece α)
  | [] => []
  | [c] => [plain c]
  | c :: d :: s => if c = m ∧ d ∈ names then token d :: readPieces m names s else plain c :: readPieces m names (d :: s)

/-- A token without an entry is written as it was read. -/
def shown (m : α) (table : List (α × List α)) : Piece α → List α
  | plain a => [a]
  | token c => (table.lookup c).getD [m, c]

def render (m : α) (table : List (α × List α)) (ps : List (Piece α)) : List α := ps.flatMap (shown m table)

theorem render_plain (a : α) (ps : List (Piece α)) :
    render m table (plain a :: ps) = a :: render m table ps := rfl

theorem render_cons (x : Piece α) (ps : List (Piece α)) :
    render m table (x :: ps) = shown m table x ++ render m table ps := rfl

theorem render_append (ps qs : List (Piece α)) : render m table (ps ++ qs) = render m table ps ++ render m table qs :=
  List.flatMap_append

theorem render_map_plain (w : List α) : render m table (w.map plain) = w := by
  induction w with
  | nil => rfl
  | cons a w ih => rw [List.map_cons, render_plain, ih]

theorem fill_eq_render (s : List α) : fill m table s = render m table (readPieces m (table.map (·.1)) s) := by
  fun_induction fill m table s with
  | case1 | case2 => rfl
  | case3 d s w hw ih =>
    rw [readPieces, if_pos ⟨rfl, List.mem_map_of_mem (mem_of_lookup hw)⟩, render_cons, shown, hw, ih, Option.getD_some]
  | case4 d s hd ih =>
    have hname : d ∉ table.map (·.1) := by
      intro hmem
      obtain ⟨e, he, rfl⟩ := List.mem_map.mp hmem
      exact absurd (List.lookup_eq_none_iff.mp hd e he) (by simp)
    rw [readPieces, if_neg fun h => hname h.2, render_plain, ih]
  | case5 c d s hc ih => rw [readPieces, if_neg fun h => hc h.1, render_plain, ih]

/-- What was read has no stray tokens. -/
theorem readPieces_apart {names : List α} (hc : c ∈ names) (s : List α) :
    ¬[plain m, plain c] <:+: readPieces m names s := by
  fun_induction readPieces m names s with
  | case1 => simp
  | case2 => simp [pair_infix_cons]
  | case3 c d s _ ih => simpa [pair_infix_cons] using ih
  | case4 b d s hno ih =>
    rw [pair_infix_cons, not_or]
    refine ⟨?_, ih⟩
    rintro ⟨heq, hhead⟩
    cases heq
    -- the piece behind the mark is its own element, which is no name
    cases s with
    | nil =>
      cases hhead
      exact hno ⟨rfl, hc⟩
    | cons d' s =>
      rw [readPieces] at hhead
      split at hhead
      · cases hhead
      · cases hhead
        exact hno ⟨rfl, hc⟩

theorem render_readPieces (names s : List α) : render m [] (readPieces m names s) = s := by
  fun_induction readPieces m names s with
  | case1 | case2 => rfl
  | case3 c d s h ih =>
    rw [render_cons, ih, h.1]
    rfl
  | case4 c d s _ ih => rw [render_plain, ih]

/-- No name of a token is the mark. -/
def Named (m : α) (ps : List (Piece α)) : Prop := ∀ c, token c ∈ ps → c ≠ m

theorem named_readPieces {names : List α} (hm : m ∉ names) (s : List α) : Named m (readPieces m names s) := by
  fun_induction readPieces m names s with
  | case1 | case2 => simp [Named]
  | case3 c d s h ih =>
    intro b hb
    rcases List.mem_cons.mp hb with heq | hb
    · cases heq
      exact fun hd => hm (hd ▸ h.2)
    · exact ih b hb
  | case4 c d s _ ih =>
    intro b hb
    exact ih b (List.mem_of_ne_of_mem (by simp) hb)

/-! ## A pass over the pieces -/

def putPiece (e : α × List α) : Piece α → List (Piece α)
  | plain a => [plain a]
  | token c => if c = e.1 then e.2.map plain else [token c]

def putIn (e : α × List α) (ps : List (Piece α)) : List (Piece α) := ps.flatMap (putPiece e)

def pass (m : α) (e : α × List α) : List (Piece α) → List (Piece α)
  | [] => []
  | token c :: ps => putPiece e (token c) ++ pass m e ps
  | [plain a] => [plain a]
  | plain a :: token c :: ps => plain a :: pass m e (token c :: ps)
  | plain a :: plain b :: ps =>
    if a = m ∧ b = e.1 then e.2.map plain ++ pass m e ps else plain a :: pass m e (plain b :: ps)

def strays (m c : α) : List (Piece α) → Nat
  | [] => 0
  | token _ :: ps => strays m c ps
  | [plain _] => 0
  | plain _ :: token d :: ps => strays m c (token d :: ps)
  | plain a :: plain b :: ps => if a = m ∧ b = c then strays m c ps + 1 else strays m c (plain b :: ps)

theorem strays_eq_zero_iff (ps : List (Piece α)) : strays m c ps = 0 ↔ ¬[plain m, plain c] <:+: ps := by
  fun_induction strays m c ps with
  | case1 => simp
  | case2 d ps ih => rw [ih]; simp [pair_infix_cons]
  | case3 => simp [pair_infix_cons]
  | case4 a d ps ih => rw [ih]; simp [pair_infix_cons]
  | case5 a b ps h _ => simp [pair_infix_cons, h]
  | case6 a b ps h ih =>
    have hno : ¬(plain m = plain a ∧ (plain b :: ps).head? = some (plain c)) := by
      rintro ⟨hm, hc⟩
      cases hm
      cases hc
      exact h ⟨rfl, rfl⟩
    rw [ih]
    exact not_congr (pair_infix_cons.trans (or_iff_right hno)).symm

theorem render_putPiece (x : Piece α) : render m table (putPiece e x) = shown m (e :: table) x := by
  cases x with
  | plain a => rfl
  | token c =>
    rw [putPiece, shown]
    by_cases hc : c = e.1
    · subst hc
      rw [if_pos rfl, List.lookup_cons_self, render_map_plain, Option.getD_some]
    · rw [if_neg hc, lookup_cons_of_ne hc]
      exact List.append_nil _

theorem render_putIn (ps : List (Piece α)) : render m table (putIn e ps) = render m (e :: table) ps :=
  List.flatMap_assoc.trans (congrArg ps.flatMap (funext render_putPiece))

/-- A text that begins otherwise and has no marks makes no stray tokens. -/
theorem putIn_apart {a c : α} {w : List α} (he : e.2 = a :: w) (hmark : m ∉ e.2) (ha : a ≠ c)
    (h : ¬[plain m, plain c] <:+: ps) : ¬[plain m, plain c] <:+: putIn e ps := by
  have hfirst : ∀ ps : List (Piece α), (putIn e ps).head? = some (plain c) → ps.head? = some (plain c) := by
    intro ps hhead
    cases ps with
    | nil => exact hhead
    | cons x ps =>
      cases x with
      | plain b => exact hhead
      | token d =>
        rw [putIn, List.flatMap_cons, putPiece] at hhead
        split at hhead
        · rw [he] at hhead
          cases hhead
          exact absurd rfl ha
        · cases hhead
  induction ps with
  | nil => exact h
  | cons x ps ih =>
    rw [pair_infix_cons, not_or] at h
    cases x with
    | plain b =>
      show ¬[plain m, plain c] <:+: plain b :: putIn e ps
      rw [pair_infix_cons, not_or]
      exact ⟨fun hb => h.1 ⟨hb.1, hfirst ps hb.2⟩, ih h.2⟩
    | token d =>
      rw [putIn, List.flatMap_cons, putPiece]
      split
      · rw [pair_infix_append_of_notMem (by simpa using hmark)]
        exact ih h.2
      · show ¬[plain m, plain c] <:+: token d :: putIn e ps
        rw [pair_infix_cons, not_or]
        exact ⟨fun hd => (by cases hd.1), ih h.2⟩

/-- A pass that meets no stray tokens, or puts in what it takes away, is what is meant. -/
theorem pass_eq_putIn (h : e.2 = [m, e.1] ∨ strays m e.1 ps = 0) : pass m e ps = putIn e ps := by
  fun_induction pass m e ps with
  | case1 | case3 => rfl
  | case2 c ps ih => rw [ih h]; rfl
  | case4 a c ps ih => rw [ih h]; rfl
  | case5 a b ps hstray ih =>
    obtain ⟨rfl, rfl⟩ := hstray
    rcases h with h | h
    · rw [ih (.inl h), h]; rfl
    · rw [strays, if_pos ⟨rfl, rfl⟩] at h
      cases h
  | case6 a b ps hstray ih =>
    rw [strays, if_neg hstray] at h
    rw [ih h]; rfl

omit [DecidableEq α] in
theorem Named.tail {x : Piece α} (h : Named m (x :: ps)) : Named m ps :=
  fun c hc => h c (List.mem_cons_of_mem x hc)

theorem token_of_putPiece {x : Piece α} (h : token c ∈ putPiece e x) : x = token c := by
  cases x with
  | plain a => simp [putPiece] at h
  | token d =>
    rw [putPiece] at h
    split at h
    · simp at h
    · exact (List.mem_singleton.mp h).symm

theorem Named.pass (h : Named m ps) (e : α × List α) : Named m (pass m e ps) := by
  fun_induction Tokens.pass m e ps with
  | case1 | case3 => exact h
  | case2 c ps ih =>
    intro d hd
    rcases List.mem_append.mp hd with hd | hd
    · exact h d (token_of_putPiece hd ▸ List.mem_cons_self)
    · exact ih h.tail d hd
  | case4 a c ps ih =>
    intro d hd
    exact ih h.tail d (List.mem_of_ne_of_mem (by simp) hd)
  | case5 a b ps _ ih =>
    intro d hd
    exact ih h.tail.tail d ((List.mem_append.mp hd).resolve_left (by simp))
  | case6 a b ps _ ih =>
    intro d hd
    exact ih h.tail d (List.mem_of_ne_of_mem (by simp) hd)

theorem Named.putIn (h : Named m ps) (e : α × List α) : Named m (putIn e ps) := by
  intro c hc
  obtain ⟨x, hx, hc⟩ := List.mem_flatMap.mp hc
  exact h c (token_of_putPiece hc ▸ hx)

theorem fill_render (hm : e.1 ≠ m) (h : Named m ps) :
    fill m [e] (render m [] ps) = render m [] (pass m e ps) := by
  fun_induction pass m e ps with
  | case1 | case3 => rfl
  | case2 c ps ih =>
    have hrest := ih h.tail
    rw [render_append, ← hrest, putPiece]
    by_cases hc : c = e.1
    · subst hc
      rw [if_pos rfl, render_map_plain]
      exact fill_token List.lookup_cons_self _
    · rw [if_neg hc]
      show fill m [e] (m :: c :: render m [] ps) = m :: c :: fill m [e] (render m [] ps)
      rw [fill_mark_cons (lookup_singleton hc e.2), fill_cons (h c List.mem_cons_self)]
  | case4 a c ps ih =>
    rw [render_plain, render_plain, ← ih h.tail]
    by_cases ha : a = m
    · subst ha
      exact fill_mark_cons (lookup_singleton hm.symm e.2) _
    · exact fill_cons ha _
  | case5 a b ps hstray ih =>
    obtain ⟨rfl, rfl⟩ := hstray
    rw [render_append, render_map_plain, ← ih h.tail.tail]
    exact fill_token List.lookup_cons_self _
  | case6 a b ps hstray ih =>
    rw [render_plain, render_plain, render_plain, ← ih h.tail]
    by_cases ha : a = m
    · subst ha
      exact fill_mark_cons (lookup_singleton (fun hb => hstray ⟨rfl, hb⟩) e.2) _
    · exact fill_cons ha _

/-! ## What a stray token changes -/

/-- A length or a count: each stray token takes away its own and brings that of the text put in. -/
theorem weight_pass {f : List α → Nat} (hf : ∀ s t, f (s ++ t) = f s + f t) (table : List (α × List α))
    (ps : List (Piece α)) : f (render m table (pass m e ps)) + strays m e.1 ps * f [m, e.1] =
      f (render m (e :: table) ps) + strays m e.1 ps * f e.2 := by
  have hcons : ∀ a s, f (a :: s) = f [a] + f s := fun a => hf [a]
  fun_induction pass m e ps with
  | case1 | case3 => rw [strays, Nat.zero_mul, Nat.zero_mul]; rfl
  | case2 c ps ih =>
    rw [strays, render_append, render_cons, hf, hf, render_putPiece]
    omega
  | case4 a c ps ih =>
    rw [strays, render_plain, render_plain, hcons, hcons a (render m (e :: table) _)]
    omega
  | case5 a b ps hstray ih =>
    obtain ⟨rfl, rfl⟩ := hstray
    have htoken : f (a :: e.1 :: render a (e :: table) ps) = f [a, e.1] + f (render a (e :: table) ps) := hf [a, e.1] _
    rw [strays, if_pos ⟨rfl, rfl⟩, render_append, render_map_plain, render_plain, render_plain, hf, htoken,
      Nat.succ_mul, Nat.succ_mul]
    omega
  | case6 a b ps hstray ih =>
    rw [strays, if_neg hstray, render_plain, render_plain, hcons, hcons a (render m (e :: table) _)]
    omega

theorem marks_pass (hm : e.1 ≠ m) (table : List (α × List α)) (ps : List (Piece α)) :
    (render m table (pass m e ps)).count m + strays m e.1 ps =
      (render m (e :: table) ps).count m + strays m e.1 ps * e.2.count m := by
  have hweight := weight_pass (m := m) (e := e) (fun _ _ => List.count_append (a := m)) table ps
  rwa [List.count_cons_self, List.count_singleton, if_neg (by simpa using hm), Nat.zero_add, Nat.mul_one] at hweight

theorem length_pass (table : List (α × List α)) (ps : List (Piece α)) :
    (render m table (pass m e ps)).length + strays m e.1 ps * 2 =
      (render m (e :: table) ps).length + strays m e.1 ps * e.2.length :=
  weight_pass (fun _ _ => List.length_append) table ps

/-- Two elements for two: the texts differ at the first stray token. -/
theorem text_eq_token {a b : α} (he : e.2 = [a, b]) (hstray : strays m e.1 ps ≠ 0)
    (h : render m table (pass m e ps) = render m (e :: table) ps) : e.2 = [m, e.1] := by
  fun_induction pass m e ps with
  | case1 | case3 => exact absurd rfl hstray
  | case2 c ps ih =>
    rw [render_append, render_putPiece] at h
    exact ih hstray (List.append_cancel_left h)
  | case4 x c ps ih => exact ih hstray (List.cons.inj h).2
  | case5 x y ps htoken _ =>
    obtain ⟨rfl, rfl⟩ := htoken
    rw [render_append, render_map_plain, he] at h
    obtain ⟨rfl, htail⟩ := List.cons.inj h
    rw [he, (List.cons.inj htail).1]
  | case6 x y ps hno ih =>
    rw [strays, if_neg hno] at hstray
    exact ih hstray (List.cons.inj h).2

/-! ## All passes -/

/-- No pass meets a stray token in what is meant to be there before it, unless it puts in the token itself. -/
def Undisturbed (m : α) : List (α × List α) → List (Piece α) → Prop
  | [], _ => True
  | e :: table, ps => (e.2 = [m, e.1] ∨ ¬[plain m, plain e.1] <:+: ps) ∧ Undisturbed m table (putIn e ps)

theorem passes_cons (hm : e.1 ≠ m) (hps : Named m ps) :
    passes m (e :: table) (render m [] ps) = passes m table (render m [] (pass m e ps)) := by
  rw [← fill_render hm hps]
  rfl

theorem Undisturbed.passes (h : Undisturbed m table ps) (hm : ∀ e ∈ table, e.1 ≠ m) (hps : Named m ps) :
    passes m table (render m [] ps) = render m table ps := by
  induction table generalizing ps with
  | nil => rfl
  | cons e table ih =>
    obtain ⟨hm, htable⟩ := List.forall_mem_cons.mp hm
    have hpass := pass_eq_putIn (h.1.imp_right (strays_eq_zero_iff ps).mpr)
    rw [passes_cons hm hps, ← render_putIn, ← hpass]
    exact ih (hpass ▸ h.2) htable (hps.pass e)

/-- Passes whose texts have no marks and are longer than a token lose a mark for each stray token,
    and make the text longer. -/
theorem passes_marks (h : ∀ e ∈ table, m ∉ e.2 ∧ 2 < e.2.length) (hm : ∀ e ∈ table, e.1 ≠ m)
    (hps : Named m ps) : ∃ lost, (passes m table (render m [] ps)).count m + lost = (render m table ps).count m ∧
      (render m table ps).length + lost ≤ (passes m table (render m [] ps)).length ∧
      (lost = 0 → Undisturbed m table ps) := by
  induction table generalizing ps with
  | nil => exact ⟨0, rfl, Nat.le_refl _, fun _ => trivial⟩
  | cons e table ih =>
    obtain ⟨hm, htable⟩ := List.forall_mem_cons.mp hm
    obtain ⟨⟨hmark, hlong⟩, hrest⟩ := List.forall_mem_cons.mp h
    obtain ⟨lost, hcount, hlength, hnone⟩ := ih hrest htable (hps.pass e)
    have hmarks := marks_pass hm table ps
    have hsize := length_pass (m := m) (e := e) table ps
    have hgain := Nat.mul_le_mul_left (strays m e.1 ps) hlong
    rw [List.count_eq_zero_of_not_mem hmark] at hmarks
    rw [passes_cons hm hps]
    refine ⟨lost + strays m e.1 ps, by omega, by omega, ?_⟩
    intro hzero
    have hstrays : strays m e.1 ps = 0 := by omega
    rw [Undisturbed, ← pass_eq_putIn (.inr hstrays)]
    exact ⟨.inr ((strays_eq_zero_iff ps).mp hstrays), hnone (by omega)⟩

/-- The passes come to one substitution: an entry with any text, before entries whose texts have no marks and
    are longer than a token, has met no stray tokens. -/
theorem undisturbed_of_passes (h : ∀ e ∈ table, m ∉ e.2 ∧ 2 < e.2.length)
    (hm : ∀ e' ∈ e :: table, e'.1 ≠ m) (hps : Named m ps)
    (heq : passes m (e :: table) (render m [] ps) = render m (e :: table) ps) : Undisturbed m (e :: table) ps := by
  obtain ⟨hne, htable⟩ := List.forall_mem_cons.mp hm
  obtain ⟨lost, hcount, hlength, hnone⟩ := passes_marks h htable (hps.pass e)
  have hmarks := marks_pass hne table ps
  have hsize := length_pass (m := m) (e := e) table ps
  rw [passes_cons hne hps] at heq
  rw [heq] at hcount hlength
  -- the marks lost later are those the text brings beyond its token's, and there is no length to spare for more
  have hlost : lost = 0 := by
    have hle := Nat.mul_le_mul_left (strays m e.1 ps) (List.count_le_length (a := m) (l := e.2))
    have hone : strays m e.1 ps * e.2.count m ≤ strays m e.1 ps * 1 := by
      by_cases hmany : 2 ≤ e.2.count m
      · have := Nat.mul_le_mul_left (strays m e.1 ps) hmany
        omega
      · exact Nat.mul_le_mul_left _ (by omega)
    omega
  have hend := (hnone hlost).passes htable (hps.pass e)
  rw [← hend, heq] at hsize
  have htoken : e.2 = [m, e.1] ∨ strays m e.1 ps = 0 := by
    by_cases hstray : strays m e.1 ps = 0
    · exact .inr hstray
    · have htwo := Nat.eq_of_mul_eq_mul_left (Nat.pos_of_ne_zero hstray) (Nat.add_left_cancel hsize)
      obtain ⟨a, b, hab⟩ := List.length_eq_two.mp htwo.symm
      exact .inl (text_eq_token hab hstray (hend.symm.trans heq))
  rw [Undisturbed, ← pass_eq_putIn htoken]
  exact ⟨htoken.imp_right (strays_eq_zero_iff ps).mp, hnone hlost⟩

/-- An entry that meets no stray tokens can be put in beforehand. -/
theorem passes_of_apart (hm : e.1 ≠ m) (hps : Named m ps) (h : ¬[plain m, plain e.1] <:+: ps) :
    passes m (e :: table) (render m [] ps) = render m (e :: table) ps ↔
      passes m table (render m [] (putIn e ps)) = render m table (putIn e ps) := by
  rw [passes_cons hm hps, pass_eq_putIn (.inr ((strays_eq_zero_iff ps).mpr h)), ← render_putIn]

end Lib.Tokens
