/-
  DockerCpp.Lib.EcmaRegex — regular expressions with anchors, lookahead and back references,
  over any alphabet, matched by backtracking.

  `run word t r s` lists the places that `r` leads to from `s` in the text `t`, in the order
  in which they are tried. A place is a position, and where the groups have begun and ended.
  A round of a loop that does not go forward is its last: more of them would matter only to
  what back references find.

  An expression cannot tell two texts apart that its sets of letters do not (`run_congr`).
  Without lookahead, word boundaries and back references, what it matches can be cut down to
  the letters it has to match at least (`run_shorten`).
-/

import Mathlib.Data.List.Basic
import Mathlib.Data.List.Infix

namespace Lib

inductive EcmaRegex (α : Type) where
  | empty
  /-- A letter of a set. -/
  | one (p : α → Bool)
  /-- The start of the text. -/
  | bol
  /-- The end of the text. -/
  | eol
  /-- Between a letter of a word and one that is not. -/
  | wordBound (negated : Bool)
  | seq (r s : EcmaRegex α)
  | alt (r s : EcmaRegex α)
  | star (greedy : Bool) (r : EcmaRegex α)
  | look (negated : Bool) (r : EcmaRegex α)
  | group (n : Nat) (r : EcmaRegex α)
  | backref (n : Nat)

namespace EcmaRegex

variable {α : Type}

def concat (rs : List (EcmaRegex α)) : EcmaRegex α := rs.foldr .seq .empty

/-- The first is tried before the second, or after it. -/
def choice (greedy : Bool) (r s : EcmaRegex α) : EcmaRegex α := if greedy then .alt r s else .alt s r

/-! ## What is in an expression -/

/-- Every set satisfies `P`, and there are no word boundaries and back references. -/
def Over (P : (α → Bool) → Prop) : EcmaRegex α → Prop
  | .one p => P p
  | .seq r s | .alt r s => r.Over P ∧ s.Over P
  | .star _ r | .look _ r | .group _ r => r.Over P
  | .wordBound _ | .backref _ => False
  | .empty | .bol | .eol => True

variable {P : (α → Bool) → Prop} {rs : List (EcmaRegex α)}

theorem concat_over (h : ∀ r ∈ rs, r.Over P) : (concat rs).Over P := by
  induction rs with
  | nil => trivial
  | cons r rs ih => exact ⟨h r List.mem_cons_self, ih fun s hs => h s (List.mem_cons_of_mem _ hs)⟩

theorem foldr_alt_over {s : EcmaRegex α} (h : ∀ r ∈ rs, r.Over P) (hs : s.Over P) : (rs.foldr .alt s).Over P := by
  induction rs with
  | nil => exact hs
  | cons r rs ih => exact ⟨h r List.mem_cons_self, ih fun s hs => h s (List.mem_cons_of_mem _ hs)⟩

theorem choice_over {r s : EcmaRegex α} (hr : r.Over P) (hs : s.Over P) (greedy : Bool) :
    (choice greedy r s).Over P := by
  cases greedy
  · exact ⟨hs, hr⟩
  · exact ⟨hr, hs⟩

/-- No lookahead, word boundary or back reference. -/
def simple : EcmaRegex α → Bool
  | .seq r s | .alt r s => r.simple && s.simple
  | .star _ r | .group _ r => r.simple
  | .look _ _ | .wordBound _ | .backref _ => false
  | .empty | .one _ | .bol | .eol => true

/-- How many letters are enough. -/
def least : EcmaRegex α → Nat
  | .one _ => 1
  | .seq r s | .alt r s => r.least + s.least
  | .group _ r => r.least
  | _ => 0

/-! ## Matching -/

/-- A position, and the groups with their ends, the latest first. -/
abbrev Place := Nat × List (Nat × Nat × Nat)

/-- A loop over `next`, of at most `n` rounds; one that does not go forward is the last. -/
def rounds (greedy : Bool) (next : Place → List Place) : Nat → Place → List Place
  | 0, s => [s]
  | n + 1, s =>
    let more := (next s).flatMap fun e => if s.1 < e.1 then rounds greedy next n e else [e]
    if greedy then more ++ [s] else s :: more

section

variable [BEq α] (word : α → Bool) (t : List α)

def run : EcmaRegex α → Place → List Place
  | .empty, s => [s]
  | .one p, s => if t[s.1]?.any p then [(s.1 + 1, s.2)] else []
  | .bol, s => if s.1 = 0 then [s] else []
  | .eol, s => if s.1 = t.length then [s] else []
  | .wordBound negated, s =>
    let left := s.1 != 0 && t[s.1 - 1]?.any word
    if (left != t[s.1]?.any word) != negated then [s] else []
  | .seq r r', s => (run r s).flatMap (run r')
  | .alt r r', s => run r s ++ run r' s
  | .star greedy r, s => rounds greedy (run r) (t.length - s.1 + 1) s
  | .look negated r, s =>
    match run r s with
    | [] => if negated then [s] else []
    | e :: _ => if negated then [] else [(s.1, e.2)]
  | .group n r, s => (run r s).map fun e => (e.1, (n, s.1, e.1) :: e.2)
  | .backref n, s =>
    match s.2.lookup n with
    | none => []
    | some (i, j) =>
      let caught := (t.take j).drop i
      if caught.isPrefixOf (t.drop s.1) then [(s.1 + caught.length, s.2)] else []

/-- The whole text is matched. -/
def fullMatch (r : EcmaRegex α) : Bool := (run word t r (0, [])).any (·.1 == t.length)

end

theorem self_mem_rounds (greedy : Bool) (next : Place → List Place) (n : Nat) (s : Place) :
    s ∈ rounds greedy next n s := by
  cases n with
  | zero => exact List.mem_singleton_self s
  | succ n => cases greedy <;> simp [rounds]

variable {s e : Place}

theorem mem_rounds_succ {greedy : Bool} {next : Place → List Place} {n : Nat} : e ∈ rounds greedy next (n + 1) s ↔
    e = s ∨ ∃ k ∈ next s, e ∈ if s.1 < k.1 then rounds greedy next n k else [k] := by
  cases greedy <;> simp [rounds, or_comm]

variable [BEq α] {word : α → Bool} {t : List α} {r : EcmaRegex α}

theorem fullMatch_iff : fullMatch word t r = true ↔ ∃ e ∈ run word t r (0, []), e.1 = t.length := by
  simp [fullMatch]

theorem mem_run_one {p : α → Bool} :
    e ∈ run word t (.one p) s ↔ ∃ c, t[s.1]? = some c ∧ p c = true ∧ e = (s.1 + 1, s.2) := by
  rw [run]
  cases t[s.1]? <;> simp

theorem mem_run_concat_cons :
    e ∈ run word t (concat (r :: rs)) s ↔ ∃ k ∈ run word t r s, e ∈ run word t (concat rs) k := List.mem_flatMap

/-- Where a set has every letter, its closure matches everything. -/
theorem mem_run_star_one {p : α → Bool} (hp : ∀ c ∈ t, p c = true) {s : Place} (hs : s.1 ≤ t.length) (e : Place) :
    e ∈ run word t (.star true (.one p)) s ↔ s.1 ≤ e.1 ∧ e.1 ≤ t.length ∧ e.2 = s.2 := by
  rw [run]
  have hn : t.length < s.1 + (t.length - s.1 + 1) := by omega
  generalize t.length - s.1 + 1 = n at hn
  induction n generalizing s with
  | zero => omega
  | succ n ih =>
    rw [mem_rounds_succ]
    simp only [mem_run_one]
    constructor
    · rintro (rfl | ⟨k, ⟨c, hc, -, rfl⟩, he⟩)
      · exact ⟨Nat.le_refl _, hs, rfl⟩
      · have hlt := (List.getElem?_eq_some_iff.mp hc).1
        rw [if_pos (Nat.lt_succ_self s.1)] at he
        obtain ⟨hse, het⟩ := (ih (s := (s.1 + 1, s.2)) hlt (by show t.length < s.1 + 1 + n; omega)).mp he
        exact ⟨Nat.le_of_succ_le hse, het⟩
    · rintro ⟨hse, het, hcaught⟩
      rcases Nat.eq_or_lt_of_le hse with heq | hlt
      · exact Or.inl (Prod.ext heq.symm hcaught)
      · have hst : s.1 < t.length := Nat.lt_of_lt_of_le hlt het
        refine Or.inr ⟨_, ⟨_, List.getElem?_eq_getElem hst, hp _ (List.getElem_mem hst), rfl⟩, ?_⟩
        rw [if_pos (Nat.lt_succ_self s.1)]
        exact (ih (s := (s.1 + 1, s.2)) hst (by show t.length < s.1 + 1 + n; omega)).mpr ⟨hlt, het, hcaught⟩

/-! ## Letters an expression does not tell apart -/

/-- If two texts have letters of the same sets in the same places, an expression over these
    sets goes the same ways in both. -/
theorem run_congr {t' : List α} (hlength : t.length = t'.length)
    (hone : ∀ p, P p → ∀ i : Nat, t[i]?.any p = t'[i]?.any p) (hr : r.Over P) :
    run word t r = run word t' r := by
  induction r with
  | one p =>
    funext s
    simp only [run, hone p hr]
  | eol =>
    funext s
    simp only [run, hlength]
  | seq r s ihr ihs =>
    funext s
    simp only [run, ihr hr.1, ihs hr.2]
  | alt r s ihr ihs =>
    funext s
    simp only [run, ihr hr.1, ihs hr.2]
  | star greedy r ih =>
    funext s
    simp only [run, ih hr, hlength]
  | look negated r ih =>
    funext s
    simp only [run, ih hr]
  | group n r ih =>
    funext s
    simp only [run, ih hr]
  | empty => rfl
  | bol => rfl
  | wordBound negated => cases hr
  | backref n => cases hr

/-! ## The letters an expression has to match -/

/-- A way goes forward, and if it goes anywhere, it stays in the text. -/
theorem run_bounds (hr : r.simple = true) (h : e ∈ run word t r s) : s.1 ≤ e.1 ∧ (s.1 < e.1 → e.1 ≤ t.length) := by
  have hthen : ∀ {i k j : Nat}, i ≤ k ∧ (i < k → k ≤ t.length) → k ≤ j ∧ (k < j → j ≤ t.length) →
      i ≤ j ∧ (i < j → j ≤ t.length) := by
    intro i k j hik hkj
    omega
  induction r generalizing s e with
  | one p =>
    obtain ⟨c, hc, -, rfl⟩ := mem_run_one.mp h
    exact ⟨Nat.le_succ _, fun _ => (List.getElem?_eq_some_iff.mp hc).1⟩
  | seq r s ihr ihs =>
    simp only [simple, Bool.and_eq_true] at hr
    obtain ⟨k, hk, he⟩ := List.mem_flatMap.mp h
    exact hthen (ihr hr.1 hk) (ihs hr.2 he)
  | alt r s ihr ihs =>
    simp only [simple, Bool.and_eq_true] at hr
    rcases List.mem_append.mp h with h | h
    · exact ihr hr.1 h
    · exact ihs hr.2 h
  | star greedy r ih =>
    rw [run] at h
    generalize t.length - s.1 + 1 = n at h
    induction n generalizing s with
    | zero =>
      rw [List.mem_singleton.mp h]
      omega
    | succ n ihn =>
      rcases mem_rounds_succ.mp h with rfl | ⟨k, hk, he⟩
      · omega
      · split at he
        · exact hthen (ih hr hk) (ihn he)
        · rw [List.mem_singleton.mp he]
          exact ih hr hk
  | group n r ih =>
    obtain ⟨k, hk, rfl⟩ := List.mem_map.mp h
    have hbounds := ih hr hk
    exact hbounds
  | look negated r _ => cases hr
  | wordBound negated => cases hr
  | backref n => cases hr
  | empty =>
    rw [List.mem_singleton.mp h]
    omega
  | bol =>
    rw [run] at h
    split at h
    · rw [List.mem_singleton.mp h]
      omega
    · cases h
  | eol =>
    rw [run] at h
    split at h
    · rw [List.mem_singleton.mp h]
      omega
    · cases h

/-- A word of letters of the text, not longer than `r` has to match, that `r` matches between
    any two others: nothing comes before it, or after it, where nothing did. -/
theorem run_shorten (hr : r.simple = true) (h : e ∈ run word t r s) :
    ∃ w : List α, w.length ≤ r.least ∧ (e.1 = s.1 → w = []) ∧ (∀ c ∈ w, c ∈ t) ∧
      ∀ (pre post : List α) (caught : List (Nat × Nat × Nat)), (s.1 = 0 → pre = []) → (e.1 = t.length → post = []) →
        ∃ caught', (pre.length + w.length, caught') ∈ run word (pre ++ w ++ post) r (pre.length, caught) := by
  induction r generalizing s e with
  | one p =>
    obtain ⟨c, hc, hp, rfl⟩ := mem_run_one.mp h
    refine ⟨[c], Nat.le_refl 1, fun heq => absurd heq (Nat.succ_ne_self _), ?_, fun pre post caught _ _ => ?_⟩
    · intro c' hc'
      rw [List.mem_singleton.mp hc']
      exact List.mem_of_getElem? hc
    · exact ⟨caught, mem_run_one.mpr ⟨c, by simp, hp, rfl⟩⟩
  | seq r r' ihr ihr' =>
    simp only [simple, Bool.and_eq_true] at hr
    obtain ⟨k, hk, he⟩ := List.mem_flatMap.mp h
    obtain ⟨w, hw, hempty, hmem, hway⟩ := ihr hr.1 hk
    obtain ⟨w', hw', hempty', hmem', hway'⟩ := ihr' hr.2 he
    have hsk := run_bounds hr.1 hk
    have hke := run_bounds hr.2 he
    refine ⟨w ++ w', ?_, fun heq => ?_, ?_, fun pre post caught hpre hpost => ?_⟩
    · rw [List.length_append]
      exact Nat.add_le_add hw hw'
    · rw [hempty (by omega), hempty' (by omega), List.append_nil]
    · exact fun c hc => (List.mem_append.mp hc).elim (hmem c) (hmem' c)
    · -- each of the two stands between what is left of the other and the rest
      obtain ⟨caught₁, h₁⟩ := hway pre (w' ++ post) caught hpre fun hkt => by
        rw [hempty' (by omega), hpost (by omega), List.append_nil]
      obtain ⟨caught₂, h₂⟩ := hway' (pre ++ w) post caught₁ (fun hk0 => by
        rw [hpre (by omega), hempty (by omega), List.append_nil]) hpost
      simp only [List.length_append, List.append_assoc] at h₁ h₂ ⊢
      exact ⟨caught₂, List.mem_flatMap.mpr ⟨_, h₁, by rwa [← Nat.add_assoc]⟩⟩
  | alt r r' ihr ihr' =>
    simp only [simple, Bool.and_eq_true] at hr
    rcases List.mem_append.mp h with h | h
    · obtain ⟨w, hw, hempty, hmem, hway⟩ := ihr hr.1 h
      refine ⟨w, hw.trans (Nat.le_add_right _ _), hempty, hmem, fun pre post caught hpre hpost => ?_⟩
      exact (hway pre post caught hpre hpost).imp fun _ h => List.mem_append_left _ h
    · obtain ⟨w, hw, hempty, hmem, hway⟩ := ihr' hr.2 h
      refine ⟨w, hw.trans (Nat.le_add_left _ _), hempty, hmem, fun pre post caught hpre hpost => ?_⟩
      exact (hway pre post caught hpre hpost).imp fun _ h => List.mem_append_right _ h
  | group n r ih =>
    obtain ⟨k, hk, rfl⟩ := List.mem_map.mp h
    obtain ⟨w, hw, hempty, hmem, hway⟩ := ih hr hk
    refine ⟨w, hw, hempty, hmem, fun pre post caught hpre hpost => ?_⟩
    obtain ⟨caught', h'⟩ := hway pre post caught hpre hpost
    exact ⟨_, List.mem_map.mpr ⟨_, h', rfl⟩⟩
  | star greedy r _ =>
    exact ⟨[], Nat.zero_le _, fun _ => rfl, by simp, fun pre post caught _ _ => ⟨caught, self_mem_rounds _ _ _ _⟩⟩
  | empty =>
    exact ⟨[], Nat.zero_le _, fun _ => rfl, by simp, fun pre post caught _ _ => ⟨caught, List.mem_singleton_self _⟩⟩
  | bol =>
    rw [run] at h
    split at h
    · rename_i hs
      refine ⟨[], Nat.zero_le _, fun _ => rfl, by simp, fun pre post caught hpre _ => ⟨caught, ?_⟩⟩
      rw [hpre hs]
      exact List.mem_singleton_self _
    · cases h
  | eol =>
    rw [run] at h
    split at h
    · rename_i hs
      rw [List.mem_singleton.mp h] at *
      refine ⟨[], Nat.zero_le _, fun _ => rfl, by simp, fun pre post caught _ hpost => ⟨caught, ?_⟩⟩
      rw [hpost hs, List.append_nil, List.append_nil, run, if_pos rfl]
      exact List.mem_singleton_self _
    · cases h
  | look negated r _ => cases hr
  | wordBound negated => cases hr
  | backref n => cases hr

/-- So what is matched as a whole need not be longer. -/
theorem fullMatch_shorten (hr : r.simple = true) (h : fullMatch word t r = true) :
    ∃ w : List α, w.length ≤ r.least ∧ (∀ c ∈ w, c ∈ t) ∧ fullMatch word w r = true := by
  obtain ⟨e, he, -⟩ := fullMatch_iff.mp h
  obtain ⟨w, hw, -, hmem, hway⟩ := run_shorten hr he
  obtain ⟨caught', h'⟩ := hway [] [] [] (fun _ => rfl) fun _ => rfl
  rw [List.nil_append, List.append_nil] at h'
  exact ⟨w, hw, hmem, fullMatch_iff.mpr ⟨_, h', Nat.zero_add _⟩⟩

end EcmaRegex

end Lib
