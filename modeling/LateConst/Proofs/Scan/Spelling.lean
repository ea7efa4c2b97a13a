import LateConst.Token.Scan
import Mathlib.Data.List.Induction
import Mathlib.Data.Nat.Digits.Defs

/-!
# What a text can be cut into

`Piece.Spelling` relates a piece of a text to the characters that it can consist of, and says what a
token is worth. Nothing is said there about where a piece ends: `Piece.IsLongest` says that none of
the pieces that can stand at a place is longer.

White space can be inside of gaps and strings only, so it ends anything else
(`Piece.Spelling.isLongest_append`).
-/

namespace LateConst

/-! ### Kinds of characters -/

section Characters

variable {c : Char}

theorem toNat_of_isGapChar (h : isGapChar c) :
    c.toNat = 32 ∨ 9 ≤ c.toNat ∧ c.toNat ≤ 13 := by
  simp only [isGapChar, Bool.or_eq_true, Bool.and_eq_true, decide_eq_true_eq, beq_iff_eq,
    Char.le_def, UInt32.le_iff_toNat_le] at h
  obtain rfl | h := h
  · exact .inl rfl
  · exact .inr h

theorem toNat_of_isDigit (h : c.isDigit) : 48 ≤ c.toNat ∧ c.toNat ≤ 57 := by
  simp only [Char.isDigit, Bool.and_eq_true, decide_eq_true_eq, UInt32.le_iff_toNat_le,
    ge_iff_le] at h
  exact h

theorem toNat_of_isNameStart (h : isNameStart c) :
    (65 ≤ c.toNat ∧ c.toNat ≤ 90) ∨ (97 ≤ c.toNat ∧ c.toNat ≤ 122) ∨ c.toNat = 95 := by
  have halpha : c.isAlpha = (decide (65 ≤ c.val ∧ c.val ≤ 90) ||
      decide (97 ≤ c.val) && decide (c.val ≤ 122)) := rfl
  simp only [isNameStart, halpha, Bool.or_eq_true, Bool.and_eq_true, decide_eq_true_eq, beq_iff_eq,
    UInt32.le_iff_toNat_le] at h
  obtain (h | h) | rfl := h
  · exact .inl h
  · exact .inr (.inl h)
  · exact .inr (.inr rfl)

theorem isGapChar_of_isDigit (h : c.isDigit) : isGapChar c = false := by
  have hdigit := toNat_of_isDigit h
  refine Bool.eq_false_iff.2 fun hgap ↦ ?_
  have hblank := toNat_of_isGapChar hgap
  omega

theorem isGapChar_of_isNameStart (h : isNameStart c) : isGapChar c = false := by
  have hname := toNat_of_isNameStart h
  refine Bool.eq_false_iff.2 fun hgap ↦ ?_
  have hblank := toNat_of_isGapChar hgap
  omega

theorem isDigit_of_isNameStart (h : isNameStart c) : c.isDigit = false := by
  have hname := toNat_of_isNameStart h
  refine Bool.eq_false_iff.2 fun hdigit ↦ ?_
  have hdigit := toNat_of_isDigit hdigit
  omega

theorem isNameChar_of_isNameStart (h : isNameStart c) : isNameChar c := by
  simp only [isNameStart, isNameChar, Char.isAlphanum, Bool.or_eq_true] at h ⊢
  exact h.imp_left .inl

theorem isGapChar_of_isNameChar (h : isNameChar c) : isGapChar c = false := by
  simp only [isNameChar, Char.isAlphanum, Bool.or_eq_true] at h
  obtain (halpha | hdigit) | hunderscore := h
  · exact isGapChar_of_isNameStart (by simp [isNameStart, halpha])
  · exact isGapChar_of_isDigit hdigit
  · exact isGapChar_of_isNameStart (by simp [isNameStart, hunderscore])

end Characters

/-! ### What spells a piece -/

/-- The number that decimal digits write; the last of them counts ones. -/
def decimalValue (digits : List Char) : Nat :=
  Nat.ofDigits 10 (digits.reverse.map fun digit ↦ digit.toNat - '0'.toNat)

theorem ofDigits_eq_decimalValue (digits : List Char) : ofDigits digits = decimalValue digits := by
  induction digits using List.reverseRecOn with
  | nil => rfl
  | append_singleton digits digit ih =>
    rw [ofDigits] at ih ⊢
    rw [List.foldl_append, List.foldl_cons, List.foldl_nil, ih, decimalValue, decimalValue,
      List.reverse_append, List.reverse_singleton, List.singleton_append, List.map_cons,
      Nat.ofDigits_cons, Nat.add_comm]

def IsDigits (s : List Char) : Prop := s ≠ [] ∧ ∀ c ∈ s, c.isDigit

/-- The shape of names and reserved words. -/
def IsNameLike (s : List Char) : Prop := ∃ c rest, s = c :: rest ∧ isNameStart c ∧
  ∀ d ∈ rest, isNameChar d

theorem IsNameLike.append {s run : List Char} (h : IsNameLike s) (hrun : ∀ c ∈ run, isNameChar c) :
    IsNameLike (s ++ run) := by
  obtain ⟨c, rest, rfl, hstart, hrest⟩ := h
  exact ⟨c, rest ++ run, rfl, hstart, List.forall_mem_append.2 ⟨hrest, hrun⟩⟩

theorem IsNameLike.isNameChar {s : List Char} (h : IsNameLike s) : ∀ c ∈ s, isNameChar c := by
  obtain ⟨c, rest, rfl, hstart, hrest⟩ := h
  exact List.forall_mem_cons.2 ⟨isNameChar_of_isNameStart hstart, hrest⟩

theorem Keyword.isNameLike_text (w : Keyword) : IsNameLike w.text.toList := by
  cases w <;> exact ⟨_, _, rfl, by decide, List.all_eq_true.1 rfl⟩

namespace Piece

/-- The characters that a piece can consist of. A word is a reserved word if it is one of them, and
a name otherwise. An integer that has too many digits cannot be read. -/
inductive Spelling : Piece → List Char → Prop
  | blanks {s : List Char} (hne : s ≠ []) (h : ∀ c ∈ s, isGapChar c) : Spelling .gap s
  | comment {s : List Char} (h : ∀ c ∈ s, !endsComment c) : Spelling .gap ('/' :: '/' :: s)
  | integer {s : List Char} (h : IsDigits s) (hlength : s.length ≤ digitLimit) :
      Spelling (.lexeme (.number (.int (decimalValue s)))) s
  | oversized {s : List Char} (h : IsDigits s) (hlength : digitLimit < s.length) :
      Spelling .oversized s
  | decimal {whole fraction : List Char} (hwhole : IsDigits whole) (hfraction : IsDigits fraction) :
      Spelling (.lexeme (.number (.double (Double.ofQuotient false
        (decimalValue (whole ++ fraction)) (Nat.pow 10 fraction.length)))))
        (whole ++ '.' :: fraction)
  | text {inner : List Char} (h : '"' ∉ inner) :
      Spelling (.lexeme (.text (String.ofList inner))) ('"' :: (inner ++ ['"']))
  | word (w : Keyword) : Spelling (.lexeme (.word w)) w.text.toList
  | name {s : List Char} (h : IsNameLike s) (hword : ∀ w : Keyword, w.text.toList ≠ s) :
      Spelling (.lexeme (.name (String.ofList s))) s
  | mark (m : Mark) : Spelling (.lexeme (.mark m)) m.symbol.toList

/-- A piece at the beginning of a text, spelled by `s`, such that none of the pieces that could
stand there is longer. -/
structure IsLongest (piece : Piece) (s cs : List Char) : Prop where
  spelling : piece.Spelling s
  initial : s <+: cs
  longest : ∀ t other, t <+: cs → Spelling other t → t.length ≤ s.length

namespace Spelling

variable {piece other : Piece} {s rest inner : List Char} {c d : Char}

theorem ne_nil (h : piece.Spelling s) : s ≠ [] := by
  cases h with
  | blanks hne _ => exact hne
  | comment _ => exact List.cons_ne_nil _ _
  | integer h _ | oversized h _ => exact h.1
  | decimal hwhole _ => exact List.append_ne_nil_of_left_ne_nil hwhole.1 _
  | text _ => exact List.cons_ne_nil _ _
  | word w =>
    obtain ⟨c, rest, hs, -⟩ := w.isNameLike_text
    rw [hs]
    exact List.cons_ne_nil c rest
  | name h _ =>
    obtain ⟨c, rest, rfl, -⟩ := h
    exact List.cons_ne_nil c rest
  | mark m => cases m <;> exact List.cons_ne_nil _ _

/-- What begins with a punctuation character is a comment, a string or a mark. -/
theorem of_punctuation (h : piece.Spelling (c :: s)) (hgap : isGapChar c = false)
    (hdigit : c.isDigit = false) (hstart : isNameStart c = false) :
    (piece = .gap ∧ c = '/' ∧ ∃ rest, s = '/' :: rest) ∨
      (c = '"' ∧ ∃ inner, '"' ∉ inner ∧ s = inner ++ ['"']) ∨
      ∃ m, piece = .lexeme (.mark m) ∧ m.symbol.toList = c :: s := by
  generalize hs : c :: s = t at h
  have hhead : c ∈ t.head? := by simp [← hs]
  cases h with
  | blanks _ hblank =>
    rw [hblank c (List.mem_of_mem_head? hhead)] at hgap
    cases hgap
  | comment _ =>
    obtain ⟨rfl, rfl⟩ := List.cons.inj hs
    exact .inl ⟨rfl, rfl, _, rfl⟩
  | integer h _ | oversized h _ =>
    rw [h.2 c (List.mem_of_mem_head? hhead)] at hdigit
    cases hdigit
  | decimal hwhole _ =>
    obtain ⟨d, more, rfl⟩ := List.exists_cons_of_ne_nil hwhole.1
    rw [hwhole.2 c (List.mem_of_mem_head? hhead)] at hdigit
    cases hdigit
  | @text inner h =>
    obtain ⟨rfl, rfl⟩ := List.cons.inj hs
    exact .inr (.inl ⟨rfl, inner, h, rfl⟩)
  | word w =>
    obtain ⟨d, rest, hw, hd, -⟩ := w.isNameLike_text
    obtain ⟨rfl, -⟩ := List.cons.inj (hs.trans hw)
    rw [hd] at hstart
    cases hstart
  | name h _ =>
    obtain ⟨d, rest, hw, hd, -⟩ := h
    obtain ⟨rfl, -⟩ := List.cons.inj (hs.trans hw)
    rw [hd] at hstart
    cases hstart
  | mark m => exact .inr (.inr ⟨m, rfl, rfl⟩)

theorem eq_gap_of_slashes (h : piece.Spelling ('/' :: '/' :: s)) : piece = .gap := by
  obtain ⟨hgap, -⟩ | ⟨hquote, -⟩ | ⟨m, -, hm⟩ := h.of_punctuation rfl rfl rfl
  · exact hgap
  · cases hquote
  · cases m <;> cases hm

theorem exists_of_quote (h : piece.Spelling ('"' :: s)) : ∃ inner, s = inner ++ ['"'] := by
  obtain ⟨-, hslash, -⟩ | ⟨-, inner, -, hinner⟩ | ⟨m, -, hm⟩ := h.of_punctuation rfl rfl rfl
  · cases hslash
  · exact ⟨inner, hinner⟩
  · cases m <;> cases hm

/-- White space is inside of gaps and strings only. -/
theorem gap_or_text (h : piece.Spelling s) (hd : d ∈ s) (hgap : isGapChar d) :
    piece = .gap ∨ ∃ inner, '"' ∉ inner ∧ s = '"' :: (inner ++ ['"']) := by
  have hdigit : ¬d.isDigit := fun h ↦ by
    rw [isGapChar_of_isDigit h] at hgap
    cases hgap
  have hname : ¬isNameChar d := fun h ↦ by
    rw [isGapChar_of_isNameChar h] at hgap
    cases hgap
  cases h with
  | blanks _ _ => exact .inl rfl
  | comment _ => exact .inl rfl
  | text hinner => exact .inr ⟨_, hinner, rfl⟩
  | integer h _ | oversized h _ => exact (hdigit (h.2 d hd)).elim
  | decimal hwhole hfraction =>
    obtain hmem | hmem := List.mem_append.1 hd
    · exact (hdigit (hwhole.2 d hmem)).elim
    · obtain rfl | hmem := List.mem_cons.1 hmem
      · cases hgap
      · exact (hdigit (hfraction.2 d hmem)).elim
  | word w => exact (hname (w.isNameLike_text.isNameChar d hd)).elim
  | name h _ => exact (hname (h.isNameChar d hd)).elim
  | mark m =>
    have hall : ∀ d ∈ m.symbol.toList, isGapChar d = false := by
      cases m <;> simp [Mark.symbol, isGapChar]
    rw [hall d hd] at hgap
    cases hgap

/-- A string begins with no other piece. -/
theorem eq_quoted (h : piece.Spelling s) (hinner : '"' ∉ inner)
    (hinitial : s <+: '"' :: (inner ++ ['"'])) : s = '"' :: (inner ++ ['"']) := by
  obtain ⟨c, s, rfl⟩ := List.exists_cons_of_ne_nil h.ne_nil
  obtain ⟨rfl, htail⟩ := List.cons_prefix_cons.1 hinitial
  obtain ⟨shorter, rfl⟩ := h.exists_of_quote
  obtain heq | hmem := List.prefix_concat_iff.1 htail
  · rw [heq]
  · exact (hinner (hmem.subset (by simp))).elim

/-- If a piece begins with another one and goes on with white space, the other one is a gap. -/
theorem eq_gap_of_append (h : piece.Spelling s) (hother : other.Spelling (s ++ d :: rest))
    (hgap : isGapChar d) : piece = .gap := by
  obtain ⟨c, s, rfl⟩ := List.exists_cons_of_ne_nil h.ne_nil
  obtain rfl | ⟨inner, hinner, hquoted⟩ := hother.gap_or_text (d := d) (by simp) hgap
  · generalize ht : c :: s ++ d :: rest = t at hother
    cases hother with
    | blanks _ hblank =>
      have hc : isGapChar c := hblank c (by simp [← ht])
      obtain hpiece | ⟨inner, -, heq⟩ := h.gap_or_text List.mem_cons_self hc
      · exact hpiece
      · obtain ⟨rfl, -⟩ := List.cons.inj heq
        cases hc
    | comment _ =>
      obtain ⟨rfl, htail⟩ := List.cons.inj ht
      cases s with
      | nil =>
        obtain ⟨rfl, -⟩ := List.cons.inj htail
        cases hgap
      | cons c s =>
        obtain ⟨rfl, -⟩ := List.cons.inj htail
        exact h.eq_gap_of_slashes
  · have hs := h.eq_quoted hinner ⟨d :: rest, hquoted⟩
    have hlength := congrArg List.length (hs.trans hquoted.symm)
    simp at hlength

/-- White space, or the end of the text, ends every piece that is no gap. -/
theorem isLongest_append (h : piece.Spelling s) (hpiece : piece ≠ .gap)
    (hrest : ∀ d ∈ rest.head?, isGapChar d) : piece.IsLongest s (s ++ rest) := by
  refine ⟨h, List.prefix_append s rest, fun t other ht hother ↦ ?_⟩
  obtain hshort | ⟨more, rfl⟩ := List.prefix_or_prefix_of_prefix ht (List.prefix_append s rest)
  · exact hshort.length_le
  rw [List.prefix_append_right_inj] at ht
  cases more with
  | nil => rw [List.append_nil]
  | cons d more =>
    obtain ⟨rest', rfl⟩ := ht
    exact (hpiece (h.eq_gap_of_append hother (hrest d rfl))).elim

end Spelling

end Piece

end LateConst
