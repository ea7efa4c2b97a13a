import LateConst.Proofs.Scan.Tiling

/-!
# A scan starts afresh on a new line

A newline parts what stands before it from what comes after. Only white space and a string can
contain one: a string that has begun in front of it has ended there as well if the scan has come to
the end of that text, and white space makes no token. So the tokens of two texts with a newline
between them are those of the one and then those of the other (`scan_append_newline`).
-/

namespace LateConst

/-! ### Moving a scan -/

section Shift

def Span.shift (n : Nat) (span : Span) : Span := ⟨n + span.left, n + span.right⟩

def Token.shift (n : Nat) (token : Token) : Token := { token with span := token.span.shift n }

/-- The end of a scan of which the text stands further on. -/
def Ending.shift (n : Nat) : Ending → Ending
  | .finished => .finished
  | .stuck offset => .stuck (n + offset)
  | .oversized => .oversized

theorem Ending.shift_eq_stuck {ending : Ending} {n offset : Nat} :
    ending.shift n = .stuck offset ↔ ∃ before, ending = .stuck before ∧ offset = n + before := by
  constructor
  · intro h
    cases ending with
    | stuck before => exact ⟨before, rfl, (Ending.stuck.inj h).symm⟩
    | finished | oversized => cases h
  · rintro ⟨before, rfl, rfl⟩
    rfl

theorem Tiling.shift {offset : Nat} {cs : List Char} {tokens : List Token} {ending : Ending}
    (n : Nat) (h : Tiling offset cs tokens ending) :
    Tiling (n + offset) cs (tokens.map (Token.shift n)) (ending.shift n) := by
  induction h with
  | finished => exact .finished
  | stuck hne h => exact .stuck hne h
  | oversized h => exact .oversized h
  | gap h _ ih => exact .gap h (by rwa [Nat.add_assoc])
  | lexeme h _ ih =>
    rw [List.map_cons, Token.shift, Span.shift, ← Nat.add_assoc]
    exact .lexeme h (by rwa [Nat.add_assoc])

theorem scanFrom_shift (n offset : Nat) (cs : List Char) : scanFrom 0 (n + offset) cs =
    ⟨(scanFrom 0 offset cs).tokens.map (Token.shift n), (scanFrom 0 offset cs).ending.shift n⟩ :=
  ((tiling_scanFrom offset cs).shift n).scanFrom_eq

end Shift

/-! ### Pieces and newlines -/

namespace Piece

variable {piece : Piece} {s rest : List Char}

/-- Only white space and a string can go on after the end of a line. -/
theorem Spelling.blank_or_text (h : piece.Spelling s) (hnewline : '\n' ∈ s) :
    (∀ c ∈ s, isGapChar c) ∨ ∃ inner, '"' ∉ inner ∧ s = '"' :: (inner ++ ['"']) := by
  obtain rfl | htext := h.gap_or_text hnewline rfl
  · cases h with
    | blanks _ hblank => exact .inl hblank
    | comment h =>
      simp only [List.mem_cons, Char.reduceEq, false_or] at hnewline
      cases h _ hnewline
  · exact .inr htext

/-- A longest piece remains the longest when another line is written below, unless it is white space
that may go on there. -/
theorem IsLongest.append_newline (h : piece.IsLongest s (s ++ rest))
    (hblank : ¬∀ c ∈ s, isGapChar c) (second : List Char) :
    piece.IsLongest s (s ++ (rest ++ '\n' :: second)) := by
  refine ⟨h.spelling, List.prefix_append _ _, fun t other ht hother ↦ ?_⟩
  rw [← List.append_assoc] at ht
  obtain hshort | ⟨more, rfl⟩ := List.prefix_or_prefix_of_prefix ht (List.prefix_append _ _)
  · exact h.longest t other hshort hother
  rw [List.prefix_append_right_inj] at ht
  cases more with
  | nil =>
    rw [List.append_nil] at hother ⊢
    exact h.longest _ other List.prefix_rfl hother
  | cons d more =>
    -- a piece that went on over the newline would be white space, or a string that has ended
    obtain ⟨rfl, -⟩ := List.cons_prefix_cons.1 ht
    obtain hall | ⟨inner, hinner, hquoted⟩ := hother.blank_or_text (by simp)
    · exact (hblank fun c hc ↦ hall c (by simp [hc])).elim
    · have hinitial : s <+: '"' :: (inner ++ ['"']) := ⟨rest ++ '\n' :: more, by simp [← hquoted]⟩
      have hlength :=
        congrArg List.length (hquoted.trans (h.spelling.eq_quoted hinner hinitial).symm)
      simp at hlength

end Piece

/-! ### The seam -/

/-- A scan that comes to the end of a text goes on below it as one that begins there. -/
theorem Tiling.scanFrom_append_newline {offset : Nat} {cs : List Char} {tokens : List Token}
    {ending : Ending} (h : Tiling offset cs tokens ending) (hending : ending = .finished)
    (second : List Char) :
    scanFrom 0 offset (cs ++ '\n' :: second) =
      ⟨tokens ++ (scanFrom 0 (offset + cs.length + 1) second).tokens,
        (scanFrom 0 (offset + cs.length + 1) second).ending⟩ := by
  induction h with
  | stuck _ _ | oversized _ => cases hending
  | @finished offset =>
    have hnewline : ∀ c ∈ ['\n'], isGapChar c := List.forall_mem_singleton.2 rfl
    exact scanFrom_blanks offset hnewline
  | @gap offset s rest tokens ending h _ ih =>
    rw [List.append_assoc, List.length_append, ← Nat.add_assoc, ← ih hending]
    by_cases hblank : ∀ c ∈ s, isGapChar c
    · exact scanFrom_blanks offset hblank
    · exact scanFrom_gap offset (h.append_newline hblank second).first?_eq
  | @lexeme offset s rest l tokens ending h _ ih =>
    have hblank : ¬∀ c ∈ s, isGapChar c := by
      intro hblank
      obtain ⟨c, s, rfl⟩ := List.exists_cons_of_ne_nil h.spelling.ne_nil
      have hfirst := h.first?_eq
      rw [List.cons_append, Piece.first?_of_isGapChar _ (hblank c List.mem_cons_self)] at hfirst
      cases hfirst
    rw [List.append_assoc, scanFrom_lexeme offset (h.append_newline hblank second).first?_eq,
      ih hending, List.length_append, ← Nat.add_assoc, List.cons_append]

/-- Where a text is scanned to its end, the tokens of another one can be written below it: its
tokens follow, as far on as it stands, and the scan gets stuck in it where it does in it alone. -/
theorem scan_append_newline {first : List Char} (second : List Char)
    (h : (scan first).ending = .finished) :
    (scan (first ++ '\n' :: second)).tokens =
        (scan first).tokens ++ (scan second).tokens.map (Token.shift (first.length + 1)) ∧
      (scan (first ++ '\n' :: second)).ending = (scan second).ending.shift (first.length + 1) ∧
      ∀ offset, (scan (first ++ '\n' :: second)).ending = .stuck offset ↔
        ∃ before, (scan second).ending = .stuck before ∧ offset = first.length + 1 + before := by
  have hseam := (tiling_scanFrom 0 first).scanFrom_append_newline h second
  rw [Nat.zero_add, ← Nat.add_zero (first.length + 1), scanFrom_shift] at hseam
  have hscan : scan (first ++ '\n' :: second) =
      ⟨(scan first).tokens ++ (scan second).tokens.map (Token.shift (first.length + 1)),
        (scan second).ending.shift (first.length + 1)⟩ := hseam
  rw [hscan]
  exact ⟨rfl, rfl, fun offset ↦ Ending.shift_eq_stuck⟩

/-- A comparison is not put together over the end of a line, and a comment does not go on there. -/
theorem scan_append_newline_comparison :
    (scan "a < // b".toList).ending = .finished ∧
      (scan ("a < // b".toList ++ '\n' :: "= ?".toList)).tokens =
        [⟨.name "a", ⟨0, 1⟩⟩, ⟨.mark .less, ⟨2, 3⟩⟩, ⟨.mark .assign, ⟨9, 10⟩⟩] ∧
      (scan ("a < // b".toList ++ '\n' :: "= ?".toList)).ending = .stuck 11 := by
  have hfinished : (scan "a < // b".toList).ending = .finished := by decide +kernel
  obtain ⟨htokens, -, hstuck⟩ := scan_append_newline "= ?".toList hfinished
  refine ⟨hfinished, ?_, (hstuck 11).2 ⟨2, by decide +kernel, rfl⟩⟩
  rw [htokens]
  decide +kernel

end LateConst
