import LateConst.Proofs.Printing
import LateConst.Proofs.Scan.Tiling

/-!
# Scanning what has been written out

A lexeme that can be written is scanned as itself wherever a blank or the end of the text follows
it. So the tokens of a text that has been written out are its lexemes (`exists_scan_writeOut`).
-/

namespace LateConst

/-! ### One lexeme -/

theorem decimalValue_toDigits (n : Nat) : decimalValue (Nat.toDigits 10 n) = n := by
  rw [← ofDigits_eq_decimalValue]
  exact Nat.ofDigitChars_toDigits (by decide) (by decide)

/-- A lexeme that can be written is spelled by its characters. -/
theorem Lexeme.Writable.spelling {l : Lexeme} (hl : l.Writable) :
    (Piece.lexeme l).Spelling l.chars := by
  cases l with
  | number n =>
    cases n with
    | double d => exact hl.elim
    | int n =>
      obtain ⟨hzero, hlimit⟩ := hl
      have hdigits : IsDigits (Nat.toDigits 10 n.toNat) :=
        ⟨Nat.toDigits_ne_nil, fun c hc ↦ Nat.isDigit_of_mem_toDigits (by decide) (by decide) hc⟩
      have hlength : (Nat.toDigits 10 n.toNat).length ≤ digitLimit :=
        (Nat.length_toDigits_le_iff (by decide) (by decide)).2 hlimit
      have hspelling := Piece.Spelling.integer hdigits hlength
      rwa [decimalValue_toDigits, Int.toNat_of_nonneg hzero] at hspelling
  | text t =>
    have hspelling := Piece.Spelling.text hl
    rwa [String.ofList_toList] at hspelling
  | name n =>
    obtain ⟨hhead, hchars, hwords⟩ := hl
    have hname : IsNameLike n.toList := by
      cases hn : n.toList with
      | nil =>
        rw [hn] at hhead
        cases hhead
      | cons c rest =>
        rw [hn] at hhead hchars
        exact ⟨c, rest, rfl, hhead, (List.forall_mem_cons.1 (List.all_eq_true.1 hchars)).2⟩
    have hspelling := Piece.Spelling.name hname fun w hw ↦
      hwords w (by cases w <;> decide) (String.toList_inj.1 hw)
    rwa [String.ofList_toList] at hspelling
  | word w => exact .word w
  | mark m => exact .mark m

/-- Before a blank or the end of the text a lexeme is scanned as itself. -/
theorem Piece.first?_chars {l : Lexeme} (hl : l.Writable) (rest : List Char)
    (hrest : ∀ c ∈ rest.head?, c = ' ') :
    first? (l.chars ++ rest) = some (.lexeme l, l.chars.length) :=
  (hl.spelling.isLongest_append nofun fun c hc ↦ hrest c hc ▸ rfl).first?_eq

/-! ### Lexemes with blanks between them -/

theorem writeOut_singleton (l : Lexeme) : writeOut [l] = l.chars := by
  simp [writeOut, List.intercalate]

theorem writeOut_cons_cons (l next : Lexeme) (more : List Lexeme) :
    writeOut (l :: next :: more) = l.chars ++ ' ' :: writeOut (next :: more) := by
  simp [writeOut, List.intercalate]

/-- The tokens of a text that has been written out are its lexemes. -/
theorem exists_scan_writeOut {ls : List Lexeme} (h : ∀ l ∈ ls, l.Writable) :
    ∃ ts, scan (writeOut ls) = ⟨ts, .finished⟩ ∧ ts.map Token.lexeme = ls := by
  suffices hfrom : ∀ offset, ∃ ts,
      scanFrom 0 offset (writeOut ls) = ⟨ts, .finished⟩ ∧ ts.map Token.lexeme = ls from hfrom 0
  induction ls with
  | nil => exact fun offset ↦ ⟨[], rfl, rfl⟩
  | cons l more ih =>
    intro offset
    have hl := h l List.mem_cons_self
    have hmore := ih fun next hnext ↦ h next (List.mem_cons_of_mem l hnext)
    cases more with
    | nil =>
      have hscan := scanFrom_lexeme offset (Piece.first?_chars hl [] fun c hc ↦ by cases hc)
      rw [List.append_nil, scanFrom] at hscan
      rw [writeOut_singleton, hscan]
      exact ⟨_, rfl, rfl⟩
    | cons next others =>
      obtain ⟨ts, hts, hlexemes⟩ := hmore (offset + l.chars.length + 1)
      have hscan := scanFrom_lexeme offset (Piece.first?_chars hl
        (' ' :: writeOut (next :: others)) fun c hc ↦ by simpa using hc.symm)
      have hblank : ∀ c ∈ [' '], isGapChar c := List.forall_mem_singleton.2 rfl
      rw [← List.singleton_append, scanFrom_blanks _ hblank, List.length_singleton, hts] at hscan
      rw [writeOut_cons_cons, ← List.singleton_append, hscan]
      exact ⟨_, rfl, congrArg (l :: ·) hlexemes⟩

end LateConst
