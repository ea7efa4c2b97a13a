import LateConst.Proofs.Reading.Outcome
import LateConst.Proofs.Scan.Tiling

/-!
# What a scan accounts for

The characters of a text are all in tokens or in the gaps between them, up to where the scan ends,
and if no piece can stand there a reader is told so (`scan_accounts_for_characters`).
-/

namespace LateConst

/-- A scan that gets stuck makes for a confusion about the character where it did, or about a token
before that already does not fit. -/
theorem Scan.exists_confused_of_stuck {scan : Scan} {offset : Nat}
    (hending : scan.ending = .stuck offset) : ∃ confusion, scan.read = .confused confusion ∧
      (confusion.span? = some ⟨offset, offset + 1⟩ ∨
        ∃ before token after, scan.tokens = before ++ token :: after ∧
          ¬StartsProgramText (before ++ [token]) ∧ confusion.span? = some token.span) := by
  obtain ⟨-, -, hfinished, -⟩ | ⟨-, hoversized, -⟩ | ⟨confusion, hread, htrouble, -⟩ :=
    scan.read_cases
  · rw [hfinished] at hending
    cases hending
  · rw [hoversized] at hending
    cases hending
  · refine ⟨confusion, hread, ?_⟩
    generalize confusion.span? = span at htrouble
    cases htrouble with
    | token htokens _ htoken => exact .inr ⟨_, _, _, htokens, htoken, rfl⟩
    | character hstuck _ =>
      obtain rfl := Ending.stuck.inj (hending.symm.trans hstuck)
      exact .inl rfl
    | ending hfinished _ _ =>
      rw [hfinished] at hending
      cases hending

/-- Every character of a text is in a token or in a gap, up to where the scan ends. Each token is
the longest piece that can stand where it begins, and is worth what its characters spell; a gap is
nothing but white space and comments. The scan ends at the end of the text; or where no piece can
stand, and that character is reported unless a token before is; or at an integer that is too long to
be read. There is no other way to lay the text with longest pieces. -/
theorem scan_accounts_for_characters (text : List Char) :
    (∃ stop, stop ≤ text.length ∧ (scan text).ending.EndsAt text stop ∧
      Accounts text 0 stop (scan text).tokens) ∧
    (∀ offset, (scan text).ending = .stuck offset →
      ∃ confusion, Program.read text = .confused confusion ∧
        (confusion.span? = some ⟨offset, offset + 1⟩ ∨
          ∃ before token after, (scan text).tokens = before ++ token :: after ∧
            ¬StartsProgramText (before ++ [token]) ∧ confusion.span? = some token.span)) ∧
    ∀ tokens ending, Tiling 0 text tokens ending ↔ scan text = ⟨tokens, ending⟩ := by
  refine ⟨?_, fun offset hending ↦ Scan.exists_confused_of_stuck hending, fun tokens ending ↦ ?_⟩
  · exact (tiling_scanFrom 0 text).accounts [] rfl
  · exact (@scan_eq_iff_tiling text ⟨tokens, ending⟩).symm

end LateConst
