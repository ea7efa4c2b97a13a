import LateConst.Proofs.Scan.Piece
import LateConst.Proofs.Span

/-!
# A text is tiled by its pieces

A scan lays longest pieces one after another, without anything between them, for as long as some
piece can stand at the next place (`scan_eq_iff_tiling`). So it accounts for every character: what
is not in a token is in a gap, and where the scan ends before the end of the text nothing fits or an
integer is too long (`Tiling.accounts`).
-/

namespace LateConst

/-- A text from some offset on is laid with longest pieces; these are the tokens among them, and
this is how the scan ends. -/
inductive Tiling : Nat → List Char → List Token → Ending → Prop
  | finished {offset : Nat} : Tiling offset [] [] .finished
  | stuck {offset : Nat} {cs : List Char} (hne : cs ≠ [])
      (h : ∀ s piece, s <+: cs → ¬ Piece.Spelling piece s) : Tiling offset cs [] (.stuck offset)
  | oversized {offset : Nat} {s cs : List Char} (h : Piece.oversized.IsLongest s cs) :
      Tiling offset cs [] .oversized
  | gap {offset : Nat} {s rest : List Char} {tokens : List Token} {ending : Ending}
      (h : Piece.gap.IsLongest s (s ++ rest))
      (hrest : Tiling (offset + s.length) rest tokens ending) :
      Tiling offset (s ++ rest) tokens ending
  | lexeme {offset : Nat} {s rest : List Char} {l : Lexeme} {tokens : List Token} {ending : Ending}
      (h : (Piece.lexeme l).IsLongest s (s ++ rest))
      (hrest : Tiling (offset + s.length) rest tokens ending) :
      Tiling offset (s ++ rest) (⟨l, ⟨offset, offset + s.length⟩⟩ :: tokens) ending

/-! ### Steps of a scan -/

section Steps

variable {s rest : List Char}

theorem scanFrom_covered (before rest : List Char) (offset : Nat) :
    scanFrom before.length offset (before ++ rest) =
      scanFrom 0 (offset + before.length) rest := by
  induction before generalizing offset with
  | nil => rfl
  | cons c more ih =>
    rw [List.length_cons, List.cons_append, scanFrom, ih]
    congr 1
    omega

/-- After its first character a piece is passed over. -/
theorem scanFrom_rest {c : Char} (offset : Nat) (hs : s = c :: rest) (after : List Char) :
    scanFrom (s.length - 1) (offset + 1) (rest ++ after) =
      scanFrom 0 (offset + s.length) after := by
  subst hs
  rw [List.length_cons, Nat.add_sub_cancel, scanFrom_covered]
  congr 1
  omega

theorem scanFrom_gap (offset : Nat)
    (h : Piece.first? (s ++ rest) = some (.gap, s.length)) :
    scanFrom 0 offset (s ++ rest) = scanFrom 0 (offset + s.length) rest := by
  obtain ⟨c, more, rfl⟩ := List.exists_cons_of_length_pos (Piece.first?_pos h)
  rw [← scanFrom_rest offset rfl, List.cons_append, scanFrom, ← List.cons_append, h]

theorem scanFrom_lexeme {l : Lexeme} (offset : Nat)
    (h : Piece.first? (s ++ rest) = some (.lexeme l, s.length)) :
    scanFrom 0 offset (s ++ rest) =
      ⟨⟨l, ⟨offset, offset + s.length⟩⟩ :: (scanFrom 0 (offset + s.length) rest).tokens,
        (scanFrom 0 (offset + s.length) rest).ending⟩ := by
  obtain ⟨c, more, rfl⟩ := List.exists_cons_of_length_pos (Piece.first?_pos h)
  rw [← scanFrom_rest offset rfl, List.cons_append, scanFrom, ← List.cons_append, h]

theorem scanFrom_oversized {cs : List Char} {n : Nat} (offset : Nat)
    (h : Piece.first? cs = some (.oversized, n)) : scanFrom 0 offset cs = ⟨[], .oversized⟩ := by
  cases cs with
  | nil => cases h
  | cons c more => rw [scanFrom, h]

theorem scanFrom_stuck {cs : List Char} (offset : Nat) (hne : cs ≠ [])
    (h : Piece.first? cs = none) :
    scanFrom 0 offset cs = ⟨[], .stuck offset⟩ := by
  cases cs with
  | nil => exact (hne rfl).elim
  | cons c more => rw [scanFrom, h]

theorem scanFrom_blank_run (offset : Nat) (hblank : ∀ c ∈ s, isGapChar c)
    (hrest : ∀ c ∈ rest.head?, isGapChar c = false) :
    scanFrom 0 offset (s ++ rest) = scanFrom 0 (offset + s.length) rest := by
  cases s with
  | nil => rfl
  | cons c run =>
    obtain ⟨hc, hrun⟩ := List.forall_mem_cons.1 hblank
    refine scanFrom_gap offset ?_
    rw [List.cons_append, Piece.first?_of_isGapChar _ hc, (takeWhile_run hrun hrest).1,
      List.length_cons, Nat.add_comm]

/-- White space can be passed over in parts. -/
theorem scanFrom_blanks (offset : Nat) (hblank : ∀ c ∈ s, isGapChar c) :
    scanFrom 0 offset (s ++ rest) = scanFrom 0 (offset + s.length) rest := by
  obtain ⟨run, more, rfl, hrun, hmore⟩ := exists_run isGapChar rest
  have hboth : ∀ c ∈ s ++ run, isGapChar c := List.forall_mem_append.2 ⟨hblank, hrun⟩
  rw [← List.append_assoc, scanFrom_blank_run offset hboth hmore, scanFrom_blank_run _ hrun hmore,
    List.length_append, Nat.add_assoc]

end Steps

/-! ### Scans and tilings -/

theorem tiling_scanFrom (offset : Nat) (cs : List Char) :
    Tiling offset cs (scanFrom 0 offset cs).tokens (scanFrom 0 offset cs).ending := by
  induction hlength : cs.length using Nat.strongRecOn generalizing offset cs with
  | ind n ih =>
    cases hfirst : Piece.first? cs with
    | none =>
      cases cs with
      | nil => exact .finished
      | cons c more =>
        rw [scanFrom_stuck offset (List.cons_ne_nil c more) hfirst]
        exact .stuck (List.cons_ne_nil c more) (Piece.first?_eq_none_iff.1 hfirst)
    | some found =>
      obtain ⟨piece, m⟩ := found
      obtain ⟨s, hlongest, rfl⟩ := Piece.first?_eq_some_iff.1 hfirst
      obtain ⟨rest, rfl⟩ := hlongest.initial
      have hpos := Piece.first?_pos hfirst
      have hrest := ih rest.length (by simp at hlength; omega) (offset + s.length) rest rfl
      cases piece with
      | gap =>
        rw [scanFrom_gap offset hfirst]
        exact .gap hlongest hrest
      | lexeme l =>
        rw [scanFrom_lexeme offset hfirst]
        exact .lexeme hlongest hrest
      | oversized =>
        rw [scanFrom_oversized offset hfirst]
        exact .oversized hlongest

theorem Tiling.scanFrom_eq {offset : Nat} {cs : List Char} {tokens : List Token} {ending : Ending}
    (h : Tiling offset cs tokens ending) : scanFrom 0 offset cs = ⟨tokens, ending⟩ := by
  induction h with
  | finished => rfl
  | stuck hne h => exact scanFrom_stuck _ hne (Piece.first?_eq_none_iff.2 h)
  | oversized h => exact scanFrom_oversized _ h.first?_eq
  | gap h _ ih => rw [scanFrom_gap _ h.first?_eq, ih]
  | lexeme h _ ih => rw [scanFrom_lexeme _ h.first?_eq, ih]

/-- A scan is the one way to lay a text with longest pieces. -/
theorem scan_eq_iff_tiling {text : List Char} {scanned : Scan} :
    scan text = scanned ↔ Tiling 0 text scanned.tokens scanned.ending := by
  constructor
  · rintro rfl
    exact tiling_scanFrom 0 text
  · exact fun h ↦ h.scanFrom_eq

/-! ### Stretches of a text -/

namespace Span

def slice (text : List Char) (span : Span) : List Char :=
  (text.drop span.left).take (span.right - span.left)

/-- The spans before, between and after spans that stand in order. -/
def gaps (hi : Nat) : Nat → List Span → List Span
  | lo, [] => [⟨lo, hi⟩]
  | lo, s :: more => ⟨lo, s.left⟩ :: gaps hi s.right more

theorem slice_append {text : List Char} {lo mid hi : Nat} (hlo : lo ≤ mid) (hhi : mid ≤ hi) :
    slice text ⟨lo, hi⟩ = slice text ⟨lo, mid⟩ ++ slice text ⟨mid, hi⟩ := by
  have hlength : hi - lo = (mid - lo) + (hi - mid) := by omega
  have hmid : lo + (mid - lo) = mid := by omega
  rw [slice, slice, slice, hlength, List.take_add, List.drop_drop, hmid]

theorem slice_piece (before s rest : List Char) :
    slice (before ++ (s ++ rest)) ⟨before.length, before.length + s.length⟩ = s := by
  rw [slice, List.drop_left, Nat.add_sub_cancel_left, List.take_left]

/-- Only the first gap depends on where the gaps begin. -/
theorem exists_gaps_eq_cons {lo hi : Nat} {spans : List Span} (h : Between lo hi spans) :
    ∃ mid more, lo ≤ mid ∧ ∀ lo', gaps hi lo' spans = ⟨lo', mid⟩ :: more := by
  cases spans with
  | nil => exact ⟨hi, [], h, fun _ ↦ rfl⟩
  | cons s more => exact ⟨s.left, gaps hi s.right more, h.1, fun _ ↦ rfl⟩

end Span

/-- White space and comments, any number of them. -/
def IsGap (s : List Char) : Prop :=
  ∃ pieces : List (List Char), s = pieces.flatten ∧ ∀ piece ∈ pieces, Piece.gap.Spelling piece

theorem isGap_nil : IsGap [] := ⟨[], rfl, List.forall_mem_nil _⟩

theorem IsGap.cons {piece s : List Char} (hpiece : Piece.gap.Spelling piece) (h : IsGap s) :
    IsGap (piece ++ s) := by
  obtain ⟨pieces, rfl, hpieces⟩ := h
  exact ⟨piece :: pieces, rfl, List.forall_mem_cons.2 ⟨hpiece, hpieces⟩⟩

/-- A scan of a text ends at an offset: at the end of the text, where no piece can stand, or at an
integer that has too many digits. -/
inductive Ending.EndsAt (text : List Char) : Ending → Nat → Prop
  | finished : EndsAt text .finished text.length
  | stuck {offset : Nat} (hlt : offset < text.length)
      (h : ∀ s piece, s <+: text.drop offset → ¬ Piece.Spelling piece s) :
      EndsAt text (.stuck offset) offset
  | oversized {offset : Nat} {s : List Char}
      (h : Piece.oversized.IsLongest s (text.drop offset)) : EndsAt text .oversized offset

/-- The tokens from one offset to another are pieces of the text, and between them are gaps. -/
structure Accounts (text : List Char) (lo hi : Nat) (tokens : List Token) : Prop where
  order : Span.Between lo hi (tokens.map Token.span)
  gaps : ∀ span ∈ Span.gaps hi lo (tokens.map Token.span), IsGap (span.slice text)
  tokens : ∀ token ∈ tokens, (Piece.lexeme token.lexeme).IsLongest (token.span.slice text)
    (text.drop token.span.left)

namespace Accounts

variable {text before s rest : List Char} {hi : Nat} {tokens : List Token}

theorem nil (text : List Char) (offset : Nat) : Accounts text offset offset [] := by
  refine ⟨Nat.le_refl offset, List.forall_mem_singleton.2 ?_, List.forall_mem_nil _⟩
  rw [Span.slice, Nat.sub_self, List.take_zero]
  exact isGap_nil

theorem gap (hgap : Piece.gap.Spelling s)
    (h : Accounts (before ++ (s ++ rest)) (before.length + s.length) hi tokens) :
    Accounts (before ++ (s ++ rest)) before.length hi tokens := by
  obtain ⟨mid, more, hle, heq⟩ := Span.exists_gaps_eq_cons h.order
  have hgaps := h.gaps
  rw [heq, List.forall_mem_cons] at hgaps
  refine ⟨Span.between_mono h.order (Nat.le_add_right _ _) (Nat.le_refl hi), ?_, h.tokens⟩
  rw [heq, List.forall_mem_cons]
  refine ⟨?_, hgaps.2⟩
  rw [Span.slice_append (Nat.le_add_right _ _) hle, Span.slice_piece]
  exact hgaps.1.cons hgap

theorem lexeme {l : Lexeme} (hpos : 0 < s.length) (hl : (Piece.lexeme l).IsLongest s (s ++ rest))
    (h : Accounts (before ++ (s ++ rest)) (before.length + s.length) hi tokens) :
    Accounts (before ++ (s ++ rest)) before.length hi
      (⟨l, ⟨before.length, before.length + s.length⟩⟩ :: tokens) := by
  refine ⟨⟨Nat.le_refl _, Nat.lt_add_of_pos_right hpos, h.order⟩,
    List.forall_mem_cons.2 ⟨?_, h.gaps⟩, List.forall_mem_cons.2 ⟨?_, h.tokens⟩⟩
  · rw [Span.slice, Nat.sub_self, List.take_zero]
    exact isGap_nil
  · rw [Span.slice_piece, List.drop_left]
    exact hl

end Accounts

/-- What is laid with pieces is accounted for, up to where the scan ends. -/
theorem Tiling.accounts {offset : Nat} {cs : List Char} {tokens : List Token} {ending : Ending}
    (h : Tiling offset cs tokens ending) (before : List Char) (hoffset : before.length = offset) :
    ∃ stop, stop ≤ (before ++ cs).length ∧ ending.EndsAt (before ++ cs) stop ∧
      Accounts (before ++ cs) offset stop tokens := by
  induction h generalizing before with
  | @finished offset =>
    subst hoffset
    refine ⟨before.length, by simp, ?_, .nil _ _⟩
    simpa using @Ending.EndsAt.finished before
  | @stuck offset cs hne h =>
    subst hoffset
    have hpos := List.length_pos_iff.2 hne
    refine ⟨before.length, by simp, .stuck (by simp; omega) ?_, .nil _ _⟩
    rwa [List.drop_left]
  | @oversized offset s cs h =>
    subst hoffset
    refine ⟨before.length, by simp, .oversized (s := s) ?_, .nil _ _⟩
    rwa [List.drop_left]
  | @gap offset s rest tokens ending h _ ih =>
    subst hoffset
    obtain ⟨stop, hle, hends, haccounts⟩ := ih (before ++ s) (by simp)
    rw [List.append_assoc] at hle hends haccounts
    exact ⟨stop, hle, hends, haccounts.gap h.spelling⟩
  | @lexeme offset s rest l tokens ending h _ ih =>
    subst hoffset
    obtain ⟨stop, hle, hends, haccounts⟩ := ih (before ++ s) (by simp)
    rw [List.append_assoc] at hle hends haccounts
    exact ⟨stop, hle, hends, haccounts.lexeme (Piece.first?_pos h.first?_eq) h⟩

/-- The tokens of a text stand one after another from its start to its end. -/
theorem between_scan (text : List Char) :
    Span.Between 0 text.length ((scan text).tokens.map Token.span) := by
  obtain ⟨stop, hle, -, haccounts⟩ := (tiling_scanFrom 0 text).accounts [] rfl
  exact Span.between_mono haccounts.order (Nat.le_refl 0) hle

/-- The tokens of a text stand one after another. -/
theorem exists_between_scan (text : List Char) :
    ∃ hi, Span.Between 0 hi ((scan text).tokens.map Token.span) := ⟨_, between_scan text⟩

end LateConst
