import LateConst.Proofs.Scan.Spelling
import Mathlib.Data.List.TakeWhile

/-!
# Pieces of a text

At every place a scan takes the longest piece that can stand there, and it takes none only if none
can (`Piece.first?_eq_some_iff`, `Piece.first?_eq_none_iff`).
-/

namespace LateConst

/-! ### Runs of characters -/

section Runs

variable {p : Char → Bool} {run rest : List Char}

/-- A text begins with a run of characters of some kind, be it empty, after which comes another
character or none. -/
theorem exists_run (p : Char → Bool) (cs : List Char) : ∃ run rest, cs = run ++ rest ∧
    (∀ c ∈ run, p c) ∧ ∀ c ∈ rest.head?, p c = false := by
  refine ⟨cs.takeWhile p, cs.dropWhile p, List.takeWhile_append_dropWhile.symm,
    fun c hc ↦ List.mem_takeWhile_imp hc, fun c hc ↦ ?_⟩
  have hhead := List.head?_dropWhile_not p cs
  rwa [Option.mem_def.1 hc] at hhead

theorem takeWhile_run (hrun : ∀ c ∈ run, p c) (hrest : ∀ c ∈ rest.head?, p c = false) :
    (run ++ rest).takeWhile p = run ∧ (run ++ rest).dropWhile p = rest := by
  rw [List.takeWhile_append_of_pos hrun, List.dropWhile_append_of_pos hrun]
  cases rest with
  | nil => simp
  | cons c more => simp [hrest c rfl]

end Runs

/-! ### Marks -/

namespace Mark

theorem toList_symbol_cases (m : Mark) :
    (∃ c, m.symbol.toList = [c] ∧ ofChar? c = some m) ∨
      ∃ c d, m.symbol.toList = [c, d] ∧ ofPair? c d = some m := by
  cases m with
  | lessEqual | greaterEqual | equal | notEqual | andAnd | orOr => exact .inr ⟨_, _, rfl, rfl⟩
  | _ => exact .inl ⟨_, rfl, rfl⟩

theorem toList_symbol_of_ofChar? {c : Char} {m : Mark} (h : ofChar? c = some m) :
    m.symbol.toList = [c] := by
  unfold ofChar? at h
  split at h <;> cases h <;> rfl

theorem toList_symbol_of_ofPair? {c d : Char} {m : Mark} (h : ofPair? c d = some m) :
    m.symbol.toList = [c, d] := by
  unfold ofPair? at h
  split at h <;> cases h <;> rfl

end Mark

namespace Piece

/-! ### The first piece of a text -/

theorem spelling_integer {s : List Char} (h : IsDigits s) : (integer s).Spelling s := by
  rw [integer]
  split
  next hle =>
    rw [ofDigits_eq_decimalValue]
    exact .integer h hle
  next hlt => exact .oversized h (Nat.lt_of_not_le hlt)

theorem spelling_decimal {whole fraction : List Char} (hwhole : IsDigits whole)
    (hfraction : IsDigits fraction) :
    (decimal whole fraction).Spelling (whole ++ '.' :: fraction) := by
  rw [decimal, ofDigits_eq_decimalValue]
  exact .decimal hwhole hfraction

/-- Digits are an integer, unless a point and further digits follow. -/
theorem number_run {whole rest : List Char} (hwhole : ∀ c ∈ whole, c.isDigit)
    (hrest : ∀ c ∈ rest.head?, c.isDigit = false) :
    (number (whole ++ rest) = (integer whole, whole.length) ∧
      ∀ fraction more, IsDigits fraction → rest ≠ '.' :: (fraction ++ more)) ∨
    ∃ fraction more, IsDigits fraction ∧ rest = '.' :: (fraction ++ more) ∧
      (∀ c ∈ more.head?, c.isDigit = false) ∧
      number (whole ++ rest) = (decimal whole fraction, whole.length + 1 + fraction.length) := by
  obtain ⟨htake, hdrop⟩ := takeWhile_run hwhole hrest
  unfold number
  simp only [htake, hdrop]
  split
  next after =>
    obtain ⟨fraction, more, rfl, hfraction, hmore⟩ := exists_run Char.isDigit after
    rw [(takeWhile_run hfraction hmore).1]
    cases fraction with
    | nil =>
      refine .inl ⟨rfl, fun fraction' more' ⟨hne, hfraction'⟩ heq ↦ ?_⟩
      obtain ⟨d, others, rfl⟩ := List.exists_cons_of_ne_nil hne
      obtain rfl : more = d :: (others ++ more') := (List.cons.inj heq).2
      have hdigit := hfraction' d List.mem_cons_self
      rw [hmore d rfl] at hdigit
      cases hdigit
    | cons d others =>
      exact .inr ⟨d :: others, more, ⟨List.cons_ne_nil d others, hfraction⟩, rfl, hmore, rfl⟩
  next hpoint => exact .inl ⟨rfl, fun fraction more _ heq ↦ hpoint _ heq⟩

theorem word_run_keyword {rest : List Char} (w : Keyword)
    (hrest : ∀ c ∈ rest.head?, isNameChar c = false) :
    word (w.text.toList ++ rest) = (.lexeme (.word w), w.text.toList.length) := by
  have hsome : Keyword.ofText? w.text = some w := by cases w <;> decide
  simp only [word, (takeWhile_run w.isNameLike_text.isNameChar hrest).1, String.ofList_toList,
    hsome]

theorem word_run_name {s rest : List Char} (h : IsNameLike s)
    (hword : ∀ w : Keyword, w.text.toList ≠ s) (hrest : ∀ c ∈ rest.head?, isNameChar c = false) :
    word (s ++ rest) = (.lexeme (.name (String.ofList s)), s.length) := by
  have hnone : Keyword.ofText? (String.ofList s) = none := by
    refine List.find?_eq_none.2 fun w _ htext ↦ hword w ?_
    rw [beq_iff_eq.1 htext, String.toList_ofList]
  simp only [word, (takeWhile_run h.isNameChar hrest).1, hnone]

section First

variable {c : Char} (cs : List Char)

theorem first?_of_isGapChar (h : isGapChar c) :
    first? (c :: cs) = some (.gap, 1 + (cs.takeWhile isGapChar).length) := by
  rw [first?, if_pos h]

theorem first?_of_isDigits {s : List Char} (h : IsDigits s) :
    first? (s ++ cs) = some (number (s ++ cs)) := by
  obtain ⟨c, rest, rfl⟩ := List.exists_cons_of_ne_nil h.1
  have hdigit := h.2 c List.mem_cons_self
  rw [List.cons_append, first?, if_neg (by rw [isGapChar_of_isDigit hdigit]; decide),
    if_pos hdigit]

theorem first?_of_isNameLike {s : List Char} (h : IsNameLike s) :
    first? (s ++ cs) = some (word (s ++ cs)) := by
  obtain ⟨c, rest, rfl, hstart, -⟩ := h
  rw [List.cons_append, first?, if_neg (by rw [isGapChar_of_isNameStart hstart]; decide),
    if_neg (by rw [isDigit_of_isNameStart hstart]; decide), if_pos hstart]

theorem first?_quote : first? ('"' :: cs) = quoted cs := rfl

theorem first?_comment : first? ('/' :: '/' :: cs) =
    some (.gap, 1 + (('/' :: cs).takeWhile (!endsComment ·)).length) := rfl

/-- What is no gap, number, word or text is a mark. -/
theorem first?_of_mark (h : (Mark.ofChar? c).isSome ∨ c = '&' ∨ c = '|')
    (hcomment : ¬ (c = '/' ∧ cs.head? = some '/')) : first? (c :: cs) = mark c cs := by
  have hplain : isGapChar c = false ∧ c.isDigit = false ∧ isNameStart c = false ∧ c ≠ '"' := by
    obtain h | rfl | rfl := h
    · obtain ⟨m, hm⟩ := Option.isSome_iff_exists.1 h
      unfold Mark.ofChar? at hm
      split at hm <;> cases hm <;> decide
    · decide
    · decide
  obtain ⟨hgap, hdigit, hname, hquote⟩ := hplain
  rw [first?, if_neg (by rw [hgap]; decide), if_neg (by rw [hdigit]; decide),
    if_neg (by rw [hname]; decide), if_neg hquote, if_neg hcomment]

end First

/-- A piece takes characters from the beginning of a text that spell it. -/
def Takes (cs : List Char) (piece : Piece) (n : Nat) : Prop :=
  ∃ s rest, cs = s ++ rest ∧ s.length = n ∧ piece.Spelling s

section Taking

variable {c : Char} {cs : List Char} {piece : Piece} {n : Nat}

theorem takes_blanks (hgap : isGapChar c) :
    Takes (c :: cs) .gap (1 + (cs.takeWhile isGapChar).length) := by
  obtain ⟨run, rest, rfl, hrun, hrest⟩ := exists_run isGapChar cs
  rw [(takeWhile_run hrun hrest).1]
  refine ⟨c :: run, rest, rfl, by rw [List.length_cons, Nat.add_comm], ?_⟩
  exact .blanks (List.cons_ne_nil c run) (List.forall_mem_cons.2 ⟨hgap, hrun⟩)

theorem takes_number (hdigit : c.isDigit) :
    Takes (c :: cs) (number (c :: cs)).1 (number (c :: cs)).2 := by
  obtain ⟨run, rest, rfl, hrun, hrest⟩ := exists_run Char.isDigit cs
  have hwhole : IsDigits (c :: run) :=
    ⟨List.cons_ne_nil c run, List.forall_mem_cons.2 ⟨hdigit, hrun⟩⟩
  rw [← List.cons_append]
  obtain ⟨hinteger, -⟩ | ⟨fraction, more, hfraction, rfl, -, hdecimal⟩ :=
    number_run hwhole.2 hrest
  · rw [hinteger]
    exact ⟨_, rest, rfl, rfl, spelling_integer hwhole⟩
  · rw [hdecimal]
    refine ⟨c :: run ++ '.' :: fraction, more, ?_, ?_, spelling_decimal hwhole hfraction⟩
    · simp
    · simp only [List.length_append, List.length_cons]
      omega

theorem takes_word (hstart : isNameStart c) :
    Takes (c :: cs) (word (c :: cs)).1 (word (c :: cs)).2 := by
  obtain ⟨run, rest, rfl, hrun, hrest⟩ := exists_run isNameChar cs
  have hname : IsNameLike (c :: run) := ⟨c, run, rfl, hstart, hrun⟩
  refine ⟨c :: run, rest, rfl, ?_⟩
  rw [← List.cons_append]
  by_cases hkeyword : ∃ w : Keyword, w.text.toList = c :: run
  · obtain ⟨w, hw⟩ := hkeyword
    rw [← hw, word_run_keyword w hrest]
    exact ⟨rfl, .word w⟩
  · have hword := not_exists.1 hkeyword
    rw [word_run_name hname hword hrest]
    exact ⟨rfl, .name hname hword⟩

theorem takes_quoted (h : quoted cs = some (piece, n)) : Takes ('"' :: cs) piece n := by
  obtain ⟨inner, rest, rfl, hinner, hrest⟩ := exists_run (· ≠ '"') cs
  unfold quoted at h
  simp only [(takeWhile_run hinner hrest).1] at h
  split at h
  next hlt =>
    cases h
    cases rest with
    | nil => simp at hlt
    | cons d rest =>
      obtain rfl : d = '"' := by simpa using hrest d rfl
      refine ⟨'"' :: (inner ++ ['"']), rest, by simp, by simp, .text fun hmem ↦ ?_⟩
      simpa using hinner _ hmem
  · cases h

theorem takes_comment :
    Takes ('/' :: '/' :: cs) .gap (1 + (('/' :: cs).takeWhile (!endsComment ·)).length) := by
  obtain ⟨run, rest, rfl, hrun, hrest⟩ := exists_run (!endsComment ·) cs
  have hslash : ∀ c ∈ '/' :: run, !endsComment c := List.forall_mem_cons.2 ⟨rfl, hrun⟩
  rw [← List.cons_append, (takeWhile_run hslash hrest).1]
  exact ⟨'/' :: '/' :: run, rest, rfl, by simp [Nat.add_comm], .comment hrun⟩

theorem takes_mark (h : mark c cs = some (piece, n)) : Takes (c :: cs) piece n := by
  unfold mark at h
  split at h
  next pair hpair =>
    cases h
    obtain ⟨d, hhead, hpair⟩ := Option.bind_eq_some_iff.1 hpair
    obtain ⟨rest, rfl⟩ := List.head?_eq_some_iff.1 hhead
    have hsymbol := Mark.toList_symbol_of_ofPair? hpair
    exact ⟨pair.symbol.toList, rest, by rw [hsymbol]; rfl, by rw [hsymbol]; rfl, .mark pair⟩
  next hnone =>
    obtain ⟨single, hsingle, hpiece⟩ := Option.map_eq_some_iff.1 h
    cases hpiece
    have hsymbol := Mark.toList_symbol_of_ofChar? hsingle
    exact ⟨single.symbol.toList, cs, by rw [hsymbol]; rfl, by rw [hsymbol]; rfl, .mark single⟩

/-- The first piece of a text is spelled by the characters that it takes. -/
theorem takes_of_first? (h : first? cs = some (piece, n)) : Takes cs piece n := by
  cases cs with
  | nil => cases h
  | cons c cs =>
    unfold first? at h
    dsimp only at h
    split at h
    next hgap =>
      cases h
      exact takes_blanks hgap
    split at h
    next hdigit =>
      rw [Option.some.injEq, Prod.ext_iff] at h
      obtain ⟨rfl, rfl⟩ := h
      exact takes_number hdigit
    split at h
    next hstart =>
      rw [Option.some.injEq, Prod.ext_iff] at h
      obtain ⟨rfl, rfl⟩ := h
      exact takes_word hstart
    split at h
    next hquote =>
      subst hquote
      exact takes_quoted h
    split at h
    next hcomment =>
      obtain ⟨rfl, hhead⟩ := hcomment
      obtain ⟨cs, rfl⟩ := List.head?_eq_some_iff.1 hhead
      cases h
      exact takes_comment
    · exact takes_mark h

/-- A piece of text has at least one character. -/
theorem first?_pos (h : first? cs = some (piece, n)) : 0 < n := by
  obtain ⟨s, rest, -, rfl, hspelling⟩ := takes_of_first? h
  exact List.length_pos_iff.2 hspelling.ne_nil

end Taking

/-- What has been found is a piece of some length or a longer one. -/
inductive Reaches (piece : Piece) (n : Nat) : Option (Piece × Nat) → Prop
  | same : Reaches piece n (some (piece, n))
  | longer {other : Piece} {m : Nat} (h : n < m) : Reaches piece n (some (other, m))

theorem reaches_of_le {piece other : Piece} {n m : Nat} (hle : n ≤ m)
    (heq : m = n → other = piece) : Reaches piece n (some (other, m)) := by
  obtain rfl | hlt := Nat.eq_or_lt_of_le hle
  · exact heq rfl ▸ .same
  · exact .longer hlt

theorem reaches_integer {s : List Char} (h : IsDigits s) (cs : List Char) :
    Reaches (integer s) s.length (first? (s ++ cs)) := by
  obtain ⟨run, rest, rfl, hrun, hrest⟩ := exists_run Char.isDigit cs
  have hwhole : ∀ c ∈ s ++ run, c.isDigit := List.forall_mem_append.2 ⟨h.2, hrun⟩
  rw [first?_of_isDigits _ h, ← List.append_assoc]
  obtain ⟨hinteger, -⟩ | ⟨fraction, others, -, -, -, hdecimal⟩ := number_run hwhole hrest
  · rw [hinteger]
    refine reaches_of_le (by simp) fun hlength ↦ ?_
    obtain rfl : run = [] := by simpa using hlength
    rw [List.append_nil]
  · rw [hdecimal]
    exact .longer (by simp; omega)

theorem reaches_decimal {whole fraction : List Char} (hwhole : IsDigits whole)
    (hfraction : IsDigits fraction) (cs : List Char) :
    Reaches (decimal whole fraction) (whole ++ '.' :: fraction).length
      (first? (whole ++ '.' :: fraction ++ cs)) := by
  obtain ⟨run, rest, rfl, hrun, hrest⟩ := exists_run Char.isDigit cs
  have hafter : IsDigits (fraction ++ run) := by
    refine ⟨fun h ↦ hfraction.1 (List.append_eq_nil_iff.1 h).1, ?_⟩
    exact List.forall_mem_append.2 ⟨hfraction.2, hrun⟩
  have hpoint : ∀ c ∈ ('.' :: (fraction ++ run ++ rest)).head?, c.isDigit = false := by
    simp
  rw [List.append_assoc, List.cons_append, first?_of_isDigits _ hwhole, ← List.append_assoc]
  obtain ⟨-, hnone⟩ | ⟨fraction', others, hfraction', heq, hothers, hdecimal⟩ :=
    number_run hwhole.2 hpoint
  · exact (hnone _ _ hafter rfl).elim
  · obtain ⟨rfl, rfl⟩ : fraction' = fraction ++ run ∧ others = rest := by
      have htake := takeWhile_run hafter.2 hrest
      rw [(List.cons.inj heq).2] at htake
      have htake' := takeWhile_run hfraction'.2 hothers
      exact ⟨htake'.1.symm.trans htake.1, htake'.2.symm.trans htake.2⟩
    rw [hdecimal]
    refine reaches_of_le (by simp; omega) fun hlength ↦ ?_
    obtain rfl : run = [] := by
      refine List.eq_nil_of_length_eq_zero ?_
      simp only [List.length_append, List.length_cons] at hlength
      omega
    rw [List.append_nil]

theorem reaches_word {s : List Char} {piece : Piece} (h : IsNameLike s) (cs : List Char)
    (hpiece : ∀ rest : List Char, (∀ c ∈ rest.head?, isNameChar c = false) →
      word (s ++ rest) = (piece, s.length)) : Reaches piece s.length (first? (s ++ cs)) := by
  obtain ⟨run, rest, rfl, hrun, hrest⟩ := exists_run isNameChar cs
  cases run with
  | nil =>
    rw [List.nil_append, first?_of_isNameLike _ h, hpiece rest hrest]
    exact .same
  | cons c run =>
    have hlong : IsNameLike (s ++ c :: run) := h.append hrun
    rw [← List.append_assoc, first?_of_isNameLike _ hlong, word]
    simp only [(takeWhile_run hlong.isNameChar hrest).1]
    split <;> exact .longer (by simp)

/-- Where a piece can stand, it is found or a longer one is. -/
theorem reaches_first?_of_spelling {s : List Char} {piece : Piece} (h : piece.Spelling s)
    (cs : List Char) : Reaches piece s.length (first? (s ++ cs)) := by
  cases h with
  | @blanks s hne hblank =>
    obtain ⟨c, run, rfl⟩ := List.exists_cons_of_ne_nil hne
    obtain ⟨hc, hrun⟩ := List.forall_mem_cons.1 hblank
    rw [List.cons_append, first?_of_isGapChar _ hc, List.takeWhile_append_of_pos hrun]
    exact reaches_of_le (by simp; omega) fun _ ↦ rfl
  | @comment s h =>
    have hslash : ∀ c ∈ '/' :: s, !endsComment c := List.forall_mem_cons.2 ⟨rfl, h⟩
    rw [List.cons_append, List.cons_append, first?_comment, ← List.cons_append,
      List.takeWhile_append_of_pos hslash]
    exact reaches_of_le (by simp; omega) fun _ ↦ rfl
  | integer h hlength =>
    have hreaches := reaches_integer h cs
    rwa [integer, if_pos hlength, ofDigits_eq_decimalValue] at hreaches
  | oversized h hlength =>
    have hreaches := reaches_integer h cs
    rwa [integer, if_neg (Nat.not_le_of_lt hlength)] at hreaches
  | decimal hwhole hfraction =>
    have hreaches := reaches_decimal hwhole hfraction cs
    rwa [decimal, ofDigits_eq_decimalValue] at hreaches
  | @text inner h =>
    have hinner : ∀ c ∈ inner, decide (c ≠ '"') := fun c hc ↦
      decide_eq_true fun heq ↦ h (heq ▸ hc)
    have hquoted : quoted (inner ++ '"' :: cs) =
        some (.lexeme (.text (String.ofList inner)), inner.length + 2) := by
      rw [quoted, (takeWhile_run hinner (by simp)).1]
      simp
    have happend : '"' :: (inner ++ ['"']) ++ cs = '"' :: (inner ++ '"' :: cs) := by simp
    rw [happend, first?_quote, hquoted]
    exact reaches_of_le (by simp) fun _ ↦ rfl
  | word w => exact reaches_word w.isNameLike_text cs fun _ hrest ↦ word_run_keyword w hrest
  | name h hword => exact reaches_word h cs fun _ hrest ↦ word_run_name h hword hrest
  | mark m =>
    obtain ⟨c, hsymbol, hchar⟩ | ⟨c, d, hsymbol, hpair⟩ := m.toList_symbol_cases
    · rw [hsymbol]
      by_cases hcomment : c = '/' ∧ cs.head? = some '/'
      · obtain ⟨rfl, hhead⟩ := hcomment
        obtain ⟨rest, rfl⟩ := List.head?_eq_some_iff.1 hhead
        rw [List.singleton_append, first?_comment, List.takeWhile_cons_of_pos rfl]
        exact .longer (by simp)
      · rw [List.singleton_append, first?_of_mark _ (.inl (hchar ▸ rfl)) hcomment, mark]
        split
        · exact .longer (by simp)
        · rw [hchar]
          exact .same
    · have hfirst : first? (c :: d :: cs) = some (.lexeme (.mark m), 2) := by
        unfold Mark.ofPair? at hpair
        split at hpair <;> cases hpair <;> rfl
      rw [hsymbol, List.cons_append, List.singleton_append, hfirst]
      exact .same

/-! ### The longest piece -/

variable {cs : List Char} {piece : Piece}

/-- A scan finds the longest piece that can stand at the beginning of a text. -/
theorem first?_eq_some_iff {n : Nat} :
    first? cs = some (piece, n) ↔ ∃ s, piece.IsLongest s cs ∧ s.length = n := by
  constructor
  · intro h
    obtain ⟨s, rest, rfl, rfl, hspelling⟩ := takes_of_first? h
    refine ⟨s, ⟨hspelling, List.prefix_append s rest, ?_⟩, rfl⟩
    rintro t other ⟨more, hmore⟩ hother
    have hreaches := reaches_first?_of_spelling hother more
    rw [hmore, h] at hreaches
    generalize t.length = m at hreaches ⊢
    cases hreaches with
    | same => exact Nat.le_refl _
    | longer hlt => exact Nat.le_of_lt hlt
  · rintro ⟨s, ⟨hspelling, ⟨rest, rfl⟩, hlongest⟩, rfl⟩
    have hreaches := reaches_first?_of_spelling hspelling rest
    generalize hfirst : first? (s ++ rest) = found at hreaches
    cases hreaches with
    | same => rfl
    | longer hlt =>
      obtain ⟨t, more, heq, rfl, hother⟩ := takes_of_first? hfirst
      have hle := hlongest t _ ⟨more, heq.symm⟩ hother
      omega

/-- A scan finds nothing where nothing can stand. -/
theorem first?_eq_none_iff :
    first? cs = none ↔ ∀ s piece, s <+: cs → ¬ Spelling piece s := by
  constructor
  · rintro h s piece ⟨rest, rfl⟩ hspelling
    have hreaches := reaches_first?_of_spelling hspelling rest
    rw [h] at hreaches
    cases hreaches
  · intro h
    refine Option.eq_none_iff_forall_ne_some.2 fun ⟨piece, n⟩ hfirst ↦ ?_
    obtain ⟨s, rest, rfl, -, hspelling⟩ := takes_of_first? hfirst
    exact h s piece (List.prefix_append s rest) hspelling

theorem IsLongest.first?_eq {s : List Char} (h : piece.IsLongest s cs) :
    first? cs = some (piece, s.length) :=
  first?_eq_some_iff.2 ⟨s, h, rfl⟩

end Piece

end LateConst
