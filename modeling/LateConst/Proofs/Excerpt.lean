import LateConst.Text.Source

/-!
# Excerpts point at the right character

The rows of a text are its stretches between line breaks, and `Source.locate` finds the one with a
given character in it: as many line breaks end before that character as there are rows above it
(`Source.isOf_locateIn_rows`). So the row of an excerpt has the right number, and below it the first
caret has as many characters before it as the character that it points at
(`Source.excerpt_points_at_span`).
-/

namespace LateConst

/-- The last character of a line break stands at this offset. -/
def EndsLine (text : List Char) (i : Nat) : Prop :=
  text[i]? = some '\n' ∨ text[i]? = some '\r' ∧ text[i + 1]? ≠ some '\n'

instance (text : List Char) (i : Nat) : Decidable (EndsLine text i) :=
  inferInstanceAs (Decidable (_ ∨ _))

def breaksBefore (text : List Char) (offset : Nat) : Nat :=
  (List.range offset).countP fun i ↦ EndsLine text i

/-- A row reaches from one offset to another: it begins where the text begins or a line break ends,
and it goes on up to the end of the next line break or of the text. -/
structure IsRow (text : List Char) (start stop : Nat) : Prop where
  start_eq : start = 0 ∨ ∃ i, start = i + 1 ∧ EndsLine text i
  stop_eq : stop = text.length ∨ ∃ i, stop = i + 1 ∧ EndsLine text i
  inside : ∀ i, start ≤ i → i + 1 < stop → ¬EndsLine text i

/-! ### The first row -/

theorem endsLine_cons_zero_iff {c : Char} {cs : List Char} :
    EndsLine (c :: cs) 0 ↔ c = '\n' ∨ c = '\r' ∧ ∀ more, cs ≠ '\n' :: more := by
  cases cs <;> simp [EndsLine]

theorem endsLine_cons_succ_iff {c : Char} {cs : List Char} {i : Nat} :
    EndsLine (c :: cs) (i + 1) ↔ EndsLine cs i := Iff.rfl

section Shift

variable {row rest : List Char}

theorem endsLine_append_iff (row rest : List Char) (i : Nat) :
    EndsLine (row ++ rest) (row.length + i) ↔ EndsLine rest i := by
  simp [EndsLine, Nat.add_assoc, List.getElem?_append_right]

theorem breaksBefore_eq_zero {text : List Char} {offset length : Nat} (hoffset : offset < length)
    (hinside : ∀ i, i + 1 < length → ¬EndsLine text i) : breaksBefore text offset = 0 := by
  rw [breaksBefore, List.countP_eq_zero]
  intro i hi
  rw [List.mem_range] at hi
  simpa using hinside i (by omega)

/-- Line breaks after the first row are line breaks of the remaining text. -/
theorem breaksBefore_append (hne : row ≠ [])
    (hinside : ∀ i, i + 1 < row.length → ¬EndsLine (row ++ rest) i)
    (hends : EndsLine (row ++ rest) (row.length - 1)) (offset : Nat) :
    breaksBefore (row ++ rest) (row.length + offset) = breaksBefore rest offset + 1 := by
  have hpos := List.length_pos_iff.2 hne
  -- the row has one line break, and that is at its end
  have hrow : breaksBefore (row ++ rest) row.length = 1 := by
    obtain ⟨n, hn⟩ : ∃ n, row.length = n + 1 := ⟨row.length - 1, by omega⟩
    have hzero := breaksBefore_eq_zero (Nat.sub_lt hpos Nat.one_pos) hinside
    rw [hn, Nat.add_sub_cancel] at hzero hends
    rw [hn, breaksBefore, List.range_succ, List.countP_append, ← breaksBefore, hzero]
    simp [hends]
  rw [breaksBefore, List.range_add, List.countP_append, List.countP_map, ← breaksBefore, hrow,
    Nat.add_comm, breaksBefore]
  congr 2
  funext i
  simp [endsLine_append_iff]

theorem IsRow.append {start stop : Nat} (h : IsRow rest start stop) (hne : row ≠ [])
    (hends : EndsLine (row ++ rest) (row.length - 1)) :
    IsRow (row ++ rest) (row.length + start) (row.length + stop) := by
  have hpos := List.length_pos_iff.2 hne
  refine ⟨.inr ?_, ?_, fun i hi hstop ↦ ?_⟩
  · obtain rfl | ⟨i, rfl, hi⟩ := h.start_eq
    · exact ⟨row.length - 1, by omega, hends⟩
    · exact ⟨row.length + i, by omega, (endsLine_append_iff row rest i).2 hi⟩
  · obtain rfl | ⟨i, rfl, hi⟩ := h.stop_eq
    · exact .inl List.length_append.symm
    · exact .inr ⟨row.length + i, by omega, (endsLine_append_iff row rest i).2 hi⟩
  · obtain ⟨j, rfl⟩ := Nat.exists_eq_add_of_le (show row.length ≤ i by omega)
    rw [endsLine_append_iff]
    exact h.inside j (by omega) (by omega)

end Shift

namespace Source

/-- The rows of a text are the part up to the end of the first line break and the rows of what
follows, or the whole text if it has no line break. -/
theorem exists_rows_eq (text : List Char) : ∃ row more, rows text = row :: more ∧
    (∀ i, i + 1 < row.length → ¬EndsLine text i) ∧
    ((more = [] ∧ text = row) ∨
      ∃ rest, text = row ++ rest ∧ row ≠ [] ∧ more = rows rest ∧
        EndsLine text (row.length - 1)) := by
  fun_induction rows text with
  | case1 => exact ⟨[], [], rfl, by simp, .inl ⟨rfl, rfl⟩⟩
  | case2 cs ih =>
    refine ⟨['\r', '\n'], rows cs, rfl, fun i hi ↦ ?_, .inr ⟨cs, rfl, by simp, rfl, .inl rfl⟩⟩
    obtain rfl : i = 0 := Nat.eq_zero_of_le_zero (Nat.le_of_lt_succ (Nat.lt_of_succ_lt_succ hi))
    simp [EndsLine]
  | case3 c cs hno hbreak ih =>
    refine ⟨[c], rows cs, rfl, fun i hi ↦ ?_, .inr ⟨cs, rfl, by simp, rfl, ?_⟩⟩
    · rw [List.length_singleton] at hi
      omega
    · exact endsLine_cons_zero_iff.2
        (hbreak.symm.imp_right fun hreturn ↦ ⟨hreturn, fun more ↦ hno more hreturn⟩)
  | case4 c cs hno hbreak hnil ih =>
    obtain ⟨row, more, hrows, -⟩ := ih
    rw [hnil] at hrows
    cases hrows
  | case5 c cs hno hbreak row more hrows ih =>
    obtain ⟨row', more', hrows', hinside, hrest⟩ := ih
    obtain ⟨rfl, rfl⟩ := List.cons.inj (hrows.symm.trans hrows')
    refine ⟨c :: row, more, rfl, fun i hi ↦ ?_, ?_⟩
    · cases i with
      | zero =>
        rw [endsLine_cons_zero_iff]
        exact fun h ↦ hbreak (h.symm.imp_left And.left)
      | succ i => exact hinside i (Nat.lt_of_succ_lt_succ hi)
    · obtain ⟨hmore, rfl⟩ | ⟨rest, rfl, hne, hmore, hends⟩ := hrest
      · exact .inl ⟨hmore, rfl⟩
      · obtain ⟨n, hn⟩ : ∃ n, row.length = n + 1 :=
          Nat.exists_eq_succ_of_ne_zero (Nat.ne_of_gt (List.length_pos_iff.2 hne))
        refine .inr ⟨rest, rfl, by simp, hmore, ?_⟩
        rw [hn, Nat.add_sub_cancel] at hends
        rw [List.length_cons, hn, Nat.add_sub_cancel, endsLine_cons_succ_iff]
        exact hends

/-- A position is that of a character of the text: its line is a row of the text with the character
in it, and as many line breaks end before the character as its number says. -/
structure Position.IsOf (position : Position) (text : List Char) (offset : Nat) : Prop where
  line : ∃ before after, text = before ++ position.line ++ after ∧
    before.length + position.column = offset ∧
    IsRow text before.length (before.length + position.line.length)
  column_lt : position.column < position.line.length
  row_eq : position.row = breaksBefore text offset + 1

theorem isOf_first {row rest : List Char} {offset : Nat} (hoffset : offset < row.length)
    (hinside : ∀ i, i + 1 < row.length → ¬EndsLine (row ++ rest) i)
    (hstop : rest = [] ∨ EndsLine (row ++ rest) (row.length - 1)) :
    (⟨1, offset, row⟩ : Position).IsOf (row ++ rest) offset := by
  have hrow : IsRow (row ++ rest) 0 row.length := by
    refine ⟨.inl rfl, ?_, fun i _ ↦ hinside i⟩
    obtain rfl | hends := hstop
    · exact .inl (by rw [List.append_nil])
    · exact .inr ⟨row.length - 1, by omega, hends⟩
  refine ⟨⟨[], rest, rfl, Nat.zero_add _, ?_⟩, hoffset, ?_⟩
  · simpa using hrow
  · rw [breaksBefore_eq_zero hoffset hinside]

theorem Position.IsOf.append {position : Position} {row rest : List Char} {offset : Nat}
    (h : position.IsOf rest offset) (hne : row ≠ [])
    (hinside : ∀ i, i + 1 < row.length → ¬EndsLine (row ++ rest) i)
    (hends : EndsLine (row ++ rest) (row.length - 1)) :
    ({ position with row := position.row + 1 } : Position).IsOf (row ++ rest)
      (row.length + offset) := by
  obtain ⟨before, after, hrest, hcolumn, hrow⟩ := h.line
  refine ⟨⟨row ++ before, after, ?_, ?_, ?_⟩, h.column_lt, ?_⟩
  · rw [List.append_assoc row, List.append_assoc row, ← hrest]
  · rw [List.length_append, Nat.add_assoc, hcolumn]
  · rw [List.length_append, Nat.add_assoc]
    exact hrow.append hne hends
  · rw [breaksBefore_append hne hinside hends, ← h.row_eq]

theorem isOf_locateIn_rows {text : List Char} {offset : Nat} (hoffset : offset < text.length) :
    (locateIn (rows text) offset).IsOf text offset := by
  induction hlength : text.length using Nat.strongRecOn generalizing text offset with
  | ind length ih =>
    subst hlength
    obtain ⟨row, more, hrows, hinside, hrest⟩ := exists_rows_eq text
    rw [hrows]
    obtain ⟨rfl, rfl⟩ | ⟨rest, rfl, hne, rfl, hends⟩ := hrest
    · have hinside' : ∀ i, i + 1 < text.length → ¬EndsLine (text ++ []) i := by
        rwa [List.append_nil]
      have hfirst := isOf_first hoffset hinside' (.inl rfl)
      rwa [List.append_nil] at hfirst
    · obtain ⟨next, others, hnext, -⟩ := exists_rows_eq rest
      have hpos := List.length_pos_iff.2 hne
      rw [hnext, locateIn]
      by_cases hlt : offset < row.length
      · rw [if_pos hlt]
        exact isOf_first hlt hinside (.inr hends)
      · obtain ⟨offset, rfl⟩ := Nat.exists_eq_add_of_le (Nat.le_of_not_lt hlt)
        rw [List.length_append] at hoffset
        rw [if_neg hlt, ← hnext, Nat.add_sub_cancel_left]
        have hmore : (locateIn (rows rest) offset).IsOf rest offset :=
          ih rest.length (by rw [List.length_append]; omega) (by omega) rfl
        exact hmore.append hne hinside hends

/-! ### Margins and trimmed lines -/

/-- The number of a row stands in six columns or more, with a blank before it in any case. -/
theorem margin_eq (row : Nat) : margin row =
    List.replicate (max 1 (6 - (toString row).toList.length)) ' ' ++ (toString row).toList ++
      [' ', '|'] := by
  have hpad : max 1 (6 - (toString row).toList.length) =
      6 - (' ' :: (toString row).toList).length + 1 := by
    rw [List.length_cons]
    omega
  rw [hpad, List.replicate_succ', margin]
  simp

theorem exists_trimBlanks (line : List Char) : ∃ tail, line = trimBlanks line ++ tail ∧
    (∀ c ∈ tail, isBlank c) ∧ ∀ c ∈ (trimBlanks line).getLast?, ¬isBlank c := by
  refine ⟨(line.reverse.takeWhile isBlank).reverse, ?_, fun c hc ↦ ?_, fun c hc ↦ ?_⟩
  · rw [trimBlanks, ← List.reverse_append, List.takeWhile_append_dropWhile, List.reverse_reverse]
  · exact List.all_eq_true.1 List.all_takeWhile c (List.mem_reverse.1 hc)
  · rw [trimBlanks, List.getLast?_reverse] at hc
    have hhead := List.head?_dropWhile_not isBlank line.reverse
    rw [Option.mem_def] at hc
    simpa [hc] using hhead

section Blanked

variable {margin line : List Char} {column : Nat}

theorem length_blanked (hcolumn : column < line.length) :
    (blanked (margin ++ line.take column)).length = margin.length + column := by
  rw [blanked, List.length_map, List.length_append, List.length_take_of_le (Nat.le_of_lt hcolumn)]

/-- What stands below a line has a tab where the line has one, and a blank everywhere else. -/
theorem getElem?_blanked {i : Nat} (hi : i < (blanked (margin ++ line.take column)).length) :
    (blanked (margin ++ line.take column))[i]? =
      some (if (margin ++ line)[i]? = some '\t' then '\t' else ' ') := by
  have hline : (margin ++ line)[i]? = (margin ++ line.take column)[i]? := by
    rw [blanked, List.length_map] at hi
    rw [← List.getElem?_append_left hi, List.append_assoc, List.take_append_drop]
  rw [blanked, List.length_map] at hi
  rw [hline, blanked, List.getElem?_map, List.getElem?_eq_getElem hi]
  simp

end Blanked

/-! ### Excerpts -/

/-- The parts of an excerpt belong to the row from `start` to `stop`, and its carets point at the
span: `margin` and `quoted` stand in the first line, `blanks` and the carets below them. -/
structure PointsAt (text : List Char) (span : Span) (start stop : Nat)
    (margin quoted tail blanks : List Char) (carets : Nat) : Prop where
  row : IsRow text start stop
  start_le : start ≤ span.left
  lt_stop : span.left < stop
  stop_le : stop ≤ text.length
  /-- The row is quoted without the white space at its end. -/
  quotes : (text.take stop).drop start = quoted ++ tail
  isBlank_tail : ∀ c ∈ tail, isBlank c
  not_isBlank_last : ∀ c ∈ quoted.getLast?, ¬isBlank c
  /-- The number of the row is that of the line breaks before the span and one. -/
  number : ∃ digits, digits = (toString (breaksBefore text span.left + 1)).toList ∧
    margin = List.replicate (max 1 (6 - digits.length)) ' ' ++ digits ++ [' ', '|']
  /-- The first caret is as far right as the first character of the span. -/
  length_blanks : blanks.length = margin.length + (span.left - start)
  below : (margin ++ (quoted ++ tail))[blanks.length]? = text[span.left]?
  /-- Before the first caret there is a tab below every tab, and a blank everywhere else. -/
  blanks_eq : ∀ i < blanks.length,
    blanks[i]? = some (if (margin ++ (quoted ++ tail))[i]? = some '\t' then '\t' else ' ')
  carets_pos : 1 ≤ carets
  /-- The carets go on to the end of the span, or of the row with its line break. -/
  carets_eq : carets = min (span.right - span.left) (stop - span.left)

theorem Position.IsOf.pointsAt {position : Position} {text : List Char} {span : Span}
    (h : position.IsOf text span.left) (hspan : span.left < span.right) :
    ∃ start stop tail, PointsAt text span start stop (margin position.row)
      (trimBlanks position.line) tail
      (blanked (margin position.row ++ position.line.take position.column))
      (caretCount position (span.right - span.left)) := by
  obtain ⟨⟨before, after, htext, hleft, hrow⟩, hcolumn, hnumber⟩ := h
  obtain ⟨tail, hline, htail, hlast⟩ := exists_trimBlanks position.line
  have hlength : before.length + position.line.length ≤ text.length := by
    rw [htext, List.length_append, List.length_append]
    exact Nat.le_add_right _ _
  refine ⟨before.length, before.length + position.line.length, tail, ?_⟩
  constructor
  case row => exact hrow
  case start_le | lt_stop => omega
  case stop_le => exact hlength
  case quotes =>
    rw [← hline, htext, List.take_append_of_le_length (by simp), ← List.length_append,
      List.take_length, List.drop_left]
  case isBlank_tail => exact htail
  case not_isBlank_last => exact hlast
  case number => exact ⟨_, rfl, by rw [← hnumber, margin_eq]⟩
  case length_blanks => rw [length_blanked hcolumn, ← hleft, Nat.add_sub_cancel_left]
  case below =>
    rw [← hline, length_blanked hcolumn, ← hleft, htext, List.append_assoc,
      List.getElem?_append_right (Nat.le_add_right _ _),
      List.getElem?_append_right (Nat.le_add_right _ _), Nat.add_sub_cancel_left,
      Nat.add_sub_cancel_left, List.getElem?_append_left hcolumn]
  case blanks_eq =>
    rw [← hline]
    exact fun i ↦ getElem?_blanked
  case carets_pos => exact Nat.le_max_left _ _
  case carets_eq =>
    rw [caretCount]
    omega

/-- An excerpt names and quotes the row where the span begins, and its first caret stands exactly
below the first character of the span. There are as many carets as the span has characters in this
row. -/
theorem excerpt_points_at_span (source : Source) (span : Span) (caption : String)
    (hspan : span.left < span.right) (hright : span.right ≤ source.text.length) :
    ∃ start stop margin quoted tail blanks carets,
      PointsAt source.text span start stop margin quoted tail blanks carets ∧
      source.excerpt span caption = String.ofList (margin ++ quoted ++ '\n' ::
        (blanks ++ List.replicate carets '^' ++ ' ' :: caption.toList)) := by
  have hposition := isOf_locateIn_rows (Nat.lt_of_lt_of_le hspan hright)
  obtain ⟨start, stop, tail, hpoints⟩ := hposition.pointsAt hspan
  exact ⟨start, stop, _, _, tail, _, _, hpoints, rfl⟩

/-- A span of seven characters begins between tabs in the third row, and five of them belong to
this row. -/
theorem excerpt_points_at_span_over_row : ∃ start stop margin quoted tail blanks carets,
    PointsAt "a\r\n\r\tb\tcd \t\ne;".toList ⟨7, 14⟩ start stop margin quoted tail blanks carets ∧
      String.ofList (margin ++ quoted ++ '\n' :: (blanks ++ List.replicate carets '^' ++
        ' ' :: "here".toList)) = "     3 |\tb\tcd\n        \t \t^^^^^ here" := by
  have hexcerpt : (⟨"a\r\n\r\tb\tcd \t\ne;".toList, none⟩ : Source).excerpt ⟨7, 14⟩ "here" =
      "     3 |\tb\tcd\n        \t \t^^^^^ here" := by
    decide +kernel
  obtain ⟨start, stop, margin, quoted, tail, blanks, carets, hpoints, hshown⟩ :=
    excerpt_points_at_span ⟨"a\r\n\r\tb\tcd \t\ne;".toList, none⟩ ⟨7, 14⟩ "here" (by decide)
      (by decide)
  exact ⟨start, stop, margin, quoted, tail, blanks, carets, hpoints, hshown.symm.trans hexcerpt⟩

end Source

end LateConst
