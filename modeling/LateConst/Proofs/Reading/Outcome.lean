import LateConst.Notice
import LateConst.Proofs.Grammar.Phrase
import LateConst.Proofs.Reading.Complete
import LateConst.Proofs.Reading.Viable

/-!
# What comes of reading a text

Reading accepts exactly the words of the grammar. Any other text is refused at its leftmost
trouble: the first token with which the tokens so far are no longer the beginning of a word, or,
if there is none, the character at which the scan got stuck, or else the end of the text.
-/

namespace LateConst

/-- The kinds of the tokens form a word of the grammar. -/
def IsProgramText (ts : List Token) : Prop := ts.map Token.terminal ∈ grammar.language

/-- The kinds of the tokens are the beginning of a word of the grammar. -/
def StartsProgramText (ts : List Token) : Prop :=
  ∃ more, ts.map Token.terminal ++ more ∈ grammar.language

/-- Where the leftmost trouble of a scanned text is. Since the beginning of a beginning is a
beginning, at most one token is the first that does not fit. -/
inductive Scan.TroubleAt (scan : Scan) : Option Span → Prop
  | token {before after : List Token} {token : Token}
      (htokens : scan.tokens = before ++ token :: after) (hbefore : StartsProgramText before)
      (htoken : ¬StartsProgramText (before ++ [token])) : scan.TroubleAt (some token.span)
  | character {offset : Nat} (hending : scan.ending = .stuck offset)
      (htokens : StartsProgramText scan.tokens) : scan.TroubleAt (some ⟨offset, offset + 1⟩)
  | ending (hending : scan.ending = .finished) (htokens : StartsProgramText scan.tokens)
      (hword : ¬IsProgramText scan.tokens) : scan.TroubleAt none

/-! ### Words and their beginnings -/

theorem writes_program_iff {ts : List Token} :
    Nonterminal.program.Writes ts ↔ IsProgramText ts := by
  simp only [IsProgramText, ContextFreeGrammar.mem_language_iff, List.map_map]
  rfl

theorem isProgramText_of_text {program : Program} {ts : List Token}
    (h : Phrase.Text (.stmts program) ts) : IsProgramText ts :=
  writes_program_iff.1 (Nonterminal.writes_of_spells (by simp [Nonterminal.alternatives])
    (.last (isWord_of_text h)))

theorem startsProgramText_of_viable {ts : List Token} (h : Viable ts) : StartsProgramText ts := by
  obtain ⟨program, us, hprogram⟩ := h
  have hword := isProgramText_of_text hprogram
  rw [IsProgramText, List.map_append] at hword
  exact ⟨_, hword⟩

theorem exists_token (a : Terminal) : ∃ token : Token, token.terminal = a := by
  cases a with
  | number => exact ⟨⟨.number (.int 0), default⟩, rfl⟩
  | text => exact ⟨⟨.text "", default⟩, rfl⟩
  | name => exact ⟨⟨.name "", default⟩, rfl⟩
  | word w => exact ⟨⟨.word w, default⟩, rfl⟩
  | mark m => exact ⟨⟨.mark m, default⟩, rfl⟩

/-- What completes a beginning can be written with tokens. -/
theorem exists_isProgramText_append {ts : List Token} (h : StartsProgramText ts) :
    ∃ us, IsProgramText (ts ++ us) := by
  obtain ⟨more, hmore⟩ := h
  choose token htoken using exists_token
  refine ⟨more.map token, ?_⟩
  have hkinds : (more.map token).map Token.terminal = more := by simp [Function.comp_def, htoken]
  rwa [IsProgramText, List.map_append, hkinds]

namespace Reading

theorem exists_last_of_isProgramText {ts : List Token} (h : IsProgramText ts) :
    ∃ last program, ts.foldlM feed start = .ok last ∧ last.finish = some program := by
  obtain ⟨last, hlast, hfinish⟩ := accepts_of_writes (writes_program_iff.2 h)
  obtain ⟨program, hprogram⟩ := Option.isSome_iff_exists.1 hfinish
  exact ⟨last, program, hlast, hprogram⟩

/-- The tokens that have been read are the beginning of a word. -/
theorem startsProgramText_of_foldlM {reading : Reading} {ts : List Token}
    (h : ts.foldlM feed start = .ok reading) : StartsProgramText ts := by
  have htext : reading.Text ts := by simpa using text_foldlM text_start h
  exact startsProgramText_of_viable (viable htext)

/-- A refusal is about one token, after all tokens before it have been taken. -/
theorem exists_refused_of_foldlM {reading : Reading} {ts : List Token} {confusion : Confusion}
    (h : ts.foldlM feed reading = .error confusion) :
    ∃ before token after last recognised, ts = before ++ token :: after ∧
      before.foldlM feed reading = .ok last ∧ last.feed token = .error confusion ∧
      confusion = .unexpected recognised token := by
  induction ts generalizing reading with
  | nil => cases h
  | cons token more ih =>
    rw [List.foldlM_cons] at h
    cases hfeed : reading.feed token with
    | error refusal =>
      rw [hfeed] at h
      obtain rfl : refusal = confusion := Except.error.inj h
      obtain ⟨recognised, hconfusion⟩ : ∃ recognised, refusal = .unexpected recognised token := by
        unfold feed at hfeed
        dsimp only at hfeed
        split at hfeed
        · cases hfeed
        · exact ⟨_, (Except.error.inj hfeed).symm⟩
      exact ⟨[], token, more, reading, recognised, rfl, rfl, hfeed, hconfusion⟩
    | ok next =>
      rw [hfeed] at h
      obtain ⟨before, refused, after, last, recognised, rfl, hbefore, hrefused, hconfusion⟩ := ih h
      refine ⟨token :: before, refused, after, last, recognised, rfl, ?_, hrefused, hconfusion⟩
      rw [List.foldlM_cons, hfeed]
      exact hbefore

/-- With the token that is refused the tokens are no longer the beginning of a word. -/
theorem not_startsProgramText_of_feed {last : Reading} {before : List Token} {token : Token}
    {confusion : Confusion} (hbefore : before.foldlM feed start = .ok last)
    (hrefused : last.feed token = .error confusion) :
    ¬StartsProgramText (before ++ [token]) := by
  intro hstarts
  obtain ⟨more, hword⟩ := exists_isProgramText_append hstarts
  obtain ⟨reading, program, hreading, -⟩ := exists_last_of_isProgramText hword
  rw [List.append_assoc, List.foldlM_append, hbefore] at hreading
  change ([token] ++ more).foldlM feed last = .ok reading at hreading
  rw [List.singleton_append, List.foldlM_cons, hrefused] at hreading
  cases hreading

end Reading

/-! ### The outcome -/

/-- A text that is not read as a program adds one notice to a bulletin, full or not. -/
theorem Bulletin.notices_confused (b : Bulletin) (span : Option Span) (words : String) :
    ∃ posted, (b.confused span words = .ok posted ∨ b.confused span words = .error posted) ∧
      posted.notices = b.notices ++ [⟨"Belated got confused by the syntax here.",
        [b.excerpt span "confused here"], [words]⟩] := by
  unfold confused post
  dsimp only
  split
  · exact ⟨_, .inr rfl, rfl⟩
  · exact ⟨_, .inl rfl, rfl⟩

namespace Scan

theorem read_of_isProgramText {scan : Scan} (hending : scan.ending = .finished)
    (hword : IsProgramText scan.tokens) : ∃ program, scan.read = .program program := by
  obtain ⟨last, program, hlast, hfinish⟩ := Reading.exists_last_of_isProgramText hword
  refine ⟨program, ?_⟩
  rw [read, hlast]
  dsimp only
  rw [hending]
  dsimp only
  rw [hfinish]

/-- The outcome of reading, by what the scan and the readings come to. -/
theorem read_cases (scan : Scan) :
    (∃ program, scan.read = .program program ∧ scan.ending = .finished ∧
      IsProgramText scan.tokens) ∨
    (scan.read = .crashed .tooManyDigits ∧ scan.ending = .oversized ∧
      StartsProgramText scan.tokens) ∨
    ∃ confusion, scan.read = .confused confusion ∧ scan.TroubleAt confusion.span? ∧
      (confusion.span? = none → confusion = .unfinished) := by
  cases hfold : scan.tokens.foldlM Reading.feed Reading.start with
  | error confusion =>
    have hread : scan.read = .confused confusion := by rw [read, hfold]
    obtain ⟨before, token, after, last, recognised, htokens, hbefore, hrefused, rfl⟩ :=
      Reading.exists_refused_of_foldlM hfold
    have htrouble : scan.TroubleAt (some token.span) :=
      .token htokens (Reading.startsProgramText_of_foldlM hbefore)
        (Reading.not_startsProgramText_of_feed hbefore hrefused)
    exact .inr (.inr ⟨_, hread, htrouble, fun h ↦ by cases h⟩)
  | ok reading =>
    have hstarts := Reading.startsProgramText_of_foldlM hfold
    cases hending : scan.ending with
    | stuck offset =>
      have hread : scan.read = .confused (.strayCharacter offset) := by simp [read, hfold, hending]
      exact .inr (.inr ⟨_, hread, .character hending hstarts, fun h ↦ by cases h⟩)
    | oversized =>
      have hread : scan.read = .crashed .tooManyDigits := by simp [read, hfold, hending]
      exact .inr (.inl ⟨hread, rfl, hstarts⟩)
    | finished =>
      cases hfinish : reading.finish with
      | some program =>
        have hread : scan.read = .program program := by simp [read, hfold, hending, hfinish]
        exact .inl ⟨program, hread, rfl, isProgramText_of_text (text_of_read hread)⟩
      | none =>
        have hread : scan.read = .confused .unfinished := by simp [read, hfold, hending, hfinish]
        have hword : ¬IsProgramText scan.tokens := by
          intro hword
          obtain ⟨last, program, hlast, hprogram⟩ := Reading.exists_last_of_isProgramText hword
          obtain rfl : reading = last := Except.ok.inj (hfold.symm.trans hlast)
          rw [hfinish] at hprogram
          cases hprogram
        exact .inr (.inr ⟨_, hread, .ending hending hstarts hword, fun _ ↦ rfl⟩)

end Scan

/-- A text is read as a program if and only if it is scanned to its end and its tokens form a word
of the grammar. Otherwise one notice is made of it, which is about the leftmost trouble. The
exception is an integer literal that is too long to be read, before which all is well. -/
theorem Program.read_program_iff_and_confused_at_trouble (text : List Char) :
    ((∃ program, Program.read text = .program program) ↔
      (scan text).ending = .finished ∧ IsProgramText (scan text).tokens) ∧
    ((∃ program, Program.read text = .program program) ∨
      (Program.read text = .crashed .tooManyDigits ∧ (scan text).ending = .oversized ∧
        StartsProgramText (scan text).tokens) ∨
      ∃ confusion, Program.read text = .confused confusion ∧
        (scan text).TroubleAt confusion.span? ∧
        (confusion.span? = none → confusion.words =
          "The text ends in the middle of something. Is a '\x7d' or ';' missing?") ∧
        ∀ b : Bulletin, ∃ posted,
          (b.confused confusion.span? confusion.words = .ok posted ∨
            b.confused confusion.span? confusion.words = .error posted) ∧
          posted.notices = b.notices ++ [⟨"Belated got confused by the syntax here.",
            [b.excerpt confusion.span? "confused here"], [confusion.words]⟩]) := by
  obtain ⟨program, hread, hending, hword⟩ | ⟨hread, hending, hstarts⟩ |
    ⟨confusion, hread, htrouble, hwords⟩ := (scan text).read_cases
  · exact ⟨⟨fun _ ↦ ⟨hending, hword⟩, fun _ ↦ ⟨program, hread⟩⟩, .inl ⟨program, hread⟩⟩
  · refine ⟨⟨fun ⟨program, h⟩ ↦ ?_, fun ⟨h, _⟩ ↦ ?_⟩, .inr (.inl ⟨hread, hending, hstarts⟩)⟩
    · rw [Program.read, hread] at h
      cases h
    · rw [hending] at h
      cases h
  · refine ⟨⟨fun ⟨program, h⟩ ↦ ?_, fun ⟨h, hword⟩ ↦ Scan.read_of_isProgramText h hword⟩,
      .inr (.inr ⟨confusion, hread, htrouble, fun h ↦ ?_, fun b ↦ b.notices_confused _ _⟩)⟩
    · rw [Program.read, hread] at h
      cases h
    · rw [hwords h]
      rfl

end LateConst
