import LateConst.Reading

/-!
# What a reading accepts

A reading gives a program for some tokens if it takes them one after another and the text may end
after the last, with this program. It accepts the tokens if it gives any program for them. A
construct on the path of a reading accepts tokens if the reading goes on with them once the part
that the construct waits for is there, whatever that part turns out to be.

Where two readings differ only in what they have already decided, the less decided one gives
all that the other gives: a name may still turn out to be a whole expression, and a conditional
may go on with `else`.
-/

namespace LateConst

namespace Reading

/-- The reading takes all tokens, and the text may end after them, with this program. -/
def Gives (reading : Reading) (ts : List Token) (program : Program) : Prop :=
  ∃ last, ts.foldlM feed reading = .ok last ∧ last.finish = some program

/-- The reading takes all tokens, and the text may end after them. -/
def Accepts (reading : Reading) (ts : List Token) : Prop :=
  ∃ last, ts.foldlM feed reading = .ok last ∧ last.finish.isSome

theorem accepts_iff {reading : Reading} {ts : List Token} :
    reading.Accepts ts ↔ ∃ program, reading.Gives ts program := by
  constructor
  · rintro ⟨last, hlast, hfinish⟩
    obtain ⟨program, hprogram⟩ := Option.isSome_iff_exists.1 hfinish
    exact ⟨program, last, hlast, hprogram⟩
  · rintro ⟨program, last, hlast, hfinish⟩
    exact ⟨last, hlast, Option.isSome_iff_exists.2 ⟨program, hfinish⟩⟩

theorem gives_nil {reading : Reading} {program : Program} :
    reading.Gives [] program ↔ reading.finish = some program := by
  simp [Gives, pure, Except.pure]

theorem accepts_nil {reading : Reading} : reading.Accepts [] ↔ reading.finish.isSome := by
  simp [accepts_iff, gives_nil, Option.isSome_iff_exists]

theorem feed_eq_ok {reading next : Reading} {token : Token} :
    reading.feed token = .ok next ↔ (reading.settle token.lexeme).shift token = some next := by
  rw [feed]
  split <;> simp_all

theorem gives_cons {reading : Reading} {token : Token} {ts : List Token} {program : Program} :
    reading.Gives (token :: ts) program ↔
      ∃ next, (reading.settle token.lexeme).shift token = some next ∧ next.Gives ts program := by
  constructor
  · rintro ⟨last, hlast, hfinish⟩
    rw [List.foldlM_cons] at hlast
    cases hfeed : reading.feed token with
    | error confusion =>
      rw [hfeed] at hlast
      cases hlast
    | ok next =>
      rw [hfeed] at hlast
      exact ⟨next, feed_eq_ok.1 hfeed, last, hlast, hfinish⟩
  · rintro ⟨next, hnext, last, hlast, hfinish⟩
    refine ⟨last, ?_, hfinish⟩
    rw [List.foldlM_cons, feed_eq_ok.2 hnext]
    exact hlast

theorem gives_of_shift {reading next : Reading} {token : Token} {ts : List Token}
    {program : Program} (hnext : (reading.settle token.lexeme).shift token = some next)
    (h : next.Gives ts program) : reading.Gives (token :: ts) program :=
  gives_cons.2 ⟨next, hnext, h⟩

theorem accepts_cons {reading : Reading} {token : Token} {ts : List Token} :
    reading.Accepts (token :: ts) ↔
      ∃ next, (reading.settle token.lexeme).shift token = some next ∧ next.Accepts ts := by
  simp only [accepts_iff, gives_cons]
  constructor
  · rintro ⟨program, next, hnext, h⟩
    exact ⟨next, hnext, program, h⟩
  · rintro ⟨next, hnext, program, h⟩
    exact ⟨program, next, hnext, h⟩

theorem accepts_of_shift {reading next : Reading} {token : Token} {ts : List Token}
    (hnext : (reading.settle token.lexeme).shift token = some next) (h : next.Accepts ts) :
    reading.Accepts (token :: ts) :=
  accepts_cons.2 ⟨next, hnext, h⟩

/-- A reading gives one program at most. -/
theorem Gives.unique {reading : Reading} {ts : List Token} {program other : Program}
    (h : reading.Gives ts program) (hother : reading.Gives ts other) : program = other := by
  obtain ⟨last, hlast, hfinish⟩ := h
  obtain ⟨last', hlast', hfinish'⟩ := hother
  obtain rfl := Except.ok.inj (hlast.symm.trans hlast')
  exact Option.some.inj (hfinish.symm.trans hfinish')

/-- One reading gives what another gives, if it comes to the same with every token that the other
takes, and may end where the other may end. -/
theorem gives_of_simulates {reading other : Reading} {ts : List Token} {program : Program}
    (hfinish : other.finish = some program → reading.finish = some program)
    (hshift : ∀ token next, (other.settle token.lexeme).shift token = some next →
      ∀ us, next.Gives us program → reading.Gives (token :: us) program)
    (h : other.Gives ts program) : reading.Gives ts program := by
  cases ts with
  | nil => exact gives_nil.2 (hfinish (gives_nil.1 h))
  | cons token more =>
    obtain ⟨next, hnext, hmore⟩ := gives_cons.1 h
    exact hshift token next hnext more hmore

end Reading

/-! ### What constructs accept -/

def Body.Accepts (body : Body) (ts : List Token) : Prop :=
  ∀ more : List Stmt, (Reading.statements (more.foldl Body.push body)).Accepts ts

def ExprSite.Accepts (site : ExprSite) (ts : List Token) : Prop :=
  ∀ pending e, (Reading.value (.mk site pending) e).Accepts ts

def Operand.Accepts (place : Operand) (ts : List Token) : Prop :=
  ∀ e, (Reading.value place e).Accepts ts

def BlockSite.Accepts (site : BlockSite) (ts : List Token) : Prop :=
  ∀ head done last,
    (Reading.statements (.block site head done)).Accepts (⟨.mark .closeBrace, last⟩ :: ts)

def FunctionSite.Accepts (site : FunctionSite) (ts : List Token) : Prop :=
  ∀ params done last,
    (Reading.statements (.function site params done)).Accepts (⟨.mark .closeBrace, last⟩ :: ts)

def BranchSite.Accepts (site : BranchSite) (ts : List Token) : Prop :=
  ∀ s, (Reading.statements (site.close s)).Accepts ts

namespace Body

theorem Accepts.statements {body : Body} {ts : List Token} (h : body.Accepts ts) :
    (Reading.statements body).Accepts ts :=
  h []

theorem Accepts.push {body : Body} {ts : List Token} (h : body.Accepts ts) (s : Stmt) :
    (body.push s).Accepts ts :=
  fun more ↦ h (s :: more)

theorem Accepts.foldl_push {body : Body} {ts : List Token} (h : body.Accepts ts)
    (more : List Stmt) : (more.foldl Body.push body).Accepts ts := by
  intro others
  rw [← List.foldl_append]
  exact h (more ++ others)

theorem foldl_push_program (done more : List Stmt) :
    more.foldl push (.program done) = .program (done ++ more) := by
  induction more generalizing done with
  | nil => simp
  | cons s others ih => simp [push, ih]

theorem foldl_push_block (site : BlockSite) (head : Span) (done more : List Stmt) :
    more.foldl push (.block site head done) = .block site head (done ++ more) := by
  induction more generalizing done with
  | nil => simp
  | cons s others ih => simp [push, ih]

theorem foldl_push_function (site : FunctionSite) (params : List Ident) (done more : List Stmt) :
    more.foldl push (.function site params done) = .function site params (done ++ more) := by
  induction more generalizing done with
  | nil => simp
  | cons s others ih => simp [push, ih]

/-- After the statements of a program the text may end. -/
theorem accepts_program : (Body.program []).Accepts [] := by
  intro more
  rw [foldl_push_program, Reading.accepts_nil]
  rfl

theorem accepts_block {site : BlockSite} {head last : Span} {ts : List Token}
    (h : site.Accepts ts) :
    (Body.block site head []).Accepts (⟨.mark .closeBrace, last⟩ :: ts) := by
  intro more
  rw [foldl_push_block]
  exact h head more last

theorem accepts_function {site : FunctionSite} {params : List Ident} {last : Span}
    {ts : List Token} (h : site.Accepts ts) :
    (Body.function site params []).Accepts (⟨.mark .closeBrace, last⟩ :: ts) := by
  intro more
  rw [foldl_push_function]
  exact h params more last

end Body

theorem ExprSite.Accepts.operand {site : ExprSite} {ts : List Token} (h : site.Accepts ts)
    (pending : List Pending) : (Operand.mk site pending).Accepts ts :=
  fun e ↦ h pending e

/-! ### Readings that have decided less -/

namespace Reading

section Undecided

variable {body : Body} {site : BranchSite} {place : Operand} {head : Span} {ts : List Token}
  {program : Program}

theorem gives_leadingName {ident : Ident}
    (h : (value (ExprSite.effect body).fresh (.lookup ident)).Gives ts program) :
    (leadingName body ident).Gives ts program := by
  refine gives_of_simulates (fun h ↦ by cases h) (fun token next hnext us hus ↦ ?_) h
  have hsettle (l : Lexeme) : (value (ExprSite.effect body).fresh (.lookup ident)).settle l =
      value (ExprSite.effect body).fresh (.lookup ident) := by
    simp only [ExprSite.fresh, settle, settleValue, Pending.close, Pending.closeAll]
    split <;> simp
  rw [hsettle] at hnext
  refine gives_of_shift ?_ hus
  rw [settle, if_pos, hnext]
  obtain ⟨lexeme, span⟩ := token
  cases lexeme with
  | mark mark => cases mark <;> first | rfl | cases hnext
  | _ => cases hnext

theorem gives_leadingFunction
    (h : (beforeParams (.anonymous (ExprSite.effect body).fresh head)).Gives ts program) :
    (leadingFunction body head).Gives ts program := by
  refine gives_of_simulates (fun h ↦ by cases h) (fun token next hnext us hus ↦ ?_) h
  obtain ⟨lexeme, span⟩ := token
  cases lexeme with
  | mark mark => cases mark <;> exact gives_of_shift hnext hus
  | _ => cases hnext

/-- A statement may begin as an expression. -/
theorem gives_statements (h : (operand (ExprSite.effect body).fresh).Gives ts program) :
    (statements body).Gives ts program := by
  refine gives_of_simulates (fun h ↦ by cases h) (fun token next hnext us hus ↦ ?_) h
  obtain ⟨lexeme, span⟩ := token
  cases lexeme with
  | name name =>
    obtain rfl := Option.some.inj hnext
    exact gives_of_shift rfl (gives_leadingName hus)
  | number value => exact gives_of_shift hnext hus
  | text value => exact gives_of_shift hnext hus
  | mark mark =>
    cases mark with
    | openBrace | closeBrace => cases hnext
    | _ => exact gives_of_shift hnext hus
  | word word =>
    cases word with
    | functionWord =>
      obtain rfl := Option.some.inj hnext
      exact gives_of_shift rfl (gives_leadingFunction hus)
    | trueWord | falseWord | undefinedWord | typeofWord => exact gives_of_shift hnext hus
    | _ => cases hnext

/-- Where a mark may stand or else an operand, an operand is read as it is elsewhere. -/
theorem gives_of_operand {reading : Reading} (mark : Mark)
    (hmark : ∀ span, shiftOperand place ⟨.mark mark, span⟩ = none)
    (hsettle : ∀ lexeme, reading.settle lexeme = reading)
    (hshift : ∀ token, token.lexeme ≠ .mark mark →
      reading.shift token = shiftOperand place token)
    (h : (operand place).Gives ts program) : reading.Gives ts program := by
  refine gives_of_simulates (fun h ↦ by cases h) (fun token next hnext us hus ↦ ?_) h
  refine gives_of_shift ?_ hus
  rw [hsettle, hshift token]
  · exact hnext
  · obtain ⟨lexeme, span⟩ := token
    rintro rfl
    cases (hmark span).symm.trans hnext

theorem gives_returning (h : (operand (ExprSite.ret body head).fresh).Gives ts program) :
    (returning body head).Gives ts program := by
  refine gives_of_operand .semicolon (fun _ ↦ rfl) (fun _ ↦ rfl) (fun token hne ↦ ?_) h
  obtain ⟨lexeme, span⟩ := token
  cases lexeme with
  | mark mark => cases mark <;> first | rfl | exact (hne rfl).elim
  | _ => rfl

theorem gives_firstArgument {callee : Expr}
    (h : (operand (ExprSite.argument place callee []).fresh).Gives ts program) :
    (firstArgument place callee).Gives ts program := by
  refine gives_of_operand .closeParen (fun _ ↦ rfl) (fun _ ↦ rfl) (fun token hne ↦ ?_) h
  obtain ⟨lexeme, span⟩ := token
  cases lexeme with
  | mark mark => cases mark <;> first | rfl | exact (hne rfl).elim
  | _ => rfl

theorem gives_firstElement
    (h : (operand (ExprSite.element place head []).fresh).Gives ts program) :
    (firstElement place head).Gives ts program := by
  refine gives_of_operand .closeBracket (fun _ ↦ rfl) (fun _ ↦ rfl) (fun token hne ↦ ?_) h
  obtain ⟨lexeme, span⟩ := token
  cases lexeme with
  | mark mark => cases mark <;> first | rfl | exact (hne rfl).elim
  | _ => rfl

/-- A list of statements goes on with a token that starts a statement, or ends with a brace. -/
theorem startsStatement_of_shiftStatement {token : Token} {next : Reading}
    (h : shiftStatement body token = some next) :
    token.lexeme.startsStatement || token.lexeme == .mark .closeBrace := by
  obtain ⟨lexeme, span⟩ := token
  cases lexeme with
  | number value | text value | name name => rfl
  | word word => cases word <;> first | rfl | cases h
  | mark mark => cases mark <;> first | rfl | cases h

/-- After its first block a conditional may be at its end. -/
theorem gives_afterThen {cond : Expr} {thenPart : Block}
    (h : (statements (site.close
      (.branch cond thenPart none (head.to thenPart.span)))).Gives ts program) :
    (afterThen site head cond thenPart).Gives ts program := by
  refine gives_of_simulates ?_ (fun token next hnext us hus ↦ ?_) h
  · rw [finish.eq_def (afterThen _ _ _ _)]
    dsimp only
    cases site.close _ <;> simp [finish]
  · refine gives_of_shift ?_ hus
    rw [settle, if_pos (startsStatement_of_shiftStatement hnext), ← hnext]
    rfl

/-- Before the first token a program is a list of no statements yet. -/
theorem gives_start (h : (statements (.program [])).Gives ts program) :
    start.Gives ts program := by
  have hfinish : (statements (.program [])).finish = some program → start.finish = some program :=
    id
  refine gives_of_simulates hfinish (fun token next hnext us hus ↦ ?_) h
  refine gives_of_shift ?_ hus
  have hstarts := startsStatement_of_shiftStatement hnext
  have hbrace : token.lexeme ≠ .mark .closeBrace := by
    intro heq
    simp [settle, shift, shiftStatement, heq] at hnext
  rw [settle, if_pos, ← hnext]
  · rfl
  · simpa [hbrace] using hstarts

theorem accepts_of_gives {reading other : Reading}
    (hgives : ∀ program, other.Gives ts program → reading.Gives ts program)
    (h : other.Accepts ts) : reading.Accepts ts := by
  obtain ⟨program, hprogram⟩ := accepts_iff.1 h
  exact accepts_iff.2 ⟨program, hgives program hprogram⟩

theorem accepts_statements (h : (operand (ExprSite.effect body).fresh).Accepts ts) :
    (statements body).Accepts ts :=
  accepts_of_gives (fun _ ↦ gives_statements) h

theorem accepts_returning (h : (operand (ExprSite.ret body head).fresh).Accepts ts) :
    (returning body head).Accepts ts :=
  accepts_of_gives (fun _ ↦ gives_returning) h

theorem accepts_firstArgument {callee : Expr}
    (h : (operand (ExprSite.argument place callee []).fresh).Accepts ts) :
    (firstArgument place callee).Accepts ts :=
  accepts_of_gives (fun _ ↦ gives_firstArgument) h

theorem accepts_firstElement (h : (operand (ExprSite.element place head []).fresh).Accepts ts) :
    (firstElement place head).Accepts ts :=
  accepts_of_gives (fun _ ↦ gives_firstElement) h

theorem accepts_afterThen {cond : Expr} {thenPart : Block} (h : site.Accepts ts) :
    (afterThen site head cond thenPart).Accepts ts :=
  accepts_of_gives (fun _ ↦ gives_afterThen) (h _)

theorem accepts_start (h : (statements (.program [])).Accepts ts) : start.Accepts ts :=
  accepts_of_gives (fun _ ↦ gives_start) h

end Undecided

end Reading

end LateConst
