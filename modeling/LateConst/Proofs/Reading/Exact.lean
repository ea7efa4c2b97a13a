import LateConst.Proofs.Grouping
import LateConst.Proofs.Reading.Complete
import LateConst.Proofs.Reading.Progress

/-!
# What is grouped is read as it is grouped

`Phrase.IsRead` says that wherever a phrase of its kind is awaited, some tokens are read as this
very phrase, whatever is to follow them. It holds of every grouped phrase, so the tokens of a
program can be grouped in one way only, and the program that is read from a text is grouped
(`Program.read_eq_program_iff_grouped`).

While an expression is read, operators wait for their right operands. An expression of some level
may leave operators up to that level behind, which the next token closes.
-/

namespace LateConst

open Reading

/-- Given the operand, the pending operators make the expression, and none is looser than the
level. -/
structure Pending.Makes (inner : List Pending) (operand e : Expr) (level : Nat) : Prop where
  level_le : ∀ p ∈ inner, p.level ≤ level
  closeAll_eq : closeAll inner operand = e

/-- The operators that wait for an operand leave an expression of this level whole. -/
def Pending.Leave (pending : List Pending) (level : Nat) : Prop :=
  level ≤ 1 ∨ ∀ p ∈ pending.head?, level < p.level

/-- The point that is reached with a block where a construct waits for one. -/
def BlockSite.after : BlockSite → Block → Reading
  | bare body, b => statements (body.push (.block b))
  | whileBody body head cond, b =>
    statements (body.push (.whileLoop cond b (head.to b.span)))
  | forBody body head kind ident iterable, b =>
    statements (body.push (.forOf kind ident iterable b (head.to b.span)))
  | tryBody body head, b => afterTried body head b
  | catchBody body head tried ident, b =>
    statements (body.push (.tryCatch tried ident b (head.to b.span)))
  | thenPart site head cond, b => afterThen site head cond b
  | elsePart site head cond first, b =>
    statements (site.close (.branch cond first (some (.block b)) (head.to b.span)))

def FunctionSite.after : FunctionSite → List Ident → List Stmt → Span → Reading
  | named body head ident, params, code, last =>
    statements (body.push (.function ident params code (head.to last)))
  | anonymous place head, params, code, last => value place (.function params code (head.to last))

/-- A declarator has been read, and operators may still wait for the end of its initial value. -/
inductive Reading.Declared (body : Body) (kind : Kind) (head : Span) (done : List Declarator) :
    Declarator → Reading → Prop
  | plain {ident : Ident} :
      Declared body kind head done (.mk ident none) (afterDeclared body kind head done ident)
  | init {ident : Ident} {e operand : Expr} {level : Nat} {inner : List Pending}
      (h : Pending.Makes inner operand e level) :
      Declared body kind head done (.mk ident (some e))
        (value (.mk (.init body kind head done ident) inner) operand)

namespace Phrase

/-- Wherever the phrase is awaited, the tokens are read as it, whatever is to follow. -/
def IsRead : Phrase → Nat → List Token → Prop
  | expr e, level, ts => ∀ site pending us program, Pending.Leave pending level →
      (∀ inner operand, Pending.Makes inner operand e level →
        (value (.mk site (inner ++ pending)) operand).Gives us program) →
      (operand (.mk site pending)).Gives (ts ++ us) program
  | exprs es, _, ts => ∀ (site : List Expr → ExprSite) us program,
      (∀ done e, shiftComma (site done) e = some (operand (site (done ++ [e])).fresh)) →
      (∀ done e inner operand level, done ++ [e] = es → Pending.Makes inner operand e level →
        (value (.mk (site done) inner) operand).Gives us program) →
      (operand (site []).fresh).Gives (ts ++ us) program
  | idents is, _, ts =>
      (∀ body kind head us program, (afterElementName body kind head is).Gives us program →
        (firstElementName body kind head).Gives (ts ++ us) program) ∧
      ∀ site us program, (afterParam site is).Gives us program →
        (firstParam site).Gives (ts ++ us) program
  | args es, _, ts =>
      (∀ place callee last us program,
        (value place (.call callee es (callee.span.to last))).Gives us program →
        (firstArgument place callee).Gives (ts ++ ⟨.mark .closeParen, last⟩ :: us) program) ∧
      ∀ place head last us program, (value place (.array es (head.to last))).Gives us program →
        (firstElement place head).Gives (ts ++ ⟨.mark .closeBracket, last⟩ :: us) program
  | params is, _, ts => ∀ site last us program, (afterParams site is).Gives us program →
      (firstParam site).Gives (ts ++ ⟨.mark .closeParen, last⟩ :: us) program
  | item d, _, ts => ∀ body kind head done us program,
      (∀ reading, Declared body kind head done d reading → reading.Gives us program) →
      (done = [] → (declaring body kind head).Gives (ts ++ us) program) ∧
        (nextDeclarator body kind head done).Gives (ts ++ us) program
  | items ds, _, ts => ∀ body kind head us program,
      (∀ done d reading, done ++ [d] = ds → Declared body kind head done d reading →
        reading.Gives us program) →
      (declaring body kind head).Gives (ts ++ us) program
  | block b, _, ts => ∃ head us, ts = ⟨.mark .openBrace, head⟩ :: us ∧
      ∀ site vs program, (BlockSite.after site b).Gives vs program →
        (statements (.block site head [])).Gives (us ++ vs) program
  | conditional s, _, ts => ∃ head us, ts = ⟨.word .ifWord, head⟩ :: us ∧
      ∀ site vs program, (statements (BranchSite.close site s)).Gives vs program →
        (ifWord site head).Gives (us ++ vs) program
  | stmt s, _, ts => ∀ body us program, (statements (body.push s)).Gives us program →
      (statements body).Gives (ts ++ us) program
  | stmts ss, _, ts => ∀ body us program,
      (statements (ss.foldl Body.push body)).Gives us program →
      (statements body).Gives (ts ++ us) program

end Phrase

/-! ### Operators that wait -/

namespace Pending

theorem one_le_level (p : Pending) : 1 ≤ p.level := by
  cases p with
  | prefixed op head => exact Nat.le_refl 1
  | infixed lhs op =>
    have hlevel := op.one_lt_level
    rw [level, op.level_eq]
    omega

theorem makes_nil (e : Expr) (level : Nat) : Makes [] e e level :=
  ⟨(fun _ h ↦ by cases h), rfl⟩

/-- An expression that holds together by itself leaves no operators behind. -/
theorem Makes.eq_nil {inner : List Pending} {operand e : Expr} (h : Makes inner operand e 0) :
    inner = [] ∧ operand = e := by
  cases inner with
  | nil => exact ⟨rfl, h.closeAll_eq⟩
  | cons p more =>
    have hle := h.level_le p List.mem_cons_self
    have hone := p.one_le_level
    omega

theorem Makes.append {inner : List Pending} {operand arg : Expr} {k : Nat}
    (h : Makes inner operand arg k) (p : Pending) {level : Nat} (hk : k ≤ level)
    (hp : p.level ≤ level) : Makes (inner ++ [p]) operand (p.apply arg) level := by
  refine ⟨fun q hq ↦ ?_, ?_⟩
  · obtain hq | hq := List.mem_append.1 hq
    · exact Nat.le_trans (h.level_le q hq) hk
    · exact List.mem_singleton.1 hq ▸ hp
  · have hclose := h.closeAll_eq
    rw [closeAll] at hclose ⊢
    rw [List.foldl_append, hclose]
    rfl

/-- A mark between operands closes the operators of an expression that it leaves whole, and
none of those that wait for it. -/
theorem close_append {inner pending : List Pending} {operand e : Expr} {k level : Nat}
    (h : Makes inner operand e k) (hk : k ≤ level)
    (hpending : ∀ p ∈ pending.head?, level < p.level) :
    close level (inner ++ pending) operand = (pending, e) := by
  obtain ⟨hle, hclose⟩ := h
  induction inner generalizing operand with
  | nil =>
    cases pending with
    | nil => exact congrArg (Prod.mk []) hclose
    | cons p more =>
      have hlt := hpending p rfl
      rw [List.nil_append, close, if_neg (by omega), ← hclose]
      rfl
  | cons p more ih =>
    have hp := hle p List.mem_cons_self
    rw [List.cons_append, close, if_pos (by omega)]
    exact ih (fun q hq ↦ hle q (List.mem_cons_of_mem p hq)) hclose

end Pending

/-! ### The next token after an expression -/

namespace ExprSite

variable {site : ExprSite} {inner : List Pending} {operand e : Expr} {level : Nat} {last : Span}
  {us : List Token} {program : Program} {next : Reading}

theorem gives_semicolon (h : Pending.Makes inner operand e level)
    (hshift : shiftSemicolon site e last = some next) (hnext : next.Gives us program) :
    (value (.mk site inner) operand).Gives (⟨.mark .semicolon, last⟩ :: us) program := by
  refine gives_of_shift ?_ hnext
  rw [settle_semicolon, h.closeAll_eq]
  exact hshift

theorem gives_comma (h : Pending.Makes inner operand e level)
    (hshift : shiftComma site e = some next) (hnext : next.Gives us program) :
    (value (.mk site inner) operand).Gives (⟨.mark .comma, last⟩ :: us) program := by
  refine gives_of_shift ?_ hnext
  rw [settle_comma, h.closeAll_eq]
  exact hshift

theorem gives_closeParen (h : Pending.Makes inner operand e level)
    (hshift : shiftCloseParen site e = some next) (hnext : next.Gives us program) :
    (value (.mk site inner) operand).Gives (⟨.mark .closeParen, last⟩ :: us) program := by
  obtain ⟨-, rfl⟩ := h
  refine gives_of_shift ?_ hnext
  cases site <;> first | exact hshift | cases hshift

end ExprSite

/-! ### Phrases -/

section Sites

variable {ts us : List Token} {head last : Span} {k : Nat} {program : Program} {next : Reading}

/-- An expression at a place of its own is read before any token that ends it. -/
theorem Phrase.IsRead.fresh {e : Expr} (h : Phrase.IsRead (.expr e) k ts) {site : ExprSite}
    (hnext : ∀ inner operand, Pending.Makes inner operand e k →
      (value (.mk site inner) operand).Gives us program) :
    (operand site.fresh).Gives (ts ++ us) program := by
  refine h site [] us program (.inr fun p hp ↦ by cases hp) fun inner x hx ↦ ?_
  rw [List.append_nil]
  exact hnext inner x hx

theorem Phrase.IsRead.semicolon {e : Expr} (h : Phrase.IsRead (.expr e) k ts) (site : ExprSite)
    (hshift : shiftSemicolon site e last = some next) (hnext : next.Gives us program) :
    (operand site.fresh).Gives (ts ++ ⟨.mark .semicolon, last⟩ :: us) program :=
  h.fresh fun _ _ hx ↦ ExprSite.gives_semicolon hx hshift hnext

theorem Phrase.IsRead.closeParen {e : Expr} (h : Phrase.IsRead (.expr e) k ts) (site : ExprSite)
    (last : Span) (hshift : shiftCloseParen site e = some next) (hnext : next.Gives us program) :
    (operand site.fresh).Gives (ts ++ ⟨.mark .closeParen, last⟩ :: us) program :=
  h.fresh fun _ _ hx ↦ ExprSite.gives_closeParen hx hshift hnext

theorem Phrase.IsRead.beforeBlock {b : Block} (h : Phrase.IsRead (.block b) 0 ts)
    (site : BlockSite) (hnext : (site.after b).Gives us program) :
    (beforeBlock site).Gives (ts ++ us) program := by
  obtain ⟨head, code, rfl, hcode⟩ := h
  exact gives_of_shift rfl (hcode site us program hnext)

theorem Phrase.IsRead.code {body : List Stmt} (h : Phrase.IsRead (.stmts body) 0 ts)
    (site : BlockSite) (hnext : (site.after (.mk body (head.to last))).Gives us program) :
    (statements (.block site head [])).Gives (ts ++ ⟨.mark .closeBrace, last⟩ :: us) program := by
  refine h _ _ _ ?_
  rw [Body.foldl_push_block, List.nil_append]
  refine gives_of_shift ?_ hnext
  cases site <;> rfl

/-- The condition of a conditional and what depends on it are read. -/
theorem Phrase.IsRead.ifThen {e : Expr} {b : Block} {vs : List Token} {o c : Span}
    (hcond : Phrase.IsRead (.expr e) k ts) (hthen : Phrase.IsRead (.block b) 0 us)
    (site : BranchSite) (hnext : (afterThen site head e b).Gives vs program) :
    (ifWord site head).Gives
      (⟨.mark .openParen, o⟩ :: ts ++ ⟨.mark .closeParen, c⟩ :: us ++ vs) program := by
  have hrest := hcond.closeParen (.branchCond site head) c rfl
    (hthen.beforeBlock (.thenPart site head e) hnext)
  exact gives_of_shift rfl (by simpa using hrest)

/-- The parameters and the code of a function are read. -/
theorem Phrase.IsRead.function {ps : List Ident} {body : List Stmt} {vs : List Token} {p q c : Span}
    (hparams : Phrase.IsRead (.params ps) 0 ts) (hcode : Phrase.IsRead (.stmts body) 0 us)
    (site : FunctionSite) (hnext : (site.after ps body c).Gives vs program) :
    (firstParam site).Gives (ts ++ ⟨.mark .closeParen, p⟩ :: ⟨.mark .openBrace, q⟩ :: us ++
      ⟨.mark .closeBrace, c⟩ :: vs) program := by
  rw [List.append_assoc]
  refine hparams site p _ _ (gives_of_shift rfl (hcode _ _ _ ?_))
  rw [Body.foldl_push_function, List.nil_append]
  refine gives_of_shift ?_ hnext
  cases site <;> rfl

end Sites

/-! ### Grouped phrases -/

namespace Phrase

/-- An operand of one token, or of tokens in a pair of brackets, leaves no operators behind. -/
theorem isRead_primary {e : Expr} {ts : List Token}
    (h : ∀ place us program, (value place e).Gives us program →
      (operand place).Gives (ts ++ us) program) :
    IsRead (.expr e) 0 ts := by
  intro site pending us program hleave hnext
  exact h _ _ _ (hnext [] e (Pending.makes_nil e 0))

/-- What follows an operand that holds together by itself follows its value. -/
theorem IsRead.primary {e : Expr} {ts : List Token} (h : IsRead (.expr e) 0 ts) (place : Operand)
    {us : List Token} {program : Program} (hnext : (value place e).Gives us program) :
    (operand place).Gives (ts ++ us) program := by
  obtain ⟨site, pending⟩ := place
  refine h site pending us program (.inl (Nat.zero_le 1)) fun inner x hx ↦ ?_
  obtain ⟨rfl, rfl⟩ := hx.eq_nil
  exact hnext

theorem isRead_prefixed {op : PrefixOp} {s : Span} {e : Expr} {k : Nat} {ts : List Token}
    (arg : IsRead (.expr e) k ts) (hk : k ≤ 1) :
    IsRead (.expr (op.apply s e)) 1 (⟨op.lexeme, s⟩ :: ts) := by
  intro site pending us program hleave hnext
  have hshift : ((operand (.mk site pending)).settle op.lexeme).shift ⟨op.lexeme, s⟩ =
      some (operand (.mk site (.prefixed op s :: pending))) := by
    simp [settle, shift, shiftOperand, op.literal?_lexeme, op.ofLexeme?_lexeme, Operand.push]
  refine gives_of_shift hshift (arg site _ us program (.inl hk) fun inner x hx ↦ ?_)
  have hwhole := hnext _ x (hx.append (.prefixed op s) hk (Nat.le_refl 1))
  rwa [List.append_assoc] at hwhole

theorem isRead_infixed {op : InfixOp} {s : Span} {a b : Expr} {j k : Nat} {ts us : List Token}
    (lhs : IsRead (.expr a) j ts) (rhs : IsRead (.expr b) k us) (hj : j ≤ op.mark.level)
    (hk : k < op.mark.level) :
    IsRead (.expr (op.apply a b)) op.mark.level (ts ++ ⟨.mark op.mark, s⟩ :: us) := by
  intro site pending vs program hleave hnext
  have hone := op.one_lt_level
  have hpending : ∀ p ∈ pending.head?, op.mark.level < p.level := by
    obtain hle | hlt := hleave
    · omega
    · exact hlt
  rw [List.append_assoc, List.cons_append]
  refine lhs site pending _ program ?_ fun inner x hx ↦ ?_
  · exact .inr fun p hp ↦ Nat.lt_of_le_of_lt hj (hpending p hp)
  -- the operator closes what the left operand has left behind, and then waits itself
  have hshift : ((value (.mk site (inner ++ pending)) x).settle (.mark op.mark)).shift
      ⟨.mark op.mark, s⟩ = some (operand (.mk site (.infixed a op :: pending))) := by
    simp [settle, settleValue, shift, shiftValue, op.ofLexeme?_mark, op.level_eq,
      Pending.close_append hx hj hpending, Operand.push]
  have hlevel : (Pending.infixed a op).level = op.mark.level := op.level_eq
  refine gives_of_shift hshift (rhs site _ vs program (.inr fun p hp ↦ ?_) fun inner' y hy ↦ ?_)
  · obtain rfl := Option.mem_some.1 hp
    rwa [hlevel]
  · have hwhole := hnext _ y (hy.append (.infixed a op) (Nat.le_of_lt hk) (Nat.le_of_eq hlevel))
    rwa [List.append_assoc] at hwhole

/-- A declarator with an initial value is read. -/
theorem isRead_initItem {n : String} {s t : Span} {e : Expr} {k : Nat} {ts : List Token}
    (init : IsRead (.expr e) k ts) :
    IsRead (.item (.mk ⟨n, s⟩ (some e))) 0 (⟨.name n, s⟩ :: ⟨.mark .assign, t⟩ :: ts) := by
  intro body kind head done us program hnext
  have hvalue : (afterDeclared body kind head done ⟨n, s⟩).Gives
      (⟨.mark .assign, t⟩ :: ts ++ us) program :=
    gives_of_shift rfl (init.fresh fun inner x hx ↦ hnext _ (.init hx))
  refine ⟨fun hdone ↦ ?_, gives_of_shift rfl hvalue⟩
  subst hdone
  exact gives_of_shift rfl hvalue

/-- The comma between two declarators. -/
theorem gives_comma_of_declared {body : Body} {kind : Kind} {head s : Span}
    {done : List Declarator} {d : Declarator} {reading : Reading} {us : List Token}
    {program : Program} (h : Declared body kind head done d reading)
    (hnext : (nextDeclarator body kind head (done ++ [d])).Gives us program) :
    reading.Gives (⟨.mark .comma, s⟩ :: us) program := by
  cases h with
  | plain => exact gives_of_shift rfl hnext
  | init hmakes => exact ExprSite.gives_comma hmakes rfl hnext

/-- The semicolon after the last declarator. -/
theorem gives_semicolon_of_declared {body : Body} {kind : Kind} {head c : Span}
    {done : List Declarator} {d : Declarator} {reading : Reading} {us : List Token}
    {program : Program} (h : Declared body kind head done d reading)
    (hnext : (statements (body.push (.declare kind (done ++ [d]) (head.to c)))).Gives us program) :
    reading.Gives (⟨.mark .semicolon, c⟩ :: us) program := by
  cases h with
  | plain => exact gives_of_shift rfl hnext
  | init hmakes => exact ExprSite.gives_semicolon hmakes rfl hnext

section Expressions

variable {a f i : Expr} {es : List Expr} {ts us : List Token} {j k : Nat} {o c s : Span}

theorem isRead_call (callee : IsRead (.expr f) 0 ts) (args : IsRead (.args es) 0 us) :
    IsRead (.expr (.call f es (f.span.to c))) 0
      (ts ++ ⟨.mark .openParen, o⟩ :: us ++ [⟨.mark .closeParen, c⟩]) := by
  refine isRead_primary fun place vs program hnext ↦ ?_
  obtain ⟨site, pending⟩ := place
  simpa using callee.primary _ (gives_of_shift rfl (args.1 _ _ _ _ _ hnext))

theorem isRead_index (base : IsRead (.expr a) 0 ts) (index : IsRead (.expr i) k us) :
    IsRead (.expr (.index a i (a.span.to c))) 0
      (ts ++ ⟨.mark .openBracket, o⟩ :: us ++ [⟨.mark .closeBracket, c⟩]) := by
  refine isRead_primary fun place vs program hnext ↦ ?_
  obtain ⟨site, pending⟩ := place
  have hindex : (operand (ExprSite.subscript (.mk site pending) a).fresh).Gives
      (us ++ ⟨.mark .closeBracket, c⟩ :: vs) program := by
    refine index.fresh fun inner x hx ↦ gives_of_shift ?_ hnext
    rw [← hx.closeAll_eq]
    rfl
  simpa using base.primary _ (gives_of_shift rfl hindex)

theorem isRead_nextExpr (before : IsRead (.exprs es) 0 ts) (next : IsRead (.expr a) k us) :
    IsRead (.exprs (es ++ [a])) 0 (ts ++ ⟨.mark .comma, s⟩ :: us) := by
  intro site vs program hcomma hnext
  rw [List.append_assoc, List.cons_append]
  refine before site _ program hcomma fun done e inner x level hdone hx ↦ ?_
  subst hdone
  refine ExprSite.gives_comma hx (hcomma done e) (next.fresh fun inner' y hy ↦ ?_)
  exact hnext _ _ _ _ _ rfl hy

theorem isRead_someArgs (all : IsRead (.exprs es) 0 ts) : IsRead (.args es) 0 ts := by
  refine ⟨fun place callee last us program hnext ↦ gives_firstArgument ?_,
    fun place head last us program hnext ↦ gives_firstElement ?_⟩
  · refine all (.argument place callee) _ _ (fun _ _ ↦ rfl) fun done e inner x level hdone hx ↦ ?_
    refine gives_of_shift ?_ hnext
    rw [← hdone, ← hx.closeAll_eq]
    rfl
  · refine all (.element place head) _ _ (fun _ _ ↦ rfl) fun done e inner x level hdone hx ↦ ?_
    refine gives_of_shift ?_ hnext
    rw [← hdone, ← hx.closeAll_eq]
    rfl

end Expressions

section Declarations

variable {e : Expr} {d : Declarator} {ds : List Declarator} {is ps : List Ident} {body : List Stmt}
  {kind : Kind} {x : Ident} {ts us : List Token} {k : Nat} {h o p q c s : Span}

theorem isRead_nextIdent (before : IsRead (.idents is) 0 ts) :
    IsRead (.idents (is ++ [x])) 0 (ts ++ [⟨.mark .comma, s⟩, ⟨.name x.name, x.span⟩]) := by
  refine ⟨fun body kind head us program hnext ↦ ?_, fun site us program hnext ↦ ?_⟩
  · rw [List.append_assoc]
    exact before.1 _ _ _ _ _ (gives_of_shift rfl (gives_of_shift rfl hnext))
  · rw [List.append_assoc]
    exact before.2 _ _ _ (gives_of_shift rfl (gives_of_shift rfl hnext))

theorem isRead_plainItem : IsRead (.item (.mk x none)) 0 [⟨.name x.name, x.span⟩] := by
  intro body kind head done us program hnext
  refine ⟨fun hdone ↦ ?_, gives_of_shift rfl (hnext _ .plain)⟩
  subst hdone
  exact gives_of_shift rfl (hnext _ .plain)

theorem isRead_nextItem (before : IsRead (.items ds) 0 ts) (next : IsRead (.item d) 0 us) :
    IsRead (.items (ds ++ [d])) 0 (ts ++ ⟨.mark .comma, s⟩ :: us) := by
  intro body kind head vs program hnext
  rw [List.append_assoc, List.cons_append]
  refine before body kind head _ program fun done d reading hdone h ↦ ?_
  refine gives_comma_of_declared h (next body kind head _ vs program fun reading h ↦ ?_).2
  exact hnext _ _ _ (hdone ▸ rfl) h

theorem isRead_declare (items : IsRead (.items ds) 0 ts) :
    IsRead (.stmt (.declare kind ds (h.to c))) 0
      (⟨.word kind.word, h⟩ :: ts ++ [⟨.mark .semicolon, c⟩]) := by
  intro body us program hnext
  have hitems : (declaring body kind h).Gives (ts ++ ⟨.mark .semicolon, c⟩ :: us) program :=
    items body kind h _ program fun done d reading hdone hread ↦
      gives_semicolon_of_declared hread (hdone ▸ hnext)
  refine gives_of_shift ?_ (by simpa using hitems)
  cases kind <;> rfl

theorem isRead_destructure (idents : IsRead (.idents is) 0 ts) (init : IsRead (.expr e) k us) :
    IsRead (.stmt (.destructure kind is e (h.to c))) 0
      (⟨.word kind.word, h⟩ :: ⟨.mark .openBracket, o⟩ :: ts ++ ⟨.mark .closeBracket, p⟩ ::
        ⟨.mark .assign, q⟩ :: us ++ [⟨.mark .semicolon, c⟩]) := by
  intro body vs program hnext
  have hinit : (afterPattern body kind h is).Gives
      (⟨.mark .assign, q⟩ :: (us ++ ⟨.mark .semicolon, c⟩ :: vs)) program :=
    gives_of_shift rfl (init.semicolon _ rfl hnext)
  have hidents : (declaring body kind h).Gives (⟨.mark .openBracket, o⟩ ::
      (ts ++ ⟨.mark .closeBracket, p⟩ :: ⟨.mark .assign, q⟩ ::
        (us ++ ⟨.mark .semicolon, c⟩ :: vs))) program :=
    gives_of_shift rfl (idents.1 _ _ _ _ _ (gives_of_shift rfl hinit))
  refine gives_of_shift ?_ (by simpa using hidents)
  cases kind <;> rfl

theorem isRead_anonymous (params : IsRead (.params ps) 0 ts) (code : IsRead (.stmts body) 0 us) :
    IsRead (.expr (.function ps body (h.to c))) 0
      (⟨.word .functionWord, h⟩ :: ⟨.mark .openParen, o⟩ :: ts ++ ⟨.mark .closeParen, p⟩ ::
        ⟨.mark .openBrace, q⟩ :: us ++ [⟨.mark .closeBrace, c⟩]) := by
  refine isRead_primary fun place vs program hnext ↦ ?_
  have hrest := params.function (p := p) (q := q) code (.anonymous place h) hnext
  exact gives_of_shift rfl (gives_of_shift rfl (by simpa using hrest))

theorem isRead_named (params : IsRead (.params ps) 0 ts) (code : IsRead (.stmts body) 0 us) :
    IsRead (.stmt (.function x ps body (h.to c))) 0
      (⟨.word .functionWord, h⟩ :: ⟨.name x.name, x.span⟩ :: ⟨.mark .openParen, o⟩ :: ts ++
        ⟨.mark .closeParen, p⟩ :: ⟨.mark .openBrace, q⟩ :: us ++ [⟨.mark .closeBrace, c⟩]) := by
  intro outer vs program hnext
  have hrest := params.function (p := p) (q := q) code (.named outer h x) hnext
  exact gives_of_shift rfl (gives_of_shift rfl (gives_of_shift rfl (by simpa using hrest)))

end Declarations

section Statements

variable {e : Expr} {b d : Block} {s' : Stmt} {x : Ident} {kind : Kind} {ts us vs : List Token}
  {k : Nat} {h o p q c s : Span}

theorem isRead_elseBlock (cond : IsRead (.expr e) k ts) (thenPart : IsRead (.block b) 0 us)
    (elsePart : IsRead (.block d) 0 vs) :
    IsRead (.conditional (.branch e b (some (.block d)) (h.to d.span))) 0
      (⟨.word .ifWord, h⟩ :: ⟨.mark .openParen, o⟩ :: ts ++ ⟨.mark .closeParen, c⟩ :: us ++
        ⟨.word .elseWord, s⟩ :: vs) := by
  refine ⟨_, _, rfl, fun site ws program hnext ↦ ?_⟩
  obtain ⟨head, code, rfl, hcode⟩ := elsePart
  have helse : (afterThen site h e b).Gives
      (⟨.word .elseWord, s⟩ :: ⟨.mark .openBrace, head⟩ :: code ++ ws) program :=
    gives_of_shift rfl (gives_of_shift rfl (hcode (.elsePart site h e b) ws program hnext))
  simpa using cond.ifThen (o := o) (c := c) thenPart site helse

theorem isRead_elseIf (cond : IsRead (.expr e) k ts) (thenPart : IsRead (.block b) 0 us)
    (elsePart : IsRead (.conditional s') 0 vs) :
    IsRead (.conditional (.branch e b (some s') (h.to s'.span))) 0
      (⟨.word .ifWord, h⟩ :: ⟨.mark .openParen, o⟩ :: ts ++ ⟨.mark .closeParen, c⟩ :: us ++
        ⟨.word .elseWord, s⟩ :: vs) := by
  refine ⟨_, _, rfl, fun site ws program hnext ↦ ?_⟩
  obtain ⟨head, rest, rfl, hrest⟩ := elsePart
  have helse : (afterThen site h e b).Gives
      (⟨.word .elseWord, s⟩ :: ⟨.word .ifWord, head⟩ :: rest ++ ws) program :=
    gives_of_shift rfl (gives_of_shift rfl (hrest (.elseIf site h e b) ws program hnext))
  simpa using cond.ifThen (o := o) (c := c) thenPart site helse

theorem isRead_whileLoop (cond : IsRead (.expr e) k ts) (block : IsRead (.block b) 0 us) :
    IsRead (.stmt (.whileLoop e b (h.to b.span))) 0
      (⟨.word .whileWord, h⟩ :: ⟨.mark .openParen, o⟩ :: ts ++ ⟨.mark .closeParen, c⟩ :: us) := by
  intro body vs program hnext
  have hrest := cond.closeParen (.whileCond body h) c rfl
    (block.beforeBlock (.whileBody body h e) hnext)
  exact gives_of_shift rfl (gives_of_shift rfl (by simpa using hrest))

theorem isRead_forOf (iterable : IsRead (.expr e) k ts) (block : IsRead (.block b) 0 us) :
    IsRead (.stmt (.forOf kind x e b (h.to b.span))) 0
      (⟨.word .forWord, h⟩ :: ⟨.mark .openParen, o⟩ :: ⟨.word kind.word, p⟩ ::
        ⟨.name x.name, x.span⟩ :: ⟨.word .ofWord, q⟩ :: ts ++ ⟨.mark .closeParen, c⟩ :: us) := by
  intro body vs program hnext
  have hrest := iterable.closeParen (.iterable body h kind x) c rfl
    (block.beforeBlock (.forBody body h kind x e) hnext)
  have hname : (forName body h kind).Gives (⟨.name x.name, x.span⟩ :: ⟨.word .ofWord, q⟩ ::
      (ts ++ ⟨.mark .closeParen, c⟩ :: (us ++ vs))) program :=
    gives_of_shift rfl (gives_of_shift rfl hrest)
  refine gives_of_shift rfl (gives_of_shift rfl (gives_of_shift ?_ (by simpa using hname)))
  cases kind <;> rfl

theorem isRead_tryCatch (tried : IsRead (.block b) 0 ts) (handler : IsRead (.block d) 0 us) :
    IsRead (.stmt (.tryCatch b x d (h.to d.span))) 0
      (⟨.word .tryWord, h⟩ :: ts ++ ⟨.word .catchWord, p⟩ :: ⟨.mark .openParen, o⟩ ::
        ⟨.name x.name, x.span⟩ :: ⟨.mark .closeParen, c⟩ :: us) := by
  intro body vs program hnext
  have hcatch : (afterTried body h b).Gives (⟨.word .catchWord, p⟩ :: ⟨.mark .openParen, o⟩ ::
      ⟨.name x.name, x.span⟩ :: ⟨.mark .closeParen, c⟩ :: (us ++ vs)) program :=
    gives_of_shift rfl (gives_of_shift rfl (gives_of_shift rfl (gives_of_shift rfl
      (handler.beforeBlock _ hnext))))
  have hrest := tried.beforeBlock (.tryBody body h) hcatch
  exact gives_of_shift rfl (by simpa using hrest)

end Statements

theorem isRead_of_grouped {phrase : Phrase} {k : Nat} {ts : List Token}
    (h : phrase.Grouped k ts) : phrase.IsRead k ts := by
  induction h with
  | @literal v s =>
    refine isRead_primary fun place us program hnext ↦ gives_of_shift ?_ hnext
    simp [settle, shift, shiftOperand, v.literal?_lexeme]
  | lookup => exact isRead_primary fun place us program hnext ↦ gives_of_shift rfl hnext
  | group _ inner =>
    refine isRead_primary fun place us program hnext ↦ ?_
    exact gives_of_shift rfl (by simpa using inner.closeParen _ _ rfl hnext)
  | prefixed _ hk arg => exact isRead_prefixed arg hk
  | infixed _ _ hj hk lhs rhs => exact isRead_infixed lhs rhs hj hk
  | call _ _ callee args => exact isRead_call callee args
  | index _ _ base index => exact isRead_index base index
  | array _ elements =>
    refine isRead_primary fun place us program hnext ↦ ?_
    exact gives_of_shift rfl (by simpa using elements.2 _ _ _ _ _ hnext)
  | anonymous _ _ params code => exact isRead_anonymous params code
  | firstExpr _ first =>
    intro site us program hcomma hnext
    exact first.fresh fun inner x hx ↦ hnext [] _ inner x _ rfl hx
  | nextExpr _ _ before next => exact isRead_nextExpr before next
  | firstIdent =>
    exact ⟨fun _ _ _ _ _ hnext ↦ gives_of_shift rfl hnext,
      fun _ _ _ hnext ↦ gives_of_shift rfl hnext⟩
  | nextIdent _ before => exact isRead_nextIdent before
  | noArgs =>
    exact ⟨fun _ _ _ _ _ hnext ↦ gives_of_shift rfl hnext,
      fun _ _ _ _ _ hnext ↦ gives_of_shift rfl hnext⟩
  | someArgs _ all => exact isRead_someArgs all
  | noParams => exact fun _ _ _ _ hnext ↦ gives_of_shift rfl hnext
  | someParams _ all =>
    exact fun site last us program hnext ↦ all.2 _ _ _ (gives_of_shift rfl hnext)
  | plainItem => exact isRead_plainItem
  | initItem _ init => exact isRead_initItem init
  | firstItem _ first =>
    intro body kind head us program hnext
    exact (first body kind head [] us program fun reading h ↦ hnext _ _ _ rfl h).1 rfl
  | nextItem _ _ before next => exact isRead_nextItem before next
  | block _ code =>
    exact ⟨_, _, rfl, fun site vs program hnext ↦ by simpa using code.code site hnext⟩
  | thenOnly _ _ cond thenPart =>
    exact ⟨_, _, rfl, fun site vs program hnext ↦ cond.ifThen thenPart site (gives_afterThen hnext)⟩
  | elseBlock _ _ _ cond thenPart elsePart => exact isRead_elseBlock cond thenPart elsePart
  | elseIf _ _ _ cond thenPart elsePart => exact isRead_elseIf cond thenPart elsePart
  | declare _ items => exact isRead_declare items
  | destructure _ _ idents init => exact isRead_destructure idents init
  | named _ _ params code => exact isRead_named params code
  | assign _ value =>
    intro body us program hnext
    have hvalue := value.semicolon (.assign body _) rfl hnext
    exact gives_of_shift rfl (gives_of_shift rfl (by simpa using hvalue))
  | effect _ value =>
    intro body us program hnext
    rw [List.append_assoc]
    exact gives_statements (value.semicolon _ rfl hnext)
  | print _ value | spawn _ value | throw _ value =>
    intro body us program hnext
    exact gives_of_shift rfl (by simpa using value.semicolon _ rfl hnext)
  | retNothing | pause =>
    exact fun _ _ _ hnext ↦ gives_of_shift rfl (gives_of_shift rfl hnext)
  | ret _ value =>
    intro body us program hnext
    exact gives_of_shift rfl (gives_returning (by simpa using value.semicolon _ rfl hnext))
  | inner _ block =>
    intro body us program hnext
    obtain ⟨head, code, rfl, hcode⟩ := block
    exact gives_of_shift rfl (hcode (.bare body) us program hnext)
  | branch _ conditional =>
    intro body us program hnext
    obtain ⟨head, rest, rfl, hrest⟩ := conditional
    exact gives_of_shift rfl (hrest (.statement body) us program hnext)
  | whileLoop _ _ cond block => exact isRead_whileLoop cond block
  | forOf _ _ iterable block => exact isRead_forOf iterable block
  | tryCatch _ _ tried handler => exact isRead_tryCatch tried handler
  | noStmts => exact fun _ _ _ hnext ↦ hnext
  | nextStmt _ _ before next =>
    intro body us program hnext
    rw [List.append_assoc]
    refine before body _ program (next _ us program ?_)
    rwa [List.foldl_append] at hnext

end Phrase

/-! ### Programs -/

/-- From the start, the tokens of a grouped program are read as this program. -/
theorem Reading.gives_of_grouped {program : Program} {ts : List Token}
    (h : Phrase.Grouped (.stmts program) 0 ts) : start.Gives ts program := by
  have hend : (statements (program.foldl Body.push (.program []))).Gives [] program := by
    rw [Body.foldl_push_program, gives_nil]
    rfl
  refine gives_start ?_
  simpa using Phrase.isRead_of_grouped h (.program []) [] program hend

theorem Scan.read_eq_program_iff {scan : Scan} {program : Program} :
    scan.read = .program program ↔
      scan.ending = .finished ∧ Reading.start.Gives scan.tokens program := by
  constructor
  · intro h
    rw [Scan.read] at h
    split at h
    · cases h
    next last hlast =>
      split at h
      · cases h
      · cases h
      next hending =>
        split at h
        next hfinish =>
          obtain rfl := ReadResult.program.inj h
          exact ⟨hending, last, hlast, hfinish⟩
        · cases h
  · rintro ⟨hending, last, hlast, hfinish⟩
    rw [Scan.read, hlast]
    simp [hending, hfinish]

/-- A text is read as a program if and only if it can be scanned to its end and its tokens, with
the operators grouped by their levels, write this program. -/
theorem Program.read_eq_program_iff_grouped {text : List Char} {program : Program} :
    Program.read text = .program program ↔
      (scan text).ending = .finished ∧ Phrase.Grouped (.stmts program) 0 (scan text).tokens := by
  constructor
  · intro hread
    obtain ⟨hending, hgives⟩ := Scan.read_eq_program_iff.1 hread
    obtain ⟨body, hbody⟩ := (Scan.text_of_read hread).groupable
    obtain rfl : body = program := (gives_of_grouped hbody).unique hgives
    exact ⟨hending, hbody⟩
  · rintro ⟨hending, hgrouped⟩
    exact Scan.read_eq_program_iff.2 ⟨hending, gives_of_grouped hgrouped⟩

end LateConst
