import LateConst.Proofs.Grammar
import LateConst.Proofs.Phrase
import LateConst.Proofs.Reading.Accepts

/-!
# Every word of the grammar is read

`Nonterminal.Taken` says that a piece of text is taken wherever a part of its kind is awaited,
whatever is to follow it. Each rule of the grammar hands this on from the pieces on its right side
to the whole, so it holds of every word; for whole programs it means that a word of the grammar is
read from the first token to the last.
-/

namespace LateConst

open Reading

/-- What follows a declarator, with an initial value or without. -/
def ItemAccepts (body : Body) (kind : Kind) (head : Span) (ts : List Token) : Prop :=
  ∀ done ident, (afterDeclared body kind head done ident).Accepts ts ∧
    (ExprSite.init body kind head done ident).Accepts ts

/-- The tokens are taken wherever a part of this kind is awaited. -/
def Nonterminal.Taken : Nonterminal → List Token → Prop
  | program, ts => start.Accepts ts
  | stmts, ts | stmt, ts =>
    ∀ body us, body.Accepts us → (statements body).Accepts (ts ++ us)
  | declList, ts => ∀ body kind head us, ItemAccepts body kind head us →
      (declaring body kind head).Accepts (ts ++ us)
  | decl, ts => ∀ body kind head us, ItemAccepts body kind head us →
      (declaring body kind head).Accepts (ts ++ us) ∧
        ∀ done, (nextDeclarator body kind head done).Accepts (ts ++ us)
  | names, ts => ∀ body kind head us,
      (∀ idents, (afterElementName body kind head idents).Accepts us) →
        (firstElementName body kind head).Accepts (ts ++ us)
  | paramList, ts => ∀ site us, (∀ params, (afterParam site params).Accepts us) →
      (firstParam site).Accepts (ts ++ us)
  | params, ts => ∀ site last us, (∀ params, (afterParams site params).Accepts us) →
      (firstParam site).Accepts (ts ++ ⟨.mark .closeParen, last⟩ :: us)
  | argList, ts =>
    (∀ place callee us, (∀ done, (ExprSite.argument place callee done).Accepts us) →
      (firstArgument place callee).Accepts (ts ++ us)) ∧
    ∀ place head us, (∀ done, (ExprSite.element place head done).Accepts us) →
      (firstElement place head).Accepts (ts ++ us)
  | args, ts =>
    (∀ place callee last us, place.Accepts us →
      (firstArgument place callee).Accepts (ts ++ ⟨.mark .closeParen, last⟩ :: us)) ∧
    ∀ place head last us, place.Accepts us →
      (firstElement place head).Accepts (ts ++ ⟨.mark .closeBracket, last⟩ :: us)
  | block, ts => ∃ head us, ts = ⟨.mark .openBrace, head⟩ :: us ∧
      ∀ site vs, site.Accepts vs → (statements (.block site head [])).Accepts (us ++ vs)
  | ifStmt, ts => ∃ head us, ts = ⟨.word .ifWord, head⟩ :: us ∧
      ∀ site vs, site.Accepts vs → (ifWord site head).Accepts (us ++ vs)
  | expr, ts => ∀ site pending us, site.Accepts us →
      (operand (.mk site pending)).Accepts (ts ++ us)

/-! ### The ends of expressions -/

namespace ExprSite

variable {site : ExprSite} {last : Span} {ts : List Token}

theorem settle_semicolon (pending : List Pending) (e : Expr) :
    (value (.mk site pending) e).settle (.mark .semicolon) =
      value site.fresh (Pending.closeAll pending e) := by
  cases site <;> rfl

theorem settle_comma (pending : List Pending) (e : Expr) :
    (value (.mk site pending) e).settle (.mark .comma) =
      value site.fresh (Pending.closeAll pending e) := by
  cases site <;> rfl

theorem accepts_semicolon {body : Body} (h : body.Accepts ts)
    (hshift : ∀ e, ∃ s, shiftSemicolon site e last = some (statements (body.push s))) :
    site.Accepts (⟨.mark .semicolon, last⟩ :: ts) := by
  intro pending e
  obtain ⟨s, hs⟩ := hshift (Pending.closeAll pending e)
  refine accepts_of_shift ?_ (h.push s).statements
  rw [settle_semicolon]
  exact hs

theorem accepts_comma {next : Expr → Reading} (h : ∀ e, (next e).Accepts ts)
    (hshift : ∀ e, shiftComma site e = some (next e)) :
    site.Accepts (⟨.mark .comma, last⟩ :: ts) := by
  intro pending e
  refine accepts_of_shift ?_ (h (Pending.closeAll pending e))
  rw [settle_comma]
  exact hshift _

theorem accepts_closeParen {next : Expr → Reading} (h : ∀ e, (next e).Accepts ts)
    (hshift : ∀ e, shiftCloseParen site e = some (next e)) :
    site.Accepts (⟨.mark .closeParen, last⟩ :: ts) := by
  intro pending e
  refine accepts_of_shift ?_ (h (Pending.closeAll pending e))
  rw [← hshift]
  cases site <;> first | rfl | cases hshift e

/-- An operator between two operands may stand wherever an expression may end. -/
theorem accepts_infix {op : InfixOp} {l : Lexeme} {s : Span} (hop : InfixOp.ofLexeme? l = some op)
    (h : ∀ pending, (operand (.mk site pending)).Accepts ts) :
    site.Accepts (⟨l, s⟩ :: ts) := by
  intro pending e
  let closed := Pending.close op.level pending e
  refine accepts_of_shift ?_ (h (.infixed closed.2 op :: closed.1))
  simp [settle, settleValue, shift, shiftValue, hop, Operand.push, closed]

theorem accepts_openParen {o : Span}
    (h : ∀ pending e, (firstArgument (.mk site pending) e).Accepts ts) :
    site.Accepts (⟨.mark .openParen, o⟩ :: ts) := by
  intro pending e
  exact accepts_of_shift rfl (h pending e)

theorem accepts_openBracket {o : Span}
    (h : ∀ pending e, (operand (ExprSite.subscript (.mk site pending) e).fresh).Accepts ts) :
    site.Accepts (⟨.mark .openBracket, o⟩ :: ts) := by
  intro pending e
  exact accepts_of_shift rfl (h pending e)

theorem accepts_argument {place : Operand} {callee : Expr} {done : List Expr}
    (h : place.Accepts ts) :
    (ExprSite.argument place callee done).Accepts (⟨.mark .closeParen, last⟩ :: ts) := by
  intro pending e
  exact accepts_of_shift rfl (h _)

theorem accepts_element {place : Operand} {head : Span} {done : List Expr}
    (h : place.Accepts ts) :
    (ExprSite.element place head done).Accepts (⟨.mark .closeBracket, last⟩ :: ts) := by
  intro pending e
  exact accepts_of_shift rfl (h _)

theorem accepts_subscript {place : Operand} {base : Expr} (h : place.Accepts ts) :
    (ExprSite.subscript place base).Accepts (⟨.mark .closeBracket, last⟩ :: ts) := by
  intro pending e
  exact accepts_of_shift rfl (h _)

end ExprSite

/-! ### The code of functions and blocks -/

theorem FunctionSite.accepts_params {site : FunctionSite} {p q c : Span} {ts us vs : List Token}
    (hparams : Nonterminal.params.Taken ts) (hcode : Nonterminal.stmts.Taken us)
    (h : site.Accepts vs) :
    (firstParam site).Accepts (ts ++ ⟨.mark .closeParen, p⟩ :: ⟨.mark .openBrace, q⟩ ::
      us ++ ⟨.mark .closeBrace, c⟩ :: vs) := by
  have hbody (params : List Ident) :
      (afterParams site params).Accepts
        (⟨.mark .openBrace, q⟩ :: us ++ ⟨.mark .closeBrace, c⟩ :: vs) :=
    accepts_of_shift rfl (hcode _ _ (Body.accepts_function h))
  simpa using hparams site p _ hbody

theorem BlockSite.accepts_beforeBlock {site : BlockSite} {ts us : List Token}
    (hblock : Nonterminal.block.Taken ts) (h : site.Accepts us) :
    (beforeBlock site).Accepts (ts ++ us) := by
  obtain ⟨head, code, rfl, hcode⟩ := hblock
  exact accepts_of_shift rfl (hcode site us h)

/-- A block after which a statement is complete. -/
theorem BlockSite.accepts_of_body {site : BlockSite} {body : Body} {ts : List Token}
    (h : body.Accepts ts)
    (hshift : ∀ head done last, ∃ s,
      shiftStatement (.block site head done) ⟨.mark .closeBrace, last⟩ =
        some (statements (body.push s))) :
    site.Accepts ts := by
  intro head done last
  obtain ⟨s, hs⟩ := hshift head done last
  exact accepts_of_shift hs (h.push s).statements

/-! ### The rules for expressions -/

namespace Nonterminal

theorem taken_operation {m : Mark} {ts : List Token} (hm : m ∈ Mark.infixes)
    (h : Spells Token.terminal Taken m.operation ts) : expr.Taken ts := by
  simp only [Mark.operation, spells_piece, spells_mark, spells_nil] at h
  obtain ⟨us, _, hlhs, ⟨s, _, ⟨vs, _, hrhs, rfl, rfl⟩, rfl⟩, rfl⟩ := h
  obtain ⟨op, hop⟩ : ∃ op, InfixOp.ofLexeme? (.mark m) = some op := by
    simp only [Mark.infixes, List.mem_cons, List.not_mem_nil, or_false] at hm
    rcases hm with rfl | rfl | rfl | rfl | rfl | rfl | rfl | rfl | rfl | rfl | rfl | rfl | rfl <;>
      exact ⟨_, rfl⟩
  intro site pending ws hsite
  have hend : site.Accepts (⟨.mark m, s⟩ :: vs ++ ws) :=
    ExprSite.accepts_infix hop fun pending ↦ hrhs site pending ws hsite
  simpa using hlhs site pending _ hend

theorem taken_expr {symbols : Form} {ts : List Token} (hmem : symbols ∈ expr.alternatives)
    (h : Spells Token.terminal Taken symbols ts) : expr.Taken ts := by
  rw [alternatives, List.mem_append, List.mem_map] at hmem
  obtain hmem | ⟨m, hm, rfl⟩ := hmem
  swap
  · exact taken_operation hm h
  intro site pending ws hsite
  have hplace : (Operand.mk site pending).Accepts ws := hsite.operand pending
  simp only [List.mem_cons, List.not_mem_nil, or_false] at hmem
  rcases hmem with rfl | rfl | rfl | rfl | rfl | rfl | rfl | rfl | rfl | rfl | rfl | rfl | rfl | rfl
  · obtain ⟨t, _, ht, rfl, rfl⟩ := h
    obtain ⟨n, s, rfl⟩ := Token.eq_number ht
    exact accepts_of_shift rfl (hplace _)
  · obtain ⟨t, _, ht, rfl, rfl⟩ := h
    obtain ⟨t, s, rfl⟩ := Token.eq_text ht
    exact accepts_of_shift rfl (hplace _)
  · simp only [spells_word, spells_nil] at h
    obtain ⟨s, _, rfl, rfl⟩ := h
    exact accepts_of_shift rfl (hplace _)
  · simp only [spells_word, spells_nil] at h
    obtain ⟨s, _, rfl, rfl⟩ := h
    exact accepts_of_shift rfl (hplace _)
  · simp only [spells_word, spells_nil] at h
    obtain ⟨s, _, rfl, rfl⟩ := h
    exact accepts_of_shift rfl (hplace _)
  · simp only [spells_name, spells_nil] at h
    obtain ⟨n, s, _, rfl, rfl⟩ := h
    exact accepts_of_shift rfl (hplace _)
  · simp only [spells_mark, spells_piece, spells_nil] at h
    obtain ⟨o, _, ⟨us, _, hinner, ⟨c, _, rfl, rfl⟩, rfl⟩, rfl⟩ := h
    have hend : (ExprSite.group (.mk site pending)).Accepts (⟨.mark .closeParen, c⟩ :: ws) :=
      ExprSite.accepts_closeParen (fun e ↦ hplace e) fun e ↦ rfl
    exact accepts_of_shift rfl (by simpa [ExprSite.fresh] using hinner _ [] _ hend)
  · simp only [spells_mark, spells_piece, spells_nil] at h
    obtain ⟨o, _, ⟨us, _, helements, ⟨c, _, rfl, rfl⟩, rfl⟩, rfl⟩ := h
    exact accepts_of_shift rfl (by simpa using helements.2 _ o c ws hplace)
  · simp only [spells_mark, spells_piece, spells_nil] at h
    obtain ⟨us, _, hcallee, ⟨o, _, ⟨vs, _, hargs, ⟨c, _, rfl, rfl⟩, rfl⟩, rfl⟩, rfl⟩ := h
    have hend : site.Accepts (⟨.mark .openParen, o⟩ :: vs ++ ⟨.mark .closeParen, c⟩ :: ws) :=
      ExprSite.accepts_openParen fun pending e ↦ hargs.1 _ e c ws (hsite.operand pending)
    simpa using hcallee site pending _ hend
  · simp only [spells_mark, spells_piece, spells_nil] at h
    obtain ⟨us, _, hbase, ⟨o, _, ⟨vs, _, hindex, ⟨c, _, rfl, rfl⟩, rfl⟩, rfl⟩, rfl⟩ := h
    have hend : site.Accepts (⟨.mark .openBracket, o⟩ :: vs ++ ⟨.mark .closeBracket, c⟩ :: ws) :=
      ExprSite.accepts_openBracket fun pending e ↦
        hindex _ [] _ (ExprSite.accepts_subscript (hsite.operand pending))
    simpa using hbase site pending _ hend
  · simp only [spells_word, spells_mark, spells_piece, spells_nil] at h
    obtain ⟨head, _, ⟨o, _, ⟨us, _, hparams, ⟨p, _, ⟨q, _, ⟨vs, _, hcode, ⟨c, _, rfl, rfl⟩, rfl⟩,
      rfl⟩, rfl⟩, rfl⟩, rfl⟩, rfl⟩ := h
    have hfunction : (FunctionSite.anonymous (.mk site pending) head).Accepts ws :=
      fun params done last ↦ accepts_of_shift rfl (hplace _)
    have hrest := FunctionSite.accepts_params (p := p) (q := q) (c := c) hparams hcode hfunction
    exact accepts_of_shift rfl (accepts_of_shift rfl (by simpa using hrest))
  all_goals
    simp only [spells_word, spells_mark, spells_piece, spells_nil] at h
    obtain ⟨s, _, ⟨us, _, harg, rfl, rfl⟩, rfl⟩ := h
    exact accepts_of_shift rfl (by simpa [Operand.push] using harg site (_ :: pending) ws hsite)

/-! ### The rules for lists -/

theorem taken_names {symbols : Form} {ts : List Token} (hmem : symbols ∈ names.alternatives)
    (h : Spells Token.terminal Taken symbols ts) : names.Taken ts := by
  simp only [alternatives, List.mem_cons, List.not_mem_nil, or_false] at hmem
  intro body kind head us hnext
  rcases hmem with rfl | rfl
  · simp only [spells_name, spells_nil] at h
    obtain ⟨n, s, _, rfl, rfl⟩ := h
    exact accepts_of_shift rfl (hnext _)
  · simp only [spells_name, spells_mark, spells_piece, spells_nil] at h
    obtain ⟨vs, _, hbefore, ⟨c, _, ⟨n, s, _, rfl, rfl⟩, rfl⟩, rfl⟩ := h
    have hmore (idents : List Ident) : (afterElementName body kind head idents).Accepts
        (⟨.mark .comma, c⟩ :: ⟨.name n, s⟩ :: us) :=
      accepts_of_shift rfl (accepts_of_shift rfl (hnext _))
    simpa using hbefore body kind head _ hmore

theorem taken_paramList {symbols : Form} {ts : List Token}
    (hmem : symbols ∈ paramList.alternatives) (h : Spells Token.terminal Taken symbols ts) :
    paramList.Taken ts := by
  simp only [alternatives, List.mem_cons, List.not_mem_nil, or_false] at hmem
  intro site us hnext
  rcases hmem with rfl | rfl
  · simp only [spells_name, spells_nil] at h
    obtain ⟨n, s, _, rfl, rfl⟩ := h
    exact accepts_of_shift rfl (hnext _)
  · simp only [spells_name, spells_mark, spells_piece, spells_nil] at h
    obtain ⟨vs, _, hbefore, ⟨c, _, ⟨n, s, _, rfl, rfl⟩, rfl⟩, rfl⟩ := h
    have hmore (params : List Ident) : (afterParam site params).Accepts
        (⟨.mark .comma, c⟩ :: ⟨.name n, s⟩ :: us) :=
      accepts_of_shift rfl (accepts_of_shift rfl (hnext _))
    simpa using hbefore site _ hmore

theorem taken_params {symbols : Form} {ts : List Token} (hmem : symbols ∈ params.alternatives)
    (h : Spells Token.terminal Taken symbols ts) : params.Taken ts := by
  simp only [alternatives, List.mem_cons, List.not_mem_nil, or_false] at hmem
  intro site last us hnext
  rcases hmem with rfl | rfl
  · obtain rfl := h
    exact accepts_of_shift rfl (hnext _)
  · simp only [spells_piece, spells_nil] at h
    obtain ⟨vs, _, hall, rfl, rfl⟩ := h
    have hend (params : List Ident) : (afterParam site params).Accepts
        (⟨.mark .closeParen, last⟩ :: us) :=
      accepts_of_shift rfl (hnext _)
    simpa using hall site _ hend

theorem taken_decl {symbols : Form} {ts : List Token} (hmem : symbols ∈ decl.alternatives)
    (h : Spells Token.terminal Taken symbols ts) : decl.Taken ts := by
  simp only [alternatives, List.mem_cons, List.not_mem_nil, or_false] at hmem
  intro body kind head us hnext
  rcases hmem with rfl | rfl
  · simp only [spells_name, spells_nil] at h
    obtain ⟨n, s, _, rfl, rfl⟩ := h
    exact ⟨accepts_of_shift rfl (hnext _ _).1, fun done ↦ accepts_of_shift rfl (hnext _ _).1⟩
  · simp only [spells_name, spells_mark, spells_piece, spells_nil] at h
    obtain ⟨n, s, _, ⟨c, _, ⟨vs, _, hinit, rfl, rfl⟩, rfl⟩, rfl⟩ := h
    have hvalue (done : List Declarator) : (afterDeclared body kind head done ⟨n, s⟩).Accepts
        (⟨.mark .assign, c⟩ :: vs ++ us) :=
      accepts_of_shift rfl (hinit _ [] us (hnext done ⟨n, s⟩).2)
    refine ⟨accepts_of_shift rfl ?_, fun done ↦ accepts_of_shift rfl ?_⟩
    · simpa using hvalue []
    · simpa using hvalue done

theorem taken_declList {symbols : Form} {ts : List Token} (hmem : symbols ∈ declList.alternatives)
    (h : Spells Token.terminal Taken symbols ts) : declList.Taken ts := by
  simp only [alternatives, List.mem_cons, List.not_mem_nil, or_false] at hmem
  intro body kind head us hnext
  rcases hmem with rfl | rfl
  · simp only [spells_piece, spells_nil] at h
    obtain ⟨vs, _, hfirst, rfl, rfl⟩ := h
    simpa using (hfirst body kind head us hnext).1
  · simp only [spells_mark, spells_piece, spells_nil] at h
    obtain ⟨vs, _, hbefore, ⟨c, _, ⟨ws, _, hitem, rfl, rfl⟩, rfl⟩, rfl⟩ := h
    have hitem := (hitem body kind head us hnext).2
    have hmore : ItemAccepts body kind head (⟨.mark .comma, c⟩ :: ws ++ us) := fun done ident ↦
      ⟨accepts_of_shift rfl (hitem _), ExprSite.accepts_comma (fun e ↦ hitem _) fun e ↦ rfl⟩
    simpa using hbefore body kind head _ hmore

theorem taken_argList {symbols : Form} {ts : List Token} (hmem : symbols ∈ argList.alternatives)
    (h : Spells Token.terminal Taken symbols ts) : argList.Taken ts := by
  simp only [alternatives, List.mem_cons, List.not_mem_nil, or_false] at hmem
  rcases hmem with rfl | rfl
  · simp only [spells_piece, spells_nil] at h
    obtain ⟨vs, _, hfirst, rfl, rfl⟩ := h
    rw [List.append_nil]
    exact ⟨fun place callee us hnext ↦ accepts_firstArgument (hfirst _ [] us (hnext [])),
      fun place head us hnext ↦ accepts_firstElement (hfirst _ [] us (hnext []))⟩
  · simp only [spells_mark, spells_piece, spells_nil] at h
    obtain ⟨vs, _, hbefore, ⟨c, _, ⟨ws, _, hexpr, rfl, rfl⟩, rfl⟩, rfl⟩ := h
    constructor
    · intro place callee us hnext
      have hmore (done : List Expr) : (ExprSite.argument place callee done).Accepts
          (⟨.mark .comma, c⟩ :: ws ++ us) :=
        ExprSite.accepts_comma (fun e ↦ hexpr _ [] us (hnext (done ++ [e]))) fun e ↦ rfl
      simpa using hbefore.1 place callee _ hmore
    · intro place head us hnext
      have hmore (done : List Expr) : (ExprSite.element place head done).Accepts
          (⟨.mark .comma, c⟩ :: ws ++ us) :=
        ExprSite.accepts_comma (fun e ↦ hexpr _ [] us (hnext (done ++ [e]))) fun e ↦ rfl
      simpa using hbefore.2 place head _ hmore

theorem taken_args {symbols : Form} {ts : List Token} (hmem : symbols ∈ args.alternatives)
    (h : Spells Token.terminal Taken symbols ts) : args.Taken ts := by
  simp only [alternatives, List.mem_cons, List.not_mem_nil, or_false] at hmem
  rcases hmem with rfl | rfl
  · obtain rfl := h
    exact ⟨fun place callee last us hplace ↦ accepts_of_shift rfl (hplace _),
      fun place head last us hplace ↦ accepts_of_shift rfl (hplace _)⟩
  · simp only [spells_piece, spells_nil] at h
    obtain ⟨vs, _, hall, rfl, rfl⟩ := h
    rw [List.append_nil]
    exact ⟨fun place callee last us hplace ↦
        hall.1 place callee _ fun done ↦ ExprSite.accepts_argument hplace,
      fun place head last us hplace ↦
        hall.2 place head _ fun done ↦ ExprSite.accepts_element hplace⟩

/-! ### The rules for statements -/

theorem taken_block {symbols : Form} {ts : List Token} (hmem : symbols ∈ block.alternatives)
    (h : Spells Token.terminal Taken symbols ts) : block.Taken ts := by
  simp only [alternatives, List.mem_cons, List.not_mem_nil, or_false] at hmem
  obtain rfl := hmem
  simp only [spells_mark, spells_piece, spells_nil] at h
  obtain ⟨o, _, ⟨us, _, hcode, ⟨c, _, rfl, rfl⟩, rfl⟩, rfl⟩ := h
  refine ⟨o, _, rfl, fun site vs hsite ↦ ?_⟩
  simpa using hcode _ _ (Body.accepts_block hsite)

theorem taken_ifStmt {symbols : Form} {ts : List Token} (hmem : symbols ∈ ifStmt.alternatives)
    (h : Spells Token.terminal Taken symbols ts) : ifStmt.Taken ts := by
  -- the tokens up to the end of the first block, whatever follows it
  have hcond {head o c : Span} {us vs ws : List Token} (hexpr : expr.Taken us)
      (hthen : block.Taken vs) (site : BranchSite)
      (h : ∀ cond thenPart, (afterThen site head cond thenPart).Accepts ws) :
      (ifWord site head).Accepts
        (⟨.mark .openParen, o⟩ :: us ++ ⟨.mark .closeParen, c⟩ :: vs ++ ws) := by
    have hblock (cond : Expr) : (BlockSite.thenPart site head cond).Accepts ws :=
      fun first done last ↦ accepts_of_shift rfl (h _ _)
    have hend : (ExprSite.branchCond site head).Accepts (⟨.mark .closeParen, c⟩ :: (vs ++ ws)) :=
      ExprSite.accepts_closeParen (fun e ↦ BlockSite.accepts_beforeBlock hthen (hblock e))
        fun e ↦ rfl
    refine accepts_of_shift rfl ?_
    simpa [ExprSite.fresh] using hexpr _ [] _ hend
  simp only [alternatives, List.mem_cons, List.not_mem_nil, or_false] at hmem
  rcases hmem with rfl | rfl | rfl
  · simp only [spells_word, spells_mark, spells_piece, spells_nil] at h
    obtain ⟨head, _, ⟨o, _, ⟨us, _, hexpr, ⟨c, _, ⟨vs, _, hthen, rfl, rfl⟩, rfl⟩, rfl⟩, rfl⟩,
      rfl⟩ := h
    refine ⟨head, _, rfl, fun site ws hsite ↦ ?_⟩
    simpa using hcond (o := o) (c := c) hexpr hthen site fun cond thenPart ↦
      accepts_afterThen hsite
  · simp only [spells_word, spells_mark, spells_piece, spells_nil] at h
    obtain ⟨head, _, ⟨o, _, ⟨us, _, hexpr, ⟨c, _, ⟨vs, _, hthen, ⟨s, _, ⟨_, _,
      ⟨first, code, rfl, hcode⟩, rfl, rfl⟩, rfl⟩, rfl⟩, rfl⟩, rfl⟩, rfl⟩, rfl⟩ := h
    refine ⟨head, _, rfl, fun site ws hsite ↦ ?_⟩
    have helse (cond : Expr) (thenPart : Block) : (afterThen site head cond thenPart).Accepts
        (⟨.word .elseWord, s⟩ :: ⟨.mark .openBrace, first⟩ :: code ++ ws) :=
      accepts_of_shift rfl (accepts_of_shift rfl
        (hcode _ _ fun first done last ↦ accepts_of_shift rfl (hsite _)))
    simpa using hcond (o := o) (c := c) hexpr hthen site helse
  · simp only [spells_word, spells_mark, spells_piece, spells_nil] at h
    obtain ⟨head, _, ⟨o, _, ⟨us, _, hexpr, ⟨c, _, ⟨vs, _, hthen, ⟨s, _, ⟨_, _,
      ⟨first, code, rfl, hcode⟩, rfl, rfl⟩, rfl⟩, rfl⟩, rfl⟩, rfl⟩, rfl⟩, rfl⟩ := h
    refine ⟨head, _, rfl, fun site ws hsite ↦ ?_⟩
    have helse (cond : Expr) (thenPart : Block) : (afterThen site head cond thenPart).Accepts
        (⟨.word .elseWord, s⟩ :: ⟨.word .ifWord, first⟩ :: code ++ ws) :=
      accepts_of_shift rfl (accepts_of_shift rfl (hcode (.elseIf site head cond thenPart) ws
        fun inner ↦ hsite _))
    simpa using hcond (o := o) (c := c) hexpr hthen site helse

section Statements

open Keyword Mark

variable {ts : List Token}

/-- An expression and the semicolon that ends the statement. -/
theorem accepts_value {site : ExprSite} {body : Body} {c : Span} {us : List Token}
    (hexpr : expr.Taken ts) (hbody : body.Accepts us)
    (hshift : ∀ e, ∃ s, shiftSemicolon site e c = some (statements (body.push s))) :
    (operand site.fresh).Accepts (ts ++ ⟨.mark .semicolon, c⟩ :: us) :=
  hexpr site [] _ (ExprSite.accepts_semicolon hbody hshift)

/-- An expression in parentheses and the block that ends the statement. -/
theorem accepts_guarded {site : ExprSite} {next : Expr → BlockSite} {body : Body} {c : Span}
    {us vs : List Token} (hexpr : expr.Taken ts) (hblock : block.Taken us) (hbody : body.Accepts vs)
    (hparen : ∀ e, shiftCloseParen site e = some (beforeBlock (next e)))
    (hbrace : ∀ e head done last, ∃ s,
      shiftStatement (.block (next e) head done) ⟨.mark .closeBrace, last⟩ =
        some (statements (body.push s))) :
    (operand site.fresh).Accepts (ts ++ ⟨.mark .closeParen, c⟩ :: (us ++ vs)) :=
  hexpr site [] _ (ExprSite.accepts_closeParen (fun e ↦
    BlockSite.accepts_beforeBlock hblock (BlockSite.accepts_of_body hbody (hbrace e))) hparen)

theorem taken_forOf (kind : Kind) (h : Spells Token.terminal Taken
    ([forWord, openParen, kind.word, Terminal.name, ofWord, expr, closeParen, block] : Form) ts) :
    stmt.Taken ts := by
  intro body us hbody
  simp only [spells_word, spells_name, spells_mark, spells_piece, spells_nil] at h
  obtain ⟨head, _, ⟨o, _, ⟨p, _, ⟨n, s, _, ⟨q, _, ⟨vs, _, hexpr, ⟨c, _, ⟨ws, _, hblock, rfl,
    rfl⟩, rfl⟩, rfl⟩, rfl⟩, rfl⟩, rfl⟩, rfl⟩, rfl⟩ := h
  have hend : (operand (ExprSite.iterable body head kind ⟨n, s⟩).fresh).Accepts
      (vs ++ ⟨.mark .closeParen, c⟩ :: (ws ++ us)) :=
    accepts_guarded hexpr hblock hbody (fun e ↦ rfl) fun e first done last ↦ ⟨_, rfl⟩
  have hname : (forName body head kind).Accepts (⟨.name n, s⟩ :: ⟨.word .ofWord, q⟩ ::
      vs ++ ⟨.mark .closeParen, c⟩ :: (ws ++ us)) :=
    accepts_of_shift rfl (accepts_of_shift rfl hend)
  have hkind : (forKind body head).Accepts (⟨.word kind.word, p⟩ :: ⟨.name n, s⟩ ::
      ⟨.word .ofWord, q⟩ :: vs ++ ⟨.mark .closeParen, c⟩ :: (ws ++ us)) := by
    cases kind <;> exact accepts_of_shift rfl hname
  exact accepts_of_shift rfl (accepts_of_shift rfl (by simpa using hkind))

theorem taken_declarations (kind : Kind) {symbols : Form}
    (hmem : symbols ∈ kind.word.declarations) (h : Spells Token.terminal Taken symbols ts) :
    stmt.Taken ts := by
  simp only [Keyword.declarations, List.mem_cons, List.not_mem_nil, or_false] at hmem
  have hdeclaring {body : Body} {head : Span} {vs : List Token}
      (h : (declaring body kind head).Accepts vs) :
      (statements body).Accepts (⟨.word kind.word, head⟩ :: vs) := by
    cases kind <;> exact accepts_of_shift rfl h
  rcases hmem with rfl | rfl | rfl
  · intro body us hbody
    simp only [spells_word, spells_mark, spells_piece, spells_nil] at h
    obtain ⟨head, _, ⟨vs, _, hitems, ⟨c, _, rfl, rfl⟩, rfl⟩, rfl⟩ := h
    have hend : ItemAccepts body kind head (⟨.mark .semicolon, c⟩ :: us) := fun done ident ↦
      ⟨accepts_of_shift rfl (hbody.push _).statements,
        ExprSite.accepts_semicolon hbody fun e ↦ ⟨_, rfl⟩⟩
    exact hdeclaring (by simpa using hitems body kind head _ hend)
  · intro body us hbody
    simp only [spells_word, spells_mark, spells_piece, spells_nil] at h
    obtain ⟨head, _, ⟨o, _, ⟨vs, _, hnames, ⟨p, _, ⟨q, _, ⟨ws, _, hinit, ⟨c, _, rfl, rfl⟩, rfl⟩,
      rfl⟩, rfl⟩, rfl⟩, rfl⟩, rfl⟩ := h
    have hpattern (idents : List Ident) : (afterElementName body kind head idents).Accepts
        (⟨.mark .closeBracket, p⟩ :: ⟨.mark .assign, q⟩ :: ws ++ ⟨.mark .semicolon, c⟩ :: us) :=
      accepts_of_shift rfl (accepts_of_shift rfl (accepts_value hinit hbody fun e ↦ ⟨_, rfl⟩))
    exact hdeclaring (accepts_of_shift rfl (by simpa using hnames body kind head _ hpattern))
  · exact taken_forOf kind h

theorem taken_assign
    (h : Spells Token.terminal Taken ([Terminal.name, assign, expr, semicolon] : Form) ts) :
    stmt.Taken ts := by
  intro body us hbody
  simp only [spells_name, spells_mark, spells_piece, spells_nil] at h
  obtain ⟨n, s, _, ⟨t, _, ⟨vs, _, hexpr, ⟨c, _, rfl, rfl⟩, rfl⟩, rfl⟩, rfl⟩ := h
  have hend : (operand (ExprSite.assign body ⟨n, s⟩).fresh).Accepts
      (vs ++ ⟨.mark .semicolon, c⟩ :: us) :=
    accepts_value hexpr hbody fun e ↦ ⟨_, rfl⟩
  exact accepts_of_shift rfl (accepts_of_shift rfl (by simpa using hend))

theorem taken_effect (h : Spells Token.terminal Taken ([expr, semicolon] : Form) ts) :
    stmt.Taken ts := by
  intro body us hbody
  simp only [spells_mark, spells_piece, spells_nil] at h
  obtain ⟨vs, _, hexpr, ⟨c, _, rfl, rfl⟩, rfl⟩ := h
  have hend : (operand (ExprSite.effect body).fresh).Accepts (vs ++ ⟨.mark .semicolon, c⟩ :: us) :=
    accepts_value hexpr hbody fun e ↦ ⟨_, rfl⟩
  exact accepts_statements (by simpa using hend)

/-- A reserved word that does something with the value of an expression. -/
theorem taken_command {w : Keyword} (site : Body → Span → ExprSite)
    (hword : ∀ body head us, (operand (site body head).fresh).Accepts us →
      (statements body).Accepts (⟨.word w, head⟩ :: us))
    (hend : ∀ body head e c, ∃ s,
      shiftSemicolon (site body head) e c = some (statements (body.push s)))
    (h : Spells Token.terminal Taken ([w, expr, semicolon] : Form) ts) : stmt.Taken ts := by
  intro body us hbody
  simp only [spells_word, spells_mark, spells_piece, spells_nil] at h
  obtain ⟨head, _, ⟨vs, _, hexpr, ⟨c, _, rfl, rfl⟩, rfl⟩, rfl⟩ := h
  have hvalue : (operand (site body head).fresh).Accepts (vs ++ ⟨.mark .semicolon, c⟩ :: us) :=
    accepts_value hexpr hbody fun e ↦ hend body head e c
  exact hword body head _ (by simpa using hvalue)

/-- A reserved word that is a statement by itself. -/
theorem taken_bareCommand {w : Keyword}
    (hword : ∀ body head c us, body.Accepts us →
      (statements body).Accepts (⟨.word w, head⟩ :: ⟨.mark .semicolon, c⟩ :: us))
    (h : Spells Token.terminal Taken ([w, semicolon] : Form) ts) : stmt.Taken ts := by
  intro body us hbody
  simp only [spells_word, spells_mark, spells_nil] at h
  obtain ⟨head, _, ⟨c, _, rfl, rfl⟩, rfl⟩ := h
  exact hword body head c us hbody

theorem taken_whileLoop (h : Spells Token.terminal Taken
    ([whileWord, openParen, expr, closeParen, block] : Form) ts) : stmt.Taken ts := by
  intro body us hbody
  simp only [spells_word, spells_mark, spells_piece, spells_nil] at h
  obtain ⟨head, _, ⟨o, _, ⟨vs, _, hexpr, ⟨c, _, ⟨ws, _, hblock, rfl, rfl⟩, rfl⟩, rfl⟩, rfl⟩,
    rfl⟩ := h
  have hcond : (operand (ExprSite.whileCond body head).fresh).Accepts
      (vs ++ ⟨.mark .closeParen, c⟩ :: (ws ++ us)) :=
    accepts_guarded hexpr hblock hbody (fun e ↦ rfl) fun e first done last ↦ ⟨_, rfl⟩
  exact accepts_of_shift rfl (accepts_of_shift rfl (by simpa using hcond))

theorem taken_named (h : Spells Token.terminal Taken
    ([functionWord, Terminal.name, openParen, params, closeParen, openBrace, stmts,
      closeBrace] : Form) ts) : stmt.Taken ts := by
  intro body us hbody
  simp only [spells_word, spells_name, spells_mark, spells_piece, spells_nil] at h
  obtain ⟨head, _, ⟨n, s, _, ⟨o, _, ⟨vs, _, hparams, ⟨p, _, ⟨q, _, ⟨ws, _, hcode, ⟨c, _, rfl,
    rfl⟩, rfl⟩, rfl⟩, rfl⟩, rfl⟩, rfl⟩, rfl⟩, rfl⟩ := h
  have hfunction : (FunctionSite.named body head ⟨n, s⟩).Accepts us :=
    fun params done last ↦ accepts_of_shift rfl (hbody.push _).statements
  have hrest := FunctionSite.accepts_params (p := p) (q := q) (c := c) hparams hcode hfunction
  exact accepts_of_shift rfl (accepts_of_shift rfl (accepts_of_shift rfl (by simpa using hrest)))

theorem taken_tryCatch (h : Spells Token.terminal Taken
    ([tryWord, block, catchWord, openParen, Terminal.name, closeParen, block] : Form) ts) :
    stmt.Taken ts := by
  intro body us hbody
  simp only [spells_word, spells_name, spells_mark, spells_piece, spells_nil] at h
  obtain ⟨head, _, ⟨vs, _, hbody', ⟨p, _, ⟨o, _, ⟨n, s, _, ⟨c, _, ⟨ws, _, hhandler, rfl, rfl⟩,
    rfl⟩, rfl⟩, rfl⟩, rfl⟩, rfl⟩, rfl⟩ := h
  have hend (tried : Block) : (BlockSite.catchBody body head tried ⟨n, s⟩).Accepts us :=
    BlockSite.accepts_of_body hbody fun first done last ↦ ⟨_, rfl⟩
  have hcatch (tried : Block) : (afterTried body head tried).Accepts (⟨.word .catchWord, p⟩ ::
      ⟨.mark .openParen, o⟩ :: ⟨.name n, s⟩ :: ⟨.mark .closeParen, c⟩ :: (ws ++ us)) :=
    accepts_of_shift rfl (accepts_of_shift rfl (accepts_of_shift rfl (accepts_of_shift rfl
      (BlockSite.accepts_beforeBlock hhandler (hend tried)))))
  have htry : (BlockSite.tryBody body head).Accepts (⟨.word .catchWord, p⟩ ::
      ⟨.mark .openParen, o⟩ :: ⟨.name n, s⟩ :: ⟨.mark .closeParen, c⟩ :: (ws ++ us)) :=
    fun first done last ↦ accepts_of_shift rfl (hcatch _)
  exact accepts_of_shift rfl (by simpa using BlockSite.accepts_beforeBlock hbody' htry)

theorem taken_stmt {symbols : Form} (hmem : symbols ∈ stmt.alternatives)
    (h : Spells Token.terminal Taken symbols ts) : stmt.Taken ts := by
  rw [alternatives, List.mem_append, List.mem_append] at hmem
  obtain (hconst | hlet) | hmem := hmem
  · exact taken_declarations .constant hconst h
  · exact taken_declarations .mutable hlet h
  simp only [List.mem_cons, List.not_mem_nil, or_false] at hmem
  rcases hmem with rfl | rfl | rfl | rfl | rfl | rfl | rfl | rfl | rfl | rfl | rfl | rfl | rfl
  · exact taken_assign h
  · exact taken_effect h
  · exact taken_command .print (fun body head us ↦ accepts_of_shift rfl)
      (fun body head e c ↦ ⟨_, rfl⟩) h
  · intro body us hbody
    simp only [spells_piece, spells_nil] at h
    obtain ⟨_, _, ⟨first, code, rfl, hcode⟩, rfl, rfl⟩ := h
    have hblock : (BlockSite.bare body).Accepts us :=
      BlockSite.accepts_of_body hbody fun first done last ↦ ⟨_, rfl⟩
    exact accepts_of_shift rfl (by simpa using hcode _ _ hblock)
  · intro body us hbody
    simp only [spells_piece, spells_nil] at h
    obtain ⟨_, _, ⟨first, code, rfl, hcode⟩, rfl, rfl⟩ := h
    have hsite : (BranchSite.statement body).Accepts us := fun s ↦ (hbody.push s).statements
    exact accepts_of_shift rfl (by simpa using hcode _ _ hsite)
  · exact taken_whileLoop h
  · exact taken_named h
  · exact taken_bareCommand (fun body head c us hbody ↦
      accepts_of_shift rfl (accepts_of_shift rfl (hbody.push _).statements)) h
  · exact taken_command .ret
      (fun body head us hvalue ↦ accepts_of_shift rfl (accepts_returning hvalue))
      (fun body head e c ↦ ⟨_, rfl⟩) h
  · exact taken_bareCommand (fun body head c us hbody ↦
      accepts_of_shift rfl (accepts_of_shift rfl (hbody.push _).statements)) h
  · exact taken_command .spawn (fun body head us ↦ accepts_of_shift rfl)
      (fun body head e c ↦ ⟨_, rfl⟩) h
  · exact taken_command .throw (fun body head us ↦ accepts_of_shift rfl)
      (fun body head e c ↦ ⟨_, rfl⟩) h
  · exact taken_tryCatch h

end Statements

theorem taken_stmts {symbols : Form} {ts : List Token} (hmem : symbols ∈ stmts.alternatives)
    (h : Spells Token.terminal Taken symbols ts) : stmts.Taken ts := by
  simp only [alternatives, List.mem_cons, List.not_mem_nil, or_false] at hmem
  intro body us hbody
  rcases hmem with rfl | rfl
  · obtain rfl := h
    exact hbody.statements
  · simp only [spells_piece, spells_nil] at h
    obtain ⟨vs, _, hbefore, ⟨ws, _, hstmt, rfl, rfl⟩, rfl⟩ := h
    have hnext : body.Accepts (ws ++ us) := fun more ↦ hstmt _ us (hbody.foldl_push more)
    simpa using hbefore body _ hnext

theorem taken_program {symbols : Form} {ts : List Token} (hmem : symbols ∈ program.alternatives)
    (h : Spells Token.terminal Taken symbols ts) : program.Taken ts := by
  simp only [alternatives, List.mem_cons, List.not_mem_nil, or_false] at hmem
  obtain rfl := hmem
  simp only [spells_piece, spells_nil] at h
  obtain ⟨us, _, hcode, rfl, rfl⟩ := h
  exact accepts_start (hcode (.program []) [] Body.accepts_program)

/-- Words are taken wherever a part of their kind is awaited. -/
theorem taken_of_writes {n : Nonterminal} {ts : List Token} (h : n.Writes ts) : n.Taken ts := by
  refine h.induction fun n symbols hmem us hus ↦ ?_
  cases n with
  | program => exact taken_program hmem hus
  | stmts => exact taken_stmts hmem hus
  | stmt => exact taken_stmt hmem hus
  | declList => exact taken_declList hmem hus
  | decl => exact taken_decl hmem hus
  | names => exact taken_names hmem hus
  | paramList => exact taken_paramList hmem hus
  | params => exact taken_params hmem hus
  | argList => exact taken_argList hmem hus
  | args => exact taken_args hmem hus
  | block => exact taken_block hmem hus
  | ifStmt => exact taken_ifStmt hmem hus
  | expr => exact taken_expr hmem hus

end Nonterminal

/-- A word of the grammar is read to its end. -/
theorem Reading.accepts_of_writes {ts : List Token} (h : Nonterminal.program.Writes ts) :
    start.Accepts ts :=
  Nonterminal.taken_of_writes h

end LateConst
