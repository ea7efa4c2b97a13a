import LateConst.Reading.State

/-!
# Phrases and the tokens that write them

A phrase is a part of a syntax tree that stands in the text as one stretch: an expression, a
statement, a list of either, a block. `Phrase.Text` relates a phrase to the tokens that write it,
one rule for each way to put a phrase together from smaller ones. The spans in a phrase are the
ones of its tokens, and a pair of parentheses around an expression leaves no trace in the tree.

The relation says nothing about which of several readings of an expression is chosen.
-/

namespace LateConst

def Kind.word : Kind → Keyword
  | constant => .constWord
  | mutable => .letWord

inductive Phrase where
  | expr (e : Expr)
  /-- Expressions with commas between them, at least one. -/
  | exprs (es : List Expr)
  /-- Names with commas between them, at least one. -/
  | idents (idents : List Ident)
  /-- What stands between the parentheses of a call or the brackets of an array. -/
  | args (es : List Expr)
  /-- What stands between the parentheses after `function`. -/
  | params (idents : List Ident)
  | item (item : Declarator)
  | items (items : List Declarator)
  | block (block : Block)
  /-- A statement that begins with `if`. -/
  | conditional (s : Stmt)
  | stmt (s : Stmt)
  | stmts (body : List Stmt)

namespace Phrase

/-- The tokens write the phrase. -/
inductive Text : Phrase → List Token → Prop
  | literal {l v s} (h : Lexeme.literal? l = some v) : Text (.expr (.literal v s)) [⟨l, s⟩]
  | lookup {n s} : Text (.expr (.lookup ⟨n, s⟩)) [⟨.name n, s⟩]
  | group {e ts o c} (inner : Text (.expr e) ts) :
      Text (.expr e) (⟨.mark .openParen, o⟩ :: ts ++ [⟨.mark .closeParen, c⟩])
  | prefixed {l op s e ts} (h : PrefixOp.ofLexeme? l = some op) (arg : Text (.expr e) ts) :
      Text (.expr (op.apply s e)) (⟨l, s⟩ :: ts)
  | infixed {l op s a ts b us} (h : InfixOp.ofLexeme? l = some op) (lhs : Text (.expr a) ts)
      (rhs : Text (.expr b) us) : Text (.expr (op.apply a b)) (ts ++ ⟨l, s⟩ :: us)
  | call {f ts es us o c} (callee : Text (.expr f) ts) (args : Text (.args es) us) :
      Text (.expr (.call f es (f.span.to c)))
        (ts ++ ⟨.mark .openParen, o⟩ :: us ++ [⟨.mark .closeParen, c⟩])
  | index {a ts i us o c} (base : Text (.expr a) ts) (index : Text (.expr i) us) :
      Text (.expr (.index a i (a.span.to c)))
        (ts ++ ⟨.mark .openBracket, o⟩ :: us ++ [⟨.mark .closeBracket, c⟩])
  | array {es ts o c} (elements : Text (.args es) ts) :
      Text (.expr (.array es (o.to c)))
        (⟨.mark .openBracket, o⟩ :: ts ++ [⟨.mark .closeBracket, c⟩])
  | anonymous {ps ts body us h o p q c} (params : Text (.params ps) ts)
      (code : Text (.stmts body) us) :
      Text (.expr (.function ps body (h.to c)))
        (⟨.word .functionWord, h⟩ :: ⟨.mark .openParen, o⟩ :: ts ++ ⟨.mark .closeParen, p⟩ ::
          ⟨.mark .openBrace, q⟩ :: us ++ [⟨.mark .closeBrace, c⟩])
  | firstExpr {e ts} (first : Text (.expr e) ts) : Text (.exprs [e]) ts
  | nextExpr {es ts e us s} (before : Text (.exprs es) ts) (next : Text (.expr e) us) :
      Text (.exprs (es ++ [e])) (ts ++ ⟨.mark .comma, s⟩ :: us)
  | firstIdent {n s} : Text (.idents [⟨n, s⟩]) [⟨.name n, s⟩]
  | nextIdent {is ts n s t} (before : Text (.idents is) ts) :
      Text (.idents (is ++ [⟨n, t⟩])) (ts ++ [⟨.mark .comma, s⟩, ⟨.name n, t⟩])
  | noArgs : Text (.args []) []
  | someArgs {es ts} (all : Text (.exprs es) ts) : Text (.args es) ts
  | noParams : Text (.params []) []
  | someParams {is ts} (all : Text (.idents is) ts) : Text (.params is) ts
  | plainItem {n s} : Text (.item (.mk ⟨n, s⟩ none)) [⟨.name n, s⟩]
  | initItem {n s t e ts} (init : Text (.expr e) ts) :
      Text (.item (.mk ⟨n, s⟩ (some e))) (⟨.name n, s⟩ :: ⟨.mark .assign, t⟩ :: ts)
  | firstItem {d ts} (first : Text (.item d) ts) : Text (.items [d]) ts
  | nextItem {ds ts d us s} (before : Text (.items ds) ts) (next : Text (.item d) us) :
      Text (.items (ds ++ [d])) (ts ++ ⟨.mark .comma, s⟩ :: us)
  | block {body ts o c} (code : Text (.stmts body) ts) :
      Text (.block (.mk body (o.to c)))
        (⟨.mark .openBrace, o⟩ :: ts ++ [⟨.mark .closeBrace, c⟩])
  | thenOnly {e ts b us h o c} (cond : Text (.expr e) ts) (thenPart : Text (.block b) us) :
      Text (.conditional (.branch e b none (h.to b.span)))
        (⟨.word .ifWord, h⟩ :: ⟨.mark .openParen, o⟩ :: ts ++ ⟨.mark .closeParen, c⟩ :: us)
  | elseBlock {e ts b us d vs h o c s} (cond : Text (.expr e) ts)
      (thenPart : Text (.block b) us) (elsePart : Text (.block d) vs) :
      Text (.conditional (.branch e b (some (.block d)) (h.to d.span)))
        (⟨.word .ifWord, h⟩ :: ⟨.mark .openParen, o⟩ :: ts ++ ⟨.mark .closeParen, c⟩ :: us ++
          ⟨.word .elseWord, s⟩ :: vs)
  | elseIf {e ts b us d vs h o c s} (cond : Text (.expr e) ts)
      (thenPart : Text (.block b) us) (elsePart : Text (.conditional d) vs) :
      Text (.conditional (.branch e b (some d) (h.to d.span)))
        (⟨.word .ifWord, h⟩ :: ⟨.mark .openParen, o⟩ :: ts ++ ⟨.mark .closeParen, c⟩ :: us ++
          ⟨.word .elseWord, s⟩ :: vs)
  | declare {k ds ts h c} (items : Text (.items ds) ts) :
      Text (.stmt (.declare k ds (h.to c))) (⟨.word k.word, h⟩ :: ts ++ [⟨.mark .semicolon, c⟩])
  | destructure {k is ts e us h o p q c} (idents : Text (.idents is) ts)
      (init : Text (.expr e) us) :
      Text (.stmt (.destructure k is e (h.to c)))
        (⟨.word k.word, h⟩ :: ⟨.mark .openBracket, o⟩ :: ts ++ ⟨.mark .closeBracket, p⟩ ::
          ⟨.mark .assign, q⟩ :: us ++ [⟨.mark .semicolon, c⟩])
  | named {n s ps ts body us h o p q c} (params : Text (.params ps) ts)
      (code : Text (.stmts body) us) :
      Text (.stmt (.function ⟨n, s⟩ ps body (h.to c)))
        (⟨.word .functionWord, h⟩ :: ⟨.name n, s⟩ :: ⟨.mark .openParen, o⟩ :: ts ++
          ⟨.mark .closeParen, p⟩ :: ⟨.mark .openBrace, q⟩ :: us ++ [⟨.mark .closeBrace, c⟩])
  | assign {n s t e ts c} (value : Text (.expr e) ts) :
      Text (.stmt (.assign ⟨n, s⟩ e (s.to c)))
        (⟨.name n, s⟩ :: ⟨.mark .assign, t⟩ :: ts ++ [⟨.mark .semicolon, c⟩])
  | effect {e ts c} (value : Text (.expr e) ts) :
      Text (.stmt (.expr e (e.span.to c))) (ts ++ [⟨.mark .semicolon, c⟩])
  | print {e ts h c} (value : Text (.expr e) ts) :
      Text (.stmt (.print e (h.to c)))
        (⟨.word .printWord, h⟩ :: ts ++ [⟨.mark .semicolon, c⟩])
  | retNothing {h c} :
      Text (.stmt (.ret none (h.to c))) [⟨.word .returnWord, h⟩, ⟨.mark .semicolon, c⟩]
  | ret {e ts h c} (value : Text (.expr e) ts) :
      Text (.stmt (.ret (some e) (h.to c)))
        (⟨.word .returnWord, h⟩ :: ts ++ [⟨.mark .semicolon, c⟩])
  | pause {h c} :
      Text (.stmt (.pause (h.to c))) [⟨.word .pauseWord, h⟩, ⟨.mark .semicolon, c⟩]
  | spawn {e ts h c} (value : Text (.expr e) ts) :
      Text (.stmt (.spawn e (h.to c)))
        (⟨.word .spawnWord, h⟩ :: ts ++ [⟨.mark .semicolon, c⟩])
  | throw {e ts h c} (value : Text (.expr e) ts) :
      Text (.stmt (.throw e (h.to c)))
        (⟨.word .throwWord, h⟩ :: ts ++ [⟨.mark .semicolon, c⟩])
  | inner {b ts} (block : Text (.block b) ts) : Text (.stmt (.block b)) ts
  | branch {s ts} (conditional : Text (.conditional s) ts) : Text (.stmt s) ts
  | whileLoop {e ts b us h o c} (cond : Text (.expr e) ts) (body : Text (.block b) us) :
      Text (.stmt (.whileLoop e b (h.to b.span)))
        (⟨.word .whileWord, h⟩ :: ⟨.mark .openParen, o⟩ :: ts ++ ⟨.mark .closeParen, c⟩ :: us)
  | forOf {k n s e ts b us h o p q c} (iterable : Text (.expr e) ts)
      (body : Text (.block b) us) :
      Text (.stmt (.forOf k ⟨n, s⟩ e b (h.to b.span)))
        (⟨.word .forWord, h⟩ :: ⟨.mark .openParen, o⟩ :: ⟨.word k.word, p⟩ :: ⟨.name n, s⟩ ::
          ⟨.word .ofWord, q⟩ :: ts ++ ⟨.mark .closeParen, c⟩ :: us)
  | tryCatch {b ts n s d us h p o c} (body : Text (.block b) ts)
      (handler : Text (.block d) us) :
      Text (.stmt (.tryCatch b ⟨n, s⟩ d (h.to d.span)))
        (⟨.word .tryWord, h⟩ :: ts ++ ⟨.word .catchWord, p⟩ :: ⟨.mark .openParen, o⟩ ::
          ⟨.name n, s⟩ :: ⟨.mark .closeParen, c⟩ :: us)
  | noStmts : Text (.stmts []) []
  | nextStmt {body ts s us} (before : Text (.stmts body) ts) (next : Text (.stmt s) us) :
      Text (.stmts (body ++ [s])) (ts ++ us)

end Phrase

end LateConst
