import LateConst.Reading.Context

/-!
# Reading one token

A `Reading` is a half-read program: a path of unfinished constructs and the point reached at its
inner end. A token is read in two moves. `settle` finishes the constructs that end where the token
begins, as far as the kind of the token tells; `shift` then takes the token itself, or refuses it.

Constructs end as early as they can: after a token that completes its construct no further
evidence is awaited. A construct that may go on is finished only by a token that can follow it
somewhere in a program, so a token that fits nowhere leaves it open. This is what `symbols` shows
when a token is refused.
-/

namespace LateConst

inductive Reading where
  /-- Before the first token. -/
  | start
  | statements (body : Body)
  /-- An operand comes next. -/
  | operand (place : Operand)
  /-- An operand has been read to its end. -/
  | value (place : Operand) (e : Expr)
  /-- A statement began with this name. -/
  | leadingName (body : Body) (ident : Ident)
  /-- A statement began with `function`. -/
  | leadingFunction (body : Body) (head : Span)
  | beforeParams (site : FunctionSite)
  | firstParam (site : FunctionSite)
  | afterParam (site : FunctionSite) (params : List Ident)
  | nextParam (site : FunctionSite) (params : List Ident)
  | afterParams (site : FunctionSite) (params : List Ident)
  | declaring (body : Body) (kind : Kind) (head : Span)
  | nextDeclarator (body : Body) (kind : Kind) (head : Span) (done : List Declarator)
  | afterDeclared (body : Body) (kind : Kind) (head : Span) (done : List Declarator)
    (ident : Ident)
  | firstElementName (body : Body) (kind : Kind) (head : Span)
  | afterElementName (body : Body) (kind : Kind) (head : Span) (idents : List Ident)
  | nextElementName (body : Body) (kind : Kind) (head : Span) (idents : List Ident)
  | afterPattern (body : Body) (kind : Kind) (head : Span) (idents : List Ident)
  | returning (body : Body) (head : Span)
  | pausing (body : Body) (head : Span)
  | whileWord (body : Body) (head : Span)
  | ifWord (site : BranchSite) (head : Span)
  | forWord (body : Body) (head : Span)
  | forKind (body : Body) (head : Span)
  | forName (body : Body) (head : Span) (kind : Kind)
  | forOf (body : Body) (head : Span) (kind : Kind) (ident : Ident)
  | beforeBlock (site : BlockSite)
  | afterTried (body : Body) (head : Span) (tried : Block)
  | catchWord (body : Body) (head : Span) (tried : Block)
  | catchName (body : Body) (head : Span) (tried : Block)
  | afterCatchName (body : Body) (head : Span) (tried : Block) (ident : Ident)
  | afterThen (site : BranchSite) (head : Span) (cond : Expr) (thenPart : Block)
  | afterElse (site : BranchSite) (head : Span) (cond : Expr) (thenPart : Block)
  | firstArgument (place : Operand) (callee : Expr)
  | firstElement (place : Operand) (head : Span)
  | afterArguments (place : Operand) (callee : Expr) (args : List Expr)
  | afterElements (place : Operand) (head : Span) (elements : List Expr)

namespace Lexeme

def startsStatement : Lexeme → Bool
  | number _ | text _ | name _ => true
  | word w =>
    match w with
    | .elseWord | .ofWord | .catchWord => false
    | _ => true
  | mark m =>
    match m with
    | .bang | .openParen | .minus | .openBracket | .openBrace => true
    | _ => false

/-- Whether a token can only come after a whole expression, and ends it. -/
def endsExpr : Lexeme → Bool
  | mark .closeParen | mark .comma | mark .semicolon | mark .closeBracket => true
  | _ => false

/-- Whether a token can come after the name that starts an expression statement. -/
def continuesExpr (lexeme : Lexeme) : Bool :=
  (InfixOp.ofLexeme? lexeme).isSome ||
    match lexeme with
    | mark .openParen | mark .openBracket | mark .semicolon => true
    | _ => false

def literal? : Lexeme → Option Literal
  | number value => some (.number value)
  | text value => some (.text value)
  | word .trueWord => some (.bool true)
  | word .falseWord => some (.bool false)
  | word .undefinedWord => some .undefined
  | _ => none

end Lexeme

namespace Reading

/-- Finishes as much of an expression as the next token shows to be complete. -/
def settleValue (outer : ExprSite) (pending : List Pending) (e : Expr) (next : Lexeme) : Reading :=
  match InfixOp.ofLexeme? next with
  | some op =>
    let (waiting, whole) := Pending.close op.level pending e
    value (.mk outer waiting) whole
  | none =>
    if next.endsExpr then
      let whole := Pending.closeAll pending e
      match outer, next with
      | .argument place callee done, .mark .closeParen
      | .argument place callee done, .mark .closeBracket =>
        afterArguments place callee (done ++ [whole])
      | .element place head done, .mark .closeParen
      | .element place head done, .mark .closeBracket =>
        afterElements place head (done ++ [whole])
      | _, _ => value outer.fresh whole
    else value (.mk outer pending) e

/-- Finishes the constructs that the next token shows to be complete. -/
def settle (next : Lexeme) : Reading → Reading
  | start => if next.startsStatement then statements (.program []) else start
  | value (.mk outer pending) e => settleValue outer pending e next
  | leadingName body ident =>
    if next.continuesExpr then value (ExprSite.effect body).fresh (.lookup ident)
    else leadingName body ident
  | afterThen site head cond thenPart =>
    if next.startsStatement || next == .mark .closeBrace then
      statements (site.close (.branch cond thenPart none (head.to thenPart.span)))
    else afterThen site head cond thenPart
  | reading => reading

def shiftOperand (place : Operand) (token : Token) : Option Reading :=
  match token.lexeme.literal? with
  | some written => some (value place (.literal written token.span))
  | none =>
    match PrefixOp.ofLexeme? token.lexeme with
    | some op => some (operand (place.push (.prefixed op token.span)))
    | none =>
      match token.lexeme with
      | .name name => some (value place (.lookup ⟨name, token.span⟩))
      | .mark .openParen => some (operand (ExprSite.group place).fresh)
      | .mark .openBracket => some (firstElement place token.span)
      | .word .functionWord => some (beforeParams (.anonymous place token.span))
      | _ => none

/-- Takes the first token of a statement, or the brace that ends the list. -/
def shiftStatement (body : Body) (token : Token) : Option Reading :=
  let head := token.span
  match token.lexeme with
  | .name name => some (leadingName body ⟨name, head⟩)
  | .mark .openBrace => some (statements (.block (.bare body) head []))
  | .mark .closeBrace =>
    match body with
    | .program _ => none
    | .block outer first done =>
      let block := Block.mk done (first.to head)
      match outer with
      | .bare body => some (statements (body.push (.block block)))
      | .whileBody body head cond =>
        some (statements (body.push (.whileLoop cond block (head.to block.span))))
      | .forBody body head kind ident iterable =>
        some (statements (body.push (.forOf kind ident iterable block (head.to block.span))))
      | .tryBody body head => some (afterTried body head block)
      | .catchBody body head tried ident =>
        some (statements (body.push (.tryCatch tried ident block (head.to block.span))))
      | .thenPart site head cond => some (afterThen site head cond block)
      | .elsePart site head cond thenPart =>
        some (statements (site.close
          (.branch cond thenPart (some (.block block)) (head.to block.span))))
    | .function (.named outer first ident) params done =>
      some (statements (outer.push (.function ident params done (first.to head))))
    | .function (.anonymous place first) params done =>
      some (value place (.function params done (first.to head)))
  | .word .constWord => some (declaring body .constant head)
  | .word .letWord => some (declaring body .mutable head)
  | .word .functionWord => some (leadingFunction body head)
  | .word .printWord => some (operand (ExprSite.print body head).fresh)
  | .word .spawnWord => some (operand (ExprSite.spawn body head).fresh)
  | .word .throwWord => some (operand (ExprSite.throw body head).fresh)
  | .word .returnWord => some (returning body head)
  | .word .pauseWord => some (pausing body head)
  | .word .whileWord => some (whileWord body head)
  | .word .ifWord => some (ifWord (.statement body) head)
  | .word .forWord => some (forWord body head)
  | .word .tryWord => some (beforeBlock (.tryBody body head))
  | _ => shiftOperand (ExprSite.effect body).fresh token

def shiftSemicolon (site : ExprSite) (e : Expr) (last : Span) : Option Reading :=
  let push (body : Body) (s : Stmt) := some (statements (body.push s))
  match site with
  | .effect body => push body (.expr e (e.span.to last))
  | .print body head => push body (.print e (head.to last))
  | .ret body head => push body (.ret (some e) (head.to last))
  | .spawn body head => push body (.spawn e (head.to last))
  | .throw body head => push body (.throw e (head.to last))
  | .assign body ident => push body (.assign ident e (ident.span.to last))
  | .init body kind head done ident =>
    push body (.declare kind (done ++ [.mk ident (some e)]) (head.to last))
  | .pattern body kind head idents => push body (.destructure kind idents e (head.to last))
  | _ => none

def shiftCloseParen (site : ExprSite) (e : Expr) : Option Reading :=
  match site with
  | .group place => some (value place e)
  | .whileCond body head => some (beforeBlock (.whileBody body head e))
  | .branchCond site head => some (beforeBlock (.thenPart site head e))
  | .iterable body head kind ident => some (beforeBlock (.forBody body head kind ident e))
  | _ => none

def shiftComma (site : ExprSite) (e : Expr) : Option Reading :=
  match site with
  | .init body kind head done ident =>
    some (nextDeclarator body kind head (done ++ [.mk ident (some e)]))
  | .argument place callee done =>
    some (operand (ExprSite.argument place callee (done ++ [e])).fresh)
  | .element place head done => some (operand (ExprSite.element place head (done ++ [e])).fresh)
  | _ => none

def shiftValue (place : Operand) (e : Expr) (token : Token) : Option Reading :=
  match InfixOp.ofLexeme? token.lexeme with
  | some op => some (operand (place.push (.infixed e op)))
  | none =>
    match place, token.lexeme with
    | place, .mark .openParen => some (firstArgument place e)
    | place, .mark .openBracket => some (operand (ExprSite.subscript place e).fresh)
    | .mk site [], .mark .semicolon => shiftSemicolon site e token.span
    | .mk site [], .mark .closeParen => shiftCloseParen site e
    | .mk site [], .mark .comma => shiftComma site e
    | .mk (.subscript place base) [], .mark .closeBracket =>
      some (value place (.index base e (base.span.to token.span)))
    | _, _ => none

/-- Takes a token in a settled reading, unless it cannot stand there. -/
def shift (token : Token) : Reading → Option Reading
  | start => none
  | statements body => shiftStatement body token
  | operand place => shiftOperand place token
  | value place e => shiftValue place e token
  | leadingName body ident =>
    match token.lexeme with
    | .mark .assign => some (operand (ExprSite.assign body ident).fresh)
    | _ => none
  | leadingFunction body head =>
    match token.lexeme with
    | .name name => some (beforeParams (.named body head ⟨name, token.span⟩))
    | .mark .openParen => some (firstParam (.anonymous (ExprSite.effect body).fresh head))
    | _ => none
  | beforeParams site =>
    match token.lexeme with
    | .mark .openParen => some (firstParam site)
    | _ => none
  | firstParam site =>
    match token.lexeme with
    | .name name => some (afterParam site [⟨name, token.span⟩])
    | .mark .closeParen => some (afterParams site [])
    | _ => none
  | afterParam site params =>
    match token.lexeme with
    | .mark .comma => some (nextParam site params)
    | .mark .closeParen => some (afterParams site params)
    | _ => none
  | nextParam site params =>
    match token.lexeme with
    | .name name => some (afterParam site (params ++ [⟨name, token.span⟩]))
    | _ => none
  | afterParams site params =>
    match token.lexeme with
    | .mark .openBrace => some (statements (.function site params []))
    | _ => none
  | declaring body kind head =>
    match token.lexeme with
    | .name name => some (afterDeclared body kind head [] ⟨name, token.span⟩)
    | .mark .openBracket => some (firstElementName body kind head)
    | _ => none
  | nextDeclarator body kind head done =>
    match token.lexeme with
    | .name name => some (afterDeclared body kind head done ⟨name, token.span⟩)
    | _ => none
  | afterDeclared body kind head done ident =>
    match token.lexeme with
    | .mark .assign => some (operand (ExprSite.init body kind head done ident).fresh)
    | .mark .comma => some (nextDeclarator body kind head (done ++ [.mk ident none]))
    | .mark .semicolon => some (statements
        (body.push (.declare kind (done ++ [.mk ident none]) (head.to token.span))))
    | _ => none
  | firstElementName body kind head =>
    match token.lexeme with
    | .name name => some (afterElementName body kind head [⟨name, token.span⟩])
    | _ => none
  | afterElementName body kind head idents =>
    match token.lexeme with
    | .mark .comma => some (nextElementName body kind head idents)
    | .mark .closeBracket => some (afterPattern body kind head idents)
    | _ => none
  | nextElementName body kind head idents =>
    match token.lexeme with
    | .name name => some (afterElementName body kind head (idents ++ [⟨name, token.span⟩]))
    | _ => none
  | afterPattern body kind head idents =>
    match token.lexeme with
    | .mark .assign => some (operand (ExprSite.pattern body kind head idents).fresh)
    | _ => none
  | returning body head =>
    match token.lexeme with
    | .mark .semicolon => some (statements (body.push (.ret none (head.to token.span))))
    | _ => shiftOperand (ExprSite.ret body head).fresh token
  | pausing body head =>
    match token.lexeme with
    | .mark .semicolon => some (statements (body.push (.pause (head.to token.span))))
    | _ => none
  | whileWord body head =>
    match token.lexeme with
    | .mark .openParen => some (operand (ExprSite.whileCond body head).fresh)
    | _ => none
  | ifWord site head =>
    match token.lexeme with
    | .mark .openParen => some (operand (ExprSite.branchCond site head).fresh)
    | _ => none
  | forWord body head =>
    match token.lexeme with
    | .mark .openParen => some (forKind body head)
    | _ => none
  | forKind body head =>
    match token.lexeme with
    | .word .constWord => some (forName body head .constant)
    | .word .letWord => some (forName body head .mutable)
    | _ => none
  | forName body head kind =>
    match token.lexeme with
    | .name name => some (forOf body head kind ⟨name, token.span⟩)
    | _ => none
  | forOf body head kind ident =>
    match token.lexeme with
    | .word .ofWord => some (operand (ExprSite.iterable body head kind ident).fresh)
    | _ => none
  | beforeBlock site =>
    match token.lexeme with
    | .mark .openBrace => some (statements (.block site token.span []))
    | _ => none
  | afterTried body head tried =>
    match token.lexeme with
    | .word .catchWord => some (catchWord body head tried)
    | _ => none
  | catchWord body head tried =>
    match token.lexeme with
    | .mark .openParen => some (catchName body head tried)
    | _ => none
  | catchName body head tried =>
    match token.lexeme with
    | .name name => some (afterCatchName body head tried ⟨name, token.span⟩)
    | _ => none
  | afterCatchName body head tried ident =>
    match token.lexeme with
    | .mark .closeParen => some (beforeBlock (.catchBody body head tried ident))
    | _ => none
  | afterThen site head cond thenPart =>
    match token.lexeme with
    | .word .elseWord => some (afterElse site head cond thenPart)
    | _ => none
  | afterElse site head cond thenPart =>
    match token.lexeme with
    | .mark .openBrace =>
      some (statements (.block (.elsePart site head cond thenPart) token.span []))
    | .word .ifWord => some (ifWord (.elseIf site head cond thenPart) token.span)
    | _ => none
  | firstArgument place callee =>
    match token.lexeme with
    | .mark .closeParen => some (value place (.call callee [] (callee.span.to token.span)))
    | _ => shiftOperand (ExprSite.argument place callee []).fresh token
  | firstElement place head =>
    match token.lexeme with
    | .mark .closeBracket => some (value place (.array [] (head.to token.span)))
    | _ => shiftOperand (ExprSite.element place head []).fresh token
  | afterArguments place callee args =>
    match token.lexeme with
    | .mark .closeParen => some (value place (.call callee args (callee.span.to token.span)))
    | _ => none
  | afterElements place head elements =>
    match token.lexeme with
    | .mark .closeBracket => some (value place (.array elements (head.to token.span)))
    | _ => none

/-- The grammar symbols recognised so far, outermost first. -/
def symbols : Reading → List String
  | start => []
  | statements body => body.symbols
  | operand place => place.symbols
  | value place _ => place.symbols ++ ["expr"]
  | leadingName body _ => body.symbols ++ ["name"]
  | leadingFunction body _ => body.symbols ++ ["FUNCTION"]
  | beforeParams site => site.symbols
  | firstParam site => site.symbols ++ ["("]
  | afterParam site _ => site.symbols ++ ["(", "param_list"]
  | nextParam site _ => site.symbols ++ ["(", "param_list", ","]
  | afterParams site _ => site.symbols ++ ["(", "params", ")"]
  | declaring body kind _ => body.symbols ++ [kind.symbol]
  | nextDeclarator body kind _ _ => body.symbols ++ [kind.symbol, "decl_list", ","]
  | afterDeclared body kind _ done _ =>
    body.symbols ++ kind.symbol :: (if done.isEmpty then [] else ["decl_list", ","]) ++ ["name"]
  | firstElementName body kind _ => body.symbols ++ [kind.symbol, "["]
  | afterElementName body kind _ _ => body.symbols ++ [kind.symbol, "[", "names"]
  | nextElementName body kind _ _ => body.symbols ++ [kind.symbol, "[", "names", ","]
  | afterPattern body kind _ _ => body.symbols ++ [kind.symbol, "[", "names", "]"]
  | returning body _ => body.symbols ++ ["RETURN"]
  | pausing body _ => body.symbols ++ ["PAUSE"]
  | whileWord body _ => body.symbols ++ ["WHILE"]
  | ifWord site _ => site.symbols ++ ["IF"]
  | forWord body _ => body.symbols ++ ["FOR"]
  | forKind body _ => body.symbols ++ ["FOR", "("]
  | forName body _ kind => body.symbols ++ ["FOR", "(", kind.symbol]
  | forOf body _ kind _ => body.symbols ++ ["FOR", "(", kind.symbol, "name"]
  | beforeBlock site => site.symbols
  | afterTried body _ _ => body.symbols ++ ["TRY", "block"]
  | catchWord body _ _ => body.symbols ++ ["TRY", "block", "CATCH"]
  | catchName body _ _ => body.symbols ++ ["TRY", "block", "CATCH", "("]
  | afterCatchName body _ _ _ => body.symbols ++ ["TRY", "block", "CATCH", "(", "name"]
  | afterThen site _ _ _ => site.symbols ++ ["IF", "(", "expr", ")", "block"]
  | afterElse site _ _ _ => site.symbols ++ ["IF", "(", "expr", ")", "block", "ELSE"]
  | firstArgument place _ => place.symbols ++ ["expr", "("]
  | firstElement place _ => place.symbols ++ ["["]
  | afterArguments place _ _ => place.symbols ++ ["expr", "(", "args"]
  | afterElements place _ _ => place.symbols ++ ["[", "args"]

/-- The program that has been read, if the text may end here. -/
def finish : Reading → Option Program
  | start => some []
  | statements (.program done) => some done
  | afterThen site head cond thenPart =>
    match site.close (.branch cond thenPart none (head.to thenPart.span)) with
    | .program done => some done
    | _ => none
  | _ => none

end Reading

end LateConst
