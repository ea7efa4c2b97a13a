import LateConst.Number
import LateConst.Span

/-!
# Syntax trees

Expressions and statements as the reader of a program builds them. Every node knows the span of
its text, from its first token to its last, pairs of parentheses around an expression not counted.

A `Site` is a node or an identifier that can be blamed for an error.
-/

namespace LateConst

/-- What a declaration makes of a name: something that is written once, or a variable. -/
inductive Kind where
  | constant
  | mutable
  deriving DecidableEq, Repr

def Kind.text : Kind → String
  | constant => "const"
  | mutable => "let"

inductive Literal where
  | undefined
  | bool (value : Bool)
  | number (value : Number)
  | text (value : String)
  deriving DecidableEq, Repr

inductive UnaryOp where
  | negate
  | not
  deriving DecidableEq, Repr

def UnaryOp.symbol : UnaryOp → String
  | negate => "-"
  | not => "!"

/-- The operators that evaluate both operands. -/
inductive BinaryOp where
  | mul | div | rem | add | sub | lt | le | gt | ge | eq | ne
  deriving DecidableEq, Repr

def BinaryOp.symbol : BinaryOp → String
  | mul => "*" | div => "/" | rem => "%" | add => "+" | sub => "-"
  | lt => "<" | le => "<=" | gt => ">" | ge => ">=" | eq => "==" | ne => "!="

/-- The operators that evaluate their right operand only if the left one does not decide. -/
inductive ShortcutOp where
  | and | or
  deriving DecidableEq, Repr

def ShortcutOp.symbol : ShortcutOp → String
  | and => "&&"
  | or => "||"

mutual

inductive Expr where
  | literal (value : Literal) (span : Span)
  | lookup (ident : Ident)
  | typeOf (arg : Expr) (span : Span)
  | unary (op : UnaryOp) (arg : Expr) (span : Span)
  | binary (lhs : Expr) (op : BinaryOp) (rhs : Expr) (span : Span)
  | shortcut (lhs : Expr) (op : ShortcutOp) (rhs : Expr) (span : Span)
  | call (callee : Expr) (args : List Expr) (span : Span)
  | index (base index : Expr) (span : Span)
  | array (elements : List Expr) (span : Span)
  | function (params : List Ident) (body : List Stmt) (span : Span)

inductive Stmt where
  | declare (kind : Kind) (items : List Declarator) (span : Span)
  | destructure (kind : Kind) (idents : List Ident) (init : Expr) (span : Span)
  | function (ident : Ident) (params : List Ident) (body : List Stmt) (span : Span)
  | assign (ident : Ident) (value : Expr) (span : Span)
  | expr (value : Expr) (span : Span)
  | print (value : Expr) (span : Span)
  | ret (value : Option Expr) (span : Span)
  | pause (span : Span)
  | spawn (value : Expr) (span : Span)
  | throw (value : Expr) (span : Span)
  | block (block : Block)
  | branch (cond : Expr) (thenPart : Block) (elsePart : Option Stmt) (span : Span)
  | whileLoop (cond : Expr) (body : Block) (span : Span)
  | forOf (kind : Kind) (ident : Ident) (iterable : Expr) (body : Block) (span : Span)
  | tryCatch (body : Block) (ident : Ident) (handler : Block) (span : Span)

/-- A name in a declaration, with its initial value if it has one. -/
inductive Declarator where
  | mk (ident : Ident) (init : Option Expr)

inductive Block where
  | mk (body : List Stmt) (span : Span)

end

abbrev Program := List Stmt

namespace Block

def body : Block → List Stmt
  | mk body _ => body

def span : Block → Span
  | mk _ span => span

end Block

namespace Expr

def span : Expr → Span
  | literal _ span => span
  | lookup ident => ident.span
  | typeOf _ span => span
  | unary _ _ span => span
  | binary _ _ _ span => span
  | shortcut _ _ _ span => span
  | call _ _ span => span
  | index _ _ span => span
  | array _ span => span
  | function _ _ span => span

end Expr

namespace Declarator

def ident : Declarator → Ident
  | mk ident _ => ident

def init : Declarator → Option Expr
  | mk _ init => init

def span (item : Declarator) : Span :=
  match item.init with
  | none => item.ident.span
  | some value => item.ident.span.to value.span

end Declarator

namespace Stmt

def span : Stmt → Span
  | declare _ _ span => span
  | destructure _ _ _ span => span
  | function _ _ _ span => span
  | assign _ _ span => span
  | expr _ span => span
  | print _ span => span
  | ret _ span => span
  | pause span => span
  | spawn _ span => span
  | throw _ span => span
  | block b => b.span
  | branch _ _ _ span => span
  | whileLoop _ _ span => span
  | forOf _ _ _ _ span => span
  | tryCatch _ _ _ span => span

end Stmt

/-- The code of a function. Only functions made by a declaration have a name. -/
structure Subroutine where
  ident : Option Ident
  params : List Ident
  body : List Stmt
  span : Span

namespace Subroutine

def name (code : Subroutine) : String :=
  match code.ident with
  | some ident => ident.name
  | none => "anonymous"

/-- The heading of a function, in braces. -/
def heading (code : Subroutine) : String :=
  "\x7bfunction " ++ code.name ++ "(" ++ ", ".intercalate (code.params.map (·.name)) ++ ")\x7d"

end Subroutine

/-- A part of a program that can be blamed for an error. -/
inductive Site where
  | expr (expr : Expr)
  | stmt (stmt : Stmt)
  | ident (ident : Ident)

def Site.span : Site → Span
  | expr e => e.span
  | stmt s => s.span
  | ident i => i.span

end LateConst
