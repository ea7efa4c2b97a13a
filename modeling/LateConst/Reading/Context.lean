import LateConst.Token
import LateConst.Tree

/-!
# What a half-read program waits for

While a program is read from left to right, what has been read so far is a path of unfinished
constructs, each inside the next. These types describe such paths by what may come at their inner
end: a statement (`Body`), the code of a function (`FunctionSite`), a block (`BlockSite`), a
conditional (`BranchSite`) or an expression (`ExprSite`, and `Operand` with the operators that wait
for their right operand). Since each construct can only hold what its grammar rule allows, no path
is impossible.

`symbols` lists a path, outermost first, as the grammar symbols that have been recognised along it.
-/

namespace LateConst

inductive PrefixOp where
  | unary (op : UnaryOp)
  | typeOf
  deriving DecidableEq, Repr

inductive InfixOp where
  | binary (op : BinaryOp)
  | shortcut (op : ShortcutOp)
  deriving DecidableEq, Repr

namespace PrefixOp

def symbol : PrefixOp → String
  | unary op => op.symbol
  | typeOf => "TYPEOF"

def apply (op : PrefixOp) (head : Span) (arg : Expr) : Expr :=
  match op with
  | unary op => .unary op arg (head.to arg.span)
  | typeOf => .typeOf arg (head.to arg.span)

def ofLexeme? : Lexeme → Option PrefixOp
  | .mark .minus => some (unary .negate)
  | .mark .bang => some (unary .not)
  | .word .typeofWord => some typeOf
  | _ => none

end PrefixOp

namespace InfixOp

def symbol : InfixOp → String
  | binary op => op.symbol
  | shortcut op => op.symbol

/-- How loosely an operator binds. Operators of one level group to the left. -/
def level : InfixOp → Nat
  | binary .mul => 2 | binary .div => 2 | binary .rem => 2
  | binary .add => 3 | binary .sub => 3
  | binary .lt => 4 | binary .le => 4 | binary .gt => 4 | binary .ge => 4
  | binary .eq => 5 | binary .ne => 5
  | shortcut .and => 6
  | shortcut .or => 7

def apply (op : InfixOp) (lhs rhs : Expr) : Expr :=
  match op with
  | binary op => .binary lhs op rhs (lhs.span.to rhs.span)
  | shortcut op => .shortcut lhs op rhs (lhs.span.to rhs.span)

def ofLexeme? : Lexeme → Option InfixOp
  | .mark .star => some (binary .mul)
  | .mark .slash => some (binary .div)
  | .mark .percent => some (binary .rem)
  | .mark .plus => some (binary .add)
  | .mark .minus => some (binary .sub)
  | .mark .less => some (binary .lt)
  | .mark .lessEqual => some (binary .le)
  | .mark .greater => some (binary .gt)
  | .mark .greaterEqual => some (binary .ge)
  | .mark .equal => some (binary .eq)
  | .mark .notEqual => some (binary .ne)
  | .mark .andAnd => some (shortcut .and)
  | .mark .orOr => some (shortcut .or)
  | _ => none

end InfixOp

/-- An operator whose right operand has not been read to its end. -/
inductive Pending where
  | prefixed (op : PrefixOp) (head : Span)
  | infixed (lhs : Expr) (op : InfixOp)

namespace Pending

/-- Prefix operators bind tighter than all infix operators. -/
def level : Pending → Nat
  | prefixed _ _ => 1
  | infixed _ op => op.level

def apply : Pending → Expr → Expr
  | prefixed op head, arg => op.apply head arg
  | infixed lhs op, rhs => op.apply lhs rhs

def symbols : Pending → List String
  | prefixed op _ => [op.symbol]
  | infixed _ op => ["expr", op.symbol]

/-- Gives a finished operand to the pending operators, innermost first, as long as they bind at
least as tightly as `level`. -/
def close (level : Nat) : List Pending → Expr → List Pending × Expr
  | [], e => ([], e)
  | p :: more, e => if p.level ≤ level then close level more (p.apply e) else (p :: more, e)

def closeAll (pending : List Pending) (e : Expr) : Expr :=
  pending.foldl (fun e p ↦ p.apply e) e

end Pending

def Kind.symbol : Kind → String
  | constant => "CONST"
  | mutable => "LET"

mutual

/-- A list of statements, of which `done` have been read. -/
inductive Body where
  | program (done : List Stmt)
  | block (outer : BlockSite) (head : Span) (done : List Stmt)
  | function (outer : FunctionSite) (params : List Ident) (done : List Stmt)

/-- A function of which the reserved word, and the name if it has one, have been read. -/
inductive FunctionSite where
  | named (outer : Body) (head : Span) (ident : Ident)
  | anonymous (outer : Operand) (head : Span)

/-- A construct whose next part is a block. -/
inductive BlockSite where
  | bare (outer : Body)
  | whileBody (outer : Body) (head : Span) (cond : Expr)
  | forBody (outer : Body) (head : Span) (kind : Kind) (ident : Ident) (iterable : Expr)
  | tryBody (outer : Body) (head : Span)
  | catchBody (outer : Body) (head : Span) (tried : Block) (ident : Ident)
  | thenPart (outer : BranchSite) (head : Span) (cond : Expr)
  | elsePart (outer : BranchSite) (head : Span) (cond : Expr) (thenPart : Block)

/-- Where a conditional stands: among the statements of a list, or after `else`. -/
inductive BranchSite where
  | statement (outer : Body)
  | elseIf (outer : BranchSite) (head : Span) (cond : Expr) (thenPart : Block)

/-- A construct whose next part is an expression. -/
inductive ExprSite where
  | effect (outer : Body)
  | print (outer : Body) (head : Span)
  | ret (outer : Body) (head : Span)
  | spawn (outer : Body) (head : Span)
  | throw (outer : Body) (head : Span)
  | assign (outer : Body) (ident : Ident)
  | init (outer : Body) (kind : Kind) (head : Span) (done : List Declarator) (ident : Ident)
  | pattern (outer : Body) (kind : Kind) (head : Span) (idents : List Ident)
  | whileCond (outer : Body) (head : Span)
  | iterable (outer : Body) (head : Span) (kind : Kind) (ident : Ident)
  | branchCond (outer : BranchSite) (head : Span)
  | group (outer : Operand)
  | argument (outer : Operand) (callee : Expr) (done : List Expr)
  | element (outer : Operand) (head : Span) (done : List Expr)
  | subscript (outer : Operand) (base : Expr)

/-- The place of an operand, with the operators that wait for it, innermost first. -/
inductive Operand where
  | mk (outer : ExprSite) (pending : List Pending)

end

mutual

def Body.symbols : Body → List String
  | .program _ => ["stmts"]
  | .block outer _ _ => outer.symbols ++ ["\x7b", "stmts"]
  | .function outer _ _ => outer.symbols ++ ["(", "params", ")", "\x7b", "stmts"]

def FunctionSite.symbols : FunctionSite → List String
  | .named outer _ _ => outer.symbols ++ ["FUNCTION", "name"]
  | .anonymous outer _ => outer.symbols ++ ["FUNCTION"]

def BlockSite.symbols : BlockSite → List String
  | .bare outer => outer.symbols
  | .whileBody outer _ _ => outer.symbols ++ ["WHILE", "(", "expr", ")"]
  | .forBody outer _ kind _ _ =>
    outer.symbols ++ ["FOR", "(", kind.symbol, "name", "OF", "expr", ")"]
  | .tryBody outer _ => outer.symbols ++ ["TRY"]
  | .catchBody outer _ _ _ => outer.symbols ++ ["TRY", "block", "CATCH", "(", "name", ")"]
  | .thenPart outer _ _ => outer.symbols ++ ["IF", "(", "expr", ")"]
  | .elsePart outer _ _ _ => outer.symbols ++ ["IF", "(", "expr", ")", "block", "ELSE"]

def BranchSite.symbols : BranchSite → List String
  | .statement outer => outer.symbols
  | .elseIf outer _ _ _ => outer.symbols ++ ["IF", "(", "expr", ")", "block", "ELSE"]

def ExprSite.symbols : ExprSite → List String
  | .effect outer => outer.symbols
  | .print outer _ => outer.symbols ++ ["PRINT"]
  | .ret outer _ => outer.symbols ++ ["RETURN"]
  | .spawn outer _ => outer.symbols ++ ["SPAWN"]
  | .throw outer _ => outer.symbols ++ ["THROW"]
  | .assign outer _ => outer.symbols ++ ["name", "="]
  | .init outer kind _ done _ =>
    outer.symbols ++ kind.symbol :: (if done.isEmpty then [] else ["decl_list", ","]) ++
      ["name", "="]
  | .pattern outer kind _ _ => outer.symbols ++ [kind.symbol, "[", "names", "]", "="]
  | .whileCond outer _ => outer.symbols ++ ["WHILE", "("]
  | .iterable outer _ kind _ => outer.symbols ++ ["FOR", "(", kind.symbol, "name", "OF"]
  | .branchCond outer _ => outer.symbols ++ ["IF", "("]
  | .group outer => outer.symbols ++ ["("]
  | .argument outer _ done =>
    outer.symbols ++ ["expr", "("] ++ if done.isEmpty then [] else ["arg_list", ","]
  | .element outer _ done =>
    outer.symbols ++ ["["] ++ if done.isEmpty then [] else ["arg_list", ","]
  | .subscript outer _ => outer.symbols ++ ["expr", "["]

def Operand.symbols : Operand → List String
  | .mk outer pending => outer.symbols ++ pending.reverse.flatMap Pending.symbols

end

namespace Body

def push : Body → Stmt → Body
  | program done, s => program (done ++ [s])
  | block outer head done, s => block outer head (done ++ [s])
  | function outer params done, s => function outer params (done ++ [s])

end Body

/-- The place of a whole expression: no operator waits for it. -/
def ExprSite.fresh (site : ExprSite) : Operand := .mk site []

def Operand.push : Operand → Pending → Operand
  | mk outer pending, p => mk outer (p :: pending)

/-- Finishes a conditional, and with it every conditional that it is the last part of. -/
def BranchSite.close : BranchSite → Stmt → Body
  | statement outer, s => outer.push s
  | elseIf outer head cond thenPart, s =>
    outer.close (.branch cond thenPart (some s) (head.to s.span))

end LateConst
