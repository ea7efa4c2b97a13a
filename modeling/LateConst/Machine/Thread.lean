import LateConst.Value.Operator

/-!
# A thread of execution

A thread is a task at some moment of its work: the point it has reached (`Focus`), what is left of
the statements around that point (`StmtFrame`, innermost first), and the calls it is inside of
(`Caller`, innermost first). A call that is under way has statements of its own; what the caller
has left to do is put away in a `Caller` until the call gives its value.

An expression is evaluated inside a list of `ExprFrame`s, each waiting for the value of one of its
parts, and at the bottom of that list is the statement that wants the value (`Use`). A frame keeps
the node it belongs to, because that node is to blame if it goes wrong.
-/

namespace LateConst

/-- An expression that waits for the value of one of its parts. -/
inductive ExprFrame where
  | typeOf
  | unary (node : Expr) (op : UnaryOp)
  | binaryLeft (node : Expr) (op : BinaryOp) (rhs : Expr) (env : RecordId)
  | binaryRight (node : Expr) (op : BinaryOp) (lhs : Value)
  | shortcut (op : ShortcutOp) (rhs : Expr) (env : RecordId)
  | callee (node : Expr) (args : List Expr) (env : RecordId)
  | argument (node : Expr) (callee : Value) (done : List Value) (rest : List Expr)
    (env : RecordId)
  | base (node : Expr) (index : Expr) (env : RecordId)
  | index (node : Expr) (base : Value)
  | element (done : List Value) (rest : List Expr) (env : RecordId)

/-- What a statement does with the value of its expression. -/
inductive Use where
  /-- Gives it to a declared name and goes on to the other items of the declaration. -/
  | declare (stmt : Stmt) (name : String) (rest : List Declarator) (env : RecordId)
  | destructure (stmt : Stmt) (idents : List Ident) (env : RecordId)
  | assign (stmt : Stmt) (name : String) (env : RecordId)
  | discard
  | print
  | ret
  | spawn (stmt : Stmt)
  | throw (stmt : Stmt)
  | branch (thenPart : Block) (elsePart : Option Stmt) (env : RecordId)
  | repeatWhile (cond : Expr) (body : Block) (env : RecordId)
  | iterate (stmt : Stmt) (kind : Kind) (ident : Ident) (body : Block) (env : RecordId)
  /-- Gives it to the variable of a loop, in the record of one trip, and makes that trip. -/
  | loopVariable (name : String) (body : Block) (env : RecordId)

/-- What is left to do when a statement is finished. -/
inductive StmtFrame where
  | sequence (rest : List Stmt) (env : RecordId)
  | whileLoop (cond : Expr) (body : Block) (env : RecordId)
  | forLoop (kind : Kind) (ident : Ident) (body : Block) (env : RecordId) (items : Value)
    (next : Nat)
  /-- The statement is inside the body of a `try`. -/
  | handler (ident : Ident) (handler : Block) (env : RecordId)

/-- An activation that waits for the value of a call. -/
structure Caller where
  node : Expr
  frames : List ExprFrame
  use : Use
  body : List StmtFrame

inductive Focus where
  /-- A function is about to be entered. -/
  | enter (function : Function) (args : List Value)
  | eval (e : Expr) (env : RecordId) (frames : List ExprFrame) (use : Use)
  | value (v : Value) (frames : List ExprFrame) (use : Use)
  | exec (s : Stmt) (env : RecordId)
  /-- A statement is finished. -/
  | next
  /-- The activation is finished. -/
  | done (v : Value)

structure Thread where
  focus : Focus
  body : List StmtFrame
  callers : List Caller

namespace Thread

def ofBody (body : List Stmt) (env : RecordId) : Thread := ⟨.next, [.sequence body env], []⟩

def ofFunction (function : Function) : Thread := ⟨.enter function [], [], []⟩

end Thread

/-- A handler that is about to take over. -/
structure Landing where
  ident : Ident
  handler : Block
  env : RecordId
  body : List StmtFrame
  callers : List Caller

/-- The innermost handler of an activation, and what is left around its `try`. -/
def StmtFrame.innermostHandler : List StmtFrame → Option (Ident × Block × RecordId × List StmtFrame)
  | [] => none
  | .handler ident block env :: rest => some (ident, block, env, rest)
  | _ :: rest => innermostHandler rest

/-- The innermost handler of a thread: of the present activation, or else of its callers. -/
def Landing.find (body : List StmtFrame) (callers : List Caller) : Option Landing :=
  match StmtFrame.innermostHandler body with
  | some (ident, block, env, rest) => some ⟨ident, block, env, rest, callers⟩
  | none =>
    match callers with
    | [] => none
    | caller :: outer => find caller.body outer

end LateConst
