import LateConst.Crash
import LateConst.Value

/-!
# Errors that a script can catch

A `Fault` is the cause of an error. Causes of different kinds may belong to one family: reading a
constant before its value is there looks like any other use of a name too early, and writing it a
second time looks like writing any other constant.

A `Failure` is what ends an action early: a fault, or a crash that no handler sees.
-/

namespace LateConst

inductive Fault where
  /-- A name was declared again in its scope. -/
  | duplicateName (name : String)
  /-- A name was used before it had a value. -/
  | unboundAccess (name : String)
  /-- No enclosing scope declares the name. -/
  | unresolved (name : String)
  | reassignment (name : String)
  | divisionByZero
  | cannotNegate (type : String)
  | cannotApply (op : BinaryOp) (lhs rhs : String)
  | cannotCall (text : String)
  | cannotSpawn (text : String)
  | cannotIndex (type : String)
  | cannotDestructure (type : String)
  | cannotIterate (type : String)
  | cannotMeasure (type : String)
  | cannotPush (type : String)
  | wrongCount (function : Builtin) (count : Nat)
  /-- A `throw` statement was executed; `text` is the text of the value. -/
  | thrown (value : Value) (text : String)
  /-- A function that was called, not spawned, came to a `pause`. -/
  | cannotSuspend

namespace Fault

def family : Fault → Family
  | duplicateName _ => .syntactic
  | unboundAccess _ => .reference
  | unresolved _ => .reference
  | divisionByZero => .general
  | thrown _ _ => .general
  | cannotSuspend => .general
  | _ => .type

def message : Fault → String
  | duplicateName name => "Identifier '" ++ name ++ "' has already been declared"
  | unboundAccess name => "Cannot access '" ++ name ++ "' before initialization"
  | unresolved name => name ++ " is not defined"
  | reassignment name => "Assignment to constant variable '" ++ name ++ "'"
  | divisionByZero => "Division by zero"
  | cannotNegate type => "Cannot negate " ++ type
  | cannotApply op lhs rhs => "Cannot apply '" ++ op.symbol ++ "' to " ++ lhs ++ " and " ++ rhs
  | cannotCall text => text ++ " is not a function"
  | cannotSpawn text => "Cannot spawn " ++ text ++ "; it is not a function"
  | cannotIndex type => "Cannot index into " ++ type
  | cannotDestructure type => type ++ " is not an array, so it cannot be destructured"
  | cannotIterate type => type ++ " is not iterable"
  | cannotMeasure type => "len() needs an array or string, not " ++ type
  | cannotPush type => "push() needs an array, not " ++ type
  | wrongCount function count =>
    function.name ++ "() cannot take " ++ toString count ++ " argument(s)"
  | thrown _ text => text
  | cannotSuspend => "pause can only suspend a running task, not a nested call"

/-- The value that a handler gets: the thrown value itself, or an error with a fresh identity. -/
def caught (ref : Ref) : Fault → Value
  | thrown value _ => value
  | fault => .error ref fault.family fault.message

end Fault

inductive Failure where
  | fault (fault : Fault)
  | crash (crash : Crash)

end LateConst
