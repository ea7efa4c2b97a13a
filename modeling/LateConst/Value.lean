import LateConst.Tree

/-!
# Values

The values of a running program. Numbers, texts, truth values and `undefined` are what they are;
arrays, functions and caught errors have an identity besides, a `Ref` given out once, and are equal
only to themselves. The elements of an array live in the store, where they can grow; an array
value is the reference to them.
-/

namespace LateConst

/-- The identity of an array, a function or a caught error. -/
abbrev Ref := Nat

/-- The number of a record in the store. -/
abbrev RecordId := Nat

inductive Builtin where
  | len
  | push
  | str
  deriving DecidableEq, Repr

def Builtin.all : List Builtin := [.len, .push, .str]

def Builtin.name : Builtin → String
  | len => "len"
  | push => "push"
  | str => "str"

/-- The kinds of errors that a handler can tell apart. -/
inductive Family where
  | general
  | syntactic
  | reference
  | type
  deriving DecidableEq, Repr

def Family.text : Family → String
  | general => "Error"
  | syntactic => "SyntaxError"
  | reference => "ReferenceError"
  | type => "TypeError"

/-- A function: one of the program, with the record in which its names are looked up, or a
built-in one. -/
inductive Function where
  | closure (code : Subroutine) (env : RecordId)
  | builtin (builtin : Builtin)

def Function.name : Function → String
  | closure code _ => code.name
  | builtin b => b.name

inductive Value where
  | undefined
  | bool (value : Bool)
  | number (value : Number)
  | text (value : String)
  | array (ref : Ref)
  | function (ref : Ref) (function : Function)
  /-- An error that was caught, unless the program threw a value of its own. -/
  | error (ref : Ref) (family : Family) (message : String)
  deriving Inhabited

namespace Value

/-- The word that `typeof` gives. -/
def typeName : Value → String
  | undefined => "undefined"
  | bool _ => "boolean"
  | number _ => "number"
  | text _ => "string"
  | function _ _ => "function"
  | array _ => "object"
  | error _ _ _ => "object"

def truthy : Value → Bool
  | undefined => false
  | bool b => b
  | number n => n.truthy
  | text s => s ≠ ""
  | _ => true

/-- Equality without conversion. Arrays, functions and errors are equal by identity. -/
def strictlyEqual : Value → Value → Bool
  | undefined, undefined => true
  | bool a, bool b => a == b
  | number a, number b => a.equal b
  | text a, text b => a == b
  | array a, array b => a == b
  | function a _, function b _ => a == b
  | error a _ _, error b _ _ => a == b
  | _, _ => false

def ofLiteral : Literal → Value
  | .undefined => undefined
  | .bool b => bool b
  | .number n => number n
  | .text s => text s

end Value

end LateConst
