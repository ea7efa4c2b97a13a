import LateConst.Crash
import LateConst.Number.Double

/-!
# Numbers of the language

A number is an unbounded integer or a double. Integers stay integers under `+`, `-`, `*` and `%`;
a quotient is always a double; an integer that meets a double is first rounded to one.

Comparison is exact across both kinds. Its definition is one view: every number but the
not-a-number has a place on the extended line of units of 2^-1074, and numbers are compared by
their places.
-/

namespace LateConst

inductive Number where
  | int (value : Int)
  | double (value : Double)
  deriving DecidableEq, Repr, Inhabited

/-- A place on the line of units, extended by both infinities. -/
inductive Place where
  | below
  | at (units : Int)
  | above
  deriving DecidableEq, Repr

namespace Place

def lt : Place → Place → Bool
  | .below, .below => false
  | .below, _ => true
  | .at m, .at n => decide (m < n)
  | .at _, .above => true
  | _, _ => false

end Place

/-- What has been made of integers alone must not be beyond the range of doubles. -/
def Double.inRange : Double → Except Crash Double
  | .infinite _ => .error .tooLargeForDouble
  | d => .ok d

namespace Number

/-- Where a number stands; the not-a-number stands nowhere. -/
def place? : Number → Option Place
  | .int n => some (.at (n * Double.unitsPerOne))
  | .double .nan => none
  | .double (.infinite negative) => some (if negative then .below else .above)
  | .double (.finite negative units) => some (.at (Double.signed negative units))

def equal (a b : Number) : Bool :=
  match a.place?, b.place? with
  | some p, some q => p == q
  | _, _ => false

def less (a b : Number) : Bool :=
  match a.place?, b.place? with
  | some p, some q => p.lt q
  | _, _ => false

def lessOrEqual (a b : Number) : Bool := a.less b || a.equal b

def isZero (a : Number) : Bool := a.place? == some (.at 0)

/-- Zero is false; every other number, the not-a-number included, is true. -/
def truthy (a : Number) : Bool := !a.isZero

def neg : Number → Number
  | .int n => .int (-n)
  | .double d => .double d.neg

def toDouble : Number → Except Crash Double
  | .double d => .ok d
  | .int n => (Double.ofInt n).inRange

/-- Applies the operation on integers to two integers, and the one on doubles otherwise. -/
def combine (onInt : Int → Int → Int) (onDouble : Double → Double → Double) :
    Number → Number → Except Crash Number
  | .int m, .int n => .ok (.int (onInt m n))
  | a, b => do
    let x ← a.toDouble
    let y ← b.toDouble
    return .double (onDouble x y)

def add : Number → Number → Except Crash Number := combine (· + ·) Double.add

def sub : Number → Number → Except Crash Number := combine (· - ·) Double.sub

def mul : Number → Number → Except Crash Number := combine (· * ·) Double.mul

/-- The quotient as a double. The quotient of two integers is rounded once, from its exact value. -/
def div : Number → Number → Except Crash Number
  | .int m, .int n => do
    let x ← (Double.ofQuotient (decide (m < 0) ^^ decide (n < 0)) m.natAbs n.natAbs).inRange
    return .double x
  | a, b => do
    let x ← a.toDouble
    let y ← b.toDouble
    return .double (x.div y)

/-- The remainder with the sign of the dividend. -/
def rem : Number → Number → Except Crash Number
  | .int m, .int n => .ok (.int (m.tmod n))
  | a, b => do
    let x ← a.toDouble
    let y ← b.toDouble
    match x.remainder y with
    | some d => return .double d
    | none => throw .noRemainder

def toInt? : Number → Option Int
  | .int n => some n
  | .double d => d.toInt?

end Number

end LateConst
