/-!
# Double-precision numbers as exact counts of one small unit

Every finite double is a whole multiple of 2^-1074, so a finite double is kept here as a sign and
the number of those units. Order and equality are then order and equality of integers, and each
arithmetic operation is the exact integer operation followed by one rounding.

`Double.round` is that rounding: it keeps 53 significant bits, sends a tie to the even neighbour,
and goes to infinity beyond the largest finite double. Values built through it are exactly the
doubles of the IEEE format; the sign is kept apart because zero has two of them.
-/

namespace LateConst

/-- A double: the not-a-number, an infinity, or a signed count of units of 2^-1074. -/
inductive Double where
  | nan
  | infinite (negative : Bool)
  | finite (negative : Bool) (units : Nat)
  deriving DecidableEq, Repr, Inhabited

/-- The integer nearest to a quotient; a quotient halfway between two goes to the even one. -/
def roundHalfEven (num den : Nat) : Nat :=
  let quotient := num / den
  let rest := 2 * (num % den)
  if rest < den then quotient
  else if den < rest then quotient + 1
  else quotient + quotient % 2

namespace Double

def unitsPerOne : Nat := Nat.pow 2 1074

/-- The first count of units that is too large for a finite double. -/
def unitsLimit : Nat := Nat.pow 2 2098

/-- The distance, in units, of neighbouring doubles from a count of units upwards: doubles have
53 significant bits. -/
def spacing (units : Nat) : Nat := Nat.pow 2 (units.log2 - 52)

/-- The double of the given sign nearest to `num / den` units. -/
def round (negative : Bool) (num den : Nat) : Double :=
  let step := spacing (num / den)
  let units := roundHalfEven num (den * step) * step
  if units < unitsLimit then .finite negative units else .infinite negative

def ofQuotient (negative : Bool) (num den : Nat) : Double :=
  round negative (num * unitsPerOne) den

def ofInt (n : Int) : Double :=
  ofQuotient (decide (n < 0)) n.natAbs 1

def zero : Double := .finite false 0

def neg : Double → Double
  | .nan => .nan
  | .infinite negative => .infinite (!negative)
  | .finite negative units => .finite (!negative) units

def signed (negative : Bool) (units : Nat) : Int :=
  if negative then -(units : Int) else units

/-- The sum; a sum of zero is negative only if both summands are. -/
def add : Double → Double → Double
  | .nan, _ => .nan
  | _, .nan => .nan
  | .infinite a, .infinite b => if a = b then .infinite a else .nan
  | .infinite a, .finite _ _ => .infinite a
  | .finite _ _, .infinite b => .infinite b
  | .finite a m, .finite b n =>
    let total := signed a m + signed b n
    if total = 0 then .finite (a && b) 0 else round (decide (total < 0)) total.natAbs 1

def sub (x y : Double) : Double := add x (neg y)

def mul : Double → Double → Double
  | .nan, _ => .nan
  | _, .nan => .nan
  | .infinite a, .infinite b => .infinite (a ^^ b)
  | .infinite a, .finite b n => if n = 0 then .nan else .infinite (a ^^ b)
  | .finite a m, .infinite b => if m = 0 then .nan else .infinite (a ^^ b)
  | .finite a m, .finite b n => round (a ^^ b) (m * n) unitsPerOne

def div : Double → Double → Double
  | .nan, _ => .nan
  | _, .nan => .nan
  | .infinite _, .infinite _ => .nan
  | .infinite a, .finite b _ => .infinite (a ^^ b)
  | .finite a _, .infinite b => .finite (a ^^ b) 0
  | .finite a m, .finite b n =>
    if n = 0 then if m = 0 then .nan else .infinite (a ^^ b)
    else round (a ^^ b) (m * unitsPerOne) n

/-- The remainder of the quotient cut towards zero, with the sign of the dividend. It is always
exact. A dividend that is infinite and a divisor that is zero have none. -/
def remainder : Double → Double → Option Double
  | .nan, _ => some .nan
  | _, .nan => some .nan
  | .infinite _, _ => none
  | .finite a m, .infinite _ => some (.finite a m)
  | .finite a m, .finite _ n => if n = 0 then none else some (.finite a (m % n))

def toInt? : Double → Option Int
  | .finite negative units =>
    if units % unitsPerOne = 0 then some (signed negative (units / unitsPerOne)) else none
  | _ => none

end Double

end LateConst
