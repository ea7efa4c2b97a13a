import LateConst.Number.Double

/-!
# The shortest decimal that reads back

`Double.shortest` finds, for a finite double that is not zero, a decimal with as few digits as
possible among those that read back as the same double, and the nearest such decimal to the double
itself. A decimal reads back if it lies in the interval of numbers that round to the double; the
ends of that interval belong to it exactly if the double is the even one of its neighbours.

For each count of digits only the two neighbours of the double on that decimal grid can lie in the
interval, so seventeen grids with two candidates each decide the matter in integer arithmetic.
-/

namespace LateConst

/-- A positive decimal, the number `digits * 10 ^ exponent`. -/
structure Decimal where
  digits : Nat
  exponent : Int
  deriving DecidableEq, Repr, Inhabited

namespace Double

/-- The exponent of the leading decimal digit of a positive count of units. A unit is more than
10^-400, so the count of whole multiples of 10^-400 has the same leading digit. -/
def leadingExponent (units : Nat) : Int :=
  (Nat.toDigits 10 (units * Nat.pow 10 400 / unitsPerOne)).length - 401

/-- The distance to the next double below, which is half as large at a power of two. -/
def spacingBelow (units : Nat) : Nat :=
  if units = Nat.pow 2 units.log2 then (spacing units + 1) / 2 else spacing units

/-- Whether `num / den` units round to the double of the given count of units. -/
def readsBack (units num den : Nat) : Bool :=
  let low := (2 * units - spacingBelow units) * den
  let high := (2 * units + spacing units) * den
  let ends := units / spacing units % 2 = 0
  (low < 2 * num ∧ 2 * num < high) ∨ (ends ∧ (low = 2 * num ∨ 2 * num = high))

/-- The decimal with its last digit at `exponent` that reads back and is nearest to the double. -/
def nearestOnGrid (units : Nat) (exponent : Int) : Option Decimal :=
  let num := units * Nat.pow 10 (-exponent).toNat
  let den := unitsPerOne * Nat.pow 10 exponent.toNat
  let nearest := roundHalfEven num den
  let other := if nearest = num / den then nearest + 1 else num / den
  ([nearest, other].find? fun digits ↦
    readsBack units (digits * den) (Nat.pow 10 (-exponent).toNat)).map
    fun digits ↦ ⟨digits, exponent⟩

/-- The shortest decimal that reads back as the given positive count of units. -/
def shortest (units : Nat) : Decimal :=
  let lead := leadingExponent units
  ((List.range 17).findSome? fun extra ↦ nearestOnGrid units (lead - (extra : Nat))).getD
    ⟨units, 0⟩

end Double

end LateConst
