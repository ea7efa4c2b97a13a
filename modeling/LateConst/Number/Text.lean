import LateConst.Number
import LateConst.Number.Shortest

/-!
# The text of a number

`Double.text` writes the shortest decimal that reads back in a fixed layout: positional from
10^-4 up to 10^16, always with a point, and scientific elsewhere with a sign and at least two digits
in the exponent. `Number.text` is what scripts see: a whole double is written as the integer it
equals, and integers of more than 4300 digits cannot be written at all.
-/

namespace LateConst

/-- The most decimal digits an integer may have in a text. -/
def digitLimit : Nat := 4300

def intText (n : Int) : Except Crash String :=
  if n.natAbs < Nat.pow 10 digitLimit then .ok (toString n) else .error .tooManyDigits

/-- How a decimal is laid out: the leading exponents for which it is positional, and the least
number of digits in an exponent. -/
structure Decimal.Layout where
  positionalFrom : Int
  positionalBefore : Int
  exponentDigits : Nat

namespace Decimal

/-- Positional from 10^-4 to below 10^16; exponents have two digits or more. -/
def Layout.standard : Layout := ⟨-4, 16, 2⟩

/-- The significant digits, without the zeros at the end. -/
def significant (d : Decimal) : List Char :=
  ((Nat.toDigits 10 d.digits).reverse.dropWhile (· == '0')).reverse

/-- The exponent of the leading digit. -/
def lead (d : Decimal) : Int := (Nat.toDigits 10 d.digits).length - 1 + d.exponent

def padRight (cs : List Char) (width : Nat) : List Char :=
  cs ++ List.replicate (width - cs.length) '0'

def padLeft (cs : List Char) (width : Nat) : List Char :=
  List.replicate (width - cs.length) '0' ++ cs

def positional (d : Decimal) : List Char :=
  if 0 ≤ d.lead then
    let whole := d.lead.toNat + 1
    let digits := padRight d.significant (whole + 1)
    digits.take whole ++ '.' :: digits.drop whole
  else
    '0' :: '.' :: (List.replicate ((-d.lead).toNat - 1) '0' ++ d.significant)

def scientific (layout : Layout) (d : Decimal) : List Char :=
  let fraction := match d.significant with
    | [] => ['0']
    | [digit] => [digit]
    | digit :: more => digit :: '.' :: more
  let sign := if d.lead < 0 then '-' else '+'
  fraction ++ 'e' :: sign :: padLeft (Nat.toDigits 10 d.lead.natAbs) layout.exponentDigits

def text (layout : Layout) (d : Decimal) : List Char :=
  if layout.positionalFrom ≤ d.lead ∧ d.lead < layout.positionalBefore then d.positional
  else d.scientific layout

end Decimal

/-- The shortest text that reads back as the same double. -/
def Double.text : Double → String
  | .nan => "nan"
  | .infinite negative => if negative then "-inf" else "inf"
  | .finite negative units =>
    let digits := if units = 0 then ['0', '.', '0']
      else (Double.shortest units).text .standard
    String.ofList (if negative then '-' :: digits else digits)

def Number.text : Number → Except Crash String
  | .int n => intText n
  | .double d =>
    match d.toInt? with
    | some n => intText n
    | none => .ok d.text

end LateConst
