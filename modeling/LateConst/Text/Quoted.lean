import LateConst.Text.Printable

/-!
# Quoted text

A quoted text shows where a string begins and ends and what is in it. The quotes are single, unless
the text holds a single quote and no double one. The quote, the backslash and every character that
is not printable are escaped: a tab and the two line breaks by a letter, the others by their code
point in as few of two, four or eight hexadecimal digits as it takes.
-/

namespace LateConst

/-- The hexadecimal digits of a code point, in at least `width` places. -/
def hexDigits (width code : Nat) : List Char :=
  let digits := Nat.toDigits 16 code
  List.replicate (width - digits.length) '0' ++ digits

/-- A character as it stands between the given quotes. -/
def escapeChar (quote c : Char) : List Char :=
  if c = quote ∨ c = '\\' then ['\\', c]
  else if c = '\n' then ['\\', 'n']
  else if c = '\r' then ['\\', 'r']
  else if c = '\t' then ['\\', 't']
  else if isPrintable c then [c]
  else if c.toNat < 0x100 then '\\' :: 'x' :: hexDigits 2 c.toNat
  else if c.toNat < 0x10000 then '\\' :: 'u' :: hexDigits 4 c.toNat
  else '\\' :: 'U' :: hexDigits 8 c.toNat

def quoted (text : String) : String :=
  let cs := text.toList
  let quote := if '\'' ∈ cs ∧ '"' ∉ cs then '"' else '\''
  String.ofList (quote :: cs.flatMap (escapeChar quote) ++ [quote])

end LateConst
