import LateConst.Number.Text
import LateConst.Token

/-!
# From text to tokens

`scan` cuts a text into tokens from left to right. At each offset the longest piece that is a token
or a gap is taken; a gap is a run of white space or a comment up to the end of its line. All
character classes are ASCII.

A scan ends at the end of the text, or at a character that starts nothing, or at an integer literal
with too many digits to be read. The tokens before that point are there in any case, so a reader
that fails on one of them never comes to the end.
-/

namespace LateConst

/-- White space between tokens. -/
def isGapChar (c : Char) : Bool := c == ' ' || ('\t' ≤ c && c ≤ '\r')

def endsComment (c : Char) : Bool := '\n' ≤ c && c ≤ '\r'

def isNameStart (c : Char) : Bool := c.isAlpha || c == '_'

def isNameChar (c : Char) : Bool := c.isAlphanum || c == '_'

def ofDigits (digits : List Char) : Nat :=
  digits.foldl (fun value digit ↦ 10 * value + (digit.toNat - '0'.toNat)) 0

/-- A piece of text at some offset, by what it is. -/
inductive Piece where
  | gap
  | lexeme (lexeme : Lexeme)
  /-- An integer literal that cannot be read. -/
  | oversized
  deriving DecidableEq, Repr

namespace Piece

/-- A literal without a point is an integer, and may have no more digits than any integer text. -/
def integer (digits : List Char) : Piece :=
  if digits.length ≤ digitLimit then .lexeme (.number (.int (ofDigits digits))) else .oversized

/-- A literal with a point is the double nearest to what it writes. -/
def decimal (whole fraction : List Char) : Piece :=
  .lexeme (.number (.double
    (Double.ofQuotient false (ofDigits (whole ++ fraction)) (Nat.pow 10 fraction.length))))

/-- The number at the start of a text that starts with a digit. A point counts only before another
digit. -/
def number (cs : List Char) : Piece × Nat :=
  let whole := cs.takeWhile Char.isDigit
  match cs.dropWhile Char.isDigit with
  | '.' :: rest =>
    match rest.takeWhile Char.isDigit with
    | [] => (integer whole, whole.length)
    | fraction => (decimal whole fraction, whole.length + 1 + fraction.length)
  | _ => (integer whole, whole.length)

/-- The string that follows an opening quote, if it is closed. It may run over several lines. -/
def quoted (cs : List Char) : Option (Piece × Nat) :=
  let inner := cs.takeWhile (· ≠ '"')
  if inner.length < cs.length then
    some (.lexeme (.text (String.ofList inner)), inner.length + 2)
  else none

def word (cs : List Char) : Piece × Nat :=
  let letters := cs.takeWhile isNameChar
  let text := String.ofList letters
  match Keyword.ofText? text with
  | some keyword => (.lexeme (.word keyword), letters.length)
  | none => (.lexeme (.name text), letters.length)

def mark (c : Char) (rest : List Char) : Option (Piece × Nat) :=
  match rest.head?.bind (Mark.ofPair? c) with
  | some pair => some (.lexeme (.mark pair), 2)
  | none => (Mark.ofChar? c).map fun single ↦ (.lexeme (.mark single), 1)

/-- The longest piece at the start of a text and its length, which is never zero. -/
def first? : List Char → Option (Piece × Nat)
  | [] => none
  | c :: rest =>
    if isGapChar c then some (.gap, 1 + (rest.takeWhile isGapChar).length)
    else if c.isDigit then some (number (c :: rest))
    else if isNameStart c then some (word (c :: rest))
    else if c = '"' then quoted rest
    else if c = '/' ∧ rest.head? = some '/' then
      some (.gap, 1 + (rest.takeWhile fun d ↦ !endsComment d).length)
    else mark c rest

end Piece

inductive Ending where
  | finished
  /-- Nothing that is a token or a gap starts at this offset. -/
  | stuck (offset : Nat)
  | oversized
  deriving DecidableEq, Repr

structure Scan where
  tokens : List Token
  ending : Ending
  deriving DecidableEq, Repr

/-- Scans the rest of a text from `offset` on, of which the first `covered` characters belong to
the piece before. -/
def scanFrom (covered offset : Nat) : List Char → Scan
  | [] => ⟨[], .finished⟩
  | c :: rest =>
    match covered with
    | more + 1 => scanFrom more (offset + 1) rest
    | 0 =>
      match Piece.first? (c :: rest) with
      | none => ⟨[], .stuck offset⟩
      | some (.oversized, _) => ⟨[], .oversized⟩
      | some (.gap, length) => scanFrom (length - 1) (offset + 1) rest
      | some (.lexeme lexeme, length) =>
        let after := scanFrom (length - 1) (offset + 1) rest
        { after with tokens := ⟨lexeme, ⟨offset, offset + length⟩⟩ :: after.tokens }

def scan (text : List Char) : Scan := scanFrom 0 0 text

end LateConst
