import LateConst.Reading.State
import LateConst.Token.Scan

/-!
# Reading a program

`Program.read` reads the tokens of a text one by one. It stops at the first token that no program
could have at that point, at a character that starts no token, or at the end of a text that is not
yet a program; each of these is a `Confusion`, with words of advice and a place in the text. Tokens
are looked at in order, so what is wrong with an earlier token is found before anything later.
-/

namespace LateConst

inductive Confusion where
  /-- A token that cannot follow what has been recognised before it. -/
  | unexpected (recognised : List String) (token : Token)
  /-- A character that starts nothing. -/
  | strayCharacter (offset : Nat)
  | unfinished
  deriving DecidableEq, Repr

/-- Words for a token that is refused after certain symbols. -/
structure Advice where
  after : List String
  symbol : String
  words : String

/-- The cases with words of their own; the first that fits is used. -/
def Advice.known : List Advice := [
  ⟨["[", "names", "]"], ";",
    "A destructuring declaration needs an initializer: " ++
      "patterns always take their value immediately."⟩,
  ⟨["CONST", "decl_list"], "name", "Probably a missing comma between these names."⟩,
  ⟨["expr"], "name", "Probably a missing semicolon just before here."⟩,
  ⟨["expr"], "=", "Only plain names can be assigned to."⟩,
  ⟨["IF"], "name", "The condition of an `if` goes in (parentheses)."⟩,
  ⟨["WHILE"], "name", "The condition of a `while` goes in (parentheses)."⟩]

/-- Words for a refused token. Without a known case they list what has been recognised. -/
def Advice.wordsFor (recognised : List String) (symbol : String) : String :=
  match known.find? fun advice ↦ advice.symbol == symbol && advice.after.isSuffixOf recognised with
  | some advice => advice.words
  | none => "Guru Meditation: " ++ " ".intercalate (recognised ++ ["●", symbol])

namespace Confusion

def words : Confusion → String
  | unexpected recognised token => Advice.wordsFor recognised token.symbol
  | strayCharacter _ => "I don't know what to make of this character."
  | unfinished => "The text ends in the middle of something. Is a '\x7d' or ';' missing?"

/-- Where the text is confusing, unless it is at its end. -/
def span? : Confusion → Option Span
  | unexpected _ token => some token.span
  | strayCharacter offset => some ⟨offset, offset + 1⟩
  | unfinished => none

end Confusion

def Reading.feed (reading : Reading) (token : Token) : Except Confusion Reading :=
  let settled := reading.settle token.lexeme
  match settled.shift token with
  | some next => .ok next
  | none => .error (.unexpected settled.symbols token)

inductive ReadResult where
  | program (program : Program)
  | confused (confusion : Confusion)
  | crashed (crash : Crash)

def Scan.read (scan : Scan) : ReadResult :=
  match scan.tokens.foldlM Reading.feed Reading.start with
  | .error confusion => .confused confusion
  | .ok reading =>
    match scan.ending with
    | .stuck offset => .confused (.strayCharacter offset)
    | .oversized => .crashed .tooManyDigits
    | .finished =>
      match reading.finish with
      | some program => .program program
      | none => .confused .unfinished

def Program.read (text : List Char) : ReadResult := (scan text).read

end LateConst
