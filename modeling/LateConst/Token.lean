import LateConst.Number
import LateConst.Span

/-!
# Tokens

A token is a literal, a name, a reserved word or a punctuation mark, with its place in the text.
Every token has a symbol, the name by which grammar and error messages speak of it: the mark
itself, the reserved word in capitals, or the kind of the literal.
-/

namespace LateConst

inductive Keyword where
  | constWord | letWord | functionWord | returnWord | ifWord | elseWord | whileWord | forWord
  | ofWord | printWord | typeofWord | pauseWord | spawnWord | tryWord | catchWord | throwWord
  | trueWord | falseWord | undefinedWord
  deriving DecidableEq, Repr

namespace Keyword

def all : List Keyword :=
  [constWord, letWord, functionWord, returnWord, ifWord, elseWord, whileWord, forWord, ofWord,
    printWord, typeofWord, pauseWord, spawnWord, tryWord, catchWord, throwWord, trueWord,
    falseWord, undefinedWord]

def text : Keyword → String
  | constWord => "const" | letWord => "let" | functionWord => "function"
  | returnWord => "return" | ifWord => "if" | elseWord => "else" | whileWord => "while"
  | forWord => "for" | ofWord => "of" | printWord => "print" | typeofWord => "typeof"
  | pauseWord => "pause" | spawnWord => "spawn" | tryWord => "try" | catchWord => "catch"
  | throwWord => "throw" | trueWord => "true" | falseWord => "false"
  | undefinedWord => "undefined"

/-- A reserved word in capitals. -/
def symbol (word : Keyword) : String := word.text.toUpper

def ofText? (text : String) : Option Keyword := all.find? fun word ↦ word.text == text

end Keyword

inductive Mark where
  | plus | minus | star | slash | percent | bang | assign
  | less | lessEqual | greater | greaterEqual | equal | notEqual | andAnd | orOr
  | openParen | closeParen | openBrace | closeBrace | openBracket | closeBracket
  | comma | semicolon
  deriving DecidableEq, Repr

namespace Mark

def symbol : Mark → String
  | plus => "+" | minus => "-" | star => "*" | slash => "/" | percent => "%" | bang => "!"
  | assign => "=" | less => "<" | lessEqual => "<=" | greater => ">" | greaterEqual => ">="
  | equal => "==" | notEqual => "!=" | andAnd => "&&" | orOr => "||"
  | openParen => "(" | closeParen => ")" | openBrace => "\x7b" | closeBrace => "\x7d"
  | openBracket => "[" | closeBracket => "]" | comma => "," | semicolon => ";"

def ofPair? : Char → Char → Option Mark
  | '<', '=' => some lessEqual
  | '>', '=' => some greaterEqual
  | '=', '=' => some equal
  | '!', '=' => some notEqual
  | '&', '&' => some andAnd
  | '|', '|' => some orOr
  | _, _ => none

def ofChar? : Char → Option Mark
  | '+' => some plus
  | '-' => some minus
  | '*' => some star
  | '/' => some slash
  | '%' => some percent
  | '!' => some bang
  | '=' => some assign
  | '<' => some less
  | '>' => some greater
  | '(' => some openParen
  | ')' => some closeParen
  | '\x7b' => some openBrace
  | '\x7d' => some closeBrace
  | '[' => some openBracket
  | ']' => some closeBracket
  | ',' => some comma
  | ';' => some semicolon
  | _ => none

end Mark

/-- What a token is, apart from where it stands. -/
inductive Lexeme where
  | number (value : Number)
  | text (value : String)
  | name (name : String)
  | word (word : Keyword)
  | mark (mark : Mark)
  deriving DecidableEq, Repr

def Lexeme.symbol : Lexeme → String
  | number _ => "number"
  | text _ => "string"
  | name _ => "name"
  | word w => w.symbol
  | mark m => m.symbol

structure Token where
  lexeme : Lexeme
  span : Span
  deriving DecidableEq, Repr

def Token.symbol (token : Token) : String := token.lexeme.symbol

end LateConst
