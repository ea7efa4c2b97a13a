import LateConst.FilePath
import LateConst.Span
import LateConst.Text.Blank

/-!
# Excerpts of a source text

A source text is read as rows. A row ends after a carriage return with a line feed, after a carriage
return alone, or after a line feed alone, and keeps its line break; the last row has none.
`locate` finds the row and the column of an offset.

An excerpt quotes the row where a span starts and puts carets under the span. The blanks before the
carets copy the tabs of the row, so that the first caret stands below the first character of the
span however wide a tab is.
-/

namespace LateConst

/-- A program text and the path of the file it came from, if it came from one. -/
structure Source where
  text : List Char
  path : Option FilePath

namespace Source

def empty : Source := ⟨[], none⟩

/-- The rows of a text, each with its line break. There is always at least one. -/
def rows : List Char → List (List Char)
  | [] => [[]]
  | '\r' :: '\n' :: cs => ['\r', '\n'] :: rows cs
  | c :: cs =>
    if c = '\r' ∨ c = '\n' then [c] :: rows cs
    else match rows cs with
      | [] => [[c]]
      | row :: more => (c :: row) :: more

/-- Where an offset falls: the number of its row, counted from 1, its column, and the row. An
offset beyond the text falls into the last row. -/
structure Position where
  row : Nat
  column : Nat
  line : List Char

def locateIn : List (List Char) → Nat → Position
  | [], offset => ⟨1, offset, []⟩
  | [last], offset => ⟨1, offset, last⟩
  | row :: next :: more, offset =>
    if offset < row.length then ⟨1, offset, row⟩
    else
      let found := locateIn (next :: more) (offset - row.length)
      { found with row := found.row + 1 }

def locate (source : Source) (offset : Nat) : Position :=
  locateIn (rows source.text) offset

/-- The margin of an excerpt: the number of the row, right-aligned, and a bar. -/
def margin (row : Nat) : List Char :=
  let number := ' ' :: (toString row).toList
  List.replicate (6 - number.length) ' ' ++ number ++ [' ', '|']

/-- A text of the same width that keeps the tabs and is otherwise blank. -/
def blanked (cs : List Char) : List Char :=
  cs.map fun c ↦ if c = '\t' then '\t' else ' '

/-- The number of carets: at least one, and none beyond the row with its line break. -/
def caretCount (position : Position) (width : Nat) : Nat :=
  max 1 (min width (position.line.length - position.column))

/-- The row where a span starts, and below it carets under the span with a caption. -/
def excerpt (source : Source) (span : Span) (caption : String) : String :=
  let position := source.locate span.left
  let margin := margin position.row
  let carets := List.replicate (caretCount position (span.right - span.left)) '^'
  String.ofList (margin ++ trimBlanks position.line ++ '\n' ::
    (blanked (margin ++ position.line.take position.column) ++ carets ++ ' ' :: caption.toList))

end Source

end LateConst
