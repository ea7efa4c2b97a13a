/-!
# Program files

What is found under the path of a program, and what text is in it. A file holds UTF-8; a carriage
return, with a line feed after it or alone, is read as a line feed.
-/

namespace LateConst

inductive FileContent where
  | missing
  | unreadable
  | bytes (content : ByteArray)

/-- A text in which every line ends with a line feed. -/
def unifyLineEnds : List Char → List Char
  | [] => []
  | '\r' :: '\n' :: cs => '\n' :: unifyLineEnds cs
  | '\r' :: cs => '\n' :: unifyLineEnds cs
  | c :: cs => c :: unifyLineEnds cs

/-- The text of a file, if it is UTF-8. -/
def fileText? (content : ByteArray) : Option (List Char) :=
  (String.fromUTF8? content).map fun text ↦ unifyLineEnds text.toList

end LateConst
