import LateConst.Text.Quoted

/-!
# Places in a text

A span is a stretch of a program's text, given by the offsets of its ends in characters. An
identifier is one occurrence of a name together with the place where it stands.
-/

namespace LateConst

/-- The characters from offset `left` up to, but not including, offset `right`. -/
structure Span where
  left : Nat
  right : Nat
  deriving DecidableEq, Repr, Inhabited

def Span.to (first last : Span) : Span := ⟨first.left, last.right⟩

/-- An occurrence of a name. -/
structure Ident where
  name : String
  span : Span
  deriving DecidableEq, Repr, Inhabited

def Ident.describe (ident : Ident) : String := "<Name " ++ quoted ident.name ++ ">"

end LateConst
