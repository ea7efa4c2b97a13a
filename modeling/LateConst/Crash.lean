import LateConst.Text.Quoted

/-!
# Failures that no script can catch

A `Crash` ends the whole run: scripts cannot observe it and no handler sees it. Most of them are
limits of the machine under the language; a `Violation` says that the interpreter itself gave a
declared name its initial value at a moment when it must not.

Of the limits of the stack only the one on arrays inside each other is counted, when they are
written. Statements, expressions and calls nest as deep as a program wants them to.
-/

namespace LateConst

/-- A declared name was given its initial value against the rules of its entry. -/
inductive Violation where
  | initializedTwice (name : String)
  | initializedAfterWrite (name : String)
  deriving DecidableEq, Repr

def Violation.message : Violation → String
  | initializedTwice name => "binding " ++ quoted name ++ " initialized twice"
  | initializedAfterWrite name =>
    "binding " ++ quoted name ++ " initialized after its write-once assignment"

inductive Crash where
  /-- A record was asked for a name it does not hold. -/
  | missingName (name : String)
  | violation (cause : Violation)
  /-- An integer has more decimal digits than may be read or written. -/
  | tooManyDigits
  /-- An integer is beyond the range of doubles. -/
  | tooLargeForDouble
  /-- The dividend of a remainder is infinite. -/
  | noRemainder
  /-- No file can have the path of the program. -/
  | impossiblePath
  /-- A program file is not UTF-8. -/
  | notUtf8
  /-- Arrays are inside each other too deep to be written, or without end. -/
  | endlessText
  deriving DecidableEq, Repr

end LateConst
