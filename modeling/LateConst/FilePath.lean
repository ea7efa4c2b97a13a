/-!
# File paths

A path is kept in its plainest spelling: the slashes at its start, if any, and the names between its
other slashes. Empty names and single dots say nothing and are left out; double dots stay, because
what they mean depends on the files.
-/

namespace LateConst

structure FilePath where
  /-- The slashes at the start. -/
  root : String
  names : List String
  deriving DecidableEq, Repr

namespace FilePath

/-- The slashes that a path with the given number of slashes at its start keeps. Exactly two are
kept apart from one; more mean one. -/
def rootOf : Nat → String
  | 0 => ""
  | 2 => "//"
  | _ => "/"

def ofText (text : String) : FilePath where
  root := rootOf (text.toList.takeWhile (· = '/')).length
  names := (text.splitOn "/").filter fun name ↦ name ≠ "" ∧ name ≠ "."

/-- The plainest spelling. A path without anything is a dot. -/
def text (path : FilePath) : String :=
  let plain := path.root ++ "/".intercalate path.names
  if plain = "" then "." else plain

def seenFrom (path directory : FilePath) : FilePath :=
  if path.root = "" then ⟨directory.root, directory.names ++ path.names⟩ else path

/-- Whether a path can be the path of a file: the null character is in no name. -/
def isPossible (path : FilePath) : Bool := path.names.all fun name ↦ !name.contains '\x00'

end FilePath

end LateConst
