import LateConst.Text.Source

/-!
# Notices

A notice tells a person about one thing that is wrong: a headline, excerpts of the source with
captions, and closing lines. A `Bulletin` collects the notices of one program in the order in which
they came up. It has a cap: the notice that brings their number to exactly the cap is still kept,
but with it the bulletin is full and its caller has to give up. A cap of zero or less is never
reached.

Operations that can fill a bulletin give an `Except`, whose error is the full bulletin.
-/

namespace LateConst

/-- A quoted place with a caption; without a span it is the end of the text. -/
structure Excerpt where
  source : Source
  span : Option Span
  caption : String

def Excerpt.text (excerpt : Excerpt) : String :=
  match excerpt.span with
  | none => "      | (at the end of the text) " ++ excerpt.caption
  | some span => excerpt.source.excerpt span excerpt.caption

structure Notice where
  headline : String
  excerpts : List Excerpt
  closing : List String

namespace Notice

/-- The lines of excerpts. A file is named above the first excerpt from it in a row. -/
def excerptLines (path : Option FilePath) : List Excerpt → List String
  | [] => []
  | e :: more =>
    let heading := if e.source.path = path then [] else e.source.path.toList.map FilePath.text
    heading ++ e.text :: excerptLines e.source.path more

def text (notice : Notice) : String :=
  "\n".intercalate
    ([notice.headline, ""] ++ excerptLines none notice.excerpts ++ notice.closing)

end Notice

structure Bulletin where
  verbose : Bool
  cap : Int
  source : Source
  notices : List Notice
  /-- Which notice tells about the redeclaration of a name, by the name and a mark of its first
  declaration. -/
  redeclared : List ((String × Nat) × Nat)

namespace Bulletin

def new (verbose : Bool) (cap : Int) : Bulletin := ⟨verbose, cap, .empty, [], []⟩

def defaultCap : Int := 3

/-- A cap that is never reached. -/
def noCap : Int := 0

def setSource (b : Bulletin) (source : Source) : Bulletin := { b with source := source }

def clear (b : Bulletin) : Bulletin := { b with notices := [], redeclared := [] }

def excerpt (b : Bulletin) (span : Option Span) (caption : String) : Excerpt :=
  ⟨b.source, span, caption⟩

def post (b : Bulletin) (notice : Notice) : Except Bulletin Bulletin :=
  let b := { b with notices := b.notices ++ [notice] }
  if (b.notices.length : Int) = b.cap then .error b else .ok b

/-- Adds a notice that quotes some places without captions. -/
def postAt (b : Bulletin) (headline : String) (spans : List Span) : Except Bulletin Bulletin :=
  b.post ⟨headline, spans.map fun span ↦ b.excerpt (some span) "", []⟩

def confused (b : Bulletin) (span : Option Span) (words : String) : Except Bulletin Bulletin :=
  b.post ⟨"Belated got confused by the syntax here.", [b.excerpt span "confused here"], [words]⟩

def missingFile (b : Bulletin) (path : FilePath) : Except Bulletin Bulletin :=
  b.post ⟨"I see no file called " ++ path.text, [], []⟩

def unreadableFile (b : Bulletin) (path : FilePath) : Except Bulletin Bulletin :=
  b.post ⟨"Something went pear-shaped while trying to read " ++ path.text, [], []⟩

def extend (b : Bulletin) (index : Nat) (excerpt : Excerpt) : Bulletin :=
  { b with notices := b.notices.modify index fun notice ↦
      { notice with excerpts := notice.excerpts ++ [excerpt] } }

/-- Tells that a name is declared again. All that is said about one name with the same first
declaration goes into one notice. -/
def redeclaration (b : Bulletin) (name : String) (mark : Nat) (first guilty : Span) :
    Except Bulletin Bulletin :=
  match b.redeclared.lookup (name, mark) with
  | some index => .ok (b.extend index (b.excerpt (some guilty) ""))
  | none => do
    let index := b.notices.length
    let b ← b.post ⟨"This name is declared more than once in the same scope.",
      [b.excerpt (some first) "Earliest declaration"], []⟩
    return { b with redeclared := ((name, mark), index) :: b.redeclared }.extend index
      (b.excerpt (some guilty) "")

def strayReturn (b : Bulletin) (span : Span) : Except Bulletin Bulletin :=
  b.postAt "You can only return from within a function." [span]

def uncaught (b : Bulletin) (family message : String) (span : Option Span) :
    Except Bulletin Bulletin :=
  b.post ⟨"Uncaught " ++ family ++ ": " ++ message,
    span.toList.map fun span ↦ b.excerpt (some span) family, []⟩

/-- What the interpreter exclaims when it has to give up. -/
def outburst : String := "Oh, Ack! I cannot continue."

/-- The lines that put all notices before a person; none if there are no notices. -/
def outcry (b : Bulletin) : List String :=
  if b.notices.isEmpty then []
  else String.ofList (List.replicate 60 '*') :: outburst ::
    b.notices.flatMap fun notice ↦ ["".intercalate (List.replicate 20 "  -"), notice.text]

/-- A remark on the side, which only a verbose bulletin makes. -/
def narrate (b : Bulletin) (line : String) : List String := if b.verbose then [line] else []

/-- What to say if there should be no notices but there are some. -/
def assertClear (b : Bulletin) (message : String) : Option String :=
  if b.notices.isEmpty then none else some (outburst ++ " " ++ message)

end Bulletin

end LateConst
