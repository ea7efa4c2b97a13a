import LateConst.Command.File
import LateConst.Command.Options
import LateConst.Complaint
import LateConst.Reading
import LateConst.Run

/-!
# What the command does

A program file is read, checked and run, as far as the options ask for it and nothing is wrong.
`Options.prepare` goes up to the point where the program would start to run; `conclude` says what
there is to say after it has run. What goes wrong is said once, together with everything else that
was found by then, and makes the exit status 1.
-/

namespace LateConst

/-- The lines that follow the notices if a bulletin is full before the program has run. -/
def surrender : List String :=
  ["".intercalate (List.replicate 35 " *"),
    "Giving up after a few issues. One crisis at a time, eh?"]

/-- What is to be done with a program file. -/
inductive Plan where
  /-- Nothing is to be run. The lines go to the error output. -/
  | stop (lines : List String) (status : Nat)
  | crash (crash : Crash)
  | run (lines : List String) (bulletin : Bulletin) (program : Program)

def Plan.refuse (lines : List String) : Except Bulletin Bulletin → Plan
  | .ok b => .stop (lines ++ b.outcry) 1
  | .error b => .stop (lines ++ b.outcry ++ surrender) 1

namespace Options

def isVerbose (options : Options) : Bool := options.check > 1 || options.verbose > 0

def planProgram (options : Options) (b : Bulletin) (program : Program) : Plan :=
  let lines := b.narrate ("Parsed " ++ options.program)
  match b.check program with
  | .error b => Plan.refuse lines (.error b)
  | .ok b =>
    if !b.notices.isEmpty then Plan.refuse lines (.ok b)
    else if options.check > 0 then .stop (lines ++ ["Looks plausible to me."]) 0
    else .run lines b program

def planText (options : Options) (path : FilePath) (text : List Char) : Plan :=
  let b := (Bulletin.new options.isVerbose options.cap).setSource ⟨text, some path⟩
  match Program.read text with
  | .crashed crash => .crash crash
  | .confused confusion => Plan.refuse [] (b.confused confusion.span? confusion.words)
  | .program program => options.planProgram b program

/-- What is to be done, given what was found under the path of the program. -/
def prepare (options : Options) (path : FilePath) (content : FileContent) : Plan :=
  let b := Bulletin.new options.isVerbose options.cap
  if !path.isPossible then .crash .impossiblePath
  else
    match content with
    | .missing => Plan.refuse [] (b.missingFile path)
    | .unreadable => Plan.refuse [] (b.unreadableFile path)
    | .bytes content =>
      match fileText? content with
      | none => .crash .notUtf8
      | some text => options.planText path text

end Options

/-- How a run was brought to its end: lines for the error output, and the exit status unless the
run crashed. -/
def conclude (b : Bulletin) : Option RunError → List String × Except Crash Nat
  | none => ([], .ok 0)
  | some (.crash crash) => ([], .error crash)
  | some (.uncaught fault site) =>
    let b := match b.uncaughtFault fault site with
      | .ok b => b
      | .error b => b
    (b.outcry, .ok 1)

end LateConst
