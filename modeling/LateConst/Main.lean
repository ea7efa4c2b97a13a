import LateConst.Command

/-!
# The program itself

Reads the file named on the command line, makes the moves of its run one after another, and puts
out what each of them has to show before it makes the next.
-/

namespace LateConst

def findFile (path : FilePath) : IO FileContent := do
  try
    return .bytes (← IO.FS.readBinFile path.text)
  catch error =>
    match error with
    | .noFileOrDirectory _ _ _ => return .missing
    | _ => return .unreadable

def showEvent : Event → IO Unit
  | .printed text => IO.println text
  | .noted note => IO.eprintln note.text

/-- Makes all moves of a run. The events of the world are shown and taken away as they come. -/
partial def finishRun (verbose : Bool) : RunProgress → IO (Option RunError)
  | .ended world _ error => do
    world.events.forM showEvent
    return error
  | .going ⟨world, queue, present⟩ => do
    world.events.forM showEvent
    finishRun verbose ((workload verbose).step ⟨{ world with events := #[] }, queue, present⟩)

def execute (plan : Plan) : IO UInt32 := do
  match plan with
  | .stop lines status =>
    lines.forM IO.eprintln
    return status.toUInt32
  | .crash _ =>
    IO.eprintln "The interpreter failed."
    return 1
  | .run lines bulletin program =>
    lines.forM IO.eprintln
    let error ← finishRun bulletin.verbose (program.start bulletin.verbose .empty)
    let (lines, status) := conclude bulletin error
    lines.forM IO.eprintln
    match status with
    | .ok status => return status.toUInt32
    | .error _ =>
      IO.eprintln "The interpreter failed."
      return 1

end LateConst

open LateConst in
def main (args : List String) : IO UInt32 := do
  if args.isEmpty then
    introduction.forM IO.println
    return 0
  match Invocation.ofArgs args with
  | .help =>
    helpText.forM IO.println
    return 0
  | .misuse cause =>
    cause.lines.forM IO.eprintln
    return 2
  | .run options =>
    let directory := FilePath.ofText (← IO.currentDir).toString
    let path := (FilePath.ofText options.program).seenFrom directory
    execute (options.prepare path (← findFile path))
