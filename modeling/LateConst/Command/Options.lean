import LateConst.Notice
import LateConst.Number.Text
import LateConst.Text.Digit
import LateConst.Text.Quoted

/-!
# The command line

A command line is a program file and options in any order. An option may be shortened as long as
only one option begins that way, its value may follow after `=` or as the next argument, and options
of one letter can be written together. After `--` everything is a file.

`Invocation.ofArgs` reads the arguments from left to right in two passes: the first says what each
argument is by its looks, the second puts values to the options that need one.
-/

namespace LateConst

structure Options where
  program : String
  /-- How often checking was asked for. -/
  check : Nat
  verbose : Nat
  cap : Int
  deriving DecidableEq, Repr

inductive OptionName where
  | help
  | check
  | verbose
  | cap
  deriving DecidableEq, Repr

namespace OptionName

def spellings : List (String × OptionName) :=
  [("-h", help), ("--help", help), ("-c", check), ("--check", check), ("-v", verbose),
    ("--verbose", verbose), ("--max-issues", cap)]

/-- An option as messages speak of it. -/
def title : OptionName → String
  | help => "-h/--help"
  | check => "-c/--check"
  | verbose => "-v/--verbose"
  | cap => "--max-issues"

end OptionName

/-- Why a command line cannot be understood. -/
inductive Misuse where
  | programMissing
  | unrecognized (args : List String)
  | notAnInteger (option : OptionName) (value : String)
  | valueMissing (option : OptionName)
  | valueUnwanted (option : OptionName) (value : String)
  | ambiguous (arg : String) (matching : List String)
  deriving DecidableEq, Repr

def Misuse.message : Misuse → String
  | programMissing => "the following arguments are required: program"
  | unrecognized args => "unrecognized arguments: " ++ " ".intercalate args
  | notAnInteger option value =>
    "argument " ++ option.title ++ ": invalid int value: " ++ quoted value
  | valueMissing option => "argument " ++ option.title ++ ": expected one argument"
  | valueUnwanted option value =>
    "argument " ++ option.title ++ ": ignored explicit argument " ++ quoted value
  | ambiguous arg matching =>
    "ambiguous option: " ++ arg ++ " could match " ++ ", ".intercalate matching

/-- What an argument is by its looks. -/
inductive Argument where
  | value (text : String)
  /-- The mark after which there are no more options. -/
  | separator
  /-- An option, and the text that is attached to it in the same argument. -/
  | option (name : OptionName) (long : Bool) (attached : Option String)
  | unknown (text : String)
  deriving DecidableEq, Repr

namespace Argument

/-- Whether a text is a minus sign and a number with or without a point. A line feed may follow. -/
def looksNegative (cs : List Char) : Bool :=
  match cs with
  | '-' :: rest =>
    let number := if rest.getLast? = some '\n' then rest.dropLast else rest
    let whole := number.takeWhile isDecimalDigit
    match number.dropWhile isDecimalDigit with
    | [] => !whole.isEmpty
    | '.' :: fraction => !fraction.isEmpty && fraction.all isDecimalDigit
    | _ => false
  | _ => false

/-- An argument that starts like an option but is none. -/
def other (arg : String) : Argument :=
  if looksNegative arg.toList || arg.toList.contains ' ' then .value arg else .unknown arg

/-- A text up to the first equals sign, and what comes after it if there is one. -/
def splitEquated (cs : List Char) : String × Option String :=
  let head := String.ofList (cs.takeWhile (· ≠ '='))
  match cs.dropWhile (· ≠ '=') with
  | _ :: rest => (head, some (String.ofList rest))
  | [] => (head, none)

/-- What an argument is if the separator has not been seen before it. To an option of one letter
anything can be attached, with or without an equals sign. -/
def ofText (arg : String) : Except Misuse Argument :=
  let cs := arg.toList
  let long := cs.take 2 == ['-', '-']
  match OptionName.spellings.lookup arg with
  | some name => .ok (.option name long none)
  | none =>
    if cs.head? ≠ some '-' ∨ cs.length = 1 then .ok (.value arg)
    else
      let (head, attached) := splitEquated cs
      match OptionName.spellings.lookup head, attached with
      | some name, some text => .ok (.option name long (some text))
      | _, _ =>
        if long then
          match OptionName.spellings.filter fun (spelling, _) ↦ spelling.startsWith head with
          | [] => .ok (other arg)
          | [(_, name)] => .ok (.option name true attached)
          | several => .error (.ambiguous arg (several.map (·.1)))
        else
          match OptionName.spellings.lookup (String.ofList (cs.take 2)) with
          | some name => .ok (.option name false (some (String.ofList (cs.drop 2))))
          | none => .ok (other arg)

def ofTexts : List String → Except Misuse (List Argument)
  | [] => .ok []
  | "--" :: rest => .ok (.separator :: rest.map fun arg ↦ .value arg)
  | arg :: rest => do
    let first ← ofText arg
    let more ← ofTexts rest
    return first :: more

end Argument

/-- White space that may stand around an integer; the information separators may not. -/
def isPadding (c : Char) : Bool := isBlank c && !('\x1c' ≤ c && c ≤ '\x1f')

/-- The digits that a text writes, with single underscores between them allowed. -/
def digitsFrom? (afterDigit : Bool) : List Char → Option (List Nat)
  | [] => if afterDigit then some [] else none
  | '_' :: rest => if afterDigit then digitsFrom? false rest else none
  | c :: rest => do
    let digit ← digitValue? c
    let more ← digitsFrom? true rest
    return digit :: more

def readNat? (cs : List Char) : Option Nat := do
  let digits ← digitsFrom? false cs
  if digits.length ≤ digitLimit then return digits.foldl (fun n digit ↦ 10 * n + digit) 0
  else none

/-- The integer that a text writes, with white space around it and a sign allowed. -/
def readInt? (text : String) : Option Int :=
  let cs := text.toList.dropWhile isPadding
  match (cs.reverse.dropWhile isPadding).reverse with
  | '-' :: rest => (readNat? rest).map fun n ↦ -(n : Int)
  | '+' :: rest => (readNat? rest).map Int.ofNat
  | cs => (readNat? cs).map Int.ofNat

structure Understood where
  program : Option String
  check : Nat
  verbose : Nat
  cap : Int
  extras : List String

namespace Understood

def nothing : Understood := ⟨none, 0, 0, Bulletin.defaultCap, []⟩

def addExtra (u : Understood) (arg : String) : Understood :=
  { u with extras := u.extras ++ [arg] }

/-- Takes a file: the first one is the program. -/
def addFile (u : Understood) (arg : String) : Understood :=
  match u.program with
  | none => { u with program := some arg }
  | some _ => u.addExtra arg

def addFlag (u : Understood) : OptionName → Understood
  | .check => { u with check := u.check + 1 }
  | .verbose => { u with verbose := u.verbose + 1 }
  | _ => u

end Understood

inductive Invocation where
  | run (options : Options)
  | help
  | misuse (cause : Misuse)
  deriving DecidableEq, Repr

def Understood.setCap (u : Understood) (value : String) : Except Invocation Understood :=
  match readInt? value with
  | some n => .ok { u with cap := n }
  | none => .error (.misuse (.notAnInteger .cap value))

/-- Takes the value that is attached to the option that sets the cap. The separator says that there
is no cap. -/
def Understood.setAttachedCap (u : Understood) (value : String) : Except Invocation Understood :=
  if value = "--" then .ok { u with cap := Bulletin.noCap } else u.setCap value

namespace Invocation

/-- Options of one letter that are written together. A character that is no such option is blamed on
the option before it, with everything that follows. -/
def cluster (name : OptionName) : List Char → Except Misuse (List OptionName)
  | [] => .ok [name]
  | letter :: rest =>
    match OptionName.spellings.lookup (String.ofList ['-', letter]) with
    | some next => do
      let more ← cluster next rest
      return name :: more
    | none => .error (.valueUnwanted name (String.ofList (letter :: rest)))

/-- The options in an argument. What is attached to an option of one letter is read as more such
options; nothing can be attached to a long one. -/
def namesIn (name : OptionName) (long : Bool) : Option String → Except Misuse (List OptionName)
  | none => .ok [name]
  | some text =>
    if long ∨ text = "" then .error (.valueUnwanted name text) else cluster name text.toList

def addOption (u : Understood) (name : OptionName) (long : Bool) (attached : Option String) :
    Except Invocation Understood :=
  match namesIn name long attached with
  | .error cause => .error (.misuse cause)
  | .ok names =>
    if OptionName.help ∈ names then .error .help else .ok (names.foldl Understood.addFlag u)

/-- Puts the arguments together. The separator goes with the program if it stands beside it. -/
def collect (u : Understood) : List Argument → Except Invocation Understood
  | [] => .ok u
  | .unknown arg :: rest => collect (u.addExtra arg) rest
  | .value arg :: .separator :: rest =>
    if u.program.isNone then collect (u.addFile arg) rest
    else collect ((u.addExtra arg).addExtra "--") rest
  | .value arg :: rest => collect (u.addFile arg) rest
  | .separator :: .value arg :: rest =>
    if u.program.isNone then collect (u.addFile arg) rest
    else collect ((u.addExtra "--").addExtra arg) rest
  | .separator :: rest => collect (u.addExtra "--") rest
  | .option .cap _ (some value) :: rest => do collect (← u.setAttachedCap value) rest
  | .option .cap _ none :: .value value :: rest => do collect (← u.setCap value) rest
  | .option .cap _ none :: _ => .error (.misuse (.valueMissing .cap))
  | .option name long attached :: rest => do collect (← addOption u name long attached) rest

def ofArgs (args : List String) : Invocation :=
  match Argument.ofTexts args with
  | .error cause => .misuse cause
  | .ok arguments =>
    match collect .nothing arguments with
    | .error other => other
    | .ok u =>
      match u.program, u.extras with
      | none, _ => .misuse .programMissing
      | some program, [] => .run ⟨program, u.check, u.verbose, u.cap⟩
      | some _, extras => .misuse (.unrecognized extras)

end Invocation

def usage : String := "usage: belated [-h] [-c] [-v] [--max-issues MAX_ISSUES] program"

def Misuse.lines (cause : Misuse) : List String := [usage, "belated: error: " ++ cause.message]

/-- What the command says about itself if it is given nothing to do. -/
def introduction : List String := [
  "This is an interpreter for the Belated programming language.",
  "",
  usage,
  "",
  "",
  "For example:",
  "",
  "    belated program.bel",
  "",
  "will run program.bel if possible, or else try to explain why not.",
  "",
  "    belated -h",
  "",
  "will explain all the arguments."]

def helpText : List String := [
  usage,
  "",
  "Interpreter for the Belated programming language.",
  "",
  "positional arguments:",
  "  program               try examples/write_once.bel for example.",
  "",
  "options:",
  "  -h, --help            show this help message and exit",
  "  -c, --check           Check the program (verbosely, if repeated) but do not",
  "                        actually execute the program.",
  "  -v, --verbose         Narrate task scheduling while the program runs.",
  "  --max-issues MAX_ISSUES",
  "                        Give up after this many complaints."]

end LateConst
