import LateConst.Machine.Step
import LateConst.Notice

/-!
# Running a program

The program is the first task; whatever it spawns takes turns with it. The names of the program are
declared in a record of its own, inside the one record that holds the built-in functions. If a name
is declared twice the run ends before anything is executed.

A run begins with a queue that may hold anything: it is reset first, so that no run can tell what
was run before it.
-/

namespace LateConst

def globalRecord : RecordId := 0

def programRecord : RecordId := 1

namespace Store

def addBuiltin (id : RecordId) (store : Store) (builtin : Builtin) : Store :=
  let (ref, store) := store.fresh
  store.addName id builtin.name (.mutable (.function ref (.builtin builtin)) true)

def addGlobals (store : Store) : RecordId × Store :=
  let (id, store) := store.addRecord .global none
  (id, Builtin.all.foldl (addBuiltin id) store)

end Store

/-- How threads work in turns. Only a verbose run keeps the announcements. -/
def workload (verbose : Bool) : Workload World Thread RunError where
  move := fun _ world thread ↦ thread.move world
  announce := fun note world ↦
    if verbose then { world with events := world.events.push (.noted note) } else world

abbrev RunProgress := Progress World Thread RunError

def Program.start (program : Program) (verbose : Bool) (queue : TurnQueue Thread) : RunProgress :=
  let queue := queue.reset
  let (_, store) := Store.empty.addGlobals
  let (_, store) := store.addRecord .program (some globalRecord)
  match store.hoistBody programRecord program with
  | (store, some ident) =>
    .ended ⟨store, #[]⟩ queue
      (some (.uncaught (.duplicateName ident.name) (some (.ident ident))))
  | (store, none) =>
    let (world, queue) := (workload verbose).spawn ⟨store, #[]⟩ queue "main"
      (.ofBody program programRecord)
    .going ⟨world, queue, none⟩

/-- The names of a program and their states, in the order of their declaration. -/
def World.bindings (world : World) : List Entry :=
  match world.store.records[programRecord]? with
  | some record => record.entries
  | none => []

/-- Puts the error that ended a run into a bulletin, unless it is a crash. -/
def Bulletin.uncaughtFault (b : Bulletin) (fault : Fault) (site : Option Site) :
    Except Bulletin Bulletin :=
  b.uncaught fault.family.text fault.message (site.map Site.span)

end LateConst
