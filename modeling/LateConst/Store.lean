import LateConst.Store.Record

/-!
# The store

All records and arrays of a run, each known by its number, and the next identity to give out.
Records and arrays are only ever added; records change one entry at a time, and arrays grow. How far
texts can nest is up to the machine, and stays the same.

A name is looked up in the record of the innermost scope first and then outwards, along `chain`.
The operations on names come in pairs: one says what the outcome would be and leaves the store
alone, the other puts a new state in its place.
-/

namespace LateConst

structure Store where
  records : Array Record
  arrays : Array (Array Value)
  nextRef : Ref
  /-- How many arrays the stack of the machine lets be written inside each other; `none` if it never
  fills up. -/
  room : Option Nat
  deriving Inhabited

namespace Store

/-- The store of a machine whose stack never fills up, which is the one that programs run on. -/
def empty : Store := ⟨#[], #[], 0, none⟩

/-! ### Identities and arrays -/

def fresh (store : Store) : Ref × Store :=
  (store.nextRef, { store with nextRef := store.nextRef + 1 })

def addArray (store : Store) (elements : List Value) : Ref × Store :=
  (store.arrays.size, { store with arrays := store.arrays.push elements.toArray })

def elements (store : Store) (ref : Ref) : Array Value := store.arrays.getD ref #[]

def extend (store : Store) (ref : Ref) (more : List Value) : Store :=
  { store with arrays := store.arrays.modify ref (· ++ more) }

/-! ### Records -/

/-- A record and the records around it, innermost first. -/
def chain (store : Store) (id : RecordId) : List RecordId :=
  match store.records[id]? with
  | some record => id :: record.outer
  | none => []

def addRecord (store : Store) (kind : ScopeKind) (outer : Option RecordId) : RecordId × Store :=
  let path := match outer with
    | some id => store.chain id
    | none => []
  (store.records.size, { store with records := store.records.push (.new kind path) })

def hasName (store : Store) (id : RecordId) (name : String) : Bool :=
  match store.records[id]? with
  | some record => record.has name
  | none => false

def resolveAlong (store : Store) (chain : List RecordId) (name : String) :
    Except Fault RecordId :=
  match chain.find? fun id ↦ store.hasName id name with
  | some id => .ok id
  | none => .error (.unresolved name)

def resolve (store : Store) (id : RecordId) (name : String) : Except Fault RecordId :=
  store.resolveAlong (store.chain id) name

/-! ### Entries -/

def slot (store : Store) (id : RecordId) (name : String) : Except Failure Slot :=
  match (store.records[id]?).bind (·.slot? name) with
  | some slot => .ok slot
  | none => .error (.crash (.missingName name))

def setSlot (store : Store) (id : RecordId) (name : String) (slot : Slot) : Store :=
  { store with records := store.records.modify id fun record ↦ record.set name slot }

/-- Adds a name to a record that does not hold it yet. -/
def addName (store : Store) (id : RecordId) (name : String) (slot : Slot) : Store :=
  { store with records := store.records.modify id fun record ↦ record.add name slot }

def read (store : Store) (id : RecordId) (name : String) (forTypeof : Bool) :
    Except Failure Value := do
  let slot ← store.slot id name
  (slot.read name forTypeof).mapError .fault

/-- The state of a name in a record after an assignment. -/
def slotToWrite (store : Store) (id : RecordId) (name : String) (new : Value) :
    Except Failure Slot := do
  let slot ← store.slot id name
  (slot.write name new).mapError .fault

/-- The state of a name in a record after its declaration has given it a value. -/
def slotToDefine (store : Store) (id : RecordId) (name : String) (new : Value) :
    Except Failure Slot := do
  let slot ← store.slot id name
  (slot.define name new).mapError fun cause ↦ .crash (.violation cause)

def write (store : Store) (id : RecordId) (name : String) (new : Value) :
    Except Failure Store := do
  let slot ← store.slotToWrite id name new
  return store.setSlot id name slot

def define (store : Store) (id : RecordId) (name : String) (new : Value) :
    Except Failure Store := do
  let slot ← store.slotToDefine id name new
  return store.setSlot id name slot

def declare (store : Store) (id : RecordId) (name : String) (slot : Slot) :
    Except Failure Store :=
  if store.hasName id name then .error (.fault (.duplicateName name))
  else .ok (store.addName id name slot)

end Store

end LateConst
