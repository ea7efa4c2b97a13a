import LateConst.Store.Slot

/-!
# Records

A record holds the names of one instance of a scope, in the order in which they were declared, and
knows the records of all scopes around it. No name is in a record twice.
-/

namespace LateConst

inductive ScopeKind where
  | global
  | program
  | function
  | block
  | iteration
  | handler
  deriving DecidableEq, Repr

namespace ScopeKind

def text : ScopeKind → String
  | global => "global"
  | program => "module"
  | function => "function"
  | block => "block"
  | iteration => "iteration"
  | handler => "catch"

def all : List ScopeKind := [global, program, function, block, iteration, handler]

end ScopeKind

structure Entry where
  name : String
  slot : Slot

structure Record where
  kind : ScopeKind
  /-- The records of the enclosing scopes, the nearest first. -/
  outer : List RecordId
  entries : List Entry

namespace Record

def new (kind : ScopeKind) (outer : List RecordId) : Record := ⟨kind, outer, []⟩

def names (record : Record) : List String := record.entries.map Entry.name

def slot? (record : Record) (name : String) : Option Slot :=
  (record.entries.find? fun entry ↦ entry.name == name).map Entry.slot

def has (record : Record) (name : String) : Bool :=
  record.entries.any fun entry ↦ entry.name == name

def add (record : Record) (name : String) (slot : Slot) : Record :=
  { record with entries := record.entries ++ [⟨name, slot⟩] }

def set (record : Record) (name : String) (slot : Slot) : Record :=
  { record with entries := record.entries.map fun entry ↦
      if entry.name == name then ⟨name, slot⟩ else entry }

end Record

end LateConst
