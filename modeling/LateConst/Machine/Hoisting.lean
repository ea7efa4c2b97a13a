import LateConst.Store

/-!
# Entering a scope

When a scope is entered, every name declared directly in it gets an entry before any of its
statements is executed: constants without a value, variables with `undefined`, and functions with
their value. A name that is there already is a fault, to be blamed on its second declaration; the
entries made before it stay.
-/

namespace LateConst

/-- What a name is when its scope is entered. -/
inductive Hoisted where
  | slot (slot : Slot)
  | function (code : Subroutine)

def Stmt.hoisted : Stmt → List (Ident × Hoisted)
  | .declare kind items _ =>
    items.map fun item ↦ (item.ident, .slot (.declared kind item.init.isSome))
  | .destructure kind idents _ _ =>
    idents.map fun ident ↦ (ident, .slot (.declared kind true))
  | .function ident params body span => [(ident, .function ⟨some ident, params, body, span⟩)]
  | _ => []

/-- The parameters of a function with their values; those without an argument are `undefined`. -/
def parameters (params : List Ident) (args : List Value) : List (Ident × Hoisted) :=
  match params, args with
  | [], _ => []
  | ident :: more, [] => (ident, .slot (.mutable .undefined true)) :: parameters more []
  | ident :: more, v :: rest => (ident, .slot (.mutable v true)) :: parameters more rest

namespace Store

/-- Adds a hoisted name to a record that does not hold it yet. A function gets its identity and
looks up its names in this record. -/
def addHoisted (store : Store) (id : RecordId) (name : String) : Hoisted → Store
  | .slot slot => store.addName id name slot
  | .function code =>
    let (ref, store) := store.fresh
    store.addName id name (.mutable (.function ref (.closure code id)) true)

/-- Adds hoisted names to a record, up to the first that the record already holds. -/
def hoist (store : Store) (id : RecordId) : List (Ident × Hoisted) → Store × Option Ident
  | [] => (store, none)
  | (ident, what) :: more =>
    if store.hasName id ident.name then (store, some ident)
    else (store.addHoisted id ident.name what).hoist id more

/-- Enters the scope of a list of statements. -/
def hoistBody (store : Store) (id : RecordId) (body : List Stmt) : Store × Option Ident :=
  store.hoist id (body.flatMap Stmt.hoisted)

end Store

end LateConst
