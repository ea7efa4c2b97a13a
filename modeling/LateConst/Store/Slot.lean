import LateConst.Fault

/-!
# The state of one declared name

A variable always has a value. A constant that is declared with an initial value awaits it, and
nothing but its own declaration can give it. A constant that is declared without one is unset until
it is written once; from then on it is as constant as any other.

`initialized` tells whether the declaration itself has given the value.
-/

namespace LateConst

inductive Slot where
  | mutable (value : Value) (initialized : Bool)
  /-- A constant whose declaration has an initial value that has not been given yet. -/
  | awaiting
  /-- A constant declared without an initial value and not written so far. -/
  | unset
  | constant (value : Value) (initialized : Bool)

namespace Slot

/-- The state of a name when its scope is entered. -/
def declared (kind : Kind) (hasInitializer : Bool) : Slot :=
  match kind with
  | .mutable => mutable .undefined false
  | .constant => if hasInitializer then awaiting else unset

def kind : Slot → Kind
  | mutable _ _ => .mutable
  | _ => .constant

def value? : Slot → Option Value
  | mutable value _ => some value
  | constant value _ => some value
  | _ => none

def initialized : Slot → Bool
  | mutable _ initialized => initialized
  | constant _ initialized => initialized
  | _ => false

def isAwaiting : Slot → Bool
  | awaiting => true
  | _ => false

/-- The value that a use of the name gets. `typeof` may ask about a constant that is merely
unset. -/
def read (name : String) (forTypeof : Bool) : Slot → Except Fault Value
  | mutable value _ => .ok value
  | constant value _ => .ok value
  | unset => if forTypeof then .ok .undefined else .error (.unboundAccess name)
  | awaiting => .error (.unboundAccess name)

def write (name : String) (new : Value) : Slot → Except Fault Slot
  | mutable _ initialized => .ok (mutable new initialized)
  | constant _ _ => .error (.reassignment name)
  | awaiting => .error (.unboundAccess name)
  | unset => .ok (constant new false)

def define (name : String) (new : Value) : Slot → Except Violation Slot
  | mutable _ initialized =>
    if initialized then .error (.initializedTwice name) else .ok (mutable new true)
  | constant _ initialized =>
    .error (if initialized then .initializedTwice name else .initializedAfterWrite name)
  | awaiting => .ok (constant new true)
  | unset => .ok (constant new true)

end Slot

end LateConst
