import LateConst.Fault
import LateConst.Number.Text
import LateConst.Store

/-!
# The text of a value

How `print` and `+` write a value. Strings stand for themselves, except inside an array, where they
are quoted. Writing fails for an integer with too many digits, and for arrays that are inside each
other deeper than the stack of the machine has room for.

A stack that never fills up has room for every text that has an end: arrays nest no deeper than
there are arrays, so a deeper descent has come back to where it was.
-/

namespace LateConst

namespace Value

/-- The text of anything but an array. -/
def plainText : Value → Except Crash String
  | undefined => .ok "undefined"
  | bool b => .ok (if b then "true" else "false")
  | number n => n.text
  | text s => .ok s
  | array _ => .error .endlessText
  | error _ family message => .ok (family.text ++ ": " ++ message)
  | function _ f => .ok ("function " ++ f.name)

/-- The text of a value on a stack that has room for so many arrays inside each other. -/
def textWithin (store : Store) : (room : Nat) → Value → Except Crash String
  | room + 1, array ref => do
    let parts ← (store.elements ref).toList.mapM fun v ↦
      match v with
      | text s => .ok ("\"" ++ s ++ "\"")
      | v => textWithin store room v
    return "[" ++ ", ".intercalate parts ++ "]"
  | _, v => v.plainText

end Value

/-- A stack that never fills up counts as one with room for more arrays inside each other than there
are: a text that takes as much has no end. -/
def Store.display (store : Store) (v : Value) : Except Crash String :=
  v.textWithin store (store.room.getD (store.arrays.size + 1))

end LateConst
