import LateConst.Store
import LateConst.Number.Text

/-!
# Descriptions of records and entries

Short texts in angle brackets for somebody who looks at the records themselves. They show values the
way a programmer writes them down: strings in quotes, doubles with a point.
-/

namespace LateConst

/-- A value as it is shown in a description; `path` holds the arrays around it, of which at most
`depth` more can be opened. -/
def Value.describe (store : Store) : (depth : Nat) → (path : List Ref) → Value → Except Crash String
  | _, _, undefined => .ok "undefined"
  | _, _, bool b => .ok (if b then "True" else "False")
  | _, _, number (.int n) => intText n
  | _, _, number (.double d) => .ok d.text
  | _, _, text s => .ok (quoted s)
  | _, _, function _ f => .ok ("<function " ++ f.name ++ ">")
  | _, _, error _ family message => .ok ("<" ++ family.text ++ ": " ++ message ++ ">")
  | 0, _, array _ => .ok "[...]"
  | depth + 1, path, array ref =>
    if ref ∈ path then .ok "[...]"
    else do
      let parts ← (store.elements ref).toList.mapM (describe store depth (ref :: path))
      return "[" ++ ", ".intercalate parts ++ "]"

def Entry.describe (store : Store) (entry : Entry) : Except Crash String :=
  let heading := "<" ++ entry.slot.kind.text ++ " " ++ entry.name
  match entry.slot.value? with
  | none => .ok (heading ++ ": unset>")
  | some v => do
    let value ← v.describe store (store.arrays.size + 1) []
    return heading ++ " = " ++ value ++ ">"

def Record.describe (record : Record) : String :=
  "<" ++ record.kind.text ++ " record: " ++ ", ".intercalate record.names ++ ">"

end LateConst
