import LateConst.Value.Text

/-!
# Operators and built-in functions

What operators, indexing and the built-in functions make of values that are already there. None of
them looks up a name; only `push` changes the store.
-/

namespace LateConst

namespace Value

def applyUnary (op : UnaryOp) (v : Value) : Except Failure Value :=
  match op, v with
  | .not, v => .ok (bool !v.truthy)
  | .negate, number n => .ok (number n.neg)
  | .negate, v => .error (.fault (.cannotNegate v.typeName))

/-- The operators on two numbers, apart from `==` and `!=`. -/
def applyNumeric (op : BinaryOp) (m n : Number) : Except Failure Value :=
  let result (r : Except Crash Number) := (r.map number).mapError .crash
  match op with
  | .mul => result (m.mul n)
  | .div => if n.isZero then .error (.fault .divisionByZero) else result (m.div n)
  | .rem => if n.isZero then .error (.fault .divisionByZero) else result (m.rem n)
  | .add => result (m.add n)
  | .sub => result (m.sub n)
  | .lt => .ok (bool (m.less n))
  | .le => .ok (bool (m.lessOrEqual n))
  | .gt => .ok (bool (n.less m))
  | .ge => .ok (bool (n.lessOrEqual m))
  | .eq => .ok (bool (m.equal n))
  | .ne => .ok (bool !m.equal n)

/-- Strings are ordered by their code points, character by character. -/
def compareTexts? (op : BinaryOp) (s t : String) : Option Bool :=
  match op with
  | .lt => some (decide (s < t))
  | .le => some (decide (s ≤ t))
  | .gt => some (decide (t < s))
  | .ge => some (decide (t ≤ s))
  | _ => none

def isText : Value → Bool
  | text _ => true
  | _ => false

def join (store : Store) (a b : Value) : Except Failure Value := do
  let s ← (store.display a).mapError .crash
  let t ← (store.display b).mapError .crash
  return text (s ++ t)

def applyBinary (store : Store) (op : BinaryOp) (a b : Value) : Except Failure Value :=
  match op with
  | .eq => .ok (bool (a.strictlyEqual b))
  | .ne => .ok (bool !a.strictlyEqual b)
  | op =>
    if op = .add ∧ (a.isText ∨ b.isText) then join store a b
    else
      let misuse := .error (.fault (.cannotApply op a.typeName b.typeName))
      match a, b with
      | number m, number n => applyNumeric op m n
      | text s, text t =>
        match compareTexts? op s t with
        | some holds => .ok (bool holds)
        | none => misuse
      | _, _ => misuse

def length? (store : Store) : Value → Option Nat
  | array ref => some (store.elements ref).size
  | text s => some s.toList.length
  | _ => none

def element? (store : Store) : Value → Nat → Option Value
  | array ref, i => (store.elements ref)[i]?
  | text s, i => (s.toList[i]?).map fun c ↦ text (String.singleton c)
  | _, _ => none

/-- An index of any other kind, or outside of the sequence, gives `undefined`. -/
def applyIndex (store : Store) (base index : Value) : Except Failure Value :=
  match base.length? store with
  | none => .error (.fault (.cannotIndex base.typeName))
  | some length =>
    match index with
    | number n =>
      match n.toDouble with
      | .error crash => .error (.crash crash)
      | .ok _ =>
        match n.toInt? with
        | some i =>
          if 0 ≤ i ∧ i < length then .ok ((base.element? store i.toNat).getD undefined)
          else .ok undefined
        | none => .ok undefined
    | _ => .ok undefined

end Value

/-- What a built-in function does to its arguments: its result, and elements to be added to an
array, if any. -/
def Builtin.apply (store : Store) (function : Builtin) (args : List Value) :
    Except Failure (Value × Option (Ref × List Value)) :=
  let wrongCount := .error (.fault (.wrongCount function args.length))
  let count (n : Nat) := Value.number (.int n)
  match function with
  | .len =>
    match args with
    | [v] =>
      match v.length? store with
      | some n => .ok (count n, none)
      | none => .error (.fault (.cannotMeasure v.typeName))
    | _ => wrongCount
  | .push =>
    match args with
    | .array ref :: items =>
      .ok (count ((store.elements ref).size + items.length), some (ref, items))
    | v :: _ => .error (.fault (.cannotPush v.typeName))
    | [] => wrongCount
  | .str =>
    match args with
    | [] => .ok (.text "undefined", none)
    | [v] =>
      match store.display v with
      | .ok s => .ok (.text s, none)
      | .error crash => .error (.crash crash)
    | _ => wrongCount

end LateConst
