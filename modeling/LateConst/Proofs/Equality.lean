import LateConst.Machine.Step
import LateConst.Proofs.Rounding
import Mathlib.Algebra.Order.Field.Rat
import Mathlib.Order.WithBot

/-!
# Equality

What equality sees of a value is its `Value.essence?`: of a number only its exact value, of an
array, a function or an error only its identity, and of anything else all that it is. Two values are
equal if they have the same essence (`Value.strictlyEqual_iff`), and the not-a-number has none. So
equality is sameness under a partial view, and that is a partial equivalence, however the kinds of
the values are mixed (`Thread.equality_is_partial_equivalence`).
-/

namespace LateConst

/-! ### The exact value of a number -/

abbrev ExactValue := WithBot (WithTop ℚ)

namespace ExactValue

def ofRat (value : ℚ) : ExactValue := ((value : WithTop ℚ) : ExactValue)

theorem ofRat_injective : Function.Injective ofRat :=
  WithBot.coe_injective.comp WithTop.coe_injective

end ExactValue

namespace Place

def value : Place → ExactValue
  | .below => ⊥
  | .at units => .ofRat (units / 2 ^ 1074)
  | .above => ⊤

theorem value_at_injective {m n : Int} (h : (Place.at m).value = (Place.at n).value) : m = n := by
  have hdiv : (m : ℚ) / 2 ^ 1074 = n / 2 ^ 1074 := ExactValue.ofRat_injective h
  have hcast : (m : ℚ) = n := (div_left_inj' (pow_ne_zero 1074 two_ne_zero)).1 hdiv
  exact Int.cast_injective hcast

/-- There is one place for each value. -/
theorem value_injective : Function.Injective value := by
  intro p q h
  cases p with
  | below =>
    cases q with
    | below => rfl
    | _ => cases h
  | «at» m =>
    cases q with
    | «at» n => rw [value_at_injective h]
    | _ => cases h
  | above =>
    cases q with
    | above => rfl
    | _ => cases h

end Place

namespace Number

variable {m n : Number}

/-- The exact value of a number: an integer is its own, and a finite double counts units of 2^-1074.
The not-a-number has none. -/
def value? : Number → Option ExactValue
  | .int n => some (.ofRat n)
  | .double .nan => none
  | .double (.infinite negative) => some (if negative then ⊥ else ⊤)
  | .double (.finite negative units) => some (.ofRat (Double.signed negative units / 2 ^ 1074))

/-- A number has the value of the place where it stands. -/
theorem value?_eq (n : Number) : n.value? = n.place?.map Place.value := by
  cases n with
  | int n =>
    have hunits : ((n * Double.unitsPerOne : Int) : ℚ) / 2 ^ 1074 = n := by
      rw [Double.unitsPerOne_eq, Int.cast_mul, Int.cast_natCast, Nat.cast_pow, Nat.cast_ofNat]
      exact mul_div_cancel_right₀ _ (pow_ne_zero 1074 two_ne_zero)
    rw [value?, place?, Option.map_some, Place.value, hunits]
  | double d =>
    cases d with
    | nan => rfl
    | infinite negative => cases negative <;> rfl
    | finite negative units => rfl

theorem value?_eq_none_iff : n.value? = none ↔ n = .double .nan := by
  cases n with
  | int n => exact iff_of_false (Option.some_ne_none _) nofun
  | double d =>
    cases d with
    | nan => exact iff_of_true rfl rfl
    | _ => exact iff_of_false (Option.some_ne_none _) nofun

/-- Numbers are equal if they have the same exact value, whether they are integers or doubles:
nothing is rounded before it is compared. -/
theorem equal_iff : m.equal n = true ↔ ∃ x, m.value? = some x ∧ n.value? = some x := by
  rw [value?_eq, value?_eq, equal]
  cases m.place? with
  | none => simp
  | some p =>
    cases n.place? with
    | none => simp
    | some q =>
      calc
        (p == q) = true ↔ p = q := beq_iff_eq
        _ ↔ p.value = q.value := Place.value_injective.eq_iff.symm
        _ ↔ ∃ x, some p.value = some x ∧ some q.value = some x := by simp [eq_comm]

end Number

/-! ### What equality sees of a value -/

/-- What equal values have in common. -/
inductive Essence where
  | undefined
  | bool (value : Bool)
  | number (value : ExactValue)
  | text (value : String)
  | array (ref : Ref)
  | function (ref : Ref)
  | error (ref : Ref)

def Essence.typeName : Essence → String
  | undefined => "undefined"
  | bool _ => "boolean"
  | number _ => "number"
  | text _ => "string"
  | function _ => "function"
  | array _ => "object"
  | error _ => "object"

namespace Value

variable {a b c v : Value} {e : Essence}

/-- The essence of a value; the not-a-number has none. -/
def essence? : Value → Option Essence
  | undefined => some .undefined
  | bool b => some (.bool b)
  | number n => n.value?.map .number
  | text s => some (.text s)
  | array ref => some (.array ref)
  | function ref _ => some (.function ref)
  | error ref _ _ => some (.error ref)

theorem essence?_number_eq_some_iff {n : Number} :
    (number n).essence? = some e ↔ ∃ x, n.value? = some x ∧ .number x = e :=
  Option.map_eq_some_iff

theorem essence?_eq_none_iff : v.essence? = none ↔ v = number (.double .nan) := by
  cases v with
  | number n =>
    calc
      (number n).essence? = none ↔ n.value? = none := Option.map_eq_none_iff
      _ ↔ n = .double .nan := Number.value?_eq_none_iff
      _ ↔ number n = number (.double .nan) := by rw [number.injEq]
  | _ => exact iff_of_false (Option.some_ne_none _) nofun

theorem typeName_of_essence? (h : v.essence? = some e) : v.typeName = e.typeName := by
  cases v with
  | number n =>
    obtain ⟨x, -, rfl⟩ := essence?_number_eq_some_iff.1 h
    rfl
  | _ =>
    cases h
    rfl

/-- Two values are equal if they have the same essence. -/
theorem strictlyEqual_iff :
    a.strictlyEqual b = true ↔ ∃ e, a.essence? = some e ∧ b.essence? = some e := by
  -- with the sides swapped, what is left of the essences is an equation that reads from `a` to `b`
  suffices h : a.strictlyEqual b = true ↔ ∃ e, b.essence? = some e ∧ a.essence? = some e from
    h.trans (exists_congr fun e ↦ and_comm)
  cases a with
  | number m =>
    cases b with
    | number n =>
      rw [strictlyEqual, Number.equal_iff]
      simp [essence?_number_eq_some_iff, and_comm]
    | _ => simp [strictlyEqual, essence?]
  | _ => cases b <;> simp [strictlyEqual, essence?]

/-! ### A partial equivalence -/

theorem strictlyEqual_comm (a b : Value) : a.strictlyEqual b = b.strictlyEqual a := by
  rw [Bool.eq_iff_iff, strictlyEqual_iff, strictlyEqual_iff]
  exact exists_congr fun e ↦ and_comm

theorem strictlyEqual_trans (hab : a.strictlyEqual b = true) (hbc : b.strictlyEqual c = true) :
    a.strictlyEqual c = true := by
  obtain ⟨e, ha, hb⟩ := strictlyEqual_iff.1 hab
  obtain ⟨e', hb', hc⟩ := strictlyEqual_iff.1 hbc
  have hsame : e' = e := Option.some_injective _ (hb'.symm.trans hb)
  exact strictlyEqual_iff.2 ⟨e, ha, hsame ▸ hc⟩

theorem strictlyEqual_self_iff : v.strictlyEqual v = true ↔ v ≠ number (.double .nan) := by
  calc
    v.strictlyEqual v = true ↔ ∃ e, v.essence? = some e := by
      simp only [strictlyEqual_iff, and_self]
    _ ↔ v.essence? ≠ none := Option.ne_none_iff_exists'.symm
    _ ↔ v ≠ number (.double .nan) := not_congr essence?_eq_none_iff

theorem typeName_eq_of_strictlyEqual (h : a.strictlyEqual b = true) : a.typeName = b.typeName := by
  obtain ⟨e, ha, hb⟩ := strictlyEqual_iff.1 h
  exact (typeName_of_essence? ha).trans (typeName_of_essence? hb).symm

end Value

namespace Thread

/-- Any two values can be compared: `==` gives a truth value, `!=` gives the other one, and nothing
else changes. The values are equal if they have the same essence. So equality is symmetric and
transitive, it holds of every value with itself but the not-a-number, and it does not hold between
values of different types. -/
theorem equality_is_partial_equivalence (world : World) (node : Expr) (frames : List ExprFrame)
    (use : Use) (body : List StmtFrame) (callers : List Caller) :
    let compare (op : BinaryOp) (a b : Value) : ThreadMove :=
      move ⟨.value b (.binaryRight node op a :: frames) use, body, callers⟩ world
    let answer (holds : Bool) : ThreadMove :=
      .goOn world ⟨.value (.bool holds) frames use, body, callers⟩
    (∀ a b : Value, compare .eq a b = answer (a.strictlyEqual b) ∧
        compare .ne a b = answer (!a.strictlyEqual b)) ∧
      (∀ a b : Value,
        a.strictlyEqual b = true ↔ ∃ e, a.essence? = some e ∧ b.essence? = some e) ∧
      (∀ a b : Value, a.strictlyEqual b = b.strictlyEqual a) ∧
      (∀ a b c : Value, a.strictlyEqual b = true → b.strictlyEqual c = true →
        a.strictlyEqual c = true) ∧
      (∀ v : Value, v.strictlyEqual v = true ↔ v ≠ .number (.double .nan)) ∧
      ∀ a b : Value, a.typeName ≠ b.typeName → a.strictlyEqual b = false := by
  refine ⟨fun a b ↦ ⟨rfl, rfl⟩, fun a b ↦ Value.strictlyEqual_iff, Value.strictlyEqual_comm,
    fun a b c ↦ Value.strictlyEqual_trans, fun v ↦ Value.strictlyEqual_self_iff,
    fun a b hne ↦ ?_⟩
  exact Bool.eq_false_iff.2 fun h ↦ hne (Value.typeName_eq_of_strictlyEqual h)

/-- An integer beyond 2^53, a double and the integer again are a chain of equal values. The next
integer has the same double, but it is not equal to it; and a truth value is not equal to one. -/
theorem equality_is_partial_equivalence_of_large_integer :
    let world : World := ⟨.empty, #[]⟩
    let compare (op : BinaryOp) (a b : Value) : ThreadMove :=
      move ⟨.value b [.binaryRight (.literal .undefined ⟨0, 0⟩) op a] .discard, [], []⟩ world
    let answer (holds : Bool) : ThreadMove :=
      .goOn world ⟨.value (.bool holds) [] .discard, [], []⟩
    let double : Double := .finite false (2 ^ 60 * Double.unitsPerOne)
    let integer : Value := .number (.int (2 ^ 60))
    let next : Value := .number (.int (2 ^ 60 + 1))
    (integer.strictlyEqual (.number (.double double)) = true ∧
        (Value.number (.double double)).strictlyEqual integer = true ∧
        integer.strictlyEqual integer = true) ∧
      (Number.int (2 ^ 60 + 1)).toDouble = .ok double ∧
      compare .eq next (.number (.double double)) = answer false ∧
      compare .ne next (.number (.double double)) = answer true ∧
      (Value.bool true).typeName ≠ (Value.number (.int 1)).typeName ∧
      (Value.bool true).strictlyEqual (.number (.int 1)) = false := by
  intro world compare answer double integer next
  obtain ⟨hmove, -, hcomm, htrans, -, htype⟩ := equality_is_partial_equivalence world
    (.literal .undefined ⟨0, 0⟩) [] .discard [] []
  have hequal : integer.strictlyEqual (.number (.double double)) = true := by decide +kernel
  have hback : (Value.number (.double double)).strictlyEqual integer = true :=
    (hcomm _ _).trans hequal
  have hnext : next.strictlyEqual (.number (.double double)) = false := by decide +kernel
  have hne : (Value.bool true).typeName ≠ (Value.number (.int 1)).typeName := by decide
  obtain ⟨heq, hne'⟩ := hmove next (.number (.double double))
  rw [hnext] at heq hne'
  exact ⟨⟨hequal, hback, htrans _ _ _ hequal hback⟩, by decide +kernel, heq, hne', hne,
    htype _ _ hne⟩

end Thread

end LateConst
