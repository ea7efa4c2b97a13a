import Mathlib.Data.List.Nodup
import LateConst.Proofs.Operator

/-!
# What has been done with a name

The state of a name and the outcome of whatever is done with it next, said without a store: both
follow from the list of all that has been done with the name successfully (`Action.state?`,
`Action.expected`). The rules of entries agree with that.
-/

namespace LateConst

inductive Action where
  | declare (kind : Kind) (hasInitializer : Bool)
  | define (value : Value)
  | read (forTypeof : Bool)
  | write (value : Value)

namespace Action

def value? : Action → Option Value
  | define v => some v
  | write v => some v
  | _ => none

def isDefine : Action → Bool
  | define _ => true
  | _ => false

def values (deeds : List Action) : List Value := deeds.filterMap value?

/-- As what a name has been declared, and whether its declaration is to give it a value. -/
def declaration? : List Action → Option (Kind × Bool)
  | declare kind hasInitializer :: _ => some (kind, hasInitializer)
  | _ => none

/-- The state of a name, from all that has been done with it. -/
def state? (deeds : List Action) : Option Slot :=
  match declaration? deeds with
  | none => none
  | some (.mutable, _) =>
    some (.mutable ((values deeds).getLastD .undefined) (deeds.any isDefine))
  | some (.constant, hasInitializer) =>
    match values deeds with
    | [] => some (if hasInitializer then .awaiting else .unset)
    | v :: _ => some (.constant v (deeds.any isDefine))

/-- What comes of an action, from all that has been done with the name before. -/
def expected (name : String) (deeds : List Action) (action : Action) :
    Except Failure (Option Value) :=
  match declaration? deeds, action with
  | none, .declare _ _ => .ok none
  | none, _ => .error (.crash (.missingName name))
  | some _, .declare _ _ => .error (.fault (.duplicateName name))
  | some (kind, _), .define _ =>
    if deeds.any isDefine then .error (.crash (.violation (.initializedTwice name)))
    else if kind = .constant ∧ values deeds ≠ [] then
      .error (.crash (.violation (.initializedAfterWrite name)))
    else .ok none
  | some (.mutable, _), .read _ => .ok (some ((values deeds).getLastD .undefined))
  | some (.mutable, _), .write _ => .ok none
  | some (.constant, hasInitializer), .read forTypeof =>
    match values deeds with
    | v :: _ => .ok (some v)
    | [] =>
      if forTypeof ∧ ¬hasInitializer then .ok (some .undefined)
      else .error (.fault (.unboundAccess name))
  | some (.constant, hasInitializer), .write _ =>
    match values deeds with
    | _ :: _ => .error (.fault (.reassignment name))
    | [] => if hasInitializer then .error (.fault (.unboundAccess name)) else .ok none

variable {name : String} {deeds : List Action} {action : Action} {v : Value} {slot slot' : Slot}
  {answer : Option Value}

@[simp]
theorem values_concat : values (deeds ++ [action]) = values deeds ++ action.value?.toList := by
  cases h : action.value? <;> simp [values, h]

@[simp]
theorem isDefine_define : (define v).isDefine = true := rfl

@[simp]
theorem isDefine_write : (write v).isDefine = false := rfl

@[simp]
theorem isDefine_read (forTypeof : Bool) : (read forTypeof).isDefine = false := rfl

theorem declaration?_concat {declared : Kind × Bool} (h : declaration? deeds = some declared)
    (action : Action) : declaration? (deeds ++ [action]) = some declared := by
  cases deeds with
  | nil => cases h
  | cons first more => cases first <;> exact h

/-- A name that has been given no value has not been given one by its declaration. -/
theorem any_isDefine_eq_false (h : values deeds = []) : deeds.any isDefine = false := by
  refine List.any_eq_false.2 fun deed hdeed hdefine ↦ ?_
  cases deed with
  | define v => cases List.filterMap_eq_nil_iff.1 h _ hdeed
  | _ => cases hdefine

/-! ### Names that are there -/

/-- The state of a name is that of a variable or of a constant, as it was declared. -/
theorem state?_cases (h : state? deeds = some slot) :
    (∃ hasInitializer, declaration? deeds = some (.mutable, hasInitializer) ∧
        slot = .mutable ((values deeds).getLastD .undefined) (deeds.any isDefine)) ∨
      ∃ hasInitializer, declaration? deeds = some (.constant, hasInitializer) ∧
        ((values deeds = [] ∧ slot = if hasInitializer then .awaiting else .unset) ∨
          ∃ v more, values deeds = v :: more ∧ slot = .constant v (deeds.any isDefine)) := by
  rw [state?] at h
  split at h
  next => cases h
  next hasInitializer hdeclared =>
    exact .inl ⟨hasInitializer, hdeclared, (Option.some.inj h).symm⟩
  next hasInitializer hdeclared =>
    refine .inr ⟨hasInitializer, hdeclared, ?_⟩
    split at h
    next hvalues => exact .inl ⟨hvalues, (Option.some.inj h).symm⟩
    next v more hvalues => exact .inr ⟨v, more, hvalues, (Option.some.inj h).symm⟩

theorem declaration?_eq_none (h : state? deeds = none) : declaration? deeds = none := by
  rw [state?] at h
  split at h
  next hnone => exact hnone
  next => cases h
  next => split at h <;> cases h

theorem expected_declare (h : state? deeds = some slot) (name : String) (kind : Kind)
    (hasInitializer : Bool) : expected name deeds (.declare kind hasInitializer) =
      .error (.fault (.duplicateName name)) := by
  obtain ⟨_, hdeclared, -⟩ | ⟨_, hdeclared, -⟩ := state?_cases h <;> simp only [expected, hdeclared]

theorem expected_read (h : state? deeds = some slot) (name : String) (forTypeof : Bool) :
    expected name deeds (.read forTypeof) =
      ((slot.read name forTypeof).mapError Failure.fault).map some := by
  obtain ⟨_, hdeclared, rfl⟩ | ⟨hasInitializer, hdeclared, hstate⟩ := state?_cases h
  · simp only [expected, hdeclared]
    rfl
  · obtain ⟨hvalues, rfl⟩ | ⟨v, more, hvalues, rfl⟩ := hstate
    · simp only [expected, hdeclared, hvalues]
      cases hasInitializer <;> cases forTypeof <;> rfl
    · simp only [expected, hdeclared, hvalues]
      rfl

theorem expected_write (h : state? deeds = some slot) (name : String) (v : Value) :
    expected name deeds (.write v) =
      ((slot.write name v).mapError Failure.fault).map fun _ ↦ none := by
  obtain ⟨_, hdeclared, rfl⟩ | ⟨hasInitializer, hdeclared, hstate⟩ := state?_cases h
  · simp only [expected, hdeclared]
    rfl
  · obtain ⟨hvalues, rfl⟩ | ⟨w, more, hvalues, rfl⟩ := hstate
    · simp only [expected, hdeclared, hvalues]
      cases hasInitializer <;> rfl
    · simp only [expected, hdeclared, hvalues]
      rfl

theorem expected_define (h : state? deeds = some slot) (name : String) (v : Value) :
    expected name deeds (.define v) =
      ((slot.define name v).mapError fun cause ↦ Failure.crash (.violation cause)).map
        fun _ ↦ none := by
  obtain ⟨_, hdeclared, rfl⟩ | ⟨hasInitializer, hdeclared, hstate⟩ := state?_cases h
  · simp only [expected, hdeclared]
    cases deeds.any isDefine <;> rfl
  · obtain ⟨hvalues, rfl⟩ | ⟨w, more, hvalues, rfl⟩ := hstate
    · simp only [expected, hdeclared, hvalues, any_isDefine_eq_false hvalues]
      cases hasInitializer <;> rfl
    · simp only [expected, hdeclared, hvalues]
      cases deeds.any isDefine <;> rfl

theorem state?_read (h : state? deeds = some slot) (forTypeof : Bool) :
    state? (deeds ++ [read forTypeof]) = some slot := by
  obtain ⟨_, hdeclared, -⟩ | ⟨_, hdeclared, -⟩ := state?_cases h <;>
  · rw [← h]
    simp [state?, declaration?_concat hdeclared, hdeclared, value?]

theorem state?_write (h : state? deeds = some slot) (hwrite : slot.write name v = .ok slot') :
    state? (deeds ++ [write v]) = some slot' := by
  obtain ⟨_, hdeclared, rfl⟩ | ⟨hasInitializer, hdeclared, hstate⟩ := state?_cases h
  · cases hwrite
    simp [state?, declaration?_concat hdeclared, value?]
  · obtain ⟨hvalues, rfl⟩ | ⟨w, more, hvalues, rfl⟩ := hstate
    · cases hasInitializer with
      | true => cases hwrite
      | false =>
        cases hwrite
        simp [state?, declaration?_concat hdeclared, value?, hvalues, any_isDefine_eq_false hvalues]
    · cases hwrite

theorem state?_define (h : state? deeds = some slot) (hdefine : slot.define name v = .ok slot') :
    state? (deeds ++ [define v]) = some slot' := by
  obtain ⟨_, hdeclared, rfl⟩ | ⟨hasInitializer, hdeclared, hstate⟩ := state?_cases h
  · cases hany : deeds.any isDefine <;> rw [hany] at hdefine <;> cases hdefine
    simp [state?, declaration?_concat hdeclared, value?]
  · obtain ⟨hvalues, rfl⟩ | ⟨w, more, hvalues, rfl⟩ := hstate
    · have hslot : slot' = .constant v true := by cases hasInitializer <;> cases hdefine <;> rfl
      simp [state?, declaration?_concat hdeclared, value?, hvalues, hslot]
    · cases hdefine

/-! ### Laws of what has been done -/

/-- What must be so of all that has been done with a name: its declaration came first, it was
initialized at most once, and as a constant it was given at most one value. -/
structure Lawful (deeds : List Action) : Prop where
  declared : declaration? deeds = none → deeds = []
  initialized_once : deeds.countP isDefine ≤ 1
  constant : ∀ hasInitializer, declaration? deeds = some (.constant, hasInitializer) →
    (values deeds).length ≤ 1

theorem lawful_nil : Lawful [] := ⟨fun _ ↦ rfl, Nat.zero_le 1, fun _ h ↦ by cases h⟩

theorem Lawful.concat (h : Lawful deeds) (hok : expected name deeds action = .ok answer) :
    Lawful (deeds ++ [action]) := by
  cases hdeclared : declaration? deeds with
  | none =>
    obtain rfl := h.declared hdeclared
    cases action with
    | declare kind hasInitializer =>
      exact ⟨fun hnone ↦ (by cases hnone), Nat.zero_le 1, fun _ _ ↦ Nat.zero_le 1⟩
    | _ => cases hok
  | some declared =>
    obtain ⟨kind, hasInitializer⟩ := declared
    have hconcat := declaration?_concat hdeclared action
    refine ⟨fun hnone ↦ (by cases hconcat.symm.trans hnone), ?_, fun _ hconstant ↦ ?_⟩
    · cases action with
      | define v =>
        simp only [expected, hdeclared] at hok
        split at hok
        · cases hok
        next hany =>
          have hzero : deeds.countP isDefine = 0 := by
            rw [List.countP_eq_zero]
            exact fun deed hdeed ↦ by
              simpa using List.any_eq_false.1 (by simpa using hany) deed hdeed
          simp [List.countP_append, hzero]
      | declare kind hasInitializer => simpa [List.countP_append, isDefine] using h.initialized_once
      | read forTypeof => simpa [List.countP_append, isDefine] using h.initialized_once
      | write v => simpa [List.countP_append, isDefine] using h.initialized_once
    · obtain ⟨rfl, rfl⟩ := Prod.mk.inj (Option.some.inj (hconcat.symm.trans hconstant))
      have hold := h.constant _ hdeclared
      cases action with
      | declare kind hasInitializer => simpa [value?] using hold
      | read forTypeof => simpa [value?] using hold
      | define v =>
        simp only [expected, hdeclared] at hok
        split at hok
        · cases hok
        · split at hok
          · cases hok
          next hvalues =>
            obtain hnil : values deeds = [] := by simpa using hvalues
            simp [value?, hnil]
      | write v =>
        simp only [expected, hdeclared] at hok
        split at hok
        · cases hok
        next hvalues => simp [value?, hvalues]

end Action

end LateConst
