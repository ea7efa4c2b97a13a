import LateConst.Proofs.Rounding
import LateConst.Proofs.Run
import Mathlib.Data.Int.Basic
import Mathlib.Tactic.Push

/-!
# Indexing

What a number gives as the index of an array or a string depends on whether it equals a whole number
at which there is an element (`Thread.move_index`). That comparison is exact, but the number is made
a double before it; a huge integer has none, and its use as an index ends the run.
-/

namespace LateConst

/-! ### The integer that a number equals -/

namespace Double

/-- A count of units is an integer if it is a multiple of the units of one. -/
theorem natCast_eq_mul_unitsPerOne_iff {units : Nat} {i : Int} :
    (units : Int) = i * unitsPerOne ↔
      units % unitsPerOne = 0 ∧ (units / unitsPerOne : Nat) = i := by
  have hone := unitsPerOne_pos
  generalize unitsPerOne = one at hone ⊢
  constructor
  · intro h
    have hnonneg : 0 ≤ i := by
      refine Int.not_lt.1 fun hneg ↦ ?_
      have := Int.mul_neg_of_neg_of_pos hneg (Int.natCast_pos.2 hone)
      omega
    obtain ⟨n, rfl⟩ := Int.eq_ofNat_of_zero_le hnonneg
    obtain rfl : units = n * one := by exact_mod_cast h
    exact ⟨Nat.mul_mod_left n one, by rw [Nat.mul_div_cancel n hone]⟩
  · rintro ⟨hrest, rfl⟩
    exact_mod_cast (Nat.div_mul_cancel (Nat.dvd_of_mod_eq_zero hrest)).symm

theorem signed_eq_iff {negative : Bool} {units : Nat} {i : Int} :
    signed negative units = i ↔ (units : Int) = if negative then -i else i := by
  cases negative with
  | true => exact neg_eq_iff_eq_neg
  | false => exact Iff.rfl

end Double

namespace Number

/-- Only one integer is given for a number, and it is the one that the number equals. -/
theorem toInt?_eq_some_iff {n : Number} {i : Int} :
    n.toInt? = some i ↔ n.equal (.int i) = true := by
  have hone : (Double.unitsPerOne : Int) ≠ 0 := Int.natCast_ne_zero.2 Double.unitsPerOne_pos.ne'
  cases n with
  | int m =>
    rw [toInt?, equal, place?, place?, beq_iff_eq, Place.at.injEq, Option.some_inj]
    exact (mul_left_inj' hone).symm
  | double d =>
    cases d with
    | nan => exact iff_of_false (Option.some_ne_none i).symm Bool.false_ne_true
    | infinite negative =>
      cases negative <;> exact iff_of_false (Option.some_ne_none i).symm Bool.false_ne_true
    | finite negative units =>
      calc
        _ ↔ units % Double.unitsPerOne = 0 ∧
            Double.signed negative (units / Double.unitsPerOne) = i := by
          rw [toInt?, Double.toInt?, Option.ite_none_right_eq_some, Option.some_inj]
        _ ↔ (units : Int) = (if negative then -i else i) * Double.unitsPerOne := by
          rw [Double.signed_eq_iff, Double.natCast_eq_mul_unitsPerOne_iff]
        _ ↔ Double.signed negative units = i * Double.unitsPerOne := by
          rw [Double.signed_eq_iff, ite_mul, neg_mul]
        _ ↔ _ := by rw [equal, place?, place?, beq_iff_eq, Place.at.injEq]

end Number

/-! ### Elements -/

namespace Value

variable {store : Store} {base : Value} {n : Number} {length : Nat}

/-- There is an element at every index below the length. -/
theorem exists_element?_of_lt (hlength : base.length? store = some length) {i : Nat}
    (hlt : i < length) : ∃ v, base.element? store i = some v := by
  cases base with
  | array ref =>
    cases hlength
    exact ⟨_, Array.getElem?_eq_getElem hlt⟩
  | text s =>
    cases hlength
    rw [element?, List.getElem?_eq_getElem hlt]
    exact ⟨_, rfl⟩
  | _ => cases hlength

theorem applyIndex_of_isHuge (hlength : base.length? store = some length) (hhuge : n.IsHuge) :
    applyIndex store base (.number n) = .error (.crash .tooLargeForDouble) := by
  rw [applyIndex, hlength]
  dsimp only
  rw [n.unless_toDouble.eq_error hhuge]

theorem applyIndex_of_not_isHuge (hlength : base.length? store = some length)
    (hhuge : ¬n.IsHuge) : applyIndex store base (.number n) = match n.toInt? with
      | some i =>
        if 0 ≤ i ∧ i < length then .ok ((base.element? store i.toNat).getD undefined)
        else .ok undefined
      | none => .ok undefined := by
  obtain ⟨d, hdouble⟩ := n.unless_toDouble.exists_ok hhuge
  cases hint : n.toInt? with
  | some i => simp only [applyIndex, hlength, hdouble, hint]
  | none => simp only [applyIndex, hlength, hdouble, hint]

/-- A number that equals a whole number below the length gives the element there. -/
theorem applyIndex_of_equal (hlength : base.length? store = some length) (hhuge : ¬n.IsHuge)
    {i : Nat} {v : Value} (helement : base.element? store i = some v) (hlt : i < length)
    (hequal : n.equal (.int i) = true) : applyIndex store base (.number n) = .ok v := by
  rw [applyIndex_of_not_isHuge hlength hhuge, Number.toInt?_eq_some_iff.2 hequal]
  dsimp only
  rw [if_pos ⟨Int.natCast_nonneg i, Int.ofNat_lt.2 hlt⟩, Int.toNat_natCast, helement,
    Option.getD_some]

/-- Any other number gives `undefined`. -/
theorem applyIndex_of_forall_not_equal (hlength : base.length? store = some length)
    (hhuge : ¬n.IsHuge) (hnone : ∀ i < length, n.equal (.int i) = false) :
    applyIndex store base (.number n) = .ok undefined := by
  rw [applyIndex_of_not_isHuge hlength hhuge]
  split
  next i hint =>
    refine if_neg fun ⟨hnonneg, hlt⟩ ↦ ?_
    obtain ⟨i, rfl⟩ := Int.eq_ofNat_of_zero_le hnonneg
    have hequal := Number.toInt?_eq_some_iff.1 hint
    rw [hnone i (Int.ofNat_lt.1 hlt)] at hequal
    cases hequal
  next => rfl

end Value

namespace Thread

variable {world : World} {base : Value} {n : Number} {length : Nat}

/-- A number as the index of an array or a string gives the element at the whole number that it
equals, and `undefined` if there is no element at it or it equals none. A huge integer is not even
compared: it ends the run with a crash, whatever handlers there are. -/
theorem move_index (node : Expr) (frames : List ExprFrame) (use : Use) (body : List StmtFrame)
    (callers : List Caller) (hlength : base.length? world.store = some length) :
    let index : Thread := ⟨.value (.number n) (.index node base :: frames) use, body, callers⟩
    let result (v : Value) : ThreadMove := .goOn world ⟨.value v frames use, body, callers⟩
    (n.IsHuge → index.move world = .fail world (.crash .tooLargeForDouble)) ∧
      (¬n.IsHuge → ∀ i < length, n.equal (.int i) = true →
        ∃ v, base.element? world.store i = some v ∧ index.move world = result v) ∧
      (¬n.IsHuge → (∀ i < length, n.equal (.int i) = false) →
        index.move world = result .undefined) := by
  dsimp only
  rw [move, resume]
  refine ⟨fun hhuge ↦ ?_, fun hhuge i hlt hequal ↦ ?_, fun hhuge hnone ↦ ?_⟩
  · rw [Value.applyIndex_of_isHuge hlength hhuge]
    rfl
  · obtain ⟨v, helement⟩ := Value.exists_element?_of_lt hlength hlt
    rw [Value.applyIndex_of_equal hlength hhuge helement hlt hequal]
    exact ⟨v, helement, rfl⟩
  · rw [Value.applyIndex_of_forall_not_equal hlength hhuge hnone]

/-- Three indices into a text of two characters: one at which there is an element, one at which
there is none, and one that is too large. -/
theorem move_index_of_short_text :
    let world : World := ⟨.empty, #[]⟩
    let index (n : Number) : Thread :=
      ⟨.value (.number n) [.index (.literal .undefined ⟨0, 0⟩) (.text "ab")] .discard, [], []⟩
    let result (v : Value) : ThreadMove := .goOn world ⟨.value v [] .discard, [], []⟩
    (index (.double (.finite false Double.unitsPerOne))).move world = result (.text "b") ∧
      (index (.int (-1))).move world = result .undefined ∧
      (index (.int (10 ^ 309))).move world = .fail world (.crash .tooLargeForDouble) := by
  have hlength : (Value.text "ab").length? (World.mk .empty #[]).store = some 2 := rfl
  refine ⟨?_, ?_, ?_⟩
  · obtain ⟨-, hequal, -⟩ := move_index (n := .double (.finite false Double.unitsPerOne))
      (.literal .undefined ⟨0, 0⟩) [] .discard [] [] hlength
    obtain ⟨v, helement, hmove⟩ := hequal (by decide +kernel) 1 (by decide) (by decide +kernel)
    cases helement
    exact hmove
  · obtain ⟨-, -, hnone⟩ := move_index (n := .int (-1)) (.literal .undefined ⟨0, 0⟩) [] .discard
      [] [] hlength
    exact hnone (by decide +kernel) (by decide +kernel)
  · obtain ⟨hhuge, -⟩ := move_index (n := .int (10 ^ 309)) (.literal .undefined ⟨0, 0⟩) [] .discard
      [] [] hlength
    exact hhuge (by decide +kernel)

end Thread

/-- A huge index is no index at which there is nothing: it ends the run, and the handler around it
does not see why. -/
theorem Program.crash_of_huge_index : ∃ program rest,
    read ("try \x7bprint [1][1".toList ++ List.replicate 309 '0' ++
      "];\x7d catch (e) \x7b\x7d".toList) = .program program ∧
      program.moment false .empty 20 = .ended (program.moment false .empty 20).world rest
        (some (.crash .tooLargeForDouble)) := by
  have hrun : ((ofText? ("try \x7bprint [1][1".toList ++ List.replicate 309 '0' ++
      "];\x7d catch (e) \x7b\x7d".toList)).bind fun program ↦
        (program.moment false .empty 20).crash?) = some .tooLargeForDouble := by
    decide +kernel
  obtain ⟨program, htext, hcrash⟩ := Option.bind_eq_some_iff.1 hrun
  obtain ⟨rest, hended⟩ := Progress.exists_eq_ended_of_crash? hcrash
  exact ⟨program, rest, read_of_ofText? htext, hended⟩

end LateConst
