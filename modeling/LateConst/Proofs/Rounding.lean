import LateConst.Proofs.Operator
import Mathlib.Tactic.Ring

/-!
# Beyond the largest double

A quotient is rounded to 53 significant bits, and what comes to 2^1024 or more is infinite. Half a
step below that power already rounds to it, so the quotients that are too large are those from
2^1024 - 2^970 on (`Double.ofQuotient_cases`). An integer is `Number.IsHuge` if it is one of them:
such integers have no double at all, and all other numbers have one (`Number.unless_toDouble`).
-/

namespace LateConst

/-! ### Rounding to an integer -/

theorem le_roundHalfEven (num den : Nat) : num / den ≤ roundHalfEven num den := by
  unfold roundHalfEven
  dsimp only
  split
  · exact Nat.le_refl _
  · split <;> omega

theorem roundHalfEven_le (num den : Nat) : roundHalfEven num den ≤ num / den + 1 := by
  unfold roundHalfEven
  dsimp only
  split
  · omega
  · split <;> omega

/-- A quotient rounds to no more than an odd number if it is nearer to it than to the next one: the
quotient halfway between them goes to the next one, which is even. -/
theorem roundHalfEven_le_iff {num den k : Nat} (hden : 0 < den) (hodd : k % 2 = 1) :
    roundHalfEven num den ≤ k ↔ 2 * num < (2 * k + 1) * den := by
  have hdiv := Nat.div_add_mod num den
  have hrest := Nat.mod_lt num hden
  have hlow := le_roundHalfEven num den
  have hhigh := roundHalfEven_le num den
  have hmiddle : (2 * k + 1) * den = 2 * (den * k) + den := by ring
  rw [hmiddle]
  obtain hlt | heq | hlt := Nat.lt_trichotomy (num / den) k
  · have hstep : den * (num / den) + den ≤ den * k := Nat.mul_le_mul_left den hlt
    exact iff_of_true (hhigh.trans hlt) (by omega)
  · unfold roundHalfEven
    dsimp only
    rw [heq] at hdiv ⊢
    split
    · exact iff_of_true (Nat.le_refl k) (by omega)
    · refine iff_of_false ?_ (by omega)
      split <;> omega
  · have hstep : den * k + den ≤ den * (num / den) := Nat.mul_le_mul_left den hlt
    exact iff_of_false (by omega) (by omega)

namespace Double

/-! ### The distance of neighbours -/

theorem spacing_pos (units : Nat) : 0 < spacing units := Nat.two_pow_pos _

theorem spacing_le {units e : Nat} (h : units < 2 ^ (e + 53)) : spacing units ≤ 2 ^ e := by
  refine Nat.pow_le_pow_right (by decide) ?_
  obtain rfl | hpos := Nat.eq_zero_or_pos units
  · rw [Nat.log2_zero]
    omega
  · have hlog := (Nat.log2_lt (Nat.ne_of_gt hpos)).2 h
    omega

theorem spacing_eq {units e : Nat} (hle : 2 ^ (e + 52) ≤ units) (hlt : units < 2 ^ (e + 53)) :
    spacing units = 2 ^ e := by
  have hne : units ≠ 0 := Nat.ne_of_gt ((Nat.two_pow_pos _).trans_le hle)
  rw [spacing, (Nat.log2_eq_iff hne).2 ⟨hle, hlt⟩, Nat.add_sub_cancel]
  rfl

/-- The powers of two are among the doubles, so that rounding down does not pass them. -/
theorem le_div_mul_spacing {units p : Nat} (hp : 52 ≤ p) (hle : 2 ^ p ≤ units) :
    2 ^ p ≤ units / spacing units * spacing units := by
  have hne : units ≠ 0 := Nat.ne_of_gt ((Nat.two_pow_pos _).trans_le hle)
  have hlog : p ≤ units.log2 := (Nat.le_log2 hne).2 hle
  have hpower : 2 ^ 52 * spacing units = 2 ^ units.log2 := by
    rw [spacing, Nat.pow_eq, ← pow_add]
    congr 1
    omega
  have hdigits : 2 ^ 52 ≤ units / spacing units := by
    rw [Nat.le_div_iff_mul_le (spacing_pos units), hpower]
    exact Nat.log2_self_le hne
  calc
    2 ^ p ≤ 2 ^ units.log2 := Nat.pow_le_pow_right (by decide) hlog
    _ = 2 ^ 52 * spacing units := hpower.symm
    _ ≤ units / spacing units * spacing units := Nat.mul_le_mul_right _ hdigits

/-! ### The largest double -/

/-- A quotient rounded to 53 significant bits. -/
def rounded (num den : Nat) : Nat :=
  roundHalfEven num (den * spacing (num / den)) * spacing (num / den)

theorem round_eq (negative : Bool) (num den : Nat) : round negative num den =
    if rounded num den < unitsLimit then .finite negative (rounded num den)
    else .infinite negative := rfl

/-- What is at least a power of two is not rounded to less. -/
theorem le_rounded {num den p : Nat} (hp : 52 ≤ p) (hle : 2 ^ p ≤ num / den) :
    2 ^ p ≤ rounded num den := by
  calc
    2 ^ p ≤ num / den / spacing (num / den) * spacing (num / den) := le_div_mul_spacing hp hle
    _ = num / (den * spacing (num / den)) * spacing (num / den) := by rw [Nat.div_div_eq_div_mul]
    _ ≤ rounded num den := Nat.mul_le_mul_right _ (le_roundHalfEven _ _)

theorem rounded_le (num den : Nat) : rounded num den ≤ num / den + spacing (num / den) := by
  calc
    rounded num den ≤ (num / (den * spacing (num / den)) + 1) * spacing (num / den) :=
      Nat.mul_le_mul_right _ (roundHalfEven_le _ _)
    _ = num / den / spacing (num / den) * spacing (num / den) + spacing (num / den) := by
      rw [Nat.succ_mul, Nat.div_div_eq_div_mul]
    _ ≤ _ := Nat.add_le_add_right (Nat.div_mul_le_self _ _) _

/-- A quotient stays below a power of two if it is nearer to the last number of 53 significant bits
below the power than to the power. -/
theorem rounded_lt_iff {num den e : Nat} (hden : 0 < den) :
    rounded num den < 2 ^ (e + 54) ↔ num < (2 ^ (e + 54) - 2 ^ e) * den := by
  have hpower : 2 ^ (e + 54) = 2 ^ 54 * 2 ^ e := by rw [pow_add, mul_comm]
  have hhalf : 2 ^ (e + 53) = 2 ^ 53 * 2 ^ e := by rw [pow_add, mul_comm]
  obtain hlt | hle := Nat.lt_or_ge (num / den) (2 ^ (e + 53))
  · -- one step further is still far below the power
    have hunits := rounded_le num den
    have hspacing := spacing_le hlt
    have hnum : num < 2 ^ (e + 53) * den := (Nat.div_lt_iff_lt_mul hden).1 hlt
    exact iff_of_true (by omega) (hnum.trans_le (Nat.mul_le_mul_right den (by omega)))
  obtain hlt | hle := Nat.lt_or_ge (num / den) (2 ^ (e + 54))
  · -- the numbers around are those just below the power
    have hspacing : spacing (num / den) = 2 ^ (e + 1) := spacing_eq hle hlt
    calc
      rounded num den < 2 ^ (e + 54) ↔
          roundHalfEven num (den * 2 ^ (e + 1)) * 2 ^ (e + 1) < 2 ^ 53 * 2 ^ (e + 1) := by
        rw [rounded, hspacing, ← pow_add, Nat.add_comm 53 (e + 1)]
      _ ↔ roundHalfEven num (den * 2 ^ (e + 1)) < 2 ^ 53 :=
        Nat.mul_lt_mul_right (Nat.two_pow_pos _)
      _ ↔ roundHalfEven num (den * 2 ^ (e + 1)) ≤ 2 ^ 53 - 1 := Nat.lt_iff_le_pred (by decide)
      _ ↔ 2 * num < (2 * (2 ^ 53 - 1) + 1) * (den * 2 ^ (e + 1)) :=
        roundHalfEven_le_iff (Nat.mul_pos hden (Nat.two_pow_pos _)) (by decide)
      _ ↔ 2 * num < 2 * ((2 ^ 54 * 2 ^ e - 2 ^ e) * den) := by
        rw [← Nat.sub_one_mul, pow_succ]
        ring_nf
      _ ↔ num < (2 ^ (e + 54) - 2 ^ e) * den := by
        rw [hpower]
        exact Nat.mul_lt_mul_left (by decide)
  · -- at the power or beyond it
    refine iff_of_false (Nat.not_lt.2 (le_rounded (by omega) hle)) (Nat.not_lt.2 ?_)
    calc
      (2 ^ (e + 54) - 2 ^ e) * den ≤ 2 ^ (e + 54) * den :=
        Nat.mul_le_mul_right den (Nat.sub_le _ _)
      _ ≤ num := (Nat.le_div_iff_mul_le hden).1 hle

/-- The least number that is as near to 2^1024 as to the largest double. -/
def overflow : Nat := 2 ^ 1024 - 2 ^ 970

theorem unitsPerOne_pos : 0 < unitsPerOne := by decide +kernel

theorem unitsPerOne_eq : unitsPerOne = 2 ^ 1074 := by decide +kernel

theorem unitsLimit_eq : unitsLimit = 2 ^ (2044 + 54) := by decide +kernel

theorem overflow_mul_unitsPerOne : overflow * unitsPerOne = 2 ^ (2044 + 54) - 2 ^ 2044 := by
  decide +kernel

theorem rounded_lt_unitsLimit_iff {num den : Nat} (hden : 0 < den) :
    rounded (num * unitsPerOne) den < unitsLimit ↔ num < overflow * den := by
  calc
    rounded (num * unitsPerOne) den < unitsLimit ↔
        num * unitsPerOne < (2 ^ (2044 + 54) - 2 ^ 2044) * den := by
      rw [unitsLimit_eq, rounded_lt_iff hden]
    _ ↔ num * unitsPerOne < overflow * den * unitsPerOne := by
      rw [Nat.mul_right_comm overflow, overflow_mul_unitsPerOne]
    _ ↔ num < overflow * den := Nat.mul_lt_mul_right unitsPerOne_pos

/-- A quotient has an infinite double if it is too large, and a finite one otherwise. -/
theorem ofQuotient_cases (negative : Bool) (num : Nat) {den : Nat} (hden : 0 < den) :
    (overflow * den ≤ num ∧ ofQuotient negative num den = .infinite negative) ∨
      num < overflow * den ∧
        ofQuotient negative num den = .finite negative (rounded (num * unitsPerOne) den) := by
  rw [ofQuotient, round_eq]
  obtain hlt | hle := Nat.lt_or_ge num (overflow * den)
  · exact .inr ⟨hlt, if_pos ((rounded_lt_unitsLimit_iff hden).2 hlt)⟩
  · refine .inl ⟨hle, if_neg fun hlt ↦ ?_⟩
    exact Nat.not_lt.2 hle ((rounded_lt_unitsLimit_iff hden).1 hlt)

theorem unless_inRange (negative : Bool) (num : Nat) {den : Nat} (hden : 0 < den) :
    Unless .tooLargeForDouble (overflow * den ≤ num) (ofQuotient negative num den).inRange := by
  obtain ⟨hle, hdouble⟩ | ⟨hlt, hdouble⟩ := ofQuotient_cases negative num hden
  · rw [hdouble]
    exact .error hle
  · rw [hdouble]
    exact .ok _ (Nat.not_le.2 hlt)

end Double

namespace Number

/-- An integer that is too large for a double. -/
def IsHuge : Number → Prop
  | .int n => Double.overflow ≤ n.natAbs
  | .double _ => False

instance : (n : Number) → Decidable n.IsHuge
  | .int n => inferInstanceAs (Decidable (Double.overflow ≤ n.natAbs))
  | .double _ => inferInstanceAs (Decidable False)

theorem isZero_int_iff {n : Int} : (int n).isZero = true ↔ n = 0 := by
  have hone : (Double.unitsPerOne : Int) ≠ 0 := Int.natCast_ne_zero.2 Double.unitsPerOne_pos.ne'
  rw [isZero, place?, beq_iff_eq, Option.some_inj, Place.at.injEq, Int.mul_eq_zero,
    or_iff_left hone]

theorem isZero_finite_iff {negative : Bool} {units : Nat} :
    (double (.finite negative units)).isZero = true ↔ units = 0 := by
  rw [isZero, place?, beq_iff_eq, Option.some_inj, Place.at.injEq]
  cases negative with
  | true => exact Int.neg_eq_zero.trans Int.natCast_eq_zero
  | false => exact Int.natCast_eq_zero

theorem rounded_eq_zero_iff {n : Nat} : Double.rounded (n * Double.unitsPerOne) 1 = 0 ↔ n = 0 := by
  constructor
  · intro hzero
    by_contra hne
    have hle : 2 ^ 1074 ≤ n * Double.unitsPerOne / 1 := by
      rw [Nat.div_one, ← Double.unitsPerOne_eq]
      exact Nat.le_mul_of_pos_left _ (Nat.pos_of_ne_zero hne)
    have hrounded := Double.le_rounded (by decide) hle
    rw [hzero] at hrounded
    exact Nat.not_le.2 (Nat.two_pow_pos _) hrounded
  · rintro rfl
    rw [Nat.zero_mul]
    decide

/-- A number has a double unless it is a huge integer. -/
theorem unless_toDouble (n : Number) : Unless .tooLargeForDouble n.IsHuge n.toDouble := by
  cases n with
  | double d => exact .ok d id
  | int n =>
    have hrange := Double.unless_inRange (decide (n < 0)) n.natAbs Nat.one_pos
    rw [Nat.mul_one] at hrange
    exact hrange

/-- The double of an integer is a finite one, and it is zero only if the integer is. -/
theorem exists_finite_of_toDouble {i : Int} {d : Double} (h : (int i).toDouble = .ok d) :
    ∃ negative units, d = .finite negative units ∧ (units = 0 ↔ i = 0) := by
  rw [toDouble, Double.ofInt] at h
  obtain ⟨-, hdouble⟩ | ⟨-, hdouble⟩ :=
    Double.ofQuotient_cases (decide (i < 0)) i.natAbs Nat.one_pos
  · rw [hdouble] at h
    cases h
  · rw [hdouble] at h
    cases h
    exact ⟨_, _, rfl, rounded_eq_zero_iff.trans Int.natAbs_eq_zero⟩

theorem isZero_of_toDouble {n : Number} {d : Double} (h : n.toDouble = .ok d) :
    (double d).isZero = n.isZero := by
  cases n with
  | double d =>
    cases h
    rfl
  | int i =>
    obtain ⟨negative, units, rfl, hiff⟩ := exists_finite_of_toDouble h
    rw [Bool.eq_iff_iff, isZero_finite_iff, isZero_int_iff, hiff]

/-- A double that is not a finite one was no integer before. -/
theorem eq_double_of_toDouble {n : Number} {d : Double} (h : n.toDouble = .ok d)
    (hd : ∀ negative units, d ≠ .finite negative units) : n = .double d := by
  cases n with
  | double d =>
    cases h
    rfl
  | int i =>
    obtain ⟨negative, units, rfl, -⟩ := exists_finite_of_toDouble h
    exact (hd negative units rfl).elim

end Number

end LateConst
