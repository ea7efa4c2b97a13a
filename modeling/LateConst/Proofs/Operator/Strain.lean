import LateConst.Proofs.Operator.Text
import LateConst.Proofs.Rounding
import LateConst.Proofs.Run

/-!
# Operators that end a run

An operator gives a value or raises a fault of its own, which a handler can take, unless the machine
under the language cannot do with its operands what it is asked for. Only a divisor of zero is
looked for before. `Value.Strains` lists what is left, and `Thread.move_operator` says that there is
nothing else, however much room the stack of the machine has for arrays inside each other.
-/

namespace LateConst

namespace BinaryOp

/-- The operators whose result is a number. -/
def isArithmetic : BinaryOp → Bool
  | mul | div | rem | add | sub => true
  | _ => false

/-- The operators that need a divisor other than zero. -/
def divides : BinaryOp → Bool
  | div | rem => true
  | _ => false

end BinaryOp

/-! ### Too much for the machine -/

namespace Number

def isDouble : Number → Bool
  | int _ => false
  | double _ => true

/-- Two numbers are too much for an operator. -/
inductive Strains : BinaryOp → Number → Number → Crash → Prop
  /-- A huge integer meets a double. -/
  | huge {op : BinaryOp} {m n : Number} (hop : op.isArithmetic)
    (hzero : op.divides → n.isZero = false) (hdouble : m.isDouble ∨ n.isDouble)
    (hhuge : m.IsHuge ∨ n.IsHuge) : Strains op m n .tooLargeForDouble
  /-- A quotient of integers is beyond the range of doubles. -/
  | quotient {m n : Int} (hzero : n ≠ 0) (hlarge : Double.overflow * n.natAbs ≤ m.natAbs) :
    Strains .div (.int m) (.int n) .tooLargeForDouble
  /-- An infinite dividend has no remainder. -/
  | remainder {negative : Bool} {n : Number} (hzero : n.isZero = false)
    (hnan : n ≠ .double .nan) (hhuge : ¬n.IsHuge) :
    Strains .rem (.double (.infinite negative)) n .noRemainder

end Number

namespace Value

/-- Two values are too much for an operator. -/
inductive Strains (store : Store) : BinaryOp → Value → Value → Crash → Prop
  | numbers {op : BinaryOp} {m n : Number} {crash : Crash} (h : m.Strains op n crash) :
    Strains store op (.number m) (.number n) crash
  /-- A string is joined with a value that cannot be written. -/
  | join {a b : Value} {crash : Crash} (htext : a.isText ∨ b.isText)
    (hbars : store.Bars a crash ∨ store.Bars b crash) : Strains store .add a b crash

/-- A fault that an operator raises: for a divisor of zero, or for values that are not both
numbers. -/
inductive Misuse : BinaryOp → Value → Value → Fault → Prop
  | divisor {op : BinaryOp} {m n : Number} (hop : op.divides) (hzero : n.isZero) :
    Misuse op (.number m) (.number n) .divisionByZero
  | kinds {op : BinaryOp} {a b : Value} (h : ∀ m n, ¬(a = .number m ∧ b = .number n)) :
    Misuse op a b (.cannotApply op a.typeName b.typeName)

end Value

/-- What an operator comes to: a value or a fault of its own if it is not strained, and otherwise
the crash that this is. -/
inductive Fits (strained : Crash → Prop) (misuse : Fault → Prop) : Except Failure Value → Prop
  | ok (v : Value) (h : ∀ crash, ¬strained crash) : Fits strained misuse (.ok v)
  | fault {fault : Fault} (hmisuse : misuse fault) (h : ∀ crash, ¬strained crash) :
    Fits strained misuse (.error (.fault fault))
  | crash {crash : Crash} (h : strained crash) : Fits strained misuse (.error (.crash crash))

theorem Fits.iff {strained strained' : Crash → Prop} {misuse : Fault → Prop}
    {r : Except Failure Value} (h : Fits strained misuse r)
    (hiff : ∀ crash, strained crash ↔ strained' crash) : Fits strained' misuse r := by
  cases h with
  | ok v h => exact .ok v fun crash h' ↦ h crash ((hiff crash).2 h')
  | fault hmisuse h => exact .fault hmisuse fun crash h' ↦ h crash ((hiff crash).2 h')
  | crash h => exact .crash ((hiff _).1 h)

theorem Fits.of_unless {strained : Crash → Prop} {misuse : Fault → Prop} {crash : Crash}
    {bar : Prop} {r : Except Crash Number} (h : Unless crash bar r)
    (hiff : ∀ crash', strained crash' ↔ crash' = crash ∧ bar) :
    Fits strained misuse ((r.map Value.number).mapError .crash) := by
  cases h with
  | ok n h => exact .ok _ fun crash' hstrained ↦ h ((hiff crash').1 hstrained).2
  | error h => exact .crash ((hiff crash).2 ⟨rfl, h⟩)

/-! ### Numbers -/

namespace Number

variable {op : BinaryOp} {m n : Number}

theorem not_isDouble {i j : Int} : ¬((int i).isDouble ∨ (int j).isDouble) := by
  rintro (h | h) <;> cases h

/-- Comparisons are never too much. -/
theorem not_strains_of_not_isArithmetic (hop : op.isArithmetic = false) (crash : Crash) :
    ¬m.Strains op n crash := by
  rintro (⟨hop', -⟩ | _ | _)
  · rw [hop] at hop'
    cases hop'
  · cases hop
  · cases hop

/-- A divisor of zero is found before anything can be too much. -/
theorem not_strains_of_isZero (hop : op.divides) (hzero : n.isZero) (crash : Crash) :
    ¬m.Strains op n crash := by
  rintro (⟨_, hnot, -⟩ | ⟨hne, -⟩ | ⟨hnot, -⟩)
  · cases hzero.symm.trans (hnot hop)
  · exact hne (isZero_int_iff.1 hzero)
  · cases hzero.symm.trans hnot

/-- What is done with the doubles of two numbers is done unless one of them has none. -/
theorem unless_doubles (onDouble : Double → Double → Double) :
    Unless .tooLargeForDouble (m.IsHuge ∨ n.IsHuge) (do
      let x ← m.toDouble
      let y ← n.toDouble
      return double (onDouble x y)) :=
  m.unless_toDouble.bind fun _ ↦ n.unless_toDouble.map

theorem unless_combine (onInt : Int → Int → Int) (onDouble : Double → Double → Double) :
    Unless .tooLargeForDouble ((m.isDouble ∨ n.isDouble) ∧ (m.IsHuge ∨ n.IsHuge))
      (combine onInt onDouble m n) := by
  cases m with
  | double d => exact (unless_doubles onDouble).iff (and_iff_right (.inl rfl)).symm
  | int i =>
    cases n with
    | double d => exact (unless_doubles onDouble).iff (and_iff_right (.inr rfl)).symm
    | int j => exact .ok _ fun h ↦ not_isDouble h.1

/-- Sums, differences and products are strained only by huge integers. -/
theorem strains_iff (hop : op.isArithmetic) (hdivides : op.divides = false) (crash : Crash) :
    m.Strains op n crash ↔ crash = .tooLargeForDouble ∧
      (m.isDouble ∨ n.isDouble) ∧ (m.IsHuge ∨ n.IsHuge) := by
  constructor
  · rintro (⟨_, _, hdouble, hhuge⟩ | _ | _)
    · exact ⟨rfl, hdouble, hhuge⟩
    · cases hdivides
    · cases hdivides
  · rintro ⟨rfl, hdouble, hhuge⟩
    exact .huge hop (fun h ↦ by rw [hdivides] at h; cases h) hdouble hhuge

theorem fits_div {misuse : Fault → Prop} (hzero : n.isZero = false) :
    Fits (m.Strains .div n) misuse (((m.div n).map Value.number).mapError .crash) := by
  have hdoubles (hdouble : m.isDouble ∨ n.isDouble) (crash : Crash) :
      m.Strains .div n crash ↔ crash = .tooLargeForDouble ∧ (m.IsHuge ∨ n.IsHuge) := by
    constructor
    · rintro (⟨_, _, -, hhuge⟩ | _ | _)
      · exact ⟨rfl, hhuge⟩
      · exact (not_isDouble hdouble).elim
    · rintro ⟨rfl, hhuge⟩
      exact .huge rfl (fun _ ↦ hzero) hdouble hhuge
  cases m with
  | double d => exact .of_unless (unless_doubles Double.div) (hdoubles (.inl rfl))
  | int i =>
    cases n with
    | double d => exact .of_unless (unless_doubles Double.div) (hdoubles (.inr rfl))
    | int j =>
      have hne : j ≠ 0 := fun h ↦ by rw [isZero_int_iff.2 h] at hzero; cases hzero
      have hrange := Double.unless_inRange (decide (i < 0) ^^ decide (j < 0)) i.natAbs
        (Int.natAbs_pos.2 hne)
      refine .of_unless hrange.map fun crash ↦ ⟨?_, ?_⟩
      · rintro (⟨_, _, hdouble, -⟩ | ⟨_, hlarge⟩)
        · exact (not_isDouble hdouble).elim
        · exact ⟨rfl, hlarge⟩
      · rintro ⟨rfl, hlarge⟩
        exact .quotient hne hlarge

/-- A double divided by another that is not zero has a remainder unless it is infinite. -/
theorem remainder_cases (x : Double) {y : Double} (hzero : (double y).isZero = false) :
    (∃ negative, x = .infinite negative ∧ y ≠ .nan ∧ x.remainder y = none) ∨
      (∀ negative, x = .infinite negative → y = .nan) ∧ ∃ d, x.remainder y = some d := by
  cases x with
  | nan => exact .inr ⟨nofun, .nan, by cases y <;> rfl⟩
  | infinite negative =>
    cases y with
    | nan => exact .inr ⟨fun _ _ ↦ rfl, _, rfl⟩
    | _ => exact .inl ⟨negative, rfl, nofun, rfl⟩
  | finite negative units =>
    cases y with
    | finite negative' units' =>
      have hne : units' ≠ 0 := fun h ↦ by rw [isZero_finite_iff.2 h] at hzero; cases hzero
      exact .inr ⟨nofun, _, by rw [Double.remainder, if_neg hne]⟩
    | _ => exact .inr ⟨nofun, _, rfl⟩

/-- The remainder of numbers that are not both integers. -/
theorem rem_eq (hdouble : m.isDouble ∨ n.isDouble) : m.rem n = (do
    let x ← m.toDouble
    let y ← n.toDouble
    match x.remainder y with
    | some d => return double d
    | none => throw .noRemainder) := by
  cases m with
  | double d => rfl
  | int i =>
    cases n with
    | double d => rfl
    | int j => exact (not_isDouble hdouble).elim

theorem fits_rem {misuse : Fault → Prop} (hzero : n.isZero = false) :
    Fits (m.Strains .rem n) misuse (((m.rem n).map Value.number).mapError .crash) := by
  by_cases hdouble : m.isDouble ∨ n.isDouble
  · rw [rem_eq hdouble]
    have hstrained (hhuge : m.IsHuge ∨ n.IsHuge) : m.Strains .rem n .tooLargeForDouble :=
      .huge rfl (fun _ ↦ hzero) hdouble hhuge
    have hm := m.unless_toDouble
    have hn := n.unless_toDouble
    generalize hx : m.toDouble = x at hm ⊢
    generalize hy : n.toDouble = y at hn ⊢
    cases hm with
    | error hhuge => exact .crash (hstrained (.inl hhuge))
    | ok x hm =>
      cases hn with
      | error hhuge => exact .crash (hstrained (.inr hhuge))
      | ok y hn =>
        change Fits _ _ (((match x.remainder y with
          | some d => pure (double d)
          | none => .error .noRemainder : Except Crash Number).map Value.number).mapError .crash)
        obtain ⟨negative, rfl, hnan, hnone⟩ | ⟨hany, d, hsome⟩ :=
          remainder_cases x ((isZero_of_toDouble hy).trans hzero)
        · obtain rfl := eq_double_of_toDouble hx nofun
          rw [hnone]
          refine .crash (.remainder hzero (fun heq ↦ hnan ?_) hn)
          rw [heq] at hy
          cases hy
          rfl
        · rw [hsome]
          refine .ok _ ?_
          rintro crash (⟨_, _, -, hhuge⟩ | _ | ⟨_, hnan, _⟩)
          · exact hhuge.elim hm hn
          · cases hx
            cases hany _ rfl
            exact hnan (eq_double_of_toDouble hy nofun)
  · cases m with
    | double d => exact (hdouble (.inl rfl)).elim
    | int i =>
      cases n with
      | double d => exact (hdouble (.inr rfl)).elim
      | int j =>
        refine .ok _ ?_
        rintro crash (⟨_, _, hdouble', -⟩ | _ | _)
        exact hdouble hdouble'

end Number

/-! ### Values -/

namespace Value

variable {store : Store} {op : BinaryOp} {a b : Value} {m n : Number}

theorem strains_number_iff (crash : Crash) :
    Strains store op (.number m) (.number n) crash ↔ m.Strains op n crash := by
  refine ⟨fun h ↦ ?_, .numbers⟩
  cases h with
  | numbers h => exact h
  | join htext => exact (htext.elim nofun nofun)

theorem not_strains_of_not_isArithmetic (hop : op.isArithmetic = false) (crash : Crash) :
    ¬Strains store op a b crash := by
  intro h
  cases h with
  | numbers h => exact Number.not_strains_of_not_isArithmetic hop crash h
  | join => cases hop

/-- Nothing else is too much than an operation on numbers, or a text. -/
theorem not_strains_of_forall_ne (hnumbers : ∀ m n, ¬(a = .number m ∧ b = .number n))
    (htext : ¬(op = .add ∧ (a.isText ∨ b.isText))) (crash : Crash) :
    ¬Strains store op a b crash := by
  intro h
  cases h with
  | numbers => exact hnumbers _ _ ⟨rfl, rfl⟩
  | join htext' => exact htext ⟨rfl, htext'⟩

theorem fits_applyNumeric (op : BinaryOp) (m n : Number) :
    Fits (m.Strains op n) (Misuse op (.number m) (.number n)) (applyNumeric op m n) := by
  have hdivision {r : Except Failure Value} (hop : op.divides)
      (h : n.isZero = false → Fits (m.Strains op n) (Misuse op (.number m) (.number n)) r) :
      Fits (m.Strains op n) (Misuse op (.number m) (.number n))
        (if n.isZero then .error (.fault .divisionByZero) else r) := by
    split
    next hzero =>
      exact .fault (.divisor hop hzero) (Number.not_strains_of_isZero hop hzero)
    next hzero => exact h (Bool.not_eq_true _ ▸ hzero)
  unfold applyNumeric
  cases op with
  | mul => exact .of_unless (Number.unless_combine _ _) (Number.strains_iff rfl rfl)
  | add => exact .of_unless (Number.unless_combine _ _) (Number.strains_iff rfl rfl)
  | sub => exact .of_unless (Number.unless_combine _ _) (Number.strains_iff rfl rfl)
  | div => exact hdivision rfl Number.fits_div
  | rem => exact hdivision rfl Number.fits_rem
  | _ => exact .ok _ (Number.not_strains_of_not_isArithmetic rfl)

theorem fits_join (htext : a.isText ∨ b.isText) :
    Fits (Strains store .add a b) (Misuse .add a b) (join store a b) := by
  have ha := store.barred_display a
  have hb := store.barred_display b
  rw [join]
  generalize store.display a = s at ha ⊢
  generalize store.display b = t at hb ⊢
  cases ha with
  | error hbars => exact .crash (.join htext (.inl hbars))
  | ok s ha =>
    cases hb with
    | error hbars => exact .crash (.join htext (.inr hbars))
    | ok t hb =>
      refine .ok _ fun crash h ↦ ?_
      cases h with
      | numbers => cases htext with
        | inl h => cases h
        | inr h => cases h
      | join _ hbars => exact hbars.elim (ha crash) (hb crash)

theorem fits_applyBinary (op : BinaryOp) (a b : Value) :
    Fits (Strains store op a b) (Misuse op a b) (applyBinary store op a b) := by
  unfold applyBinary
  split
  · exact .ok _ (not_strains_of_not_isArithmetic rfl)
  · exact .ok _ (not_strains_of_not_isArithmetic rfl)
  · split
    next htext =>
      obtain ⟨rfl, htext⟩ := htext
      exact fits_join htext
    next htext =>
      dsimp only
      split
      next m n => exact (fits_applyNumeric _ m n).iff fun crash ↦ (strains_number_iff crash).symm
      next s t =>
        split
        · exact .ok _ (not_strains_of_forall_ne nofun htext)
        · exact .fault (.kinds nofun) (not_strains_of_forall_ne nofun htext)
      next hnumbers _ =>
        have hnot (m n : Number) : ¬(a = .number m ∧ b = .number n) :=
          fun ⟨ha, hb⟩ ↦ hnumbers m n ha hb
        exact .fault (.kinds hnot) (not_strains_of_forall_ne hnot htext)

theorem applyUnary_cases (op : UnaryOp) (v : Value) :
    (∃ w, v.applyUnary op = .ok w) ∨
      v.applyUnary op = .error (.fault (.cannotNegate v.typeName)) := by
  cases op with
  | not => exact .inl ⟨_, rfl⟩
  | negate =>
    cases v with
    | number n => exact .inl ⟨_, rfl⟩
    | _ => exact .inr rfl

end Value

/-! ### Operators of a thread -/

namespace Thread

theorem raise_ne_crash (world : World) (body : List StmtFrame) (callers : List Caller)
    (site : Option Site) (fault : Fault) (crash : Crash) :
    raise world body callers site fault ≠ .fail world (.crash crash) := by
  unfold raise
  split <;> nofun

/-- An operator gives a value to what waits for it, or raises a fault that is blamed on its node,
unless its operands are too much for it: then, and only then, the run ends with a crash. This holds
on every machine: the room that its stack has for arrays inside each other is in the store. A
machine without a limit is taken to have room for all but arrays that are inside of themselves. -/
theorem move_operator (world : World) (node : Expr) (frames : List ExprFrame) (use : Use)
    (body : List StmtFrame) (callers : List Caller) :
    let operation (frame : ExprFrame) (v : Value) : Thread :=
      ⟨.value v (frame :: frames) use, body, callers⟩
    let result (v : Value) : ThreadMove := .goOn world ⟨.value v frames use, body, callers⟩
    let raised (fault : Fault) : ThreadMove := raise world body callers (some (.expr node)) fault
    (∀ op v, (∃ w, (operation (.unary node op) v).move world = result w) ∨
      (operation (.unary node op) v).move world = raised (.cannotNegate v.typeName)) ∧
    ∀ op a b,
      let moved := (operation (.binaryRight node op a) b).move world
      (∀ crash, moved = .fail world (.crash crash) → Value.Strains world.store op a b crash) ∧
      ((∃ crash, Value.Strains world.store op a b crash) →
        ∃ crash, moved = .fail world (.crash crash)) ∧
      ((∀ crash, ¬Value.Strains world.store op a b crash) →
        (∃ v, moved = result v) ∨ ∃ fault, Value.Misuse op a b fault ∧ moved = raised fault) := by
  dsimp only
  refine ⟨fun op v ↦ ?_, fun op a b ↦ ?_⟩
  · rw [move, resume]
    obtain ⟨w, hresult⟩ | hresult := v.applyUnary_cases op
    · exact .inl ⟨w, by rw [hresult]⟩
    · exact .inr (by rw [hresult]; rfl)
  · rw [move, resume]
    have hfits := @Value.fits_applyBinary world.store op a b
    generalize Value.applyBinary world.store op a b = r at hfits
    cases hfits with
    | ok v hnone => exact ⟨nofun, fun ⟨crash, h⟩ ↦ (hnone crash h).elim, fun _ ↦ .inl ⟨v, rfl⟩⟩
    | @fault fault hmisuse hnone =>
      exact ⟨fun crash h ↦ (raise_ne_crash world body callers _ fault crash h).elim,
        fun ⟨crash, h⟩ ↦ (hnone crash h).elim, fun _ ↦ .inr ⟨fault, hmisuse, rfl⟩⟩
    | @crash crash h =>
      refine ⟨fun crash' hcrash ↦ ?_, fun _ ↦ ⟨crash, rfl⟩, fun hnone ↦ (hnone crash h).elim⟩
      cases hcrash
      exact h

/-- A huge integer times a half is too much, and six times seven is not. A stack with room for one
array is too small for the text of an array in another one, and not for that of the inner one. -/
theorem move_operator_of_numbers_and_arrays :
    let nested : World := ⟨⟨#[], #[#[], #[.array 0]], 0, some 1⟩, #[]⟩
    let operation (op : BinaryOp) (a b : Value) : Thread :=
      ⟨.value b [.binaryRight (.literal .undefined ⟨0, 0⟩) op a] .discard, [], []⟩
    (∃ crash, (operation .mul (.number (.int (10 ^ 309)))
        (.number (.double (Double.ofQuotient false 1 2)))).move nested =
          .fail nested (.crash crash)) ∧
      (∃ v, (operation .mul (.number (.int 6)) (.number (.int 7))).move nested =
        .goOn nested ⟨.value v [] .discard, [], []⟩) ∧
      (∃ crash, (operation .add (.text "") (.array 1)).move nested =
        .fail nested (.crash crash)) ∧
      ∃ v, (operation .add (.text "") (.array 0)).move nested =
        .goOn nested ⟨.value v [] .discard, [], []⟩ := by
  intro nested operation
  obtain ⟨-, hbinary⟩ :=
    move_operator nested (.literal .undefined ⟨0, 0⟩) [] .discard [] []
  refine ⟨(hbinary .mul _ _).2.1 ⟨_, .numbers (.huge rfl nofun (.inr rfl) (.inl ?_))⟩, ?_,
    (hbinary .add _ _).2.1 ⟨_, .join (.inl rfl) (.inr (.deep ?_))⟩, .text "[]", rfl⟩
  · decide +kernel
  · have hfine (crash : Crash) :
        ¬Value.Strains nested.store .mul (.number (.int 6)) (.number (.int 7)) crash := by
      rw [Value.strains_number_iff, Number.strains_iff rfl rfl]
      exact fun h ↦ Number.not_isDouble h.2.1
    obtain hresult | ⟨fault, hmisuse, -⟩ := (hbinary .mul _ _).2.2 hfine
    · exact hresult
    · cases hmisuse with
      | divisor hop => cases hop
      | kinds h => exact (h _ _ ⟨rfl, rfl⟩).elim
  · rintro ⟨depth, hnests, hroom⟩
    have hinner := Value.nestsWithin_array_iff.1 (hnests.mono (hroom 1 rfl)) (.array 0)
      (by simp [nested, Store.elements])
    exact Value.not_nestsWithin_zero hinner

end Thread

/-- A product of numbers ends the run: the handler around it does not see why, and nothing that
comes after it is executed. -/
theorem Program.crash_of_huge_product : ∃ program rest,
    read ("try \x7b1".toList ++ List.replicate 309 '0' ++
      " * 0.5;\x7d catch (e) \x7b\x7d print \"alive\";".toList) = .program program ∧
      program.moment false .empty 20 = .ended (program.moment false .empty 20).world rest
        (some (.crash .tooLargeForDouble)) := by
  have hrun : ((ofText? ("try \x7b1".toList ++ List.replicate 309 '0' ++
      " * 0.5;\x7d catch (e) \x7b\x7d print \"alive\";".toList)).bind fun program ↦
        (program.moment false .empty 20).crash?) = some .tooLargeForDouble := by
    decide +kernel
  obtain ⟨program, htext, hcrash⟩ := Option.bind_eq_some_iff.1 hrun
  obtain ⟨rest, hended⟩ := Progress.exists_eq_ended_of_crash? hcrash
  exact ⟨program, rest, read_of_ofText? htext, hended⟩

end LateConst
