import LateConst.Proofs.Store
import LateConst.Value.Operator

/-!
# What operations come to

No operation on values throws a value of the program or declares a name, and none breaks a rule of
the interpreter: it gives a value, or it fails with a fault of its own or with a crash that is a
limit of the machine. `Sound` says so of a result, together with a property of the value.
-/

namespace LateConst

/-- A crash that is a limit of the machine under the language: of its numbers or of its stack. Any
other is a breach of a rule of the interpreter. -/
def Crash.IsLimit : Crash → Prop
  | .tooManyDigits => True
  | .tooLargeForDouble => True
  | .noRemainder => True
  | .endlessText => True
  | _ => False

/-- A failure that neither is thrown by the program nor breaks a rule of the interpreter, and that
is not about a name declared twice or a `pause`. -/
def Failure.IsPlain : Failure → Prop
  | .fault (.thrown _ _) => False
  | .fault (.duplicateName _) => False
  | .fault .cannotSuspend => False
  | .fault _ => True
  | .crash c => c.IsLimit

/-- A value that is no function. -/
def Value.IsPlain : Value → Prop
  | .function _ _ => False
  | _ => True

/-- The result has a property, or there is none for a plain reason. -/
inductive Sound {α : Type} (Good : α → Prop) : Except Failure α → Prop
  | ok {a : α} (h : Good a) : Sound Good (.ok a)
  | error {failure : Failure} (h : failure.IsPlain) : Sound Good (.error failure)

theorem Sound.mono {α : Type} {Good Better : α → Prop} {r : Except Failure α} (h : Sound Good r)
    (hgood : ∀ a, Good a → Better a) : Sound Better r := by
  cases h with
  | ok h => exact .ok (hgood _ h)
  | error h => exact .error h

/-- There is a result, or none for a reason that breaks no rule of the interpreter. -/
inductive Kept {α : Type} : Except Crash α → Prop
  | ok (a : α) : Kept (.ok a)
  | error {crash : Crash} (h : crash.IsLimit) : Kept (.error crash)

/-- There is a result, unless something stands in its way: then there is this crash instead. -/
inductive Unless {α : Type} (crash : Crash) (bar : Prop) : Except Crash α → Prop
  | ok (a : α) (h : ¬bar) : Unless crash bar (.ok a)
  | error (h : bar) : Unless crash bar (.error crash)

namespace Unless

variable {α β : Type} {crash : Crash} {bar bar' : Prop} {r : Except Crash α}

theorem exists_ok (h : Unless crash bar r) (hbar : ¬bar) : ∃ a, r = .ok a := by
  cases h with
  | ok a h => exact ⟨a, rfl⟩
  | error h => exact (hbar h).elim

theorem eq_error (h : Unless crash bar r) (hbar : bar) : r = .error crash := by
  cases h with
  | ok a h => exact (h hbar).elim
  | error h => rfl

theorem iff (h : Unless crash bar r) (hiff : bar ↔ bar') : Unless crash bar' r := by
  cases h with
  | ok a h => exact .ok a fun h' ↦ h (hiff.2 h')
  | error h => exact .error (hiff.1 h)

theorem bind {f : α → Except Crash β} (h : Unless crash bar r)
    (hf : ∀ a, Unless crash bar' (f a)) : Unless crash (bar ∨ bar') (r >>= f) := by
  cases h with
  | error h => exact .error (.inl h)
  | ok a h =>
    change Unless crash _ (f a)
    exact (hf a).iff (or_iff_right h).symm

theorem map {f : α → β} (h : Unless crash bar r) :
    Unless crash bar (r >>= fun a ↦ pure (f a)) := by
  cases h with
  | ok a h => exact .ok _ h
  | error h => exact .error h

end Unless

/-! ### Texts -/

theorem Kept.bind {α β : Type} {r : Except Crash α} {f : α → Except Crash β} (h : Kept r)
    (hf : ∀ a, Kept (f a)) : Kept (r >>= f) := by
  cases h with
  | ok a => exact hf a
  | error h => exact .error h

theorem kept_mapM {α β : Type} {f : α → Except Crash β} (hf : ∀ a, Kept (f a)) (xs : List α) :
    Kept (xs.mapM f) := by
  induction xs with
  | nil => exact .ok []
  | cons x more ih =>
    rw [List.mapM_cons]
    exact (hf x).bind fun _ ↦ ih.bind fun _ ↦ .ok _

theorem kept_intText (n : Int) : Kept (intText n) := by
  unfold intText
  generalize Nat.pow 10 digitLimit = limit
  split
  · exact .ok _
  · exact .error trivial

theorem Number.kept_text (n : Number) : Kept n.text := by
  cases n with
  | int n =>
    rw [text]
    exact kept_intText n
  | double d =>
    rw [text]
    split
    · exact kept_intText _
    · exact .ok _

theorem Value.kept_plainText (v : Value) : Kept v.plainText := by
  cases v with
  | number n => exact n.kept_text
  | array ref => exact .error trivial
  | _ => exact .ok _

theorem Value.kept_textWithin (store : Store) (depth : Nat) (v : Value) :
    Kept (v.textWithin store depth) := by
  induction depth generalizing v with
  | zero =>
    unfold textWithin
    exact v.kept_plainText
  | succ depth ih =>
    cases v with
    | array ref =>
      unfold textWithin
      refine Kept.bind (kept_mapM (fun v ↦ ?_) _) fun _ ↦ .ok _
      split
      · exact .ok _
      · exact ih _
    | _ =>
      unfold textWithin
      exact Value.kept_plainText _

theorem Store.kept_display (store : Store) (v : Value) : Kept (store.display v) :=
  v.kept_textWithin store _

/-- A complaint that quotes the text of a value. -/
theorem Store.isPlain_of_display (store : Store) (v : Value) (fault : String → Fault)
    (hfault : ∀ text, (Failure.fault (fault text)).IsPlain) :
    Failure.IsPlain (match store.display v with
      | .ok text => .fault (fault text)
      | .error crash => .crash crash) := by
  have hkept := store.kept_display v
  generalize store.display v = result at hkept ⊢
  cases hkept with
  | ok text => exact hfault text
  | error h => exact h

/-! ### Numbers -/

namespace Number

theorem kept_inRange (d : Double) : Kept d.inRange := by
  cases d with
  | infinite negative => exact .error trivial
  | _ => exact .ok _

theorem kept_toDouble (n : Number) : Kept n.toDouble := by
  cases n with
  | double d => exact .ok d
  | int n =>
    rw [toDouble]
    exact kept_inRange _

theorem kept_combine (onInt : Int → Int → Int) (onDouble : Double → Double → Double)
    (m n : Number) : Kept (combine onInt onDouble m n) := by
  unfold combine
  split
  · exact .ok _
  · exact (kept_toDouble _).bind fun _ ↦ (kept_toDouble _).bind fun _ ↦ .ok _

theorem kept_div (m n : Number) : Kept (m.div n) := by
  unfold div
  split
  · exact (kept_inRange _).bind fun _ ↦ .ok _
  · exact (kept_toDouble _).bind fun _ ↦ (kept_toDouble _).bind fun _ ↦ .ok _

theorem kept_rem (m n : Number) : Kept (m.rem n) := by
  unfold rem
  split
  · exact .ok _
  · refine (kept_toDouble _).bind fun x ↦ (kept_toDouble _).bind fun y ↦ ?_
    cases x.remainder y with
    | some d => exact .ok _
    | none => exact .error trivial

end Number

/-! ### Operators -/

namespace Value

variable {store : Store}

theorem sound_applyUnary (op : UnaryOp) (v : Value) : Sound IsPlain (v.applyUnary op) := by
  cases op with
  | not => exact .ok trivial
  | negate =>
    cases v with
    | number n => exact .ok trivial
    | _ => exact .error trivial

theorem sound_of_kept {r : Except Crash Number} (h : Kept r) :
    Sound IsPlain ((r.map number).mapError Failure.crash) := by
  cases h with
  | ok n => exact .ok trivial
  | error h => exact .error h

theorem sound_applyNumeric (op : BinaryOp) (m n : Number) :
    Sound IsPlain (applyNumeric op m n) := by
  unfold applyNumeric
  cases op with
  | mul => exact sound_of_kept (Number.kept_combine _ _ m n)
  | add => exact sound_of_kept (Number.kept_combine _ _ m n)
  | sub => exact sound_of_kept (Number.kept_combine _ _ m n)
  | div =>
    dsimp only
    split
    · exact .error trivial
    · exact sound_of_kept (Number.kept_div m n)
  | rem =>
    dsimp only
    split
    · exact .error trivial
    · exact sound_of_kept (Number.kept_rem m n)
  | _ => exact .ok trivial

theorem sound_join (a b : Value) : Sound IsPlain (join store a b) := by
  have ha := store.kept_display a
  have hb := store.kept_display b
  rw [join]
  generalize store.display a = s at ha ⊢
  generalize store.display b = t at hb ⊢
  cases ha with
  | error h => exact .error h
  | ok s =>
    cases hb with
    | error h => exact .error h
    | ok t => exact .ok trivial

theorem sound_applyBinary (op : BinaryOp) (a b : Value) :
    Sound IsPlain (applyBinary store op a b) := by
  unfold applyBinary
  split
  · exact .ok trivial
  · exact .ok trivial
  · split
    · exact sound_join a b
    · dsimp only
      split
      · exact sound_applyNumeric _ _ _
      · split
        · exact .ok trivial
        · exact .error trivial
      · exact .error trivial

theorem mem_or_isPlain_of_element? {base v : Value} {i : Nat}
    (h : base.element? store i = some v) : (∃ ref, v ∈ store.elements ref) ∨ v.IsPlain := by
  cases base with
  | array ref => exact .inl ⟨ref, Array.mem_of_getElem? h⟩
  | text s =>
    obtain ⟨c, -, rfl⟩ := Option.map_eq_some_iff.1 h
    exact .inr trivial
  | _ => cases h

/-- What an index gives is an element of an array, or no function. -/
theorem sound_applyIndex (base index : Value) :
    Sound (fun v ↦ (∃ ref, v ∈ store.elements ref) ∨ v.IsPlain) (applyIndex store base index) := by
  unfold applyIndex
  split
  · exact .error trivial
  next length _ =>
    cases index with
    | number n =>
      have hkept := n.kept_toDouble
      dsimp only
      generalize n.toDouble = d at hkept ⊢
      cases hkept with
      | error h => exact .error h
      | ok d =>
        dsimp only
        split
        next i _ =>
          split
          · cases helement : base.element? store i.toNat with
            | none => exact .ok (.inr trivial)
            | some v => exact .ok (mem_or_isPlain_of_element? helement)
          · exact .ok (.inr trivial)
        · exact .ok (.inr trivial)
    | _ => exact .ok (.inr trivial)

end Value

/-- A built-in function gives no function, and adds only its arguments to an array. -/
theorem Builtin.sound_apply (store : Store) (function : Builtin) (args : List Value) :
    Sound (fun out ↦ out.1.IsPlain ∧ ∀ ref items, out.2 = some (ref, items) → items ⊆ args)
      (function.apply store args) := by
  have hnone {v : Value} (hv : v.IsPlain) : v.IsPlain ∧
      ∀ ref items, (none : Option (Ref × List Value)) = some (ref, items) → items ⊆ args :=
    ⟨hv, fun _ _ h ↦ by cases h⟩
  unfold apply
  cases function with
  | len =>
    dsimp only
    split
    · split
      · exact .ok (hnone trivial)
      · exact .error trivial
    · exact .error trivial
  | push =>
    dsimp only
    split
    · refine .ok ⟨trivial, fun _ _ h ↦ ?_⟩
      cases h
      exact List.subset_cons_self _ _
    · exact .error trivial
    · exact .error trivial
  | str =>
    dsimp only
    split
    · exact .ok (hnone trivial)
    next v =>
      have hkept := store.kept_display v
      generalize store.display v = s at hkept ⊢
      cases hkept with
      | ok s => exact .ok (hnone trivial)
      | error h => exact .error h
    · exact .error trivial

/-! ### Names -/

namespace Slot

variable {slot slot' : Slot} {name : String} {v : Value}

theorem value?_of_write (h : slot.write name v = .ok slot') : slot'.value? = some v := by
  cases slot <;> cases h <;> rfl

/-- A declaration that gives a name its value leaves nothing of the state before but the kind. -/
theorem define_cases (h : slot.define name v = .ok slot') :
    slot.kind = .mutable ∧ slot' = .mutable v true ∨
      slot.kind = .constant ∧ slot' = .constant v true := by
  cases slot with
  | mutable old initialized =>
    cases initialized with
    | true => cases h
    | false =>
      cases h
      exact .inl ⟨rfl, rfl⟩
  | constant old initialized => cases h
  | _ =>
    cases h
    exact .inr ⟨rfl, rfl⟩

theorem value?_of_define (h : slot.define name v = .ok slot') : slot'.value? = some v := by
  obtain ⟨-, rfl⟩ | ⟨-, rfl⟩ := define_cases h <;> rfl

end Slot

namespace Store

variable {store : Store} {id : RecordId} {name : String} {slot slot' : Slot} {v : Value}

theorem read_of_slot? (h : store.slot? id name = some slot) (forTypeof : Bool) :
    store.read id name forTypeof = (slot.read name forTypeof).mapError Failure.fault := by
  rw [read, slot_eq_ok_iff.2 h]
  rfl

theorem slotToWrite_of_slot? (h : store.slot? id name = some slot) (v : Value) :
    store.slotToWrite id name v = (slot.write name v).mapError Failure.fault := by
  rw [slotToWrite, slot_eq_ok_iff.2 h]
  rfl

theorem slotToDefine_of_slot? (h : store.slot? id name = some slot) (v : Value) :
    store.slotToDefine id name v =
      (slot.define name v).mapError fun cause ↦ Failure.crash (.violation cause) := by
  rw [slotToDefine, slot_eq_ok_iff.2 h]
  rfl

theorem slotToDefine_of_slot?_eq_none (h : store.slot? id name = none) (v : Value) :
    store.slotToDefine id name v = .error (.crash (.missingName name)) := by
  have hslot : store.slot id name = .error (.crash (.missingName name)) := by
    rw [slot, ← slot?, h]
  rw [slotToDefine, hslot]
  rfl

theorem exists_define_of_slotToDefine (h : store.slotToDefine id name v = .ok slot') :
    ∃ slot, store.slot? id name = some slot ∧ slot.define name v = .ok slot' := by
  cases hslot : store.slot? id name with
  | none =>
    rw [slotToDefine_of_slot?_eq_none hslot] at h
    cases h
  | some slot =>
    rw [slotToDefine_of_slot? hslot] at h
    cases hdefine : slot.define name v with
    | error cause =>
      rw [hdefine] at h
      cases h
    | ok made =>
      rw [hdefine] at h
      cases h
      exact ⟨slot, rfl, hdefine⟩

theorem exists_crash_of_slotToDefine {failure : Failure}
    (h : store.slotToDefine id name v = .error failure) : ∃ crash, failure = .crash crash := by
  cases hslot : store.slot? id name with
  | none =>
    rw [slotToDefine_of_slot?_eq_none hslot] at h
    cases h
    exact ⟨_, rfl⟩
  | some slot =>
    rw [slotToDefine_of_slot? hslot] at h
    cases hdefine : slot.define name v with
    | ok made =>
      rw [hdefine] at h
      cases h
    | error cause =>
      rw [hdefine] at h
      cases h
      exact ⟨_, rfl⟩

/-- Reading a name that is there gives its value, or `undefined`. -/
theorem sound_read (h : store.slot? id name = some slot) (forTypeof : Bool) :
    Sound (fun v ↦ v.IsPlain ∨ slot.value? = some v) (store.read id name forTypeof) := by
  rw [read_of_slot? h]
  cases slot with
  | mutable value initialized => exact .ok (.inr rfl)
  | constant value initialized => exact .ok (.inr rfl)
  | awaiting => exact .error trivial
  | unset =>
    cases forTypeof with
    | true => exact .ok (.inl trivial)
    | false => exact .error trivial

theorem sound_slotToWrite (h : store.slot? id name = some slot) (v : Value) :
    Sound (fun slot' ↦ slot.write name v = .ok slot') (store.slotToWrite id name v) := by
  rw [slotToWrite_of_slot? h]
  cases slot with
  | mutable value initialized => exact .ok rfl
  | unset => exact .ok rfl
  | _ => exact .error trivial

end Store

end LateConst
