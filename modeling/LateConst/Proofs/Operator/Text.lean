import LateConst.Proofs.Operator
import Mathlib.Data.List.Nodup
import Mathlib.Data.List.Perm.Subperm

/-!
# Texts that end

The text of an array is made of those of its elements. So a value has a text if the stack has room
for the arrays in it and no integer in it has too many digits, and otherwise for one of these two
reasons there is none (`Store.barred_display`). A stack that never fills up has room for all values
but those with an array inside of itself (`Store.hasRoomFor_iff_hasEnd`): the arrays on the way down
are different ones otherwise, so there are no more of them than the store has.
-/

namespace LateConst

/-- There is a result, unless something stands in its way: then there is a crash for which this is a
reason. -/
inductive Barred {α : Type} (bars : Crash → Prop) : Except Crash α → Prop
  | ok (a : α) (h : ∀ crash, ¬bars crash) : Barred bars (.ok a)
  | error {crash : Crash} (h : bars crash) : Barred bars (.error crash)

namespace Barred

variable {α β : Type} {bars bars' : Crash → Prop} {r : Except Crash α}

theorem iff (h : Barred bars r) (hiff : ∀ crash, bars crash ↔ bars' crash) : Barred bars' r := by
  cases h with
  | ok a h => exact .ok a fun crash h' ↦ h crash ((hiff crash).2 h')
  | error h => exact .error ((hiff _).1 h)

theorem map {f : α → β} (h : Barred bars r) : Barred bars (r >>= fun a ↦ pure (f a)) := by
  cases h with
  | ok a h => exact .ok _ h
  | error h => exact .error h

theorem mapM {P : α → Crash → Prop} {f : α → Except Crash β} {xs : List α}
    (h : ∀ x ∈ xs, Barred (P x) (f x)) :
    Barred (fun crash ↦ ∃ x ∈ xs, P x crash) (xs.mapM f) := by
  induction xs with
  | nil => exact .ok [] fun _ ⟨_, hmem, _⟩ ↦ nomatch hmem
  | cons x more ih =>
    have hfirst := h x List.mem_cons_self
    have hmore := ih fun y hy ↦ h y (List.mem_cons_of_mem x hy)
    rw [List.mapM_cons]
    generalize f x = r at hfirst
    generalize more.mapM f = s at hmore
    cases hfirst with
    | error hbar => exact .error ⟨x, List.mem_cons_self, hbar⟩
    | ok b hfirst =>
      cases hmore with
      | error hbar =>
        obtain ⟨y, hy, hbar⟩ := hbar
        exact .error ⟨y, List.mem_cons_of_mem x hy, hbar⟩
      | ok bs hmore =>
        refine .ok _ fun crash ⟨y, hy, hbar⟩ ↦ ?_
        obtain rfl | hy := List.mem_cons.1 hy
        · exact hfirst crash hbar
        · exact hmore crash ⟨y, hy, hbar⟩

end Barred

/-! ### Arrays inside each other -/

theorem Store.lt_size_of_mem_elements {store : Store} {ref : Ref} {v : Value}
    (h : v ∈ store.elements ref) : ref < store.arrays.size := by
  by_contra hle
  rw [elements, Array.getD_eq_getD_getElem?, Array.getElem?_eq_none (Nat.not_lt.1 hle)] at h
  exact Array.not_mem_empty v h

namespace Value

variable {store : Store} {v : Value} {ref : Ref} {depth : Nat}

/-- The arrays in a value are inside each other at most so deep. -/
inductive NestsWithin (store : Store) : Nat → Value → Prop
  | array {depth : Nat} {ref : Ref}
    (helements : ∀ v ∈ store.elements ref, NestsWithin store depth v) :
    NestsWithin store (depth + 1) (.array ref)
  | plain {depth : Nat} {v : Value} (h : ∀ ref, v ≠ .array ref) : NestsWithin store depth v

/-- The array is the value itself, or inside of it at some depth. -/
inductive Shows (store : Store) : Value → Ref → Prop
  | self {ref : Ref} : Shows store (.array ref) ref
  | element {ref shown : Ref} {v : Value} (hmem : v ∈ store.elements ref)
    (h : Shows store v shown) : Shows store (.array ref) shown

/-- No array that the text of a value shows is inside of itself. -/
def HasEnd (store : Store) (v : Value) : Prop :=
  ∀ ref, v.Shows store ref → ∀ element ∈ store.elements ref, ¬element.Shows store ref

theorem Shows.trans {shown : Ref} (h : v.Shows store ref)
    (h' : Value.Shows store (.array ref) shown) : v.Shows store shown := by
  induction h with
  | self => exact h'
  | element hmem _ ih => exact .element hmem (ih h')

theorem not_nestsWithin_zero : ¬NestsWithin store 0 (.array ref) := by
  rintro (_ | h)
  exact h ref rfl

theorem nestsWithin_array_iff :
    NestsWithin store (depth + 1) (.array ref) ↔
      ∀ v ∈ store.elements ref, v.NestsWithin store depth := by
  refine ⟨?_, .array⟩
  rintro (helements | h)
  · exact helements
  · exact (h ref rfl).elim

namespace NestsWithin

theorem mono {more : Nat} (h : v.NestsWithin store depth) (hle : depth ≤ more) :
    v.NestsWithin store more := by
  induction h generalizing more with
  | plain h => exact .plain h
  | array _ ih =>
    obtain ⟨more, rfl⟩ := Nat.exists_eq_add_one_of_ne_zero (Nat.ne_zero_of_lt hle)
    exact .array fun v hmem ↦ ih v hmem (Nat.le_of_succ_le_succ hle)

/-- No array that nests to some depth is inside of itself. -/
theorem not_shows (h : NestsWithin store depth (.array ref)) (hmem : v ∈ store.elements ref) :
    ¬v.Shows store ref := by
  generalize harray : Value.array ref = a at h
  induction h generalizing v ref with
  | plain hplain => exact (hplain ref harray.symm).elim
  | array helements ih =>
    cases harray
    intro hshows
    cases hshows with
    | self => exact ih _ hmem hmem rfl .self
    | element hinner hshows =>
      exact ih _ hmem hinner rfl (hshows.trans (.element hmem .self))

theorem of_shows (h : v.NestsWithin store depth) (hshows : v.Shows store ref) :
    NestsWithin store depth (.array ref) := by
  induction hshows generalizing depth with
  | self => exact h
  | element hmem _ ih =>
    obtain _ | depth := depth
    · exact (not_nestsWithin_zero h).elim
    · exact (ih (nestsWithin_array_iff.1 h _ hmem)).mono (Nat.le_succ depth)

theorem hasEnd (h : v.NestsWithin store depth) : v.HasEnd store :=
  fun _ hshows _ hmem ↦ (h.of_shows hshows).not_shows hmem

end NestsWithin

/-- The arrays on the way down to a value are different ones, and are not shown in it again. So
there is room for as many more as the store has besides them. -/
theorem HasEnd.nestsWithin_of_path (hend : v.HasEnd store) (path : List Ref) (hnodup : path.Nodup)
    (hpath : ∀ ref ∈ path, ref < store.arrays.size ∧ ¬v.Shows store ref) (room : Nat)
    (hroom : store.arrays.size < path.length + room) : v.NestsWithin store room := by
  induction room generalizing v path with
  | zero =>
    have hsubset : path ⊆ List.range store.arrays.size :=
      fun other hmem ↦ List.mem_range.2 (hpath other hmem).1
    have hlength : path.length ≤ store.arrays.size := by
      simpa using hnodup.length_le_of_subset hsubset
    omega
  | succ room ih =>
    cases v with
    | array ref =>
      refine .array fun v hmem ↦ ih (fun other hshows ↦ hend other (.element hmem hshows))
        (ref :: path) ?_ ?_ (by rw [List.length_cons]; omega)
      · exact List.nodup_cons.2 ⟨fun hold ↦ (hpath ref hold).2 .self, hnodup⟩
      · rintro other (_ | ⟨_, hother⟩)
        · exact ⟨store.lt_size_of_mem_elements hmem, hend ref .self v hmem⟩
        · obtain ⟨hlt, hnot⟩ := hpath other hother
          exact ⟨hlt, fun hshows ↦ hnot (.element hmem hshows)⟩
    | _ => exact .plain fun _ h ↦ by cases h

theorem HasEnd.nestsWithin (hend : v.HasEnd store) :
    v.NestsWithin store (store.arrays.size + 1) :=
  hend.nestsWithin_of_path [] List.nodup_nil (List.forall_mem_nil _) _
    (by rw [List.length_nil]; omega)

end Value

namespace Store

variable {store : Store} {v : Value}

def HasRoomFor (store : Store) (v : Value) : Prop :=
  ∃ depth, v.NestsWithin store depth ∧ ∀ room ∈ store.room, depth ≤ room

/-- A stack that never fills up has room for every value but those that show an array inside of
itself. -/
theorem hasRoomFor_iff_hasEnd (hroom : store.room = none) :
    store.HasRoomFor v ↔ v.HasEnd store := by
  constructor
  · rintro ⟨depth, h, -⟩
    exact h.hasEnd
  · intro hend
    refine ⟨_, hend.nestsWithin, fun room h ↦ ?_⟩
    rw [hroom] at h
    cases h

theorem hasRoomFor_iff :
    store.HasRoomFor v ↔ v.NestsWithin store (store.room.getD (store.arrays.size + 1)) := by
  cases hroom : store.room with
  | none =>
    rw [hasRoomFor_iff_hasEnd hroom]
    exact ⟨Value.HasEnd.nestsWithin, Value.NestsWithin.hasEnd⟩
  | some room =>
    constructor
    · rintro ⟨depth, h, hle⟩
      exact h.mono (hle room hroom)
    · intro h
      refine ⟨room, h, ?_⟩
      rw [hroom]
      rintro _ ⟨⟩
      exact Nat.le_refl room

end Store

/-! ### Writing -/

theorem unless_intText (i : Int) :
    Unless .tooManyDigits (Nat.pow 10 digitLimit ≤ i.natAbs) (intText i) := by
  unfold intText
  generalize Nat.pow 10 digitLimit = limit
  split
  next hlt => exact .ok _ (Nat.not_le.2 hlt)
  next hle => exact .error (Nat.not_lt.1 hle)

/-- Why there is no text: the arrays in a value are too deep, or an integer in it is too long. -/
inductive BarsText (deep long : Prop) : Crash → Prop
  | deep (h : deep) : BarsText deep long .endlessText
  | long (h : long) : BarsText deep long .tooManyDigits

theorem Unless.barred {α : Type} {deep long : Prop} {r : Except Crash α}
    (h : Unless .tooManyDigits long r) (hdeep : ¬deep) : Barred (BarsText deep long) r := by
  cases h with
  | ok a hlong => exact .ok a fun crash h ↦ by cases h <;> contradiction
  | error hlong => exact .error (.long hlong)

namespace Value

variable {store : Store} {v : Value}

/-- The text of a value has an integer with too many digits. -/
inductive HoldsLong (store : Store) : Value → Prop
  | number {n : Number} {i : Int} (hint : n.toInt? = some i)
    (hlong : Nat.pow 10 digitLimit ≤ i.natAbs) : HoldsLong store (.number n)
  | element {ref : Ref} {v : Value} (hmem : v ∈ store.elements ref) (h : HoldsLong store v) :
    HoldsLong store (.array ref)

theorem holdsLong_number_iff {n : Number} {i : Int} (h : n.toInt? = some i) :
    HoldsLong store (.number n) ↔ Nat.pow 10 digitLimit ≤ i.natAbs := by
  refine ⟨fun hlong ↦ ?_, fun hlong ↦ .number h hlong⟩
  cases hlong with
  | number hint hlong =>
    cases h.symm.trans hint
    exact hlong

theorem unless_text (n : Number) : Unless .tooManyDigits (HoldsLong store (.number n)) n.text := by
  cases n with
  | int i => exact (unless_intText i).iff (holdsLong_number_iff rfl).symm
  | double d =>
    rw [Number.text]
    split
    next i hint => exact (unless_intText i).iff (holdsLong_number_iff (n := .double d) hint).symm
    next hnone =>
      refine .ok _ fun hlong ↦ ?_
      cases hlong with
      | number hint _ => cases hnone.symm.trans hint

theorem unless_plainText (h : ∀ ref, v ≠ .array ref) :
    Unless .tooManyDigits (v.HoldsLong store) v.plainText := by
  cases v with
  | number n => exact unless_text n
  | array ref => exact (h ref rfl).elim
  | _ => exact .ok _ nofun

theorem barred_textWithin_of_plain (h : ∀ ref, v ≠ .array ref) (room : Nat) :
    Barred (BarsText (¬v.NestsWithin store room) (v.HoldsLong store))
      (v.textWithin store room) := by
  have hplain : v.textWithin store room = v.plainText := by
    cases v with
    | array ref => exact (h ref rfl).elim
    | _ => cases room <;> rfl
  rw [hplain]
  exact (unless_plainText h).barred (not_not_intro (.plain h))

/-- An array is barred for the same reasons as its elements, one array less deep. -/
theorem exists_barsText_element_iff {ref : Ref} {room : Nat} {crash : Crash} :
    (∃ v ∈ (store.elements ref).toList,
        BarsText (¬v.NestsWithin store room) (v.HoldsLong store) crash) ↔
      BarsText (¬NestsWithin store (room + 1) (.array ref)) (HoldsLong store (.array ref))
        crash := by
  simp only [Array.mem_toList_iff]
  constructor
  · rintro ⟨v, hmem, hdeep | hlong⟩
    · exact .deep fun h ↦ hdeep (nestsWithin_array_iff.1 h v hmem)
    · exact .long (.element hmem hlong)
  · rintro (hdeep | _ | ⟨hmem, hlong⟩)
    · rw [nestsWithin_array_iff] at hdeep
      push Not at hdeep
      obtain ⟨v, hmem, hdeep⟩ := hdeep
      exact ⟨v, hmem, .deep hdeep⟩
    · exact ⟨_, hmem, .long hlong⟩

theorem barred_textWithin (room : Nat) (v : Value) :
    Barred (BarsText (¬v.NestsWithin store room) (v.HoldsLong store))
      (v.textWithin store room) := by
  induction room generalizing v with
  | zero =>
    cases v with
    | array ref => exact .error (.deep not_nestsWithin_zero)
    | _ => exact barred_textWithin_of_plain (fun _ h ↦ by cases h) 0
  | succ room ih =>
    cases v with
    | array ref =>
      unfold textWithin
      refine Barred.iff (Barred.map (Barred.mapM (P := fun v ↦
        BarsText (¬v.NestsWithin store room) (v.HoldsLong store)) fun v _ ↦ ?_)) fun _ ↦
          exists_barsText_element_iff
      cases v with
      | text s =>
        have hlong : ¬HoldsLong store (.text s) := fun h ↦ by cases h
        have hplain (ref : Ref) : Value.text s ≠ .array ref := fun h ↦ by cases h
        exact (Unless.ok _ hlong).barred (not_not_intro (.plain hplain))
      | _ => exact ih _
    | _ => exact barred_textWithin_of_plain (fun _ h ↦ by cases h) _

end Value

namespace Store

/-- A reason why a value has no text: the stack has no room for it, or it holds a long integer. -/
def Bars (store : Store) (v : Value) : Crash → Prop :=
  BarsText (¬store.HasRoomFor v) (v.HoldsLong store)

/-- A value has a text unless the stack has no room for it or an integer in it has too many
digits. -/
theorem barred_display (store : Store) (v : Value) : Barred (store.Bars v) (store.display v) := by
  rw [Bars, hasRoomFor_iff]
  exact Value.barred_textWithin _ v

end Store

end LateConst
