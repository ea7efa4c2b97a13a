import Mathlib.Data.Nat.Find
import Mathlib.Data.Nat.Init
import LateConst.Proofs.Ledger.Run

/-!
# The history of an entry

An entry never goes away. A variable stays a variable with a value, and a constant changes once at
most, when it gets its value (`Slot.Becomes`). So all that is known about an entry can be said from
the moment on at which its record is there for the first time (`Program.Born`).
-/

namespace LateConst

variable {program : Program} {act : Act} {store store' store'' : Store} {dues dues' : List Due}
  {id env : RecordId} {name : String} {v : Value} {slot slot' slot'' : Slot}

/-! ### Entries -/

namespace Slot

def Becomes : Slot → Slot → Prop
  | mutable _ _, slot' => ∃ v initialized, slot' = mutable v initialized
  | awaiting, slot' => slot' = awaiting ∨ ∃ v, slot' = constant v true
  | unset, slot' => slot' = unset ∨ ∃ v, slot' = constant v false
  | constant v initialized, slot' => slot' = constant v initialized

@[simp]
theorem becomes_refl (slot : Slot) : slot.Becomes slot := by
  cases slot with
  | mutable v initialized => exact ⟨v, initialized, rfl⟩
  | awaiting => exact .inl rfl
  | unset => exact .inl rfl
  | constant v initialized => rfl

theorem Becomes.trans (h : slot.Becomes slot') (h' : slot'.Becomes slot'') :
    slot.Becomes slot'' := by
  cases slot with
  | mutable v initialized =>
    obtain ⟨v', initialized', rfl⟩ := h
    exact h'
  | awaiting =>
    obtain rfl | ⟨v, rfl⟩ := h
    · exact h'
    · exact .inr ⟨v, h'⟩
  | unset =>
    obtain rfl | ⟨v, rfl⟩ := h
    · exact h'
    · exact .inr ⟨v, h'⟩
  | constant v initialized =>
    obtain rfl := h
    exact h'

theorem Becomes.kind_eq (h : slot.Becomes slot') : slot'.kind = slot.kind := by
  cases slot with
  | mutable v initialized =>
    obtain ⟨v', initialized', rfl⟩ := h
    rfl
  | awaiting => obtain rfl | ⟨v, rfl⟩ := h <;> rfl
  | unset => obtain rfl | ⟨v, rfl⟩ := h <;> rfl
  | constant v initialized =>
    obtain rfl := h
    rfl

theorem becomes_of_define (hopen : slot.IsOpen) (h : slot.define name v = .ok slot') :
    slot.Becomes slot' := by
  cases slot with
  | mutable value initialized =>
    obtain rfl := hopen
    cases h
    exact ⟨v, true, rfl⟩
  | awaiting =>
    cases h
    exact .inr ⟨v, rfl⟩
  | _ => exact hopen.elim

theorem becomes_of_write (h : slot.write name v = .ok slot') : slot.Becomes slot' := by
  cases slot with
  | mutable value initialized =>
    cases h
    exact ⟨v, initialized, rfl⟩
  | unset =>
    cases h
    exact .inr ⟨v, rfl⟩
  | _ => cases h

end Slot

/-! ### Stores -/

/-- The records of a store are still there, with the same names in states that theirs can become. -/
structure Store.Becomes (store store' : Store) : Prop where
  names : ∀ {id : RecordId} {record : Record}, store.records[id]? = some record →
    ∃ record', store'.records[id]? = some record' ∧ record'.names = record.names
  slot : ∀ {id : RecordId} {name : String} {slot : Slot}, store.slot? id name = some slot →
    ∃ slot', store'.slot? id name = some slot' ∧ slot.Becomes slot'

namespace Store

theorem slot?_of_getElem? (h : ∀ record : Record,
    store.records[id]? = some record → store'.records[id]? = some record)
    (hslot : store.slot? id name = some slot) : store'.slot? id name = some slot := by
  obtain ⟨record, hrecord, hslot⟩ := Option.bind_eq_some_iff.1 hslot
  exact Option.bind_eq_some_iff.2 ⟨record, h record hrecord, hslot⟩

theorem becomes_of_getElem? (h : ∀ (id : RecordId) (record : Record),
    store.records[id]? = some record → store'.records[id]? = some record) :
    store.Becomes store' where
  names hrecord := ⟨_, h _ _ hrecord, rfl⟩
  slot {_ _ slot} hslot := ⟨slot, slot?_of_getElem? (h _) hslot, slot.becomes_refl⟩

theorem Becomes.trans (h : store.Becomes store') (h' : store'.Becomes store'') :
    store.Becomes store'' where
  names hrecord := by
    obtain ⟨record', hrecord', hnames⟩ := h.names hrecord
    obtain ⟨record'', hrecord'', hnames'⟩ := h'.names hrecord'
    exact ⟨record'', hrecord'', hnames'.trans hnames⟩
  slot hslot := by
    obtain ⟨slot', hslot', hbecomes⟩ := h.slot hslot
    obtain ⟨slot'', hslot'', hbecomes'⟩ := h'.slot hslot'
    exact ⟨slot'', hslot'', hbecomes.trans hbecomes'⟩

theorem becomes_setSlot (hslot : store.slot? id name = some slot) (h : slot.Becomes slot') :
    store.Becomes (store.setSlot id name slot') where
  names hrecord := by
    obtain ⟨record', hrecord', -, hnames⟩ := exists_getElem?_records_setSlot hrecord
    exact ⟨record', hrecord', hnames⟩
  slot {other name' old} hold := by
    rw [slot?_setSlot]
    split
    next heq =>
      obtain ⟨rfl, rfl⟩ := heq
      obtain rfl := Option.some.inj (hslot.symm.trans hold)
      exact ⟨slot', by rw [hslot]; rfl, h⟩
    next => exact ⟨old, hold, old.becomes_refl⟩

theorem Becomes.lt_size (h : store.Becomes store') (hid : id < store.records.size) :
    id < store'.records.size := by
  obtain ⟨record', hrecord', -⟩ := h.names (Array.getElem?_eq_getElem hid)
  exact (Array.getElem?_eq_some_iff.1 hrecord').1

theorem getElem?_of_push {records : Array Record} {record record' : Record}
    (h : records[id]? = some record) : (records.push record')[id]? = some record := by
  have hlt := (Array.getElem?_eq_some_iff.1 h).1
  rw [Array.getElem?_push, if_neg (Nat.ne_of_lt hlt), h]

end Store

/-! ### Changes -/

namespace Change

theorem becomes (h : Change program act store dues store' dues') : store.Becomes store' := by
  induction h with
  | keep hrecords hdues =>
    exact Store.becomes_of_getElem? fun id record hrecord ↦ hrecords ▸ hrecord
  | enter hrecords hrecord hnodup hnew hstatements =>
    exact Store.becomes_of_getElem? fun _ _ hold ↦ hrecords ▸ Store.getElem?_of_push hold
  | define hslot hopen hdefine =>
    exact Store.becomes_setSlot hslot (Slot.becomes_of_define hopen hdefine)
  | assign hslot hwrite => exact Store.becomes_setSlot hslot (Slot.becomes_of_write hwrite)
  | trans _ _ ih ih' => exact ih.trans ih'

/-- When scopes are entered all records stay as they are. -/
theorem getElem?_of_enter (h : Change program act store dues store' dues') (hact : act = .enter)
    {record : Record} (hrecord : store.records[id]? = some record) :
    store'.records[id]? = some record := by
  induction h with
  | keep hrecords hdues => exact hrecords ▸ hrecord
  | enter hrecords _ _ _ _ => exact hrecords ▸ Store.getElem?_of_push hrecord
  | define _ _ _ => cases hact
  | assign _ _ => cases hact
  | trans _ _ ih ih' => exact ih' hact (ih hact hrecord)

/-- New records are made only when scopes are entered. -/
theorem eq_enter_or_size_eq (h : Change program act store dues store' dues') :
    act = .enter ∨ store'.records.size = store.records.size := by
  induction h with
  | keep hrecords hdues => exact .inr (congrArg Array.size hrecords)
  | enter _ _ _ _ _ => exact .inl rfl
  | define _ _ _ => exact .inr Array.size_modify
  | assign _ _ => exact .inr Array.size_modify
  | trans _ _ ih ih' =>
    obtain hact | hsize := ih
    · exact .inl hact
    · exact ih'.imp_right fun hsize' ↦ hsize'.trans hsize

/-- What is owed in an old record has been owed before. -/
theorem due_mem (h : Change program act store dues store' dues') {due : Due} (hmem : due ∈ dues')
    (henv : due.env < store.records.size) : due ∈ dues := by
  induction h with
  | keep hrecords hdues => exact hdues.subset hmem
  | enter hrecords hrecord hnodup hnew hstatements =>
    obtain hnewer | hold := List.mem_append.1 hmem
    · exact (Nat.ne_of_lt henv (hnew _ hnewer).env_eq).elim
    · exact hold
  | define _ _ _ => exact List.mem_cons_of_mem _ hmem
  | assign _ _ => exact hmem
  | trans hfirst _ ih ih' => exact ih (ih' hmem (hfirst.becomes.lt_size henv)) henv

/-- A record that was not there before is a new record of a scope, and all of the scope is in it if
a statement is owed there. -/
theorem exists_begins (h : Change program act store dues store' dues') (howes : store.Owes dues)
    (hid : store.records.size ≤ id) {record : Record}
    (hrecord : store'.records[id]? = some record) : ∃ scope done, record.Begins program scope done ∧
      ∀ s, .statement id s ∈ dues' → done = scope.declared ∧ s ∈ scope.statements := by
  induction h generalizing record with
  | keep hrecords hdues =>
    have hlt := (Array.getElem?_eq_some_iff.1 (hrecords ▸ hrecord)).1
    exact (Nat.not_lt.2 hid hlt).elim
  | define _ _ _ =>
    have hlt := (Array.getElem?_eq_some_iff.1 hrecord).1
    exact (Nat.not_lt.2 hid (Array.size_modify ▸ hlt)).elim
  | assign _ _ =>
    have hlt := (Array.getElem?_eq_some_iff.1 hrecord).1
    exact (Nat.not_lt.2 hid (Array.size_modify ▸ hlt)).elim
  | enter hrecords hbegins hnodup hnew hstatements =>
    rw [hrecords, Array.getElem?_push] at hrecord
    split at hrecord
    next heq =>
      obtain rfl := Option.some.inj hrecord
      refine ⟨_, _, hbegins, fun s hmem ↦ ?_⟩
      obtain hmem | hold := List.mem_append.1 hmem
      · exact hstatements _ s hmem
      · exact (Nat.not_lt.2 hid (howes.fits _ hold).lt_size).elim
    next =>
      have hlt := (Array.getElem?_eq_some_iff.1 hrecord).1
      exact (Nat.not_lt.2 hid hlt).elim
  | @trans act store store' store'' dues dues' dues'' hfirst hsecond ih ih' =>
    by_cases hlt : id < store'.records.size
    · -- the record was made by the first part of the change, which therefore enters scopes
      obtain hact | hsize := hfirst.eq_enter_or_size_eq
      · have hmade := Array.getElem?_eq_getElem hlt
        obtain rfl := Option.some.inj (hrecord.symm.trans (hsecond.getElem?_of_enter hact hmade))
        obtain ⟨scope, done, hbegins, hstatements⟩ := ih howes hid hmade
        exact ⟨scope, done, hbegins, fun s hmem ↦ hstatements s (hsecond.due_mem hmem hlt)⟩
      · exact (Nat.not_lt.2 hid (hsize ▸ hlt)).elim
    · exact ih' (howes.change hfirst) (Nat.not_lt.1 hlt) hrecord

end Change

/-! ### Moments -/

namespace Program

variable {text : List Char} {verbose : Bool} {queue : TurnQueue Thread} {j k : Nat}
  {record : Record} {s : Stmt}

theorem becomes_moment (hread : Program.read text = .program program) (hle : j ≤ k) :
    (program.moment verbose queue j).world.store.Becomes
      (program.moment verbose queue k).world.store := by
  induction k, hle using Nat.le_induction with
  | base => exact Store.becomes_of_getElem? fun _ _ hrecord ↦ hrecord
  | succ k hle ih =>
    obtain ⟨act, dues, -, hchange, -⟩ := exists_change_moment hread verbose queue k
    exact ih.trans hchange.becomes

/-- What is owed has been owed ever since its record was made. -/
theorem owed_since (hread : Program.read text = .program program) (hle : j ≤ k) {due : Due}
    (henv : due.env < (program.moment verbose queue j).world.store.records.size)
    (hdue : due ∈ (program.moment verbose queue k).dues) :
    due ∈ (program.moment verbose queue j).dues := by
  induction k, hle using Nat.le_induction with
  | base => exact hdue
  | succ k hle ih =>
    obtain ⟨act, dues, -, hchange, hperm⟩ := exists_change_moment hread verbose queue k
    have hlt := (becomes_moment hread hle).lt_size henv
    exact ih (hchange.due_mem (hperm.mem_iff.2 hdue) hlt)

/-- The record as it is at the first moment at which it is there. -/
structure Born (program : Program) (verbose : Bool) (queue : TurnQueue Thread) (k : Nat)
    (id : RecordId) (record : Record) : Prop where
  record : (program.moment verbose queue k).world.store.records[id]? = some record
  before : ∀ j < k, (program.moment verbose queue j).world.store.records[id]? = none

theorem exists_born
    (h : (program.moment verbose queue k).world.store.records[id]? = some record) :
    ∃ j ≤ k, ∃ first, program.Born verbose queue j id first := by
  have hsome : ∃ j, ((program.moment verbose queue j).world.store.records[id]?).isSome :=
    ⟨k, by rw [h]; rfl⟩
  obtain ⟨first, hfirst⟩ := Option.isSome_iff_exists.1 (Nat.find_spec hsome)
  refine ⟨Nat.find hsome, Nat.find_min' hsome (by rw [h]; rfl), first, hfirst, fun j hj ↦ ?_⟩
  exact Option.not_isSome_iff_eq_none.1 (Nat.find_min hsome hj)

/-- Every record but that of the built-in functions is made for a scope of the program. It holds all
of the scope if statements are still to be executed in it. -/
theorem Born.begins (hread : Program.read text = .program program)
    (h : program.Born verbose queue k id record) :
    (id = globalRecord ∧ Store.initial.records[globalRecord]? = some record ∧
        ∀ s, .statement id s ∉ (program.moment verbose queue k).dues) ∨
      ∃ scope done, record.Begins program scope done ∧
        ∀ s, .statement id s ∈ (program.moment verbose queue k).dues →
          done = scope.declared ∧ s ∈ scope.statements := by
  obtain ⟨hrecord, hbefore⟩ := h
  cases k with
  | zero =>
    have hchange := change_start (distinct_of_read hread) verbose queue
    by_cases hid : id < Store.initial.records.size
    · obtain rfl : id = globalRecord := Nat.lt_one_iff.1 hid
      have hold := hchange.getElem?_of_enter rfl Store.getElem?_records_initial
      refine .inl ⟨rfl, Store.getElem?_records_initial.trans (hold.symm.trans hrecord), ?_⟩
      exact fun s hdue ↦ List.not_mem_nil (hchange.due_mem hdue hid)
    · exact .inr (hchange.exists_begins owes_initial (Nat.not_lt.1 hid) hrecord)
  | succ k =>
    obtain ⟨act, dues, -, hchange, hperm⟩ := exists_change_moment hread verbose queue k
    have hid := Array.getElem?_eq_none_iff.1 (hbefore k (Nat.lt_succ_self k))
    obtain ⟨scope, done, hbegins, hstatements⟩ :=
      hchange.exists_begins (settled_moment hread verbose queue k).owes hid hrecord
    exact .inr ⟨scope, done, hbegins, fun s hdue ↦ hstatements s (hperm.mem_iff.2 hdue)⟩

end Program

end LateConst
