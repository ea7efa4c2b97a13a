import LateConst.Proofs.RecordHistory.Deed

/-!
# Operations on records

An operation on a name of a record changes the entry of that name and nothing else, and nothing at
all if it fails. What comes of it is said by all that has been done with the name before
(`Operation.answer_eq_expected`).
-/

namespace LateConst

structure Operation where
  id : RecordId
  name : String
  action : Action

namespace Operation

/-- The store afterwards, and the value that was asked for. -/
def perform (op : Operation) (store : Store) : Except Failure (Store × Option Value) :=
  match op.action with
  | .declare kind hasInitializer =>
    (store.declare op.id op.name (.declared kind hasInitializer)).map (·, none)
  | .define v => (store.define op.id op.name v).map (·, none)
  | .read forTypeof => (store.read op.id op.name forTypeof).map (store, some ·)
  | .write v => (store.write op.id op.name v).map (·, none)

def answer (op : Operation) (store : Store) : Except Failure (Option Value) :=
  (op.perform store).map Prod.snd

end Operation

def Store.after (store : Store) (op : Operation) : Store :=
  match op.perform store with
  | .ok (next, _) => next
  | .error _ => store

/-! ### One entry changes -/

/-- Two stores are the same but for the entry of one name in one record. -/
structure Store.AgreesExcept (id : RecordId) (name : String) (store store' : Store) : Prop where
  arrays : store'.arrays = store.arrays
  nextRef : store'.nextRef = store.nextRef
  room : store'.room = store.room
  size : store'.records.size = store.records.size
  others : ∀ other, other ≠ id → store'.records[other]? = store.records[other]?
  record : ∀ record, store.records[id]? = some record → ∃ record',
    store'.records[id]? = some record' ∧ record'.kind = record.kind ∧
      record'.outer = record.outer ∧
      record'.entries.filter (fun entry ↦ entry.name ≠ name) =
        record.entries.filter fun entry ↦ entry.name ≠ name

namespace Record

variable {record record' : Record} {name other : String} {slot : Slot}

theorem filter_entries_set : (record.set name slot).entries.filter (fun entry ↦ entry.name ≠ name) =
    record.entries.filter fun entry ↦ entry.name ≠ name := by
  obtain ⟨kind, outer, entries⟩ := record
  simp only [set]
  induction entries with
  | nil => rfl
  | cons entry more ih =>
    rw [List.map_cons, List.filter_cons, List.filter_cons, ih]
    by_cases hname : entry.name = name <;> simp [hname]

theorem filter_entries_add : (record.add name slot).entries.filter (fun entry ↦ entry.name ≠ name) =
    record.entries.filter fun entry ↦ entry.name ≠ name := by
  simp [add, List.filter_append]

theorem slot?_eq_of_filter_entries (hname : other ≠ name)
    (h : record'.entries.filter (fun entry ↦ entry.name ≠ name) =
      record.entries.filter fun entry ↦ entry.name ≠ name) :
    record'.slot? other = record.slot? other := by
  have hfind (record : Record) : record.slot? other =
      ((record.entries.filter fun entry ↦ entry.name ≠ name).find? fun entry ↦
        entry.name == other).map Entry.slot := by
    rw [slot?, List.find?_filter]
    congr 2
    funext entry
    by_cases hentry : entry.name = other <;> simp [hentry, hname]
  rw [hfind, hfind, h]

theorem slot?_add (h : record.slot? name = none) :
    (record.add name slot).slot? name = some slot := by
  have hfind := Option.map_eq_none_iff.1 h
  simp only [slot?, add, List.find?_append, hfind]
  simp

end Record

namespace Store

variable {store store' : Store} {id : RecordId} {name : String} {slot : Slot}

theorem AgreesExcept.refl (store : Store) : store.AgreesExcept id name store :=
  ⟨rfl, rfl, rfl, rfl, fun _ _ ↦ rfl, fun record hrecord ↦ ⟨record, hrecord, rfl, rfl, rfl⟩⟩

theorem AgreesExcept.slot?_eq (h : store.AgreesExcept id name store') {other : RecordId}
    {name' : String} (hother : ¬(other = id ∧ name' = name)) :
    store'.slot? other name' = store.slot? other name' := by
  by_cases hid : other = id
  · subst hid
    cases hrecord : store.records[other]? with
    | none =>
      have hnone : store'.records[other]? = none := by
        rw [Array.getElem?_eq_none_iff] at hrecord ⊢
        rwa [h.size]
      rw [slot?, slot?, hrecord, hnone]
    | some record =>
      obtain ⟨record', hrecord', -, -, hentries⟩ := h.record record hrecord
      rw [slot?, slot?, hrecord, hrecord']
      exact Record.slot?_eq_of_filter_entries (fun hname ↦ hother ⟨rfl, hname⟩) hentries
  · rw [slot?, slot?, h.others other hid]

theorem agreesExcept_modify (change : Record → Record)
    (hchange : ∀ record : Record, (change record).kind = record.kind ∧
      (change record).outer = record.outer ∧
      (change record).entries.filter (fun entry ↦ entry.name ≠ name) =
        record.entries.filter fun entry ↦ entry.name ≠ name) :
    store.AgreesExcept id name { store with records := store.records.modify id change } where
  arrays := rfl
  nextRef := rfl
  room := rfl
  size := Array.size_modify
  others other hother := by rw [Array.getElem?_modify, if_neg (Ne.symm hother)]
  record record hrecord := by
    refine ⟨change record, ?_, hchange record⟩
    rw [Array.getElem?_modify, if_pos rfl, hrecord]
    rfl

theorem agreesExcept_setSlot : store.AgreesExcept id name (store.setSlot id name slot) :=
  agreesExcept_modify _ fun _ ↦ ⟨rfl, rfl, Record.filter_entries_set⟩

theorem agreesExcept_addName : store.AgreesExcept id name (store.addName id name slot) :=
  agreesExcept_modify _ fun _ ↦ ⟨rfl, rfl, Record.filter_entries_add⟩

theorem slot?_addName (hid : id < store.records.size) (h : store.slot? id name = none) :
    (store.addName id name slot).slot? id name = some slot := by
  have hrecord := Array.getElem?_eq_getElem hid
  rw [slot?, hrecord] at h
  rw [slot?, addName, Array.getElem?_modify, if_pos rfl, hrecord]
  exact Record.slot?_add h

end Store

/-! ### What an operation does -/

namespace Operation

variable {op : Operation} {store next : Store} {slot : Slot} {answer : Option Value}
  {deeds : List Action}

theorem perform_of_slot?_eq_none (h : store.slot? op.id op.name = none) :
    op.perform store = match op.action with
      | .declare kind hasInitializer =>
        .ok (store.addName op.id op.name (.declared kind hasInitializer), none)
      | _ => .error (.crash (.missingName op.name)) := by
  obtain ⟨id, name, action⟩ := op
  have hhas : ¬store.hasName id name := by simp [Store.hasName_iff, h]
  have hslot : store.slot id name = .error (.crash (.missingName name)) := by
    rw [Store.slot, ← Store.slot?, h]
  cases action with
  | declare kind hasInitializer => simp only [perform, Store.declare, if_neg hhas, Except.map]
  | define v => simp only [perform, Store.define, Store.slotToDefine, hslot]; rfl
  | read forTypeof => simp only [perform, Store.read, hslot]; rfl
  | write v => simp only [perform, Store.write, Store.slotToWrite, hslot]; rfl

theorem perform_of_slot? (h : store.slot? op.id op.name = some slot) :
    op.perform store = match op.action with
      | .declare _ _ => .error (.fault (.duplicateName op.name))
      | .define v =>
        ((slot.define op.name v).mapError fun cause ↦ Failure.crash (.violation cause)).map
          fun slot' ↦ (store.setSlot op.id op.name slot', none)
      | .read forTypeof =>
        ((slot.read op.name forTypeof).mapError Failure.fault).map fun v ↦ (store, some v)
      | .write v =>
        ((slot.write op.name v).mapError Failure.fault).map
          fun slot' ↦ (store.setSlot op.id op.name slot', none) := by
  obtain ⟨id, name, action⟩ := op
  cases action with
  | declare kind hasInitializer =>
    have hhas : store.hasName id name := Store.hasName_iff.2 ⟨slot, h⟩
    simp only [perform, Store.declare, if_pos hhas, Except.map]
  | define v =>
    simp only [perform, Store.define, Store.slotToDefine_of_slot? h]
    cases slot.define name v <;> rfl
  | read forTypeof => simp only [perform, Store.read_of_slot? h]
  | write v =>
    simp only [perform, Store.write, Store.slotToWrite_of_slot? h]
    cases slot.write name v <;> rfl

/-- All that an operation can do if it succeeds. -/
theorem perform_cases (h : op.perform store = .ok (next, answer)) :
    (∃ kind hasInitializer, op.action = .declare kind hasInitializer ∧
        store.slot? op.id op.name = none ∧
        next = store.addName op.id op.name (.declared kind hasInitializer)) ∨
      (∃ v slot slot', op.action = .define v ∧ store.slot? op.id op.name = some slot ∧
        slot.define op.name v = .ok slot' ∧ next = store.setSlot op.id op.name slot') ∨
      (∃ forTypeof slot, op.action = .read forTypeof ∧ store.slot? op.id op.name = some slot ∧
        next = store) ∨
      ∃ v slot slot', op.action = .write v ∧ store.slot? op.id op.name = some slot ∧
        slot.write op.name v = .ok slot' ∧ next = store.setSlot op.id op.name slot' := by
  obtain ⟨id, name, action⟩ := op
  cases hslot : store.slot? id name with
  | none =>
    rw [perform_of_slot?_eq_none hslot] at h
    cases action with
    | declare kind hasInitializer =>
      cases h
      exact .inl ⟨kind, hasInitializer, rfl, rfl, rfl⟩
    | _ => cases h
  | some slot =>
    rw [perform_of_slot? hslot] at h
    cases action with
    | declare kind hasInitializer => cases h
    | define v =>
      dsimp only at h
      cases hdefine : slot.define name v <;> rw [hdefine] at h <;> cases h
      exact .inr (.inl ⟨v, slot, _, rfl, rfl, hdefine, rfl⟩)
    | read forTypeof =>
      dsimp only at h
      cases hread : slot.read name forTypeof <;> rw [hread] at h <;> cases h
      exact .inr (.inr (.inl ⟨forTypeof, slot, rfl, rfl, rfl⟩))
    | write v =>
      dsimp only at h
      cases hwrite : slot.write name v <;> rw [hwrite] at h <;> cases h
      exact .inr (.inr (.inr ⟨v, slot, _, rfl, rfl, hwrite, rfl⟩))

/-- What comes of an operation is what has been done with the name before. -/
theorem answer_eq_expected (h : store.slot? op.id op.name = Action.state? deeds) :
    op.answer store = Action.expected op.name deeds op.action := by
  rw [answer]
  cases hslot : store.slot? op.id op.name with
  | none =>
    rw [perform_of_slot?_eq_none hslot, Action.expected.eq_def,
      Action.declaration?_eq_none (h.symm.trans hslot)]
    cases op.action <;> rfl
  | some slot =>
    have hstate := h.symm.trans hslot
    rw [perform_of_slot? hslot]
    cases op.action with
    | declare kind hasInitializer => exact (Action.expected_declare hstate ..).symm
    | define v =>
      rw [Action.expected_define hstate]
      dsimp only
      cases slot.define op.name v <;> rfl
    | read forTypeof =>
      rw [Action.expected_read hstate]
      dsimp only
      cases slot.read op.name forTypeof <;> rfl
    | write v =>
      rw [Action.expected_write hstate]
      dsimp only
      cases slot.write op.name v <;> rfl

theorem slot?_of_perform (h : store.slot? op.id op.name = Action.state? deeds)
    (hlawful : Action.Lawful deeds) (hid : op.id < store.records.size)
    (hperform : op.perform store = .ok (next, answer)) :
    next.slot? op.id op.name = Action.state? (deeds ++ [op.action]) := by
  obtain ⟨kind, hasInitializer, haction, hslot, rfl⟩ |
    ⟨v, slot, slot', haction, hslot, hdefine, rfl⟩ |
    ⟨forTypeof, slot, haction, hslot, rfl⟩ | ⟨v, slot, slot', haction, hslot, hwrite, rfl⟩ :=
      perform_cases hperform <;> rw [haction]
  · obtain rfl := hlawful.declared (Action.declaration?_eq_none (h.symm.trans hslot))
    rw [Store.slot?_addName hid hslot]
    cases kind <;> rfl
  · rw [Store.slot?_setSlot, if_pos ⟨rfl, rfl⟩, hslot]
    exact (Action.state?_define (h.symm.trans hslot) hdefine).symm
  · rw [hslot]
    exact (Action.state?_read (h.symm.trans hslot) forTypeof).symm
  · rw [Store.slot?_setSlot, if_pos ⟨rfl, rfl⟩, hslot]
    exact (Action.state?_write (h.symm.trans hslot) hwrite).symm

end Operation

namespace Store

variable {op : Operation} {store next : Store} {answer : Option Value}

theorem after_of_perform (h : op.perform store = .ok (next, answer)) : store.after op = next := by
  rw [after, h]

theorem after_of_error {failure : Failure} (h : op.answer store = .error failure) :
    store.after op = store := by
  rw [after]
  split
  next hperform =>
    rw [Operation.answer, hperform] at h
    cases h
  next => rfl

theorem after_of_read {forTypeof : Bool} (h : op.action = .read forTypeof) :
    store.after op = store := by
  rw [after]
  split
  next hperform =>
    obtain ⟨_, _, haction, -⟩ | ⟨_, _, _, haction, -⟩ | ⟨_, _, -, -, rfl⟩ |
      ⟨_, _, _, haction, -⟩ := Operation.perform_cases hperform
    · cases h.symm.trans haction
    · cases h.symm.trans haction
    · rfl
    · cases h.symm.trans haction
  next => rfl

theorem agreesExcept_after (op : Operation) :
    store.AgreesExcept op.id op.name (store.after op) := by
  rw [after]
  split
  next hperform =>
    obtain ⟨_, _, -, -, rfl⟩ | ⟨_, _, _, -, -, -, rfl⟩ | ⟨_, _, -, -, rfl⟩ |
      ⟨_, _, _, -, -, -, rfl⟩ := Operation.perform_cases hperform
    · exact agreesExcept_addName
    · exact agreesExcept_setSlot
    · exact .refl _
    · exact agreesExcept_setSlot
  next => exact .refl _

end Store

end LateConst
