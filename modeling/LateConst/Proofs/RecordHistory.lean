import LateConst.Proofs.RecordHistory.Operation

/-!
# Records as a state machine

Whatever is done with the names of any number of records, in whatever order, and whether it succeeds
or not: the state of a name depends only on what has been done with it successfully, and so does the
outcome of whatever is done next (`Store.History.determines_records`). A variable has the last value
that it was given. A constant has the first one, and no other is ever given to it.
-/

namespace LateConst

structure Attempt where
  op : Operation
  answer : Except Failure (Option Value)

/-- All that has been tried with the records of a store, the latest last. Records are made at any
time, and every operation is on a record that is there. -/
inductive Store.History : Store → List Attempt → Prop
  | empty : History .empty []
  | newRecord {store : Store} {past : List Attempt} (h : History store past) (kind : ScopeKind)
      (outer : Option RecordId) : History (store.addRecord kind outer).2 past
  | attempt {store : Store} {past : List Attempt} (h : History store past) (op : Operation)
      (hid : op.id < store.records.size) :
      History (store.after op) (past ++ [⟨op, op.answer store⟩])

namespace Attempt

/-- What the attempt has done with this name of this record, unless it failed. -/
def deed? (id : RecordId) (name : String) (attempt : Attempt) : Option Action :=
  match attempt.answer with
  | .ok _ => if attempt.op.id = id ∧ attempt.op.name = name then some attempt.op.action else none
  | .error _ => none

/-- All that has been done with a name, in order. What failed is not in the list. -/
def deeds (id : RecordId) (name : String) (past : List Attempt) : List Action :=
  past.filterMap (deed? id name)

theorem deeds_concat (id : RecordId) (name : String) (past : List Attempt) (attempt : Attempt) :
    deeds id name (past ++ [attempt]) = deeds id name past ++ (attempt.deed? id name).toList := by
  cases h : attempt.deed? id name <;> simp [deeds, h]

end Attempt

namespace Store

variable {store : Store} {past : List Attempt}

def NodupNames (store : Store) : Prop :=
  ∀ (id : RecordId) (record : Record), store.records[id]? = some record → record.names.Nodup

/-- The records are what has been made of them: the state of a name is that of all that has been
done with it. -/
structure Follows (store : Store) (past : List Attempt) : Prop where
  nodup : store.NodupNames
  state : ∀ id name, store.slot? id name = Action.state? (Attempt.deeds id name past)
  lawful : ∀ id name, Action.Lawful (Attempt.deeds id name past)

theorem NodupNames.setSlot (h : store.NodupNames) (id : RecordId) (name : String) (slot : Slot) :
    (store.setSlot id name slot).NodupNames := by
  intro other record hrecord
  obtain ⟨old, hold, -, hnames, -⟩ := exists_of_getElem?_records_setSlot hrecord
  exact hnames ▸ h other old hold

theorem NodupNames.addName (h : store.NodupNames) {id : RecordId} {name : String}
    (hslot : store.slot? id name = none) (slot : Slot) :
    (store.addName id name slot).NodupNames := by
  intro other record hrecord
  rw [Store.addName, Array.getElem?_modify] at hrecord
  split at hrecord
  next heq =>
    subst heq
    obtain ⟨old, hold, rfl⟩ := Option.map_eq_some_iff.1 hrecord
    rw [slot?, hold] at hslot
    have hnew : name ∉ old.names := by
      rw [← Record.isSome_slot?_iff, show old.slot? name = none from hslot]
      exact Bool.false_ne_true
    have hnames : (old.add name slot).names = old.names ++ [name] := List.map_append
    rw [hnames]
    refine List.nodup_append.2 ⟨h id old hold, List.nodup_singleton _, ?_⟩
    rintro other hother _ hmem rfl
    exact hnew (List.mem_singleton.1 hmem ▸ hother)
  next => exact h other record hrecord

theorem NodupNames.after (h : store.NodupNames) (op : Operation) : (store.after op).NodupNames := by
  rw [Store.after]
  split
  next next answer hperform =>
    obtain ⟨_, _, -, hslot, rfl⟩ | ⟨_, _, _, -, -, -, rfl⟩ | ⟨_, _, -, -, rfl⟩ |
      ⟨_, _, _, -, -, -, rfl⟩ := Operation.perform_cases hperform
    · exact h.addName hslot _
    · exact h.setSlot _ _ _
    · exact h
    · exact h.setSlot _ _ _
  next => exact h

theorem Follows.newRecord (h : store.Follows past) (kind : ScopeKind) (outer : Option RecordId) :
    (store.addRecord kind outer).2.Follows past := by
  obtain ⟨new, hentries, hpush⟩ : ∃ new : Record, new.entries = [] ∧
      ∀ id, (store.addRecord kind outer).2.records[id]? =
        if id = store.records.size then some new else store.records[id]? :=
    ⟨_, rfl, fun _ ↦ Array.getElem?_push⟩
  refine ⟨fun id record hrecord ↦ ?_, fun id name ↦ ?_, h.lawful⟩
  · rw [hpush] at hrecord
    split at hrecord
    · obtain rfl := Option.some.inj hrecord
      rw [Record.names, hentries]
      exact List.nodup_nil
    · exact h.nodup id record hrecord
  · rw [← h.state, slot?, hpush]
    split
    next hid =>
      subst hid
      rw [slot?, Array.getElem?_eq_none (Nat.le_refl _), Option.bind_some, Record.slot?, hentries]
      rfl
    next => rfl

theorem Follows.attempt (h : store.Follows past) (op : Operation)
    (hid : op.id < store.records.size) :
    (store.after op).Follows (past ++ [⟨op, op.answer store⟩]) := by
  have hexpected := Operation.answer_eq_expected (h.state op.id op.name)
  have hdeeds (id : RecordId) (name : String) := Attempt.deeds_concat id name past
    ⟨op, op.answer store⟩
  cases hperform : op.perform store with
  | error failure =>
    have hanswer : op.answer store = .error failure := by rw [Operation.answer, hperform]; rfl
    have hsame (id : RecordId) (name : String) : Attempt.deeds id name
        (past ++ [⟨op, op.answer store⟩]) = Attempt.deeds id name past := by
      rw [hdeeds, hanswer]
      exact List.append_nil _
    refine ⟨h.nodup.after op, fun id name ↦ ?_, fun id name ↦ ?_⟩
    · rw [hsame, after_of_error hanswer]
      exact h.state id name
    · rw [hsame]
      exact h.lawful id name
  | ok result =>
    obtain ⟨next, answer⟩ := result
    have hanswer : op.answer store = .ok answer := by rw [Operation.answer, hperform]; rfl
    have hdeed (id : RecordId) (name : String) : (⟨op, .ok answer⟩ : Attempt).deed? id name =
        if op.id = id ∧ op.name = name then some op.action else none := rfl
    refine ⟨h.nodup.after op, fun id name ↦ ?_, fun id name ↦ ?_⟩
    · rw [hdeeds, hanswer, hdeed]
      split
      next heq =>
        obtain ⟨rfl, rfl⟩ := heq
        rw [after_of_perform hperform]
        exact Operation.slot?_of_perform (h.state _ _) (h.lawful _ _) hid hperform
      next hne =>
        have hother : ¬(id = op.id ∧ name = op.name) := fun heq ↦ hne ⟨heq.1.symm, heq.2.symm⟩
        rw [(agreesExcept_after op).slot?_eq hother, h.state]
        exact congrArg Action.state? (List.append_nil _).symm
    · rw [hdeeds, hanswer, hdeed]
      split
      next heq =>
        obtain ⟨rfl, rfl⟩ := heq
        exact (h.lawful _ _).concat (hexpected.symm.trans hanswer)
      next =>
        rw [Option.toList_none, List.append_nil]
        exact h.lawful id name

theorem History.follows (h : store.History past) : store.Follows past := by
  induction h with
  | empty =>
    exact ⟨fun _ _ hrecord ↦ (by cases hrecord), fun _ _ ↦ rfl, fun _ _ ↦ Action.lawful_nil⟩
  | newRecord _ kind outer ih => exact ih.newRecord kind outer
  | attempt _ op hid ih => exact ih.attempt op hid

/-- Whatever has been tried with the names of any number of records, in any order: no name is in a
record twice. The state of a name is that of all that has been done with it, so that a variable
always has a value, the last one that it was given, and a constant has none or the first. The
declaration of a name gives it a value once at most, and a constant never gets a second value. What
comes of the next operation is what has been done with its name before. It changes no other
entry, and none at all if it fails or only reads. -/
theorem History.determines_records (h : store.History past) :
    store.NodupNames ∧
    (∀ id name, store.slot? id name = Action.state? (Attempt.deeds id name past)) ∧
    (∀ id name slot, store.slot? id name = some slot →
      (slot.kind = .mutable → slot.value?.isSome) ∧
      (slot.isAwaiting → slot.kind = .constant ∧ slot.value? = none ∧ slot.initialized = false) ∧
      (slot.initialized → slot.value?.isSome ∧ slot.isAwaiting = false) ∧
      (Attempt.deeds id name past).countP Action.isDefine ≤ 1 ∧
      (slot.kind = .constant → (Action.values (Attempt.deeds id name past)).length ≤ 1)) ∧
    ∀ op : Operation, op.id < store.records.size →
      op.answer store = Action.expected op.name (Attempt.deeds op.id op.name past) op.action ∧
      store.AgreesExcept op.id op.name (store.after op) ∧
      (((∃ failure, op.answer store = .error failure) ∨ ∃ forTypeof, op.action = .read forTypeof) →
        store.after op = store) := by
  obtain ⟨hnodup, hstate, hlawful⟩ := h.follows
  refine ⟨hnodup, hstate, fun id name slot hslot ↦ ?_, fun op hid ↦ ?_⟩
  · obtain ⟨-, honce, hconstant⟩ := hlawful id name
    have hdeeds := (hstate id name).symm.trans hslot
    refine ⟨?_, ?_, ?_, honce, fun hkind ↦ ?_⟩
    · cases slot <;> simp [Slot.kind, Slot.value?]
    · cases slot <;> simp [Slot.isAwaiting, Slot.kind, Slot.value?, Slot.initialized]
    · cases slot <;> simp [Slot.isAwaiting, Slot.value?, Slot.initialized]
    · obtain ⟨_, -, rfl⟩ | ⟨hasInitializer, hdeclared, -⟩ := Action.state?_cases hdeeds
      · cases hkind
      · exact hconstant hasInitializer hdeclared
  · refine ⟨Operation.answer_eq_expected (hstate _ _), agreesExcept_after op, ?_⟩
    rintro (⟨failure, hfailure⟩ | ⟨forTypeof, haction⟩)
    · exact after_of_error hfailure
    · exact after_of_read haction

/-- A constant that is declared without a value is written once. A second assignment fails, and so
does its declaration, since it comes too late. -/
theorem History.determines_late_constant : ∃ store past, store.History past ∧
    past.length = 4 ∧ 0 < store.records.size ∧
    (⟨0, "c", .read false⟩ : Operation).answer store = .ok (some (.bool true)) ∧
    (⟨0, "c", .write .undefined⟩ : Operation).answer store =
      .error (.fault (.reassignment "c")) ∧
    (⟨0, "c", .define .undefined⟩ : Operation).answer store =
      .error (.crash (.violation (.initializedAfterWrite "c"))) := by
  have hdeclared := (History.empty.newRecord .program none).attempt
    ⟨0, "c", .declare .constant false⟩ (by decide)
  have hasked := hdeclared.attempt ⟨0, "c", .read true⟩ (by decide)
  have hwritten := (hasked.attempt ⟨0, "c", .write (.bool true)⟩ (by decide)).attempt
    ⟨0, "c", .write (.bool false)⟩ (by decide)
  obtain ⟨-, -, -, hnext⟩ := hwritten.determines_records
  exact ⟨_, _, hwritten, rfl, by decide, (hnext ⟨0, "c", .read false⟩ (by decide)).1,
    (hnext ⟨0, "c", .write .undefined⟩ (by decide)).1,
    (hnext ⟨0, "c", .define .undefined⟩ (by decide)).1⟩

end Store

end LateConst
