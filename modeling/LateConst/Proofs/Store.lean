import Mathlib.Data.List.Forall2
import LateConst.Machine.Hoisting

/-!
# What the operations do to the store

`Store.slot?` looks at one entry. Putting a name into a new state changes that entry and no other,
and a scope that is entered adds one record with all its entries (`Store.exists_made_of_hoist`).
-/

namespace LateConst

/-! ### Records -/

namespace Record

variable {record : Record} {name other : String} {slot : Slot}

theorem has_iff : record.has name ↔ name ∈ record.names := by
  simp [has, names]

theorem names_set : (record.set name slot).names = record.names := by
  rw [names, set, List.map_map]
  refine List.map_congr_left fun entry _ ↦ ?_
  rw [Function.comp_apply]
  split
  next h => exact (eq_of_beq h).symm
  next => rfl

@[simp]
theorem names_add : (record.add name slot).names = record.names ++ [name] := by
  simp [names, add]

def addAll (record : Record) (made : List Entry) : Record :=
  { record with entries := record.entries ++ made }

@[simp]
theorem addAll_nil (record : Record) : record.addAll [] = record := by
  rw [addAll, List.append_nil]

theorem addAll_add (record : Record) (made : List Entry) :
    (record.add name slot).addAll made = record.addAll (⟨name, slot⟩ :: made) := by
  simp [addAll, add]

@[simp]
theorem names_addAll (record : Record) (made : List Entry) :
    (record.addAll made).names = record.names ++ made.map Entry.name := List.map_append

theorem isSome_slot?_iff : (record.slot? name).isSome ↔ name ∈ record.names := by
  simp [slot?, names]

theorem slot?_set : (record.set name slot).slot? other =
    if other = name then (record.slot? name).map fun _ ↦ slot else record.slot? other := by
  obtain ⟨kind, outer, entries⟩ := record
  simp only [slot?, set]
  induction entries with
  | nil => simp
  | cons entry more ih =>
    rw [List.map_cons, List.find?_cons, List.find?_cons, List.find?_cons]
    by_cases hname : entry.name = name
    · by_cases hother : other = name
      · simp [hname, hother]
      · have hne : (name == other) = false := beq_false_of_ne (Ne.symm hother)
        simp only [hname, hne, beq_self_eq_true, if_pos, ih, if_neg hother]
    · by_cases hother : entry.name = other
      · subst hother
        simp [hname]
      · have hne : (entry.name == other) = false := beq_false_of_ne hother
        have hne' : (entry.name == name) = false := beq_false_of_ne hname
        simp only [hne, hne', Bool.false_eq_true, if_neg, not_false_eq_true, ih]

theorem exists_mem_of_slot? (h : record.slot? name = some slot) :
    ⟨name, slot⟩ ∈ record.entries := by
  obtain ⟨entry, hfind, rfl⟩ := Option.map_eq_some_iff.1 h
  have hname : entry.name = name := by simpa using List.find?_some hfind
  rw [← hname]
  exact List.mem_of_find?_eq_some hfind

/-- In a record that holds no name twice every entry is the one that a look-up finds. -/
theorem slot?_of_mem (hnodup : record.names.Nodup) (h : ⟨name, slot⟩ ∈ record.entries) :
    record.slot? name = some slot := by
  obtain ⟨kind, outer, entries⟩ := record
  simp only [slot?, names] at hnodup h ⊢
  induction entries with
  | nil => cases h
  | cons entry more ih =>
    rw [List.map_cons, List.nodup_cons] at hnodup
    rw [List.find?_cons]
    obtain rfl | hmore := List.mem_cons.1 h
    · simp
    · have hne : entry.name ≠ name := by
        rintro rfl
        exact hnodup.1 (List.mem_map.2 ⟨_, hmore, rfl⟩)
      rw [beq_false_of_ne hne]
      exact ih hnodup.2 hmore

theorem mem_entries_set {entry : Entry} (h : entry ∈ (record.set name slot).entries) :
    entry ∈ record.entries ∨ entry = ⟨name, slot⟩ := by
  obtain ⟨old, hold, rfl⟩ := List.mem_map.1 h
  split
  · exact .inr rfl
  · exact .inl hold

end Record

namespace Store

variable {store : Store} {id other : RecordId} {name name' : String} {slot : Slot}

/-! ### Entries -/

def slot? (store : Store) (id : RecordId) (name : String) : Option Slot :=
  (store.records[id]?).bind (·.slot? name)

theorem slot_eq_ok_iff : store.slot id name = .ok slot ↔ store.slot? id name = some slot := by
  rw [Store.slot, slot?]
  cases (store.records[id]?).bind (·.slot? name) <;> simp

theorem hasName_iff : store.hasName id name ↔ ∃ slot, store.slot? id name = some slot := by
  rw [← Option.isSome_iff_exists, hasName, slot?]
  cases store.records[id]? with
  | none => simp
  | some record => simp [Record.has_iff, Record.isSome_slot?_iff]

theorem getElem?_records_setSlot (other : RecordId) :
    (store.setSlot id name slot).records[other]? =
      if id = other then (store.records[other]?).map (·.set name slot)
      else store.records[other]? := by
  simp [setSlot, Array.getElem?_modify]

@[simp]
theorem arrays_setSlot : (store.setSlot id name slot).arrays = store.arrays := rfl

theorem slot?_setSlot : (store.setSlot id name slot).slot? other name' =
    if other = id ∧ name' = name then (store.slot? id name).map fun _ ↦ slot
    else store.slot? other name' := by
  rw [slot?, getElem?_records_setSlot]
  by_cases hid : id = other
  · subst hid
    rw [if_pos rfl, slot?, slot?]
    cases store.records[id]? with
    | none => simp
    | some record => simp [Record.slot?_set]
  · rw [if_neg hid, if_neg (fun h ↦ hid h.1.symm), slot?]

theorem exists_of_getElem?_records_setSlot {record : Record}
    (h : (store.setSlot id name slot).records[other]? = some record) :
    ∃ old, store.records[other]? = some old ∧ record.outer = old.outer ∧
      record.names = old.names ∧
      ∀ entry ∈ record.entries, entry ∈ old.entries ∨ entry = ⟨name, slot⟩ := by
  rw [getElem?_records_setSlot] at h
  split at h
  · obtain ⟨old, hold, rfl⟩ := Option.map_eq_some_iff.1 h
    exact ⟨old, hold, rfl, Record.names_set, fun entry hentry ↦ Record.mem_entries_set hentry⟩
  · exact ⟨record, h, rfl, rfl, fun entry hentry ↦ .inl hentry⟩

theorem exists_getElem?_records_setSlot {record : Record}
    (h : store.records[other]? = some record) :
    ∃ new, (store.setSlot id name slot).records[other]? = some new ∧
      new.outer = record.outer ∧ new.names = record.names := by
  rw [getElem?_records_setSlot, h]
  split
  · exact ⟨_, rfl, rfl, Record.names_set⟩
  · exact ⟨_, rfl, rfl, rfl⟩

@[simp]
theorem chain_setSlot : (store.setSlot id name slot).chain other = store.chain other := by
  simp only [chain, getElem?_records_setSlot]
  by_cases hid : id = other
  · rw [if_pos hid]
    cases store.records[other]? <;> rfl
  · rw [if_neg hid]

/-! ### Looking up names -/

theorem mem_chain_of_resolve {env : RecordId}
    (h : store.resolve env name = .ok id) : id ∈ store.chain env ∧ store.hasName id name := by
  rw [resolve, resolveAlong] at h
  split at h
  next hfind =>
    cases h
    have hname := List.find?_some (p := fun id ↦ store.hasName id name) hfind
    exact ⟨List.mem_of_find?_eq_some hfind, hname⟩
  next => cases h

theorem exists_slot_of_resolve {env : RecordId} (h : store.resolve env name = .ok id) :
    ∃ slot, store.slot? id name = some slot :=
  hasName_iff.1 (mem_chain_of_resolve h).2

theorem eq_unresolved_of_resolve {env : RecordId} {fault : Fault}
    (h : store.resolve env name = .error fault) : fault = .unresolved name := by
  rw [resolve, resolveAlong] at h
  split at h
  · cases h
  · cases h
    rfl

end Store

/-! ### Entering scopes -/

/-- The states that a name can have when its scope is entered. -/
inductive Hoisted.Makes (id : RecordId) : Hoisted → Slot → Prop
  | slot (slot : Slot) : Makes id (.slot slot) slot
  | function (code : Subroutine) (ref : Ref) :
      Makes id (.function code) (.mutable (.function ref (.closure code id)) true)

def Entry.Of (id : RecordId) (item : Ident × Hoisted) (entry : Entry) : Prop :=
  entry.name = item.1.name ∧ item.2.Makes id entry.slot

namespace Store

theorem modify_push {α : Type} (xs : Array α) (x : α) (f : α → α) :
    (xs.push x).modify xs.size f = xs.push (f x) := by
  apply Array.ext_getElem?
  intro i
  rw [Array.getElem?_modify, Array.getElem?_push, Array.getElem?_push]
  grind

theorem modify_modify {α : Type} (xs : Array α) (i : Nat) (f g : α → α) :
    (xs.modify i f).modify i g = xs.modify i (g ∘ f) := by
  apply Array.ext_getElem?
  intro j
  rw [Array.getElem?_modify, Array.getElem?_modify, Array.getElem?_modify]
  split
  · rw [Option.map_map]
  · rfl

theorem modify_eq_self {α : Type} (xs : Array α) (i : Nat) {f : α → α} (h : ∀ x, f x = x) :
    xs.modify i f = xs := by
  apply Array.ext_getElem?
  intro j
  rw [Array.getElem?_modify, funext h]
  simp

section Hoist

variable {store : Store} {id : RecordId} {record : Record}

theorem hasName_of_getElem? (h : store.records[id]? = some record) (name : String) :
    store.hasName id name ↔ name ∈ record.names := by
  rw [hasName, h]
  exact Record.has_iff

theorem getElem?_records_addName (h : store.records[id]? = some record) (name : String)
    (slot : Slot) : (store.addName id name slot).records[id]? = some (record.add name slot) := by
  rw [addName, Array.getElem?_modify, if_pos rfl, h]
  rfl

theorem exists_addName_of_addHoisted (store : Store) (id : RecordId) (name : String)
    (what : Hoisted) :
    ∃ slot, (store.addHoisted id name what).records = (store.addName id name slot).records ∧
      (store.addHoisted id name what).arrays = store.arrays ∧ what.Makes id slot := by
  cases what with
  | slot slot => exact ⟨slot, rfl, rfl, .slot slot⟩
  | function code => exact ⟨_, rfl, rfl, .function code _⟩

/-- Hoisting makes entries for the names in their order, up to the first name that is there
already, and leaves everything else as it is. -/
theorem exists_stop_of_hoist (h : store.records[id]? = some record)
    (items : List (Ident × Hoisted)) :
    ∃ done rest made, items = done ++ rest ∧ List.Forall₂ (Entry.Of id) done made ∧
      (store.hoist id items).1.records = store.records.modify id (·.addAll made) ∧
      (store.hoist id items).1.arrays = store.arrays ∧
      (made.map Entry.name).Nodup ∧ (∀ name ∈ made.map Entry.name, name ∉ record.names) ∧
      (store.hoist id items).2 = rest.head?.map Prod.fst ∧
      ∀ item ∈ rest.head?, item.1.name ∈ record.names ++ made.map Entry.name := by
  induction items generalizing store record with
  | nil =>
    exact ⟨[], [], [], rfl, .nil, (modify_eq_self _ _ Record.addAll_nil).symm, rfl, List.nodup_nil,
      by simp, rfl, by simp⟩
  | cons item more ih =>
    obtain ⟨ident, what⟩ := item
    rw [hoist]
    split
    next hhas =>
      refine ⟨[], (ident, what) :: more, [], rfl, .nil,
        (modify_eq_self _ _ Record.addAll_nil).symm, rfl, List.nodup_nil, by simp, rfl, ?_⟩
      rintro item ⟨⟩
      exact List.mem_append_left _ ((hasName_of_getElem? h ident.name).1 hhas)
    next hhas =>
      rw [hasName_of_getElem? h] at hhas
      obtain ⟨slot, hadd, harrays, hmakes⟩ :=
        exists_addName_of_addHoisted store id ident.name what
      have hrecord : (store.addHoisted id ident.name what).records[id]? =
          some (record.add ident.name slot) := by
        rw [hadd]
        exact getElem?_records_addName h ident.name slot
      obtain ⟨done, rest, made, rfl, hmade, hrecords, harrays', hnodup, hnew, hstop, hthere⟩ :=
        ih hrecord
      rw [Record.names_add] at hnew hthere
      refine ⟨(ident, what) :: done, rest, ⟨ident.name, slot⟩ :: made, rfl,
        .cons ⟨rfl, hmakes⟩ hmade, ?_, harrays'.trans harrays, ?_, ?_, hstop, fun item hitem ↦ ?_⟩
      · rw [hrecords, hadd, addName, modify_modify]
        exact congrArg _ (funext fun record ↦ record.addAll_add made)
      · refine List.nodup_cons.2 ⟨fun hmem ↦ ?_, hnodup⟩
        exact hnew _ hmem (List.mem_append_right _ (List.mem_singleton_self _))
      · refine List.forall_mem_cons.2 ⟨hhas, fun name hname hmem ↦ ?_⟩
        exact hnew name hname (List.mem_append_left _ hmem)
      · simpa [or_assoc] using hthere item hitem

end Hoist

section Push

variable {store : Store} {records : Array Record} {record : Record}

theorem records_addRecord (store : Store) (kind : ScopeKind) (env : RecordId) :
    (store.addRecord kind (some env)).2.records =
      store.records.push (.new kind (store.chain env)) := rfl

theorem addName_push (h : store.records = records.push record) (name : String) (slot : Slot) :
    (store.addName records.size name slot).records = records.push (record.add name slot) := by
  rw [addName, h, modify_push]

/-- Hoisting into the record that was made last. -/
theorem exists_stop_of_hoist_push (h : store.records = records.push record)
    (items : List (Ident × Hoisted)) :
    ∃ done rest made, items = done ++ rest ∧ List.Forall₂ (Entry.Of records.size) done made ∧
      (store.hoist records.size items).1.records =
        records.push { record with entries := record.entries ++ made } ∧
      (store.hoist records.size items).1.arrays = store.arrays ∧
      (record.names.Nodup → (record.names ++ made.map Entry.name).Nodup) ∧
      (store.hoist records.size items).2 = rest.head?.map Prod.fst ∧
      ∀ item ∈ rest.head?, item.1.name ∈ record.names ++ made.map Entry.name := by
  have hrecord : store.records[records.size]? = some record := by
    rw [h, Array.getElem?_push_size]
  obtain ⟨done, rest, made, hitems, hmade, hrecords, harrays, hnodup, hnew, hstop, hthere⟩ :=
    exists_stop_of_hoist hrecord items
  refine ⟨done, rest, made, hitems, hmade, ?_, harrays, fun hnames ↦ ?_, hstop, hthere⟩
  · rw [hrecords, h, modify_push]
    rfl
  · refine List.nodup_append.2 ⟨hnames, hnodup, ?_⟩
    rintro name hname _ hmem rfl
    exact hnew name hmem hname

/-- Hoisting makes entries for the names in their order, for all of them unless a name is there
already. -/
theorem exists_made_of_hoist (h : store.records = records.push record)
    (items : List (Ident × Hoisted)) :
    ∃ done rest made, items = done ++ rest ∧ List.Forall₂ (Entry.Of records.size) done made ∧
      (store.hoist records.size items).1.records =
        records.push { record with entries := record.entries ++ made } ∧
      (store.hoist records.size items).1.arrays = store.arrays ∧
      (record.names.Nodup → (record.names ++ made.map Entry.name).Nodup) ∧
      ((store.hoist records.size items).2 = none → rest = []) := by
  obtain ⟨done, rest, made, hitems, hmade, hrecords, harrays, hnodup, hstop, -⟩ :=
    exists_stop_of_hoist_push h items
  refine ⟨done, rest, made, hitems, hmade, hrecords, harrays, hnodup, fun hnone ↦ ?_⟩
  simpa [hstop] using hnone

end Push

end Store

end LateConst
