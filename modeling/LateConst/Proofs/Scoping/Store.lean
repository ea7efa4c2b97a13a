import LateConst.Proofs.Scoping

/-!
# What the store does to a layout

Giving out identities, adding or extending arrays and giving a name a new value leave the layout as
it is. Entering a scope adds one record to it (`Store.Scoped.enter`), and a scope that could not be
entered leaves a record that is in no layout (`Store.Scoped.abandon`).
-/

namespace LateConst

variable {program : Program} {layout : Layout} {store store' : Store}

namespace Store.Scoped

section Chains

variable {id env : RecordId} {scope : Scope} {scopes outer : List Scope}

theorem exists_record (h : store.Scoped program layout) (hid : layout id = some scopes) :
    ∃ record, store.records[id]? = some record := by
  cases scopes with
  | nil =>
    obtain rfl := h.eq_global hid
    obtain ⟨record, hrecord, -⟩ := h.global_record
    exact ⟨record, hrecord⟩
  | cons scope outer =>
    obtain ⟨record, env, hrecord, -⟩ := h.record hid
    exact ⟨record, hrecord⟩

theorem lt_size (h : store.Scoped program layout) (hid : layout id = some scopes) :
    id < store.records.size := by
  obtain ⟨record, hrecord⟩ := h.exists_record hid
  exact (Array.getElem?_eq_some_iff.1 hrecord).1

theorem chain_globalRecord (h : store.Scoped program layout) :
    store.chain globalRecord = [globalRecord] := by
  obtain ⟨record, hrecord, houter, -⟩ := h.global_record
  rw [chain, hrecord]
  exact congrArg (globalRecord :: ·) houter

/-- Around the record of a scope is the record of the next scope, with all that is around it. -/
theorem exists_chain_eq (h : store.Scoped program layout)
    (henv : layout env = some (scope :: outer)) :
    ∃ env', layout env' = some outer ∧ store.chain env = env :: store.chain env' := by
  obtain ⟨record, env', hrecord, henv', houter, -⟩ := h.record henv
  refine ⟨env', henv', ?_⟩
  rw [chain, hrecord]
  exact congrArg (env :: ·) houter

theorem exists_layout_of_mem_chain (h : store.Scoped program layout)
    (henv : layout env = some scopes) (hid : id ∈ store.chain env) :
    ∃ more, layout id = some more := by
  induction scopes generalizing env with
  | nil =>
    obtain rfl := h.eq_global henv
    rw [h.chain_globalRecord, List.mem_singleton] at hid
    exact ⟨[], hid ▸ h.global⟩
  | cons scope outer ih =>
    obtain ⟨env', henv', hchain⟩ := h.exists_chain_eq henv
    rw [hchain] at hid
    obtain rfl | hid := List.mem_cons.1 hid
    · exact ⟨_, henv⟩
    · exact ih henv' hid

end Chains

theorem value_of_slot? {id : RecordId} {name : String} {slot : Slot} {scopes : List Scope}
    {v : Value} (h : store.Scoped program layout) (hid : layout id = some scopes)
    (hslot : store.slot? id name = some slot) (hv : slot.value? = some v) :
    v.Scoped program layout := by
  obtain ⟨record, hrecord, hslot⟩ := Option.bind_eq_some_iff.1 hslot
  exact h.value hid hrecord (Record.exists_mem_of_slot? hslot) hv

/-- What a name is read as agrees with the layout. -/
theorem sound_read {env id : RecordId} {name : String} {scopes : List Scope}
    (h : store.Scoped program layout) (henv : layout env = some scopes)
    (hid : store.resolve env name = .ok id) (forTypeof : Bool) :
    Sound (fun v ↦ v.Scoped program layout) (store.read id name forTypeof) := by
  obtain ⟨hmem, hname⟩ := mem_chain_of_resolve hid
  obtain ⟨more, hmore⟩ := h.exists_layout_of_mem_chain henv hmem
  obtain ⟨slot, hslot⟩ := hasName_iff.1 hname
  exact (store.sound_read hslot forTypeof).mono fun v hv ↦
    hv.elim (fun hplain ↦ hplain.scoped) fun hv ↦ h.value_of_slot? hmore hslot hv

/-! ### Changes that leave the records alone -/

theorem of_records_eq (h : store.Scoped program layout) (hrecords : store'.records = store.records)
    (helements : ∀ ref v, v ∈ store'.elements ref → v.Scoped program layout) :
    store'.Scoped program layout where
  global := h.global
  global_record := hrecords ▸ h.global_record
  eq_global := h.eq_global
  record hid := by
    obtain ⟨record, env, hrecord, henv, houter, hnames⟩ := h.record hid
    refine ⟨record, env, hrecords ▸ hrecord, henv, ?_, hnames⟩
    rw [houter, chain, chain, hrecords]
  value hid hrecord := h.value hid (hrecords ▸ hrecord)
  element hv := helements _ _ hv

theorem fresh (h : store.Scoped program layout) : store.fresh.2.Scoped program layout :=
  h.of_records_eq rfl fun _ _ hv ↦ h.element hv

theorem addArray {vs : List Value} (h : store.Scoped program layout)
    (hvs : ∀ v ∈ vs, v.Scoped program layout) : (store.addArray vs).2.Scoped program layout := by
  refine h.of_records_eq rfl fun ref v hv ↦ ?_
  simp only [Store.addArray, elements, Array.getD_eq_getD_getElem?, Array.getElem?_push] at hv
  split at hv
  · exact hvs v (by simpa using hv)
  · exact h.element (by simpa [elements, Array.getD_eq_getD_getElem?] using hv)

theorem extend {ref : Ref} {vs : List Value} (h : store.Scoped program layout)
    (hvs : ∀ v ∈ vs, v.Scoped program layout) : (store.extend ref vs).Scoped program layout := by
  refine h.of_records_eq rfl fun ref' v hv ↦ ?_
  simp only [Store.extend, elements, Array.getD_eq_getD_getElem?, Array.getElem?_modify] at hv
  have hold {v : Value} (hv : v ∈ (store.arrays[ref']?).getD #[]) : v.Scoped program layout :=
    have hmem : v ∈ store.elements ref' := by
      simpa [elements, Array.getD_eq_getD_getElem?] using hv
    h.element hmem
  split at hv
  · cases harray : store.arrays[ref']? with
    | none => simp [harray] at hv
    | some array =>
      rw [harray] at hv hold
      obtain hv | hv : v ∈ array.toList ∨ v ∈ vs := by
        rw [← List.mem_append, ← Array.toList_appendList]
        exact Array.mem_toList_iff.2 hv
      · exact hold (Array.mem_toList_iff.1 hv)
      · exact hvs v hv
  · exact hold hv

/-! ### Changes of records -/

theorem setSlot {id : RecordId} {name : String} {slot : Slot} (h : store.Scoped program layout)
    (hslot : ∀ v ∈ slot.value?, v.Scoped program layout) :
    (store.setSlot id name slot).Scoped program layout where
  global := h.global
  global_record := by
    obtain ⟨record, hrecord, houter, hnames⟩ := h.global_record
    obtain ⟨new, hnew, houter', hnames'⟩ := exists_getElem?_records_setSlot hrecord
    exact ⟨new, hnew, houter'.trans houter, hnames'.trans hnames⟩
  eq_global := h.eq_global
  record hid := by
    obtain ⟨record, env, hrecord, henv, houter, hnames⟩ := h.record hid
    obtain ⟨new, hnew, houter', hnames'⟩ := exists_getElem?_records_setSlot hrecord
    refine ⟨new, env, hnew, henv, ?_, hnames'.trans hnames⟩
    rw [chain_setSlot, houter', houter]
  value hid hrecord hentry hv := by
    obtain ⟨old, hold, -, -, hentries⟩ := exists_of_getElem?_records_setSlot hrecord
    obtain hentry | rfl := hentries _ hentry
    · exact h.value hid hold hentry hv
    · exact hslot _ hv
  element hv := h.element hv

section Push

variable {record : Record}

theorem chain_push (hrecords : store'.records = store.records.push record) {env : RecordId}
    (henv : env < store.records.size) : store'.chain env = store.chain env := by
  rw [chain, chain, hrecords, Array.getElem?_push_lt henv, Array.getElem?_eq_getElem henv]

/-- A record that is in no layout. -/
theorem abandon (h : store.Scoped program layout)
    (hrecords : store'.records = store.records.push record)
    (harrays : store'.arrays = store.arrays) : store'.Scoped program layout where
  global := h.global
  global_record := by
    obtain ⟨global, hglobal, hrest⟩ := h.global_record
    refine ⟨global, ?_, hrest⟩
    rw [hrecords, Array.getElem?_push, if_neg (Nat.ne_of_lt (h.lt_size h.global)), hglobal]
  eq_global := h.eq_global
  record hid := by
    obtain ⟨old, env, hold, henv, houter, hnames⟩ := h.record hid
    refine ⟨old, env, ?_, henv, ?_, hnames⟩
    · rw [hrecords, Array.getElem?_push, if_neg (Nat.ne_of_lt (h.lt_size hid)), hold]
    · rw [chain_push hrecords (h.lt_size henv), houter]
  value hid hrecord hentry hv := by
    rw [hrecords, Array.getElem?_push, if_neg (Nat.ne_of_lt (h.lt_size hid))] at hrecord
    exact h.value hid hrecord hentry hv
  element hv := by
    rw [elements, harrays] at hv
    exact h.element hv

end Push

end Store.Scoped

def Layout.add (layout : Layout) (id : RecordId) (scopes : List Scope) : Layout :=
  fun other ↦ if other = id then some scopes else layout other

theorem Layout.add_self (layout : Layout) (id : RecordId) (scopes : List Scope) :
    layout.add id scopes id = some scopes := if_pos rfl

namespace Store.Scoped

variable {record : Record} {env : RecordId} {scope : Scope} {outer : List Scope}

theorem extends_add (h : store.Scoped program layout) (scopes : List Scope) :
    (layout.add store.records.size scopes).Extends layout := by
  intro id more hid
  rw [Layout.add, if_neg (Nat.ne_of_lt (h.lt_size hid)), hid]

/-- A scope that has been entered inside of the scopes of another record. -/
theorem enter (h : store.Scoped program layout) (henv : layout env = some outer)
    (hrecords : store'.records = store.records.push record) (harrays : store'.arrays = store.arrays)
    (houter : record.outer = store.chain env) (hnames : record.names = scope.names)
    (hvalues : ∀ entry ∈ record.entries, ∀ v ∈ entry.slot.value?,
      v.Scoped program (layout.add store.records.size (scope :: outer))) :
    store'.Scoped program (layout.add store.records.size (scope :: outer)) := by
  have hextends := h.extends_add (scope :: outer)
  have hmore := h.abandon hrecords harrays
  have hself : store'.records[store.records.size]? = some record := by
    rw [hrecords, Array.getElem?_push_size]
  refine ⟨hextends _ _ h.global, hmore.global_record, fun {id} hid ↦ ?_,
    fun {id inner more} hid ↦ ?_, fun {id scopes old entry v} hid hold hentry hv ↦ ?_,
    fun hv ↦ (hmore.element hv).mono hextends⟩
  · rw [Layout.add] at hid
    split at hid
    · cases hid
    · exact h.eq_global hid
  · rw [Layout.add] at hid
    split at hid
    next heq =>
      subst heq
      cases hid
      refine ⟨record, env, hself, hextends _ _ henv, ?_, hnames⟩
      rw [chain_push hrecords (h.lt_size henv), houter]
    next =>
      obtain ⟨old, env', hold, henv', hrest⟩ := hmore.record hid
      exact ⟨old, env', hold, hextends _ _ henv', hrest⟩
  · rw [Layout.add] at hid
    split at hid
    next heq =>
      subst heq
      obtain rfl : record = old := Option.some.inj (hself.symm.trans hold)
      exact hvalues entry hentry v hv
    next => exact (hmore.value hid hold hentry hv).mono hextends

end Store.Scoped

end LateConst
