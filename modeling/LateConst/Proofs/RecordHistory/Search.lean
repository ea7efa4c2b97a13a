import Mathlib.Data.List.Find
import LateConst.Proofs.RecordHistory

/-!
# Looking a name up from the inside out

Every record has a way out: from record to record, each around the one before, up to one that has
nothing around it (`Store.WayOut`). A name is looked up along this way and found in the first record
that holds it, in whatever state it is there. So when a name is added to a record, it is found there
from now on wherever the way out comes to this record before it comes to another one with the name,
and nothing else is found in another place than before (`Store.History.resolve_innermost_first`).
-/

namespace LateConst

/-- A name that has been declared is there, in one state or another. -/
theorem Action.isSome_state? (deeds : List Action) :
    (state? deeds).isSome = (declaration? deeds).isSome := by
  rw [state?]
  split
  next hnone => rw [hnone]; rfl
  next hdeclared => rw [hdeclared]; rfl
  next hdeclared => rw [hdeclared]; split <;> rfl

namespace Store

variable {store store' : Store} {past : List Attempt} {id env : RecordId} {name : String}

/-! ### The way out of a record -/

def outer? (store : Store) (id : RecordId) : Option RecordId :=
  (store.records[id]?).bind (·.outer.head?)

/-- The records that one comes to on the way out, up to one that has no record around it. -/
inductive WayOut (store : Store) : RecordId → List RecordId → Prop
  | outermost {id : RecordId} (hid : id < store.records.size) (h : store.outer? id = none) :
      WayOut store id [id]
  | within {id next : RecordId} {path : List RecordId} (h : store.outer? id = some next)
      (rest : WayOut store next path) : WayOut store id (id :: path)

/-- From every record the chain is the way out, and what is around a record is older. -/
structure Rooted (store : Store) : Prop where
  wayOut : ∀ id < store.records.size, store.WayOut id (store.chain id)
  older : ∀ id, (store.chain id).Pairwise (· > ·)

theorem chain_eq (store : Store) (id : RecordId) :
    store.chain id = ((store.records[id]?).map Record.outer).elim [] (id :: ·) := by
  rw [chain]
  cases store.records[id]? <;> rfl

theorem outer?_eq (store : Store) (id : RecordId) :
    store.outer? id = ((store.records[id]?).map Record.outer).bind List.head? := by
  rw [outer?]
  cases store.records[id]? <;> rfl

theorem chain_of_lt (hid : id < store.records.size) :
    store.chain id = id :: store.records[id].outer := by
  rw [chain_eq, Array.getElem?_eq_getElem hid]
  rfl

theorem chain_of_not_lt (hid : ¬id < store.records.size) : store.chain id = [] := by
  rw [chain_eq, Array.getElem?_eq_none (Nat.le_of_not_lt hid)]
  rfl

theorem lt_size_of_outer? {next : RecordId} (h : store.outer? id = some next) :
    id < store.records.size := by
  obtain ⟨record, hrecord, -⟩ := Option.bind_eq_some_iff.1 h
  exact (Array.getElem?_eq_some_iff.1 hrecord).1

theorem WayOut.congr {path : List RecordId} (h : store.WayOut id path)
    (hsize : store.records.size ≤ store'.records.size)
    (houter : ∀ id < store.records.size, store'.outer? id = store.outer? id) :
    store'.WayOut id path := by
  induction h with
  | outermost hid h => exact .outermost (Nat.lt_of_lt_of_le hid hsize) ((houter _ hid).trans h)
  | within h _ ih => exact .within ((houter _ (lt_size_of_outer? h)).trans h) ih

theorem Rooted.le_of_mem (h : store.Rooted) (hmem : id ∈ store.chain env) :
    id ≤ env ∧ env < store.records.size := by
  by_cases henv : env < store.records.size
  · have hage := h.older env
    rw [chain_of_lt henv, List.pairwise_cons] at hage
    rw [chain_of_lt henv] at hmem
    refine ⟨?_, henv⟩
    obtain rfl | hmem := List.mem_cons.1 hmem
    · exact Nat.le_refl _
    · exact Nat.le_of_lt (hage.1 id hmem)
  · rw [chain_of_not_lt henv] at hmem
    cases hmem

theorem Rooted.nodup (h : store.Rooted) (env : RecordId) : (store.chain env).Nodup :=
  (h.older env).imp Nat.ne_of_gt

/-! ### New records -/

section New

variable (kind : ScopeKind) (outer : Option RecordId)

theorem getElem?_records_addRecord_of_lt (hid : id < store.records.size) :
    (store.addRecord kind outer).2.records[id]? = store.records[id]? :=
  (Array.getElem?_push_lt hid).trans (Array.getElem?_eq_getElem hid).symm

theorem chain_addRecord_of_lt (hid : id < store.records.size) :
    (store.addRecord kind outer).2.chain id = store.chain id := by
  rw [chain, chain, getElem?_records_addRecord_of_lt kind outer hid]

theorem chain_addRecord_size (store : Store) :
    (store.addRecord kind outer).2.chain store.records.size =
      store.records.size :: outer.elim [] store.chain := by
  rw [chain_eq, show (store.addRecord kind outer).2.records[store.records.size]? = some _ from
    Array.getElem?_push_size]
  cases outer <;> rfl

theorem outer?_addRecord_of_lt (hid : id < store.records.size) :
    (store.addRecord kind outer).2.outer? id = store.outer? id := by
  rw [outer?, outer?, getElem?_records_addRecord_of_lt kind outer hid]

theorem outer?_addRecord_size (store : Store) :
    (store.addRecord kind outer).2.outer? store.records.size =
      (outer.elim [] store.chain).head? := by
  rw [outer?, show (store.addRecord kind outer).2.records[store.records.size]? = some _ from
    Array.getElem?_push_size]
  cases outer <;> rfl

theorem head?_chain_around {outer : Option RecordId}
    (houter : ∀ around ∈ outer, around < store.records.size) :
    (outer.elim [] store.chain).head? = outer := by
  cases outer with
  | none => rfl
  | some around =>
    rw [Option.elim_some, chain_of_lt (houter around rfl)]
    rfl

theorem chain_of_path {around : RecordId} {more : List RecordId}
    (h : outer.elim [] store.chain = around :: more) :
    around < store.records.size ∧ store.chain around = around :: more := by
  cases outer with
  | none => cases h
  | some id =>
    rw [Option.elim_some] at h
    by_cases hid : id < store.records.size
    · have hhead := h
      rw [chain_of_lt hid] at hhead
      obtain ⟨rfl, -⟩ := List.cons.inj hhead
      exact ⟨hid, h⟩
    · rw [chain_of_not_lt hid] at h
      cases h

theorem Rooted.addRecord (h : store.Rooted) : (store.addRecord kind outer).2.Rooted := by
  have hsize : (store.addRecord kind outer).2.records.size = store.records.size + 1 :=
    Array.size_push _
  refine ⟨fun id hid ↦ ?_, fun id ↦ ?_⟩
  · have hold {id : RecordId} (hid : id < store.records.size) :
        (store.addRecord kind outer).2.WayOut id (store.chain id) :=
      (h.wayOut id hid).congr (by omega) fun id hid ↦ outer?_addRecord_of_lt kind outer hid
    obtain hold' | rfl : id < store.records.size ∨ id = store.records.size := by omega
    · rw [chain_addRecord_of_lt kind outer hold']
      exact hold hold'
    · have houter := outer?_addRecord_size kind outer store
      rw [chain_addRecord_size]
      cases hpath : outer.elim [] store.chain with
      | nil =>
        rw [hpath] at houter
        exact .outermost hid houter
      | cons around more =>
        obtain ⟨haround, hchain⟩ := chain_of_path outer hpath
        rw [hpath] at houter
        exact .within houter (hchain ▸ hold haround)
  · obtain hid | rfl | hid := Nat.lt_trichotomy id store.records.size
    · rw [chain_addRecord_of_lt kind outer hid]
      exact h.older id
    · rw [chain_addRecord_size, List.pairwise_cons]
      cases outer with
      | none => exact ⟨fun _ hmem ↦ absurd hmem List.not_mem_nil, .nil⟩
      | some around =>
        refine ⟨fun older hmem ↦ ?_, h.older around⟩
        have hle := h.le_of_mem hmem
        exact Nat.lt_of_le_of_lt hle.1 hle.2
    · rw [chain_of_not_lt (by rw [hsize]; exact Nat.not_lt_of_le hid)]
      exact .nil

end New

/-! ### Changed entries -/

theorem AgreesExcept.outer_eq (h : store.AgreesExcept id name store') (other : RecordId) :
    (store'.records[other]?).map Record.outer = (store.records[other]?).map Record.outer := by
  by_cases hother : other = id
  · subst hother
    cases hrecord : store.records[other]? with
    | none =>
      rw [Array.getElem?_eq_none_iff, ← h.size, ← Array.getElem?_eq_none_iff] at hrecord
      rw [hrecord]
    | some record =>
      obtain ⟨record', hrecord', -, houter, -⟩ := h.record record hrecord
      rw [hrecord', Option.map_some, houter, Option.map_some]
  · rw [h.others other hother]

theorem AgreesExcept.chain_eq (h : store.AgreesExcept id name store') (other : RecordId) :
    store'.chain other = store.chain other := by
  rw [Store.chain_eq, Store.chain_eq, h.outer_eq]

theorem AgreesExcept.outer?_eq (h : store.AgreesExcept id name store') (other : RecordId) :
    store'.outer? other = store.outer? other := by
  rw [Store.outer?_eq, Store.outer?_eq, h.outer_eq]

theorem Rooted.of_agreesExcept (h : store.Rooted) (hagrees : store.AgreesExcept id name store') :
    store'.Rooted := by
  refine ⟨fun other hother ↦ ?_, fun other ↦ hagrees.chain_eq other ▸ h.older other⟩
  rw [hagrees.chain_eq]
  exact (h.wayOut other (hagrees.size ▸ hother)).congr (Nat.le_of_eq hagrees.size.symm)
    fun other _ ↦ hagrees.outer?_eq other

theorem History.rooted (h : store.History past) : store.Rooted := by
  induction h with
  | empty => exact ⟨fun _ hid ↦ absurd hid (Nat.not_lt_zero _), fun _ ↦ .nil⟩
  | newRecord _ kind outer ih => exact ih.addRecord kind outer
  | attempt _ op hid ih => exact ih.of_agreesExcept (agreesExcept_after op)

/-! ### Where a name is found -/

/-- The path comes to the record before it comes to another one that holds the name. -/
def ReachesFirst (store : Store) (name : String) (path : List RecordId) (id : RecordId) : Prop :=
  ∃ before after, path = before ++ id :: after ∧ ∀ other ∈ before, ¬store.hasName other name

theorem resolve_eq_ok_iff : store.resolve env name = .ok id ↔
    store.hasName id name ∧ store.ReachesFirst name (store.chain env) id := by
  have hresolve : store.resolve env name = .ok id ↔
      (store.chain env).find? (fun id ↦ store.hasName id name) = some id := by
    rw [resolve, resolveAlong]
    split
    next found h => simp [h]
    next h => simp [h]
  rw [hresolve, List.find?_eq_some_iff_append]
  simp only [ReachesFirst, Bool.not_eq_true', Bool.not_eq_true]

theorem resolve_eq_error_iff {fault : Fault} : store.resolve env name = .error fault ↔
    fault = .unresolved name ∧ ∀ id ∈ store.chain env, ¬store.hasName id name := by
  rw [resolve, resolveAlong]
  split
  next found h =>
    have hfound := List.find?_some (p := fun id ↦ store.hasName id name) h
    simp only [reduceCtorEq, false_iff, not_and]
    exact fun _ hnone ↦ hnone found (List.mem_of_find?_eq_some h) hfound
  next h =>
    rw [List.find?_eq_none] at h
    simp only [Except.error.injEq]
    exact ⟨fun hfault ↦ ⟨hfault.symm, h⟩, fun hfault ↦ hfault.1.symm⟩

theorem resolve_congr (hchain : store'.chain env = store.chain env)
    (hname : ∀ id ∈ store.chain env, store'.hasName id name = store.hasName id name) :
    store'.resolve env name = store.resolve env name := by
  rw [resolve, resolve, resolveAlong, resolveAlong, hchain, List.find?_congr hname]

/-! ### What an operation does to the search -/

section After

variable {op : Operation}

theorem hasName_after_self_iff (hid : op.id < store.records.size) :
    (store.after op).hasName op.id op.name ↔ store.hasName op.id op.name ∨
      ∃ kind hasInitializer, op.action = .declare kind hasInitializer := by
  simp only [hasName_iff]
  cases hslot : store.slot? op.id op.name with
  | none =>
    have hperform := Operation.perform_of_slot?_eq_none hslot
    cases haction : op.action with
    | declare kind hasInitializer =>
      rw [haction] at hperform
      rw [after_of_perform hperform, slot?_addName hid hslot]
      simp
    | _ =>
      rw [haction] at hperform
      rw [after_of_error (by rw [Operation.answer, hperform]; rfl), hslot]
      simp
  | some slot =>
    have hstill : ∃ slot, (store.after op).slot? op.id op.name = some slot := by
      rw [after]
      split
      next hperform =>
        obtain ⟨_, _, -, hnone, -⟩ | ⟨_, _, _, -, -, -, rfl⟩ | ⟨_, _, -, -, rfl⟩ |
          ⟨_, _, _, -, -, -, rfl⟩ := Operation.perform_cases hperform
        · cases hslot.symm.trans hnone
        · exact ⟨_, by rw [slot?_setSlot, if_pos ⟨rfl, rfl⟩, hslot]; rfl⟩
        · exact ⟨slot, hslot⟩
        · exact ⟨_, by rw [slot?_setSlot, if_pos ⟨rfl, rfl⟩, hslot]; rfl⟩
      next => exact ⟨slot, hslot⟩
    simp [hstill]

/-- A name is added to a record by its declaration there and in no other way. -/
theorem hasName_after_iff (hid : op.id < store.records.size) :
    (store.after op).hasName id name ↔ store.hasName id name ∨
      (∃ kind hasInitializer, op.action = .declare kind hasInitializer) ∧
        id = op.id ∧ name = op.name := by
  by_cases hother : id = op.id ∧ name = op.name
  · obtain ⟨rfl, rfl⟩ := hother
    simpa using hasName_after_self_iff hid
  · have hslot := (store.agreesExcept_after op).slot?_eq hother
    simp [hasName_iff, hslot, hother]

theorem Rooted.not_mem_before (h : store.Rooted) {before after : List RecordId}
    (hchain : store.chain env = before ++ id :: after) : id ∉ before := by
  have hnodup := h.nodup env
  rw [hchain, List.nodup_middle, List.nodup_cons, List.mem_append] at hnodup
  exact fun hmem ↦ hnodup.1 (.inl hmem)

theorem resolve_after_eq_ok (h : store.Rooted) (hid : op.id < store.records.size)
    (hdeclare : ∃ kind hasInitializer, op.action = .declare kind hasInitializer)
    (hfirst : store.ReachesFirst op.name (store.chain env) op.id) :
    (store.after op).resolve env op.name = .ok op.id := by
  obtain ⟨before, after, hchain, hbefore⟩ := hfirst
  refine resolve_eq_ok_iff.2 ⟨(hasName_after_iff hid).2 (.inr ⟨hdeclare, rfl, rfl⟩), before, after,
    ((agreesExcept_after op).chain_eq env).trans hchain, fun other hother hhas ↦ ?_⟩
  obtain hhad | ⟨-, rfl, -⟩ := (hasName_after_iff hid).1 hhas
  · exact hbefore other hother hhad
  · exact h.not_mem_before hchain hother

/-- A search has another outcome after an operation if and only if the operation is the first
declaration of the name in a record that is reached before any other one with the name. -/
theorem resolve_after_ne_iff (h : store.Rooted) (hid : op.id < store.records.size) :
    (store.after op).resolve env name ≠ store.resolve env name ↔
      (∃ kind hasInitializer, op.action = .declare kind hasInitializer) ∧ name = op.name ∧
        ¬store.hasName op.id name ∧ store.ReachesFirst name (store.chain env) op.id := by
  have hchain := (store.agreesExcept_after op).chain_eq env
  constructor
  · intro hne
    -- some record on the way out holds the name now that did not hold it before
    obtain ⟨other, hmem, hhas, hnew⟩ : ∃ other ∈ store.chain env,
        (store.after op).hasName other name ∧ ¬store.hasName other name := by
      by_contra! hsame
      exact hne (resolve_congr hchain fun other hother ↦
        Bool.eq_iff_iff.2 ⟨hsame other hother, fun hhad ↦ (hasName_after_iff hid).2 (.inl hhad)⟩)
    obtain ⟨hdeclare, rfl, rfl⟩ := ((hasName_after_iff hid).1 hhas).resolve_left hnew
    obtain ⟨before, after, hsplit⟩ := List.append_of_mem hmem
    refine ⟨hdeclare, rfl, hnew, before, after, hsplit, fun inner hinner hhad ↦ hne ?_⟩
    -- a record further in that holds the name hides what has been added
    have hsame : ∀ other ∈ before, (store.after op).hasName other op.name =
        store.hasName other op.name := fun other hother ↦ by
      refine Bool.eq_iff_iff.2 ⟨fun hhas ↦ ?_, fun hhad ↦ (hasName_after_iff hid).2 (.inl hhad)⟩
      refine ((hasName_after_iff hid).1 hhas).resolve_right ?_
      rintro ⟨-, rfl, -⟩
      exact h.not_mem_before hsplit hother
    have hfound : (before.find? fun id ↦ store.hasName id op.name).isSome :=
      List.find?_isSome.2 ⟨inner, hinner, hhad⟩
    rw [resolve, resolve, resolveAlong, resolveAlong, hchain, hsplit, List.find?_append,
      List.find?_append, List.find?_congr hsame]
    obtain ⟨found, hfound⟩ := Option.isSome_iff_exists.1 hfound
    rw [hfound]
    rfl
  · rintro ⟨hdeclare, rfl, hnew, hfirst⟩ hsame
    rw [resolve_after_eq_ok h hid hdeclare hfirst] at hsame
    exact hnew (resolve_eq_ok_iff.1 hsame.symm).1

end After

/-- Every record has a way out, and it is the chain of the record. A name is found in the first
record on the way that holds it, which is one where it has been declared, whatever has become of it
since; it is not found if and only if there is no such record. A new record is inside of the one
that was asked for, and neither new records nor operations change what is around a record that is
there. A search has another outcome than before if and only if the name has been added to a record
that is reached before any other one with the name, and then it is found there. -/
theorem History.resolve_innermost_first (h : store.History past) :
    (∀ env < store.records.size, store.WayOut env (store.chain env) ∧ ∀ name,
      (∀ id, store.resolve env name = .ok id ↔
        store.hasName id name ∧ store.ReachesFirst name (store.chain env) id) ∧
      ∀ fault, store.resolve env name = .error fault ↔
        fault = .unresolved name ∧ ∀ id ∈ store.chain env, ¬store.hasName id name) ∧
    (∀ id name, store.hasName id name ↔
      (Action.declaration? (Attempt.deeds id name past)).isSome) ∧
    (∀ kind outer, (∀ around ∈ outer, around < store.records.size) →
      (store.addRecord kind outer).2.outer? store.records.size = outer ∧
      ∀ env < store.records.size,
        (store.addRecord kind outer).2.outer? env = store.outer? env ∧
        ∀ name, (store.addRecord kind outer).2.resolve env name = store.resolve env name) ∧
    ∀ op : Operation, op.id < store.records.size → ∀ env < store.records.size,
      (store.after op).outer? env = store.outer? env ∧
      ∀ name,
        ((store.after op).resolve env name ≠ store.resolve env name ↔
          (∃ kind hasInitializer, op.action = .declare kind hasInitializer) ∧ name = op.name ∧
            ¬store.hasName op.id name ∧ store.ReachesFirst name (store.chain env) op.id) ∧
        ((store.after op).resolve env name ≠ store.resolve env name →
          (store.after op).resolve env name = .ok op.id) := by
  have hrooted := h.rooted
  refine ⟨fun env henv ↦ ⟨hrooted.wayOut env henv, fun name ↦
    ⟨fun id ↦ resolve_eq_ok_iff, fun fault ↦ resolve_eq_error_iff⟩⟩, fun id name ↦ ?_,
    fun kind outer houter ↦ ⟨?_, fun env henv ↦ ⟨outer?_addRecord_of_lt kind outer henv,
      fun name ↦ ?_⟩⟩,
    fun op hid env _ ↦ ⟨(agreesExcept_after op).outer?_eq env, fun name ↦
      ⟨resolve_after_ne_iff hrooted hid, fun hne ↦ ?_⟩⟩⟩
  · rw [hasName_iff, h.follows.state, ← Option.isSome_iff_exists, Action.isSome_state?]
  · rw [outer?_addRecord_size, head?_chain_around houter]
  · refine resolve_congr (chain_addRecord_of_lt kind outer henv) fun id hmem ↦ ?_
    rw [hasName, hasName, getElem?_records_addRecord_of_lt kind outer
      (Nat.lt_of_le_of_lt (hrooted.le_of_mem hmem).1 henv)]
  · obtain ⟨hdeclare, rfl, -, hfirst⟩ := (resolve_after_ne_iff hrooted hid).1 hne
    exact resolve_after_eq_ok hrooted hid hdeclare hfirst

/-- Record 1 is in record 0 and record 2 in record 1, and so is record 3 in record 0. Once `x` has
been added to record 1 it is found there from record 2, and it is still found in record 0 from
record 3, although it has no value there. -/
theorem History.resolve_innermost_first_among_four : ∃ (store : Store) (past : List Attempt),
    store.History past ∧ store.records.size = 4 ∧ store.slot? 0 "x" = some .unset ∧
    store.WayOut 2 [2, 1, 0] ∧ store.resolve 2 "x" = .ok 0 ∧ store.resolve 3 "x" = .ok 0 ∧
    (store.after ⟨1, "x", .declare .mutable true⟩).resolve 2 "x" = .ok 1 ∧
    (store.after ⟨1, "x", .declare .mutable true⟩).resolve 3 "x" = .ok 0 := by
  have hrecords := (((History.empty.newRecord .global none).newRecord .program (some 0)).newRecord
    .block (some 1)).newRecord .function (some 0)
  have hdeclared := hrecords.attempt ⟨0, "x", .declare .constant false⟩ (by decide)
  obtain ⟨hsearch, -, -, hnext⟩ := hdeclared.resolve_innermost_first
  have hadd := hnext ⟨1, "x", .declare .mutable true⟩ (by decide)
  have hfound (env : RecordId) (henv : env < 4) := (hsearch env henv).2 "x"
  refine ⟨_, _, hdeclared, rfl, rfl, (hsearch 2 (by decide)).1,
    ((hfound 2 (by decide)).1 0).2 ⟨rfl, [2, 1], [], rfl, List.forall_mem_cons.2
      ⟨Bool.false_ne_true, List.forall_mem_singleton.2 Bool.false_ne_true⟩⟩,
    ((hfound 3 (by decide)).1 0).2 ⟨rfl, [3], [], rfl,
      List.forall_mem_singleton.2 Bool.false_ne_true⟩, ?_, ?_⟩
  · have hchange := (hadd 2 (by decide)).2 "x"
    exact hchange.2 (hchange.1.2 ⟨⟨_, _, rfl⟩, rfl, Bool.false_ne_true, [2], [0], rfl,
      List.forall_mem_singleton.2 Bool.false_ne_true⟩)
  · rfl

end Store

end LateConst
