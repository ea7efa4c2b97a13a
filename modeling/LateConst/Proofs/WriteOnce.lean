import LateConst.Proofs.Ledger.History
import LateConst.Proofs.Scoping.Resolution

/-!
# Constants are written once

A constant begins without a value, gets one at most once, and keeps it to the end of the run, in
whatever tasks and calls it is used. If it is declared without a value, the one assignment to it
that succeeds is the only way to get one: before it no use of the value succeeds, and after it every
other assignment fails and leaves all records alone.
-/

namespace LateConst

variable {program : Program} {id env : RecordId} {name : String} {v : Value} {slot slot' : Slot}

/-! ### States -/

theorem Role.value?_of_starts {role : Role} (h : role.Starts slot) (hkind : slot.kind = .constant) :
    slot.value? = none := by
  cases role with
  | constant hasInitializer => cases hasInitializer <;> exact h ▸ rfl
  | mutable =>
    obtain rfl := h
    cases hkind
  | _ =>
    obtain ⟨v, rfl⟩ := h
    cases hkind

theorem exists_item_of_starts {declared : List (Ident × Role)} {entries : List Entry}
    {entry : Entry} (h : List.Forall₂ Entry.Starts declared entries) (hentry : entry ∈ entries) :
    ∃ item ∈ declared, Entry.Starts item entry := by
  induction h with
  | nil => cases hentry
  | cons hstarts _ ih =>
    obtain rfl | hentry := List.mem_cons.1 hentry
    · exact ⟨_, List.mem_cons_self, hstarts⟩
    · obtain ⟨item, hitem, hstarts⟩ := ih hentry
      exact ⟨item, List.mem_cons_of_mem _ hitem, hstarts⟩

/-- A variable has a value at every moment. -/
theorem Slot.Becomes.isSome_value? (h : slot.Becomes slot') (hkind : slot.kind = .mutable) :
    slot'.value?.isSome := by
  cases slot with
  | mutable v initialized =>
    obtain ⟨v', initialized', rfl⟩ := h
    rfl
  | _ => cases hkind

theorem Slot.Becomes.eq_unset (h : slot.Becomes (.constant v false)) (hnone : slot.value? = none) :
    slot = .unset := by
  cases slot with
  | awaiting => obtain h | ⟨w, h⟩ := h <;> cases h
  | unset => rfl
  | _ => cases hnone

theorem Slot.eq_unset_of_write (hkind : slot.kind = .constant)
    (h : slot.write name v = .ok slot') : slot = .unset ∧ slot' = .constant v false := by
  cases slot with
  | mutable value initialized => cases hkind
  | unset =>
    cases h
    exact ⟨rfl, rfl⟩
  | _ => cases h

namespace Change

variable {act : Act} {store store' : Store} {dues dues' : List Due}

/-- A constant that is declared without a value gets one by an assignment to it, and in no other
way. -/
theorem unset_cases (h : Change program act store dues store' dues')
    (hslot : store.slot? id name = some .unset) :
    store'.slot? id name = some .unset ∨
      ∃ v, act = .assign id name v ∧ store'.slot? id name = some (.constant v false) := by
  induction h with
  | keep hrecords hdues =>
    left
    rw [Store.slot?, hrecords]
    exact hslot
  | enter hrecords hrecord hnodup hnew hstatements =>
    exact .inl (Store.slot?_of_getElem? (fun _ hold ↦ hrecords ▸ Store.getElem?_of_push hold) hslot)
  | define hold hopen hdefine =>
    left
    rw [Store.slot?_setSlot]
    split
    next heq =>
      obtain ⟨rfl, rfl⟩ := heq
      obtain rfl := Option.some.inj (hslot.symm.trans hold)
      exact hopen.elim
    next => exact hslot
  | assign hold hwrite =>
    rw [Store.slot?_setSlot]
    split
    next heq =>
      obtain ⟨rfl, rfl⟩ := heq
      obtain rfl := Option.some.inj (hslot.symm.trans hold)
      obtain ⟨-, rfl⟩ := Slot.eq_unset_of_write rfl hwrite
      exact .inr ⟨_, rfl, by rw [hold]; rfl⟩
    next => exact .inl hslot
  | trans _ hsecond ih ih' =>
    obtain hunset | ⟨v, rfl, hset⟩ := ih hslot
    · exact ih' hunset
    · obtain ⟨slot', hslot', rfl⟩ := hsecond.becomes.slot hset
      exact .inr ⟨v, rfl, hslot'⟩

end Change

namespace Thread

variable {world : World} {thread : Thread}

/-- The move of a thread that has come to an assignment. -/
theorem exists_move_assign (hacts : thread.Acts world.store (.assign id name v))
    (hslot : world.store.slot? id name = some slot) :
    ∃ site, thread.move world = match slot.write name v with
      | .ok slot' => .goOn ⟨world.store.setSlot id name slot', world.events⟩
          ⟨.next, thread.body, thread.callers⟩
      | .error fault => raise world thread.body thread.callers site fault := by
  obtain ⟨focus, body, callers⟩ := thread
  obtain ⟨stmt, env, hfocus, hresolve⟩ := hacts
  obtain rfl : focus = .value v [] (.assign stmt name env) := hfocus
  refine ⟨some (.stmt stmt), ?_⟩
  simp only [move, apply, hresolve, Store.slotToWrite_of_slot? hslot]
  cases slot.write name v <;> rfl

/-- The move of a thread that looks up a name. -/
theorem move_lookup {ident : Ident} {frames : List ExprFrame} {use : Use}
    (hfocus : thread.focus = .eval (.lookup ident) env frames use)
    (hresolve : world.store.resolve env ident.name = .ok id)
    (hslot : world.store.slot? id ident.name = some slot) :
    thread.move world = match slot.read ident.name false with
      | .ok v => .goOn world ⟨.value v frames use, thread.body, thread.callers⟩
      | .error fault => raise world thread.body thread.callers (some (.expr (.lookup ident)))
          fault := by
  obtain ⟨focus, body, callers⟩ := thread
  obtain rfl : focus = .eval (.lookup ident) env frames use := hfocus
  simp only [move, eval, hresolve, Store.read_of_slot? hslot]
  cases slot.read ident.name false <;> rfl

/-- A fault changes no record. -/
theorem getElem?_records_raise {body : List StmtFrame} {callers : List Caller}
    {site : Option Site} {fault : Fault} {record : Record}
    (h : world.store.records[id]? = some record) :
    (raise world body callers site fault).world.store.records[id]? = some record := by
  unfold raise
  split
  · exact h
  next landing _ =>
    have hpushed := Store.addName_push
      (world.store.fresh.2.records_addRecord .handler landing.env) landing.ident.name
      (.mutable (fault.caught world.store.fresh.1) true)
    exact (congrArg (fun records : Array Record ↦ records[id]?) hpushed).trans
      (Store.getElem?_of_push h)

end Thread

/-! ### Uses of names -/

namespace Progress

/-- The present task assigns a value to a name that it finds in this record, and goes on. -/
def Writes (progress : RunProgress) (id : RecordId) (name : String) (v : Value) : Prop :=
  ∃ thread world, progress.present? = some thread ∧
    thread.Acts progress.world.store (.assign id name v) ∧
    thread.move progress.world = .goOn world ⟨.next, thread.body, thread.callers⟩

def LooksUp (progress : RunProgress) (id : RecordId) (name : String) : Prop :=
  ∃ thread ident env frames use, progress.present? = some thread ∧
    thread.focus = .eval (.lookup ident) env frames use ∧ ident.name = name ∧
    progress.world.store.resolve env name = .ok id

def looksUp? (progress : RunProgress) : Option (RecordId × String) :=
  progress.present?.bind fun thread ↦
    match thread.focus with
    | .eval (.lookup ident) env _ _ =>
      match progress.world.store.resolve env ident.name with
      | .ok id => some (id, ident.name)
      | .error _ => none
    | _ => none

theorem looksUp_of_looksUp? {progress : RunProgress} (h : progress.looksUp? = some (id, name)) :
    progress.LooksUp id name := by
  obtain ⟨thread, hpresent, h⟩ := Option.bind_eq_some_iff.1 h
  split at h
  next ident env frames use hfocus =>
    split at h
    next hresolve =>
      cases h
      exact ⟨thread, ident, env, frames, use, hpresent, hfocus, rfl, hresolve⟩
    next => cases h
  next => cases h

/-- The present task looks up a name that it finds in this record, and gets this value. -/
def Reads (progress : RunProgress) (id : RecordId) (name : String) (v : Value) : Prop :=
  ∃ thread ident env frames use, progress.present? = some thread ∧
    thread.focus = .eval (.lookup ident) env frames use ∧ ident.name = name ∧
    progress.world.store.resolve env name = .ok id ∧
    thread.move progress.world =
      .goOn progress.world ⟨.value v frames use, thread.body, thread.callers⟩

/-- The present task uses a name in vain: that the name has no value yet, or that it is a constant
that has one, is a fault. -/
def Refuses (progress : RunProgress) (name : String) : Prop :=
  ∃ thread site fault, progress.present? = some thread ∧ Slot.IsRefusal name fault ∧
    thread.move progress.world =
      Thread.raise progress.world thread.body thread.callers site fault

variable {progress : RunProgress}

theorem Writes.assigns (h : progress.Writes id name v) : progress.Assigns id name v := by
  obtain ⟨thread, world, hpresent, hacts, -⟩ := h
  exact ⟨thread, hpresent, hacts⟩

theorem Assigns.exists_slot (h : progress.Assigns id name v) :
    ∃ slot, progress.world.store.slot? id name = some slot := by
  obtain ⟨thread, -, stmt, env, -, hresolve⟩ := h
  exact Store.hasName_iff.1 (Store.mem_chain_of_resolve hresolve).2

/-- A constant can be written only while it is unset. -/
theorem Writes.eq_unset (h : progress.Writes id name v)
    (hslot : progress.world.store.slot? id name = some slot) (hkind : slot.kind = .constant) :
    slot = .unset := by
  obtain ⟨thread, world, hpresent, hacts, hmove⟩ := h
  obtain ⟨site, hmoves⟩ := Thread.exists_move_assign hacts hslot
  cases hwrite : slot.write name v with
  | ok slot' => exact (Slot.eq_unset_of_write hkind hwrite).1
  | error fault =>
    rw [hmoves, hwrite] at hmove
    exact (Thread.goOn_next_ne_raise hmove.symm).elim

theorem Assigns.writes_of_unset (h : progress.Assigns id name v)
    (hslot : progress.world.store.slot? id name = some .unset) : progress.Writes id name v := by
  obtain ⟨thread, hpresent, hacts⟩ := h
  obtain ⟨site, hmoves⟩ := Thread.exists_move_assign hacts hslot
  exact ⟨thread, _, hpresent, hacts, hmoves⟩

theorem Assigns.refuses (h : progress.Assigns id name v)
    (hslot : progress.world.store.slot? id name = some slot) (hkind : slot.kind = .constant)
    (hset : slot ≠ .unset) : progress.Refuses name := by
  obtain ⟨thread, hpresent, hacts⟩ := h
  obtain ⟨site, hmoves⟩ := Thread.exists_move_assign hacts hslot
  cases hwrite : slot.write name v with
  | ok slot' => exact (hset (Slot.eq_unset_of_write hkind hwrite).1).elim
  | error fault =>
    rw [hwrite] at hmoves
    exact ⟨thread, site, fault, hpresent, Slot.isRefusal_of_write hwrite, hmoves⟩

/-- A look-up gets the value of a name, or is a fault if there is none. -/
theorem LooksUp.reads_iff (h : progress.LooksUp id name)
    (hslot : progress.world.store.slot? id name = some slot) :
    (∀ v, progress.Reads id name v ↔ slot.read name false = .ok v) ∧
      ((∃ v, progress.Reads id name v) ∨ progress.Refuses name) := by
  obtain ⟨thread, ident, env, frames, use, hpresent, hfocus, rfl, hresolve⟩ := h
  have hmove := Thread.move_lookup hfocus hresolve hslot
  cases hread : slot.read ident.name false with
  | ok w =>
    rw [hread] at hmove
    have hreads : progress.Reads id ident.name w :=
      ⟨thread, ident, env, frames, use, hpresent, hfocus, rfl, hresolve, hmove⟩
    refine ⟨fun v ↦ ⟨fun hv ↦ ?_, fun hv ↦ ?_⟩, .inl ⟨w, hreads⟩⟩
    · obtain ⟨other, -, -, frames', use', hpresent', -, -, -, hmove'⟩ := hv
      obtain rfl := Option.some.inj (hpresent.symm.trans hpresent')
      cases hmove.symm.trans hmove'
      rfl
    · cases hv
      exact hreads
  | error fault =>
    rw [hread] at hmove
    refine ⟨fun v ↦ ⟨fun hv ↦ ?_, fun hv ↦ by cases hv⟩,
      .inr ⟨thread, _, fault, hpresent, Slot.isRefusal_of_read hread, hmove⟩⟩
    obtain ⟨other, -, -, frames', use', hpresent', -, -, -, hmove'⟩ := hv
    obtain rfl := Option.some.inj (hpresent.symm.trans hpresent')
    exact (Thread.goOn_value_ne_raise (hmove'.symm.trans hmove)).elim

end Progress

/-! ### Whole runs -/

namespace Program

variable {text : List Char} {verbose : Bool} {queue : TurnQueue Thread} {i j k : Nat}

theorem slot?_succ_of_writes (h : (program.moment verbose queue k).Writes id name v)
    (hslot : (program.moment verbose queue k).world.store.slot? id name = some slot)
    (hkind : slot.kind = .constant) :
    (program.moment verbose queue (k + 1)).world.store.slot? id name =
      some (.constant v false) := by
  obtain rfl := h.eq_unset hslot hkind
  obtain ⟨thread, world, hpresent, hacts, -⟩ := h
  obtain ⟨site, hmove⟩ := Thread.exists_move_assign hacts hslot
  rw [store_moment_succ hpresent, hmove]
  change Store.slot? (Store.setSlot _ id name (.constant v false)) id name = _
  rw [Store.slot?_setSlot, if_pos ⟨rfl, rfl⟩, hslot]
  rfl

/-- A constant keeps the value that has been written. -/
theorem slot?_of_writes (hread : Program.read text = .program program)
    (h : (program.moment verbose queue i).Writes id name v) (hlt : i < k)
    (hslot : (program.moment verbose queue k).world.store.slot? id name = some slot)
    (hkind : slot.kind = .constant) : slot = .constant v false := by
  obtain ⟨old, hold⟩ := h.assigns.exists_slot
  obtain ⟨now, hnow, hbecomes⟩ := (becomes_moment hread (Nat.le_of_lt hlt)).slot hold
  obtain rfl := Option.some.inj (hslot.symm.trans hnow)
  have hset := slot?_succ_of_writes h hold (hbecomes.kind_eq.symm.trans hkind)
  obtain ⟨now, hnow', rfl⟩ := (becomes_moment hread hlt).slot hset
  exact Option.some.inj (hslot.symm.trans hnow')

/-- A constant that was unset and has a value got it by an assignment. -/
theorem exists_writes (hread : Program.read text = .program program) (hle : j ≤ k)
    (hunset : (program.moment verbose queue j).world.store.slot? id name = some .unset)
    (hset : (program.moment verbose queue k).world.store.slot? id name =
      some (.constant v false)) : ∃ i < k, (program.moment verbose queue i).Writes id name v := by
  induction k, hle using Nat.le_induction with
  | base => cases hunset.symm.trans hset
  | succ k hle ih =>
    obtain ⟨act, dues, hacts, hchange, -⟩ := exists_change_moment hread verbose queue k
    obtain ⟨slot, hslot, hbecomes⟩ := (becomes_moment hread hle).slot hunset
    obtain rfl | ⟨w, rfl⟩ := hbecomes
    · -- the value comes of the last move
      obtain hstill | ⟨w, rfl, hwritten⟩ := hchange.unset_cases hslot
      · cases hstill.symm.trans hset
      · cases hwritten.symm.trans hset
        exact ⟨k, Nat.lt_succ_self k, Progress.Assigns.writes_of_unset hacts hslot⟩
    · obtain ⟨slot, hslot', rfl⟩ := hchange.becomes.slot hslot
      cases hslot'.symm.trans hset
      obtain ⟨i, hlt, hwrites⟩ := ih hslot
      exact ⟨i, Nat.lt_succ_of_lt hlt, hwrites⟩

/-- A constant that is declared without a value is unset as long as nothing has been written. -/
theorem eq_unset_iff (hread : Program.read text = .program program) (hle : j ≤ k)
    (hunset : (program.moment verbose queue j).world.store.slot? id name = some .unset)
    (hslot : (program.moment verbose queue k).world.store.slot? id name = some slot) :
    slot = .unset ↔ ∀ i < k, ∀ v, ¬ (program.moment verbose queue i).Writes id name v := by
  obtain ⟨now, hnow, hbecomes⟩ := (becomes_moment hread hle).slot hunset
  obtain rfl := Option.some.inj (hslot.symm.trans hnow)
  constructor
  · rintro rfl i hlt v h
    cases slot?_of_writes hread h hlt hslot rfl
  · intro hnone
    obtain rfl | ⟨v, rfl⟩ := hbecomes
    · rfl
    · obtain ⟨i, hlt, h⟩ := exists_writes hread hle hunset hslot
      exact (hnone i hlt v h).elim

/-- What is read is what has been written. -/
theorem reads_iff_exists_writes (hread : Program.read text = .program program) (hle : j ≤ k)
    (hunset : (program.moment verbose queue j).world.store.slot? id name = some .unset)
    (hslot : (program.moment verbose queue k).world.store.slot? id name = some slot)
    (hlooks : (program.moment verbose queue k).LooksUp id name) (v : Value) :
    (program.moment verbose queue k).Reads id name v ↔
      ∃ i < k, (program.moment verbose queue i).Writes id name v := by
  obtain ⟨now, hnow, hbecomes⟩ := (becomes_moment hread hle).slot hunset
  obtain rfl := Option.some.inj (hslot.symm.trans hnow)
  rw [(hlooks.reads_iff hslot).1 v]
  constructor
  · intro hv
    obtain rfl | ⟨w, rfl⟩ := hbecomes
    · cases hv
    · cases hv
      exact exists_writes hread hle hunset hslot
  · rintro ⟨i, hlt, h⟩
    obtain rfl := slot?_of_writes hread h hlt hslot hbecomes.kind_eq
    rfl

/-- The next move leaves all records as they are. -/
def KeepsRecords (program : Program) (verbose : Bool) (queue : TurnQueue Thread) (k : Nat) : Prop :=
  ∀ (id : RecordId) (record : Record),
    (program.moment verbose queue k).world.store.records[id]? = some record →
      (program.moment verbose queue (k + 1)).world.store.records[id]? = some record

theorem keepsRecords_of_refuses (h : (program.moment verbose queue k).Refuses name) :
    program.KeepsRecords verbose queue k := by
  intro id record hrecord
  obtain ⟨thread, site, fault, hpresent, -, hmove⟩ := h
  rw [store_moment_succ hpresent, hmove]
  exact Thread.getElem?_records_raise hrecord

/-- The entry of a name as it is when its record is made. -/
theorem exists_start (hread : Program.read text = .program program)
    (hslot : (program.moment verbose queue k).world.store.slot? id name = some slot) :
    ∃ j first start, j ≤ k ∧ program.Born verbose queue j id first ∧ first.names.Nodup ∧
      first.slot? name = some start ∧ start.Becomes slot ∧
      ((id = globalRecord ∧ ∃ v, start = .mutable v true) ∨
        ∃ scope done item, first.Begins program scope done ∧ item ∈ done ∧ item.1.name = name ∧
          item.2.Starts start) := by
  obtain ⟨record, hrecord, hname⟩ := Option.bind_eq_some_iff.1 hslot
  obtain ⟨j, hle, first, hborn⟩ := exists_born hrecord
  have hbecomes : (program.moment verbose queue j).world.store.Becomes
      (program.moment verbose queue k).world.store := becomes_moment hread hle
  obtain ⟨record', hrecord', hnames⟩ := hbecomes.names hborn.record
  obtain rfl := Option.some.inj (hrecord.symm.trans hrecord')
  have hmem : name ∈ first.names :=
    hnames ▸ Record.isSome_slot?_iff.1 (Option.isSome_iff_exists.2 ⟨slot, hname⟩)
  obtain ⟨start, hstart⟩ := Option.isSome_iff_exists.1 (Record.isSome_slot?_iff.2 hmem)
  obtain ⟨now, hnow, hstarts⟩ :=
    hbecomes.slot (Option.bind_eq_some_iff.2 ⟨first, hborn.record, hstart⟩)
  obtain rfl := Option.some.inj (hslot.symm.trans hnow)
  have hentry := Record.exists_mem_of_slot? hstart
  obtain ⟨rfl, hinitial, -⟩ | ⟨scope, done, hbegins, -⟩ := hborn.begins hread
  · rw [Store.getElem?_records_initial] at hinitial
    obtain rfl := Option.some.inj hinitial
    refine ⟨j, _, start, hle, hborn, by decide, hstart, hstarts, .inl ⟨rfl, ?_⟩⟩
    simp only [List.mem_cons, List.not_mem_nil, or_false, Entry.mk.injEq] at hentry
    obtain ⟨-, rfl⟩ | ⟨-, rfl⟩ | ⟨-, rfl⟩ := hentry <;> exact ⟨_, rfl⟩
  · obtain ⟨item, hitem, hname, hrole⟩ := exists_item_of_starts hbegins.entries hentry
    exact ⟨j, first, start, hle, hborn, hbegins.nodup, hstart, hstarts,
      .inr ⟨scope, done, item, hbegins, hitem, hname.symm, hrole⟩⟩

/-- A constant that is declared without a value is written by one assignment at most. -/
theorem eq_of_writes (hread : Program.read text = .program program) {v' : Value}
    (hkind : ∀ {m : Nat} {slot : Slot},
      (program.moment verbose queue m).world.store.slot? id name = some slot →
        slot.kind = .constant)
    (h : (program.moment verbose queue i).Writes id name v)
    (h' : (program.moment verbose queue j).Writes id name v') : i = j ∧ v = v' := by
  have hlater {i j : Nat} {v v' : Value} (hlt : i < j)
      (h : (program.moment verbose queue i).Writes id name v)
      (h' : (program.moment verbose queue j).Writes id name v') : False := by
    obtain ⟨slot, hslot⟩ := h'.assigns.exists_slot
    obtain rfl := slot?_of_writes hread h hlt hslot (hkind hslot)
    cases h'.eq_unset hslot rfl
  obtain hlt | rfl | hlt := Nat.lt_trichotomy i j
  · exact (hlater hlt h h').elim
  · obtain ⟨thread, world, hpresent, ⟨stmt, env, hfocus, -⟩, -⟩ := h
    obtain ⟨other, world', hpresent', ⟨stmt', env', hfocus', -⟩, -⟩ := h'
    obtain rfl := Option.some.inj (hpresent.symm.trans hpresent')
    cases hfocus.symm.trans hfocus'
    exact ⟨rfl, rfl⟩
  · exact (hlater hlt h' h).elim

/-- The history of any entry of any record. It begins as its role asks for when the record is made,
a constant without a value. A variable has a value at every moment. A constant changes at most once,
when it gets its value. An assignment to it succeeds only while it is unset; any other is refused
and leaves all records as they are. If it is declared without a value, at most one assignment
succeeds in the whole run, and a look-up gets a value exactly if that assignment has been made, and
gets the value that was assigned. -/
theorem entries_written_once (hread : Program.read text = .program program)
    (hslot : (program.moment verbose queue k).world.store.slot? id name = some slot) :
    ∃ j first start, j ≤ k ∧ program.Born verbose queue j id first ∧ first.names.Nodup ∧
      first.slot? name = some start ∧ start.Becomes slot ∧
      ((id = globalRecord ∧ ∃ v, start = .mutable v true) ∨
        ∃ scope done item, first.Begins program scope done ∧ item ∈ done ∧ item.1.name = name ∧
          item.2.Starts start) ∧
      (∀ m, k ≤ m → ∃ later,
        (program.moment verbose queue m).world.store.slot? id name = some later ∧
          slot.Becomes later) ∧
      (start.kind = .mutable → slot.value?.isSome) ∧
      (start.kind = .constant → start.value? = none ∧
        ∀ v, (program.moment verbose queue k).Assigns id name v →
          (slot = .unset ∧ (program.moment verbose queue k).Writes id name v) ∨
            (program.moment verbose queue k).Refuses name ∧
              program.KeepsRecords verbose queue k) ∧
      (start = .unset →
        (slot = .unset ↔ ∀ i < k, ∀ v, ¬ (program.moment verbose queue i).Writes id name v) ∧
        ((program.moment verbose queue k).LooksUp id name →
          (∀ v, (program.moment verbose queue k).Reads id name v ↔
            ∃ i < k, (program.moment verbose queue i).Writes id name v) ∧
          ((∃ v, (program.moment verbose queue k).Reads id name v) ∨
            (program.moment verbose queue k).Refuses name)) ∧
        ∀ i i' v v', (program.moment verbose queue i).Writes id name v →
          (program.moment verbose queue i').Writes id name v' → i = i' ∧ v = v') := by
  obtain ⟨j, first, start, hle, hborn, hnodup, hstart, hbecomes, hrole⟩ := exists_start hread hslot
  have hborn' : (program.moment verbose queue j).world.store.slot? id name = some start :=
    Option.bind_eq_some_iff.2 ⟨first, hborn.record, hstart⟩
  refine ⟨j, first, start, hle, hborn, hnodup, hstart, hbecomes, hrole, fun m hm ↦ ?_,
    hbecomes.isSome_value?, fun hkind ↦ ⟨?_, fun v hassigns ↦ ?_⟩, ?_⟩
  · exact (becomes_moment hread hm).slot hslot
  · obtain ⟨-, v, rfl⟩ | ⟨scope, done, item, -, -, -, hstarts⟩ := hrole
    · cases hkind
    · exact Role.value?_of_starts hstarts hkind
  · by_cases hunset : slot = .unset
    · exact .inl ⟨hunset, hassigns.writes_of_unset (hunset ▸ hslot)⟩
    · have hrefuses := hassigns.refuses hslot (hbecomes.kind_eq.trans hkind) hunset
      exact .inr ⟨hrefuses, keepsRecords_of_refuses hrefuses⟩
  · rintro rfl
    have hkind {m : Nat} {slot : Slot}
        (h : (program.moment verbose queue m).world.store.slot? id name = some slot) :
        slot.kind = .constant := by
      obtain ⟨record, hrecord, -⟩ := Option.bind_eq_some_iff.1 h
      have hm : j ≤ m := by
        refine Nat.not_lt.1 fun hlt ↦ ?_
        cases (hborn.before m hlt).symm.trans hrecord
      obtain ⟨now, hnow, hbecomes⟩ := (becomes_moment hread hm).slot hborn'
      obtain rfl := Option.some.inj (h.symm.trans hnow)
      exact hbecomes.kind_eq
    refine ⟨eq_unset_iff hread hle hborn' hslot, fun hlooks ↦ ?_,
      fun i i' v v' h h' ↦ eq_of_writes hread hkind h h'⟩
    exact ⟨reads_iff_exists_writes hread hle hborn' hslot hlooks, (hlooks.reads_iff hslot).2⟩

/-- A spawned task writes a constant, which the program reads after it has paused. -/
theorem entries_written_once_across_tasks : ∃ program slot,
    Program.read "const c; function f() \x7b c = 1; \x7d spawn f; pause; print c;".toList =
        .program program ∧
      (program.moment false .empty 23).world.store.slot? 1 "c" = some slot ∧
      (program.moment false .empty 23).LooksUp 1 "c" ∧
      ∃ v, (program.moment false .empty 23).Reads 1 "c" v ∧
        ∃ i < 23, (program.moment false .empty i).Writes 1 "c" v := by
  have hrun : ((ofText?
        "const c; function f() { c = 1; } spawn f; pause; print c;".toList).bind fun program ↦
      ((program.moment false .empty 23).world.store.slot? 1 "c").map fun slot ↦
        ((program.moment false .empty 23).looksUp?, slot.kind, slot.initialized,
          slot.value?.isSome)) = some (some (1, "c"), .constant, false, true) := by
    decide +kernel
  obtain ⟨program, htext, hrun⟩ := Option.bind_eq_some_iff.1 hrun
  obtain ⟨slot, hslot, hrun⟩ := Option.map_eq_some_iff.1 hrun
  obtain ⟨hlooks, hkind, hinitialized, hvalue⟩ := by simpa only [Prod.mk.injEq] using hrun
  have hread := read_of_ofText? htext
  have hlooks := Progress.looksUp_of_looksUp? hlooks
  cases slot with
  | constant v initialized =>
    obtain rfl : initialized = false := hinitialized
    obtain ⟨j, first, start, -, -, -, -, hbecomes, -, -, -, hconst, hunset⟩ :=
      entries_written_once hread hslot
    obtain rfl := hbecomes.eq_unset (hconst hbecomes.kind_eq.symm).1
    obtain ⟨-, hreads, -⟩ := hunset rfl
    have hv := ((hlooks.reads_iff hslot).1 v).2 rfl
    exact ⟨program, _, hread, hslot, hlooks, v, hv, ((hreads hlooks).1 v).1 hv⟩
  | mutable v initialized => cases hkind
  | _ => cases hvalue

end Program

end LateConst
