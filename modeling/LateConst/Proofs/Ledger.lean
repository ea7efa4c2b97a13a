import LateConst.Proofs.Scoping.Move

/-!
# What is still owed to the declarations

A thread owes something to every declaration in front of it: the statement itself is to be executed
once, and each name that it initializes is to get its value once, in the one record for it. `Due`
lists these debts, and `Change` lists all that a move can do to the store and to the debts of its
thread: it enters scopes, it lets a declaration give a name its value, or it assigns to a name.

As long as the debts agree with the store (`Store.Owes`) no declaration can fail.
-/

namespace LateConst

/-! ### Records of new scopes -/

/-- A name of this role can begin in this state when its scope is entered. -/
def Role.Starts (slot : Slot) : Role → Prop
  | parameter => ∃ v, slot = .mutable v true
  | function => ∃ v, slot = .mutable v true
  | caught => ∃ v, slot = .mutable v true
  | mutable => slot = .mutable .undefined false
  | constant true => slot = .awaiting
  | constant false => slot = .unset

def Entry.Starts (item : Ident × Role) (entry : Entry) : Prop :=
  entry.name = item.1.name ∧ item.2.Starts entry.slot

/-- A new record of a scope of the program, with the declarations that have been made in it: all of
the scope, or those before the first that declares a name again. -/
structure Record.Begins (program : Program) (record : Record) (scope : Scope)
    (done : List (Ident × Role)) : Prop where
  opens : ∃ outer, program.Opens (scope :: outer)
  declared : done <+: scope.declared
  nodup : record.names.Nodup
  entries : List.Forall₂ Entry.Starts done record.entries

/-! ### Debts -/

/-- The declaration of this name has not given it a value. -/
def Slot.IsOpen : Slot → Prop
  | mutable _ initialized => initialized = false
  | awaiting => True
  | _ => False

theorem Slot.IsOpen.exists_define {slot : Slot} (h : slot.IsOpen) (name : String) (v : Value) :
    ∃ slot', slot.define name v = .ok slot' := by
  cases slot with
  | mutable value initialized =>
    obtain rfl := h
    exact ⟨_, rfl⟩
  | awaiting => exact ⟨_, rfl⟩
  | _ => exact h.elim

/-- Something that is still to be done in a record, once. -/
inductive Due where
  /-- A declaration is to be executed. -/
  | statement (env : RecordId) (s : Stmt)
  /-- A name is to get its initial value. -/
  | value (env : RecordId) (name : String)

def Due.env : Due → RecordId
  | statement env _ => env
  | value env _ => env

def Declarator.dues (env : RecordId) (item : Declarator) : List Due :=
  item.init.toList.map fun _ ↦ .value env item.ident.name

def Ident.due (env : RecordId) (ident : Ident) : Due := .value env ident.name

def Stmt.dues (env : RecordId) : Stmt → List Due
  | s@(.declare _ items _) => .statement env s :: items.flatMap (Declarator.dues env)
  | s@(.destructure _ idents _ _) => .statement env s :: idents.map (Ident.due env)
  | _ => []

def Use.dues : Use → List Due
  | .declare _ name rest env => .value env name :: rest.flatMap (Declarator.dues env)
  | .destructure _ idents env => idents.map (Ident.due env)
  | .loopVariable name _ env => [.value env name]
  | _ => []

def Use.Defines : Use → Prop
  | .declare _ _ _ _ => True
  | .destructure _ _ _ => True
  | .loopVariable _ _ _ => True
  | _ => False

def StmtFrame.dues : StmtFrame → List Due
  | .sequence rest env => rest.flatMap (Stmt.dues env)
  | _ => []

def Caller.dues (caller : Caller) : List Due :=
  caller.use.dues ++ caller.body.flatMap StmtFrame.dues

def Focus.dues : Focus → List Due
  | .eval _ _ _ use => use.dues
  | .value _ _ use => use.dues
  | .exec s env => s.dues env
  | _ => []

/-- What is owed by the statements around a point and by the callers. -/
def Thread.duesAround (body : List StmtFrame) (callers : List Caller) : List Due :=
  body.flatMap StmtFrame.dues ++ callers.flatMap Caller.dues

def Thread.dues (thread : Thread) : List Due :=
  thread.focus.dues ++ duesAround thread.body thread.callers

/-! ### Changes -/

/-- What a move does, as far as names are concerned. -/
inductive Act where
  /-- It enters scopes, or has nothing to do with names. -/
  | enter
  /-- A declaration gives names their initial values. -/
  | define
  | assign (id : RecordId) (name : String) (value : Value)

def Due.FitsIn (id : RecordId) (record : Record) : Due → Prop
  | statement env _ => env = id
  | value env name => env = id ∧ ∃ slot, record.slot? name = some slot ∧ slot.IsOpen

theorem Due.FitsIn.env_eq {id : RecordId} {record : Record} {due : Due}
    (h : due.FitsIn id record) : due.env = id := by
  cases due with
  | statement env s => exact h
  | value env name => exact h.1

/-- All that a move can do to the store and to the debts of its thread. -/
inductive Change (program : Program) : Act → Store → List Due → Store → List Due → Prop
  | keep {act : Act} {store store' : Store} {dues dues' : List Due}
      (hrecords : store'.records = store.records) (hdues : dues'.Sublist dues) :
      Change program act store dues store' dues'
  | enter {store store' : Store} {dues new : List Due} {record : Record} {scope : Scope}
      {done : List (Ident × Role)} (hrecords : store'.records = store.records.push record)
      (hrecord : record.Begins program scope done) (hnodup : new.Nodup)
      (hnew : ∀ due ∈ new, due.FitsIn store.records.size record)
      (hstatements : ∀ env s, .statement env s ∈ new →
        done = scope.declared ∧ s ∈ scope.statements) :
      Change program .enter store dues store' (new ++ dues)
  | define {store : Store} {dues : List Due} {env : RecordId} {name : String} {v : Value}
      {slot slot' : Slot} (hslot : store.slot? env name = some slot) (hopen : slot.IsOpen)
      (hdefine : slot.define name v = .ok slot') :
      Change program .define store (.value env name :: dues) (store.setSlot env name slot') dues
  | assign {store : Store} {dues : List Due} {id : RecordId} {name : String} {v : Value}
      {slot slot' : Slot} (hslot : store.slot? id name = some slot)
      (hwrite : slot.write name v = .ok slot') :
      Change program (.assign id name v) store dues (store.setSlot id name slot') dues
  | trans {act : Act} {store store' store'' : Store} {dues dues' dues'' : List Due}
      (h : Change program act store dues store' dues')
      (h' : Change program act store' dues' store'' dues'') :
      Change program act store dues store'' dues''

/-- The error is no breach of a rule of the interpreter. -/
def RunError.IsHarmless : RunError → Prop
  | .uncaught _ _ => True
  | .crash c => c.IsLimit

/-- What comes of a move is a change of the store and of the debts of its thread. -/
def Move.Does (program : Program) (act : Act) (store : Store) (dues : List Due) :
    ThreadMove → Prop
  | .goOn world thread => Change program act store dues world.store thread.dues
  | .spawn world _ new thread =>
    new.dues = [] ∧ Change program act store dues world.store thread.dues
  | .pause world thread => Change program act store dues world.store thread.dues
  | .finish world => Change program act store dues world.store []
  | .abandonOthers _ _ => False
  | .fail world error => error.IsHarmless ∧ Change program act store dues world.store []

/-! ### Debts that agree with the store -/

def Store.Fits (store : Store) (due : Due) : Prop :=
  ∃ record, store.records[due.env]? = some record ∧ due.FitsIn due.env record

/-- All debts are different, and each of them can be settled. -/
structure Store.Owes (store : Store) (dues : List Due) : Prop where
  nodup : dues.Nodup
  fits : ∀ due ∈ dues, store.Fits due

namespace Store

variable {store store' : Store} {dues dues' new : List Due} {env id : RecordId} {name : String}
  {v : Value} {slot slot' : Slot}

theorem fits_value_iff :
    store.Fits (.value env name) ↔ ∃ slot, store.slot? env name = some slot ∧ slot.IsOpen := by
  constructor
  · rintro ⟨record, hrecord, -, slot, hslot, hopen⟩
    exact ⟨slot, Option.bind_eq_some_iff.2 ⟨record, hrecord, hslot⟩, hopen⟩
  · rintro ⟨slot, hslot, hopen⟩
    obtain ⟨record, hrecord, hslot⟩ := Option.bind_eq_some_iff.1 hslot
    exact ⟨record, hrecord, rfl, slot, hslot, hopen⟩

theorem Fits.lt_size {due : Due} (h : store.Fits due) : due.env < store.records.size := by
  obtain ⟨record, hrecord, -⟩ := h
  exact (Array.getElem?_eq_some_iff.1 hrecord).1

theorem Owes.sublist (h : store.Owes dues) (hsub : dues'.Sublist dues) : store.Owes dues' :=
  ⟨h.nodup.sublist hsub, fun due hdue ↦ h.fits due (hsub.subset hdue)⟩

/-! ### Settling debts -/

theorem Owes.of_records_eq (h : store.Owes dues) (hrecords : store'.records = store.records) :
    store'.Owes dues := by
  refine ⟨h.nodup, fun due hdue ↦ ?_⟩
  rw [Fits, hrecords]
  exact h.fits due hdue

/-- New debts all belong to the new record. -/
theorem Owes.push {record : Record} (h : store.Owes dues)
    (hrecords : store'.records = store.records.push record) (hnodup : new.Nodup)
    (hnew : ∀ due ∈ new, due.FitsIn store.records.size record) : store'.Owes (new ++ dues) := by
  have henv (due : Due) (hdue : due ∈ new) : due.env = store.records.size :=
    (hnew due hdue).env_eq
  refine ⟨List.nodup_append.2 ⟨hnodup, h.nodup, ?_⟩, fun due hdue ↦ ?_⟩
  · intro due hdue other hold heq
    have hlt := (h.fits other hold).lt_size
    rw [← heq, henv due hdue] at hlt
    exact Nat.lt_irrefl _ hlt
  · obtain hdue | hold := List.mem_append.1 hdue
    · refine ⟨record, ?_, henv due hdue ▸ hnew due hdue⟩
      rw [hrecords, henv due hdue, Array.getElem?_push_size]
    · obtain ⟨old, hrecord, hfits⟩ := h.fits due hold
      refine ⟨old, ?_, hfits⟩
      have hlt := (h.fits due hold).lt_size
      rw [hrecords, Array.getElem?_push, if_neg (Nat.ne_of_lt hlt), hrecord]

/-- A debt outlives a new state of a name if the state is as open as before, or the debt is not
about the name. -/
theorem Fits.setSlot {due : Due} (h : store.Fits due)
    (hopen : due = .value id name → slot.IsOpen) : (store.setSlot id name slot).Fits due := by
  cases due with
  | statement env s =>
    obtain ⟨record, hrecord, -⟩ := h
    obtain ⟨new, hnew, -⟩ : ∃ new, (store.setSlot id name slot).records[env]? = some new ∧
        new.outer = record.outer ∧ new.names = record.names :=
      exists_getElem?_records_setSlot hrecord
    exact ⟨new, hnew, rfl⟩
  | value env other =>
    obtain ⟨old, hold, hopenOld⟩ := fits_value_iff.1 h
    rw [fits_value_iff, slot?_setSlot]
    split
    next heq =>
      obtain ⟨rfl, rfl⟩ := heq
      rw [hold]
      exact ⟨slot, rfl, hopen rfl⟩
    next => exact ⟨old, hold, hopenOld⟩

theorem Owes.define (h : store.Owes (.value env name :: dues)) :
    (store.setSlot env name slot).Owes dues := by
  obtain ⟨hmem, hnodup⟩ := List.nodup_cons.1 h.nodup
  refine ⟨hnodup, fun due hdue ↦ ?_⟩
  refine (h.fits due (List.mem_cons_of_mem _ hdue)).setSlot ?_
  rintro rfl
  exact (hmem hdue).elim

theorem Owes.assign (h : store.Owes dues) (hslot : store.slot? id name = some slot)
    (hwrite : slot.write name v = .ok slot') : (store.setSlot id name slot').Owes dues := by
  refine ⟨h.nodup, fun due hdue ↦ (h.fits due hdue).setSlot ?_⟩
  rintro rfl
  obtain ⟨old, hold, hopen⟩ := fits_value_iff.1 (h.fits _ hdue)
  obtain rfl := Option.some.inj (hslot.symm.trans hold)
  cases slot with
  | mutable value initialized =>
    cases hwrite
    exact hopen
  | awaiting => cases hwrite
  | _ => exact hopen.elim

/-- No change brings the debts into disagreement with the store. -/
theorem Owes.change {program : Program} {act : Act} (h : store.Owes dues)
    (hchange : Change program act store dues store' dues') : store'.Owes dues' := by
  induction hchange with
  | keep hrecords hdues => exact (h.sublist hdues).of_records_eq hrecords
  | enter hrecords hrecord hnodup hnew => exact h.push hrecords hnodup hnew
  | define hslot hopen hdefine => exact h.define
  | assign hslot hwrite => exact h.assign hslot hwrite
  | trans _ _ ih ih' => exact ih' (ih h)

end Store

/-- Whatever is owed by others stays out of a change. -/
theorem Change.frame {program : Program} {act : Act} {store store' : Store} {dues dues' : List Due}
    (h : Change program act store dues store' dues') (others : List Due) :
    Change program act store (dues ++ others) store' (dues' ++ others) := by
  induction h with
  | keep hrecords hdues => exact .keep hrecords (hdues.append (.refl others))
  | enter hrecords hrecord hnodup hnew hstatements =>
    rw [List.append_assoc]
    exact .enter hrecords hrecord hnodup hnew hstatements
  | define hslot hopen hdefine => exact .define hslot hopen hdefine
  | assign hslot hwrite => exact .assign hslot hwrite
  | trans _ _ ih ih' => exact ih.trans ih'

end LateConst
