import LateConst.Proofs.Scoping.Run

/-!
# What the entry of a scope declares

`Stmt.declarations` lists the names that a statement declares in the scope it stands in, each with
the form of its declaration, and `Declaration.Begins` is the state that the form promises. Entering
a scope keeps these promises one after the other, in a record that may hold other names before, and
stops at the first name that is there already (`Store.hoistBody_declares`).
-/

namespace LateConst

/-! ### Declarations -/

inductive Declaration where
  /-- By an item of a `const` or `let`. -/
  | item (kind : Kind) (declarator : Declarator)
  /-- By a pattern, which gives the name one element of an array. -/
  | element (kind : Kind) (ident : Ident)
  | function (ident : Ident) (params : List Ident) (body : List Stmt) (span : Span)

/-- The declarations that stand directly in a scope. What is inside of a block, a branch, a loop, a
handler or a function belongs to another one. -/
def Stmt.declarations : Stmt → List Declaration
  | .declare kind items _ => items.map (.item kind)
  | .destructure kind idents _ _ => idents.map (.element kind)
  | .function ident params body span => [.function ident params body span]
  | .block _ | .branch _ _ _ _ | .whileLoop _ _ _ | .forOf _ _ _ _ _ | .tryCatch _ _ _ _ => []
  | .assign _ _ _ | .expr _ _ | .print _ _ | .ret _ _ | .pause _ | .spawn _ _ | .throw _ _ => []

/-- The state of a name whose `const` or `let` has not been executed. -/
structure Slot.Begins (kind : Kind) (hasInitializer : Bool) (slot : Slot) : Prop where
  kind_eq : slot.kind = kind
  value?_eq : slot.value? = if kind = .mutable then some .undefined else none
  initialized_eq : slot.initialized = false
  isAwaiting_iff : slot.isAwaiting ↔ kind = .constant ∧ hasInitializer

theorem Slot.begins_declared (kind : Kind) (hasInitializer : Bool) :
    (declared kind hasInitializer).Begins kind hasInitializer := by
  cases kind with
  | mutable => exact ⟨rfl, rfl, rfl, by simp [declared, isAwaiting]⟩
  | constant => cases hasInitializer <;> exact ⟨rfl, rfl, rfl, by simp [declared, isAwaiting]⟩

namespace Declaration

def ident : Declaration → Ident
  | item _ declarator => declarator.ident
  | element _ ident => ident
  | function ident _ _ _ => ident

def name (d : Declaration) : String := d.ident.name

/-- The state that a declaration promises for its name when its scope is entered with this record.
A function can be called at once and looks up its names in this very record. -/
def Begins (id : RecordId) (slot : Slot) : Declaration → Prop
  | item kind declarator => slot.Begins kind declarator.init.isSome
  | element kind _ => slot.Begins kind true
  | function ident params body span =>
    slot.kind = .mutable ∧ slot.initialized ∧ ∃ ref,
      slot.value? = some (.function ref (.closure ⟨some ident, params, body, span⟩ id))

/-- An entry is the one that a declaration promises. -/
structure Makes (id : RecordId) (d : Declaration) (entry : Entry) : Prop where
  name_eq : entry.name = d.name
  begins : d.Begins id entry.slot

def hoisted : Declaration → Ident × Hoisted
  | item kind declarator => (declarator.ident, .slot (.declared kind declarator.init.isSome))
  | element kind ident => (ident, .slot (.declared kind true))
  | function ident params body span => (ident, .function ⟨some ident, params, body, span⟩)

@[simp]
theorem fst_hoisted (d : Declaration) : d.hoisted.1 = d.ident := by
  cases d <;> rfl

theorem makes_of_hoisted {id : RecordId} {d : Declaration} {entry : Entry}
    (h : Entry.Of id d.hoisted entry) : d.Makes id entry := by
  obtain ⟨hname, hmakes⟩ := h
  refine ⟨hname.trans (congrArg Ident.name d.fst_hoisted), ?_⟩
  generalize entry.slot = slot at hmakes ⊢
  cases d with
  | item kind declarator =>
    cases hmakes
    exact Slot.begins_declared kind declarator.init.isSome
  | element kind ident =>
    cases hmakes
    exact Slot.begins_declared kind true
  | function ident params body span =>
    cases hmakes
    exact ⟨rfl, rfl, _, rfl⟩

theorem map_name_of_makes {id : RecordId} {declarations : List Declaration} {made : List Entry}
    (h : List.Forall₂ (Makes id) declarations made) :
    made.map Entry.name = declarations.map name := by
  induction h with
  | nil => rfl
  | cons hmakes _ ih => rw [List.map_cons, List.map_cons, ih, hmakes.name_eq]

end Declaration

theorem Stmt.hoisted_eq_map_declarations (s : Stmt) :
    s.hoisted = s.declarations.map Declaration.hoisted := by
  cases s <;> simp [hoisted, declarations, Declaration.hoisted, Function.comp_def]

/-! ### Entering a scope -/

namespace Store

variable {store store' : Store} {id : RecordId} {record : Record}

/-- A record has got the entries that declarations promise, in their order and after those that it
had, and nothing else has changed. -/
def Declares (store : Store) (id : RecordId) (declarations : List Declaration) (store' : Store) :
    Prop :=
  ∃ made, List.Forall₂ (Declaration.Makes id) declarations made ∧
    store'.records = store.records.modify id (fun record ↦
      { record with entries := record.entries ++ made }) ∧
    store'.arrays = store.arrays

/-- The names that declarations declare are different from each other and from those of a record. -/
def AreNew (record : Record) (declarations : List Declaration) : Prop :=
  (declarations.map Declaration.name).Nodup ∧
    ∀ d ∈ declarations, d.name ∉ record.names

theorem AreNew.not_mem_of_append {before after : List Declaration} {d : Declaration}
    (h : AreNew record (before ++ d :: after)) :
    d.name ∉ record.names ++ before.map Declaration.name := by
  obtain ⟨hnodup, hnew⟩ := h
  rw [List.map_append, List.map_cons] at hnodup
  intro hmem
  obtain hmem | hmem := List.mem_append.1 hmem
  · exact hnew d (List.mem_append_right _ List.mem_cons_self) hmem
  · exact (List.nodup_append.1 hnodup).2.2 _ hmem _ List.mem_cons_self rfl

/-- Entering a scope makes entries for its declarations, up to the first of a name that is there
already. -/
theorem exists_stop_of_hoistBody (h : store.records[id]? = some record) (body : List Stmt) :
    ∃ before rest, body.flatMap Stmt.declarations = before ++ rest ∧ AreNew record before ∧
      store.Declares id before (store.hoistBody id body).1 ∧
      (store.hoistBody id body).2 = rest.head?.map Declaration.ident ∧
      ∀ d ∈ rest.head?, d.name ∈ record.names ++ before.map Declaration.name := by
  have hbody : body.flatMap Stmt.hoisted =
      (body.flatMap Stmt.declarations).map Declaration.hoisted := by
    rw [List.map_flatMap]
    exact congrArg (body.flatMap ·) (funext Stmt.hoisted_eq_map_declarations)
  rw [hoistBody]
  obtain ⟨done, rest, made, hitems, hmade, hrecords, harrays, hnodup, hnew, hstop, hthere⟩ :=
    exists_stop_of_hoist h (body.flatMap Stmt.hoisted)
  obtain ⟨before, after, hdeclarations, rfl, rfl⟩ :=
    List.map_eq_append_iff.1 (hbody.symm.trans hitems)
  have hmakes : List.Forall₂ (Declaration.Makes id) before made :=
    (List.forall₂_map_left_iff.1 hmade).imp fun _ _ ↦ Declaration.makes_of_hoisted
  have hnames : made.map Entry.name = before.map Declaration.name := by
    rw [map_name_of_made hmade]
    simp [Declaration.name]
  rw [hnames] at hnodup hnew hthere
  refine ⟨before, after, hdeclarations, ⟨hnodup, fun d hd ↦ hnew _ (List.mem_map_of_mem hd)⟩,
    ⟨made, hmakes, hrecords, harrays⟩, ?_, fun d hd ↦ ?_⟩
  · rw [hstop, List.head?_map]
    simp [Function.comp_def]
  · have hmem := hthere d.hoisted (by simpa using ⟨d, hd, rfl⟩)
    rwa [d.fst_hoisted] at hmem

theorem hoist_append {items : List (Ident × Hoisted)} (h : store.hoist id items = (store', none))
    (more : List (Ident × Hoisted)) : store.hoist id (items ++ more) = store'.hoist id more := by
  induction items generalizing store with
  | nil =>
    obtain rfl : store = store' := congrArg Prod.fst h
    rfl
  | cons item items ih =>
    obtain ⟨ident, what⟩ := item
    rw [List.cons_append, hoist]
    rw [hoist] at h
    split at h
    next => cases h
    next hnew =>
      rw [if_neg hnew]
      exact ih h

theorem Declares.exists_of_mem_names {declarations : List Declaration}
    (hdeclares : store.Declares id declarations store') (h : store.records[id]? = some record)
    {record' : Record} (h' : store'.records[id]? = some record') {name : String}
    (hname : name ∈ record'.names) :
    name ∈ record.names ∨ ∃ d ∈ declarations, d.name = name := by
  obtain ⟨made, hmade, hrecords, -⟩ := hdeclares
  rw [hrecords, Array.getElem?_modify, if_pos rfl, h] at h'
  obtain rfl := Option.some.inj h'
  obtain hname | hname := List.mem_append.1 (record.names_addAll made ▸ hname)
  · exact .inl hname
  · rw [Declaration.map_name_of_makes hmade] at hname
    exact .inr (List.mem_map.1 hname)

/-- If the names that are declared directly in a list of statements are new to a record and
different from each other, entering their scope makes one entry for each of them, in the order of
the text and after the entries that were there. Otherwise it stops at the first declaration of a
name that is there already and has made exactly the entries for the declarations before it. No other
name gets into the record. A block, a function whose parameters are in the record already, or a
program that stops there raises the fault of the name and blames this declaration. -/
theorem hoistBody_declares (h : store.records[id]? = some record) (body : List Stmt) :
    (AreNew record (body.flatMap Stmt.declarations) →
      (store.hoistBody id body).2 = none ∧
        store.Declares id (body.flatMap Stmt.declarations) (store.hoistBody id body).1) ∧
    (¬ AreNew record (body.flatMap Stmt.declarations) →
      ∃ before d after, body.flatMap Stmt.declarations = before ++ d :: after ∧
        AreNew record before ∧ d.name ∈ record.names ++ before.map Declaration.name ∧
        (store.hoistBody id body).2 = some d.ident ∧
        store.Declares id before (store.hoistBody id body).1) ∧
    (∀ record', (store.hoistBody id body).1.records[id]? = some record' →
      ∀ name ∈ record'.names, name ∈ record.names ∨
        ∃ s ∈ body, ∃ d ∈ s.declarations, d.name = name) ∧
    (∀ (world : World) (frames : List StmtFrame) (callers : List Caller) (stmts : List Stmt)
      (span : Span) (env : RecordId) (entered : Store) (ident : Ident),
      (world.store.addRecord .block (some env)).2.hoistBody world.store.records.size stmts =
          (entered, some ident) →
        Thread.exec world frames callers (.block (.mk stmts span)) env =
          Thread.raise ⟨entered, world.events⟩ frames callers (some (.ident ident))
            (.duplicateName ident.name)) ∧
    (∀ (world : World) (frames : List StmtFrame) (callers : List Caller) (code : Subroutine)
      (env : RecordId) (args : List Value) (bound entered : Store) (ident : Ident),
      (world.store.addRecord .function (some env)).2.hoist world.store.records.size
          (parameters code.params args) = (bound, none) →
        bound.hoistBody world.store.records.size code.body = (entered, some ident) →
          Thread.enter world frames callers (.closure code env) args =
            Thread.raise ⟨entered, world.events⟩ frames callers (some (.ident ident))
              (.duplicateName ident.name)) ∧
    ∀ (program : Program) (verbose : Bool) (queue : TurnQueue Thread) (entered : Store)
      (ident : Ident) (k : Nat),
      (initial.addRecord .program (some globalRecord)).2.hoistBody programRecord program =
          (entered, some ident) →
        program.moment verbose queue k = .ended ⟨entered, #[]⟩ .empty
          (some (.uncaught (.duplicateName ident.name) (some (.ident ident)))) := by
  obtain ⟨before, rest, hbody, hbefore, hdeclares, hstop, hthere⟩ := exists_stop_of_hoistBody h body
  refine ⟨fun hnew ↦ ?_, fun hold ↦ ?_, fun record' h' name hname ↦ ?_, ?_, ?_, ?_⟩
  · cases rest with
    | nil =>
      rw [List.append_nil] at hbody
      rw [hbody]
      exact ⟨hstop, hdeclares⟩
    | cons d after =>
      rw [hbody] at hnew
      exact (hnew.not_mem_of_append (hthere d rfl)).elim
  · cases rest with
    | nil =>
      rw [hbody, List.append_nil] at hold
      exact (hold hbefore).elim
    | cons d after => exact ⟨before, d, after, hbody, hbefore, hthere d rfl, hstop, hdeclares⟩
  · obtain hname | ⟨d, hd, hname⟩ := hdeclares.exists_of_mem_names h h' hname
    · exact .inl hname
    · have hmem : d ∈ body.flatMap Stmt.declarations := hbody ▸ List.mem_append_left _ hd
      obtain ⟨s, hs, hd⟩ := List.mem_flatMap.1 hmem
      exact .inr ⟨s, hs, d, hd, hname⟩
  · intro world frames callers stmts span env entered ident hentered
    obtain ⟨store, events⟩ := world
    rw [Thread.exec]
    dsimp only [addRecord] at hentered ⊢
    rw [hentered]
  · intro world frames callers code env args bound entered ident hbound hentered
    obtain ⟨store, events⟩ := world
    have hitems := hoist_append hbound (code.body.flatMap Stmt.hoisted)
    rw [← hoistBody, hentered] at hitems
    rw [Thread.enter]
    dsimp only [addRecord] at hitems ⊢
    rw [hitems]
  · intro program verbose queue entered ident k hentered
    have hdeclared : program.declared = (entered, some ident) := hentered
    rw [Program.moment_of_declared_eq_some (congrArg Prod.snd hdeclared), hdeclared]

/-- A function with a parameter `p` declares names in all forms, and `p` again. -/
theorem hoistBody_declares_up_to_parameter : ∃ (store : Store) (record : Record) (program : Program)
    (before : List Declaration) (d : Declaration) (after : List Declaration),
    Program.read (String.toList ("const a; const b = 1; let c; const [d, e] = c; " ++
      "function f(x) \x7blet z;\x7d \x7blet y;\x7d let p; let q;")) = .program program ∧
      store.records[1]? = some record ∧ record.names = ["p"] ∧
      program.flatMap Stmt.declarations = before ++ d :: after ∧ d.ident = ⟨"p", ⟨83, 84⟩⟩ ∧
      (store.hoistBody 1 program).2 = some d.ident ∧
      store.Declares 1 before (store.hoistBody 1 program).1 ∧
      ((store.hoistBody 1 program).1.records[1]?).map Record.names =
        some ["p", "a", "b", "c", "d", "e", "f"] := by
  let store := (initial.addRecord .function (some globalRecord)).2.addName 1 "p"
    (.mutable .undefined true)
  have hrun : ((Program.ofText? (String.toList ("const a; const b = 1; let c; const [d, e] = c; " ++
      "function f(x) \x7blet z;\x7d \x7blet y;\x7d let p; let q;"))).map
        fun program : Program ↦ ((store.hoistBody 1 program).2,
          ((store.hoistBody 1 program).1.records[1]?).map Record.names,
          (program.flatMap Stmt.declarations).map Declaration.name)) =
      some (some ⟨"p", ⟨83, 84⟩⟩, some ["p", "a", "b", "c", "d", "e", "f"],
        ["a", "b", "c", "d", "e", "f", "p", "q"]) := by
    decide +kernel
  obtain ⟨program, htext, hrun⟩ := Option.map_eq_some_iff.1 hrun
  obtain ⟨hident, hrun⟩ := Prod.mk.inj hrun
  obtain ⟨hrecord, hnames⟩ := Prod.mk.inj hrun
  have h : store.records[1]? =
      some ⟨.function, [globalRecord], [⟨"p", .mutable .undefined true⟩]⟩ := rfl
  have hold : ¬ AreNew ⟨.function, [globalRecord], [⟨"p", .mutable .undefined true⟩]⟩
      (program.flatMap Stmt.declarations) := by
    rintro ⟨-, hnew⟩
    have hmem : "p" ∈ (program.flatMap Stmt.declarations).map Declaration.name := by
      rw [hnames]
      decide
    obtain ⟨d, hd, hname⟩ := List.mem_map.1 hmem
    exact hnew d hd (hname ▸ List.mem_singleton_self _)
  obtain ⟨before, d, after, hbody, -, -, hstop, hdeclares⟩ :=
    (hoistBody_declares h program).2.1 hold
  exact ⟨store, _, program, before, d, after, Program.read_of_ofText? htext, h, rfl, hbody,
    Option.some.inj (hstop.symm.trans hident), hstop, hdeclares, hrecord⟩

end Store

end LateConst
