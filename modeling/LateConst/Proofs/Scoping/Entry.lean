import LateConst.Proofs.Scoping.Store

/-!
# Entering scopes

The names that are hoisted into the record of a scope are those of the scope in the same order, and
a function that is hoisted is scoped in that very record. So a layout can be extended by the record
of a scope that has been entered, whether for a block, a function, a trip of a loop or a handler.
-/

namespace LateConst

variable {program : Program} {layout : Layout} {store : Store} {id env : RecordId} {scope : Scope}
  {outer : List Scope}

/-! ### Names -/

theorem Stmt.map_fst_hoisted (s : Stmt) : s.hoisted.map Prod.fst = s.declared := by
  cases s <;> simp [hoisted, declared, Function.comp_def]

theorem map_fst_flatMap_hoisted (body : List Stmt) :
    (body.flatMap Stmt.hoisted).map Prod.fst = body.flatMap Stmt.declared := by
  simp [List.map_flatMap, Stmt.map_fst_hoisted]

theorem map_fst_parameters (params : List Ident) (args : List Value) :
    (parameters params args).map Prod.fst = params := by
  induction params generalizing args with
  | nil => cases args <;> rfl
  | cons ident more ih => cases args <;> simp [parameters, ih]

/-! ### Values -/

/-- What a hoisted name gets agrees with a layout, in a record of a given number. -/
def Hoisted.Scoped (program : Program) (layout : Layout) (id : RecordId) (what : Hoisted) : Prop :=
  ∀ slot, what.Makes id slot → ∀ v ∈ slot.value?, v.Scoped program layout

/-- When its scope is entered a name has no value yet, or `undefined`. -/
theorem Slot.isPlain_of_declared (kind : Kind) (hasInitializer : Bool) {v : Value}
    (h : (declared kind hasInitializer).value? = some v) : v.IsPlain := by
  cases kind with
  | mutable =>
    obtain rfl := Option.some.inj h
    trivial
  | constant => cases hasInitializer <;> cases h

theorem Hoisted.scoped_declared (kind : Kind) (hasInitializer : Bool) :
    (Hoisted.slot (.declared kind hasInitializer)).Scoped program layout id := by
  rintro _ ⟨⟩ v hv
  exact (Slot.isPlain_of_declared _ _ hv).scoped

theorem Hoisted.scoped_function {ident : Ident} {params : List Ident} {body : List Stmt}
    {span : Span} (hself : layout id = some (scope :: outer))
    (hvisits : program.Visits (.stmt (.function ident params body span)) (scope :: outer)) :
    (Hoisted.function ⟨some ident, params, body, span⟩).Scoped program layout id := by
  rintro _ ⟨⟩ v hv
  obtain rfl := Option.some.inj hv
  refine ⟨_, hself, .inside hvisits (by simp [Site.opens]), fun s hs ↦ ?_⟩
  exact hvisits.inside (Scope.mem_visits.2 ⟨s, hs, rfl, rfl⟩)

theorem Stmt.scoped_hoisted {s : Stmt} (hself : layout id = some (scope :: outer))
    (hvisits : program.Visits (.stmt s) (scope :: outer)) {item : Ident × Hoisted}
    (hitem : item ∈ s.hoisted) : item.2.Scoped program layout id := by
  cases s with
  | declare kind items span =>
    obtain ⟨declarator, -, rfl⟩ := List.mem_map.1 hitem
    exact Hoisted.scoped_declared kind _
  | destructure kind idents init span =>
    obtain ⟨ident, -, rfl⟩ := List.mem_map.1 hitem
    exact Hoisted.scoped_declared kind true
  | function ident params body span =>
    obtain rfl := List.mem_singleton.1 hitem
    exact Hoisted.scoped_function hself hvisits
  | _ => cases hitem

theorem scoped_parameters {params : List Ident} {args : List Value}
    (hargs : ∀ v ∈ args, v.Scoped program layout) {item : Ident × Hoisted}
    (hitem : item ∈ parameters params args) : item.2.Scoped program layout id := by
  induction params generalizing args with
  | nil => cases args <;> cases hitem
  | cons ident more ih =>
    cases args with
    | nil =>
      obtain rfl | hitem := List.mem_cons.1 hitem
      · rintro _ ⟨⟩ v hv
        obtain rfl := Option.some.inj hv
        trivial
      · exact ih hargs hitem
    | cons first rest =>
      obtain rfl | hitem := List.mem_cons.1 hitem
      · rintro _ ⟨⟩ v hv
        obtain rfl := Option.some.inj hv
        exact hargs first List.mem_cons_self
      · exact ih (fun v hv ↦ hargs v (List.mem_cons_of_mem _ hv)) hitem

/-! ### Records -/

theorem map_name_of_made {items : List (Ident × Hoisted)} {made : List Entry}
    (h : List.Forall₂ (Entry.Of id) items made) :
    made.map Entry.name = (items.map Prod.fst).map Ident.name := by
  induction h with
  | nil => rfl
  | cons hentry _ ih => rw [List.map_cons, List.map_cons, List.map_cons, ih, hentry.1]

theorem exists_item_of_made {items : List (Ident × Hoisted)} {made : List Entry} {entry : Entry}
    (h : List.Forall₂ (Entry.Of id) items made) (hentry : entry ∈ made) :
    ∃ item ∈ items, Entry.Of id item entry := by
  induction h with
  | nil => cases hentry
  | cons hof _ ih =>
    obtain rfl | hentry := List.mem_cons.1 hentry
    · exact ⟨_, List.mem_cons_self, hof⟩
    · obtain ⟨item, hitem, hof⟩ := ih hentry
      exact ⟨item, List.mem_cons_of_mem _ hitem, hof⟩

namespace Store.Scoped

/-- The store after names have been hoisted into a new record agrees with the layout as it was, and
if all names were hoisted, also with the layout in which the record is the scope's. -/
theorem hoist (h : store.Scoped program layout) (henv : layout env = some outer)
    (kind : ScopeKind) {items : List (Ident × Hoisted)}
    (hnames : items.map Prod.fst = scope.idents)
    (hitems : ∀ item ∈ items, item.2.Scoped program
      (layout.add store.records.size (scope :: outer)) store.records.size) :
    ((store.addRecord kind (some env)).2.hoist store.records.size items).1.Scoped program layout ∧
      (((store.addRecord kind (some env)).2.hoist store.records.size items).2 = none →
        ((store.addRecord kind (some env)).2.hoist store.records.size items).1.Scoped program
          (layout.add store.records.size (scope :: outer))) := by
  obtain ⟨done, rest, made, rfl, hmade, hrecords, harrays, -, hall⟩ :=
    exists_made_of_hoist (store.records_addRecord kind env) items
  refine ⟨h.abandon hrecords harrays, fun hnone ↦ ?_⟩
  obtain rfl := hall hnone
  rw [List.append_nil] at hnames hitems hrecords harrays ⊢
  refine h.enter henv hrecords harrays rfl ?_ ?_
  · rw [Scope.names, ← hnames]
    exact map_name_of_made hmade
  · intro entry hentry v hv
    obtain ⟨item, hitem, hof⟩ := exists_item_of_made hmade hentry
    exact hitems item hitem _ hof.2 v hv

/-- A scope of a single name. -/
theorem addName (h : store.Scoped program layout) (henv : layout env = some outer)
    (kind : ScopeKind) {name : String} {slot : Slot} (hnames : [name] = scope.names)
    (hslot : ∀ v ∈ slot.value?, v.Scoped program
      (layout.add store.records.size (scope :: outer))) :
    ((store.addRecord kind (some env)).2.addName store.records.size name slot).Scoped program
      (layout.add store.records.size (scope :: outer)) := by
  refine h.enter henv (addName_push (store.records_addRecord kind env) name slot) rfl rfl hnames
    fun entry hentry ↦ ?_
  obtain rfl := List.mem_singleton.1 hentry
  exact hslot

end Store.Scoped

end LateConst
