import Mathlib.Data.List.Nodup
import LateConst.Proofs.Ledger

/-!
# What is owed in a new scope

The entries of a new record begin in the states that the roles of their names ask for, and all
debts of the statements of its scope can be settled in it: their names are there and open, and no
two debts are the same, because no name is declared twice in a scope that has been entered.
-/

namespace LateConst

variable {program : Program} {id env : RecordId} {scope : Scope} {outer : List Scope}

/-! ### Roles -/

def Role.Hoists (item : Ident × Role) (hoisted : Ident × Hoisted) : Prop :=
  hoisted.1 = item.1 ∧ ∀ id slot, hoisted.2.Makes id slot → item.2.Starts slot

theorem Role.starts_declared (kind : Kind) (hasInitializer : Bool) :
    (Role.ofKind hasInitializer kind).Starts (.declared kind hasInitializer) := by
  cases kind with
  | mutable => rfl
  | constant => cases hasInitializer <;> rfl

/-- A name that its declaration initializes begins without the value. -/
theorem Role.isOpen_of_starts {kind : Kind} {slot : Slot}
    (h : (Role.ofKind true kind).Starts slot) : slot.IsOpen := by
  cases kind with
  | mutable =>
    obtain rfl := h
    rfl
  | constant =>
    obtain rfl := h
    trivial

theorem Stmt.hoists_roles (s : Stmt) : List.Forall₂ Role.Hoists s.roles s.hoisted := by
  have hdeclared (ident : Ident) (kind : Kind) (hasInitializer : Bool) :
      Role.Hoists (ident, .ofKind hasInitializer kind)
        (ident, .slot (.declared kind hasInitializer)) := by
    refine ⟨rfl, ?_⟩
    rintro id _ ⟨⟩
    exact Role.starts_declared kind hasInitializer
  cases s with
  | declare kind items span =>
    refine List.forall₂_map_left_iff.2 (List.forall₂_map_right_iff.2 (List.forall₂_same.2 ?_))
    exact fun item _ ↦ hdeclared item.ident kind _
  | destructure kind idents init span =>
    refine List.forall₂_map_left_iff.2 (List.forall₂_map_right_iff.2 (List.forall₂_same.2 ?_))
    exact fun ident _ ↦ hdeclared ident kind true
  | function ident params body span =>
    refine .cons ⟨rfl, ?_⟩ .nil
    rintro id _ ⟨⟩
    exact ⟨_, rfl⟩
  | _ => exact .nil

theorem hoists_flatMap_roles (body : List Stmt) :
    List.Forall₂ Role.Hoists (body.flatMap Stmt.roles) (body.flatMap Stmt.hoisted) := by
  induction body with
  | nil => exact .nil
  | cons s more ih => exact List.rel_append s.hoists_roles ih

theorem hoists_parameters (params : List Ident) (args : List Value) :
    List.Forall₂ Role.Hoists (params.map fun ident ↦ (ident, .parameter))
      (parameters params args) := by
  induction params generalizing args with
  | nil => cases args <;> exact .nil
  | cons ident more ih =>
    cases args with
    | nil =>
      refine .cons ⟨rfl, ?_⟩ (ih [])
      rintro id _ ⟨⟩
      exact ⟨_, rfl⟩
    | cons v rest =>
      refine .cons ⟨rfl, ?_⟩ (ih rest)
      rintro id _ ⟨⟩
      exact ⟨_, rfl⟩

theorem starts_of_made {declared : List (Ident × Role)} {items : List (Ident × Hoisted)}
    {made : List Entry} (hhoists : List.Forall₂ Role.Hoists declared items)
    (hmade : List.Forall₂ (Entry.Of id) items made) : List.Forall₂ Entry.Starts declared made := by
  induction hhoists generalizing made with
  | nil =>
    cases hmade
    exact .nil
  | cons hitem _ ih =>
    cases hmade with
    | cons hof hrest =>
      exact .cons ⟨hof.1.trans (congrArg Ident.name hitem.1), hitem.2 _ _ hof.2⟩ (ih hrest)

/-! ### Debts of statements -/

theorem Stmt.eq_of_statement_due {s t : Stmt} (h : .statement env t ∈ s.dues id) :
    env = id ∧ t = s := by
  cases s with
  | declare kind items span => simpa [dues, Declarator.dues] using h
  | destructure kind idents init span => simpa [dues, Ident.due] using h
  | _ => cases h

/-- A name that is owed a value is declared by the statement, in a role that leaves it open. -/
theorem Stmt.exists_role_of_value_due {s : Stmt} {name : String}
    (h : .value env name ∈ s.dues id) : env = id ∧ ∃ item ∈ s.roles, item.1.name = name ∧
      ∀ slot, item.2.Starts slot → slot.IsOpen := by
  cases s with
  | declare kind items span =>
    obtain ⟨item, hitem, hdue⟩ : ∃ item ∈ items, .value env name ∈ Declarator.dues id item := by
      simpa [dues] using h
    obtain ⟨init, hinit, hdue⟩ := List.mem_map.1 hdue
    obtain ⟨rfl, rfl⟩ := Due.value.inj hdue
    refine ⟨rfl, _, List.mem_map_of_mem hitem, rfl, fun slot hslot ↦ ?_⟩
    rw [Option.mem_toList.1 hinit] at hslot
    exact Role.isOpen_of_starts hslot
  | destructure kind idents init span =>
    obtain ⟨ident, hident, hdue⟩ : ∃ ident ∈ idents, ident.due id = .value env name := by
      simpa [dues] using h
    obtain ⟨rfl, rfl⟩ := Due.value.inj hdue
    exact ⟨rfl, _, List.mem_map_of_mem hident, rfl, fun slot hslot ↦ Role.isOpen_of_starts hslot⟩
  | _ => cases h

theorem Stmt.mem_names_of_value_due {s : Stmt} {name : String} (h : .value env name ∈ s.dues id) :
    name ∈ s.declared.map Ident.name := by
  obtain ⟨-, item, hitem, rfl, -⟩ := s.exists_role_of_value_due h
  rw [← s.map_fst_roles, List.map_map]
  exact List.mem_map_of_mem hitem

theorem sublist_flatMap_dues (items : List Declarator) :
    (items.flatMap (Declarator.dues id)).Sublist
      ((items.map Declarator.ident).map (Ident.due id)) := by
  induction items with
  | nil => exact .slnil
  | cons item more ih =>
    obtain ⟨ident, init⟩ := item
    cases init with
    | none => exact ih.cons _
    | some e => exact ih.cons_cons _

theorem nodup_map_due {idents : List Ident} (h : (idents.map Ident.name).Nodup) :
    (idents.map (Ident.due id)).Nodup := by
  have hmap : idents.map (Ident.due id) = (idents.map Ident.name).map (Due.value id) := by
    rw [List.map_map]
    rfl
  rw [hmap]
  exact List.Nodup.map (fun _ _ heq ↦ (Due.value.inj heq).2) h

theorem Stmt.nodup_dues {s : Stmt} (hnames : (s.declared.map Ident.name).Nodup) :
    (s.dues id).Nodup := by
  cases s with
  | declare kind items span =>
    have hsub : (items.flatMap (Declarator.dues id)).Sublist _ := sublist_flatMap_dues items
    refine List.nodup_cons.2 ⟨fun hmem ↦ ?_, (nodup_map_due hnames).sublist hsub⟩
    obtain ⟨ident, -, heq⟩ := List.mem_map.1 (hsub.subset hmem)
    cases heq
  | destructure kind idents init span =>
    refine List.nodup_cons.2 ⟨fun hmem ↦ ?_, nodup_map_due hnames⟩
    obtain ⟨ident, -, heq⟩ := List.mem_map.1 hmem
    cases heq
  | _ => exact .nil

/-- Where no statement stands twice and no name is declared twice, no debt is owed twice. -/
theorem nodup_flatMap_dues {body : List Stmt} (hbody : body.Nodup)
    (hnames : ((body.flatMap Stmt.declared).map Ident.name).Nodup) :
    (body.flatMap (Stmt.dues id)).Nodup := by
  induction body with
  | nil => exact .nil
  | cons s more ih =>
    obtain ⟨hs, hmore⟩ := List.nodup_cons.1 hbody
    rw [List.flatMap_cons, List.map_append] at hnames
    obtain ⟨hfirst, hrest, hdisjoint⟩ := List.nodup_append.1 hnames
    rw [List.flatMap_cons]
    refine List.nodup_append.2 ⟨Stmt.nodup_dues hfirst, ih hmore hrest, ?_⟩
    rintro due hdue _ hlater rfl
    obtain ⟨t, ht, hlater⟩ := List.mem_flatMap.1 hlater
    cases due with
    | statement env u =>
      obtain rfl : s = t := (Stmt.eq_of_statement_due hdue).2.symm.trans
        (Stmt.eq_of_statement_due hlater).2
      exact hs ht
    | value env name =>
      refine hdisjoint name (Stmt.mem_names_of_value_due hdue) name ?_ rfl
      rw [List.map_flatMap]
      exact List.mem_flatMap.2 ⟨t, ht, Stmt.mem_names_of_value_due hlater⟩

/-! ### Entering scopes -/

theorem Scope.sublist_declared (scope : Scope) :
    (scope.statements.flatMap Stmt.roles).Sublist scope.declared := by
  cases scope with
  | block body => exact .refl _
  | function params body => exact List.sublist_append_right _ _
  | _ => exact List.nil_sublist _

theorem exists_entry_of_starts {declared : List (Ident × Role)} {entries : List Entry}
    {item : Ident × Role} (h : List.Forall₂ Entry.Starts declared entries)
    (hitem : item ∈ declared) : ∃ entry ∈ entries, Entry.Starts item entry := by
  induction h with
  | nil => cases hitem
  | cons hstarts _ ih =>
    obtain rfl | hitem := List.mem_cons.1 hitem
    · exact ⟨_, List.mem_cons_self, hstarts⟩
    · obtain ⟨entry, hentry, hstarts⟩ := ih hitem
      exact ⟨entry, List.mem_cons_of_mem _ hentry, hstarts⟩

theorem map_name_of_starts {declared : List (Ident × Role)} {entries : List Entry}
    (h : List.Forall₂ Entry.Starts declared entries) :
    entries.map Entry.name = (declared.map Prod.fst).map Ident.name := by
  induction h with
  | nil => rfl
  | cons hstarts _ ih => rw [List.map_cons, List.map_cons, List.map_cons, ih, hstarts.1]

/-- All that the statements of a scope are owed can be settled in a new record of the scope. -/
theorem fitsIn_of_starts {record : Record} (hnodup : record.names.Nodup)
    (hstarts : List.Forall₂ Entry.Starts scope.declared record.entries) {due : Due}
    (hdue : due ∈ scope.statements.flatMap (Stmt.dues id)) : due.FitsIn id record := by
  obtain ⟨s, hs, hdue⟩ := List.mem_flatMap.1 hdue
  cases due with
  | statement env t => exact (Stmt.eq_of_statement_due hdue).1
  | value env name =>
    obtain ⟨henv, item, hitem, rfl, hopen⟩ := s.exists_role_of_value_due hdue
    have hdeclared : item ∈ scope.declared :=
      scope.sublist_declared.subset (List.mem_flatMap.2 ⟨s, hs, hitem⟩)
    obtain ⟨⟨name, slot⟩, hentry, hname, hslot⟩ := exists_entry_of_starts hstarts hdeclared
    obtain rfl : name = item.1.name := hname
    exact ⟨henv, slot, Record.slot?_of_mem hnodup hentry, hopen slot hslot⟩

/-- The statements of a scope are owed to its record only. -/
theorem mem_statements_of_due {s : Stmt}
    (h : .statement env s ∈ scope.statements.flatMap (Stmt.dues id)) : s ∈ scope.statements := by
  obtain ⟨t, ht, hdue⟩ := List.mem_flatMap.1 h
  obtain ⟨-, rfl⟩ := Stmt.eq_of_statement_due hdue
  exact ht

namespace Change

variable (store : Store) (dues : List Due)

theorem hoist (hopens : program.Opens (scope :: outer)) (hstatements : scope.statements.Nodup)
    {items : List (Ident × Hoisted)} (hitems : List.Forall₂ Role.Hoists scope.declared items)
    (kind : ScopeKind) (env : RecordId) :
    Change program .enter store dues
        ((store.addRecord kind (some env)).2.hoist store.records.size items).1 dues ∧
      (((store.addRecord kind (some env)).2.hoist store.records.size items).2 = none →
        Change program .enter store dues
          ((store.addRecord kind (some env)).2.hoist store.records.size items).1
          (scope.statements.flatMap (Stmt.dues store.records.size) ++ dues)) := by
  obtain ⟨done, rest, made, rfl, hmade, hrecords, -, hnodup, hall⟩ :=
    Store.exists_made_of_hoist (store.records_addRecord kind env) items
  have hnames := hnodup List.nodup_nil
  have hfirst := List.forall₂_take_append _ _ _ hitems
  have hbegins : Record.Begins program
      { Record.new kind (store.chain env) with entries := [] ++ made } scope _ :=
    ⟨⟨outer, hopens⟩, List.take_prefix _ _, hnames, starts_of_made hfirst hmade⟩
  refine ⟨.enter hrecords hbegins .nil (List.forall_mem_nil _) (fun _ _ h ↦ by cases h),
    fun hnone ↦ ?_⟩
  obtain rfl := hall hnone
  rw [List.append_nil] at hitems hrecords ⊢
  have hstarts := starts_of_made hitems hmade
  have hdeclared : ((scope.statements.flatMap Stmt.declared).map Ident.name).Nodup := by
    rw [← map_fst_flatMap_roles]
    have hsub := (scope.sublist_declared.map Prod.fst).map Ident.name
    exact List.Nodup.sublist hsub (map_name_of_starts hstarts ▸ hnames)
  have hwhole : Record.Begins program
      { Record.new kind (store.chain env) with entries := [] ++ made } scope scope.declared :=
    ⟨⟨outer, hopens⟩, List.prefix_rfl, hnames, hstarts⟩
  exact .enter hrecords hwhole (nodup_flatMap_dues hstatements hdeclared)
    (fun due hdue ↦ fitsIn_of_starts hwhole.nodup hstarts hdue)
    fun _ _ hdue ↦ ⟨rfl, mem_statements_of_due hdue⟩

/-- A scope of a single name. -/
theorem addName {ident : Ident} {role : Role} {slot : Slot} {new : List Due}
    (hopens : program.Opens (scope :: outer)) (hdeclared : scope.declared = [(ident, role)])
    (hslot : role.Starts slot) (kind : ScopeKind) (env : RecordId) (hnodup : new.Nodup)
    (hnew : ∀ due ∈ new, due = .value store.records.size ident.name ∧ slot.IsOpen) :
    Change program .enter store dues
      ((store.addRecord kind (some env)).2.addName store.records.size ident.name slot)
      (new ++ dues) := by
  have hrecords := Store.addName_push (store.records_addRecord kind env) ident.name slot
  have hbegins : Record.Begins program
      ((Record.new kind (store.chain env)).add ident.name slot) scope [(ident, role)] :=
    ⟨⟨outer, hopens⟩, hdeclared ▸ List.prefix_rfl, List.nodup_singleton _, .cons ⟨rfl, hslot⟩ .nil⟩
  refine .enter hrecords hbegins hnodup (fun due hdue ↦ ?_) fun _ _ hdue ↦ ?_
  · obtain ⟨rfl, hopen⟩ := hnew due hdue
    refine ⟨rfl, slot, ?_, hopen⟩
    simp [Record.slot?, Record.add, Record.new]
  · cases (hnew _ hdue).1

end Change

end LateConst
