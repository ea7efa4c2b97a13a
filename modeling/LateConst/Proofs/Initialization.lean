import LateConst.Proofs.Ledger.History
import LateConst.Proofs.Scope.Place

/-!
# Declarations keep the rules of the interpreter

A declaration is executed at most once in a record, and only in the record that was made for its
scope. Every name that it initializes is still without a value of its declaration at that moment, so
no name is initialized twice, none after it has been written, and none is missing.
-/

namespace LateConst

variable {program : Program} {env : RecordId} {s : Stmt}

namespace Stmt

def IsDeclaration : Stmt → Prop
  | declare _ _ _ => True
  | destructure _ _ _ _ => True
  | _ => False

def initialized : Stmt → List String
  | declare _ items _ => (items.filter fun item ↦ item.init.isSome).map fun item ↦ item.ident.name
  | destructure _ idents _ _ => idents.map Ident.name
  | _ => []

theorem isDeclaration_of_initialized {name : String} (h : name ∈ s.initialized) :
    s.IsDeclaration := by
  cases s with
  | declare kind items span => trivial
  | destructure kind idents init span => trivial
  | _ => cases h

theorem statement_mem_dues (hs : s.IsDeclaration) (env : RecordId) :
    .statement env s ∈ s.dues env := by
  cases s with
  | declare kind items span => exact List.mem_cons_self
  | destructure kind idents init span => exact List.mem_cons_self
  | _ => exact hs.elim

theorem value_mem_dues {name : String} (h : name ∈ s.initialized) (env : RecordId) :
    .value env name ∈ s.dues env := by
  cases s with
  | declare kind items span =>
    obtain ⟨item, hitem, rfl⟩ := List.mem_map.1 h
    obtain ⟨hitem, hinit⟩ := List.mem_filter.1 hitem
    obtain ⟨init, hinit⟩ := Option.isSome_iff_exists.1 hinit
    refine List.mem_cons_of_mem _ (List.mem_flatMap.2 ⟨item, hitem, ?_⟩)
    rw [Declarator.dues, hinit]
    exact List.mem_singleton.2 rfl
  | destructure kind idents init span =>
    obtain ⟨ident, hident, rfl⟩ := List.mem_map.1 h
    exact List.mem_cons_of_mem _ (List.mem_map_of_mem hident)
  | _ => cases h

end Stmt

/-- The statement that is executed next, and the record in which it is. -/
def Focus.executed? : Focus → Option (Stmt × RecordId)
  | .exec s env => some (s, env)
  | _ => none

theorem Focus.eq_exec_of_executed? {focus : Focus} (h : focus.executed? = some (s, env)) :
    focus = .exec s env := by
  cases focus with
  | exec s' env' =>
    cases h
    rfl
  | _ => cases h

namespace Thread

/-- By executing a declaration a thread settles the debt to it, and no other. -/
theorem exists_exec_eq (hs : s.IsDeclaration) (world : World) (body : List StmtFrame)
    (callers : List Caller) (env : RecordId) :
    ∃ thread, exec world body callers s env = .goOn world thread ∧
      Thread.dues ⟨.exec s env, body, callers⟩ = .statement env s :: thread.dues := by
  cases s with
  | declare kind items span =>
    refine ⟨_, rfl, ?_⟩
    rw [dues, dues, dues_declareItems]
    rfl
  | destructure kind idents init span => exact ⟨_, rfl, rfl⟩
  | _ => exact hs.elim

end Thread

namespace Program

variable {text : List Char} {verbose : Bool} {queue : TurnQueue Thread} {j k : Nat}
  {thread : Thread}

theorem dues_present (hpresent : (program.moment verbose queue k).present? = some thread)
    {due : Due} (hdue : due ∈ thread.focus.dues) : due ∈ (program.moment verbose queue k).dues :=
  List.mem_flatMap.2 ⟨thread, Progress.mem_tasks_of_present? hpresent, List.mem_append_left _ hdue⟩

/-- A declaration that has been executed is owed no more. -/
theorem statement_not_mem_dues (hread : Program.read text = .program program)
    (hpresent : (program.moment verbose queue k).present? = some thread)
    (hfocus : thread.focus = .exec s env) (hs : s.IsDeclaration) :
    .statement env s ∉ (program.moment verbose queue (k + 1)).dues := by
  have howes := (settled_moment hread verbose queue k).owes
  obtain ⟨waiting, others, htasks, hmakes⟩ :=
    Progress.makes_of_present? (workload verbose) hpresent
  obtain ⟨focus, body, callers⟩ := thread
  obtain rfl : focus = .exec s env := hfocus
  obtain ⟨thread', hmove, hdues⟩ := Thread.exists_exec_eq hs
    (program.moment verbose queue k).world body callers env
  have hnodup := howes.nodup
  rw [htasks, List.flatMap_cons, hdues] at hnodup
  have hperm : (program.moment verbose queue (k + 1)).dues.Perm
      (thread'.dues ++ others.flatMap Thread.dues) := by
    have htasks' := hmakes.tasks
    change List.Perm _ (Move.tasks others (Thread.exec _ body callers s env)) at htasks'
    rw [hmove] at htasks'
    exact htasks'.flatMap_right _
  exact fun hmem ↦ (List.nodup_cons.1 hnodup).1 (hperm.mem_iff.1 hmem)

/-- A declaration is executed once in a record. -/
theorem eq_of_exec (hread : Program.read text = .program program) (hs : s.IsDeclaration)
    {other : Thread} (hpresent : (program.moment verbose queue j).present? = some thread)
    (hfocus : thread.focus = .exec s env)
    (hpresent' : (program.moment verbose queue k).present? = some other)
    (hfocus' : other.focus = .exec s env) : j = k := by
  have howed {i : Nat} {thread : Thread}
      (hpresent : (program.moment verbose queue i).present? = some thread)
      (hfocus : thread.focus = .exec s env) :
      .statement env s ∈ (program.moment verbose queue i).dues := by
    refine dues_present hpresent ?_
    rw [hfocus]
    exact Stmt.statement_mem_dues hs env
  -- the debt is settled by the first execution, and a settled debt does not come back
  have hlater {i i' : Nat} {thread other : Thread} (hlt : i < i')
      (hpresent : (program.moment verbose queue i).present? = some thread)
      (hfocus : thread.focus = .exec s env)
      (hpresent' : (program.moment verbose queue i').present? = some other)
      (hfocus' : other.focus = .exec s env) : False := by
    have hfits := (settled_moment hread verbose queue i).owes.fits _ (howed hpresent hfocus)
    have henv' := (becomes_moment hread (Nat.le_succ i)).lt_size hfits.lt_size
    exact statement_not_mem_dues hread hpresent hfocus hs
      (owed_since hread hlt henv' (howed hpresent' hfocus'))
  obtain hlt | heq | hlt := Nat.lt_trichotomy j k
  · exact (hlater hlt hpresent hfocus hpresent' hfocus').elim
  · exact heq
  · exact (hlater hlt hpresent' hfocus' hpresent hfocus).elim

/-- A declaration is executed in the record that was made for its scope. -/
theorem exists_born_of_exec (hread : Program.read text = .program program)
    (hpresent : (program.moment verbose queue k).present? = some thread)
    (hfocus : thread.focus = .exec s env) (hs : s.IsDeclaration) :
    ∃ scope outer j first, (∀ others, program.Visits (.stmt s) others ↔ others = scope :: outer) ∧
      s ∈ scope.statements ∧ j ≤ k ∧ program.Born verbose queue j env first ∧
      first.Begins program scope scope.declared := by
  have hdue : .statement env s ∈ (program.moment verbose queue k).dues := by
    refine dues_present hpresent ?_
    rw [hfocus]
    exact Stmt.statement_mem_dues hs env
  obtain ⟨record, hrecord, -⟩ := (settled_moment hread verbose queue k).owes.fits _ hdue
  obtain ⟨j, hle, first, hborn⟩ := exists_born hrecord
  have henv := (Array.getElem?_eq_some_iff.1 hborn.record).1
  have hdue' := owed_since hread hle henv hdue
  obtain ⟨-, -, hnone⟩ | ⟨scope, done, hbegins, hstatements⟩ := hborn.begins hread
  · exact (hnone s hdue').elim
  · obtain ⟨rfl, hmem⟩ := hstatements s hdue'
    obtain ⟨outer, hopens⟩ := hbegins.opens
    have hvisits := hopens.visits hmem
    refine ⟨scope, outer, j, first, fun others ↦ ⟨fun hother ↦ hother.unique hread hvisits, ?_⟩,
      hmem, hle, hborn, hbegins⟩
    rintro rfl
    exact hvisits

/-- No run ends by a breach of a rule of the interpreter. A declaration is executed in the record
that was made for its scope, not a second time in the same record, and only while all that it
initializes is still open. What the present statement is to initialize can always be initialized. -/
theorem declarations_keep_rules (hread : Program.read text = .program program) (verbose : Bool)
    (queue : TurnQueue Thread) (k : Nat) :
    (∀ world rest crash, program.moment verbose queue k = .ended world rest (some (.crash crash)) →
      crash.IsLimit) ∧
    ∀ thread, (program.moment verbose queue k).present? = some thread →
      (∀ s env, thread.focus = .exec s env → s.IsDeclaration →
        (∃ scope outer j first,
          (∀ others, program.Visits (.stmt s) others ↔ others = scope :: outer) ∧
          s ∈ scope.statements ∧ j ≤ k ∧ program.Born verbose queue j env first ∧
          first.Begins program scope scope.declared) ∧
        (∀ j other, (program.moment verbose queue j).present? = some other →
          other.focus = .exec s env → j = k) ∧
        ∀ name ∈ s.initialized, ∃ slot,
          (program.moment verbose queue k).world.store.slot? env name = some slot ∧ slot.IsOpen) ∧
      ∀ env name, .value env name ∈ thread.focus.dues → ∃ slot,
        (program.moment verbose queue k).world.store.slot? env name = some slot ∧ slot.IsOpen ∧
          ∀ v, ∃ slot', (program.moment verbose queue k).world.store.slotToDefine env name v =
            .ok slot' := by
  have howes := (settled_moment hread verbose queue k).owes
  refine ⟨fun world rest crash hended ↦ isHarmless_moment hread hended,
    fun thread hpresent ↦ ⟨fun s env hfocus hs ↦ ⟨?_, ?_, ?_⟩, fun env name hdue ↦ ?_⟩⟩
  · exact exists_born_of_exec hread hpresent hfocus hs
  · exact fun j other hother hfocus' ↦ eq_of_exec hread hs hother hfocus' hpresent hfocus
  · intro name hname
    refine Store.fits_value_iff.1 (howes.fits _ (dues_present hpresent ?_))
    rw [hfocus]
    exact Stmt.value_mem_dues hname env
  · obtain ⟨slot, hslot, hopen⟩ :=
      Store.fits_value_iff.1 (howes.fits _ (dues_present hpresent hdue))
    refine ⟨slot, hslot, hopen, fun v ↦ ?_⟩
    obtain ⟨slot', hdefine⟩ := hopen.exists_define name v
    exact ⟨slot', by rw [Store.slotToDefine_of_slot? hslot, hdefine]; rfl⟩

/-- A variable that has been written early is still open when its declaration is executed. -/
theorem declarations_keep_rules_after_early_write : ∃ program thread s,
    Program.read "d = 1; let d = 2;".toList = .program program ∧
      (program.moment false .empty 6).present? = some thread ∧ thread.focus = .exec s 1 ∧
      s.IsDeclaration ∧ "d" ∈ s.initialized ∧
      (∃ slot, (program.moment false .empty 6).world.store.slot? 1 "d" = some slot ∧
        slot.IsOpen) ∧
      ∀ j other, (program.moment false .empty j).present? = some other →
        other.focus = .exec s 1 → j = 6 := by
  have hrun : ((ofText? "d = 1; let d = 2;".toList).bind fun program ↦
      (program.moment false .empty 6).present?.bind fun thread ↦
        thread.focus.executed?.map fun found ↦ (found.1.initialized, found.2)) =
      some (["d"], 1) := by
    decide +kernel
  obtain ⟨program, htext, hrun⟩ := Option.bind_eq_some_iff.1 hrun
  obtain ⟨thread, hpresent, hrun⟩ := Option.bind_eq_some_iff.1 hrun
  obtain ⟨⟨s, env⟩, hexecuted, hrun⟩ := Option.map_eq_some_iff.1 hrun
  obtain ⟨hnames, rfl⟩ := Prod.mk.inj hrun
  have hread := read_of_ofText? htext
  have hfocus := Focus.eq_exec_of_executed? hexecuted
  have hd : "d" ∈ s.initialized := hnames ▸ List.mem_cons_self
  obtain ⟨hexec, -⟩ := (declarations_keep_rules hread false .empty 6).2 thread hpresent
  obtain ⟨-, honce, hopen⟩ := hexec s 1 hfocus (Stmt.isDeclaration_of_initialized hd)
  exact ⟨program, thread, s, hread, hpresent, hfocus, Stmt.isDeclaration_of_initialized hd, hd,
    hopen "d" hd, honce⟩

end Program

end LateConst
