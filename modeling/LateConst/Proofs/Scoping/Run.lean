import LateConst.Proofs.Run
import LateConst.Proofs.Scope.Place
import LateConst.Proofs.Scoping.Move

/-!
# Records mirror scopes at every moment

A run begins with the record of the built-in functions and the record of the program inside of it,
and every move keeps the agreement of records and scopes.
-/

namespace LateConst

def Layout.initial : Layout := fun id ↦ if id = globalRecord then some [] else none

variable {program : Program} {verbose : Bool} {queue : TurnQueue Thread}

namespace Store

/-- The store of a run before the names of the program are declared. -/
def initial : Store := empty.addGlobals.2

theorem getElem?_records_initial : initial.records[globalRecord]? =
    some ⟨.global, [], [⟨"len", .mutable (.function 0 (.builtin .len)) true⟩,
      ⟨"push", .mutable (.function 1 (.builtin .push)) true⟩,
      ⟨"str", .mutable (.function 2 (.builtin .str)) true⟩]⟩ := rfl

theorem elements_initial (ref : Ref) : initial.elements ref = #[] := rfl

theorem scoped_initial : initial.Scoped program Layout.initial where
  global := rfl
  global_record := ⟨_, rfl, rfl, rfl⟩
  eq_global h := by
    unfold Layout.initial at h
    split at h
    next heq => exact heq
    next => cases h
  record h := by
    unfold Layout.initial at h
    split at h <;> cases h
  value {id scopes record entry v} hid hrecord hentry hv := by
    have hglobal : id = globalRecord := by
      unfold Layout.initial at hid
      split at hid
      next heq => exact heq
      next => cases hid
    subst hglobal
    rw [getElem?_records_initial] at hrecord
    obtain rfl := Option.some.inj hrecord
    simp only [List.mem_cons, List.not_mem_nil, or_false] at hentry
    obtain rfl | rfl | rfl := hentry <;>
    · obtain rfl := Option.some.inj hv
      trivial
  element {ref v} hv := by
    rw [elements_initial] at hv
    exact (Array.not_mem_empty v hv).elim

end Store

theorem store_announce (verbose : Bool) (note : Note) (world : World) :
    ((workload verbose).announce note world).store = world.store := by
  cases verbose <;> rfl

/-- The store after all names of the program have been declared, or all up to the first that is
declared twice, which is the second component then. -/
def Program.declared (program : Program) : Store × Option Ident :=
  (Store.initial.addRecord .program (some globalRecord)).2.hoistBody programRecord program

theorem Program.start_eq (program : Program) (verbose : Bool) (queue : TurnQueue Thread) :
    program.start verbose queue = match program.declared with
      | (store, some ident) => .ended ⟨store, #[]⟩ .empty
          (some (.uncaught (.duplicateName ident.name) (some (.ident ident))))
      | (store, none) =>
        let (world, queue) := (workload verbose).spawn ⟨store, #[]⟩ .empty "main"
          (.ofBody program programRecord)
        .going ⟨world, queue, none⟩ := rfl

/-- At the start nothing but the first task is there, and it waits for its turn. If a name of the
program is declared twice, the run has ended by then. -/
theorem Program.start_cases (program : Program) (verbose : Bool) (queue : TurnQueue Thread) :
    (∃ ident, program.declared.2 = some ident ∧ program.start verbose queue =
      .ended ⟨program.declared.1, #[]⟩ .empty
        (some (.uncaught (.duplicateName ident.name) (some (.ident ident))))) ∨
    program.declared.2 = none ∧ ∃ world, world.store = program.declared.1 ∧
      program.start verbose queue =
        .going ⟨world, ⟨[⟨"main#1", .ofBody program programRecord⟩], 1⟩, none⟩ := by
  rw [start_eq]
  generalize program.declared = declared
  obtain ⟨store, twice⟩ := declared
  cases twice with
  | some ident => exact .inl ⟨ident, rfl, rfl⟩
  | none => exact .inr ⟨rfl, _, store_announce verbose _ _, rfl⟩

/-- The run of a program that declares a name twice has ended before anything is executed. -/
theorem Program.moment_of_declared_eq_some {program : Program} {ident : Ident}
    (h : program.declared.2 = some ident) (verbose : Bool) (queue : TurnQueue Thread) (k : Nat) :
    program.moment verbose queue k = .ended ⟨program.declared.1, #[]⟩ .empty
      (some (.uncaught (.duplicateName ident.name) (some (.ident ident)))) := by
  refine moment_of_ended (j := 0) ?_ (Nat.zero_le k)
  obtain ⟨twice, htwice, hstart⟩ | ⟨hnone, -⟩ := program.start_cases verbose queue
  · obtain rfl : twice = ident := Option.some.inj (htwice.symm.trans h)
    exact hstart
  · cases hnone.symm.trans h

/-- A run ends by an error because a name of the program is declared twice, or because a task
fails. -/
theorem Program.exists_fail_of_ended {world : World} {rest : TurnQueue Thread} {error : RunError}
    {k : Nat} (h : program.moment verbose queue k = .ended world rest (some error)) :
    (∃ ident, program.declared.2 = some ident ∧
      error = .uncaught (.duplicateName ident.name) (some (.ident ident))) ∨
    ∃ j < k, ∃ thread, (program.moment verbose queue j).present? = some thread ∧
      thread.move (program.moment verbose queue j).world = .fail world error := by
  induction k with
  | zero =>
    obtain ⟨ident, htwice, hstart⟩ | ⟨-, world, -, hstart⟩ := program.start_cases verbose queue
    · cases hstart.symm.trans h
      exact .inl ⟨ident, htwice, rfl⟩
    · cases hstart.symm.trans h
  | succ k ih =>
    rw [moment] at h
    cases hpresent : (program.moment verbose queue k).present? with
    | none =>
      obtain ⟨-, -, hended⟩ := Progress.next_of_present?_eq_none (workload verbose) hpresent
      obtain hstart | ⟨j, hj, hfail⟩ := ih (hended _ _ _ h)
      · exact .inl hstart
      · exact .inr ⟨j, Nat.lt_succ_of_lt hj, hfail⟩
    | some thread =>
      obtain ⟨waiting, others, -, hmakes⟩ := Progress.makes_of_present? (workload verbose) hpresent
      exact .inr ⟨k, Nat.lt_succ_self k, thread, hpresent, hmakes.error _ _ _ h⟩

theorem scoped_start (program : Program) (verbose : Bool) (queue : TurnQueue Thread) :
    World.Scoped program (program.start verbose queue).world
      (program.start verbose queue).tasks := by
  have hvisits : ∀ s ∈ program, program.Visits (.stmt s) [.block program] := fun s hs ↦ .top hs
  have hglobal : Layout.initial globalRecord = some [] := rfl
  have hnames : (program.flatMap Stmt.hoisted).map Prod.fst = (Scope.block program).idents := by
    rw [map_fst_flatMap_hoisted, Scope.idents_block]
  have hitems : ∀ item ∈ program.flatMap Stmt.hoisted, item.2.Scoped program
      (Layout.initial.add programRecord [.block program]) programRecord := by
    intro item hitem
    obtain ⟨s, hs, hitem⟩ := List.mem_flatMap.1 hitem
    exact Stmt.scoped_hoisted (Layout.add_self _ _ _) (hvisits s hs) hitem
  have hhoist : program.declared.1.Scoped program Layout.initial ∧ (program.declared.2 = none →
      program.declared.1.Scoped program (Layout.initial.add programRecord [.block program])) :=
    Store.scoped_initial.hoist hglobal .program hnames hitems
  obtain ⟨habandoned, hentered⟩ := hhoist
  obtain ⟨ident, -, hstart⟩ | ⟨hnone, world, hstore, hstart⟩ := program.start_cases verbose queue
  · rw [hstart]
    exact ⟨_, habandoned, List.forall_mem_nil _⟩
  · rw [hstart]
    have hmain : (Thread.ofBody program programRecord).Scoped program
        (Layout.initial.add programRecord [.block program]) := by
      refine ⟨trivial, fun frame hframe ↦ ?_, List.forall_mem_nil _⟩
      obtain rfl := List.mem_singleton.1 hframe
      exact ⟨_, _, Layout.add_self _ _ _, List.suffix_rfl, hvisits⟩
    refine ⟨Layout.initial.add programRecord [.block program], ?_, fun thread hthread ↦ ?_⟩
    · exact hstore.symm ▸ hentered hnone
    · obtain rfl := List.mem_singleton.1 hthread
      exact hmain

theorem workload_keeps_scoped (hregular : program.Regular) (verbose : Bool) :
    (workload verbose).Keeps (World.Scoped program) where
  perm hperm h := by
    obtain ⟨layout, hstore, hthreads⟩ := h
    exact ⟨layout, hstore, fun thread hthread ↦ hthreads thread (hperm.mem_iff.2 hthread)⟩
  announce note h := by
    obtain ⟨layout, hstore, hthreads⟩ := h
    exact ⟨layout, (store_announce verbose note _).symm ▸ hstore, hthreads⟩
  move _ h := Thread.scoped_move hregular h

namespace Program

variable {text : List Char}

theorem regular_of_read (hread : Program.read text = .program program) : program.Regular := by
  intro site scopes hsite s hs
  obtain ⟨-, -, -, helse, -⟩ := hsite.wellFormed hread
  exact helse s hs

/-- At every moment the records, the values and all that is left to do agree with a layout. -/
theorem scoped_moment (hread : Program.read text = .program program) (verbose : Bool)
    (queue : TurnQueue Thread) (k : Nat) :
    World.Scoped program (program.moment verbose queue k).world
      (program.moment verbose queue k).tasks :=
  holds_moment (scoped_start program verbose queue)
    (workload_keeps_scoped (regular_of_read hread) verbose) k

end Program

end LateConst
