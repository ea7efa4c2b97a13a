import LateConst.Proofs.Ledger.Move
import LateConst.Proofs.Scoping.Run

/-!
# The ledger of a whole run

At every moment the debts of all tasks together are different and can be settled, so that from one
moment to the next the store and the debts make one of the changes that `Change` lists, and no run
ends by a breach of a rule of the interpreter.
-/

namespace LateConst

variable {text : List Char} {program : Program} {verbose : Bool} {queue : TurnQueue Thread}

theorem Program.distinct_of_read (hread : Program.read text = .program program) :
    program.Distinct := by
  intro scope outer hopens
  cases hopens with
  | top =>
    obtain ⟨⟨lo, hi, hspans⟩, -⟩ := placed_of_read hread
    exact Span.nodup_of_between hspans
  | inside hsite hscope =>
    obtain hnone | hvisits := Site.visits_of_opens hscope outer
    · rw [hnone]
      exact .nil
    · obtain ⟨-, hwithin, -⟩ := hsite.wellFormed hread
      have hnodup := Span.nodup_of_between (hwithin outer)
      rw [hvisits] at hnodup
      exact List.Nodup.of_map _ hnodup

/-! ### Debts of all tasks -/

/-- What a move does to the store and to the debts of all tasks. -/
theorem Move.Does.change {act : Act} {store : Store} {thread : Thread} {move : ThreadMove}
    (h : move.Does program act store thread.dues) (others : List Thread) :
    Change program act store ((thread :: others).flatMap Thread.dues) move.world.store
      ((move.tasks others).flatMap Thread.dues) := by
  have hframe {store' : Store} {dues : List Due}
      (hchange : Change program act store thread.dues store' dues) :=
    hchange.frame (others.flatMap Thread.dues)
  cases move with
  | goOn world work => exact hframe h
  | spawn world name new work =>
    obtain ⟨hnew, hchange⟩ := h
    simpa [Move.tasks, Move.world, hnew] using hframe hchange
  | pause world work => exact hframe h
  | finish world => exact hframe h
  | abandonOthers world work => exact h.elim
  | fail world error => exact (hframe h.2).trans (.keep rfl (List.nil_sublist _))

theorem Store.Owes.perm {store : Store} {dues dues' : List Due} (h : store.Owes dues)
    (hperm : dues.Perm dues') : store.Owes dues' :=
  ⟨hperm.nodup_iff.1 h.nodup, fun due hdue ↦ h.fits due (hperm.mem_iff.2 hdue)⟩

/-- Records agree with scopes, and all that is owed can be settled. -/
structure World.Settled (program : Program) (world : World) (threads : List Thread) : Prop where
  scopes : World.Scoped program world threads
  owes : world.store.Owes (threads.flatMap Thread.dues)

theorem World.Settled.exists_does (hdistinct : program.Distinct) {world : World} {thread : Thread}
    {others : List Thread} (h : World.Settled program world (thread :: others)) :
    ∃ act, (act = .define → thread.Defines) ∧ thread.Acts world.store act ∧
      (thread.move world).Does program act world.store thread.dues := by
  obtain ⟨⟨layout, hstore, hthreads⟩, howes⟩ := h
  exact Thread.does_move hdistinct hstore (hthreads thread List.mem_cons_self)
    (howes.sublist (List.sublist_append_left _ _))

theorem workload_keeps_settled (hregular : program.Regular) (hdistinct : program.Distinct)
    (verbose : Bool) : (workload verbose).Keeps (World.Settled program) where
  perm hperm h :=
    ⟨(workload_keeps_scoped hregular verbose).perm hperm h.scopes,
      h.owes.perm (hperm.flatMap_right _)⟩
  announce note h :=
    ⟨(workload_keeps_scoped hregular verbose).announce note h.scopes,
      (store_announce verbose note _).symm ▸ h.owes⟩
  move waiting h := by
    obtain ⟨act, -, -, hdoes⟩ := h.exists_does hdistinct
    exact ⟨Thread.scoped_move hregular h.scopes, h.owes.change (hdoes.change _)⟩

/-! ### Runs -/

namespace Progress

def dues (progress : RunProgress) : List Due := progress.tasks.flatMap Thread.dues

/-- The present task is about to assign a value to a name that it finds in this record. -/
def Assigns (progress : RunProgress) (id : RecordId) (name : String) (v : Value) : Prop :=
  ∃ thread, progress.present? = some thread ∧ thread.Acts progress.world.store (.assign id name v)

def Acts (progress : RunProgress) : Act → Prop
  | .enter => True
  | .define => ∃ thread, progress.present? = some thread ∧ thread.Defines
  | .assign id name v => progress.Assigns id name v

end Progress

namespace Program

/-- A run begins by entering the scope of the program. -/
theorem change_start (hdistinct : program.Distinct) (verbose : Bool) (queue : TurnQueue Thread) :
    Change program .enter Store.initial [] (program.start verbose queue).world.store
      (program.start verbose queue).dues := by
  obtain ⟨habandoned, hentered⟩ := Change.hoist Store.initial [] .top (hdistinct _ _ .top)
    (hoists_flatMap_roles program) .program globalRecord
  change Change program .enter _ _ program.declared.1 _ at habandoned
  change program.declared.2 = none → Change program .enter _ _ program.declared.1 _ at hentered
  obtain ⟨ident, -, hstart⟩ | ⟨hnone, world, hstore, hstart⟩ := program.start_cases verbose queue
  · rw [hstart]
    exact habandoned
  · rw [hstart]
    have hmain : [Thread.ofBody program programRecord].flatMap Thread.dues =
        program.flatMap (Stmt.dues programRecord) ++ [] := by
      simp [Thread.ofBody, Thread.dues, Focus.dues, Thread.duesAround, StmtFrame.dues]
    have hchange : Change program .enter Store.initial [] program.declared.1
        ([Thread.ofBody program programRecord].flatMap Thread.dues) := by
      rw [hmain]
      exact hentered hnone
    exact hstore.symm ▸ hchange

theorem owes_initial : Store.initial.Owes [] := ⟨.nil, List.forall_mem_nil _⟩

theorem settled_start (hdistinct : program.Distinct) (verbose : Bool) (queue : TurnQueue Thread) :
    World.Settled program (program.start verbose queue).world
      (program.start verbose queue).tasks :=
  ⟨scoped_start program verbose queue, owes_initial.change (change_start hdistinct verbose queue)⟩

theorem settled_moment (hread : Program.read text = .program program) (verbose : Bool)
    (queue : TurnQueue Thread) (k : Nat) :
    World.Settled program (program.moment verbose queue k).world
      (program.moment verbose queue k).tasks :=
  holds_moment (settled_start (distinct_of_read hread) verbose queue)
    (workload_keeps_settled (regular_of_read hread) (distinct_of_read hread) verbose) k

/-- The next store is what comes of the move of the present task. -/
theorem store_moment_succ {thread : Thread} {k : Nat}
    (hpresent : (program.moment verbose queue k).present? = some thread) :
    (program.moment verbose queue (k + 1)).world.store =
      (thread.move (program.moment verbose queue k).world).world.store := by
  obtain ⟨waiting, others, -, hmakes⟩ := Progress.makes_of_present? (workload verbose) hpresent
  obtain hworld | ⟨note, hworld⟩ := hmakes.world
  · exact congrArg World.store hworld
  · exact (congrArg World.store hworld).trans (store_announce verbose note _)

/-- One move makes one of the changes that are listed in `Change`. -/
theorem exists_change_moment (hread : Program.read text = .program program) (verbose : Bool)
    (queue : TurnQueue Thread) (k : Nat) :
    ∃ act dues, (program.moment verbose queue k).Acts act ∧
      Change program act (program.moment verbose queue k).world.store
        (program.moment verbose queue k).dues (program.moment verbose queue (k + 1)).world.store
        dues ∧
      dues.Perm (program.moment verbose queue (k + 1)).dues := by
  have hsettled := settled_moment hread verbose queue k
  cases hpresent : (program.moment verbose queue k).present? with
  | none =>
    obtain ⟨hworld, htasks, -⟩ := Progress.next_of_present?_eq_none (workload verbose) hpresent
    have hdues : (program.moment verbose queue (k + 1)).dues =
        (program.moment verbose queue k).dues := congrArg (List.flatMap Thread.dues) htasks
    refine ⟨.enter, _, trivial, .keep ?_ (.refl _), hdues ▸ .refl _⟩
    exact congrArg (fun world ↦ world.store.records) hworld
  | some thread =>
    obtain ⟨waiting, others, htasks, hmakes⟩ :=
      Progress.makes_of_present? (workload verbose) hpresent
    rw [htasks] at hsettled
    obtain ⟨act, hdefines, hacts, hdoes⟩ := hsettled.exists_does (distinct_of_read hread)
    refine ⟨act, _, ?_, ?_, hmakes.tasks.symm.flatMap_right _⟩
    · cases act with
      | enter => trivial
      | define => exact ⟨thread, hpresent, hdefines rfl⟩
      | assign id name v => exact ⟨thread, hpresent, hacts⟩
    · rw [store_moment_succ hpresent, Progress.dues, htasks]
      exact hdoes.change others

/-- No run ends by a breach of a rule of the interpreter. -/
theorem isHarmless_moment (hread : Program.read text = .program program) {k : Nat} {world : World}
    {rest : TurnQueue Thread} {error : RunError}
    (h : program.moment verbose queue k = .ended world rest (some error)) : error.IsHarmless := by
  obtain ⟨ident, -, rfl⟩ | ⟨j, -, thread, hpresent, hfail⟩ := exists_fail_of_ended h
  · trivial
  · have hsettled := settled_moment hread verbose queue j
    obtain ⟨waiting, others, htasks, -⟩ := Progress.makes_of_present? (workload verbose) hpresent
    rw [htasks] at hsettled
    obtain ⟨act, -, -, hdoes⟩ := hsettled.exists_does (distinct_of_read hread)
    rw [hfail] at hdoes
    exact hdoes.1

end Program

end LateConst
