import LateConst.Proofs.Unpaused

/-!
# A quiet run

Nothing that a thread does depends on what has been shown before, and no thread announces anything
itself. So a quiet run is, moment by moment, the verbose run without its announcements
(`Program.moment_quiet`).
-/

namespace LateConst

/-! ### What is shown -/

def Event.isPrinted (event : Event) : Bool := event.printed?.isSome

def Event.noted? : Event → Option Note
  | .printed _ => none
  | .noted note => some note

namespace World

def notes (world : World) : List Note := world.events.toList.filterMap Event.noted?

/-- The world as it is if nothing has been announced. -/
def quiet (world : World) : World := { world with events := world.events.filter Event.isPrinted }

theorem bindings_quiet (world : World) : world.quiet.bindings = world.bindings := rfl

theorem printed_quiet (world : World) : world.quiet.printed = world.printed := by
  rw [printed, printed, quiet, Array.toList_filter, List.filterMap_filter]
  refine List.filterMap_congr fun event _ ↦ ?_
  cases event <;> rfl

theorem notes_quiet (world : World) : world.quiet.notes = [] := by
  refine List.filterMap_eq_nil_iff.2 fun event hevent ↦ ?_
  rw [quiet, Array.toList_filter, List.mem_filter] at hevent
  cases event with
  | printed text => rfl
  | noted note => cases hevent.2

theorem filter_push (events : Array Event) (event : Event) :
    (events.push event).filter Event.isPrinted =
      if event.isPrinted then (events.filter Event.isPrinted).push event
      else events.filter Event.isPrinted := by
  refine Array.toList_inj.1 ?_
  rw [Array.toList_filter, Array.toList_push, List.filter_append, ← Array.toList_filter]
  cases event with
  | printed text => exact Array.toList_push.symm
  | noted note => exact List.append_nil _

theorem quiet_announce (note : Note) (world : World) :
    ((workload true).announce note world).quiet = (workload false).announce note world.quiet := by
  change World.mk world.store ((world.events.push (.noted note)).filter Event.isPrinted) = _
  rw [filter_push]
  rfl

theorem notes_announce (note : Note) (world : World) :
    ((workload true).announce note world).notes = world.notes ++ [note] := by
  change (world.events.push (.noted note)).toList.filterMap Event.noted? = _
  rw [Array.toList_push, List.filterMap_append]
  rfl

end World

/-! ### Moves -/

def Move.mapWorld {σ τ ε : Type} (f : σ → σ) : Move σ τ ε → Move σ τ ε
  | goOn world work => goOn (f world) work
  | spawn world name new work => spawn (f world) name new work
  | pause world work => pause (f world) work
  | finish world => finish (f world)
  | abandonOthers world work => abandonOthers (f world) work
  | fail world error => fail (f world) error

/-- The second move is the first one in a quiet run, and makes no announcement itself. -/
structure Move.IsQuieted (world : World) (move quiet : ThreadMove) : Prop where
  eq_mapWorld : quiet = move.mapWorld World.quiet
  notes : move.world.notes = world.notes

namespace Thread

variable {world : World} {store : Store} {events : Array Event} {body : List StmtFrame}
  {callers : List Caller} {site : Option Site} {frames : List ExprFrame} {use : Use}

theorem isQuieted_goOn {store' : Store} {thread : Thread} :
    Move.IsQuieted ⟨store, events⟩ (.goOn ⟨store', events⟩ thread)
      (.goOn ⟨store', events.filter Event.isPrinted⟩ thread) := ⟨rfl, rfl⟩

theorem isQuieted_fail {store' : Store} {error : RunError} :
    Move.IsQuieted ⟨store, events⟩ (.fail ⟨store', events⟩ error)
      (.fail ⟨store', events.filter Event.isPrinted⟩ error) := ⟨rfl, rfl⟩

theorem isQuieted_raise (store' : Store) (fault : Fault) :
    Move.IsQuieted ⟨store, events⟩ (raise ⟨store', events⟩ body callers site fault)
      (raise ⟨store', events.filter Event.isPrinted⟩ body callers site fault) := by
  unfold raise
  split
  · exact isQuieted_fail
  · exact isQuieted_goOn

theorem isQuieted_stop (store' : Store) (failure : Failure) :
    Move.IsQuieted ⟨store, events⟩ (stop ⟨store', events⟩ body callers site failure)
      (stop ⟨store', events.filter Event.isPrinted⟩ body callers site failure) := by
  cases failure with
  | fault fault => exact isQuieted_raise store' fault
  | crash crash => exact isQuieted_fail

theorem isQuieted_call (node : Expr) (callee : Value) (args : List Value) :
    Move.IsQuieted ⟨store, events⟩ (call ⟨store, events⟩ body callers node callee args frames use)
      (call ⟨store, events.filter Event.isPrinted⟩ body callers node callee args frames use) := by
  unfold call
  split
  · exact isQuieted_goOn
  · exact isQuieted_stop _ _

theorem isQuieted_of_computes {act : Array Event → List StmtFrame → List Caller → Use → ThreadMove}
    (h : Computes store frames act) :
    Move.IsQuieted ⟨store, events⟩ (act events body callers use)
      (act (events.filter Event.isPrinted) body callers use) := by
  cases h with
  | evaluates e env frames' => exact isQuieted_goOn
  | gives hstore v => exact isQuieted_goOn
  | stops node failure => exact isQuieted_stop store failure
  | calls node callee args => exact isQuieted_call node callee args

theorem isQuieted_apply (v : Value) :
    Move.IsQuieted ⟨store, events⟩ (apply ⟨store, events⟩ body callers v use)
      (apply ⟨store, events.filter Event.isPrinted⟩ body callers v use) := by
  unfold apply
  split <;> try exact isQuieted_goOn
  · dsimp only
    split
    · exact isQuieted_stop _ _
    · exact isQuieted_goOn
  · split
    · dsimp only
      split
      · exact isQuieted_goOn
      · exact isQuieted_stop _ _
    · exact isQuieted_raise _ _
  · dsimp only
    split
    · exact isQuieted_raise _ _
    · split
      · exact isQuieted_stop _ _
      · exact isQuieted_goOn
  next =>
    dsimp only
    split
    · exact isQuieted_fail
    next text _ =>
      refine ⟨?_, ?_⟩
      · rw [Move.mapWorld, World.quiet, World.filter_push]
        rfl
      · change (events.push (.printed text)).toList.filterMap Event.noted? = _
        rw [Array.toList_push, List.filterMap_append]
        exact List.append_nil _
  · split
    · exact ⟨rfl, rfl⟩
    · exact isQuieted_stop _ _
  · dsimp only
    split
    · exact isQuieted_fail
    · exact isQuieted_raise _ _
  · split <;> exact isQuieted_goOn
  · dsimp only
    split
    · exact isQuieted_goOn
    · exact isQuieted_raise _ _
  · dsimp only
    split
    · exact isQuieted_stop _ _
    · exact isQuieted_goOn

theorem isQuieted_exec (s : Stmt) (env : RecordId) :
    Move.IsQuieted ⟨store, events⟩ (exec ⟨store, events⟩ body callers s env)
      (exec ⟨store, events.filter Event.isPrinted⟩ body callers s env) := by
  unfold exec
  split <;> try exact isQuieted_goOn
  · split
    · exact ⟨rfl, rfl⟩
    · exact isQuieted_raise _ _
  · dsimp only
    split
    · exact isQuieted_goOn
    · exact isQuieted_raise _ _

theorem isQuieted_advance :
    Move.IsQuieted ⟨store, events⟩ (advance ⟨store, events⟩ callers body)
      (advance ⟨store, events.filter Event.isPrinted⟩ callers body) := by
  unfold advance
  split <;> try exact isQuieted_goOn
  dsimp only
  split <;> exact isQuieted_goOn

theorem isQuieted_enter (f : Function) (args : List Value) :
    Move.IsQuieted ⟨store, events⟩ (enter ⟨store, events⟩ body callers f args)
      (enter ⟨store, events.filter Event.isPrinted⟩ body callers f args) := by
  unfold enter
  split
  · dsimp only
    split
    · exact isQuieted_goOn
    · exact isQuieted_raise _ _
  · dsimp only
    split
    · exact isQuieted_goOn
    · exact isQuieted_goOn
    · exact isQuieted_stop _ _

theorem isQuieted_complete (v : Value) :
    Move.IsQuieted ⟨store, events⟩ (complete ⟨store, events⟩ v callers)
      (complete ⟨store, events.filter Event.isPrinted⟩ v callers) := by
  unfold complete
  split
  · exact ⟨rfl, rfl⟩
  · exact isQuieted_goOn

theorem isQuieted_move (thread : Thread) (world : World) :
    Move.IsQuieted world (thread.move world) (thread.move world.quiet) := by
  obtain ⟨focus, body, callers⟩ := thread
  obtain ⟨store, events⟩ := world
  unfold move
  cases focus with
  | enter f args => exact isQuieted_enter f args
  | eval e env frames use => exact isQuieted_of_computes (computes_eval store frames e env)
  | value v frames use =>
    cases frames with
    | nil => exact isQuieted_apply v
    | cons frame frames => exact isQuieted_of_computes (computes_resume store frames v frame)
  | exec s env => exact isQuieted_exec s env
  | next => exact isQuieted_advance
  | done v => exact isQuieted_complete v

end Thread

/-! ### Runs -/

def Progress.mapWorld {σ τ ε : Type} (f : σ → σ) : Progress σ τ ε → Progress σ τ ε
  | going rota => going { rota with world := f rota.world }
  | ended world queue error => ended (f world) queue error

namespace Progress

theorem next_quiet (progress : RunProgress) :
    (progress.mapWorld World.quiet).next (workload false) =
      (progress.next (workload true)).mapWorld World.quiet := by
  cases progress with
  | ended world queue error => rfl
  | going rota =>
    obtain ⟨world, ⟨waiting, spawned⟩, present⟩ := rota
    cases present with
    | none => cases waiting <;> rfl
    | some job =>
      obtain ⟨label, thread⟩ := job
      have hmove : thread.move world.quiet = (thread.move world).mapWorld World.quiet :=
        (thread.isQuieted_move world).eq_mapWorld
      cases hmoved : thread.move world with
      | goOn world' thread' =>
        rw [hmoved] at hmove
        rw [mapWorld, next_of_goOn hmove, next_of_goOn hmoved, mapWorld]
      | spawn world' name new thread' =>
        rw [hmoved] at hmove
        rw [mapWorld, next_of_spawn hmove, next_of_spawn hmoved, mapWorld]
        simp only [Workload.spawn, World.quiet_announce]
      | pause world' thread' =>
        rw [hmoved] at hmove
        rw [mapWorld, next_of_pause hmove, next_of_pause hmoved, mapWorld, World.quiet_announce]
      | finish world' =>
        rw [hmoved] at hmove
        rw [mapWorld, next_of_finish hmove, next_of_finish hmoved, mapWorld, World.quiet_announce]
      | fail world' error =>
        rw [hmoved] at hmove
        rw [mapWorld, next_of_fail hmove, next_of_fail hmoved, mapWorld]
      | abandonOthers world' thread' =>
        have hpasses := thread.passes_move world
        rw [hmoved] at hpasses
        exact hpasses.elim

end Progress

namespace Program

/-- A quiet run is the verbose run without its announcements. -/
theorem moment_quiet (program : Program) (queue queue' : TurnQueue Thread) (k : Nat) :
    program.moment false queue' k = (program.moment true queue k).mapWorld World.quiet := by
  induction k with
  | zero =>
    rw [moment, moment, start_eq, start_eq]
    obtain ⟨store, twice⟩ := program.declared
    cases twice <;> rfl
  | succ k ih => rw [moment, moment, ih, Progress.next_quiet]

end Program

end LateConst
