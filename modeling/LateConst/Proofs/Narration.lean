import LateConst.Proofs.Evaluation.Wait
import LateConst.Proofs.Narration.Course
import LateConst.Proofs.Narration.Quiet

/-!
# Announcements tell the truth and change nothing

The announcements of a verbose run are what can be told about the happenings in its line of tasks.
So what is announced about one task has the course that the line allows, the numbers of tasks are
given in the order in which they are scheduled, and all tasks are finished in the end unless an
error has ended the run (`Program.notes_are_true`). The same run without announcements shows the
same otherwise.
-/

namespace LateConst

open Happening

/-! ### The announcements of a run -/

theorem Thread.keepsOthers_move (thread : Thread) (world : World) :
    (thread.move world).KeepsOthers := by
  have hpasses := thread.passes_move world
  cases hmoved : thread.move world with
  | abandonOthers world' thread' =>
    rw [hmoved] at hpasses
    exact hpasses.elim
  | _ => trivial

namespace Progress

/-- A verbose run announces what happens by its next step. -/
theorem notes_next (progress : RunProgress) :
    (progress.next (workload true)).world.notes =
      progress.world.notes ++ notes ((workload true).happening progress).toList := by
  cases progress with
  | ended world queue error => exact (List.append_nil _).symm
  | going rota =>
    obtain ⟨world, ⟨waiting, spawned⟩, present⟩ := rota
    cases present with
    | none =>
      cases waiting with
      | nil => exact (List.append_nil _).symm
      | cons job rest => exact (List.append_nil _).symm
    | some job =>
      obtain ⟨label, thread⟩ := job
      have hnotes : ((workload true).move waiting.length world thread).world.notes = world.notes :=
        (thread.isQuieted_move world).notes
      have hkeeps : ((workload true).move waiting.length world thread).KeepsOthers :=
        thread.keepsOthers_move world
      rw [Workload.happening]
      cases hmoved : (workload true).move waiting.length world thread with
      | abandonOthers world' thread' =>
        rw [hmoved] at hkeeps
        exact hkeeps.elim
      | goOn world' thread' =>
        rw [hmoved] at hnotes
        rw [next_of_goOn hmoved]
        exact hnotes.trans (List.append_nil _).symm
      | fail world' error =>
        rw [hmoved] at hnotes
        rw [next_of_fail hmoved]
        exact hnotes.trans (List.append_nil _).symm
      | spawn world' name new thread' =>
        rw [hmoved] at hnotes
        rw [next_of_spawn hmoved]
        exact (World.notes_announce _ _).trans (congrArg (· ++ [_]) hnotes)
      | pause world' thread' =>
        rw [hmoved] at hnotes
        rw [next_of_pause hmoved]
        exact (World.notes_announce _ _).trans (congrArg (· ++ [_]) hnotes)
      | finish world' =>
        rw [hmoved] at hnotes
        rw [next_of_finish hmoved]
        exact (World.notes_announce _ _).trans (congrArg (· ++ [_]) hnotes)

end Progress

namespace Program

variable {program : Program} {queue : TurnQueue Thread} {k : Nat}

/-- The run of a program as a run of tasks, once its names are declared. -/
def taskRun (program : Program) (verbose : Bool) : TaskRun World Thread RunError :=
  ⟨workload verbose, ⟨program.declared.1, #[]⟩, 0, [("main", .ofBody program programRecord)]⟩

theorem moment_eq_taskRun (verbose : Bool) (hdeclared : program.declared.2 = none) :
    program.moment verbose queue k = (program.taskRun verbose).moment k := by
  induction k with
  | zero =>
    rw [moment, start_eq, TaskRun.moment, TaskRun.start, taskRun]
    generalize program.declared = declared at hdeclared ⊢
    obtain ⟨store, twice⟩ := declared
    obtain rfl : twice = none := hdeclared
    rfl
  | succ k ih => rw [moment, ih, TaskRun.moment, taskRun]

def notes (program : Program) (queue : TurnQueue Thread) (k : Nat) : List Note :=
  (program.moment true queue k).world.notes

theorem notes_eq_log (hdeclared : program.declared.2 = none) :
    program.notes queue k = Happening.notes ((program.taskRun true).log k) := by
  rw [notes, moment_eq_taskRun true hdeclared]
  induction k with
  | zero => rfl
  | succ k ih =>
    rw [TaskRun.moment, TaskRun.log, notes_append, ← ih, TaskRun.happening]
    exact Progress.notes_next _

/-- A program that declares a name twice announces nothing. -/
theorem notes_eq_nil {ident : Ident} (hdeclared : program.declared.2 = some ident) :
    program.notes queue k = [] := by
  rw [notes, moment_of_declared_eq_some hdeclared]
  rfl

/-- At every moment a quiet run has printed the same as a verbose one, its names are in the same
states, and it has ended with the same error, if it has. What is announced about one task has a
fixed course, tasks are numbered from one in the order in which they are scheduled, and when a run
has ended that got past the declaration of its names, all tasks are finished unless there was an
error. -/
theorem notes_are_true (program : Program) (queue queue' : TurnQueue Thread) (k : Nat) :
    ((program.moment false queue' k).world.printed =
        (program.moment true queue k).world.printed ∧
      (program.moment false queue' k).world.bindings =
        (program.moment true queue k).world.bindings ∧
      ((program.moment false queue' k).HasEnded ↔ (program.moment true queue k).HasEnded) ∧
      (program.moment false queue' k).error? = (program.moment true queue k).error? ∧
      (program.moment false queue' k).world.notes = []) ∧
    (∀ label, (program.notes queue k).filter (·.label == label) = [] ∨
      ∃ pauses isFinished,
        (program.notes queue k).filter (·.label == label) = Note.course label pauses isFinished) ∧
    (∃ names : List String, (program.notes queue k).filterMap Note.scheduled? =
        names.mapIdx fun i name ↦ taskLabel name (i + 1)) ∧
    ∀ world rest error, program.moment true queue k = .ended world rest error →
      program.declared.2 = none →
        ((∀ label ∈ (program.notes queue k).filterMap Note.scheduled?,
          .finished label ∈ program.notes queue k) ↔ error = none) := by
  refine ⟨?_, ?_⟩
  · rw [moment_quiet program queue queue' k]
    cases program.moment true queue k with
    | going rota =>
      exact ⟨World.printed_quiet _, World.bindings_quiet _, .rfl, rfl, World.notes_quiet _⟩
    | ended world rest error =>
      exact ⟨World.printed_quiet _, World.bindings_quiet _, .rfl, rfl, World.notes_quiet _⟩
  cases hdeclared : program.declared.2 with
  | some ident =>
    rw [notes_eq_nil hdeclared]
    exact ⟨fun label ↦ .inl rfl, ⟨[], rfl⟩, fun _ _ _ _ hnone ↦ by cases hnone⟩
  | none =>
    obtain ⟨line, hlog, -⟩ := (program.taskRun true).exists_steps_log
      (fun _ world thread ↦ thread.keepsOthers_move world) k
    rw [notes_eq_log hdeclared, filterMap_scheduled?_notes]
    refine ⟨fun label ↦ ?_, ⟨collect name? ((program.taskRun true).log k), ?_⟩,
      fun world rest error hended _ ↦ ?_⟩
    · rw [hlog.notes_of_label label]
      by_cases hspawned : label ∈ collect spawned? ((program.taskRun true).log k)
      · exact .inr ⟨_, _, if_pos hspawned⟩
      · exact .inl (if_neg hspawned)
    · refine hlog.accounts.labels.trans ?_
      simp only [taskRun, Nat.zero_add]
    · rw [moment_eq_taskRun true hdeclared] at hended
      rw [← TaskRun.finished_iff (fun _ world thread ↦ thread.keepsOthers_move world) hended]
      refine forall₂_congr fun label _ ↦ ?_
      rw [← filterMap_finished?_notes, List.mem_filterMap]
      constructor
      · exact fun hmem ↦ ⟨_, hmem, rfl⟩
      · rintro ⟨note, hmem, hnote⟩
        cases note <;> cases hnote
        exact hmem

/-- A spawned task pauses and then fails, after the first task is finished. -/
theorem notes_are_true_of_failing_task : ∃ program error,
    Program.read (String.toList "function f() \x7bprint 1; pause; throw 2;\x7d spawn f; pause;") =
      .program program ∧
      (program.moment true .empty 30).error? = some error ∧
      program.notes .empty 30 = [.scheduling "main#1", .scheduling "f#2", .paused "main#1",
        .paused "f#2", .finished "main#1"] ∧
      (program.moment false .empty 30).world.printed = ["1"] ∧
      ¬ ∀ label ∈ (program.notes .empty 30).filterMap Note.scheduled?,
        .finished label ∈ program.notes .empty 30 := by
  have hrun : ((ofText? (String.toList
        "function f() \x7bprint 1; pause; throw 2;\x7d spawn f; pause;")).bind
      fun program ↦ (program.moment true .empty 30).error?.map fun _ ↦
        (program.notes .empty 30, (program.moment true .empty 30).world.printed,
          program.declared.2.isNone)) =
      some ([.scheduling "main#1", .scheduling "f#2", .paused "main#1", .paused "f#2",
        .finished "main#1"], ["1"], true) := by
    decide +kernel
  obtain ⟨program, htext, hrun⟩ := Option.bind_eq_some_iff.1 hrun
  obtain ⟨error, herror, hrun⟩ := Option.map_eq_some_iff.1 hrun
  obtain ⟨hnotes, hrun⟩ := Prod.mk.inj hrun
  obtain ⟨hprinted, hdeclared⟩ := Prod.mk.inj hrun
  obtain ⟨rest, hended⟩ := Progress.exists_eq_ended_of_error? herror
  obtain ⟨⟨hquiet, -⟩, -, -, hfinished⟩ := program.notes_are_true .empty .empty 30
  refine ⟨program, error, read_of_ofText? htext, herror, hnotes, hquiet.trans hprinted, ?_⟩
  rw [hfinished _ _ _ hended (Option.isNone_iff_eq_none.1 hdeclared)]
  exact Option.some_ne_none error

end Program

end LateConst
