import LateConst.Proofs.Run
import Mathlib.Data.List.Forall2

/-!
# Runs that do not touch each other

Whatever has been left in the queue is given up before a run begins, and when a run has ended
nothing is left in it: an error that is not handled is the end of all tasks at once. So programs
that are run one after another come to what each of them comes to alone (`runs_are_isolated`).
-/

namespace LateConst

theorem TurnQueue.reset_eq_empty {τ : Type} (queue : TurnQueue τ) : queue.reset = empty := rfl

/-- A run ends when no task is left, or by an error of the present task, and then it gives up all
others. -/
theorem Workload.waiting_eq_nil_of_step {σ τ ε : Type} {workload : Workload σ τ ε}
    {rota : Rota σ τ} {world : σ} {queue : TurnQueue τ} {error : Option ε}
    (h : workload.step rota = .ended world queue error) : queue.waiting = [] := by
  obtain ⟨before, ⟨waiting, spawned⟩, present⟩ := rota
  cases present with
  | none =>
    cases waiting with
    | nil =>
      cases h
      rfl
    | cons task more => cases h
  | some job =>
    rw [step] at h
    dsimp only at h
    split at h <;> cases h
    rfl

namespace Program

variable {program : Program} {verbose : Bool} {queue : TurnQueue Thread} {world : World}
  {rest : TurnQueue Thread} {error : Option RunError}

/-- A run does not depend on what was in the queue before it. -/
theorem moment_eq_moment_empty (program : Program) (verbose : Bool) (queue : TurnQueue Thread)
    (k : Nat) : program.moment verbose queue k = program.moment verbose .empty k := by
  induction k with
  | zero => rw [moment, moment, start, start, TurnQueue.reset_eq_empty, TurnQueue.reset_eq_empty]
  | succ k ih => rw [moment, ih, moment]

/-- If a name of the program is declared twice, no task has been spawned yet. -/
theorem waiting_eq_nil_of_start (h : program.start verbose queue = .ended world rest error) :
    rest.waiting = [] := by
  unfold start at h
  dsimp only at h
  split at h <;> cases h
  rfl

theorem waiting_eq_nil_of_ended {k : Nat}
    (h : program.moment verbose queue k = .ended world rest error) : rest.waiting = [] := by
  induction k with
  | zero => exact waiting_eq_nil_of_start h
  | succ k ih =>
    rw [moment] at h
    cases hmoment : program.moment verbose queue k with
    | going rota =>
      rw [hmoment] at h
      exact Workload.waiting_eq_nil_of_step h
    | ended world' rest' error' =>
      rw [hmoment] at h
      exact ih (hmoment.trans h)

/-- When a task has failed the run stays as it is. -/
theorem moment_of_fail {k m : Nat} {rota : Rota World Thread} {job : Job Thread}
    {failure : RunError} (hmoment : program.moment verbose queue k = .going rota)
    (hpresent : rota.present = some job) (hfail : job.work.move rota.world = .fail world failure)
    (hlt : k < m) :
    program.moment verbose queue m = .ended world rota.queue.abandon (some failure) := by
  refine moment_of_ended ?_ hlt
  rw [moment, hmoment]
  obtain ⟨before, waiting, present⟩ := rota
  obtain rfl : present = some job := hpresent
  exact Progress.next_of_fail hfail

end Program

/-! ### Sessions -/

/-- What a run comes to if nothing has been run before it. -/
def Program.Answers (program : Program) (verbose : Bool) (answer : World × Option RunError) :
    Prop :=
  ∃ k rest, program.moment verbose .empty k = .ended answer.1 rest answer.2

/-- Programs, verbose or not, are run one after another. Each run begins with the queue that the one
before it has left, and comes to a world and perhaps an error. -/
inductive Session : TurnQueue Thread → List (Program × Bool) → List (World × Option RunError) →
    TurnQueue Thread → Prop
  | nil {queue : TurnQueue Thread} : Session queue [] [] queue
  | cons {queue rest last : TurnQueue Thread} {program : Program} {verbose : Bool} {k : Nat}
      {world : World} {error : Option RunError} {more : List (Program × Bool)}
      {answers : List (World × Option RunError)}
      (hrun : program.moment verbose queue k = .ended world rest error)
      (hmore : Session rest more answers last) :
      Session queue ((program, verbose) :: more) ((world, error) :: answers) last

namespace Session

variable {queue last : TurnQueue Thread} {programs : List (Program × Bool)}
  {answers : List (World × Option RunError)}

theorem waiting_eq_nil (h : Session queue programs answers last) (hwaiting : queue.waiting = []) :
    last.waiting = [] := by
  induction h with
  | nil => exact hwaiting
  | cons hrun _ ih => exact ih (Program.waiting_eq_nil_of_ended hrun)

/-- In a session each program comes to what it comes to alone. -/
theorem exists_iff_forall₂ : (∃ last, Session queue programs answers last) ↔
    List.Forall₂ (fun run answer ↦ run.1.Answers run.2 answer) programs answers := by
  constructor
  · rintro ⟨last, h⟩
    induction h with
    | nil => exact .nil
    | cons hrun _ ih =>
      rw [Program.moment_eq_moment_empty] at hrun
      exact .cons ⟨_, _, hrun⟩ ih
  · intro h
    induction h generalizing queue with
    | nil => exact ⟨queue, .nil⟩
    | cons hrun _ ih =>
      obtain ⟨k, rest, hrun⟩ := hrun
      rw [← Program.moment_eq_moment_empty _ _ queue] at hrun
      obtain ⟨last, hmore⟩ := @ih rest
      exact ⟨last, .cons hrun hmore⟩

end Session

/-- Every run is, moment by moment, the one that begins with an empty queue, and leaves the queue
empty when it ends. Once a task has failed, nothing of the others is executed any more. So programs
that are run one after another, whether they fail or not, come to the answers that they come to
alone. -/
theorem runs_are_isolated :
    (∀ (program : Program) verbose queue k,
      program.moment verbose queue k = program.moment verbose .empty k) ∧
    (∀ (program : Program) verbose queue k world rest error,
      program.moment verbose queue k = .ended world rest error → rest.waiting = []) ∧
    (∀ (program : Program) verbose queue k rota job world error,
      program.moment verbose queue k = .going rota → rota.present = some job →
        job.work.move rota.world = .fail world error →
          ∀ m > k, program.moment verbose queue m =
            .ended world rota.queue.abandon (some error)) ∧
    (∀ queue programs answers, (∃ last, Session queue programs answers last) ↔
      List.Forall₂ (fun run answer ↦ run.1.Answers run.2 answer) programs answers) ∧
    ∀ queue programs answers last, Session queue programs answers last → programs ≠ [] →
      last.waiting = [] := by
  refine ⟨Program.moment_eq_moment_empty, fun _ _ _ _ _ _ _ h ↦ Program.waiting_eq_nil_of_ended h,
    fun _ _ _ _ _ _ _ _ hmoment hpresent hfail _ hlt ↦
      Program.moment_of_fail hmoment hpresent hfail hlt,
    fun _ _ _ ↦ Session.exists_iff_forall₂, fun queue programs answers last h hne ↦ ?_⟩
  cases h with
  | nil => exact (hne rfl).elim
  | cons hrun hmore => exact hmore.waiting_eq_nil (Program.waiting_eq_nil_of_ended hrun)

/-- The main task waits inside of a `try` when another task fails, and a task had been left in the
queue before the run. -/
example : ((Program.ofText? (String.toList
      "function f() \x7bthrow 1;\x7d spawn f; try \x7bpause;\x7d catch (e) \x7bprint e;\x7d")).map
      fun program ↦ program.moment false ⟨[⟨"old#7", .ofBody program programRecord⟩], 7⟩ 40).map
    (fun progress ↦ (progress.world.events.toList, progress.tasks.length)) = some ([], 0) := by
  decide +kernel

end LateConst
