/-!
# Taking turns

Tasks wait in a queue. The first of them gets a turn; when it pauses it goes to the end of the
queue, and when it is finished it is gone. A task can spawn others, which go to the end as well. An
error in one task ends all of them.

What a task does in its turn is given by a `Workload`, one small move at a time, over a world that
all tasks share. `Workload.step` makes one such move; a run is a sequence of steps. Every change of
the queue is announced with a `Note`.
-/

namespace LateConst

/-- A task with the label by which announcements speak of it. -/
structure Job (τ : Type) where
  label : String
  work : τ

def Job.describe {τ : Type} (task : Job τ) : String := "<Task " ++ task.label ++ ">"

inductive Note where
  | scheduling (label : String)
  | paused (label : String)
  | finished (label : String)
  deriving DecidableEq, Repr

def Note.text : Note → String
  | scheduling label => "Scheduling " ++ label
  | paused label => "Paused " ++ label
  | finished label => "Finished " ++ label

/-- The tasks that wait for a turn, and how many have been spawned so far. -/
structure TurnQueue (τ : Type) where
  waiting : List (Job τ)
  spawned : Nat
  deriving Inhabited

namespace TurnQueue

variable {τ : Type}

def empty : TurnQueue τ := ⟨[], 0⟩

def abandon (queue : TurnQueue τ) : TurnQueue τ := { queue with waiting := [] }

/-- Gives up all tasks and starts counting anew. -/
def reset (queue : TurnQueue τ) : TurnQueue τ := { queue.abandon with spawned := 0 }

def add (queue : TurnQueue τ) (task : Job τ) : TurnQueue τ :=
  { queue with waiting := queue.waiting ++ [task] }

/-- The label of the next task to be spawned: a name and the number of the task. -/
def nextLabel (queue : TurnQueue τ) (name : String) : String :=
  name ++ "#" ++ toString (queue.spawned + 1)

def spawn (queue : TurnQueue τ) (name : String) (work : τ) : TurnQueue τ :=
  { queue.add ⟨queue.nextLabel name, work⟩ with spawned := queue.spawned + 1 }

end TurnQueue

inductive Move (σ τ ε : Type) where
  | goOn (world : σ) (work : τ)
  | spawn (world : σ) (name : String) (new : τ) (work : τ)
  | pause (world : σ) (work : τ)
  | finish (world : σ)
  /-- Gives up all tasks that wait, and goes on. -/
  | abandonOthers (world : σ) (work : τ)
  | fail (world : σ) (error : ε)

/-- How tasks work in a world: their next move, which may depend on how many tasks wait, and what
becomes of the world by an announcement. -/
structure Workload (σ τ ε : Type) where
  move : (waiting : Nat) → σ → τ → Move σ τ ε
  announce : Note → σ → σ

/-- A moment of a run. Between turns no task is the present one. -/
structure Rota (σ τ : Type) where
  world : σ
  queue : TurnQueue τ
  present : Option (Job τ)

inductive Progress (σ τ ε : Type) where
  | going (rota : Rota σ τ)
  | ended (world : σ) (queue : TurnQueue τ) (error : Option ε)

namespace Workload

variable {σ τ ε : Type}

def add (workload : Workload σ τ ε) (world : σ) (queue : TurnQueue τ) (task : Job τ) :
    σ × TurnQueue τ :=
  (workload.announce (.scheduling task.label) world, queue.add task)

def spawn (workload : Workload σ τ ε) (world : σ) (queue : TurnQueue τ) (name : String)
    (work : τ) : σ × TurnQueue τ :=
  (workload.announce (.scheduling (queue.nextLabel name)) world, queue.spawn name work)

/-- One move of the present task, or the beginning of the next turn. -/
def step (workload : Workload σ τ ε) (rota : Rota σ τ) : Progress σ τ ε :=
  let ⟨world, queue, present⟩ := rota
  match present with
  | none =>
    match queue.waiting with
    | [] => .ended world queue none
    | task :: rest => .going ⟨world, { queue with waiting := rest }, some task⟩
  | some ⟨label, work⟩ =>
    match workload.move queue.waiting.length world work with
    | .goOn world work => .going ⟨world, queue, some ⟨label, work⟩⟩
    | .spawn world name new work =>
      let (world, queue) := workload.spawn world queue name new
      .going ⟨world, queue, some ⟨label, work⟩⟩
    | .pause world work =>
      .going ⟨workload.announce (.paused label) world, queue.add ⟨label, work⟩, none⟩
    | .finish world => .going ⟨workload.announce (.finished label) world, queue, none⟩
    | .abandonOthers world work => .going ⟨world, queue.abandon, some ⟨label, work⟩⟩
    | .fail world error => .ended world queue.abandon (some error)

end Workload

end LateConst
