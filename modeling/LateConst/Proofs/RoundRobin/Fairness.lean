import LateConst.Proofs.RoundRobin.Line

/-!
# Turns are fair

A run of tasks, none of which fails or makes the others give up, is watched through the log of what
happens to its tasks. The queue of such a run does what a `Line` allows, so its log tells everything
about the order of turns (`TaskRun.turns_are_fair`), whatever the tasks do in their turns.
-/

namespace LateConst

open Happening

variable {σ τ ε : Type}

/-! ### What happens in a run -/

/-- Neither an error nor the end of the other tasks. -/
def Move.IsPeaceful : Move σ τ ε → Prop
  | abandonOthers _ _ => False
  | fail _ _ => False
  | _ => True

namespace Workload

variable (workload : Workload σ τ ε)

/-- What happens to a task by the next step of a run. -/
def happening : Progress σ τ ε → Option Happening
  | .ended _ _ _ => none
  | .going ⟨_, queue, none⟩ => queue.waiting.head?.map fun task ↦ .begins task.label
  | .going ⟨world, queue, some ⟨label, work⟩⟩ =>
    match workload.move queue.waiting.length world work with
    | .spawn _ name _ _ => some (.spawns name (queue.nextLabel name))
    | .pause _ _ => some (.pauses label)
    | .finish _ => some (.finishes label)
    | _ => none

def spawnAll (world : σ) (queue : TurnQueue τ) : List (String × τ) → σ × TurnQueue τ
  | [] => (world, queue)
  | (name, work) :: more =>
    let (world, queue) := workload.spawn world queue name work
    spawnAll world queue more

end Workload

/-- What happens when tasks of these names are spawned one after another. -/
def Happening.spawnings (count : Nat) : List String → List Happening
  | [] => []
  | name :: more => .spawns name (taskLabel name (count + 1)) :: spawnings (count + 1) more

/-- A run that begins with some tasks, after others have been spawned that are gone. -/
structure TaskRun (σ τ ε : Type) where
  workload : Workload σ τ ε
  world : σ
  count : Nat
  tasks : List (String × τ)

namespace TaskRun

def start (run : TaskRun σ τ ε) : Progress σ τ ε :=
  let (world, queue) := run.workload.spawnAll run.world ⟨[], run.count⟩ run.tasks
  .going ⟨world, queue, none⟩

def moment (run : TaskRun σ τ ε) : Nat → Progress σ τ ε
  | 0 => run.start
  | k + 1 => (run.moment k).next run.workload

def happening (run : TaskRun σ τ ε) (k : Nat) : Option Happening :=
  run.workload.happening (run.moment k)

/-- All that has happened to tasks up to a moment, from the time when the first of them was
spawned. -/
def log (run : TaskRun σ τ ε) : Nat → List Happening
  | 0 => spawnings run.count (run.tasks.map Prod.fst)
  | k + 1 => run.log k ++ (run.happening k).toList

/-- No task of the run fails or makes the others give up. -/
def IsPeaceful (run : TaskRun σ τ ε) : Prop :=
  ∀ k rota task, run.moment k = .going rota → rota.present = some task →
    (run.workload.move rota.queue.waiting.length rota.world task.work).IsPeaceful

end TaskRun

/-! ### The line of a run -/

def TurnQueue.labels (queue : TurnQueue τ) : List String := queue.waiting.map Job.label

def Progress.line : Progress σ τ ε → Line
  | going rota => ⟨rota.present.map Job.label, rota.queue.labels, rota.queue.spawned⟩
  | ended _ queue _ => ⟨none, queue.labels, queue.spawned⟩

/-- The run has not ended, or it has because no task was left. -/
def Progress.EndsEmpty : Progress σ τ ε → Prop
  | going _ => True
  | ended _ queue error => queue.waiting = [] ∧ error = none

namespace TurnQueue

variable (queue : TurnQueue τ) (name : String) (work : τ) (task : Job τ)

@[simp] theorem labels_add : (queue.add task).labels = queue.labels ++ [task.label] :=
  List.map_append

@[simp] theorem labels_spawn :
    (queue.spawn name work).labels = queue.labels ++ [taskLabel name (queue.spawned + 1)] :=
  List.map_append

@[simp] theorem spawned_add : (queue.add task).spawned = queue.spawned := rfl

@[simp] theorem spawned_spawn : (queue.spawn name work).spawned = queue.spawned + 1 := rfl

end TurnQueue

namespace Workload

variable (workload : Workload σ τ ε)

/-- Spawning tasks does to the line what happens by it. -/
theorem steps_spawnAll (world : σ) (queue : TurnQueue τ) (tasks : List (String × τ)) :
    Line.Steps ⟨none, queue.labels, queue.spawned⟩ (spawnings queue.spawned (tasks.map Prod.fst))
      ⟨none, (workload.spawnAll world queue tasks).2.labels,
        (workload.spawnAll world queue tasks).2.spawned⟩ := by
  induction tasks generalizing world queue with
  | nil => exact .nil
  | cons task more ih =>
    obtain ⟨name, work⟩ := task
    have hmore := ih (workload.announce (.scheduling (queue.nextLabel name)) world)
      (queue.spawn name work)
    rw [TurnQueue.labels_spawn] at hmore
    exact .cons (.spawns name) hmore

/-- A step of a run does to the line what happens by it, and a run ends where no task is left. -/
theorem steps_step {rota : Rota σ τ} (hpeaceful : ∀ task, rota.present = some task →
      (workload.move rota.queue.waiting.length rota.world task.work).IsPeaceful) :
    Line.Steps (Progress.going rota : Progress σ τ ε).line
        (workload.happening (.going rota)).toList (workload.step rota).line ∧
      (workload.step rota).EndsEmpty := by
  obtain ⟨world, ⟨waiting, spawned⟩, present⟩ := rota
  cases present with
  | none =>
    cases waiting with
    | nil => exact ⟨.nil, rfl, rfl⟩
    | cons task rest => exact ⟨Line.Step.begins.steps, trivial⟩
  | some task =>
    obtain ⟨label, work⟩ := task
    have hmove := hpeaceful _ rfl
    rw [step, happening]
    dsimp only at hmove ⊢
    cases hmoved : workload.move waiting.length world work with
    | goOn world' work' => exact ⟨.nil, trivial⟩
    | spawn world' name new work' =>
      refine ⟨?_, trivial⟩
      simpa [Progress.line, spawn, TurnQueue.nextLabel_eq] using (Line.Step.spawns name).steps
    | pause world' work' =>
      refine ⟨?_, trivial⟩
      simpa [Progress.line] using Line.Step.pauses.steps
    | finish world' => exact ⟨Line.Step.finishes.steps, trivial⟩
    | abandonOthers world' work' =>
      rw [hmoved] at hmove
      exact hmove.elim
    | fail world' error =>
      rw [hmoved] at hmove
      exact hmove.elim

end Workload

namespace TaskRun

variable {run : TaskRun σ τ ε} {k : Nat}

/-- The log of a run leads to its line. -/
theorem steps_log (hpeaceful : run.IsPeaceful) (k : Nat) :
    Line.Steps (.empty run.count) (run.log k) (run.moment k).line ∧ (run.moment k).EndsEmpty := by
  induction k with
  | zero => exact ⟨run.workload.steps_spawnAll run.world ⟨[], run.count⟩ run.tasks, trivial⟩
  | succ k ih =>
    rw [log, moment, happening]
    cases hmoment : run.moment k with
    | ended world queue error =>
      rw [hmoment] at ih
      simpa [Workload.happening, Progress.next] using ih
    | going rota =>
      rw [hmoment] at ih
      obtain ⟨hstep, hends⟩ := run.workload.steps_step fun task ↦ hpeaceful k rota task hmoment
      exact ⟨ih.1.append hstep, hends⟩

theorem isSpawn_of_mem_spawnings {count : Nat} {names : List String} {happening : Happening}
    (h : happening ∈ spawnings count names) : happening.IsSpawn := by
  induction names generalizing count with
  | nil => cases h
  | cons name more ih =>
    obtain rfl | h := List.mem_cons.1 h
    · trivial
    · exact ih h

/-- Whatever is in the log of a run has happened at some step, unless a task was spawned before the
run. -/
theorem exists_happening {before after : List Happening} {happening : Happening}
    (hlog : run.log k = before ++ happening :: after) (hspawn : ¬ happening.IsSpawn) :
    ∃ i < k, run.log i = before ∧ run.happening i = some happening := by
  induction k generalizing after with
  | zero =>
    have hmem : happening ∈ spawnings run.count (run.tasks.map Prod.fst) := by
      rw [← log, hlog]
      simp
    exact (hspawn (isSpawn_of_mem_spawnings hmem)).elim
  | succ k ih =>
    rw [log] at hlog
    cases hnow : run.happening k with
    | none =>
      rw [hnow, Option.toList_none, List.append_nil] at hlog
      obtain ⟨i, hlt, h⟩ := ih hlog
      exact ⟨i, Nat.lt_succ_of_lt hlt, h⟩
    | some now =>
      rw [hnow, Option.toList_some] at hlog
      obtain ⟨hbefore, rfl, -⟩ | ⟨rest, -, hrest⟩ := eq_or_exists_of_append_eq hlog
      · exact ⟨k, Nat.lt_succ_self k, hbefore, hnow⟩
      · obtain ⟨i, hlt, h⟩ := ih hrest
        exact ⟨i, Nat.lt_succ_of_lt hlt, h⟩

/-- Two turns of a task one after the other are separated by a pause, and by the turns of those that
stand in the queue at that moment. -/
theorem exists_between {before middle after : List Happening} {label : String}
    (hpeaceful : run.IsPeaceful)
    (hlog : run.log k = before ++ .begins label :: (middle ++ .begins label :: after))
    (hmiddle : .begins label ∉ middle) :
    ∃ turn between i rota, middle = turn ++ .pauses label :: between ∧ i < k ∧
      run.moment i = .going rota ∧ run.log i = before ++ .begins label :: turn ∧
      run.happening i = some (.pauses label) ∧ collect begun? turn = [] ∧
      collect begun? between = rota.queue.labels ∧ rota.queue.labels.Nodup ∧
      (∀ other ∈ collect spawned? turn, other ∈ collect begun? between) ∧
      ∀ other ∈ collect spawned? between, other ∉ collect begun? between := by
  have hsteps := (steps_log hpeaceful k).1
  rw [hlog, List.append_cons middle, ← List.cons_append, ← List.append_assoc] at hsteps
  obtain ⟨line, hturns, -⟩ := Line.steps_append_iff.1 hsteps
  obtain ⟨turn, between, line', rfl, hturn, hquiet, hbegun, hspawned, hlater⟩ :=
    hturns.exists_between hmiddle
  have hpaused : run.log k = (before ++ .begins label :: turn) ++
      .pauses label :: (between ++ .begins label :: after) := by
    simpa using hlog
  obtain ⟨i, hlt, hlogi, hpauses⟩ := exists_happening hpaused id
  have hsteps := (steps_log hpeaceful i).1
  rw [hlogi] at hsteps
  obtain rfl := hsteps.unique hturn
  cases hmoment : run.moment i with
  | ended world queue error =>
    rw [happening, hmoment] at hpauses
    cases hpauses
  | going rota =>
    rw [hmoment] at hbegun hspawned hlater hsteps
    refine ⟨turn, between, i, rota, rfl, hlt, hmoment, hlogi, hpauses, hquiet, hbegun,
      hsteps.accounts.nodup_waiting, ?_, ?_⟩ <;> rwa [hbegun]

/-- In a run in which no task fails, tasks get their first turns in the order in which they were
spawned. Between two turns of a task, those get one that stand in the queue when it is put back,
among them all that it has spawned in its turn. No task is lost, and none has a turn after it is
finished. When the run has ended, every task has had one turn more than it has paused. -/
theorem turns_are_fair (run : TaskRun σ τ ε) (hpeaceful : run.IsPeaceful) (k : Nat) :
    (collect spawned? (run.log k) =
        (collect name? (run.log k)).mapIdx fun i name ↦ taskLabel name (run.count + i + 1)) ∧
      (collect spawned? (run.log k)).Nodup ∧
      (collect begun? (run.log k)).eraseDups <+: collect spawned? (run.log k) ∧
      (∀ before middle after label,
        run.log k = before ++ .begins label :: (middle ++ .begins label :: after) →
        .begins label ∉ middle →
          ∃ turn between i rota, middle = turn ++ .pauses label :: between ∧ i < k ∧
            run.moment i = .going rota ∧ run.log i = before ++ .begins label :: turn ∧
            run.happening i = some (.pauses label) ∧ collect begun? turn = [] ∧
            collect begun? between = rota.queue.labels ∧ rota.queue.labels.Nodup ∧
            (∀ other ∈ collect spawned? turn, other ∈ collect begun? between) ∧
            ∀ other ∈ collect spawned? between, other ∉ collect begun? between) ∧
      (∀ rota, run.moment k = .going rota →
        ((rota.present.map Job.label).toList ++ rota.queue.labels ++
          collect finished? (run.log k)).Perm (collect spawned? (run.log k))) ∧
      (∀ before after label, run.log k = before ++ .finishes label :: after →
        .begins label ∉ after) ∧
      ∀ world queue error, run.moment k = .ended world queue error →
        error = none ∧ queue.waiting = [] ∧
          (collect finished? (run.log k)).Perm (collect spawned? (run.log k)) ∧
          ∀ label ∈ collect spawned? (run.log k),
            (collect begun? (run.log k)).count label =
              (collect paused? (run.log k)).count label + 1 := by
  obtain ⟨hsteps, hends⟩ := steps_log hpeaceful k
  have haccounts := hsteps.accounts
  refine ⟨haccounts.labels, haccounts.nodup, ⟨_, haccounts.firsts⟩, ?_, ?_, ?_, ?_⟩
  · exact fun before middle after label ↦ exists_between hpeaceful
  · intro rota hmoment
    have heveryone := haccounts.everyone
    rwa [hmoment] at heveryone
  · intro before after label hlog
    rw [hlog] at hsteps
    exact hsteps.not_begins_of_finishes
  · intro world queue error hmoment
    rw [hmoment] at hends haccounts
    obtain ⟨hwaiting, rfl⟩ := hends
    have hperm : (collect finished? (run.log k)).Perm (collect spawned? (run.log k)) := by
      simpa [Progress.line, TurnQueue.labels, hwaiting] using haccounts.everyone
    refine ⟨rfl, hwaiting, hperm, fun label hlabel ↦ ?_⟩
    have hturns := haccounts.turns label
    have honce := List.count_eq_one_of_mem (hperm.nodup_iff.2 haccounts.nodup)
      (hperm.mem_iff.2 hlabel)
    simpa [Progress.line, honce] using hturns

end TaskRun

/-! ### Tasks that spawn and count -/

/-- Tasks that first spawn others a number of times and then pause a number of times. What they
spawn pauses once. -/
def counters : Workload Unit (Nat × Nat) Empty where
  move := fun _ world counter ↦ match counter with
    | (toSpawn + 1, toPause) => .spawn world "c" (0, 1) (toSpawn, toPause)
    | (0, toPause + 1) => .pause world (0, toPause)
    | (0, 0) => .finish world
  announce := fun _ world ↦ world

/-- A task that is spawned in the first turn of another one has its turn before the second turn of
that one, but after a task that waited already. -/
theorem TaskRun.turns_are_fair_of_counters : ∃ run : TaskRun Unit (Nat × Nat) Empty,
    run = ⟨counters, (), 0, [("a", 1, 2), ("b", 0, 1)]⟩ ∧ run.IsPeaceful ∧
      (∃ rest, run.moment 16 = .ended () rest none) ∧
      collect begun? (run.log 16) = ["a#1", "b#2", "c#3", "a#1", "b#2", "c#3", "a#1"] ∧
      ∀ label ∈ ["a#1", "b#2", "c#3"], (collect begun? (run.log 16)).count label =
        (collect paused? (run.log 16)).count label + 1 := by
  let run : TaskRun Unit (Nat × Nat) Empty := ⟨counters, (), 0, [("a", 1, 2), ("b", 0, 1)]⟩
  have hpeaceful : run.IsPeaceful := by
    intro k rota task hmoment hpresent
    obtain ⟨label, toSpawn | toSpawn, toPause | toPause⟩ := task <;> trivial
  have hbegun : collect begun? (run.log 16) =
      ["a#1", "b#2", "c#3", "a#1", "b#2", "c#3", "a#1"] := by
    decide +kernel
  have hspawned : collect spawned? (run.log 16) = ["a#1", "b#2", "c#3"] := by
    decide +kernel
  have hends : (match run.moment 16 with
      | .ended _ _ _ => true
      | .going _ => false) = true := by
    decide +kernel
  split at hends
  next world rest error hmoment =>
    obtain ⟨-, -, -, -, -, -, hended⟩ := run.turns_are_fair hpeaceful 16
    obtain ⟨rfl, -, -, hturns⟩ := hended world rest error hmoment
    rw [hspawned] at hturns
    exact ⟨run, rfl, hpeaceful, ⟨rest, hmoment⟩, hbegun, hturns⟩
  next => cases hends

end LateConst
