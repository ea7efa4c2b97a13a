import LateConst.Proofs.RoundRobin.Fairness
import Mathlib.Data.List.Induction

/-!
# The course of a task

Announcements are what can be told from outside about the happenings in a line of tasks, where the
beginning of a turn stays untold. What is told about one task has a fixed course
(`Line.Steps.notes_of_label`): it is scheduled, it pauses some number of times, and then it may be
finished. Here a task may fail, which ends the run with others waiting; all are finished exactly
if none has failed (`TaskRun.finished_iff`).
-/

namespace LateConst

open Happening

/-! ### Announcements -/

namespace Note

def label : Note → String
  | scheduling label => label
  | paused label => label
  | finished label => label

def scheduled? : Note → Option String
  | scheduling label => some label
  | _ => none

def finished? : Note → Option String
  | finished label => some label
  | _ => none

/-- All that is announced about a task that has paused so often, and is finished or not. -/
def course (label : String) (pauses : Nat) (isFinished : Bool) : List Note :=
  scheduling label ::
    (List.replicate pauses (paused label) ++ if isFinished then [finished label] else [])

theorem course_append_paused (label : String) (pauses : Nat) :
    course label pauses false ++ [paused label] = course label (pauses + 1) false := by
  simp [course, List.replicate_succ']

theorem course_append_finished (label : String) (pauses : Nat) :
    course label pauses false ++ [finished label] = course label pauses true := by
  simp [course]

end Note

def Happening.note? : Happening → Option Note
  | spawns _ label => some (.scheduling label)
  | begins _ => none
  | pauses label => some (.paused label)
  | finishes label => some (.finished label)

def Happening.notes (log : List Happening) : List Note := log.filterMap note?

namespace Happening

theorem notes_append (log log' : List Happening) : notes (log ++ log') = notes log ++ notes log' :=
  List.filterMap_append

theorem filterMap_scheduled?_notes (log : List Happening) :
    (notes log).filterMap Note.scheduled? = collect spawned? log := by
  rw [notes, List.filterMap_filterMap, collect]
  refine List.filterMap_congr fun happening _ ↦ ?_
  cases happening <;> rfl

theorem filterMap_finished?_notes (log : List Happening) :
    (notes log).filterMap Note.finished? = collect finished? log := by
  rw [notes, List.filterMap_filterMap, collect]
  refine List.filterMap_congr fun happening _ ↦ ?_
  cases happening <;> rfl

end Happening

/-! ### The course of one task in a line -/

namespace Line

variable {base : Nat} {log : List Happening} {line : Line} {label : String}

namespace Accounts

theorem mem_spawned_of_paused (h : Accounts base log line) (hlabel : label ∈ collect paused? log) :
    label ∈ collect spawned? log := by
  have hturns := h.turns label
  have hpos := List.count_pos_iff.2 hlabel
  exact h.mem_spawned_of_begun (List.count_pos_iff.1 (by omega))

theorem mem_spawned_of_finished (h : Accounts base log line)
    (hlabel : label ∈ collect finished? log) : label ∈ collect spawned? log :=
  h.everyone.mem_iff.1 (List.mem_append_right _ hlabel)

theorem mem_spawned_of_present (h : Accounts base log line) (hlabel : line.present = some label) :
    label ∈ collect spawned? log :=
  h.mem_spawned_of_begun (h.mem_begun_of_present hlabel)

theorem not_mem_finished_of_present (h : Accounts base log line)
    (hlabel : line.present = some label) : label ∉ collect finished? log := by
  have hnodup := h.nodup_everyone
  rw [hlabel] at hnodup
  exact fun hmem ↦ List.disjoint_of_nodup_append hnodup
    (List.mem_append_left _ (List.mem_singleton_self label)) hmem

end Accounts

/-- What is announced about a task: it is scheduled, it pauses as often as the log says, and it may
be finished; or nothing is announced about it. -/
theorem Steps.notes_of_label (h : Steps (.empty base) log line) (label : String) :
    (notes log).filter (·.label == label) =
      if label ∈ collect spawned? log then
        Note.course label ((collect paused? log).count label)
          (decide (label ∈ collect finished? log))
      else [] := by
  induction log using List.reverseRecOn generalizing line with
  | nil => rfl
  | append_singleton log happening ih =>
    obtain ⟨line, hlog, hsteps⟩ := steps_append_iff.1 h
    have haccounts := hlog.accounts
    have hbefore := ih hlog
    rw [notes_append, List.filter_append, hbefore]
    cases hsteps with
    | cons hstep hnil =>
      cases hnil
      cases hstep with
      | @spawns present waiting count name =>
        have hnew := haccounts.taskLabel_not_mem name
        by_cases heq : label = taskLabel name (count + 1)
        · subst heq
          have hpaused := mt haccounts.mem_spawned_of_paused hnew
          have hfinished := mt haccounts.mem_spawned_of_finished hnew
          simp [notes, note?, Note.label, hnew, hfinished, List.count_eq_zero.2 hpaused,
            Note.course]
        · simp [notes, note?, Note.label, heq, Ne.symm heq]
      | @begins other waiting count => simp [notes, note?]
      | @pauses other waiting count =>
        by_cases heq : label = other
        · subst heq
          have hspawned := haccounts.mem_spawned_of_present rfl
          have hfinished := haccounts.not_mem_finished_of_present rfl
          simp [notes, note?, Note.label, hspawned, hfinished, Note.course_append_paused]
        · simp [notes, note?, Note.label, Ne.symm heq]
      | @finishes other waiting count =>
        by_cases heq : label = other
        · subst heq
          have hspawned := haccounts.mem_spawned_of_present rfl
          have hfinished := haccounts.not_mem_finished_of_present rfl
          simp [notes, note?, Note.label, hspawned, hfinished, Note.course_append_finished]
        · simp [notes, note?, Note.label, heq, Ne.symm heq]

end Line

/-! ### Runs in which a task may fail -/

variable {σ τ ε : Type}

/-- The tasks that wait are not given up, unless the run ends. -/
def Move.KeepsOthers : Move σ τ ε → Prop
  | abandonOthers _ _ => False
  | _ => True

/-- The line in which tasks stand, or stood when one of them failed. -/
def Progress.LeavesLine : Progress σ τ ε → Line → Prop
  | going rota, line => line = (going rota : Progress σ τ ε).line
  | ended _ _ none, line => line.present = none ∧ line.waiting = []
  | ended _ _ (some _), line => line.present.isSome

theorem Progress.EndsEmpty.leavesLine {progress : Progress σ τ ε} (h : progress.EndsEmpty) :
    progress.LeavesLine progress.line := by
  cases progress with
  | going rota => rfl
  | ended world queue error =>
    obtain ⟨hwaiting, rfl⟩ := h
    exact ⟨rfl, congrArg (List.map Job.label) hwaiting⟩

/-- A step does to the line what happens by it, and leaves it as it is if the present task fails. -/
theorem Workload.exists_steps_step (workload : Workload σ τ ε)
    (hkeeps : ∀ waiting world work, (workload.move waiting world work).KeepsOthers)
    (rota : Rota σ τ) : ∃ line,
      Line.Steps (Progress.going rota : Progress σ τ ε).line
        (workload.happening (.going rota)).toList line ∧ (workload.step rota).LeavesLine line := by
  by_cases hpeaceful : ∀ task, rota.present = some task →
      (workload.move rota.queue.waiting.length rota.world task.work).IsPeaceful
  · obtain ⟨hsteps, hends⟩ := workload.steps_step hpeaceful
    exact ⟨_, hsteps, hends.leavesLine⟩
  · push Not at hpeaceful
    obtain ⟨⟨label, work⟩, hpresent, hmove⟩ := hpeaceful
    obtain ⟨world, queue, present⟩ := rota
    obtain rfl : present = some ⟨label, work⟩ := hpresent
    have hkeeps := hkeeps queue.waiting.length world work
    dsimp only at hmove
    cases hmoved : workload.move queue.waiting.length world work with
    | fail world' error =>
      refine ⟨⟨some label, queue.labels, queue.spawned⟩, ?_, ?_⟩
      · rw [happening, hmoved]
        exact .nil
      · rw [step]
        dsimp only
        rw [hmoved]
        rfl
    | abandonOthers world' work' =>
      rw [hmoved] at hkeeps
      exact hkeeps.elim
    | _ =>
      rw [hmoved] at hmove
      exact (hmove trivial).elim

namespace TaskRun

variable {run : TaskRun σ τ ε} {k : Nat}

theorem exists_steps_log
    (hkeeps : ∀ waiting world work, (run.workload.move waiting world work).KeepsOthers) (k : Nat) :
    ∃ line, Line.Steps (.empty run.count) (run.log k) line ∧ (run.moment k).LeavesLine line := by
  induction k with
  | zero => exact ⟨_, run.workload.steps_spawnAll run.world ⟨[], run.count⟩ run.tasks, rfl⟩
  | succ k ih =>
    obtain ⟨line, hlog, hline⟩ := ih
    rw [log, moment, happening]
    cases hmoment : run.moment k with
    | ended world queue error =>
      rw [hmoment] at hline
      exact ⟨line, by simpa [Workload.happening] using hlog, hline⟩
    | going rota =>
      rw [hmoment] at hline
      obtain rfl := hline
      obtain ⟨line', hstep, hline'⟩ := run.workload.exists_steps_step hkeeps rota
      exact ⟨line', hlog.append hstep, hline'⟩

/-- When a run has ended, all tasks are finished if and only if none has failed. -/
theorem finished_iff
    (hkeeps : ∀ waiting world work, (run.workload.move waiting world work).KeepsOthers)
    {world : σ} {queue : TurnQueue τ} {error : Option ε}
    (hended : run.moment k = .ended world queue error) :
    (∀ label ∈ collect spawned? (run.log k), label ∈ collect finished? (run.log k)) ↔
      error = none := by
  obtain ⟨line, hlog, hline⟩ := exists_steps_log hkeeps k
  rw [hended] at hline
  cases error with
  | none =>
    obtain ⟨hpresent, hwaiting⟩ := hline
    refine ⟨fun _ ↦ rfl, fun _ label hlabel ↦ ?_⟩
    simpa [hpresent, hwaiting] using hlog.accounts.everyone.mem_iff.2 hlabel
  | some error =>
    obtain ⟨label, hlabel⟩ := Option.isSome_iff_exists.1 hline
    refine ⟨fun hall ↦ ?_, nofun⟩
    exact (hlog.accounts.not_mem_finished_of_present hlabel
      (hall label (hlog.accounts.mem_spawned_of_present hlabel))).elim

end TaskRun

end LateConst
