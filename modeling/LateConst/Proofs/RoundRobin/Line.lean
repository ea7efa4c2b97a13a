import LateConst.Proofs.RoundRobin
import Mathlib.Data.List.Indexes
import Mathlib.Data.List.Nodup
import Mathlib.Data.List.Perm.Basic

/-!
# A line of tasks

What can be seen of tasks that take turns, by someone who only reads their labels: tasks are
spawned, begin a turn, pause and are finished. The `Line` is what is left of a queue when everything
but the labels is taken away, and it knows whose turn it is.

A log of such happenings that a line allows determines the line. `Line.Accounts` is what the log
tells about it: every task that has been spawned is there or is finished, those that had no turn yet
stand in the order in which they were spawned, and nobody has had a turn that was not ended by a
pause but for the present task and those that are finished.
-/

namespace LateConst

/-! ### Logs -/

/-- Something that happens to a task, which is given by its label. -/
inductive Happening where
  | spawns (name label : String)
  | begins (label : String)
  | pauses (label : String)
  | finishes (label : String)
  deriving DecidableEq

namespace Happening

def IsSpawn : Happening → Prop
  | spawns _ _ => True
  | _ => False

@[simp] def name? : Happening → Option String
  | spawns name _ => some name
  | _ => none

@[simp] def spawned? : Happening → Option String
  | spawns _ label => some label
  | _ => none

@[simp] def begun? : Happening → Option String
  | begins label => some label
  | _ => none

@[simp] def paused? : Happening → Option String
  | pauses label => some label
  | _ => none

@[simp] def finished? : Happening → Option String
  | finishes label => some label
  | _ => none

/-- What a log tells of one kind of happenings, in their order. -/
def collect (tell : Happening → Option String) (log : List Happening) : List String :=
  log.filterMap tell

variable (tell : Happening → Option String) (happening : Happening) (log log' : List Happening)

@[simp] theorem collect_nil : collect tell [] = [] := rfl

@[simp] theorem collect_append :
    collect tell (log ++ log') = collect tell log ++ collect tell log' :=
  List.filterMap_append

@[simp] theorem collect_cons :
    collect tell (happening :: log) = (tell happening).toList ++ collect tell log := by
  rw [collect, List.filterMap_cons]
  cases tell happening <;> rfl

end Happening

/-- An element of a list is its last one or stands before the last one. -/
theorem eq_or_exists_of_append_eq {α : Type} {l before after : List α} {last a : α}
    (h : l ++ [last] = before ++ a :: after) : (l = before ∧ last = a ∧ after = []) ∨
      ∃ rest, after = rest ++ [last] ∧ l = before ++ a :: rest := by
  obtain rfl | ⟨rest, b, hafter⟩ := after.eq_nil_or_concat
  · obtain ⟨hl, hlast⟩ := List.append_inj' h rfl
    exact .inl ⟨hl, List.singleton_inj.1 hlast, rfl⟩
  · obtain rfl : after = rest ++ [b] := by rw [hafter, List.concat_eq_append]
    rw [← List.cons_append, ← List.append_assoc] at h
    obtain ⟨hl, hlast⟩ := List.append_inj' h rfl
    obtain rfl := List.singleton_inj.1 hlast
    exact .inr ⟨rest, rfl, hl⟩

/-! ### Lines -/

/-- Whose turn it is, who waits for one, and how many tasks have been spawned. -/
structure Line where
  present : Option String
  waiting : List String
  count : Nat
  deriving DecidableEq

namespace Line

open Happening

def empty (count : Nat) : Line := ⟨none, [], count⟩

/-- What a line allows to happen, and the line that comes of it. -/
inductive Step : Line → Happening → Line → Prop
  | spawns {present : Option String} {waiting : List String} {count : Nat} (name : String) :
    Step ⟨present, waiting, count⟩ (.spawns name (taskLabel name (count + 1)))
      ⟨present, waiting ++ [taskLabel name (count + 1)], count + 1⟩
  | begins {label : String} {waiting : List String} {count : Nat} :
    Step ⟨none, label :: waiting, count⟩ (.begins label) ⟨some label, waiting, count⟩
  | pauses {label : String} {waiting : List String} {count : Nat} :
    Step ⟨some label, waiting, count⟩ (.pauses label) ⟨none, waiting ++ [label], count⟩
  | finishes {label : String} {waiting : List String} {count : Nat} :
    Step ⟨some label, waiting, count⟩ (.finishes label) ⟨none, waiting, count⟩

inductive Steps : Line → List Happening → Line → Prop
  | nil {line : Line} : Steps line [] line
  | cons {line line' line'' : Line} {happening : Happening} {log : List Happening}
      (h : Step line happening line') (hlog : Steps line' log line'') :
      Steps line (happening :: log) line''

variable {line line' line'' : Line} {happening : Happening} {log log' : List Happening}

theorem Step.unique (h : Step line happening line') (h' : Step line happening line'') :
    line' = line'' := by
  cases h <;> cases h' <;> rfl

theorem Steps.unique (h : Steps line log line') (h' : Steps line log line'') : line' = line'' := by
  induction h with
  | nil =>
    cases h'
    rfl
  | cons hstep hlog ih =>
    cases h' with
    | cons hstep' hlog' =>
      obtain rfl := hstep.unique hstep'
      exact ih hlog'

theorem steps_append_iff :
    Steps line (log ++ log') line'' ↔ ∃ line', Steps line log line' ∧ Steps line' log' line'' := by
  induction log generalizing line with
  | nil =>
    constructor
    · exact fun h ↦ ⟨line, .nil, h⟩
    · rintro ⟨line', hnil, h⟩
      cases hnil
      exact h
  | cons happening log ih =>
    constructor
    · intro h
      cases h with
      | cons hstep hlog =>
        obtain ⟨line', h, h'⟩ := ih.1 hlog
        exact ⟨line', .cons hstep h, h'⟩
    · rintro ⟨line', h, h'⟩
      cases h with
      | cons hstep hlog => exact .cons hstep (ih.2 ⟨line', hlog, h'⟩)

theorem Steps.append (h : Steps line log line') (h' : Steps line' log' line'') :
    Steps line (log ++ log') line'' :=
  steps_append_iff.2 ⟨line', h, h'⟩

theorem Step.steps (h : Step line happening line') : Steps line [happening] line' := .cons h .nil

/-- Tasks come by being spawned and go by being finished. -/
theorem Step.count_everyone (h : Step line happening line') (label : String) :
    (line'.present.toList ++ line'.waiting).count label +
        (collect finished? [happening]).count label =
      (line.present.toList ++ line.waiting).count label +
        (collect spawned? [happening]).count label := by
  cases h <;> simp [List.count_cons]
  omega

/-- A turn that has begun is the present one until it ends by a pause or the task is finished. -/
theorem Step.count_turns (h : Step line happening line') (label : String) :
    line'.present.toList.count label + (collect paused? [happening]).count label +
        (collect finished? [happening]).count label =
      line.present.toList.count label + (collect begun? [happening]).count label := by
  cases h <;> simp

/-! ### What a log tells about a line -/

/-- What a log that begins with an empty line tells about the line that it leads to. -/
structure Accounts (base : Nat) (log : List Happening) (line : Line) : Prop where
  count : line.count = base + (collect name? log).length
  labels : collect spawned? log =
    (collect name? log).mapIdx fun i name ↦ taskLabel name (base + i + 1)
  /-- Every task is there or is finished. -/
  everyone : (line.present.toList ++ line.waiting ++ collect finished? log).Perm
    (collect spawned? log)
  /-- The tasks that had no turn yet stand in the order in which they were spawned, behind those
  that had one. -/
  firsts : (collect begun? log).eraseDups ++ line.waiting.filter (· ∉ collect begun? log) =
    collect spawned? log
  turns : ∀ label, (collect begun? log).count label =
    (collect paused? log).count label + (line.present.toList ++ collect finished? log).count label

namespace Accounts

variable {base : Nat}

theorem empty (base : Nat) : Accounts base [] (Line.empty base) :=
  ⟨rfl, rfl, .refl _, rfl, fun _ ↦ rfl⟩

theorem nodup (h : Accounts base log line) : (collect spawned? log).Nodup := by
  rw [h.labels, List.nodup_iff_getElem?_ne_getElem?]
  intro i j hlt hj heq
  rw [List.length_mapIdx] at hj
  rw [List.getElem?_mapIdx, List.getElem?_mapIdx, List.getElem?_eq_getElem hj,
    List.getElem?_eq_getElem (Nat.lt_trans hlt hj)] at heq
  have := number_eq_of_taskLabel_eq (Option.some.inj heq)
  omega

theorem nodup_everyone (h : Accounts base log line) :
    (line.present.toList ++ line.waiting ++ collect finished? log).Nodup :=
  h.everyone.nodup_iff.2 h.nodup

theorem nodup_waiting (h : Accounts base log line) : line.waiting.Nodup :=
  h.nodup_everyone.of_append_left.of_append_right

theorem mem_spawned_of_begun (h : Accounts base log line) {label : String}
    (hlabel : label ∈ collect begun? log) : label ∈ collect spawned? log := by
  rw [← h.firsts]
  exact List.mem_append_left _ (List.mem_eraseDups.2 hlabel)

theorem mem_begun_of_present (h : Accounts base log line) {label : String}
    (hlabel : line.present = some label) : label ∈ collect begun? log := by
  have hturns := h.turns label
  rw [hlabel] at hturns
  have hpos : 0 < (collect begun? log).count label := by
    rw [hturns, List.count_append, Option.toList_some, List.count_singleton_self]
    omega
  exact List.count_pos_iff.1 hpos

/-- The next task that is spawned is none of the others. -/
theorem taskLabel_not_mem (h : Accounts base log line) (name : String) :
    taskLabel name (line.count + 1) ∉ collect spawned? log := by
  rw [h.labels, h.count, List.mem_mapIdx]
  rintro ⟨i, hi, heq⟩
  have := number_eq_of_taskLabel_eq heq
  omega

theorem step (h : Accounts base log line) (hstep : Step line happening line') :
    Accounts base (log ++ [happening]) line' := by
  have heveryone : (line'.present.toList ++ line'.waiting ++
      collect finished? (log ++ [happening])).Perm (collect spawned? (log ++ [happening])) := by
    rw [List.perm_iff_count]
    intro label
    have hbefore := h.everyone.count_eq label
    have hstep := hstep.count_everyone label
    simp only [collect_append, List.count_append] at hbefore hstep ⊢
    omega
  have hturns (label : String) : (collect begun? (log ++ [happening])).count label =
      (collect paused? (log ++ [happening])).count label +
        (line'.present.toList ++ collect finished? (log ++ [happening])).count label := by
    have hbefore := h.turns label
    have hstep := hstep.count_turns label
    simp only [collect_append, List.count_append] at hbefore hstep ⊢
    omega
  obtain ⟨hcount, hlabels, -, hfirsts, -⟩ := id h
  cases hstep with
  | @spawns present waiting count name =>
    obtain rfl : count = base + (collect name? log).length := hcount
    have hnew := h.taskLabel_not_mem name
    have hbegun := mt h.mem_spawned_of_begun hnew
    refine ⟨?_, ?_, heveryone, ?_, hturns⟩
    · simp [Nat.add_assoc]
    · simp [hlabels, Nat.add_assoc]
    · rw [← hfirsts] at hnew
      simp [← hfirsts, hbegun]
  | @begins label waiting count =>
    obtain ⟨hlabel, -⟩ := List.nodup_cons.1 h.nodup_waiting
    have hothers : waiting.filter (· ∉ collect begun? log ++ [label]) =
        waiting.filter (· ∉ collect begun? log) := by
      refine List.filter_congr fun other hother ↦ ?_
      have hne : other ≠ label := fun heq ↦ hlabel (heq ▸ hother)
      simp [hne]
    have hbegins : collect begun? (log ++ [.begins label]) = collect begun? log ++ [label] := by
      simp
    have hspawned : collect spawned? (log ++ [.begins label]) = collect spawned? log := by simp
    refine ⟨by simpa using hcount, by simpa using hlabels, heveryone, ?_, hturns⟩
    rw [hspawned, ← hfirsts, hbegins, hothers, List.eraseDups_append]
    by_cases hbegun : label ∈ collect begun? log <;>
      simp [List.removeAll, List.eraseDups_cons, hbegun]
  | @pauses label waiting count =>
    have hbegun := h.mem_begun_of_present rfl
    exact ⟨by simpa using hcount, by simpa using hlabels, heveryone,
      by simpa [hbegun] using hfirsts, hturns⟩
  | @finishes label waiting count =>
    exact ⟨by simpa using hcount, by simpa using hlabels, heveryone, by simpa using hfirsts,
      hturns⟩

theorem steps (h : Accounts base log line) (hsteps : Steps line log' line') :
    Accounts base (log ++ log') line' := by
  induction hsteps generalizing log with
  | nil => rwa [List.append_nil]
  | cons hstep hlog ih =>
    rw [List.append_cons]
    exact ih (h.step hstep)

end Accounts

theorem Steps.accounts {base : Nat} (h : Steps (.empty base) log line) : Accounts base log line :=
  (Accounts.empty base).steps h

/-! ### From one turn of a task to its next -/

/-- While a task spawns others they come to the end of the line, and its turn goes on. -/
theorem Steps.of_spawns (h : Steps line log line') (hlog : ∀ happening ∈ log, happening.IsSpawn) :
    line'.present = line.present ∧ line'.waiting = line.waiting ++ collect spawned? log ∧
      collect begun? log = [] := by
  induction h with
  | nil => simp
  | cons hstep hlog' ih =>
    obtain ⟨hspawn, hlog⟩ := List.forall_mem_cons.1 hlog
    obtain ⟨hpresent, hwaiting, hbegun⟩ := ih hlog
    cases hstep with
    | spawns name => exact ⟨hpresent, by simp [hwaiting], by simp [hbegun]⟩
    | _ => exact hspawn.elim

/-- A turn goes on, with nothing but tasks being spawned, or it has ended. -/
theorem Steps.exists_turn (h : Steps line log line') {label : String}
    (hpresent : line.present = some label) : (∀ happening ∈ log, happening.IsSpawn) ∨
      ∃ turn last after, log = turn ++ last :: after ∧ (∀ happening ∈ turn, happening.IsSpawn) ∧
        (last = .pauses label ∨ last = .finishes label) := by
  induction h with
  | nil => exact .inl fun _ hmem ↦ by cases hmem
  | @cons line _ _ happening log hstep hlog ih =>
    cases hstep with
    | spawns name =>
      obtain hspawns | ⟨turn, last, after, rfl, hturn, hlast⟩ := ih hpresent
      · exact .inl (List.forall_mem_cons.2 ⟨trivial, hspawns⟩)
      · exact .inr ⟨_ :: turn, last, after, rfl, List.forall_mem_cons.2 ⟨trivial, hturn⟩, hlast⟩
    | begins => cases hpresent
    | pauses =>
      obtain rfl := Option.some.inj hpresent
      exact .inr ⟨[], _, log, rfl, fun _ hmem ↦ (by cases hmem), .inl rfl⟩
    | finishes =>
      obtain rfl := Option.some.inj hpresent
      exact .inr ⟨[], _, log, rfl, fun _ hmem ↦ (by cases hmem), .inr rfl⟩

/-- Nobody is put before a waiting task, and only the first of a line can have a turn. -/
theorem Step.ahead (h : Step line happening line') {ahead later : List String} {label : String}
    (hwaiting : line.waiting = ahead ++ label :: later) (hne : happening ≠ .begins label) :
    ∃ ahead' later', line'.waiting = ahead' ++ label :: later' ∧
      collect begun? [happening] ++ ahead' = ahead := by
  have hput (last : String) : (ahead ++ label :: later) ++ [last] =
      ahead ++ label :: (later ++ [last]) := by simp
  cases h with
  | spawns name => exact ⟨ahead, _, (congrArg (· ++ [_]) hwaiting).trans (hput _), rfl⟩
  | pauses => exact ⟨ahead, _, (congrArg (· ++ [_]) hwaiting).trans (hput _), rfl⟩
  | finishes => exact ⟨ahead, later, hwaiting, rfl⟩
  | begins =>
    cases ahead with
    | nil =>
      obtain ⟨rfl, -⟩ := List.cons.inj hwaiting
      exact (hne rfl).elim
    | cons other ahead =>
      obtain ⟨rfl, hrest⟩ := List.cons.inj hwaiting
      exact ⟨ahead, later, hrest, rfl⟩

/-- Until a waiting task has its turn, those ahead of it have theirs, in their order, and no
others. -/
theorem Steps.ahead (h : Steps line log line') {ahead later : List String} {label : String}
    (hwaiting : line.waiting = ahead ++ label :: later) (hlog : .begins label ∉ log) :
    ∃ ahead' later', line'.waiting = ahead' ++ label :: later' ∧
      collect begun? log ++ ahead' = ahead := by
  induction h generalizing ahead later with
  | nil => exact ⟨ahead, later, hwaiting, rfl⟩
  | cons hstep hsteps ih =>
    obtain ⟨hne, hlog⟩ := not_or.1 (mt List.mem_cons.2 hlog)
    obtain ⟨ahead', later', hwaiting', rfl⟩ := hstep.ahead hwaiting (Ne.symm hne)
    obtain ⟨ahead'', later'', hwaiting'', rfl⟩ := ih hwaiting' hlog
    exact ⟨ahead'', later'', hwaiting'', by simp⟩

/-- A task that is finished does not come back. -/
theorem Steps.not_begins_of_finishes {base : Nat} {label : String}
    (h : Steps (.empty base) (log ++ .finishes label :: log') line) : .begins label ∉ log' := by
  intro hmem
  obtain ⟨before, after, rfl⟩ := List.append_of_mem hmem
  rw [← List.cons_append, ← List.append_assoc] at h
  obtain ⟨line', h, h'⟩ := steps_append_iff.1 h
  have hnodup := h.accounts.nodup_everyone
  cases h' with
  | cons hstep hafter =>
    cases hstep
    simp at hnodup

section Between

variable {base : Nat} {before middle : List Happening} {label : String}

/-- A turn that is followed by another one of the same task has ended by a pause. -/
theorem Steps.exists_pauses
    (h : Steps (.empty base) (before ++ .begins label :: (middle ++ [.begins label])) line) :
    ∃ turn between, middle = turn ++ .pauses label :: between ∧
      ∀ happening ∈ turn, happening.IsSpawn := by
  obtain ⟨line₁, -, hrest⟩ := steps_append_iff.1 h
  obtain ⟨turn, last, after, heq, hturn, hlast⟩ : ∃ turn last after,
      middle ++ [.begins label] = turn ++ last :: after ∧
        (∀ happening ∈ turn, happening.IsSpawn) ∧
        (last = .pauses label ∨ last = .finishes label) := by
    cases hrest with
    | cons hbegins hmiddle =>
      cases hbegins
      obtain hspawns | hturn := hmiddle.exists_turn rfl
      · exact (hspawns (.begins label) (by simp)).elim
      · exact hturn
  obtain ⟨-, hlast', -⟩ | ⟨between, -, rfl⟩ := eq_or_exists_of_append_eq heq
  · subst hlast'
    obtain hlast | hlast := hlast <;> cases hlast
  · obtain rfl | rfl := hlast
    · exact ⟨turn, between, rfl, hturn⟩
    · have hfinishes : Steps (.empty base) ((before ++ .begins label :: turn) ++
          .finishes label :: (between ++ [.begins label])) line := by simpa using h
      exact (hfinishes.not_begins_of_finishes (by simp)).elim

/-- Between two turns of a task, those have theirs that stand in the line when it is put back. -/
theorem Steps.exists_between
    (h : Steps (.empty base) (before ++ .begins label :: (middle ++ [.begins label])) line)
    (hmiddle : .begins label ∉ middle) :
    ∃ turn between line', middle = turn ++ .pauses label :: between ∧
      Steps (.empty base) (before ++ .begins label :: turn) line' ∧
      collect begun? turn = [] ∧ collect begun? between = line'.waiting ∧
      (∀ other ∈ collect spawned? turn, other ∈ line'.waiting) ∧
      ∀ other ∈ collect spawned? between, other ∉ line'.waiting := by
  obtain ⟨turn, between, rfl, hturn⟩ := h.exists_pauses
  obtain ⟨line', hturns, hafter⟩ := steps_append_iff.1 (by simpa using h :
    Steps (.empty base) ((before ++ .begins label :: turn) ++
      (.pauses label :: between ++ [.begins label])) line)
  obtain ⟨line'', hbetween, hbegins⟩ := steps_append_iff.1 hafter
  obtain ⟨hwaiting, hquiet⟩ : (∀ other ∈ collect spawned? turn, other ∈ line'.waiting) ∧
      collect begun? turn = [] := by
    obtain ⟨line₁, -, hrest⟩ := steps_append_iff.1 hturns
    cases hrest with
    | cons hbegins hspawns =>
      obtain ⟨-, hwaiting, hquiet⟩ := hspawns.of_spawns hturn
      rw [hwaiting]
      exact ⟨fun other hother ↦ List.mem_append_right _ hother, hquiet⟩
  refine ⟨turn, between, line', rfl, hturns, hquiet, ?_, hwaiting, fun other hother hmem ↦ ?_⟩
  · have hnodup := (hturns.append hbetween).accounts.nodup_waiting
    have hnever : .begins label ∉ between := fun hmem ↦ hmiddle (by simp [hmem])
    cases hbetween with
    | cons hpauses hbetween =>
      cases hpauses
      obtain ⟨ahead, later, hahead, hbegun⟩ := hbetween.ahead rfl hnever
      cases hbegins with
      | cons hbegins hnil =>
        cases hbegins
        cases ahead with
        | nil => simpa using hbegun
        | cons first ahead =>
          -- the task would wait for two turns at once
          obtain ⟨rfl, hrest⟩ := List.cons.inj hahead
          simp [hrest] at hnodup
  · have hnodup := (hturns.append hbetween).accounts.nodup
    rw [collect_append] at hnodup
    refine List.disjoint_of_nodup_append hnodup (hturns.accounts.everyone.mem_iff.1 ?_)
      (by simpa using hother)
    simp [hmem]

end Between

end Line

end LateConst
