import LateConst.Proofs.RoundRobin

/-!
# Tasks by their labels

A task keeps its label as long as it is not finished, so it can be followed through a run. What is
left of it at some moment is what its last move has left, or it has waited since then, or it has
just been spawned (`Progress.mem_jobs_next`).
-/

namespace LateConst

variable {σ τ ε : Type}

namespace Move

/-- What is left of the task that makes the move. -/
def own? : Move σ τ ε → Option τ
  | goOn _ work | spawn _ _ _ work | pause _ work | abandonOthers _ work => some work
  | finish _ | fail _ _ => none

def new? : Move σ τ ε → Option τ
  | spawn _ _ new _ => some new
  | _ => none

/-- Of the task that makes a move, nothing else is left than itself and the one that it spawns. -/
theorem own?_or_new?_of_mem_tasks {move : Move σ τ ε} {task : τ} (h : task ∈ move.tasks []) :
    move.own? = some task ∨ move.new? = some task := by
  cases move with
  | goOn world work => exact .inl (List.mem_singleton.1 h ▸ rfl)
  | spawn world name new work =>
    obtain rfl | hmem := List.mem_cons.1 h
    · exact .inl rfl
    · exact .inr (List.mem_singleton.1 hmem ▸ rfl)
  | pause world work => exact .inl (List.mem_singleton.1 h ▸ rfl)
  | finish world => cases h
  | abandonOthers world work => exact .inl (List.mem_singleton.1 h ▸ rfl)
  | fail world error => cases h

end Move

namespace Progress

def job? : Progress σ τ ε → Option (Job τ)
  | going rota => rota.present
  | ended _ _ _ => none

/-- The tasks that are not finished with their labels, the present one first. -/
def jobs : Progress σ τ ε → List (Job τ)
  | going rota => rota.present.toList ++ rota.queue.waiting
  | ended _ _ _ => []

variable {workload : Workload σ τ ε} {progress : Progress σ τ ε} {job : Job τ} {label : String}
  {work work' : τ} {world' : σ}

theorem mem_jobs_of_job? (h : progress.job? = some job) : job ∈ progress.jobs := by
  cases progress with
  | going rota => exact List.mem_append_left _ (Option.mem_toList.2 h)
  | ended world queue error => cases h

theorem exists_going_of_job? (h : progress.job? = some job) :
    ∃ queue, progress = .going ⟨progress.world, queue, some job⟩ := by
  cases progress with
  | going rota =>
    obtain ⟨world, queue, present⟩ := rota
    obtain rfl : present = some job := h
    exact ⟨queue, rfl⟩
  | ended world queue error => cases h

/-- A task makes a move that leaves it its turn. -/
theorem next_of_job? (h : progress.job? = some ⟨label, work⟩)
    (hmove : ∀ waiting, workload.move waiting progress.world work = .goOn world' work') :
    (progress.next workload).job? = some ⟨label, work'⟩ ∧
      (progress.next workload).world = world' := by
  cases progress with
  | going rota =>
    obtain ⟨world, queue, present⟩ := rota
    obtain rfl : present = some ⟨label, work⟩ := h
    have hnext : next workload (.going ⟨world, queue, some ⟨label, work⟩⟩) =
        .going ⟨world', queue, some ⟨label, work'⟩⟩ := next_of_goOn (hmove queue.waiting.length)
    exact ⟨congrArg job? hnext, congrArg Progress.world hnext⟩
  | ended world queue error => cases h

theorem present?_eq_map_job? (progress : Progress σ τ ε) :
    progress.present? = progress.job?.map Job.work := by
  cases progress <;> rfl

theorem next_of_present? (h : progress.present? = some work)
    (hmove : ∀ waiting, workload.move waiting progress.world work = .goOn world' work') :
    (progress.next workload).present? = some work' ∧
      (progress.next workload).world = world' := by
  rw [present?_eq_map_job?] at h
  obtain ⟨⟨label, work⟩, hjob, rfl⟩ := Option.map_eq_some_iff.1 h
  obtain ⟨hnext, hworld⟩ := next_of_job? hjob hmove
  refine ⟨?_, hworld⟩
  rw [present?_eq_map_job?, hnext]
  rfl

/-- After a move of the present task, a task has waited, or is the present one, or is new. A new one
has the label of no other task, if no two tasks have the same. -/
theorem mem_jobs_step {world : σ} {queue : TurnQueue τ}
    (h : job ∈ (workload.step ⟨world, queue, some ⟨label, work⟩⟩).jobs) :
    job ∈ queue.waiting ∨
      (job.label = label ∧
        (workload.move queue.waiting.length world work).own? = some job.work) ∨
      (workload.move queue.waiting.length world work).new? = some job.work ∧
        (((workload.step ⟨world, queue, some ⟨label, work⟩⟩).jobs.map Job.label).Nodup →
          job.label ∉ label :: queue.waiting.map Job.label) := by
  rw [Workload.step] at h
  dsimp only at h
  cases hmove : workload.move queue.waiting.length world work with
  | goOn world' left =>
    rw [hmove] at h
    obtain rfl | hjob := List.mem_cons.1 h
    · exact .inr (.inl ⟨rfl, rfl⟩)
    · exact .inl hjob
  | spawn world' name new left =>
    rw [hmove] at h
    change job ∈ ⟨label, left⟩ :: (queue.waiting ++ [⟨queue.nextLabel name, new⟩]) at h
    obtain rfl | hjob := List.mem_cons.1 h
    · exact .inr (.inl ⟨rfl, rfl⟩)
    · obtain hjob | hjob := List.mem_append.1 hjob
      · exact .inl hjob
      · obtain rfl := List.mem_singleton.1 hjob
        refine .inr (.inr ⟨rfl, fun hnodup ↦ ?_⟩)
        replace hnodup : ((label :: queue.waiting.map Job.label) ++
            [queue.nextLabel name]).Nodup := by
          rw [Workload.step] at hnodup
          dsimp only at hnodup
          rw [hmove] at hnodup
          simpa [jobs, Workload.spawn, TurnQueue.spawn, TurnQueue.add] using hnodup
        exact fun hmem ↦ (List.nodup_append.1 hnodup).2.2 _ hmem _ List.mem_cons_self rfl
  | pause world' left =>
    rw [hmove] at h
    change job ∈ queue.waiting ++ [⟨label, left⟩] at h
    obtain hjob | hjob := List.mem_append.1 h
    · exact .inl hjob
    · obtain rfl := List.mem_singleton.1 hjob
      exact .inr (.inl ⟨rfl, rfl⟩)
  | finish world' =>
    rw [hmove] at h
    exact .inl h
  | abandonOthers world' left =>
    rw [hmove] at h
    obtain rfl := List.mem_singleton.1 h
    exact .inr (.inl ⟨rfl, rfl⟩)
  | fail world' error =>
    rw [hmove] at h
    cases h

/-- If no two tasks have the same label, a task at the next moment has waited, or this is left of it
by its move, or it is new. A new one has a label of its own, if no two tasks have the same. -/
theorem mem_jobs_next (hnodup : (progress.jobs.map Job.label).Nodup)
    (h : job ∈ (progress.next workload).jobs) :
    (job ∈ progress.jobs ∧ ∀ work, progress.job? ≠ some ⟨job.label, work⟩) ∨
      (∃ work waiting, progress.job? = some ⟨job.label, work⟩ ∧
        (workload.move waiting progress.world work).own? = some job.work) ∨
      ∃ present waiting, progress.job? = some present ∧
        (workload.move waiting progress.world present.work).new? = some job.work ∧
        (((progress.next workload).jobs.map Job.label).Nodup →
          job.label ∉ progress.jobs.map Job.label) := by
  cases progress with
  | ended world queue error => cases h
  | going rota =>
    obtain ⟨world, queue, present⟩ := rota
    cases present with
    | none =>
      obtain ⟨waiting, spawned⟩ := queue
      refine .inl ⟨?_, fun work hwork ↦ by cases hwork⟩
      cases waiting with
      | nil => cases h
      | cons first rest => exact h
    | some present =>
      obtain ⟨label, work⟩ := present
      obtain hwaits | ⟨rfl, hown⟩ | hnew := mem_jobs_step h
      · refine .inl ⟨List.mem_cons_of_mem _ hwaits, fun work' heq ↦ ?_⟩
        obtain rfl : label = job.label := congrArg Job.label (Option.some.inj heq)
        exact (List.nodup_cons.1 hnodup).1 (List.mem_map.2 ⟨job, hwaits, rfl⟩)
      · exact .inr (.inl ⟨work, _, rfl, hown⟩)
      · exact .inr (.inr ⟨_, _, rfl, hnew.1, hnew.2⟩)

end Progress

end LateConst
