import LateConst.RoundRobin

/-!
# What holds at every moment of a run

A property of the world and the tasks that are not finished holds at every moment of a run if every
move of a task keeps it, whatever the other tasks are. The order in which tasks wait must not matter
to it, since they take turns.
-/

namespace LateConst

variable {σ τ ε : Type}

namespace Progress

def world : Progress σ τ ε → σ
  | going rota => rota.world
  | ended world _ _ => world

def present? : Progress σ τ ε → Option τ
  | going rota => rota.present.map Job.work
  | ended _ _ _ => none

/-- The tasks that are not finished, the present one first. None are left when a run has ended. -/
def tasks : Progress σ τ ε → List τ
  | going rota => (rota.present.toList ++ rota.queue.waiting).map Job.work
  | ended _ _ _ => []

/-- A run that has ended stays as it is. -/
def next (workload : Workload σ τ ε) : Progress σ τ ε → Progress σ τ ε
  | going rota => workload.step rota
  | ended world queue error => ended world queue error

def after (workload : Workload σ τ ε) (progress : Progress σ τ ε) : Nat → Progress σ τ ε
  | 0 => progress
  | k + 1 => next workload (after workload progress k)

section Next

variable {workload : Workload σ τ ε} {world world' : σ} {queue : TurnQueue τ} {label : String}
  {work work' : τ}

theorem next_of_goOn (h : workload.move queue.waiting.length world work = .goOn world' work') :
    next workload (.going ⟨world, queue, some ⟨label, work⟩⟩) =
      .going ⟨world', queue, some ⟨label, work'⟩⟩ := by
  rw [next, Workload.step]
  dsimp only
  rw [h]

theorem next_of_spawn {name : String} {new : τ}
    (h : workload.move queue.waiting.length world work = .spawn world' name new work') :
    next workload (.going ⟨world, queue, some ⟨label, work⟩⟩) =
      .going ⟨(workload.spawn world' queue name new).1, (workload.spawn world' queue name new).2,
        some ⟨label, work'⟩⟩ := by
  rw [next, Workload.step]
  dsimp only
  rw [h]

theorem next_of_pause (h : workload.move queue.waiting.length world work = .pause world' work') :
    next workload (.going ⟨world, queue, some ⟨label, work⟩⟩) =
      .going ⟨workload.announce (.paused label) world', queue.add ⟨label, work'⟩, none⟩ := by
  rw [next, Workload.step]
  dsimp only
  rw [h]

theorem next_of_finish (h : workload.move queue.waiting.length world work = .finish world') :
    next workload (.going ⟨world, queue, some ⟨label, work⟩⟩) =
      .going ⟨workload.announce (.finished label) world', queue, none⟩ := by
  rw [next, Workload.step]
  dsimp only
  rw [h]

theorem next_of_fail {error : ε}
    (h : workload.move queue.waiting.length world work = .fail world' error) :
    next workload (.going ⟨world, queue, some ⟨label, work⟩⟩) =
      .ended world' queue.abandon (some error) := by
  rw [next, Workload.step]
  dsimp only
  rw [h]

end Next

theorem mem_tasks_of_present? {progress : Progress σ τ ε} {task : τ}
    (h : progress.present? = some task) : task ∈ progress.tasks := by
  cases progress with
  | ended world queue error => cases h
  | going rota =>
    obtain ⟨job, hjob, rfl⟩ := Option.map_eq_some_iff.1 h
    exact List.mem_map_of_mem (List.mem_append_left _ (Option.mem_toList.2 hjob))

end Progress

namespace Move

def world : Move σ τ ε → σ
  | goOn world _ => world
  | spawn world _ _ _ => world
  | pause world _ => world
  | finish world => world
  | abandonOthers world _ => world
  | fail world _ => world

/-- The tasks that are not finished after a move, if these are the others. -/
def tasks (others : List τ) : Move σ τ ε → List τ
  | goOn _ work => work :: others
  | spawn _ _ new work => work :: new :: others
  | pause _ work => work :: others
  | finish _ => others
  | abandonOthers _ work => [work]
  | fail _ _ => []

theorem mem_tasks {move : Move σ τ ε} {others : List τ} {task : τ}
    (h : task ∈ move.tasks others) : task ∈ move.tasks [] ∨ task ∈ others := by
  cases move with
  | goOn world work => exact (List.mem_cons.1 h).imp_left List.mem_singleton.2
  | spawn world name new work => simpa [tasks, or_assoc] using h
  | pause world work => exact (List.mem_cons.1 h).imp_left List.mem_singleton.2
  | finish world => exact .inr h
  | abandonOthers world work => exact .inl h
  | fail world error => cases h

/-- What a move comes to has a property, with the other tasks as they are. -/
def Keeps (Holds : σ → List τ → Prop) (others : List τ) (move : Move σ τ ε) : Prop :=
  Holds move.world (move.tasks others)

end Move

/-- The present task makes its move: the tasks are those that the move leaves, in some order, and
the world is what comes of the move, after at most one announcement. A run that ends by an error
does so because the move fails. -/
structure Workload.Makes (workload : Workload σ τ ε) (others : List τ) (move : Move σ τ ε)
    (progress : Progress σ τ ε) : Prop where
  tasks : progress.tasks.Perm (move.tasks others)
  world : progress.world = move.world ∨ ∃ note, progress.world = workload.announce note move.world
  error : ∀ world queue error, progress = .ended world queue (some error) →
    move = .fail world error

namespace Progress

variable (workload : Workload σ τ ε)

theorem makes_of_present? {progress : Progress σ τ ε} {task : τ}
    (h : progress.present? = some task) :
    ∃ waiting others, progress.tasks = task :: others ∧
      workload.Makes others (workload.move waiting progress.world task)
        (progress.next workload) := by
  cases progress with
  | ended world queue error => cases h
  | going rota =>
    obtain ⟨world, queue, present⟩ := rota
    obtain ⟨⟨label, work⟩, rfl, rfl⟩ := Option.map_eq_some_iff.1 h
    refine ⟨queue.waiting.length, queue.waiting.map Job.work, rfl, ?_⟩
    change Workload.Makes _ _ (workload.move queue.waiting.length world work) _
    rw [next, Workload.step]
    dsimp only
    cases workload.move queue.waiting.length world work with
    | goOn world' work' => exact ⟨.refl _, .inl rfl, fun _ _ _ h ↦ by cases h⟩
    | spawn world' name new work' =>
      refine ⟨?_, .inr ⟨_, rfl⟩, fun _ _ _ h ↦ by cases h⟩
      simp [tasks, Move.tasks, Workload.spawn, TurnQueue.spawn, TurnQueue.add]
    | pause world' work' =>
      refine ⟨?_, .inr ⟨_, rfl⟩, fun _ _ _ h ↦ by cases h⟩
      simp [tasks, Move.tasks, TurnQueue.add]
    | finish world' => exact ⟨.refl _, .inr ⟨_, rfl⟩, fun _ _ _ h ↦ by cases h⟩
    | abandonOthers world' work' => exact ⟨.refl _, .inl rfl, fun _ _ _ h ↦ by cases h⟩
    | fail world' error =>
      refine ⟨.refl _, .inl rfl, fun _ _ _ h ↦ ?_⟩
      cases h
      rfl

/-- Where no task is the present one, nothing changes but the turn. -/
theorem next_of_present?_eq_none {progress : Progress σ τ ε} (h : progress.present? = none) :
    (progress.next workload).world = progress.world ∧
      (progress.next workload).tasks = progress.tasks ∧
      ∀ world queue error, progress.next workload = .ended world queue (some error) →
        progress = .ended world queue (some error) := by
  cases progress with
  | ended world queue error => exact ⟨rfl, rfl, fun _ _ _ h ↦ h⟩
  | going rota =>
    obtain ⟨world, ⟨waiting, spawned⟩, present⟩ := rota
    obtain rfl := Option.map_eq_none_iff.1 h
    cases waiting with
    | nil => exact ⟨rfl, rfl, fun _ _ _ h ↦ by cases h⟩
    | cons task rest => exact ⟨rfl, rfl, fun _ _ _ h ↦ by cases h⟩

end Progress

/-- A property of the world and the tasks that every move keeps. -/
structure Workload.Keeps (workload : Workload σ τ ε) (Holds : σ → List τ → Prop) : Prop where
  perm : ∀ {world ts us}, ts.Perm us → Holds world ts → Holds world us
  announce : ∀ {world ts} note, Holds world ts → Holds (workload.announce note world) ts
  move : ∀ {world work others} waiting, Holds world (work :: others) →
    (workload.move waiting world work).Keeps Holds others

theorem Workload.Keeps.next {workload : Workload σ τ ε} {Holds : σ → List τ → Prop}
    (h : workload.Keeps Holds) {progress : Progress σ τ ε}
    (hprogress : Holds progress.world progress.tasks) :
    Holds (progress.next workload).world (progress.next workload).tasks := by
  cases hpresent : progress.present? with
  | none =>
    obtain ⟨hworld, htasks, -⟩ := Progress.next_of_present?_eq_none workload hpresent
    rwa [hworld, htasks]
  | some task =>
    obtain ⟨waiting, others, htasks, hmakes⟩ := Progress.makes_of_present? workload hpresent
    rw [htasks] at hprogress
    have hmove := h.perm hmakes.tasks.symm (h.move waiting hprogress)
    obtain hworld | ⟨note, hworld⟩ := hmakes.world
    · rwa [hworld]
    · rw [hworld]
      exact h.announce note hmove

/-! ### Labels -/

/-- The label of a task that has been spawned under a name, as the one with this number. -/
def taskLabel (name : String) (number : Nat) : String := name ++ "#" ++ toString number

theorem number_eq_of_taskLabel_eq {name name' : String} {m n : Nat}
    (h : taskLabel name m = taskLabel name' n) : m = n := by
  have hlist : name.toList ++ '#' :: Nat.toDigits 10 m =
      name'.toList ++ '#' :: Nat.toDigits 10 n := by
    simpa [taskLabel] using congrArg String.toList h
  -- a name may contain anything, so the number is read from the end
  have hdigits (before : List Char) (k : Nat) :
      (before ++ '#' :: Nat.toDigits 10 k).reverse.takeWhile Char.isDigit =
        (Nat.toDigits 10 k).reverse := by
    rw [List.reverse_append, List.reverse_cons, List.append_assoc, List.takeWhile_append_of_pos]
    · simp
    · intro c hc
      exact Nat.isDigit_of_mem_toDigits (by decide) (by decide) (List.mem_reverse.1 hc)
  have hreverse := congrArg (fun label ↦ label.reverse.takeWhile Char.isDigit) hlist
  simp only [hdigits, List.reverse_inj] at hreverse
  have hvalue := congrArg (fun digits ↦ Nat.ofDigitChars 10 digits 0) hreverse
  simpa using hvalue

/-- The next task to be spawned gets the next number. -/
theorem TurnQueue.nextLabel_eq (queue : TurnQueue τ) (name : String) :
    queue.nextLabel name = taskLabel name (queue.spawned + 1) := rfl

end LateConst
