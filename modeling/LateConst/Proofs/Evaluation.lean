import LateConst.Proofs.Evaluation.Wait
import LateConst.Proofs.Scoping.Run

/-!
# Evaluations in a run

A statement that waits for a value does so from the moment on at which the evaluation of its
expression has begun, and until then nobody else has a turn: only tasks for which nothing waits can
be suspended. So whatever waits at a moment has an origin (`Program.exists_evaluates`): the
statement was executed, the evaluation of its expression began, and it has been under way ever
since.
-/

namespace LateConst

variable {σ τ ε : Type}

/-! ### The tasks of the next moment -/

namespace Move

/-- The task that makes the move keeps its turn, and goes on with this. -/
def Keeping (work : τ) : Move σ τ ε → Prop
  | goOn _ work' => work' = work
  | spawn _ _ _ work' => work' = work
  | abandonOthers _ work' => work' = work
  | _ => False

def Putting (work : τ) : Move σ τ ε → Prop
  | spawn _ _ new _ => new = work
  | pause _ work' => work' = work
  | _ => False

theorem keeping_or_putting {move : Move σ τ ε} {work : τ} (h : work ∈ move.tasks []) :
    move.Keeping work ∨ move.Putting work := by
  cases move with
  | goOn world work' => exact .inl (List.mem_singleton.1 h).symm
  | spawn world name new work' =>
    obtain rfl | hnew := List.mem_cons.1 h
    · exact .inl rfl
    · exact .inr (List.mem_singleton.1 hnew).symm
  | pause world work' => exact .inr (List.mem_singleton.1 h).symm
  | finish world => cases h
  | abandonOthers world work' => exact .inl (List.mem_singleton.1 h).symm
  | fail world error => cases h

end Move

namespace Progress

def waiting : Progress σ τ ε → List τ
  | going rota => rota.queue.waiting.map Job.work
  | ended _ _ _ => []

variable {workload : Workload σ τ ε} {progress : Progress σ τ ε} {task : τ}

/-- The next present task has kept its turn, or has just got it. -/
theorem present?_next (h : (progress.next workload).present? = some task) :
    (progress.present? = none ∧ task ∈ progress.waiting) ∨ ∃ before count,
      progress.present? = some before ∧
        (workload.move count progress.world before).Keeping task := by
  cases progress with
  | ended world queue error => cases h
  | going rota =>
    obtain ⟨world, ⟨waiting, spawned⟩, present⟩ := rota
    unfold next Workload.step at h
    dsimp only at h
    cases present with
    | none =>
      cases waiting with
      | nil => cases h
      | cons first rest =>
        obtain rfl := Option.some.inj h
        exact .inl ⟨rfl, List.mem_cons_self⟩
    | some job =>
      refine .inr ⟨job.work, waiting.length, rfl, ?_⟩
      change Move.Keeping task (workload.move waiting.length world job.work)
      dsimp only at h
      cases hmove : workload.move waiting.length world job.work with
      | goOn _ _ | spawn _ _ _ _ | abandonOthers _ _ =>
        rw [hmove] at h
        exact Option.some.inj h
      | _ =>
        rw [hmove] at h
        cases h

/-- A task that keeps its turn is the next present task. -/
theorem exists_present?_next {before : τ} (h : progress.present? = some before) :
    ∃ count, ∀ work, (workload.move count progress.world before).Keeping work →
      (progress.next workload).present? = some work := by
  cases progress with
  | ended world queue error => cases h
  | going rota =>
    obtain ⟨world, queue, present⟩ := rota
    obtain ⟨⟨label, before⟩, rfl, rfl⟩ := Option.map_eq_some_iff.1 h
    refine ⟨queue.waiting.length, fun work hkeeping ↦ ?_⟩
    change Move.Keeping work (workload.move queue.waiting.length world before) at hkeeping
    rw [next, Workload.step]
    dsimp only
    cases hmove : workload.move queue.waiting.length world before with
    | goOn _ _ | spawn _ _ _ _ | abandonOthers _ _ =>
      rw [hmove] at hkeeping
      exact congrArg some hkeeping
    | _ =>
      rw [hmove] at hkeeping
      exact hkeeping.elim

/-- The next tasks in the queue have been there before, or have just been put there. -/
theorem mem_waiting_next (h : task ∈ (progress.next workload).waiting) :
    task ∈ progress.waiting ∨ ∃ before count, progress.present? = some before ∧
      (workload.move count progress.world before).Putting task := by
  cases progress with
  | ended world queue error => cases h
  | going rota =>
    obtain ⟨world, ⟨waiting, spawned⟩, present⟩ := rota
    unfold next Workload.step at h
    dsimp only at h
    cases present with
    | none =>
      cases waiting with
      | nil => cases h
      | cons first rest => exact .inl (List.mem_cons_of_mem _ h)
    | some job =>
      dsimp only at h
      have hput {count : Nat} {new : Job τ}
          (h : task ∈ (TurnQueue.add ⟨waiting, count⟩ new).waiting.map Job.work) :
          task ∈ waiting.map Job.work ∨ new.work = task := by
        rw [TurnQueue.add, List.map_append, List.mem_append] at h
        exact h.imp_right fun hnew ↦ (List.mem_singleton.1 hnew).symm
      cases hmove : workload.move waiting.length world job.work with
      | goOn _ _ | finish _ =>
        rw [hmove] at h
        exact .inl h
      | spawn _ _ _ _ | pause _ _ =>
        rw [hmove] at h
        refine (hput h).imp_right fun hnew ↦ ⟨job.work, waiting.length, rfl, ?_⟩
        change Move.Putting task (workload.move waiting.length world job.work)
        rw [hmove]
        exact hnew
      | abandonOthers _ _ | fail _ _ =>
        rw [hmove] at h
        cases h

end Progress

namespace Thread

variable {thread work : Thread} {world : World}

theorem passes_of_keeping (h : (thread.move world).Keeping work) :
    thread.Passes world.store work := by
  have hpasses := thread.passes_move world
  cases hmove : thread.move world with
  | goOn world' work' =>
    rw [hmove] at h hpasses
    obtain rfl : work' = work := h
    exact hpasses
  | spawn world' name new work' =>
    rw [hmove] at h hpasses
    obtain rfl : work' = work := h
    exact hpasses.2
  | abandonOthers world' work' =>
    rw [hmove] at hpasses
    exact hpasses.elim
  | _ =>
    rw [hmove] at h
    exact h.elim

/-- Nothing waits in a task that is put into the queue. -/
theorem waits_eq_nil_of_putting (h : (thread.move world).Putting work) : work.waits = [] := by
  have hpasses := thread.passes_move world
  cases hmove : thread.move world with
  | spawn world' name new work' =>
    rw [hmove] at h hpasses
    obtain rfl : new = work := h
    exact hpasses.1
  | pause world' work' =>
    rw [hmove] at h hpasses
    obtain rfl : work' = work := h
    exact hpasses.1
  | _ =>
    rw [hmove] at h
    exact h.elim

end Thread

/-! ### Evaluations that are under way -/

namespace Program

/-- The statement waits for a value while the present task evaluates its expression. -/
def UnderWay (program : Program) (verbose : Bool) (queue : TurnQueue Thread) (k : Nat)
    (wait : Wait) : Prop :=
  ∃ thread, (program.moment verbose queue k).present? = some thread ∧ wait ∈ thread.waits

/-- The statement waits from the next moment on. -/
inductive Starts (program : Program) (verbose : Bool) (queue : TurnQueue Thread) (k : Nat)
    (wait : Wait) : Prop
  | begins {thread : Thread} {focus : Focus}
      (hpresent : (program.moment verbose queue k).present? = some thread)
      (hbegins : thread.Begins (program.moment verbose queue k).world.store focus wait.use)
      (hnext : (program.moment verbose queue (k + 1)).present? =
        some ⟨focus, wait.body, wait.callers⟩)
  /-- A declaration goes on to another name. -/
  | goesOn {v : Value} {stmt : Stmt} {name : String} {before rest : List Declarator} {ident : Ident}
      {e : Expr} {env : RecordId}
      (hpresent : (program.moment verbose queue k).present? = some
        ⟨.value v [] (.declare stmt name (before ++ .mk ident (some e) :: rest) env), wait.body,
          wait.callers⟩)
      (huse : wait.use = .declare stmt ident.name rest env)
      (hnext : (program.moment verbose queue (k + 1)).present? =
        some ⟨.eval e env [] wait.use, wait.body, wait.callers⟩)

variable {program : Program} {verbose : Bool} {queue : TurnQueue Thread} {k : Nat} {wait : Wait}

/-- Nothing waits in a task that is not the present one. -/
theorem waits_eq_nil_of_mem_waiting {thread : Thread}
    (h : thread ∈ (program.moment verbose queue k).waiting) : thread.waits = [] := by
  induction k generalizing thread with
  | zero =>
    obtain ⟨ident, -, hstart⟩ | ⟨-, world, -, hstart⟩ := program.start_cases verbose queue
    · rw [moment, hstart] at h
      cases h
    · rw [moment, hstart] at h
      obtain rfl := List.mem_singleton.1 h
      rfl
  | succ k ih =>
    obtain h | ⟨before, count, hpresent, hput⟩ := Progress.mem_waiting_next h
    · exact ih h
    · exact Thread.waits_eq_nil_of_putting hput

/-- The present task has kept its turn by a move of it, or nothing waits in it. -/
theorem passes_present {thread' : Thread}
    (h : (program.moment verbose queue (k + 1)).present? = some thread') :
    thread'.waits = [] ∨ ∃ thread, (program.moment verbose queue k).present? = some thread ∧
      thread.Passes (program.moment verbose queue k).world.store thread' := by
  obtain ⟨-, hmem⟩ | ⟨thread, count, hpresent, hkeeping⟩ := Progress.present?_next h
  · exact .inl (waits_eq_nil_of_mem_waiting hmem)
  · exact .inr ⟨thread, hpresent, Thread.passes_of_keeping hkeeping⟩

/-- What waits has waited before, or has just started to wait. -/
theorem UnderWay.before (h : program.UnderWay verbose queue (k + 1) wait) :
    program.UnderWay verbose queue k wait ∨ program.Starts verbose queue k wait := by
  obtain ⟨thread', hnext, hwait⟩ := h
  obtain hnone | ⟨thread, hpresent, hpasses⟩ := passes_present hnext
  · rw [hnone] at hwait
    cases hwait
  have hcallers (hmem : wait ∈ Caller.waits thread.callers) :
      program.UnderWay verbose queue k wait :=
    ⟨thread, hpresent, List.mem_append_right _ hmem⟩
  cases hpasses with
  | keeps h => exact .inl ⟨thread, hpresent, h ▸ hwait⟩
  | begins hbegins hfocus hcallers' =>
    obtain ⟨focus, body, callers⟩ := thread'
    obtain rfl := hfocus
    obtain rfl : callers = thread.callers := hcallers'
    rw [Thread.waits, hbegins.use?_eq] at hwait
    obtain rfl | hwait := List.mem_cons.1 hwait
    · exact .inr (.begins hpresent hbegins hnext)
    · exact .inl (hcallers hwait)
  | gives hfocus htakes h => exact .inl (hcallers (h ▸ hwait))
  | @goesOn v stmt name rest env hfocus h =>
    obtain ⟨focus, body, callers⟩ := thread
    obtain rfl := hfocus
    subst h
    obtain hfocus' | ⟨before, ident, e, rest', rfl, hfocus'⟩ :=
      Thread.declareItems_cases stmt env rest
    · rw [Thread.waits, hfocus'] at hwait
      exact .inl (hcallers hwait)
    · rw [hfocus'] at hnext
      rw [Thread.waits, hfocus'] at hwait
      obtain rfl | hwait := List.mem_cons.1 hwait
      · exact .inr (.goesOn hpresent rfl hnext)
      · exact .inl (hcallers hwait)
  | lands _ _ hmem => exact .inl ⟨thread, hpresent, hmem wait hwait⟩

/-- What waits has been under way ever since it started to wait. -/
theorem UnderWay.exists_starts (h : program.UnderWay verbose queue k wait) :
    ∃ i < k, program.Starts verbose queue i wait ∧
      ∀ m, i < m → m ≤ k → program.UnderWay verbose queue m wait := by
  induction k with
  | zero =>
    obtain ⟨thread, hpresent, -⟩ := h
    obtain ⟨ident, -, hstart⟩ | ⟨-, world, -, hstart⟩ := program.start_cases verbose queue <;>
    · rw [moment, hstart] at hpresent
      cases hpresent
  | succ k ih =>
    have hnow (m : Nat) (hlt : k < m) (hle : m ≤ k + 1) :
        program.UnderWay verbose queue m wait := by
      obtain rfl : m = k + 1 := by omega
      exact h
    obtain hbefore | hstarts := h.before
    · obtain ⟨i, hlt, hstarts, hunderWay⟩ := ih hbefore
      refine ⟨i, Nat.lt_succ_of_lt hlt, hstarts, fun m him hmk ↦ ?_⟩
      obtain hlt | hle := Nat.lt_or_ge k m
      · exact hnow m hlt hmk
      · exact hunderWay m him hle
    · exact ⟨k, Nat.lt_succ_self k, hstarts, hnow⟩

/-- A statement has been executed at moment `g`, and waits for the value of an expression of its own
from moment `h` to moment `k`. -/
structure Evaluates (program : Program) (verbose : Bool) (queue : TurnQueue Thread) (s : Stmt)
    (e : Expr) (env : RecordId) (wait : Wait) (g h k : Nat) : Prop where
  wants : s.Wants env e wait.use
  exec : ∃ thread, (program.moment verbose queue g).present? = some thread ∧
    thread.focus = .exec s env
  lt : g < h
  le : h ≤ k
  start : (program.moment verbose queue h).present? =
    some ⟨.eval e env [] wait.use, wait.body, wait.callers⟩
  underWay : ∀ m, h ≤ m → m ≤ k → program.UnderWay verbose queue m wait

/-- Whatever waits for a value, unless it is a loop, has been executed as a statement before. -/
theorem UnderWay.exists_evaluates (h : program.UnderWay verbose queue k wait)
    (hloop : ¬ wait.use.IsLoop) :
    ∃ s e env g h, program.Evaluates verbose queue s e env wait g h k := by
  induction k using Nat.strongRecOn generalizing wait with
  | ind k ih =>
    obtain ⟨i, hlt, hstarts, hunderWay⟩ := h.exists_starts
    cases hstarts with
    | begins hpresent hbegins hnext =>
      obtain ⟨use, body, callers⟩ := wait
      cases hbegins with
      | @statement s env e _ _ _ hwants =>
        exact ⟨s, e, env, i, i + 1, hwants, ⟨_, hpresent, rfl⟩, Nat.lt_succ_self i, hlt, hnext,
          hunderWay⟩
      | condition => exact (hloop trivial).elim
      | trip => exact (hloop trivial).elim
    | @goesOn v stmt name before rest ident e env hpresent huse hnext =>
      -- the name before this one in the declaration has an origin, too
      have hearlier : program.UnderWay verbose queue i
          ⟨.declare stmt name (before ++ .mk ident (some e) :: rest) env, wait.body,
            wait.callers⟩ := ⟨_, hpresent, List.mem_cons_self⟩
      obtain ⟨s, e', env', g, h', hevaluates⟩ := ih i hlt hearlier id
      obtain ⟨hwants, hexec, hlt', hle, -, -⟩ := hevaluates
      cases hwants with
      | @declare kind items first _ ident' _ span hitems =>
        have hitems' : items = (first ++ .mk ident' (some e') :: before) ++
            .mk ident (some e) :: rest := by simp [hitems]
        exact ⟨_, e, env, g, i + 1, huse ▸ .declare hitems', hexec, by omega, hlt, hnext,
          hunderWay⟩

end Program

end LateConst
