import LateConst.Proofs.Evaluation
import LateConst.Proofs.Evaluation.Loop

/-!
# Loops over the elements of a value

A thread is inside of such loops at any depth of statements and calls (`Thread.iterations`). No move
makes up a loop: it has begun when its statement got the value it goes over, and keeps that value on
all its trips (`Program.exists_iterated`).
-/

namespace LateConst

def StmtFrame.iteration? : StmtFrame → Option Iteration
  | .forLoop kind ident block env items _ => some ⟨kind, ident, block, env, items⟩
  | _ => none

namespace Thread

def iterationsAround (body : List StmtFrame) (callers : List Caller) : List Iteration :=
  (body ++ callers.flatMap Caller.body).filterMap StmtFrame.iteration?

def iterations (thread : Thread) : List Iteration := iterationsAround thread.body thread.callers

end Thread

/-- The loops that threads are inside of after a move are loops of the thread before it, or it has
just come to the value that the loop goes over. -/
def Move.KeepsIterations (thread : Thread) (move : ThreadMove) : Prop :=
  ∀ thread' ∈ move.tasks [], ∀ iteration ∈ thread'.iterations, iteration ∈ thread.iterations ∨
    ∃ stmt, thread.focus = .value iteration.items [] (iteration.use stmt)

theorem StmtFrame.exists_frame_of_iteration? {frame : StmtFrame} {iteration : Iteration}
    (h : frame.iteration? = some iteration) :
    ∃ n, ∀ body callers, frame = (Loop.mk iteration body callers).frame n := by
  cases frame with
  | forLoop kind ident block env items n =>
    cases h
    exact ⟨n, fun _ _ ↦ rfl⟩
  | _ => cases h

namespace Thread

variable {thread : Thread} {iteration : Iteration}

theorem mem_iterations_iff : iteration ∈ thread.iterations ↔ ∃ (loop : Loop) (n : Nat),
    loop.toIteration = iteration ∧ loop.Surrounds n thread.body thread.callers := by
  obtain ⟨focus, body, callers⟩ := thread
  constructor
  · intro h
    obtain ⟨frame, hframe, hiteration⟩ := List.mem_filterMap.1 h
    obtain ⟨n, heq⟩ := StmtFrame.exists_frame_of_iteration? hiteration
    obtain hbody | hcaller := List.mem_append.1 hframe
    · obtain ⟨inner, outer, rfl⟩ := List.append_of_mem hbody
      exact ⟨⟨iteration, outer, callers⟩, n, rfl, .inl ⟨⟨inner, by rw [← heq]⟩, rfl⟩⟩
    · obtain ⟨caller, hcaller, hbody⟩ := List.mem_flatMap.1 hcaller
      obtain ⟨inner, outer, hbody⟩ := List.append_of_mem hbody
      obtain ⟨before, callers, rfl⟩ := List.append_of_mem hcaller
      exact ⟨⟨iteration, outer, callers⟩, n, rfl,
        .inr ⟨caller, List.suffix_append _ _, ⟨inner, by rw [← heq, hbody]⟩⟩⟩
  · rintro ⟨loop, n, rfl, ⟨hbody, -⟩ | ⟨caller, hcallers, hbody⟩⟩
    · exact List.mem_filterMap.2
        ⟨loop.frame n, List.mem_append_left _ (hbody.subset List.mem_cons_self), rfl⟩
    · have hcaller := List.mem_flatMap.2
        ⟨caller, hcallers.subset List.mem_cons_self, hbody.subset List.mem_cons_self⟩
      exact List.mem_filterMap.2 ⟨loop.frame n, List.mem_append_right _ hcaller, rfl⟩

theorem keepsIterations_move (thread : Thread) (world : World) :
    (thread.move world).KeepsIterations thread := by
  have hkeeps {work : Thread} (h : thread.KeepsLoops work) (iteration : Iteration)
      (hiteration : iteration ∈ work.iterations) : iteration ∈ thread.iterations ∨
        ∃ stmt, thread.focus = .value iteration.items [] (iteration.use stmt) := by
    obtain ⟨loop, n, rfl, hloop⟩ := mem_iterations_iff.1 hiteration
    obtain hold | ⟨-, stmt, rfl⟩ | ⟨m, rfl⟩ := h loop n hloop
    · exact .inl (mem_iterations_iff.2 ⟨loop, n, rfl, hold⟩)
    · exact .inr ⟨stmt, rfl⟩
    · exact .inl (mem_iterations_iff.2 ⟨loop, m, rfl, loop.surrounds_head m⟩)
  have hmove := thread.keepsLoops_move world
  intro thread' hthread'
  cases hmoved : thread.move world with
  | goOn _ _ | pause _ _ | abandonOthers _ _ =>
    rw [hmoved] at hmove hthread'
    obtain rfl := List.mem_singleton.1 hthread'
    exact hkeeps hmove
  | spawn world' name new work =>
    rw [hmoved] at hmove hthread'
    obtain ⟨hbody, hcallers, hmove⟩ := hmove
    obtain rfl | hnew := List.mem_cons.1 hthread'
    · exact hkeeps hmove
    · obtain rfl := List.mem_singleton.1 hnew
      intro iteration hiteration
      rw [iterations, hbody, hcallers] at hiteration
      cases hiteration
  | finish _ | fail _ _ =>
    rw [hmoved] at hthread'
    cases hthread'

end Thread

/-! ### Moments -/

namespace Program

variable {program : Program} {verbose : Bool} {queue : TurnQueue Thread} {k : Nat}

/-- The statement of a loop has been executed at moment `g`, its expression has been under way since
moment `h`, and at moment `i` it has come to the value that the loop is to go over. -/
def Iterated (program : Program) (verbose : Bool) (queue : TurnQueue Thread)
    (iteration : Iteration) (e : Expr) (span : Span) (g h i : Nat) : Prop :=
  ∃ body callers, program.Evaluates verbose queue
      (.forOf iteration.kind iteration.ident e iteration.block span) e iteration.env
      ⟨iteration.use (.forOf iteration.kind iteration.ident e iteration.block span), body, callers⟩
      g h i ∧
    (program.moment verbose queue i).present? = some ⟨.value iteration.items []
      (iteration.use (.forOf iteration.kind iteration.ident e iteration.block span)), body, callers⟩

/-- Every loop over the elements of a value has begun with the value that its expression has been
evaluated to. -/
theorem exists_iterated {thread : Thread}
    (hthread : thread ∈ (program.moment verbose queue k).tasks) {iteration : Iteration}
    (hiteration : iteration ∈ thread.iterations) :
    ∃ e span g h i, i < k ∧ program.Iterated verbose queue iteration e span g h i := by
  induction k generalizing thread with
  | zero =>
    obtain ⟨ident, -, hstart⟩ | ⟨-, world, -, hstart⟩ := program.start_cases verbose queue
    · rw [moment, hstart] at hthread
      cases hthread
    · rw [moment, hstart] at hthread
      obtain rfl := List.mem_singleton.1 hthread
      cases hiteration
  | succ k ih =>
    have hbefore {thread : Thread} (hthread : thread ∈ (program.moment verbose queue k).tasks)
        (hiteration : iteration ∈ thread.iterations) : ∃ e span g h i, i < k + 1 ∧
          program.Iterated verbose queue iteration e span g h i := by
      obtain ⟨e, span, g, h, i, hlt, hiterated⟩ := ih hthread hiteration
      exact ⟨e, span, g, h, i, Nat.lt_succ_of_lt hlt, hiterated⟩
    cases hpresent : (program.moment verbose queue k).present? with
    | none =>
      obtain ⟨-, htasks, -⟩ := Progress.next_of_present?_eq_none (workload verbose) hpresent
      exact hbefore (htasks ▸ hthread) hiteration
    | some present =>
      obtain ⟨waiting, others, htasks, hmakes⟩ :=
        Progress.makes_of_present? (workload verbose) hpresent
      obtain hmoved | hother := Move.mem_tasks (hmakes.tasks.mem_iff.1 hthread)
      · obtain hold | ⟨stmt, hfocus⟩ :=
          present.keepsIterations_move _ thread hmoved iteration hiteration
        · exact hbefore (htasks ▸ List.mem_cons_self) hold
        · obtain ⟨focus, body, callers⟩ := present
          obtain rfl := hfocus
          have hunderWay : program.UnderWay verbose queue k
              ⟨iteration.use stmt, body, callers⟩ := ⟨_, hpresent, List.mem_cons_self⟩
          obtain ⟨s, e, env, g, h, hevaluates⟩ := hunderWay.exists_evaluates id
          obtain ⟨kind, ident, block, env', items⟩ := iteration
          have hwants := hevaluates.wants
          cases hwants with
          | @forOf _ _ _ _ span =>
            exact ⟨e, span, g, h, k, Nat.lt_succ_self k, ⟨body, callers, hevaluates, hpresent⟩⟩
      · exact hbefore (htasks ▸ List.mem_cons_of_mem _ hother) hiteration

end Program

end LateConst
