import LateConst.Proofs.Thread

/-!
# A thread within a call

The same activation can be the outermost one of a task, or an expression can have called it. Then
there are callers around it (`Thread.within`), and all its moves are the same but for those that
reach them: a value goes to the caller, a fault for which the activation has no handler is raised in
the caller, and so is one in place of a `pause` (`Thread.within_move`).
-/

namespace LateConst

def Thread.within (outer : List Caller) (thread : Thread) : Thread :=
  { thread with callers := thread.callers ++ outer }

/-- What a move of a thread, from this world, comes to if the outermost activation of the thread has
been called by an expression. -/
inductive Move.Within (caller : Caller) (outer : List Caller) (before : World) (thread : Thread) :
    ThreadMove → ThreadMove → Prop
  | goOn {world : World} {thread' : Thread}
      (hinside : thread'.callers = [] → thread'.focus.IsInside) :
      Within caller outer before thread (.goOn world thread')
        (.goOn world (thread'.within (caller :: outer)))
  | spawn {world : World} {name : String} {new thread' : Thread}
      (hinside : thread'.callers = [] → thread'.focus.IsInside) :
      Within caller outer before thread (.spawn world name new thread')
        (.spawn world name new (thread'.within (caller :: outer)))
  | finish {v : Value} (hfocus : thread.focus = .done v) :
      Within caller outer before thread (.finish before)
        (.goOn before ⟨.value v caller.frames caller.use, caller.body, outer⟩)
  | pause {thread' : Thread} :
      Within caller outer before thread (.pause before thread')
        (Thread.raise before caller.body outer (some (.expr caller.node)) .cannotSuspend)
  | uncaught {world : World} {fault : Fault} {site : Option Site} :
      Within caller outer before thread (.fail world (.uncaught fault site))
        (Thread.raise world caller.body outer site fault)
  | crash {world : World} {crash : Crash} :
      Within caller outer before thread (.fail world (.crash crash)) (.fail world (.crash crash))

namespace Thread

variable {caller : Caller} {outer callers : List Caller} {before world : World} {thread : Thread}
  {body : List StmtFrame} {frames : List ExprFrame} {use : Use} {site : Option Site}

theorem within_goOn {focus : Focus} (hinside : focus.IsInside) :
    Move.Within caller outer before thread (.goOn world ⟨focus, body, callers⟩)
      (.goOn world ⟨focus, body, callers ++ caller :: outer⟩) :=
  .goOn fun _ ↦ hinside

theorem within_raise (fault : Fault) :
    Move.Within caller outer before thread (raise world body callers site fault)
      (raise world body (callers ++ caller :: outer) site fault) := by
  rw [raise, raise, Landing.find_append]
  cases Landing.find body callers with
  | none => exact .uncaught
  | some landing => exact within_goOn trivial

theorem within_stop (failure : Failure) :
    Move.Within caller outer before thread (stop world body callers site failure)
      (stop world body (callers ++ caller :: outer) site failure) := by
  cases failure with
  | fault fault => exact within_raise fault
  | crash crash => exact .crash

theorem within_call (node : Expr) (callee : Value) (args : List Value) :
    Move.Within caller outer before thread (call world body callers node callee args frames use)
      (call world body (callers ++ caller :: outer) node callee args frames use) := by
  unfold call
  split
  · exact .goOn nofun
  · exact within_stop _

theorem within_of_computes {store : Store} {events : Array Event}
    {act : Array Event → List StmtFrame → List Caller → Use → ThreadMove}
    (h : Computes store frames act) :
    Move.Within caller outer before thread (act events body callers use)
      (act events body (callers ++ caller :: outer) use) := by
  cases h with
  | evaluates e env frames' => exact within_goOn trivial
  | gives hstore v => exact within_goOn trivial
  | stops node failure => exact within_stop failure
  | calls node callee args => exact within_call node callee args

theorem within_apply (v : Value) :
    Move.Within caller outer before thread (apply world body callers v use)
      (apply world body (callers ++ caller :: outer) v use) := by
  unfold apply
  split <;> try exact within_goOn trivial
  next stmt name rest env =>
    split
    · exact within_stop _
    · exact within_goOn (isInside_declareItems stmt env rest)
  next stmt idents env =>
    split
    · dsimp only
      split
      · exact within_goOn trivial
      · exact within_stop _
    · exact within_raise _
  next stmt name env =>
    split
    · exact within_raise _
    · split
      · exact within_stop _
      · exact within_goOn trivial
  next =>
    split
    · exact .crash
    · exact within_goOn trivial
  next stmt =>
    split
    · exact .spawn fun _ ↦ trivial
    · exact within_stop _
  next stmt =>
    split
    · exact .crash
    · exact within_raise _
  next thenPart elsePart env =>
    dsimp only
    refine within_goOn ?_
    split
    · trivial
    · split <;> trivial
  next cond block env => split <;> exact within_goOn trivial
  next stmt kind ident block env =>
    split
    · exact within_goOn trivial
    · exact within_raise _
  next name block env =>
    split
    · exact within_stop _
    · exact within_goOn trivial

/-- A `pause` is a fault of the innermost call, and there is none around a task. -/
theorem within_exec (s : Stmt) (env : RecordId) :
    Move.Within caller outer world thread (exec world body callers s env)
      (exec world body (callers ++ caller :: outer) s env) := by
  unfold exec
  split <;> try exact within_goOn trivial
  next kind items span => exact within_goOn (isInside_declareItems _ env items)
  next span =>
    cases callers with
    | nil => exact .pause
    | cons first inner => exact within_raise _
  next stmts span =>
    dsimp only
    split
    · exact within_goOn trivial
    · exact within_raise _

theorem within_advance :
    Move.Within caller outer before thread (advance world callers body)
      (advance world (callers ++ caller :: outer) body) := by
  unfold advance
  split <;> try exact within_goOn trivial
  next kind ident block env items n body =>
    split <;> exact within_goOn trivial

/-- What goes wrong in a built-in function is a fault of the call, and there always is one. -/
theorem within_enter {f : Function} (args : List Value)
    (hcalled : callers = [] → ∃ code env, f = .closure code env) :
    Move.Within caller outer before thread (enter world body callers f args)
      (enter world body (callers ++ caller :: outer) f args) := by
  cases f with
  | closure code env =>
    simp only [enter]
    split
    · exact within_goOn trivial
    · exact within_raise _
  | builtin builtin =>
    cases callers with
    | nil =>
      obtain ⟨code, env, hf⟩ := hcalled rfl
      cases hf
    | cons first inner =>
      simp only [enter]
      split
      · exact within_goOn trivial
      · exact within_goOn trivial
      · exact within_stop _

theorem within_complete {v : Value} (hfocus : thread.focus = .done v) :
    Move.Within caller outer world thread (complete world v callers)
      (complete world v (callers ++ caller :: outer)) := by
  cases callers with
  | nil => exact .finish hfocus
  | cons first inner => exact within_goOn trivial

/-- Built-in functions are entered by calls only. -/
def Calls (thread : Thread) : Prop :=
  thread.callers = [] → ∀ f args, thread.focus = .enter f args → ∃ code env, f = .closure code env

theorem calls_of_isInside (hinside : thread.callers = [] → thread.focus.IsInside) :
    thread.Calls := by
  intro hnil f args hfocus
  have hentered := hinside hnil
  rw [hfocus] at hentered
  exact hentered.elim

/-- A thread makes the same moves within a call, up to the end of its outermost activation. -/
theorem within_move (caller : Caller) (outer : List Caller) (world : World)
    (hcalls : thread.Calls) :
    (thread.move world).Within caller outer world thread
      ((thread.within (caller :: outer)).move world) := by
  obtain ⟨focus, body, callers⟩ := thread
  cases focus with
  | enter f args => exact within_enter args fun hnil ↦ hcalls hnil f args rfl
  | eval e env frames use => exact within_of_computes (computes_eval world.store frames e env)
  | value v frames use =>
    cases frames with
    | nil => exact within_apply v
    | cons frame frames => exact within_of_computes (computes_resume world.store frames v frame)
  | exec s env => exact within_exec s env
  | next => exact within_advance
  | done v => exact within_complete rfl

end Thread

end LateConst
