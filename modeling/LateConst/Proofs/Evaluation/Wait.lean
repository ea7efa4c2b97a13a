import LateConst.Proofs.Thread

/-!
# Statements that wait for a value

A statement waits for the value of its expression while the expression is evaluated, be it by the
present activation or, if the evaluation has come to a call, as a caller. `Thread.waits` lists all
statements of a thread that wait, the innermost first.

A move can do few things to them: it keeps them, it puts a new one in front of them, it gives the
innermost one its value, or it drops some of them because a fault is raised whose handler stands
outside of them (`Thread.Passes`).
-/

namespace LateConst

/-- A statement that waits for a value, with what is left to do around it. -/
structure Wait where
  use : Use
  body : List StmtFrame
  callers : List Caller

def Focus.use? : Focus → Option Use
  | .eval _ _ _ use => some use
  | .value _ _ use => some use
  | _ => none

def Caller.waits : List Caller → List Wait
  | [] => []
  | caller :: outer => ⟨caller.use, caller.body, outer⟩ :: waits outer

namespace Thread

def waits (thread : Thread) : List Wait :=
  (thread.focus.use?.map fun use ↦ ⟨use, thread.body, thread.callers⟩).toList ++
    Caller.waits thread.callers

end Thread

def Use.IsLoop : Use → Prop
  | .repeatWhile _ _ _ => True
  | .loopVariable _ _ _ => True
  | _ => False

def Use.Takes (v : Value) : Use → Prop
  | .destructure _ _ _ => ∃ ref, v = .array ref
  | _ => True

/-- To execute the statement in a record the value of an expression is wanted, for some use. -/
inductive Stmt.Wants (env : RecordId) : Stmt → Expr → Use → Prop
  | declare {kind : Kind} {items before rest : List Declarator} {ident : Ident} {e : Expr}
      {span : Span} (hitems : items = before ++ .mk ident (some e) :: rest) :
      Wants env (.declare kind items span) e
        (.declare (.declare kind items span) ident.name rest env)
  | destructure {kind : Kind} {idents : List Ident} {e : Expr} {span : Span} :
      Wants env (.destructure kind idents e span) e
        (.destructure (.destructure kind idents e span) idents env)
  | assign {ident : Ident} {e : Expr} {span : Span} :
      Wants env (.assign ident e span) e (.assign (.assign ident e span) ident.name env)
  | expr {e : Expr} {span : Span} : Wants env (.expr e span) e .discard
  | print {e : Expr} {span : Span} : Wants env (.print e span) e .print
  | ret {e : Expr} {span : Span} : Wants env (.ret (some e) span) e .ret
  | spawn {e : Expr} {span : Span} : Wants env (.spawn e span) e (.spawn (.spawn e span))
  | throw {e : Expr} {span : Span} : Wants env (.throw e span) e (.throw (.throw e span))
  | branch {e : Expr} {thenPart : Block} {elsePart : Option Stmt} {span : Span} :
      Wants env (.branch e thenPart elsePart span) e (.branch thenPart elsePart env)
  | whileLoop {e : Expr} {block : Block} {span : Span} :
      Wants env (.whileLoop e block span) e (.repeatWhile e block env)
  | forOf {kind : Kind} {ident : Ident} {e : Expr} {block : Block} {span : Span} :
      Wants env (.forOf kind ident e block span) e
        (.iterate (.forOf kind ident e block span) kind ident block env)

namespace Thread

/-- From this thread on a statement waits for a value, in the focus that comes next. -/
inductive Begins (store : Store) : Thread → Focus → Use → Prop
  | statement {s : Stmt} {env : RecordId} {e : Expr} {use : Use} {body : List StmtFrame}
      {callers : List Caller} (h : s.Wants env e use) :
      Begins store ⟨.exec s env, body, callers⟩ (.eval e env [] use) use
  | condition {cond : Expr} {block : Block} {env : RecordId} {body : List StmtFrame}
      {callers : List Caller} :
      Begins store ⟨.next, .whileLoop cond block env :: body, callers⟩
        (.eval cond env [] (.repeatWhile cond block env)) (.repeatWhile cond block env)
  | trip {kind : Kind} {ident : Ident} {block : Block} {env : RecordId} {items v : Value} {n : Nat}
      {body : List StmtFrame} {callers : List Caller} (h : items.element? store n = some v) :
      Begins store ⟨.next, .forLoop kind ident block env items n :: body, callers⟩
        (.value v [] (.loopVariable ident.name block store.records.size))
        (.loopVariable ident.name block store.records.size)

theorem Begins.use?_eq {store : Store} {thread : Thread} {focus : Focus} {use : Use}
    (h : thread.Begins store focus use) : focus.use? = some use := by
  cases h <;> rfl

/-- What a move can do to the statements that wait. -/
inductive Passes (store : Store) (thread thread' : Thread) : Prop
  | keeps (h : thread'.waits = thread.waits)
  | begins {focus : Focus} {use : Use} (hbegins : thread.Begins store focus use)
      (hfocus : thread'.focus = focus) (hcallers : thread'.callers = thread.callers)
  | gives {v : Value} {use : Use} (hfocus : thread.focus = .value v [] use) (htakes : use.Takes v)
      (h : thread'.waits = Caller.waits thread.callers)
  /-- A declaration has given a name its value, and goes on. -/
  | goesOn {v : Value} {stmt : Stmt} {name : String} {rest : List Declarator} {env : RecordId}
      (hfocus : thread.focus = .value v [] (.declare stmt name rest env))
      (h : thread' = ⟨declareItems stmt env rest, thread.body, thread.callers⟩)
  /-- A fault has come to a handler. -/
  | lands {landing : Landing} {env : RecordId}
      (h : thread' = ⟨.exec (.block landing.handler) env, landing.body, landing.callers⟩)
      (hlanding : ∀ wait ∈ thread.waits, wait ∈ thread'.waits ∨
        Landing.find wait.body wait.callers = some landing)
      (hwait : ∀ wait ∈ thread'.waits, wait ∈ thread.waits)

end Thread

/-- What a move of a thread leaves of it and of the statements that wait. -/
def Move.Passes (store : Store) (thread : Thread) : ThreadMove → Prop
  | .goOn _ work => thread.Passes store work
  | .spawn _ _ new work => new.waits = [] ∧ thread.Passes store work
  | .pause _ work => work.waits = [] ∧ thread.waits = []
  | .finish _ => thread.waits = []
  | .abandonOthers _ _ => False
  | .fail _ _ => True

/-! ### Handlers -/

theorem Caller.waits_suffix {callers outer : List Caller} (h : outer <:+ callers) :
    waits outer <:+ waits callers := by
  obtain ⟨inner, rfl⟩ := h
  induction inner with
  | nil => exact List.suffix_rfl
  | cons caller inner ih => exact ih.trans (List.suffix_cons _ _)

theorem Landing.callers_suffix_of_find {landing : Landing} {body : List StmtFrame}
    {callers : List Caller} (h : find body callers = some landing) :
    landing.callers <:+ callers := by
  obtain ⟨-, hcallers⟩ | ⟨caller, hcallers, -⟩ := suffix_of_find h
  · exact hcallers ▸ List.suffix_rfl
  · exact (List.suffix_cons _ _).trans hcallers

/-- A statement that waits is still there when a handler has been found, or else the handler stands
outside of it. -/
theorem Landing.mem_waits_or_find_eq {landing : Landing} {body : List StmtFrame}
    {callers : List Caller} (h : find body callers = some landing) {wait : Wait}
    (hwait : wait ∈ Caller.waits callers) :
    wait ∈ Caller.waits landing.callers ∨ find wait.body wait.callers = some landing := by
  induction callers generalizing body with
  | nil => cases hwait
  | cons caller outer ih =>
    unfold find at h
    split at h
    · cases h
      exact .inl hwait
    · obtain rfl | hwait := List.mem_cons.1 hwait
      · exact .inr h
      · exact ih h hwait

/-! ### Moves -/

namespace Thread

variable {store : Store} {world : World} {body : List StmtFrame} {callers : List Caller}
  {site : Option Site} {frames : List ExprFrame} {use : Use} {thread : Thread}

/-- A fault is raised where all wait that wait in the thread, but perhaps for the innermost one,
and for that one it is raised right there. -/
theorem passes_raise (hinner : ∀ wait ∈ thread.waits,
      (wait.body = body ∧ wait.callers = callers) ∨ wait ∈ Caller.waits callers)
    (houter : ∀ wait ∈ Caller.waits callers, wait ∈ thread.waits) (fault : Fault) :
    (raise world body callers site fault).Passes store thread := by
  unfold raise
  split
  · trivial
  next landing hlanding =>
    refine .lands rfl (fun wait hwait ↦ ?_) fun wait hwait ↦ houter wait ?_
    · obtain ⟨rfl, rfl⟩ | hwait := hinner wait hwait
      · exact .inr hlanding
      · exact Landing.mem_waits_or_find_eq hlanding hwait
    · exact (Caller.waits_suffix (Landing.callers_suffix_of_find hlanding)).subset hwait

/-- A statement waits, and what goes wrong goes wrong there. -/
theorem passes_stop (hthread : thread.waits = ⟨use, body, callers⟩ :: Caller.waits callers)
    (failure : Failure) : (stop world body callers site failure).Passes store thread := by
  cases failure with
  | crash crash => trivial
  | fault fault =>
    refine passes_raise (fun wait hwait ↦ ?_) (fun wait hwait ↦ ?_) fault
    · rw [hthread] at hwait
      obtain rfl | hwait := List.mem_cons.1 hwait
      · exact .inl ⟨rfl, rfl⟩
      · exact .inr hwait
    · rw [hthread]
      exact List.mem_cons_of_mem _ hwait

/-- No statement of the present activation waits, and something goes wrong. -/
theorem passes_stop_of_waits_eq (hthread : thread.waits = Caller.waits callers)
    (failure : Failure) : (stop world body callers site failure).Passes store thread := by
  cases failure with
  | crash crash => trivial
  | fault fault =>
    rw [stop]
    refine passes_raise (fun wait hwait ↦ .inr ?_) (fun wait hwait ↦ ?_) fault
    · exact hthread ▸ hwait
    · exact hthread ▸ hwait

theorem passes_call (hthread : thread.waits = ⟨use, body, callers⟩ :: Caller.waits callers)
    (node : Expr) (callee : Value) (args : List Value) :
    (call world body callers node callee args frames use).Passes store thread := by
  unfold call
  split
  · exact .keeps hthread.symm
  · exact passes_stop hthread _

/-- The statement for which an expression is evaluated goes on waiting. -/
theorem passes_of_computes {events : Array Event}
    {act : Array Event → List StmtFrame → List Caller → Use → ThreadMove}
    (h : Computes store frames act)
    (hthread : thread.waits = ⟨use, body, callers⟩ :: Caller.waits callers) :
    (act events body callers use).Passes store thread := by
  cases h with
  | evaluates e env frames' => exact .keeps hthread.symm
  | gives hstore v => exact .keeps hthread.symm
  | stops node failure => exact passes_stop hthread failure
  | calls node callee args => exact passes_call hthread node callee args

theorem passes_apply (v : Value) :
    (apply world body callers v use).Passes store ⟨.value v [] use, body, callers⟩ := by
  unfold apply
  split <;> try exact .gives rfl trivial rfl
  next stmt name rest env =>
    split
    · exact passes_stop rfl _
    · exact .goesOn rfl rfl
  next stmt idents env =>
    split
    next ref =>
      dsimp only
      split
      · exact .gives rfl ⟨ref, rfl⟩ rfl
      · exact passes_stop rfl _
    · exact passes_stop rfl (.fault _)
  next stmt name env =>
    split
    · exact passes_stop rfl (.fault _)
    · split
      · exact passes_stop rfl _
      · exact .gives rfl trivial rfl
  next =>
    split
    · trivial
    · exact .gives rfl trivial rfl
  next stmt =>
    split
    · exact ⟨rfl, .gives rfl trivial rfl⟩
    · exact passes_stop rfl _
  next stmt =>
    split
    · trivial
    · exact passes_stop rfl (.fault _)
  next thenPart elsePart env =>
    refine .gives rfl trivial ?_
    dsimp only
    split
    · rfl
    · split <;> rfl
  next cond block env => split <;> exact .gives rfl trivial rfl
  next stmt kind ident block env =>
    split
    · exact .gives rfl trivial rfl
    · exact passes_stop rfl (.fault _)
  next name block env =>
    split
    · exact passes_stop rfl _
    · exact .gives rfl trivial rfl

theorem passes_exec (s : Stmt) (env : RecordId) :
    (exec world body callers s env).Passes store ⟨.exec s env, body, callers⟩ := by
  unfold exec
  split
  next kind items span =>
    obtain hnext | ⟨before, ident, e, rest, hitems, hfocus⟩ :=
      declareItems_cases (.declare kind items span) env items
    · refine .keeps ?_
      rw [hnext]
      rfl
    · exact .begins (.statement (.declare hitems)) hfocus rfl
  · exact .begins (.statement .destructure) rfl rfl
  · exact .keeps rfl
  · exact .begins (.statement .assign) rfl rfl
  · exact .begins (.statement .expr) rfl rfl
  · exact .begins (.statement .print) rfl rfl
  · exact .keeps rfl
  · exact .begins (.statement .ret) rfl rfl
  next =>
    split
    · exact ⟨rfl, rfl⟩
    next caller outer =>
      refine passes_raise (fun wait hwait ↦ ?_) (fun wait hwait ↦ ?_) _
      · obtain rfl | hwait := List.mem_cons.1 hwait
        · exact .inl ⟨rfl, rfl⟩
        · exact .inr hwait
      · exact List.mem_cons_of_mem _ hwait
  · exact .begins (.statement .spawn) rfl rfl
  · exact .begins (.statement .throw) rfl rfl
  next stmts span =>
    dsimp only
    split
    · exact .keeps rfl
    · exact passes_stop_of_waits_eq rfl (.fault _)
  · exact .begins (.statement .branch) rfl rfl
  · exact .begins (.statement .whileLoop) rfl rfl
  · exact .begins (.statement .forOf) rfl rfl
  · exact .keeps rfl

theorem passes_advance :
    (advance world callers body).Passes world.store ⟨.next, body, callers⟩ := by
  unfold advance
  split
  · exact .keeps rfl
  · exact .keeps rfl
  · exact .keeps rfl
  · exact .begins .condition rfl rfl
  next kind ident block env items n body =>
    split
    · exact .keeps rfl
    next v hv => exact .begins (.trip hv) rfl rfl
  · exact .keeps rfl

theorem passes_enter (f : Function) (args : List Value) :
    (enter world body callers f args).Passes store ⟨.enter f args, body, callers⟩ := by
  unfold enter
  split
  · dsimp only
    split
    · exact .keeps rfl
    · exact passes_stop_of_waits_eq rfl (.fault _)
  · split
    · exact .keeps rfl
    · exact .keeps rfl
    · exact passes_stop_of_waits_eq rfl _

theorem passes_complete (v : Value) :
    (complete world v callers).Passes store ⟨.done v, body, callers⟩ := by
  unfold complete
  split
  · rfl
  · exact .keeps rfl

theorem passes_move (thread : Thread) (world : World) :
    (thread.move world).Passes world.store thread := by
  obtain ⟨focus, body, callers⟩ := thread
  unfold move
  cases focus with
  | enter f args => exact passes_enter f args
  | eval e env frames use => exact passes_of_computes (computes_eval world.store frames e env) rfl
  | value v frames use =>
    cases frames with
    | nil => exact passes_apply v
    | cons frame frames => exact passes_of_computes (computes_resume world.store frames v frame) rfl
  | exec s env => exact passes_exec s env
  | next => exact passes_advance
  | done v => exact passes_complete v

end Thread

end LateConst
