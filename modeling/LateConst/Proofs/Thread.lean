import LateConst.Machine.Step

/-!
# Threads

Facts about the parts of a move that several theories of threads use: where the handler of a fault
is found, what a move in an expression can be (`Thread.computes_eval`, `Thread.computes_resume`),
and how a declaration goes on.
-/

namespace LateConst

/-! ### Handlers -/

theorem StmtFrame.suffix_of_innermostHandler {body rest : List StmtFrame} {ident : Ident}
    {block : Block} {env : RecordId} (h : innermostHandler body = some (ident, block, env, rest)) :
    .handler ident block env :: rest <:+ body := by
  induction body with
  | nil => cases h
  | cons frame more ih =>
    cases frame with
    | handler ident block env =>
      cases h
      exact List.suffix_rfl
    | _ => exact (ih h).trans (List.suffix_cons _ more)

/-- The handler that takes over is one of the present activation or of a caller, and what is left
to do is what was around it. -/
theorem Landing.suffix_of_find {body : List StmtFrame} {callers : List Caller} {landing : Landing}
    (h : find body callers = some landing) :
    (.handler landing.ident landing.handler landing.env :: landing.body <:+ body ∧
        landing.callers = callers) ∨
      ∃ caller, caller :: landing.callers <:+ callers ∧
        .handler landing.ident landing.handler landing.env :: landing.body <:+ caller.body := by
  fun_induction find body callers with
  | case1 body callers ident block env rest hhandler =>
    cases h
    exact .inl ⟨StmtFrame.suffix_of_innermostHandler hhandler, rfl⟩
  | case2 body hnone => cases h
  | case3 body hnone caller outer ih =>
    obtain ⟨hbody, hcallers⟩ | ⟨caller', hcallers, hbody⟩ := ih h
    · exact .inr ⟨caller, hcallers ▸ List.suffix_rfl, hbody⟩
    · exact .inr ⟨caller', hcallers.trans (List.suffix_cons _ _), hbody⟩

theorem StmtFrame.exists_innermostHandler_of_mem {body : List StmtFrame} {ident : Ident}
    {block : Block} {env : RecordId} (h : .handler ident block env ∈ body) :
    ∃ found, innermostHandler body = some found := by
  induction body with
  | nil => cases h
  | cons frame more ih =>
    cases frame with
    | handler ident block env => exact ⟨_, rfl⟩
    | _ => exact ih (by simpa using h)

/-- A fault does not get past an activation that has a handler. -/
theorem Landing.find_of_innermostHandler {body : List StmtFrame}
    {found : Ident × Block × RecordId × List StmtFrame}
    (h : StmtFrame.innermostHandler body = some found) (callers : List Caller) :
    find body callers = some ⟨found.1, found.2.1, found.2.2.1, found.2.2.2, callers⟩ := by
  unfold find
  rw [h]

/-- With further callers around a thread a handler is looked for there as well, but not at first. -/
theorem Landing.find_append (body : List StmtFrame) (inner : List Caller) (caller : Caller)
    (outer : List Caller) :
    find body (inner ++ caller :: outer) =
      ((find body inner).map fun landing ↦
        { landing with callers := landing.callers ++ caller :: outer }).or
        (find caller.body outer) := by
  induction inner generalizing body with
  | nil =>
    rw [List.nil_append, find, find]
    cases StmtFrame.innermostHandler body <;> rfl
  | cons first inner ih =>
    rw [List.cons_append, find, find]
    cases StmtFrame.innermostHandler body with
    | none => exact ih first.body
    | some found => rfl

/-! ### Expressions -/

/-- The activation has been entered. -/
def Focus.IsInside : Focus → Prop
  | .enter _ _ => False
  | _ => True

/-- At most one new reference has been given away. -/
inductive Store.Allocates (store : Store) : Store → Prop
  | nothing : Allocates store store
  | reference : Allocates store store.fresh.2
  | array (items : List Value) : Allocates store (store.addArray items).2

namespace Thread

/-- What becomes of a node when its operands have been evaluated: it has a value, or it fails. -/
def settle (world : World) (body : List StmtFrame) (callers : List Caller)
    (frames : List ExprFrame) (use : Use) (node : Expr) : Except Failure Value → ThreadMove
  | .ok v => .goOn world ⟨.value v frames use, body, callers⟩
  | .error failure => stop world body callers (some (.expr node)) failure

/-- A move in an expression, whatever is around the expression: an operand is to be evaluated next,
or there is a value, or a node fails, or a value is called. -/
inductive Computes (store : Store) (frames : List ExprFrame) :
    (Array Event → List StmtFrame → List Caller → Use → ThreadMove) → Prop
  | evaluates (e : Expr) (env : RecordId) (frames' : List ExprFrame) :
      Computes store frames fun events body callers use ↦
        .goOn ⟨store, events⟩ ⟨.eval e env frames' use, body, callers⟩
  | gives {store' : Store} (hstore : store.Allocates store') (v : Value) :
      Computes store frames fun events body callers use ↦
        .goOn ⟨store', events⟩ ⟨.value v frames use, body, callers⟩
  | stops (node : Expr) (failure : Failure) :
      Computes store frames fun events body callers _ ↦
        stop ⟨store, events⟩ body callers (some (.expr node)) failure
  | calls (node : Expr) (callee : Value) (args : List Value) :
      Computes store frames fun events body callers use ↦
        call ⟨store, events⟩ body callers node callee args frames use

variable (store : Store) (frames : List ExprFrame)

theorem computes_settle (node : Expr) (result : Except Failure Value) :
    Computes store frames fun events body callers use ↦
      settle ⟨store, events⟩ body callers frames use node result := by
  cases result with
  | ok v => exact .gives .nothing v
  | error failure => exact .stops node failure

theorem computes_eval (e : Expr) (env : RecordId) :
    Computes store frames fun events body callers use ↦
      eval ⟨store, events⟩ body callers e env frames use := by
  cases e with
  | literal value span => exact .gives .nothing _
  | lookup ident =>
    simp only [eval]
    cases store.resolve env ident.name with
    | error fault => exact .stops _ (.fault fault)
    | ok id =>
      dsimp only
      cases store.read id ident.name false with
      | error failure => exact .stops _ failure
      | ok v => exact .gives .nothing v
  | typeOf arg span =>
    cases arg with
    | lookup ident =>
      simp only [eval]
      cases store.resolve env ident.name with
      | error fault => exact .gives .nothing _
      | ok id =>
        dsimp only
        cases store.read id ident.name true with
        | error failure => exact .stops _ failure
        | ok v => exact .gives .nothing _
    | _ => exact .evaluates _ _ _
  | array elements span =>
    cases elements with
    | nil => exact .gives (.array []) _
    | cons first rest => exact .evaluates _ _ _
  | function params code span => exact .gives .reference _
  | _ => exact .evaluates _ _ _

theorem computes_resume (v : Value) (frame : ExprFrame) :
    Computes store frames fun events body callers use ↦
      resume ⟨store, events⟩ body callers v frame frames use := by
  cases frame with
  | typeOf => exact .gives .nothing _
  | unary node op => exact computes_settle store frames node (v.applyUnary op)
  | binaryRight node op lhs =>
    exact computes_settle store frames node (Value.applyBinary store op lhs v)
  | shortcut op rhs env =>
    simp only [resume]
    split <;> split
    · exact .gives .nothing v
    · exact .evaluates _ _ _
    · exact .gives .nothing v
    · exact .evaluates _ _ _
  | callee node args env =>
    cases args with
    | nil => exact .calls node v []
    | cons first rest => exact .evaluates _ _ _
  | argument node callee done rest env =>
    cases rest with
    | nil => exact .calls node callee (done ++ [v])
    | cons first rest => exact .evaluates _ _ _
  | index node base => exact computes_settle store frames node (base.applyIndex store v)
  | element done rest env =>
    cases rest with
    | nil => exact .gives (.array (done ++ [v])) _
    | cons first rest => exact .evaluates _ _ _
  | _ => exact .evaluates _ _ _

/-! ### Declarations -/

theorem declareItems_cases (stmt : Stmt) (env : RecordId) (items : List Declarator) :
    declareItems stmt env items = .next ∨ ∃ before ident e rest,
      items = before ++ .mk ident (some e) :: rest ∧
        declareItems stmt env items = .eval e env [] (.declare stmt ident.name rest env) := by
  induction items with
  | nil => exact .inl rfl
  | cons item rest ih =>
    obtain ⟨ident, init⟩ := item
    cases init with
    | some e => exact .inr ⟨[], ident, e, rest, rfl, rfl⟩
    | none =>
      refine ih.imp_right ?_
      rintro ⟨before, ident', e, rest', rfl, hfocus⟩
      exact ⟨_ :: before, ident', e, rest', rfl, hfocus⟩

theorem isInside_declareItems (stmt : Stmt) (env : RecordId) (items : List Declarator) :
    (declareItems stmt env items).IsInside := by
  obtain hnext | ⟨_, _, _, _, -, hfocus⟩ := declareItems_cases stmt env items
  · rw [hnext]
    trivial
  · rw [hfocus]
    trivial

end Thread

end LateConst
