import LateConst.Proofs.Thread

/-!
# How deep a thread is

The expressions and statements that a thread has begun are nested in each other. How deep it has
come is told by the calls that it is inside of, the statements around its focus in the innermost
call, and the expressions around it in the innermost statement (`Thread.depth`). What is left to do
says of some of them where they are: `Thread.stations` are the nodes that will be blamed if
something goes wrong when the thread comes back to their depth, and `Landing.around` are the
handlers.
-/

namespace LateConst

/-- A depth: the number of calls, and of statements and expressions inside of the last call. -/
structure Depth where
  calls : Nat
  statements : Nat
  expressions : Nat

namespace Depth

instance : LE Depth where
  le d e := d.calls < e.calls ∨ d.calls = e.calls ∧
    (d.statements < e.statements ∨ d.statements = e.statements ∧ d.expressions ≤ e.expressions)

theorem le_def {d e : Depth} : d ≤ e ↔ d.calls < e.calls ∨ d.calls = e.calls ∧
    (d.statements < e.statements ∨ d.statements = e.statements ∧ d.expressions ≤ e.expressions) :=
  Iff.rfl

instance : DecidableLE Depth := fun _ _ ↦ decidable_of_iff _ le_def.symm

theorem le_refl (d : Depth) : d ≤ d := .inr ⟨rfl, .inr ⟨rfl, Nat.le_refl _⟩⟩

theorem le_trans {d e f : Depth} (h : d ≤ e) (h' : e ≤ f) : d ≤ f := by
  rw [le_def] at h h' ⊢
  omega

end Depth

/-! ### Depths of threads -/

def Caller.depth (caller : Caller) (outer : List Caller) : Depth :=
  ⟨outer.length, caller.body.length, caller.frames.length + 2⟩

/-- How deep a thread has come. A function that is not entered yet is no deeper than its call. -/
def Thread.depth : Thread → Depth
  | ⟨.enter _ _, body, []⟩ => ⟨0, body.length, 0⟩
  | ⟨.enter _ _, _, caller :: outer⟩ => caller.depth outer
  | ⟨.eval _ _ frames _, body, callers⟩ => ⟨callers.length, body.length, frames.length + 2⟩
  | ⟨.value _ frames _, body, callers⟩ => ⟨callers.length, body.length, frames.length + 1⟩
  | ⟨.exec _ _, body, callers⟩ => ⟨callers.length, body.length, 1⟩
  | ⟨.done _, body, callers⟩ => ⟨callers.length, body.length, 1⟩
  | ⟨.next, body, callers⟩ => ⟨callers.length, body.length, 0⟩

/-! ### Nodes -/

/-- A node that will be blamed if something goes wrong at its depth. -/
structure Station where
  depth : Depth
  site : Site
  /-- The node has made a call. -/
  isCall : Bool

def Expr.isCall : Expr → Bool
  | .call _ _ _ => true
  | _ => false

def Site.isCall : Site → Bool
  | .expr e => e.isCall
  | _ => false

/-- The node of an expression that fails if its operands do not fit, and whether it is a call. -/
def ExprFrame.node? : ExprFrame → Option (Expr × Bool)
  | .callee node _ _ | .argument node _ _ _ _ => some (node, true)
  | .unary node _ | .binaryLeft node _ _ _ | .binaryRight node _ _ | .base node _ _
  | .index node _ => some (node, false)
  | .typeOf | .shortcut _ _ _ | .element _ _ _ => none

/-- The stations of expressions in each other, in the statement and the call with these numbers. -/
def ExprFrame.stations (calls statements : Nat) : List ExprFrame → List Station
  | [] => []
  | frame :: frames =>
    (frame.node?.toList.map fun node ↦
      ⟨⟨calls, statements, frames.length + 2⟩, .expr node.1, node.2⟩) ++
        stations calls statements frames

def Use.stmt? : Use → Option Stmt
  | .declare stmt _ _ _ | .destructure stmt _ _ | .assign stmt _ _ | .spawn stmt | .throw stmt
  | .iterate stmt _ _ _ _ => some stmt
  | .discard | .print | .ret | .branch _ _ _ | .repeatWhile _ _ _ | .loopVariable _ _ _ => none

def Use.stations (calls statements : Nat) (use : Use) : List Station :=
  use.stmt?.toList.map fun stmt ↦ ⟨⟨calls, statements, 1⟩, .stmt stmt, false⟩

def Use.stationsAround (calls statements : Nat) (frames : List ExprFrame) (use : Use) :
    List Station :=
  ExprFrame.stations calls statements frames ++ use.stations calls statements

theorem Use.stationsAround_cons {calls statements : Nat} {frame : ExprFrame}
    {frames : List ExprFrame} {use : Use} :
    use.stationsAround calls statements (frame :: frames) =
      (frame.node?.toList.map fun node ↦
        ⟨⟨calls, statements, frames.length + 2⟩, .expr node.1, node.2⟩) ++
        use.stationsAround calls statements frames :=
  List.append_assoc _ _ _

def Focus.stations (calls statements : Nat) : Focus → List Station
  | .eval _ _ frames use | .value _ frames use => use.stationsAround calls statements frames
  | _ => []

def Caller.stations : List Caller → List Station
  | [] => []
  | caller :: outer => ⟨caller.depth outer, .expr caller.node, true⟩ ::
      (caller.use.stationsAround outer.length caller.body.length caller.frames ++ stations outer)

namespace Thread

/-- The nodes to which the thread will come back, the innermost first. -/
def stations (thread : Thread) : List Station :=
  thread.focus.stations thread.callers.length thread.body.length ++ Caller.stations thread.callers

def begun (thread : Thread) : List Station :=
  match thread.focus with
  | .eval e _ _ _ => [⟨thread.depth, .expr e, e.isCall⟩]
  | .exec s _ => [⟨thread.depth, .stmt s, false⟩]
  | _ => []

end Thread

theorem ExprFrame.depth_le_of_mem_stations {calls statements : Nat} {frames : List ExprFrame}
    {m : Station} (h : m ∈ ExprFrame.stations calls statements frames) :
    m.depth ≤ ⟨calls, statements, frames.length + 1⟩ := by
  induction frames with
  | nil => cases h
  | cons frame frames ih =>
    obtain hmem | hmem := List.mem_append.1 h
    · obtain ⟨node, -, rfl⟩ := List.mem_map.1 hmem
      exact Depth.le_refl _
    · exact Depth.le_trans (ih hmem) (by simp [Depth.le_def])

theorem Use.depth_le_of_mem_stationsAround {calls statements : Nat} {frames : List ExprFrame}
    {use : Use} {m : Station} (h : m ∈ use.stationsAround calls statements frames) :
    m.depth ≤ ⟨calls, statements, frames.length + 1⟩ := by
  obtain hmem | hmem := List.mem_append.1 h
  · exact ExprFrame.depth_le_of_mem_stations hmem
  · obtain ⟨stmt, -, rfl⟩ := List.mem_map.1 hmem
    simp [Depth.le_def]

theorem Caller.depth_le_of_mem_stations {callers : List Caller} {m : Station}
    (h : m ∈ Caller.stations callers) :
    ∃ caller outer, callers = caller :: outer ∧ m.depth ≤ caller.depth outer := by
  induction callers with
  | nil => cases h
  | cons caller outer ih =>
    refine ⟨caller, outer, rfl, ?_⟩
    obtain rfl | hmem := List.mem_cons.1 h
    · exact Depth.le_refl _
    obtain hmem | hmem := List.mem_append.1 hmem
    · exact Depth.le_trans (Use.depth_le_of_mem_stationsAround hmem)
        (by simp [Depth.le_def, Caller.depth])
    · obtain ⟨next, further, rfl, hle⟩ := ih hmem
      exact Depth.le_trans hle (by simp [Depth.le_def, Caller.depth])

theorem Caller.stations_suffix {callers outer : List Caller} (h : outer <:+ callers) :
    Caller.stations outer <:+ Caller.stations callers := by
  obtain ⟨inner, rfl⟩ := h
  induction inner with
  | nil => exact List.suffix_rfl
  | cons caller inner ih =>
    exact (ih.trans (List.suffix_append _ _)).trans (List.suffix_cons _ _)

namespace Thread

variable {thread : Thread} {m : Station}

theorem mem_stations_of_throw {v : Value} {stmt : Stmt}
    (h : thread.focus = .value v [] (.throw stmt)) :
    ⟨thread.depth, .stmt stmt, false⟩ ∈ thread.stations := by
  obtain ⟨focus, body, callers⟩ := thread
  obtain rfl : focus = _ := h
  exact List.mem_cons_self

theorem mem_stations_of_callers {caller : Caller} {outer : List Caller}
    (h : thread.callers = caller :: outer) :
    ⟨caller.depth outer, .expr caller.node, true⟩ ∈ thread.stations :=
  List.mem_append_right _ (h ▸ List.mem_cons_self)

theorem depth_le_of_mem_stations (h : m ∈ thread.stations) : m.depth ≤ thread.depth := by
  obtain ⟨focus, body, callers⟩ := thread
  obtain hmem | hmem := List.mem_append.1 h
  · cases focus with
    | eval e env frames use =>
      exact Depth.le_trans (Use.depth_le_of_mem_stationsAround hmem) (by simp [Depth.le_def, depth])
    | value v frames use => exact Use.depth_le_of_mem_stationsAround hmem
    | _ => cases hmem
  · obtain ⟨caller, outer, rfl, hle⟩ := Caller.depth_le_of_mem_stations hmem
    refine Depth.le_trans hle ?_
    cases focus with
    | enter f args => exact Depth.le_refl _
    | _ => simp [Depth.le_def, depth, Caller.depth]

/-- The thread comes back to a node only after it has done with the one that it begins now. -/
theorem not_depth_le_of_mem_stations (h : m ∈ thread.stations) (hbegun : thread.begun ≠ []) :
    ¬thread.depth ≤ m.depth := by
  obtain ⟨focus, body, callers⟩ := thread
  have hcallers (hmem : m ∈ Caller.stations callers) (d : Depth) (hd : d.calls = callers.length) :
      ¬d ≤ m.depth := by
    obtain ⟨caller, outer, rfl, hle⟩ := Caller.depth_le_of_mem_stations hmem
    rw [Depth.le_def, Caller.depth] at hle
    rw [List.length_cons] at hd
    rw [Depth.le_def]
    dsimp only at hle
    omega
  obtain hmem | hmem := List.mem_append.1 h
  · cases focus with
    | eval e env frames use =>
      have hle := Use.depth_le_of_mem_stationsAround hmem
      rw [Depth.le_def] at hle ⊢
      dsimp only [depth] at hle ⊢
      omega
    | exec s env => cases hmem
    | _ => exact (hbegun rfl).elim
  · cases focus with
    | eval e env frames use => exact hcallers hmem _ rfl
    | exec s env => exact hcallers hmem _ rfl
    | _ => exact (hbegun rfl).elim

end Thread

/-! ### Handlers -/

def StmtFrame.landings (callers : List Caller) : List StmtFrame → List Landing
  | [] => []
  | .handler ident block env :: rest => ⟨ident, block, env, rest, callers⟩ :: landings callers rest
  | _ :: rest => landings callers rest

namespace Landing

def ofCallers : List Caller → List Landing
  | [] => []
  | caller :: outer => StmtFrame.landings outer caller.body ++ ofCallers outer

/-- All handlers around a point of an activation, the innermost first. -/
def around (body : List StmtFrame) (callers : List Caller) : List Landing :=
  StmtFrame.landings callers body ++ ofCallers callers

/-- The depth from which on the handler is around a thread: that of the statements in the `try`. -/
def depth (landing : Landing) : Depth := ⟨landing.callers.length, landing.body.length + 1, 0⟩

variable {body : List StmtFrame} {callers : List Caller} {landing : Landing}

theorem around_eq_of_innermostHandler {found : Ident × Block × RecordId × List StmtFrame}
    (h : StmtFrame.innermostHandler body = some found) :
    around body callers =
      ⟨found.1, found.2.1, found.2.2.1, found.2.2.2, callers⟩ :: around found.2.2.2 callers := by
  induction body with
  | nil => cases h
  | cons frame more ih =>
    cases frame with
    | handler ident block env =>
      cases h
      rfl
    | _ => exact ih h

theorem landings_eq_nil_of_innermostHandler (h : StmtFrame.innermostHandler body = none) :
    StmtFrame.landings callers body = [] := by
  induction body with
  | nil => rfl
  | cons frame more ih =>
    cases frame with
    | handler ident block env => cases h
    | _ => exact ih h

/-- The handler that takes over is the innermost one, and those further out stay. -/
theorem around_eq_of_find (h : find body callers = some landing) :
    around body callers = landing :: around landing.body landing.callers := by
  fun_induction find body callers with
  | case1 body callers ident block env rest hhandler =>
    cases h
    exact around_eq_of_innermostHandler hhandler
  | case2 body hnone => cases h
  | case3 body hnone caller outer ih =>
    rw [around, landings_eq_nil_of_innermostHandler hnone]
    exact ih h

theorem around_eq_nil_of_find (h : find body callers = none) : around body callers = [] := by
  fun_induction find body callers with
  | case1 body callers ident block env rest hhandler => cases h
  | case2 body hnone => rw [around, landings_eq_nil_of_innermostHandler hnone, ofCallers]; rfl
  | case3 body hnone caller outer ih =>
    rw [around, landings_eq_nil_of_innermostHandler hnone]
    exact ih h

theorem find_eq_head? (body : List StmtFrame) (callers : List Caller) :
    find body callers = (around body callers).head? := by
  cases h : find body callers with
  | none => rw [around_eq_nil_of_find h, List.head?_nil]
  | some landing => rw [around_eq_of_find h, List.head?_cons]

theorem callers_eq_of_mem_landings (h : landing ∈ StmtFrame.landings callers body) :
    landing.callers = callers ∧ landing.body.length < body.length := by
  induction body with
  | nil => cases h
  | cons frame more ih =>
    have hmore (hmem : landing ∈ StmtFrame.landings callers more) :
        landing.callers = callers ∧ landing.body.length < (frame :: more).length :=
      (ih hmem).imp_right Nat.lt_succ_of_lt
    cases frame with
    | handler ident block env =>
      obtain rfl | hmem := List.mem_cons.1 h
      · exact ⟨rfl, Nat.lt_succ_self _⟩
      · exact hmore hmem
    | _ => exact hmore h

theorem depth_le_of_mem_landings (h : landing ∈ StmtFrame.landings callers body) :
    landing.depth ≤ ⟨callers.length, body.length, 0⟩ := by
  obtain ⟨hcallers, hlt⟩ := callers_eq_of_mem_landings h
  rw [Depth.le_def, depth, hcallers]
  dsimp only
  omega

theorem depth_le_of_mem_around (h : landing ∈ around body callers) :
    landing.depth ≤ ⟨callers.length, body.length, 0⟩ := by
  induction callers generalizing body with
  | nil =>
    rw [around, ofCallers, List.append_nil] at h
    exact depth_le_of_mem_landings h
  | cons caller outer ih =>
    obtain hmem | hmem := List.mem_append.1 h
    · exact depth_le_of_mem_landings hmem
    · exact Depth.le_trans (ih hmem) (by simp [Depth.le_def])

end Landing

namespace Thread

def landings (thread : Thread) : List Landing := Landing.around thread.body thread.callers

def opened (thread : Thread) : List Landing :=
  match thread.focus with
  | .exec (.tryCatch _ ident handler _) env =>
    [⟨ident, handler, env, thread.body, thread.callers⟩]
  | _ => []

/-- Nothing has been done in a function that is about to be entered. -/
def IsFresh (thread : Thread) : Prop := thread.focus.IsInside ∨ thread.body = []

theorem depth_le_of_mem_landings {thread : Thread} (hfresh : thread.IsFresh) {landing : Landing}
    (h : landing ∈ thread.landings) : landing.depth ≤ thread.depth := by
  obtain ⟨focus, body, callers⟩ := thread
  have hle := Landing.depth_le_of_mem_around h
  cases focus with
  | enter f args =>
    obtain rfl : body = [] := hfresh.resolve_left id
    cases callers with
    | nil => cases h
    | cons caller outer =>
      have hmem : landing ∈ Landing.around caller.body outer := h
      exact Depth.le_trans (Landing.depth_le_of_mem_around hmem)
        (by simp [Depth.le_def, depth, Caller.depth])
  | _ => exact Depth.le_trans hle (by simp [Depth.le_def, depth])

end Thread

end LateConst
