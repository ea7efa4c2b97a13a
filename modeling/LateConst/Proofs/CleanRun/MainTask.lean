import LateConst.Complaint
import LateConst.Proofs.Run
import LateConst.Proofs.Scoping.Move

/-!
# The first task of a program

The task that executes a program itself cannot be left by a `return` if the static check has nothing
to say about the statements of the program: what is left to do in its outermost activation never
contains a `return`, whatever its calls come to. So that activation is finished only after its last
statement.
-/

namespace LateConst

/-! ### Activations without `return` -/

/-- There is nothing wrong with the statement where it stands outside of all functions. -/
def Stmt.IsClean (s : Stmt) : Prop := s.complaints false = []

theorem stmtsComplaints_eq_nil_iff {inFunction : Bool} {body : List Stmt} :
    stmtsComplaints inFunction body = [] ↔ ∀ s ∈ body, s.complaints inFunction = [] := by
  induction body with
  | nil => simp [stmtsComplaints]
  | cons s more ih => rw [stmtsComplaints, List.append_eq_nil_iff, ih, List.forall_mem_cons]

namespace Stmt.IsClean

theorem block {stmts : List Stmt} {span : Span}
    (h : (Stmt.block (.mk stmts span)).IsClean) : ∀ s ∈ stmts, s.IsClean := by
  rw [IsClean, complaints, Block.complaints, List.append_eq_nil_iff] at h
  exact stmtsComplaints_eq_nil_iff.1 h.2

theorem not_ret {value : Option Expr} {span : Span} (h : (Stmt.ret value span).IsClean) :
    False := by
  cases value <;> simp [IsClean, complaints] at h

theorem branch {cond : Expr} {thenPart : Block} {elsePart : Option Stmt} {span : Span}
    (h : (Stmt.branch cond thenPart elsePart span).IsClean) :
    (Stmt.block thenPart).IsClean ∧ ∀ s ∈ elsePart, s.IsClean := by
  rw [IsClean, complaints]
  cases elsePart <;> simp_all [IsClean, complaints]

theorem whileLoop {cond : Expr} {body : Block} {span : Span}
    (h : (Stmt.whileLoop cond body span).IsClean) : (Stmt.block body).IsClean := by
  rw [IsClean, complaints, List.append_eq_nil_iff] at h
  rw [IsClean, complaints]
  exact h.2

theorem forOf {kind : Kind} {ident : Ident} {iterable : Expr} {body : Block} {span : Span}
    (h : (Stmt.forOf kind ident iterable body span).IsClean) : (Stmt.block body).IsClean := by
  rw [IsClean, complaints, List.append_eq_nil_iff] at h
  rw [IsClean, complaints]
  exact h.2

theorem tryCatch {body handler : Block} {ident : Ident} {span : Span}
    (h : (Stmt.tryCatch body ident handler span).IsClean) :
    (Stmt.block body).IsClean ∧ (Stmt.block handler).IsClean := by
  rw [IsClean, complaints, List.append_eq_nil_iff] at h
  rw [IsClean, IsClean, complaints, complaints]
  exact h

end Stmt.IsClean

/-- The statement that wants a value does not leave the activation with it. -/
def Use.Stays : Use → Prop
  | .ret => False
  | .branch thenPart elsePart _ => (Stmt.block thenPart).IsClean ∧ ∀ s ∈ elsePart, s.IsClean
  | .repeatWhile _ body _ => (Stmt.block body).IsClean
  | .iterate _ _ _ body _ => (Stmt.block body).IsClean
  | .loopVariable _ body _ => (Stmt.block body).IsClean
  | _ => True

def StmtFrame.Stays : StmtFrame → Prop
  | .sequence rest _ => ∀ s ∈ rest, s.IsClean
  | .whileLoop _ body _ => (Stmt.block body).IsClean
  | .forLoop _ _ body _ _ _ => (Stmt.block body).IsClean
  | .handler _ block _ => (Stmt.block block).IsClean

structure Caller.Stays (caller : Caller) : Prop where
  use : caller.use.Stays
  body : ∀ frame ∈ caller.body, frame.Stays

/-- The point that an outermost activation has reached: it is finished only where nothing is left
to do. -/
def Focus.Stays (body : List StmtFrame) : Focus → Prop
  | .enter _ _ => False
  | .eval _ _ _ use => use.Stays
  | .value _ _ use => use.Stays
  | .exec s _ => s.IsClean
  | .next => True
  | .done v => v = .undefined ∧ body = []

/-- The outermost activation of the thread has no `return` left to execute. -/
structure Thread.Stays (thread : Thread) : Prop where
  focus : thread.callers = [] → thread.focus.Stays thread.body
  body : thread.callers = [] → ∀ frame ∈ thread.body, frame.Stays
  caller : ∀ caller ∈ thread.callers.getLast?, caller.Stays

/-- What a move leaves of the task that makes it has a property, and the task is finished by the
move only under a condition. -/
def Move.Leaves {σ τ ε : Type} (Holds : τ → Prop) (Finished : Prop) : Move σ τ ε → Prop
  | .goOn _ work => Holds work
  | .spawn _ _ _ work => Holds work
  | .pause _ work => Holds work
  | .finish _ => Finished
  | .abandonOthers _ work => Holds work
  | .fail _ _ => True

theorem Move.Leaves.mono {σ τ ε : Type} {Holds : τ → Prop} {Finished Finished' : Prop}
    {move : Move σ τ ε} (h : move.Leaves Holds Finished) (hmono : Finished → Finished') :
    move.Leaves Holds Finished' := by
  cases move with
  | finish world => exact hmono h
  | _ => exact h

namespace Thread

/-- All but the focus of a thread whose outermost activation has no `return` left. -/
structure Rests (body : List StmtFrame) (callers : List Caller) : Prop where
  body : callers = [] → ∀ frame ∈ body, frame.Stays
  caller : ∀ caller ∈ callers.getLast?, caller.Stays

namespace Rests

variable {world : World} {body : List StmtFrame} {callers : List Caller} {site : Option Site}
  {frames : List ExprFrame} {use : Use}

theorem goOn (h : Rests body callers) {focus : Focus} {Finished : Prop}
    (hfocus : callers = [] → focus.Stays body) :
    Move.Leaves Thread.Stays Finished (.goOn world ⟨focus, body, callers⟩ : ThreadMove) :=
  ⟨hfocus, h.body, h.caller⟩

theorem push (h : Rests body callers) {frame : StmtFrame} (hframe : callers = [] → frame.Stays) :
    Rests (frame :: body) callers :=
  ⟨fun hcallers ↦ List.forall_mem_cons.2 ⟨hframe hcallers, h.body hcallers⟩, h.caller⟩

theorem suffix {rest : List StmtFrame} (h : Rests body callers) (hrest : rest <:+ body) :
    Rests rest callers :=
  ⟨fun hcallers frame hframe ↦ h.body hcallers frame (hrest.subset hframe), h.caller⟩

/-- What a caller has left to do, when its call is over. -/
theorem of_cons {caller : Caller} {outer : List Caller} (h : Rests body (caller :: outer)) :
    Rests caller.body outer ∧ (outer = [] → caller.use.Stays) := by
  have hlast (houter : outer = []) : caller.Stays := by
    subst houter
    exact h.caller caller rfl
  refine ⟨⟨fun houter ↦ (hlast houter).body, fun other hother ↦ h.caller other ?_⟩,
    fun houter ↦ (hlast houter).use⟩
  cases outer with
  | nil => cases hother
  | cons next more => rwa [List.getLast?_cons_cons]

theorem of_suffix {caller : Caller} {outer : List Caller} (h : Rests body callers)
    (hsuffix : caller :: outer <:+ callers) : Rests caller.body outer := by
  obtain ⟨before, rfl⟩ := hsuffix
  have hrests : Rests [] (caller :: outer) :=
    ⟨fun hnone ↦ (by cases hnone), fun last hlast ↦ h.caller last (by
      rwa [List.getLast?_append_cons])⟩
  exact hrests.of_cons.1

/-- What is left of a thread, with its handler, when a fault is raised. -/
theorem of_find {landing : Landing} (h : Rests body callers)
    (hlanding : Landing.find body callers = some landing) :
    Rests (.handler landing.ident landing.handler landing.env :: landing.body)
      landing.callers := by
  obtain ⟨hbody, hcallers⟩ | ⟨caller, hcallers, hbody⟩ := Landing.suffix_of_find hlanding
  · rw [hcallers]
    exact h.suffix hbody
  · exact (h.of_suffix hcallers).suffix hbody

theorem raise (h : Rests body callers) (fault : Fault) :
    (Thread.raise world body callers site fault).Leaves Thread.Stays False := by
  unfold Thread.raise
  split
  · trivial
  next landing hlanding =>
    have hrests := h.of_find hlanding
    have hhandler (hnone : landing.callers = []) : (Stmt.block landing.handler).IsClean :=
      (List.forall_mem_cons.1 (hrests.body hnone)).1
    exact (hrests.suffix (List.suffix_cons _ _)).goOn hhandler

theorem stop (h : Rests body callers) (failure : Failure) :
    (Thread.stop world body callers site failure).Leaves Thread.Stays False := by
  cases failure with
  | fault fault => exact h.raise fault
  | crash crash => trivial

theorem call (h : Rests body callers) (huse : callers = [] → use.Stays) (node : Expr)
    (callee : Value) (args : List Value) :
    (Thread.call world body callers node callee args frames use).Leaves Thread.Stays False := by
  unfold Thread.call
  split
  next ref f =>
    refine ⟨fun hnone ↦ (by cases hnone), fun hnone ↦ (by cases hnone), fun caller hcaller ↦ ?_⟩
    cases callers with
    | nil =>
      cases hcaller
      exact ⟨huse rfl, h.body rfl⟩
    | cons next more =>
      rw [List.getLast?_cons_cons] at hcaller
      exact h.caller caller hcaller
  · exact h.stop _

theorem computes (h : Rests body callers) (huse : callers = [] → use.Stays) {store : Store}
    {events : Array Event}
    {act : Array Event → List StmtFrame → List Caller → Use → ThreadMove}
    (hact : Computes store frames act) :
    (act events body callers use).Leaves Thread.Stays False := by
  cases hact with
  | evaluates e env frames' => exact h.goOn huse
  | gives hstore v => exact h.goOn huse
  | stops node failure => exact h.stop failure
  | calls node callee args => exact h.call huse node callee args

theorem stays_declareItems (stmt : Stmt) (env : RecordId) (items : List Declarator) :
    (declareItems stmt env items).Stays body := by
  obtain hnext | ⟨_, _, _, _, -, hfocus⟩ := declareItems_cases stmt env items
  · rw [hnext]
    trivial
  · rw [hfocus]
    trivial

theorem apply (h : Rests body callers) (huse : callers = [] → use.Stays) (v : Value) :
    (Thread.apply world body callers v use).Leaves Thread.Stays False := by
  have hnext (world : World) :
      Move.Leaves Thread.Stays False (.goOn world ⟨.next, body, callers⟩ : ThreadMove) :=
    h.goOn fun _ ↦ trivial
  unfold Thread.apply
  split <;> try exact hnext _
  next stmt name rest env =>
    split
    · exact h.stop _
    · exact h.goOn fun _ ↦ stays_declareItems stmt env rest
  next stmt idents env =>
    split
    · dsimp only
      split
      · exact hnext _
      · exact h.stop _
    · exact h.raise _
  next stmt name env =>
    split
    · exact h.raise _
    · split
      · exact h.stop _
      · exact hnext _
  next =>
    split
    · trivial
    · exact hnext _
  · exact h.goOn fun hnone ↦ (huse hnone).elim
  next stmt =>
    split
    · exact hnext world
    · exact h.stop _
  next stmt =>
    split
    · trivial
    · exact h.raise _
  next thenPart elsePart env =>
    refine h.goOn fun hnone ↦ ?_
    obtain ⟨hthen, helse⟩ := huse hnone
    split
    · exact hthen
    · split
      next s => exact helse s rfl
      next => trivial
  next cond block env =>
    split
    · have hframe : callers = [] → (StmtFrame.whileLoop cond block env).Stays := huse
      exact (h.push hframe).goOn huse
    · exact hnext _
  next stmt kind ident block env =>
    split
    · have hframe : callers = [] → (StmtFrame.forLoop kind ident block env v 0).Stays := huse
      exact (h.push hframe).goOn fun _ ↦ trivial
    · exact h.raise _
  next name block env =>
    split
    · exact h.stop _
    · exact h.goOn huse

theorem exec (h : Rests body callers) {s : Stmt} (hs : callers = [] → s.IsClean)
    (env : RecordId) : (Thread.exec world body callers s env).Leaves Thread.Stays False := by
  unfold Thread.exec
  split <;> try exact h.goOn fun _ ↦ trivial
  next kind items span => exact h.goOn fun _ ↦ stays_declareItems _ env items
  next span => exact h.goOn fun hnone ↦ ((hs hnone).not_ret).elim
  next value span => exact h.goOn fun hnone ↦ ((hs hnone).not_ret).elim
  next =>
    split
    · exact ⟨fun _ ↦ trivial, h.body, h.caller⟩
    next caller outer => exact h.of_cons.1.raise _
  next stmts span =>
    dsimp only
    split
    next store hhoist =>
      have hframe : callers = [] → (StmtFrame.sequence stmts world.store.records.size).Stays :=
        fun hnone ↦ (hs hnone).block
      exact (h.push hframe).goOn fun _ ↦ trivial
    · exact h.raise _
  next cond thenPart elsePart span => exact h.goOn fun hnone ↦ (hs hnone).branch
  next cond block span => exact h.goOn fun hnone ↦ (hs hnone).whileLoop
  next kind ident iterable block span => exact h.goOn fun hnone ↦ (hs hnone).forOf
  next block ident handler span =>
    have hframe : callers = [] → (StmtFrame.handler ident handler env).Stays :=
      fun hnone ↦ (hs hnone).tryCatch.2
    exact (h.push hframe).goOn fun hnone ↦ (hs hnone).tryCatch.1

theorem advance (h : Rests body callers) :
    (Thread.advance world callers body).Leaves Thread.Stays False := by
  unfold Thread.advance
  split
  · exact h.goOn fun _ ↦ ⟨rfl, rfl⟩
  · exact (h.suffix (List.suffix_cons _ _)).goOn fun _ ↦ trivial
  next s rest env body =>
    have hrest : Rests body callers := h.suffix (List.suffix_cons _ _)
    have hclean (hnone : callers = []) : ∀ s' ∈ s :: rest, s'.IsClean :=
      h.body hnone _ List.mem_cons_self
    have hframe (hnone : callers = []) : (StmtFrame.sequence rest env).Stays :=
      (List.forall_mem_cons.1 (hclean hnone)).2
    exact (hrest.push hframe).goOn fun hnone ↦ hclean hnone s List.mem_cons_self
  next cond block env body =>
    have hframe (hnone : callers = []) : (StmtFrame.whileLoop cond block env).Stays :=
      h.body hnone _ List.mem_cons_self
    exact (h.suffix (List.suffix_cons _ _)).goOn hframe
  next kind ident block env items i body =>
    have hrest : Rests body callers := h.suffix (List.suffix_cons _ _)
    have hframe (hnone : callers = []) :
        (StmtFrame.forLoop kind ident block env items (i + 1)).Stays :=
      (h.body hnone _ List.mem_cons_self : StmtFrame.Stays (.forLoop kind ident block env items i))
    split
    · exact hrest.goOn fun _ ↦ trivial
    · exact (hrest.push hframe).goOn hframe
  · exact (h.suffix (List.suffix_cons _ _)).goOn fun _ ↦ trivial

/-- A function is only entered by a call or by a spawned task, never by the outermost activation of
the task that executes the program. -/
theorem enter (h : Rests body callers) (hcallers : callers ≠ []) (f : Function)
    (args : List Value) : (Thread.enter world body callers f args).Leaves Thread.Stays False := by
  have hgoOn (h : Rests body callers) (world : World) (focus : Focus) :
      Move.Leaves Thread.Stays False (.goOn world ⟨focus, body, callers⟩ : ThreadMove) :=
    h.goOn fun hnone ↦ (hcallers hnone).elim
  unfold Thread.enter
  split
  · dsimp only
    split
    · exact (h.push fun hnone ↦ (hcallers hnone).elim).goOn fun hnone ↦ (hcallers hnone).elim
    · exact h.raise _
  · split
    · exact hgoOn h _ _
    · exact hgoOn h _ _
    · exact h.stop _

theorem complete (h : Rests body callers) (v : Value) :
    (Thread.complete world v callers).Leaves Thread.Stays (callers = []) := by
  unfold Thread.complete
  split
  · rfl
  next caller outer =>
    obtain ⟨hrest, huse⟩ := h.of_cons
    exact hrest.goOn huse

end Rests

/-- No move brings a `return` to the outermost activation, and the task is finished only where
nothing is left to do. -/
theorem Stays.move {thread : Thread} (h : thread.Stays) (world : World) :
    (thread.move world).Leaves Thread.Stays (thread = ⟨.done .undefined, [], []⟩) := by
  obtain ⟨focus, body, callers⟩ := thread
  have hrests : Rests body callers := ⟨h.body, h.caller⟩
  have hfocus := h.focus
  unfold Thread.move
  cases focus with
  | enter f args => exact (hrests.enter (fun hnone ↦ hfocus hnone) f args).mono False.elim
  | eval e env frames use =>
    exact (hrests.computes hfocus (computes_eval world.store frames e env)).mono False.elim
  | value v frames use =>
    cases frames with
    | nil => exact (hrests.apply hfocus v).mono False.elim
    | cons frame frames =>
      exact (hrests.computes hfocus (computes_resume world.store frames v frame)).mono False.elim
  | exec s env => exact (hrests.exec hfocus env).mono False.elim
  | next => exact hrests.advance.mono False.elim
  | done v =>
    refine (hrests.complete v).mono fun hnone ↦ ?_
    obtain ⟨rfl, hbody⟩ : v = .undefined ∧ body = [] := hfocus hnone
    rw [hbody, hnone]

end Thread

end LateConst
