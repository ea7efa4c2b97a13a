import LateConst.Proofs.Call
import LateConst.Proofs.Evaluation.Wait
import LateConst.Proofs.RoundRobin.Job
import LateConst.Proofs.Scoping.Entry
import LateConst.Proofs.Unwinding.Depth

/-!
# What a move does to what is open

A move goes on inside of what the thread has begun, or leaves some of it behind (`Thread.Leads`).
Where something goes wrong, the move is the same as without any handler around the thread, but for
the handler that takes over (`Thread.Course`), and it can go wrong at one point only
(`Thread.RaisesAt`): at the node that the thread has come to, or where the names of a scope are
declared, or, for a `pause` in a function that was called, at the call.
-/

namespace LateConst

def Focus.declared : Focus → List Ident
  | .enter (.closure code _) _ => code.params ++ code.body.flatMap Stmt.declared
  | .exec (.block block) _ => block.body.flatMap Stmt.declared
  | _ => []

namespace Thread

/-- A thread as it is, but without any handler around the point that it has reached. -/
def exposed (thread : Thread) : Thread :=
  ⟨thread.focus, [], thread.callers.map fun caller ↦ { caller with body := [] }⟩

/-- The fault that the next move of a thread raises, whether some handler takes it or not. -/
def raised? (thread : Thread) (world : World) : Option Fault :=
  match thread.exposed.move world with
  | .fail _ (.uncaught fault _) => some fault
  | _ => none

/-- What is left of a thread is inside of nodes and handlers that the thread was inside of, or that
it has just begun. The handlers that it is no longer inside of were deeper. -/
structure Leads (thread left : Thread) : Prop where
  stations : left.stations ⊆ thread.begun ++ thread.stations
  landings : ∃ dropped, thread.opened ++ thread.landings = dropped ++ left.landings ∧
    ∀ landing ∈ dropped, ¬landing.depth ≤ left.depth
  inside : left.focus.IsInside ∨ left.body = [] ∧ left.callers ≠ []

/-- A fault is raised with this site, in this world, and the innermost handler takes over that is
around these statements and callers. -/
inductive RaisesAt (thread : Thread) (world : World) :
    World → List StmtFrame → List Caller → Option Site → Fault → Prop
  /-- The node that the thread has come to fails. -/
  | node {m : Station} {fault : Fault} (hstation : m ∈ thread.begun ++ thread.stations)
      (hdepth : m.depth = thread.depth) (hfault : (Failure.fault fault).IsPlain) :
      RaisesAt thread world world thread.body thread.callers (some m.site) fault
  | thrown {v : Value} {text : String} {stmt : Stmt}
      (hfocus : thread.focus = .value v [] (.throw stmt))
      (htext : world.store.display v = .ok text) :
      RaisesAt thread world world thread.body thread.callers (some (.stmt stmt)) (.thrown v text)
  /-- A name is declared for the second time in the scope that is entered. -/
  | declaration {store : Store} {record : Record} {before after : List Ident} {ident : Ident}
      (hdeclared : thread.focus.declared = before ++ ident :: after)
      (hfirst : (before.map Ident.name).Nodup) (htwice : ident.name ∈ before.map Ident.name)
      (hrecords : store.records = world.store.records.push record)
      (harrays : store.arrays = world.store.arrays) :
      RaisesAt thread world ⟨store, world.events⟩ thread.body thread.callers
        (some (.ident ident)) (.duplicateName ident.name)
  /-- A function that was called comes to a `pause`, and the call fails. -/
  | pause {span : Span} {env : RecordId} {caller : Caller} {outer : List Caller}
      (hfocus : thread.focus = .exec (.pause span) env)
      (hcallers : thread.callers = caller :: outer) :
      RaisesAt thread world world caller.body outer (some (.expr caller.node)) .cannotSuspend
  /-- A built-in function fails that was spawned. -/
  | spawned {b : Builtin} {args : List Value} {fault : Fault}
      (hfocus : thread.focus = .enter (.builtin b) args) (hcallers : thread.callers = [])
      (happly : b.apply world.store args = .error (.fault fault))
      (hfault : (Failure.fault fault).IsPlain) :
      RaisesAt thread world world thread.body [] none fault

/-- How the move of a thread in a world compares with that of the same thread without handlers. -/
inductive Course (thread : Thread) (world : World) : ThreadMove → ThreadMove → Prop
  | goes {move bare : ThreadMove} {left : Thread} (hleft : move.own? = some left)
      (hleads : thread.Leads left) (hnew : ∀ new, move.new? = some new → ∃ f, new = ofFunction f)
      (hbare : bare.own?.isSome) : Course thread world move bare
  | finishes {world' : World} : Course thread world (.finish world') (.finish world')
  | crashes {world' : World} {crash : Crash} :
      Course thread world (.fail world' (.crash crash)) (.fail world' (.crash crash))
  | raises {world' : World} {body : List StmtFrame} {callers : List Caller} {site : Option Site}
      {fault : Fault} (hopened : thread.opened = [])
      (hraises : thread.RaisesAt world world' body callers site fault) :
      Course thread world (raise world' body callers site fault)
        (.fail world' (.uncaught fault site))

/-! ### Going on -/

variable {world world' : World} {body : List StmtFrame} {callers : List Caller}
  {frames : List ExprFrame} {use : Use} {focus focus' : Focus} {thread left : Thread}

theorem leads_focus (hopened : (Thread.mk focus body callers).opened = [])
    (hstations : focus'.stations callers.length body.length ⊆
      (Thread.mk focus body callers).begun ++ focus.stations callers.length body.length)
    (hinside : focus'.IsInside) : Leads ⟨focus, body, callers⟩ ⟨focus', body, callers⟩ := by
  refine ⟨?_, ⟨[], ?_, List.forall_mem_nil _⟩, .inl hinside⟩
  · rw [stations, stations, ← List.append_assoc]
    exact List.append_subset.2 ⟨List.subset_append_of_subset_left _ hstations,
      List.subset_append_right _ _⟩
  · rw [hopened]
    rfl

/-- Statements are begun or finished, and no value is waited for. -/
theorem leads_body {body' : List StmtFrame}
    (hstations : focus'.stations callers.length body'.length = []) (hinside : focus'.IsInside)
    (hlandings : ∃ dropped, (Thread.mk focus body callers).opened ++ Landing.around body callers =
      dropped ++ Landing.around body' callers ∧
        ∀ landing ∈ dropped, ¬landing.depth ≤ (Thread.mk focus' body' callers).depth) :
    Leads ⟨focus, body, callers⟩ ⟨focus', body', callers⟩ := by
  refine ⟨?_, hlandings, .inl hinside⟩
  rw [stations, stations, hstations]
  exact List.subset_append_of_subset_right _ (List.subset_append_right _ _)

theorem course_goOn {left' : Thread} (h : thread.Leads left) :
    Course thread world (.goOn world' left) (.goOn world' left') :=
  .goes rfl h nofun rfl

/-- The statement has used its value, and the activation goes on. -/
theorem course_used {v : Value} {left' : Thread} (hinside : focus'.IsInside)
    (hfocus : focus'.stations callers.length body.length ⊆
      use.stations callers.length body.length) :
    Course ⟨.value v [] use, body, callers⟩ world (.goOn world' ⟨focus', body, callers⟩)
      (.goOn world' left') :=
  course_goOn (leads_focus rfl hfocus hinside)

theorem stations_declareItems (stmt : Stmt) (env : RecordId) (items : List Declarator)
    (calls statements : Nat) : (declareItems stmt env items).stations calls statements ⊆
      [⟨⟨calls, statements, 1⟩, .stmt stmt, false⟩] := by
  obtain hnext | ⟨_, ident, e, rest, -, hfocus⟩ := declareItems_cases stmt env items
  · rw [hnext]
    exact List.nil_subset _
  · rw [hfocus]
    exact List.Subset.refl _

theorem course_advance (bare : List Caller) :
    Course ⟨.next, body, callers⟩ world (advance world callers body)
      (advance world bare []) := by
  have hkept {focus' : Focus} {body' : List StmtFrame} {world' world'' : World} {left' : Thread}
      (hstations : focus'.stations callers.length body'.length = []) (hinside : focus'.IsInside)
      (hlandings : Landing.around body callers = Landing.around body' callers) :
      Course ⟨.next, body, callers⟩ world (.goOn world' ⟨focus', body', callers⟩)
        (.goOn world'' left') :=
    .goes rfl (leads_body hstations hinside ⟨[], hlandings, List.forall_mem_nil _⟩) nofun rfl
  cases body with
  | nil => exact hkept rfl trivial rfl
  | cons frame body =>
    cases frame with
    | sequence stmts env =>
      cases stmts with
      | nil => exact hkept rfl trivial rfl
      | cons s rest => exact hkept rfl trivial rfl
    | whileLoop cond block env => exact hkept rfl trivial rfl
    | forLoop kind ident block env items next =>
      unfold advance
      dsimp only
      cases items.element? world.store next with
      | none => exact hkept rfl trivial rfl
      | some v => exact hkept rfl trivial rfl
    | handler ident block env =>
      refine .goes rfl (leads_body rfl trivial ⟨[⟨ident, block, env, body, callers⟩], rfl, ?_⟩)
        nofun rfl
      simp [Landing.depth, depth, Depth.le_def]

/-! ### Going wrong -/

theorem exists_crash_of_defineAll {store store' : Store} {env : RecordId} {idents : List Ident}
    {vs : List Value} {failure : Failure}
    (h : defineAll store env idents vs = (store', some failure)) :
    ∃ crash, failure = .crash crash := by
  induction idents generalizing store vs with
  | nil => cases h
  | cons ident more ih =>
    rw [defineAll] at h
    split at h
    next cause hdefine =>
      cases h
      exact Store.exists_crash_of_slotToDefine hdefine
    · exact ih h

section Bare

variable {bare : List Caller} (hbare : Landing.find [] bare = none)

include hbare

theorem course_raise {site : Option Site} {fault : Fault} (hopened : thread.opened = [])
    (hraises : thread.RaisesAt world world' body callers site fault) :
    Course thread world (raise world' body callers site fault)
      (raise world' [] bare site fault) := by
  rw [raise_of_find_eq_none hbare]
  exact .raises hopened hraises

/-- The node that the thread has come to fails, for a plain reason. -/
theorem course_stop {m : Station} {failure : Failure} (hopened : thread.opened = [])
    (hstation : m ∈ thread.begun ++ thread.stations) (hdepth : m.depth = thread.depth)
    (hfailure : failure.IsPlain) :
    Course thread world (stop world thread.body thread.callers (some m.site) failure)
      (stop world [] bare (some m.site) failure) := by
  cases failure with
  | fault fault => exact course_raise hbare hopened (.node hstation hdepth hfailure)
  | crash crash => exact .crashes

theorem course_eval (e : Expr) (env : RecordId) :
    Course ⟨.eval e env frames use, body, callers⟩ world
      (eval world body callers e env frames use) (eval world [] bare e env frames use) := by
  have hvalue {v : Value} {world' : World} {left' : Thread} :
      Course ⟨.eval e env frames use, body, callers⟩ world
        (.goOn world' ⟨.value v frames use, body, callers⟩) (.goOn world' left') :=
    course_goOn (leads_focus rfl (List.subset_append_right _ _) trivial)
  have hpush {e' : Expr} {frame : ExprFrame} {left' : Thread}
      (hframe : ∀ node ∈ frame.node?, node = (e, e.isCall)) :
      Course ⟨.eval e env frames use, body, callers⟩ world
        (.goOn world ⟨.eval e' env (frame :: frames) use, body, callers⟩) (.goOn world left') := by
    refine course_goOn (leads_focus rfl ?_ trivial)
    rw [Focus.stations, Use.stationsAround_cons]
    refine List.append_subset.2 ⟨fun station hstation ↦ ?_, List.subset_append_right _ _⟩
    obtain ⟨node, hnode, rfl⟩ := List.mem_map.1 hstation
    obtain rfl := hframe node (Option.mem_toList.1 hnode)
    exact List.mem_cons_self
  have hfails (failure : Failure) (hfailure : failure.IsPlain) :
      Course ⟨.eval e env frames use, body, callers⟩ world
        (stop world body callers (some (.expr e)) failure)
        (stop world [] bare (some (.expr e)) failure) :=
    course_stop hbare (m := ⟨_, .expr e, e.isCall⟩) rfl List.mem_cons_self rfl hfailure
  have hread {name : String} {id : RecordId} (hid : world.store.resolve env name = .ok id)
      (forTypeof : Bool) : Sound (fun _ ↦ True) (world.store.read id name forTypeof) := by
    obtain ⟨slot, hslot⟩ := Store.exists_slot_of_resolve hid
    exact (world.store.sound_read hslot forTypeof).mono fun _ _ ↦ trivial
  cases e with
  | literal value span => exact hvalue
  | lookup ident =>
    rw [eval, eval]
    dsimp only
    cases hid : world.store.resolve env ident.name with
    | error fault =>
      obtain rfl := Store.eq_unresolved_of_resolve hid
      exact hfails (.fault _) trivial
    | ok id =>
      have hvalue' := hread hid false
      dsimp only
      generalize world.store.read id ident.name false = result at hvalue' ⊢
      cases hvalue' with
      | ok _ => exact hvalue
      | error hplain => exact hfails _ hplain
  | typeOf arg span =>
    cases arg with
    | lookup ident =>
      rw [eval, eval]
      dsimp only
      cases hid : world.store.resolve env ident.name with
      | error fault => exact hvalue
      | ok id =>
        have hvalue' := hread hid true
        dsimp only
        generalize world.store.read id ident.name true = result at hvalue' ⊢
        cases hvalue' with
        | ok _ => exact hvalue
        | error hplain => exact hfails _ hplain
    | _ => exact hpush (by rintro node ⟨⟩)
  | unary op arg span => exact hpush (by rintro node ⟨⟩; rfl)
  | binary lhs op rhs span => exact hpush (by rintro node ⟨⟩; rfl)
  | shortcut lhs op rhs span => exact hpush (by rintro node ⟨⟩)
  | call callee args span => exact hpush (by rintro node ⟨⟩; rfl)
  | index base index span => exact hpush (by rintro node ⟨⟩; rfl)
  | array items span =>
    cases items with
    | nil => exact hvalue
    | cons first rest => exact hpush (by rintro node ⟨⟩)
  | function params code span => exact hvalue

theorem course_call {v callee : Value} {frame : ExprFrame} {node : Expr} {args : List Value}
    (hframe : frame.node? = some (node, true)) :
    Course ⟨.value v (frame :: frames) use, body, callers⟩ world
      (call world body callers node callee args frames use)
      (call world [] bare node callee args frames use) := by
  have hstations : (Thread.mk (.value v (frame :: frames) use) body callers).stations =
      Caller.stations (⟨node, frames, use, body⟩ :: callers) := by
    rw [stations, Focus.stations, Use.stationsAround_cons, hframe, Caller.stations]
    rfl
  unfold call
  cases callee with
  | function ref f =>
    refine course_goOn ⟨?_, ⟨[], rfl, List.forall_mem_nil _⟩, .inr ⟨rfl, nofun⟩⟩
    rw [hstations]
    exact List.subset_append_right _ _
  | _ =>
    refine course_stop hbare (m := ⟨⟨callers.length, body.length, _⟩, .expr node, true⟩) rfl ?_ rfl
      (world.store.isPlain_of_display _ .cannotCall fun _ ↦ trivial)
    rw [hstations]
    exact List.mem_append_right _ List.mem_cons_self

theorem course_resume (v : Value) (frame : ExprFrame) :
    Course ⟨.value v (frame :: frames) use, body, callers⟩ world
      (resume world body callers v frame frames use)
      (resume world [] bare v frame frames use) := by
  have hgoOn {focus' : Focus} {world' : World} {left' : Thread} (hinside : focus'.IsInside)
      (hfocus : focus'.stations callers.length body.length ⊆
        use.stationsAround callers.length body.length (frame :: frames)) :
      Course ⟨.value v (frame :: frames) use, body, callers⟩ world
        (.goOn world' ⟨focus', body, callers⟩) (.goOn world' left') :=
    course_goOn (leads_focus rfl hfocus hinside)
  have hrest : use.stationsAround callers.length body.length frames ⊆
      use.stationsAround callers.length body.length (frame :: frames) := by
    rw [Use.stationsAround_cons]
    exact List.subset_append_right _ _
  have hvalue {w : Value} {world' : World} {left' : Thread} :
      Course ⟨.value v (frame :: frames) use, body, callers⟩ world
        (.goOn world' ⟨.value w frames use, body, callers⟩) (.goOn world' left') :=
    hgoOn trivial hrest
  have hpush {e : Expr} {env : RecordId} {frame' : ExprFrame} {left' : Thread}
      (hframe : frame'.node? = frame.node?) :
      Course ⟨.value v (frame :: frames) use, body, callers⟩ world
        (.goOn world ⟨.eval e env (frame' :: frames) use, body, callers⟩) (.goOn world left') := by
    refine hgoOn trivial ?_
    rw [Focus.stations, Use.stationsAround_cons, Use.stationsAround_cons, hframe]
    exact List.Subset.refl _
  have hsettle {node : Expr} {result : Except Failure Value} {Good : Value → Prop}
      (hframe : frame.node? = some (node, false)) (hresult : Sound Good result) :
      Course ⟨.value v (frame :: frames) use, body, callers⟩ world
        (settle world body callers frames use node result)
        (settle world [] bare frames use node result) := by
    cases hresult with
    | ok _ => exact hvalue
    | error hplain =>
      refine course_stop hbare (m := ⟨⟨callers.length, body.length, _⟩, .expr node, false⟩) rfl ?_
        rfl hplain
      refine List.mem_append_right _ (List.mem_append_left _ ?_)
      rw [Focus.stations, Use.stationsAround_cons, hframe]
      exact List.mem_cons_self
  cases frame with
  | typeOf => exact hvalue
  | unary node op => exact hsettle rfl (v.sound_applyUnary op)
  | binaryLeft node op rhs env => exact hpush rfl
  | binaryRight node op lhs => exact hsettle rfl (Value.sound_applyBinary op lhs v)
  | shortcut op rhs env =>
    unfold resume
    cases op <;> cases v.truthy <;> first
      | exact hvalue
      | exact hgoOn trivial hrest
  | callee node args env =>
    cases args with
    | nil => exact course_call hbare rfl
    | cons first rest => exact hpush rfl
  | argument node callee done rest env =>
    cases rest with
    | nil => exact course_call hbare rfl
    | cons first rest => exact hpush rfl
  | base node index env => exact hpush rfl
  | index node base => exact hsettle rfl (Value.sound_applyIndex base v)
  | element done rest env =>
    cases rest with
    | nil => exact hvalue
    | cons first rest => exact hpush rfl

/-- The statement cannot use its value. -/
theorem course_unused {v : Value} {stmt : Stmt} (failure : Failure)
    (huse : use.stmt? = some stmt) (hfailure : failure.IsPlain) :
    Course ⟨.value v [] use, body, callers⟩ world
      (stop world body callers (some (.stmt stmt)) failure)
      (stop world [] bare (some (.stmt stmt)) failure) := by
  refine course_stop hbare (m := ⟨⟨callers.length, body.length, 1⟩, .stmt stmt, false⟩) rfl ?_
    rfl hfailure
  refine List.mem_append_right _ (List.mem_append_left _ ?_)
  change _ ∈ use.stations callers.length body.length
  rw [Use.stations, huse]
  exact List.mem_cons_self

theorem course_destructure (stmt : Stmt) (idents : List Ident) (env : RecordId) (v : Value) :
    Course ⟨.value v [] (.destructure stmt idents env), body, callers⟩ world
      (apply world body callers v (.destructure stmt idents env))
      (apply world [] bare v (.destructure stmt idents env)) := by
  cases v with
  | array ref =>
    rw [apply, apply]
    cases hall : defineAll world.store env idents (world.store.elements ref).toList with
    | mk store failure? =>
      cases failure? with
      | none => exact course_used trivial (List.nil_subset _)
      | some failure =>
        obtain ⟨crash, rfl⟩ := exists_crash_of_defineAll hall
        exact .crashes
  | _ => exact course_unused hbare (.fault (.cannotDestructure _)) rfl trivial

theorem course_assign (stmt : Stmt) (name : String) (env : RecordId) (v : Value) :
    Course ⟨.value v [] (.assign stmt name env), body, callers⟩ world
      (apply world body callers v (.assign stmt name env))
      (apply world [] bare v (.assign stmt name env)) := by
  rw [apply, apply]
  cases hid : world.store.resolve env name with
  | error fault =>
    obtain rfl := Store.eq_unresolved_of_resolve hid
    exact course_unused hbare (.fault _) rfl trivial
  | ok id =>
    obtain ⟨slot, hslot⟩ := Store.exists_slot_of_resolve hid
    have hwrite := Store.sound_slotToWrite hslot v
    dsimp only
    generalize world.store.slotToWrite id name v = result at hwrite ⊢
    cases hwrite with
    | ok _ => exact course_used trivial (List.nil_subset _)
    | error hplain => exact course_unused hbare _ rfl hplain

theorem course_apply (v : Value) :
    Course ⟨.value v [] use, body, callers⟩ world (apply world body callers v use)
      (apply world [] bare v use) := by
  have hnext {world' : World} {left' : Thread} :
      Course ⟨.value v [] use, body, callers⟩ world (.goOn world' ⟨.next, body, callers⟩)
        (.goOn world' left') :=
    course_used trivial (List.nil_subset _)
  have hexec {s : Stmt} {env : RecordId} {world' : World} {left' : Thread} :
      Course ⟨.value v [] use, body, callers⟩ world (.goOn world' ⟨.exec s env, body, callers⟩)
        (.goOn world' left') :=
    course_used trivial (List.nil_subset _)
  cases use with
  | declare stmt name rest env =>
    rw [apply, apply]
    cases hdefine : world.store.slotToDefine env name v with
    | error failure =>
      obtain ⟨crash, rfl⟩ := Store.exists_crash_of_slotToDefine hdefine
      exact .crashes
    | ok slot =>
      exact course_used (isInside_declareItems stmt env rest)
        (stations_declareItems stmt env rest _ _)
  | destructure stmt idents env => exact course_destructure hbare stmt idents env v
  | assign stmt name env => exact course_assign hbare stmt name env v
  | discard => exact hnext
  | print =>
    rw [apply, apply]
    cases world.store.display v with
    | ok text => exact hnext
    | error crash => exact .crashes
  | ret => exact course_used trivial (List.nil_subset _)
  | spawn stmt =>
    cases v with
    | function ref f =>
      refine .goes rfl (leads_focus rfl (List.nil_subset _) trivial) ?_ rfl
      rintro new ⟨⟩
      exact ⟨f, rfl⟩
    | _ =>
      exact course_unused hbare _ rfl
        (world.store.isPlain_of_display _ .cannotSpawn fun _ ↦ trivial)
  | throw stmt =>
    rw [apply, apply]
    cases htext : world.store.display v with
    | ok text => exact course_raise hbare rfl (.thrown rfl htext)
    | error crash => exact .crashes
  | branch thenPart elsePart env =>
    unfold apply
    cases v.truthy with
    | true => exact hexec
    | false =>
      cases elsePart with
      | none => exact hnext
      | some s => exact hexec
  | repeatWhile cond block env =>
    rw [apply, apply]
    split
    · exact course_goOn (leads_body rfl trivial ⟨[], rfl, List.forall_mem_nil _⟩)
    · exact hnext
  | iterate stmt kind ident block env =>
    rw [apply, apply]
    cases v.length? world.store with
    | some length => exact course_goOn (leads_body rfl trivial ⟨[], rfl, List.forall_mem_nil _⟩)
    | none => exact course_unused hbare (.fault (.cannotIterate _)) rfl trivial
  | loopVariable name block env =>
    rw [apply, apply]
    cases hdefine : world.store.slotToDefine env name v with
    | error failure =>
      obtain ⟨crash, rfl⟩ := Store.exists_crash_of_slotToDefine hdefine
      exact .crashes
    | ok slot => exact hexec

/-- A scope is entered, or a name is declared in it for the second time. -/
theorem course_scope {focus : Focus} {items : List (Ident × Hoisted)} (kind : ScopeKind)
    (env : RecordId) {entered entered' : List StmtFrame} {bare' : List Caller}
    (hopened : (Thread.mk focus body callers).opened = [])
    (hitems : items.map Prod.fst = focus.declared)
    (hleads : Leads ⟨focus, body, callers⟩ ⟨.next, entered, callers⟩) :
    Course ⟨focus, body, callers⟩ world
      (match (world.store.addRecord kind (some env)).2.hoist world.store.records.size items with
      | (store, none) => .goOn ⟨store, world.events⟩ ⟨.next, entered, callers⟩
      | (store, some ident) => raise ⟨store, world.events⟩ body callers (some (.ident ident))
          (.duplicateName ident.name))
      (match (world.store.addRecord kind (some env)).2.hoist world.store.records.size items with
      | (store, none) => .goOn ⟨store, world.events⟩ ⟨.next, entered', bare'⟩
      | (store, some ident) => raise ⟨store, world.events⟩ [] bare (some (.ident ident))
          (.duplicateName ident.name)) := by
  obtain ⟨done, rest, made, rfl, hmade, hrecords, harrays, hnodup, hstop, hthere⟩ :=
    Store.exists_stop_of_hoist_push (world.store.records_addRecord kind env) items
  generalize (world.store.addRecord kind (some env)).2.hoist world.store.records.size
    (done ++ rest) = out at hrecords harrays hstop ⊢
  obtain ⟨store, twice⟩ := out
  cases rest with
  | nil =>
    obtain rfl : twice = none := hstop
    exact course_goOn hleads
  | cons item rest =>
    obtain rfl : twice = some item.1 := hstop
    have hdeclared : focus.declared = done.map Prod.fst ++ item.1 :: rest.map Prod.fst := by
      rw [← hitems, List.map_append, List.map_cons]
    have hnames : made.map Entry.name = (done.map Prod.fst).map Ident.name :=
      map_name_of_made hmade
    have hfirst : ((done.map Prod.fst).map Ident.name).Nodup := hnames ▸ hnodup List.nodup_nil
    have htwice : item.1.name ∈ (done.map Prod.fst).map Ident.name := hnames ▸ hthere item rfl
    exact course_raise hbare hopened (.declaration hdeclared hfirst htwice hrecords harrays)

end Bare

theorem find_exposed (callers : List Caller) :
    Landing.find [] (callers.map fun caller ↦ { caller with body := [] }) = none := by
  induction callers with
  | nil => rfl
  | cons caller outer ih => exact ih

theorem course_exec (s : Stmt) (env : RecordId) :
    Course ⟨.exec s env, body, callers⟩ world (exec world body callers s env)
      (exec world [] (callers.map fun caller ↦ { caller with body := [] }) s env) := by
  have hgoOn {focus' : Focus} {left' : Thread}
      (hopened : (Thread.mk (.exec s env) body callers).opened = []) (hinside : focus'.IsInside)
      (hstations : focus'.stations callers.length body.length ⊆
        [⟨⟨callers.length, body.length, 1⟩, .stmt s, false⟩]) :
      Course ⟨.exec s env, body, callers⟩ world (.goOn world ⟨focus', body, callers⟩)
        (.goOn world left') :=
    course_goOn (leads_focus hopened (List.subset_append_of_subset_left _ hstations) hinside)
  cases s with
  | declare kind items span =>
    exact hgoOn rfl (isInside_declareItems _ env items) (stations_declareItems _ env items _ _)
  | destructure kind idents init span => exact hgoOn rfl trivial (List.Subset.refl _)
  | function ident params code span => exact hgoOn rfl trivial (List.nil_subset _)
  | assign ident value span => exact hgoOn rfl trivial (List.Subset.refl _)
  | expr value span => exact hgoOn rfl trivial (List.nil_subset _)
  | print value span => exact hgoOn rfl trivial (List.nil_subset _)
  | ret value span =>
    cases value with
    | none => exact hgoOn rfl trivial (List.nil_subset _)
    | some value => exact hgoOn rfl trivial (List.nil_subset _)
  | pause span =>
    cases callers with
    | nil => exact .goes rfl (leads_focus rfl (List.nil_subset _) trivial) nofun rfl
    | cons caller outer => exact course_raise (find_exposed outer) rfl (.pause rfl rfl)
  | spawn value span => exact hgoOn rfl trivial (List.Subset.refl _)
  | throw value span => exact hgoOn rfl trivial (List.Subset.refl _)
  | block block =>
    obtain ⟨stmts, span⟩ := block
    refine course_scope (find_exposed callers) .block env rfl (map_fst_flatMap_hoisted stmts) ?_
    exact leads_body rfl trivial ⟨[], rfl, List.forall_mem_nil _⟩
  | branch cond thenPart elsePart span => exact hgoOn rfl trivial (List.nil_subset _)
  | whileLoop cond block span => exact hgoOn rfl trivial (List.nil_subset _)
  | forOf kind ident iterable block span => exact hgoOn rfl trivial (List.Subset.refl _)
  | tryCatch block ident handler span =>
    exact course_goOn (leads_body rfl trivial ⟨[], rfl, List.forall_mem_nil _⟩)

theorem course_enter (f : Function) (args : List Value) :
    Course ⟨.enter f args, body, callers⟩ world (enter world body callers f args)
      (enter world [] (callers.map fun caller ↦ { caller with body := [] }) f args) := by
  cases f with
  | closure code env =>
    refine course_scope (find_exposed callers) .function env rfl ?_ ?_
    · rw [List.map_append, map_fst_parameters, map_fst_flatMap_hoisted]
      rfl
    · exact leads_body rfl trivial ⟨[], rfl, List.forall_mem_nil _⟩
  | builtin b =>
    have happly := b.sound_apply world.store args
    unfold enter
    dsimp only
    cases hresult : b.apply world.store args with
    | ok out =>
      obtain ⟨v, more⟩ := out
      cases more <;> exact course_goOn (leads_focus rfl (List.nil_subset _) trivial)
    | error failure =>
      rw [hresult] at happly
      cases happly with
      | error hplain =>
        cases callers with
        | nil =>
          cases failure with
          | crash crash => exact .crashes
          | fault fault =>
            have hraises : RaisesAt ⟨.enter (.builtin b) args, body, []⟩ world world body [] none
                fault := .spawned rfl rfl hresult hplain
            exact course_raise (find_exposed []) rfl hraises
        | cons caller outer =>
          refine course_stop (find_exposed outer) rfl (m := ⟨_, .expr caller.node, true⟩) ?_ rfl
            hplain
          exact List.mem_cons_self

theorem course_complete (v : Value) :
    Course ⟨.done v, body, callers⟩ world (complete world v callers)
      (complete world v (callers.map fun caller ↦ { caller with body := [] })) := by
  cases callers with
  | nil => exact .finishes
  | cons caller outer =>
    refine course_goOn ⟨?_, ⟨StmtFrame.landings (caller :: outer) body, rfl, ?_⟩, .inl trivial⟩
    · exact List.subset_cons_self _ _
    · intro landing hlanding
      have hcallers := (Landing.callers_eq_of_mem_landings hlanding).1
      simp [Landing.depth, hcallers, depth, Depth.le_def]

/-- A move goes on inside of what is open, or the thread is finished, or the run ends with a crash,
or a fault is raised. Handlers make no difference but in the last case. -/
theorem course_move (thread : Thread) (world : World) :
    thread.Course world (thread.move world) (thread.exposed.move world) := by
  obtain ⟨focus, body, callers⟩ := thread
  unfold move
  cases focus with
  | enter f args => exact course_enter f args
  | eval e env frames use => exact course_eval (find_exposed callers) e env
  | value v frames use =>
    cases frames with
    | nil => exact course_apply (find_exposed callers) v
    | cons frame frames => exact course_resume (find_exposed callers) v frame
  | exec s env => exact course_exec s env
  | next => exact course_advance _
  | done v => exact course_complete v

section Ends

variable {site : Option Site} {fault : Fault}

/-- What would end the run without handlers is raised by the move, and they are looked for where it
is raised. -/
theorem exists_raisesAt (h : thread.exposed.move world = .fail world' (.uncaught fault site)) :
    ∃ body callers, thread.move world = raise world' body callers site fault ∧
      thread.RaisesAt world world' body callers site fault ∧ thread.opened = [] := by
  have hcourse := thread.course_move world
  rw [h] at hcourse
  generalize thread.move world = move at hcourse ⊢
  cases hcourse with
  | goes _ _ _ hbare => cases hbare
  | raises hopened hraises => exact ⟨_, _, rfl, hraises, hopened⟩

/-- A crash passes all handlers. -/
theorem move_of_crash {crash : Crash}
    (h : thread.exposed.move world = .fail world' (.crash crash)) :
    thread.move world = .fail world' (.crash crash) := by
  have hcourse := thread.course_move world
  rw [h] at hcourse
  generalize thread.move world = move at hcourse ⊢
  cases hcourse with
  | goes _ _ _ hbare => cases hbare
  | crashes => rfl

/-- What ends the run with handlers ends it without them. -/
theorem exposed_move_of_fail {error : RunError} (h : thread.move world = .fail world' error) :
    thread.exposed.move world = .fail world' error := by
  have hcourse := thread.course_move world
  generalize thread.move world = move at h hcourse
  generalize thread.exposed.move world = bare at hcourse ⊢
  cases hcourse with
  | goes hleft =>
    rw [h] at hleft
    cases hleft
  | finishes => cases h
  | crashes => exact h
  | raises =>
    unfold raise at h
    split at h
    · exact h
    · cases h

end Ends

/-- The handlers that can take over are around the thread, and those that cannot are in the function
that is given up. -/
theorem RaisesAt.exists_landings_eq {site : Option Site} {fault : Fault}
    (h : thread.RaisesAt world world' body callers site fault) :
    callers <:+ thread.callers ∧
      ∃ dropped, thread.landings = dropped ++ Landing.around body callers ∧
        ∀ landing ∈ dropped, callers.length < landing.callers.length := by
  cases h with
  | node => exact ⟨List.suffix_rfl, [], rfl, List.forall_mem_nil _⟩
  | thrown => exact ⟨List.suffix_rfl, [], rfl, List.forall_mem_nil _⟩
  | declaration => exact ⟨List.suffix_rfl, [], rfl, List.forall_mem_nil _⟩
  | pause _ hcallers =>
    rw [landings, hcallers]
    refine ⟨List.suffix_cons _ _, _, rfl, fun landing hlanding ↦ ?_⟩
    rw [(Landing.callers_eq_of_mem_landings hlanding).1]
    exact Nat.lt_succ_self _
  | spawned _ hcallers =>
    rw [landings, hcallers]
    exact ⟨List.suffix_rfl, [], rfl, List.forall_mem_nil _⟩

/-- The handler that takes over goes on inside of what was open around its `try`. -/
theorem RaisesAt.leads {site : Option Site} {fault : Fault} {landing : Landing}
    (h : thread.RaisesAt world world' body callers site fault) (hopened : thread.opened = [])
    (hlanding : Landing.find body callers = some landing) :
    thread.Leads (landing.thread world') := by
  obtain ⟨hcallers, dropped, hlandings, hdropped⟩ := h.exists_landings_eq
  have houter := Landing.callers_suffix_of_find hlanding
  refine ⟨?_, ⟨dropped ++ [landing], ?_, ?_⟩, .inl trivial⟩
  · have hsuffix := Caller.stations_suffix (houter.trans hcallers)
    exact List.subset_append_of_subset_right _ (List.subset_append_of_subset_right _ hsuffix.subset)
  · rw [hopened, hlandings, Landing.around_eq_of_find hlanding, List.nil_append, List.append_assoc]
    rfl
  · intro other hother
    have hlength := houter.length_le
    obtain hmem | hmem := List.mem_append.1 hother
    · have hlt := hdropped other hmem
      simp only [Landing.depth, Landing.thread, depth, Depth.le_def]
      omega
    · obtain rfl := List.mem_singleton.1 hmem
      simp [Landing.depth, Landing.thread, depth, Depth.le_def]

/-- Whatever a move leaves of a thread is inside of what was open. -/
theorem leads_of_own? (h : (thread.move world).own? = some left) : thread.Leads left := by
  have hcourse := thread.course_move world
  generalize thread.move world = move at h hcourse
  generalize thread.exposed.move world = bare at hcourse
  cases hcourse with
  | goes hleft hleads =>
    obtain rfl := Option.some.inj (hleft.symm.trans h)
    exact hleads
  | finishes => cases h
  | crashes => cases h
  | @raises world' body callers site fault hopened hraises =>
    cases hlanding : Landing.find body callers with
    | none =>
      rw [raise_of_find_eq_none hlanding] at h
      cases h
    | some landing =>
      rw [raise_of_find hlanding] at h
      cases h
      exact hraises.leads hopened hlanding

/-- What is spawned is a call without arguments. -/
theorem exists_ofFunction_of_new? {new : Thread} (h : (thread.move world).new? = some new) :
    ∃ f, new = ofFunction f := by
  have hcourse := thread.course_move world
  generalize thread.move world = move at h hcourse
  generalize thread.exposed.move world = bare at hcourse
  cases hcourse with
  | goes _ _ hnew => exact hnew new h
  | finishes => cases h
  | crashes => cases h
  | raises =>
    unfold raise at h
    split at h <;> cases h

end Thread

end LateConst
