import LateConst.Proofs.Thread
import LateConst.Proofs.Unpaused.Tree

/-!
# Threads without pauses

The outermost activation of a thread executes statements that stand outside of all functions, and
all others the statements of functions. So `Thread.unpaused` leaves out `pause`s in the outermost
activation, and changes nothing else.

A thread and the same thread without pauses make the same moves (`Thread.mirrors_move`), but for the
moves by which the former comes to a `pause` and executes it: after those the two are still the same
(`Thread.Lingers`).
-/

namespace LateConst

/-! ### What is left to do, without pauses -/

/-- What becomes of a statement of an activation with these callers. -/
def Caller.edit : List Caller → Stmt → Option Stmt
  | [] => Stmt.unpaused?
  | _ :: _ => some

theorem Caller.edits (callers : List Caller) : Edits (edit callers) := by
  cases callers with
  | nil => exact edits_unpaused?
  | cons caller outer => exact edits_some

def Use.edited (f : Stmt → Option Stmt) : Use → Use
  | .branch thenPart elsePart env => .branch (thenPart.edited f) (elsePart.bind f) env
  | .repeatWhile cond body env => .repeatWhile cond (body.edited f) env
  | .iterate stmt kind ident body env => .iterate (stmt.edited f) kind ident (body.edited f) env
  | .loopVariable name body env => .loopVariable name (body.edited f) env
  | use => use

def StmtFrame.edited (f : Stmt → Option Stmt) : StmtFrame → StmtFrame
  | .sequence rest env => .sequence (rest.filterMap f) env
  | .whileLoop cond body env => .whileLoop cond (body.edited f) env
  | .forLoop kind ident body env items next => .forLoop kind ident (body.edited f) env items next
  | .handler ident body env => .handler ident (body.edited f) env

/-- What an activation with these callers has left to do. -/
abbrev StmtFrame.unpaused (callers : List Caller) (body : List StmtFrame) : List StmtFrame :=
  body.map (edited (Caller.edit callers))

/-- To execute a statement that is left out is to go on after it. -/
def Focus.edited (f : Stmt → Option Stmt) : Focus → Focus
  | .eval e env frames use => .eval e env frames (use.edited f)
  | .value v frames use => .value v frames (use.edited f)
  | .exec s env =>
    match f s with
    | some s' => .exec s' env
    | none => .next
  | focus => focus

def Caller.unpaused : List Caller → List Caller
  | [] => []
  | ⟨node, frames, use, body⟩ :: outer =>
    ⟨node, frames, use.edited (edit outer), StmtFrame.unpaused outer body⟩ :: unpaused outer

def Landing.unpaused (landing : Landing) : Landing where
  ident := landing.ident
  handler := landing.handler.edited (Caller.edit landing.callers)
  env := landing.env
  body := StmtFrame.unpaused landing.callers landing.body
  callers := Caller.unpaused landing.callers

def Thread.unpaused (thread : Thread) : Thread where
  focus := thread.focus.edited (Caller.edit thread.callers)
  body := StmtFrame.unpaused thread.callers thread.body
  callers := Caller.unpaused thread.callers

/-! ### Handlers -/

theorem StmtFrame.innermostHandler_map (f : Stmt → Option Stmt) (body : List StmtFrame) :
    innermostHandler (body.map (edited f)) = (innermostHandler body).map
      fun (ident, body, env, rest) ↦ (ident, body.edited f, env, rest.map (edited f)) := by
  induction body with
  | nil => rfl
  | cons frame rest ih =>
    cases frame with
    | handler ident body env => rfl
    | _ => exact ih

/-- The same handler is the innermost one. -/
theorem Landing.find_unpaused (body : List StmtFrame) (callers : List Caller) :
    find (StmtFrame.unpaused callers body) (Caller.unpaused callers) =
      (find body callers).map unpaused := by
  induction callers generalizing body with
  | nil =>
    rw [Caller.unpaused, find, find, StmtFrame.innermostHandler_map]
    cases StmtFrame.innermostHandler body <;> rfl
  | cons caller outer ih =>
    rw [Caller.unpaused, find, find, StmtFrame.innermostHandler_map]
    cases StmtFrame.innermostHandler body with
    | none => exact ih caller.body
    | some found => rfl

/-! ### Moves that do the same -/

def Event.printed? : Event → Option String
  | .printed text => some text
  | .noted _ => none

def World.printed (world : World) : List String := world.events.toList.filterMap Event.printed?

/-- Worlds with the same store, in which the same lines have been printed. -/
structure World.Alike (world world' : World) : Prop where
  store : world'.store = world.store
  printed : world'.printed = world.printed

/-- The same error, at the same node or at what is left of it without pauses. -/
inductive RunError.Alike : RunError → RunError → Prop
  | crash (crash : Crash) : Alike (.crash crash) (.crash crash)
  | uncaught (fault : Fault) {site site' : Option Site}
      (hsite : site' = site ∨ site' = site.map Site.unpaused) :
      Alike (.uncaught fault site) (.uncaught fault site')

/-- A move does what another does without pauses. Functions are entered by calls only. -/
inductive Move.Mirrors : ThreadMove → ThreadMove → Prop
  | goOn {world world' : World} {thread : Thread} (hworld : world.Alike world')
      (hinside : thread.callers = [] → thread.focus.IsInside) :
      Mirrors (.goOn world thread) (.goOn world' thread.unpaused)
  | finish {world world' : World} (hworld : world.Alike world') :
      Mirrors (.finish world) (.finish world')
  | fail {world world' : World} {error error' : RunError} (hworld : world.Alike world')
      (herror : error.Alike error') : Mirrors (.fail world error) (.fail world' error')

namespace World.Alike

variable {store : Store} {events events' : Array Event}

theorem setStore (h : Alike ⟨store, events⟩ ⟨store, events'⟩) (store' : Store) :
    Alike ⟨store', events⟩ ⟨store', events'⟩ := ⟨rfl, h.printed⟩

theorem push (h : Alike ⟨store, events⟩ ⟨store, events'⟩) (event : Event) :
    Alike ⟨store, events.push event⟩ ⟨store, events'.push event⟩ := by
  have hprinted : events'.toList.filterMap Event.printed? =
    events.toList.filterMap Event.printed? := h.printed
  refine ⟨rfl, ?_⟩
  change (events'.push event).toList.filterMap Event.printed? =
    (events.push event).toList.filterMap Event.printed?
  rw [Array.toList_push, Array.toList_push, List.filterMap_append, List.filterMap_append, hprinted]

end World.Alike

namespace Thread

variable {store : Store} {events events' : Array Event} {body : List StmtFrame}
  {callers : List Caller} {frames : List ExprFrame} {use : Use}

/-- What has been left to do, in another focus. -/
theorem unpaused_eq {focus focus' : Focus}
    (hfocus : focus.edited (Caller.edit callers) = focus') :
    unpaused ⟨focus, body, callers⟩ = ⟨focus', StmtFrame.unpaused callers body,
      Caller.unpaused callers⟩ := by
  rw [unpaused, hfocus]

theorem mirrors_goOn (hworld : World.Alike ⟨store, events⟩ ⟨store, events'⟩)
    {focus focus' : Focus} (hfocus : focus.edited (Caller.edit callers) = focus')
    (hinside : focus.IsInside) :
    Move.Mirrors (.goOn ⟨store, events⟩ ⟨focus, body, callers⟩)
      (.goOn ⟨store, events'⟩ ⟨focus', StmtFrame.unpaused callers body,
        Caller.unpaused callers⟩) := by
  rw [← unpaused_eq hfocus]
  exact .goOn hworld fun _ ↦ hinside

/-- A handler is executed without the `pause`s inside of it. -/
theorem edited_exec_block (handler : Block) (env : RecordId) :
    (Focus.exec (.block handler) env).edited (Caller.edit callers) =
      .exec (.block (handler.edited (Caller.edit callers))) env := by
  rw [Focus.edited, (Caller.edits callers).eq_edited fun span h ↦ by cases h]
  rfl

/-- A statement is blamed for an error, or what is left of it without pauses. -/
theorem site_edited_cases (callers : List Caller) (s : Stmt) :
    some (Site.stmt (s.edited (Caller.edit callers))) = some (.stmt s) ∨
      some (Site.stmt (s.edited (Caller.edit callers))) =
        (some (Site.stmt s)).map Site.unpaused := by
  cases callers with
  | nil => exact .inr (congrArg some (Site.unpaused_stmt s).symm)
  | cons caller outer => exact .inl (by rw [Caller.edit, Stmt.edited_some])

theorem mirrors_raise (hworld : World.Alike ⟨store, events⟩ ⟨store, events'⟩)
    {site site' : Option Site} (hsite : site' = site ∨ site' = site.map Site.unpaused)
    (fault : Fault) :
    Move.Mirrors (raise ⟨store, events⟩ body callers site fault)
      (raise ⟨store, events'⟩ (StmtFrame.unpaused callers body) (Caller.unpaused callers)
        site' fault) := by
  unfold raise
  rw [Landing.find_unpaused]
  cases Landing.find body callers with
  | none => exact .fail hworld (.uncaught fault hsite)
  | some landing => exact mirrors_goOn (hworld.setStore _) (edited_exec_block _ _) trivial

theorem mirrors_stop (hworld : World.Alike ⟨store, events⟩ ⟨store, events'⟩)
    {site site' : Option Site} (hsite : site' = site ∨ site' = site.map Site.unpaused)
    (failure : Failure) :
    Move.Mirrors (stop ⟨store, events⟩ body callers site failure)
      (stop ⟨store, events'⟩ (StmtFrame.unpaused callers body) (Caller.unpaused callers)
        site' failure) := by
  cases failure with
  | fault fault => exact mirrors_raise hworld hsite fault
  | crash crash => exact .fail hworld (.crash crash)

theorem mirrors_call (hworld : World.Alike ⟨store, events⟩ ⟨store, events'⟩) (node : Expr)
    (callee : Value) (args : List Value) :
    Move.Mirrors (call ⟨store, events⟩ body callers node callee args frames use)
      (call ⟨store, events'⟩ (StmtFrame.unpaused callers body) (Caller.unpaused callers)
        node callee args frames (use.edited (Caller.edit callers))) := by
  unfold call
  split
  next ref f => exact .goOn hworld nofun
  · exact mirrors_stop hworld (.inl rfl) _

theorem mirrors_of_computes (hworld : World.Alike ⟨store, events⟩ ⟨store, events'⟩)
    {act : Array Event → List StmtFrame → List Caller → Use → ThreadMove}
    (h : Computes store frames act) :
    Move.Mirrors (act events body callers use)
      (act events' (StmtFrame.unpaused callers body) (Caller.unpaused callers)
        (use.edited (Caller.edit callers))) := by
  cases h with
  | evaluates e env frames' => exact mirrors_goOn hworld rfl trivial
  | gives hstore v => exact mirrors_goOn (hworld.setStore _) rfl trivial
  | stops node failure => exact mirrors_stop hworld (.inl rfl) failure
  | calls node callee args => exact mirrors_call hworld node callee args

/-- A declaration has no statements inside of it. -/
theorem edited_declareItems (f : Stmt → Option Stmt) (stmt : Stmt) (env : RecordId)
    (items : List Declarator) :
    (declareItems stmt env items).edited f = declareItems stmt env items := by
  obtain hnext | ⟨_, _, _, _, -, hfocus⟩ := declareItems_cases stmt env items
  · rw [hnext]
    rfl
  · rw [hfocus]
    rfl

/-- What is executed if a condition does not hold. -/
theorem edited_elsePart (f : Stmt → Option Stmt) (elsePart : Option Stmt) (env : RecordId) :
    Focus.edited f (match elsePart with
      | some s => .exec s env
      | none => .next) = match elsePart.bind f with
      | some s => .exec s env
      | none => .next := by
  cases elsePart with
  | none => rfl
  | some s =>
    rw [Option.bind_some]
    rfl

theorem mirrors_apply (hworld : World.Alike ⟨store, events⟩ ⟨store, events'⟩)
    (huse : ∀ stmt, use ≠ .spawn stmt) (v : Value) :
    Move.Mirrors (apply ⟨store, events⟩ body callers v use)
      (apply ⟨store, events'⟩ (StmtFrame.unpaused callers body) (Caller.unpaused callers)
        v (use.edited (Caller.edit callers))) := by
  have hnext : Move.Mirrors (.goOn ⟨store, events⟩ ⟨.next, body, callers⟩)
      (.goOn ⟨store, events'⟩ ⟨.next, StmtFrame.unpaused callers body,
        Caller.unpaused callers⟩) := mirrors_goOn hworld rfl trivial
  cases use with
  | declare stmt name rest env =>
    simp only [apply, Use.edited]
    cases store.slotToDefine env name v with
    | error failure => exact mirrors_stop hworld (.inl rfl) failure
    | ok slot =>
      exact mirrors_goOn (hworld.setStore _) (edited_declareItems _ stmt env rest)
        (isInside_declareItems stmt env rest)
  | destructure stmt idents env =>
    cases v with
    | array ref =>
      simp only [apply, Use.edited]
      obtain ⟨store', failure⟩ := defineAll store env idents (store.elements ref).toList
      cases failure with
      | none => exact mirrors_goOn (hworld.setStore _) rfl trivial
      | some failure => exact mirrors_stop (hworld.setStore _) (.inl rfl) failure
    | _ => exact mirrors_raise hworld (.inl rfl) _
  | assign stmt name env =>
    simp only [apply, Use.edited]
    cases store.resolve env name with
    | error fault => exact mirrors_raise hworld (.inl rfl) fault
    | ok id =>
      dsimp only
      cases store.slotToWrite id name v with
      | error failure => exact mirrors_stop hworld (.inl rfl) failure
      | ok slot => exact mirrors_goOn (hworld.setStore _) rfl trivial
  | discard => exact hnext
  | print =>
    simp only [apply, Use.edited]
    cases store.display v with
    | error crash => exact .fail hworld (.crash crash)
    | ok text => exact mirrors_goOn (hworld.push _) rfl trivial
  | ret => exact mirrors_goOn hworld rfl trivial
  | spawn stmt => exact (huse stmt rfl).elim
  | throw stmt =>
    simp only [apply, Use.edited]
    cases store.display v with
    | error crash => exact .fail hworld (.crash crash)
    | ok text => exact mirrors_raise hworld (.inl rfl) _
  | branch thenPart elsePart env =>
    simp only [apply, Use.edited]
    split
    · exact mirrors_goOn hworld (edited_exec_block thenPart env) trivial
    · refine mirrors_goOn hworld (edited_elsePart _ elsePart env) ?_
      cases elsePart <;> trivial
  | repeatWhile cond block env =>
    simp only [apply, Use.edited]
    split
    · exact mirrors_goOn hworld (edited_exec_block block env) trivial
    · exact hnext
  | iterate stmt kind ident block env =>
    simp only [apply, Use.edited]
    cases v.length? store with
    | none => exact mirrors_raise hworld (site_edited_cases callers stmt) _
    | some length => exact mirrors_goOn hworld rfl trivial
  | loopVariable name block env =>
    simp only [apply, Use.edited]
    cases store.slotToDefine env name v with
    | error failure => exact mirrors_stop hworld (.inl rfl) failure
    | ok slot => exact mirrors_goOn (hworld.setStore _) (edited_exec_block block env) trivial

/-! ### Statements -/

theorem mirrors_exec (hworld : World.Alike ⟨store, events⟩ ⟨store, events'⟩) {s s' : Stmt}
    (hs : Caller.edit callers s = some s') (env : RecordId) :
    Move.Mirrors (exec ⟨store, events⟩ body callers s env)
      (exec ⟨store, events'⟩ (StmtFrame.unpaused callers body) (Caller.unpaused callers)
        s' env) := by
  obtain heq | ⟨hnone, -⟩ := (Caller.edits callers).eq_edited_or_pause s
  · obtain rfl := Option.some.inj (hs.symm.trans heq)
    cases s with
    | declare kind items span =>
      exact mirrors_goOn hworld (edited_declareItems _ _ env items)
        (isInside_declareItems _ env items)
    | ret value span => cases value <;> exact mirrors_goOn hworld rfl trivial
    | pause span =>
      cases callers with
      | nil => cases hs
      | cons caller outer => exact mirrors_raise hworld (.inl rfl) _
    | block block =>
      obtain ⟨stmts, span⟩ := block
      simp only [exec, Stmt.edited, Block.edited, (Caller.edits callers).hoistBody]
      obtain ⟨store', twice⟩ := (store.addRecord .block (some env)).2.hoistBody
        (store.addRecord .block (some env)).1 stmts
      cases twice with
      | none => exact .goOn (hworld.setStore _) fun _ ↦ trivial
      | some ident => exact mirrors_raise (hworld.setStore _) (.inl rfl) _
    | tryCatch block ident handler span =>
      exact mirrors_goOn hworld (edited_exec_block block env) trivial
    | _ => exact mirrors_goOn hworld rfl trivial
  · cases hs.symm.trans hnone

theorem mirrors_enter (hworld : World.Alike ⟨store, events⟩ ⟨store, events'⟩)
    {caller : Caller} {outer : List Caller} (hcallers : callers = caller :: outer) (f : Function)
    (args : List Value) :
    Move.Mirrors (enter ⟨store, events⟩ body callers f args)
      (enter ⟨store, events'⟩ (StmtFrame.unpaused callers body) (Caller.unpaused callers)
        f args) := by
  subst hcallers
  cases f with
  | closure code env =>
    simp only [enter]
    obtain ⟨store', twice⟩ := (store.addRecord .function (some env)).2.hoist
      (store.addRecord .function (some env)).1
      (parameters code.params args ++ code.body.flatMap Stmt.hoisted)
    cases twice with
    | none =>
      have hbody : StmtFrame.unpaused (caller :: outer)
          (.sequence code.body (store.addRecord .function (some env)).1 :: body) =
            .sequence code.body (store.addRecord .function (some env)).1 ::
              StmtFrame.unpaused (caller :: outer) body := by
        rw [StmtFrame.unpaused, List.map_cons, StmtFrame.edited, Caller.edit, List.filterMap_some]
        rfl
      dsimp only
      rw [← hbody]
      exact .goOn (hworld.setStore _) fun _ ↦ trivial
    | some ident => exact mirrors_raise (hworld.setStore _) (.inl rfl) _
  | builtin builtin =>
    simp only [enter]
    cases builtin.apply store args with
    | error failure => exact mirrors_stop hworld (.inl rfl) failure
    | ok out =>
      obtain ⟨v, added⟩ := out
      cases added with
      | none => exact mirrors_goOn hworld rfl trivial
      | some added => exact mirrors_goOn (hworld.setStore _) rfl trivial

theorem mirrors_complete (hworld : World.Alike ⟨store, events⟩ ⟨store, events'⟩) (v : Value) :
    Move.Mirrors (complete ⟨store, events⟩ v callers)
      (complete ⟨store, events'⟩ v (Caller.unpaused callers)) := by
  cases callers with
  | nil => exact .finish hworld
  | cons caller outer => exact .goOn hworld fun _ ↦ trivial

/-! ### Pauses -/

/-- The thread has come to a `pause` of its outermost activation, or is about to. -/
inductive Lingers : Thread → Prop
  | before {span : Span} {rest : List Stmt} {env : RecordId} {body : List StmtFrame} :
      Lingers ⟨.next, .sequence (.pause span :: rest) env :: body, []⟩
  | pause {span : Span} {env : RecordId} {body : List StmtFrame} :
      Lingers ⟨.exec (.pause span) env, body, []⟩

theorem lingers_of_edit_eq_none {s : Stmt} (h : Caller.edit callers s = none) :
    callers = [] ∧ ∃ span, s = .pause span := by
  obtain heq | ⟨-, hpause⟩ := (Caller.edits callers).eq_edited_or_pause s
  · cases h.symm.trans heq
  · cases callers with
    | nil => exact ⟨rfl, hpause⟩
    | cons caller outer => cases h

theorem mirrors_advance (hworld : World.Alike ⟨store, events⟩ ⟨store, events'⟩)
    (hlingers : ¬ Lingers ⟨.next, body, callers⟩) :
    Move.Mirrors (advance ⟨store, events⟩ callers body)
      (advance ⟨store, events'⟩ (Caller.unpaused callers) (StmtFrame.unpaused callers body)) := by
  cases body with
  | nil => exact .goOn hworld fun _ ↦ trivial
  | cons frame body =>
    cases frame with
    | sequence rest env =>
      cases rest with
      | nil => exact mirrors_goOn hworld rfl trivial
      | cons s rest =>
        cases hs : Caller.edit callers s with
        | none =>
          obtain ⟨rfl, span, rfl⟩ := lingers_of_edit_eq_none hs
          exact (hlingers .before).elim
        | some s' =>
          have hfocus : (Focus.exec s env).edited (Caller.edit callers) = .exec s' env := by
            rw [Focus.edited, hs]
          rw [StmtFrame.unpaused, List.map_cons, StmtFrame.edited, List.filterMap_cons_some hs]
          exact mirrors_goOn hworld hfocus trivial
    | whileLoop cond block env => exact mirrors_goOn hworld rfl trivial
    | forLoop kind ident block env items n =>
      simp only [advance, StmtFrame.unpaused, List.map_cons, StmtFrame.edited]
      cases items.element? store n with
      | none => exact mirrors_goOn hworld rfl trivial
      | some v => exact .goOn (hworld.setStore _) fun _ ↦ trivial
    | handler ident block env => exact mirrors_goOn hworld rfl trivial

/-- A thread makes the same move without pauses, unless it has come to a `pause`. -/
theorem mirrors_move {world world' : World} (hworld : world.Alike world') {thread : Thread}
    (hspawn : ∀ v stmt, thread.focus ≠ .value v [] (.spawn stmt))
    (hinside : thread.callers = [] → thread.focus.IsInside)
    (hlingers : ¬ thread.Lingers) :
    (thread.move world).Mirrors (thread.unpaused.move world') := by
  obtain ⟨store, events⟩ := world
  obtain ⟨store', events'⟩ := world'
  obtain rfl : store' = store := hworld.store
  obtain ⟨focus, body, callers⟩ := thread
  cases focus with
  | enter f args =>
    obtain ⟨caller, outer, hcallers⟩ := List.exists_cons_of_ne_nil fun hnil ↦ hinside hnil
    exact mirrors_enter hworld hcallers f args
  | eval e env frames use => exact mirrors_of_computes hworld (computes_eval store' frames e env)
  | value v frames use =>
    cases frames with
    | nil => exact mirrors_apply hworld (fun stmt h ↦ hspawn v stmt (h ▸ rfl)) v
    | cons frame frames =>
      exact mirrors_of_computes hworld (computes_resume store' frames v frame)
  | exec s env =>
    cases hs : Caller.edit callers s with
    | none =>
      obtain ⟨rfl, span, rfl⟩ := lingers_of_edit_eq_none hs
      exact (hlingers .pause).elim
    | some s' =>
      have hfocus : (Focus.exec s env).edited (Caller.edit callers) = .exec s' env := by
        rw [Focus.edited, hs]
      rw [unpaused_eq hfocus]
      exact mirrors_exec hworld hs env
  | next => exact mirrors_advance hworld hlingers
  | done v => exact mirrors_complete hworld v

/-- The `pause`s that stand together at the beginning of a list of statements. -/
def pausesAhead : List Stmt → Nat
  | .pause _ :: more => pausesAhead more + 1
  | _ => 0

/-- A bound for the moves that a thread can linger, with room for a turn after every `pause`. -/
def delay (thread : Thread) : Nat :=
  let ahead := match thread.body with
    | .sequence rest _ :: _ => 3 * pausesAhead rest
    | _ => 0
  match thread.focus with
  | .next => ahead
  | .exec _ _ => ahead + 2
  | _ => 0

/-- While a thread lingers nothing comes of its moves, and it is the same thread without pauses. -/
theorem Lingers.exists_move {thread : Thread} (h : thread.Lingers) (world : World) :
    ∃ thread', (thread.move world = .goOn world thread' ∧ thread'.delay < thread.delay ∨
        thread.move world = .pause world thread' ∧ thread'.delay + 1 < thread.delay) ∧
      thread'.unpaused = thread.unpaused ∧ thread'.focus.IsInside := by
  cases h with
  | @before span rest env body =>
    refine ⟨⟨.exec (.pause span) env, .sequence rest env :: body, []⟩, .inl ⟨rfl, ?_⟩, rfl, trivial⟩
    simp only [delay, pausesAhead]
    omega
  | @pause span env body =>
    refine ⟨⟨.next, body, []⟩, .inr ⟨rfl, ?_⟩, rfl, trivial⟩
    simp only [delay]
    omega

end Thread

end LateConst
