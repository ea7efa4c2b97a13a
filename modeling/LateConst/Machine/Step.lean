import LateConst.Machine.Hoisting
import LateConst.Machine.Thread
import LateConst.RoundRobin

/-!
# One move of a thread

`Thread.move` makes the smallest step of execution: it starts or finishes one expression or
statement. A fault goes to the innermost handler of the thread, which is looked for among the
statements of the present activation and then of its callers; if there is none the thread fails, and
with it the run. The node to blame for a fault is fixed at the moment it happens.

Only an activation without callers can be suspended. If a called function comes to a `pause`, the
call is given up and fails where it stands.
-/

namespace LateConst

inductive Event where
  | printed (text : String)
  | noted (note : Note)
  deriving DecidableEq, Repr

/-- What all threads share. -/
structure World where
  store : Store
  events : Array Event
  deriving Inhabited

inductive RunError where
  | uncaught (fault : Fault) (site : Option Site)
  | crash (crash : Crash)

abbrev ThreadMove := Move World Thread RunError

namespace Thread

/-- Raises a fault: the innermost handler takes over, in a record with the caught value. -/
def raise (world : World) (body : List StmtFrame) (callers : List Caller) (site : Option Site)
    (fault : Fault) : ThreadMove :=
  match Landing.find body callers with
  | none => .fail world (.uncaught fault site)
  | some landing =>
    let ⟨store, events⟩ := world
    let (ref, store) := store.fresh
    let (env, store) := store.addRecord .handler (some landing.env)
    let store := store.addName env landing.ident.name (.mutable (fault.caught ref) true)
    .goOn ⟨store, events⟩ ⟨.exec (.block landing.handler) env, landing.body, landing.callers⟩

def stop (world : World) (body : List StmtFrame) (callers : List Caller) (site : Option Site) :
    Failure → ThreadMove
  | .fault fault => raise world body callers site fault
  | .crash crash => .fail world (.crash crash)

/-- The part of a declaration that is to be executed next: items without an initial value have
nothing to do. -/
def declareItems (stmt : Stmt) (env : RecordId) : List Declarator → Focus
  | [] => .next
  | .mk _ none :: rest => declareItems stmt env rest
  | .mk ident (some init) :: rest => .eval init env [] (.declare stmt ident.name rest env)

def eval (world : World) (body : List StmtFrame) (callers : List Caller) (e : Expr)
    (env : RecordId) (frames : List ExprFrame) (use : Use) : ThreadMove :=
  let site := some (Site.expr e)
  let goOn (focus : Focus) : ThreadMove := .goOn world ⟨focus, body, callers⟩
  match e with
  | .literal value _ => goOn (.value (.ofLiteral value) frames use)
  | .lookup ident =>
    match world.store.resolve env ident.name with
    | .error fault => raise world body callers site fault
    | .ok id =>
      match world.store.read id ident.name false with
      | .error failure => stop world body callers site failure
      | .ok v => goOn (.value v frames use)
  | .typeOf (.lookup ident) _ =>
    match world.store.resolve env ident.name with
    | .error _ => goOn (.value (.text Value.undefined.typeName) frames use)
    | .ok id =>
      match world.store.read id ident.name true with
      | .error failure => stop world body callers site failure
      | .ok v => goOn (.value (.text v.typeName) frames use)
  | .typeOf arg _ => goOn (.eval arg env (.typeOf :: frames) use)
  | .unary op arg _ => goOn (.eval arg env (.unary e op :: frames) use)
  | .binary lhs op rhs _ => goOn (.eval lhs env (.binaryLeft e op rhs env :: frames) use)
  | .shortcut lhs op rhs _ => goOn (.eval lhs env (.shortcut op rhs env :: frames) use)
  | .call callee args _ => goOn (.eval callee env (.callee e args env :: frames) use)
  | .index base index _ => goOn (.eval base env (.base e index env :: frames) use)
  | .array (first :: rest) _ => goOn (.eval first env (.element [] rest env :: frames) use)
  | .array [] _ =>
    let ⟨store, events⟩ := world
    let (ref, store) := store.addArray []
    .goOn ⟨store, events⟩ ⟨.value (.array ref) frames use, body, callers⟩
  | .function params code span =>
    let ⟨store, events⟩ := world
    let (ref, store) := store.fresh
    let closure := Function.closure ⟨none, params, code, span⟩ env
    .goOn ⟨store, events⟩ ⟨.value (.function ref closure) frames use, body, callers⟩

/-- Calls a value with arguments. What is left to do around the call waits as a caller. -/
def call (world : World) (body : List StmtFrame) (callers : List Caller) (node : Expr)
    (callee : Value) (args : List Value) (frames : List ExprFrame) (use : Use) : ThreadMove :=
  match callee with
  | .function _ f => .goOn world ⟨.enter f args, [], ⟨node, frames, use, body⟩ :: callers⟩
  | callee =>
    let failure : Failure := match world.store.display callee with
      | .ok text => .fault (.cannotCall text)
      | .error crash => .crash crash
    stop world body callers (some (.expr node)) failure

/-- Gives a value to the expression that waits for it. -/
def resume (world : World) (body : List StmtFrame) (callers : List Caller) (v : Value)
    (frame : ExprFrame) (frames : List ExprFrame) (use : Use) : ThreadMove :=
  let goOn (focus : Focus) : ThreadMove := .goOn world ⟨focus, body, callers⟩
  let settle (node : Expr) (result : Except Failure Value) : ThreadMove :=
    match result with
    | .ok v => goOn (.value v frames use)
    | .error failure => stop world body callers (some (.expr node)) failure
  match frame with
  | .typeOf => goOn (.value (.text v.typeName) frames use)
  | .unary node op => settle node (v.applyUnary op)
  | .binaryLeft node op rhs env => goOn (.eval rhs env (.binaryRight node op v :: frames) use)
  | .binaryRight node op lhs => settle node (Value.applyBinary world.store op lhs v)
  | .shortcut op rhs env =>
    let decided := match op with
      | .and => !v.truthy
      | .or => v.truthy
    if decided then goOn (.value v frames use) else goOn (.eval rhs env frames use)
  | .callee node [] _ => call world body callers node v [] frames use
  | .callee node (first :: rest) env =>
    goOn (.eval first env (.argument node v [] rest env :: frames) use)
  | .argument node callee done [] _ => call world body callers node callee (done ++ [v]) frames use
  | .argument node callee done (first :: rest) env =>
    goOn (.eval first env (.argument node callee (done ++ [v]) rest env :: frames) use)
  | .base node index env => goOn (.eval index env (.index node v :: frames) use)
  | .index node base => settle node (base.applyIndex world.store v)
  | .element done (first :: rest) env =>
    goOn (.eval first env (.element (done ++ [v]) rest env :: frames) use)
  | .element done [] _ =>
    let ⟨store, events⟩ := world
    let (ref, store) := store.addArray (done ++ [v])
    .goOn ⟨store, events⟩ ⟨.value (.array ref) frames use, body, callers⟩

/-- Gives the names of a pattern their values, which are the elements of an array in order. -/
def defineAll (store : Store) (env : RecordId) :
    List Ident → List Value → Store × Option Failure
  | [], _ => (store, none)
  | ident :: more, values =>
    match store.slotToDefine env ident.name (values.headD .undefined) with
    | .error failure => (store, some failure)
    | .ok slot => defineAll (store.setSlot env ident.name slot) env more values.tail

/-- Gives a value to the statement that wants it. -/
def apply (world : World) (body : List StmtFrame) (callers : List Caller) (v : Value) :
    Use → ThreadMove
  | .declare stmt name rest env =>
    match world.store.slotToDefine env name v with
    | .error failure => stop world body callers (some (.stmt stmt)) failure
    | .ok slot =>
      let ⟨store, events⟩ := world
      .goOn ⟨store.setSlot env name slot, events⟩ ⟨declareItems stmt env rest, body, callers⟩
  | .destructure stmt idents env =>
    match v with
    | .array ref =>
      let ⟨store, events⟩ := world
      let values := (store.elements ref).toList
      match defineAll store env idents values with
      | (store, none) => .goOn ⟨store, events⟩ ⟨.next, body, callers⟩
      | (store, some failure) =>
        stop ⟨store, events⟩ body callers (some (.stmt stmt)) failure
    | v => raise world body callers (some (.stmt stmt)) (.cannotDestructure v.typeName)
  | .assign stmt name env =>
    match world.store.resolve env name with
    | .error fault => raise world body callers (some (.stmt stmt)) fault
    | .ok id =>
      match world.store.slotToWrite id name v with
      | .error failure => stop world body callers (some (.stmt stmt)) failure
      | .ok slot =>
        let ⟨store, events⟩ := world
        .goOn ⟨store.setSlot id name slot, events⟩ ⟨.next, body, callers⟩
  | .discard => .goOn world ⟨.next, body, callers⟩
  | .print =>
    match world.store.display v with
    | .error crash => .fail world (.crash crash)
    | .ok text =>
      let ⟨store, events⟩ := world
      .goOn ⟨store, events.push (.printed text)⟩ ⟨.next, body, callers⟩
  | .ret => .goOn world ⟨.done v, body, callers⟩
  | .spawn stmt =>
    match v with
    | .function _ f => .spawn world f.name (.ofFunction f) ⟨.next, body, callers⟩
    | v =>
      let failure : Failure := match world.store.display v with
        | .ok text => .fault (.cannotSpawn text)
        | .error crash => .crash crash
      stop world body callers (some (.stmt stmt)) failure
  | .throw stmt =>
    match world.store.display v with
    | .error crash => .fail world (.crash crash)
    | .ok text => raise world body callers (some (.stmt stmt)) (.thrown v text)
  | .branch thenPart elsePart env =>
    let focus : Focus :=
      if v.truthy then .exec (.block thenPart) env
      else match elsePart with
        | some s => .exec s env
        | none => .next
    .goOn world ⟨focus, body, callers⟩
  | .repeatWhile cond block env =>
    if v.truthy then
      .goOn world ⟨.exec (.block block) env, .whileLoop cond block env :: body, callers⟩
    else .goOn world ⟨.next, body, callers⟩
  | .iterate stmt kind ident block env =>
    match v.length? world.store with
    | some _ => .goOn world ⟨.next, .forLoop kind ident block env v 0 :: body, callers⟩
    | none => raise world body callers (some (.stmt stmt)) (.cannotIterate v.typeName)
  | .loopVariable name block env =>
    match world.store.slotToDefine env name v with
    | .error failure => stop world body callers none failure
    | .ok slot =>
      let ⟨store, events⟩ := world
      .goOn ⟨store.setSlot env name slot, events⟩ ⟨.exec (.block block) env, body, callers⟩

def exec (world : World) (body : List StmtFrame) (callers : List Caller) (s : Stmt)
    (env : RecordId) : ThreadMove :=
  let goOn (focus : Focus) : ThreadMove := .goOn world ⟨focus, body, callers⟩
  match s with
  | .declare _ items _ => goOn (declareItems s env items)
  | .destructure _ idents init _ => goOn (.eval init env [] (.destructure s idents env))
  | .function _ _ _ _ => goOn .next
  | .assign ident value _ => goOn (.eval value env [] (.assign s ident.name env))
  | .expr value _ => goOn (.eval value env [] .discard)
  | .print value _ => goOn (.eval value env [] .print)
  | .ret none _ => goOn (.done .undefined)
  | .ret (some value) _ => goOn (.eval value env [] .ret)
  | .pause _ =>
    match callers with
    | [] => .pause world ⟨.next, body, []⟩
    | caller :: outer => raise world caller.body outer (some (.expr caller.node)) .cannotSuspend
  | .spawn value _ => goOn (.eval value env [] (.spawn s))
  | .throw value _ => goOn (.eval value env [] (.throw s))
  | .block (.mk stmts _) =>
    let ⟨store, events⟩ := world
    let (inner, store) := store.addRecord .block (some env)
    match store.hoistBody inner stmts with
    | (store, none) => .goOn ⟨store, events⟩ ⟨.next, .sequence stmts inner :: body, callers⟩
    | (store, some ident) =>
      raise ⟨store, events⟩ body callers (some (.ident ident)) (.duplicateName ident.name)
  | .branch cond thenPart elsePart _ =>
    goOn (.eval cond env [] (.branch thenPart elsePart env))
  | .whileLoop cond block _ => goOn (.eval cond env [] (.repeatWhile cond block env))
  | .forOf kind ident iterable block _ =>
    goOn (.eval iterable env [] (.iterate s kind ident block env))
  | .tryCatch block ident handler _ =>
    .goOn world ⟨.exec (.block block) env, .handler ident handler env :: body, callers⟩

def advance (world : World) (callers : List Caller) : List StmtFrame → ThreadMove
  | [] => .goOn world ⟨.done .undefined, [], callers⟩
  | .sequence [] _ :: body => .goOn world ⟨.next, body, callers⟩
  | .sequence (s :: rest) env :: body =>
    .goOn world ⟨.exec s env, .sequence rest env :: body, callers⟩
  | .whileLoop cond block env :: body =>
    .goOn world ⟨.eval cond env [] (.repeatWhile cond block env), body, callers⟩
  | .forLoop kind ident block env items next :: body =>
    match items.element? world.store next with
    | none => .goOn world ⟨.next, body, callers⟩
    | some v =>
      let ⟨store, events⟩ := world
      let (inner, store) := store.addRecord .iteration (some env)
      let store := store.addName inner ident.name (.declared kind true)
      let loop := StmtFrame.forLoop kind ident block env items (next + 1)
      let use := Use.loopVariable ident.name block inner
      .goOn ⟨store, events⟩ ⟨.value v [] use, loop :: body, callers⟩
  | .handler _ _ _ :: body => .goOn world ⟨.next, body, callers⟩

def enter (world : World) (body : List StmtFrame) (callers : List Caller) (function : Function)
    (args : List Value) : ThreadMove :=
  match function with
  | .closure code env =>
    let ⟨store, events⟩ := world
    let (inner, store) := store.addRecord .function (some env)
    match store.hoist inner (parameters code.params args ++ code.body.flatMap Stmt.hoisted) with
    | (store, none) => .goOn ⟨store, events⟩ ⟨.next, .sequence code.body inner :: body, callers⟩
    | (store, some ident) =>
      raise ⟨store, events⟩ body callers (some (.ident ident)) (.duplicateName ident.name)
  | .builtin builtin =>
    match builtin.apply world.store args with
    | .ok (v, none) => .goOn world ⟨.done v, body, callers⟩
    | .ok (v, some (ref, items)) =>
      let ⟨store, events⟩ := world
      .goOn ⟨store.extend ref items, events⟩ ⟨.done v, body, callers⟩
    | .error failure =>
      stop world body callers (callers.head?.map fun caller ↦ .expr caller.node) failure

/-- Ends an activation: its value goes to the caller, or the thread is finished. -/
def complete (world : World) (v : Value) : List Caller → ThreadMove
  | [] => .finish world
  | caller :: outer => .goOn world ⟨.value v caller.frames caller.use, caller.body, outer⟩

def move (thread : Thread) (world : World) : ThreadMove :=
  let ⟨focus, body, callers⟩ := thread
  match focus with
  | .enter function args => enter world body callers function args
  | .eval e env frames use => eval world body callers e env frames use
  | .value v [] use => apply world body callers v use
  | .value v (frame :: frames) use => resume world body callers v frame frames use
  | .exec s env => exec world body callers s env
  | .next => advance world callers body
  | .done v => complete world v callers

end Thread

end LateConst
