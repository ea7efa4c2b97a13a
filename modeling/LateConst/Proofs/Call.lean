import LateConst.Proofs.Call.Within
import LateConst.Proofs.RoundRobin
import LateConst.Run

/-!
# Calls and tasks

A function does the same whether it is called by an expression or is the work of a task, for as long
as the first turn of that task would last. What ends the turn shows itself in the expression: it has
the value, or the fault is raised in it. A `pause` is a fault as well. Then the activation is given
up as it stands, and none of its handlers takes over (`call_agrees_with_first_turn`).
-/

namespace LateConst

namespace Progress

variable {σ τ ε : Type}

/-- The turn that some task has does not end within some steps. -/
def InTurn (workload : Workload σ τ ε) (progress : Progress σ τ ε) (k : Nat) : Prop :=
  ∀ m ≤ k, (progress.after workload m).present?.isSome

instance (workload : Workload σ τ ε) (progress : Progress σ τ ε) (k : Nat) :
    Decidable (progress.InTurn workload k) :=
  inferInstanceAs (Decidable (∀ m ≤ k, (progress.after workload m).present?.isSome))

theorem InTurn.mono {workload : Workload σ τ ε} {progress : Progress σ τ ε} {j k : Nat}
    (h : progress.InTurn workload k) (hle : j ≤ k) : progress.InTurn workload j :=
  fun m hm ↦ h m (Nat.le_trans hm hle)

end Progress

/-! ### Faults in a caller -/

/-- The world with a record for what a handler has caught. -/
def World.catching (world : World) (landing : Landing) (fault : Fault) : World where
  store := (world.store.fresh.2.addRecord .handler (some landing.env)).2.addName
    (world.store.fresh.2.addRecord .handler (some landing.env)).1 landing.ident.name
    (.mutable (fault.caught world.store.fresh.1) true)
  events := world.events

def Landing.thread (landing : Landing) (world : World) : Thread :=
  ⟨.exec (.block landing.handler) (world.store.fresh.2.addRecord .handler (some landing.env)).1,
    landing.body, landing.callers⟩

theorem Thread.raise_of_find {world : World} {body : List StmtFrame} {callers : List Caller}
    {landing : Landing} (h : Landing.find body callers = some landing) (site : Option Site)
    (fault : Fault) :
    raise world body callers site fault =
      .goOn (world.catching landing fault) (landing.thread world) := by
  rw [raise, h]
  rfl

theorem Thread.raise_of_find_eq_none {world : World} {body : List StmtFrame}
    {callers : List Caller} (h : Landing.find body callers = none) (site : Option Site)
    (fault : Fault) : raise world body callers site fault = .fail world (.uncaught fault site) := by
  rw [raise, h]

/-- A fault has been raised in the expression that has made a call, in this world: the innermost
handler around the call takes over, or else the run has ended. Nothing is left of the call. -/
structure RaisedIn (caller : Caller) (outer : List Caller) (label : String) (world : World)
    (queue : TurnQueue Thread) (site : Option Site) (fault : Fault) (progress : RunProgress) :
    Prop where
  landed : ∀ landing, Landing.find caller.body outer = some landing →
    progress = .going ⟨world.catching landing fault, queue, some ⟨label, landing.thread world⟩⟩
  /-- A `try` of the caller gets the fault before those further out. -/
  own : ∀ ident handler env, .handler ident handler env ∈ caller.body →
    ∃ landing, Landing.find caller.body outer = some landing ∧ landing.callers = outer ∧
      .handler landing.ident landing.handler landing.env :: landing.body <:+ caller.body
  ended : Landing.find caller.body outer = none →
    progress = .ended world queue.abandon (some (.uncaught fault site))

theorem raisedIn_next {caller : Caller} {outer : List Caller} {label : String} {verbose : Bool}
    {before world : World} {queue : TurnQueue Thread} {site : Option Site} {fault : Fault}
    {thread : Thread}
    (h : thread.move before = Thread.raise world caller.body outer site fault) :
    RaisedIn caller outer label world queue site fault
      (Progress.next (workload verbose) (.going ⟨before, queue, some ⟨label, thread⟩⟩)) := by
  refine ⟨fun landing hlanding ↦ ?_, fun ident handler env hmem ↦ ?_, fun hnone ↦ ?_⟩
  · exact Progress.next_of_goOn (h.trans (Thread.raise_of_find hlanding site fault))
  · obtain ⟨found, hfound⟩ := StmtFrame.exists_innermostHandler_of_mem hmem
    exact ⟨_, Landing.find_of_innermostHandler hfound outer, rfl,
      StmtFrame.suffix_of_innermostHandler hfound⟩
  · exact Progress.next_of_fail (h.trans (Thread.raise_of_find_eq_none hnone site fault))

/-! ### The first turn -/

/-- A job is about to enter a function. If callers wait it has been called; otherwise it is the work
of a task. -/
def entering (label : String) (world : World) (queue : TurnQueue Thread) (f : Function)
    (args : List Value) (callers : List Caller) : RunProgress :=
  .going ⟨world, queue, some ⟨label, ⟨.enter f args, [], callers⟩⟩⟩

/-- The first turn of a task has ended by one more move, and a call of the same function has made
one more move as well. Before that `thread` was the task, in this world and with this queue. -/
inductive EndsAlike (caller : Caller) (outer : List Caller) (label label' : String) (verbose : Bool)
    (world : World) (queue : TurnQueue Thread) (thread : Thread) :
    RunProgress → RunProgress → Prop
  | value {v : Value} (hfocus : thread.focus = .done v) :
      EndsAlike caller outer label label' verbose world queue thread
        (.going ⟨(workload verbose).announce (.finished label) world, queue, none⟩)
        (.going ⟨world, queue,
          some ⟨label', ⟨.value v caller.frames caller.use, caller.body, outer⟩⟩⟩)
  | fault {world' : World} {fault : Fault} {site : Option Site} {call : RunProgress}
      (hraised : RaisedIn caller outer label' world' queue site fault call) :
      EndsAlike caller outer label label' verbose world queue thread
        (.ended world' queue.abandon (some (.uncaught fault site))) call
  | crash {world' : World} {crash : Crash} :
      EndsAlike caller outer label label' verbose world queue thread
        (.ended world' queue.abandon (some (.crash crash)))
        (.ended world' queue.abandon (some (.crash crash)))
  | pause {thread' : Thread} {call : RunProgress}
      (hraised : RaisedIn caller outer label' world queue (some (.expr caller.node))
        .cannotSuspend call) :
      EndsAlike caller outer label label' verbose world queue thread
        (.going ⟨(workload verbose).announce (.paused label) world, queue.add ⟨label, thread'⟩,
          none⟩) call

namespace EndsAlike

variable {caller : Caller} {outer : List Caller} {label label' : String} {verbose : Bool}
  {world : World} {queue : TurnQueue Thread} {thread : Thread} {task call : RunProgress}

theorem present?_eq_none
    (h : EndsAlike caller outer label label' verbose world queue thread task call) :
    task.present? = none := by
  cases h <;> rfl

end EndsAlike

section FirstTurn

variable (caller : Caller) (outer : List Caller) (label label' : String) (verbose : Bool)
  (world : World) (queue : TurnQueue Thread)

/-- A task and a call of the same function go on alike by one move, or that move ends the turn of
the task. -/
theorem goes_on_or_endsAlike {thread : Thread} (hcalls : thread.Calls) :
    (∃ world' queue' thread', thread'.Calls ∧
      Progress.next (workload verbose) (.going ⟨world, queue, some ⟨label, thread⟩⟩) =
        .going ⟨world', queue', some ⟨label, thread'⟩⟩ ∧
      Progress.next (workload verbose)
          (.going ⟨world, queue, some ⟨label', thread.within (caller :: outer)⟩⟩) =
        .going ⟨world', queue', some ⟨label', thread'.within (caller :: outer)⟩⟩) ∨
    EndsAlike caller outer label label' verbose world queue thread
      (Progress.next (workload verbose) (.going ⟨world, queue, some ⟨label, thread⟩⟩))
      (Progress.next (workload verbose)
        (.going ⟨world, queue, some ⟨label', thread.within (caller :: outer)⟩⟩)) := by
  have hwithin := Thread.within_move caller outer world hcalls
  generalize htask : thread.move world = move at hwithin
  generalize hcall : (thread.within (caller :: outer)).move world = move' at hwithin
  cases hwithin with
  | goOn hinside =>
    rw [Progress.next_of_goOn htask, Progress.next_of_goOn hcall]
    exact .inl ⟨_, _, _, Thread.calls_of_isInside hinside, rfl, rfl⟩
  | spawn hinside =>
    rw [Progress.next_of_spawn htask, Progress.next_of_spawn hcall]
    exact .inl ⟨_, _, _, Thread.calls_of_isInside hinside, rfl, rfl⟩
  | finish hfocus =>
    rw [Progress.next_of_finish htask, Progress.next_of_goOn hcall]
    exact .inr (.value hfocus)
  | pause =>
    rw [Progress.next_of_pause htask]
    exact .inr (.pause (raisedIn_next hcall))
  | uncaught =>
    rw [Progress.next_of_fail htask]
    exact .inr (.fault (raisedIn_next hcall))
  | crash =>
    rw [Progress.next_of_fail htask, Progress.next_of_fail hcall]
    exact .inr .crash

/-- A call does all that a task does in its first turn. -/
theorem exists_within_of_inTurn {code : Subroutine} {env : RecordId} {args : List Value} {k : Nat}
    (hturn : (entering label world queue (.closure code env) args []).InTurn (workload verbose)
      k) :
    ∃ world' queue' thread, thread.Calls ∧
      (entering label world queue (.closure code env) args []).after (workload verbose) k =
        .going ⟨world', queue', some ⟨label, thread⟩⟩ ∧
      (entering label' world queue (.closure code env) args (caller :: outer)).after
          (workload verbose) k =
        .going ⟨world', queue', some ⟨label', thread.within (caller :: outer)⟩⟩ := by
  induction k with
  | zero =>
    refine ⟨world, queue, ⟨.enter (.closure code env) args, [], []⟩, fun _ f args' hfocus ↦ ?_,
      rfl, rfl⟩
    cases hfocus
    exact ⟨code, env, rfl⟩
  | succ k ih =>
    obtain ⟨world', queue', thread, hcalls, htask, hcall⟩ := ih (hturn.mono (Nat.le_succ k))
    have hpresent := hturn (k + 1) (Nat.le_refl _)
    rw [Progress.after, htask] at hpresent ⊢
    rw [Progress.after, hcall]
    obtain halike | hends :=
      goes_on_or_endsAlike caller outer label label' verbose world' queue' hcalls
    · exact halike
    · rw [hends.present?_eq_none] at hpresent
      cases hpresent

end FirstTurn

/-- A function that an expression calls does, step by step, what it would do as a task in its first
turn: it leaves the same world and spawns the same tasks, and no other task has a turn. If the turn
ends with a value, the call has that value; if it ends by a fault, the fault is raised in the
expression. If it ends by a `pause`, the call is given up where it stands, and the fault that this
is has its handler among the callers. -/
theorem call_agrees_with_first_turn (code : Subroutine) (env : RecordId) (args : List Value)
    (caller : Caller) (outer : List Caller) (label label' : String) (verbose : Bool)
    (world : World) (queue : TurnQueue Thread) {k : Nat}
    (hturn : (entering label world queue (.closure code env) args []).InTurn (workload verbose)
      k) :
    (∀ ref, Thread.call world caller.body outer caller.node (.function ref (.closure code env)) args
        caller.frames caller.use =
      .goOn world ⟨.enter (.closure code env) args, [], caller :: outer⟩) ∧
    (entering label' world queue (.closure code env) args (caller :: outer)).InTurn
      (workload verbose) k ∧
    ∃ world' queue' thread,
      (entering label world queue (.closure code env) args []).after (workload verbose) k =
        .going ⟨world', queue', some ⟨label, thread⟩⟩ ∧
      (entering label' world queue (.closure code env) args (caller :: outer)).after
          (workload verbose) k =
        .going ⟨world', queue', some ⟨label', thread.within (caller :: outer)⟩⟩ ∧
      (((entering label world queue (.closure code env) args []).after (workload verbose)
          (k + 1)).present? = none →
        EndsAlike caller outer label label' verbose world' queue' thread
          ((entering label world queue (.closure code env) args []).after (workload verbose)
            (k + 1))
          ((entering label' world queue (.closure code env) args (caller :: outer)).after
            (workload verbose) (k + 1))) := by
  refine ⟨fun ref ↦ rfl, fun m hm ↦ ?_, ?_⟩
  · obtain ⟨_, _, _, -, -, hm'⟩ := exists_within_of_inTurn caller outer label label' verbose world
      queue (hturn.mono hm)
    rw [hm']
    rfl
  · obtain ⟨world', queue', thread, hcalls, htask, hcall⟩ :=
      exists_within_of_inTurn caller outer label label' verbose world queue hturn
    refine ⟨world', queue', thread, htask, hcall, fun hnone ↦ ?_⟩
    rw [Progress.after, htask] at hnone ⊢
    rw [Progress.after, hcall]
    obtain ⟨_, _, _, -, hgoes, -⟩ | hends :=
      goes_on_or_endsAlike caller outer label label' verbose world' queue' hcalls
    · rw [hgoes] at hnone
      cases hnone
    · exact hends

def pauseInTry : Subroutine where
  ident := none
  params := []
  body := [.tryCatch (.mk [.print (.literal (.text "before") ⟨0, 0⟩) ⟨0, 0⟩, .pause ⟨0, 0⟩] ⟨0, 0⟩)
      ⟨"e", ⟨0, 0⟩⟩ (.mk [.print (.literal (.text "caught") ⟨0, 0⟩) ⟨0, 0⟩] ⟨0, 0⟩) ⟨0, 0⟩,
    .print (.literal (.text "after") ⟨0, 0⟩) ⟨0, 0⟩]
  span := ⟨0, 0⟩

def callInTry : Caller where
  node := .call (.lookup ⟨"f", ⟨0, 0⟩⟩) [] ⟨0, 0⟩
  frames := []
  use := .discard
  body := [.handler ⟨"e", ⟨0, 0⟩⟩ (.mk [] ⟨0, 0⟩) 0]

def emptyProgramWorld : World := ⟨(Store.empty.addRecord .program none).2, #[]⟩

/-- The `try` around a call takes the fault that a `pause` is, and the one around the `pause` does
not. -/
theorem call_agrees_with_first_turn_of_pause :
    (entering "f#2" emptyProgramWorld .empty (.closure pauseInTry 0) [] []).InTurn (workload false)
        9 ∧
      ∃ store env, (entering "main#1" emptyProgramWorld .empty (.closure pauseInTry 0) []
          [callInTry]).after (workload false) 10 =
        .going ⟨⟨store, #[.printed "before"]⟩, .empty,
          some ⟨"main#1", ⟨.exec (.block (.mk [] ⟨0, 0⟩)) env, [], []⟩⟩⟩ := by
  have hturn : (entering "f#2" emptyProgramWorld .empty (.closure pauseInTry 0) [] []).InTurn
      (workload false) 9 := by decide +kernel
  refine ⟨hturn, ?_⟩
  obtain ⟨-, -, world, queue, thread, htask, -, hends⟩ := call_agrees_with_first_turn pauseInTry 0
    [] callInTry [] "f#2" "main#1" false emptyProgramWorld .empty hturn
  cases htask
  cases hends rfl with
  | pause hraised => exact ⟨_, _, hraised.landed _ rfl⟩

end LateConst
