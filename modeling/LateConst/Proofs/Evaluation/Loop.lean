import LateConst.Proofs.RoundRobin.Job
import LateConst.Proofs.Thread

/-!
# Loops over the elements of a value

A thread is inside of such a loop if what is left of the loop stands among the statements of the
present activation or of a caller (`Loop.Surrounds`). Then it also tells how many trips have been
made. No move makes up a loop or a trip: the thread comes to the value that the loop goes over, and
then to the head of the loop once for every trip (`Thread.keepsLoops_move`).
-/

namespace LateConst

/-- A loop over the elements of a value, in the record around it. -/
structure Iteration where
  kind : Kind
  ident : Ident
  block : Block
  env : RecordId
  items : Value

def Iteration.use (iteration : Iteration) (stmt : Stmt) : Use :=
  .iterate stmt iteration.kind iteration.ident iteration.block iteration.env

/-- A loop at its place in a thread: what is left to do after it, and the calls around it. -/
structure Loop extends Iteration where
  body : List StmtFrame
  callers : List Caller

namespace Loop

def frame (loop : Loop) (n : Nat) : StmtFrame :=
  .forLoop loop.kind loop.ident loop.block loop.env loop.items n

/-- The thread that has come to the value that the loop of this statement goes over. -/
def entry (loop : Loop) (stmt : Stmt) : Thread :=
  ⟨.value loop.items [] (loop.use stmt), loop.body, loop.callers⟩

/-- The thread that is about to make one more trip, or to leave the loop if there are no more
elements. -/
def head (loop : Loop) (n : Nat) : Thread := ⟨.next, loop.frame n :: loop.body, loop.callers⟩

def exit (loop : Loop) : Thread := ⟨.next, loop.body, loop.callers⟩

/-- The loop stands among the statements of an activation or of its callers, and so many trips have
been made. -/
def Surrounds (loop : Loop) (n : Nat) (body : List StmtFrame) (callers : List Caller) : Prop :=
  (loop.frame n :: loop.body <:+ body ∧ loop.callers = callers) ∨
    ∃ caller, caller :: loop.callers <:+ callers ∧ loop.frame n :: loop.body <:+ caller.body

variable {loop : Loop} {n m : Nat} {body body' : List StmtFrame} {callers : List Caller}

/-! ### Places of loops -/

theorem frame_inj : loop.frame n = loop.frame m ↔ n = m := by simp [frame]

theorem surrounds_head (loop : Loop) (n : Nat) :
    loop.Surrounds n (loop.frame n :: loop.body) loop.callers := .inl ⟨List.suffix_rfl, rfl⟩

namespace Surrounds

theorem suffix (h : loop.Surrounds n body' callers) (hsuffix : body' <:+ body) :
    loop.Surrounds n body callers :=
  h.imp_left fun ⟨hbody, hcallers⟩ ↦ ⟨hbody.trans hsuffix, hcallers⟩

/-- Of the statements around a thread the innermost one is the loop, or the loop is around the
others. -/
theorem of_cons {frame : StmtFrame} (h : loop.Surrounds n (frame :: body) callers) :
    loop.Surrounds n body callers ∨
      (frame = loop.frame n ∧ body = loop.body ∧ callers = loop.callers) := by
  obtain ⟨hbody, rfl⟩ | hcaller := h
  · obtain heq | hbody := List.suffix_cons_iff.1 hbody
    · cases heq
      exact .inr ⟨rfl, rfl, rfl⟩
    · exact .inl (.inl ⟨hbody, rfl⟩)
  · exact .inl (.inr hcaller)

/-- A statement of another kind around a thread makes no difference. -/
theorem of_cons_of_ne {frame : StmtFrame} (h : loop.Surrounds n (frame :: body) callers)
    (hne : frame ≠ loop.frame n) : loop.Surrounds n body callers :=
  h.of_cons.resolve_right fun hloop ↦ hne hloop.1

theorem of_suffix {caller : Caller} {outer : List Caller}
    (h : loop.Surrounds n caller.body outer) (hcallers : caller :: outer <:+ callers)
    (body : List StmtFrame) : loop.Surrounds n body callers := by
  obtain ⟨hbody, rfl⟩ | ⟨caller', hcallers', hbody⟩ := h
  · exact .inr ⟨caller, hcallers, hbody⟩
  · exact .inr ⟨caller', hcallers'.trans ((List.suffix_cons _ _).trans hcallers), hbody⟩

/-- The loops around the entry of a function are those around its call. -/
theorem of_call {caller : Caller} {outer : List Caller}
    (h : loop.Surrounds n [] (caller :: outer)) : loop.Surrounds n caller.body outer := by
  obtain ⟨hbody, -⟩ | ⟨caller', hcallers, hbody⟩ := h
  · cases List.suffix_nil.1 hbody
  · obtain heq | hcallers := List.suffix_cons_iff.1 hcallers
    · cases heq
      exact .inl ⟨hbody, rfl⟩
    · exact .inr ⟨caller', hcallers, hbody⟩

theorem not_nil (h : loop.Surrounds n [] []) : False := by
  obtain ⟨hbody, -⟩ | ⟨caller, hcallers, -⟩ := h
  · cases List.suffix_nil.1 hbody
  · cases List.suffix_nil.1 hcallers

/-- A handler stands in no loops but those of the thread that has come to it. -/
theorem of_find {landing : Landing} (hlanding : Landing.find body callers = some landing)
    (h : loop.Surrounds n landing.body landing.callers) : loop.Surrounds n body callers := by
  obtain ⟨hbody, hcallers⟩ | ⟨caller, hcallers, hbody⟩ := Landing.suffix_of_find hlanding
  · rw [hcallers] at h
    exact h.suffix ((List.suffix_cons _ _).trans hbody)
  · exact (h.suffix ((List.suffix_cons _ _).trans hbody)).of_suffix hcallers body

/-- A thread has made one number of trips of a loop. -/
theorem unique (h : loop.Surrounds n body callers) (h' : loop.Surrounds m body callers) :
    n = m := by
  have heq_of_suffix {α : Type} {a b : α} {inner l : List α} (ha : a :: inner <:+ l)
      (hb : b :: inner <:+ l) : a = b := by
    have hsuffix := List.suffix_of_suffix_length_le ha hb (Nat.le_refl _)
    exact (List.cons.inj (hsuffix.eq_of_length rfl)).1
  have hlength {caller : Caller} : ¬ caller :: loop.callers <:+ loop.callers :=
    fun hsuffix ↦ Nat.not_succ_le_self _ hsuffix.length_le
  obtain ⟨hbody, hcallers⟩ | ⟨caller, hcallers, hbody⟩ := h
  · subst hcallers
    obtain ⟨hbody', -⟩ | ⟨caller', hcallers', -⟩ := h'
    · exact frame_inj.1 (heq_of_suffix hbody hbody')
    · exact (hlength hcallers').elim
  · obtain ⟨-, rfl⟩ | ⟨caller', hcallers', hbody'⟩ := h'
    · exact (hlength hcallers).elim
    · obtain rfl := heq_of_suffix hcallers hcallers'
      exact frame_inj.1 (heq_of_suffix hbody hbody')

/-- A thread that has left a loop is not inside of it. -/
theorem not_exit (h : loop.Surrounds n loop.body loop.callers) : False := by
  obtain ⟨hbody, -⟩ | ⟨caller, hcallers, -⟩ := h
  · exact Nat.not_succ_le_self _ hbody.length_le
  · exact Nat.not_succ_le_self _ hcallers.length_le

end Surrounds

end Loop

/-! ### Moves -/

/-- The loops that the second thread is inside of are loops of the first one, after as many trips,
or the first one has just come to the value that the loop goes over or to the head of the loop. -/
def Thread.KeepsLoops (thread thread' : Thread) : Prop :=
  ∀ (loop : Loop) (n : Nat), loop.Surrounds n thread'.body thread'.callers →
    loop.Surrounds n thread.body thread.callers ∨ (n = 0 ∧ ∃ stmt, thread = loop.entry stmt) ∨
      ∃ m, thread = loop.head m

/-- What a move leaves of the thread is inside of no new loops, and a new thread of none at all. -/
def Move.KeepsLoops (thread : Thread) : ThreadMove → Prop
  | .goOn _ work | .pause _ work | .abandonOthers _ work => thread.KeepsLoops work
  | .spawn _ _ new work => new.body = [] ∧ new.callers = [] ∧ thread.KeepsLoops work
  | .finish _ | .fail _ _ => True

namespace Thread

variable {world : World} {body : List StmtFrame} {callers : List Caller} {site : Option Site}
  {frames : List ExprFrame} {use : Use} {thread : Thread} {focus : Focus}

theorem keepsLoops_goOn {body' : List StmtFrame} {callers' : List Caller}
    (h : ∀ (loop : Loop) (n : Nat), loop.Surrounds n body' callers' →
      loop.Surrounds n thread.body thread.callers) :
    Move.KeepsLoops thread (.goOn world ⟨focus, body', callers'⟩) :=
  fun loop n hloop ↦ .inl (h loop n hloop)

/-- Nothing has changed but the focus. -/
theorem keepsLoops_focus {before : Focus} :
    Move.KeepsLoops ⟨before, body, callers⟩ (.goOn world ⟨focus, body, callers⟩) :=
  keepsLoops_goOn fun _ _ ↦ id

theorem keepsLoops_raise (h : ∀ (loop : Loop) (n : Nat), loop.Surrounds n body callers →
      loop.Surrounds n thread.body thread.callers) (fault : Fault) :
    (raise world body callers site fault).KeepsLoops thread := by
  unfold raise
  split
  · trivial
  next landing hlanding =>
    exact keepsLoops_goOn fun loop n hloop ↦ h loop n (hloop.of_find hlanding)

theorem keepsLoops_stop (failure : Failure) :
    (stop world body callers site failure).KeepsLoops ⟨focus, body, callers⟩ := by
  cases failure with
  | fault fault => exact keepsLoops_raise (fun _ _ ↦ id) fault
  | crash crash => trivial

theorem keepsLoops_call (node : Expr) (callee : Value) (args : List Value) :
    (call world body callers node callee args frames use).KeepsLoops
      ⟨focus, body, callers⟩ := by
  unfold call
  split
  · exact keepsLoops_goOn fun _ _ hloop ↦ hloop.of_call
  · exact keepsLoops_stop _

theorem keepsLoops_of_computes {store : Store} {events : Array Event}
    {act : Array Event → List StmtFrame → List Caller → Use → ThreadMove}
    (h : Computes store frames act) :
    (act events body callers use).KeepsLoops ⟨focus, body, callers⟩ := by
  cases h with
  | evaluates e env frames' => exact keepsLoops_focus
  | gives hstore v => exact keepsLoops_focus
  | stops node failure => exact keepsLoops_stop failure
  | calls node callee args => exact keepsLoops_call node callee args

theorem keepsLoops_apply (v : Value) :
    (apply world body callers v use).KeepsLoops ⟨.value v [] use, body, callers⟩ := by
  unfold apply
  split <;> try exact keepsLoops_focus
  · split
    · exact keepsLoops_stop _
    · exact keepsLoops_focus
  · split
    · dsimp only
      split
      · exact keepsLoops_focus
      · exact keepsLoops_stop _
    · exact keepsLoops_raise (fun _ _ ↦ id) _
  · split
    · exact keepsLoops_raise (fun _ _ ↦ id) _
    · split
      · exact keepsLoops_stop _
      · exact keepsLoops_focus
  · split
    · trivial
    · exact keepsLoops_focus
  · split
    · exact ⟨rfl, rfl, fun _ _ ↦ .inl⟩
    · exact keepsLoops_stop _
  · split
    · trivial
    · exact keepsLoops_raise (fun _ _ ↦ id) _
  next cond block env =>
    split
    · exact keepsLoops_goOn fun loop n hloop ↦ hloop.of_cons_of_ne nofun
    · exact keepsLoops_focus
  next stmt kind ident block env =>
    split
    · -- here the loop begins
      intro loop n hloop
      obtain hold | ⟨hframe, rfl, rfl⟩ := hloop.of_cons
      · exact .inl hold
      · cases hframe
        exact .inr (.inl ⟨rfl, stmt, rfl⟩)
    · exact keepsLoops_raise (fun _ _ ↦ id) _
  · split
    · exact keepsLoops_stop _
    · exact keepsLoops_focus

theorem keepsLoops_exec (s : Stmt) (env : RecordId) :
    (exec world body callers s env).KeepsLoops ⟨.exec s env, body, callers⟩ := by
  unfold exec
  split <;> try exact keepsLoops_focus
  · split
    · exact fun _ _ ↦ .inl
    next caller outer =>
      exact keepsLoops_raise (fun loop n hloop ↦ hloop.of_suffix List.suffix_rfl body) _
  · dsimp only
    split
    · exact keepsLoops_goOn fun loop n hloop ↦ hloop.of_cons_of_ne nofun
    · exact keepsLoops_raise (fun _ _ ↦ id) _
  · exact keepsLoops_goOn fun loop n hloop ↦ hloop.of_cons_of_ne nofun

theorem keepsLoops_advance :
    (advance world callers body).KeepsLoops ⟨.next, body, callers⟩ := by
  have hdrop (frame : StmtFrame) (body : List StmtFrame) : Move.KeepsLoops
      ⟨.next, frame :: body, callers⟩ (.goOn world ⟨.next, body, callers⟩) :=
    keepsLoops_goOn fun loop n hloop ↦ hloop.suffix (List.suffix_cons _ _)
  unfold advance
  split
  · exact keepsLoops_focus
  · exact hdrop _ _
  · exact keepsLoops_goOn fun loop n hloop ↦
      (hloop.of_cons_of_ne nofun).suffix (List.suffix_cons _ _)
  · exact keepsLoops_goOn fun loop n hloop ↦ hloop.suffix (List.suffix_cons _ _)
  next kind ident block env items m body =>
    split
    · exact hdrop _ _
    · -- here a trip begins
      intro loop n hloop
      obtain hold | ⟨hframe, rfl, rfl⟩ := hloop.of_cons
      · exact .inl (hold.suffix (List.suffix_cons _ _))
      · cases hframe
        exact .inr (.inr ⟨m, rfl⟩)
  · exact hdrop _ _

theorem keepsLoops_enter (f : Function) (args : List Value) :
    (enter world body callers f args).KeepsLoops ⟨.enter f args, body, callers⟩ := by
  unfold enter
  split
  · dsimp only
    split
    · exact keepsLoops_goOn fun loop n hloop ↦ hloop.of_cons_of_ne nofun
    · exact keepsLoops_raise (fun _ _ ↦ id) _
  · split
    · exact keepsLoops_focus
    · exact keepsLoops_focus
    · exact keepsLoops_stop _

theorem keepsLoops_complete (v : Value) :
    (complete world v callers).KeepsLoops ⟨.done v, body, callers⟩ := by
  unfold complete
  split
  · trivial
  next caller outer =>
    exact keepsLoops_goOn fun loop n hloop ↦ hloop.of_suffix List.suffix_rfl body

theorem keepsLoops_move (thread : Thread) (world : World) :
    (thread.move world).KeepsLoops thread := by
  obtain ⟨focus, body, callers⟩ := thread
  unfold move
  cases focus with
  | enter f args => exact keepsLoops_enter f args
  | eval e env frames use => exact keepsLoops_of_computes (computes_eval world.store frames e env)
  | value v frames use =>
    cases frames with
    | nil => exact keepsLoops_apply v
    | cons frame frames => exact keepsLoops_of_computes (computes_resume world.store frames v frame)
  | exec s env => exact keepsLoops_exec s env
  | next => exact keepsLoops_advance
  | done v => exact keepsLoops_complete v

theorem keepsLoops_of_own? {work : Thread} (h : (thread.move world).own? = some work) :
    thread.KeepsLoops work := by
  have hmove := thread.keepsLoops_move world
  cases hmoved : thread.move world with
  | goOn _ _ | pause _ _ | abandonOthers _ _ =>
    rw [hmoved] at hmove h
    cases h
    exact hmove
  | spawn _ _ _ _ =>
    rw [hmoved] at hmove h
    cases h
    exact hmove.2.2
  | finish _ | fail _ _ =>
    rw [hmoved] at h
    cases h

/-- A new thread is inside of no loop. -/
theorem not_surrounds_of_new? {new : Thread} (h : (thread.move world).new? = some new)
    {loop : Loop} {n : Nat} : ¬ loop.Surrounds n new.body new.callers := by
  have hmove := thread.keepsLoops_move world
  cases hmoved : thread.move world with
  | spawn _ _ _ _ =>
    rw [hmoved] at hmove h
    cases h
    rw [hmove.1, hmove.2.1]
    exact Loop.Surrounds.not_nil
  | _ =>
    rw [hmoved] at h
    cases h

end Thread

end LateConst
