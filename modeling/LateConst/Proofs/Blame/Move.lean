import LateConst.Proofs.Scoping.Move
import LateConst.Proofs.Unwinding.Move

/-!
# What a thread blames

A thread keeps the nodes that are to blame if what it is about goes wrong. A move takes the node in
focus to those that are kept, and no others come in (`Move.Blames.tasks`). A fault that no handler
takes is blamed on one of these nodes, or on a declaration of the scope that is being entered; but a
built-in function that is spawned fails with nothing to blame (`Thread.Blames`).
-/

namespace LateConst

/-! ### Nodes that are kept -/

/-- The node that is to blame if the expression goes wrong. -/
def ExprFrame.kept : ExprFrame → List Site
  | .unary node _ | .binaryLeft node _ _ _ | .binaryRight node _ _ | .callee node _ _
  | .argument node _ _ _ _ | .base node _ _ | .index node _ => [.expr node]
  | .typeOf | .shortcut _ _ _ | .element _ _ _ => []

/-- The statement that is to blame if it cannot use the value. -/
def Use.kept : Use → List Site
  | .declare stmt _ _ _ | .destructure stmt _ _ | .assign stmt _ _ | .spawn stmt | .throw stmt
  | .iterate stmt _ _ _ _ => [.stmt stmt]
  | .discard | .print | .ret | .branch _ _ _ | .repeatWhile _ _ _ | .loopVariable _ _ _ => []

def Focus.here : Focus → List Site
  | .eval e _ _ _ => [.expr e]
  | .exec s _ => [.stmt s]
  | _ => []

def Focus.kept : Focus → List Site
  | .eval _ _ frames use | .value _ frames use => frames.flatMap ExprFrame.kept ++ use.kept
  | _ => []

def Caller.kept (caller : Caller) : List Site :=
  .expr caller.node :: (caller.frames.flatMap ExprFrame.kept ++ caller.use.kept)

namespace Thread

/-- All nodes that are to blame if what a thread is about goes wrong. -/
def kept (thread : Thread) : List Site :=
  thread.focus.kept ++ thread.callers.flatMap Caller.kept

/-- What can be blamed at the next move of a thread. -/
def reach (thread : Thread) : List Site := thread.focus.here ++ thread.kept

/-- A fault is blamed on a node that the thread keeps, on a name declared again in the scope that it
enters, or on nothing, if a built-in function fails that was not called. -/
inductive Blames (thread : Thread) (store : Store) : Fault → Option Site → Prop
  | node {fault : Fault} {site : Site} (h : site ∈ thread.reach) :
      Blames thread store fault (some site)
  | declaration {ident : Ident} (h : ident ∈ thread.focus.declared) :
      Blames thread store (.duplicateName ident.name) (some (.ident ident))
  | nothing {fault : Fault} {b : Builtin} {args : List Value}
      (hfocus : thread.focus = .enter (.builtin b) args) (hcallers : thread.callers = [])
      (hfails : b.apply store args = .error (.fault fault)) : Blames thread store fault none

/-- A thread keeps only these nodes, and if it is not inside of an activation, it is the call of a
function that has been spawned. -/
structure Keeps (sites : List Site) (thread : Thread) : Prop where
  kept : thread.kept ⊆ sites
  inside : thread.callers = [] → thread.focus.IsInside ∨ ∃ f, thread = ofFunction f

end Thread

/-- What comes of a move keeps the nodes that the thread has reached, and a fault that ends the run
blames one of them if anything. -/
structure Move.Blames (thread : Thread) (store : Store) (move : ThreadMove) : Prop where
  tasks : ∀ task ∈ move.tasks [], task.Keeps thread.reach
  fault : ∀ world fault site, move = .fail world (.uncaught fault site) →
    thread.Blames store fault site

/-- The name that is to blame if a scope cannot be entered is declared in it. -/
theorem Store.mem_of_hoist {store : Store} {id : RecordId} {items : List (Ident × Hoisted)}
    {ident : Ident} (h : (store.hoist id items).2 = some ident) : ident ∈ items.map Prod.fst := by
  induction items generalizing store with
  | nil => cases h
  | cons item more ih =>
    obtain ⟨first, what⟩ := item
    rw [hoist] at h
    split at h
    · cases h
      exact List.mem_cons_self
    · exact List.mem_cons_of_mem _ (ih h)

/-! ### Nodes that are kept and nodes to come back to -/

theorem ExprFrame.map_site_stations (calls statements : Nat) (frames : List ExprFrame) :
    (stations calls statements frames).map Station.site = frames.flatMap kept := by
  induction frames with
  | nil => rfl
  | cons frame more ih =>
    rw [stations, List.map_append, ih, List.flatMap_cons]
    cases frame <;> rfl

theorem Use.map_site_stationsAround (calls statements : Nat) (frames : List ExprFrame)
    (use : Use) : (use.stationsAround calls statements frames).map Station.site =
      frames.flatMap ExprFrame.kept ++ use.kept := by
  rw [stationsAround, List.map_append, ExprFrame.map_site_stations]
  cases use <;> rfl

theorem Caller.map_site_stations (callers : List Caller) :
    (stations callers).map Station.site = callers.flatMap kept := by
  induction callers with
  | nil => rfl
  | cons caller outer ih =>
    rw [stations, List.map_cons, List.map_append, ih, Use.map_site_stationsAround,
      List.flatMap_cons]
    rfl

namespace Thread

variable {thread left : Thread} {world world' : World} {body : List StmtFrame}
  {callers : List Caller} {site : Option Site} {fault : Fault}

theorem map_site_stations (thread : Thread) : thread.stations.map Station.site = thread.kept := by
  obtain ⟨focus, body, callers⟩ := thread
  rw [stations, List.map_append, Caller.map_site_stations, kept]
  cases focus with
  | eval e env frames use => exact congrArg (· ++ _) (Use.map_site_stationsAround _ _ frames use)
  | value v frames use => exact congrArg (· ++ _) (Use.map_site_stationsAround _ _ frames use)
  | _ => rfl

/-- What can be blamed are the nodes to which the thread has come or will come back. -/
theorem map_site_reach (thread : Thread) :
    (thread.begun ++ thread.stations).map Station.site = thread.reach := by
  rw [List.map_append, map_site_stations, reach]
  obtain ⟨focus, body, callers⟩ := thread
  cases focus <;> rfl

/-! ### Moves -/

theorem keeps_ofFunction (sites : List Site) (f : Function) : (ofFunction f).Keeps sites :=
  ⟨List.nil_subset _, fun _ ↦ .inr ⟨f, rfl⟩⟩

theorem Leads.keeps (h : thread.Leads left) : left.Keeps thread.reach where
  kept := by
    rw [← map_site_stations, ← map_site_reach]
    exact List.map_subset _ h.stations
  inside hcallers := .inl (h.inside.resolve_right fun hcalled ↦ hcalled.2 hcallers)

theorem RaisesAt.blames (h : thread.RaisesAt world world' body callers site fault) :
    thread.Blames world.store fault site := by
  have hnode {m : Station} (hstation : m ∈ thread.begun ++ thread.stations) :
      thread.Blames world.store fault (some m.site) :=
    .node (thread.map_site_reach ▸ List.mem_map_of_mem hstation)
  cases h with
  | node hstation => exact hnode hstation
  | thrown hfocus => exact hnode (List.mem_append_right _ (mem_stations_of_throw hfocus))
  | declaration hdeclared =>
    refine .declaration ?_
    rw [hdeclared]
    exact List.mem_append_right _ List.mem_cons_self
  | pause _ hcallers => exact hnode (List.mem_append_right _ (mem_stations_of_callers hcallers))
  | spawned hfocus hcallers happly => exact .nothing hfocus hcallers happly

/-- What a move leaves of a thread keeps no nodes but those that the thread has reached, and a fault
that no handler takes blames one of them if anything. -/
theorem blames_move (thread : Thread) (world : World) :
    Move.Blames thread world.store (thread.move world) where
  tasks task htask := by
    obtain hleft | hnew := Move.own?_or_new?_of_mem_tasks htask
    · exact (leads_of_own? hleft).keeps
    · obtain ⟨f, rfl⟩ := exists_ofFunction_of_new? hnew
      exact keeps_ofFunction _ f
  fault world' fault site hmove := by
    obtain ⟨body, callers, -, hraises, -⟩ := exists_raisesAt (exposed_move_of_fail hmove)
    exact hraises.blames

end Thread

end LateConst
