import LateConst.Proofs.Scoping.Run

/-!
# Arrays only grow

A literal makes a new array, `push` adds elements at the end of one, and everything else leaves all
arrays alone. So what an array holds at one moment of a run, it holds at the beginning of its
elements ever after (`Program.grows`).
-/

namespace LateConst

namespace Store

variable {store store' store'' : Store}

/-! ### Stores -/

/-- Every array begins with the elements that it had in the first store. -/
def Grows (store store' : Store) : Prop :=
  ∀ ref, (store.elements ref).toList <+: (store'.elements ref).toList

theorem grows_of_arrays_eq (h : store'.arrays = store.arrays) : store.Grows store' := by
  intro ref
  have hsame : store'.elements ref = store.elements ref := by rw [elements, elements, h]
  exact hsame ▸ List.prefix_rfl

theorem Grows.refl (store : Store) : store.Grows store := grows_of_arrays_eq rfl

theorem Grows.trans (h : store.Grows store') (h' : store'.Grows store'') : store.Grows store'' :=
  fun ref ↦ (h ref).trans (h' ref)

theorem elements_addArray (elements : List Value) (ref : Ref) :
    (store.addArray elements).2.elements ref =
      if ref = store.arrays.size then elements.toArray else store.elements ref := by
  rw [Store.elements, addArray, Array.getD_eq_getD_getElem?, Array.getElem?_push]
  split
  · rfl
  · rw [Store.elements, Array.getD_eq_getD_getElem?]

theorem grows_addArray (elements : List Value) : store.Grows (store.addArray elements).2 := by
  intro ref
  rw [elements_addArray]
  split
  next heq =>
    have hnew : store.elements ref = #[] := by
      rw [Store.elements, Array.getD_eq_getD_getElem?, heq, Array.getElem?_eq_none (Nat.le_refl _)]
      rfl
    rw [hnew]
    exact List.nil_prefix
  next => exact List.prefix_rfl

theorem elements_extend (ref other : Ref) (more : List Value) :
    (store.extend other more).elements ref =
      if other = ref ∧ ref < store.arrays.size then store.elements ref ++ more
      else store.elements ref := by
  rw [Store.elements, extend, Array.getD_eq_getD_getElem?, Array.getElem?_modify, Store.elements,
    Array.getD_eq_getD_getElem?]
  by_cases hother : other = ref
  · by_cases hlt : ref < store.arrays.size
    · simp [hother, hlt]
    · simp [hother, hlt]
  · simp [hother]

theorem grows_extend (ref : Ref) (more : List Value) : store.Grows (store.extend ref more) := by
  intro other
  rw [elements_extend]
  split
  · exact ⟨more, Array.toList_appendList.symm⟩
  · exact List.prefix_rfl

theorem arrays_hoist (store : Store) (id : RecordId) (items : List (Ident × Hoisted)) :
    (store.hoist id items).1.arrays = store.arrays := by
  induction items generalizing store with
  | nil => rfl
  | cons item more ih =>
    obtain ⟨ident, what⟩ := item
    rw [hoist]
    split
    · rfl
    · refine (ih _).trans ?_
      cases what <;> rfl

end Store

/-! ### Moves -/

namespace Thread

variable {world : World} {body : List StmtFrame} {callers : List Caller} {site : Option Site}
  {frames : List ExprFrame} {use : Use}

theorem arrays_raise (fault : Fault) :
    (raise world body callers site fault).world.store.arrays = world.store.arrays := by
  unfold raise
  split <;> rfl

theorem arrays_stop (failure : Failure) :
    (stop world body callers site failure).world.store.arrays = world.store.arrays := by
  cases failure with
  | fault fault => exact arrays_raise fault
  | crash crash => rfl

theorem arrays_call (node : Expr) (callee : Value) (args : List Value) :
    (call world body callers node callee args frames use).world.store.arrays =
      world.store.arrays := by
  unfold call
  split
  · rfl
  · exact arrays_stop _

theorem arrays_defineAll (store : Store) (env : RecordId) (idents : List Ident)
    (values : List Value) : (defineAll store env idents values).1.arrays = store.arrays := by
  induction idents generalizing store values with
  | nil => rfl
  | cons ident more ih =>
    rw [defineAll]
    split
    · rfl
    · exact ih _ _

theorem arrays_apply (v : Value) :
    (apply world body callers v use).world.store.arrays = world.store.arrays := by
  unfold apply
  split <;> try rfl
  · split
    · exact arrays_stop _
    · rfl
  next stmt idents env =>
    split
    next ref =>
      have hdefined := arrays_defineAll world.store env idents (world.store.elements ref).toList
      dsimp only
      split
      next store' hall =>
        rw [hall] at hdefined
        exact hdefined
      next store' failure hall =>
        rw [hall] at hdefined
        calc
          _ = store'.arrays := arrays_stop failure
          _ = world.store.arrays := hdefined
    · exact arrays_raise _
  · split
    · exact arrays_raise _
    · split
      · exact arrays_stop _
      · rfl
  · split <;> rfl
  · split
    · rfl
    · exact arrays_stop _
  · split
    · rfl
    · exact arrays_raise _
  · split <;> rfl
  · split
    · rfl
    · exact arrays_raise _
  · split
    · exact arrays_stop _
    · rfl

/-- A scope is entered by means of its record. -/
theorem arrays_enterScope (kind : ScopeKind) (env : RecordId) (items : List (Ident × Hoisted))
    (entered : Thread) :
    Store.arrays (Move.world
      (match (world.store.addRecord kind (some env)).2.hoist world.store.records.size items with
      | (store, none) => .goOn ⟨store, world.events⟩ entered
      | (store, some ident) => raise ⟨store, world.events⟩ body callers (some (.ident ident))
          (.duplicateName ident.name))).store = world.store.arrays := by
  have hhoist := Store.arrays_hoist (world.store.addRecord kind (some env)).2
    world.store.records.size items
  generalize (world.store.addRecord kind (some env)).2.hoist world.store.records.size items = out
    at hhoist ⊢
  obtain ⟨store, twice⟩ := out
  cases twice with
  | none => exact hhoist
  | some ident =>
    calc
      _ = store.arrays := arrays_raise _
      _ = world.store.arrays := hhoist

theorem arrays_exec (s : Stmt) (env : RecordId) :
    (exec world body callers s env).world.store.arrays = world.store.arrays := by
  unfold exec
  split <;> try rfl
  · split
    · rfl
    · exact arrays_raise _
  next stmts span => exact arrays_enterScope .block env _ _

theorem arrays_advance :
    (advance world callers body).world.store.arrays = world.store.arrays := by
  unfold advance
  split <;> try rfl
  split <;> rfl

theorem arrays_complete (v : Value) :
    (complete world v callers).world.store.arrays = world.store.arrays := by
  unfold complete
  split <;> rfl

/-- The value of an expression may be a new array. -/
theorem grows_of_computes {store : Store} {events : Array Event}
    {act : Array Event → List StmtFrame → List Caller → Use → ThreadMove}
    (h : Computes store frames act) :
    store.Grows (act events body callers use).world.store := by
  cases h with
  | evaluates e env frames' => exact .refl _
  | gives hstore v =>
    cases hstore with
    | array items => exact Store.grows_addArray items
    | _ => exact .refl _
  | stops node failure => exact Store.grows_of_arrays_eq (arrays_stop failure)
  | calls node callee args => exact Store.grows_of_arrays_eq (arrays_call node callee args)

/-- A built-in function may add elements at the end of an array. -/
theorem grows_enter (f : Function) (args : List Value) :
    world.store.Grows (enter world body callers f args).world.store := by
  unfold enter
  split
  next code env => exact Store.grows_of_arrays_eq (arrays_enterScope .function env _ _)
  next b =>
    split
    · exact .refl _
    next ref items _ => exact Store.grows_extend ref items
    · exact Store.grows_of_arrays_eq (arrays_stop _)

theorem grows_move (thread : Thread) (world : World) :
    world.store.Grows (thread.move world).world.store := by
  obtain ⟨focus, body, callers⟩ := thread
  unfold move
  cases focus with
  | enter f args => exact grows_enter f args
  | eval e env frames use => exact grows_of_computes (computes_eval world.store frames e env)
  | value v frames use =>
    cases frames with
    | nil => exact Store.grows_of_arrays_eq (arrays_apply v)
    | cons frame frames => exact grows_of_computes (computes_resume world.store frames v frame)
  | exec s env => exact Store.grows_of_arrays_eq (arrays_exec s env)
  | next => exact Store.grows_of_arrays_eq arrays_advance
  | done v => exact Store.grows_of_arrays_eq (arrays_complete v)

end Thread

/-! ### Runs -/

theorem Progress.grows_next (progress : RunProgress) (verbose : Bool) :
    progress.world.store.Grows (progress.next (workload verbose)).world.store := by
  cases hpresent : progress.present? with
  | none =>
    obtain ⟨hworld, -, -⟩ := next_of_present?_eq_none (workload verbose) hpresent
    exact Store.grows_of_arrays_eq (congrArg (·.store.arrays) hworld)
  | some thread =>
    obtain ⟨waiting, others, -, hmakes⟩ := makes_of_present? (workload verbose) hpresent
    have hgrows := thread.grows_move progress.world
    obtain hworld | ⟨note, hworld⟩ := hmakes.world
    · rw [hworld]
      exact hgrows
    · rw [hworld, store_announce]
      exact hgrows

/-- What an array holds at some moment stands at the beginning of what it holds later. -/
theorem Program.grows (program : Program) (verbose : Bool) (queue : TurnQueue Thread) {i j : Nat}
    (h : i ≤ j) : (program.moment verbose queue i).world.store.Grows
      (program.moment verbose queue j).world.store := by
  induction h with
  | refl => exact .refl _
  | step h ih => exact ih.trans (Progress.grows_next _ verbose)

end LateConst
