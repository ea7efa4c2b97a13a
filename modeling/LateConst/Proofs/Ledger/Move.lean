import Mathlib.Data.List.Flatten
import LateConst.Proofs.Ledger.Entry

/-!
# What a move does to the ledger

One lemma for each kind of point that a thread can have reached: the move is a change of the store
and of what the thread owes, as `Change` lists them. A declaration that comes to a value finds its
name open, since the value is still owed, so it cannot fail. The lemmas are put together in
`Thread.does_move`.
-/

namespace LateConst

/-- No statement stands twice in a scope. -/
def Program.Distinct (program : Program) : Prop :=
  ∀ scope outer, program.Opens (scope :: outer) → scope.statements.Nodup

variable {program : Program} {layout : Layout} {store store' : Store} {events : Array Event}
  {dues dues' : List Due} {env : RecordId}

/-- A change before a move is a part of what the move does. -/
theorem Move.Does.after {act : Act} {move : ThreadMove}
    (h : move.Does program act store' dues')
    (hchange : Change program act store dues store' dues') : move.Does program act store dues := by
  cases move with
  | goOn world thread => exact hchange.trans h
  | spawn world name new thread => exact ⟨h.1, hchange.trans h.2⟩
  | pause world thread => exact hchange.trans h
  | finish world => exact hchange.trans h
  | abandonOthers world thread => exact h
  | fail world error => exact ⟨h.1, hchange.trans h.2⟩

theorem Stmt.dues_of_canBeElsePart {s : Stmt} (h : s.CanBeElsePart) : s.dues env = [] := by
  cases s with
  | declare kind items span => exact h.elim
  | destructure kind idents init span => exact h.elim
  | _ => rfl

namespace Thread

def Acts (store : Store) (thread : Thread) : Act → Prop
  | .enter => True
  | .define => True
  | .assign id name v => ∃ stmt env, thread.focus = .value v [] (.assign stmt name env) ∧
      store.resolve env name = .ok id

variable {body : List StmtFrame} {callers : List Caller} {others : List Thread}

theorem duesAround_sublist_of_find {landing : Landing}
    (h : Landing.find body callers = some landing) :
    (duesAround landing.body landing.callers).Sublist (duesAround body callers) := by
  obtain ⟨hbody, hcallers⟩ | ⟨caller, hcallers, hbody⟩ := Landing.suffix_of_find h
  · have hrest := (List.sublist_cons_self _ landing.body).trans hbody.sublist
    exact hcallers ▸ (hrest.flatMap _).append (.refl _)
  · have hrest := (List.sublist_cons_self _ landing.body).trans hbody.sublist
    have hcaller : (landing.body.flatMap StmtFrame.dues).Sublist caller.dues :=
      (hrest.flatMap _).trans (List.sublist_append_right _ _)
    exact (hcaller.append (.refl _)).trans
      ((hcallers.sublist.flatMap Caller.dues).trans (List.sublist_append_right _ _))

theorem duesAround_sublist_of_caller (body : List StmtFrame) (caller : Caller)
    (outer : List Caller) :
    (caller.use.dues ++ duesAround caller.body outer).Sublist
      (duesAround body (caller :: outer)) := by
  rw [duesAround, duesAround, List.flatMap_cons, Caller.dues, List.append_assoc]
  exact List.sublist_append_right _ _

theorem does_goOn {act : Act} {focus : Focus} (hrecords : store'.records = store.records)
    (hdues : (focus.dues ++ duesAround body callers).Sublist dues) :
    Move.Does program act store dues
      (.goOn ⟨store', events⟩ ⟨focus, body, callers⟩ : ThreadMove) :=
  .keep hrecords hdues

theorem does_fail {act : Act} {error : RunError} (h : error.IsHarmless) :
    Move.Does program act store dues (.fail ⟨store, events⟩ error : ThreadMove) :=
  ⟨h, .keep rfl (List.nil_sublist _)⟩

/-! ### Declarations -/

theorem dues_declareItems (stmt : Stmt) (env : RecordId) (items : List Declarator) :
    (declareItems stmt env items).dues = items.flatMap (Declarator.dues env) := by
  induction items with
  | nil => rfl
  | cons item rest ih =>
    obtain ⟨ident, init⟩ := item
    cases init with
    | none => exact ih
    | some e => rfl

/-- A value that is owed to a name can be given to it. -/
theorem exists_define_of_owes {name : String} (howes : store.Owes (.value env name :: dues))
    (v : Value) : ∃ slot slot', store.slot? env name = some slot ∧ slot.IsOpen ∧
      slot.define name v = .ok slot' ∧ store.slotToDefine env name v = .ok slot' := by
  obtain ⟨slot, hslot, hopen⟩ := Store.fits_value_iff.1 (howes.fits _ List.mem_cons_self)
  obtain ⟨slot', hdefine⟩ := hopen.exists_define name v
  refine ⟨slot, slot', hslot, hopen, hdefine, ?_⟩
  rw [Store.slotToDefine_of_slot? hslot, hdefine]
  rfl

theorem exists_change_of_defineAll {idents : List Ident}
    (howes : store.Owes (idents.map (Ident.due env) ++ dues)) (vs : List Value) :
    ∃ store', defineAll store env idents vs = (store', none) ∧
      Change program .define store (idents.map (Ident.due env) ++ dues) store' dues := by
  induction idents generalizing store vs with
  | nil => exact ⟨store, rfl, .keep rfl (.refl _)⟩
  | cons ident more ih =>
    obtain ⟨slot, slot', hslot, hopen, hdefine, hresult⟩ :=
      exists_define_of_owes howes (vs.headD .undefined)
    obtain ⟨store', hall, hchange⟩ := ih howes.define vs.tail
    refine ⟨store', ?_, .trans (.define hslot hopen hdefine) hchange⟩
    rw [defineAll, hresult]
    exact hall

namespace Around

/-! ### Faults -/

theorem does_raise (h : Around program layout store body callers others) (site : Option Site)
    (fault : Fault) (hdues : (duesAround body callers).Sublist dues) :
    (Thread.raise ⟨store', events⟩ body callers site fault).Does program .enter store' dues := by
  unfold Thread.raise
  split
  · exact does_fail trivial
  next landing hlanding =>
    obtain ⟨⟨scopes, -, hopens, -⟩, -⟩ := h.landing hlanding
    have hstarts : Role.caught.Starts (.mutable (fault.caught store'.fresh.1) true) := ⟨_, rfl⟩
    have hfresh : Change program .enter store' dues store'.fresh.2 dues := .keep rfl (.refl _)
    have hrest := (duesAround_sublist_of_find hlanding).trans hdues
    have henter := Change.addName store'.fresh.2 dues hopens rfl hstarts .handler landing.env .nil
      (List.forall_mem_nil _)
    exact (hfresh.trans henter).trans (.keep rfl hrest)

theorem does_stop (h : Around program layout store body callers others) (site : Option Site)
    {failure : Failure} (hfailure : failure.IsPlain)
    (hdues : (duesAround body callers).Sublist dues) :
    (Thread.stop ⟨store, events⟩ body callers site failure).Does program .enter store dues := by
  cases failure with
  | fault fault => exact h.does_raise site fault hdues
  | crash crash => exact does_fail hfailure

/-! ### Expressions -/

variable {frames : List ExprFrame} {use : Use}

theorem does_eval (h : Around program layout store body callers others) (e : Expr)
    (env : RecordId) (frames : List ExprFrame) (use : Use) :
    (Thread.eval ⟨store, events⟩ body callers e env frames use).Does program .enter store
      (use.dues ++ duesAround body callers) := by
  have haround := List.sublist_append_right use.dues (duesAround body callers)
  have hread {name : String} {id : RecordId} (hid : store.resolve env name = .ok id)
      (forTypeof : Bool) : Sound (fun _ ↦ True) (store.read id name forTypeof) := by
    obtain ⟨slot, hslot⟩ := Store.exists_slot_of_resolve hid
    exact (store.sound_read hslot forTypeof).mono fun _ _ ↦ trivial
  unfold Thread.eval
  split
  · exact does_goOn rfl (.refl _)
  next ident =>
    dsimp only
    split
    · exact h.does_raise _ _ haround
    next id hid =>
      have hread := hread hid false
      generalize store.read id ident.name false = result at hread ⊢
      cases hread with
      | ok _ => exact does_goOn rfl (.refl _)
      | error hplain => exact h.does_stop _ hplain haround
  next ident span =>
    dsimp only
    split
    · exact does_goOn rfl (.refl _)
    next id hid =>
      have hread := hread hid true
      generalize store.read id ident.name true = result at hread ⊢
      cases hread with
      | ok _ => exact does_goOn rfl (.refl _)
      | error hplain => exact h.does_stop _ hplain haround
  all_goals exact does_goOn rfl (.refl _)

theorem does_call (h : Around program layout store body callers others) (node : Expr)
    (callee : Value) (args : List Value) (frames : List ExprFrame) (use : Use) :
    (Thread.call ⟨store, events⟩ body callers node callee args frames use).Does program .enter store
      (use.dues ++ duesAround body callers) := by
  unfold Thread.call
  split
  next ref f => exact does_goOn rfl (by simp [Focus.dues, duesAround, Caller.dues])
  · exact h.does_stop _ (store.isPlain_of_display callee .cannotCall fun _ ↦ trivial)
      (List.sublist_append_right _ _)

theorem does_resume (h : Around program layout store body callers others) (v : Value)
    (frame : ExprFrame) (frames : List ExprFrame) (use : Use) :
    (Thread.resume ⟨store, events⟩ body callers v frame frames use).Does program .enter store
      (use.dues ++ duesAround body callers) := by
  have haround := List.sublist_append_right use.dues (duesAround body callers)
  have hsettle (node : Expr) {Good : Value → Prop} (result : Except Failure Value) :
      Sound Good result → (settle ⟨store, events⟩ body callers frames use node result).Does
        program .enter store (use.dues ++ duesAround body callers) := by
    intro hresult
    cases hresult with
    | ok _ => exact does_goOn rfl (.refl _)
    | error hplain => exact h.does_stop _ hplain haround
  unfold Thread.resume
  split
  · exact does_goOn rfl (.refl _)
  next node op => exact hsettle node _ (v.sound_applyUnary op)
  · exact does_goOn rfl (.refl _)
  next node op lhs => exact hsettle node _ (Value.sound_applyBinary op lhs v)
  next op rhs env =>
    dsimp only
    split <;> split <;> exact does_goOn rfl (.refl _)
  · exact h.does_call _ _ _ _ _
  · exact does_goOn rfl (.refl _)
  · exact h.does_call _ _ _ _ _
  · exact does_goOn rfl (.refl _)
  · exact does_goOn rfl (.refl _)
  next node base => exact hsettle node _ (Value.sound_applyIndex base v)
  · exact does_goOn rfl (.refl _)
  · exact does_goOn rfl (.refl _)

/-! ### Values -/

theorem does_assign (h : Around program layout store body callers others) (stmt : Stmt)
    (name : String) (env : RecordId) (v : Value) :
    ∃ act, (act = .define → (Use.assign stmt name env).Defines) ∧
      Acts store ⟨.value v [] (.assign stmt name env), body, callers⟩ act ∧
      (Thread.apply ⟨store, events⟩ body callers v (.assign stmt name env)).Does program act store
        (duesAround body callers) := by
  unfold Thread.apply
  dsimp only
  split
  · exact ⟨.enter, nofun, trivial, h.does_raise _ _ (.refl _)⟩
  next id hid =>
    obtain ⟨slot, hslot⟩ := Store.exists_slot_of_resolve hid
    have hwrite := store.sound_slotToWrite hslot v
    generalize store.slotToWrite id name v = result at hwrite ⊢
    cases hwrite with
    | error hplain => exact ⟨.enter, nofun, trivial, h.does_stop _ hplain (.refl _)⟩
    | ok hwrite => exact ⟨.assign id name v, nofun, ⟨stmt, env, rfl, hid⟩, .assign hslot hwrite⟩

theorem does_apply (h : Around program layout store body callers others) (v : Value)
    (huse : use.Scoped program layout)
    (howes : store.Owes (use.dues ++ duesAround body callers)) :
    ∃ act, (act = .define → use.Defines) ∧ Acts store ⟨.value v [] use, body, callers⟩ act ∧
      (Thread.apply ⟨store, events⟩ body callers v use).Does program act store
        (use.dues ++ duesAround body callers) := by
  have hgoOn {focus : Focus} (hdues : focus.dues = []) : Move.Does program .enter store
      (duesAround body callers) (.goOn ⟨store, events⟩ ⟨focus, body, callers⟩ : ThreadMove) :=
    does_goOn rfl (by rw [hdues, List.nil_append])
  cases use with
  | declare stmt name rest env =>
    obtain ⟨slot, slot', hslot, hopen, hdefine, hresult⟩ := exists_define_of_owes howes v
    refine ⟨.define, fun _ ↦ trivial, trivial, ?_⟩
    unfold Thread.apply
    dsimp only
    rw [hresult]
    refine .trans (.define hslot hopen hdefine) (.keep rfl ?_)
    rw [dues, dues_declareItems]
    exact .refl _
  | destructure stmt idents env =>
    unfold Thread.apply
    dsimp only
    split
    next ref =>
      obtain ⟨store', hall, hchange⟩ :=
        exists_change_of_defineAll howes (store.elements ref).toList
      refine ⟨.define, fun _ ↦ trivial, trivial, ?_⟩
      rw [hall]
      exact hchange
    · exact ⟨.enter, nofun, trivial, h.does_raise _ _ (List.sublist_append_right _ _)⟩
  | assign stmt name env => exact h.does_assign stmt name env v
  | discard => exact ⟨.enter, nofun, trivial, hgoOn rfl⟩
  | print =>
    refine ⟨.enter, nofun, trivial, ?_⟩
    have hkept := store.kept_display v
    unfold Thread.apply
    dsimp only
    generalize store.display v = result at hkept ⊢
    cases hkept with
    | ok text => exact hgoOn rfl
    | error hcrash => exact does_fail hcrash
  | ret => exact ⟨.enter, nofun, trivial, hgoOn rfl⟩
  | spawn stmt =>
    refine ⟨.enter, nofun, trivial, ?_⟩
    unfold Thread.apply
    dsimp only
    split
    · exact ⟨rfl, .keep rfl (.refl _)⟩
    · exact h.does_stop _ (store.isPlain_of_display v .cannotSpawn fun _ ↦ trivial) (.refl _)
  | throw stmt =>
    refine ⟨.enter, nofun, trivial, ?_⟩
    have hkept := store.kept_display v
    unfold Thread.apply
    dsimp only
    generalize store.display v = result at hkept ⊢
    cases hkept with
    | ok text => exact h.does_raise _ _ (.refl _)
    | error hcrash => exact does_fail hcrash
  | branch thenPart elsePart env =>
    refine ⟨.enter, nofun, trivial, hgoOn ?_⟩
    split
    · rfl
    · split
      next s => exact Stmt.dues_of_canBeElsePart (huse.2 s rfl).2
      next => rfl
  | repeatWhile cond block env =>
    refine ⟨.enter, nofun, trivial, ?_⟩
    unfold Thread.apply
    dsimp only
    split
    · exact does_goOn rfl (.refl _)
    · exact hgoOn rfl
  | iterate stmt kind ident block env =>
    refine ⟨.enter, nofun, trivial, ?_⟩
    unfold Thread.apply
    dsimp only
    split
    · exact does_goOn rfl (.refl _)
    · exact h.does_raise _ _ (.refl _)
  | loopVariable name block env =>
    obtain ⟨slot, slot', hslot, hopen, hdefine, hresult⟩ := exists_define_of_owes howes v
    refine ⟨.define, fun _ ↦ trivial, trivial, ?_⟩
    unfold Thread.apply
    dsimp only
    rw [hresult]
    exact .trans (.define hslot hopen hdefine) (.keep rfl (.refl _))

/-! ### Statements -/

/-- Enters the scope of a body, and from then on owes all that its statements are owed. -/
theorem does_enterBody (h : Around program layout store body callers others)
    (hdistinct : program.Distinct) (scope : Scope) {outer : List Scope}
    (hopens : program.Opens (scope :: outer)) (kind : ScopeKind) (env : RecordId)
    {items : List (Ident × Hoisted)} (hitems : List.Forall₂ Role.Hoists scope.declared items) :
    Move.Does program .enter store (duesAround body callers)
      (match (store.addRecord kind (some env)).2.hoist store.records.size items with
      | (store', none) => .goOn ⟨store', events⟩
          ⟨.next, .sequence scope.statements store.records.size :: body, callers⟩
      | (store', some ident) => Thread.raise ⟨store', events⟩ body callers (some (.ident ident))
          (.duplicateName ident.name)) := by
  obtain ⟨habandoned, hentered⟩ := Change.hoist store (duesAround body callers) hopens
    (hdistinct _ _ hopens) hitems kind env
  generalize (store.addRecord kind (some env)).2.hoist store.records.size items = out
    at habandoned hentered ⊢
  obtain ⟨store', twice⟩ := out
  cases twice with
  | none =>
    refine (hentered rfl).trans (.keep rfl ?_)
    simp [dues, Focus.dues, duesAround, StmtFrame.dues]
  | some ident => exact Move.Does.after (h.does_raise _ _ (.refl _)) habandoned

theorem does_exec (h : Around program layout store body callers others)
    (hdistinct : program.Distinct) {s : Stmt} (hs : VisitsIn program layout env (.stmt s)) :
    (Thread.exec ⟨store, events⟩ body callers s env).Does program .enter store
      (s.dues env ++ duesAround body callers) := by
  unfold Thread.exec
  split
  next kind items span =>
    refine does_goOn rfl ?_
    rw [dues_declareItems]
    exact .cons _ (.refl _)
  · exact does_goOn rfl (.cons _ (.refl _))
  all_goals try exact does_goOn rfl (.refl _)
  next =>
    split
    · exact .keep rfl (.refl _)
    next caller outer =>
      obtain ⟨hcaller, houter⟩ := List.forall_mem_cons.1 h.callers
      have hdues := duesAround_sublist_of_caller body caller outer
      exact does_raise { h with body := hcaller.body, callers := houter } _ _
        ((List.sublist_append_right _ _).trans hdues)
  next stmts span =>
    obtain ⟨scopes, hscopes, hsite⟩ := hs
    exact h.does_enterBody hdistinct (.block stmts) (.inside hsite (List.mem_singleton.2 rfl))
      .block env (hoists_flatMap_roles stmts)

theorem does_advance (h : Around program layout store body callers others) :
    (Thread.advance ⟨store, events⟩ callers body).Does program .enter store
      (duesAround body callers) := by
  unfold Thread.advance
  split
  · exact does_goOn rfl (.refl _)
  · exact does_goOn rfl (.refl _)
  next s rest env body =>
    refine does_goOn rfl ?_
    simp [Focus.dues, duesAround, StmtFrame.dues]
  · exact does_goOn rfl (.refl _)
  next kind ident block env items i body =>
    obtain ⟨⟨-, scopes, -, hopens, -⟩, -⟩ := List.forall_mem_cons.1 h.body
    split
    · exact does_goOn rfl (.refl _)
    next v helement =>
      change Change _ _ _ _ _ ([.value store.records.size ident.name] ++ duesAround body callers)
      refine .addName _ _ hopens rfl (Role.starts_declared kind true) .iteration env
        (List.nodup_singleton _) fun due hdue ↦ ?_
      exact ⟨List.mem_singleton.1 hdue, Role.isOpen_of_starts (Role.starts_declared kind true)⟩
  · exact does_goOn rfl (.refl _)

theorem does_enter (h : Around program layout store body callers others)
    (hdistinct : program.Distinct) {f : Function} (hf : f.Scoped program layout)
    (args : List Value) :
    (Thread.enter ⟨store, events⟩ body callers f args).Does program .enter store
      (duesAround body callers) := by
  unfold Thread.enter
  cases f with
  | closure code env =>
    obtain ⟨scopes, -, hopens, -⟩ := hf
    exact h.does_enterBody hdistinct (.function code.params code.body) hopens .function env
      (List.rel_append (hoists_parameters code.params args) (hoists_flatMap_roles code.body))
  | builtin builtin =>
    have happly := builtin.sound_apply store args
    dsimp only
    generalize builtin.apply store args = result at happly ⊢
    cases happly with
    | error hplain => exact h.does_stop _ hplain (.refl _)
    | @ok out hgood =>
      obtain ⟨v, added⟩ := out
      cases added with
      | none => exact does_goOn rfl (.refl _)
      | some added => exact does_goOn rfl (.refl _)

end Around

theorem does_complete (v : Value) (body : List StmtFrame) (callers : List Caller) :
    (complete ⟨store, events⟩ v callers).Does program .enter store (duesAround body callers) := by
  unfold complete
  split
  · exact .keep rfl (List.nil_sublist _)
  next caller outer => exact does_goOn rfl (duesAround_sublist_of_caller body caller outer)

/-- The thread has come to a value that initializes names. -/
def Defines (thread : Thread) : Prop :=
  ∃ v use, thread.focus = .value v [] use ∧ use.Defines

/-- A move of a thread is a change of the store and of what the thread owes, as long as its debts
agree with the store. -/
theorem does_move (hdistinct : program.Distinct) {world : World} {thread : Thread}
    (hstore : world.store.Scoped program layout) (hthread : thread.Scoped program layout)
    (howes : world.store.Owes thread.dues) :
    ∃ act, (act = .define → thread.Defines) ∧ thread.Acts world.store act ∧
      (thread.move world).Does program act world.store thread.dues := by
  obtain ⟨store, events⟩ := world
  obtain ⟨focus, body, callers⟩ := thread
  obtain ⟨hfocus, hbody, hcallers⟩ := hthread
  have h : Around program layout store body callers [] :=
    ⟨hstore, hbody, hcallers, List.forall_mem_nil _⟩
  unfold move
  cases focus with
  | enter f args => exact ⟨.enter, nofun, trivial, h.does_enter hdistinct hfocus.1 args⟩
  | eval e env frames use => exact ⟨.enter, nofun, trivial, h.does_eval e env frames use⟩
  | value v frames use =>
    cases frames with
    | nil =>
      obtain ⟨act, hdefines, hdoes⟩ := h.does_apply v hfocus.2.2 howes
      exact ⟨act, fun hact ↦ ⟨v, use, rfl, hdefines hact⟩, hdoes⟩
    | cons frame frames => exact ⟨.enter, nofun, trivial, h.does_resume v frame frames use⟩
  | exec s env => exact ⟨.enter, nofun, trivial, h.does_exec hdistinct hfocus⟩
  | next => exact ⟨.enter, nofun, trivial, h.does_advance⟩
  | done v => exact ⟨.enter, nofun, trivial, does_complete v body callers⟩

end Thread

end LateConst
