import LateConst.Proofs.RoundRobin
import LateConst.Proofs.Scoping.Entry
import LateConst.Proofs.Thread

/-!
# Every move keeps the agreement of records and scopes

One lemma for each kind of point that a thread can have reached: what comes of the next move agrees
with a layout that extends the present one, so that nothing changes for the other threads. Together
they give `Thread.Scoped.move`.
-/

namespace LateConst

variable {program : Program} {layout layout' : Layout} {env : RecordId} {site inner : Site}
  {scope : Scope}

/-! ### Parts of a node -/

theorem VisitsIn.exists_layout (h : VisitsIn program layout env site) :
    ∃ scopes, layout env = some scopes := by
  obtain ⟨scopes, hscopes, -⟩ := h
  exact ⟨scopes, hscopes⟩

/-- A part of a node in the same scopes. -/
theorem VisitsIn.part (h : VisitsIn program layout env site)
    (hpart : ∀ scopes, (inner, scopes) ∈ site.visits scopes) :
    VisitsIn program layout env inner := by
  obtain ⟨scopes, hscopes, hsite⟩ := h
  exact ⟨scopes, hscopes, hsite.inside (hpart scopes)⟩

/-- A part of a node inside of a scope that the node opens. -/
theorem VisitsIn.inside (h : VisitsIn program layout env site) (hscope : scope ∈ site.opens)
    (hpart : ∀ scopes, (inner, scope :: scopes) ∈ site.visits scopes) :
    VisitsInside program layout env scope inner := by
  obtain ⟨scopes, hscopes, hsite⟩ := h
  exact ⟨scopes, hscopes, .inside hsite hscope, hsite.inside (hpart scopes)⟩

theorem VisitsIn.closure {params : List Ident} {body : List Stmt} {span : Span}
    (h : VisitsIn program layout env (.expr (.function params body span))) :
    (Function.closure ⟨none, params, body, span⟩ env).Scoped program layout := by
  obtain ⟨scopes, hscopes, hsite⟩ := h
  refine ⟨scopes, hscopes, .inside hsite (by simp [Site.opens]), fun s hs ↦ ?_⟩
  exact hsite.inside (Scope.mem_visits.2 ⟨s, hs, rfl, rfl⟩)

theorem VisitsIn.item {kind : Kind} {items : List Declarator} {span : Span}
    (h : VisitsIn program layout env (.stmt (.declare kind items span))) :
    ∀ item ∈ items, ∀ e ∈ item.init, VisitsIn program layout env (.expr e) := by
  intro item hitem e he
  refine h.part fun scopes ↦ ?_
  refine List.mem_filterMap.2 ⟨item, hitem, ?_⟩
  rw [Option.mem_def.1 he]
  rfl

theorem VisitsIn.elsePart {cond : Expr} {thenPart : Block} {elsePart : Option Stmt} {span : Span}
    (hregular : program.Regular)
    (h : VisitsIn program layout env (.stmt (.branch cond thenPart elsePart span))) :
    ∀ s ∈ elsePart, VisitsIn program layout env (.stmt s) ∧ s.CanBeElsePart := by
  intro s hs
  refine ⟨h.part fun scopes ↦ ?_, ?_⟩
  · simp [Site.visits, Option.mem_def.1 hs]
  · obtain ⟨scopes, -, hsite⟩ := h
    exact hregular _ _ hsite s hs

/-! ### Declarations -/

theorem Thread.scoped_declareItems (stmt : Stmt) {items : List Declarator}
    (hitems : ∀ item ∈ items, ∀ e ∈ item.init, VisitsIn program layout env (.expr e)) :
    (declareItems stmt env items).Scoped program layout := by
  obtain hnext | ⟨before, ident, e, rest, rfl, hfocus⟩ := declareItems_cases stmt env items
  · rw [hnext]
    trivial
  · obtain ⟨-, hitems⟩ := List.forall_mem_append.1 hitems
    obtain ⟨hitem, hrest⟩ := List.forall_mem_cons.1 hitems
    rw [hfocus]
    exact ⟨hitem e rfl, List.forall_mem_nil _, hrest⟩

namespace Store.Scoped

variable {store : Store} {id : RecordId} {name : String} {v : Value} {slot slot' : Slot}

theorem write (h : store.Scoped program layout) (hv : v.Scoped program layout)
    (hwrite : slot.write name v = .ok slot') :
    (store.setSlot id name slot').Scoped program layout := by
  refine h.setSlot fun w hw ↦ ?_
  rw [Slot.value?_of_write hwrite] at hw
  exact Option.some.inj hw ▸ hv

theorem define (h : store.Scoped program layout) (hv : v.Scoped program layout)
    (hdefine : store.slotToDefine id name v = .ok slot) :
    (store.setSlot id name slot).Scoped program layout := by
  obtain ⟨old, -, hold⟩ := exists_define_of_slotToDefine hdefine
  refine h.setSlot fun w hw ↦ ?_
  rw [Slot.value?_of_define hold] at hw
  exact Option.some.inj hw ▸ hv

theorem defineAll {vs : List Value} (h : store.Scoped program layout) (env : RecordId)
    (idents : List Ident) (hvs : ∀ v ∈ vs, v.Scoped program layout) :
    (Thread.defineAll store env idents vs).1.Scoped program layout ∧
      ∀ failure ∈ (Thread.defineAll store env idents vs).2, ∃ crash, failure = .crash crash := by
  induction idents generalizing store vs with
  | nil => exact ⟨h, fun _ hfailure ↦ by cases hfailure⟩
  | cons ident more ih =>
    have hv : (vs.headD .undefined).Scoped program layout := by
      cases vs with
      | nil => trivial
      | cons v rest => exact hvs v List.mem_cons_self
    rw [Thread.defineAll]
    split
    next failure hdefine =>
      refine ⟨h, fun failure' hfailure ↦ ?_⟩
      obtain rfl := Option.some.inj hfailure
      exact exists_crash_of_slotToDefine hdefine
    next slot hdefine =>
      exact ih (h.define hv hdefine) fun v hmem ↦ hvs v (List.mem_of_mem_tail hmem)

end Store.Scoped

/-! ### What is around the focus -/

namespace Thread

/-- All but the focus of the present thread agrees with a layout. -/
structure Around (program : Program) (layout : Layout) (store : Store) (body : List StmtFrame)
    (callers : List Caller) (others : List Thread) : Prop where
  store : store.Scoped program layout
  body : ∀ frame ∈ body, frame.Scoped program layout
  callers : ∀ caller ∈ callers, caller.Scoped program layout
  others : ∀ thread ∈ others, thread.Scoped program layout

namespace Around

variable {store store' : Store} {events : Array Event} {body : List StmtFrame}
  {callers : List Caller} {others : List Thread}

theorem goOn (h : Around program layout store body callers others) {focus : Focus}
    (hfocus : focus.Scoped program layout) :
    Move.Keeps (World.Scoped program) others
      (.goOn ⟨store, events⟩ ⟨focus, body, callers⟩ : ThreadMove) :=
  ⟨layout, h.store, List.forall_mem_cons.2 ⟨⟨hfocus, h.body, h.callers⟩, h.others⟩⟩

theorem fail (h : Around program layout store body callers others) (error : RunError) :
    Move.Keeps (World.Scoped program) others (.fail ⟨store, events⟩ error : ThreadMove) :=
  ⟨layout, h.store, List.forall_mem_nil _⟩

/-- A store that agrees with a layout that says at least as much. -/
theorem mono (h : Around program layout store body callers others)
    (hextends : layout'.Extends layout) (hstore : store'.Scoped program layout') :
    Around program layout' store' body callers others where
  store := hstore
  body := fun frame hframe ↦ (h.body frame hframe).mono hextends
  callers := fun caller hcaller ↦ (h.callers caller hcaller).mono hextends
  others := fun thread hthread ↦ (h.others thread hthread).mono hextends

theorem setStore (h : Around program layout store body callers others)
    (hstore : store'.Scoped program layout) : Around program layout store' body callers others :=
  { h with store := hstore }

theorem push (h : Around program layout store body callers others) {frame : StmtFrame}
    (hframe : frame.Scoped program layout) :
    Around program layout store (frame :: body) callers others :=
  { h with body := List.forall_mem_cons.2 ⟨hframe, h.body⟩ }

/-! ### Faults -/

/-- What is left to do around a handler agrees with the layout, like all the rest of the thread. -/
theorem landing (h : Around program layout store body callers others) {landing : Landing}
    (hlanding : Landing.find body callers = some landing) :
    (StmtFrame.handler landing.ident landing.handler landing.env).Scoped program layout ∧
      Around program layout store landing.body landing.callers others := by
  obtain ⟨hbody, hcallers⟩ | ⟨caller, hcallers, hbody⟩ := Landing.suffix_of_find hlanding
  · have hframes := fun frame hframe ↦ h.body frame (hbody.subset hframe)
    obtain ⟨hhandler, hrest⟩ := List.forall_mem_cons.1 hframes
    exact ⟨hhandler, { h with body := hrest, callers := hcallers ▸ h.callers }⟩
  · have hmore := fun caller hcaller ↦ h.callers caller (hcallers.subset hcaller)
    obtain ⟨hcaller, houter⟩ := List.forall_mem_cons.1 hmore
    have hframes := fun frame hframe ↦ hcaller.body frame (hbody.subset hframe)
    obtain ⟨hhandler, hrest⟩ := List.forall_mem_cons.1 hframes
    exact ⟨hhandler, { h with body := hrest, callers := houter }⟩

theorem raise (h : Around program layout store body callers others) (site : Option Site)
    {fault : Fault} (hfault : fault.Scoped program layout) :
    (Thread.raise ⟨store, events⟩ body callers site fault).Keeps (World.Scoped program) others := by
  unfold Thread.raise
  split
  · exact h.fail _
  next landing hlanding =>
    obtain ⟨⟨scopes, hscopes, -, hvisits⟩, hrest⟩ := h.landing hlanding
    have hextends := h.store.extends_add (.handler landing.ident :: scopes)
    have hvalue : ∀ v ∈ (Slot.mutable (fault.caught store.fresh.1) true).value?,
        v.Scoped program (layout.add store.records.size (.handler landing.ident :: scopes)) :=
      fun v hv ↦ Option.some.inj hv ▸ (hfault.caught _).mono hextends
    have hnames : [landing.ident.name] = (Scope.handler landing.ident).names := rfl
    have hstore := h.store.fresh.addName hscopes .handler hnames hvalue
    exact (hrest.mono hextends hstore).goOn ⟨_, Layout.add_self _ _ _, hvisits⟩

theorem stop (h : Around program layout store body callers others) (site : Option Site)
    {failure : Failure} (hfailure : failure.Scoped program layout) :
    (Thread.stop ⟨store, events⟩ body callers site failure).Keeps (World.Scoped program)
      others := by
  cases failure with
  | fault fault => exact h.raise site hfailure
  | crash crash => exact h.fail _

/-! ### Expressions -/

variable {frames : List ExprFrame} {use : Use}

theorem eval (h : Around program layout store body callers others) {e : Expr}
    (he : VisitsIn program layout env (.expr e))
    (hframes : ∀ frame ∈ frames, frame.Scoped program layout) (huse : use.Scoped program layout) :
    (Thread.eval ⟨store, events⟩ body callers e env frames use).Keeps (World.Scoped program)
      others := by
  have hvalue {v : Value} (hv : v.Scoped program layout) :
      (Focus.value v frames use).Scoped program layout := ⟨hv, hframes, huse⟩
  have hpush {e : Expr} {frame : ExprFrame} (he : VisitsIn program layout env (.expr e))
      (hframe : frame.Scoped program layout) :
      (Focus.eval e env (frame :: frames) use).Scoped program layout :=
    ⟨he, List.forall_mem_cons.2 ⟨hframe, hframes⟩, huse⟩
  obtain ⟨scopes, hscopes⟩ := he.exists_layout
  unfold Thread.eval
  split
  next value span =>
    refine h.goOn (hvalue ?_)
    cases value <;> trivial
  next ident =>
    dsimp only
    split
    next fault hfault =>
      obtain rfl := Store.eq_unresolved_of_resolve hfault
      exact h.raise _ trivial
    next id hid =>
      have hread := h.store.sound_read hscopes hid false
      generalize store.read id ident.name false = result at hread ⊢
      cases hread with
      | ok hv => exact h.goOn (hvalue hv)
      | error hplain => exact h.stop _ hplain.scoped
  next ident span =>
    dsimp only
    split
    · exact h.goOn (hvalue trivial)
    next id hid =>
      have hread := h.store.sound_read hscopes hid true
      generalize store.read id ident.name true = result at hread ⊢
      cases hread with
      | ok hv => exact h.goOn (hvalue trivial)
      | error hplain => exact h.stop _ hplain.scoped
  next arg span _ => exact h.goOn (hpush (he.part fun _ ↦ by simp [Site.visits]) trivial)
  next op arg span => exact h.goOn (hpush (he.part fun _ ↦ by simp [Site.visits]) trivial)
  next lhs op rhs span =>
    have hrhs : VisitsIn program layout env (.expr rhs) := he.part fun _ ↦ by simp [Site.visits]
    exact h.goOn (hpush (he.part fun _ ↦ by simp [Site.visits]) hrhs)
  next lhs op rhs span =>
    have hrhs : VisitsIn program layout env (.expr rhs) := he.part fun _ ↦ by simp [Site.visits]
    exact h.goOn (hpush (he.part fun _ ↦ by simp [Site.visits]) hrhs)
  next callee args span =>
    have hargs : ∀ arg ∈ args, VisitsIn program layout env (.expr arg) :=
      fun arg harg ↦ he.part fun _ ↦ by simp [Site.visits, harg]
    exact h.goOn (hpush (he.part fun _ ↦ by simp [Site.visits]) hargs)
  next base index span =>
    have hindex : VisitsIn program layout env (.expr index) :=
      he.part fun _ ↦ by simp [Site.visits]
    exact h.goOn (hpush (he.part fun _ ↦ by simp [Site.visits]) hindex)
  next first rest span =>
    have hrest : ∀ e ∈ rest, VisitsIn program layout env (.expr e) :=
      fun e hmem ↦ he.part fun _ ↦ by simp [Site.visits, hmem]
    exact h.goOn (hpush (he.part fun _ ↦ by simp [Site.visits])
      ⟨List.forall_mem_nil _, hrest⟩)
  next span =>
    exact (h.setStore (h.store.addArray (List.forall_mem_nil _))).goOn (hvalue trivial)
  next params code span => exact (h.setStore h.store.fresh).goOn (hvalue he.closure)

theorem call (h : Around program layout store body callers others) (node : Expr) {callee : Value}
    {args : List Value} (hcallee : callee.Scoped program layout)
    (hargs : ∀ v ∈ args, v.Scoped program layout)
    (hframes : ∀ frame ∈ frames, frame.Scoped program layout) (huse : use.Scoped program layout) :
    (Thread.call ⟨store, events⟩ body callers node callee args frames use).Keeps
      (World.Scoped program) others := by
  unfold Thread.call
  split
  next ref f =>
    have hcaller : Caller.Scoped program layout ⟨node, frames, use, body⟩ :=
      ⟨hframes, huse, h.body⟩
    exact Around.goOn { h with
      body := List.forall_mem_nil _
      callers := List.forall_mem_cons.2 ⟨hcaller, h.callers⟩ } ⟨hcallee, hargs⟩
  · exact h.stop _ (store.isPlain_of_display _ .cannotCall fun _ ↦ trivial).scoped

theorem resume (h : Around program layout store body callers others) {v : Value}
    (hv : v.Scoped program layout) {frame : ExprFrame} (hframe : frame.Scoped program layout)
    (hframes : ∀ frame ∈ frames, frame.Scoped program layout) (huse : use.Scoped program layout) :
    (Thread.resume ⟨store, events⟩ body callers v frame frames use).Keeps (World.Scoped program)
      others := by
  have hvalue {v : Value} (hv : v.Scoped program layout) :
      (Focus.value v frames use).Scoped program layout := ⟨hv, hframes, huse⟩
  have hpush {e : Expr} {env : RecordId} {frame : ExprFrame}
      (he : VisitsIn program layout env (.expr e)) (hframe : frame.Scoped program layout) :
      (Focus.eval e env (frame :: frames) use).Scoped program layout :=
    ⟨he, List.forall_mem_cons.2 ⟨hframe, hframes⟩, huse⟩
  have hsettle (node : Expr) (result : Except Failure Value) :
      Sound (Value.Scoped program layout) result →
        (settle ⟨store, events⟩ body callers frames use node result).Keeps
          (World.Scoped program) others := by
    intro hresult
    cases hresult with
    | ok hv => exact h.goOn (hvalue hv)
    | error hplain => exact h.stop _ hplain.scoped
  have hdone {done : List Value} (hvs : ∀ w ∈ done, w.Scoped program layout) :
      ∀ w ∈ done ++ [v], w.Scoped program layout :=
    fun w hw ↦ (List.mem_append.1 hw).elim (hvs w) fun hw ↦ List.mem_singleton.1 hw ▸ hv
  unfold Thread.resume
  split
  · exact h.goOn (hvalue trivial)
  next node op => exact hsettle node _ ((v.sound_applyUnary op).mono fun _ hplain ↦ hplain.scoped)
  next node op rhs env => exact h.goOn (hpush hframe hv)
  next node op lhs =>
    exact hsettle node _ ((Value.sound_applyBinary op lhs v).mono fun _ hplain ↦ hplain.scoped)
  next op rhs env =>
    have hrhs : (Focus.eval rhs env frames use).Scoped program layout := ⟨hframe, hframes, huse⟩
    dsimp only
    split <;> split
    · exact h.goOn (hvalue hv)
    · exact h.goOn hrhs
    · exact h.goOn (hvalue hv)
    · exact h.goOn hrhs
  next node env => exact h.call node hv (List.forall_mem_nil _) hframes huse
  next node first rest env =>
    obtain ⟨hfirst, hrest⟩ := List.forall_mem_cons.1 hframe
    exact h.goOn (hpush hfirst ⟨hv, List.forall_mem_nil _, hrest⟩)
  next node callee done env =>
    obtain ⟨hcallee, hvs, -⟩ := hframe
    exact h.call node hcallee (hdone hvs) hframes huse
  next node callee done first rest env =>
    obtain ⟨hcallee, hvs, hargs⟩ := hframe
    obtain ⟨hfirst, hrest⟩ := List.forall_mem_cons.1 hargs
    exact h.goOn (hpush hfirst ⟨hcallee, hdone hvs, hrest⟩)
  next node index env => exact h.goOn (hpush hframe hv)
  next node base =>
    refine hsettle node _ ((Value.sound_applyIndex base v).mono fun w hw ↦ ?_)
    obtain ⟨ref, hmem⟩ | hplain := hw
    · exact h.store.element hmem
    · exact hplain.scoped
  next done first rest env =>
    obtain ⟨hvs, hes⟩ := hframe
    obtain ⟨hfirst, hrest⟩ := List.forall_mem_cons.1 hes
    exact h.goOn (hpush hfirst ⟨hdone hvs, hrest⟩)
  next done env => exact (h.setStore (h.store.addArray (hdone hframe.1))).goOn (hvalue trivial)

/-! ### Values -/

theorem destructure (h : Around program layout store body callers others) (stmt : Stmt)
    (idents : List Ident) (env : RecordId) (v : Value) :
    (Thread.apply ⟨store, events⟩ body callers v (.destructure stmt idents env)).Keeps
      (World.Scoped program) others := by
  unfold Thread.apply
  dsimp only
  split
  next ref =>
    have hdefine := h.store.defineAll env idents
      (fun v hv ↦ h.store.element (Array.mem_toList_iff.1 hv) : ∀ v ∈ (store.elements ref).toList,
        v.Scoped program layout)
    generalize Thread.defineAll store env idents (store.elements ref).toList = out at hdefine ⊢
    obtain ⟨store', failure?⟩ := out
    obtain ⟨hstore, hfailure⟩ := hdefine
    cases failure? with
    | none => exact (h.setStore hstore).goOn trivial
    | some failure =>
      obtain ⟨crash, rfl⟩ := hfailure _ rfl
      exact (h.setStore hstore).fail _
  · exact h.raise _ trivial

theorem assign (h : Around program layout store body callers others) (stmt : Stmt)
    (name : String) (env : RecordId) {v : Value} (hv : v.Scoped program layout) :
    (Thread.apply ⟨store, events⟩ body callers v (.assign stmt name env)).Keeps
      (World.Scoped program) others := by
  unfold Thread.apply
  dsimp only
  split
  next fault hfault =>
    obtain rfl := Store.eq_unresolved_of_resolve hfault
    exact h.raise _ trivial
  next id hid =>
    obtain ⟨slot, hslot⟩ := Store.exists_slot_of_resolve hid
    have hwrite := store.sound_slotToWrite hslot v
    generalize store.slotToWrite id name v = result at hwrite ⊢
    cases hwrite with
    | error hplain => exact h.stop _ hplain.scoped
    | ok hwrite => exact (h.setStore (h.store.write hv hwrite)).goOn trivial

theorem spawn (h : Around program layout store body callers others) (stmt : Stmt) {v : Value}
    (hv : v.Scoped program layout) :
    (Thread.apply ⟨store, events⟩ body callers v (.spawn stmt)).Keeps
      (World.Scoped program) others := by
  unfold Thread.apply
  dsimp only
  split
  next ref f =>
    have hnew : (Thread.ofFunction f).Scoped program layout :=
      ⟨⟨hv, List.forall_mem_nil _⟩, List.forall_mem_nil _, List.forall_mem_nil _⟩
    have hthis : Thread.Scoped program layout ⟨.next, body, callers⟩ :=
      ⟨trivial, h.body, h.callers⟩
    exact ⟨layout, h.store,
      List.forall_mem_cons.2 ⟨hthis, List.forall_mem_cons.2 ⟨hnew, h.others⟩⟩⟩
  next v _ =>
    refine h.stop _ ?_
    split <;> trivial

theorem apply (h : Around program layout store body callers others) {v : Value}
    (hv : v.Scoped program layout) (huse : use.Scoped program layout) :
    (Thread.apply ⟨store, events⟩ body callers v use).Keeps (World.Scoped program) others := by
  cases use with
  | declare stmt name rest env =>
    unfold Thread.apply
    dsimp only
    split
    next failure hdefine =>
      obtain ⟨crash, rfl⟩ := Store.exists_crash_of_slotToDefine hdefine
      exact h.fail _
    next slot hdefine =>
      exact (h.setStore (h.store.define hv hdefine)).goOn (scoped_declareItems stmt huse)
  | destructure stmt idents env => exact h.destructure stmt idents env v
  | assign stmt name env => exact h.assign stmt name env hv
  | discard => exact h.goOn trivial
  | print =>
    unfold Thread.apply
    dsimp only
    split
    · exact h.fail _
    · exact h.goOn trivial
  | ret => exact h.goOn hv
  | spawn stmt => exact h.spawn stmt hv
  | throw stmt =>
    unfold Thread.apply
    dsimp only
    split
    · exact h.fail _
    · exact h.raise _ hv
  | branch thenPart elsePart env =>
    obtain ⟨hthen, helse⟩ := huse
    refine h.goOn ?_
    split
    · exact hthen
    · split
      next s => exact (helse s rfl).1
      next => trivial
  | repeatWhile cond block env =>
    unfold Thread.apply
    dsimp only
    split
    · have hframe : (StmtFrame.whileLoop cond block env).Scoped program layout := huse
      exact (h.push hframe).goOn huse.2
    · exact h.goOn trivial
  | iterate stmt kind ident block env =>
    unfold Thread.apply
    dsimp only
    split
    · have hframe : (StmtFrame.forLoop kind ident block env v 0).Scoped program layout :=
        ⟨hv, huse⟩
      exact (h.push hframe).goOn trivial
    · exact h.raise _ trivial
  | loopVariable name block env =>
    unfold Thread.apply
    dsimp only
    split
    next failure hdefine =>
      obtain ⟨crash, rfl⟩ := Store.exists_crash_of_slotToDefine hdefine
      exact h.fail _
    next slot hdefine => exact (h.setStore (h.store.define hv hdefine)).goOn huse

/-! ### Statements -/

/-- Enters the scope of a body, or raises the fault of a name that is declared twice in it. -/
theorem enterBody (h : Around program layout store body callers others) (scope : Scope)
    {scopes : List Scope} (henv : layout env = some scopes) (kind : ScopeKind)
    {items : List (Ident × Hoisted)} (hnames : items.map Prod.fst = scope.idents)
    (hitems : ∀ item ∈ items, item.2.Scoped program
      (layout.add store.records.size (scope :: scopes)) store.records.size)
    (hvisits : ∀ s ∈ scope.statements, program.Visits (.stmt s) (scope :: scopes)) :
    Move.Keeps (World.Scoped program) others
      (match (store.addRecord kind (some env)).2.hoist store.records.size items with
      | (store', none) => .goOn ⟨store', events⟩
          ⟨.next, .sequence scope.statements store.records.size :: body, callers⟩
      | (store', some ident) => Thread.raise ⟨store', events⟩ body callers (some (.ident ident))
          (.duplicateName ident.name)) := by
  have hhoist := h.store.hoist henv kind hnames hitems
  generalize (store.addRecord kind (some env)).2.hoist store.records.size items = out at hhoist ⊢
  obtain ⟨store', twice⟩ := out
  obtain ⟨habandoned, hentered⟩ := hhoist
  cases twice with
  | none =>
    have hextends := h.store.extends_add (scope :: scopes)
    have hframe : (StmtFrame.sequence scope.statements store.records.size).Scoped program
        (layout.add store.records.size (scope :: scopes)) :=
      ⟨scope, scopes, Layout.add_self _ _ _, List.suffix_rfl, hvisits⟩
    exact ((h.mono hextends (hentered rfl)).push hframe).goOn trivial
  | some ident => exact (h.setStore habandoned).raise _ trivial

theorem exec (hregular : program.Regular) (h : Around program layout store body callers others)
    {s : Stmt} (hs : VisitsIn program layout env (.stmt s)) :
    (Thread.exec ⟨store, events⟩ body callers s env).Keeps (World.Scoped program) others := by
  have heval {e : Expr} {use : Use}
      (he : ∀ scopes, (.expr e, scopes) ∈ (Site.stmt s).visits scopes)
      (huse : use.Scoped program layout) : (Focus.eval e env [] use).Scoped program layout :=
    ⟨hs.part he, List.forall_mem_nil _, huse⟩
  unfold Thread.exec
  split
  next kind items span => exact h.goOn (scoped_declareItems _ hs.item)
  next kind idents init span => exact h.goOn (heval (by simp [Site.visits]) trivial)
  · exact h.goOn trivial
  next ident value span =>
    exact h.goOn (heval (by simp [Site.visits]) ⟨hs, ident, value, span, rfl, rfl⟩)
  next value span => exact h.goOn (heval (by simp [Site.visits]) trivial)
  next value span => exact h.goOn (heval (by simp [Site.visits]) trivial)
  · exact h.goOn trivial
  next value span => exact h.goOn (heval (by simp [Site.visits]) trivial)
  next =>
    split
    · exact ⟨layout, h.store, List.forall_mem_cons.2 ⟨⟨trivial, h.body, h.callers⟩, h.others⟩⟩
    next caller outer =>
      obtain ⟨hcaller, houter⟩ := List.forall_mem_cons.1 h.callers
      exact Around.raise { h with body := hcaller.body, callers := houter } _ trivial
  next value span => exact h.goOn (heval (by simp [Site.visits]) trivial)
  next value span => exact h.goOn (heval (by simp [Site.visits]) trivial)
  next stmts span =>
    obtain ⟨scopes, hscopes, hsite⟩ := hs
    have hvisits : ∀ s ∈ stmts, program.Visits (.stmt s) (.block stmts :: scopes) :=
      fun s hs ↦ hsite.inside (Scope.mem_visits.2 ⟨s, hs, rfl, rfl⟩)
    refine h.enterBody (.block stmts) hscopes .block ?_ (fun item hitem ↦ ?_) hvisits
    · rw [map_fst_flatMap_hoisted, Scope.idents_block]
    · obtain ⟨s, hs, hitem⟩ := List.mem_flatMap.1 hitem
      exact Stmt.scoped_hoisted (Layout.add_self _ _ _) (hvisits s hs) hitem
  next cond thenPart elsePart span =>
    have hthen : VisitsIn program layout env (.stmt (.block thenPart)) :=
      hs.part fun _ ↦ by simp [Site.visits]
    exact h.goOn (heval (by simp [Site.visits]) ⟨hthen, hs.elsePart hregular⟩)
  next cond block span =>
    have hcond : VisitsIn program layout env (.expr cond) := hs.part fun _ ↦ by simp [Site.visits]
    have hblock : VisitsIn program layout env (.stmt (.block block)) :=
      hs.part fun _ ↦ by simp [Site.visits]
    exact h.goOn (heval (by simp [Site.visits]) ⟨hcond, hblock⟩)
  next kind ident iterable block span =>
    have hblock : VisitsInside program layout env (.loop kind ident) (.stmt (.block block)) :=
      hs.inside (by simp [Site.opens]) fun _ ↦ by simp [Site.visits]
    exact h.goOn (heval (by simp [Site.visits]) hblock)
  next block ident handler span =>
    have hhandler : VisitsInside program layout env (.handler ident) (.stmt (.block handler)) :=
      hs.inside (by simp [Site.opens]) fun _ ↦ by simp [Site.visits]
    have hframe : (StmtFrame.handler ident handler env).Scoped program layout := hhandler
    have hblock : VisitsIn program layout env (.stmt (.block block)) :=
      hs.part fun _ ↦ by simp [Site.visits]
    exact (h.push hframe).goOn hblock

theorem advance (h : Around program layout store body callers others) :
    (Thread.advance ⟨store, events⟩ callers body).Keeps (World.Scoped program) others := by
  unfold Thread.advance
  split
  · have hundefined : (Focus.done .undefined).Scoped program layout := trivial
    exact h.goOn hundefined
  next env rest =>
    exact Around.goOn { h with body := (List.forall_mem_cons.1 h.body).2 } trivial
  next s rest env body =>
    obtain ⟨⟨scope, outer, henv, hsuffix, hvisits⟩, hbody⟩ := List.forall_mem_cons.1 h.body
    have hframe : (StmtFrame.sequence rest env).Scoped program layout :=
      ⟨scope, outer, henv, (List.suffix_cons s rest).trans hsuffix, hvisits⟩
    have hs : s ∈ scope.statements := hsuffix.subset List.mem_cons_self
    have hbody' := List.forall_mem_cons.2 ⟨hframe, hbody⟩
    exact Around.goOn { h with body := hbody' } ⟨_, henv, hvisits s hs⟩
  next cond block env body =>
    obtain ⟨hloop, hbody⟩ := List.forall_mem_cons.1 h.body
    exact Around.goOn { h with body := hbody } ⟨hloop.1, List.forall_mem_nil _, hloop⟩
  next kind ident block env items i body =>
    obtain ⟨⟨hvalue, scopes, hscopes, hopens, hvisits⟩, hbody⟩ := List.forall_mem_cons.1 h.body
    split
    · exact Around.goOn { h with body := hbody } trivial
    next v helement =>
      have hv : v.Scoped program layout := by
        obtain ⟨ref, hmem⟩ | hplain := Value.mem_or_isPlain_of_element? helement
        · exact h.store.element hmem
        · exact hplain.scoped
      have hextends := h.store.extends_add (.loop kind ident :: scopes)
      have hnames : [ident.name] = (Scope.loop kind ident).names := rfl
      have hstore := h.store.addName hscopes .iteration hnames
        fun w hw ↦ (Slot.isPlain_of_declared kind true hw).scoped
      have hrest : Around program _ _ body callers others :=
        Around.mono { h with body := hbody } hextends hstore
      have hframe : (StmtFrame.forLoop kind ident block env items (i + 1)).Scoped program
          (layout.add store.records.size (.loop kind ident :: scopes)) :=
        ⟨hvalue.mono hextends, scopes, hextends _ _ hscopes, hopens, hvisits⟩
      exact (hrest.push hframe).goOn
        ⟨hv.mono hextends, List.forall_mem_nil _, _, Layout.add_self _ _ _, hvisits⟩
  next ident block env body =>
    exact Around.goOn { h with body := (List.forall_mem_cons.1 h.body).2 } trivial

theorem enter (h : Around program layout store body callers others) {f : Function}
    {args : List Value} (hf : f.Scoped program layout)
    (hargs : ∀ v ∈ args, v.Scoped program layout) :
    (Thread.enter ⟨store, events⟩ body callers f args).Keeps (World.Scoped program) others := by
  unfold Thread.enter
  cases f with
  | closure code env =>
    obtain ⟨scopes, hscopes, hopens, hvisits⟩ := hf
    refine h.enterBody (.function code.params code.body) hscopes .function ?_
      (fun item hitem ↦ ?_) hvisits
    · rw [List.map_append, map_fst_parameters, map_fst_flatMap_hoisted, Scope.idents_function]
    · obtain hitem | hitem := List.mem_append.1 hitem
      · have hextends := h.store.extends_add (.function code.params code.body :: scopes)
        exact scoped_parameters (fun v hv ↦ (hargs v hv).mono hextends) hitem
      · obtain ⟨s, hs, hitem⟩ := List.mem_flatMap.1 hitem
        exact Stmt.scoped_hoisted (Layout.add_self _ _ _) (hvisits s hs) hitem
  | builtin builtin =>
    have happly := builtin.sound_apply store args
    dsimp only
    generalize builtin.apply store args = result at happly ⊢
    cases happly with
    | error hplain => exact h.stop _ hplain.scoped
    | @ok out hgood =>
      obtain ⟨v, added⟩ := out
      obtain ⟨hplain, hitems⟩ := hgood
      have hdone : (Focus.done v).Scoped program layout := hplain.scoped
      cases added with
      | none => exact h.goOn hdone
      | some added =>
        obtain ⟨ref, items⟩ := added
        have hadded : ∀ w ∈ items, w.Scoped program layout :=
          fun w hw ↦ hargs w (hitems ref items rfl hw)
        exact (h.setStore (h.store.extend hadded)).goOn hdone

theorem complete (h : Around program layout store body callers others) {v : Value}
    (hv : v.Scoped program layout) :
    (Thread.complete ⟨store, events⟩ v callers).Keeps (World.Scoped program) others := by
  unfold Thread.complete
  split
  · exact ⟨layout, h.store, h.others⟩
  next caller outer =>
    obtain ⟨hcaller, houter⟩ := List.forall_mem_cons.1 h.callers
    exact Around.goOn { h with body := hcaller.body, callers := houter }
      ⟨hv, hcaller.frames, hcaller.use⟩

end Around

/-- Every move keeps the agreement of records and scopes. -/
theorem scoped_move (hregular : program.Regular) {world : World} {thread : Thread}
    {others : List Thread} (h : World.Scoped program world (thread :: others)) :
    (thread.move world).Keeps (World.Scoped program) others := by
  obtain ⟨store, events⟩ := world
  obtain ⟨focus, body, callers⟩ := thread
  obtain ⟨layout, hstore, hthreads⟩ := h
  obtain ⟨⟨hfocus, hbody, hcallers⟩, hothers⟩ := List.forall_mem_cons.1 hthreads
  have h : Around program layout store body callers others := ⟨hstore, hbody, hcallers, hothers⟩
  unfold move
  cases focus with
  | enter f args => exact h.enter hfocus.1 hfocus.2
  | eval e env frames use => exact h.eval hfocus.1 hfocus.2.1 hfocus.2.2
  | value v frames use =>
    obtain ⟨hv, hframes, huse⟩ := hfocus
    cases frames with
    | nil => exact h.apply hv huse
    | cons frame frames =>
      obtain ⟨hframe, hframes⟩ := List.forall_mem_cons.1 hframes
      exact h.resume hv hframe hframes huse
  | exec s env => exact h.exec hregular hfocus
  | next => exact h.advance
  | done v => exact h.complete hfocus

end Thread

end LateConst
