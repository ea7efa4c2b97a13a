import LateConst.Machine.Thread
import LateConst.Proofs.Operator
import LateConst.Proofs.Scope
import LateConst.Proofs.Span.Tree
import LateConst.Run

/-!
# Records mirror scopes

A layout says for which scopes a record was made: the one whose names it holds and those around it,
as they are open when the static check visits what is executed in that record. `Store.Scoped` and
`Thread.Scoped` say that records, values and all that a thread has still to do agree with a layout.

A layout only grows. Records of scopes that could not be entered, because a name is declared twice
in them, are in no layout; nothing is ever executed in them.
-/

namespace LateConst

/-- For each record the scopes it was made for, the innermost first. The record of the built-in
functions is outside of all scopes. -/
abbrev Layout := RecordId → Option (List Scope)

def Layout.Extends (layout' layout : Layout) : Prop :=
  ∀ id scopes, layout id = some scopes → layout' id = some scopes

/-- The part after `else` is a block or another conditional, wherever there is one. -/
def Program.Regular (program : Program) : Prop :=
  ∀ site scopes, program.Visits site scopes → ∀ s ∈ site.elsePart?, s.CanBeElsePart

variable (program : Program) (layout : Layout)

/-- The node is visited while the scopes of the record are open. -/
def VisitsIn (env : RecordId) (site : Site) : Prop :=
  ∃ scopes, layout env = some scopes ∧ program.Visits site scopes

/-- The node is visited inside of one more scope than those of the record. -/
def VisitsInside (env : RecordId) (scope : Scope) (site : Site) : Prop :=
  ∃ scopes, layout env = some scopes ∧ program.Opens (scope :: scopes) ∧
    program.Visits site (scope :: scopes)

/-! ### Values -/

/-- The code of a function is visited inside of the scopes of the record that it was made in. -/
def Function.Scoped : Function → Prop
  | .builtin _ => True
  | .closure code env => ∃ scopes, layout env = some scopes ∧
      program.Opens (.function code.params code.body :: scopes) ∧
      ∀ s ∈ code.body, program.Visits (.stmt s) (.function code.params code.body :: scopes)

def Value.Scoped : Value → Prop
  | .function _ f => f.Scoped program layout
  | _ => True

/-- A thrown value may be a function; all other faults carry only texts. -/
def Fault.Scoped : Fault → Prop
  | .thrown v _ => v.Scoped program layout
  | _ => True

def Failure.Scoped : Failure → Prop
  | .fault cause => cause.Scoped program layout
  | .crash _ => True

/-! ### Records -/

structure Store.Scoped (store : Store) : Prop where
  global : layout globalRecord = some []
  global_record : ∃ record, store.records[globalRecord]? = some record ∧ record.outer = [] ∧
    record.names = Builtin.all.map Builtin.name
  eq_global : ∀ {id}, layout id = some [] → id = globalRecord
  record : ∀ {id scope outer}, layout id = some (scope :: outer) → ∃ record env,
    store.records[id]? = some record ∧ layout env = some outer ∧
      record.outer = store.chain env ∧ record.names = scope.names
  value : ∀ {id scopes record entry v}, layout id = some scopes →
    store.records[id]? = some record → entry ∈ record.entries →
    entry.slot.value? = some v → v.Scoped program layout
  element : ∀ {ref v}, v ∈ store.elements ref → v.Scoped program layout

/-! ### Threads -/

def ExprFrame.Scoped : ExprFrame → Prop
  | .typeOf => True
  | .unary _ _ => True
  | .binaryLeft _ _ rhs env => VisitsIn program layout env (.expr rhs)
  | .binaryRight _ _ lhs => lhs.Scoped program layout
  | .shortcut _ rhs env => VisitsIn program layout env (.expr rhs)
  | .callee _ args env => ∀ e ∈ args, VisitsIn program layout env (.expr e)
  | .argument _ f done rest env => f.Scoped program layout ∧
      (∀ v ∈ done, v.Scoped program layout) ∧ ∀ e ∈ rest, VisitsIn program layout env (.expr e)
  | .base _ e env => VisitsIn program layout env (.expr e)
  | .index _ v => v.Scoped program layout
  | .element done rest env => (∀ v ∈ done, v.Scoped program layout) ∧
      ∀ e ∈ rest, VisitsIn program layout env (.expr e)

def Use.Scoped : Use → Prop
  | .declare _ _ rest env =>
    ∀ item ∈ rest, ∀ e ∈ item.init, VisitsIn program layout env (.expr e)
  | .destructure _ _ _ => True
  | .assign stmt name env => VisitsIn program layout env (.stmt stmt) ∧
      ∃ ident value span, stmt = .assign ident value span ∧ name = ident.name
  | .discard => True
  | .print => True
  | .ret => True
  | .spawn _ => True
  | .throw _ => True
  | .branch thenPart elsePart env => VisitsIn program layout env (.stmt (.block thenPart)) ∧
      ∀ s ∈ elsePart, VisitsIn program layout env (.stmt s) ∧ s.CanBeElsePart
  | .repeatWhile cond body env => VisitsIn program layout env (.expr cond) ∧
      VisitsIn program layout env (.stmt (.block body))
  | .iterate _ kind ident body env =>
    VisitsInside program layout env (.loop kind ident) (.stmt (.block body))
  | .loopVariable _ body env => VisitsIn program layout env (.stmt (.block body))

def StmtFrame.Scoped : StmtFrame → Prop
  | .sequence rest env => ∃ scope outer, layout env = some (scope :: outer) ∧
      rest <:+ scope.statements ∧
      ∀ s ∈ scope.statements, program.Visits (.stmt s) (scope :: outer)
  | .whileLoop cond body env => VisitsIn program layout env (.expr cond) ∧
      VisitsIn program layout env (.stmt (.block body))
  | .forLoop kind ident body env items _ => items.Scoped program layout ∧
      VisitsInside program layout env (.loop kind ident) (.stmt (.block body))
  | .handler ident block env =>
    VisitsInside program layout env (.handler ident) (.stmt (.block block))

structure Caller.Scoped (caller : Caller) : Prop where
  frames : ∀ frame ∈ caller.frames, frame.Scoped program layout
  use : caller.use.Scoped program layout
  body : ∀ frame ∈ caller.body, frame.Scoped program layout

def Focus.Scoped : Focus → Prop
  | .enter f args => f.Scoped program layout ∧ ∀ v ∈ args, v.Scoped program layout
  | .eval e env frames use => VisitsIn program layout env (.expr e) ∧
      (∀ frame ∈ frames, frame.Scoped program layout) ∧ use.Scoped program layout
  | .value v frames use => v.Scoped program layout ∧
      (∀ frame ∈ frames, frame.Scoped program layout) ∧ use.Scoped program layout
  | .exec s env => VisitsIn program layout env (.stmt s)
  | .next => True
  | .done v => v.Scoped program layout

structure Thread.Scoped (thread : Thread) : Prop where
  focus : thread.focus.Scoped program layout
  body : ∀ frame ∈ thread.body, frame.Scoped program layout
  callers : ∀ caller ∈ thread.callers, caller.Scoped program layout

/-- A world and its threads agree with some layout. -/
def World.Scoped (world : World) (threads : List Thread) : Prop :=
  ∃ layout, world.store.Scoped program layout ∧ ∀ thread ∈ threads, thread.Scoped program layout

/-! ### Values that are no functions -/

variable {program layout}

theorem Value.IsPlain.scoped {v : Value} (h : v.IsPlain) : v.Scoped program layout := by
  cases v with
  | function ref f => exact h.elim
  | _ => trivial

theorem Failure.IsPlain.scoped {failure : Failure} (h : failure.IsPlain) :
    failure.Scoped program layout := by
  cases failure with
  | crash c => trivial
  | fault cause =>
    cases cause with
    | thrown v text => exact h.elim
    | _ => trivial

/-- A handler gets what was thrown, or an error. -/
theorem Fault.Scoped.caught {cause : Fault} (h : cause.Scoped program layout) (ref : Ref) :
    (cause.caught ref).Scoped program layout := by
  cases cause with
  | thrown v text => exact h
  | _ => trivial

/-! ### Growing layouts -/

variable {layout' : Layout} (h : layout'.Extends layout)
include h

theorem VisitsIn.mono {env : RecordId} {site : Site} (hvisits : VisitsIn program layout env site) :
    VisitsIn program layout' env site := by
  obtain ⟨scopes, hscopes, hsite⟩ := hvisits
  exact ⟨scopes, h _ _ hscopes, hsite⟩

theorem VisitsInside.mono {env : RecordId} {scope : Scope} {site : Site}
    (hvisits : VisitsInside program layout env scope site) :
    VisitsInside program layout' env scope site := by
  obtain ⟨scopes, hscopes, hsite⟩ := hvisits
  exact ⟨scopes, h _ _ hscopes, hsite⟩

theorem Function.Scoped.mono {f : Function} (hf : f.Scoped program layout) :
    f.Scoped program layout' := by
  cases f with
  | builtin b => trivial
  | closure code env =>
    obtain ⟨scopes, hscopes, hcode⟩ := hf
    exact ⟨scopes, h _ _ hscopes, hcode⟩

theorem Value.Scoped.mono {v : Value} (hv : v.Scoped program layout) :
    v.Scoped program layout' := by
  cases v with
  | function ref f => exact Function.Scoped.mono h hv
  | _ => trivial

theorem ExprFrame.Scoped.mono {frame : ExprFrame} (hframe : frame.Scoped program layout) :
    frame.Scoped program layout' := by
  cases frame with
  | typeOf | unary node op => trivial
  | binaryLeft node op rhs env => exact VisitsIn.mono h hframe
  | binaryRight node op lhs => exact Value.Scoped.mono h hframe
  | shortcut op rhs env => exact VisitsIn.mono h hframe
  | callee node args env => exact fun e he ↦ (hframe e he).mono h
  | argument node callee done rest env =>
    exact ⟨hframe.1.mono h, fun v hv ↦ (hframe.2.1 v hv).mono h,
      fun e he ↦ (hframe.2.2 e he).mono h⟩
  | base node index env => exact VisitsIn.mono h hframe
  | index node base => exact Value.Scoped.mono h hframe
  | element done rest env =>
    exact ⟨fun v hv ↦ (hframe.1 v hv).mono h, fun e he ↦ (hframe.2 e he).mono h⟩

theorem Use.Scoped.mono {use : Use} (huse : use.Scoped program layout) :
    use.Scoped program layout' := by
  cases use with
  | declare stmt name rest env => exact fun item hitem e he ↦ (huse item hitem e he).mono h
  | assign stmt name env => exact ⟨huse.1.mono h, huse.2⟩
  | branch thenPart elsePart env =>
    exact ⟨huse.1.mono h, fun s hs ↦ ⟨(huse.2 s hs).1.mono h, (huse.2 s hs).2⟩⟩
  | repeatWhile cond body env => exact ⟨huse.1.mono h, huse.2.mono h⟩
  | iterate stmt kind ident body env => exact VisitsInside.mono h huse
  | loopVariable name body env => exact VisitsIn.mono h huse
  | _ => trivial

theorem StmtFrame.Scoped.mono {frame : StmtFrame} (hframe : frame.Scoped program layout) :
    frame.Scoped program layout' := by
  cases frame with
  | sequence rest env =>
    obtain ⟨scope, outer, hscope, hrest⟩ := hframe
    exact ⟨scope, outer, h _ _ hscope, hrest⟩
  | whileLoop cond body env => exact ⟨hframe.1.mono h, hframe.2.mono h⟩
  | forLoop kind ident body env items next => exact ⟨hframe.1.mono h, hframe.2.mono h⟩
  | handler ident handler env => exact VisitsInside.mono h hframe

theorem Caller.Scoped.mono {caller : Caller} (hcaller : caller.Scoped program layout) :
    caller.Scoped program layout' where
  frames := fun frame hframe ↦ (hcaller.frames frame hframe).mono h
  use := hcaller.use.mono h
  body := fun frame hframe ↦ (hcaller.body frame hframe).mono h

theorem Focus.Scoped.mono {focus : Focus} (hfocus : focus.Scoped program layout) :
    focus.Scoped program layout' := by
  cases focus with
  | enter f args => exact ⟨hfocus.1.mono h, fun v hv ↦ (hfocus.2 v hv).mono h⟩
  | eval e env frames use =>
    exact ⟨hfocus.1.mono h, fun frame hframe ↦ (hfocus.2.1 frame hframe).mono h, hfocus.2.2.mono h⟩
  | value v frames use =>
    exact ⟨hfocus.1.mono h, fun frame hframe ↦ (hfocus.2.1 frame hframe).mono h, hfocus.2.2.mono h⟩
  | exec s env => exact VisitsIn.mono h hfocus
  | next => trivial
  | done v => exact Value.Scoped.mono h hfocus

theorem Thread.Scoped.mono {thread : Thread} (hthread : thread.Scoped program layout) :
    thread.Scoped program layout' where
  focus := hthread.focus.mono h
  body := fun frame hframe ↦ (hthread.body frame hframe).mono h
  callers := fun caller hcaller ↦ (hthread.callers caller hcaller).mono h

end LateConst
