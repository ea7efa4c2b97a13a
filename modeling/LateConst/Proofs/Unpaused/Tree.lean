import LateConst.Machine.Hoisting

/-!
# Programs without pauses

`Program.unpaused` is a program without the `pause`s that stand outside of all functions, at any
depth of blocks, conditionals, loops, `try`s and handlers. Nothing else of the tree is changed: all
spans stay, and every scope declares the names that it has declared before.
-/

namespace LateConst

mutual

/-- The statement without the `pause`s inside of it, if it is not a `pause` itself. Those in the
bodies of functions are left. -/
def Stmt.unpaused? : Stmt → Option Stmt
  | .pause _ => none
  | .block body => some (.block body.unpaused)
  | .branch cond thenPart elsePart span =>
    some (.branch cond thenPart.unpaused (elseUnpaused elsePart) span)
  | .whileLoop cond body span => some (.whileLoop cond body.unpaused span)
  | .forOf kind ident iterable body span => some (.forOf kind ident iterable body.unpaused span)
  | .tryCatch body ident handler span => some (.tryCatch body.unpaused ident handler.unpaused span)
  | s => some s

def elseUnpaused : Option Stmt → Option Stmt
  | none => none
  | some s => s.unpaused?

def stmtsUnpaused : List Stmt → List Stmt
  | [] => []
  | s :: more => s.unpaused?.toList ++ stmtsUnpaused more

def Block.unpaused : Block → Block
  | .mk body span => .mk (stmtsUnpaused body) span

end

def Program.unpaused (program : Program) : Program := stmtsUnpaused program

def Site.unpaused : Site → Site
  | .stmt s => .stmt (s.unpaused?.getD s)
  | site => site

/-! ### Statement by statement -/

theorem stmtsUnpaused_eq (body : List Stmt) :
    stmtsUnpaused body = body.filterMap Stmt.unpaused? := by
  induction body with
  | nil => rfl
  | cons s more ih =>
    rw [stmtsUnpaused, ih, List.filterMap_cons]
    cases s.unpaused? <;> rfl

theorem elseUnpaused_eq (elsePart : Option Stmt) :
    elseUnpaused elsePart = elsePart.bind Stmt.unpaused? := by
  cases elsePart <;> rfl

def Block.edited (f : Stmt → Option Stmt) : Block → Block
  | .mk body span => .mk (body.filterMap f) span

/-- A statement with other statements, or fewer, directly inside of it. -/
def Stmt.edited (f : Stmt → Option Stmt) : Stmt → Stmt
  | .block body => .block (body.edited f)
  | .branch cond thenPart elsePart span =>
    .branch cond (thenPart.edited f) (elsePart.bind f) span
  | .whileLoop cond body span => .whileLoop cond (body.edited f) span
  | .forOf kind ident iterable body span => .forOf kind ident iterable (body.edited f) span
  | .tryCatch body ident handler span => .tryCatch (body.edited f) ident (handler.edited f) span
  | s => s

/-- A way to leave out `pause`s, at all depths. -/
structure Edits (f : Stmt → Option Stmt) : Prop where
  eq_edited_or_pause : ∀ s, f s = some (s.edited f) ∨ f s = none ∧ ∃ span, s = .pause span

theorem Edits.eq_edited {f : Stmt → Option Stmt} (h : Edits f) {s : Stmt}
    (hs : ∀ span, s ≠ .pause span) : f s = some (s.edited f) := by
  obtain heq | ⟨-, span, hpause⟩ := h.eq_edited_or_pause s
  · exact heq
  · exact (hs span hpause).elim

theorem Block.unpaused_eq (block : Block) : block.unpaused = block.edited Stmt.unpaused? := by
  obtain ⟨body, span⟩ := block
  rw [unpaused, edited, stmtsUnpaused_eq]

/-- To leave out all `pause`s. -/
theorem edits_unpaused? : Edits Stmt.unpaused? where
  eq_edited_or_pause s := by
    cases s with
    | pause span => exact .inr ⟨rfl, span, rfl⟩
    | _ => simp [Stmt.unpaused?, Stmt.edited, Block.unpaused_eq, elseUnpaused_eq]

theorem Block.edited_some (block : Block) : block.edited some = block := by
  obtain ⟨body, span⟩ := block
  rw [edited, List.filterMap_some]

@[simp]
theorem Stmt.edited_some (s : Stmt) : s.edited some = s := by
  cases s <;> simp [edited, Block.edited_some]

/-- To leave out none. -/
theorem edits_some : Edits some where
  eq_edited_or_pause s := .inl (by rw [Stmt.edited_some])

@[simp]
theorem Stmt.span_edited (f : Stmt → Option Stmt) (s : Stmt) : (s.edited f).span = s.span := by
  cases s with
  | block block => cases block; rfl
  | _ => rfl

@[simp]
theorem Stmt.hoisted_edited (f : Stmt → Option Stmt) (s : Stmt) :
    (s.edited f).hoisted = s.hoisted := by
  cases s <;> rfl

theorem Site.unpaused_stmt (s : Stmt) :
    Site.unpaused (.stmt s) = .stmt (s.edited Stmt.unpaused?) := by
  obtain heq | ⟨heq, span, rfl⟩ := edits_unpaused?.eq_edited_or_pause s
  · rw [unpaused, heq, Option.getD_some]
  · rfl

/-- A node without pauses stands where it has stood. -/
@[simp]
theorem Site.span_unpaused (site : Site) : site.unpaused.span = site.span := by
  cases site with
  | stmt s => rw [unpaused_stmt, span, span, Stmt.span_edited]
  | _ => rfl

/-- The names of a scope are declared as before. -/
theorem Edits.flatMap_hoisted {f : Stmt → Option Stmt} (h : Edits f) (body : List Stmt) :
    (body.filterMap f).flatMap Stmt.hoisted = body.flatMap Stmt.hoisted := by
  induction body with
  | nil => rfl
  | cons s more ih =>
    obtain heq | ⟨heq, span, rfl⟩ := h.eq_edited_or_pause s
    · rw [List.filterMap_cons_some heq, List.flatMap_cons, List.flatMap_cons, ih,
        Stmt.hoisted_edited]
    · rw [List.filterMap_cons_none heq, ih]
      rfl

theorem Edits.hoistBody {f : Stmt → Option Stmt} (h : Edits f) (store : Store) (id : RecordId)
    (body : List Stmt) : store.hoistBody id (body.filterMap f) = store.hoistBody id body := by
  rw [Store.hoistBody, Store.hoistBody, h.flatMap_hoisted]

end LateConst
