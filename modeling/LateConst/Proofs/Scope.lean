import LateConst.Complaint

/-!
# The scopes of a program

The walk over a program that the static check makes, as a relation: `Program.Visits` says which
scopes are open when a node is visited, the innermost first. A scope is known by the part of the
program that opens it, and `Scope.declared` lists its names in the order of their declaration.
-/

namespace LateConst

/-- By what a scope has a name. -/
inductive Role where
  | parameter
  | function
  | mutable
  | constant (hasInitializer : Bool)
  | caught
  deriving DecidableEq

def Role.ofKind (hasInitializer : Bool) : Kind → Role
  | .constant => constant hasInitializer
  | .mutable => mutable

def Stmt.roles : Stmt → List (Ident × Role)
  | .declare kind items _ => items.map fun item ↦ (item.ident, .ofKind item.init.isSome kind)
  | .destructure kind idents _ _ => idents.map fun ident ↦ (ident, .ofKind true kind)
  | .function ident _ _ _ => [(ident, .function)]
  | _ => []

/-- A scope, by the part of the program that opens it. -/
inductive Scope where
  /-- The scope of a program or of a block. -/
  | block (body : List Stmt)
  | function (params : List Ident) (body : List Stmt)
  | loop (kind : Kind) (ident : Ident)
  | handler (ident : Ident)

namespace Scope

def statements : Scope → List Stmt
  | block body => body
  | function _ body => body
  | _ => []

def declared : Scope → List (Ident × Role)
  | block body => body.flatMap Stmt.roles
  | function params body =>
    params.map (fun ident ↦ (ident, Role.parameter)) ++ body.flatMap Stmt.roles
  | loop kind ident => [(ident, .ofKind true kind)]
  | handler ident => [(ident, .caught)]

def idents (scope : Scope) : List Ident := scope.declared.map Prod.fst

def names (scope : Scope) : List String := scope.idents.map Ident.name

end Scope

/-- A node with the scopes that are open where it stands, the innermost first. -/
abbrev Visit := Site × List Scope

/-- The statements of a scope inside of others. -/
def Scope.visits (scope : Scope) (outer : List Scope) : List Visit :=
  scope.statements.map fun s ↦ (.stmt s, scope :: outer)

def Site.opens : Site → List Scope
  | .expr (.function params body _) => [.function params body]
  | .stmt (.function _ params body _) => [.function params body]
  | .stmt (.block block) => [.block block.body]
  | .stmt (.forOf kind x _ _ _) => [.loop kind x]
  | .stmt (.tryCatch _ x _ _) => [.handler x]
  | _ => []

/-- The nodes right inside of a node, in the order in which they are visited, with the scopes open
there. -/
def Site.visits (scopes : List Scope) : Site → List Visit
  | .ident _ => []
  | .expr e =>
    let expr (e : Expr) : Visit := (.expr e, scopes)
    match e with
    | .literal _ _ | .lookup _ => []
    | .typeOf arg _ | .unary _ arg _ => [expr arg]
    | .binary lhs _ rhs _ | .shortcut lhs _ rhs _ => [expr lhs, expr rhs]
    | .call callee args _ => expr callee :: args.map expr
    | .index base index _ => [expr base, expr index]
    | .array elements _ => elements.map expr
    | .function params body _ => (Scope.function params body).visits scopes
  | .stmt s =>
    let expr (e : Expr) : Visit := (.expr e, scopes)
    let block (block : Block) : Visit := (.stmt (.block block), scopes)
    match s with
    | .declare _ items _ => items.filterMap fun item ↦ item.init.map expr
    | .destructure _ _ init _ => [expr init]
    | .function _ params body _ => (Scope.function params body).visits scopes
    | .assign _ value _ | .expr value _ | .print value _ | .spawn value _ | .throw value _ =>
      [expr value]
    | .ret value _ => value.toList.map expr
    | .pause _ => []
    | .block block => (Scope.block block.body).visits scopes
    | .branch cond thenPart elsePart _ =>
      expr cond :: block thenPart :: elsePart.toList.map fun s ↦ (.stmt s, scopes)
    | .whileLoop cond body _ => [expr cond, block body]
    | .forOf kind x iterable body _ =>
      [expr iterable, (.stmt (.block body), Scope.loop kind x :: scopes)]
    | .tryCatch body x handler _ =>
      [block body, (.stmt (.block handler), Scope.handler x :: scopes)]

/-- The static check visits the node while these scopes are open. -/
inductive Program.Visits (program : Program) : Site → List Scope → Prop
  | top {s : Stmt} (h : s ∈ program) : Visits program (.stmt s) [.block program]
  | inside {site inner : Site} {scopes more : List Scope} (h : Visits program site scopes)
      (hinner : (inner, more) ∈ site.visits scopes) : Visits program inner more

/-- The static check opens the innermost of these scopes inside the others. -/
inductive Program.Opens (program : Program) : List Scope → Prop
  | top : Opens program [.block program]
  | inside {site : Site} {scope : Scope} {scopes : List Scope}
      (h : program.Visits site scopes) (hscope : scope ∈ site.opens) :
      Opens program (scope :: scopes)

/-! ### Names and statements of scopes -/

theorem Stmt.map_fst_roles (s : Stmt) : s.roles.map Prod.fst = s.declared := by
  cases s <;> simp [roles, declared, Function.comp_def]

theorem map_fst_flatMap_roles (body : List Stmt) :
    (body.flatMap Stmt.roles).map Prod.fst = body.flatMap Stmt.declared := by
  simp [List.map_flatMap, Stmt.map_fst_roles]

namespace Scope

@[simp]
theorem idents_block (body : List Stmt) : (block body).idents = body.flatMap Stmt.declared :=
  map_fst_flatMap_roles body

@[simp]
theorem idents_function (params : List Ident) (body : List Stmt) :
    (function params body).idents = params ++ body.flatMap Stmt.declared := by
  simp [idents, declared, map_fst_flatMap_roles, Function.comp_def]

@[simp]
theorem idents_loop (kind : Kind) (ident : Ident) : (loop kind ident).idents = [ident] := rfl

@[simp]
theorem idents_handler (ident : Ident) : (handler ident).idents = [ident] := rfl

theorem mem_visits {scope : Scope} {outer scopes : List Scope} {site : Site} :
    (site, scopes) ∈ scope.visits outer ↔
      ∃ s ∈ scope.statements, site = .stmt s ∧ scopes = scope :: outer := by
  simp only [visits, List.mem_map, Prod.mk.injEq]
  constructor
  · rintro ⟨s, hs, rfl, rfl⟩
    exact ⟨s, hs, rfl, rfl⟩
  · rintro ⟨s, hs, rfl, rfl⟩
    exact ⟨s, hs, rfl, rfl⟩

end Scope

/-- A node that opens a scope visits the statements of the scope, if there are any, and nothing
else. -/
theorem Site.visits_of_opens {site : Site} {scope : Scope} (h : scope ∈ site.opens)
    (outer : List Scope) : scope.statements = [] ∨ site.visits outer = scope.visits outer := by
  unfold opens at h
  split at h
  · cases List.mem_singleton.1 h
    exact .inr rfl
  · cases List.mem_singleton.1 h
    exact .inr rfl
  · cases List.mem_singleton.1 h
    exact .inr rfl
  · cases List.mem_singleton.1 h
    exact .inl rfl
  · cases List.mem_singleton.1 h
    exact .inl rfl
  · cases h

/-- The statements of a scope are visited inside of it. -/
theorem Program.Opens.visits {program : Program} {scope : Scope} {outer : List Scope}
    (h : program.Opens (scope :: outer)) {s : Stmt} (hs : s ∈ scope.statements) :
    program.Visits (.stmt s) (scope :: outer) := by
  cases h with
  | top => exact .top hs
  | inside hsite hscope =>
    refine hsite.inside ?_
    obtain hnone | hvisits := Site.visits_of_opens hscope outer
    · rw [hnone] at hs
      cases hs
    · rw [hvisits]
      exact Scope.mem_visits.2 ⟨s, hs, rfl, rfl⟩

end LateConst
