import LateConst.Proofs.Scope.Place

/-!
# The walk of the static check

The static check complains of exactly what is to be found on the walk that `Program.Visits`
describes: of names declared again in the scopes that are opened on the way, and of every `return`
that is visited while no scope of a function is open.
-/

namespace LateConst

/-! ### Complaints in lists -/

theorem exprsComplaints_eq (es : List Expr) : exprsComplaints es = es.flatMap Expr.complaints := by
  induction es with
  | nil => rw [exprsComplaints, List.flatMap_nil]
  | cons e more ih => rw [exprsComplaints, ih, List.flatMap_cons]

theorem stmtsComplaints_eq (inFunction : Bool) (body : List Stmt) :
    stmtsComplaints inFunction body = body.flatMap (Stmt.complaints inFunction) := by
  induction body with
  | nil => rw [stmtsComplaints, List.flatMap_nil]
  | cons s more ih => rw [stmtsComplaints, ih, List.flatMap_cons]

theorem itemsComplaints_eq (items : List Declarator) :
    itemsComplaints items = (items.filterMap Declarator.init).flatMap Expr.complaints := by
  induction items with
  | nil => rw [itemsComplaints, List.filterMap_nil, List.flatMap_nil]
  | cons item more ih =>
    obtain ⟨ident, init⟩ := item
    cases init with
    | none =>
      rw [itemsComplaints, Declarator.complaints, ih, List.nil_append]
      rfl
    | some e =>
      rw [itemsComplaints, Declarator.complaints, ih]
      rfl

/-! ### Complaints at a node -/

namespace Scope

def isFunction : Scope → Bool
  | function _ _ => true
  | _ => false

def complaints (scope : Scope) : List Complaint := redeclarations [] scope.idents

end Scope

namespace Site

/-- What is wrong with a node itself while these scopes are open. -/
def strayReturns (scopes : List Scope) : Site → List Complaint
  | stmt (.ret _ span) => if scopes.any Scope.isFunction then [] else [.strayReturn span]
  | _ => []

def complaints (scopes : List Scope) : Site → List Complaint
  | ident _ => []
  | expr e => e.complaints
  | stmt s => s.complaints (scopes.any Scope.isFunction)

/-- What is wrong with a node and the scopes that it opens comes first, and then what is found at
the nodes that are visited from there. -/
theorem complaints_eq (site : Site) (scopes : List Scope) :
    site.complaints scopes = site.opens.flatMap Scope.complaints ++ site.strayReturns scopes ++
      (site.visits scopes).flatMap fun visit ↦ visit.1.complaints visit.2 := by
  cases site with
  | ident ident => rfl
  | expr e =>
    cases e <;>
      simp [complaints, opens, visits, strayReturns, Expr.complaints, exprsComplaints_eq,
        stmtsComplaints_eq, Scope.complaints, Scope.visits, Scope.statements, Scope.isFunction,
        scopeComplaints, List.flatMap_map]
  | stmt s =>
    have hblock (block : Block) (inFunction : Bool) : block.complaints inFunction =
        redeclarations [] (block.body.flatMap Stmt.declared) ++
          block.body.flatMap (Stmt.complaints inFunction) := by
      obtain ⟨body, span⟩ := block
      rw [Block.complaints, stmtsComplaints_eq]
      rfl
    cases s with
    | declare kind items span =>
      have hvisits : (stmt (.declare kind items span)).visits scopes =
          (items.filterMap Declarator.init).map fun e ↦ (.expr e, scopes) :=
        List.map_filterMap.symm
      rw [hvisits]
      simp [complaints, opens, strayReturns, Stmt.complaints, itemsComplaints_eq, List.flatMap_map]
    | ret value span =>
      cases value <;> simp [complaints, opens, visits, strayReturns, Stmt.complaints]
    | branch cond thenPart elsePart span =>
      cases elsePart <;> simp [complaints, opens, visits, strayReturns, Stmt.complaints]
    | _ =>
      simp [complaints, opens, visits, strayReturns, Stmt.complaints, hblock, stmtsComplaints_eq,
        Scope.complaints, Scope.visits, Scope.statements, Scope.isFunction, scopeComplaints,
        redeclarations, List.flatMap_map]

end Site

namespace Program

variable {text : List Char} {program : Program} {site : Site} {scopes : List Scope}
  {complaint : Complaint}

/-- The complaint is about a scope that is opened on the walk, or about a `return` that is visited
while no function is open. -/
def Blames (program : Program) (complaint : Complaint) : Prop :=
  (∃ scope outer, program.Opens (scope :: outer) ∧ complaint ∈ scope.complaints) ∨
    ∃ site scopes, program.Visits site scopes ∧ complaint ∈ site.strayReturns scopes

theorem blames_of_wellFormed (hwf : site.WellFormed) (hsite : program.Visits site scopes)
    (h : complaint ∈ site.complaints scopes) : program.Blames complaint := by
  induction hwf generalizing scopes with
  | intro hpos hwithin hstrict helse hinside ih =>
    rw [Site.complaints_eq, List.mem_append, List.mem_append, List.mem_flatMap,
      List.mem_flatMap] at h
    obtain (⟨scope, hscope, h⟩ | h) | ⟨visit, hvisit, h⟩ := h
    · exact .inl ⟨scope, scopes, .inside hsite hscope, h⟩
    · exact .inr ⟨_, scopes, hsite, h⟩
    · exact ih scopes visit hvisit (hsite.inside hvisit) h

theorem Visits.complaints_subset (h : program.Visits site scopes) :
    site.complaints scopes ⊆ program.complaints := by
  induction h with
  | top hs =>
    rw [complaints, stmtsComplaints_eq]
    intro complaint hcomplaint
    exact List.mem_append_right _ (List.mem_flatMap.2 ⟨_, hs, hcomplaint⟩)
  | @inside site inner scopes more _ hinner ih =>
    refine List.Subset.trans (fun complaint hcomplaint ↦ ?_) ih
    rw [Site.complaints_eq]
    exact List.mem_append_right _ (List.mem_flatMap.2 ⟨(inner, more), hinner, hcomplaint⟩)

/-- The static check complains of what is to be found on the walk, and of nothing else. -/
theorem mem_complaints_iff (hread : Program.read text = .program program) :
    complaint ∈ program.complaints ↔ program.Blames complaint := by
  constructor
  · intro h
    rw [complaints, stmtsComplaints_eq] at h
    obtain h | h := List.mem_append.1 h
    · refine .inl ⟨.block program, [], .top, ?_⟩
      rw [Scope.complaints, Scope.idents_block]
      exact h
    · obtain ⟨s, hs, h⟩ := List.mem_flatMap.1 h
      have hsite : program.Visits (.stmt s) [.block program] := .top hs
      exact blames_of_wellFormed (hsite.wellFormed hread) hsite h
  · rintro (⟨scope, outer, hopens, h⟩ | ⟨site, scopes, hsite, h⟩)
    · cases hopens with
      | top =>
        rw [Scope.complaints, Scope.idents_block] at h
        exact List.mem_append_left _ h
      | @inside site _ _ hsite hscope =>
        apply hsite.complaints_subset
        rw [Site.complaints_eq, List.append_assoc]
        exact List.mem_append_left _ (List.mem_flatMap.2 ⟨scope, hscope, h⟩)
    · apply hsite.complaints_subset
      rw [Site.complaints_eq]
      exact List.mem_append_left _ (List.mem_append_right _ h)

end Program

end LateConst
