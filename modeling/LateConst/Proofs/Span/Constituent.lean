import LateConst.Proofs.Span.Parts

/-!
# Constituents of a program

A constituent is a node, a name, a name with its initial value in a declaration, or the code of a
function. `Constituent.children` lists what a constituent is made of. In a program that has been
read the children of every constituent stand one after another within its span
(`Program.HasConstituent.nested`).
-/

namespace LateConst

inductive Constituent where
  /-- A node or a name. -/
  | node (site : Site)
  | item (declarator : Declarator)
  | code (subroutine : Subroutine)

namespace Constituent

def name (ident : Ident) : Constituent := node (.ident ident)

def expr (e : Expr) : Constituent := node (.expr e)

def stmt (s : Stmt) : Constituent := node (.stmt s)

def block (b : Block) : Constituent := node (.stmt (.block b))

def span : Constituent → Span
  | node site => site.span
  | item d => d.span
  | code c => c.span

/-- What a constituent is made of, in the order of the text. The name, the parameters and the
statements of a function belong to its code. -/
def children : Constituent → List Constituent
  | node (.ident _) => []
  | node (.expr e) =>
    match e with
    | .literal _ _ => []
    | .lookup x => [name x]
    | .typeOf arg _ | .unary _ arg _ => [expr arg]
    | .binary lhs _ rhs _ | .shortcut lhs _ rhs _ => [expr lhs, expr rhs]
    | .call callee args _ => expr callee :: args.map expr
    | .index base index _ => [expr base, expr index]
    | .array elements _ => elements.map expr
    | .function params body span => [code ⟨none, params, body, span⟩]
  | node (.stmt s) =>
    match s with
    | .declare _ items _ => items.map item
    | .destructure _ idents init _ => idents.map name ++ [expr init]
    | .function x params body span => [code ⟨some x, params, body, span⟩]
    | .assign x value _ => [name x, expr value]
    | .expr value _ | .print value _ | .spawn value _ | .throw value _ => [expr value]
    | .ret value _ => value.toList.map expr
    | .pause _ => []
    | .block b => b.body.map stmt
    | .branch cond thenPart elsePart _ =>
      [expr cond, block thenPart] ++ elsePart.toList.map stmt
    | .whileLoop cond body _ => [expr cond, block body]
    | .forOf _ x iterable body _ => [name x, expr iterable, block body]
    | .tryCatch body x handler _ => [block body, name x, block handler]
  | item d => name d.ident :: d.init.toList.map expr
  | code c => c.ident.toList.map name ++ c.params.map name ++ c.body.map stmt

end Constituent

/-- The constituent is a statement of the program or somewhere inside of one. -/
inductive Program.HasConstituent (program : Program) : Constituent → Prop
  | top {s : Stmt} (h : s ∈ program) : HasConstituent program (.stmt s)
  | inside {c child : Constituent} (h : HasConstituent program c) (hchild : child ∈ c.children) :
      HasConstituent program child

/-! ### Nesting -/

namespace Constituent

variable {c child : Constituent} {lo hi : Nat}

/-- The nodes and names that a constituent consists of if it is no node itself. -/
def sites : Constituent → List Site
  | node site => [site]
  | item d => .ident d.ident :: d.init.toList.map .expr
  | code c => c.ident.toList.map .ident ++ c.params.map .ident ++ c.body.map .stmt

@[simp]
theorem sites_name (x : Ident) : (name x).sites = [.ident x] := rfl

@[simp]
theorem sites_expr (e : Expr) : (expr e).sites = [.expr e] := rfl

@[simp]
theorem sites_stmt (s : Stmt) : (stmt s).sites = [.stmt s] := rfl

@[simp]
theorem sites_block (b : Block) : (block b).sites = [.stmt (.block b)] := rfl

@[simp]
theorem sites_item (d : Declarator) :
    (item d).sites = .ident d.ident :: d.init.toList.map .expr := rfl

@[simp]
theorem sites_code (c : Subroutine) : (code c).sites =
    c.ident.toList.map .ident ++ c.params.map .ident ++ c.body.map .stmt := rfl

theorem flatMap_sites_node (site : Site) : (node site).children.flatMap sites = site.parts := by
  cases site with
  | ident x => rfl
  | expr e => cases e <;> simp [children, Site.parts, List.flatMap_map, ← List.map_eq_flatMap]
  | stmt s => cases s <;> simp [children, Site.parts, List.flatMap_map, ← List.map_eq_flatMap]

theorem flatMap_sites_item (d : Declarator) :
    (item d).children.flatMap sites = (item d).sites := by
  simp [children, List.flatMap_map, ← List.map_eq_flatMap]

theorem flatMap_sites_code (c : Subroutine) :
    (code c).children.flatMap sites = (code c).sites := by
  simp [children, List.flatMap_map, ← List.map_eq_flatMap]

/-- The children of a constituent are in order, as far as nodes and names can tell. -/
structure Nested (c : Constituent) : Prop where
  pos : c.span.left < c.span.right
  between : Span.Between c.span.left c.span.right ((c.children.flatMap sites).map Site.span)
  ordered : ∀ site ∈ c.children.flatMap sites, site.Ordered

theorem nested_node {site : Site} (h : site.Ordered) : (node site).Nested := by
  obtain ⟨hpos, hparts, hinside⟩ := h
  refine ⟨hpos, ?_, ?_⟩
  · rw [flatMap_sites_node]
    exact hparts
  · rw [flatMap_sites_node]
    exact hinside

/-- A name with its initial value takes just the stretch from the one to the other. -/
theorem between_item {d : Declarator} (h : Span.Between lo hi ((item d).sites.map Site.span)) :
    Span.Between lo hi [(item d).span] ∧
      Span.Between (item d).span.left (item d).span.right ((item d).sites.map Site.span) := by
  obtain ⟨x, init⟩ := d
  cases init with
  | none =>
    obtain ⟨hlo, hpos, hhi⟩ := h
    exact ⟨⟨hlo, hpos, hhi⟩, Nat.le_refl _, hpos, Nat.le_refl _⟩
  | some e =>
    obtain ⟨hlo, hname, hmid, hvalue, hhi⟩ := h
    have hpos : x.span.left < e.span.right := by
      change x.span.left < x.span.right at hname
      change x.span.right ≤ e.span.left at hmid
      change e.span.left < e.span.right at hvalue
      omega
    exact ⟨⟨hlo, hpos, hhi⟩, Nat.le_refl _, hname, hmid, hvalue, Nat.le_refl _⟩

theorem nested_item {d : Declarator} (h : Span.Between lo hi ((item d).sites.map Site.span))
    (hordered : ∀ site ∈ (item d).sites, site.Ordered) : (item d).Nested := by
  obtain ⟨⟨-, hpos, -⟩, hbetween⟩ := between_item h
  refine ⟨hpos, ?_, ?_⟩
  · rwa [flatMap_sites_item]
  · rwa [flatMap_sites_item]

/-- Whether a constituent is the code of a function, which begins before its nodes and names. -/
def IsCode : Constituent → Prop
  | code _ => True
  | _ => False

theorem not_isCode_name (x : Ident) : ¬ (name x).IsCode := id

theorem not_isCode_expr (e : Expr) : ¬ (expr e).IsCode := id

theorem not_isCode_stmt (s : Stmt) : ¬ (stmt s).IsCode := id

theorem not_isCode_block (b : Block) : ¬ (block b).IsCode := id

theorem not_isCode_item (d : Declarator) : ¬ (item d).IsCode := id

/-- The code of a function is the only child of a node that spans the same. -/
theorem children_cases (c : Constituent) :
    (∃ subroutine, c.children = [code subroutine] ∧ c.span = subroutine.span) ∨
      ∀ child ∈ c.children, ¬ child.IsCode := by
  cases c with
  | node site =>
    cases site with
    | ident x => exact .inr (by simp [children])
    | expr e =>
      cases e with
      | function params body span => exact .inl ⟨_, rfl, rfl⟩
      | _ => exact .inr (by simp [children, not_isCode_name, not_isCode_expr])
    | stmt s =>
      cases s with
      | function x params body span => exact .inl ⟨_, rfl, rfl⟩
      | _ =>
        refine .inr ?_
        simp [children, or_imp, forall_and, not_isCode_name, not_isCode_expr, not_isCode_stmt,
          not_isCode_block, not_isCode_item]
  | item d => exact .inr (by simp [children, not_isCode_name, not_isCode_expr])
  | code c =>
    refine .inr ?_
    simp [children, or_imp, forall_and, not_isCode_name, not_isCode_stmt]

/-- Constituents that are in order as far as their nodes and names can tell are in order. -/
theorem between_of_sites {cs : List Constituent} (hcs : ∀ c ∈ cs, ¬ c.IsCode)
    (h : Span.Between lo hi ((cs.flatMap sites).map Site.span))
    (hordered : ∀ site ∈ cs.flatMap sites, site.Ordered) :
    Span.Between lo hi (cs.map span) ∧ ∀ c ∈ cs, c.Nested := by
  induction cs generalizing lo with
  | nil => exact ⟨h, fun c hc ↦ by cases hc⟩
  | cons c more ih =>
    rw [List.flatMap_cons, List.map_append, Span.between_append] at h
    obtain ⟨mid, hfirst, hmore⟩ := h
    obtain ⟨hrest, hnestedRest⟩ := ih (fun d hd ↦ hcs d (List.mem_cons_of_mem _ hd)) hmore
      fun site hsite ↦ hordered site (List.mem_append_right _ hsite)
    have horderedFirst : ∀ site ∈ c.sites, site.Ordered := fun site hsite ↦
      hordered site (List.mem_append_left _ hsite)
    obtain ⟨hspan, hnested⟩ : Span.Between lo mid [c.span] ∧ c.Nested := by
      cases c with
      | node site => exact ⟨hfirst, nested_node (horderedFirst site List.mem_cons_self)⟩
      | item d => exact ⟨(between_item hfirst).1, nested_item hfirst horderedFirst⟩
      | code c => exact (hcs _ List.mem_cons_self trivial).elim
    refine ⟨?_, List.forall_mem_cons.2 ⟨hnested, hnestedRest⟩⟩
    rw [List.map_cons, ← List.singleton_append, Span.between_append]
    exact ⟨mid, hspan, hrest⟩

/-- The children of a constituent stand one after another within its span, and so do theirs. -/
theorem Nested.children (h : c.Nested) :
    Span.Between c.span.left c.span.right (c.children.map span) ∧
      ∀ child ∈ c.children, child.Nested := by
  obtain ⟨hpos, hbetween, hordered⟩ := h
  obtain ⟨subroutine, hchildren, hspan⟩ | hcode := c.children_cases
  · rw [hchildren] at hbetween hordered ⊢
    rw [List.flatMap_singleton] at hbetween hordered
    rw [hspan] at hbetween hpos ⊢
    refine ⟨⟨Nat.le_refl _, hpos, Nat.le_refl _⟩, List.forall_mem_singleton.2 ⟨hpos, ?_, ?_⟩⟩
    · rwa [flatMap_sites_code]
    · rwa [flatMap_sites_code]
  · exact between_of_sites hcode hbetween hordered

end Constituent

/-- All constituents of a program that has been read are nested. -/
theorem Program.HasConstituent.nested {text : List Char} {program : Program} {c : Constituent}
    (hread : Program.read text = .program program) (h : program.HasConstituent c) : c.Nested := by
  induction h with
  | top hs => exact Constituent.nested_node ((between_of_read hread).2 _ hs)
  | inside _ hchild ih => exact ih.children.2 _ hchild

end LateConst
