import LateConst.Proofs.Span.Tree

/-!
# Names among the parts of a node

`Site.parts` lists what a node is made of in the order of the text: the nodes right inside of it
and the identifiers that belong to it. In a program that has been read the parts of every node
stand one after another within its span (`Program.ordered_of_read`), so that no two identifiers of
a program stand in the same place.
-/

namespace LateConst

namespace Site

/-- The nodes right inside of a node and its own identifiers, in the order of the text. -/
def parts : Site → List Site
  | .ident _ => []
  | .expr e =>
    match e with
    | .literal _ _ => []
    | .lookup x => [.ident x]
    | .typeOf arg _ | .unary _ arg _ => [.expr arg]
    | .binary lhs _ rhs _ | .shortcut lhs _ rhs _ => [.expr lhs, .expr rhs]
    | .call callee args _ => .expr callee :: args.map .expr
    | .index base index _ => [.expr base, .expr index]
    | .array elements _ => elements.map .expr
    | .function params body _ => params.map .ident ++ body.map .stmt
  | .stmt s =>
    match s with
    | .declare _ items _ =>
      items.flatMap fun item ↦ .ident item.ident :: item.init.toList.map .expr
    | .destructure _ idents init _ => idents.map .ident ++ [.expr init]
    | .function x params body _ => .ident x :: params.map .ident ++ body.map .stmt
    | .assign x value _ => [.ident x, .expr value]
    | .expr value _ | .print value _ | .spawn value _ | .throw value _ => [.expr value]
    | .ret value _ => value.toList.map .expr
    | .pause _ => []
    | .block block => block.body.map .stmt
    | .branch cond thenPart elsePart _ =>
      [.expr cond, .stmt (.block thenPart)] ++ elsePart.toList.map .stmt
    | .whileLoop cond body _ => [.expr cond, .stmt (.block body)]
    | .forOf _ x iterable body _ => [.ident x, .expr iterable, .stmt (.block body)]
    | .tryCatch body x handler _ => [.stmt (.block body), .ident x, .stmt (.block handler)]

/-- What is visited inside of a node is a part of it. -/
theorem mem_parts_of_mem_visits {site : Site} {scopes : List Scope} {visit : Visit}
    (h : visit ∈ site.visits scopes) : visit.1 ∈ site.parts := by
  cases site with
  | ident x => cases h
  | expr e =>
    cases e <;> simp only [visits, List.mem_cons, List.mem_map, List.not_mem_nil, or_false,
      Scope.visits, Scope.statements] at h <;> grind [parts]
  | stmt s =>
    cases s with
    | declare kind items span =>
      obtain ⟨item, hitem, hinit⟩ := List.mem_filterMap.1 h
      obtain ⟨e, he, rfl⟩ := Option.map_eq_some_iff.1 hinit
      exact List.mem_flatMap.2 ⟨item, hitem, by simp [he]⟩
    | _ =>
      simp only [visits, List.mem_cons, List.mem_map, List.not_mem_nil, or_false, Scope.visits,
        Scope.statements] at h <;> grind [parts]

theorem ne_ident_of_mem_visits {site : Site} {scopes : List Scope} {visit : Visit} {ident : Ident}
    (h : visit ∈ site.visits scopes) : visit.1 ≠ .ident ident := by
  cases site with
  | ident x => cases h
  | expr e =>
    cases e <;> simp only [visits, List.mem_cons, List.mem_map, List.not_mem_nil, or_false,
      Scope.visits, Scope.statements] at h <;> grind
  | stmt s =>
    cases s with
    | declare kind items span =>
      obtain ⟨item, -, hinit⟩ := List.mem_filterMap.1 h
      obtain ⟨e, -, rfl⟩ := Option.map_eq_some_iff.1 hinit
      simp
    | _ =>
      simp only [visits, List.mem_cons, List.mem_map, List.not_mem_nil, or_false, Scope.visits,
        Scope.statements] at h <;> grind

/-- The parts of a node, and those of its parts and so on, are in the order of the text. -/
inductive Ordered : Site → Prop
  | intro {site : Site} (hpos : site.span.left < site.span.right)
      (hparts : Span.Between site.span.left site.span.right (site.parts.map Site.span))
      (hinside : ∀ part ∈ site.parts, Ordered part) : Ordered site

end Site

def Phrase.parts : Phrase → List Site
  | expr e => [.expr e]
  | exprs es => es.map .expr
  | idents is => is.map .ident
  | args es => es.map .expr
  | params is => is.map .ident
  | item d => .ident d.ident :: d.init.toList.map .expr
  | items ds => ds.flatMap fun d ↦ .ident d.ident :: d.init.toList.map .expr
  | block b => [.stmt (.block b)]
  | conditional s => [.stmt s]
  | stmt s => [.stmt s]
  | stmts body => body.map .stmt

theorem PrefixOp.parts_apply (op : PrefixOp) (head : Span) (e : Expr) :
    (Site.expr (op.apply head e)).parts = [.expr e] := by
  cases op <;> rfl

theorem InfixOp.parts_apply (op : InfixOp) (a b : Expr) :
    (Site.expr (op.apply a b)).parts = [.expr a, .expr b] := by
  cases op <;> rfl

/-- The parts stand one after another in any stretch in which the tokens do, and so do theirs. -/
def Arranged (parts : List Site) (ts : List Token) : Prop :=
  ∀ lo hi, Span.Between lo hi (ts.map Token.span) →
    Span.Between lo hi (parts.map Site.span) ∧ ∀ part ∈ parts, part.Ordered

namespace Arranged

variable {site inner : Site} {parts more : List Site} {ts us : List Token} {token : Token}

theorem nil : Arranged [] ts := by
  intro lo hi h
  exact ⟨Span.le_of_between h, fun part hpart ↦ by cases hpart⟩

theorem append (hts : Arranged parts ts) (hus : Arranged more us) :
    Arranged (parts ++ more) (ts ++ us) := by
  intro lo hi h
  rw [List.map_append, Span.between_append] at h
  obtain ⟨mid, hleft, hright⟩ := h
  obtain ⟨hparts, hordered⟩ := hts _ _ hleft
  obtain ⟨hmore, horderedMore⟩ := hus _ _ hright
  rw [List.map_append, Span.between_append]
  exact ⟨⟨mid, hparts, hmore⟩, fun part hpart ↦
    (List.mem_append.1 hpart).elim (hordered part) (horderedMore part)⟩

theorem cons (h : Arranged parts ts) : Arranged parts (token :: ts) :=
  append (nil : Arranged [] [token]) h

theorem append_token (h : Arranged parts ts) : Arranged parts (ts ++ [token]) := by
  simpa using append h (nil : Arranged [] [token])

/-- A node or an identifier that spans all its parts. -/
theorem node (h : Arranged site.parts ts)
    (hspan : ∀ lo hi, Span.Between lo hi (ts.map Token.span) →
      Span.Between lo hi (site.parts.map Site.span) →
      lo ≤ site.span.left ∧ site.span.left < site.span.right ∧ site.span.right ≤ hi ∧
        Span.Between site.span.left site.span.right (site.parts.map Site.span)) :
    Arranged [site] ts := by
  intro lo hi hts
  obtain ⟨hparts, hordered⟩ := h lo hi hts
  obtain ⟨hlo, hpos, hhi, hwithin⟩ := hspan lo hi hts hparts
  refine ⟨⟨hlo, hpos, hhi⟩, fun part hpart ↦ ?_⟩
  obtain rfl := List.mem_singleton.1 hpart
  exact .intro hpos hwithin hordered

/-- A node or an identifier that is a single token. -/
theorem leaf (hparts : site.parts = []) (hspan : site.span = token.span) :
    Arranged [site] [token] := by
  refine node (hparts ▸ nil) fun lo hi hts _ ↦ ?_
  obtain ⟨hlo, hpos, hhi⟩ := hts
  rw [hparts, hspan]
  exact ⟨hlo, hpos, hhi, Nat.le_of_lt hpos⟩

/-- A node from its first token to its last. -/
theorem enclosed {first last : Token} (h : Arranged site.parts ts)
    (hspan : site.span = first.span.to last.span) : Arranged [site] (first :: ts ++ [last]) := by
  refine node h.cons.append_token fun lo hi hts _ ↦ ?_
  rw [List.cons_append, List.map_cons, List.map_append, Span.between_cons,
    Span.between_append] at hts
  obtain ⟨hlo, hfirst, mid, hmid, hlast, hpos, hhi⟩ := hts
  obtain ⟨hparts, -⟩ := h _ _ hmid
  have hle := Span.le_of_between hparts
  have hleft : site.span.left = first.span.left := by rw [hspan]; rfl
  have hright : site.span.right = last.span.right := by rw [hspan]; rfl
  rw [List.map_nil, Span.between_nil] at hhi
  exact ⟨by omega, by omega, by omega, Span.between_mono hparts (by omega) (by omega)⟩

/-- A node from its first token to the end of its last part. -/
theorem headed (front : List Site) (h : Arranged site.parts ts)
    (hparts : site.parts = front ++ [inner]) (hspan : site.span = token.span.to inner.span) :
    Arranged [site] (token :: ts) := by
  refine node h.cons fun lo hi hts _ ↦ ?_
  obtain ⟨hlo, hhead, hts⟩ := hts
  obtain ⟨hwithin, -⟩ := h _ _ hts
  have hleft : site.span.left = token.span.left := by rw [hspan]; rfl
  have hright : site.span.right = inner.span.right := by rw [hspan]; rfl
  rw [hparts, List.map_append, Span.between_append] at hwithin ⊢
  obtain ⟨mid, hfront, hmid, hpos, hhi⟩ := hwithin
  rw [List.map_nil, Span.between_nil] at hhi
  have hle := Span.le_of_between hfront
  refine ⟨by omega, by omega, by omega, mid, ?_, hmid, hpos, Nat.le_of_eq hright.symm⟩
  exact Span.between_mono hfront (by omega) (Nat.le_refl mid)

/-- A node from the beginning of its first part to its last token. -/
theorem tailed (h : Arranged site.parts ts) (hparts : site.parts = inner :: parts)
    (hspan : site.span = inner.span.to token.span) : Arranged [site] (ts ++ [token]) := by
  refine node h.append_token fun lo hi hts _ ↦ ?_
  rw [List.map_append, Span.between_append] at hts
  obtain ⟨mid, hts, hlast, hpos, hhi⟩ := hts
  obtain ⟨hwithin, -⟩ := h _ _ hts
  have hleft : site.span.left = inner.span.left := by rw [hspan]; rfl
  have hright : site.span.right = token.span.right := by rw [hspan]; rfl
  rw [hparts] at hwithin ⊢
  obtain ⟨hlo, hinner, hrest⟩ := hwithin
  rw [List.map_nil, Span.between_nil] at hhi
  have hle := Span.le_of_between hrest
  refine ⟨by omega, by omega, by omega, Nat.le_of_eq hleft, hinner, ?_⟩
  exact Span.between_mono hrest (Nat.le_refl _) (by omega)

/-- A node from the beginning of one part to the end of another. -/
theorem pair {second : Site} (hfirst : Arranged [inner] ts) (hsecond : Arranged [second] us)
    (hparts : site.parts = [inner, second]) (hspan : site.span = inner.span.to second.span) :
    Arranged [site] (ts ++ token :: us) := by
  have hall : Arranged site.parts (ts ++ token :: us) := by
    rw [hparts]
    exact hfirst.append hsecond.cons
  refine node hall fun lo hi _ hwithin ↦ ?_
  have hleft : site.span.left = inner.span.left := by rw [hspan]; rfl
  have hright : site.span.right = second.span.right := by rw [hspan]; rfl
  rw [hparts] at hwithin ⊢
  obtain ⟨hlo, hinner, hmid, hpos, hhi⟩ := hwithin
  rw [List.map_nil, Span.between_nil] at hhi
  exact ⟨by omega, by omega, by omega, Nat.le_of_eq hleft, hinner, hmid, hpos,
    Nat.le_of_eq hright.symm⟩

end Arranged

/-- What is written by tokens in order is in order itself, with all its names. -/
theorem arranged_of_text {phrase : Phrase} {ts : List Token} (h : phrase.Text ts) :
    Arranged phrase.parts ts := by
  have name (n : String) (s : Span) : Arranged [.ident ⟨n, s⟩] [⟨.name n, s⟩] := .leaf rfl rfl
  induction h with
  | literal h => exact .leaf rfl rfl
  | @lookup n s =>
    refine .node (name n s) fun lo hi _ hwithin ↦ ?_
    obtain ⟨hlo, hpos, hhi⟩ := hwithin
    exact ⟨hlo, hpos, hhi, Nat.le_refl _, hpos, Nat.le_refl _⟩
  | group _ inner => exact .append_token (.cons inner)
  | @prefixed l op s e ts h _ arg =>
    refine .headed [] ?_ (op.parts_apply s e) (op.span_apply s e)
    rwa [op.parts_apply]
  | @infixed l op s a ts b us h _ _ lhs rhs =>
    exact .pair lhs rhs (op.parts_apply a b) (op.span_apply a b)
  | call _ _ callee args => exact .tailed (callee.append args.cons) rfl rfl
  | index _ _ base index => exact .tailed (base.append index.cons) rfl rfl
  | array _ elements => exact .enclosed elements rfl
  | anonymous _ _ params code => exact .enclosed (params.cons.append code.cons.cons) rfl
  | firstExpr _ first => exact first
  | nextExpr _ _ before next => simpa [Phrase.parts] using before.append next.cons
  | firstIdent => exact name _ _
  | nextIdent _ before => simpa [Phrase.parts] using before.append (name _ _).cons
  | noArgs => exact .nil
  | someArgs _ all => exact all
  | noParams => exact .nil
  | someParams _ all => exact all
  | plainItem => exact name _ _
  | initItem _ init => exact (name _ _).append init.cons
  | firstItem _ first => simpa [Phrase.parts] using first
  | nextItem _ _ before next => simpa [Phrase.parts] using before.append next.cons
  | block _ code => exact .enclosed code rfl
  | thenOnly _ _ cond thenPart => exact .headed [_] (cond.append thenPart.cons).cons rfl rfl
  | elseBlock _ _ _ cond thenPart elsePart =>
    exact .headed [_, _] ((cond.append thenPart.cons).append elsePart.cons).cons rfl rfl
  | elseIf _ _ _ cond thenPart elsePart =>
    exact .headed [_, _] ((cond.append thenPart.cons).append elsePart.cons).cons rfl rfl
  | declare _ items => exact .enclosed items rfl
  | destructure _ _ idents init => exact .enclosed (idents.cons.append init.cons.cons) rfl
  | named _ _ params code =>
    exact .enclosed ((name _ _).append (params.cons.append code.cons.cons)) rfl
  | assign _ value => exact .tailed ((name _ _).append value.cons) rfl rfl
  | effect _ value => exact .tailed value rfl rfl
  | print _ value => exact .enclosed value rfl
  | @retNothing h c =>
    have hnone : Arranged (Site.stmt (.ret none (h.to c))).parts [] := .nil
    exact hnone.enclosed rfl
  | ret _ value => exact .enclosed value rfl
  | @pause h c =>
    have hnone : Arranged (Site.stmt (.pause (h.to c))).parts [] := .nil
    exact hnone.enclosed rfl
  | spawn _ value => exact .enclosed value rfl
  | throw _ value => exact .enclosed value rfl
  | inner _ block => exact block
  | branch _ conditional => exact conditional
  | whileLoop _ _ cond body => exact .headed [_] (cond.append body.cons).cons rfl rfl
  | forOf _ _ iterable body =>
    exact .headed [_, _] ((name _ _).append (iterable.cons.append body.cons)).cons.cons rfl rfl
  | tryCatch _ _ body handler =>
    exact .headed [_, _] (body.append (((name _ _).append handler.cons).cons.cons)) rfl rfl
  | noStmts => exact .nil
  | nextStmt _ _ before next => simpa [Phrase.parts] using before.append next

/-- The statements of a program that has been read stand one after another in its text, and so do
the parts of each statement. -/
theorem Program.between_of_read {text : List Char} {program : Program}
    (h : Program.read text = .program program) :
    Span.Between 0 text.length (program.map Stmt.span) ∧
      ∀ s ∈ program, (Site.stmt s).Ordered := by
  obtain ⟨hparts, hordered⟩ := arranged_of_text (Scan.text_of_read h) 0 _ (between_scan text)
  have hspans : (Phrase.stmts program).parts.map Site.span = program.map Stmt.span := by
    simp [Phrase.parts, Function.comp_def, Site.span]
  rw [hspans] at hparts
  exact ⟨hparts, fun s hs ↦ hordered _ (List.mem_map_of_mem hs)⟩

/-- The names and statements of a program that has been read stand one after another, and so do the
parts of each statement. -/
theorem Program.ordered_of_read {text : List Char} {program : Program}
    (h : Program.read text = .program program) :
    (∃ lo hi, Span.Between lo hi (program.map Stmt.span)) ∧
      ∀ s ∈ program, (Site.stmt s).Ordered :=
  ⟨⟨0, text.length, (between_of_read h).1⟩, (between_of_read h).2⟩

end LateConst
