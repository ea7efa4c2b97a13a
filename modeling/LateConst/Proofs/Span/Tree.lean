import LateConst.Proofs.Reading.Progress
import LateConst.Proofs.Scan.Tiling
import LateConst.Proofs.Scope

/-!
# Spans of nodes

In the tree of a program that has been read, the nodes right inside of a node stand one after
another within its span, and none of them takes all of it. The part after `else` is always a block
or another conditional.
-/

namespace LateConst

def Stmt.CanBeElsePart : Stmt → Prop
  | .block _ => True
  | .branch _ _ _ _ => True
  | _ => False

/-- The part after `else`, if the node is a conditional that has one. -/
def Site.elsePart? : Site → Option Stmt
  | .stmt (.branch _ _ elsePart _) => elsePart
  | _ => none

/-- A node that could have been read from a text, with all that is inside of it. -/
inductive Site.WellFormed : Site → Prop
  | intro {site : Site} (hpos : site.span.left < site.span.right)
      (hwithin : ∀ scopes, Span.Between site.span.left site.span.right
        ((site.visits scopes).map fun visit ↦ visit.1.span))
      (hstrict : ∀ scopes, ∀ visit ∈ site.visits scopes,
        site.span.left < visit.1.span.left ∨ visit.1.span.right < site.span.right)
      (helse : ∀ s ∈ site.elsePart?, s.CanBeElsePart)
      (hinside : ∀ scopes, ∀ visit ∈ site.visits scopes, WellFormed visit.1) :
      WellFormed site

def Phrase.sites : Phrase → List Site
  | expr e => [.expr e]
  | exprs es => es.map .expr
  | idents _ => []
  | args es => es.map .expr
  | params _ => []
  | item d => d.init.toList.map .expr
  | items ds => ds.flatMap fun d ↦ d.init.toList.map .expr
  | block b => [.stmt (.block b)]
  | conditional s => [.stmt s]
  | stmt s => [.stmt s]
  | stmts body => body.map .stmt

/-! ### Spans of operators -/

theorem PrefixOp.span_apply (op : PrefixOp) (head : Span) (e : Expr) :
    (op.apply head e).span = head.to e.span := by
  cases op <;> rfl

theorem InfixOp.span_apply (op : InfixOp) (a b : Expr) :
    (op.apply a b).span = a.span.to b.span := by
  cases op <;> rfl

theorem PrefixOp.visits_apply (op : PrefixOp) (head : Span) (e : Expr) (scopes : List Scope) :
    (Site.expr (op.apply head e)).visits scopes = [(.expr e, scopes)] := by
  cases op <;> rfl

theorem InfixOp.visits_apply (op : InfixOp) (a b : Expr) (scopes : List Scope) :
    (Site.expr (op.apply a b)).visits scopes = [(.expr a, scopes), (.expr b, scopes)] := by
  cases op <;> rfl

namespace Site

theorem wellFormed_of_sites {site : Site} (sites : List Site)
    (hvisits : ∀ scopes, (site.visits scopes).map Prod.fst = sites)
    (hpos : site.span.left < site.span.right)
    (hbetween : Span.Between site.span.left site.span.right (sites.map Site.span))
    (hstrict : ∀ inner ∈ sites, site.span.left < inner.span.left ∨
      inner.span.right < site.span.right)
    (helse : ∀ s ∈ site.elsePart?, s.CanBeElsePart) (hinside : ∀ inner ∈ sites, inner.WellFormed) :
    site.WellFormed := by
  have hmem {scopes : List Scope} {visit : Visit} (h : visit ∈ site.visits scopes) :
      visit.1 ∈ sites := by
    rw [← hvisits scopes]
    exact List.mem_map_of_mem h
  refine .intro hpos (fun scopes ↦ ?_) (fun scopes visit hvisit ↦ hstrict _ (hmem hvisit)) helse
    fun scopes visit hvisit ↦ hinside _ (hmem hvisit)
  have hspans : (site.visits scopes).map (fun visit ↦ visit.1.span) = sites.map Site.span := by
    rw [← hvisits scopes, List.map_map]
    rfl
  rw [hspans]
  exact hbetween

/-- A node that begins before what is inside of it, or ends after it. -/
theorem wellFormed_of_surrounds {site : Site} {sites : List Site} {lo hi : Nat}
    (hvisits : ∀ scopes, (site.visits scopes).map Prod.fst = sites)
    (hbetween : Span.Between lo hi (sites.map Site.span)) (hleft : site.span.left ≤ lo)
    (hright : hi ≤ site.span.right) (hstrict : site.span.left < lo ∨ hi < site.span.right)
    (hinside : ∀ inner ∈ sites, inner.WellFormed) (helse : site.elsePart? = none) :
    site.WellFormed := by
  have hle := Span.le_of_between hbetween
  refine wellFormed_of_sites _ hvisits (by omega) (Span.between_mono hbetween hleft hright)
    (fun inner hinner ↦ ?_) (fun s hs ↦ ?_) hinside
  · have hspan := Span.between_of_mem hbetween (List.mem_map_of_mem hinner)
    omega
  · rw [helse] at hs
    cases hs

end Site

/-- The nodes are well-formed, and they stand one after another in any stretch in which the tokens
do. -/
def Placed (sites : List Site) (ts : List Token) : Prop :=
  ∀ lo hi, Span.Between lo hi (ts.map Token.span) →
    Span.Between lo hi (sites.map Site.span) ∧ ∀ site ∈ sites, site.WellFormed

namespace Placed

variable {site inner : Site} {sites more : List Site} {ts us : List Token} {token : Token}

theorem nil : Placed [] ts := by
  intro lo hi h
  exact ⟨Span.le_of_between h, fun site hsite ↦ by cases hsite⟩

theorem append (hts : Placed sites ts) (hus : Placed more us) :
    Placed (sites ++ more) (ts ++ us) := by
  intro lo hi h
  rw [List.map_append, Span.between_append] at h
  obtain ⟨mid, hleft, hright⟩ := h
  obtain ⟨hsites, hwf⟩ := hts _ _ hleft
  obtain ⟨hmore, hwfMore⟩ := hus _ _ hright
  rw [List.map_append, Span.between_append]
  exact ⟨⟨mid, hsites, hmore⟩, fun site hsite ↦
    (List.mem_append.1 hsite).elim (hwf site) (hwfMore site)⟩

theorem cons (h : Placed sites ts) : Placed sites (token :: ts) :=
  append (nil : Placed [] [token]) h

theorem append_token (h : Placed sites ts) : Placed sites (ts ++ [token]) := by
  simpa using append h (nil : Placed [] [token])

/-- A node that is a single token. -/
theorem leaf (hspan : site.span = token.span) (hvisits : ∀ scopes, site.visits scopes = [])
    (helse : site.elsePart? = none) : Placed [site] [token] := by
  intro lo hi h
  obtain ⟨hlo, hpos, hhi⟩ := h
  have hwf : site.WellFormed := by
    refine Site.wellFormed_of_sites [] (fun scopes ↦ by rw [hvisits]; rfl) ?_ ?_
      (fun _ h ↦ by cases h) (fun s hs ↦ ?_) (fun _ h ↦ by cases h)
    · rwa [hspan]
    · rw [hspan]
      exact Nat.le_of_lt hpos
    · rw [helse] at hs
      cases hs
  refine ⟨?_, fun s hs ↦ List.mem_singleton.1 hs ▸ hwf⟩
  rw [List.map_singleton, hspan]
  exact ⟨hlo, hpos, hhi⟩

/-- A node from its first token to its last. -/
theorem enclosed {first last : Token} (h : Placed sites ts)
    (hspan : site.span = first.span.to last.span)
    (hvisits : ∀ scopes, (site.visits scopes).map Prod.fst = sites)
    (helse : site.elsePart? = none) : Placed [site] (first :: ts ++ [last]) := by
  intro lo hi hts
  rw [List.cons_append, List.map_cons, List.map_append, Span.between_cons,
    Span.between_append] at hts
  obtain ⟨hlo, hfirst, mid, hmid, hlast, hpos, hhi⟩ := hts
  obtain ⟨hsites, hwf⟩ := h _ _ hmid
  have hle := Span.le_of_between hsites
  have hleft : site.span.left = first.span.left := by rw [hspan]; rfl
  have hright : site.span.right = last.span.right := by rw [hspan]; rfl
  have hnode : site.WellFormed :=
    Site.wellFormed_of_surrounds hvisits hsites (by omega) (by omega) (by omega) hwf helse
  refine ⟨⟨by omega, by omega, by simpa [hright] using hhi⟩, fun s hs ↦ ?_⟩
  exact List.mem_singleton.1 hs ▸ hnode

/-- A node from its first token to the end of the last node inside of it. -/
theorem headed (sites : List Site) (h : Placed (sites ++ [inner]) ts)
    (hspan : site.span = token.span.to inner.span)
    (hvisits : ∀ scopes, (site.visits scopes).map Prod.fst = sites ++ [inner])
    (helse : ∀ s ∈ site.elsePart?, s.CanBeElsePart) : Placed [site] (token :: ts) := by
  intro lo hi hts
  rw [List.map_cons, Span.between_cons] at hts
  obtain ⟨hlo, hhead, hts⟩ := hts
  obtain ⟨hsites, hwf⟩ := h _ _ hts
  have hleft : site.span.left = token.span.left := by rw [hspan]; rfl
  have hright : site.span.right = inner.span.right := by rw [hspan]; rfl
  obtain ⟨mid, hbefore, hmid, hpos, hhi⟩ : ∃ mid, Span.Between token.span.right mid
      (sites.map Site.span) ∧ mid ≤ inner.span.left ∧ inner.span.left < inner.span.right ∧
      inner.span.right ≤ hi := by
    rw [List.map_append, Span.between_append] at hsites
    exact hsites
  have hle := Span.le_of_between hbefore
  have hwithin : Span.Between token.span.right site.span.right
      ((sites ++ [inner]).map Site.span) := by
    rw [List.map_append, Span.between_append]
    exact ⟨mid, hbefore, hmid, hpos, Nat.le_of_eq hright.symm⟩
  have hnode : site.WellFormed := by
    refine Site.wellFormed_of_sites _ hvisits (by omega)
      (Span.between_mono hwithin (by omega) (Nat.le_refl _)) (fun s hs ↦ ?_) helse hwf
    have hspan := Span.between_of_mem hwithin (List.mem_map_of_mem hs)
    omega
  refine ⟨⟨by omega, by omega, by simpa [hright] using hhi⟩, fun s hs ↦ ?_⟩
  exact List.mem_singleton.1 hs ▸ hnode

/-- A node from the beginning of the first node inside of it to its last token. -/
theorem tailed (h : Placed (inner :: sites) ts) (hspan : site.span = inner.span.to token.span)
    (hvisits : ∀ scopes, (site.visits scopes).map Prod.fst = inner :: sites)
    (helse : site.elsePart? = none) : Placed [site] (ts ++ [token]) := by
  intro lo hi hts
  rw [List.map_append, Span.between_append] at hts
  obtain ⟨mid, hts, hlast, hpos, hhi⟩ := hts
  obtain ⟨hsites, hwf⟩ := h _ _ hts
  have hle := Span.le_of_between hsites.2.2
  have hlo := hsites.1
  have hinner := hsites.2.1
  have hleft : site.span.left = inner.span.left := by rw [hspan]; rfl
  have hright : site.span.right = token.span.right := by rw [hspan]; rfl
  have hwithin : Span.Between site.span.left mid ((inner :: sites).map Site.span) :=
    ⟨Nat.le_of_eq hleft, hsites.2⟩
  have hnode : site.WellFormed :=
    Site.wellFormed_of_surrounds hvisits hwithin (Nat.le_refl _) (by omega) (by omega) hwf helse
  refine ⟨⟨by omega, by omega, by simpa [hright] using hhi⟩, fun s hs ↦ ?_⟩
  exact List.mem_singleton.1 hs ▸ hnode

/-- A node from the beginning of one node inside of it to the end of another. -/
theorem pair {second : Site} (hfirst : Placed [inner] ts) (hsecond : Placed [second] us)
    (hspan : site.span = inner.span.to second.span)
    (hvisits : ∀ scopes, (site.visits scopes).map Prod.fst = [inner, second])
    (helse : site.elsePart? = none) : Placed [site] (ts ++ token :: us) := by
  intro lo hi hts
  rw [List.map_append, List.map_cons, Span.between_append] at hts
  obtain ⟨mid, hts, hop, hpos, hus⟩ := hts
  obtain ⟨⟨hlo, hinner, hmid⟩, hwfFirst⟩ := hfirst _ _ hts
  obtain ⟨⟨hlo', hinner', hmid'⟩, hwfSecond⟩ := hsecond _ _ hus
  rw [List.map_nil, Span.between_nil] at hmid hmid'
  have hleft : site.span.left = inner.span.left := by rw [hspan]; rfl
  have hright : site.span.right = second.span.right := by rw [hspan]; rfl
  have hwithin : Span.Between site.span.left site.span.right ([inner, second].map Site.span) :=
    ⟨by omega, hinner, by omega, hinner', by simp [hright]⟩
  have hnode : site.WellFormed := by
    refine Site.wellFormed_of_sites _ hvisits (by omega) hwithin (fun s hs ↦ ?_) (fun s hs ↦ ?_)
      (fun s hs ↦ ?_)
    · obtain rfl | rfl : s = inner ∨ s = second := by simpa using hs
      · exact .inr (by omega)
      · exact .inl (by omega)
    · rw [helse] at hs
      cases hs
    · obtain rfl | rfl : s = inner ∨ s = second := by simpa using hs
      · exact hwfFirst _ (List.mem_singleton.2 rfl)
      · exact hwfSecond _ (List.mem_singleton.2 rfl)
  refine ⟨⟨by omega, by omega, by simpa [hright] using hmid'⟩, fun s hs ↦ ?_⟩
  exact List.mem_singleton.1 hs ▸ hnode

end Placed

/-! ### Trees that are written by tokens -/

theorem Scope.map_fst_visits (scope : Scope) (outer : List Scope) :
    (scope.visits outer).map Prod.fst = scope.statements.map Site.stmt := by
  simp [Scope.visits, Function.comp_def]

theorem map_fst_visits_declare (kind : Kind) (items : List Declarator) (span : Span)
    (scopes : List Scope) :
    ((Site.stmt (.declare kind items span)).visits scopes).map Prod.fst =
      (Phrase.items items).sites := by
  change (items.filterMap _).map Prod.fst = _
  induction items with
  | nil => rfl
  | cons item more ih =>
    obtain ⟨ident, init⟩ := item
    cases init with
    | none => exact ih
    | some e => exact congrArg (Site.expr e :: ·) ih

/-- A conditional can stand after `else`. -/
theorem canBeElsePart_of_text {s : Stmt} {ts : List Token}
    (h : Phrase.Text (.conditional s) ts) : s.CanBeElsePart := by
  cases h <;> trivial

/-- What is written by tokens in order is in order itself. -/
theorem placed_of_text {phrase : Phrase} {ts : List Token} (h : phrase.Text ts) :
    Placed phrase.sites ts := by
  induction h with
  | literal h => exact .leaf rfl (fun _ ↦ rfl) rfl
  | lookup => exact .leaf rfl (fun _ ↦ rfl) rfl
  | group _ inner => exact .append_token (.cons inner)
  | @prefixed l op s e ts h _ arg =>
    exact .headed [] arg (op.span_apply s e) (fun _ ↦ by rw [op.visits_apply]; rfl)
      (fun s hs ↦ by cases op <;> cases hs)
  | @infixed l op s a ts b us h _ _ lhs rhs =>
    exact .pair lhs rhs (op.span_apply a b) (fun _ ↦ by rw [op.visits_apply]; rfl)
      (by cases op <;> rfl)
  | call _ _ callee args =>
    exact .tailed (callee.append args.cons) rfl
      (fun _ ↦ by simp [Site.visits, Phrase.sites, Function.comp_def]) rfl
  | index _ _ base index =>
    exact .tailed (base.append index.cons) rfl (fun _ ↦ rfl) rfl
  | array _ elements =>
    exact .enclosed elements rfl
      (fun _ ↦ by simp [Site.visits, Phrase.sites, Function.comp_def]) rfl
  | anonymous _ _ params code =>
    exact .enclosed (params.cons.append code.cons.cons) rfl (fun _ ↦ Scope.map_fst_visits _ _) rfl
  | firstExpr _ first => exact first
  | nextExpr _ _ before next =>
    simpa [Phrase.sites] using before.append next.cons
  | firstIdent => exact .nil
  | nextIdent _ before => exact .nil
  | noArgs => exact .nil
  | someArgs _ all => exact all
  | noParams => exact .nil
  | someParams _ all => exact .nil
  | plainItem => exact .nil
  | initItem _ init => exact init.cons.cons
  | firstItem _ first => simpa [Phrase.sites] using first
  | nextItem _ _ before next =>
    simpa [Phrase.sites] using before.append next.cons
  | block _ code => exact .enclosed code rfl (fun _ ↦ Scope.map_fst_visits _ _) rfl
  | thenOnly _ _ cond thenPart =>
    exact .headed [_] (cond.append thenPart.cons).cons rfl (fun _ ↦ rfl)
      (fun s hs ↦ by cases hs)
  | elseBlock _ _ _ cond thenPart elsePart =>
    refine .headed [_, _] ((cond.append thenPart.cons).append elsePart.cons).cons rfl
      (fun _ ↦ rfl) (fun s hs ↦ ?_)
    obtain rfl := Option.mem_some.1 hs
    trivial
  | elseIf _ _ helse cond thenPart elsePart =>
    refine .headed [_, _] ((cond.append thenPart.cons).append elsePart.cons).cons rfl
      (fun _ ↦ rfl) (fun s hs ↦ ?_)
    obtain rfl := Option.mem_some.1 hs
    exact canBeElsePart_of_text helse
  | declare _ items => exact .enclosed items rfl (fun _ ↦ map_fst_visits_declare _ _ _ _) rfl
  | destructure _ _ idents init =>
    exact .enclosed (idents.cons.append init.cons.cons) rfl (fun _ ↦ rfl) rfl
  | named _ _ params code =>
    exact .enclosed (params.cons.cons.append code.cons.cons) rfl
      (fun _ ↦ Scope.map_fst_visits _ _) rfl
  | assign _ value => exact .enclosed value.cons rfl (fun _ ↦ rfl) rfl
  | effect _ value => exact .tailed value rfl (fun _ ↦ rfl) rfl
  | print _ value => exact .enclosed value rfl (fun _ ↦ rfl) rfl
  | retNothing => exact .enclosed (.nil : Placed [] []) rfl (fun _ ↦ rfl) rfl
  | ret _ value => exact .enclosed value rfl (fun _ ↦ rfl) rfl
  | pause => exact .enclosed (.nil : Placed [] []) rfl (fun _ ↦ rfl) rfl
  | spawn _ value => exact .enclosed value rfl (fun _ ↦ rfl) rfl
  | throw _ value => exact .enclosed value rfl (fun _ ↦ rfl) rfl
  | inner _ block => exact block
  | branch _ conditional => exact conditional
  | whileLoop _ _ cond body =>
    exact .headed [_] (cond.append body.cons).cons rfl (fun _ ↦ rfl)
      (fun s hs ↦ by cases hs)
  | forOf _ _ iterable body =>
    exact .headed [_] (iterable.cons.append body.cons).cons.cons.cons rfl (fun _ ↦ rfl)
      (fun s hs ↦ by cases hs)
  | tryCatch _ _ body handler =>
    exact .headed [_] (body.append handler.cons.cons.cons.cons) rfl (fun _ ↦ rfl)
      (fun s hs ↦ by cases hs)
  | noStmts => exact .nil
  | nextStmt _ _ before next =>
    simpa [Phrase.sites] using before.append next

/-- The statements of a program that has been read stand one after another, and each of them is
well-formed. -/
theorem Program.placed_of_read {text : List Char} {program : Program}
    (h : Program.read text = .program program) :
    (∃ lo hi, Span.Between lo hi (program.map Stmt.span)) ∧
      ∀ s ∈ program, (Site.stmt s).WellFormed := by
  obtain ⟨hi, htokens⟩ := exists_between_scan text
  obtain ⟨hsites, hwf⟩ := placed_of_text (Scan.text_of_read h) 0 hi htokens
  have hspans : (Phrase.stmts program).sites.map Site.span = program.map Stmt.span := by
    simp [Phrase.sites, Function.comp_def, Site.span]
  rw [hspans] at hsites
  exact ⟨⟨0, hi, hsites⟩, fun s hs ↦ hwf _ (List.mem_map_of_mem hs)⟩

end LateConst
