import LateConst.Proofs.Run
import LateConst.Proofs.Span.Bare
import LateConst.Proofs.Span.Constituent

/-!
# Spans nest

Every constituent of a program that has been read is written by a row of tokens of its text, and
what it is made of by rows inside of that row (`Constituent.writtenIn_of_text`). Its span goes from
the first of its tokens to the last, parentheses around expressions not counted, and holds the spans
of its children in their order (`Program.spans_nest`).
-/

namespace LateConst

namespace Constituent

def Text : Constituent → List Token → Prop
  | node (.ident x), ts => ts = [⟨.name x.name, x.span⟩]
  | node (.expr e), ts => Phrase.Text (.expr e) ts
  | node (.stmt s), ts => Phrase.Text (.stmt s) ts
  | item d, ts => Phrase.Text (.item d) ts
  | code ⟨none, params, body, span⟩, ts => Phrase.Text (.expr (.function params body span)) ts
  | code ⟨some x, params, body, span⟩, ts =>
    Phrase.Text (.stmt (.function x params body span)) ts

/-- Some of the tokens in a row write the constituent. -/
def WrittenIn (c : Constituent) (ts : List Token) : Prop := ∃ us, us <:+: ts ∧ c.Text us

theorem WrittenIn.trans {c : Constituent} {ts us : List Token} (h : c.WrittenIn ts)
    (hts : ts <:+: us) : c.WrittenIn us := by
  obtain ⟨vs, hvs, htext⟩ := h
  exact ⟨vs, hvs.trans hts, htext⟩

end Constituent

def Written (cs : List Constituent) (ts : List Token) : Prop := ∀ c ∈ cs, c.WrittenIn ts

namespace Written

variable {c : Constituent} {cs ds : List Constituent} {ts us : List Token} {token : Token}

theorem nil : Written [] ts := List.forall_mem_nil _

theorem expr {e : Expr} (h : Phrase.Text (.expr e) ts) : Written [.expr e] ts :=
  List.forall_mem_singleton.2 ⟨ts, List.infix_refl ts, h⟩

theorem stmt {s : Stmt} (h : Phrase.Text (.stmt s) ts) : Written [.stmt s] ts :=
  List.forall_mem_singleton.2 ⟨ts, List.infix_refl ts, h⟩

theorem block {b : Block} (h : Phrase.Text (.block b) ts) : Written [.block b] ts :=
  stmt (.inner h)

theorem item {d : Declarator} (h : Phrase.Text (.item d) ts) : Written [.item d] ts :=
  List.forall_mem_singleton.2 ⟨ts, List.infix_refl ts, h⟩

theorem name (n : String) (s : Span) : Written [.name ⟨n, s⟩] [⟨.name n, s⟩] :=
  List.forall_mem_singleton.2 ⟨_, List.infix_refl _, rfl⟩

theorem append (hts : Written cs ts) (hus : Written ds us) : Written (cs ++ ds) (ts ++ us) :=
  List.forall_mem_append.2 ⟨fun c hc ↦ (hts c hc).trans (List.prefix_append ts us).isInfix,
    fun d hd ↦ (hus d hd).trans (List.suffix_append ts us).isInfix⟩

theorem cons (h : Written cs ts) : Written cs (token :: ts) :=
  append (nil : Written [] [token]) h

theorem append_token (h : Written cs ts) : Written cs (ts ++ [token]) := by
  simpa using append h (nil : Written [] [token])

end Written

/-- What a phrase is made of. Besides the code of a function, this is what the code is made of,
which the same tokens write. -/
def Phrase.pieces : Phrase → List Constituent
  | expr e =>
    match e with
    | .function ps body span =>
      .code ⟨none, ps, body, span⟩ :: (Constituent.code ⟨none, ps, body, span⟩).children
    | e => (Constituent.expr e).children
  | exprs es => es.map .expr
  | idents is => is.map .name
  | args es => es.map .expr
  | params is => is.map .name
  | item d => (Constituent.item d).children
  | items ds => ds.map .item
  | block b => (Constituent.block b).children
  | conditional s | stmt s =>
    match s with
    | .function x ps body span =>
      .code ⟨some x, ps, body, span⟩ :: (Constituent.code ⟨some x, ps, body, span⟩).children
    | s => (Constituent.stmt s).children
  | stmts body => body.map .stmt

theorem PrefixOp.pieces_apply (op : PrefixOp) (head : Span) (e : Expr) :
    (Phrase.expr (op.apply head e)).pieces = [.expr e] := by
  cases op <;> rfl

theorem InfixOp.pieces_apply (op : InfixOp) (a b : Expr) :
    (Phrase.expr (op.apply a b)).pieces = [.expr a, .expr b] := by
  cases op <;> rfl

/-- The pieces of a phrase are written among the tokens that write the phrase. -/
theorem written_of_text {phrase : Phrase} {ts : List Token} (h : phrase.Text ts) :
    Written phrase.pieces ts := by
  induction h with
  | literal _ => exact .nil
  | @lookup n s => exact .name n s
  | group _ inner => exact .append_token (.cons inner)
  | @prefixed l op s e ts _ arg _ =>
    rw [op.pieces_apply]
    exact .cons (.expr arg)
  | @infixed l op s a ts b us _ lhs rhs _ _ =>
    rw [op.pieces_apply]
    exact (Written.expr lhs).append (.cons (.expr rhs))
  | call callee _ _ args => exact ((Written.expr callee).append args.cons).append_token
  | index base index _ _ =>
    exact ((Written.expr base).append (Written.expr index).cons).append_token
  | array _ elements => exact elements.cons.append_token
  | anonymous params code params' code' =>
    exact List.forall_mem_cons.2 ⟨⟨_, List.infix_refl _, .anonymous params code⟩,
      (params'.cons.append code'.cons.cons).cons.append_token⟩
  | firstExpr first _ => exact .expr first
  | nextExpr _ next before _ => simpa [Phrase.pieces] using before.append (Written.expr next).cons
  | firstIdent => exact .name _ _
  | nextIdent _ before => simpa [Phrase.pieces] using before.append (Written.name _ _).cons
  | noArgs => exact .nil
  | someArgs _ all => exact all
  | noParams => exact .nil
  | someParams _ all => exact all
  | plainItem => exact .name _ _
  | initItem init _ => exact (Written.name _ _).append (Written.expr init).cons
  | firstItem first _ => exact .item first
  | nextItem _ next before _ => simpa [Phrase.pieces] using before.append (Written.item next).cons
  | block _ code => exact code.cons.append_token
  | thenOnly cond thenPart _ _ =>
    exact ((Written.expr cond).append (Written.block thenPart).cons).cons.cons
  | elseBlock cond thenPart elsePart _ _ _ =>
    exact (((Written.expr cond).append (Written.block thenPart).cons).append
      (Written.block elsePart).cons).cons.cons
  | elseIf cond thenPart elsePart _ _ _ =>
    exact (((Written.expr cond).append (Written.block thenPart).cons).append
      (Written.stmt (.branch elsePart)).cons).cons.cons
  | declare _ items => exact items.cons.append_token
  | destructure _ init idents _ =>
    exact (idents.cons.append (Written.expr init).cons.cons).cons.append_token
  | named params code params' code' =>
    exact List.forall_mem_cons.2 ⟨⟨_, List.infix_refl _, .named params code⟩,
      ((Written.name _ _).append (params'.cons.append code'.cons.cons)).cons.append_token⟩
  | assign value _ =>
    exact ((Written.name _ _).append (Written.expr value).cons).append_token
  | effect value _ => exact (Written.expr value).append_token
  | print value _ | ret value _ | spawn value _ | throw value _ =>
    exact (Written.expr value).cons.append_token
  | retNothing | pause => exact .nil
  | inner _ pieces => exact pieces
  | branch _ pieces => exact pieces
  | whileLoop cond body _ _ =>
    exact ((Written.expr cond).append (Written.block body).cons).cons.cons
  | forOf iterable body _ _ =>
    exact ((Written.name _ _).append
      ((Written.expr iterable).cons.append (Written.block body).cons)).cons.cons.cons
  | tryCatch body handler _ _ =>
    exact ((Written.block body).append
      ((Written.name _ _).append (Written.block handler).cons).cons.cons).cons
  | noStmts => exact .nil
  | nextStmt _ next before _ => simpa [Phrase.pieces] using before.append (Written.stmt next)

namespace Constituent

variable {c child : Constituent} {ts : List Token}

theorem writtenIn_of_node {site : Site} (htext : (node site).Text ts)
    (hchild : child ∈ (node site).children) : child.WrittenIn ts := by
  cases site with
  | ident x => cases hchild
  | expr e =>
    refine written_of_text htext child ?_
    cases e with
    | function ps body span => exact List.mem_singleton.1 hchild ▸ List.mem_cons_self
    | _ => exact hchild
  | stmt s =>
    refine written_of_text htext child ?_
    cases s with
    | function x ps body span => exact List.mem_singleton.1 hchild ▸ List.mem_cons_self
    | _ => exact hchild

/-- The children of a constituent are written among the tokens that write the constituent. -/
theorem writtenIn_of_text (htext : c.Text ts) (hchild : child ∈ c.children) :
    child.WrittenIn ts := by
  cases c with
  | node site => exact writtenIn_of_node htext hchild
  | item d => exact written_of_text htext child hchild
  | code c =>
    obtain ⟨ident, ps, body, span⟩ := c
    cases ident with
    | none => exact written_of_text htext child (List.mem_cons_of_mem _ hchild)
    | some x => exact written_of_text htext child (List.mem_cons_of_mem _ hchild)

/-- A constituent that is written without needless parentheses begins with its first token and ends
with its last. -/
theorem ends_of_bare (h : Bare c.Text ts) : Ends ts c.span := by
  obtain ⟨htext, hbare⟩ := h
  cases c with
  | node site =>
    cases site with
    | ident x =>
      obtain rfl : ts = [⟨.name x.name, x.span⟩] := htext
      exact .single
    | expr e => exact Phrase.Text.ends htext hbare _ rfl
    | stmt s => exact Phrase.Text.ends htext hbare _ rfl
  | item d => exact Phrase.Text.ends htext hbare _ rfl
  | code c =>
    obtain ⟨ident, ps, body, span⟩ := c
    cases ident with
    | none => exact Phrase.Text.ends htext hbare _ rfl
    | some x => exact Phrase.Text.ends htext hbare _ rfl

end Constituent

namespace Program

variable {text : List Char} {program : Program} {c : Constituent}

theorem HasConstituent.writtenIn (hread : Program.read text = .program program)
    (h : program.HasConstituent c) : c.WrittenIn (scan text).tokens := by
  induction h with
  | top hs => exact written_of_text (Scan.text_of_read hread) _ (List.mem_map_of_mem hs)
  | inside _ hchild ih =>
    obtain ⟨ts, hts, htext⟩ := ih
    exact (Constituent.writtenIn_of_text htext hchild).trans hts

theorem HasConstituent.span_le (hread : Program.read text = .program program)
    (h : program.HasConstituent c) : c.span.right ≤ text.length := by
  induction h with
  | top hs =>
    exact (Span.between_of_mem (between_of_read hread).1 (List.mem_map_of_mem hs)).2.2
  | inside hc hchild ih =>
    have hbetween := (hc.nested hread).children.1
    exact (Span.between_of_mem hbetween (List.mem_map_of_mem hchild)).2.2.trans ih

/-- The statements of a program that has been read stand one after another in its text, and every
constituent of the program has a span that is not empty. It is written by a row of tokens of the
text. When the parentheses around expressions that it can do without are left out, its span goes
from the beginning of the first of these tokens to the end of the last. The spans of its children
are inside of its own, one after another. -/
theorem spans_nest (hread : Program.read text = .program program) :
    Span.Between 0 text.length (program.map Stmt.span) ∧
      ∀ c, program.HasConstituent c →
        c.span.left < c.span.right ∧ c.span.right ≤ text.length ∧
        (∃ before ts after, (scan text).tokens = before ++ ts ++ after ∧ c.Text ts ∧
          (∃ core, Unwraps ts core ∧ Bare c.Text core) ∧
          ∀ core, Unwraps ts core → Bare c.Text core →
            ∃ first last, core.head? = some first ∧ core.getLast? = some last ∧
              c.span.left = first.span.left ∧ c.span.right = last.span.right) ∧
        (∀ child ∈ c.children,
          c.span.left ≤ child.span.left ∧ child.span.right ≤ c.span.right) ∧
        c.children.Pairwise fun a b ↦ a.span.right ≤ b.span.left := by
  refine ⟨(between_of_read hread).1, fun c hc ↦ ?_⟩
  have hnested := hc.nested hread
  have hbetween := hnested.children.1
  refine ⟨hnested.pos, hc.span_le hread, ?_, fun child hchild ↦ ?_,
    Span.pairwise_of_between hbetween⟩
  · obtain ⟨ts, ⟨before, after, htokens⟩, htext⟩ := hc.writtenIn hread
    refine ⟨before, ts, after, htokens.symm, htext, exists_bare htext, fun core _ hcore ↦ ?_⟩
    obtain ⟨first, hfirst, last, hlast, hspan⟩ := Constituent.ends_of_bare hcore
    rw [hspan]
    exact ⟨first, last, hfirst, hlast, rfl, rfl⟩
  · have hspan := Span.between_of_mem hbetween (List.mem_map_of_mem hchild)
    exact ⟨hspan.1, hspan.2.2⟩

/-- A sum begins with its first operand, whose parentheses do not count, and ends with its second
one, whose parentheses do, because they belong to a call. -/
theorem spans_nest_in_sum : ∃ (program : Program) (s : Stmt) (sum : Constituent),
    Program.read "(a) + f(b);".toList = .program program ∧ program = [s] ∧
      (Constituent.stmt s).children = [sum] ∧ sum.span = ⟨1, 10⟩ ∧
      sum.children.map Constituent.span = [⟨1, 2⟩, ⟨6, 10⟩] ∧
      ∃ core first last, Bare sum.Text core ∧ core.head? = some first ∧
        core.getLast? = some last ∧ first.span.left = 1 ∧ last.span.right = 10 := by
  have hrun : (ofText? "(a) + f(b);".toList).map (fun program : Program ↦
      program.map fun s ↦ (Constituent.stmt s).children.map fun c ↦
        (c.span, c.children.map Constituent.span)) =
      some [[(⟨1, 10⟩, [⟨1, 2⟩, ⟨6, 10⟩])]] := by
    decide +kernel
  obtain ⟨program, htext, hrun⟩ := Option.map_eq_some_iff.1 hrun
  have hread := read_of_ofText? htext
  obtain ⟨s, rfl, hchildren⟩ := List.map_eq_singleton_iff.1 hrun
  obtain ⟨sum, hsum, hspans⟩ := List.map_eq_singleton_iff.1 hchildren
  obtain ⟨hspan, hoperands⟩ := Prod.mk.inj hspans
  have hcontains : HasConstituent [s] sum :=
    .inside (.top List.mem_cons_self) (hsum ▸ List.mem_cons_self)
  obtain ⟨-, -, ⟨before, ts, after, -, -, ⟨core, hunwraps, hcore⟩, hends⟩, -, -⟩ :=
    (spans_nest hread).2 sum hcontains
  obtain ⟨first, last, hfirst, hlast, hleft, hright⟩ := hends core hunwraps hcore
  rw [hspan] at hleft hright
  exact ⟨[s], s, sum, hread, rfl, hsum, hspan, hoperands, core, first, last, hcore, hfirst, hlast,
    hleft.symm, hright.symm⟩

end Program

end LateConst
