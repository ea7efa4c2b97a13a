import LateConst.Proofs.Phrase
import LateConst.Reading

/-!
# What has been read so far

`Reading.Text` says that a half-read program has come from certain tokens: every unfinished
construct on its path accounts for the tokens it has taken, and every finished part is a phrase
with its text. Settling keeps the tokens, and taking a token adds that token and no other
(`Reading.text_feed`), so a program that is read to its end is written by all tokens of the text.
-/

namespace LateConst

open Phrase (Text)

/-- The tokens that brought about a pending operator, with its left operand if it has one. -/
def Pending.Text : Pending → List Token → Prop
  | prefixed op head, ts => ∃ l, PrefixOp.ofLexeme? l = some op ∧ ts = [⟨l, head⟩]
  | infixed lhs op, ts =>
    ∃ l s us, InfixOp.ofLexeme? l = some op ∧ Phrase.Text (.expr lhs) us ∧ ts = us ++ [⟨l, s⟩]

def Pending.AllText : List Pending → List Token → Prop
  | [], ts => ts = []
  | p :: more, ts => ∃ us vs, AllText more us ∧ p.Text vs ∧ ts = us ++ vs

/-- Finished declarators, each followed by a comma. -/
def ItemsBefore (items : List Declarator) (ts : List Token) : Prop :=
  items = [] ∧ ts = [] ∨ ∃ us s, Text (.items items) us ∧ ts = us ++ [⟨.mark .comma, s⟩]

def ExprsBefore (es : List Expr) (ts : List Token) : Prop :=
  es = [] ∧ ts = [] ∨ ∃ us s, Text (.exprs es) us ∧ ts = us ++ [⟨.mark .comma, s⟩]

mutual

def Body.Text : Body → List Token → Prop
  | .program done, ts => Phrase.Text (.stmts done) ts
  | .block outer head done, ts => ∃ us vs, outer.Text us ∧ Phrase.Text (.stmts done) vs ∧
      ts = us ++ ⟨.mark .openBrace, head⟩ :: vs
  | .function outer params done, ts => ∃ us vs ws o p q, outer.Text us ∧
      Phrase.Text (.params params) vs ∧ Phrase.Text (.stmts done) ws ∧
      ts = us ++ ⟨.mark .openParen, o⟩ :: vs ++ ⟨.mark .closeParen, p⟩ ::
        ⟨.mark .openBrace, q⟩ :: ws

def FunctionSite.Text : FunctionSite → List Token → Prop
  | .named outer head ident, ts => ∃ us, outer.Text us ∧
      ts = us ++ [⟨.word .functionWord, head⟩, ⟨.name ident.name, ident.span⟩]
  | .anonymous outer head, ts => ∃ us, outer.Text us ∧ ts = us ++ [⟨.word .functionWord, head⟩]

def BlockSite.Text : BlockSite → List Token → Prop
  | .bare outer, ts => outer.Text ts
  | .whileBody outer head cond, ts => ∃ us vs o c, outer.Text us ∧ Phrase.Text (.expr cond) vs ∧
      ts = us ++ ⟨.word .whileWord, head⟩ :: ⟨.mark .openParen, o⟩ :: vs ++
        [⟨.mark .closeParen, c⟩]
  | .forBody outer head kind ident iterable, ts => ∃ us vs o p q c, outer.Text us ∧
      Phrase.Text (.expr iterable) vs ∧
      ts = us ++ ⟨.word .forWord, head⟩ :: ⟨.mark .openParen, o⟩ :: ⟨.word kind.word, p⟩ ::
        ⟨.name ident.name, ident.span⟩ :: ⟨.word .ofWord, q⟩ :: vs ++ [⟨.mark .closeParen, c⟩]
  | .tryBody outer head, ts => ∃ us, outer.Text us ∧ ts = us ++ [⟨.word .tryWord, head⟩]
  | .catchBody outer head tried ident, ts => ∃ us vs p o c, outer.Text us ∧
      Phrase.Text (.block tried) vs ∧
      ts = us ++ ⟨.word .tryWord, head⟩ :: vs ++ [⟨.word .catchWord, p⟩, ⟨.mark .openParen, o⟩,
        ⟨.name ident.name, ident.span⟩, ⟨.mark .closeParen, c⟩]
  | .thenPart outer head cond, ts => ∃ us vs o c, outer.Text us ∧ Phrase.Text (.expr cond) vs ∧
      ts = us ++ ⟨.word .ifWord, head⟩ :: ⟨.mark .openParen, o⟩ :: vs ++ [⟨.mark .closeParen, c⟩]
  | .elsePart outer head cond thenPart, ts => ∃ us vs ws o c s, outer.Text us ∧
      Phrase.Text (.expr cond) vs ∧ Phrase.Text (.block thenPart) ws ∧
      ts = us ++ ⟨.word .ifWord, head⟩ :: ⟨.mark .openParen, o⟩ :: vs ++ ⟨.mark .closeParen, c⟩ ::
        ws ++ [⟨.word .elseWord, s⟩]

def BranchSite.Text : BranchSite → List Token → Prop
  | .statement outer, ts => outer.Text ts
  | .elseIf outer head cond thenPart, ts => ∃ us vs ws o c s, outer.Text us ∧
      Phrase.Text (.expr cond) vs ∧ Phrase.Text (.block thenPart) ws ∧
      ts = us ++ ⟨.word .ifWord, head⟩ :: ⟨.mark .openParen, o⟩ :: vs ++ ⟨.mark .closeParen, c⟩ ::
        ws ++ [⟨.word .elseWord, s⟩]

def ExprSite.Text : ExprSite → List Token → Prop
  | .effect outer, ts => outer.Text ts
  | .print outer head, ts => ∃ us, outer.Text us ∧ ts = us ++ [⟨.word .printWord, head⟩]
  | .ret outer head, ts => ∃ us, outer.Text us ∧ ts = us ++ [⟨.word .returnWord, head⟩]
  | .spawn outer head, ts => ∃ us, outer.Text us ∧ ts = us ++ [⟨.word .spawnWord, head⟩]
  | .throw outer head, ts => ∃ us, outer.Text us ∧ ts = us ++ [⟨.word .throwWord, head⟩]
  | .assign outer ident, ts => ∃ us t, outer.Text us ∧
      ts = us ++ [⟨.name ident.name, ident.span⟩, ⟨.mark .assign, t⟩]
  | .init outer kind head done ident, ts => ∃ us vs t, outer.Text us ∧ ItemsBefore done vs ∧
      ts = us ++ ⟨.word kind.word, head⟩ :: vs ++
        [⟨.name ident.name, ident.span⟩, ⟨.mark .assign, t⟩]
  | .pattern outer kind head idents, ts => ∃ us vs o c t, outer.Text us ∧
      Phrase.Text (.idents idents) vs ∧
      ts = us ++ ⟨.word kind.word, head⟩ :: ⟨.mark .openBracket, o⟩ :: vs ++
        [⟨.mark .closeBracket, c⟩, ⟨.mark .assign, t⟩]
  | .whileCond outer head, ts => ∃ us o, outer.Text us ∧
      ts = us ++ [⟨.word .whileWord, head⟩, ⟨.mark .openParen, o⟩]
  | .iterable outer head kind ident, ts => ∃ us o p q, outer.Text us ∧
      ts = us ++ [⟨.word .forWord, head⟩, ⟨.mark .openParen, o⟩, ⟨.word kind.word, p⟩,
        ⟨.name ident.name, ident.span⟩, ⟨.word .ofWord, q⟩]
  | .branchCond outer head, ts => ∃ us o, outer.Text us ∧
      ts = us ++ [⟨.word .ifWord, head⟩, ⟨.mark .openParen, o⟩]
  | .group outer, ts => ∃ us o, outer.Text us ∧ ts = us ++ [⟨.mark .openParen, o⟩]
  | .argument outer callee done, ts => ∃ us vs ws o, outer.Text us ∧
      Phrase.Text (.expr callee) vs ∧ ExprsBefore done ws ∧
      ts = us ++ vs ++ ⟨.mark .openParen, o⟩ :: ws
  | .element outer head done, ts => ∃ us vs, outer.Text us ∧ ExprsBefore done vs ∧
      ts = us ++ ⟨.mark .openBracket, head⟩ :: vs
  | .subscript outer base, ts => ∃ us vs o, outer.Text us ∧ Phrase.Text (.expr base) vs ∧
      ts = us ++ vs ++ [⟨.mark .openBracket, o⟩]

def Operand.Text : Operand → List Token → Prop
  | .mk outer pending, ts => ∃ us vs, outer.Text us ∧ Pending.AllText pending vs ∧ ts = us ++ vs

end

def Reading.Text : Reading → List Token → Prop
  | .start, ts => ts = []
  | .statements body, ts => body.Text ts
  | .operand place, ts => place.Text ts
  | .value place e, ts => ∃ us vs, place.Text us ∧ Phrase.Text (.expr e) vs ∧ ts = us ++ vs
  | .leadingName body ident, ts => ∃ us, body.Text us ∧ ts = us ++ [⟨.name ident.name, ident.span⟩]
  | .leadingFunction body head, ts => ∃ us, body.Text us ∧ ts = us ++ [⟨.word .functionWord, head⟩]
  | .beforeParams site, ts => site.Text ts
  | .firstParam site, ts => ∃ us o, site.Text us ∧ ts = us ++ [⟨.mark .openParen, o⟩]
  | .afterParam site params, ts => ∃ us vs o, site.Text us ∧ Phrase.Text (.idents params) vs ∧
      ts = us ++ ⟨.mark .openParen, o⟩ :: vs
  | .nextParam site params, ts => ∃ us vs o s, site.Text us ∧ Phrase.Text (.idents params) vs ∧
      ts = us ++ ⟨.mark .openParen, o⟩ :: vs ++ [⟨.mark .comma, s⟩]
  | .afterParams site params, ts => ∃ us vs o c, site.Text us ∧ Phrase.Text (.params params) vs ∧
      ts = us ++ ⟨.mark .openParen, o⟩ :: vs ++ [⟨.mark .closeParen, c⟩]
  | .declaring body kind head, ts => ∃ us, body.Text us ∧ ts = us ++ [⟨.word kind.word, head⟩]
  | .nextDeclarator body kind head done, ts => ∃ us vs, body.Text us ∧ done ≠ [] ∧
      ItemsBefore done vs ∧ ts = us ++ ⟨.word kind.word, head⟩ :: vs
  | .afterDeclared body kind head done ident, ts => ∃ us vs, body.Text us ∧ ItemsBefore done vs ∧
      ts = us ++ ⟨.word kind.word, head⟩ :: vs ++ [⟨.name ident.name, ident.span⟩]
  | .firstElementName body kind head, ts => ∃ us o, body.Text us ∧
      ts = us ++ [⟨.word kind.word, head⟩, ⟨.mark .openBracket, o⟩]
  | .afterElementName body kind head idents, ts => ∃ us vs o, body.Text us ∧
      Phrase.Text (.idents idents) vs ∧
      ts = us ++ ⟨.word kind.word, head⟩ :: ⟨.mark .openBracket, o⟩ :: vs
  | .nextElementName body kind head idents, ts => ∃ us vs o s, body.Text us ∧
      Phrase.Text (.idents idents) vs ∧
      ts = us ++ ⟨.word kind.word, head⟩ :: ⟨.mark .openBracket, o⟩ :: vs ++ [⟨.mark .comma, s⟩]
  | .afterPattern body kind head idents, ts => ∃ us vs o c, body.Text us ∧
      Phrase.Text (.idents idents) vs ∧
      ts = us ++ ⟨.word kind.word, head⟩ :: ⟨.mark .openBracket, o⟩ :: vs ++
        [⟨.mark .closeBracket, c⟩]
  | .returning body head, ts => ∃ us, body.Text us ∧ ts = us ++ [⟨.word .returnWord, head⟩]
  | .pausing body head, ts => ∃ us, body.Text us ∧ ts = us ++ [⟨.word .pauseWord, head⟩]
  | .whileWord body head, ts => ∃ us, body.Text us ∧ ts = us ++ [⟨.word .whileWord, head⟩]
  | .ifWord site head, ts => ∃ us, site.Text us ∧ ts = us ++ [⟨.word .ifWord, head⟩]
  | .forWord body head, ts => ∃ us, body.Text us ∧ ts = us ++ [⟨.word .forWord, head⟩]
  | .forKind body head, ts => ∃ us o, body.Text us ∧
      ts = us ++ [⟨.word .forWord, head⟩, ⟨.mark .openParen, o⟩]
  | .forName body head kind, ts => ∃ us o p, body.Text us ∧
      ts = us ++ [⟨.word .forWord, head⟩, ⟨.mark .openParen, o⟩, ⟨.word kind.word, p⟩]
  | .forOf body head kind ident, ts => ∃ us o p, body.Text us ∧
      ts = us ++ [⟨.word .forWord, head⟩, ⟨.mark .openParen, o⟩, ⟨.word kind.word, p⟩,
        ⟨.name ident.name, ident.span⟩]
  | .beforeBlock site, ts => site.Text ts
  | .afterTried body head tried, ts => ∃ us vs, body.Text us ∧ Phrase.Text (.block tried) vs ∧
      ts = us ++ ⟨.word .tryWord, head⟩ :: vs
  | .catchWord body head tried, ts => ∃ us vs p, body.Text us ∧ Phrase.Text (.block tried) vs ∧
      ts = us ++ ⟨.word .tryWord, head⟩ :: vs ++ [⟨.word .catchWord, p⟩]
  | .catchName body head tried, ts => ∃ us vs p o, body.Text us ∧ Phrase.Text (.block tried) vs ∧
      ts = us ++ ⟨.word .tryWord, head⟩ :: vs ++ [⟨.word .catchWord, p⟩, ⟨.mark .openParen, o⟩]
  | .afterCatchName body head tried ident, ts => ∃ us vs p o, body.Text us ∧
      Phrase.Text (.block tried) vs ∧
      ts = us ++ ⟨.word .tryWord, head⟩ :: vs ++ [⟨.word .catchWord, p⟩, ⟨.mark .openParen, o⟩,
        ⟨.name ident.name, ident.span⟩]
  | .afterThen site head cond thenPart, ts => ∃ us vs ws o c, site.Text us ∧
      Phrase.Text (.expr cond) vs ∧ Phrase.Text (.block thenPart) ws ∧
      ts = us ++ ⟨.word .ifWord, head⟩ :: ⟨.mark .openParen, o⟩ :: vs ++
        ⟨.mark .closeParen, c⟩ :: ws
  | .afterElse site head cond thenPart, ts => ∃ us vs ws o c s, site.Text us ∧
      Phrase.Text (.expr cond) vs ∧ Phrase.Text (.block thenPart) ws ∧
      ts = us ++ ⟨.word .ifWord, head⟩ :: ⟨.mark .openParen, o⟩ :: vs ++ ⟨.mark .closeParen, c⟩ ::
        ws ++ [⟨.word .elseWord, s⟩]
  | .firstArgument place callee, ts => ∃ us vs o, place.Text us ∧ Phrase.Text (.expr callee) vs ∧
      ts = us ++ vs ++ [⟨.mark .openParen, o⟩]
  | .firstElement place head, ts => ∃ us, place.Text us ∧ ts = us ++ [⟨.mark .openBracket, head⟩]
  | .afterArguments place callee args, ts => ∃ us vs ws o, place.Text us ∧
      Phrase.Text (.expr callee) vs ∧ Phrase.Text (.exprs args) ws ∧
      ts = us ++ vs ++ ⟨.mark .openParen, o⟩ :: ws
  | .afterElements place head elements, ts => ∃ us vs, place.Text us ∧
      Phrase.Text (.exprs elements) vs ∧ ts = us ++ ⟨.mark .openBracket, head⟩ :: vs

/-- The constructs that are read in steps of their own. -/
inductive Construct where
  | function
  | declaration
  | loop
  | tryCatch
  | conditional
  | expressions
  | other

def Reading.construct : Reading → Construct
  | leadingFunction _ _ | beforeParams _ | firstParam _ | afterParam _ _ | nextParam _ _
  | afterParams _ _ => .function
  | declaring _ _ _ | nextDeclarator _ _ _ _ | afterDeclared _ _ _ _ _ | firstElementName _ _ _
  | afterElementName _ _ _ _ | nextElementName _ _ _ _ | afterPattern _ _ _ _ => .declaration
  | whileWord _ _ | forWord _ _ | forKind _ _ | forName _ _ _ | forOf _ _ _ _ => .loop
  | afterTried _ _ _ | catchWord _ _ _ | catchName _ _ _ | afterCatchName _ _ _ _ => .tryCatch
  | ifWord _ _ | afterThen _ _ _ _ | afterElse _ _ _ _ => .conditional
  | firstArgument _ _ | firstElement _ _ | afterArguments _ _ _ | afterElements _ _ _ =>
    .expressions
  | _ => .other

@[simp]
theorem Reading.text_statements {body : Body} {ts : List Token} :
    (statements body).Text ts ↔ body.Text ts := Iff.rfl

/-! ### Finishing constructs -/

theorem Body.text_push {body : Body} {s : Stmt} {ts us : List Token} (hbody : body.Text ts)
    (hs : Phrase.Text (.stmt s) us) : (body.push s).Text (ts ++ us) := by
  cases body with
  | program done => exact .nextStmt hbody hs
  | block outer head done =>
    obtain ⟨vs, ws, houter, hdone, rfl⟩ := hbody
    exact ⟨vs, ws ++ us, houter, .nextStmt hdone hs, by simp⟩
  | function outer params done =>
    obtain ⟨vs, ps, ws, o, p, q, houter, hparams, hdone, rfl⟩ := hbody
    exact ⟨vs, ps, ws ++ us, o, p, q, houter, hparams, .nextStmt hdone hs, by simp⟩

/-- A finished conditional is the `else` part of every conditional around it. -/
theorem BranchSite.text_close {s : Stmt} {ts us : List Token} :
    (site : BranchSite) → site.Text ts → Phrase.Text (.conditional s) us →
      (site.close s).Text (ts ++ us)
  | .statement _, hsite, hs => Body.text_push hsite (.branch hs)
  | .elseIf outer head cond thenPart, hsite, hs => by
    obtain ⟨vs, cs, bs, o, c, e, houter, hcond, hthen, rfl⟩ := hsite
    have helse := Phrase.Text.elseIf (h := head) (o := o) (c := c) (s := e) hcond hthen hs
    have h := outer.text_close houter helse
    simpa [BranchSite.close] using h

namespace Pending

theorem text_apply {p : Pending} {e : Expr} {ts us : List Token} (hp : p.Text ts)
    (he : Phrase.Text (.expr e) us) : Phrase.Text (.expr (p.apply e)) (ts ++ us) := by
  cases p with
  | prefixed op head =>
    obtain ⟨l, hl, rfl⟩ := hp
    exact .prefixed hl he
  | infixed lhs op =>
    obtain ⟨l, s, vs, hl, hlhs, rfl⟩ := hp
    simpa [apply] using Phrase.Text.infixed (s := s) hl hlhs he

theorem text_close {l : Nat} {pending waiting : List Pending} {e whole : Expr}
    {ts us : List Token} (h : close l pending e = (waiting, whole))
    (hpending : AllText pending ts) (he : Phrase.Text (.expr e) us) :
    ∃ vs ws, AllText waiting vs ∧ Phrase.Text (.expr whole) ws ∧ ts ++ us = vs ++ ws := by
  induction pending generalizing e ts us with
  | nil =>
    obtain ⟨rfl, rfl⟩ := Prod.mk.inj h
    exact ⟨ts, us, hpending, he, rfl⟩
  | cons p more ih =>
    rw [close] at h
    split at h
    · obtain ⟨vs, ws, hmore, hp, rfl⟩ := hpending
      obtain ⟨as, bs, hwaiting, hwhole, heq⟩ := ih h hmore (text_apply hp he)
      exact ⟨as, bs, hwaiting, hwhole, by simpa using heq⟩
    · obtain ⟨rfl, rfl⟩ := Prod.mk.inj h
      exact ⟨ts, us, hpending, he, rfl⟩

theorem text_closeAll {pending : List Pending} {e : Expr} {ts us : List Token}
    (hpending : AllText pending ts) (he : Phrase.Text (.expr e) us) :
    Phrase.Text (.expr (closeAll pending e)) (ts ++ us) := by
  induction pending generalizing e ts us with
  | nil =>
    obtain rfl := hpending
    exact he
  | cons p more ih =>
    obtain ⟨vs, ws, hmore, hp, rfl⟩ := hpending
    simpa [closeAll] using ih hmore (text_apply hp he)

end Pending

theorem ExprSite.text_fresh {s : ExprSite} {ts : List Token} (h : s.Text ts) :
    s.fresh.Text ts :=
  ⟨ts, [], h, rfl, by simp⟩

theorem Operand.text_push {place : Operand} {p : Pending} {ts us : List Token}
    (hplace : place.Text ts) (hp : p.Text us) : (place.push p).Text (ts ++ us) := by
  obtain ⟨outer, pending⟩ := place
  obtain ⟨vs, ws, houter, hpending, rfl⟩ := hplace
  exact ⟨vs, ws ++ us, houter, ⟨ws, us, hpending, hp, rfl⟩, by simp⟩

/-- With another expression a list of finished expressions is one of at least one. -/
theorem ExprsBefore.text {es : List Expr} {e : Expr} {ts us : List Token} (h : ExprsBefore es ts)
    (he : Phrase.Text (.expr e) us) : Phrase.Text (.exprs (es ++ [e])) (ts ++ us) := by
  obtain ⟨rfl, rfl⟩ | ⟨vs, s, hes, rfl⟩ := h
  · exact .firstExpr he
  · simpa using Phrase.Text.nextExpr (s := s) hes he

theorem ItemsBefore.text {items : List Declarator} {item : Declarator} {ts us : List Token}
    (h : ItemsBefore items ts) (hitem : Phrase.Text (.item item) us) :
    Phrase.Text (.items (items ++ [item])) (ts ++ us) := by
  obtain ⟨rfl, rfl⟩ | ⟨vs, s, hitems, rfl⟩ := h
  · exact .firstItem hitem
  · simpa using Phrase.Text.nextItem (s := s) hitems hitem

/-! ### Settling -/

namespace Reading

theorem text_settleValue {outer : ExprSite} {pending : List Pending} {e : Expr} {next : Lexeme}
    {ts : List Token} (h : (value (.mk outer pending) e).Text ts) :
    (settleValue outer pending e next).Text ts := by
  obtain ⟨us, vs, ⟨os, ps, houter, hpending, rfl⟩, he, rfl⟩ := h
  rw [settleValue]
  split
  next op _ =>
    obtain ⟨as, bs, hwaiting, hwhole, heq⟩ := Pending.text_close (l := op.level) rfl hpending he
    exact ⟨os ++ as, bs, ⟨os, as, houter, hwaiting, rfl⟩, hwhole, by simp [heq]⟩
  next =>
    split
    · have hwhole := Pending.text_closeAll hpending he
      have hvalue (place : ExprSite) (hplace : place.Text os) :
          (value place.fresh (Pending.closeAll pending e)).Text (os ++ ps ++ vs) :=
        ⟨os, ps ++ vs, ExprSite.text_fresh hplace, hwhole, by simp⟩
      split
      · obtain ⟨as, bs, cs, o, hplace, hcallee, hdone, rfl⟩ := houter
        exact ⟨as, bs, cs ++ (ps ++ vs), o, hplace, hcallee, hdone.text hwhole, by simp⟩
      · obtain ⟨as, bs, cs, o, hplace, hcallee, hdone, rfl⟩ := houter
        exact ⟨as, bs, cs ++ (ps ++ vs), o, hplace, hcallee, hdone.text hwhole, by simp⟩
      · obtain ⟨as, bs, hplace, hdone, rfl⟩ := houter
        exact ⟨as, bs ++ (ps ++ vs), hplace, hdone.text hwhole, by simp⟩
      · obtain ⟨as, bs, hplace, hdone, rfl⟩ := houter
        exact ⟨as, bs ++ (ps ++ vs), hplace, hdone.text hwhole, by simp⟩
      · exact hvalue _ houter
    · exact ⟨os ++ ps, vs, ⟨os, ps, houter, hpending, rfl⟩, he, rfl⟩

/-- Settling accounts for the same tokens. -/
theorem text_settle {reading : Reading} {ts : List Token} (next : Lexeme) (h : reading.Text ts) :
    (reading.settle next).Text ts := by
  cases reading with
  | start =>
    rw [settle]
    split
    · obtain rfl := h
      exact Phrase.Text.noStmts
    · exact h
  | value place e =>
    obtain ⟨outer, pending⟩ := place
    exact text_settleValue h
  | leadingName body ident =>
    rw [settle]
    split
    · obtain ⟨us, hbody, rfl⟩ := h
      exact ⟨us, _, ExprSite.text_fresh hbody, .lookup, rfl⟩
    · exact h
  | afterThen site head cond thenPart =>
    rw [settle]
    split
    · obtain ⟨us, vs, ws, o, c, hsite, hcond, hthen, rfl⟩ := h
      have hclosed := site.text_close hsite (.thenOnly (h := head) (o := o) (c := c) hcond hthen)
      simpa [Reading.Text] using hclosed
    · exact h
  | _ => exact h

/-! ### Taking a token -/

theorem text_shiftOperand {place : Operand} {token : Token} {next : Reading} {ts : List Token}
    (h : place.Text ts) (hnext : shiftOperand place token = some next) :
    next.Text (ts ++ [token]) := by
  obtain ⟨lexeme, span⟩ := token
  unfold shiftOperand at hnext
  dsimp only at hnext
  split at hnext
  next v hv =>
    obtain rfl := Option.some.inj hnext
    exact ⟨ts, _, h, .literal hv, rfl⟩
  split at hnext
  next op hop =>
    obtain rfl := Option.some.inj hnext
    exact Operand.text_push h ⟨lexeme, hop, rfl⟩
  split at hnext
  next n =>
    obtain rfl := Option.some.inj hnext
    exact ⟨ts, _, h, .lookup, rfl⟩
  next =>
    obtain rfl := Option.some.inj hnext
    exact ExprSite.text_fresh ⟨ts, span, h, rfl⟩
  next =>
    obtain rfl := Option.some.inj hnext
    exact ⟨ts, h, rfl⟩
  next =>
    obtain rfl := Option.some.inj hnext
    exact ⟨ts, h, rfl⟩
  next => cases hnext

/-- A finished block goes to the construct that it is a part of. -/
theorem text_closeBrace_block {outer : BlockSite} {head : Span} {done : List Stmt} {next : Reading}
    {span : Span} {ts : List Token} (h : (Body.block outer head done).Text ts)
    (hnext : shiftStatement (.block outer head done) ⟨.mark .closeBrace, span⟩ = some next) :
    next.Text (ts ++ [⟨.mark .closeBrace, span⟩]) := by
  obtain ⟨us, vs, houter, hdone, rfl⟩ := h
  have hblock := Phrase.Text.block (o := head) (c := span) hdone
  cases outer with
  | bare body =>
    obtain rfl := Option.some.inj hnext
    simpa using body.text_push houter (.inner hblock)
  | whileBody body first cond =>
    obtain rfl := Option.some.inj hnext
    obtain ⟨as, bs, o, c, hbody, hcond, rfl⟩ := houter
    simpa using body.text_push hbody (.whileLoop (h := first) (o := o) (c := c) hcond hblock)
  | forBody body first kind ident iterable =>
    obtain rfl := Option.some.inj hnext
    obtain ⟨as, bs, o, p, q, c, hbody, hiterable, rfl⟩ := houter
    simpa using body.text_push hbody
      (.forOf (h := first) (o := o) (p := p) (q := q) (c := c) hiterable hblock)
  | tryBody body first =>
    obtain rfl := Option.some.inj hnext
    obtain ⟨as, hbody, rfl⟩ := houter
    exact ⟨as, _, hbody, hblock, by simp⟩
  | catchBody body first tried ident =>
    obtain rfl := Option.some.inj hnext
    obtain ⟨as, bs, p, o, c, hbody, htried, rfl⟩ := houter
    simpa using body.text_push hbody
      (.tryCatch (h := first) (o := o) (p := p) (c := c) htried hblock)
  | thenPart site first cond =>
    obtain rfl := Option.some.inj hnext
    obtain ⟨as, bs, o, c, hsite, hcond, rfl⟩ := houter
    exact ⟨as, bs, _, o, c, hsite, hcond, hblock, by simp⟩
  | elsePart site first cond thenPart =>
    obtain rfl := Option.some.inj hnext
    obtain ⟨as, bs, cs, o, c, s, hsite, hcond, hthen, rfl⟩ := houter
    simpa using site.text_close hsite
      (.elseBlock (h := first) (o := o) (c := c) (s := s) hcond hthen hblock)

/-- A finished function is a statement or an operand. -/
theorem text_closeBrace_function {outer : FunctionSite} {params : List Ident} {done : List Stmt}
    {next : Reading} {span : Span} {ts : List Token}
    (h : (Body.function outer params done).Text ts)
    (hnext : shiftStatement (.function outer params done) ⟨.mark .closeBrace, span⟩ = some next) :
    next.Text (ts ++ [⟨.mark .closeBrace, span⟩]) := by
  obtain ⟨us, vs, ws, o, p, q, houter, hparams, hdone, rfl⟩ := h
  cases outer with
  | named body first ident =>
    obtain rfl := Option.some.inj hnext
    obtain ⟨as, hbody, rfl⟩ := houter
    simpa using body.text_push hbody (.named (h := first) (o := o) (p := p) (q := q) (c := span)
      hparams hdone)
  | anonymous place first =>
    obtain rfl := Option.some.inj hnext
    obtain ⟨as, hplace, rfl⟩ := houter
    exact ⟨as, _, hplace, .anonymous (h := first) (o := o) (p := p) (q := q) (c := span)
      hparams hdone, by simp⟩

theorem text_shiftStatement {body : Body} {token : Token} {next : Reading} {ts : List Token}
    (h : body.Text ts) (hnext : shiftStatement body token = some next) :
    next.Text (ts ++ [token]) := by
  obtain ⟨lexeme, span⟩ := token
  have hsite {site : ExprSite} (hs : site.Text (ts ++ [⟨lexeme, span⟩])) :
      (operand site.fresh).Text (ts ++ [⟨lexeme, span⟩]) := ExprSite.text_fresh hs
  unfold shiftStatement at hnext
  dsimp only at hnext
  split at hnext
  next => exact Option.some.inj hnext ▸ ⟨ts, h, rfl⟩
  next => exact Option.some.inj hnext ▸ ⟨ts, [], h, .noStmts, rfl⟩
  next =>
    cases body with
    | program done => cases hnext
    | block outer head done => exact text_closeBrace_block h hnext
    | function outer params done => exact text_closeBrace_function h hnext
  next => exact Option.some.inj hnext ▸ ⟨ts, h, rfl⟩
  next => exact Option.some.inj hnext ▸ ⟨ts, h, rfl⟩
  next => exact Option.some.inj hnext ▸ ⟨ts, h, rfl⟩
  next => exact Option.some.inj hnext ▸ hsite ⟨ts, h, rfl⟩
  next => exact Option.some.inj hnext ▸ hsite ⟨ts, h, rfl⟩
  next => exact Option.some.inj hnext ▸ hsite ⟨ts, h, rfl⟩
  next => exact Option.some.inj hnext ▸ ⟨ts, h, rfl⟩
  next => exact Option.some.inj hnext ▸ ⟨ts, h, rfl⟩
  next => exact Option.some.inj hnext ▸ ⟨ts, h, rfl⟩
  next => exact Option.some.inj hnext ▸ ⟨ts, h, rfl⟩
  next => exact Option.some.inj hnext ▸ ⟨ts, h, rfl⟩
  next => exact Option.some.inj hnext ▸ ⟨ts, h, rfl⟩
  next => exact text_shiftOperand (ExprSite.text_fresh (s := .effect body) h) hnext

theorem text_shiftSemicolon {site : ExprSite} {e : Expr} {last : Span} {next : Reading}
    {ts us : List Token} (hsite : site.Text ts) (he : Phrase.Text (.expr e) us)
    (hnext : shiftSemicolon site e last = some next) :
    next.Text (ts ++ us ++ [⟨.mark .semicolon, last⟩]) := by
  cases site with
  | effect body =>
    obtain rfl := Option.some.inj hnext
    simpa using body.text_push hsite (.effect (c := last) he)
  | print body head =>
    obtain rfl := Option.some.inj hnext
    obtain ⟨as, hbody, rfl⟩ := hsite
    simpa using body.text_push hbody (.print (h := head) (c := last) he)
  | ret body head =>
    obtain rfl := Option.some.inj hnext
    obtain ⟨as, hbody, rfl⟩ := hsite
    simpa using body.text_push hbody (.ret (h := head) (c := last) he)
  | spawn body head =>
    obtain rfl := Option.some.inj hnext
    obtain ⟨as, hbody, rfl⟩ := hsite
    simpa using body.text_push hbody (.spawn (h := head) (c := last) he)
  | throw body head =>
    obtain rfl := Option.some.inj hnext
    obtain ⟨as, hbody, rfl⟩ := hsite
    simpa using body.text_push hbody (.throw (h := head) (c := last) he)
  | assign body ident =>
    obtain rfl := Option.some.inj hnext
    obtain ⟨as, t, hbody, rfl⟩ := hsite
    simpa using body.text_push hbody (.assign (s := ident.span) (t := t) (c := last) he)
  | init body kind head done ident =>
    obtain rfl := Option.some.inj hnext
    obtain ⟨as, bs, t, hbody, hdone, rfl⟩ := hsite
    have hitems := hdone.text (.initItem (n := ident.name) (s := ident.span) (t := t) he)
    simpa using body.text_push hbody (.declare (k := kind) (h := head) (c := last) hitems)
  | pattern body kind head idents =>
    obtain rfl := Option.some.inj hnext
    obtain ⟨as, bs, o, p, q, hbody, hidents, rfl⟩ := hsite
    simpa using body.text_push hbody
      (.destructure (k := kind) (h := head) (o := o) (p := p) (q := q) (c := last) hidents he)
  | _ => cases hnext

theorem text_shiftCloseParen {site : ExprSite} {e : Expr} {last : Span} {next : Reading}
    {ts us : List Token} (hsite : site.Text ts) (he : Phrase.Text (.expr e) us)
    (hnext : shiftCloseParen site e = some next) :
    next.Text (ts ++ us ++ [⟨.mark .closeParen, last⟩]) := by
  cases site with
  | group place =>
    obtain rfl := Option.some.inj hnext
    obtain ⟨as, o, hplace, rfl⟩ := hsite
    exact ⟨as, _, hplace, .group (o := o) (c := last) he, by simp⟩
  | whileCond body head =>
    obtain rfl := Option.some.inj hnext
    obtain ⟨as, o, hbody, rfl⟩ := hsite
    exact ⟨as, us, o, last, hbody, he, by simp⟩
  | branchCond site head =>
    obtain rfl := Option.some.inj hnext
    obtain ⟨as, o, hsite, rfl⟩ := hsite
    exact ⟨as, us, o, last, hsite, he, by simp⟩
  | iterable body head kind ident =>
    obtain rfl := Option.some.inj hnext
    obtain ⟨as, o, p, q, hbody, rfl⟩ := hsite
    exact ⟨as, us, o, p, q, last, hbody, he, by simp⟩
  | _ => cases hnext

theorem text_shiftComma {site : ExprSite} {e : Expr} {last : Span} {next : Reading}
    {ts us : List Token} (hsite : site.Text ts) (he : Phrase.Text (.expr e) us)
    (hnext : shiftComma site e = some next) :
    next.Text (ts ++ us ++ [⟨.mark .comma, last⟩]) := by
  cases site with
  | init body kind head done ident =>
    obtain rfl := Option.some.inj hnext
    obtain ⟨as, bs, t, hbody, hdone, rfl⟩ := hsite
    have hitems := hdone.text (.initItem (n := ident.name) (s := ident.span) (t := t) he)
    exact ⟨as, _, hbody, by simp, .inr ⟨_, last, hitems, rfl⟩, by simp⟩
  | argument place callee done =>
    obtain rfl := Option.some.inj hnext
    obtain ⟨as, bs, cs, o, hplace, hcallee, hdone, rfl⟩ := hsite
    exact ExprSite.text_fresh
      ⟨as, bs, _, o, hplace, hcallee, .inr ⟨_, last, hdone.text he, rfl⟩, by simp⟩
  | element place head done =>
    obtain rfl := Option.some.inj hnext
    obtain ⟨as, bs, hplace, hdone, rfl⟩ := hsite
    exact ExprSite.text_fresh ⟨as, _, hplace, .inr ⟨_, last, hdone.text he, rfl⟩, by simp⟩
  | _ => cases hnext

theorem text_shiftValue {place : Operand} {e : Expr} {token : Token} {next : Reading}
    {ts us : List Token} (hplace : place.Text ts) (he : Phrase.Text (.expr e) us)
    (hnext : shiftValue place e token = some next) : next.Text (ts ++ us ++ [token]) := by
  obtain ⟨lexeme, span⟩ := token
  unfold shiftValue at hnext
  dsimp only at hnext
  split at hnext
  next op hop =>
    obtain rfl := Option.some.inj hnext
    have hpushed := place.text_push (p := .infixed e op) hplace ⟨lexeme, span, us, hop, he, rfl⟩
    simpa [Reading.Text] using hpushed
  have hsite {site : ExprSite} (hfresh : (Operand.mk site []).Text ts) : site.Text ts := by
    obtain ⟨as, bs, hsite, hnone, rfl⟩ := hfresh
    obtain rfl := hnone
    simpa using hsite
  split at hnext
  next => exact Option.some.inj hnext ▸ ⟨ts, us, span, hplace, he, rfl⟩
  next => exact Option.some.inj hnext ▸ ExprSite.text_fresh ⟨ts, us, span, hplace, he, rfl⟩
  next => exact text_shiftSemicolon (hsite hplace) he hnext
  next => exact text_shiftCloseParen (hsite hplace) he hnext
  next => exact text_shiftComma (hsite hplace) he hnext
  next place base _ =>
    obtain rfl := Option.some.inj hnext
    obtain ⟨as, bs, o, houter, hbase, rfl⟩ := hsite hplace
    exact ⟨as, _, houter, .index (o := o) (c := span) hbase he, by simp⟩
  next => cases hnext

section Constructs

variable {reading next : Reading} {token : Token} {ts : List Token}

theorem text_shift_function (hconstruct : reading.construct = .function) (h : reading.Text ts)
    (hnext : reading.shift token = some next) : next.Text (ts ++ [token]) := by
  obtain ⟨lexeme, span⟩ := token
  cases reading with
  | leadingFunction body head =>
    obtain ⟨us, hbody, rfl⟩ := h
    dsimp only [shift] at hnext
    split at hnext <;> cases hnext
    · exact ⟨us, hbody, by simp⟩
    · exact ⟨_, span, ⟨us, ExprSite.text_fresh (s := .effect body) hbody, rfl⟩, rfl⟩
  | beforeParams site =>
    dsimp only [shift] at hnext
    split at hnext <;> cases hnext
    exact ⟨ts, span, h, rfl⟩
  | firstParam site =>
    obtain ⟨us, o, hsite, rfl⟩ := h
    dsimp only [shift] at hnext
    split at hnext <;> cases hnext
    · exact ⟨us, _, o, hsite, .firstIdent, by simp⟩
    · exact ⟨us, [], o, span, hsite, .noParams, by simp⟩
  | afterParam site params =>
    obtain ⟨us, vs, o, hsite, hparams, rfl⟩ := h
    dsimp only [shift] at hnext
    split at hnext <;> cases hnext
    · exact ⟨us, vs, o, span, hsite, hparams, by simp⟩
    · exact ⟨us, vs, o, span, hsite, .someParams hparams, by simp⟩
  | nextParam site params =>
    obtain ⟨us, vs, o, s, hsite, hparams, rfl⟩ := h
    dsimp only [shift] at hnext
    split at hnext <;> cases hnext
    exact ⟨us, _, o, hsite, .nextIdent (s := s) (t := span) hparams, by simp⟩
  | afterParams site params =>
    obtain ⟨us, vs, o, c, hsite, hparams, rfl⟩ := h
    dsimp only [shift] at hnext
    split at hnext <;> cases hnext
    exact ⟨us, vs, [], o, c, span, hsite, hparams, .noStmts, by simp⟩
  | _ => cases hconstruct

theorem text_shift_declaration (hconstruct : reading.construct = .declaration) (h : reading.Text ts)
    (hnext : reading.shift token = some next) : next.Text (ts ++ [token]) := by
  obtain ⟨lexeme, span⟩ := token
  cases reading with
  | declaring body kind head =>
    obtain ⟨us, hbody, rfl⟩ := h
    dsimp only [shift] at hnext
    split at hnext <;> cases hnext
    · exact ⟨us, [], hbody, .inl ⟨rfl, rfl⟩, by simp⟩
    · exact ⟨us, span, hbody, by simp⟩
  | nextDeclarator body kind head done =>
    obtain ⟨us, vs, hbody, -, hdone, rfl⟩ := h
    dsimp only [shift] at hnext
    split at hnext <;> cases hnext
    exact ⟨us, vs, hbody, hdone, by simp⟩
  | afterDeclared body kind head done ident =>
    obtain ⟨us, vs, hbody, hdone, rfl⟩ := h
    have hitems := hdone.text (.plainItem (n := ident.name) (s := ident.span))
    dsimp only [shift] at hnext
    split at hnext <;> cases hnext
    · exact ExprSite.text_fresh ⟨us, vs, span, hbody, hdone, by simp⟩
    · exact ⟨us, _, hbody, by simp, .inr ⟨_, span, hitems, rfl⟩, by simp⟩
    · simpa using body.text_push hbody (.declare (k := kind) (h := head) (c := span) hitems)
  | firstElementName body kind head =>
    obtain ⟨us, o, hbody, rfl⟩ := h
    dsimp only [shift] at hnext
    split at hnext <;> cases hnext
    exact ⟨us, _, o, hbody, .firstIdent, by simp⟩
  | afterElementName body kind head idents =>
    obtain ⟨us, vs, o, hbody, hidents, rfl⟩ := h
    dsimp only [shift] at hnext
    split at hnext <;> cases hnext
    · exact ⟨us, vs, o, span, hbody, hidents, by simp⟩
    · exact ⟨us, vs, o, span, hbody, hidents, by simp⟩
  | nextElementName body kind head idents =>
    obtain ⟨us, vs, o, s, hbody, hidents, rfl⟩ := h
    dsimp only [shift] at hnext
    split at hnext <;> cases hnext
    exact ⟨us, _, o, hbody, .nextIdent (s := s) (t := span) hidents, by simp⟩
  | afterPattern body kind head idents =>
    obtain ⟨us, vs, o, c, hbody, hidents, rfl⟩ := h
    dsimp only [shift] at hnext
    split at hnext <;> cases hnext
    exact ExprSite.text_fresh ⟨us, vs, o, c, span, hbody, hidents, by simp⟩
  | _ => cases hconstruct

theorem text_shift_loop (hconstruct : reading.construct = .loop) (h : reading.Text ts)
    (hnext : reading.shift token = some next) : next.Text (ts ++ [token]) := by
  obtain ⟨lexeme, span⟩ := token
  cases reading with
  | whileWord body head =>
    obtain ⟨us, hbody, rfl⟩ := h
    dsimp only [shift] at hnext
    split at hnext <;> cases hnext
    exact ExprSite.text_fresh ⟨us, span, hbody, by simp⟩
  | forWord body head =>
    obtain ⟨us, hbody, rfl⟩ := h
    dsimp only [shift] at hnext
    split at hnext <;> cases hnext
    exact ⟨us, span, hbody, by simp⟩
  | forKind body head =>
    obtain ⟨us, o, hbody, rfl⟩ := h
    dsimp only [shift] at hnext
    split at hnext <;> cases hnext
    · exact ⟨us, o, span, hbody, by simp [Kind.word]⟩
    · exact ⟨us, o, span, hbody, by simp [Kind.word]⟩
  | forName body head kind =>
    obtain ⟨us, o, p, hbody, rfl⟩ := h
    dsimp only [shift] at hnext
    split at hnext <;> cases hnext
    exact ⟨us, o, p, hbody, by simp⟩
  | forOf body head kind ident =>
    obtain ⟨us, o, p, hbody, rfl⟩ := h
    dsimp only [shift] at hnext
    split at hnext <;> cases hnext
    exact ExprSite.text_fresh ⟨us, o, p, span, hbody, by simp⟩
  | _ => cases hconstruct

theorem text_shift_tryCatch (hconstruct : reading.construct = .tryCatch) (h : reading.Text ts)
    (hnext : reading.shift token = some next) : next.Text (ts ++ [token]) := by
  obtain ⟨lexeme, span⟩ := token
  cases reading with
  | afterTried body head tried =>
    obtain ⟨us, vs, hbody, htried, rfl⟩ := h
    dsimp only [shift] at hnext
    split at hnext <;> cases hnext
    exact ⟨us, vs, span, hbody, htried, by simp⟩
  | catchWord body head tried =>
    obtain ⟨us, vs, p, hbody, htried, rfl⟩ := h
    dsimp only [shift] at hnext
    split at hnext <;> cases hnext
    exact ⟨us, vs, p, span, hbody, htried, by simp⟩
  | catchName body head tried =>
    obtain ⟨us, vs, p, o, hbody, htried, rfl⟩ := h
    dsimp only [shift] at hnext
    split at hnext <;> cases hnext
    exact ⟨us, vs, p, o, hbody, htried, by simp⟩
  | afterCatchName body head tried ident =>
    obtain ⟨us, vs, p, o, hbody, htried, rfl⟩ := h
    dsimp only [shift] at hnext
    split at hnext <;> cases hnext
    exact ⟨us, vs, p, o, span, hbody, htried, by simp⟩
  | _ => cases hconstruct

theorem text_shift_conditional (hconstruct : reading.construct = .conditional) (h : reading.Text ts)
    (hnext : reading.shift token = some next) : next.Text (ts ++ [token]) := by
  obtain ⟨lexeme, span⟩ := token
  cases reading with
  | ifWord site head =>
    obtain ⟨us, hsite, rfl⟩ := h
    dsimp only [shift] at hnext
    split at hnext <;> cases hnext
    exact ExprSite.text_fresh ⟨us, span, hsite, by simp⟩
  | afterThen site head cond thenPart =>
    obtain ⟨us, vs, ws, o, c, hsite, hcond, hthen, rfl⟩ := h
    dsimp only [shift] at hnext
    split at hnext <;> cases hnext
    exact ⟨us, vs, ws, o, c, span, hsite, hcond, hthen, by simp⟩
  | afterElse site head cond thenPart =>
    obtain ⟨us, vs, ws, o, c, s, hsite, hcond, hthen, rfl⟩ := h
    dsimp only [shift] at hnext
    split at hnext <;> cases hnext
    · exact ⟨_, [], ⟨us, vs, ws, o, c, s, hsite, hcond, hthen, rfl⟩, .noStmts, rfl⟩
    · exact ⟨_, ⟨us, vs, ws, o, c, s, hsite, hcond, hthen, rfl⟩, rfl⟩
  | _ => cases hconstruct

theorem text_shift_expressions (hconstruct : reading.construct = .expressions) (h : reading.Text ts)
    (hnext : reading.shift token = some next) : next.Text (ts ++ [token]) := by
  obtain ⟨lexeme, span⟩ := token
  cases reading with
  | firstArgument place callee =>
    obtain ⟨us, vs, o, hplace, hcallee, rfl⟩ := h
    dsimp only [shift] at hnext
    split at hnext
    · cases hnext
      exact ⟨us, _, hplace, .call (o := o) (c := span) hcallee .noArgs, by simp⟩
    · exact text_shiftOperand (ExprSite.text_fresh (s := .argument place callee [])
        ⟨us, vs, [], o, hplace, hcallee, .inl ⟨rfl, rfl⟩, by simp⟩) hnext
  | firstElement place head =>
    obtain ⟨us, hplace, rfl⟩ := h
    dsimp only [shift] at hnext
    split at hnext
    · cases hnext
      exact ⟨us, _, hplace, .array (o := head) (c := span) .noArgs, by simp⟩
    · exact text_shiftOperand (ExprSite.text_fresh (s := .element place head [])
        ⟨us, [], hplace, .inl ⟨rfl, rfl⟩, by simp⟩) hnext
  | afterArguments place callee args =>
    obtain ⟨us, vs, ws, o, hplace, hcallee, hargs, rfl⟩ := h
    dsimp only [shift] at hnext
    split at hnext <;> cases hnext
    exact ⟨us, _, hplace, .call (o := o) (c := span) hcallee (.someArgs hargs), by simp⟩
  | afterElements place head elements =>
    obtain ⟨us, vs, hplace, helements, rfl⟩ := h
    dsimp only [shift] at hnext
    split at hnext <;> cases hnext
    exact ⟨us, _, hplace, .array (o := head) (c := span) (.someArgs helements), by simp⟩
  | _ => cases hconstruct

theorem text_shift_other (hconstruct : reading.construct = .other) (h : reading.Text ts)
    (hnext : reading.shift token = some next) : next.Text (ts ++ [token]) := by
  obtain ⟨lexeme, span⟩ := token
  cases reading with
  | start => cases hnext
  | statements body => exact text_shiftStatement h hnext
  | operand place => exact text_shiftOperand h hnext
  | value place e =>
    obtain ⟨us, vs, hplace, he, rfl⟩ := h
    exact text_shiftValue hplace he hnext
  | leadingName body ident =>
    obtain ⟨us, hbody, rfl⟩ := h
    dsimp only [shift] at hnext
    split at hnext <;> cases hnext
    exact ExprSite.text_fresh ⟨us, span, hbody, by simp⟩
  | returning body head =>
    obtain ⟨us, hbody, rfl⟩ := h
    dsimp only [shift] at hnext
    split at hnext
    · cases hnext
      simpa using body.text_push hbody (.retNothing (h := head) (c := span))
    · exact text_shiftOperand (ExprSite.text_fresh (s := .ret body head) ⟨us, hbody, rfl⟩) hnext
  | pausing body head =>
    obtain ⟨us, hbody, rfl⟩ := h
    dsimp only [shift] at hnext
    split at hnext <;> cases hnext
    simpa using body.text_push hbody (.pause (h := head) (c := span))
  | beforeBlock site =>
    dsimp only [shift] at hnext
    split at hnext <;> cases hnext
    exact ⟨ts, [], h, .noStmts, by simp⟩
  | _ => cases hconstruct

theorem text_shift (h : reading.Text ts) (hnext : reading.shift token = some next) :
    next.Text (ts ++ [token]) := by
  cases hconstruct : reading.construct with
  | function => exact text_shift_function hconstruct h hnext
  | declaration => exact text_shift_declaration hconstruct h hnext
  | loop => exact text_shift_loop hconstruct h hnext
  | tryCatch => exact text_shift_tryCatch hconstruct h hnext
  | conditional => exact text_shift_conditional hconstruct h hnext
  | expressions => exact text_shift_expressions hconstruct h hnext
  | other => exact text_shift_other hconstruct h hnext

end Constructs

/-- A reading accounts for the tokens before it and the one it has taken. -/
theorem text_feed {reading next : Reading} {token : Token} {ts : List Token}
    (h : reading.Text ts) (hnext : reading.feed token = .ok next) : next.Text (ts ++ [token]) := by
  rw [feed] at hnext
  split at hnext <;> cases hnext
  next hshift => exact text_shift (text_settle token.lexeme h) hshift

theorem text_start : start.Text [] := rfl

theorem text_foldlM {reading next : Reading} {ts us : List Token} (h : reading.Text ts)
    (hnext : us.foldlM feed reading = .ok next) : next.Text (ts ++ us) := by
  induction us generalizing reading ts with
  | nil =>
    cases hnext
    simpa using h
  | cons token more ih =>
    rw [List.foldlM_cons] at hnext
    cases hfeed : reading.feed token with
    | error confusion =>
      rw [hfeed] at hnext
      cases hnext
    | ok settled =>
      rw [hfeed] at hnext
      simpa using ih (text_feed h hfeed) hnext

theorem text_finish {reading : Reading} {program : Program} {ts : List Token}
    (h : reading.Text ts) (hfinish : reading.finish = some program) :
    Phrase.Text (.stmts program) ts := by
  unfold finish at hfinish
  split at hfinish
  next =>
    cases hfinish
    obtain rfl := h
    exact .noStmts
  next =>
    cases hfinish
    exact h
  next site head cond thenPart =>
    obtain ⟨us, vs, ws, o, c, hsite, hcond, hthen, rfl⟩ := h
    have hclosed := site.text_close hsite (.thenOnly (h := head) (o := o) (c := c) hcond hthen)
    split at hfinish
    next heq =>
      cases hfinish
      rw [heq] at hclosed
      simpa [Body.Text] using hclosed
    next => cases hfinish
  next => cases hfinish

end Reading

/-- A program that has been read is written by the tokens of its text. -/
theorem Scan.text_of_read {scan : Scan} {program : Program} (h : scan.read = .program program) :
    Phrase.Text (.stmts program) scan.tokens := by
  rw [Scan.read] at h
  split at h
  · cases h
  next reading hfold =>
    split at h
    · cases h
    · cases h
    · split at h
      next hfinish =>
        cases h
        have htext := Reading.text_foldlM Reading.text_start hfold
        exact Reading.text_finish (by simpa using htext) hfinish
      · cases h

end LateConst
