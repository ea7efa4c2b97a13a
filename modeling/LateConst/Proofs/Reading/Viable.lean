import LateConst.Proofs.Reading.Progress

/-!
# Every reading can be completed

Whatever has been read can be continued to a program: an unfinished construct gets the parts it
waits for, and then the construct around it goes on. So a reading that is not refused never runs
into a dead end, and the tokens taken so far are always the beginning of some program.
-/

namespace LateConst

open Phrase (Text)

/-- Some program begins with these tokens. -/
def Viable (ts : List Token) : Prop :=
  ∃ program us, Text (.stmts program) (ts ++ us)

theorem viable_of_append {t u : List Token} (h : Viable (t ++ u)) : Viable t := by
  obtain ⟨program, vs, hprogram⟩ := h
  exact ⟨program, u ++ vs, by simpa using hprogram⟩

theorem text_emptyBlock {o c : Span} : Text (.block (.mk [] (o.to c)))
    [⟨.mark .openBrace, o⟩, ⟨.mark .closeBrace, c⟩] :=
  .block .noStmts

theorem text_undefined {s : Span} : Text (.expr (.literal .undefined s))
    [⟨.word .undefinedWord, s⟩] :=
  .literal rfl

/-! ### What comes next is there -/

mutual

theorem Body.viable {s : Stmt} {ts us : List Token} :
    (body : Body) → body.Text ts → Text (.stmt s) us → Viable (ts ++ us)
  | .program done, hbody, hs => ⟨done ++ [s], [], by simpa using Text.nextStmt hbody hs⟩
  | .block outer head done, hbody, hs => by
    obtain ⟨os, ds, houter, hdone, rfl⟩ := hbody
    have hblock := Text.block (o := head) (c := default) (.nextStmt hdone hs)
    exact viable_of_append (u := [⟨.mark .closeBrace, default⟩])
      (by simpa using outer.viable houter hblock)
  | .function outer params done, hbody, hs => by
    obtain ⟨os, ps, ds, o, p, q, houter, hparams, hdone, rfl⟩ := hbody
    exact viable_of_append (u := [⟨.mark .closeBrace, default⟩])
      (by simpa using outer.viable (o := o) (p := p) (q := q) houter hparams (.nextStmt hdone hs))

theorem FunctionSite.viable {ps : List Ident} {code : List Stmt} {ts us vs : List Token}
    {o p q : Span} : (site : FunctionSite) → site.Text ts → Text (.params ps) us →
      Text (.stmts code) vs → Viable (ts ++ ⟨.mark .openParen, o⟩ :: us ++
        ⟨.mark .closeParen, p⟩ :: ⟨.mark .openBrace, q⟩ :: vs ++
        [⟨.mark .closeBrace, default⟩])
  | .named outer head ident, hsite, hparams, hcode => by
    obtain ⟨os, houter, rfl⟩ := hsite
    have hs := Text.named (n := ident.name) (s := ident.span) (h := head) (o := o) (p := p)
      (q := q) (c := default) hparams hcode
    simpa using outer.viable houter hs
  | .anonymous outer head, hsite, hparams, hcode => by
    obtain ⟨os, houter, rfl⟩ := hsite
    have he := Text.anonymous (h := head) (o := o) (p := p) (q := q) (c := default) hparams hcode
    simpa using outer.viable houter he

theorem BlockSite.viable {block : Block} {ts us : List Token} :
    (site : BlockSite) → site.Text ts → Text (.block block) us → Viable (ts ++ us)
  | .bare outer, hsite, hblock => outer.viable hsite (.inner hblock)
  | .whileBody outer head cond, hsite, hblock => by
    obtain ⟨os, cs, o, c, houter, hcond, rfl⟩ := hsite
    simpa using outer.viable houter (.whileLoop (h := head) (o := o) (c := c) hcond hblock)
  | .forBody outer head kind ident iterable, hsite, hblock => by
    obtain ⟨os, is, o, p, q, c, houter, hiterable, rfl⟩ := hsite
    have hs := Text.forOf (k := kind) (n := ident.name) (s := ident.span) (h := head) (o := o)
      (p := p) (q := q) (c := c) hiterable hblock
    simpa using outer.viable houter hs
  | .tryBody outer head, hsite, hblock => by
    obtain ⟨os, houter, rfl⟩ := hsite
    have hs := Text.tryCatch (n := "") (s := default) (h := head) (p := default) (o := default)
      (c := default) hblock (text_emptyBlock (o := default) (c := default))
    exact viable_of_append (by simpa using outer.viable houter hs)
  | .catchBody outer head tried ident, hsite, hblock => by
    obtain ⟨os, bs, p, o, c, houter, htried, rfl⟩ := hsite
    have hs := Text.tryCatch (n := ident.name) (s := ident.span) (h := head) (p := p) (o := o)
      (c := c) htried hblock
    simpa using outer.viable houter hs
  | .thenPart outer head cond, hsite, hblock => by
    obtain ⟨os, cs, o, c, houter, hcond, rfl⟩ := hsite
    simpa using outer.viable houter (.thenOnly (h := head) (o := o) (c := c) hcond hblock)
  | .elsePart outer head cond thenPart, hsite, hblock => by
    obtain ⟨os, cs, bs, o, c, s, houter, hcond, hthen, rfl⟩ := hsite
    have hs := Text.elseBlock (h := head) (o := o) (c := c) (s := s) hcond hthen hblock
    simpa using outer.viable houter hs

theorem BranchSite.viable {s : Stmt} {ts us : List Token} :
    (site : BranchSite) → site.Text ts → Text (.conditional s) us → Viable (ts ++ us)
  | .statement outer, hsite, hs => outer.viable hsite (.branch hs)
  | .elseIf outer head cond thenPart, hsite, hs => by
    obtain ⟨os, cs, bs, o, c, e, houter, hcond, hthen, rfl⟩ := hsite
    have hwhole := Text.elseIf (h := head) (o := o) (c := c) (s := e) hcond hthen hs
    simpa using outer.viable houter hwhole

theorem ExprSite.viable {e : Expr} {ts us : List Token} :
    (site : ExprSite) → site.Text ts → Text (.expr e) us → Viable (ts ++ us)
  | .effect outer, hsite, he =>
    viable_of_append (by simpa using outer.viable hsite (.effect (c := default) he))
  | .print outer head, hsite, he => by
    obtain ⟨os, houter, rfl⟩ := hsite
    have hs := Text.print (h := head) (c := default) he
    exact viable_of_append (by simpa using outer.viable houter hs)
  | .ret outer head, hsite, he => by
    obtain ⟨os, houter, rfl⟩ := hsite
    have hs := Text.ret (h := head) (c := default) he
    exact viable_of_append (by simpa using outer.viable houter hs)
  | .spawn outer head, hsite, he => by
    obtain ⟨os, houter, rfl⟩ := hsite
    have hs := Text.spawn (h := head) (c := default) he
    exact viable_of_append (by simpa using outer.viable houter hs)
  | .throw outer head, hsite, he => by
    obtain ⟨os, houter, rfl⟩ := hsite
    have hs := Text.throw (h := head) (c := default) he
    exact viable_of_append (by simpa using outer.viable houter hs)
  | .assign outer ident, hsite, he => by
    obtain ⟨os, t, houter, rfl⟩ := hsite
    have hs := Text.assign (n := ident.name) (s := ident.span) (t := t) (c := default) he
    exact viable_of_append (by simpa using outer.viable houter hs)
  | .init outer kind head done ident, hsite, he => by
    obtain ⟨os, ds, t, houter, hdone, rfl⟩ := hsite
    have hitems := hdone.text (.initItem (n := ident.name) (s := ident.span) (t := t) he)
    have hs := Text.declare (k := kind) (h := head) (c := default) hitems
    exact viable_of_append (by simpa using outer.viable houter hs)
  | .pattern outer kind head idents, hsite, he => by
    obtain ⟨os, is, o, p, q, houter, hidents, rfl⟩ := hsite
    have hs := Text.destructure (k := kind) (h := head) (o := o) (p := p) (q := q)
      (c := default) hidents he
    exact viable_of_append (by simpa using outer.viable houter hs)
  | .whileCond outer head, hsite, he => by
    obtain ⟨os, o, houter, rfl⟩ := hsite
    have hs := Text.whileLoop (h := head) (o := o) (c := default) he
      (text_emptyBlock (o := default) (c := default))
    exact viable_of_append (by simpa using outer.viable houter hs)
  | .iterable outer head kind ident, hsite, he => by
    obtain ⟨os, o, p, q, houter, rfl⟩ := hsite
    have hs := Text.forOf (k := kind) (n := ident.name) (s := ident.span) (h := head) (o := o)
      (p := p) (q := q) (c := default) he (text_emptyBlock (o := default) (c := default))
    exact viable_of_append (by simpa using outer.viable houter hs)
  | .branchCond outer head, hsite, he => by
    obtain ⟨os, o, houter, rfl⟩ := hsite
    have hs := Text.thenOnly (h := head) (o := o) (c := default) he
      (text_emptyBlock (o := default) (c := default))
    exact viable_of_append (by simpa using outer.viable houter hs)
  | .group outer, hsite, he => by
    obtain ⟨os, o, houter, rfl⟩ := hsite
    have hwhole := Text.group (o := o) (c := default) he
    exact viable_of_append (by simpa using outer.viable houter hwhole)
  | .argument outer callee done, hsite, he => by
    obtain ⟨os, cs, ds, o, houter, hcallee, hdone, rfl⟩ := hsite
    have hwhole := Text.call (o := o) (c := default) hcallee (.someArgs (hdone.text he))
    exact viable_of_append (by simpa using outer.viable houter hwhole)
  | .element outer head done, hsite, he => by
    obtain ⟨os, ds, houter, hdone, rfl⟩ := hsite
    have hwhole := Text.array (o := head) (c := default) (.someArgs (hdone.text he))
    exact viable_of_append (by simpa using outer.viable houter hwhole)
  | .subscript outer base, hsite, he => by
    obtain ⟨os, bs, o, houter, hbase, rfl⟩ := hsite
    have hwhole := Text.index (o := o) (c := default) hbase he
    exact viable_of_append (by simpa using outer.viable houter hwhole)

theorem Operand.viable {e : Expr} {ts us : List Token} :
    (place : Operand) → place.Text ts → Text (.expr e) us → Viable (ts ++ us)
  | .mk outer pending, hplace, he => by
    obtain ⟨os, ps, houter, hpending, rfl⟩ := hplace
    simpa using outer.viable houter (Pending.text_closeAll hpending he)

end

namespace Reading

variable {reading : Reading} {ts : List Token}

theorem viable_function (hconstruct : reading.construct = .function) (h : reading.Text ts) :
    Viable ts := by
  cases reading with
  | leadingFunction body head =>
    obtain ⟨us, hbody, rfl⟩ := h
    have hsite : (FunctionSite.anonymous (ExprSite.effect body).fresh head).Text
        (us ++ [⟨.word .functionWord, head⟩]) := ⟨us, ExprSite.text_fresh hbody, rfl⟩
    have hcode := FunctionSite.viable (o := default) (p := default) (q := default) _ hsite
      .noParams .noStmts
    exact viable_of_append (by simpa using hcode)
  | beforeParams site =>
    have hcode := site.viable (o := default) (p := default) (q := default) h .noParams .noStmts
    exact viable_of_append (by simpa using hcode)
  | firstParam site =>
    obtain ⟨us, o, hsite, rfl⟩ := h
    have hcode := site.viable (o := o) (p := default) (q := default) hsite .noParams .noStmts
    exact viable_of_append (by simpa using hcode)
  | afterParam site params =>
    obtain ⟨us, vs, o, hsite, hparams, rfl⟩ := h
    have hcode := site.viable (o := o) (p := default) (q := default) hsite
      (.someParams hparams) .noStmts
    exact viable_of_append (by simpa using hcode)
  | nextParam site params =>
    obtain ⟨us, vs, o, s, hsite, hparams, rfl⟩ := h
    have hmore := Text.nextIdent (n := "") (s := s) (t := default) hparams
    have hcode := site.viable (o := o) (p := default) (q := default) hsite (.someParams hmore)
      .noStmts
    exact viable_of_append (by simpa using hcode)
  | afterParams site params =>
    obtain ⟨us, vs, o, c, hsite, hparams, rfl⟩ := h
    have hcode := site.viable (o := o) (p := c) (q := default) hsite hparams .noStmts
    exact viable_of_append (by simpa using hcode)
  | _ => cases hconstruct

theorem viable_declaration (hconstruct : reading.construct = .declaration) (h : reading.Text ts) :
    Viable ts := by
  have hundefined := text_undefined (s := default)
  cases reading with
  | declaring body kind head =>
    obtain ⟨us, hbody, rfl⟩ := h
    have hs := Text.declare (k := kind) (h := head) (c := default)
      (.firstItem (.plainItem (n := "") (s := default)))
    exact viable_of_append (by simpa using body.viable hbody hs)
  | nextDeclarator body kind head done =>
    obtain ⟨us, vs, hbody, -, hdone, rfl⟩ := h
    have hs := Text.declare (k := kind) (h := head) (c := default)
      (hdone.text (.plainItem (n := "") (s := default)))
    exact viable_of_append (by simpa using body.viable hbody hs)
  | afterDeclared body kind head done ident =>
    obtain ⟨us, vs, hbody, hdone, rfl⟩ := h
    have hs := Text.declare (k := kind) (h := head) (c := default)
      (hdone.text (.plainItem (n := ident.name) (s := ident.span)))
    exact viable_of_append (by simpa using body.viable hbody hs)
  | firstElementName body kind head =>
    obtain ⟨us, o, hbody, rfl⟩ := h
    have hs := Text.destructure (k := kind) (h := head) (o := o) (p := default) (q := default)
      (c := default) (.firstIdent (n := "") (s := default)) hundefined
    exact viable_of_append (by simpa using body.viable hbody hs)
  | afterElementName body kind head idents =>
    obtain ⟨us, vs, o, hbody, hidents, rfl⟩ := h
    have hs := Text.destructure (k := kind) (h := head) (o := o) (p := default) (q := default)
      (c := default) hidents hundefined
    exact viable_of_append (by simpa using body.viable hbody hs)
  | nextElementName body kind head idents =>
    obtain ⟨us, vs, o, s, hbody, hidents, rfl⟩ := h
    have hmore := Text.nextIdent (n := "") (s := s) (t := default) hidents
    have hs := Text.destructure (k := kind) (h := head) (o := o) (p := default) (q := default)
      (c := default) hmore hundefined
    exact viable_of_append (by simpa using body.viable hbody hs)
  | afterPattern body kind head idents =>
    obtain ⟨us, vs, o, c, hbody, hidents, rfl⟩ := h
    have hs := Text.destructure (k := kind) (h := head) (o := o) (p := c) (q := default)
      (c := default) hidents hundefined
    exact viable_of_append (by simpa using body.viable hbody hs)
  | _ => cases hconstruct

theorem viable_loop (hconstruct : reading.construct = .loop) (h : reading.Text ts) :
    Viable ts := by
  have hundefined := text_undefined (s := default)
  have hempty := text_emptyBlock (o := default) (c := default)
  cases reading with
  | whileWord body head =>
    obtain ⟨us, hbody, rfl⟩ := h
    have hs := Text.whileLoop (h := head) (o := default) (c := default) hundefined hempty
    exact viable_of_append (by simpa using body.viable hbody hs)
  | forWord body head =>
    obtain ⟨us, hbody, rfl⟩ := h
    have hs := Text.forOf (k := .constant) (n := "") (s := default) (h := head) (o := default)
      (p := default) (q := default) (c := default) hundefined hempty
    exact viable_of_append (by simpa using body.viable hbody hs)
  | forKind body head =>
    obtain ⟨us, o, hbody, rfl⟩ := h
    have hs := Text.forOf (k := .constant) (n := "") (s := default) (h := head) (o := o)
      (p := default) (q := default) (c := default) hundefined hempty
    exact viable_of_append (by simpa using body.viable hbody hs)
  | forName body head kind =>
    obtain ⟨us, o, p, hbody, rfl⟩ := h
    have hs := Text.forOf (k := kind) (n := "") (s := default) (h := head) (o := o) (p := p)
      (q := default) (c := default) hundefined hempty
    exact viable_of_append (by simpa using body.viable hbody hs)
  | forOf body head kind ident =>
    obtain ⟨us, o, p, hbody, rfl⟩ := h
    have hs := Text.forOf (k := kind) (n := ident.name) (s := ident.span) (h := head) (o := o)
      (p := p) (q := default) (c := default) hundefined hempty
    exact viable_of_append (by simpa using body.viable hbody hs)
  | _ => cases hconstruct

theorem viable_tryCatch (hconstruct : reading.construct = .tryCatch) (h : reading.Text ts) :
    Viable ts := by
  have hempty := text_emptyBlock (o := default) (c := default)
  cases reading with
  | afterTried body head tried =>
    obtain ⟨us, vs, hbody, htried, rfl⟩ := h
    have hs := Text.tryCatch (n := "") (s := default) (h := head) (p := default)
      (o := default) (c := default) htried hempty
    exact viable_of_append (by simpa using body.viable hbody hs)
  | catchWord body head tried =>
    obtain ⟨us, vs, p, hbody, htried, rfl⟩ := h
    have hs := Text.tryCatch (n := "") (s := default) (h := head) (p := p) (o := default)
      (c := default) htried hempty
    exact viable_of_append (by simpa using body.viable hbody hs)
  | catchName body head tried =>
    obtain ⟨us, vs, p, o, hbody, htried, rfl⟩ := h
    have hs := Text.tryCatch (n := "") (s := default) (h := head) (p := p) (o := o)
      (c := default) htried hempty
    exact viable_of_append (by simpa using body.viable hbody hs)
  | afterCatchName body head tried ident =>
    obtain ⟨us, vs, p, o, hbody, htried, rfl⟩ := h
    have hs := Text.tryCatch (n := ident.name) (s := ident.span) (h := head) (p := p) (o := o)
      (c := default) htried hempty
    exact viable_of_append (by simpa using body.viable hbody hs)
  | _ => cases hconstruct

theorem viable_conditional (hconstruct : reading.construct = .conditional) (h : reading.Text ts) :
    Viable ts := by
  have hundefined := text_undefined (s := default)
  have hempty := text_emptyBlock (o := default) (c := default)
  cases reading with
  | ifWord site head =>
    obtain ⟨us, hsite, rfl⟩ := h
    have hs := Text.thenOnly (h := head) (o := default) (c := default) hundefined hempty
    exact viable_of_append (by simpa using site.viable hsite hs)
  | afterThen site head cond thenPart =>
    obtain ⟨us, vs, ws, o, c, hsite, hcond, hthen, rfl⟩ := h
    have hs := Text.thenOnly (h := head) (o := o) (c := c) hcond hthen
    simpa using site.viable hsite hs
  | afterElse site head cond thenPart =>
    obtain ⟨us, vs, ws, o, c, s, hsite, hcond, hthen, rfl⟩ := h
    have hs := Text.elseBlock (h := head) (o := o) (c := c) (s := s) hcond hthen hempty
    exact viable_of_append (by simpa using site.viable hsite hs)
  | _ => cases hconstruct

theorem viable_expressions (hconstruct : reading.construct = .expressions) (h : reading.Text ts) :
    Viable ts := by
  cases reading with
  | firstArgument place callee =>
    obtain ⟨us, vs, o, hplace, hcallee, rfl⟩ := h
    have he := Text.call (o := o) (c := default) hcallee .noArgs
    exact viable_of_append (by simpa using place.viable hplace he)
  | firstElement place head =>
    obtain ⟨us, hplace, rfl⟩ := h
    have he := Text.array (o := head) (c := default) .noArgs
    exact viable_of_append (by simpa using place.viable hplace he)
  | afterArguments place callee args =>
    obtain ⟨us, vs, ws, o, hplace, hcallee, hargs, rfl⟩ := h
    have he := Text.call (o := o) (c := default) hcallee (.someArgs hargs)
    exact viable_of_append (by simpa using place.viable hplace he)
  | afterElements place head elements =>
    obtain ⟨us, vs, hplace, helements, rfl⟩ := h
    have he := Text.array (o := head) (c := default) (.someArgs helements)
    exact viable_of_append (by simpa using place.viable hplace he)
  | _ => cases hconstruct

theorem viable_other (hconstruct : reading.construct = .other) (h : reading.Text ts) :
    Viable ts := by
  have hundefined := text_undefined (s := default)
  have hempty := text_emptyBlock (o := default) (c := default)
  cases reading with
  | start =>
    obtain rfl := h
    exact ⟨[], [], .noStmts⟩
  | statements body =>
    exact viable_of_append (body.viable h (.pause (h := default) (c := default)))
  | operand place => exact viable_of_append (place.viable h hundefined)
  | value place e =>
    obtain ⟨us, vs, hplace, he, rfl⟩ := h
    exact place.viable hplace he
  | leadingName body ident =>
    obtain ⟨us, hbody, rfl⟩ := h
    have hs := Text.effect (c := default) (.lookup (n := ident.name) (s := ident.span))
    exact viable_of_append (by simpa using body.viable hbody hs)
  | returning body head =>
    obtain ⟨us, hbody, rfl⟩ := h
    have hs := Text.retNothing (h := head) (c := default)
    exact viable_of_append (by simpa using body.viable hbody hs)
  | pausing body head =>
    obtain ⟨us, hbody, rfl⟩ := h
    have hs := Text.pause (h := head) (c := default)
    exact viable_of_append (by simpa using body.viable hbody hs)
  | beforeBlock site => exact viable_of_append (site.viable h hempty)
  | _ => cases hconstruct

/-- What has been read is the beginning of a program. -/
theorem viable (h : reading.Text ts) : Viable ts := by
  cases hconstruct : reading.construct with
  | function => exact viable_function hconstruct h
  | declaration => exact viable_declaration hconstruct h
  | loop => exact viable_loop hconstruct h
  | tryCatch => exact viable_tryCatch hconstruct h
  | conditional => exact viable_conditional hconstruct h
  | expressions => exact viable_expressions hconstruct h
  | other => exact viable_other hconstruct h

end Reading

end LateConst
