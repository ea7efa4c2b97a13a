import LateConst.Proofs.Printing.Scan
import LateConst.Proofs.Reading.Exact

/-!
# Reading what has been written out

The lexemes of a tree, wherever they stand in a text, are grouped to a tree that differs from it in
its spans only. So a program that has been written out is read as itself, up to spans
(`Program.read_print`).
-/

namespace LateConst

open Lexeme (commas parens)

/-! ### Tokens of lexemes -/

section Tokens

variable {ts : List Token} {ls ms : List Lexeme} {l : Lexeme}

theorem map_lexeme_eq_nil : ts.map Token.lexeme = [] ↔ ts = [] := List.map_eq_nil_iff

theorem map_lexeme_eq_cons : ts.map Token.lexeme = l :: ls ↔
    ∃ s us, ts = ⟨l, s⟩ :: us ∧ us.map Token.lexeme = ls := by
  constructor
  · intro h
    obtain ⟨⟨lexeme, s⟩, us, rfl, rfl, hus⟩ := List.map_eq_cons_iff.1 h
    exact ⟨s, us, rfl, hus⟩
  · rintro ⟨s, us, rfl, rfl⟩
    rfl

theorem map_lexeme_eq_append : ts.map Token.lexeme = ls ++ ms ↔
    ∃ us vs, ts = us ++ vs ∧ us.map Token.lexeme = ls ∧ vs.map Token.lexeme = ms :=
  List.map_eq_append_iff

end Tokens

theorem commas_concat {groups : List (List Lexeme)} (h : groups ≠ []) (ls : List Lexeme) :
    commas (groups ++ [ls]) = commas groups ++ .mark .comma :: ls := by
  induction groups with
  | nil => exact (h rfl).elim
  | cons ms more ih =>
    cases more with
    | nil => simp [commas, List.intercalate]
    | cons others rest =>
      have hrest := ih (by simp)
      simp only [commas, List.intercalate, List.cons_append] at hrest ⊢
      simp [hrest]

/-- Copies of all elements of a list, if there is a copy of each of them and copies can be put
together with commas. -/
theorem exists_of_commas {α β : Type} {lexemes : α → List Lexeme} {unplaced : α → β}
    (One : α → List Token → Prop) (All : List α → List Token → Prop)
    (hfirst : ∀ x ts, One x ts → All [x] ts)
    (hnext : ∀ xs ts s x us, All xs ts → One x us →
      All (xs ++ [x]) (ts ++ ⟨.mark .comma, s⟩ :: us)) {xs : List α} (hxs : xs ≠ [])
    (h : ∀ x ∈ xs, ∀ ts, ts.map Token.lexeme = lexemes x →
      ∃ copy, unplaced copy = unplaced x ∧ One copy ts) {ts : List Token}
    (hts : ts.map Token.lexeme = commas (xs.map lexemes)) :
    ∃ copies : List α, copies.map unplaced = xs.map unplaced ∧ All copies ts := by
  induction xs using List.reverseRecOn generalizing ts with
  | nil => exact (hxs rfl).elim
  | append_singleton before x ih =>
    obtain rfl | hbefore := eq_or_ne before []
    · obtain ⟨copy, hcopy, hone⟩ := h x (by simp) ts (by simpa [commas] using hts)
      exact ⟨[copy], by simp [hcopy], hfirst _ _ hone⟩
    · rw [List.map_append, List.map_singleton, commas_concat (by simpa using hbefore)] at hts
      simp only [map_lexeme_eq_cons, map_lexeme_eq_append] at hts
      obtain ⟨us, _, rfl, hus, s, vs, rfl, hvs⟩ := hts
      obtain ⟨copies, hcopies, hall⟩ := ih hbefore (fun x hx ↦ h x (by simp [hx])) hus
      obtain ⟨copy, hcopy, hone⟩ := h x (by simp) vs hvs
      exact ⟨copies ++ [copy], by simp [hcopies, hcopy], hnext _ _ _ _ _ hall hone⟩

/-! ### Copies of the parts of a tree -/

/-- Tokens of the lexemes of a node, in any place, write a copy of the node. -/
def Site.IsCopied (whole : Bool) : Site → Prop
  | .ident _ => True
  | .expr e => ∀ ts, ts.map Token.lexeme = e.lexemes whole →
      ∃ copy level, copy.unplaced = e.unplaced ∧ Phrase.Grouped (.expr copy) level ts ∧
        (e.isCompound = false → level = 0)
  | .stmt s => ∀ ts, ts.map Token.lexeme = s.lexemes whole →
      ∃ copy, copy.unplaced = s.unplaced ∧ Phrase.Grouped (.stmt copy) 0 ts

namespace Site.IsCopied

variable {whole : Bool} {ts : List Token}

/-- An expression with or without parentheses around it. -/
theorem parenthesized {e : Expr} (h : (Site.expr e).IsCopied whole) {written : Bool}
    (hts : ts.map Token.lexeme = parens written (e.lexemes whole)) :
    ∃ copy level, copy.unplaced = e.unplaced ∧ Phrase.Grouped (.expr copy) level ts ∧
      (written ∨ e.isCompound = false → level = 0) := by
  unfold parens at hts
  split at hts
  · simp only [List.cons_append, map_lexeme_eq_cons, map_lexeme_eq_append, map_lexeme_eq_nil] at hts
    obtain ⟨o, _, rfl, us, _, rfl, hus, c, _, rfl, rfl⟩ := hts
    obtain ⟨copy, level, hcopy, hgrouped, -⟩ := h us hus
    exact ⟨copy, 0, hcopy, hgrouped.group, fun _ ↦ rfl⟩
  next hbare =>
    obtain ⟨copy, level, hcopy, hgrouped, hlevel⟩ := h ts hts
    exact ⟨copy, level, hcopy, hgrouped, fun hor ↦ hlevel (hor.resolve_left hbare)⟩

/-- An expression in the place of a whole expression. -/
theorem expr {e : Expr} (h : (Site.expr e).IsCopied whole) {written : Bool}
    (hts : ts.map Token.lexeme = parens (written && e.isCompound) (e.lexemes whole)) :
    ∃ copy level, copy.unplaced = e.unplaced ∧ Phrase.Grouped (.expr copy) level ts := by
  obtain ⟨copy, level, hcopy, hgrouped, -⟩ := h.parenthesized hts
  exact ⟨copy, level, hcopy, hgrouped⟩

/-- An expression in the place of an operand. -/
theorem operand {e : Expr} (h : (Site.expr e).IsCopied whole)
    (hts : ts.map Token.lexeme = parens e.isCompound (e.lexemes whole)) :
    ∃ copy, copy.unplaced = e.unplaced ∧ Phrase.Grouped (.expr copy) 0 ts := by
  obtain ⟨copy, level, hcopy, hgrouped, hlevel⟩ := h.parenthesized hts
  obtain rfl := hlevel (Bool.eq_false_or_eq_true _)
  exact ⟨copy, hcopy, hgrouped⟩

theorem exprs {es : List Expr} (h : ∀ e ∈ es, (Site.expr e).IsCopied whole) (hes : es ≠ [])
    (hts : ts.map Token.lexeme = commas (exprsLexemes whole es)) :
    ∃ copies : List Expr, copies.map Expr.unplaced = es.map Expr.unplaced ∧
      Phrase.Grouped (.exprs copies) 0 ts := by
  rw [exprsLexemes_eq] at hts
  exact exists_of_commas (fun e ↦ Phrase.Grouped (.expr e) 0)
    (fun es ↦ Phrase.Grouped (.exprs es) 0) (fun _ _ hfirst ↦ .firstExpr hfirst)
    (fun _ _ _ _ _ hbefore hnext ↦ .nextExpr hbefore hnext) hes
    (fun e he _ hus ↦ (h e he).operand hus) hts

theorem args {es : List Expr} (h : ∀ e ∈ es, (Site.expr e).IsCopied whole)
    (hts : ts.map Token.lexeme = commas (exprsLexemes whole es)) :
    ∃ copies : List Expr, copies.map Expr.unplaced = es.map Expr.unplaced ∧
      Phrase.Grouped (.args copies) 0 ts := by
  obtain rfl | hes := eq_or_ne es []
  · obtain rfl : ts = [] := by simpa [commas, exprsLexemes] using hts
    exact ⟨[], rfl, .noArgs⟩
  · obtain ⟨copies, hcopies, hall⟩ := exprs h hes hts
    exact ⟨copies, hcopies, .someArgs hall⟩

theorem stmts {body : List Stmt} (h : ∀ s ∈ body, (Site.stmt s).IsCopied whole)
    (hts : ts.map Token.lexeme = stmtsLexemes whole body) :
    ∃ copies : List Stmt, copies.map Stmt.unplaced = body.map Stmt.unplaced ∧
      Phrase.Grouped (.stmts copies) 0 ts := by
  rw [stmtsLexemes_eq] at hts
  induction body using List.reverseRecOn generalizing ts with
  | nil =>
    obtain rfl : ts = [] := by simpa using hts
    exact ⟨[], rfl, .noStmts⟩
  | append_singleton before s ih =>
    rw [List.flatMap_append, List.flatMap_singleton, map_lexeme_eq_append] at hts
    obtain ⟨us, vs, rfl, hus, hvs⟩ := hts
    obtain ⟨copies, hcopies, hall⟩ := ih (fun s hs ↦ h s (by simp [hs])) hus
    obtain ⟨copy, hcopy, hgrouped⟩ := h s (by simp) vs hvs
    exact ⟨copies ++ [copy], by simp [hcopies, hcopy], .nextStmt hall hgrouped⟩

/-- Where a block is awaited, the copy of a block is a block. -/
theorem block {b : Block} (h : (Site.stmt (.block b)).IsCopied whole)
    (hts : ts.map Token.lexeme = b.lexemes whole) :
    ∃ copy : Block, copy.unplaced = b.unplaced ∧ Phrase.Grouped (.block copy) 0 ts := by
  obtain ⟨copy, hcopy, hgrouped⟩ := h ts (by rw [hts, Stmt.lexemes])
  rw [Stmt.unplaced] at hcopy
  cases hgrouped with
  | inner hblock => exact ⟨_, by simpa [Stmt.unplaced] using hcopy, hblock⟩
  | branch hconditional => cases hconditional <;> simp [Stmt.unplaced] at hcopy
  | _ => simp [Stmt.unplaced] at hcopy

/-- Where a conditional is awaited, the copy of a conditional is a conditional. -/
theorem conditional {cond : Expr} {thenPart : Block} {elsePart : Option Stmt} {span : Span}
    (h : (Site.stmt (.branch cond thenPart elsePart span)).IsCopied whole)
    (hts : ts.map Token.lexeme = (Stmt.branch cond thenPart elsePart span).lexemes whole) :
    ∃ copy, copy.unplaced = (Stmt.branch cond thenPart elsePart span).unplaced ∧
      Phrase.Grouped (.conditional copy) 0 ts := by
  obtain ⟨copy, hcopy, hgrouped⟩ := h ts hts
  cases hgrouped with
  | branch hconditional => exact ⟨copy, hcopy, hconditional⟩
  | _ => cases elsePart <;> simp [Stmt.unplaced] at hcopy

end Site.IsCopied

/-- Names with commas between them. -/
theorem exists_idents {idents : List Ident} {ts : List Token} (hidents : idents ≠ [])
    (hts : ts.map Token.lexeme = nameList idents) :
    ∃ copies : List Ident, copies.map Ident.unplaced = idents.map Ident.unplaced ∧
      Phrase.Grouped (.idents copies) 0 ts := by
  refine exists_of_commas (fun x ts ↦ ts = [⟨.name x.name, x.span⟩])
    (fun is ↦ Phrase.Grouped (.idents is) 0) ?_ ?_ hidents (fun x _ us hus ↦ ?_) hts
  · rintro x ts rfl
    exact .firstIdent
  · rintro xs ts s x us hbefore rfl
    exact .nextIdent hbefore
  · simp only [Ident.lexeme, map_lexeme_eq_cons, map_lexeme_eq_nil] at hus
    obtain ⟨s, _, rfl, rfl⟩ := hus
    exact ⟨⟨x.name, s⟩, rfl, rfl⟩

theorem exists_params {params : List Ident} {ts : List Token}
    (hts : ts.map Token.lexeme = nameList params) :
    ∃ copies : List Ident, copies.map Ident.unplaced = params.map Ident.unplaced ∧
      Phrase.Grouped (.params copies) 0 ts := by
  obtain rfl | hparams := eq_or_ne params []
  · obtain rfl : ts = [] := by simpa [nameList, commas] using hts
    exact ⟨[], rfl, .noParams⟩
  · obtain ⟨copies, hcopies, hall⟩ := exists_idents hparams hts
    exact ⟨copies, hcopies, .someParams hall⟩

theorem exists_item {whole : Bool} {d : Declarator} {ts : List Token}
    (h : ∀ e ∈ d.init, (Site.expr e).IsCopied whole)
    (hts : ts.map Token.lexeme = d.lexemes whole) :
    ∃ copy : Declarator, copy.unplaced = d.unplaced ∧ Phrase.Grouped (.item copy) 0 ts := by
  obtain ⟨x, init⟩ := d
  cases init with
  | none =>
    simp only [Declarator.lexemes, map_lexeme_eq_cons, map_lexeme_eq_nil] at hts
    obtain ⟨s, _, rfl, rfl⟩ := hts
    exact ⟨.mk ⟨x.name, s⟩ none, by simp [Declarator.unplaced, Ident.unplaced], .plainItem⟩
  | some e =>
    simp only [Declarator.lexemes, map_lexeme_eq_cons] at hts
    obtain ⟨s, _, rfl, t, us, rfl, hus⟩ := hts
    obtain ⟨copy, level, hcopy, hgrouped⟩ := (h e rfl).expr hus
    refine ⟨.mk ⟨x.name, s⟩ (some copy), ?_, .initItem hgrouped⟩
    simp [Declarator.unplaced, Ident.unplaced, hcopy]

theorem exists_items {whole : Bool} {items : List Declarator} {ts : List Token}
    (h : ∀ d ∈ items, ∀ e ∈ d.init, (Site.expr e).IsCopied whole) (hitems : items ≠ [])
    (hts : ts.map Token.lexeme = commas (itemsLexemes whole items)) :
    ∃ copies : List Declarator, copies.map Declarator.unplaced = items.map Declarator.unplaced ∧
      Phrase.Grouped (.items copies) 0 ts := by
  rw [itemsLexemes_eq] at hts
  exact exists_of_commas (fun d ↦ Phrase.Grouped (.item d) 0)
    (fun ds ↦ Phrase.Grouped (.items ds) 0) (fun _ _ hfirst ↦ .firstItem hfirst)
    (fun _ _ _ _ _ hbefore hnext ↦ .nextItem hbefore hnext) hitems
    (fun d hd _ hus ↦ exists_item (h d hd) hus) hts

namespace Site.IsCopied

variable {whole : Bool} {ts : List Token}

theorem prefixed (op : PrefixOp) {arg : Expr} (h : (Site.expr arg).IsCopied whole)
    (hts : ts.map Token.lexeme = op.lexeme :: parens arg.isCompound (arg.lexemes whole)) :
    ∃ s copy, copy.unplaced = arg.unplaced ∧ Phrase.Grouped (.expr (op.apply s copy)) 1 ts := by
  obtain ⟨s, us, rfl, hus⟩ := map_lexeme_eq_cons.1 hts
  obtain ⟨copy, hcopy, hgrouped⟩ := h.operand hus
  exact ⟨s, copy, hcopy, hgrouped.prefixed (Nat.zero_le 1)⟩

theorem infixed (op : InfixOp) {a b : Expr} (ha : (Site.expr a).IsCopied whole)
    (hb : (Site.expr b).IsCopied whole)
    (hts : ts.map Token.lexeme = parens a.isCompound (a.lexemes whole) ++
      .mark op.mark :: parens b.isCompound (b.lexemes whole)) :
    ∃ lhs rhs, lhs.unplaced = a.unplaced ∧ rhs.unplaced = b.unplaced ∧
      Phrase.Grouped (.expr (op.apply lhs rhs)) op.mark.level ts := by
  simp only [map_lexeme_eq_append, map_lexeme_eq_cons] at hts
  obtain ⟨us, _, rfl, hus, s, vs, rfl, hvs⟩ := hts
  obtain ⟨lhs, hlhs, hleft⟩ := ha.operand hus
  obtain ⟨rhs, hrhs, hright⟩ := hb.operand hvs
  have hlevel := op.one_lt_level
  exact ⟨lhs, rhs, hlhs, hrhs, hleft.infixed hright (Nat.zero_le _) (by omega)⟩

/-- A whole expression between a reserved word and a semicolon. -/
theorem worded {w : Keyword} {e : Expr} (h : (Site.expr e).IsCopied whole)
    (hts : ts.map Token.lexeme = .word w :: parens (whole && e.isCompound) (e.lexemes whole) ++
      [.mark .semicolon]) :
    ∃ t us c copy level, ts = ⟨.word w, t⟩ :: us ++ [⟨.mark .semicolon, c⟩] ∧
      copy.unplaced = e.unplaced ∧ Phrase.Grouped (.expr copy) level us := by
  simp only [List.cons_append, map_lexeme_eq_append, map_lexeme_eq_cons, map_lexeme_eq_nil] at hts
  obtain ⟨t, _, rfl, us, _, rfl, hus, c, _, rfl, rfl⟩ := hts
  obtain ⟨copy, level, hcopy, hgrouped⟩ := h.expr hus
  exact ⟨t, us, c, copy, level, rfl, hcopy, hgrouped⟩

end Site.IsCopied

namespace Site

variable {whole : Bool}

theorem isCopied_expr {e : Expr}
    (h : ∀ visit ∈ (Site.expr e).visits [], visit.1.IsCopied whole) :
    (Site.expr e).IsCopied whole := by
  intro ts hts
  cases e with
  | literal value span =>
    simp only [Expr.lexemes, map_lexeme_eq_cons, map_lexeme_eq_nil] at hts
    obtain ⟨s, _, rfl, rfl⟩ := hts
    exact ⟨.literal value s, 0, by simp only [Expr.unplaced], .literal, fun _ ↦ rfl⟩
  | lookup x =>
    simp only [Expr.lexemes, map_lexeme_eq_cons, map_lexeme_eq_nil] at hts
    obtain ⟨s, _, rfl, rfl⟩ := hts
    refine ⟨.lookup ⟨x.name, s⟩, 0, ?_, .lookup, fun _ ↦ rfl⟩
    simp only [Expr.unplaced, Ident.unplaced]
  | typeOf arg span =>
    have harg : (Site.expr arg).IsCopied whole := by simpa [visits] using h
    obtain ⟨s, copy, hcopy, hgrouped⟩ := harg.prefixed .typeOf (by rw [hts, Expr.lexemes])
    exact ⟨_, _, by simp [PrefixOp.apply, Expr.unplaced, hcopy], hgrouped, fun h ↦ by cases h⟩
  | unary op arg span =>
    have harg : (Site.expr arg).IsCopied whole := by simpa [visits] using h
    obtain ⟨s, copy, hcopy, hgrouped⟩ := harg.prefixed (.unary op) (by rw [hts, Expr.lexemes])
    exact ⟨_, _, by simp [PrefixOp.apply, Expr.unplaced, hcopy], hgrouped, fun h ↦ by cases h⟩
  | binary a op b span =>
    obtain ⟨ha, hb⟩ : (Site.expr a).IsCopied whole ∧ (Site.expr b).IsCopied whole := by
      simpa [visits] using h
    obtain ⟨lhs, rhs, hlhs, hrhs, hgrouped⟩ := ha.infixed (.binary op) hb
      (by rw [hts, Expr.lexemes])
    exact ⟨_, _, by simp [InfixOp.apply, Expr.unplaced, hlhs, hrhs], hgrouped,
      fun h ↦ by cases h⟩
  | shortcut a op b span =>
    obtain ⟨ha, hb⟩ : (Site.expr a).IsCopied whole ∧ (Site.expr b).IsCopied whole := by
      simpa [visits] using h
    obtain ⟨lhs, rhs, hlhs, hrhs, hgrouped⟩ := ha.infixed (.shortcut op) hb
      (by rw [hts, Expr.lexemes])
    exact ⟨_, _, by simp [InfixOp.apply, Expr.unplaced, hlhs, hrhs], hgrouped,
      fun h ↦ by cases h⟩
  | call callee args span =>
    obtain ⟨hcallee, hargs⟩ : (Site.expr callee).IsCopied whole ∧
        ∀ e ∈ args, (Site.expr e).IsCopied whole := by simpa [visits] using h
    simp only [Expr.lexemes, List.append_assoc, List.cons_append, map_lexeme_eq_append,
      map_lexeme_eq_cons, map_lexeme_eq_nil] at hts
    obtain ⟨us, _, rfl, hus, o, _, rfl, vs, _, rfl, hvs, c, _, rfl, rfl⟩ := hts
    obtain ⟨copy, hcopy, hgrouped⟩ := hcallee.operand hus
    obtain ⟨copies, hcopies, hall⟩ := IsCopied.args hargs hvs
    refine ⟨_, 0, ?_, by simpa using hgrouped.call (o := o) (c := c) hall, fun _ ↦ rfl⟩
    simp [Expr.unplaced, exprsUnplaced_eq, hcopy, hcopies]
  | index a i span =>
    obtain ⟨ha, hi⟩ : (Site.expr a).IsCopied whole ∧ (Site.expr i).IsCopied whole := by
      simpa [visits] using h
    simp only [Expr.lexemes, List.append_assoc, List.cons_append, map_lexeme_eq_append,
      map_lexeme_eq_cons, map_lexeme_eq_nil] at hts
    obtain ⟨us, _, rfl, hus, o, _, rfl, vs, _, rfl, hvs, c, _, rfl, rfl⟩ := hts
    obtain ⟨base, hbase, hgrouped⟩ := ha.operand hus
    obtain ⟨index, hindex, hinner⟩ := hi.operand hvs
    refine ⟨_, 0, ?_, by simpa using hgrouped.index (o := o) (c := c) hinner, fun _ ↦ rfl⟩
    simp [Expr.unplaced, hbase, hindex]
  | array elements span =>
    have helements : ∀ e ∈ elements, (Site.expr e).IsCopied whole := by simpa [visits] using h
    simp only [Expr.lexemes, List.cons_append, map_lexeme_eq_append, map_lexeme_eq_cons,
      map_lexeme_eq_nil] at hts
    obtain ⟨o, _, rfl, us, _, rfl, hus, c, _, rfl, rfl⟩ := hts
    obtain ⟨copies, hcopies, hall⟩ := IsCopied.args helements hus
    refine ⟨_, 0, ?_, .array (o := o) (c := c) hall, fun _ ↦ rfl⟩
    simp [Expr.unplaced, exprsUnplaced_eq, hcopies]
  | function params body span =>
    have hbody : ∀ s ∈ body, (Site.stmt s).IsCopied whole := by
      simpa [visits, Scope.visits, Scope.statements] using h
    simp only [Expr.lexemes, List.append_assoc, List.cons_append, map_lexeme_eq_append,
      map_lexeme_eq_cons, map_lexeme_eq_nil] at hts
    obtain ⟨s, _, rfl, o, _, rfl, us, _, rfl, hus, p, _, rfl, q, _, rfl, vs, _, rfl, hvs, c, _, rfl,
      rfl⟩ := hts
    obtain ⟨names, hnames, hparams⟩ := exists_params hus
    obtain ⟨copies, hcopies, hall⟩ := IsCopied.stmts hbody hvs
    have hgrouped := Phrase.Grouped.anonymous (h := s) (o := o) (p := p) (q := q) (c := c)
      hparams hall
    refine ⟨_, 0, ?_, by simpa using hgrouped, fun _ ↦ rfl⟩
    simp [Expr.unplaced, stmtsUnplaced_eq, hnames, hcopies]

theorem isCopied_declare {kind : Kind} {items : List Declarator} {span : Span} (hsome : items ≠ [])
    (hitems : ∀ d ∈ items, ∀ e ∈ d.init, (Site.expr e).IsCopied whole) :
    (Site.stmt (.declare kind items span)).IsCopied whole := by
  intro ts hts
  simp only [Stmt.lexemes, List.cons_append, map_lexeme_eq_append, map_lexeme_eq_cons,
    map_lexeme_eq_nil] at hts
  obtain ⟨t, _, rfl, us, _, rfl, hus, c, _, rfl, rfl⟩ := hts
  obtain ⟨copies, hcopies, hall⟩ := exists_items hitems hsome hus
  refine ⟨_, ?_, .declare (h := t) (c := c) hall⟩
  simp [Stmt.unplaced, itemsUnplaced_eq, hcopies]

theorem isCopied_destructure {kind : Kind} {idents : List Ident} {init : Expr} {span : Span}
    (hsome : idents ≠ []) (hinit : (Site.expr init).IsCopied whole) :
    (Site.stmt (.destructure kind idents init span)).IsCopied whole := by
  intro ts hts
  simp only [Stmt.lexemes, List.append_assoc, List.cons_append, map_lexeme_eq_append,
    map_lexeme_eq_cons, map_lexeme_eq_nil] at hts
  obtain ⟨t, _, rfl, o, _, rfl, us, _, rfl, hus, p, _, rfl, q, _, rfl, vs, _, rfl, hvs, c, _, rfl,
    rfl⟩ := hts
  obtain ⟨names, hnames, hidents⟩ := exists_idents hsome hus
  obtain ⟨copy, level, hcopy, hgrouped⟩ := hinit.expr hvs
  have hall := Phrase.Grouped.destructure (k := kind) (h := t) (o := o) (p := p) (q := q) (c := c)
    hidents hgrouped
  refine ⟨_, ?_, by simpa using hall⟩
  simp [Stmt.unplaced, hnames, hcopy]

theorem isCopied_function {x : Ident} {params : List Ident} {body : List Stmt} {span : Span}
    (hbody : ∀ s ∈ body, (Site.stmt s).IsCopied whole) :
    (Site.stmt (.function x params body span)).IsCopied whole := by
  intro ts hts
  simp only [Stmt.lexemes, Ident.lexeme, List.append_assoc, List.cons_append,
    map_lexeme_eq_append, map_lexeme_eq_cons, map_lexeme_eq_nil] at hts
  obtain ⟨t, _, rfl, s, _, rfl, o, _, rfl, us, _, rfl, hus, p, _, rfl, q, _, rfl, vs, _, rfl, hvs,
    c, _, rfl, rfl⟩ := hts
  obtain ⟨names, hnames, hparams⟩ := exists_params hus
  obtain ⟨copies, hcopies, hall⟩ := IsCopied.stmts hbody hvs
  have hgrouped := Phrase.Grouped.named (n := x.name) (s := s) (h := t) (o := o) (p := p) (q := q)
    (c := c) hparams hall
  refine ⟨_, ?_, by simpa using hgrouped⟩
  simp [Stmt.unplaced, Ident.unplaced, stmtsUnplaced_eq, hnames, hcopies]

theorem isCopied_assign {x : Ident} {value : Expr} {span : Span}
    (hvalue : (Site.expr value).IsCopied whole) :
    (Site.stmt (.assign x value span)).IsCopied whole := by
  intro ts hts
  simp only [Stmt.lexemes, Ident.lexeme, List.cons_append, map_lexeme_eq_append,
    map_lexeme_eq_cons, map_lexeme_eq_nil] at hts
  obtain ⟨s, _, rfl, t, _, rfl, us, _, rfl, hus, c, _, rfl, rfl⟩ := hts
  obtain ⟨copy, level, hcopy, hgrouped⟩ := hvalue.expr hus
  refine ⟨_, ?_, .assign (n := x.name) (s := s) (t := t) (c := c) hgrouped⟩
  simp [Stmt.unplaced, Ident.unplaced, hcopy]

theorem isCopied_block {body : List Stmt} {span : Span}
    (hbody : ∀ s ∈ body, (Site.stmt s).IsCopied whole) :
    (Site.stmt (.block (.mk body span))).IsCopied whole := by
  intro ts hts
  simp only [Stmt.lexemes, Block.lexemes, List.cons_append, map_lexeme_eq_append,
    map_lexeme_eq_cons, map_lexeme_eq_nil] at hts
  obtain ⟨o, _, rfl, us, _, rfl, hus, c, _, rfl, rfl⟩ := hts
  obtain ⟨copies, hcopies, hall⟩ := IsCopied.stmts hbody hus
  refine ⟨.block (.mk copies (o.to c)), ?_, .inner (.block hall)⟩
  simp [Stmt.unplaced, Block.unplaced, stmtsUnplaced_eq, hcopies]

theorem isCopied_branch {cond : Expr} {thenPart : Block} {elsePart : Option Stmt} {span : Span}
    (hcond : (Site.expr cond).IsCopied whole) (hthen : (Site.stmt (.block thenPart)).IsCopied whole)
    (helse : ∀ s ∈ elsePart, (Site.stmt s).IsCopied whole)
    (helsePart : ∀ s ∈ elsePart, s.CanBeElsePart) :
    (Site.stmt (.branch cond thenPart elsePart span)).IsCopied whole := by
  intro ts hts
  cases elsePart with
  | none =>
    simp only [Stmt.lexemes, List.cons_append, map_lexeme_eq_append, map_lexeme_eq_cons] at hts
    obtain ⟨t, _, rfl, o, _, rfl, us, _, rfl, hus, c, vs, rfl, hvs⟩ := hts
    obtain ⟨copy, level, hcopy, hgrouped⟩ := hcond.expr hus
    obtain ⟨first, hfirst, hblock⟩ := hthen.block hvs
    have hall := Phrase.Grouped.thenOnly (h := t) (o := o) (c := c) hgrouped hblock
    refine ⟨_, ?_, .branch (by simpa using hall)⟩
    simp [Stmt.unplaced, hcopy, hfirst]
  | some s =>
    replace helsePart := helsePart s rfl
    replace helse := helse s rfl
    simp only [Stmt.lexemes, List.append_assoc, List.cons_append, map_lexeme_eq_append,
      map_lexeme_eq_cons] at hts
    obtain ⟨t, _, rfl, o, _, rfl, us, _, rfl, hus, c, _, rfl, vs, _, rfl, hvs, r, ws, rfl, hws⟩ :=
      hts
    obtain ⟨copy, level, hcopy, hgrouped⟩ := hcond.expr hus
    obtain ⟨first, hfirst, hblock⟩ := hthen.block hvs
    cases s with
    | block b =>
      obtain ⟨second, hsecond, hlast⟩ := helse.block (by rw [hws, Stmt.lexemes])
      have hall := Phrase.Grouped.elseBlock (h := t) (o := o) (c := c) (s := r)
        hgrouped hblock hlast
      refine ⟨_, ?_, .branch (by simpa using hall)⟩
      simp [Stmt.unplaced, hcopy, hfirst, hsecond]
    | branch cond' thenPart' elsePart' span' =>
      obtain ⟨second, hsecond, hlast⟩ := helse.conditional hws
      have hall := Phrase.Grouped.elseIf (h := t) (o := o) (c := c) (s := r)
        hgrouped hblock hlast
      refine ⟨_, ?_, .branch (by simpa using hall)⟩
      rw [Stmt.unplaced, Stmt.unplaced, hcopy, hfirst, hsecond]
    | _ => exact helsePart.elim

theorem isCopied_whileLoop {cond : Expr} {body : Block} {span : Span}
    (hcond : (Site.expr cond).IsCopied whole) (hbody : (Site.stmt (.block body)).IsCopied whole) :
    (Site.stmt (.whileLoop cond body span)).IsCopied whole := by
  intro ts hts
  simp only [Stmt.lexemes, List.cons_append, map_lexeme_eq_append, map_lexeme_eq_cons] at hts
  obtain ⟨t, _, rfl, o, _, rfl, us, _, rfl, hus, c, vs, rfl, hvs⟩ := hts
  obtain ⟨copy, level, hcopy, hgrouped⟩ := hcond.expr hus
  obtain ⟨copy', hcopy', hblock⟩ := hbody.block hvs
  have hall := Phrase.Grouped.whileLoop (h := t) (o := o) (c := c) hgrouped hblock
  refine ⟨_, ?_, by simpa using hall⟩
  simp [Stmt.unplaced, hcopy, hcopy']

theorem isCopied_forOf {kind : Kind} {x : Ident} {iterable : Expr} {body : Block} {span : Span}
    (hiterable : (Site.expr iterable).IsCopied whole)
    (hbody : (Site.stmt (.block body)).IsCopied whole) :
    (Site.stmt (.forOf kind x iterable body span)).IsCopied whole := by
  intro ts hts
  simp only [Stmt.lexemes, Ident.lexeme, List.cons_append, map_lexeme_eq_append,
    map_lexeme_eq_cons] at hts
  obtain ⟨t, _, rfl, o, _, rfl, p, _, rfl, s, _, rfl, q, _, rfl, us, _, rfl, hus, c, vs, rfl,
    hvs⟩ := hts
  obtain ⟨copy, level, hcopy, hgrouped⟩ := hiterable.expr hus
  obtain ⟨copy', hcopy', hblock⟩ := hbody.block hvs
  have hall := Phrase.Grouped.forOf (k := kind) (n := x.name) (s := s) (h := t) (o := o) (p := p)
    (q := q) (c := c) hgrouped hblock
  refine ⟨_, ?_, by simpa using hall⟩
  simp [Stmt.unplaced, Ident.unplaced, hcopy, hcopy']

theorem isCopied_tryCatch {body handler : Block} {x : Ident} {span : Span}
    (hbody : (Site.stmt (.block body)).IsCopied whole)
    (hhandler : (Site.stmt (.block handler)).IsCopied whole) :
    (Site.stmt (.tryCatch body x handler span)).IsCopied whole := by
  intro ts hts
  simp only [Stmt.lexemes, Ident.lexeme, List.cons_append, map_lexeme_eq_append,
    map_lexeme_eq_cons] at hts
  obtain ⟨t, _, rfl, us, _, rfl, hus, p, _, rfl, o, _, rfl, s, _, rfl, c, vs, rfl, hvs⟩ := hts
  obtain ⟨copy, hcopy, hblock⟩ := hbody.block hus
  obtain ⟨copy', hcopy', hblock'⟩ := hhandler.block hvs
  have hall := Phrase.Grouped.tryCatch (n := x.name) (s := s) (h := t) (o := o) (p := p) (c := c)
    hblock hblock'
  refine ⟨_, ?_, by simpa using hall⟩
  simp [Stmt.unplaced, Ident.unplaced, hcopy, hcopy']

theorem isCopied_stmt {s : Stmt} (hhere : (Site.stmt s).IsWritable)
    (h : ∀ visit ∈ (Site.stmt s).visits [], visit.1.IsCopied whole) :
    (Site.stmt s).IsCopied whole := by
  cases s with
  | declare kind items span =>
    exact isCopied_declare hhere.1 fun d hd e he ↦
      h (.expr e, []) (List.mem_filterMap.2 ⟨d, hd, by rw [Option.mem_def.1 he]; rfl⟩)
  | destructure kind idents init span =>
    exact isCopied_destructure hhere.1 (by simpa [visits] using h)
  | function x params body span =>
    exact isCopied_function (by simpa [visits, Scope.visits, Scope.statements] using h)
  | assign x value span => exact isCopied_assign (by simpa [visits] using h)
  | expr value span =>
    have hvalue : (Site.expr value).IsCopied whole := by simpa [visits] using h
    intro ts hts
    simp only [Stmt.lexemes, map_lexeme_eq_append, map_lexeme_eq_cons, map_lexeme_eq_nil] at hts
    obtain ⟨us, _, rfl, hus, c, _, rfl, rfl⟩ := hts
    obtain ⟨copy, level, hcopy, hgrouped⟩ := hvalue.expr hus
    exact ⟨_, by simp [Stmt.unplaced, hcopy], .effect (c := c) hgrouped⟩
  | print value span =>
    have hvalue : (Site.expr value).IsCopied whole := by simpa [visits] using h
    intro ts hts
    obtain ⟨t, us, c, copy, level, rfl, hcopy, hgrouped⟩ :=
      hvalue.worded (by rw [hts, Stmt.lexemes])
    exact ⟨_, by simp [Stmt.unplaced, hcopy], .print hgrouped⟩
  | ret value span =>
    intro ts hts
    cases value with
    | none =>
      simp only [Stmt.lexemes, map_lexeme_eq_cons, map_lexeme_eq_nil] at hts
      obtain ⟨t, _, rfl, c, _, rfl, rfl⟩ := hts
      exact ⟨_, by simp only [Stmt.unplaced], .retNothing (h := t) (c := c)⟩
    | some value =>
      have hvalue : (Site.expr value).IsCopied whole := by simpa [visits] using h
      obtain ⟨t, us, c, copy, level, rfl, hcopy, hgrouped⟩ :=
        hvalue.worded (by rw [hts, Stmt.lexemes])
      exact ⟨_, by simp [Stmt.unplaced, hcopy], .ret hgrouped⟩
  | pause span =>
    intro ts hts
    simp only [Stmt.lexemes, map_lexeme_eq_cons, map_lexeme_eq_nil] at hts
    obtain ⟨t, _, rfl, c, _, rfl, rfl⟩ := hts
    exact ⟨_, by simp only [Stmt.unplaced], .pause (h := t) (c := c)⟩
  | spawn value span =>
    have hvalue : (Site.expr value).IsCopied whole := by simpa [visits] using h
    intro ts hts
    obtain ⟨t, us, c, copy, level, rfl, hcopy, hgrouped⟩ :=
      hvalue.worded (by rw [hts, Stmt.lexemes])
    exact ⟨_, by simp [Stmt.unplaced, hcopy], .spawn hgrouped⟩
  | throw value span =>
    have hvalue : (Site.expr value).IsCopied whole := by simpa [visits] using h
    intro ts hts
    obtain ⟨t, us, c, copy, level, rfl, hcopy, hgrouped⟩ :=
      hvalue.worded (by rw [hts, Stmt.lexemes])
    exact ⟨_, by simp [Stmt.unplaced, hcopy], .throw hgrouped⟩
  | block block =>
    obtain ⟨body, span⟩ := block
    exact isCopied_block (by simpa [visits, Scope.visits, Scope.statements, Block.body] using h)
  | branch cond thenPart elsePart span =>
    obtain ⟨hcond, hthen, helse⟩ : (Site.expr cond).IsCopied whole ∧
        (Site.stmt (.block thenPart)).IsCopied whole ∧
          ∀ s ∈ elsePart, (Site.stmt s).IsCopied whole := by simpa [visits] using h
    exact isCopied_branch hcond hthen helse hhere
  | whileLoop cond body span =>
    obtain ⟨hcond, hbody⟩ : (Site.expr cond).IsCopied whole ∧
        (Site.stmt (.block body)).IsCopied whole := by simpa [visits] using h
    exact isCopied_whileLoop hcond hbody
  | forOf kind x iterable body span =>
    obtain ⟨hiterable, hbody⟩ : (Site.expr iterable).IsCopied whole ∧
        (Site.stmt (.block body)).IsCopied whole := by simpa [visits] using h
    exact isCopied_forOf hiterable hbody
  | tryCatch body x handler span =>
    obtain ⟨hbody, hhandler⟩ : (Site.stmt (.block body)).IsCopied whole ∧
        (Site.stmt (.block handler)).IsCopied whole := by simpa [visits] using h
    exact isCopied_tryCatch hbody hhandler

theorem Writable.isCopied {site : Site} (h : site.Writable) (whole : Bool) :
    site.IsCopied whole := by
  induction h with
  | @intro site hhere hinside ih =>
    cases site with
    | ident x => trivial
    | expr e => exact isCopied_expr (ih [])
    | stmt s => exact isCopied_stmt hhere (ih [])

end Site

namespace Site

/-! Two steps by which it can be checked that a given tree can be written. -/

theorem writable_expr_iff {e : Expr} : (Site.expr e).Writable ↔ (Site.expr e).IsWritable ∧
    ∀ scopes, ∀ visit ∈ (Site.expr e).visits scopes, visit.1.Writable :=
  ⟨fun ⟨hhere, hinside⟩ ↦ ⟨hhere, hinside⟩, fun ⟨hhere, hinside⟩ ↦ ⟨hhere, hinside⟩⟩

theorem writable_stmt_iff {s : Stmt} : (Site.stmt s).Writable ↔ (Site.stmt s).IsWritable ∧
    ∀ scopes, ∀ visit ∈ (Site.stmt s).visits scopes, visit.1.Writable :=
  ⟨fun ⟨hhere, hinside⟩ ↦ ⟨hhere, hinside⟩, fun ⟨hhere, hinside⟩ ↦ ⟨hhere, hinside⟩⟩

end Site

/-- A program that has been written out is read as itself, up to its spans. -/
theorem Program.read_print (whole : Bool) {program : Program} (h : program.Writable) :
    ∃ copy, Program.read (program.print whole) = .program copy ∧
      copy.unplaced = program.unplaced := by
  have hlexemes : Lexeme.AllWritable (stmtsLexemes whole program) := by
    rw [stmtsLexemes_eq, Lexeme.allWritable_flatMap]
    exact fun s hs ↦ (h s hs).allWritable_lexemes whole
  obtain ⟨ts, hscan, hts⟩ := exists_scan_writeOut hlexemes
  obtain ⟨copy, hcopy, hgrouped⟩ := Site.IsCopied.stmts (fun s hs ↦ (h s hs).isCopied whole) hts
  refine ⟨copy, ?_, hcopy⟩
  rw [Program.read, Program.print, hscan]
  exact Scan.read_eq_program_iff.2 ⟨rfl, Reading.gives_of_grouped hgrouped⟩

theorem Program.read_print_conditionals : ∃ program : Program, program.Writable ∧
    String.ofList (program.print false) =
      "function f ( n ) \x7b if ( ! n ) \x7b return ; \x7d else if ( n < 2 ) " ++
      "\x7b return ( [ \"a b\" , ( - 1 ) ] ) [ ( n - 1 ) ] ; \x7d \x7d " ++
      "const g = function ( ) \x7b print ( ( f ( 2 ) ) ( ) ) * 3 ; \x7d , h ;" ∧
    ∃ copy, Program.read (program.print false) = .program copy ∧
      copy.unplaced = program.unplaced := by
  let p : Span := default
  let n : Expr := .lookup ⟨"n", p⟩
  let int (value : Int) : Expr := .literal (.number (.int value)) p
  let pair : Expr := .array [.literal (.text "a b") p, .unary .negate (int 1) p] p
  let conditional : Stmt := .branch (.unary .not n p) (.mk [.ret none p] p)
    (some (.branch (.binary n .lt (int 2) p)
      (.mk [.ret (some (.index pair (.binary n .sub (int 1) p) p)) p] p) none p)) p
  let call : Expr := .call (.call (.lookup ⟨"f", p⟩) [int 2] p) [] p
  let triple : Expr := .function [] [.print (.binary call .mul (int 3) p) p] p
  let program : Program := [.function ⟨"f", p⟩ [⟨"n", p⟩] [conditional] p,
    .declare .constant [.mk ⟨"g", p⟩ (some triple), .mk ⟨"h", p⟩ none] p]
  have hwritable : program.Writable := by
    simp [program, triple, conditional, call, pair, n, int, Program.Writable,
      Site.writable_expr_iff, Site.writable_stmt_iff, Site.visits, Site.IsWritable, Scope.visits,
      Scope.statements, Ident.lexeme, Literal.lexeme, Declarator.ident, Declarator.init,
      Block.body, Stmt.CanBeElsePart]
    decide +kernel
  exact ⟨program, hwritable, by decide +kernel, read_print false hwritable⟩

end LateConst
