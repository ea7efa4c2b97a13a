import Mathlib.Algebra.Group.Nat.Defs
import LateConst.Proofs.Grouping
import LateConst.Proofs.Scope
import LateConst.Proofs.Span.Tree
import LateConst.Token.Scan

/-!
# Writing a program out

`Program.print` writes a syntax tree as a text: the lexemes of the tree with a blank between any
two of them, and a pair of parentheses around every operand, argument, element or index that is
more than a literal or a name. The expression that a statement consists of, or begins with, can be
put into parentheses as well or be left without.

Not every tree can be written. `Site.Writable` says what it takes: names have to be names, integers
must be short enough and not negative, strings must not contain a quote, declarations must declare
something, and only a block or a conditional can stand after `else`.

Spans play no part in any of this; `unplaced` removes them from a tree.
-/

namespace LateConst

/-! ### Lexemes -/

namespace Lexeme

/-- The characters of a lexeme. No text is chosen for doubles. -/
def chars : Lexeme → List Char
  | number (.int n) => Nat.toDigits 10 n.toNat
  | number (.double _) => []
  | text t => '"' :: t.toList ++ ['"']
  | name n => n.toList
  | word w => w.text.toList
  | mark m => m.symbol.toList

def Writable : Lexeme → Prop
  | number (.int n) => 0 ≤ n ∧ n.toNat < 10 ^ digitLimit
  | number (.double _) => False
  | text t => '"' ∉ t.toList
  | name n => n.toList.head?.any isNameStart ∧ n.toList.all isNameChar ∧
      ∀ w ∈ Keyword.all, w.text ≠ n
  | word _ => True
  | mark _ => True

instance : DecidablePred Writable
  | number (.int n) => inferInstanceAs (Decidable (0 ≤ n ∧ n.toNat < 10 ^ digitLimit))
  | number (.double _) => inferInstanceAs (Decidable False)
  | text t => inferInstanceAs (Decidable ('"' ∉ t.toList))
  | name n => inferInstanceAs (Decidable (n.toList.head?.any isNameStart ∧
      n.toList.all isNameChar ∧ ∀ w ∈ Keyword.all, w.text ≠ n))
  | word _ => inferInstanceAs (Decidable True)
  | mark _ => inferInstanceAs (Decidable True)

def commas (groups : List (List Lexeme)) : List Lexeme := [mark .comma].intercalate groups

/-- Lexemes with or without a pair of parentheses around them. -/
def parens (written : Bool) (ls : List Lexeme) : List Lexeme :=
  if written then mark .openParen :: ls ++ [mark .closeParen] else ls

end Lexeme

def Ident.lexeme (ident : Ident) : Lexeme := .name ident.name

def nameList (idents : List Ident) : List Lexeme :=
  Lexeme.commas (idents.map fun ident ↦ [ident.lexeme])

/-! ### Trees -/

open Lexeme (commas parens)

/-- Whether an expression is more than a literal or a name. -/
def Expr.isCompound : Expr → Bool
  | .literal _ _ => false
  | .lookup _ => false
  | _ => true

mutual

/-- The lexemes of an expression without parentheses around it. `whole` tells whether whole
expressions of statements are put into parentheses. -/
def Expr.lexemes (whole : Bool) : Expr → List Lexeme
  | .literal value _ => [value.lexeme]
  | .lookup ident => [ident.lexeme]
  | .typeOf arg _ => PrefixOp.typeOf.lexeme :: parens arg.isCompound (arg.lexemes whole)
  | .unary op arg _ => (PrefixOp.unary op).lexeme :: parens arg.isCompound (arg.lexemes whole)
  | .binary lhs op rhs _ =>
    parens lhs.isCompound (lhs.lexemes whole) ++
      .mark (InfixOp.binary op).mark :: parens rhs.isCompound (rhs.lexemes whole)
  | .shortcut lhs op rhs _ =>
    parens lhs.isCompound (lhs.lexemes whole) ++
      .mark (InfixOp.shortcut op).mark :: parens rhs.isCompound (rhs.lexemes whole)
  | .call callee args _ =>
    parens callee.isCompound (callee.lexemes whole) ++
      .mark .openParen :: commas (exprsLexemes whole args) ++ [.mark .closeParen]
  | .index base index _ =>
    parens base.isCompound (base.lexemes whole) ++
      .mark .openBracket :: parens index.isCompound (index.lexemes whole) ++
        [.mark .closeBracket]
  | .array elements _ =>
    .mark .openBracket :: commas (exprsLexemes whole elements) ++ [.mark .closeBracket]
  | .function params body _ =>
    .word .functionWord :: .mark .openParen :: nameList params ++ .mark .closeParen ::
      .mark .openBrace :: stmtsLexemes whole body ++ [.mark .closeBrace]

/-- The lexemes of each expression, with parentheses around it if it is compound. -/
def exprsLexemes (whole : Bool) : List Expr → List (List Lexeme)
  | [] => []
  | e :: more => parens e.isCompound (e.lexemes whole) :: exprsLexemes whole more

def Stmt.lexemes (whole : Bool) : Stmt → List Lexeme
  | .declare kind items _ =>
    .word kind.word :: commas (itemsLexemes whole items) ++ [.mark .semicolon]
  | .destructure kind idents init _ =>
    .word kind.word :: .mark .openBracket :: nameList idents ++ .mark .closeBracket ::
      .mark .assign :: parens (whole && init.isCompound) (init.lexemes whole) ++
        [.mark .semicolon]
  | .function ident params body _ =>
    .word .functionWord :: ident.lexeme :: .mark .openParen :: nameList params ++
      .mark .closeParen :: .mark .openBrace :: stmtsLexemes whole body ++ [.mark .closeBrace]
  | .assign ident value _ =>
    ident.lexeme :: .mark .assign :: parens (whole && value.isCompound) (value.lexemes whole) ++
      [.mark .semicolon]
  | .expr value _ =>
    parens (whole && value.isCompound) (value.lexemes whole) ++ [.mark .semicolon]
  | .print value _ =>
    .word .printWord :: parens (whole && value.isCompound) (value.lexemes whole) ++
      [.mark .semicolon]
  | .ret none _ => [.word .returnWord, .mark .semicolon]
  | .ret (some value) _ =>
    .word .returnWord :: parens (whole && value.isCompound) (value.lexemes whole) ++
      [.mark .semicolon]
  | .pause _ => [.word .pauseWord, .mark .semicolon]
  | .spawn value _ =>
    .word .spawnWord :: parens (whole && value.isCompound) (value.lexemes whole) ++
      [.mark .semicolon]
  | .throw value _ =>
    .word .throwWord :: parens (whole && value.isCompound) (value.lexemes whole) ++
      [.mark .semicolon]
  | .block block => block.lexemes whole
  | .branch cond thenPart none _ =>
    .word .ifWord :: .mark .openParen :: parens (whole && cond.isCompound) (cond.lexemes whole) ++
      .mark .closeParen :: thenPart.lexemes whole
  | .branch cond thenPart (some elsePart) _ =>
    .word .ifWord :: .mark .openParen :: parens (whole && cond.isCompound) (cond.lexemes whole) ++
      .mark .closeParen :: thenPart.lexemes whole ++ .word .elseWord :: elsePart.lexemes whole
  | .whileLoop cond body _ =>
    .word .whileWord :: .mark .openParen ::
      parens (whole && cond.isCompound) (cond.lexemes whole) ++
        .mark .closeParen :: body.lexemes whole
  | .forOf kind ident iterable body _ =>
    .word .forWord :: .mark .openParen :: .word kind.word :: ident.lexeme :: .word .ofWord ::
      parens (whole && iterable.isCompound) (iterable.lexemes whole) ++
        .mark .closeParen :: body.lexemes whole
  | .tryCatch body ident handler _ =>
    .word .tryWord :: body.lexemes whole ++ .word .catchWord :: .mark .openParen ::
      ident.lexeme :: .mark .closeParen :: handler.lexemes whole

def stmtsLexemes (whole : Bool) : List Stmt → List Lexeme
  | [] => []
  | s :: more => s.lexemes whole ++ stmtsLexemes whole more

def Declarator.lexemes (whole : Bool) : Declarator → List Lexeme
  | .mk ident none => [ident.lexeme]
  | .mk ident (some init) =>
    ident.lexeme :: .mark .assign :: parens (whole && init.isCompound) (init.lexemes whole)

def itemsLexemes (whole : Bool) : List Declarator → List (List Lexeme)
  | [] => []
  | item :: more => item.lexemes whole :: itemsLexemes whole more

def Block.lexemes (whole : Bool) : Block → List Lexeme
  | .mk body _ => .mark .openBrace :: stmtsLexemes whole body ++ [.mark .closeBrace]

end

/-- A text with the given lexemes and a blank between any two of them. -/
def writeOut (ls : List Lexeme) : List Char := [' '].intercalate (ls.map Lexeme.chars)

def Program.print (whole : Bool) (program : Program) : List Char :=
  writeOut (stmtsLexemes whole program)

/-! ### Trees without places -/

def Ident.unplaced (ident : Ident) : Ident := ⟨ident.name, default⟩

mutual

/-- An expression with all spans replaced by one and the same. -/
def Expr.unplaced : Expr → Expr
  | .literal value _ => .literal value default
  | .lookup ident => .lookup ident.unplaced
  | .typeOf arg _ => .typeOf arg.unplaced default
  | .unary op arg _ => .unary op arg.unplaced default
  | .binary lhs op rhs _ => .binary lhs.unplaced op rhs.unplaced default
  | .shortcut lhs op rhs _ => .shortcut lhs.unplaced op rhs.unplaced default
  | .call callee args _ => .call callee.unplaced (exprsUnplaced args) default
  | .index base index _ => .index base.unplaced index.unplaced default
  | .array elements _ => .array (exprsUnplaced elements) default
  | .function params body _ =>
    .function (params.map Ident.unplaced) (stmtsUnplaced body) default

def exprsUnplaced : List Expr → List Expr
  | [] => []
  | e :: more => e.unplaced :: exprsUnplaced more

def Stmt.unplaced : Stmt → Stmt
  | .declare kind items _ => .declare kind (itemsUnplaced items) default
  | .destructure kind idents init _ =>
    .destructure kind (idents.map Ident.unplaced) init.unplaced default
  | .function ident params body _ =>
    .function ident.unplaced (params.map Ident.unplaced) (stmtsUnplaced body) default
  | .assign ident value _ => .assign ident.unplaced value.unplaced default
  | .expr value _ => .expr value.unplaced default
  | .print value _ => .print value.unplaced default
  | .ret none _ => .ret none default
  | .ret (some value) _ => .ret (some value.unplaced) default
  | .pause _ => .pause default
  | .spawn value _ => .spawn value.unplaced default
  | .throw value _ => .throw value.unplaced default
  | .block block => .block block.unplaced
  | .branch cond thenPart none _ => .branch cond.unplaced thenPart.unplaced none default
  | .branch cond thenPart (some elsePart) _ =>
    .branch cond.unplaced thenPart.unplaced (some elsePart.unplaced) default
  | .whileLoop cond body _ => .whileLoop cond.unplaced body.unplaced default
  | .forOf kind ident iterable body _ =>
    .forOf kind ident.unplaced iterable.unplaced body.unplaced default
  | .tryCatch body ident handler _ =>
    .tryCatch body.unplaced ident.unplaced handler.unplaced default

def stmtsUnplaced : List Stmt → List Stmt
  | [] => []
  | s :: more => s.unplaced :: stmtsUnplaced more

def Declarator.unplaced : Declarator → Declarator
  | .mk ident none => .mk ident.unplaced none
  | .mk ident (some init) => .mk ident.unplaced (some init.unplaced)

def itemsUnplaced : List Declarator → List Declarator
  | [] => []
  | item :: more => item.unplaced :: itemsUnplaced more

def Block.unplaced : Block → Block
  | .mk body _ => .mk (stmtsUnplaced body) default

end

def Program.unplaced (program : Program) : Program := program.map Stmt.unplaced

/-! ### Trees that can be written -/

namespace Site

/-- What it takes to write a node, apart from what is inside of it. -/
def IsWritable : Site → Prop
  | .ident x => x.lexeme.Writable
  | .expr e =>
    match e with
    | .literal value _ => value.lexeme.Writable
    | .lookup x => x.lexeme.Writable
    | .function params _ _ => ∀ x ∈ params, x.lexeme.Writable
    | _ => True
  | .stmt s =>
    match s with
    | .declare _ items _ => items ≠ [] ∧ ∀ item ∈ items, item.ident.lexeme.Writable
    | .destructure _ idents _ _ => idents ≠ [] ∧ ∀ x ∈ idents, x.lexeme.Writable
    | .function x params _ _ => ∀ y ∈ x :: params, y.lexeme.Writable
    | .assign x _ _ | .forOf _ x _ _ _ | .tryCatch _ x _ _ => x.lexeme.Writable
    | .branch _ _ elsePart _ => ∀ s ∈ elsePart, s.CanBeElsePart
    | _ => True

/-- A node that can be written with all that is inside of it. -/
inductive Writable : Site → Prop
  | intro {site : Site} (hhere : site.IsWritable)
      (hinside : ∀ scopes, ∀ visit ∈ site.visits scopes, Writable visit.1) : Writable site

end Site

def Program.Writable (program : Program) : Prop := ∀ s ∈ program, (Site.stmt s).Writable

/-! ### Lists of parts -/

section Lists

variable (whole : Bool)

theorem exprsLexemes_eq (es : List Expr) :
    exprsLexemes whole es = es.map fun e ↦ parens e.isCompound (e.lexemes whole) := by
  induction es with
  | nil => rw [exprsLexemes, List.map_nil]
  | cons e more ih => rw [exprsLexemes, ih, List.map_cons]

theorem stmtsLexemes_eq (body : List Stmt) :
    stmtsLexemes whole body = body.flatMap (Stmt.lexemes whole) := by
  induction body with
  | nil => rw [stmtsLexemes, List.flatMap_nil]
  | cons s more ih => rw [stmtsLexemes, ih, List.flatMap_cons]

theorem itemsLexemes_eq (items : List Declarator) :
    itemsLexemes whole items = items.map (Declarator.lexemes whole) := by
  induction items with
  | nil => rw [itemsLexemes, List.map_nil]
  | cons item more ih => rw [itemsLexemes, ih, List.map_cons]

theorem exprsUnplaced_eq (es : List Expr) : exprsUnplaced es = es.map Expr.unplaced := by
  induction es with
  | nil => rw [exprsUnplaced, List.map_nil]
  | cons e more ih => rw [exprsUnplaced, ih, List.map_cons]

theorem stmtsUnplaced_eq (body : List Stmt) : stmtsUnplaced body = body.map Stmt.unplaced := by
  induction body with
  | nil => rw [stmtsUnplaced, List.map_nil]
  | cons s more ih => rw [stmtsUnplaced, ih, List.map_cons]

theorem itemsUnplaced_eq (items : List Declarator) :
    itemsUnplaced items = items.map Declarator.unplaced := by
  induction items with
  | nil => rw [itemsUnplaced, List.map_nil]
  | cons item more ih => rw [itemsUnplaced, ih, List.map_cons]

end Lists

/-! ### What is written can be written -/

namespace Lexeme

def AllWritable (ls : List Lexeme) : Prop := ∀ l ∈ ls, l.Writable

@[simp]
theorem allWritable_nil : AllWritable [] := fun l hl ↦ by cases hl

@[simp]
theorem allWritable_cons {l : Lexeme} {ls : List Lexeme} :
    AllWritable (l :: ls) ↔ l.Writable ∧ AllWritable ls := List.forall_mem_cons

@[simp]
theorem allWritable_append {ls ms : List Lexeme} :
    AllWritable (ls ++ ms) ↔ AllWritable ls ∧ AllWritable ms := List.forall_mem_append

@[simp]
theorem allWritable_flatMap {α : Type} {xs : List α} {f : α → List Lexeme} :
    AllWritable (xs.flatMap f) ↔ ∀ x ∈ xs, AllWritable (f x) := by
  constructor
  · exact fun h x hx l hl ↦ h l (List.mem_flatMap.2 ⟨x, hx, hl⟩)
  · intro h l hl
    obtain ⟨x, hx, hl⟩ := List.mem_flatMap.1 hl
    exact h x hx l hl

@[simp]
theorem writable_word (w : Keyword) : (word w).Writable := trivial

@[simp]
theorem writable_mark (m : Mark) : (mark m).Writable := trivial

@[simp]
theorem allWritable_parens {written : Bool} {ls : List Lexeme} :
    AllWritable (parens written ls) ↔ AllWritable ls := by
  cases written <;> simp [parens]

@[simp]
theorem allWritable_commas {groups : List (List Lexeme)} :
    AllWritable (commas groups) ↔ ∀ ls ∈ groups, AllWritable ls := by
  induction groups with
  | nil => simp [commas]
  | cons ls more ih =>
    cases more with
    | nil => simp [commas]
    | cons ms others =>
      have hcommas : commas (ls :: ms :: others) = ls ++ mark .comma :: commas (ms :: others) := by
        simp [commas, List.intercalate]
      rw [hcommas]
      simp [ih]

@[simp]
theorem allWritable_nameList {idents : List Ident} :
    AllWritable (nameList idents) ↔ ∀ x ∈ idents, x.lexeme.Writable := by
  simp [nameList]

end Lexeme

theorem PrefixOp.writable_lexeme (op : PrefixOp) : op.lexeme.Writable := by
  cases op with
  | unary op => cases op <;> trivial
  | typeOf => trivial

namespace Site

def lexemes (whole : Bool) : Site → List Lexeme
  | .expr e => e.lexemes whole
  | .stmt s => s.lexemes whole
  | .ident x => [x.lexeme]

theorem Writable.allWritable_lexemes {site : Site} (h : site.Writable) (whole : Bool) :
    Lexeme.AllWritable (site.lexemes whole) := by
  induction h with
  | @intro site hhere hinside ih =>
    have hparts := ih []
    clear ih hinside
    cases site with
    | ident x => exact List.forall_mem_singleton.2 hhere
    | expr e =>
      cases e <;>
        simp_all [lexemes, Expr.lexemes, visits, IsWritable, exprsLexemes_eq, stmtsLexemes_eq,
          Scope.visits, Scope.statements, PrefixOp.writable_lexeme]
    | stmt s =>
      cases s with
      | declare kind items span =>
        have hitem : ∀ item ∈ items, Lexeme.AllWritable (item.lexemes whole) := by
          rintro ⟨x, init⟩ hitem
          have hx : x.lexeme.Writable := hhere.2 _ hitem
          cases init with
          | none => simpa [Declarator.lexemes] using hx
          | some e =>
            have he := hparts (.expr e, []) (List.mem_filterMap.2 ⟨_, hitem, rfl⟩)
            simpa [Declarator.lexemes] using ⟨hx, he⟩
        simpa [lexemes, Stmt.lexemes, itemsLexemes_eq] using hitem
      | ret value span =>
        cases value <;> simp_all [lexemes, Stmt.lexemes, visits]
      | branch cond thenPart elsePart span =>
        cases elsePart <;> simp_all [lexemes, Stmt.lexemes, visits]
      | block block =>
        obtain ⟨body, span⟩ := block
        simp_all [lexemes, Stmt.lexemes, Block.lexemes, visits, stmtsLexemes_eq, Scope.visits,
          Scope.statements, Block.body]
      | _ =>
        simp_all [lexemes, Stmt.lexemes, visits, IsWritable, stmtsLexemes_eq, Scope.visits,
          Scope.statements]

end Site

end LateConst
