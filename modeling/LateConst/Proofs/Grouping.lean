import LateConst.Proofs.Phrase

/-!
# How the operators of an expression are grouped

`Mark.levels` lists the marks that stand between operands, the tightest first. `Phrase.Grouped` has
the rules of `Phrase.Text`, but an operator only takes operands that bind tightly enough, or have
parentheses around them: on its left side an expression of its own level or a tighter one, on its
right side a tighter one. Prefix operators bind tighter than all marks between operands, and calls
and indices tighter than prefix operators.

Whatever the tokens of a phrase are, there is a way to group them (`Phrase.Text.groupable`).
-/

namespace LateConst

/-- The marks between operands, the tightest first. Marks of one level group to the left. -/
def Mark.levels : List (List Mark) :=
  [[star, slash, percent], [plus, minus], [less, lessEqual, greater, greaterEqual],
    [equal, notEqual], [andAnd], [orOr]]

/-- How loosely a mark binds its operands. Level 1 is left to the prefix operators, and level 0 to
what holds together by itself. -/
def Mark.level (mark : Mark) : Nat := (levels.findIdx fun level ↦ level.contains mark) + 2

namespace InfixOp

def mark : InfixOp → Mark
  | binary .mul => .star
  | binary .div => .slash
  | binary .rem => .percent
  | binary .add => .plus
  | binary .sub => .minus
  | binary .lt => .less
  | binary .le => .lessEqual
  | binary .gt => .greater
  | binary .ge => .greaterEqual
  | binary .eq => .equal
  | binary .ne => .notEqual
  | shortcut .and => .andAnd
  | shortcut .or => .orOr

theorem level_eq (op : InfixOp) : op.level = op.mark.level := by
  cases op with
  | binary op => cases op <;> rfl
  | shortcut op => cases op <;> rfl

theorem ofLexeme?_mark (op : InfixOp) : ofLexeme? (.mark op.mark) = some op := by
  cases op with
  | binary op => cases op <;> rfl
  | shortcut op => cases op <;> rfl

theorem eq_of_ofLexeme? {l : Lexeme} {op : InfixOp} (h : ofLexeme? l = some op) :
    l = .mark op.mark := by
  cases l with
  | mark m => cases m <;> cases h <;> rfl
  | _ => cases h

theorem one_lt_level (op : InfixOp) : 1 < op.mark.level := by
  simp [Mark.level]

end InfixOp

namespace PrefixOp

def lexeme : PrefixOp → Lexeme
  | unary .negate => .mark .minus
  | unary .not => .mark .bang
  | typeOf => .word .typeofWord

theorem ofLexeme?_lexeme (op : PrefixOp) : ofLexeme? op.lexeme = some op := by
  cases op with
  | unary op => cases op <;> rfl
  | typeOf => rfl

theorem eq_of_ofLexeme? {l : Lexeme} {op : PrefixOp} (h : ofLexeme? l = some op) :
    l = op.lexeme := by
  cases l with
  | mark m => cases m <;> cases h <;> rfl
  | word w =>
    cases w <;> cases h
    rfl
  | _ => cases h

theorem literal?_lexeme (op : PrefixOp) : op.lexeme.literal? = none := by
  cases op with
  | unary op => cases op <;> rfl
  | typeOf => rfl

end PrefixOp

namespace Literal

def lexeme : Literal → Lexeme
  | undefined => .word .undefinedWord
  | bool true => .word .trueWord
  | bool false => .word .falseWord
  | number value => .number value
  | text value => .text value

theorem literal?_lexeme (value : Literal) : value.lexeme.literal? = some value := by
  cases value with
  | bool value => cases value <;> rfl
  | _ => rfl

theorem eq_of_literal? {l : Lexeme} {value : Literal} (h : l.literal? = some value) :
    l = value.lexeme := by
  cases l with
  | word w => cases w <;> cases h <;> rfl
  | number n => cases h; rfl
  | text t => cases h; rfl
  | _ => cases h

end Literal

namespace Phrase

/-- The tokens write the phrase, and without parentheses the phrase binds as loosely as the number
says: it is the level of the last operator that has been put in, and 0 if there is none or it has
parentheses around it. -/
inductive Grouped : Phrase → Nat → List Token → Prop
  | literal {v s} : Grouped (.expr (.literal v s)) 0 [⟨v.lexeme, s⟩]
  | lookup {n s} : Grouped (.expr (.lookup ⟨n, s⟩)) 0 [⟨.name n, s⟩]
  | group {e k ts o c} (inner : Grouped (.expr e) k ts) :
      Grouped (.expr e) 0 (⟨.mark .openParen, o⟩ :: ts ++ [⟨.mark .closeParen, c⟩])
  | prefixed {op : PrefixOp} {s e k ts} (arg : Grouped (.expr e) k ts) (hk : k ≤ 1) :
      Grouped (.expr (op.apply s e)) 1 (⟨op.lexeme, s⟩ :: ts)
  | infixed {op : InfixOp} {s a j ts b k us} (lhs : Grouped (.expr a) j ts)
      (rhs : Grouped (.expr b) k us) (hj : j ≤ op.mark.level) (hk : k < op.mark.level) :
      Grouped (.expr (op.apply a b)) op.mark.level (ts ++ ⟨.mark op.mark, s⟩ :: us)
  | call {f ts es us o c} (callee : Grouped (.expr f) 0 ts) (args : Grouped (.args es) 0 us) :
      Grouped (.expr (.call f es (f.span.to c))) 0
        (ts ++ ⟨.mark .openParen, o⟩ :: us ++ [⟨.mark .closeParen, c⟩])
  | index {a ts i k us o c} (base : Grouped (.expr a) 0 ts) (index : Grouped (.expr i) k us) :
      Grouped (.expr (.index a i (a.span.to c))) 0
        (ts ++ ⟨.mark .openBracket, o⟩ :: us ++ [⟨.mark .closeBracket, c⟩])
  | array {es ts o c} (elements : Grouped (.args es) 0 ts) :
      Grouped (.expr (.array es (o.to c))) 0
        (⟨.mark .openBracket, o⟩ :: ts ++ [⟨.mark .closeBracket, c⟩])
  | anonymous {ps ts body us h o p q c} (params : Grouped (.params ps) 0 ts)
      (code : Grouped (.stmts body) 0 us) :
      Grouped (.expr (.function ps body (h.to c))) 0
        (⟨.word .functionWord, h⟩ :: ⟨.mark .openParen, o⟩ :: ts ++ ⟨.mark .closeParen, p⟩ ::
          ⟨.mark .openBrace, q⟩ :: us ++ [⟨.mark .closeBrace, c⟩])
  | firstExpr {e k ts} (first : Grouped (.expr e) k ts) : Grouped (.exprs [e]) 0 ts
  | nextExpr {es ts e k us s} (before : Grouped (.exprs es) 0 ts)
      (next : Grouped (.expr e) k us) :
      Grouped (.exprs (es ++ [e])) 0 (ts ++ ⟨.mark .comma, s⟩ :: us)
  | firstIdent {n s} : Grouped (.idents [⟨n, s⟩]) 0 [⟨.name n, s⟩]
  | nextIdent {is ts n s t} (before : Grouped (.idents is) 0 ts) :
      Grouped (.idents (is ++ [⟨n, t⟩])) 0 (ts ++ [⟨.mark .comma, s⟩, ⟨.name n, t⟩])
  | noArgs : Grouped (.args []) 0 []
  | someArgs {es ts} (all : Grouped (.exprs es) 0 ts) : Grouped (.args es) 0 ts
  | noParams : Grouped (.params []) 0 []
  | someParams {is ts} (all : Grouped (.idents is) 0 ts) : Grouped (.params is) 0 ts
  | plainItem {n s} : Grouped (.item (.mk ⟨n, s⟩ none)) 0 [⟨.name n, s⟩]
  | initItem {n s t e k ts} (init : Grouped (.expr e) k ts) :
      Grouped (.item (.mk ⟨n, s⟩ (some e))) 0 (⟨.name n, s⟩ :: ⟨.mark .assign, t⟩ :: ts)
  | firstItem {d ts} (first : Grouped (.item d) 0 ts) : Grouped (.items [d]) 0 ts
  | nextItem {ds ts d us s} (before : Grouped (.items ds) 0 ts)
      (next : Grouped (.item d) 0 us) :
      Grouped (.items (ds ++ [d])) 0 (ts ++ ⟨.mark .comma, s⟩ :: us)
  | block {body ts o c} (code : Grouped (.stmts body) 0 ts) :
      Grouped (.block (.mk body (o.to c))) 0
        (⟨.mark .openBrace, o⟩ :: ts ++ [⟨.mark .closeBrace, c⟩])
  | thenOnly {e k ts b us h o c} (cond : Grouped (.expr e) k ts)
      (thenPart : Grouped (.block b) 0 us) :
      Grouped (.conditional (.branch e b none (h.to b.span))) 0
        (⟨.word .ifWord, h⟩ :: ⟨.mark .openParen, o⟩ :: ts ++ ⟨.mark .closeParen, c⟩ :: us)
  | elseBlock {e k ts b us d vs h o c s} (cond : Grouped (.expr e) k ts)
      (thenPart : Grouped (.block b) 0 us) (elsePart : Grouped (.block d) 0 vs) :
      Grouped (.conditional (.branch e b (some (.block d)) (h.to d.span))) 0
        (⟨.word .ifWord, h⟩ :: ⟨.mark .openParen, o⟩ :: ts ++ ⟨.mark .closeParen, c⟩ :: us ++
          ⟨.word .elseWord, s⟩ :: vs)
  | elseIf {e k ts b us d vs h o c s} (cond : Grouped (.expr e) k ts)
      (thenPart : Grouped (.block b) 0 us) (elsePart : Grouped (.conditional d) 0 vs) :
      Grouped (.conditional (.branch e b (some d) (h.to d.span))) 0
        (⟨.word .ifWord, h⟩ :: ⟨.mark .openParen, o⟩ :: ts ++ ⟨.mark .closeParen, c⟩ :: us ++
          ⟨.word .elseWord, s⟩ :: vs)
  | declare {k ds ts h c} (items : Grouped (.items ds) 0 ts) :
      Grouped (.stmt (.declare k ds (h.to c))) 0
        (⟨.word k.word, h⟩ :: ts ++ [⟨.mark .semicolon, c⟩])
  | destructure {k is ts e j us h o p q c} (idents : Grouped (.idents is) 0 ts)
      (init : Grouped (.expr e) j us) :
      Grouped (.stmt (.destructure k is e (h.to c))) 0
        (⟨.word k.word, h⟩ :: ⟨.mark .openBracket, o⟩ :: ts ++ ⟨.mark .closeBracket, p⟩ ::
          ⟨.mark .assign, q⟩ :: us ++ [⟨.mark .semicolon, c⟩])
  | named {n s ps ts body us h o p q c} (params : Grouped (.params ps) 0 ts)
      (code : Grouped (.stmts body) 0 us) :
      Grouped (.stmt (.function ⟨n, s⟩ ps body (h.to c))) 0
        (⟨.word .functionWord, h⟩ :: ⟨.name n, s⟩ :: ⟨.mark .openParen, o⟩ :: ts ++
          ⟨.mark .closeParen, p⟩ :: ⟨.mark .openBrace, q⟩ :: us ++ [⟨.mark .closeBrace, c⟩])
  | assign {n s t e k ts c} (value : Grouped (.expr e) k ts) :
      Grouped (.stmt (.assign ⟨n, s⟩ e (s.to c))) 0
        (⟨.name n, s⟩ :: ⟨.mark .assign, t⟩ :: ts ++ [⟨.mark .semicolon, c⟩])
  | effect {e k ts c} (value : Grouped (.expr e) k ts) :
      Grouped (.stmt (.expr e (e.span.to c))) 0 (ts ++ [⟨.mark .semicolon, c⟩])
  | print {e k ts h c} (value : Grouped (.expr e) k ts) :
      Grouped (.stmt (.print e (h.to c))) 0
        (⟨.word .printWord, h⟩ :: ts ++ [⟨.mark .semicolon, c⟩])
  | retNothing {h c} :
      Grouped (.stmt (.ret none (h.to c))) 0 [⟨.word .returnWord, h⟩, ⟨.mark .semicolon, c⟩]
  | ret {e k ts h c} (value : Grouped (.expr e) k ts) :
      Grouped (.stmt (.ret (some e) (h.to c))) 0
        (⟨.word .returnWord, h⟩ :: ts ++ [⟨.mark .semicolon, c⟩])
  | pause {h c} :
      Grouped (.stmt (.pause (h.to c))) 0 [⟨.word .pauseWord, h⟩, ⟨.mark .semicolon, c⟩]
  | spawn {e k ts h c} (value : Grouped (.expr e) k ts) :
      Grouped (.stmt (.spawn e (h.to c))) 0
        (⟨.word .spawnWord, h⟩ :: ts ++ [⟨.mark .semicolon, c⟩])
  | throw {e k ts h c} (value : Grouped (.expr e) k ts) :
      Grouped (.stmt (.throw e (h.to c))) 0
        (⟨.word .throwWord, h⟩ :: ts ++ [⟨.mark .semicolon, c⟩])
  | inner {b ts} (block : Grouped (.block b) 0 ts) : Grouped (.stmt (.block b)) 0 ts
  | branch {s ts} (conditional : Grouped (.conditional s) 0 ts) : Grouped (.stmt s) 0 ts
  | whileLoop {e k ts b us h o c} (cond : Grouped (.expr e) k ts)
      (body : Grouped (.block b) 0 us) :
      Grouped (.stmt (.whileLoop e b (h.to b.span))) 0
        (⟨.word .whileWord, h⟩ :: ⟨.mark .openParen, o⟩ :: ts ++ ⟨.mark .closeParen, c⟩ :: us)
  | forOf {k n s e j ts b us h o p q c} (iterable : Grouped (.expr e) j ts)
      (body : Grouped (.block b) 0 us) :
      Grouped (.stmt (.forOf k ⟨n, s⟩ e b (h.to b.span))) 0
        (⟨.word .forWord, h⟩ :: ⟨.mark .openParen, o⟩ :: ⟨.word k.word, p⟩ :: ⟨.name n, s⟩ ::
          ⟨.word .ofWord, q⟩ :: ts ++ ⟨.mark .closeParen, c⟩ :: us)
  | tryCatch {b ts n s d us h p o c} (body : Grouped (.block b) 0 ts)
      (handler : Grouped (.block d) 0 us) :
      Grouped (.stmt (.tryCatch b ⟨n, s⟩ d (h.to d.span))) 0
        (⟨.word .tryWord, h⟩ :: ts ++ ⟨.word .catchWord, p⟩ :: ⟨.mark .openParen, o⟩ ::
          ⟨.name n, s⟩ :: ⟨.mark .closeParen, c⟩ :: us)
  | noStmts : Grouped (.stmts []) 0 []
  | nextStmt {body ts s us} (before : Grouped (.stmts body) 0 ts)
      (next : Grouped (.stmt s) 0 us) :
      Grouped (.stmts (body ++ [s])) 0 (ts ++ us)

/-! ### Operators put between and around grouped expressions -/

namespace Grouped

variable {e a b : Expr} {j k : Nat} {ts us : List Token}

/-- An expression is held together by itself, or an operator stands outside of all parentheses. -/
theorem expr_induction {motive : ∀ e k ts, Grouped (.expr e) k ts → Prop}
    (primary : ∀ e ts (h : Grouped (.expr e) 0 ts), motive e 0 ts h)
    (prefixed : ∀ (op : PrefixOp) s e k ts (h : Grouped (.expr e) k ts) (hk : k ≤ 1),
      motive e k ts h → motive (op.apply s e) 1 (⟨op.lexeme, s⟩ :: ts) (h.prefixed hk))
    (infixed : ∀ (op : InfixOp) s a j ts b k us (hlhs : Grouped (.expr a) j ts)
      (hrhs : Grouped (.expr b) k us) (hj : j ≤ op.mark.level) (hk : k < op.mark.level),
      motive a j ts hlhs → motive b k us hrhs → motive (op.apply a b) op.mark.level
        (ts ++ ⟨.mark op.mark, s⟩ :: us) (hlhs.infixed hrhs hj hk))
    (h : Grouped (.expr e) k ts) : motive e k ts h := by
  suffices hall : ∀ {phrase k ts}, Grouped phrase k ts →
      ∀ e, phrase = .expr e → ∀ h : Grouped (.expr e) k ts, motive e k ts h from hall h e rfl h
  intro phrase k ts h
  induction h with
  | prefixed arg hk ih =>
    intro e hphrase h
    cases hphrase
    exact prefixed _ _ _ _ _ arg hk (ih _ rfl arg)
  | infixed lhs rhs hj hk ihLhs ihRhs =>
    intro e hphrase h
    cases hphrase
    exact infixed _ _ _ _ _ _ _ _ lhs rhs hj hk (ihLhs _ rfl lhs) (ihRhs _ rfl rhs)
  | literal | lookup | group | call | index | array | anonymous =>
    intro e hphrase h
    cases hphrase
    exact primary _ _ h
  | _ =>
    intro e hphrase
    cases hphrase

/-- Before a right operand that binds tightly enough, an operator takes as much of the left one as
binds tightly enough, from its end. -/
theorem exists_infixed_tight (op : InfixOp) (s : Span) (hlhs : Grouped (.expr a) j ts)
    (hrhs : Grouped (.expr b) k us) (hk : k < op.mark.level) :
    ∃ e l, Grouped (.expr e) l (ts ++ ⟨.mark op.mark, s⟩ :: us) ∧ l ≤ max j op.mark.level := by
  induction hlhs using expr_induction with
  | primary e ts h =>
    exact ⟨_, _, h.infixed hrhs (Nat.zero_le _) hk, Nat.le_max_right _ _⟩
  | prefixed other t e j ts h hj ih =>
    have hle := op.one_lt_level
    exact ⟨_, _, (h.prefixed hj).infixed hrhs (by omega) hk, Nat.le_max_right _ _⟩
  | infixed other t a i ts b j vs hleft hright hi hj ihLeft ihRight =>
    by_cases hle : other.mark.level ≤ op.mark.level
    · exact ⟨_, _, (hleft.infixed hright hi hj).infixed hrhs hle hk, Nat.le_max_right _ _⟩
    · obtain ⟨e, l, he, hl⟩ := ihRight
      rw [List.append_assoc, List.cons_append]
      exact ⟨_, _, hleft.infixed he hi (by omega), Nat.le_max_left _ _⟩

/-- Any two expressions can stand on the sides of an operator. -/
theorem exists_infixed (op : InfixOp) (s : Span) (hlhs : Grouped (.expr a) j ts)
    (hrhs : Grouped (.expr b) k us) :
    ∃ e l, Grouped (.expr e) l (ts ++ ⟨.mark op.mark, s⟩ :: us) := by
  have htight {b : Expr} {k : Nat} {us : List Token} (h : Grouped (.expr b) k us)
      (hk : k < op.mark.level) :
      ∃ e l, Grouped (.expr e) l (ts ++ ⟨.mark op.mark, s⟩ :: us) := by
    obtain ⟨e, l, he, -⟩ := exists_infixed_tight op s hlhs h hk
    exact ⟨e, l, he⟩
  have hone := op.one_lt_level
  induction hrhs using expr_induction with
  | primary b us h => exact htight h (by omega)
  | prefixed other t b k us h hk ih => exact htight (h.prefixed hk) hone
  | infixed other t b i us c k vs hleft hright hi hk ihLeft ihRight =>
    by_cases hlt : other.mark.level < op.mark.level
    · exact htight (hleft.infixed hright hi hk) hlt
    · obtain ⟨e, l, he⟩ := ihLeft
      obtain ⟨e', l', he', -⟩ := exists_infixed_tight other t he hright hk
      exact ⟨e', l', by simpa using he'⟩

/-- A prefix operator takes as much of an expression as binds tightly enough, from its
beginning. -/
theorem exists_prefixed (op : PrefixOp) (s : Span) (h : Grouped (.expr e) k ts) :
    ∃ e l, Grouped (.expr e) l (⟨op.lexeme, s⟩ :: ts) := by
  induction h using expr_induction with
  | primary e ts h => exact ⟨_, _, h.prefixed (Nat.zero_le _)⟩
  | prefixed other t e k ts h hk ih => exact ⟨_, _, (h.prefixed hk).prefixed (Nat.le_refl _)⟩
  | infixed other t a i ts b k us hleft hright hi hk ihLeft ihRight =>
    obtain ⟨e, l, he⟩ := ihLeft
    obtain ⟨e', l', he', -⟩ := exists_infixed_tight other t he hright hk
    exact ⟨e', l', he'⟩

/-- What can follow a primary expression can follow the last operand of an expression. -/
theorem exists_postfixed (vs : List Token)
    (hprimary : ∀ e ts, Grouped (.expr e) 0 ts → ∃ e, Grouped (.expr e) 0 (ts ++ vs))
    (h : Grouped (.expr e) k ts) : ∃ e, Grouped (.expr e) k (ts ++ vs) := by
  induction h using expr_induction with
  | primary e ts h => exact hprimary e ts h
  | prefixed op s e k ts h hk ih =>
    obtain ⟨e, he⟩ := ih
    exact ⟨_, he.prefixed hk⟩
  | infixed op s a j ts b k us hleft hright hj hk ihLeft ihRight =>
    obtain ⟨e, he⟩ := ihRight
    rw [List.append_assoc, List.cons_append]
    exact ⟨_, hleft.infixed he hj hk⟩

/-- A call of the last operand of an expression. -/
theorem exists_call {es : List Expr} {o c : Span} (h : Grouped (.expr e) k ts)
    (hargs : Grouped (.args es) 0 us) : ∃ e, Grouped (.expr e) k
      (ts ++ ⟨.mark .openParen, o⟩ :: us ++ [⟨.mark .closeParen, c⟩]) := by
  obtain ⟨e, he⟩ := h.exists_postfixed (⟨.mark .openParen, o⟩ :: us ++ [⟨.mark .closeParen, c⟩])
    fun e ts h ↦ ⟨_, by simpa using h.call hargs⟩
  exact ⟨e, by simpa using he⟩

/-- An index of the last operand of an expression. -/
theorem exists_index {i : Expr} {o c : Span} (h : Grouped (.expr e) k ts)
    (hindex : Grouped (.expr i) j us) : ∃ e, Grouped (.expr e) k
      (ts ++ ⟨.mark .openBracket, o⟩ :: us ++ [⟨.mark .closeBracket, c⟩]) := by
  obtain ⟨e, he⟩ := h.exists_postfixed
    (⟨.mark .openBracket, o⟩ :: us ++ [⟨.mark .closeBracket, c⟩])
    fun e ts h ↦ ⟨_, by simpa using h.index hindex⟩
  exact ⟨e, by simpa using he⟩

end Grouped

/-- The tokens can be grouped to some phrase of the same kind. -/
def Groupable : Phrase → List Token → Prop
  | expr _, ts => ∃ e k, Grouped (.expr e) k ts
  | exprs _, ts => ∃ es, Grouped (.exprs es) 0 ts
  | idents _, ts => ∃ is, Grouped (.idents is) 0 ts
  | args _, ts => ∃ es, Grouped (.args es) 0 ts
  | params _, ts => ∃ is, Grouped (.params is) 0 ts
  | item _, ts => ∃ d, Grouped (.item d) 0 ts
  | items _, ts => ∃ ds, Grouped (.items ds) 0 ts
  | block _, ts => ∃ b, Grouped (.block b) 0 ts
  | conditional _, ts => ∃ s, Grouped (.conditional s) 0 ts
  | stmt _, ts => ∃ s, Grouped (.stmt s) 0 ts
  | stmts _, ts => ∃ body, Grouped (.stmts body) 0 ts

/-- Tokens that write a phrase in any way write one in which the operators are grouped. -/
theorem Text.groupable {phrase : Phrase} {ts : List Token} (h : phrase.Text ts) :
    phrase.Groupable ts := by
  induction h with
  | literal h =>
    obtain rfl := Literal.eq_of_literal? h
    exact ⟨_, _, .literal⟩
  | lookup => exact ⟨_, _, .lookup⟩
  | group _ inner =>
    obtain ⟨e, k, he⟩ := inner
    exact ⟨_, _, .group he⟩
  | prefixed h _ arg =>
    obtain rfl := PrefixOp.eq_of_ofLexeme? h
    obtain ⟨e, k, he⟩ := arg
    exact he.exists_prefixed _ _
  | infixed h _ _ lhs rhs =>
    obtain rfl := InfixOp.eq_of_ofLexeme? h
    obtain ⟨a, j, ha⟩ := lhs
    obtain ⟨b, k, hb⟩ := rhs
    exact ha.exists_infixed _ _ hb
  | call _ _ callee args =>
    obtain ⟨f, k, hf⟩ := callee
    obtain ⟨es, hargs⟩ := args
    obtain ⟨e, he⟩ := hf.exists_call hargs
    exact ⟨e, k, he⟩
  | index _ _ base index =>
    obtain ⟨a, j, ha⟩ := base
    obtain ⟨i, k, hi⟩ := index
    obtain ⟨e, he⟩ := ha.exists_index hi
    exact ⟨e, j, he⟩
  | array _ elements =>
    obtain ⟨es, hes⟩ := elements
    exact ⟨_, _, .array hes⟩
  | anonymous _ _ params code =>
    obtain ⟨ps, hps⟩ := params
    obtain ⟨body, hbody⟩ := code
    exact ⟨_, _, .anonymous hps hbody⟩
  | firstExpr _ first =>
    obtain ⟨e, k, he⟩ := first
    exact ⟨_, .firstExpr he⟩
  | nextExpr _ _ before next =>
    obtain ⟨es, hes⟩ := before
    obtain ⟨e, k, he⟩ := next
    exact ⟨_, .nextExpr hes he⟩
  | firstIdent => exact ⟨_, .firstIdent⟩
  | nextIdent _ before =>
    obtain ⟨is, his⟩ := before
    exact ⟨_, .nextIdent his⟩
  | noArgs => exact ⟨_, .noArgs⟩
  | someArgs _ all =>
    obtain ⟨es, hes⟩ := all
    exact ⟨_, .someArgs hes⟩
  | noParams => exact ⟨_, .noParams⟩
  | someParams _ all =>
    obtain ⟨is, his⟩ := all
    exact ⟨_, .someParams his⟩
  | plainItem => exact ⟨_, .plainItem⟩
  | initItem _ init =>
    obtain ⟨e, k, he⟩ := init
    exact ⟨_, .initItem he⟩
  | firstItem _ first =>
    obtain ⟨d, hd⟩ := first
    exact ⟨_, .firstItem hd⟩
  | nextItem _ _ before next =>
    obtain ⟨ds, hds⟩ := before
    obtain ⟨d, hd⟩ := next
    exact ⟨_, .nextItem hds hd⟩
  | block _ code =>
    obtain ⟨body, hbody⟩ := code
    exact ⟨_, .block hbody⟩
  | thenOnly _ _ cond thenPart =>
    obtain ⟨e, k, he⟩ := cond
    obtain ⟨b, hb⟩ := thenPart
    exact ⟨_, .thenOnly he hb⟩
  | elseBlock _ _ _ cond thenPart elsePart =>
    obtain ⟨e, k, he⟩ := cond
    obtain ⟨b, hb⟩ := thenPart
    obtain ⟨d, hd⟩ := elsePart
    exact ⟨_, .elseBlock he hb hd⟩
  | elseIf _ _ _ cond thenPart elsePart =>
    obtain ⟨e, k, he⟩ := cond
    obtain ⟨b, hb⟩ := thenPart
    obtain ⟨d, hd⟩ := elsePart
    exact ⟨_, .elseIf he hb hd⟩
  | declare _ items =>
    obtain ⟨ds, hds⟩ := items
    exact ⟨_, .declare hds⟩
  | destructure _ _ idents init =>
    obtain ⟨is, his⟩ := idents
    obtain ⟨e, k, he⟩ := init
    exact ⟨_, .destructure his he⟩
  | named _ _ params code =>
    obtain ⟨ps, hps⟩ := params
    obtain ⟨body, hbody⟩ := code
    exact ⟨_, .named hps hbody⟩
  | assign _ value =>
    obtain ⟨e, k, he⟩ := value
    exact ⟨_, .assign he⟩
  | effect _ value =>
    obtain ⟨e, k, he⟩ := value
    exact ⟨_, .effect he⟩
  | print _ value =>
    obtain ⟨e, k, he⟩ := value
    exact ⟨_, .print he⟩
  | retNothing => exact ⟨_, .retNothing⟩
  | ret _ value =>
    obtain ⟨e, k, he⟩ := value
    exact ⟨_, .ret he⟩
  | pause => exact ⟨_, .pause⟩
  | spawn _ value =>
    obtain ⟨e, k, he⟩ := value
    exact ⟨_, .spawn he⟩
  | throw _ value =>
    obtain ⟨e, k, he⟩ := value
    exact ⟨_, .throw he⟩
  | inner _ block =>
    obtain ⟨b, hb⟩ := block
    exact ⟨_, .inner hb⟩
  | branch _ conditional =>
    obtain ⟨s, hs⟩ := conditional
    exact ⟨_, .branch hs⟩
  | whileLoop _ _ cond body =>
    obtain ⟨e, k, he⟩ := cond
    obtain ⟨b, hb⟩ := body
    exact ⟨_, .whileLoop he hb⟩
  | forOf _ _ iterable body =>
    obtain ⟨e, k, he⟩ := iterable
    obtain ⟨b, hb⟩ := body
    exact ⟨_, .forOf he hb⟩
  | tryCatch _ _ body handler =>
    obtain ⟨b, hb⟩ := body
    obtain ⟨d, hd⟩ := handler
    exact ⟨_, .tryCatch hb hd⟩
  | noStmts => exact ⟨_, .noStmts⟩
  | nextStmt _ _ before next =>
    obtain ⟨body, hbody⟩ := before
    obtain ⟨s, hs⟩ := next
    exact ⟨_, .nextStmt hbody hs⟩

end Phrase

end LateConst
