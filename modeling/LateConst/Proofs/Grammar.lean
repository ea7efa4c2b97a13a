import Mathlib.Computability.ContextFreeGrammar
import LateConst.Token

/-!
# The grammar of programs

The rules by which programs are written, as a context-free grammar over the kinds of tokens. The
grammar leaves open how an expression with several operators is to be grouped; that is no question
of which token sequences are programs.

`Spells` splits a word along the right side of a rule. With it a word can be derived rule by rule
(`derives_of_spells`), and what holds rule by rule holds of every derivable word
(`spells_of_derives`).
-/

namespace LateConst

/-- The kinds of tokens that the rules tell apart. -/
inductive Terminal where
  | number
  | text
  | name
  | word (word : Keyword)
  | mark (mark : Mark)
  deriving DecidableEq

def Lexeme.terminal : Lexeme → Terminal
  | number _ => .number
  | text _ => .text
  | name _ => .name
  | word w => .word w
  | mark m => .mark m

def Token.terminal (token : Token) : Terminal := token.lexeme.terminal

@[simp] theorem Token.terminal_number {n : Number} {s : Span} :
    Token.terminal ⟨.number n, s⟩ = .number := rfl
@[simp] theorem Token.terminal_text {t : String} {s : Span} :
    Token.terminal ⟨.text t, s⟩ = .text := rfl
@[simp] theorem Token.terminal_name {n : String} {s : Span} :
    Token.terminal ⟨.name n, s⟩ = .name := rfl
@[simp] theorem Token.terminal_word {w : Keyword} {s : Span} :
    Token.terminal ⟨.word w, s⟩ = .word w := rfl
@[simp] theorem Token.terminal_mark {m : Mark} {s : Span} :
    Token.terminal ⟨.mark m, s⟩ = .mark m := rfl

theorem Token.eq_number {token : Token} (h : token.terminal = .number) :
    ∃ n s, token = ⟨.number n, s⟩ := by
  obtain ⟨lexeme, span⟩ := token
  cases lexeme <;> simp_all

theorem Token.eq_text {token : Token} (h : token.terminal = .text) :
    ∃ t s, token = ⟨.text t, s⟩ := by
  obtain ⟨lexeme, span⟩ := token
  cases lexeme <;> simp_all

theorem Token.eq_name {token : Token} (h : token.terminal = .name) :
    ∃ n s, token = ⟨.name n, s⟩ := by
  obtain ⟨lexeme, span⟩ := token
  cases lexeme <;> simp_all

theorem Token.eq_word {token : Token} {w : Keyword} (h : token.terminal = .word w) :
    ∃ s, token = ⟨.word w, s⟩ := by
  obtain ⟨lexeme, span⟩ := token
  cases lexeme <;> simp_all

theorem Token.eq_mark {token : Token} {m : Mark} (h : token.terminal = .mark m) :
    ∃ s, token = ⟨.mark m, s⟩ := by
  obtain ⟨lexeme, span⟩ := token
  cases lexeme <;> simp_all

inductive Nonterminal where
  | program | stmts | stmt | declList | decl | names | paramList | params | argList | args
  | block | ifStmt | expr
  deriving DecidableEq

namespace Nonterminal

def all : List Nonterminal :=
  [program, stmts, stmt, declList, decl, names, paramList, params, argList, args, block, ifStmt,
    expr]

theorem mem_all (n : Nonterminal) : n ∈ all := by
  cases n <;> decide

end Nonterminal

instance : Coe Nonterminal (Symbol Terminal Nonterminal) := ⟨.nonterminal⟩
instance : Coe Terminal (Symbol Terminal Nonterminal) := ⟨.terminal⟩
instance : Coe Keyword (Symbol Terminal Nonterminal) := ⟨fun word ↦ .terminal (.word word)⟩
instance : Coe Mark (Symbol Terminal Nonterminal) := ⟨fun mark ↦ .terminal (.mark mark)⟩

def Mark.infixes : List Mark :=
  [star, slash, percent, plus, minus, less, lessEqual, greater, greaterEqual, equal, notEqual,
    andAnd, orOr]

/-- The right side of a rule. -/
abbrev Form := List (Symbol Terminal Nonterminal)

section Rules

open Keyword Mark Nonterminal

def Keyword.declarations (kind : Keyword) : List Form := [
  [kind, declList, semicolon],
  [kind, openBracket, names, closeBracket, assign, expr, semicolon],
  [forWord, openParen, kind, Terminal.name, ofWord, expr, closeParen, block]]

def Mark.operation (op : Mark) : Form := [expr, op, expr]

/-- The right sides of the rules for each nonterminal. -/
def Nonterminal.alternatives : Nonterminal → List Form
  | program => [[stmts]]
  | stmts => [[], [stmts, stmt]]
  | stmt =>
    constWord.declarations ++ letWord.declarations ++ ([
      [Terminal.name, assign, expr, semicolon],
      [expr, semicolon],
      [printWord, expr, semicolon],
      [block],
      [ifStmt],
      [whileWord, openParen, expr, closeParen, block],
      [functionWord, Terminal.name, openParen, params, closeParen, openBrace, stmts, closeBrace],
      [returnWord, semicolon],
      [returnWord, expr, semicolon],
      [pauseWord, semicolon],
      [spawnWord, expr, semicolon],
      [throwWord, expr, semicolon],
      [tryWord, block, catchWord, openParen, Terminal.name, closeParen, block]] : List Form)
  | declList => [[decl], [declList, comma, decl]]
  | decl => [[Terminal.name], [Terminal.name, assign, expr]]
  | names => [[Terminal.name], [names, comma, Terminal.name]]
  | paramList => [[Terminal.name], [paramList, comma, Terminal.name]]
  | params => [[], [paramList]]
  | argList => [[expr], [argList, comma, expr]]
  | args => [[], [argList]]
  | block => [[openBrace, stmts, closeBrace]]
  | ifStmt => [
      [ifWord, openParen, expr, closeParen, block],
      [ifWord, openParen, expr, closeParen, block, elseWord, block],
      [ifWord, openParen, expr, closeParen, block, elseWord, ifStmt]]
  | expr =>
    ([[Terminal.number],
      [Terminal.text],
      [trueWord],
      [falseWord],
      [undefinedWord],
      [Terminal.name],
      [openParen, expr, closeParen],
      [openBracket, args, closeBracket],
      [expr, openParen, args, closeParen],
      [expr, openBracket, expr, closeBracket],
      [functionWord, openParen, params, closeParen, openBrace, stmts, closeBrace],
      [minus, expr],
      [bang, expr],
      [typeofWord, expr]] : List Form) ++ infixes.map operation

end Rules

def grammarRules : Finset (ContextFreeRule Terminal Nonterminal) :=
  (Nonterminal.all.flatMap fun n ↦ n.alternatives.map (⟨n, ·⟩)).toFinset

theorem mem_grammarRules {n : Nonterminal} {symbols : Form} :
    ⟨n, symbols⟩ ∈ grammarRules ↔ symbols ∈ n.alternatives := by
  simp [grammarRules, Nonterminal.mem_all]

def grammar : ContextFreeGrammar Terminal where
  NT := Nonterminal
  initial := .program
  rules := grammarRules

/-! ### Derivations rule by rule -/

section Spells

variable {T α : Type} {N : Type} (f : α → T) (P : N → List α → Prop)

/-- The letters are cut into pieces, one for each symbol: a single letter of its kind for a
terminal, and letters with the property `P` for a nonterminal. -/
def Spells : List (Symbol T N) → List α → Prop
  | [], ts => ts = []
  | .terminal a :: more, ts => ∃ t us, f t = a ∧ Spells more us ∧ ts = t :: us
  | .nonterminal n :: more, ts => ∃ us vs, P n us ∧ Spells more vs ∧ ts = us ++ vs

variable {f P}

theorem Spells.done : Spells f P [] [] := rfl

theorem Spells.letter {t : α} {a : T} {symbols : List (Symbol T N)} {us : List α} (h : f t = a)
    (hmore : Spells f P symbols us) : Spells f P (.terminal a :: symbols) (t :: us) :=
  ⟨t, us, h, hmore, rfl⟩

theorem Spells.piece {n : N} {symbols : List (Symbol T N)} {us vs : List α} (h : P n us)
    (hmore : Spells f P symbols vs) : Spells f P (.nonterminal n :: symbols) (us ++ vs) :=
  ⟨us, vs, h, hmore, rfl⟩

theorem Spells.last {n : N} {us : List α} (h : P n us) : Spells f P [.nonterminal n] us :=
  ⟨us, [], h, .done, by simp⟩

theorem spells_append {ss rest : List (Symbol T N)} {ts : List α} :
    Spells f P (ss ++ rest) ts ↔
      ∃ us vs, Spells f P ss us ∧ Spells f P rest vs ∧ ts = us ++ vs := by
  induction ss generalizing ts with
  | nil => simp [Spells]
  | cons symbol more ih =>
    cases symbol with
    | terminal a =>
      constructor
      · rintro ⟨t, us, ht, hus, rfl⟩
        obtain ⟨vs, ws, hvs, hws, rfl⟩ := ih.1 hus
        exact ⟨t :: vs, ws, .letter ht hvs, hws, rfl⟩
      · rintro ⟨_, ws, ⟨t, us, ht, hus, rfl⟩, hws, rfl⟩
        exact ⟨t, us ++ ws, ht, ih.2 ⟨us, ws, hus, hws, rfl⟩, rfl⟩
    | nonterminal n =>
      constructor
      · rintro ⟨us, vs, hn, hvs, rfl⟩
        obtain ⟨xs, ys, hxs, hys, rfl⟩ := ih.1 hvs
        exact ⟨us ++ xs, ys, .piece hn hxs, hys, by simp⟩
      · rintro ⟨_, ws, ⟨us, vs, hn, hvs, rfl⟩, hws, rfl⟩
        exact ⟨us, vs ++ ws, hn, ih.2 ⟨vs, ws, hvs, hws, rfl⟩, by simp⟩

theorem spells_map_terminal (ts : List α) :
    Spells f P (ts.map fun t ↦ Symbol.terminal (f t)) ts := by
  induction ts with
  | nil => rfl
  | cons t more ih => exact .letter rfl ih

end Spells

section Derivations

variable {T α : Type} {g : ContextFreeGrammar T} {f : α → T}

/-- Pieces that can be derived make up a word that can be derived. -/
theorem derives_of_spells {symbols : List (Symbol T g.NT)} {ts : List α}
    (h : Spells f (fun n us ↦ g.Derives [.nonterminal n] (us.map fun t ↦ .terminal (f t)))
      symbols ts) : g.Derives symbols (ts.map fun t ↦ .terminal (f t)) := by
  induction symbols generalizing ts with
  | nil =>
    obtain rfl := h
    exact .refl _
  | cons symbol more ih =>
    cases symbol with
    | terminal a =>
      obtain ⟨t, us, rfl, hus, rfl⟩ := h
      simpa using (ih hus).append_left [.terminal (f t)]
    | nonterminal n =>
      obtain ⟨us, vs, hn, hvs, rfl⟩ := h
      have hleft := hn.append_right more
      have hright := (ih hvs).append_left (us.map fun t ↦ .terminal (f t))
      simpa using hleft.trans hright

/-- What every rule hands on from its right side to its left side holds of all derivable words. -/
theorem spells_of_derives {P : g.NT → List α → Prop}
    (hrule : ∀ rule ∈ g.rules, ∀ ts, Spells f P rule.output ts → P rule.input ts)
    {symbols : List (Symbol T g.NT)} {ts : List α}
    (h : g.Derives symbols (ts.map fun t ↦ .terminal (f t))) : Spells f P symbols ts := by
  induction h using Relation.ReflTransGen.head_induction_on with
  | refl => exact spells_map_terminal ts
  | head hstep _ ih =>
    obtain ⟨rule, hmem, hrewrites⟩ := hstep
    obtain ⟨before, after, rfl, rfl⟩ := hrewrites.exists_parts
    obtain ⟨xs, zs, hxs, hzs, rfl⟩ := spells_append.1 ih
    obtain ⟨us, vs, hus, hvs, rfl⟩ := spells_append.1 hxs
    have hpiece : Spells f P [.nonterminal rule.input] vs := .last (hrule rule hmem vs hvs)
    exact spells_append.2 ⟨us ++ vs, zs, spells_append.2 ⟨us, vs, hus, hpiece, rfl⟩, hzs, rfl⟩

end Derivations

/-! ### Pieces of token sequences -/

section Pieces

variable {P : Nonterminal → List Token → Prop} {rest : Form} {ts : List Token}

@[simp]
theorem spells_nil :
    Spells Token.terminal P [] ts ↔ ts = [] :=
  Iff.rfl

@[simp]
theorem spells_piece {n : Nonterminal} :
    Spells Token.terminal P (.nonterminal n :: rest) ts ↔
      ∃ us vs, P n us ∧ Spells Token.terminal P rest vs ∧ ts = us ++ vs :=
  Iff.rfl

@[simp]
theorem spells_name :
    Spells Token.terminal P (.terminal .name :: rest) ts ↔
      ∃ n s us, Spells Token.terminal P rest us ∧ ts = ⟨.name n, s⟩ :: us := by
  constructor
  · rintro ⟨t, us, ht, hus, rfl⟩
    obtain ⟨n, s, rfl⟩ := Token.eq_name ht
    exact ⟨n, s, us, hus, rfl⟩
  · rintro ⟨n, s, us, hus, rfl⟩
    exact .letter rfl hus

@[simp]
theorem spells_word {w : Keyword} :
    Spells Token.terminal P (.terminal (.word w) :: rest) ts ↔
      ∃ s us, Spells Token.terminal P rest us ∧ ts = ⟨.word w, s⟩ :: us := by
  constructor
  · rintro ⟨t, us, ht, hus, rfl⟩
    obtain ⟨s, rfl⟩ := Token.eq_word ht
    exact ⟨s, us, hus, rfl⟩
  · rintro ⟨s, us, hus, rfl⟩
    exact .letter rfl hus

@[simp]
theorem spells_mark {m : Mark} :
    Spells Token.terminal P (.terminal (.mark m) :: rest) ts ↔
      ∃ s us, Spells Token.terminal P rest us ∧ ts = ⟨.mark m, s⟩ :: us := by
  constructor
  · rintro ⟨t, us, ht, hus, rfl⟩
    obtain ⟨s, rfl⟩ := Token.eq_mark ht
    exact ⟨s, us, hus, rfl⟩
  · rintro ⟨s, us, hus, rfl⟩
    exact .letter rfl hus

end Pieces

/-- The tokens are a word of a nonterminal. -/
def Nonterminal.Writes (n : Nonterminal) (ts : List Token) : Prop :=
  grammar.Derives [.nonterminal n] (ts.map fun t ↦ .terminal t.terminal)

theorem Nonterminal.writes_of_spells {n : Nonterminal} {symbols : Form} {ts : List Token}
    (hrule : symbols ∈ n.alternatives) (h : Spells Token.terminal Nonterminal.Writes symbols ts) :
    n.Writes ts := by
  have hmem : (⟨n, symbols⟩ : ContextFreeRule Terminal Nonterminal) ∈ grammar.rules :=
    mem_grammarRules.2 hrule
  have hproduces : grammar.Produces [.nonterminal n] symbols :=
    ⟨_, hmem, ContextFreeRule.Rewrites.input_output⟩
  exact hproduces.trans_derives (derives_of_spells h)

/-- A property of words that every rule hands on holds of the words of each nonterminal. -/
theorem Nonterminal.Writes.induction {P : Nonterminal → List Token → Prop}
    (hrule : ∀ n : Nonterminal, ∀ symbols ∈ n.alternatives, ∀ ts,
      Spells Token.terminal P symbols ts → P n ts)
    {n : Nonterminal} {ts : List Token} (h : n.Writes ts) : P n ts := by
  have hall : ∀ rule ∈ grammar.rules, ∀ us, Spells Token.terminal P rule.output us →
      P rule.input us :=
    fun rule hmem us hus ↦ hrule rule.input rule.output (mem_grammarRules.1 hmem) us hus
  obtain ⟨us, vs, hn, hnone, rfl⟩ := spells_of_derives hall h
  obtain rfl := hnone
  simpa using hn

end LateConst
