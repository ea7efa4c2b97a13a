import LateConst.Proofs.Grammar
import LateConst.Proofs.Phrase

/-!
# Phrases are words of the grammar

The tokens that write a phrase form a word of the nonterminals for phrases of its kind. The spans
and the grouping of operators are forgotten on the way.
-/

namespace LateConst

namespace Phrase

/-- The tokens form a word of every nonterminal for phrases of this kind. -/
def IsWord : Phrase → List Token → Prop
  | expr _, ts => Nonterminal.expr.Writes ts
  | exprs _, ts => Nonterminal.argList.Writes ts
  | idents _, ts => Nonterminal.names.Writes ts ∧ Nonterminal.paramList.Writes ts
  | args _, ts => Nonterminal.args.Writes ts
  | params _, ts => Nonterminal.params.Writes ts
  | item _, ts => Nonterminal.decl.Writes ts
  | items _, ts => Nonterminal.declList.Writes ts
  | block _, ts => Nonterminal.block.Writes ts
  | conditional _, ts => Nonterminal.ifStmt.Writes ts
  | stmt _, ts => Nonterminal.stmt.Writes ts
  | stmts _, ts => Nonterminal.stmts.Writes ts

end Phrase

/-! ### Rules for tokens that stand for one another -/

theorem Lexeme.terminal_of_literal? {l : Lexeme} {v : Literal} (h : l.literal? = some v) :
    [.terminal l.terminal] ∈ Nonterminal.expr.alternatives := by
  unfold Lexeme.literal? at h
  split at h <;> cases h <;> simp [Nonterminal.alternatives, Lexeme.terminal]

theorem PrefixOp.terminal_of_ofLexeme? {l : Lexeme} {op : PrefixOp}
    (h : PrefixOp.ofLexeme? l = some op) :
    [.terminal l.terminal, .nonterminal .expr] ∈ Nonterminal.expr.alternatives := by
  unfold PrefixOp.ofLexeme? at h
  split at h <;> cases h <;> simp [Nonterminal.alternatives, Lexeme.terminal]

theorem InfixOp.terminal_of_ofLexeme? {l : Lexeme} {op : InfixOp}
    (h : InfixOp.ofLexeme? l = some op) :
    [.nonterminal .expr, .terminal l.terminal, .nonterminal .expr] ∈
      Nonterminal.expr.alternatives := by
  unfold InfixOp.ofLexeme? at h
  split at h <;> cases h <;>
    simp [Nonterminal.alternatives, Lexeme.terminal, Mark.operation, Mark.infixes]

theorem Kind.declarations_subset (kind : Kind) :
    kind.word.declarations ⊆ Nonterminal.stmt.alternatives := by
  intro form h
  cases kind <;> simp_all [Nonterminal.alternatives, Kind.word]

/-! ### Words -/

open Nonterminal (writes_of_spells alternatives)

theorem isWord_of_text {phrase : Phrase} {ts : List Token} (h : phrase.Text ts) :
    phrase.IsWord ts := by
  induction h with
  | literal h => exact writes_of_spells (Lexeme.terminal_of_literal? h) (.letter rfl .done)
  | lookup => exact writes_of_spells (by simp [alternatives]) (.letter rfl .done)
  | group _ ih =>
    exact writes_of_spells (by simp [alternatives]) (.letter rfl (.piece ih (.letter rfl .done)))
  | prefixed h _ ih =>
    exact writes_of_spells (PrefixOp.terminal_of_ofLexeme? h) (.letter rfl (.last ih))
  | infixed h _ _ lhs rhs =>
    exact writes_of_spells (InfixOp.terminal_of_ofLexeme? h) (.piece lhs (.letter rfl (.last rhs)))
  | call _ _ callee args =>
    simp only [List.append_assoc, List.cons_append]
    exact writes_of_spells (by simp [alternatives])
      (.piece callee (.letter rfl (.piece args (.letter rfl .done))))
  | index _ _ base index =>
    simp only [List.append_assoc, List.cons_append]
    exact writes_of_spells (by simp [alternatives])
      (.piece base (.letter rfl (.piece index (.letter rfl .done))))
  | array _ elements =>
    exact writes_of_spells (by simp [alternatives])
      (.letter rfl (.piece elements (.letter rfl .done)))
  | anonymous _ _ params code =>
    simp only [List.append_assoc, List.cons_append]
    exact writes_of_spells (by simp [alternatives])
      (.letter rfl (.letter rfl (.piece params (.letter rfl (.letter rfl (.piece code
        (.letter rfl .done)))))))
  | firstExpr _ first => exact writes_of_spells (by simp [alternatives]) (.last first)
  | nextExpr _ _ before next =>
    exact writes_of_spells (by simp [alternatives]) (.piece before (.letter rfl (.last next)))
  | firstIdent =>
    exact ⟨writes_of_spells (by simp [alternatives]) (.letter rfl .done),
      writes_of_spells (by simp [alternatives]) (.letter rfl .done)⟩
  | nextIdent _ before =>
    exact ⟨writes_of_spells (by simp [alternatives])
        (.piece before.1 (.letter rfl (.letter rfl .done))),
      writes_of_spells (by simp [alternatives])
        (.piece before.2 (.letter rfl (.letter rfl .done)))⟩
  | noArgs => exact writes_of_spells (by simp [alternatives]) .done
  | someArgs _ all => exact writes_of_spells (by simp [alternatives]) (.last all)
  | noParams => exact writes_of_spells (by simp [alternatives]) .done
  | someParams _ all => exact writes_of_spells (by simp [alternatives]) (.last all.2)
  | plainItem => exact writes_of_spells (by simp [alternatives]) (.letter rfl .done)
  | initItem _ init =>
    exact writes_of_spells (by simp [alternatives]) (.letter rfl (.letter rfl (.last init)))
  | firstItem _ first => exact writes_of_spells (by simp [alternatives]) (.last first)
  | nextItem _ _ before next =>
    exact writes_of_spells (by simp [alternatives]) (.piece before (.letter rfl (.last next)))
  | block _ code =>
    exact writes_of_spells (by simp [alternatives]) (.letter rfl (.piece code (.letter rfl .done)))
  | thenOnly _ _ cond thenPart =>
    exact writes_of_spells (by simp [alternatives])
      (.letter rfl (.letter rfl (.piece cond (.letter rfl (.last thenPart)))))
  | elseBlock _ _ _ cond thenPart elsePart =>
    simp only [List.append_assoc, List.cons_append]
    exact writes_of_spells (by simp [alternatives])
      (.letter rfl (.letter rfl (.piece cond (.letter rfl (.piece thenPart (.letter rfl
        (.last elsePart)))))))
  | elseIf _ _ _ cond thenPart elsePart =>
    simp only [List.append_assoc, List.cons_append]
    exact writes_of_spells (by simp [alternatives])
      (.letter rfl (.letter rfl (.piece cond (.letter rfl (.piece thenPart (.letter rfl
        (.last elsePart)))))))
  | @declare kind _ _ _ _ _ items =>
    exact writes_of_spells (kind.declarations_subset (by simp [Keyword.declarations]))
      (.letter rfl (.piece items (.letter rfl .done)))
  | @destructure kind _ _ _ _ _ _ _ _ _ _ _ idents init =>
    simp only [List.append_assoc, List.cons_append]
    exact writes_of_spells (kind.declarations_subset (by simp [Keyword.declarations]))
      (.letter rfl (.letter rfl (.piece idents.1 (.letter rfl (.letter rfl (.piece init
        (.letter rfl .done)))))))
  | named _ _ params code =>
    simp only [List.append_assoc, List.cons_append]
    exact writes_of_spells (by simp [alternatives])
      (.letter rfl (.letter rfl (.letter rfl (.piece params (.letter rfl (.letter rfl
        (.piece code (.letter rfl .done))))))))
  | assign _ value =>
    exact writes_of_spells (by simp [alternatives])
      (.letter rfl (.letter rfl (.piece value (.letter rfl .done))))
  | effect _ value =>
    exact writes_of_spells (by simp [alternatives]) (.piece value (.letter rfl .done))
  | print _ value =>
    exact writes_of_spells (by simp [alternatives]) (.letter rfl (.piece value (.letter rfl .done)))
  | retNothing =>
    exact writes_of_spells (by simp [alternatives]) (.letter rfl (.letter rfl .done))
  | ret _ value =>
    exact writes_of_spells (by simp [alternatives]) (.letter rfl (.piece value (.letter rfl .done)))
  | pause => exact writes_of_spells (by simp [alternatives]) (.letter rfl (.letter rfl .done))
  | spawn _ value =>
    exact writes_of_spells (by simp [alternatives]) (.letter rfl (.piece value (.letter rfl .done)))
  | throw _ value =>
    exact writes_of_spells (by simp [alternatives]) (.letter rfl (.piece value (.letter rfl .done)))
  | inner _ block => exact writes_of_spells (by simp [alternatives]) (.last block)
  | branch _ conditional => exact writes_of_spells (by simp [alternatives]) (.last conditional)
  | whileLoop _ _ cond body =>
    exact writes_of_spells (by simp [alternatives])
      (.letter rfl (.letter rfl (.piece cond (.letter rfl (.last body)))))
  | @forOf kind _ _ _ _ _ _ _ _ _ _ _ _ _ iterable body =>
    exact writes_of_spells (kind.declarations_subset (by simp [Keyword.declarations]))
      (.letter rfl (.letter rfl (.letter rfl (.letter rfl (.letter rfl (.piece iterable
        (.letter rfl (.last body))))))))
  | tryCatch _ _ body handler =>
    exact writes_of_spells (by simp [alternatives])
      (.letter rfl (.piece body (.letter rfl (.letter rfl (.letter rfl (.letter rfl
        (.last handler)))))))
  | noStmts => exact writes_of_spells (by simp [alternatives]) .done
  | nextStmt _ _ before next =>
    exact writes_of_spells (by simp [alternatives]) (.piece before (.last next))

end LateConst
