import LateConst.Proofs.Span.Tree

/-!
# First and last tokens

A pair of parentheses around an expression is not counted to any phrase: the sum `(a) + b` begins at
`a`. When all such pairs are left out that a phrase can do without, the phrase begins with the first
of the tokens that remain and ends with the last (`Phrase.Text.ends`).
-/

namespace LateConst

/-- Some pairs of parentheses around expressions are left out. -/
inductive Unwraps : List Token → List Token → Prop
  | refl (ts : List Token) : Unwraps ts ts
  | step (before after : List Token) {ts us : List Token} {o c : Span} {e : Expr}
      (hinner : Phrase.Text (.expr e) ts) (h : Unwraps (before ++ ts ++ after) us) :
      Unwraps (before ++ (⟨.mark .openParen, o⟩ :: ts ++ [⟨.mark .closeParen, c⟩]) ++ after) us

namespace Unwraps

variable {ts us vs : List Token}

theorem trans (h : Unwraps ts us) (hus : Unwraps us vs) : Unwraps ts vs := by
  induction h with
  | refl => exact hus
  | step before after hinner _ ih => exact .step before after hinner (ih hus)

theorem length_le (h : Unwraps ts us) : us.length ≤ ts.length := by
  induction h with
  | refl => exact Nat.le_refl _
  | step _ _ _ _ ih =>
    simp only [List.length_append, List.length_cons] at ih ⊢
    omega

theorem eq_or_length_lt (h : Unwraps ts us) : us = ts ∨ us.length < ts.length := by
  cases h with
  | refl => exact .inl rfl
  | step _ _ _ h =>
    have hle := h.length_le
    simp only [List.length_append, List.length_cons] at hle ⊢
    exact .inr (by omega)

theorem left (h : Unwraps ts us) (more : List Token) : Unwraps (more ++ ts) (more ++ us) := by
  induction h with
  | refl => exact .refl _
  | @step before after ts us o c e hinner _ ih =>
    rw [List.append_assoc before, ← List.append_assoc more] at ih ⊢
    rw [← List.append_assoc] at ih ⊢
    exact .step (more ++ before) after hinner ih

theorem right (h : Unwraps ts us) (more : List Token) : Unwraps (ts ++ more) (us ++ more) := by
  induction h with
  | refl => exact .refl _
  | @step before after ts us o c e hinner _ ih =>
    rw [List.append_assoc] at ih ⊢
    exact .step before (after ++ more) hinner ih

theorem cons (h : Unwraps ts us) (token : Token) : Unwraps (token :: ts) (token :: us) :=
  h.left [token]

/-- The outermost pair of parentheses is left out. -/
theorem group {e : Expr} {o c : Span} (h : Phrase.Text (.expr e) ts) :
    Unwraps (⟨.mark .openParen, o⟩ :: ts ++ [⟨.mark .closeParen, c⟩]) ts := by
  have hall : Unwraps ([] ++ ts ++ []) ts := by simpa using Unwraps.refl ts
  simpa using Unwraps.step [] [] (o := o) (c := c) h hall

end Unwraps

/-- The tokens write something, and would not if further parentheses around expressions were left
out. -/
structure Bare (Writes : List Token → Prop) (ts : List Token) : Prop where
  writes : Writes ts
  eq_of_unwraps : ∀ us, Unwraps ts us → Writes us → us = ts

/-- All parentheses that are not needed can be left out. -/
theorem exists_bare {Writes : List Token → Prop} {ts : List Token} (h : Writes ts) :
    ∃ core, Unwraps ts core ∧ Bare Writes core := by
  induction hlength : ts.length using Nat.strong_induction_on generalizing ts with
  | h n ih =>
    by_cases hbare : ∀ us, Unwraps ts us → Writes us → us = ts
    · exact ⟨ts, .refl ts, h, hbare⟩
    · push Not at hbare
      obtain ⟨us, hunwraps, hus, hne⟩ := hbare
      have hlt : us.length < n := hlength ▸ hunwraps.eq_or_length_lt.resolve_left hne
      obtain ⟨core, hcore, hbare⟩ := ih us.length hlt hus rfl
      exact ⟨core, hunwraps.trans hcore, hbare⟩

/-! ### Ends -/

/-- The span goes from the first of these tokens to the last. -/
def Ends (ts : List Token) (span : Span) : Prop :=
  ∃ first ∈ ts.head?, ∃ last ∈ ts.getLast?, span = first.span.to last.span

namespace Ends

variable {ts us : List Token} {first last token : Token} {span other : Span}

theorem single : Ends [token] token.span := ⟨token, rfl, token, rfl, rfl⟩

theorem enclosed : Ends (first :: ts ++ [last]) (first.span.to last.span) :=
  ⟨first, rfl, last, List.getLast?_concat, rfl⟩

/-- The last token of a list that has one is the last one of what it ends. -/
theorem mem_getLast?_append (h : last ∈ us.getLast?) : last ∈ (ts ++ us).getLast? := by
  rw [List.getLast?_append, Option.mem_def.1 h]
  rfl

theorem mem_head?_append (h : first ∈ ts.head?) : first ∈ (ts ++ us).head? := by
  rw [List.head?_append, Option.mem_def.1 h]
  rfl

theorem headed (middle more : List Token) (h : Ends us span) :
    Ends (first :: middle ++ (more ++ us)) (first.span.to span) := by
  obtain ⟨-, -, last, hlast, rfl⟩ := h
  exact ⟨first, rfl, last, mem_getLast?_append (mem_getLast?_append hlast), rfl⟩

theorem tailed (middle : List Token) (h : Ends ts span) :
    Ends (ts ++ middle ++ [last]) (span.to last.span) := by
  obtain ⟨first, hfirst, -, -, rfl⟩ := h
  exact ⟨first, mem_head?_append (mem_head?_append hfirst), last, List.getLast?_concat, rfl⟩

theorem pair (h : Ends ts span) (h' : Ends us other) :
    Ends (ts ++ token :: us) (span.to other) := by
  obtain ⟨first, hfirst, -, -, rfl⟩ := h
  obtain ⟨-, -, last, hlast, rfl⟩ := h'
  have hrest : last ∈ ([token] ++ us).getLast? := mem_getLast?_append hlast
  exact ⟨first, mem_head?_append hfirst, last, mem_getLast?_append hrest, rfl⟩

end Ends

namespace Phrase

/-- The span of a phrase that is a node, or a name with its initial value. -/
def span? : Phrase → Option Span
  | expr e => some e.span
  | item d => some d.span
  | block b => some b.span
  | conditional s => some s.span
  | stmt s => some s.span
  | _ => none

/-- A phrase that is written without needless parentheses begins with its first token and ends with
its last. -/
theorem Text.ends {phrase : Phrase} {ts : List Token} (h : phrase.Text ts)
    (hbare : ∀ us, Unwraps ts us → phrase.Text us → us = ts) :
    ∀ span ∈ phrase.span?, Ends ts span := by
  -- a part that could do with fewer parentheses would let the whole do with fewer as well
  induction h with
  | literal _ =>
    rintro _ ⟨⟩
    exact .single
  | lookup =>
    rintro _ ⟨⟩
    exact .single
  | @group e ts o c inner _ =>
    have hlength := congrArg List.length (hbare ts (.group inner) inner)
    simp only [List.length_append, List.length_cons] at hlength
    omega
  | @prefixed l op s e ts h _ ih =>
    rintro _ ⟨⟩
    have harg := ih fun us hu hus ↦ by simpa using hbare _ (hu.cons _) (.prefixed h hus)
    rw [op.span_apply]
    exact (harg _ rfl).headed [] []
  | @infixed l op s a ts b us h lhs rhs ih ih' =>
    rintro _ ⟨⟩
    have hlhs := ih fun vs hv hvs ↦ by simpa using hbare _ (hv.right _) (.infixed h hvs rhs)
    have hrhs := ih' fun vs hv hvs ↦ by
      simpa using hbare _ ((hv.cons _).left _) (.infixed h lhs hvs)
    rw [op.span_apply]
    exact (hlhs _ rfl).pair (hrhs _ rfl)
  | call _ args ih _ =>
    rintro _ ⟨⟩
    have hcallee := ih fun vs hv hvs ↦ by
      simpa using hbare _ ((hv.right _).right _) (.call hvs args)
    exact (hcallee _ rfl).tailed _
  | index _ index ih _ =>
    rintro _ ⟨⟩
    have hbase := ih fun vs hv hvs ↦ by
      simpa using hbare _ ((hv.right _).right _) (.index hvs index)
    exact (hbase _ rfl).tailed _
  | array _ _ | anonymous _ _ _ _ =>
    rintro _ ⟨⟩
    exact .enclosed
  | plainItem =>
    rintro _ ⟨⟩
    exact .single
  | initItem _ ih =>
    rintro _ ⟨⟩
    have hinit := ih fun vs hv hvs ↦ by
      simpa using hbare _ ((hv.cons _).cons _) (.initItem hvs)
    exact (hinit _ rfl).headed [] [_]
  | block _ _ =>
    rintro _ ⟨⟩
    exact .enclosed
  | thenOnly cond _ _ ih =>
    rintro _ ⟨⟩
    have hthen := ih fun vs hv hvs ↦ by
      simpa using hbare _ ((hv.cons _).left _) (.thenOnly cond hvs)
    exact (hthen _ rfl).headed _ [_]
  | elseBlock cond thenPart _ _ _ ih =>
    rintro _ ⟨⟩
    have helse := ih fun vs hv hvs ↦ by
      simpa using hbare _ ((hv.cons _).left _) (.elseBlock cond thenPart hvs)
    exact (helse _ rfl).headed _ [_]
  | elseIf cond thenPart _ _ _ ih =>
    rintro _ ⟨⟩
    have helse := ih fun vs hv hvs ↦ by
      simpa using hbare _ ((hv.cons _).left _) (.elseIf cond thenPart hvs)
    exact (helse _ rfl).headed _ [_]
  | declare _ _ | destructure _ _ _ _ | named _ _ _ _ | assign _ _ =>
    rintro _ ⟨⟩
    exact .enclosed
  | @effect e ts c _ ih =>
    rintro _ ⟨⟩
    have hvalue := ih fun vs hv hvs ↦ by simpa using hbare _ (hv.right _) (.effect hvs)
    have hall : Ends (ts ++ [] ++ [⟨.mark .semicolon, c⟩]) (e.span.to c) :=
      (hvalue _ rfl).tailed []
    rwa [List.append_nil] at hall
  | print _ _ | ret _ _ | spawn _ _ | throw _ _ =>
    rintro _ ⟨⟩
    exact .enclosed
  | retNothing | pause =>
    rintro _ ⟨⟩
    exact @Ends.enclosed [] _ _
  | inner _ ih => exact ih fun vs hv hvs ↦ hbare _ hv (.inner hvs)
  | branch _ ih => exact ih fun vs hv hvs ↦ hbare _ hv (.branch hvs)
  | whileLoop cond _ _ ih =>
    rintro _ ⟨⟩
    have hbody := ih fun vs hv hvs ↦ by
      simpa using hbare _ ((hv.cons _).left _) (.whileLoop cond hvs)
    exact (hbody _ rfl).headed _ [_]
  | forOf iterable _ _ ih =>
    rintro _ ⟨⟩
    have hbody := ih fun vs hv hvs ↦ by
      simpa using hbare _ ((hv.cons _).left _) (.forOf iterable hvs)
    exact (hbody _ rfl).headed _ [_]
  | tryCatch body _ _ ih =>
    rintro _ ⟨⟩
    have hhandler := ih fun vs hv hvs ↦ by
      simpa using hbare _ ((hv.left [_, _, _, _]).left _) (.tryCatch body hvs)
    exact (hhandler _ rfl).headed _ [_, _, _, _]
  | _ =>
    rintro _ ⟨⟩

end Phrase

end LateConst
