import LateConst.Proofs.Reading.Exact
import LateConst.Proofs.Reading.Outcome

/-!
# What is said of a name that follows declarators

Two names side by side after `const` are refused at the second one, and it would help to be told of
the comma between them. But the advice about it waits for symbols that never come: while more
declarators may follow, the last one stands at the end of the path as a name or as an expression,
and is put to the others only with the comma or the semicolon that shows it to be complete
(`Reading.getLast?_symbols_ne`). So the advice is given for no text at all.

What is said instead depends on the last declarator (`Program.read_name_after_declarators`). Which
point the reading of the declarators has come to is seen from the semicolon that could follow them.
-/

namespace LateConst

/-! ### Symbols at the end of a path -/

theorem Body.getLast?_symbols (body : Body) : body.symbols.getLast? = some "stmts" := by
  cases body <;> simp [symbols]

theorem FunctionSite.getLast?_symbols_ne (site : FunctionSite) :
    site.symbols.getLast? ≠ some "decl_list" := by
  cases site <;> simp [symbols]

theorem BlockSite.getLast?_symbols_ne (site : BlockSite) :
    site.symbols.getLast? ≠ some "decl_list" := by
  cases site <;> simp [symbols, Body.getLast?_symbols]

theorem ExprSite.getLast?_symbols_ne (site : ExprSite) :
    site.symbols.getLast? ≠ some "decl_list" := by
  cases site with
  | init outer kind head done ident => cases done <;> simp [symbols]
  | argument outer callee done | element outer head done => cases done <;> simp [symbols]
  | _ => simp [symbols, Body.getLast?_symbols]

theorem Pending.getLast?_symbols_ne (p : Pending) : p.symbols.getLast? ≠ some "decl_list" := by
  cases p with
  | prefixed op head =>
    cases op with
    | unary op => cases op <;> simp [symbols, PrefixOp.symbol, UnaryOp.symbol]
    | typeOf => simp [symbols, PrefixOp.symbol]
  | infixed lhs op =>
    cases op with
    | binary op => cases op <;> simp [symbols, InfixOp.symbol, BinaryOp.symbol]
    | shortcut op => cases op <;> simp [symbols, InfixOp.symbol, ShortcutOp.symbol]

theorem Operand.getLast?_symbols_ne (place : Operand) :
    place.symbols.getLast? ≠ some "decl_list" := by
  obtain ⟨site, pending⟩ := place
  cases pending with
  | nil => simpa [symbols] using site.getLast?_symbols_ne
  | cons p more =>
    have hne : p.symbols ≠ [] := by cases p <;> simp [Pending.symbols]
    rw [symbols, List.reverse_cons, List.flatMap_append, List.flatMap_singleton,
      ← List.append_assoc, List.getLast?_append_of_ne_nil _ hne]
    exact p.getLast?_symbols_ne

namespace Reading

/-- The declarators of a list are never the last thing that has been recognised. -/
theorem getLast?_symbols_ne (reading : Reading) :
    reading.symbols.getLast? ≠ some "decl_list" := by
  cases reading with
  | statements body => simp [symbols, Body.getLast?_symbols]
  | operand place => exact place.getLast?_symbols_ne
  | beforeParams site => exact site.getLast?_symbols_ne
  | beforeBlock site => exact site.getLast?_symbols_ne
  | afterDeclared body kind head done ident => cases done <;> simp [symbols]
  | declaring body kind head => cases kind <;> simp [symbols, Kind.symbol]
  | forName body head kind => cases kind <;> simp [symbols, Kind.symbol]
  | _ => simp [symbols]

end Reading

/-! ### Advice that is never given -/

/-- Words that ask for a comma are kept for declarators that have been recognised as a list. -/
theorem Advice.getLast?_of_wordsFor {recognised : List String} {symbol : String}
    (h : wordsFor recognised symbol = "Probably a missing comma between these names.") :
    recognised.getLast? = some "decl_list" := by
  rw [wordsFor] at h
  split at h
  next advice hfind =>
    have hfits := List.find?_some hfind
    have hmem := List.mem_of_find?_eq_some hfind
    rw [Bool.and_eq_true, List.isSuffixOf_iff_suffix] at hfits
    simp only [known, List.mem_cons, List.not_mem_nil, or_false] at hmem
    rcases hmem with rfl | rfl | rfl | rfl | rfl | rfl
    case inr.inl =>
      obtain ⟨before, rfl⟩ := hfits.2
      simp
    all_goals exact absurd h (by decide)
  next =>
    have hhead := congrArg (fun words : String ↦ words.toList.head?) h
    simp [String.toList_append] at hhead

theorem Program.comma_is_never_asked_for {text : List Char} {confusion : Confusion}
    (h : Program.read text = .confused confusion) :
    confusion.words ≠ "Probably a missing comma between these names." := by
  rw [read, Scan.read] at h
  split at h
  next refusal hfold =>
    obtain ⟨-, token, -, last, -, -, -, hrefused, -⟩ := Reading.exists_refused_of_foldlM hfold
    obtain rfl := ReadResult.confused.inj h
    rw [Reading.feed] at hrefused
    split at hrefused
    · cases hrefused
    · obtain rfl := Except.error.inj hrefused
      exact fun hwords ↦ (last.settle token.lexeme).getLast?_symbols_ne
        (Advice.getLast?_of_wordsFor hwords)
  next =>
    split at h
    · cases h
      exact of_decide_eq_true rfl
    · cases h
    · split at h <;> cases h
      decide

/-! ### The point after a declarator -/

theorem Pending.level_le (p : Pending) : p.level ≤ 7 := by
  cases p with
  | prefixed op head => exact of_decide_eq_true rfl
  | infixed lhs op =>
    cases op with
    | binary op => cases op <;> exact of_decide_eq_true rfl
    | shortcut op => cases op <;> exact of_decide_eq_true rfl

namespace Reading

theorem gives_append {reading : Reading} {ts us : List Token} {program : Program} :
    reading.Gives (ts ++ us) program ↔
      ∃ next, ts.foldlM feed reading = .ok next ∧ next.Gives us program := by
  rw [Gives, List.foldlM_append]
  cases ts.foldlM feed reading with
  | error confusion => simp [bind, Except.bind]
  | ok next => simp [Gives, bind, Except.bind]

/-- A program that has been read ends with the statement that was read last. -/
theorem eq_of_finish_push {body : Body} {s t : Stmt} {done : List Stmt}
    (h : (statements (body.push s)).finish = some (done ++ [t])) :
    body = .program done ∧ s = t := by
  cases body with
  | program earlier =>
    obtain ⟨rfl, hlast⟩ := List.append_inj' (Option.some.inj h) rfl
    exact ⟨rfl, List.singleton_inj.1 hlast⟩
  | block outer head earlier => cases h
  | function outer params earlier => cases h

/-- Where a declaration can be completed by a semicolon, its last declarator has been read. -/
theorem exists_declared_of_gives {reading : Reading} {last : Span} {done : List Stmt} {kind : Kind}
    {ds : List Declarator} {span : Span}
    (h : reading.Gives [⟨.mark .semicolon, last⟩] (done ++ [.declare kind ds span])) :
    ∃ head earlier d,
      earlier ++ [d] = ds ∧ Declared (.program done) kind head earlier d reading := by
  obtain ⟨next, hnext, hend⟩ := gives_cons.1 h
  rw [gives_nil] at hend
  cases reading with
  | value place e =>
    obtain ⟨site, pending⟩ := place
    rw [ExprSite.settle_semicolon] at hnext
    cases site <;> cases hnext <;> obtain ⟨rfl, hs⟩ := eq_of_finish_push hend <;> cases hs
    exact ⟨_, _, _, rfl, .init ⟨fun p _ ↦ p.level_le, rfl⟩⟩
  | afterDeclared body kind head earlier ident =>
    cases hnext
    obtain ⟨rfl, hs⟩ := eq_of_finish_push hend
    cases hs
    exact ⟨_, _, _, rfl, .plain⟩
  | leadingName body ident | returning body head | pausing body head =>
    cases hnext
    obtain ⟨-, hs⟩ := eq_of_finish_push hend
    cases hs
  | _ => cases hnext

end Reading

/-! ### A name that follows declarators -/

/-- What is said of a name that follows these declarators of a constant directly. -/
def Declarator.wordsBeforeName (earlier : List Declarator) (d : Declarator) : String :=
  if d.init.isSome then "Probably a missing semicolon just before here."
  else if earlier.isEmpty then "Guru Meditation: stmts CONST name ● name"
  else "Guru Meditation: stmts CONST decl_list , name ● name"

/-- Whatever stands before it, an expression is taken to end a statement. -/
theorem Advice.wordsFor_expr (recognised : List String) :
    wordsFor (recognised ++ ["expr"]) "name" =
      "Probably a missing semicolon just before here." := by
  simp [wordsFor, known, List.find?, List.isSuffixOf, List.isPrefixOf]

/-- A declarator that has been read is no end of anything before a name. -/
theorem Reading.Declared.feed_name {done : List Stmt} {head : Span} {ds : List Declarator}
    {d : Declarator} {reading : Reading} (h : Declared (.program done) .constant head ds d reading)
    (name : String) (span : Span) : ∃ recognised,
      reading.feed ⟨.name name, span⟩ = .error (.unexpected recognised ⟨.name name, span⟩) ∧
      Advice.wordsFor recognised "name" = d.wordsBeforeName ds := by
  cases h with
  | plain =>
    refine ⟨_, rfl, ?_⟩
    cases ds <;> exact of_decide_eq_true rfl
  | init hmakes => exact ⟨_, rfl, Advice.wordsFor_expr _⟩

namespace Phrase

theorem Text.exists_grouped_item {d : Declarator} {ts : List Token} (h : Text (.item d) ts) :
    ∃ d', Grouped (.item d') 0 ts ∧ d'.init.isSome = d.init.isSome := by
  cases h with
  | plainItem => exact ⟨_, .plainItem, rfl⟩
  | initItem hinit =>
    obtain ⟨e, k, he⟩ := hinit.groupable
    exact ⟨_, .initItem he, rfl⟩

theorem Text.items_ne_nil {ds : List Declarator} {ts : List Token} (h : Text (.items ds) ts) :
    ds ≠ [] := by
  cases h <;> simp

theorem Grouped.items_ne_nil {ds : List Declarator} {k : Nat} {ts : List Token}
    (h : Grouped (.items ds) k ts) : ds ≠ [] := by
  cases h <;> simp

/-- However the operators of the initial values are grouped, the same is said of a name after the
declarators. -/
theorem Text.exists_grouped_items {ds : List Declarator} {d : Declarator} {ts : List Token}
    (h : Text (.items (ds ++ [d])) ts) :
    ∃ ds' d', Grouped (.items (ds' ++ [d'])) 0 ts ∧
      d'.wordsBeforeName ds' = d.wordsBeforeName ds := by
  generalize hall : ds ++ [d] = all at h
  cases h with
  | firstItem hfirst =>
    obtain ⟨rfl, hd⟩ := List.append_inj' (hall.trans (List.nil_append _).symm) rfl
    obtain rfl := List.singleton_inj.1 hd
    obtain ⟨d', hd', hinit⟩ := hfirst.exists_grouped_item
    exact ⟨[], d', .firstItem hd', by rw [Declarator.wordsBeforeName, hinit]; rfl⟩
  | nextItem hbefore hnext =>
    obtain ⟨rfl, hd⟩ := List.append_inj' hall rfl
    obtain rfl := List.singleton_inj.1 hd
    obtain ⟨ds', hds'⟩ := hbefore.groupable
    obtain ⟨d', hd', hinit⟩ := hnext.exists_grouped_item
    have hempty : ds'.isEmpty = ds.isEmpty := by
      simp [List.isEmpty_eq_false_iff.2 hds'.items_ne_nil,
        List.isEmpty_eq_false_iff.2 hbefore.items_ne_nil]
    exact ⟨ds', d', .nextItem hds' hd', by
      rw [Declarator.wordsBeforeName, Declarator.wordsBeforeName, hinit, hempty]⟩

end Phrase

/-- After statements and the declarators of a constant, what has been read is the last one. -/
theorem Reading.exists_declared_of_text {before items : List Token} {head : Span}
    {done : List Stmt} {ds : List Declarator} {d : Declarator}
    (hbefore : Phrase.Text (.stmts done) before)
    (hitems : Phrase.Text (.items (ds ++ [d])) items) :
    ∃ reading done' head' ds' d',
      (before ++ ⟨.word .constWord, head⟩ :: items).foldlM feed start = .ok reading ∧
      Declared (.program done') .constant head' ds' d' reading ∧
      d'.wordsBeforeName ds' = d.wordsBeforeName ds := by
  obtain ⟨done', hdone'⟩ := hbefore.groupable
  obtain ⟨ds', d', hds', hwords⟩ := hitems.exists_grouped_items
  -- the program that a semicolon would make of the tokens
  have hprogram : Phrase.Grouped
      (.stmts (done' ++ [.declare .constant (ds' ++ [d']) (head.to head)])) 0
      ((before ++ ⟨.word .constWord, head⟩ :: items) ++ [⟨.mark .semicolon, head⟩]) := by
    simpa [Kind.word] using hdone'.nextStmt (.declare (k := .constant) (h := head) (c := head) hds')
  obtain ⟨reading, hreading, hgives⟩ := gives_append.1 (gives_of_grouped hprogram)
  obtain ⟨head', earlier, last, hlast, hdeclared⟩ := exists_declared_of_gives hgives
  obtain ⟨rfl, hd⟩ := List.append_inj' hlast rfl
  obtain rfl := List.singleton_inj.1 hd
  exact ⟨reading, done', head', earlier, last, hreading, hdeclared, hwords⟩

/-- A name that follows declarators of a constant directly is refused, and what is said of it
depends on the last declarator only. -/
theorem Program.read_name_after_declarators {text : List Char} {before items after : List Token}
    {head span : Span} {name : String} {done : List Stmt} {ds : List Declarator} {d : Declarator}
    (htokens : (scan text).tokens =
      before ++ ⟨.word .constWord, head⟩ :: items ++ ⟨.name name, span⟩ :: after)
    (hbefore : Phrase.Text (.stmts done) before) (hitems : Phrase.Text (.items (ds ++ [d])) items) :
    ∃ confusion, Program.read text = .confused confusion ∧ confusion.span? = some span ∧
      confusion.words = d.wordsBeforeName ds ∧
      confusion.words ≠ "Probably a missing comma between these names." := by
  obtain ⟨reading, _, _, ds', d', hfold, hdeclared, hwords⟩ :=
    Reading.exists_declared_of_text hbefore hitems
  obtain ⟨recognised, hfeed, hadvice⟩ := hdeclared.feed_name name span
  have hread : Program.read text = .confused (.unexpected recognised ⟨.name name, span⟩) := by
    simp only [Program.read, Scan.read]
    rw [htokens, List.foldlM_append, hfold]
    simp [hfeed, bind, Except.bind]
  exact ⟨_, hread, rfl, hadvice.trans hwords, comma_is_never_asked_for hread⟩

/-- The last of the declarators decides: `b` has no initial value, so nothing is said of a semicolon
either. -/
theorem Program.read_name_after_two_declarators :
    ∃ confusion, Program.read "pause; const a = true, b c;".toList = .confused confusion ∧
      confusion.span? = some ⟨25, 26⟩ ∧
      confusion.words = "Guru Meditation: stmts CONST decl_list , name ● name" ∧
      confusion.words ≠ "Probably a missing comma between these names." := by
  have htokens : (scan "pause; const a = true, b c;".toList).tokens =
      [⟨.word .pauseWord, ⟨0, 5⟩⟩, ⟨.mark .semicolon, ⟨5, 6⟩⟩] ++ ⟨.word .constWord, ⟨7, 12⟩⟩ ::
        [⟨.name "a", ⟨13, 14⟩⟩, ⟨.mark .assign, ⟨15, 16⟩⟩, ⟨.word .trueWord, ⟨17, 21⟩⟩,
          ⟨.mark .comma, ⟨21, 22⟩⟩, ⟨.name "b", ⟨23, 24⟩⟩] ++ ⟨.name "c", ⟨25, 26⟩⟩ ::
        [⟨.mark .semicolon, ⟨26, 27⟩⟩] := by
    decide +kernel
  exact Program.read_name_after_declarators htokens (.nextStmt .noStmts .pause)
    (.nextItem (.firstItem (.initItem (.literal rfl))) .plainItem)

/-- Two names without a comma between them, and nobody says so. -/
theorem Program.comma_untold_between_names :
    ∃ confusion, Program.read "const a b;".toList = .confused confusion ∧
      confusion.span? = some ⟨8, 9⟩ ∧
      confusion.words = "Guru Meditation: stmts CONST name ● name" ∧
      confusion.words ≠ "Probably a missing comma between these names." := by
  have hread : Program.read "const a b;".toList =
      .confused (.unexpected ["stmts", "CONST", "name"] ⟨.name "b", ⟨8, 9⟩⟩) := by
    rfl
  exact ⟨_, hread, rfl, of_decide_eq_true rfl, of_decide_eq_true rfl⟩

end LateConst
