import LateConst.Proofs.CleanRun.Names
import LateConst.Proofs.Findings

/-!
# The check and the run find the same duplicate

The static check goes through the declarations of a scope and remembers the first of each name;
whoever enters the scope at run time makes an entry for each of them. They come upon the same
declaration as the first one of a name that is there already (`Store.duplicates_agree`).
-/

namespace LateConst

/-! ### The first complaint -/

section Redeclarations

variable {known new more : List Ident} {ident : Ident}

theorem redeclarations_append (hnodup : ((known ++ new).map Ident.name).Nodup) :
    redeclarations known (new ++ more) = redeclarations (known ++ new) more := by
  induction new generalizing known with
  | nil => rw [List.nil_append, List.append_nil]
  | cons ident new ih =>
    have hnew : known.find? (fun earlier ↦ earlier.name == ident.name) = none := by
      rw [List.map_append, List.map_cons, List.nodup_append] at hnodup
      refine List.find?_eq_none.2 fun earlier hearlier ↦ ?_
      simpa using hnodup.2.2 _ (List.mem_map_of_mem hearlier) _ List.mem_cons_self
    rw [List.cons_append, redeclarations, hnew]
    dsimp only
    rw [List.append_cons known ident new] at hnodup ⊢
    exact ih hnodup

theorem redeclarations_cons_of_mem (h : ident.name ∈ known.map Ident.name) :
    ∃ first ∈ known, first.name = ident.name ∧
      redeclarations known (ident :: more) =
        .redeclared first ident :: redeclarations known more := by
  obtain ⟨earlier, hearlier, hname⟩ := List.mem_map.1 h
  cases hfind : known.find? fun earlier ↦ earlier.name == ident.name with
  | none =>
    have hne := List.find?_eq_none.1 hfind earlier hearlier
    exact (hne (beq_iff_eq.2 hname)).elim
  | some first =>
    have hfirst : first.name = ident.name := by simpa using List.find?_some hfind
    refine ⟨first, List.mem_of_find?_eq_some hfind, hfirst, ?_⟩
    rw [redeclarations, hfind]

end Redeclarations

/-! ### Entering a scope -/

namespace Store

/-- Enters a scope in a new record: the parameters come first, and then what the body declares. -/
def enterScope (store : Store) (kind : ScopeKind) (outer : Option RecordId) (params : List Ident)
    (args : List Value) (body : List Stmt) : Store × Option Ident :=
  (store.addRecord kind outer).2.hoist store.records.size
    (parameters params args ++ body.flatMap Stmt.hoisted)

/-- A function whose scope cannot be entered is left at once with a fault. -/
theorem enter_of_duplicate {store : Store} {code : Subroutine} {env : RecordId}
    {args : List Value} {ident : Ident}
    (h : (store.enterScope .function (some env) code.params args code.body).2 = some ident)
    (events : Array Event) (frames : List StmtFrame) (callers : List Caller) :
    Thread.enter ⟨store, events⟩ frames callers (.closure code env) args =
      Thread.raise ⟨(store.enterScope .function (some env) code.params args code.body).1, events⟩
        frames callers (some (.ident ident)) (.duplicateName ident.name) := by
  obtain ⟨store', hentered⟩ : ∃ store',
      store.enterScope .function (some env) code.params args code.body = (store', some ident) :=
    ⟨_, Prod.ext rfl h⟩
  rw [hentered]
  rw [enterScope] at hentered
  rw [Thread.enter]
  dsimp only [addRecord] at hentered ⊢
  rw [hentered]

theorem exists_records_addRecord (store : Store) (kind : ScopeKind) (outer : Option RecordId) :
    ∃ path, (store.addRecord kind outer).2.records = store.records.push (.new kind path) :=
  ⟨_, rfl⟩

/-- Entries are made for the declarations of a scope in their order, up to the first one of a name
that has an entry, and the static check complains of this one first. -/
theorem exists_stop_of_enterScope (store : Store) (kind : ScopeKind) (outer : Option RecordId)
    (params : List Ident) (args : List Value) (body : List Stmt) :
    ∃ done rest record,
      parameters params args ++ body.flatMap Stmt.hoisted = done ++ rest ∧
      (store.enterScope kind outer params args body).1.records[store.records.size]? =
        some record ∧
      List.Forall₂ (Entry.Of store.records.size) done record.entries ∧ record.names.Nodup ∧
      (store.enterScope kind outer params args body).2 = rest.head?.map Prod.fst ∧
      (rest = [] → scopeComplaints params body = []) ∧
      ∀ item ∈ rest.head?, ∃ first ∈ done.map Prod.fst, first.name = item.1.name ∧
        ∃ more, scopeComplaints params body = .redeclared first item.1 :: more := by
  obtain ⟨path, hpath⟩ := store.exists_records_addRecord kind outer
  obtain ⟨done, rest, made, hitems, hmade, hrecords, -, hnodup, hstop, hthere⟩ :=
    exists_stop_of_hoist_push hpath (parameters params args ++ body.flatMap Stmt.hoisted)
  have hnames : made.map Entry.name = (done.map Prod.fst).map Ident.name := map_name_of_made hmade
  have hdifferent : (([] ++ done.map Prod.fst).map Ident.name).Nodup := by
    rw [List.nil_append, ← hnames]
    exact hnodup List.nodup_nil
  have hcomplaints : scopeComplaints params body =
      redeclarations (done.map Prod.fst) (rest.map Prod.fst) := by
    rw [scopeComplaints, ← map_fst_parameters params args, ← map_fst_flatMap_hoisted,
      ← List.map_append, hitems, List.map_append, redeclarations_append hdifferent,
      List.nil_append]
  have hrecord : (store.enterScope kind outer params args body).1.records[store.records.size]? =
      some ⟨kind, path, made⟩ := by
    rw [enterScope, hrecords, Array.getElem?_push_size]
    rfl
  refine ⟨done, rest, _, hitems, hrecord, hmade, hnodup List.nodup_nil, hstop, ?_, ?_⟩
  · rintro rfl
    exact hcomplaints
  · cases rest with
    | nil => exact fun item hitem ↦ by cases hitem
    | cons item rest =>
      rintro item ⟨⟩
      have hmem : item.1.name ∈ (done.map Prod.fst).map Ident.name := by
        rw [← hnames]
        exact hthere item rfl
      obtain ⟨first, hfirst, hname, hcons⟩ := redeclarations_cons_of_mem hmem
      exact ⟨first, hfirst, hname, _, hcomplaints.trans hcons⟩

end Store

/-! ### The notice of a complaint -/

namespace Bulletin

/-- A notice stands at an index, perhaps with more excerpts. -/
def Quotes (b : Bulletin) (index : Nat) (notice : Notice) : Prop :=
  ∃ more, b.notices[index]? = some { notice with excerpts := notice.excerpts ++ more }

variable {b : Bulletin} {index : Nat} {notice : Notice}

namespace Quotes

theorem append (h : b.Quotes index notice) {b' : Bulletin} {new : Notice}
    (hnotices : b'.notices = b.notices ++ [new]) : b'.Quotes index notice := by
  obtain ⟨more, hmore⟩ := h
  refine ⟨more, ?_⟩
  rw [hnotices, List.getElem?_append_left (List.getElem?_eq_some_iff.1 hmore).1, hmore]

theorem extend (h : b.Quotes index notice) (other : Nat) (excerpt : Excerpt) :
    (b.extend other excerpt).Quotes index notice := by
  obtain ⟨more, hmore⟩ := h
  by_cases heq : other = index
  · refine ⟨more ++ [excerpt], ?_⟩
    simp [Bulletin.extend, heq, hmore]
  · refine ⟨more, ?_⟩
    simp [Bulletin.extend, heq, hmore]

theorem complain (h : b.Quotes index notice) (complaint : Complaint) :
    (reached (b.complain complaint)).Quotes index notice := by
  cases complaint with
  | strayReturn span => exact h.append (notices_reached_post b _)
  | redeclared first guilty =>
    rw [Bulletin.complain, redeclaration]
    split
    next other _ => exact h.extend other _
    next =>
      have hposted := h.append (notices_reached_post b
        ⟨"This name is declared more than once in the same scope.",
          [b.excerpt (some first.span) "Earliest declaration"], []⟩)
      dsimp only
      generalize b.post _ = posted at hposted
      cases posted with
      | error full => exact hposted
      | ok b' => exact extend (b := { b' with redeclared := _ }) hposted _ _

/-- What a notice quotes it goes on quoting, whatever else is complained of. -/
theorem foldlM (h : b.Quotes index notice) (complaints : List Complaint) :
    (reached (complaints.foldlM Bulletin.complain b)).Quotes index notice := by
  induction complaints generalizing b with
  | nil => exact h
  | cons complaint more ih =>
    have hfirst := h.complain complaint
    rw [List.foldlM_cons]
    cases hcomplain : b.complain complaint with
    | error full =>
      rw [hcomplain] at hfirst
      exact hfirst
    | ok b' =>
      rw [hcomplain] at hfirst
      exact ih hfirst

end Quotes

theorem complain_eq_error {first guilty : Ident}
    (hlookup : b.redeclared.lookup (first.name, first.span.left) = none)
    (hfull : (b.notices.length : Int) + 1 = b.cap) :
    b.complain (.redeclared first guilty) =
      .error { b with notices := b.notices ++ [b.repetition [first.span]] } := by
  simp [complain, redeclaration, hlookup, post, hfull, bind, Except.bind, repetition]

/-- The notice quotes two declarations in this order, or only the first if it is the one that fills
the bulletin. -/
def TellsOfBoth (b : Bulletin) (first guilty : Ident) (notice : Notice) : Prop :=
  if (b.notices.length : Int) + 1 = b.cap then
    notice.excerpts = [b.excerpt (some first.span) "Earliest declaration"]
  else
    ∃ others, notice.excerpts = b.excerpt (some first.span) "Earliest declaration" ::
      b.excerpt (some guilty.span) "" :: others

/-- The first complaint about a name makes a notice that quotes the first declaration and then the
one that is to blame, unless the notice fills the bulletin. -/
theorem exists_notice_of_foldlM {first guilty : Ident} (more : List Complaint)
    (hlookup : b.redeclared.lookup (first.name, first.span.left) = none) :
    ∃ notice, (reached ((.redeclared first guilty :: more).foldlM complain b)).notices[
        b.notices.length]? = some notice ∧ b.TellsOfBoth first guilty notice := by
  unfold TellsOfBoth
  rw [List.foldlM_cons]
  split
  next hfull =>
    rw [complain_eq_error hlookup hfull]
    exact ⟨_, List.getElem?_concat_length, rfl⟩
  next hroom =>
    have hcomplain : b.complain (.redeclared first guilty) = _ := redeclaration_eq_ok hlookup hroom
    rw [hcomplain]
    have hquotes : Quotes { b with
        notices := b.notices ++ [b.repetition [first.span, guilty.span]],
        redeclared := ((first.name, first.span.left), b.notices.length) :: b.redeclared }
        b.notices.length (b.repetition [first.span, guilty.span]) :=
      ⟨[], by simp⟩
    obtain ⟨others, hothers⟩ := hquotes.foldlM more
    exact ⟨_, hothers, others, rfl⟩

end Bulletin

/-! ### The same duplicate -/

namespace Store

/-- The names of a program are declared by entering a scope without parameters. -/
theorem declared_eq_enterScope (program : Program) :
    program.declared = initial.enterScope .program (some globalRecord) [] [] program := rfl

/-- For all parameters and statements, the static check has a name to complain of that is declared
again in their scope if and only if entering the scope comes upon one, whatever the arguments are.
Then it is the first complaint that blames the same declaration, and the earlier one that it speaks
of is the one whose entry is in the record. A check that comes as far as this scope makes a notice
of the complaint: it quotes both declarations in this order, unless it fills the bulletin. A program
that declares a name twice has come to its end before anything is shown. -/
theorem duplicates_agree (store : Store) (kind : ScopeKind) (outer : Option RecordId)
    (params : List Ident) (args : List Value) (body : List Stmt) :
    (((∃ first guilty, .redeclared first guilty ∈ scopeComplaints params body) ↔
        ∃ ident, (store.enterScope kind outer params args body).2 = some ident) ∧
      ∀ ident, (store.enterScope kind outer params args body).2 = some ident →
        ∃ first more, scopeComplaints params body = .redeclared first ident :: more ∧
          (∃ done what rest record, parameters params args ++ body.flatMap Stmt.hoisted =
              done ++ (ident, what) :: rest ∧
            (store.enterScope kind outer params args body).1.records[store.records.size]? =
              some record ∧
            List.Forall₂ (Entry.Of store.records.size) done record.entries ∧
            record.names.Nodup ∧ first ∈ done.map Prod.fst ∧ first.name = ident.name) ∧
          ∀ (b : Bulletin) (later : List Complaint),
            b.redeclared.lookup (first.name, first.span.left) = none →
              ∃ notice, (Bulletin.reached ((scopeComplaints params body ++ later).foldlM
                  Bulletin.complain b)).notices[b.notices.length]? = some notice ∧
                b.TellsOfBoth first ident notice) ∧
    (∀ (events : Array Event) (frames : List StmtFrame) (callers : List Caller)
      (code : Subroutine) (env : RecordId) (ident : Ident),
      (store.enterScope .function (some env) code.params args code.body).2 = some ident →
        Thread.enter ⟨store, events⟩ frames callers (.closure code env) args =
          Thread.raise ⟨(store.enterScope .function (some env) code.params args code.body).1,
            events⟩ frames callers (some (.ident ident)) (.duplicateName ident.name)) ∧
    ∀ (program : Program) (verbose : Bool) (queue : TurnQueue Thread),
      (∃ first guilty, .redeclared first guilty ∈ scopeComplaints [] program) →
        ∃ store first ident more, scopeComplaints [] program = .redeclared first ident :: more ∧
          ∀ k, program.moment verbose queue k = .ended ⟨store, #[]⟩ .empty
            (some (.uncaught (.duplicateName ident.name) (some (.ident ident)))) := by
  refine ⟨?_, fun events frames callers code env ident h ↦
    enter_of_duplicate h events frames callers, fun program verbose queue hagain ↦ ?_⟩
  · obtain ⟨done, rest, record, hitems, hrecord, hmade, hnodup, hstop, hnone, hsome⟩ :=
      store.exists_stop_of_enterScope kind outer params args body
    rw [hstop]
    cases rest with
    | nil => simp [hnone rfl]
    | cons item rest =>
      obtain ⟨ident, what⟩ := item
      obtain ⟨first, hfirst, hname, more, hcomplaints⟩ := hsome _ rfl
      refine ⟨⟨fun _ ↦ ⟨ident, rfl⟩, fun _ ↦ ⟨first, ident, ?_⟩⟩, ?_⟩
      · rw [hcomplaints]
        exact List.mem_cons_self
      · rintro _ ⟨⟩
        refine ⟨first, more, hcomplaints,
          ⟨done, what, rest, record, hitems, hrecord, hmade, hnodup, hfirst, hname⟩,
          fun b later hlookup ↦ ?_⟩
        rw [hcomplaints]
        exact Bulletin.exists_notice_of_foldlM (more ++ later) hlookup
  · obtain ⟨done, rest, record, -, -, -, -, hstop, hnone, hsome⟩ :=
      initial.exists_stop_of_enterScope .program (some globalRecord) [] [] program
    rw [← declared_eq_enterScope] at hstop
    cases rest with
    | nil => simp [hnone rfl] at hagain
    | cons item rest =>
      obtain ⟨first, -, -, more, hcomplaints⟩ := hsome _ rfl
      exact ⟨program.declared.1, first, item.1, more, hcomplaints,
        Program.moment_of_declared_eq_some hstop verbose queue⟩

/-- A bulletin that may hold one notice is full before the notice quotes the second declaration. -/
theorem second_declaration_untold_in_full_bulletin : ∃ program ident notice,
    Program.read "let a; let a;".toList = .program program ∧
      (initial.enterScope .program (some globalRecord) [] [] program).2 = some ident ∧
      (∃ first, scopeComplaints [] program = [.redeclared first ident]) ∧
      (Bulletin.reached ((Bulletin.new false 1).check program)).notices = [notice] ∧
      ∀ excerpt, notice.excerpts[1]? = some excerpt → excerpt.span ≠ some ident.span := by
  have hrun : ((Program.ofText? "let a; let a;".toList).map fun program : Program ↦
      (program.declared.2, scopeComplaints [] program,
        (Bulletin.reached ((Bulletin.new false 1).check program)).notices.map fun notice ↦
          notice.excerpts.length)) =
      some (some ⟨"a", ⟨11, 12⟩⟩, [.redeclared ⟨"a", ⟨4, 5⟩⟩ ⟨"a", ⟨11, 12⟩⟩], [1]) := by
    decide +kernel
  obtain ⟨program, htext, hrun⟩ := Option.map_eq_some_iff.1 hrun
  obtain ⟨hident, hrun⟩ := Prod.mk.inj hrun
  obtain ⟨hcomplaints, hnotices⟩ := Prod.mk.inj hrun
  obtain ⟨notice, hnotice, hlength⟩ := List.map_eq_singleton_iff.1 hnotices
  refine ⟨program, _, notice, Program.read_of_ofText? htext, hident, ⟨_, hcomplaints⟩, hnotice,
    fun excerpt hexcerpt ↦ ?_⟩
  rw [List.getElem?_eq_none (by omega)] at hexcerpt
  cases hexcerpt

end Store

end LateConst
