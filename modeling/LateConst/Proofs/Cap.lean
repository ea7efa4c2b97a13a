import LateConst.Proofs.Duplicate

/-!
# A cap cuts the notices short

A check into a bulletin with a cap goes side by side with a check into the same bulletin without
one. They agree until a notice fills the bulletin with the cap (`Bulletin.complain_withCap`). The
other check goes on from there, but whatever it adds it adds at the end: of the list of notices, or
of the excerpts of one notice (`Bulletin.Quotes.foldlM`).
-/

namespace LateConst

/-- A notice says what another one says, about the first few of its places. -/
structure Notice.Abridges (short whole : Notice) : Prop where
  headline : short.headline = whole.headline
  closing : short.closing = whole.closing
  excerpts_ne_nil : short.excerpts ≠ []
  excerpts_initial : short.excerpts <+: whole.excerpts

namespace Bulletin

variable {b b' full : Bulletin} {cap : Int} {notice : Notice}

def withCap (b : Bulletin) (cap : Int) : Bulletin := { b with cap := cap }

def HasRoom (b : Bulletin) (cap : Int) : Prop := cap ≤ 0 ∨ (b.notices.length : Int) < cap

/-- No notice is without an excerpt. -/
def IsQuoting (b : Bulletin) : Prop := ∀ notice ∈ b.notices, notice.excerpts ≠ []

/-- A bulletin is full, and the notice that filled it has one excerpt. All that it tells another
bulletin tells as well. -/
structure CutFrom (full b : Bulletin) : Prop where
  length_eq : (full.notices.length : Int) = full.cap
  quoting : full.IsQuoting
  quotes : ∀ index notice, full.notices[index]? = some notice → b.Quotes index notice
  last : ∃ notice ∈ full.notices.getLast?, notice.excerpts.length = 1

/-! ### Posting a notice -/

def add (b : Bulletin) (notice : Notice) : Bulletin := { b with notices := b.notices ++ [notice] }

theorem post_of_noCap (hcap : b.cap = noCap) (notice : Notice) :
    b.post notice = .ok (b.add notice) := by
  refine post_eq_ok ?_
  rw [hcap, noCap]
  omega

/-- A notice is the one that fills the bulletin, or there is room after it. -/
theorem post_withCap (hroom : b.HasRoom cap) (notice : Notice) :
    ((b.withCap cap).post notice = .ok ((b.add notice).withCap cap) ∧
        (b.add notice).HasRoom cap) ∨
      ((b.withCap cap).post notice = .error ((b.add notice).withCap cap) ∧
        ((b.add notice).notices.length : Int) = cap) := by
  have hlength : ((b.add notice).notices.length : Int) = b.notices.length + 1 := by
    simp [add]
  unfold post
  by_cases hfull : ((b.add notice).notices.length : Int) = cap
  · exact .inr ⟨if_pos hfull, hfull⟩
  · refine .inl ⟨if_neg hfull, ?_⟩
    unfold HasRoom at hroom ⊢
    omega

theorem IsQuoting.add (h : b.IsQuoting) (hnotice : notice.excerpts ≠ []) :
    (b.add notice).IsQuoting := by
  intro other hother
  obtain hother | hother := List.mem_append.1 hother
  · exact h other hother
  · obtain rfl := List.mem_singleton.1 hother
    exact hnotice

theorem IsQuoting.extend (h : b.IsQuoting) (index : Nat) (excerpt : Excerpt) :
    (b.extend index excerpt).IsQuoting := by
  intro other hother
  obtain ⟨i, hi⟩ := List.getElem?_of_mem hother
  rw [Bulletin.extend, List.getElem?_modify] at hi
  obtain ⟨notice, hnotice, rfl⟩ := Option.map_eq_some_iff.1 hi
  split
  · simp
  · exact h notice (List.mem_of_getElem? hnotice)

theorem quotes_self {index : Nat} (h : b.notices[index]? = some notice) :
    b.Quotes index notice :=
  ⟨[], by rw [h, List.append_nil]⟩

/-- The notice that fills a bulletin has just been posted. -/
theorem cutFrom_of_add (hb : b.IsQuoting) (hnotice : notice.excerpts.length = 1)
    (hfull : ((b.add notice).notices.length : Int) = cap)
    (hquotes : ∀ index other, (b.add notice).Quotes index other → b'.Quotes index other) :
    ((b.add notice).withCap cap).CutFrom b' where
  length_eq := hfull
  quoting := hb.add (List.ne_nil_of_length_pos (by omega))
  quotes index other hother := hquotes index other (quotes_self hother)
  last := ⟨notice, List.getLast?_concat, hnotice⟩

/-! ### Complaints -/

/-- What is added to a bulletin when the notice has been posted that tells of a name first. -/
def complete (posted : Bulletin) (index : Nat) (first guilty : Ident) : Bulletin :=
  { posted with
    redeclared := ((first.name, first.span.left), index) :: posted.redeclared }.extend index
      (posted.excerpt (some guilty.span) "")

theorem complain_of_lookup_eq_none {first guilty : Ident}
    (h : b.redeclared.lookup (first.name, first.span.left) = none) :
    b.complain (.redeclared first guilty) =
      (b.post (b.repetition [first.span])).map (complete · b.notices.length first guilty) := by
  rw [complain, redeclaration, h]
  change (b.post (b.repetition [first.span]) >>= _) = _
  cases b.post (b.repetition [first.span]) <;> rfl

theorem complain_of_lookup_eq_some {first guilty : Ident} {index : Nat}
    (h : b.redeclared.lookup (first.name, first.span.left) = some index) :
    b.complain (.redeclared first guilty) =
      .ok (b.extend index (b.excerpt (some guilty.span) "")) := by
  rw [complain, redeclaration, h]

/-- A complaint does the same to a bulletin with a cap as to the same one without, or it fills the
one with the cap. -/
theorem complain_withCap (hcap : b.cap = noCap) (hroom : b.HasRoom cap) (hb : b.IsQuoting)
    (complaint : Complaint) :
    ∃ b', b.complain complaint = .ok b' ∧ b'.cap = noCap ∧ b'.IsQuoting ∧
      (((b.withCap cap).complain complaint = .ok (b'.withCap cap) ∧ b'.HasRoom cap) ∨
        ∃ full, (b.withCap cap).complain complaint = .error full ∧ full.cap = cap ∧
          full.CutFrom b') := by
  cases complaint with
  | strayReturn span =>
    refine ⟨b.add (b.misplacement span), post_of_noCap hcap _, hcap,
      hb.add (List.cons_ne_nil _ _), ?_⟩
    obtain h | ⟨hposted, hfull⟩ := post_withCap hroom (b.misplacement span)
    · exact .inl h
    · exact .inr ⟨_, hposted, rfl, cutFrom_of_add hb rfl hfull fun _ _ ↦ id⟩
  | redeclared first guilty =>
    cases hlookup : b.redeclared.lookup (first.name, first.span.left) with
    | some index =>
      have hlookup' : (b.withCap cap).redeclared.lookup (first.name, first.span.left) =
          some index := hlookup
      refine ⟨_, complain_of_lookup_eq_some hlookup, hcap, hb.extend _ _,
        .inl ⟨complain_of_lookup_eq_some hlookup', ?_⟩⟩
      simpa [HasRoom, extend] using hroom
    | none =>
      have hlookup' : (b.withCap cap).redeclared.lookup (first.name, first.span.left) = none :=
        hlookup
      have hnotice : (b.add (b.repetition [first.span])).IsQuoting :=
        hb.add (List.cons_ne_nil _ _)
      rw [complain_of_lookup_eq_none hlookup, complain_of_lookup_eq_none hlookup',
        post_of_noCap hcap]
      refine ⟨_, rfl, hcap, hnotice.extend _ _, ?_⟩
      obtain ⟨hposted, hroom'⟩ | ⟨hposted, hfull⟩ :=
        post_withCap hroom (b.repetition [first.span])
      · refine .inl ⟨congrArg _ hposted, ?_⟩
        simpa [HasRoom, complete, extend] using hroom'
      · refine .inr ⟨_, congrArg _ hposted, rfl, cutFrom_of_add hb rfl hfull fun index other h ↦ ?_⟩
        exact Quotes.extend (b := { b.add _ with redeclared := _ }) h _ _

theorem CutFrom.foldlM (h : full.CutFrom b) (complaints : List Complaint)
    (hb : complaints.foldlM complain b = .ok b') : full.CutFrom b' where
  length_eq := h.length_eq
  quoting := h.quoting
  quotes index notice hnotice := by
    have hquotes := (h.quotes index notice hnotice).foldlM complaints
    rwa [hb] at hquotes
  last := h.last

/-- Complaints do the same to a bulletin with a cap as to the same one without, or they fill the one
with the cap. -/
theorem foldlM_complain_withCap (hcap : b.cap = noCap) (hroom : b.HasRoom cap)
    (hb : b.IsQuoting) (complaints : List Complaint) :
    ∃ b', complaints.foldlM complain b = .ok b' ∧
      ((complaints.foldlM complain (b.withCap cap) = .ok (b'.withCap cap) ∧ b'.HasRoom cap) ∨
        ∃ full, complaints.foldlM complain (b.withCap cap) = .error full ∧ full.cap = cap ∧
          full.CutFrom b') := by
  induction complaints generalizing b cap with
  | nil => exact ⟨b, rfl, .inl ⟨rfl, hroom⟩⟩
  | cons complaint more ih =>
    obtain ⟨b', hfirst, hcap', hb', hcapped⟩ := complain_withCap hcap hroom hb complaint
    rw [List.foldlM_cons, List.foldlM_cons, hfirst]
    obtain ⟨hfirst', hroom'⟩ | ⟨full, hfirst', hcap'', hcut⟩ := hcapped
    · rw [hfirst']
      exact ih hcap' hroom' hb'
    · -- the other bulletin takes the remaining complaints by itself
      have hroom' : b'.HasRoom noCap := .inl (Int.le_refl _)
      obtain ⟨b'', hmore, -⟩ := ih hcap' hroom' hb'
      rw [hfirst']
      exact ⟨b'', hmore, .inr ⟨full, rfl, hcap'', hcut.foldlM more hmore⟩⟩

/-! ### Abridged notices -/

theorem Quotes.exists_abridges {index : Nat} (h : b.Quotes index notice)
    (hnotice : notice.excerpts ≠ []) :
    ∃ whole, b.notices[index]? = some whole ∧ notice.Abridges whole := by
  obtain ⟨more, hwhole⟩ := h
  exact ⟨_, hwhole, rfl, rfl, hnotice, List.prefix_append _ _⟩

theorem CutFrom.exists_abridges (h : full.CutFrom b) {index : Nat}
    (hnotice : full.notices[index]? = some notice) :
    ∃ whole, b.notices[index]? = some whole ∧ notice.Abridges whole :=
  (h.quotes index notice hnotice).exists_abridges (h.quoting notice (List.mem_of_getElem? hnotice))

theorem CutFrom.length_pos (h : full.CutFrom b) : 0 < full.notices.length := by
  obtain ⟨notice, hnotice, -⟩ := h.last
  exact List.length_pos_of_mem (List.mem_of_getLast? hnotice)

theorem CutFrom.length_le (h : full.CutFrom b) : full.notices.length ≤ b.notices.length := by
  by_contra hlt
  obtain ⟨whole, hwhole, -⟩ :=
    h.exists_abridges (List.getElem?_eq_getElem (Nat.lt_of_not_le hlt))
  rw [List.getElem?_eq_none (Nat.le_refl _)] at hwhole
  cases hwhole

end Bulletin

/-! ### The check of a program -/

/-- A program is refused with a full bulletin. -/
theorem Options.planProgram_of_error (options : Options) {b full : Bulletin} {program : Program}
    (hcheck : b.check program = .error full) :
    options.planProgram b program =
      Plan.refuse (b.narrate ("Parsed " ++ options.program)) (.error full) := by
  rw [planProgram, hcheck]

/-- A check without a cap takes all complaints. If it has left fewer notices than a cap allows, or
if the cap is one that is never reached, the check with that cap leaves the very same notices, and
the program is refused if there are any. Otherwise the check with the cap gives up when it has left
as many notices as the cap says. They have the headlines of the first notices of the check without a
cap, and their excerpts are the first ones of those; the last has only one. -/
theorem Program.cap_cuts_notices_short (program : Program) (verbose : Bool) (cap : Int)
    (source : Source) :
    ∃ free : Bulletin,
      ((Bulletin.new verbose Bulletin.noCap).setSource source).check program = .ok free ∧
      ((cap ≤ 0 ∨ (free.notices.length : Int) < cap) →
        ∃ checked, ((Bulletin.new verbose cap).setSource source).check program = .ok checked ∧
          checked.notices = free.notices ∧
          ∀ options : Options,
            options.planProgram ((Bulletin.new verbose cap).setSource source) program =
                Plan.refuse (Bulletin.narrate (.new verbose cap) ("Parsed " ++ options.program))
                  (.ok checked) ↔
              free.notices ≠ []) ∧
      (1 ≤ cap ∧ cap ≤ (free.notices.length : Int) →
        ∃ full, ((Bulletin.new verbose cap).setSource source).check program = .error full ∧
          (full.notices.length : Int) = cap ∧
          (∀ (index : Nat) (notice : Notice), full.notices[index]? = some notice →
            ∃ whole, free.notices[index]? = some whole ∧ notice.Abridges whole) ∧
          (∃ notice ∈ full.notices.getLast?, notice.excerpts.length = 1) ∧
          ∀ options : Options,
            options.planProgram ((Bulletin.new verbose cap).setSource source) program =
              Plan.refuse (Bulletin.narrate (.new verbose cap) ("Parsed " ++ options.program))
                (.error full)) := by
  let b := (Bulletin.new verbose Bulletin.noCap).setSource source
  have hroom : b.HasRoom cap := by
    unfold Bulletin.HasRoom
    change cap ≤ 0 ∨ (0 : Int) < cap
    omega
  have hb : b.IsQuoting := fun _ h ↦ (List.not_mem_nil h).elim
  obtain ⟨free, hfree, hcapped⟩ :=
    Bulletin.foldlM_complain_withCap rfl hroom hb program.complaints
  refine ⟨free, hfree, fun hmore ↦ ?_, fun hless ↦ ?_⟩
  · obtain ⟨hchecked, -⟩ | ⟨full, -, hcap, hcut⟩ := hcapped
    · exact ⟨_, hchecked, rfl, fun options ↦ options.planProgram_eq_refuse_iff hchecked⟩
    · have hlength := hcut.length_eq
      have hpos := hcut.length_pos
      have hle := hcut.length_le
      omega
  · obtain ⟨-, hroom'⟩ | ⟨full, hfull, hcap, hcut⟩ := hcapped
    · unfold Bulletin.HasRoom at hroom'
      omega
    · exact ⟨full, hfull, hcut.length_eq.trans hcap, fun index notice ↦ hcut.exists_abridges,
        hcut.last, fun options ↦ options.planProgram_of_error hfull⟩

/-- The third notice fills a bulletin before it quotes the second declaration of its name. -/
theorem Program.cap_cuts_third_notice_short : ∃ (program : Program) (free full : Bulletin),
    Program.read "let a, a; return; function f(b, b) \x7blet b;\x7d let a;".toList =
        .program program ∧
      ((Bulletin.new false Bulletin.noCap).setSource .empty).check program = .ok free ∧
      free.notices.map (fun notice ↦ notice.excerpts.length) = [3, 1, 3] ∧
      ((Bulletin.new false 3).setSource .empty).check program = .error full ∧
      full.notices.map (fun notice ↦ notice.excerpts.length) = [3, 1, 1] ∧
      ∀ (index : Nat) (notice : Notice), full.notices[index]? = some notice →
        ∃ whole, free.notices[index]? = some whole ∧ notice.Abridges whole := by
  have hrun : ((ofText? "let a, a; return; function f(b, b) \x7blet b;\x7d let a;".toList).map
      fun program : Program ↦
        ((Bulletin.reached (((Bulletin.new false Bulletin.noCap).setSource .empty).check
            program)).notices.map fun notice ↦ notice.excerpts.length,
          (Bulletin.reached (((Bulletin.new false 3).setSource .empty).check
            program)).notices.map fun notice ↦ notice.excerpts.length)) =
      some ([3, 1, 3], [3, 1, 1]) := by
    decide +kernel
  obtain ⟨program, htext, hrun⟩ := Option.map_eq_some_iff.1 hrun
  obtain ⟨hfree', hfull'⟩ := Prod.mk.inj hrun
  obtain ⟨free, hfree, -, hcut⟩ := program.cap_cuts_notices_short false 3 .empty
  rw [hfree] at hfree'
  have hlength : free.notices.length = 3 := by
    simpa [Bulletin.reached] using congrArg List.length hfree'
  obtain ⟨full, hfull, -, habridges, -⟩ := hcut ⟨by decide, by omega⟩
  rw [hfull] at hfull'
  exact ⟨program, free, full, read_of_ofText? htext, hfree, hfree', hfull, hfull', habridges⟩

end LateConst
