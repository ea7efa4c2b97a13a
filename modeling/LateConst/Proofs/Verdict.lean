import LateConst.Command
import LateConst.Proofs.Blame
import LateConst.Proofs.Cap
import LateConst.Proofs.Narration

/-!
# The verdict on a program file

The command can fail in the reading of a program, in its check and in its run, and in each of them
the cap can be reached at the same time. The exit status does not depend on that: it is 1 if reading
or checking has something to say, or if no handler takes a fault of the run, and all notices that
were made by then are put out once (`Options.prepare_verdict`). Nothing is run if only a check is
asked for, and the outcome of a check does not depend on the cap or on what is narrated.
-/

namespace LateConst

/-- What has come of a program file: the exit status, the lines of the error output, and what the
program has printed. -/
structure Verdict where
  status : Nat
  errors : List String
  printed : List String

/-- A plan has been carried out to its end. A plan that crashes, or whose run crashes or goes on
forever, never is. -/
inductive Plan.Ends : Plan → Verdict → Prop
  | stop (lines : List String) (status : Nat) : Ends (.stop lines status) ⟨status, lines, []⟩
  | run {lines : List String} {b : Bulletin} {program : Program} {k : Nat} {world : World}
      {rest : TurnQueue Thread} {error : Option RunError} {status : Nat}
      (hended : program.moment b.verbose .empty k = .ended world rest error)
      (hstatus : (conclude b error).2 = .ok status) :
      Ends (.run lines b program)
        ⟨status, lines ++ world.notes.map Note.text ++ (conclude b error).1, world.printed⟩

theorem Plan.Ends.unique {plan : Plan} {v v' : Verdict} (h : plan.Ends v) (h' : plan.Ends v') :
    v = v' := by
  cases h with
  | stop lines status =>
    cases h'
    rfl
  | run hended hstatus =>
    cases h' with
    | run hended' hstatus' =>
      obtain ⟨rfl, rfl⟩ := Program.ended_unique hended hended'
      obtain rfl := Except.ok.inj (hstatus.symm.trans hstatus')
      rfl

theorem conclude_eq_ok {b : Bulletin} {error : Option RunError} {status : Nat}
    (h : (conclude b error).2 = .ok status) :
    (status = 0 ∧ error = none) ∨
      status = 1 ∧ ∃ fault site, error = some (.uncaught fault site) := by
  rcases error with _ | ⟨fault, site⟩ | crash
  · exact .inl ⟨(Except.ok.inj h).symm, rfl⟩
  · exact .inr ⟨(Except.ok.inj h).symm, fault, site, rfl⟩
  · cases h

/-- Reading or checking finds something wrong with a text. -/
inductive IsFaulty (text : List Char) : Prop
  | confusing {confusion : Confusion} (h : Program.read text = .confused confusion)
  | objectionable {program : Program} (h : Program.read text = .program program)
      (hcomplaints : program.complaints ≠ [])

def Notice.report (notices : List Notice) : List String :=
  String.ofList (List.replicate 60 '*') :: Bulletin.outburst ::
    notices.flatMap fun notice ↦ ["".intercalate (List.replicate 20 "  -"), notice.text]

namespace Bulletin

variable {b : Bulletin}

theorem outcry_of_notices_ne_nil (h : b.notices ≠ []) : b.outcry = Notice.report b.notices := by
  rw [outcry, if_neg (by simpa using h)]
  rfl

/-- An operation says that the bulletin is full if and only if the notices are as many as the cap
says, provided that there are any. -/
def ReportsCap (cap : Int) : Except Bulletin Bulletin → Prop
  | .ok b => b.notices ≠ [] → (b.notices.length : Int) ≠ cap
  | .error b => (b.notices.length : Int) = cap

theorem reportsCap_post (b : Bulletin) (notice : Notice) : ReportsCap b.cap (b.post notice) := by
  unfold post
  dsimp only
  split
  next h => exact h
  next h => exact fun _ ↦ h

def uncaughtNotice (b : Bulletin) (fault : Fault) (site : Option Site) : Notice :=
  ⟨"Uncaught " ++ fault.family.text ++ ": " ++ fault.message,
    (site.map Site.span).toList.map fun span ↦ b.excerpt (some span) fault.family.text, []⟩

theorem conclude_uncaught (b : Bulletin) (fault : Fault) (site : Option Site) :
    conclude b (some (.uncaught fault site)) =
      ((reached (b.uncaughtFault fault site)).outcry, .ok 1) := by
  rw [conclude]
  cases b.uncaughtFault fault site <;> rfl

/-- A fault that no handler has taken is told of, whether or not it fills the bulletin. -/
theorem conclude_uncaught_of_notices_eq_nil (hb : b.notices = []) (fault : Fault)
    (site : Option Site) : conclude b (some (.uncaught fault site)) =
      (Notice.report [b.uncaughtNotice fault site], .ok 1) := by
  have hnotices : (reached (b.uncaughtFault fault site)).notices =
      [b.uncaughtNotice fault site] := by
    rw [uncaughtFault, uncaught, notices_reached_post, hb]
    rfl
  rw [conclude_uncaught, outcry_of_notices_ne_nil (by rw [hnotices]; exact List.cons_ne_nil _ _),
    hnotices]

end Bulletin

/-- All notices are told of, and that the bulletin is full if it is. -/
theorem Plan.refuse_eq_stop {lines : List String} {posted : Except Bulletin Bulletin} {cap : Int}
    (hcap : Bulletin.ReportsCap cap posted) (hnotices : (Bulletin.reached posted).notices ≠ []) :
    Plan.refuse lines posted =
      .stop (lines ++ Notice.report (Bulletin.reached posted).notices ++
        if ((Bulletin.reached posted).notices.length : Int) = cap then surrender else []) 1 := by
  cases posted with
  | ok b =>
    rw [Bulletin.reached] at hnotices ⊢
    rw [refuse, Bulletin.outcry_of_notices_ne_nil hnotices, if_neg (hcap hnotices),
      List.append_nil]
  | error b =>
    have hfull : (b.notices.length : Int) = cap := hcap
    rw [Bulletin.reached] at hnotices ⊢
    rw [refuse, Bulletin.outcry_of_notices_ne_nil hnotices, if_pos hfull]

namespace Options

variable {options : Options} {path : FilePath} {text : List Char} {program : Program}

def bulletin (options : Options) (path : FilePath) (text : List Char) : Bulletin :=
  (Bulletin.new options.isVerbose options.cap).setSource ⟨text, some path⟩

def narration (options : Options) : List String :=
  if options.isVerbose then ["Parsed " ++ options.program] else []

/-- The notices that reading and checking make of a text. -/
def found (options : Options) (path : FilePath) (text : List Char) : List Notice :=
  match Program.read text with
  | .crashed _ => []
  | .confused confusion => (Bulletin.reached
      ((options.bulletin path text).confused confusion.span? confusion.words)).notices
  | .program program => (Bulletin.reached ((options.bulletin path text).check program)).notices

/-- A check says so if it has filled the bulletin, and it has made a notice if and only if there is
something to complain about. -/
theorem reportsCap_check (options : Options) (path : FilePath) (text : List Char)
    (program : Program) :
    Bulletin.ReportsCap options.cap ((options.bulletin path text).check program) ∧
      ((Bulletin.reached ((options.bulletin path text).check program)).notices = [] ↔
        program.complaints = []) := by
  let free := (Bulletin.new options.isVerbose Bulletin.noCap).setSource ⟨text, some path⟩
  have hroom : free.HasRoom options.cap := by
    unfold Bulletin.HasRoom
    change options.cap ≤ 0 ∨ (0 : Int) < options.cap
    omega
  have hnone : program.complaints = [] →
      (options.bulletin path text).check program = .ok (options.bulletin path text) := by
    intro hcomplaints
    rw [Bulletin.check, hcomplaints]
    rfl
  obtain ⟨b, -, ⟨hchecked, hroom'⟩ | ⟨full, hchecked, hcap, hcut⟩⟩ :=
    Bulletin.foldlM_complain_withCap rfl hroom (fun _ h ↦ (List.not_mem_nil h).elim)
      program.complaints
  · have hchecked : (options.bulletin path text).check program = .ok (b.withCap options.cap) :=
      hchecked
    refine ⟨?_, fun hnotices ↦ ?_, fun hcomplaints ↦ ?_⟩
    · rw [hchecked]
      intro hnotices
      have hpos := List.length_pos_of_ne_nil hnotices
      unfold Bulletin.HasRoom at hroom'
      change (b.notices.length : Int) ≠ options.cap
      change 0 < b.notices.length at hpos
      omega
    · rw [hchecked] at hnotices
      exact Bulletin.complaints_eq_nil_of_check rfl hchecked hnotices
    · rw [hnone hcomplaints]
      rfl
  · have hchecked : (options.bulletin path text).check program = .error full := hchecked
    rw [hchecked]
    refine ⟨hcut.length_eq.trans hcap, fun hnotices ↦ ?_, fun hcomplaints ↦ ?_⟩
    · exact absurd hnotices (List.ne_nil_of_length_pos hcut.length_pos)
    · rw [hnone hcomplaints] at hchecked
      cases hchecked

theorem planText_of_complaints_ne_nil (hread : Program.read text = .program program)
    (hcomplaints : program.complaints ≠ []) :
    options.planText path text =
      Plan.refuse options.narration ((options.bulletin path text).check program) := by
  have hnotices : (Bulletin.reached ((options.bulletin path text).check program)).notices ≠ [] :=
    fun hnil ↦ hcomplaints ((options.reportsCap_check path text program).2.1 hnil)
  have hplan : options.planText path text =
      options.planProgram (options.bulletin path text) program := by
    rw [planText, hread]
    rfl
  rw [hplan]
  cases hchecked : (options.bulletin path text).check program with
  | error full => exact options.planProgram_of_error hchecked
  | ok b =>
    rw [hchecked] at hnotices
    exact (options.planProgram_eq_refuse_iff hchecked).2 hnotices

/-- A text with something wrong is not run, and all that has been found is put out. -/
theorem planText_of_isFaulty (options : Options) (path : FilePath) (h : IsFaulty text) :
    options.found path text ≠ [] ∧ ∃ narrated, (narrated = [] ∨ narrated = options.narration) ∧
      options.planText path text =
        .stop (narrated ++ Notice.report (options.found path text) ++
          if ((options.found path text).length : Int) = options.cap then surrender else []) 1 := by
  cases h with
  | @confusing confusion hread =>
    have hfound : options.found path text = (Bulletin.reached ((options.bulletin path text).confused
        confusion.span? confusion.words)).notices := by
      rw [found, hread]
    have hnotices : options.found path text ≠ [] := by
      rw [hfound, Bulletin.confused, Bulletin.notices_reached_post]
      exact List.append_ne_nil_of_right_ne_nil _ (List.cons_ne_nil _ _)
    refine ⟨hnotices, [], .inl rfl, ?_⟩
    rw [hfound] at hnotices ⊢
    have hcap : Bulletin.ReportsCap options.cap
        ((options.bulletin path text).confused confusion.span? confusion.words) :=
      Bulletin.reportsCap_post _ _
    rw [← Plan.refuse_eq_stop hcap hnotices, planText, hread]
    rfl
  | @objectionable program hread hcomplaints =>
    have hfound : options.found path text =
        (Bulletin.reached ((options.bulletin path text).check program)).notices := by
      rw [found, hread]
    obtain ⟨hcap, hnone⟩ := options.reportsCap_check path text program
    have hnotices : options.found path text ≠ [] := by
      rw [hfound]
      exact fun hnil ↦ hcomplaints (hnone.1 hnil)
    refine ⟨hnotices, options.narration, .inr rfl, ?_⟩
    rw [hfound] at hnotices ⊢
    rw [← Plan.refuse_eq_stop hcap hnotices, planText_of_complaints_ne_nil hread hcomplaints]

/-- A text with nothing wrong is run unless only a check is asked for. -/
theorem planText_of_complaints_eq_nil (hread : Program.read text = .program program)
    (hcomplaints : program.complaints = []) :
    options.planText path text =
      if options.check > 0 then .stop (options.narration ++ ["Looks plausible to me."]) 0
      else .run options.narration (options.bulletin path text) program := by
  have hchecked :
      (options.bulletin path text).check program = .ok (options.bulletin path text) := by
    rw [Bulletin.check, hcomplaints]
    rfl
  rw [planText, hread]
  change options.planProgram (options.bulletin path text) program = _
  rw [planProgram, hchecked]
  rfl

/-- The program of a text is fit to be run, and its run ends with a fault that no handler takes. -/
structure EndsUncaught (options : Options) (text : List Char) (world : World) (fault : Fault)
    (site : Option Site) : Prop where
  unchecked : options.check = 0
  faultless : ¬IsFaulty text
  ended : ∃ program k rest, Program.read text = .program program ∧
    program.moment options.isVerbose .empty k = .ended world rest (some (.uncaught fault site))

/-- A text crashes the reader, or there is something wrong with it, or it is a program without
anything wrong. -/
theorem planText_cases (options : Options) (path : FilePath) (text : List Char) :
    (∃ crash, Program.read text = .crashed crash ∧ options.planText path text = .crash crash) ∨
      IsFaulty text ∨
      ¬IsFaulty text ∧
        ∃ program, Program.read text = .program program ∧ program.complaints = [] := by
  by_cases hfaulty : IsFaulty text
  · exact .inr (.inl hfaulty)
  cases hread : Program.read text with
  | crashed crash =>
    refine .inl ⟨crash, rfl, ?_⟩
    rw [planText, hread]
  | confused confusion => exact (hfaulty (.confusing hread)).elim
  | program program =>
    refine .inr (.inr ⟨hfaulty, program, rfl, ?_⟩)
    by_contra hcomplaints
    exact hfaulty (.objectionable hread hcomplaints)

/-- Notices are made if and only if something is wrong with the text. -/
theorem found_ne_nil_iff (options : Options) (path : FilePath) (text : List Char) :
    options.found path text ≠ [] ↔ IsFaulty text := by
  refine ⟨fun hfound ↦ ?_, fun h ↦ (options.planText_of_isFaulty path h).1⟩
  obtain ⟨crash, hread, -⟩ | hfaulty | ⟨-, program, hread, hcomplaints⟩ :=
    options.planText_cases path text
  · rw [found, hread] at hfound
    exact (hfound rfl).elim
  · exact hfaulty
  · rw [found, hread] at hfound
    exact (hfound ((options.reportsCap_check path text program).2.2 hcomplaints)).elim

theorem ends_of_isFaulty (options : Options) (path : FilePath) (h : IsFaulty text) :
    ∃ v narrated, (options.planText path text).Ends v ∧
      v.status = 1 ∧ v.printed = [] ∧ (narrated = [] ∨ narrated = options.narration) ∧
      v.errors = narrated ++ Notice.report (options.found path text) ++
        if ((options.found path text).length : Int) = options.cap then surrender else [] := by
  obtain ⟨-, narrated, hnarrated, hplan⟩ := options.planText_of_isFaulty path h
  rw [hplan]
  exact ⟨_, narrated, .stop _ _, rfl, rfl, hnarrated, rfl⟩

theorem EndsUncaught.ends {world : World} {fault : Fault} {site : Option Site}
    (h : options.EndsUncaught text world fault site) (path : FilePath) :
    ∃ v, (options.planText path text).Ends v ∧ v.status = 1 ∧ v.printed = world.printed ∧
      v.errors = options.narration ++ world.notes.map Note.text ++
        Notice.report [(options.bulletin path text).uncaughtNotice fault site] := by
  obtain ⟨program, k, rest, hread, hended⟩ := h.ended
  have hcomplaints : program.complaints = [] := by
    by_contra hcomplaints
    exact h.faultless (.objectionable hread hcomplaints)
  have hconclude := (options.bulletin path text).conclude_uncaught_of_notices_eq_nil rfl fault site
  have hunchecked : ¬options.check > 0 := by
    rw [h.unchecked]
    exact Nat.lt_irrefl 0
  rw [planText_of_complaints_eq_nil hread hcomplaints, if_neg hunchecked]
  have hstatus :
      (conclude (options.bulletin path text) (some (.uncaught fault site))).2 = .ok 1 := by
    rw [hconclude]
  refine ⟨_, .run hended hstatus, rfl, rfl, ?_⟩
  rw [hconclude]

theorem status_of_ends {v : Verdict} (h : (options.planText path text).Ends v) :
    v.status = 0 ∨ v.status = 1 ∧
      (IsFaulty text ∨ ∃ world fault site, options.EndsUncaught text world fault site) := by
  obtain ⟨crash, -, hplan⟩ | hfaulty | ⟨hfaultless, program, hread, hcomplaints⟩ :=
    options.planText_cases path text
  · rw [hplan] at h
    cases h
  · obtain ⟨v', _, hends, hstatus, -⟩ := options.ends_of_isFaulty path hfaulty
    rw [hends.unique h] at hstatus
    exact .inr ⟨hstatus, .inl hfaulty⟩
  · rw [planText_of_complaints_eq_nil hread hcomplaints] at h
    split at h
    · cases h
      exact .inl rfl
    next hunchecked =>
      cases h with
      | run hended hstatus =>
        obtain ⟨rfl, -⟩ | ⟨rfl, fault, site, rfl⟩ := conclude_eq_ok hstatus
        · exact .inl rfl
        · exact .inr ⟨rfl, .inr ⟨_, fault, site, Nat.eq_zero_of_not_pos hunchecked, hfaultless,
            program, _, _, hread, hended⟩⟩

theorem planText_ne_run (h : 0 < options.check ∨ IsFaulty text) (lines : List String)
    (b : Bulletin) (program : Program) : options.planText path text ≠ .run lines b program := by
  intro hrun
  obtain ⟨crash, -, hplan⟩ | hfaulty | ⟨hfaultless, program', hread, hcomplaints⟩ :=
    options.planText_cases path text
  · cases hplan.symm.trans hrun
  · obtain ⟨-, _, -, hplan⟩ := options.planText_of_isFaulty path hfaulty
    cases hplan.symm.trans hrun
  · have hcheck := h.resolve_right hfaultless
    rw [planText_of_complaints_eq_nil hread hcomplaints, if_pos hcheck] at hrun
    cases hrun

/-- A check has one outcome, whatever the other options are. -/
theorem exists_status_of_check (path : FilePath)
    (hread : ∀ crash, Program.read text ≠ .crashed crash) :
    ∃ status, ∀ options : Options, 0 < options.check →
      ∃ v, (options.planText path text).Ends v ∧ v.status = status := by
  by_cases hfaulty : IsFaulty text
  · refine ⟨1, fun options _ ↦ ?_⟩
    obtain ⟨v, _, hends, hstatus, -⟩ := options.ends_of_isFaulty path hfaulty
    exact ⟨v, hends, hstatus⟩
  · refine ⟨0, fun options hcheck ↦ ?_⟩
    obtain ⟨crash, hcrashed, -⟩ | hfaulty' | ⟨-, program, hprogram, hcomplaints⟩ :=
      options.planText_cases path text
    · exact (hread crash hcrashed).elim
    · exact (hfaulty hfaulty').elim
    · rw [planText_of_complaints_eq_nil hprogram hcomplaints, if_pos hcheck]
      exact ⟨_, .stop _ _, rfl⟩

/-- A file that holds a text under a path that can be one is dealt with in one way, unless something
crashes. Nothing is run if only a check is asked for or if something is wrong with the text. The
exit status is 1 if something is wrong with the text or if the run ends with a fault that no handler
takes, and else 0. In both cases all notices are put out once, whether or not the cap is reached: in
the first there are notices and the program prints nothing; in the second the notice about the fault
follows what has been narrated of the run. A check comes to the same exit status whatever the cap is
and whatever is narrated. -/
theorem prepare_verdict (options : Options) {path : FilePath} {content : ByteArray}
    {text : List Char} (hpath : path.isPossible) (htext : fileText? content = some text) :
    (∀ v v', (options.prepare path (.bytes content)).Ends v →
      (options.prepare path (.bytes content)).Ends v' → v = v') ∧
    (0 < options.check ∨ IsFaulty text →
      ∀ lines b program, options.prepare path (.bytes content) ≠ .run lines b program) ∧
    (∀ v, (options.prepare path (.bytes content)).Ends v → v.status = 0 ∨ v.status = 1) ∧
    ((∃ v, (options.prepare path (.bytes content)).Ends v ∧ v.status = 1) ↔
      IsFaulty text ∨ ∃ world fault site, options.EndsUncaught text world fault site) ∧
    (options.found path text ≠ [] ↔ IsFaulty text) ∧
    (IsFaulty text →
      ∃ v narrated, (options.prepare path (.bytes content)).Ends v ∧ v.printed = [] ∧
        (narrated = [] ∨ narrated = options.narration) ∧
        v.errors = narrated ++ Notice.report (options.found path text) ++
          if ((options.found path text).length : Int) = options.cap then surrender else []) ∧
    (∀ world fault site, options.EndsUncaught text world fault site →
      ∃ v, (options.prepare path (.bytes content)).Ends v ∧ v.printed = world.printed ∧
        v.errors = options.narration ++ world.notes.map Note.text ++
          Notice.report [(options.bulletin path text).uncaughtNotice fault site]) ∧
    ((∀ crash, Program.read text ≠ .crashed crash) → ∃ status, ∀ other : Options,
      0 < other.check → ∃ v, (other.prepare path (.bytes content)).Ends v ∧ v.status = status) := by
  have hplan (options : Options) :
      options.prepare path (.bytes content) = options.planText path text := by
    simp [prepare, hpath, htext]
  simp only [hplan]
  refine ⟨fun v v' h h' ↦ h.unique h', planText_ne_run, fun v h ↦ ?_, ⟨?_, ?_⟩,
    options.found_ne_nil_iff path text, fun h ↦ ?_, fun world fault site h ↦ ?_,
    exists_status_of_check path⟩
  · exact (status_of_ends h).imp_right And.left
  · rintro ⟨v, hends, hstatus⟩
    obtain hzero | ⟨-, hcause⟩ := status_of_ends hends
    · rw [hzero] at hstatus
      cases hstatus
    · exact hcause
  · rintro (h | ⟨world, fault, site, h⟩)
    · obtain ⟨v, _, hends, hstatus, -⟩ := options.ends_of_isFaulty path h
      exact ⟨v, hends, hstatus⟩
    · obtain ⟨v, hends, hstatus, -⟩ := h.ends path
      exact ⟨v, hends, hstatus⟩
  · obtain ⟨v, narrated, hends, -, hprinted, hnarrated, herrors⟩ :=
      options.ends_of_isFaulty path h
    exact ⟨v, narrated, hends, hprinted, hnarrated, herrors⟩
  · obtain ⟨v, hends, -, hprinted, herrors⟩ := h.ends path
    exact ⟨v, hends, hprinted, herrors⟩

/-- The notice about the fault that ends the run fills the bulletin. -/
theorem prepare_verdict_of_throw : ∃ v notice,
    ((⟨"a.bel", 0, 0, 1⟩ : Options).prepare ⟨"", ["a.bel"]⟩
        (.bytes "print 1;\r\nthrow 2;".toUTF8)).Ends v ∧
      v.status = 1 ∧ v.printed = ["1"] ∧ v.errors = Notice.report [notice] := by
  have hrun : ((Program.ofText? "print 1;\nthrow 2;".toList).bind fun program ↦
      (program.moment false .empty 20).error?.bind fun error ↦ error.places?.map fun places ↦
        (places, program.complaints.isEmpty, (program.moment false .empty 20).world.printed,
          (program.moment false .empty 20).world.notes)) =
      some ([⟨9, 17⟩], true, ["1"], []) := by
    decide +kernel
  obtain ⟨program, htext, hrun⟩ := Option.bind_eq_some_iff.1 hrun
  obtain ⟨error, herror, hrun⟩ := Option.bind_eq_some_iff.1 hrun
  obtain ⟨places, hplaces, hrun⟩ := Option.map_eq_some_iff.1 hrun
  obtain ⟨-, hrun⟩ := Prod.mk.inj hrun
  obtain ⟨hcomplaints, hrun⟩ := Prod.mk.inj hrun
  obtain ⟨hprinted, hnotes⟩ := Prod.mk.inj hrun
  obtain ⟨fault, site, rfl, -⟩ := RunError.exists_of_places? hplaces
  obtain ⟨rest, hended⟩ := Progress.exists_eq_ended_of_error? herror
  have hread := Program.read_of_ofText? htext
  have hfaultless : ¬IsFaulty "print 1;\nthrow 2;".toList := by
    rintro (hconfused | ⟨hother, hne⟩)
    · cases hconfused.symm.trans hread
    · cases hother.symm.trans hread
      exact hne (List.isEmpty_iff.1 hcomplaints)
  have hpath : (⟨"", ["a.bel"]⟩ : FilePath).isPossible := by simp [FilePath.isPossible]
  have hcontent : fileText? "print 1;\r\nthrow 2;".toUTF8 = some "print 1;\nthrow 2;".toList := by
    decide +kernel
  obtain ⟨hunique, -, -, hstatus, -, -, huncaught, -⟩ :=
    prepare_verdict ⟨"a.bel", 0, 0, 1⟩ hpath hcontent
  have hends : EndsUncaught ⟨"a.bel", 0, 0, 1⟩ "print 1;\nthrow 2;".toList
      (program.moment false .empty 20).world fault site :=
    ⟨rfl, hfaultless, program, 20, rest, hread, hended⟩
  obtain ⟨v, hv, hshown, herrors⟩ := huncaught _ fault site hends
  obtain ⟨v', hv', hstatus⟩ := hstatus.2 (.inr ⟨_, fault, site, hends⟩)
  rw [hunique v' v hv' hv] at hstatus
  rw [hnotes] at herrors
  exact ⟨v, _, hv, hstatus, hshown.trans hprinted, herrors⟩

end Options

end LateConst
