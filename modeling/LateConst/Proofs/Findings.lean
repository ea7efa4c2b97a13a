import LateConst.Command
import LateConst.Proofs.Bulletin
import LateConst.Proofs.Run
import LateConst.Proofs.Scope.Walk

/-!
# What the static check finds

A finding is a name that one scope declares more than once, or a `return` outside of all functions.
The static check tells of every finding by a notice of its own, and of nothing else
(`Program.exists_findings`); a program is refused if there are any.
-/

namespace LateConst

/-- Where one element of a list contributes everything there is. -/
theorem flatMap_eq_of_mem {α β : Type} {f : α → List β} {xs : List α} {a : α} (hnodup : xs.Nodup)
    (ha : a ∈ xs) (hothers : ∀ b ∈ xs, b ≠ a → f b = []) : xs.flatMap f = f a := by
  obtain ⟨before, after, rfl⟩ := List.append_of_mem ha
  obtain ⟨-, hafter, hbefore⟩ := List.nodup_append.1 hnodup
  have hbeforeNil : before.flatMap f = [] := List.flatMap_eq_nil_iff.2 fun b hb ↦
    hothers b (List.mem_append_left _ hb) (hbefore b hb a List.mem_cons_self)
  have hafterNil : after.flatMap f = [] := List.flatMap_eq_nil_iff.2 fun b hb ↦
    hothers b (List.mem_append_right _ (List.mem_cons_of_mem a hb)) fun heq ↦
      (List.nodup_cons.1 hafter).1 (heq ▸ hb)
  rw [List.flatMap_append, List.flatMap_cons, hbeforeNil, hafterNil, List.nil_append,
    List.append_nil]

/-! ### Names declared again -/

section Redeclarations

variable {known more : List Ident} {first guilty : Ident} {complaint : Complaint}

theorem mem_of_mem_redeclarations (h : complaint ∈ redeclarations known more) :
    ∃ first, ∃ guilty ∈ more, complaint = .redeclared first guilty := by
  induction more generalizing known with
  | nil => cases h
  | cons ident more ih =>
    have hlater {known : List Ident} (h : complaint ∈ redeclarations known more) :
        ∃ first, ∃ guilty ∈ ident :: more, complaint = .redeclared first guilty := by
      obtain ⟨first, guilty, hguilty, heq⟩ := ih h
      exact ⟨first, guilty, List.mem_cons_of_mem _ hguilty, heq⟩
    rw [redeclarations] at h
    split at h
    next first _ =>
      obtain rfl | h := List.mem_cons.1 h
      · exact ⟨first, ident, List.mem_cons_self, rfl⟩
      · exact hlater h
    · exact hlater h

theorem nodup_redeclarations (known : List Ident) (h : more.Nodup) :
    (redeclarations known more).Nodup := by
  induction more generalizing known with
  | nil => exact .nil
  | cons ident more ih =>
    obtain ⟨hnew, hmore⟩ := List.nodup_cons.1 h
    rw [redeclarations]
    split
    · refine List.nodup_cons.2 ⟨fun hagain ↦ ?_, ih known hmore⟩
      obtain ⟨_, guilty, hguilty, heq⟩ := mem_of_mem_redeclarations hagain
      cases heq
      exact hnew hguilty
    · exact ih _ hmore

/-- Of the declarations of one name, the earliest is never blamed and all others are. -/
theorem filterMap_guilty?_redeclarations (known more : List Ident) (first : Ident) :
    (redeclarations known more).filterMap (Complaint.guilty? first) =
      match known.find? (·.name == first.name), more.filter (·.name == first.name) with
      | some earliest, others => if earliest = first then others else []
      | none, earliest :: others => if earliest = first then others else []
      | none, [] => [] := by
  induction more generalizing known with
  | nil => cases known.find? (·.name == first.name) <;> simp [redeclarations]
  | cons ident more ih =>
    rw [redeclarations, List.filter_cons]
    by_cases hname : ident.name = first.name
    · rw [hname]
      cases hknown : known.find? (·.name == first.name) with
      | some earliest =>
        by_cases hfirst : earliest = first <;>
          simp [Complaint.guilty?, ih, hknown, hfirst]
      | none => simp [ih, hknown, hname]
    · have hother : ¬first.name = ident.name := fun heq ↦ hname heq.symm
      cases hearlier : known.find? (·.name == ident.name) with
      | some earliest =>
        have hfound := List.find?_some hearlier
        have hfirst : earliest ≠ first := by
          rintro rfl
          exact hother (by simpa using hfound)
        simp [Complaint.guilty?, ih, hname, hfirst]
      | none => simp [ih, hname, List.find?_append]

end Redeclarations

namespace Scope

def namesakes (scope : Scope) (name : String) : List Ident :=
  scope.idents.filter (·.name == name)

theorem mem_namesakes_iff {scope : Scope} {name : String} {ident : Ident} :
    ident ∈ scope.namesakes name ↔ ident ∈ scope.idents ∧ ident.name = name := by
  simp [namesakes]

theorem filterMap_complaints {scope : Scope} {first : Ident} {others : List Ident}
    (h : scope.namesakes first.name = first :: others) :
    scope.complaints.filterMap (Complaint.guilty? first) = others := by
  rw [namesakes] at h
  rw [complaints, filterMap_guilty?_redeclarations, h]
  simp

theorem redeclared_mem_complaints_iff {scope : Scope} {first guilty : Ident} :
    .redeclared first guilty ∈ scope.complaints ↔
      ∃ others, scope.namesakes first.name = first :: others ∧ guilty ∈ others := by
  have hguilty : .redeclared first guilty ∈ scope.complaints ↔
      guilty ∈ scope.complaints.filterMap (Complaint.guilty? first) := by
    rw [List.mem_filterMap]
    simp [Complaint.guilty?_eq_some_iff]
  rw [hguilty, complaints, filterMap_guilty?_redeclarations, namesakes]
  cases scope.idents.filter (·.name == first.name) with
  | nil => simp
  | cons earliest others => by_cases h : earliest = first <;> simp [h]

theorem mem_idents_of_namesakes_eq {scope : Scope} {first : Ident} {others : List Ident}
    {name : String} (h : scope.namesakes name = first :: others) :
    first ∈ scope.idents ∧ first.name = name :=
  mem_namesakes_iff.1 (h ▸ List.mem_cons_self)

end Scope

/-! ### Complaints at a node -/

theorem Site.mem_strayReturns_iff {site : Site} {scopes : List Scope} {complaint : Complaint} :
    complaint ∈ site.strayReturns scopes ↔ ∃ value span, site = .stmt (.ret value span) ∧
      scopes.any Scope.isFunction = false ∧ complaint = .strayReturn span := by
  unfold strayReturns
  split
  next value span => cases scopes.any Scope.isFunction <;> simp
  next hother =>
    refine ⟨fun h ↦ (by cases h), ?_⟩
    rintro ⟨value, span, rfl, -⟩
    exact (hother value span rfl).elim

theorem Site.opens_eq_of_mem {site : Site} {scope : Scope} (h : scope ∈ site.opens) :
    site.opens = [scope] := by
  unfold opens at h ⊢
  split at h <;> simp_all

namespace Visit

variable {visit : Visit} {scope : Scope} {complaint : Complaint} {first guilty : Ident}
  {span : Span}

theorem exists_of_mem_opens (h : complaint ∈ visit.1.opens.flatMap Scope.complaints) :
    ∃ first guilty, complaint = .redeclared first guilty := by
  obtain ⟨scope, -, hscope⟩ := List.mem_flatMap.1 h
  obtain ⟨first, guilty, -, heq⟩ := mem_of_mem_redeclarations hscope
  exact ⟨first, guilty, heq⟩

theorem redeclared_mem_complaints_iff : .redeclared first guilty ∈ visit.complaints ↔
    ∃ scope ∈ visit.1.opens, .redeclared first guilty ∈ scope.complaints := by
  rw [complaints, List.mem_append, List.mem_flatMap, Site.mem_strayReturns_iff]
  simp

/-- Nothing is said twice about the scopes that a node opens and the node itself. -/
theorem nodup_complaints (h : ∀ scope ∈ visit.1.opens, scope.idents.Nodup) :
    visit.complaints.Nodup := by
  refine List.nodup_append.2 ⟨?_, ?_, fun complaint hopens other hstray heq ↦ ?_⟩
  · rcases hopens : visit.1.opens with _ | ⟨scope, more⟩
    · exact .nil
    · have hscope : scope ∈ visit.1.opens := hopens ▸ List.mem_cons_self
      rw [← hopens, Site.opens_eq_of_mem hscope, List.flatMap_singleton]
      exact nodup_redeclarations [] (h scope hscope)
  · unfold Site.strayReturns
    split
    · split <;> simp
    · exact .nil
  · obtain ⟨_, _, rfl⟩ := exists_of_mem_opens hopens
    obtain ⟨_, _, -, -, rfl⟩ := Site.mem_strayReturns_iff.1 hstray
    cases heq

theorem strayReturn_mem_complaints_iff : .strayReturn span ∈ visit.complaints ↔
    ∃ value, visit.1 = .stmt (.ret value span) ∧ visit.2.any Scope.isFunction = false := by
  have hopens : .strayReturn span ∉ visit.1.opens.flatMap Scope.complaints := by
    intro h
    obtain ⟨_, _, heq⟩ := exists_of_mem_opens h
    cases heq
  rw [complaints, List.mem_append, or_iff_right hopens, Site.mem_strayReturns_iff]
  simp

end Visit

namespace Program

variable {program : Program} {walk : List Visit}

namespace IsWalk

variable {visit other : Visit} {scope scope' : Scope} {first first' guilty : Ident}
  {others others' : List Ident}

/-- The declarations of a name in different scopes do not begin in the same place. -/
theorem eq_of_namesakes_eq (h : program.IsWalk walk) (hvisit : visit ∈ walk) (hother : other ∈ walk)
    (hscope : scope ∈ visit.1.opens) (hscope' : scope' ∈ other.1.opens) {name name' : String}
    (hnames : scope.namesakes name = first :: others)
    (hnames' : scope'.namesakes name' = first' :: others')
    (hleft : first.span.left = first'.span.left) : visit = other ∧ first = first' :=
  h.eq_of_mem_idents visit hvisit other hother scope hscope scope' hscope' first
    (Scope.mem_idents_of_namesakes_eq hnames).1 first' (Scope.mem_idents_of_namesakes_eq hnames').1
    hleft

theorem nodup_idents (h : program.IsWalk walk) (hvisit : visit ∈ walk)
    (hscope : scope ∈ visit.1.opens) : scope.idents.Nodup := by
  obtain ⟨lo, hi, hspans⟩ := h.between_idents visit hvisit scope hscope
  exact Span.nodup_of_between hspans

/-- The static check makes no complaint twice. -/
theorem nodup_complaints (h : program.IsWalk walk) : program.complaints.Nodup := by
  rw [h.complaints_eq]
  refine List.nodup_flatMap.2 ⟨fun visit hvisit ↦ ?_, h.nodup.imp_of_mem ?_⟩
  · exact Visit.nodup_complaints fun scope ↦ h.nodup_idents hvisit
  · intro visit other hvisit hother hne complaint hmem hmem'
    apply hne
    cases complaint with
    | redeclared first guilty =>
      obtain ⟨scope, hscope, hfirst⟩ := Visit.redeclared_mem_complaints_iff.1 hmem
      obtain ⟨scope', hscope', hfirst'⟩ := Visit.redeclared_mem_complaints_iff.1 hmem'
      obtain ⟨_, hnames, -⟩ := Scope.redeclared_mem_complaints_iff.1 hfirst
      obtain ⟨_, hnames', -⟩ := Scope.redeclared_mem_complaints_iff.1 hfirst'
      exact (h.eq_of_namesakes_eq hvisit hother hscope hscope' hnames hnames' rfl).1
    | strayReturn span =>
      obtain ⟨_, hret, -⟩ := Visit.strayReturn_mem_complaints_iff.1 hmem
      obtain ⟨_, hret', -⟩ := Visit.strayReturn_mem_complaints_iff.1 hmem'
      exact h.eq_of_span_eq visit hvisit other hother (by rw [hret, hret']; rfl)

/-- Only one node has anything to say about a name. -/
theorem filterMap_guilty?_complaints (h : program.IsWalk walk) (hvisit : visit ∈ walk)
    (hscope : scope ∈ visit.1.opens) (hnames : scope.namesakes first.name = first :: others) :
    program.complaints.filterMap (Complaint.guilty? first) = others := by
  have hvisitOnly : visit.complaints.filterMap (Complaint.guilty? first) = others := by
    have hstrays : (visit.1.strayReturns visit.2).filterMap (Complaint.guilty? first) = [] := by
      refine List.filterMap_eq_nil_iff.2 fun complaint hcomplaint ↦ ?_
      obtain ⟨_, _, -, -, rfl⟩ := Site.mem_strayReturns_iff.1 hcomplaint
      rfl
    rw [Visit.complaints, Site.opens_eq_of_mem hscope, List.flatMap_singleton,
      List.filterMap_append, hstrays, List.append_nil, Scope.filterMap_complaints hnames]
  have hothers {other : Visit} (hother : other ∈ walk) (hne : other ≠ visit) :
      other.complaints.filterMap (Complaint.guilty? first) = [] := by
    refine List.filterMap_eq_nil_iff.2 fun complaint hcomplaint ↦ ?_
    refine Option.eq_none_iff_forall_ne_some.2 fun guilty hguilty ↦ hne ?_
    obtain rfl := Complaint.guilty?_eq_some_iff.1 hguilty
    obtain ⟨scope', hscope', hfirst'⟩ := Visit.redeclared_mem_complaints_iff.1 hcomplaint
    obtain ⟨_, hnames', -⟩ := Scope.redeclared_mem_complaints_iff.1 hfirst'
    exact (h.eq_of_namesakes_eq hother hvisit hscope' hscope hnames' hnames rfl).1
  rw [h.complaints_eq, List.filterMap_flatMap,
    flatMap_eq_of_mem h.nodup hvisit fun other hother hne ↦ hothers hother hne, hvisitOnly]

theorem name_mem_topics_iff (h : program.IsWalk walk) :
    .name first ∈ topics program.complaints ↔ ∃ visit ∈ walk, ∃ scope ∈ visit.1.opens,
      ∃ guilty others, scope.namesakes first.name = first :: guilty :: others := by
  rw [mem_topics_iff, h.complaints_eq]
  constructor
  · rintro ⟨complaint, hcomplaint, htopic⟩
    obtain ⟨visit, hvisit, hcomplaint⟩ := List.mem_flatMap.1 hcomplaint
    cases complaint with
    | strayReturn span => cases htopic
    | redeclared first guilty =>
      cases htopic
      obtain ⟨scope, hscope, hfirst⟩ := Visit.redeclared_mem_complaints_iff.1 hcomplaint
      obtain ⟨others, hnames, hguilty⟩ := Scope.redeclared_mem_complaints_iff.1 hfirst
      obtain ⟨other, more, rfl⟩ := List.exists_cons_of_ne_nil (List.ne_nil_of_mem hguilty)
      exact ⟨visit, hvisit, scope, hscope, other, more, hnames⟩
  · rintro ⟨visit, hvisit, scope, hscope, guilty, others, hnames⟩
    refine ⟨.redeclared first guilty, List.mem_flatMap.2 ⟨visit, hvisit, ?_⟩, rfl⟩
    refine Visit.redeclared_mem_complaints_iff.2 ⟨scope, hscope, ?_⟩
    exact Scope.redeclared_mem_complaints_iff.2 ⟨_, hnames, List.mem_cons_self⟩

theorem strayReturn_mem_topics_iff (h : program.IsWalk walk) {span : Span} :
    .strayReturn span ∈ topics program.complaints ↔ ∃ value scopes,
      (.stmt (.ret value span), scopes) ∈ walk ∧ scopes.any Scope.isFunction = false := by
  rw [mem_topics_iff, h.complaints_eq]
  constructor
  · rintro ⟨complaint, hcomplaint, htopic⟩
    obtain ⟨⟨site, scopes⟩, hvisit, hcomplaint⟩ := List.mem_flatMap.1 hcomplaint
    cases complaint with
    | redeclared first guilty => cases htopic
    | strayReturn span =>
      cases htopic
      obtain ⟨value, rfl, hfunction⟩ := Visit.strayReturn_mem_complaints_iff.1 hcomplaint
      exact ⟨value, scopes, hvisit, hfunction⟩
  · rintro ⟨value, scopes, hvisit, hfunction⟩
    refine ⟨.strayReturn span, List.mem_flatMap.2 ⟨_, hvisit, ?_⟩, rfl⟩
    exact Visit.strayReturn_mem_complaints_iff.2 ⟨value, rfl, hfunction⟩

end IsWalk

end Program

/-! ### Findings -/

/-- What can be wrong with a program before it runs. -/
inductive Finding where
  /-- A name that a scope, which stands in others, declares more than once. -/
  | repeated (scope : Scope) (outer : List Scope) (name : String)
  /-- A `return` that stands in no function. -/
  | strayReturn (value : Option Expr) (span : Span)

def Program.Finds (program : Program) : Finding → Prop
  | .repeated scope outer name =>
    program.Opens (scope :: outer) ∧ 2 ≤ (scope.namesakes name).length
  | .strayReturn value span => ∃ scopes,
    program.Visits (.stmt (.ret value span)) scopes ∧ scopes.any Scope.isFunction = false

namespace Finding

def notice (b : Bulletin) : Finding → Notice
  | repeated scope _ name => b.repetition ((scope.namesakes name).map Ident.span)
  | strayReturn _ span => b.misplacement span

def topic? : Finding → Option Topic
  | repeated scope _ name => (scope.namesakes name).head?.map Topic.name
  | strayReturn _ span => some (.strayReturn span)

end Finding

namespace Program.IsWalk

variable {program : Program} {walk : List Visit} {finding other : Finding} {topic : Topic}

/-- Every topic of the complaints is a finding, about which the notices say the same. -/
theorem exists_finding (h : program.IsWalk walk) (htopic : topic ∈ topics program.complaints) :
    ∃ finding, program.Finds finding ∧ finding.topic? = some topic ∧
      ∀ b, topic.notice b program.complaints = finding.notice b := by
  cases topic with
  | name first =>
    obtain ⟨visit, hvisit, scope, hscope, guilty, others, hnames⟩ := h.name_mem_topics_iff.1 htopic
    refine ⟨.repeated scope visit.2 first.name, ⟨?_, ?_⟩, ?_, fun b ↦ ?_⟩
    · exact (h.opens_iff scope visit.2).2 ⟨visit.1, hvisit, hscope⟩
    · simp [hnames]
    · simp [Finding.topic?, hnames]
    · rw [Topic.notice, Finding.notice, hnames,
        h.filterMap_guilty?_complaints hvisit hscope hnames, ← List.map_cons]
  | strayReturn span =>
    obtain ⟨value, scopes, hvisit, hfunction⟩ := h.strayReturn_mem_topics_iff.1 htopic
    exact ⟨.strayReturn value span, ⟨scopes, (h.visits_iff value span scopes).2 hvisit, hfunction⟩,
      rfl, fun b ↦ rfl⟩

theorem exists_topic (h : program.IsWalk walk) (hfinding : program.Finds finding) :
    ∃ topic ∈ topics program.complaints, finding.topic? = some topic := by
  cases finding with
  | repeated scope outer name =>
    obtain ⟨hopens, hlength⟩ := hfinding
    obtain ⟨site, hsite, hscope⟩ := (h.opens_iff scope outer).1 hopens
    match hnames : scope.namesakes name, hlength with
    | first :: guilty :: others, _ =>
      obtain ⟨-, rfl⟩ := Scope.mem_idents_of_namesakes_eq hnames
      refine ⟨.name first, h.name_mem_topics_iff.2 ?_, by simp [Finding.topic?, hnames]⟩
      exact ⟨_, hsite, scope, hscope, guilty, others, hnames⟩
  | strayReturn value span =>
    obtain ⟨scopes, hvisits, hfunction⟩ := hfinding
    refine ⟨.strayReturn span, h.strayReturn_mem_topics_iff.2 ?_, rfl⟩
    exact ⟨value, scopes, (h.visits_iff value span scopes).1 hvisits, hfunction⟩

/-- Findings on the same topic are the same. -/
theorem eq_of_topic?_eq (h : program.IsWalk walk) (hfinding : program.Finds finding)
    (hother : program.Finds other) (htopic : finding.topic? = other.topic?) :
    finding = other := by
  cases finding with
  | repeated scope outer name =>
    obtain ⟨hopens, hlength⟩ := hfinding
    obtain ⟨site, hsite, hscope⟩ := (h.opens_iff scope outer).1 hopens
    obtain ⟨first, others, hnames⟩ :=
      List.exists_cons_of_length_pos (Nat.lt_of_lt_of_le Nat.two_pos hlength)
    obtain ⟨-, rfl⟩ := Scope.mem_idents_of_namesakes_eq hnames
    cases other with
    | strayReturn value span => simp [Finding.topic?, hnames] at htopic
    | repeated scope' outer' name' =>
      obtain ⟨hopens', hlength'⟩ := hother
      obtain ⟨site', hsite', hscope'⟩ := (h.opens_iff scope' outer').1 hopens'
      obtain ⟨first', others', hnames'⟩ :=
        List.exists_cons_of_length_pos (Nat.lt_of_lt_of_le Nat.two_pos hlength')
      obtain ⟨-, rfl⟩ := Scope.mem_idents_of_namesakes_eq hnames'
      obtain rfl : first = first' := by simpa [Finding.topic?, hnames, hnames'] using htopic
      obtain ⟨hsame, -⟩ := h.eq_of_namesakes_eq hsite hsite' hscope hscope' hnames hnames' rfl
      obtain ⟨rfl, rfl⟩ := Prod.mk.inj hsame
      rw [Site.opens_eq_of_mem hscope] at hscope'
      obtain rfl := List.mem_singleton.1 hscope'
      rfl
  | strayReturn value span =>
    obtain ⟨scopes, hvisits, -⟩ := hfinding
    cases other with
    | repeated scope outer name =>
      obtain ⟨first, -, hfirst⟩ := Option.map_eq_some_iff.1 htopic.symm
      cases hfirst
    | strayReturn value' span' =>
      obtain ⟨scopes', hvisits', -⟩ := hother
      obtain rfl : span = span' := by simpa [Finding.topic?] using htopic
      have hsame := h.eq_of_span_eq _ ((h.visits_iff _ _ _).1 hvisits) _
        ((h.visits_iff _ _ _).1 hvisits') rfl
      cases hsame
      rfl

/-- Two names that begin in the same place are the same. -/
theorem eq_of_name_mem_topics {first first' : Ident} (h : program.IsWalk walk)
    (hfirst : .name first ∈ topics program.complaints)
    (hfirst' : .name first' ∈ topics program.complaints)
    (hleft : first.span.left = first'.span.left) : first = first' := by
  obtain ⟨visit, hvisit, scope, hscope, _, _, hnames⟩ := h.name_mem_topics_iff.1 hfirst
  obtain ⟨visit', hvisit', scope', hscope', _, _, hnames'⟩ := h.name_mem_topics_iff.1 hfirst'
  exact (h.eq_of_namesakes_eq hvisit hvisit' hscope hscope' hnames hnames' hleft).2

end Program.IsWalk

/-- A program is refused if the check has left any notices. -/
theorem Options.planProgram_eq_refuse_iff (options : Options) {b checked : Bulletin}
    {program : Program} (hcheck : b.check program = .ok checked) :
    options.planProgram b program =
      Plan.refuse (b.narrate ("Parsed " ++ options.program)) (.ok checked) ↔
      checked.notices ≠ [] := by
  unfold planProgram
  rw [hcheck]
  cases hnotices : checked.notices with
  | nil =>
    simp only [hnotices, List.isEmpty_nil]
    by_cases hoption : options.check > 0 <;> simp [hoption, Plan.refuse]
  | cons notice more => simp [hnotices]

namespace Program

variable {text : List Char} {program : Program}

/-- The static check is exact: in a bulletin with enough room it puts one notice for every name that
a scope declares more than once, which quotes all declarations of the name in the order of the text,
and one for every `return` outside of all functions. Nothing else is said and nothing twice, and
the program is refused if anything is said at all. -/
theorem exists_findings (hread : Program.read text = .program program) :
    ∃ findings : List Finding, findings.Nodup ∧
      (∀ finding, finding ∈ findings ↔ program.Finds finding) ∧
      (∀ scope outer, program.Opens (scope :: outer) →
        scope.idents.Pairwise fun x y ↦ x.span.right ≤ y.span.left) ∧
      ∀ b : Bulletin, b.notices = [] → b.redeclared = [] →
        (b.cap ≤ 0 ∨ (findings.length : Int) < b.cap) →
        ∃ checked, b.check program = .ok checked ∧
          checked.notices = findings.map (Finding.notice b) ∧
          ∀ options : Options, options.planProgram b program =
            Plan.refuse (b.narrate ("Parsed " ++ options.program)) (.ok checked) ↔
              findings ≠ [] := by
  obtain ⟨walk, h⟩ := exists_isWalk hread
  have : Nonempty Finding := ⟨.strayReturn none default⟩
  choose! finding hfinds htopic hnotice using
    fun topic (hmem : topic ∈ topics program.complaints) ↦ h.exists_finding hmem
  refine ⟨(topics program.complaints).map finding, ?_, fun f ↦ ?_, fun scope outer hopens ↦ ?_,
    fun b hnotices hredeclared hroom ↦ ?_⟩
  · refine (nodup_topics _).map_on fun topic hmem topic' hmem' heq ↦ ?_
    have hsame := htopic topic hmem
    rw [heq, htopic topic' hmem'] at hsame
    exact (Option.some.inj hsame).symm
  · rw [List.mem_map]
    constructor
    · rintro ⟨topic, hmem, rfl⟩
      exact hfinds topic hmem
    · intro hf
      obtain ⟨topic, hmem, hf'⟩ := h.exists_topic hf
      exact ⟨topic, hmem,
        h.eq_of_topic?_eq (hfinds topic hmem) hf ((htopic topic hmem).trans hf'.symm)⟩
  · obtain ⟨site, hsite, hscope⟩ := (h.opens_iff scope outer).1 hopens
    obtain ⟨lo, hi, hspans⟩ := h.between_idents _ hsite scope hscope
    exact Span.pairwise_of_between hspans
  · rw [List.length_map] at hroom
    have hkeys (x y : Ident) (hx : .name x ∈ topics program.complaints)
        (hy : .name y ∈ topics program.complaints) (_ : x.name = y.name)
        (hleft : x.span.left = y.span.left) : x = y := h.eq_of_name_mem_topics hx hy hleft
    obtain ⟨checked, hchecked, htells⟩ :=
      Bulletin.exists_foldlM_complain hnotices hredeclared h.nodup_complaints hkeys hroom
    have hmap : checked.notices =
        ((topics program.complaints).map finding).map (Finding.notice b) := by
      rw [htells.notices, List.map_map]
      exact List.map_congr_left fun topic hmem ↦ hnotice topic hmem b
    refine ⟨checked, hchecked, hmap, fun options ↦ ?_⟩
    rw [options.planProgram_eq_refuse_iff hchecked, hmap]
    simp

/-- Two names are declared three times in one scope each, and a `return` stands in a block. -/
theorem exists_findings_in_nested_scopes :
    ∃ (program : Program) (findings : List Finding) (checked : Bulletin),
      Program.read
          "let a, a; function f(b, b) \x7blet b;\x7d if (a) \x7breturn;\x7d let a;".toList =
        .program program ∧
      (∀ finding, finding ∈ findings ↔ program.Finds finding) ∧
      (Bulletin.new false Bulletin.noCap).check program = .ok checked ∧
      checked.notices = findings.map (Finding.notice (Bulletin.new false Bulletin.noCap)) ∧
      checked.notices.map (fun notice ↦ notice.excerpts.length) = [3, 3, 1] := by
  have hrun : ((ofText?
        "let a, a; function f(b, b) \x7blet b;\x7d if (a) \x7breturn;\x7d let a;".toList).bind
      fun program ↦ ((Bulletin.new false Bulletin.noCap).check program).toOption.map
        fun checked ↦ checked.notices.map fun notice ↦ notice.excerpts.length) =
      some [3, 3, 1] := by
    decide +kernel
  obtain ⟨program, htext, hrun⟩ := Option.bind_eq_some_iff.1 hrun
  have hread := read_of_ofText? htext
  obtain ⟨findings, -, hmem, -, hcheck⟩ := exists_findings hread
  obtain ⟨checked, hchecked, hnotices, -⟩ :=
    hcheck (Bulletin.new false Bulletin.noCap) rfl rfl (.inl (Int.le_refl 0))
  rw [hchecked] at hrun
  exact ⟨program, findings, checked, hread, hmem, hchecked, hnotices, Option.some.inj hrun⟩

end Program

end LateConst
