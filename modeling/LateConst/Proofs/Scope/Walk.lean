import Mathlib.Data.List.Nodup
import Mathlib.Tactic.Choose
import LateConst.Proofs.Scope.Check
import LateConst.Proofs.Span.Parts

/-!
# A walk through a program

A program as a whole is a node as well, a block that stands inside of nothing. Of two nodes that a
walk from there reaches, one is inside of the other or they have nothing of the text in common. A
name therefore belongs to one scope only (`Visit.Opens.unique`), and a walk can take every node
once (`Site.exists_walk`), so that the static check makes no complaint twice.
-/

namespace LateConst

namespace Visit

variable {visit next other : Visit} {x y : Ident}

/-! ### Nodes that share a piece of the text -/

/-- Where a node is inside of another and takes as much of the text, they are the same. -/
theorem Reaches.eq_of_span_le (h : visit.Reaches next) (hwf : visit.1.WellFormed)
    (hleft : next.1.span.left ≤ visit.1.span.left)
    (hright : visit.1.span.right ≤ next.1.span.right) : visit = next := by
  obtain rfl | ⟨inner, hstep, hinner⟩ := h.cases_head
  · rfl
  · have hlt := hstep.span_lt hwf
    have hle := Reaches.span_le hinner (hstep.wellFormed hwf)
    omega

/-- Of two nodes that cover the same offset, one is inside of the other. -/
theorem Reaches.comparable {site : Site} {scopes : List Scope} {p : Nat} (hwf : site.WellFormed)
    (hvisit : Reaches (site, scopes) visit) (hother : Reaches (site, scopes) other)
    (hp : visit.1.span.left ≤ p ∧ p < visit.1.span.right)
    (hp' : other.1.span.left ≤ p ∧ p < other.1.span.right) :
    visit.Reaches other ∨ other.Reaches visit := by
  induction hwf generalizing scopes with
  | intro _ hwithin _ _ hinside ih =>
    obtain rfl | ⟨inner, hstep, hinner⟩ := hvisit.cases_head
    · exact .inl hother
    obtain rfl | ⟨inner', hstep', hinner'⟩ := hother.cases_head
    · exact .inr hvisit
    have hspan := Reaches.span_le hinner (hinside _ _ hstep)
    have hspan' := Reaches.span_le hinner' (hinside _ _ hstep')
    obtain rfl : inner = inner' :=
      Span.eq_of_between_at (hwithin scopes) hstep hstep' (p := p) (by omega) (by omega)
    exact ih scopes inner hstep hinner hinner'

theorem Reaches.eq_of_span_eq {site : Site} {scopes : List Scope} (hwf : site.WellFormed)
    (hvisit : Reaches (site, scopes) visit) (hother : Reaches (site, scopes) other)
    (hspan : visit.1.span = other.1.span) : visit = other := by
  have hwfVisit := hvisit.wellFormed hwf
  obtain ⟨hpos, -⟩ := hvisit.wellFormed hwf
  obtain h | h := Reaches.comparable hwf hvisit hother ⟨Nat.le_refl _, hpos⟩
    (hspan ▸ ⟨Nat.le_refl _, hpos⟩)
  · exact h.eq_of_span_le hwfVisit (hspan ▸ Nat.le_refl _) (hspan ▸ Nat.le_refl _)
  · exact (h.eq_of_span_le (hother.wellFormed hwf) (hspan ▸ Nat.le_refl _)
      (hspan ▸ Nat.le_refl _)).symm

theorem Reaches.ordered (h : visit.Reaches next) (hordered : visit.1.Ordered) :
    next.1.Ordered := by
  induction h with
  | refl => exact hordered
  | tail _ hstep ih =>
    obtain ⟨-, -, hinside⟩ := ih
    exact hinside _ (Site.mem_parts_of_mem_visits hstep)

/-- A node stands right inside of one other node only. -/
theorem Leads.unique {site : Site} {scopes : List Scope} (hwf : site.WellFormed)
    (hvisit : Reaches (site, scopes) visit) (hother : Reaches (site, scopes) other)
    (hnext : visit.Leads next) (hnext' : other.Leads next) : visit = other := by
  have hself {a b : Visit} (ha : Reaches (site, scopes) a) (hstep : a.Leads next)
      (hstep' : b.Leads next) (h : a.Reaches b) : a = b := by
    have hwfA := ha.wellFormed hwf
    obtain rfl | ⟨inner, hinner, hb⟩ := h.cases_head
    · rfl
    -- the other node would be inside of the one that stands right inside of it
    have hlt := hstep'.span_lt (Reaches.wellFormed h hwfA)
    have hle := Reaches.span_le hb (hinner.wellFormed hwfA)
    obtain ⟨hpos, -⟩ := hstep.wellFormed hwfA
    obtain ⟨-, hwithin, -⟩ := hwfA
    obtain rfl : inner = next :=
      Span.eq_of_between (hwithin a.2) hinner hstep hpos (by omega) (by omega)
    omega
  have hspan := hnext.span_lt (hvisit.wellFormed hwf)
  have hspan' := hnext'.span_lt (hother.wellFormed hwf)
  obtain ⟨hpos, -⟩ := hnext.wellFormed (hvisit.wellFormed hwf)
  obtain h | h := Reaches.comparable (p := next.1.span.left) hwf hvisit hother (by omega) (by omega)
  · exact hself hvisit hnext hnext' h
  · exact (hself hother hnext' hnext h).symm

/-- An identifier belongs to one node only. -/
theorem Reaches.ident_unique {site : Site} {scopes : List Scope} (hwf : site.WellFormed)
    (hordered : site.Ordered) (hvisit : Reaches (site, scopes) visit)
    (hother : Reaches (site, scopes) other) (hx : .ident x ∈ visit.1.parts)
    (hy : .ident y ∈ other.1.parts) (hleft : x.span.left = y.span.left) :
    visit = other ∧ x = y := by
  have hown {a : Visit} {z : Ident} (ha : Reaches (site, scopes) a) (hz : .ident z ∈ a.1.parts) :
      a.1.span.left ≤ z.span.left ∧ z.span.left < z.span.right ∧
        z.span.right ≤ a.1.span.right := by
    obtain ⟨-, hparts, -⟩ := ha.ordered hordered
    exact Span.between_of_mem hparts (List.mem_map_of_mem hz)
  have hself {a b : Visit} {z z' : Ident} (ha : Reaches (site, scopes) a)
      (hz : .ident z ∈ a.1.parts) (hb : Reaches (site, scopes) b) (hz' : .ident z' ∈ b.1.parts)
      (heq : z.span.left = z'.span.left) (h : a.Reaches b) : a = b ∧ z = z' := by
    obtain ⟨-, hparts, -⟩ := ha.ordered hordered
    have hspan := hown ha hz
    have hspan' := hown hb hz'
    obtain rfl | ⟨inner, hinner, hreach⟩ := h.cases_head
    · have hsame : Site.ident z = .ident z' :=
        Span.eq_of_between_at hparts hz hz' ⟨Nat.le_refl _, hspan.2.1⟩ (by grind [Site.span])
      exact ⟨rfl, Site.ident.inj hsame⟩
    · have hle := Reaches.span_le hreach (hinner.wellFormed (ha.wellFormed hwf))
      have hsame : Site.ident z = inner.1 :=
        Span.eq_of_between_at hparts hz (Site.mem_parts_of_mem_visits hinner)
          ⟨Nat.le_refl _, hspan.2.1⟩ (by grind [Site.span])
      exact (Site.ne_ident_of_mem_visits hinner hsame.symm).elim
  have hspan := hown hvisit hx
  have hspan' := hown hother hy
  obtain h | h := Reaches.comparable (p := x.span.left) hwf hvisit hother (by omega) (by omega)
  · exact hself hvisit hx hother hy hleft h
  · obtain ⟨rfl, rfl⟩ := hself hother hy hvisit hx hleft.symm h
    exact ⟨rfl, rfl⟩

end Visit

/-! ### Names of scopes -/

namespace Scope

/-- The names of a scope that are declared by the node that opens it. -/
def own : Scope → List Ident
  | block _ => []
  | function params _ => params
  | loop _ ident => [ident]
  | handler ident => [ident]

theorem idents_eq (scope : Scope) :
    scope.idents = scope.own ++ scope.statements.flatMap Stmt.declared := by
  cases scope <;> simp [own, statements]

end Scope

namespace Site

variable {site : Site} {scope : Scope} {scopes : List Scope} {x y : Ident}

theorem declared_sublist_parts (s : Stmt) :
    (s.declared.map Site.ident).Sublist (Site.stmt s).parts := by
  cases s with
  | declare kind items span =>
    change ((items.map Declarator.ident).map Site.ident).Sublist (List.flatMap _ items)
    induction items with
    | nil => exact .slnil
    | cons item more ih =>
      rw [List.flatMap_cons, List.cons_append]
      exact .cons_cons _ (ih.trans (List.sublist_append_right _ _))
  | destructure kind idents init span => exact List.sublist_append_left _ _
  | function ident params body span =>
    exact List.singleton_sublist.2 List.mem_cons_self
  | _ => exact List.nil_sublist _

theorem own_sublist_parts (h : scope ∈ site.opens) :
    (scope.own.map Site.ident ++ scope.statements.map Site.stmt).Sublist site.parts := by
  unfold opens at h
  split at h <;> simp_all [Scope.own, Scope.statements, parts]

/-- The names of a scope stand one after another in the node that opens it. -/
theorem Ordered.between_idents (hordered : site.Ordered) (h : scope ∈ site.opens) :
    Span.Between site.span.left site.span.right (scope.idents.map Ident.span) := by
  obtain ⟨-, hparts, hinside⟩ := hordered
  have hsub := own_sublist_parts h
  have hrow := Span.between_sublist hparts (hsub.map Site.span)
  rw [List.map_append, Span.between_append] at hrow
  obtain ⟨mid, hown, hstatements⟩ := hrow
  rw [Scope.idents_eq, List.map_append, Span.between_append]
  refine ⟨mid, ?_, ?_⟩
  · rwa [List.map_map] at hown
  · rw [List.map_map] at hstatements
    refine Span.between_flatMap hstatements fun s hs ↦ ?_
    obtain ⟨-, hinner, -⟩ := hinside (.stmt s)
      (hsub.subset (List.mem_append_right _ (List.mem_map_of_mem hs)))
    have hdeclared := Span.between_sublist hinner ((declared_sublist_parts s).map Site.span)
    rwa [List.map_map] at hdeclared

/-- A statement that opens a scope does not declare a name of its own there and another one where
it stands in the same place. -/
theorem Ordered.ne_of_mem_own {s : Stmt} (hordered : (Site.stmt s).Ordered)
    (h : scope ∈ (Site.stmt s).opens) (hx : x ∈ scope.own) (hy : y ∈ s.declared) :
    x.span.left ≠ y.span.left := by
  obtain ⟨-, hparts, -⟩ := hordered
  cases s with
  | function ident params body span =>
    obtain rfl := List.mem_singleton.1 h
    obtain rfl := List.mem_singleton.1 hy
    obtain ⟨-, hpos, hmore⟩ := hparts
    have hspan := Span.between_of_mem hmore
      (List.mem_map_of_mem (List.mem_append_left _ (List.mem_map_of_mem hx)))
    dsimp only [Site.span] at hpos hspan
    omega
  | declare _ _ _ => cases h
  | destructure _ _ _ _ => cases h
  | _ => cases hy

end Site

namespace Visit

variable {visit other : Visit} {site : Site} {scopes : List Scope} {scope scope' : Scope}
  {x y : Ident}

/-- A name of a scope belongs to the node that opens the scope or to a statement inside. -/
theorem owner_of_mem_idents (h : scope ∈ visit.1.opens) (hx : x ∈ scope.idents) :
    (x ∈ scope.own ∧ .ident x ∈ visit.1.parts) ∨
      ∃ s, visit.Leads (.stmt s, scope :: visit.2) ∧ x ∈ s.declared ∧
        .ident x ∈ (Site.stmt s).parts := by
  rw [Scope.idents_eq] at hx
  obtain hx | hx := List.mem_append.1 hx
  · refine .inl ⟨hx, (Site.own_sublist_parts h).subset ?_⟩
    exact List.mem_append_left _ (List.mem_map_of_mem hx)
  · obtain ⟨s, hs, hx⟩ := List.mem_flatMap.1 hx
    refine .inr ⟨s, ?_, hx, (Site.declared_sublist_parts s).subset (List.mem_map_of_mem hx)⟩
    obtain hnone | hvisits := Site.visits_of_opens h visit.2
    · rw [hnone] at hs
      cases hs
    · rw [Leads, hvisits]
      exact Scope.mem_visits.2 ⟨s, hs, rfl, rfl⟩

/-- A name belongs to one scope only: where it is declared in scopes that two nodes open, they are
one and the same. -/
theorem Reaches.opens_unique (hwf : site.WellFormed) (hordered : site.Ordered)
    (hvisit : Reaches (site, scopes) visit) (hother : Reaches (site, scopes) other)
    (hscope : scope ∈ visit.1.opens) (hscope' : scope' ∈ other.1.opens) (hx : x ∈ scope.idents)
    (hy : y ∈ scope'.idents) (hleft : x.span.left = y.span.left) : visit = other ∧ x = y := by
  -- the node that opens one scope would be a statement of the other
  have hmixed {a b : Visit} {S T : Scope} {z z' : Ident} {s : Stmt}
      (ha : Reaches (site, scopes) a) (hS : S ∈ a.1.opens) (hz : z ∈ S.own)
      (hstep : b.Leads (.stmt s, T :: b.2)) (hz' : z' ∈ s.declared)
      (heq : z.span.left = z'.span.left) (hsame : a = (.stmt s, T :: b.2)) : False := by
    subst hsame
    exact (ha.ordered hordered).ne_of_mem_own hS hz hz' heq
  obtain ⟨hown, hpart⟩ | ⟨s, hstep, hdeclared, hpart⟩ := owner_of_mem_idents hscope hx <;>
  obtain ⟨hown', hpart'⟩ | ⟨t, hstep', hdeclared', hpart'⟩ := owner_of_mem_idents hscope' hy
  · exact ident_unique hwf hordered hvisit hother hpart hpart' hleft
  · obtain ⟨hsame, -⟩ :=
      ident_unique hwf hordered hvisit (hother.tail hstep') hpart hpart' hleft
    exact (hmixed hvisit hscope hown hstep' hdeclared' hleft hsame).elim
  · obtain ⟨hsame, -⟩ :=
      ident_unique hwf hordered (hvisit.tail hstep) hother hpart hpart' hleft
    exact (hmixed hother hscope' hown' hstep hdeclared hleft.symm hsame.symm).elim
  · obtain ⟨hsame, hident⟩ := ident_unique hwf hordered (hvisit.tail hstep)
      (hother.tail hstep') hpart hpart' hleft
    exact ⟨Leads.unique hwf hvisit hother hstep (hsame ▸ hstep'), hident⟩

def complaints (visit : Visit) : List Complaint :=
  visit.1.opens.flatMap Scope.complaints ++ visit.1.strayReturns visit.2

end Visit

/-! ### The walk -/

/-- A walk takes every node that it reaches once, and the static check complains of what is wrong
with each of them. -/
theorem Site.exists_walk {site : Site} (hwf : site.WellFormed) (scopes : List Scope) :
    ∃ walk : List Visit, walk.Nodup ∧
      (∀ visit, visit ∈ walk ↔ Visit.Reaches (site, scopes) visit) ∧
      site.complaints scopes = walk.flatMap Visit.complaints := by
  induction hwf generalizing scopes with
  | @intro site hpos hwithin hstrict helse hinside ih =>
    have hwf : site.WellFormed := .intro hpos hwithin hstrict helse hinside
    choose! walk hnodup hmem hcomplaints using fun visit hvisit ↦ ih scopes visit hvisit visit.2
    refine ⟨(site, scopes) :: (site.visits scopes).flatMap walk, ?_, fun visit ↦ ?_, ?_⟩
    · refine List.nodup_cons.2 ⟨fun hback ↦ ?_, List.nodup_flatMap.2 ⟨hnodup, ?_⟩⟩
      · obtain ⟨next, hnext, hback⟩ := List.mem_flatMap.1 hback
        have hlead : Visit.Leads (site, scopes) next := hnext
        have hlt := hlead.span_lt hwf
        have hle := Visit.Reaches.span_le ((hmem next hnext _).1 hback) (hinside _ _ hnext)
        dsimp only at hlt hle
        omega
      · refine (Span.pairwise_of_between (hwithin scopes)).imp_of_mem ?_
        intro next other hnext hother hle visit hvisit hvisit'
        have hreach := (hmem next hnext _).1 hvisit
        obtain ⟨hposVisit, -⟩ := Visit.Reaches.wellFormed hreach (hinside _ _ hnext)
        have hspan := Visit.Reaches.span_le hreach (hinside _ _ hnext)
        have hspan' := Visit.Reaches.span_le ((hmem other hother _).1 hvisit') (hinside _ _ hother)
        dsimp only at hspan hspan'
        omega
    · rw [Visit.Reaches, Relation.ReflTransGen.cases_head_iff, List.mem_cons, List.mem_flatMap]
      refine or_congr eq_comm (exists_congr fun next ↦ and_congr_right fun hnext ↦ ?_)
      exact hmem next hnext visit
    · rw [Site.complaints_eq, List.flatMap_cons, List.flatMap_assoc]
      exact congrArg _ (List.flatMap_congr hcomplaints)

namespace Program

variable {text : List Char} {program : Program}

theorem Visits.of_reaches {visit next : Visit} (h : program.Visits visit.1 visit.2)
    (hreach : visit.Reaches next) : program.Visits next.1 next.2 := by
  induction hreach with
  | refl => exact h
  | tail _ hstep ih => exact ih.inside hstep

/-- A list of all nodes of a program, which itself stands there as a block. -/
structure IsWalk (program : Program) (walk : List Visit) : Prop where
  nodup : walk.Nodup
  complaints_eq : program.complaints = walk.flatMap Visit.complaints
  opens_iff : ∀ scope outer,
    program.Opens (scope :: outer) ↔ ∃ site, (site, outer) ∈ walk ∧ scope ∈ site.opens
  visits_iff : ∀ value span scopes, program.Visits (.stmt (.ret value span)) scopes ↔
    (.stmt (.ret value span), scopes) ∈ walk
  eq_of_span_eq : ∀ visit ∈ walk, ∀ other ∈ walk, visit.1.span = other.1.span → visit = other
  eq_of_mem_idents : ∀ visit ∈ walk, ∀ other ∈ walk, ∀ scope ∈ visit.1.opens,
    ∀ scope' ∈ other.1.opens, ∀ x ∈ scope.idents, ∀ y ∈ scope'.idents,
      x.span.left = y.span.left → visit = other ∧ x = y
  between_idents : ∀ visit ∈ walk, ∀ scope ∈ visit.1.opens, ∃ lo hi,
    Span.Between lo hi (scope.idents.map Ident.span)

/-- The program as a block, which reaches from one offset of the text to another. -/
def whole (program : Program) (lo hi : Nat) : Site := .stmt (.block (.mk program ⟨lo, hi⟩))

theorem reaches_whole_iff {lo hi : Nat} {visit : Visit} :
    Visit.Reaches (program.whole lo hi, []) visit ↔
      visit = (program.whole lo hi, []) ∨ program.Visits visit.1 visit.2 := by
  rw [Visit.Reaches, Relation.ReflTransGen.cases_head_iff]
  refine or_congr eq_comm ⟨?_, fun h ↦ ?_⟩
  · rintro ⟨next, hnext, hreach⟩
    obtain ⟨s, hs, hsite, hscopes⟩ := Scope.mem_visits.1 hnext
    have htop : program.Visits next.1 next.2 := by
      rw [hsite, hscopes]
      exact .top hs
    exact htop.of_reaches hreach
  · obtain ⟨s, hs, hreach⟩ := h.exists_reaches
    exact ⟨_, Scope.mem_visits.2 ⟨s, hs, rfl, rfl⟩, hreach⟩

theorem opens_iff_reaches_whole {lo hi : Nat} {scope : Scope} {outer : List Scope} :
    program.Opens (scope :: outer) ↔
      ∃ site, Visit.Reaches (program.whole lo hi, []) (site, outer) ∧ scope ∈ site.opens := by
  constructor
  · intro hopens
    cases hopens with
    | top => exact ⟨program.whole lo hi, .refl, List.mem_singleton_self _⟩
    | @inside site _ _ hvisits hscope => exact ⟨site, reaches_whole_iff.2 (.inr hvisits), hscope⟩
  · rintro ⟨site, hreach, hscope⟩
    obtain heq | hvisits := reaches_whole_iff.1 hreach
    · obtain ⟨rfl, rfl⟩ := Prod.mk.inj heq
      obtain rfl := List.mem_singleton.1 hscope
      exact .top
    · exact .inside hvisits hscope

/-- A program that has been read is a block with its statements in their order, if it is given some
room around them. -/
theorem exists_whole (hread : Program.read text = .program program) :
    ∃ lo hi, (program.whole lo hi).WellFormed ∧ (program.whole lo hi).Ordered := by
  obtain ⟨⟨lo, hi, hspans⟩, hwfs⟩ := placed_of_read hread
  obtain ⟨-, horders⟩ := ordered_of_read hread
  have hle := Span.le_of_between hspans
  have hsites : Span.Between lo hi ((program.map Site.stmt).map Site.span) := by
    rwa [List.map_map]
  refine ⟨lo, hi + 1, ?_, ?_⟩
  · refine Site.wellFormed_of_surrounds (fun _ ↦ Scope.map_fst_visits _ _) hsites (Nat.le_refl lo)
      (Nat.le_succ hi) (.inr (Nat.lt_succ_self hi)) (fun inner hinner ↦ ?_) rfl
    obtain ⟨s, hs, rfl⟩ := List.mem_map.1 hinner
    exact hwfs s hs
  · refine .intro (Nat.lt_succ_of_le hle) (Span.between_mono hsites (Nat.le_refl lo)
      (Nat.le_succ hi)) fun part hpart ↦ ?_
    obtain ⟨s, hs, rfl⟩ := List.mem_map.1 hpart
    exact horders s hs

theorem exists_isWalk (hread : Program.read text = .program program) :
    ∃ walk, program.IsWalk walk := by
  obtain ⟨lo, hi, hwf, hordered⟩ := exists_whole hread
  obtain ⟨walk, hnodup, hmem, hcomplaints⟩ := (program.whole lo hi).exists_walk hwf []
  refine ⟨walk, hnodup, ?_, fun scope outer ↦ ?_, fun value span scopes ↦ ?_, ?_, ?_, ?_⟩
  · rw [← hcomplaints]
    rfl
  · simp only [hmem]
    exact opens_iff_reaches_whole
  · rw [hmem, reaches_whole_iff]
    refine ⟨.inr, fun h ↦ h.resolve_left fun heq ↦ ?_⟩
    cases congrArg Prod.fst heq
  · intro visit hvisit other hother hspan
    exact Visit.Reaches.eq_of_span_eq hwf ((hmem _).1 hvisit) ((hmem _).1 hother) hspan
  · intro visit hvisit other hother scope hscope scope' hscope' x hx y hy hleft
    exact Visit.Reaches.opens_unique hwf hordered ((hmem _).1 hvisit) ((hmem _).1 hother) hscope
      hscope' hx hy hleft
  · intro visit hvisit scope hscope
    have hinner := Visit.Reaches.ordered ((hmem _).1 hvisit) hordered
    exact ⟨_, _, hinner.between_idents hscope⟩

end Program

end LateConst
