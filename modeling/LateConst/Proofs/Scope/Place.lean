import Mathlib.Logic.Relation
import LateConst.Proofs.Span.Tree

/-!
# One place, one list of scopes

In a program that has been read every node is visited while one list of scopes is open and no
other: two nodes in different places differ in their spans, so a walk that ends at a node must have
taken the same way to it (`Program.Visits.unique`).
-/

namespace LateConst

/-- From a visited node the walk goes on to a node inside of it. -/
def Visit.Leads (visit next : Visit) : Prop := next ∈ visit.1.visits visit.2

abbrev Visit.Reaches : Visit → Visit → Prop := Relation.ReflTransGen Visit.Leads

namespace Visit

variable {visit next : Visit}

theorem Leads.wellFormed (h : visit.Leads next) (hwf : visit.1.WellFormed) :
    next.1.WellFormed := by
  obtain ⟨-, -, -, -, hinside⟩ := hwf
  exact hinside _ _ h

/-- What is inside of a node lies within its span and does not fill it. -/
theorem Leads.span_lt (h : visit.Leads next) (hwf : visit.1.WellFormed) :
    visit.1.span.left ≤ next.1.span.left ∧ next.1.span.right ≤ visit.1.span.right ∧
      (visit.1.span.left < next.1.span.left ∨ next.1.span.right < visit.1.span.right) := by
  obtain ⟨-, hwithin, hstrict, -, -⟩ := hwf
  have hspan := Span.between_of_mem (hwithin visit.2) (List.mem_map_of_mem h)
  exact ⟨hspan.1, hspan.2.2, hstrict _ _ h⟩

theorem Reaches.wellFormed (h : visit.Reaches next) (hwf : visit.1.WellFormed) :
    next.1.WellFormed := by
  induction h with
  | refl => exact hwf
  | tail _ hstep ih => exact hstep.wellFormed ih

theorem Reaches.span_le (h : visit.Reaches next) (hwf : visit.1.WellFormed) :
    visit.1.span.left ≤ next.1.span.left ∧ next.1.span.right ≤ visit.1.span.right := by
  induction h with
  | refl => exact ⟨Nat.le_refl _, Nat.le_refl _⟩
  | tail hbefore hstep ih =>
    have hspan := hstep.span_lt (Reaches.wellFormed hbefore hwf)
    omega

/-- A walk from one node comes to another with one list of scopes only. -/
theorem Reaches.unique {site inner : Site} {scopes ss ts : List Scope} (hwf : site.WellFormed)
    (hs : Reaches (site, scopes) (inner, ss)) (ht : Reaches (site, scopes) (inner, ts)) :
    ss = ts := by
  induction hwf generalizing scopes with
  | @intro site hpos hwithin hstrict helse hinside ih =>
    have hwf : site.WellFormed := .intro hpos hwithin hstrict helse hinside
    -- a walk cannot come back to where it has set out
    have hback {next : Visit} {us : List Scope} (hstep : Leads (site, scopes) next)
        (hnext : Reaches next (site, us)) : False := by
      have hlt := hstep.span_lt hwf
      have hle := Reaches.span_le hnext (hstep.wellFormed hwf)
      dsimp only at hlt hle
      omega
    obtain heq | ⟨next, hstep, hnext⟩ := hs.cases_head
    · obtain ⟨rfl, rfl⟩ := Prod.mk.inj heq
      obtain heq' | ⟨other, hstep', hother⟩ := ht.cases_head
      · exact (Prod.mk.inj heq').2
      · exact (hback hstep' hother).elim
    · obtain heq' | ⟨other, hstep', hother⟩ := ht.cases_head
      · obtain ⟨rfl, rfl⟩ := Prod.mk.inj heq'
        exact (hback hstep hnext).elim
      · obtain ⟨hposInner, -⟩ := Reaches.wellFormed hnext (hstep.wellFormed hwf)
        have hspan := Reaches.span_le hnext (hstep.wellFormed hwf)
        have hspan' := Reaches.span_le hother (hstep'.wellFormed hwf)
        obtain rfl : next = other :=
          Span.eq_of_between (s := inner.span) (hwithin scopes) hstep hstep' hposInner hspan hspan'
        exact ih scopes next hstep hnext hother

/-- Whether all nodes that a walk comes to from these have a property, if a walk has no more than so
many steps. -/
def allWithin (p : Site → Bool) : Nat → List Visit → Bool
  | 0, layer => layer.isEmpty
  | depth + 1, layer =>
    layer.all (fun visit ↦ p visit.1) &&
      allWithin p depth (layer.flatMap fun visit ↦ visit.1.visits visit.2)

theorem Reaches.of_allWithin (h : visit.Reaches next) {p : Site → Bool} {depth : Nat}
    {layer : List Visit} (hall : allWithin p depth layer) (hmem : visit ∈ layer) :
    p next.1 := by
  induction h using Relation.ReflTransGen.head_induction_on generalizing depth layer with
  | refl =>
    cases depth with
    | zero =>
      obtain rfl := List.isEmpty_iff.1 hall
      cases hmem
    | succ depth => exact List.all_eq_true.1 (Bool.and_eq_true_iff.1 hall).1 next hmem
  | head hstep _ ih =>
    cases depth with
    | zero =>
      obtain rfl := List.isEmpty_iff.1 hall
      cases hmem
    | succ depth =>
      exact ih (Bool.and_eq_true_iff.1 hall).2 (List.mem_flatMap.2 ⟨_, hmem, hstep⟩)

end Visit

namespace Program

variable {text : List Char} {program : Program} {site : Site} {scopes : List Scope}

theorem Visits.exists_reaches (h : program.Visits site scopes) :
    ∃ s ∈ program, Visit.Reaches (.stmt s, [.block program]) (site, scopes) := by
  induction h with
  | top hs => exact ⟨_, hs, .refl⟩
  | inside _ hinner ih =>
    obtain ⟨s, hs, hreaches⟩ := ih
    exact ⟨s, hs, hreaches.tail hinner⟩

theorem Visits.wellFormed (h : program.Visits site scopes)
    (hread : Program.read text = .program program) : site.WellFormed := by
  obtain ⟨s, hs, hreaches⟩ := h.exists_reaches
  exact hreaches.wellFormed ((placed_of_read hread).2 s hs)

/-- While a node is visited one list of scopes is open and no other. -/
theorem Visits.unique {others : List Scope} (hread : Program.read text = .program program)
    (h : program.Visits site scopes) (hother : program.Visits site others) : scopes = others := by
  obtain ⟨⟨lo, hi, hspans⟩, hwf⟩ := placed_of_read hread
  obtain ⟨s, hs, hreaches⟩ := h.exists_reaches
  obtain ⟨t, ht, hreaches'⟩ := hother.exists_reaches
  obtain ⟨hpos, -⟩ := h.wellFormed hread
  have hspan := hreaches.span_le (hwf s hs)
  have hspan' := hreaches'.span_le (hwf t ht)
  obtain rfl : s = t := Span.eq_of_between hspans hs ht hpos hspan hspan'
  exact Visit.Reaches.unique (hwf s hs) hreaches hreaches'

end Program

end LateConst
