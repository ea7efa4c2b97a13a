import LateConst.Span

/-!
# Spans in order

Spans that stand between two offsets one after another. The tokens of a text are in order, and so
is every row of parts that a rule of the grammar puts side by side, which is why nodes that stand in
different places never have the same span.
-/

namespace LateConst

/-- The spans stand between two offsets, one after another, and none of them is empty. -/
def Span.Between (lo hi : Nat) : List Span → Prop
  | [] => lo ≤ hi
  | s :: more => lo ≤ s.left ∧ s.left < s.right ∧ Between s.right hi more

namespace Span

@[simp]
theorem between_nil {lo hi : Nat} : Between lo hi [] ↔ lo ≤ hi := Iff.rfl

@[simp]
theorem between_cons {lo hi : Nat} {s : Span} {more : List Span} :
    Between lo hi (s :: more) ↔ lo ≤ s.left ∧ s.left < s.right ∧ Between s.right hi more := Iff.rfl

theorem le_of_between {lo hi : Nat} {spans : List Span} (h : Between lo hi spans) : lo ≤ hi := by
  induction spans generalizing lo with
  | nil => exact h
  | cons s more ih =>
    obtain ⟨hlo, hpos, hmore⟩ := h
    have hle := ih hmore
    omega

theorem between_append {lo hi : Nat} {ss ts : List Span} :
    Between lo hi (ss ++ ts) ↔ ∃ mid, Between lo mid ss ∧ Between mid hi ts := by
  induction ss generalizing lo with
  | nil =>
    constructor
    · exact fun h ↦ ⟨lo, Nat.le_refl lo, h⟩
    · rintro ⟨mid, hle, hts⟩
      cases ts with
      | nil => exact Nat.le_trans hle hts
      | cons s more => exact ⟨Nat.le_trans hle hts.1, hts.2⟩
  | cons s more ih =>
    rw [List.cons_append, between_cons, ih]
    constructor
    · rintro ⟨hlo, hpos, mid, hmore, hts⟩
      exact ⟨mid, ⟨hlo, hpos, hmore⟩, hts⟩
    · rintro ⟨mid, ⟨hlo, hpos, hmore⟩, hts⟩
      exact ⟨hlo, hpos, mid, hmore, hts⟩

theorem between_mono {lo hi lo' hi' : Nat} {spans : List Span} (h : Between lo hi spans)
    (hlo : lo' ≤ lo) (hhi : hi ≤ hi') : Between lo' hi' spans := by
  have hwide : Between lo' hi' ([] ++ (spans ++ [])) :=
    between_append.2 ⟨lo, hlo, between_append.2 ⟨hi, h, hhi⟩⟩
  simpa using hwide

theorem between_of_mem {lo hi : Nat} {spans : List Span} {s : Span} (h : Between lo hi spans)
    (hs : s ∈ spans) : lo ≤ s.left ∧ s.left < s.right ∧ s.right ≤ hi := by
  obtain ⟨before, after, rfl⟩ := List.append_of_mem hs
  obtain ⟨mid, hbefore, hmid, hpos, hafter⟩ := between_append.1 h
  exact ⟨Nat.le_trans (le_of_between hbefore) hmid, hpos, le_of_between hafter⟩

section Rows

variable {α : Type} {f : α → Span} {xs : List α} {lo hi : Nat}

/-- Of several things in order only one can cover a stretch that is not empty. -/
theorem eq_of_between {a b : α} {s : Span} (h : Between lo hi (xs.map f)) (ha : a ∈ xs)
    (hb : b ∈ xs) (hpos : s.left < s.right) (hs : (f a).left ≤ s.left ∧ s.right ≤ (f a).right)
    (hs' : (f b).left ≤ s.left ∧ s.right ≤ (f b).right) : a = b := by
  induction xs generalizing lo with
  | nil => cases ha
  | cons x more ih =>
    obtain ⟨-, -, hmore⟩ := h
    have hlater {y : α} (hy : y ∈ more) : (f x).right ≤ (f y).left :=
      (between_of_mem hmore (List.mem_map_of_mem hy)).1
    obtain rfl | ha' := List.mem_cons.1 ha
    · obtain rfl | hb' := List.mem_cons.1 hb
      · rfl
      · have hle := hlater hb'
        omega
    · obtain rfl | hb' := List.mem_cons.1 hb
      · have hle := hlater ha'
        omega
      · exact ih hmore ha' hb'

/-- Of several things in order only one covers an offset. -/
theorem eq_of_between_at {a b : α} {p : Nat} (h : Between lo hi (xs.map f)) (ha : a ∈ xs)
    (hb : b ∈ xs) (hp : (f a).left ≤ p ∧ p < (f a).right)
    (hp' : (f b).left ≤ p ∧ p < (f b).right) : a = b :=
  eq_of_between (s := ⟨p, p + 1⟩) h ha hb (Nat.lt_succ_self p) hp hp'

theorem nodup_of_between (h : Between lo hi (xs.map f)) : xs.Nodup := by
  induction xs generalizing lo with
  | nil => exact .nil
  | cons x more ih =>
    obtain ⟨-, hpos, hmore⟩ := h
    refine List.nodup_cons.2 ⟨fun hx ↦ ?_, ih hmore⟩
    have hspan := between_of_mem hmore (List.mem_map_of_mem hx)
    omega

theorem pairwise_of_between (h : Between lo hi (xs.map f)) :
    xs.Pairwise fun a b ↦ (f a).right ≤ (f b).left := by
  induction xs generalizing lo with
  | nil => exact .nil
  | cons x more ih =>
    obtain ⟨-, -, hmore⟩ := h
    exact .cons (fun y hy ↦ (between_of_mem hmore (List.mem_map_of_mem hy)).1) (ih hmore)

/-- What things in order consist of is in order as well. -/
theorem between_flatMap {β : Type} {g : β → Span} {parts : α → List β}
    (h : Between lo hi (xs.map f))
    (hparts : ∀ x ∈ xs, Between (f x).left (f x).right ((parts x).map g)) :
    Between lo hi ((xs.flatMap parts).map g) := by
  induction xs generalizing lo with
  | nil => exact h
  | cons x more ih =>
    obtain ⟨hlo, -, hmore⟩ := h
    rw [List.flatMap_cons, List.map_append, between_append]
    exact ⟨(f x).right, between_mono (hparts x List.mem_cons_self) hlo (Nat.le_refl _),
      ih hmore fun y hy ↦ hparts y (List.mem_cons_of_mem x hy)⟩

end Rows

theorem between_sublist {lo hi : Nat} {ss ts : List Span} (h : Between lo hi ts)
    (hsub : ss.Sublist ts) : Between lo hi ss := by
  induction hsub generalizing lo with
  | slnil => exact h
  | cons t _ ih =>
    obtain ⟨hlo, hpos, hmore⟩ := h
    exact ih (between_mono hmore (by omega) (Nat.le_refl hi))
  | cons_cons t _ ih =>
    obtain ⟨hlo, hpos, hmore⟩ := h
    exact ⟨hlo, hpos, ih hmore⟩

end Span

end LateConst
