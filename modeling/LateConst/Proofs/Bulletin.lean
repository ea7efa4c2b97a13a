import Mathlib.Data.List.Induction
import Mathlib.Data.List.Nodup
import LateConst.Complaint

/-!
# What a bulletin tells

A bulletin that takes complaints one after another makes one notice of each topic, in the order in
which the topics come up (`Bulletin.exists_foldlM_complain`): a name with its first declaration is a
topic, and so is every stray `return`. The notice about a name quotes its first declaration and then
the others.
-/

namespace LateConst

inductive Topic where
  /-- A name, by its first declaration. -/
  | name (first : Ident)
  | strayReturn (span : Span)
  deriving DecidableEq

namespace Bulletin

def repetition (b : Bulletin) (spans : List Span) : Notice :=
  ⟨"This name is declared more than once in the same scope.",
    (spans.take 1).map (fun span ↦ b.excerpt (some span) "Earliest declaration") ++
      (spans.drop 1).map fun span ↦ b.excerpt (some span) "", []⟩

def misplacement (b : Bulletin) (span : Span) : Notice :=
  ⟨"You can only return from within a function.", [b.excerpt (some span) ""], []⟩

end Bulletin

namespace Complaint

def topic : Complaint → Topic
  | .redeclared first _ => .name first
  | .strayReturn span => .strayReturn span

/-- The declaration that is blamed, if the first one of the name is this. -/
def guilty? (first : Ident) : Complaint → Option Ident
  | .redeclared first' guilty => if first' = first then some guilty else none
  | .strayReturn _ => none

theorem guilty?_eq_some_iff {first guilty : Ident} {complaint : Complaint} :
    complaint.guilty? first = some guilty ↔ complaint = .redeclared first guilty := by
  cases complaint with
  | redeclared first' guilty' =>
    rw [guilty?, Option.ite_none_right_eq_some, redeclared.injEq, Option.some.injEq]
  | strayReturn span => simp [guilty?]

end Complaint

def topics (complaints : List Complaint) : List Topic := (complaints.map Complaint.topic).eraseDups

def Topic.notice (b : Bulletin) (complaints : List Complaint) : Topic → Notice
  | .name first =>
    b.repetition (first.span :: (complaints.filterMap (Complaint.guilty? first)).map Ident.span)
  | .strayReturn span => b.misplacement span

section Topics

variable {complaints : List Complaint} {complaint : Complaint} {topic : Topic}

theorem mem_topics_iff : topic ∈ topics complaints ↔ ∃ c ∈ complaints, c.topic = topic := by
  rw [topics, List.mem_eraseDups, List.mem_map]

theorem topics_concat_of_mem (h : complaint.topic ∈ topics complaints) :
    topics (complaints ++ [complaint]) = topics complaints := by
  rw [topics, List.mem_eraseDups, List.mem_map] at h
  rw [topics, List.map_append, List.eraseDups_append]
  simp [List.removeAll, h, topics]

theorem topics_concat_of_notMem (h : complaint.topic ∉ topics complaints) :
    topics (complaints ++ [complaint]) = topics complaints ++ [complaint.topic] := by
  rw [topics, List.mem_eraseDups, List.mem_map] at h
  rw [topics, List.map_append, List.eraseDups_append]
  simp [List.removeAll, List.eraseDups_cons, h, topics]

theorem nodup_topics (complaints : List Complaint) : (topics complaints).Nodup := by
  induction complaints using List.reverseRecOn with
  | nil => exact .nil
  | append_singleton complaints complaint ih =>
    by_cases h : complaint.topic ∈ topics complaints
    · rwa [topics_concat_of_mem h]
    · rw [topics_concat_of_notMem h]
      exact List.nodup_append.2 ⟨ih, List.nodup_singleton _, by grind⟩

theorem Topic.notice_concat_of_ne (b : Bulletin) (h : topic ≠ complaint.topic) :
    topic.notice b (complaints ++ [complaint]) = topic.notice b complaints := by
  cases topic with
  | strayReturn span => rfl
  | name first =>
    cases complaint with
    | strayReturn span => simp [notice, Complaint.guilty?, List.filterMap_cons]
    | redeclared first' guilty =>
      have hne : first' ≠ first := fun heq ↦ h (congrArg Topic.name heq.symm)
      simp [notice, Complaint.guilty?, hne]

theorem Topic.notice_concat (b : Bulletin) (first guilty : Ident) :
    (name first).notice b (complaints ++ [.redeclared first guilty]) =
      { (name first).notice b complaints with
        excerpts := ((name first).notice b complaints).excerpts ++
          [b.excerpt (some guilty.span) ""] } := by
  simp [notice, Complaint.guilty?, Bulletin.repetition]

/-- A complaint about a new topic does not change the notices about the others. -/
theorem map_notice_concat (b : Bulletin) (h : complaint.topic ∉ topics complaints) :
    (topics complaints).map (Topic.notice b (complaints ++ [complaint])) =
      (topics complaints).map (Topic.notice b complaints) := by
  refine List.map_congr_left fun topic htopic ↦ Topic.notice_concat_of_ne b ?_
  rintro rfl
  exact h htopic

theorem filterMap_guilty?_eq_nil {first : Ident} (h : .name first ∉ topics complaints) :
    complaints.filterMap (Complaint.guilty? first) = [] := by
  refine List.filterMap_eq_nil_iff.2 fun c hc ↦ Option.eq_none_iff_forall_ne_some.2 ?_
  intro guilty hguilty
  obtain rfl := Complaint.guilty?_eq_some_iff.1 hguilty
  exact h (mem_topics_iff.2 ⟨_, hc, rfl⟩)

end Topics

namespace Bulletin

variable {b b' : Bulletin} {complaints : List Complaint} {first : Ident} {span : Span}

theorem post_eq_ok {notice : Notice} (h : (b.notices.length : Int) + 1 ≠ b.cap) :
    b.post notice = .ok { b with notices := b.notices ++ [notice] } := by
  rw [post, if_neg]
  simpa using h

/-- The bulletin that comes of an operation, full or not. -/
def reached : Except Bulletin Bulletin → Bulletin
  | .ok b => b
  | .error b => b

theorem notices_reached_post (b : Bulletin) (new : Notice) :
    (reached (b.post new)).notices = b.notices ++ [new] := by
  unfold post
  dsimp only
  split <;> rfl

/-- A name is declared again for the first time. -/
theorem redeclaration_eq_ok {name : String} {mark : Nat} {first guilty : Span}
    (hlookup : b.redeclared.lookup (name, mark) = none)
    (hroom : (b.notices.length : Int) + 1 ≠ b.cap) :
    b.redeclaration name mark first guilty =
      .ok { b with notices := b.notices ++ [b.repetition [first, guilty]],
                   redeclared := ((name, mark), b.notices.length) :: b.redeclared } := by
  simp [redeclaration, hlookup, post_eq_ok hroom, bind, Except.bind, pure, Except.pure, extend,
    repetition, excerpt, List.modify_eq_take_drop]

/-- What has become of a bulletin after it has taken complaints. -/
structure Tells (b : Bulletin) (complaints : List Complaint) (b' : Bulletin) : Prop where
  cap : b'.cap = b.cap
  source : b'.source = b.source
  notices : b'.notices = (topics complaints).map (Topic.notice b complaints)
  redeclared : ∀ key index, b'.redeclared.lookup key = some index ↔
    ∃ first, (topics complaints)[index]? = some (.name first) ∧
      (first.name, first.span.left) = key

namespace Tells

theorem length_notices (h : b.Tells complaints b') :
    b'.notices.length = (topics complaints).length := by
  rw [h.notices, List.length_map]

/-- One more complaint about a name that has been complained of before. -/
theorem again (h : b.Tells complaints b') (hfirst : .name first ∈ topics complaints)
    (guilty : Ident) :
    ∃ b'', b'.complain (.redeclared first guilty) = .ok b'' ∧
      b.Tells (complaints ++ [.redeclared first guilty]) b'' := by
  obtain ⟨index, hindex⟩ := List.getElem?_of_mem hfirst
  have hlookup := (h.redeclared (first.name, first.span.left) index).2 ⟨first, hindex, rfl⟩
  have htopics : topics (complaints ++ [.redeclared first guilty]) = topics complaints :=
    topics_concat_of_mem hfirst
  refine ⟨b'.extend index (b'.excerpt (some guilty.span) ""), ?_, h.cap, h.source, ?_, ?_⟩
  · rw [complain, redeclaration, hlookup]
  · rw [htopics]
    apply List.ext_getElem?
    intro i
    rw [extend, List.getElem?_modify, h.notices, List.getElem?_map, List.getElem?_map]
    cases htopic : (topics complaints)[i]? with
    | none => rfl
    | some topic =>
      by_cases hi : index = i
      · obtain rfl : .name first = topic := Option.some.inj (hindex.symm.trans (hi ▸ htopic))
        simp [hi, Topic.notice_concat, excerpt, h.source]
      · have hne : topic ≠ .name first := by
          rintro rfl
          exact hi ((List.getElem?_inj (List.getElem?_eq_some_iff.1 hindex).1
            (nodup_topics complaints)).1 (hindex.trans htopic.symm))
        have hsame : topic.notice b (complaints ++ [.redeclared first guilty]) =
            topic.notice b complaints := Topic.notice_concat_of_ne b hne
        simp [hi, hsame]
  · rw [htopics]
    exact h.redeclared

/-- The first complaint about a name. -/
theorem once (h : b.Tells complaints b') (guilty : Ident)
    (hfirst : .name first ∉ topics complaints)
    (hkey : ∀ other, .name other ∈ topics complaints → other.name = first.name →
      other.span.left ≠ first.span.left)
    (hroom : ((topics complaints).length : Int) + 1 ≠ b.cap) :
    ∃ b'', b'.complain (.redeclared first guilty) = .ok b'' ∧
      b.Tells (complaints ++ [.redeclared first guilty]) b'' := by
  have hlookup : b'.redeclared.lookup (first.name, first.span.left) = none := by
    refine Option.eq_none_iff_forall_ne_some.2 fun index hindex ↦ ?_
    obtain ⟨other, hother, hsame⟩ := (h.redeclared _ index).1 hindex
    obtain ⟨hname, hleft⟩ := Prod.mk.inj hsame
    exact hkey other (List.mem_of_getElem? hother) hname hleft
  have htopics : topics (complaints ++ [.redeclared first guilty]) =
      topics complaints ++ [.name first] := topics_concat_of_notMem hfirst
  refine ⟨_, redeclaration_eq_ok hlookup ?_, h.cap, h.source, ?_, ?_⟩
  · rwa [h.length_notices, h.cap]
  · rw [htopics, List.map_append, map_notice_concat b hfirst, ← h.notices, List.map_singleton,
      Topic.notice, List.filterMap_append, filterMap_guilty?_eq_nil hfirst]
    simp [Complaint.guilty?, repetition, excerpt, h.source]
  · intro key index
    rw [htopics, List.lookup_cons, h.length_notices]
    by_cases hsame : key = (first.name, first.span.left)
    · subst hsame
      rw [beq_self_eq_true]
      constructor
      · rintro ⟨⟩
        exact ⟨first, by simp, rfl⟩
      · rintro ⟨other, hother, hkeys⟩
        obtain ⟨hname, hleft⟩ := Prod.mk.inj hkeys
        rw [List.getElem?_append] at hother
        split at hother
        · exact (hkey other (List.mem_of_getElem? hother) hname hleft).elim
        · grind
    · rw [beq_false_of_ne hsame, h.redeclared]
      refine exists_congr fun other ↦ and_congr_left fun hkeys ↦ ?_
      have hne : other ≠ first := by
        rintro rfl
        exact hsame hkeys.symm
      grind

theorem strayReturn (h : b.Tells complaints b') (hspan : .strayReturn span ∉ topics complaints)
    (hroom : ((topics complaints).length : Int) + 1 ≠ b.cap) :
    ∃ b'', b'.complain (.strayReturn span) = .ok b'' ∧
      b.Tells (complaints ++ [.strayReturn span]) b'' := by
  have htopics : topics (complaints ++ [.strayReturn span]) =
      topics complaints ++ [.strayReturn span] := topics_concat_of_notMem hspan
  refine ⟨_, post_eq_ok (by rwa [h.length_notices, h.cap]), h.cap, h.source, ?_, fun key index ↦ ?_⟩
  · rw [htopics, List.map_append, map_notice_concat b hspan, ← h.notices]
    simp [Topic.notice, misplacement, excerpt, h.source]
  · rw [htopics, h.redeclared]
    refine exists_congr fun other ↦ and_congr_left fun _ ↦ ?_
    grind

/-- One more complaint, for whose topic there is room if it is a new one. -/
theorem complain {complaint : Complaint} (h : b.Tells complaints b')
    (hnew : complaint ∉ complaints)
    (hkey : ∀ first other, .name first = complaint.topic → .name other ∈ topics complaints →
      other.name = first.name → other.span.left = first.span.left → other = first)
    (hroom : complaint.topic ∉ topics complaints →
      ((topics complaints).length : Int) + 1 ≠ b.cap) :
    ∃ b'', b'.complain complaint = .ok b'' ∧ b.Tells (complaints ++ [complaint]) b'' := by
  by_cases hknown : complaint.topic ∈ topics complaints
  · cases complaint with
    | redeclared first guilty => exact h.again hknown guilty
    | strayReturn span =>
      obtain ⟨c, hc, htopic⟩ := mem_topics_iff.1 hknown
      cases c <;> cases htopic
      exact (hnew hc).elim
  · cases complaint with
    | redeclared first guilty =>
      refine h.once guilty hknown (fun other hother hname hleft ↦ ?_) (hroom hknown)
      obtain rfl := hkey first other rfl hother hname hleft
      exact hknown hother
    | strayReturn span => exact h.strayReturn hknown (hroom hknown)

end Tells

theorem notices_ne_nil_of_post {notice : Notice} (h : b.post notice = .ok b') :
    b'.notices ≠ [] := by
  unfold post at h
  dsimp only at h
  split at h
  · cases h
  · cases h
    simp

theorem notices_extend_ne_nil (index : Nat) (excerpt : Excerpt) (h : b.notices ≠ []) :
    (b.extend index excerpt).notices ≠ [] := by
  simpa [extend] using h

/-- A complaint leaves a notice, at least if none was said to be there before. -/
theorem notices_ne_nil_of_complain {complaint : Complaint} (h : b.complain complaint = .ok b')
    (hb : b.notices ≠ [] ∨ b.redeclared = []) : b'.notices ≠ [] := by
  cases complaint with
  | strayReturn span => exact notices_ne_nil_of_post h
  | redeclared first guilty =>
    rw [complain, redeclaration] at h
    split at h
    next index hlookup =>
      cases h
      refine notices_extend_ne_nil index _ (hb.resolve_right fun hnone ↦ ?_)
      rw [hnone] at hlookup
      cases hlookup
    · dsimp only at h
      generalize hposted : b.post _ = posted at h
      cases posted with
      | error full => cases h
      | ok b'' =>
        have hnotices : b''.notices ≠ [] := notices_ne_nil_of_post hposted
        cases h
        exact notices_extend_ne_nil _ _ hnotices

theorem exists_complain_of_foldlM_cons {complaint : Complaint} {more : List Complaint}
    (h : (complaint :: more).foldlM complain b = .ok b') :
    ∃ b'', b.complain complaint = .ok b'' ∧ more.foldlM complain b'' = .ok b' := by
  rw [List.foldlM_cons] at h
  cases hfirst : b.complain complaint with
  | error full =>
    rw [hfirst] at h
    cases h
  | ok b'' =>
    rw [hfirst] at h
    exact ⟨b'', rfl, h⟩

theorem notices_ne_nil_of_foldlM (hb : b.notices ≠ [])
    (h : complaints.foldlM complain b = .ok b') : b'.notices ≠ [] := by
  induction complaints generalizing b with
  | nil =>
    cases h
    exact hb
  | cons complaint more ih =>
    obtain ⟨b'', hfirst, hmore⟩ := exists_complain_of_foldlM_cons h
    exact ih (notices_ne_nil_of_complain hfirst (.inl hb)) hmore

/-- If nothing is said about a program, there is nothing to be said. -/
theorem complaints_eq_nil_of_check {program : Program} (hredeclared : b.redeclared = [])
    (h : b.check program = .ok b') (hnotices : b'.notices = []) : program.complaints = [] := by
  rw [check] at h
  cases hcomplaints : program.complaints with
  | nil => rfl
  | cons complaint more =>
    rw [hcomplaints] at h
    obtain ⟨b'', hfirst, hmore⟩ := exists_complain_of_foldlM_cons h
    have hsaid := notices_ne_nil_of_complain hfirst (.inr hredeclared)
    exact (notices_ne_nil_of_foldlM hsaid hmore hnotices).elim

theorem foldlM_complain_concat {b'' : Bulletin} {complaint : Complaint}
    (h : complaints.foldlM complain b = .ok b') (hlast : b'.complain complaint = .ok b'') :
    (complaints ++ [complaint]).foldlM complain b = .ok b'' := by
  rw [List.foldlM_append, h]
  change [complaint].foldlM complain b' = _
  rw [List.foldlM_cons, hlast]
  rfl

/-- A bulletin with room for all topics takes the complaints and tells of each topic once. -/
theorem exists_foldlM_complain (hnotices : b.notices = []) (hredeclared : b.redeclared = [])
    (hnodup : complaints.Nodup)
    (hkeys : ∀ first other, .name first ∈ topics complaints → .name other ∈ topics complaints →
      first.name = other.name → first.span.left = other.span.left → first = other)
    (hroom : b.cap ≤ 0 ∨ ((topics complaints).length : Int) < b.cap) :
    ∃ b', complaints.foldlM complain b = .ok b' ∧ b.Tells complaints b' := by
  induction complaints using List.reverseRecOn with
  | nil =>
    exact ⟨b, rfl, rfl, rfl, hnotices, fun key index ↦ by rw [hredeclared]; simp [topics]⟩
  | append_singleton complaints complaint ih =>
    have hsub {topic : Topic} (h : topic ∈ topics complaints) :
        topic ∈ topics (complaints ++ [complaint]) := by
      obtain ⟨c, hc, rfl⟩ := mem_topics_iff.1 h
      exact mem_topics_iff.2 ⟨c, List.mem_append_left _ hc, rfl⟩
    have hlast : complaint.topic ∈ topics (complaints ++ [complaint]) :=
      mem_topics_iff.2 ⟨complaint, List.mem_append_right _ (List.mem_singleton_self _), rfl⟩
    have hlength : (topics complaints).length ≤ (topics (complaints ++ [complaint])).length :=
      (nodup_topics complaints).length_le_of_subset fun _ ↦ hsub
    obtain ⟨hbefore, -, hdisjoint⟩ := List.nodup_append.1 hnodup
    obtain ⟨b', hb', htells⟩ := ih hbefore
      (fun first other hf ho ↦ hkeys first other (hsub hf) (hsub ho)) (by omega)
    obtain ⟨b'', hb'', htells'⟩ := htells.complain
      (fun h ↦ hdisjoint _ h _ (List.mem_singleton_self _) rfl)
      (fun first other hfirst hother hname ↦
        hkeys other first (hsub hother) (hfirst ▸ hlast) hname) fun hnew ↦ by
        rw [topics_concat_of_notMem hnew, List.length_append, List.length_singleton] at hroom
        omega
    exact ⟨b'', foldlM_complain_concat hb' hb'', htells'⟩

end Bulletin

end LateConst
