import LateConst.Proofs.Growth
import LateConst.Proofs.Initializer
import LateConst.Proofs.RoundRobin.Job

/-!
# Patterns get all of an array, or nothing

A declaration with a pattern evaluates its expression once. Its names stay as they are meanwhile,
but for assignments to them. If the evaluation comes to an array, all names get their elements by
one move, which nothing can stop: each of them is still owed its value, so it is open, and no name
is in the pattern twice. If it comes to anything else, or to nothing, no name is changed then or
later.
-/

namespace LateConst

/-! ### Waiting once -/

/-- Around a statement of a caller that waits there are fewer callers. -/
theorem Caller.length_lt_of_mem_waits {wait : Wait} {callers : List Caller}
    (h : wait ∈ waits callers) : wait.callers.length < callers.length := by
  induction callers with
  | nil => cases h
  | cons caller outer ih =>
    obtain rfl | h := List.mem_cons.1 h
    · exact Nat.lt_succ_self _
    · exact Nat.lt_succ_of_lt (ih h)

theorem Caller.not_mem_waits (use : Use) (body : List StmtFrame) (callers : List Caller) :
    ⟨use, body, callers⟩ ∉ waits callers :=
  fun h ↦ Nat.lt_irrefl _ (length_lt_of_mem_waits h)

/-! ### Names of patterns -/

namespace Kind

variable {kind : Kind} {slot slot' : Slot}

/-- The state of a name of this kind that has not got its initial value: a constant awaits it, and a
variable may have been assigned to. -/
def Pending (slot : Slot) : Kind → Prop
  | constant => slot = .awaiting
  | mutable => ∃ v, slot = .mutable v false

theorem pending_of_isOpen (hopen : slot.IsOpen) (hkind : slot.kind = kind) : kind.Pending slot := by
  subst hkind
  cases slot with
  | mutable v initialized =>
    obtain rfl := hopen
    exact ⟨v, rfl⟩
  | awaiting => rfl
  | _ => exact hopen.elim

theorem Pending.kind_eq (h : kind.Pending slot) : slot.kind = kind := by
  cases kind with
  | constant => exact h ▸ rfl
  | mutable =>
    obtain ⟨v, rfl⟩ := h
    rfl

theorem Pending.of_write {name : String} {v : Value} (h : kind.Pending slot)
    (hwrite : slot.write name v = .ok slot') : kind.Pending slot' := by
  cases kind with
  | constant =>
    obtain rfl := h
    cases hwrite
  | mutable =>
    obtain ⟨old, rfl⟩ := h
    cases hwrite
    exact ⟨v, rfl⟩

end Kind

theorem Role.kind_eq_of_starts {kind : Kind} {slot : Slot}
    (h : (Role.ofKind true kind).Starts slot) : slot.kind = kind := by
  cases kind <;> exact h ▸ rfl

/-- A declaration with a pattern that is executed in a record, with what is left to do around it. -/
structure Destructuring where
  kind : Kind
  idents : List Ident
  init : Expr
  span : Span
  env : RecordId
  body : List StmtFrame
  callers : List Caller

namespace Destructuring

def stmt (d : Destructuring) : Stmt := .destructure d.kind d.idents d.init d.span

def use (d : Destructuring) : Use := .destructure d.stmt d.idents d.env

def wait (d : Destructuring) : Wait := ⟨d.use, d.body, d.callers⟩

def entry (d : Destructuring) : Thread := ⟨.exec d.stmt d.env, d.body, d.callers⟩

def start (d : Destructuring) : Thread := ⟨.eval d.init d.env [] d.use, d.body, d.callers⟩

def taking (d : Destructuring) (v : Value) : Thread := ⟨.value v [] d.use, d.body, d.callers⟩

def exit (d : Destructuring) : Thread := ⟨.next, d.body, d.callers⟩

variable {d : Destructuring} {world : World} {v : Value} {ref : Ref}

theorem isDeclaration_stmt (d : Destructuring) : d.stmt.IsDeclaration := trivial

theorem value_mem_dues {ident : Ident} (h : ident ∈ d.idents) :
    .value d.env ident.name ∈ d.wait.use.dues :=
  List.mem_map_of_mem h

theorem move_entry : d.entry.move world = .goOn world d.start := rfl

theorem move_taking_of_ne (h : ∀ ref, v ≠ .array ref) :
    (d.taking v).move world = Thread.raise world d.body d.callers (some (.stmt d.stmt))
      (.cannotDestructure v.typeName) := by
  cases v with
  | array ref => exact (h ref rfl).elim
  | _ => rfl

/-- With an array the declaration is done in one move, whatever the array holds. -/
theorem exists_move_taking (howes : world.store.Owes (d.taking (.array ref)).dues) :
    ∃ store, (d.taking (.array ref)).move world = .goOn ⟨store, world.events⟩ d.exit ∧
      store.arrays = world.store.arrays := by
  obtain ⟨store, events⟩ := world
  obtain ⟨store', hall, -⟩ :=
    @Thread.exists_change_of_defineAll [] _ _ _ _ howes (store.elements ref).toList
  have harrays := Thread.arrays_defineAll store d.env d.idents (store.elements ref).toList
  rw [hall] at harrays
  refine ⟨store', ?_, harrays⟩
  rw [taking, Thread.move, use, Thread.apply]
  dsimp only
  rw [hall]
  rfl

theorem not_mem_waits_exit : d.wait ∉ d.exit.waits :=
  Caller.not_mem_waits d.use d.body d.callers

/-- A fault that is raised by the declaration leaves nothing of it. -/
theorem not_mem_waits_of_raise {site : Option Site} {fault : Fault} {work : Thread}
    (h : (Thread.raise world d.body d.callers site fault).Keeping work) : d.wait ∉ work.waits := by
  unfold Thread.raise at h
  split at h
  · exact h.elim
  next landing hlanding =>
    obtain rfl := h
    have hsuffix := Caller.waits_suffix (Landing.callers_suffix_of_find hlanding)
    exact fun hmem ↦ Caller.not_mem_waits d.use d.body d.callers (hsuffix.subset hmem)

end Destructuring

/-- The declaration whose evaluation has come to an array, and the array. -/
def Thread.taken? : Thread → Option (Destructuring × Ref)
  | ⟨.value (.array ref) [] (.destructure (.destructure kind idents init span) names env), body,
      callers⟩ =>
    if names = idents then some (⟨kind, idents, init, span, env, body, callers⟩, ref) else none
  | _ => none

theorem Thread.eq_taking_of_taken? {thread : Thread} {d : Destructuring} {ref : Ref}
    (h : thread.taken? = some (d, ref)) : thread = d.taking (.array ref) := by
  unfold taken? at h
  split at h
  · split at h
    next heq =>
      cases h
      cases heq
      rfl
    next => cases h
  · cases h

/-! ### Runs -/

namespace Program

variable {text : List Char} {program : Program} {verbose : Bool} {queue : TurnQueue Thread}
  {g k m : Nat} {d : Destructuring} {id : RecordId} {name : String} {v w : Value} {ref : Ref}
  {slot : Slot} {ident : Ident} {use : Use} {body : List StmtFrame} {callers : List Caller}
  {wait : Wait}

theorem present?_succ {thread work : Thread} {world : World}
    (hpresent : (program.moment verbose queue k).present? = some thread)
    (hmove : thread.move (program.moment verbose queue k).world = .goOn world work) :
    (program.moment verbose queue (k + 1)).present? = some work ∧
      (program.moment verbose queue (k + 1)).world = world :=
  Progress.next_of_present? hpresent fun _ ↦ hmove

/-- At this moment the evaluation for which the declaration waits has come to a value. -/
def ComesTo (program : Program) (verbose : Bool) (queue : TurnQueue Thread) (k : Nat)
    (d : Destructuring) (v : Value) : Prop :=
  (program.moment verbose queue k).present? = some (d.taking v)

theorem ComesTo.underWay (h : program.ComesTo verbose queue k d v) :
    program.UnderWay verbose queue k d.wait :=
  ⟨_, h, List.mem_cons_self⟩

/-- A declaration that waits has been executed, and has waited ever since. -/
theorem exists_entry_of_underWay (h : program.UnderWay verbose queue k d.wait) :
    ∃ g < k, (program.moment verbose queue g).present? = some d.entry ∧
      ∀ m, g < m → m ≤ k → program.UnderWay verbose queue m d.wait := by
  obtain ⟨g, hlt, hstarts, hsince⟩ := h.exists_starts
  refine ⟨g, hlt, ?_, hsince⟩
  obtain ⟨kind, idents, init, span, env, body, callers⟩ := d
  cases hstarts with
  | begins hpresent hbegins hnext =>
    cases hbegins with
    | statement hwants =>
      cases hwants
      obtain ⟨hstart, -⟩ := present?_succ hpresent rfl
      cases hstart.symm.trans hnext
      exact hpresent
  | goesOn _ huse _ => cases huse

/-- The declaration is under way only once, and then from its execution on. -/
theorem underWay_since (hread : Program.read text = .program program)
    (hexec : (program.moment verbose queue g).present? = some d.entry)
    (h : program.UnderWay verbose queue k d.wait) :
    g < k ∧ ∀ m, g < m → m ≤ k → program.UnderWay verbose queue m d.wait := by
  obtain ⟨g', hlt, hexec', hsince⟩ := exists_entry_of_underWay h
  obtain rfl : g' = g := eq_of_exec hread d.isDeclaration_stmt hexec' rfl hexec rfl
  exact ⟨hlt, hsince⟩

theorem not_underWay_of_le (hread : Program.read text = .program program)
    (hexec : (program.moment verbose queue g).present? = some d.entry) (hlt : g < m) (hle : m ≤ k)
    (h : ¬ program.UnderWay verbose queue m d.wait) : ¬ program.UnderWay verbose queue k d.wait :=
  fun hlater ↦ h ((underWay_since hread hexec hlater).2 m hlt hle)

/-! ### Names that wait for their elements -/

/-- A name that was to be initialized by an evaluation stays as it is when that is given up. -/
theorem GivesUp.slot?_succ (hread : Program.read text = .program program)
    (hgivesUp : program.GivesUp verbose queue k wait) (hdue : .value id name ∈ wait.use.dues) :
    (program.moment verbose queue (k + 1)).world.store.slot? id name =
      (program.moment verbose queue k).world.store.slot? id name := by
  obtain ⟨thread, hpresent, hwait⟩ := hgivesUp.before
  have hmem := (Thread.dues_sublist_of_mem_waits hwait).subset (List.mem_append_left _ hdue)
  obtain ⟨slot, hslot, hopen⟩ := exists_open_of_value_mem_dues hread
    (List.mem_flatMap.2 ⟨thread, Progress.mem_tasks_of_present? hpresent, hmem⟩)
  rw [hslot]
  obtain hstill | ⟨v, slot', hassigns, hwrite, -⟩ | ⟨v, use, body, callers, w, hgiven, hgives, -⟩ :=
    slot?_succ_cases hread hslot
  · exact hstill
  · -- an assignment that succeeds leaves everything waiting that has waited
    obtain ⟨thread', hpresent', hacts⟩ := hassigns
    obtain rfl := Option.some.inj (hpresent.symm.trans hpresent')
    obtain ⟨site, hmove⟩ := Thread.exists_move_assign hacts hslot
    rw [hwrite] at hmove
    obtain ⟨hnext, -⟩ := present?_succ hpresent hmove
    obtain ⟨focus, body, callers⟩ := thread
    obtain ⟨stmt, env, hfocus, -⟩ := hacts
    obtain rfl : focus = .value v [] (.assign stmt name env) := hfocus
    obtain rfl | hcaller := List.mem_cons.1 hwait
    · cases hdue
    · exact (hgivesUp.after ⟨_, hnext, hcaller⟩).elim
  · exact (hgivesUp.not_gives hread hdue hgiven hgives).elim

/-- When the declaration is executed its names are there, as it declares them. -/
theorem exists_pending_of_entry (hread : Program.read text = .program program)
    (hexec : (program.moment verbose queue g).present? = some d.entry) (hident : ident ∈ d.idents) :
    ∃ slot, (program.moment verbose queue g).world.store.slot? d.env ident.name = some slot ∧
      d.kind.Pending slot := by
  obtain ⟨scope, outer, j, first, -, hs, hle, hborn, hbegins⟩ :=
    exists_born_of_exec hread hexec rfl d.isDeclaration_stmt
  have hitem : (ident, Role.ofKind true d.kind) ∈ scope.declared :=
    scope.sublist_declared.subset (List.mem_flatMap.2 ⟨_, hs, List.mem_map_of_mem hident⟩)
  obtain ⟨⟨name, start⟩, hentry, hname, hstarts⟩ := exists_entry_of_starts hbegins.entries hitem
  obtain rfl : name = ident.name := hname
  have hstart : (program.moment verbose queue j).world.store.slot? d.env ident.name = some start :=
    Option.bind_eq_some_iff.2 ⟨first, hborn.record, Record.slot?_of_mem hbegins.nodup hentry⟩
  obtain ⟨slot, hslot, hbecomes⟩ := (becomes_moment hread hle).slot hstart
  obtain ⟨slot', hslot', hopen⟩ := exists_open_of_value_mem_dues hread
    (dues_present hexec (List.mem_cons_of_mem _ (List.mem_map_of_mem hident)))
  obtain rfl := Option.some.inj (hslot.symm.trans hslot')
  have hkind := hbecomes.kind_eq.trans (Role.kind_eq_of_starts hstarts)
  exact ⟨slot, hslot, Kind.pending_of_isOpen hopen hkind⟩

/-- From its execution on the declaration waits, until its evaluation is given up or has come to an
array. -/
theorem underWay_or_ended (hexec : (program.moment verbose queue g).present? = some d.entry)
    (hlt : g < k) : program.UnderWay verbose queue k d.wait ∨
      ∃ m, g < m ∧ m < k ∧ (program.GivesUp verbose queue m d.wait ∨
        ∃ ref, program.ComesTo verbose queue m d (.array ref)) := by
  induction k, hlt using Nat.le_induction with
  | base => exact .inl ⟨_, (present?_succ hexec d.move_entry).1, List.mem_cons_self⟩
  | succ k hlt ih =>
    obtain hunderWay | ⟨m, hgm, hmk, hended⟩ := ih
    · by_cases hnext : program.UnderWay verbose queue (k + 1) d.wait
      · exact .inl hnext
      · refine .inr ⟨k, hlt, Nat.lt_succ_self k, ?_⟩
        by_cases htaken : ∃ ref, program.ComesTo verbose queue k d (.array ref)
        · exact .inr htaken
        · refine .inl ⟨hunderWay, hnext, ?_⟩
          rintro v ⟨ref, rfl⟩ hpresent
          exact htaken ⟨ref, hpresent⟩
    · exact .inr ⟨m, hgm, Nat.lt_succ_of_lt hmk, hended⟩

/-- From the execution of the declaration on, a move changes a name of it only if it assigns to the
name, or if the evaluation has come to an array. -/
theorem slot?_succ_cases_of_entry (hread : Program.read text = .program program)
    (hexec : (program.moment verbose queue g).present? = some d.entry) (hle : g ≤ k)
    (hnone : ∀ m < k, ∀ ref, ¬ program.ComesTo verbose queue m d (.array ref))
    (hident : ident ∈ d.idents)
    (hslot : (program.moment verbose queue k).world.store.slot? d.env ident.name = some slot) :
    (program.moment verbose queue (k + 1)).world.store.slot? d.env ident.name = some slot ∨
      (∃ v slot', (program.moment verbose queue k).Assigns d.env ident.name v ∧
        slot.write ident.name v = .ok slot' ∧
        (program.moment verbose queue (k + 1)).world.store.slot? d.env ident.name = some slot') ∨
      ∃ ref, program.ComesTo verbose queue k d (.array ref) := by
  refine (slot?_succ_cases hread hslot).imp_right (Or.imp_right ?_)
  rintro ⟨v, use, body, callers, w, hpresent, hgives, -⟩
  obtain rfl | hlt := Nat.eq_or_lt_of_le hle
  · cases hexec.symm.trans hpresent
  obtain hunderWay | ⟨m, hgm, hmk, hgivesUp | ⟨ref, htaken⟩⟩ := underWay_or_ended hexec hlt
  · cases hunderWay.eq_of_gives hread (d.value_mem_dues hident) hpresent hgives
    obtain ⟨ref, rfl⟩ := hgives.takes
    exact ⟨ref, hpresent⟩
  · -- nothing is owed to the name any more
    obtain ⟨old, hold, -⟩ := exists_pending_of_entry hread hexec hident
    obtain ⟨record, hrecord, -⟩ := Option.bind_eq_some_iff.1 hold
    have henv := (becomes_moment hread (Nat.le_succ_of_le (Nat.le_of_lt hgm))).lt_size
      (Array.getElem?_eq_some_iff.1 hrecord).1
    have hdue : .value d.env ident.name ∈ (program.moment verbose queue (m + 1)).dues :=
      owed_since hread hmk henv (dues_present hpresent hgives.value_mem_dues)
    exact (hgivesUp.value_not_mem_dues hread (d.value_mem_dues hident) hdue).elim
  · exact (hnone m hmk ref htaken).elim

/-- A name of the declaration goes without its initial value until the evaluation has come to an
array. -/
theorem exists_pending (hread : Program.read text = .program program)
    (hexec : (program.moment verbose queue g).present? = some d.entry) (hle : g ≤ k)
    (hnone : ∀ m < k, ∀ ref, ¬ program.ComesTo verbose queue m d (.array ref))
    (hident : ident ∈ d.idents) : ∃ slot,
      (program.moment verbose queue k).world.store.slot? d.env ident.name = some slot ∧
        d.kind.Pending slot := by
  induction k, hle using Nat.le_induction with
  | base => exact exists_pending_of_entry hread hexec hident
  | succ k hle ih =>
    have hnone' (m : Nat) (hlt : m < k) := hnone m (Nat.lt_succ_of_lt hlt)
    obtain ⟨slot, hslot, hpending⟩ := ih hnone'
    obtain hstill | ⟨v, slot', -, hwrite, hwritten⟩ | ⟨ref, htaken⟩ :=
      slot?_succ_cases_of_entry hread hexec hle hnone' hident hslot
    · exact ⟨slot, hstill, hpending⟩
    · exact ⟨slot', hwritten, hpending.of_write hwrite⟩
    · exact (hnone k (Nat.lt_succ_self k) ref htaken).elim

/-! ### The end of the evaluation -/

/-- A value that is not an array is a fault of the declaration. -/
theorem ComesTo.givesUp (h : program.ComesTo verbose queue m d v) (hv : ∀ ref, v ≠ .array ref) :
    program.GivesUp verbose queue m d.wait where
  before := h.underWay
  after := by
    rintro ⟨thread, hnext, hmem⟩
    obtain ⟨hnone, -⟩ | ⟨before, count, hbefore, hkeeping⟩ := Progress.present?_next hnext
    · cases hnone.symm.trans h
    · obtain rfl := Option.some.inj (h.symm.trans hbefore)
      replace hkeeping : ((d.taking v).move (program.moment verbose queue m).world).Keeping
        thread := hkeeping
      rw [Destructuring.move_taking_of_ne hv] at hkeeping
      exact Destructuring.not_mem_waits_of_raise hkeeping hmem
  takes := by
    rintro _ ⟨ref, rfl⟩ hpresent
    cases h.symm.trans hpresent
    exact hv ref rfl

/-- With an array the declaration is done, and its task goes on. -/
theorem ComesTo.next (hread : Program.read text = .program program)
    (h : program.ComesTo verbose queue m d (.array ref)) :
    (program.moment verbose queue (m + 1)).present? = some d.exit ∧
      (program.moment verbose queue (m + 1)).world.events =
        (program.moment verbose queue m).world.events ∧
      (program.moment verbose queue (m + 1)).world.store.arrays =
        (program.moment verbose queue m).world.store.arrays := by
  obtain ⟨store, hmove, harrays⟩ := Destructuring.exists_move_taking (owes_present hread h)
  obtain ⟨hnext, hworld⟩ := present?_succ h hmove
  rw [hworld]
  exact ⟨hnext, rfl, harrays⟩

theorem ComesTo.not_underWay (hread : Program.read text = .program program)
    (hexec : (program.moment verbose queue g).present? = some d.entry)
    (h : program.ComesTo verbose queue m d (.array ref)) (hlt : m < k) :
    ¬ program.UnderWay verbose queue k d.wait := by
  obtain ⟨hgm, -⟩ := underWay_since hread hexec h.underWay
  refine not_underWay_of_le hread hexec (Nat.lt_succ_of_lt hgm) hlt ?_
  rintro ⟨thread, hthread, hmem⟩
  cases (h.next hread).1.symm.trans hthread
  exact d.not_mem_waits_exit hmem

/-- The declaration changes no names but its own. -/
theorem ComesTo.slot?_succ_of_not_mem (hread : Program.read text = .program program)
    (h : program.ComesTo verbose queue m d (.array ref))
    (hslot : (program.moment verbose queue m).world.store.slot? id name = some slot)
    (hother : id = d.env → name ∉ d.idents.map Ident.name) :
    (program.moment verbose queue (m + 1)).world.store.slot? id name = some slot := by
  obtain hstill | ⟨v, slot', ⟨thread, hthread, stmt, env, hfocus, -⟩, -⟩ |
    ⟨v, use, body, callers, w, hgiven, hgives, -⟩ := slot?_succ_cases hread hslot
  · exact hstill
  · cases h.symm.trans hthread
    cases hfocus
  · cases h.symm.trans hgiven
    cases hgives with
    | destructure hv hident =>
      exact (hother rfl (List.mem_map_of_mem (List.mem_of_getElem? hident))).elim

/-- By this move the same task goes on after the declaration. Each name has got the element that
stands at its place in the array, or `undefined` if there is none. No other name, no array and
nothing that has been printed is changed, and the declaration never waits again. -/
structure GetsAll (program : Program) (verbose : Bool) (queue : TurnQueue Thread) (m : Nat)
    (d : Destructuring) (ref : Ref) : Prop where
  next : (program.moment verbose queue (m + 1)).present? = some d.exit
  names : ∀ (n : Nat) (ident : Ident), d.idents[n]? = some ident →
    (program.moment verbose queue (m + 1)).world.store.slot? d.env ident.name =
      some (d.kind.given
        (((program.moment verbose queue m).world.store.elements ref)[n]?.getD .undefined))
  others : ∀ id name slot, (program.moment verbose queue m).world.store.slot? id name = some slot →
    (id = d.env → name ∉ d.idents.map Ident.name) →
    (program.moment verbose queue (m + 1)).world.store.slot? id name = some slot
  events : (program.moment verbose queue (m + 1)).world.events =
    (program.moment verbose queue m).world.events
  arrays : (program.moment verbose queue (m + 1)).world.store.arrays =
    (program.moment verbose queue m).world.store.arrays
  once : ∀ k, m < k → ¬ program.UnderWay verbose queue k d.wait

theorem ComesTo.getsAll (hread : Program.read text = .program program)
    (hexec : (program.moment verbose queue g).present? = some d.entry)
    (h : program.ComesTo verbose queue m d (.array ref)) :
    program.GetsAll verbose queue m d ref := by
  obtain ⟨hnext, hevents, harrays⟩ := h.next hread
  refine ⟨hnext, fun n ident hident ↦ ?_, fun id name slot hslot hother ↦ ?_, hevents, harrays,
    fun k hlt ↦ h.not_underWay hread hexec hlt⟩
  · have hle := Nat.le_of_lt (underWay_since hread hexec h.underWay).1
    obtain ⟨slot, hslot, hpending⟩ := exists_pending hread hexec hle
      (fun k hlt ref hearlier ↦ hearlier.not_underWay hread hexec hlt h.underWay)
      (List.mem_of_getElem? hident)
    rw [slot?_succ_of_gives hread h (.destructure rfl hident) hslot, hpending.kind_eq]
  · exact h.slot?_succ_of_not_mem hread hslot hother

/-- An evaluation that is given up has never come to an array, and never will. -/
theorem GivesUp.not_comesTo (hread : Program.read text = .program program)
    (hexec : (program.moment verbose queue g).present? = some d.entry)
    (hgivesUp : program.GivesUp verbose queue m d.wait) :
    ¬ program.ComesTo verbose queue k d (.array ref) := by
  intro h
  obtain hlt | rfl | hlt := Nat.lt_trichotomy k m
  · exact h.not_underWay hread hexec hlt hgivesUp.before
  · exact hgivesUp.takes _ ⟨ref, rfl⟩ h
  · have hgm := (underWay_since hread hexec hgivesUp.before).1
    exact not_underWay_of_le hread hexec (Nat.lt_succ_of_lt hgm) hlt hgivesUp.after h.underWay

/-- A declaration with a pattern gives its names all of an array, or nothing. Its names are
different. Its expression is evaluated next, until the evaluation is given up or has come to an
array. Up to then the names are in the record without their initial values, and no move changes one
of them but an assignment to it, which a constant refuses. A value that is not an array is a fault
of the declaration, and the evaluation is given up. When it is given up, for whatever cause, the
names stay as they are, and no array comes to the declaration at any moment. An array is taken by
one move that cannot fail. -/
theorem patterns_get_all_or_nothing (hread : Program.read text = .program program)
    (hexec : (program.moment verbose queue g).present? = some d.entry) :
    (d.idents.map Ident.name).Nodup ∧
    (program.moment verbose queue (g + 1)).present? = some d.start ∧
    (∀ k, g < k → program.UnderWay verbose queue k d.wait ∨
      ∃ m, g < m ∧ m < k ∧ (program.GivesUp verbose queue m d.wait ∨
        ∃ ref, program.ComesTo verbose queue m d (.array ref))) ∧
    (∀ k, g ≤ k → (∀ m < k, ∀ ref, ¬ program.ComesTo verbose queue m d (.array ref)) →
      ∀ ident ∈ d.idents, ∃ slot,
        (program.moment verbose queue k).world.store.slot? d.env ident.name = some slot ∧
        d.kind.Pending slot ∧
        ((program.moment verbose queue (k + 1)).world.store.slot? d.env ident.name = some slot ∨
          (∃ v slot', (program.moment verbose queue k).Assigns d.env ident.name v ∧
            slot.write ident.name v = .ok slot' ∧
            (program.moment verbose queue (k + 1)).world.store.slot? d.env ident.name =
              some slot') ∨
          ∃ ref, program.ComesTo verbose queue k d (.array ref))) ∧
    (∀ m v, program.ComesTo verbose queue m d v → (∀ ref, v ≠ .array ref) →
      (program.moment verbose queue m).Raises (.cannotDestructure v.typeName) ∧
        program.GivesUp verbose queue m d.wait) ∧
    (∀ m, program.GivesUp verbose queue m d.wait →
      (∀ ident ∈ d.idents,
        (program.moment verbose queue (m + 1)).world.store.slot? d.env ident.name =
          (program.moment verbose queue m).world.store.slot? d.env ident.name) ∧
      ∀ k ref, ¬ program.ComesTo verbose queue k d (.array ref)) ∧
    ∀ m ref, program.ComesTo verbose queue m d (.array ref) →
      program.GetsAll verbose queue m d ref := by
  refine ⟨?_, (present?_succ hexec d.move_entry).1, fun k hlt ↦ underWay_or_ended hexec hlt,
    fun k hle hnone ident hident ↦ ?_, fun m v h hv ↦ ?_, fun m hgivesUp ↦ ⟨?_, ?_⟩,
    fun m ref h ↦ h.getsAll hread hexec⟩
  · have hnodup := (owes_present hread hexec).nodup.sublist (List.sublist_append_left _ _)
    have hdues : (d.idents.map Ident.name).map (Due.value d.env) = d.idents.map (Ident.due d.env) :=
      List.map_map
    exact List.Nodup.of_map _ (hdues ▸ (List.nodup_cons.1 hnodup).2)
  · obtain ⟨slot, hslot, hpending⟩ := exists_pending hread hexec hle hnone hident
    exact ⟨slot, hslot, hpending, slot?_succ_cases_of_entry hread hexec hle hnone hident hslot⟩
  · exact ⟨⟨_, _, h, Destructuring.move_taking_of_ne hv⟩, h.givesUp hv⟩
  · exact fun ident hident ↦ hgivesUp.slot?_succ hread (d.value_mem_dues hident)
  · exact fun k ref ↦ hgivesUp.not_comesTo hread hexec

/-- The expression of a pattern assigns to one of its names, for which its array has no element. -/
theorem patterns_get_all_or_nothing_of_short_array :
    ∃ (program : Program) (d : Destructuring) (ref : Ref) (v : Value),
      Program.read (String.toList
          "let f = function() \x7bb = 5; return [1];\x7d; let [a, b] = f();") =
          .program program ∧
        d.idents.map Ident.name = ["a", "b"] ∧
        program.ComesTo false .empty 22 d (.array ref) ∧
        (program.moment false .empty 22).world.store.elements ref = #[v] ∧
        (∃ old, (program.moment false .empty 22).world.store.slot? 1 "b" =
          some (.mutable old false) ∧ old.typeName = "number") ∧
        (program.moment false .empty 23).world.store.slot? 1 "a" = some (.mutable v true) ∧
        (program.moment false .empty 23).world.store.slot? 1 "b" =
          some (.mutable .undefined true) := by
  have hrun : ((ofText? (String.toList
        "let f = function() {b = 5; return [1];}; let [a, b] = f();")).bind fun program ↦
      ((program.moment false .empty 22).present?.bind Thread.taken?).bind fun found ↦
        ((program.moment false .empty 22).world.store.slot? 1 "b").bind fun slot ↦
          slot.value?.map fun old ↦ (found.1.idents.map Ident.name, found.1.kind, found.1.env,
            ((program.moment false .empty 22).world.store.elements found.2).size, old.typeName)) =
      some (["a", "b"], .mutable, 1, 1, "number") := by
    decide +kernel
  obtain ⟨program, htext, hrun⟩ := Option.bind_eq_some_iff.1 hrun
  obtain ⟨⟨d, ref⟩, htaken, hrun⟩ := Option.bind_eq_some_iff.1 hrun
  obtain ⟨slot, hslot, hrun⟩ := Option.bind_eq_some_iff.1 hrun
  obtain ⟨old, hold, hrun⟩ := Option.map_eq_some_iff.1 hrun
  obtain ⟨hnames, hkind, henv, hsize, htype⟩ := by simpa only [Prod.mk.injEq] using hrun
  obtain ⟨thread, hpresent, htaken⟩ := Option.bind_eq_some_iff.1 htaken
  obtain rfl := Thread.eq_taking_of_taken? htaken
  have hcomes : program.ComesTo false .empty 22 d (.array ref) := hpresent
  have hread := read_of_ofText? htext
  obtain ⟨g, hlt, hexec, -⟩ := exists_entry_of_underWay hcomes.underWay
  obtain ⟨-, -, -, hpending, -, -, hgets⟩ := patterns_get_all_or_nothing hread hexec
  have hgiven := (hgets 22 ref hcomes).names
  have hplace {n : Nat} {name : String} (h : (d.idents.map Ident.name)[n]? = some name) :
      ∃ ident, d.idents[n]? = some ident ∧ ident.name = name := by
    rw [List.getElem?_map] at h
    exact Option.map_eq_some_iff.1 h
  obtain ⟨a, ha, hnameA⟩ : ∃ ident, d.idents[0]? = some ident ∧ ident.name = "a" :=
    hplace (hnames ▸ rfl)
  obtain ⟨b, hb, hnameB⟩ : ∃ ident, d.idents[1]? = some ident ∧ ident.name = "b" :=
    hplace (hnames ▸ rfl)
  obtain ⟨v, helements⟩ := Array.size_eq_one_iff.1 hsize
  have hgivenA := hgiven 0 a ha
  have hgivenB := hgiven 1 b hb
  rw [hkind, henv, helements, hnameA] at hgivenA
  rw [hkind, henv, helements, hnameB] at hgivenB
  have hnone (m : Nat) (hm : m < 22) (ref : Ref) :
      ¬ program.ComesTo false .empty m d (.array ref) :=
    fun hearlier ↦ (hgets m ref hearlier).once 22 hm hcomes.underWay
  obtain ⟨slot', hslot', hpendingB, -⟩ :=
    hpending 22 (Nat.le_of_lt hlt) hnone b (List.mem_of_getElem? hb)
  rw [henv, hnameB] at hslot'
  rw [hkind] at hpendingB
  obtain rfl := Option.some.inj (hslot.symm.trans hslot')
  obtain ⟨old', rfl⟩ := hpendingB
  obtain rfl := Option.some.inj hold
  exact ⟨program, d, ref, v, hread, hnames, hcomes, helements, ⟨_, hslot, htype⟩, hgivenA,
    hgivenB⟩

end Program

end LateConst
