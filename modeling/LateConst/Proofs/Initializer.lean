import LateConst.Proofs.Evaluation.Iteration
import LateConst.Proofs.Initialization
import LateConst.Proofs.Initializer.Given

/-!
# Constants hold the values of their initializers

A constant that is declared with an initial value awaits it until the evaluation of its own
declaration has come to a value (`Program.Initializes`), and has that value from then on. No
assignment to it ever succeeds. While it awaits its value every use of it is a fault, and it stays
so forever if the evaluation is given up or nobody is left to execute the declaration.
-/

namespace LateConst

variable {program : Program} {id env : RecordId} {name : String} {v w : Value} {slot start : Slot}

/-! ### Uses of names -/

/-- The move of a thread that asks for the type of a name. -/
theorem Thread.move_typeOf {world : World} {thread : Thread} {ident : Ident} {span : Span}
    {frames : List ExprFrame} {use : Use}
    (hfocus : thread.focus = .eval (.typeOf (.lookup ident) span) env frames use)
    (hresolve : world.store.resolve env ident.name = .ok id)
    (hslot : world.store.slot? id ident.name = some slot) :
    thread.move world = match slot.read ident.name true with
      | .ok v => .goOn world ⟨.value (.text v.typeName) frames use, thread.body, thread.callers⟩
      | .error fault => raise world thread.body thread.callers
          (some (.expr (.typeOf (.lookup ident) span))) fault := by
  obtain ⟨focus, body, callers⟩ := thread
  obtain rfl : focus = .eval (.typeOf (.lookup ident) span) env frames use := hfocus
  simp only [move, eval, hresolve, Store.read_of_slot? hslot]
  cases slot.read ident.name true <;> rfl

namespace Progress

/-- The present task asks for the type of a name that it finds in this record. -/
def AsksType (progress : RunProgress) (id : RecordId) (name : String) : Prop :=
  ∃ thread ident span env frames use, progress.present? = some thread ∧
    thread.focus = .eval (.typeOf (.lookup ident) span) env frames use ∧ ident.name = name ∧
    progress.world.store.resolve env name = .ok id

/-- The present task uses a name that it finds in this record: it looks it up, asks for its type or
assigns to it. -/
inductive Uses (progress : RunProgress) (id : RecordId) (name : String) : Prop
  | looksUp (h : progress.LooksUp id name)
  | asksType (h : progress.AsksType id name)
  | assigns {v : Value} (h : progress.Assigns id name v)

def Raises (progress : RunProgress) (fault : Fault) : Prop :=
  ∃ thread site, progress.present? = some thread ∧
    thread.move progress.world =
      Thread.raise progress.world thread.body thread.callers site fault

/-- Every use of a constant that awaits its value is a fault. -/
theorem Uses.raises {progress : RunProgress} (h : progress.Uses id name)
    (hslot : progress.world.store.slot? id name = some .awaiting) :
    progress.Raises (.unboundAccess name) := by
  cases h with
  | looksUp h =>
    obtain ⟨thread, ident, env, frames, use, hpresent, hfocus, rfl, hresolve⟩ := h
    exact ⟨thread, _, hpresent, Thread.move_lookup hfocus hresolve hslot⟩
  | asksType h =>
    obtain ⟨thread, ident, span, env, frames, use, hpresent, hfocus, rfl, hresolve⟩ := h
    exact ⟨thread, _, hpresent, Thread.move_typeOf hfocus hresolve hslot⟩
  | assigns h =>
    obtain ⟨thread, hpresent, hacts⟩ := h
    obtain ⟨site, hmove⟩ := Thread.exists_move_assign hacts hslot
    exact ⟨thread, site, hpresent, hmove⟩

end Progress

/-! ### Statements that wait -/

/-- What is owed by a statement that waits, and around it, is a part of what its thread owes. -/
theorem Caller.dues_sublist_of_mem_waits {wait : Wait} {callers : List Caller}
    (h : wait ∈ Caller.waits callers) :
    (wait.use.dues ++ Thread.duesAround wait.body wait.callers).Sublist
      (callers.flatMap Caller.dues) := by
  induction callers with
  | nil => cases h
  | cons caller outer ih =>
    obtain rfl | h := List.mem_cons.1 h
    · rw [Thread.duesAround, ← List.append_assoc]
      exact .refl _
    · exact (ih h).trans (List.sublist_append_right _ _)

namespace Thread

theorem mem_waits_iff {focus : Focus} {body : List StmtFrame} {callers : List Caller}
    {wait : Wait} : wait ∈ waits ⟨focus, body, callers⟩ ↔
      (focus.use? = some wait.use ∧ wait.body = body ∧ wait.callers = callers) ∨
        wait ∈ Caller.waits callers := by
  obtain ⟨use, body', callers'⟩ := wait
  cases focus <;> simp [waits, Focus.use?, eq_comm]

theorem dues_sublist_of_mem_waits {thread : Thread} {wait : Wait} (h : wait ∈ thread.waits) :
    (wait.use.dues ++ duesAround wait.body wait.callers).Sublist thread.dues := by
  obtain ⟨focus, body, callers⟩ := thread
  obtain ⟨huse, hbody, hcallers⟩ | h := mem_waits_iff.1 h
  · have hfocus : focus.dues = wait.use.dues := by
      cases focus <;> cases huse <;> rfl
    rw [dues, hfocus, hbody, hcallers]
  · exact (Caller.dues_sublist_of_mem_waits h).trans
      ((List.sublist_append_right _ _).trans (List.sublist_append_right _ _))

/-- No task is put into the queue that owes anything to declarations, by a thread that waits. -/
theorem dues_eq_nil_of_putting {world : World} {thread new : Thread} {act : Act}
    (h : (thread.move world).Putting new)
    (hdoes : (thread.move world).Does program act world.store thread.dues)
    (hwait : ∃ wait, wait ∈ thread.waits) : new.dues = [] := by
  have hpasses := thread.passes_move world
  cases hmove : thread.move world with
  | spawn world' label new' work =>
    rw [hmove] at h hdoes
    obtain rfl : new' = new := h
    exact hdoes.1
  | pause world' work =>
    obtain ⟨wait, hwait⟩ := hwait
    rw [hmove] at hpasses
    rw [hpasses.2] at hwait
    cases hwait
  | _ =>
    rw [hmove] at h
    exact h.elim

end Thread

/-! ### One move -/

namespace Program

variable {text : List Char} {verbose : Bool} {queue : TurnQueue Thread} {i j k m : Nat}
  {first : Record} {use : Use} {body : List StmtFrame} {callers : List Caller} {wait : Wait}

theorem owes_present (hread : Program.read text = .program program) {thread : Thread}
    (hpresent : (program.moment verbose queue k).present? = some thread) :
    (program.moment verbose queue k).world.store.Owes thread.dues := by
  obtain ⟨waiting, others, htasks, -⟩ := Progress.makes_of_present? (workload verbose) hpresent
  have howes := (settled_moment hread verbose queue k).owes
  rw [htasks, List.flatMap_cons] at howes
  exact howes.sublist (List.sublist_append_left _ _)

/-- A record has names from the moment on at which it is there. -/
theorem Born.le (hborn : program.Born verbose queue j id first)
    (hslot : (program.moment verbose queue k).world.store.slot? id name = some slot) : j ≤ k := by
  obtain ⟨record, hrecord, -⟩ := Option.bind_eq_some_iff.1 hslot
  refine Nat.not_lt.1 fun hlt ↦ ?_
  cases (hborn.before k hlt).symm.trans hrecord

/-- What is owed a value is open. -/
theorem exists_open_of_value_mem_dues (hread : Program.read text = .program program)
    (hdue : .value id name ∈ (program.moment verbose queue k).dues) :
    ∃ slot, (program.moment verbose queue k).world.store.slot? id name = some slot ∧
      slot.IsOpen :=
  Store.fits_value_iff.1 ((settled_moment hread verbose queue k).owes.fits _ hdue)

/-- A name has its initial value as soon as it is given. -/
theorem slot?_succ_of_gives (hread : Program.read text = .program program)
    (hpresent : (program.moment verbose queue k).present? = some ⟨.value v [] use, body, callers⟩)
    (hgives : use.Gives (program.moment verbose queue k).world.store v id name w)
    (hslot : (program.moment verbose queue k).world.store.slot? id name = some slot) :
    (program.moment verbose queue (k + 1)).world.store.slot? id name =
      some (slot.kind.given w) := by
  have howes := owes_present hread hpresent
  have hnodup := howes.nodup.sublist (List.sublist_append_left _ _)
  rw [store_moment_succ hpresent]
  obtain ⟨-, hnone⟩ | ⟨w', hgives', hset⟩ := Thread.slot?_apply hgives.defines howes hslot v
  · exact (hnone w hgives).elim
  · rw [hgives.unique hnodup hgives']
    exact hset

/-- A move leaves a name as it is, or assigns to it, or is the move of a statement that gives it its
initial value. -/
theorem slot?_succ_cases (hread : Program.read text = .program program)
    (hslot : (program.moment verbose queue k).world.store.slot? id name = some slot) :
    (program.moment verbose queue (k + 1)).world.store.slot? id name = some slot ∨
      (∃ v slot', (program.moment verbose queue k).Assigns id name v ∧
        slot.write name v = .ok slot' ∧
        (program.moment verbose queue (k + 1)).world.store.slot? id name = some slot') ∨
      ∃ v use body callers w,
        (program.moment verbose queue k).present? = some ⟨.value v [] use, body, callers⟩ ∧
        use.Gives (program.moment verbose queue k).world.store v id name w ∧
        (program.moment verbose queue (k + 1)).world.store.slot? id name =
          some (slot.kind.given w) := by
  obtain ⟨act, dues, hacts, hchange, -⟩ := exists_change_moment hread verbose queue k
  cases act with
  | enter =>
    exact .inl (Store.slot?_of_getElem? (fun _ h ↦ hchange.getElem?_of_enter rfl h) hslot)
  | assign env other v =>
    obtain hstill | ⟨rfl, rfl, slot', hwrite, hwritten⟩ := hchange.slot?_of_assign rfl hslot
    · exact .inl hstill
    · exact .inr (.inl ⟨v, slot', hacts, hwrite, hwritten⟩)
  | define =>
    obtain ⟨⟨focus, body, callers⟩, hpresent, v, use, rfl, hdefines⟩ := hacts
    rw [store_moment_succ hpresent]
    obtain ⟨hstill, -⟩ | ⟨w, hgives, hset⟩ :=
      Thread.slot?_apply hdefines (owes_present hread hpresent) hslot v
    · exact .inl hstill
    · exact .inr (.inr ⟨v, use, body, callers, w, hpresent, hgives, hset⟩)

/-- A constant that awaits its value gets it from the statement that initializes it, or goes on
awaiting it. -/
theorem awaiting_cases (hread : Program.read text = .program program)
    (hslot : (program.moment verbose queue k).world.store.slot? id name = some .awaiting) :
    (program.moment verbose queue (k + 1)).world.store.slot? id name = some .awaiting ∨
      ∃ v use body callers w,
        (program.moment verbose queue k).present? = some ⟨.value v [] use, body, callers⟩ ∧
        use.Gives (program.moment verbose queue k).world.store v id name w ∧
        (program.moment verbose queue (k + 1)).world.store.slot? id name =
          some (.constant w true) := by
  obtain hstill | ⟨v, slot', -, hwrite, -⟩ | hgiven := slot?_succ_cases hread hslot
  · exact .inl hstill
  · cases hwrite
  · exact .inr hgiven

/-! ### Evaluations that are given up -/

/-- The statement waits no more, and has not got a value that it can use. -/
structure GivesUp (program : Program) (verbose : Bool) (queue : TurnQueue Thread) (k : Nat)
    (wait : Wait) : Prop where
  before : program.UnderWay verbose queue k wait
  after : ¬ program.UnderWay verbose queue (k + 1) wait
  takes : ∀ v, wait.use.Takes v → (program.moment verbose queue k).present? ≠
    some ⟨.value v [] wait.use, wait.body, wait.callers⟩

/-- A thread that has kept its turn after an evaluation has been given up is at a handler outside of
the statement that has waited. -/
theorem GivesUp.dues_sublist {store : Store} {thread thread' : Thread}
    (hgivesUp : program.GivesUp verbose queue k wait)
    (hpresent : (program.moment verbose queue k).present? = some thread)
    (hwait : wait ∈ thread.waits) (hwait' : wait ∉ thread'.waits)
    (hpasses : thread.Passes store thread') :
    thread'.dues.Sublist (Thread.duesAround wait.body wait.callers) := by
  obtain ⟨focus, body, callers⟩ := thread
  -- whoever has not come to a value of his own is still waiting as a caller
  have hcallers (hmem : wait ∈ Caller.waits callers) {thread' : Thread}
      (hcallers : thread'.callers = callers) : wait ∈ thread'.waits :=
    List.mem_append_right _ (hcallers ▸ hmem)
  have hgiven {v : Value} {use : Use} (hfocus : focus = .value v [] use) (htakes : use.Takes v) :
      wait ∈ Caller.waits callers := by
    obtain ⟨huse, hbody, hcallers⟩ | hmem := Thread.mem_waits_iff.1 hwait
    · subst hfocus
      obtain rfl := Option.some.inj huse
      exact (hgivesUp.takes v htakes (hbody ▸ hcallers ▸ hpresent)).elim
    · exact hmem
  cases hpasses with
  | keeps h => exact (hwait' (h ▸ hwait)).elim
  | begins hbegins hfocus hsame =>
    obtain ⟨huse, -⟩ | hmem := Thread.mem_waits_iff.1 hwait
    · cases hbegins <;> cases huse
    · exact (hwait' (hcallers hmem hsame)).elim
  | gives hfocus htakes h => exact (hwait' (h ▸ hgiven hfocus htakes)).elim
  | goesOn hfocus h => exact (hwait' (hcallers (hgiven hfocus trivial) (h ▸ rfl))).elim
  | lands h hlanding _ =>
    obtain hmem | hfind := hlanding wait hwait
    · exact (hwait' hmem).elim
    · rw [h]
      exact Thread.duesAround_sublist_of_find hfind

/-- What would have been initialized by an evaluation that has been given up is owed no more. -/
theorem GivesUp.value_not_mem_dues (hread : Program.read text = .program program)
    (hgivesUp : program.GivesUp verbose queue k wait) (hdue : .value id name ∈ wait.use.dues) :
    .value id name ∉ (program.moment verbose queue (k + 1)).dues := by
  obtain ⟨thread, hpresent, hwait⟩ := hgivesUp.before
  obtain ⟨waiting, others, htasks, hmakes⟩ :=
    Progress.makes_of_present? (workload verbose) hpresent
  have hsettled := settled_moment hread verbose queue k
  rw [htasks] at hsettled
  obtain ⟨hnodup, -, hdisjoint⟩ := List.nodup_append.1 hsettled.owes.nodup
  have hsub := Thread.dues_sublist_of_mem_waits hwait
  have haround : .value id name ∉ Thread.duesAround wait.body wait.callers := fun hmem ↦
    (List.nodup_append.1 (hnodup.sublist hsub)).2.2 _ hdue _ hmem rfl
  obtain ⟨count, hnext⟩ := @Progress.exists_present?_next _ _ _ (workload verbose) _ _ hpresent
  intro hmem
  obtain ⟨thread', hthread', hdue'⟩ := List.mem_flatMap.1 hmem
  obtain hmoved | hother := Move.mem_tasks (hmakes.tasks.mem_iff.1 hthread')
  · obtain hkeeping | hputting := Move.keeping_or_putting hmoved
    · have hwait' : wait ∉ thread'.waits := fun hmem ↦
        hgivesUp.after ⟨thread', hnext thread' hkeeping, hmem⟩
      have hpasses := Thread.passes_of_keeping hkeeping
      exact haround ((hgivesUp.dues_sublist hpresent hwait hwait' hpasses).subset hdue')
    · obtain ⟨act, -, -, hdoes⟩ := hsettled.exists_does (distinct_of_read hread)
      rw [Thread.dues_eq_nil_of_putting hputting hdoes ⟨wait, hwait⟩] at hdue'
      cases hdue'
  · exact hdisjoint _ (hsub.subset (List.mem_append_left _ hdue)) _
      (List.mem_flatMap.2 ⟨thread', hother, hdue'⟩) rfl

/-- A name that is to be initialized by a statement that waits is not given a value by any other. -/
theorem UnderWay.eq_of_gives (hread : Program.read text = .program program)
    (h : program.UnderWay verbose queue k wait) (hdue : .value id name ∈ wait.use.dues)
    (hpresent : (program.moment verbose queue k).present? = some ⟨.value v [] use, body, callers⟩)
    (hgives : use.Gives (program.moment verbose queue k).world.store v id name w) :
    wait = ⟨use, body, callers⟩ := by
  obtain ⟨thread, hpresent', hwait⟩ := h
  obtain rfl := Option.some.inj (hpresent.symm.trans hpresent')
  obtain hinner | hmem := List.mem_cons.1 hwait
  · exact hinner
  · -- the same name would be owed a value twice
    have hnodup := (owes_present hread hpresent).nodup
    have hagain := (Caller.dues_sublist_of_mem_waits hmem).subset (List.mem_append_left _ hdue)
    exact ((List.nodup_append.1 hnodup).2.2 _ hgives.value_mem_dues _
      (List.mem_append_right _ hagain) rfl).elim

theorem GivesUp.not_gives (hread : Program.read text = .program program)
    (hgivesUp : program.GivesUp verbose queue k wait) (hdue : .value id name ∈ wait.use.dues)
    (hpresent : (program.moment verbose queue k).present? = some ⟨.value v [] use, body, callers⟩) :
    ¬ use.Gives (program.moment verbose queue k).world.store v id name w := by
  intro hgives
  obtain rfl := hgivesUp.before.eq_of_gives hread hdue hpresent hgives
  exact hgivesUp.takes v hgives.takes hpresent

/-! ### Initial values -/

/-- At this moment a statement gives a name of a record its initial value. -/
inductive Initializes (program : Program) (verbose : Bool) (queue : TurnQueue Thread) (i : Nat)
    (id : RecordId) (name : String) (w : Value) : Prop
  /-- A declaration has been executed in the record, and the evaluation of its expression, which has
  been under way ever since, has come to a value. -/
  | declaration {s : Stmt} {e : Expr} {wait : Wait} {v : Value} {g h : Nat}
      (hevaluates : program.Evaluates verbose queue s e id wait g h i)
      (hpresent : (program.moment verbose queue i).present? =
        some ⟨.value v [] wait.use, wait.body, wait.callers⟩)
      (hgives : wait.use.Gives (program.moment verbose queue i).world.store v id name w)
  /-- A loop has just made the record for a trip, with the next element of the value that the
  expression of the loop has been evaluated to. -/
  | trip {iteration : Iteration} {e : Expr} {span : Span} {f g h t n : Nat}
      {body body' : List StmtFrame} {callers callers' : List Caller}
      (hiterated : program.Iterated verbose queue iteration e span f g h) (hlt : h < t)
      (hloop : (program.moment verbose queue t).present? = some ⟨.next,
        .forLoop iteration.kind iteration.ident iteration.block iteration.env iteration.items n ::
          body, callers⟩)
      (helement : iteration.items.element? (program.moment verbose queue t).world.store n = some w)
      (hid : id = (program.moment verbose queue t).world.store.records.size)
      (hname : name = iteration.ident.name) (hi : i = t + 1)
      (hpresent : (program.moment verbose queue i).present? =
        some ⟨.value w [] (.loopVariable name iteration.block id), body', callers'⟩)

theorem Initializes.exists_gives (h : program.Initializes verbose queue i id name w) :
    ∃ v use body callers,
      (program.moment verbose queue i).present? = some ⟨.value v [] use, body, callers⟩ ∧
      use.Gives (program.moment verbose queue i).world.store v id name w := by
  cases h with
  | declaration hevaluates hpresent hgives => exact ⟨_, _, _, _, hpresent, hgives⟩
  | trip _ _ _ _ _ _ _ hpresent => exact ⟨_, _, _, _, hpresent, .loopVariable⟩

theorem Initializes.value_mem_dues (h : program.Initializes verbose queue i id name w) :
    .value id name ∈ (program.moment verbose queue i).dues := by
  obtain ⟨v, use, body, callers, hpresent, hgives⟩ := h.exists_gives
  exact dues_present hpresent hgives.value_mem_dues

/-- A constant that is given a value has awaited it. -/
theorem slot?_of_gives (hread : Program.read text = .program program) (hle : i ≤ k)
    (hpresent : (program.moment verbose queue i).present? = some ⟨.value v [] use, body, callers⟩)
    (hgives : use.Gives (program.moment verbose queue i).world.store v id name w)
    (hslot : (program.moment verbose queue k).world.store.slot? id name = some slot)
    (hkind : slot.kind = .constant) :
    (program.moment verbose queue i).world.store.slot? id name = some .awaiting := by
  obtain ⟨old, hold, hopen⟩ := exists_open_of_value_mem_dues hread
    (dues_present hpresent hgives.value_mem_dues)
  obtain ⟨now, hnow, hbecomes⟩ := (becomes_moment hread hle).slot hold
  obtain rfl := Option.some.inj (hslot.symm.trans hnow)
  rw [hold, hopen.eq_awaiting (hbecomes.kind_eq.symm.trans hkind)]

/-- A constant keeps the value that it has been given. -/
theorem slot?_of_gives_lt (hread : Program.read text = .program program) (hlt : i < k)
    (hpresent : (program.moment verbose queue i).present? = some ⟨.value v [] use, body, callers⟩)
    (hgives : use.Gives (program.moment verbose queue i).world.store v id name w)
    (hslot : (program.moment verbose queue k).world.store.slot? id name = some slot)
    (hkind : slot.kind = .constant) : slot = .constant w true := by
  have hawaiting := slot?_of_gives hread (Nat.le_of_lt hlt) hpresent hgives hslot hkind
  have hset := slot?_succ_of_gives hread hpresent hgives hawaiting
  obtain ⟨now, hnow, rfl⟩ := (becomes_moment hread hlt).slot hset
  exact Option.some.inj (hslot.symm.trans hnow)

/-- A constant that is given a value is given it by its own declaration. -/
theorem initializes_of_gives (hread : Program.read text = .program program)
    (hpresent : (program.moment verbose queue k).present? = some ⟨.value v [] use, body, callers⟩)
    (hgives : use.Gives (program.moment verbose queue k).world.store v id name w)
    (hslot : (program.moment verbose queue k).world.store.slot? id name = some .awaiting) :
    program.Initializes verbose queue k id name w := by
  have hunderWay : program.UnderWay verbose queue k ⟨use, body, callers⟩ :=
    ⟨_, hpresent, List.mem_cons_self⟩
  have hdeclaration (hloop : ¬ use.IsLoop) : program.Initializes verbose queue k id name w := by
    obtain ⟨s, e, env, g, h, hevaluates⟩ := hunderWay.exists_evaluates hloop
    obtain rfl := hevaluates.wants.env_eq hgives
    exact .declaration hevaluates hpresent hgives
  cases hgives with
  | declare => exact hdeclaration nofun
  | destructure hv hident => exact hdeclaration nofun
  | @loopVariable name block id =>
    obtain ⟨t, hlt, hstarts, hsince⟩ := hunderWay.exists_starts
    cases hstarts with
    | goesOn _ huse _ => cases huse
    | @begins thread focus hloop hbegins hnext =>
      cases hbegins with
      | statement hwants => cases hwants
      | @trip kind ident _ env items v' n body' callers' helement =>
        -- the trip is the last move, because it gives the value at once
        have heq : k = t + 1 := by
          refine Nat.le_antisymm (Nat.not_lt.1 fun hlater ↦ ?_) hlt
          cases slot?_of_gives_lt hread hlater hnext .loopVariable hslot rfl
        subst heq
        cases hnext.symm.trans hpresent
        obtain ⟨e, span, f, g, h, hlt, hiterated⟩ :=
          @exists_iterated _ _ _ _ _ (Progress.mem_tasks_of_present? hloop)
            ⟨kind, ident, block, env, items⟩ List.mem_cons_self
        exact .trip hiterated hlt hloop helement rfl rfl rfl hpresent

/-! ### Whole runs -/

/-- A constant that is declared with an initial value begins without it. -/
theorem Born.slot?_eq_awaiting {scope : Scope} {done : List (Ident × Role)} {ident : Ident}
    (hborn : program.Born verbose queue j id first) (hbegins : first.Begins program scope done)
    (hitem : (ident, .constant true) ∈ done) :
    (program.moment verbose queue j).world.store.slot? id ident.name = some .awaiting := by
  obtain ⟨⟨name, slot⟩, hentry, hname, hslot⟩ := exists_entry_of_starts hbegins.entries hitem
  obtain rfl : name = ident.name := hname
  obtain rfl : slot = .awaiting := hslot
  exact Option.bind_eq_some_iff.2 ⟨first, hborn.record, Record.slot?_of_mem hbegins.nodup hentry⟩

/-- A constant that has awaited its value and has it was given it by its declaration. -/
theorem exists_initializes (hread : Program.read text = .program program) (hle : j ≤ k)
    (hstart : (program.moment verbose queue j).world.store.slot? id name = some .awaiting)
    (hset : (program.moment verbose queue k).world.store.slot? id name =
      some (.constant v true)) : ∃ i < k, program.Initializes verbose queue i id name v := by
  induction k, hle using Nat.le_induction with
  | base => cases hstart.symm.trans hset
  | succ k hle ih =>
    obtain ⟨slot, hslot, rfl | ⟨w, rfl⟩⟩ := (becomes_moment hread hle).slot hstart
    · -- the value comes of the last move
      obtain hstill | ⟨u, use, body, callers, w, hpresent, hgives, hgiven⟩ :=
        awaiting_cases hread hslot
      · cases hstill.symm.trans hset
      · cases hgiven.symm.trans hset
        exact ⟨k, Nat.lt_succ_self k, initializes_of_gives hread hpresent hgives hslot⟩
    · obtain ⟨slot, hslot', rfl⟩ := (becomes_moment hread (Nat.le_succ k)).slot hslot
      cases hslot'.symm.trans hset
      obtain ⟨i, hlt, hinitializes⟩ := ih hslot
      exact ⟨i, Nat.lt_succ_of_lt hlt, hinitializes⟩

/-- A constant has a value exactly if its declaration has given it that value. -/
theorem eq_constant_iff (hread : Program.read text = .program program) (hle : j ≤ k)
    (hstart : (program.moment verbose queue j).world.store.slot? id name = some .awaiting)
    (hslot : (program.moment verbose queue k).world.store.slot? id name = some slot) (v : Value) :
    slot = .constant v true ↔ ∃ i < k, program.Initializes verbose queue i id name v := by
  obtain ⟨now, hnow, hbecomes⟩ := (becomes_moment hread hle).slot hstart
  obtain rfl := Option.some.inj (hslot.symm.trans hnow)
  constructor
  · rintro rfl
    exact exists_initializes hread hle hstart hslot
  · rintro ⟨i, hlt, hinitializes⟩
    obtain ⟨u, use, body, callers, hpresent, hgives⟩ := hinitializes.exists_gives
    exact slot?_of_gives_lt hread hlt hpresent hgives hslot hbecomes.kind_eq

/-- A constant that has not been given a value and is not owed one never gets one. -/
theorem eq_awaiting_of_not_owed (hread : Program.read text = .program program)
    (hjm : j ≤ m) (hmk : m ≤ k)
    (hstart : (program.moment verbose queue j).world.store.slot? id name = some .awaiting)
    (hdue : .value id name ∉ (program.moment verbose queue m).dues)
    (hnone : ∀ i < m, ∀ v, ¬ program.Initializes verbose queue i id name v)
    (hslot : (program.moment verbose queue k).world.store.slot? id name = some slot) :
    slot = .awaiting := by
  obtain ⟨now, hnow, hbecomes⟩ := (becomes_moment hread (Nat.le_trans hjm hmk)).slot hstart
  obtain rfl := Option.some.inj (hslot.symm.trans hnow)
  obtain rfl | ⟨v, rfl⟩ := hbecomes
  · rfl
  · obtain ⟨i, -, hinitializes⟩ := exists_initializes hread (Nat.le_trans hjm hmk) hstart hslot
    obtain hlt | hle := Nat.lt_or_ge i m
    · exact (hnone i hlt v hinitializes).elim
    · obtain ⟨record, hrecord, -⟩ := Option.bind_eq_some_iff.1 hstart
      have hsize := (Array.getElem?_eq_some_iff.1 hrecord).1
      have henv := (becomes_moment hread hjm).lt_size hsize
      exact (hdue (owed_since hread hle henv hinitializes.value_mem_dues)).elim

/-- A constant whose evaluation has been given up has not been given a value. -/
theorem GivesUp.not_initializes (hread : Program.read text = .program program)
    (hgivesUp : program.GivesUp verbose queue m wait) (hdue : .value id name ∈ wait.use.dues)
    (hslot : (program.moment verbose queue m).world.store.slot? id name = some .awaiting)
    (hle : i ≤ m) : ¬ program.Initializes verbose queue i id name v := by
  intro hinitializes
  obtain ⟨u, use, body, callers, hpresent, hgives⟩ := hinitializes.exists_gives
  obtain hlt | rfl := Nat.lt_or_eq_of_le hle
  · cases slot?_of_gives_lt hread hlt hpresent hgives hslot rfl
  · exact hgivesUp.not_gives hread hdue hpresent hgives

/-- The history of a constant that is declared with an initial value, in any record. It begins
without a value. No assignment to it succeeds at any moment; each is refused and leaves all records
as they are. It has a value exactly if its declaration has given it that value. As long as it has
none, every use of it is a fault. And it has none forever, once an evaluation that was to give it
one has been given up, or once it is owed none and has not been given any. -/
theorem constants_hold_initial_values {scope : Scope} {done : List (Ident × Role)} {ident : Ident}
    (hread : Program.read text = .program program)
    (hborn : program.Born verbose queue j id first) (hbegins : first.Begins program scope done)
    (hitem : (ident, .constant true) ∈ done) :
    first.slot? ident.name = some .awaiting ∧
    (∀ k v, ¬ (program.moment verbose queue k).Writes id ident.name v ∧
      ((program.moment verbose queue k).Assigns id ident.name v →
        (program.moment verbose queue k).Refuses ident.name ∧
          program.KeepsRecords verbose queue k)) ∧
    ∀ k, j ≤ k → ∃ slot,
      (program.moment verbose queue k).world.store.slot? id ident.name = some slot ∧
      (slot = .awaiting ∨ ∃ v, slot = .constant v true) ∧
      (∀ v, slot = .constant v true ↔
        ∃ i < k, program.Initializes verbose queue i id ident.name v) ∧
      (slot = .awaiting → (program.moment verbose queue k).Uses id ident.name →
        (program.moment verbose queue k).Raises (.unboundAccess ident.name)) ∧
      (∀ m < k, ∀ wait, program.GivesUp verbose queue m wait →
        .value id ident.name ∈ wait.use.dues → slot = .awaiting) ∧
      ∀ m, j ≤ m → m ≤ k → .value id ident.name ∉ (program.moment verbose queue m).dues →
        (∀ i < m, ∀ v, ¬ program.Initializes verbose queue i id ident.name v) →
          slot = .awaiting := by
  have hstart := hborn.slot?_eq_awaiting hbegins hitem
  have hstate {k : Nat} (hle : j ≤ k) : ∃ slot,
      (program.moment verbose queue k).world.store.slot? id ident.name = some slot ∧
        (slot = .awaiting ∨ ∃ v, slot = .constant v true) :=
    (becomes_moment hread hle).slot hstart
  refine ⟨?_, fun k v ↦ ⟨fun hwrites ↦ ?_, fun hassigns ↦ ?_⟩, fun k hle ↦ ?_⟩
  · obtain ⟨record, hrecord, hslot⟩ := Option.bind_eq_some_iff.1 hstart
    obtain rfl := Option.some.inj (hborn.record.symm.trans hrecord)
    exact hslot
  · obtain ⟨slot, hslot⟩ := hwrites.assigns.exists_slot
    obtain ⟨slot', hslot', hcases⟩ := hstate (hborn.le hslot)
    obtain rfl | ⟨w, rfl⟩ := hcases <;> cases hwrites.eq_unset hslot' rfl
  · obtain ⟨slot, hslot⟩ := hassigns.exists_slot
    obtain ⟨slot', hslot', hcases⟩ := hstate (hborn.le hslot)
    have hrefuses : (program.moment verbose queue k).Refuses ident.name := by
      obtain rfl | ⟨w, rfl⟩ := hcases <;> exact hassigns.refuses hslot' rfl nofun
    exact ⟨hrefuses, keepsRecords_of_refuses hrefuses⟩
  · obtain ⟨slot, hslot, hcases⟩ := hstate hle
    refine ⟨slot, hslot, hcases, eq_constant_iff hread hle hstart hslot, ?_, ?_, ?_⟩
    · rintro rfl huses
      exact huses.raises hslot
    · intro m hlt wait hgivesUp hdue
      obtain ⟨thread, hpresent, hwait⟩ := hgivesUp.before
      have hmem := (Thread.dues_sublist_of_mem_waits hwait).subset (List.mem_append_left _ hdue)
      obtain ⟨old, hold, hopen⟩ := exists_open_of_value_mem_dues hread
        (List.mem_flatMap.2 ⟨thread, Progress.mem_tasks_of_present? hpresent, hmem⟩)
      have hjm := hborn.le hold
      obtain ⟨old', hold', hkind⟩ := (becomes_moment hread hjm).slot hstart
      obtain rfl := Option.some.inj (hold.symm.trans hold')
      obtain rfl := hopen.eq_awaiting hkind.kind_eq
      exact eq_awaiting_of_not_owed hread (Nat.le_succ_of_le hjm) hlt hstart
        (hgivesUp.value_not_mem_dues hread hdue)
        (fun i hi v ↦ hgivesUp.not_initializes hread hdue hold (Nat.le_of_lt_succ hi)) hslot
    · intro m hjm hmk hdue hnone
      exact eq_awaiting_of_not_owed hread hjm hmk hstart hdue hnone hslot

/-- A function looks up a constant whose initial value could not be evaluated. -/
theorem constants_hold_initial_values_of_failed_evaluation : ∃ program,
    Program.read (String.toList
        "let f; try \x7bf = function() \x7bc;\x7d; const c = f();\x7d catch (e) \x7b\x7d f();") =
        .program program ∧
      (program.moment false .empty 29).world.store.slot? 2 "c" = some .awaiting ∧
      (program.moment false .empty 29).LooksUp 2 "c" ∧
      (program.moment false .empty 29).Raises (.unboundAccess "c") ∧
      ∀ k v, ¬ (program.moment false .empty k).Writes 2 "c" v := by
  have hrun : ((ofText? (String.toList
        "let f; try {f = function() {c;}; const c = f();} catch (e) {} f();")).bind
      fun program ↦ ((program.moment false .empty 29).world.store.slot? 2 "c").map fun slot ↦
        ((program.moment false .empty 29).looksUp?, slot.isAwaiting)) =
      some (some (2, "c"), true) := by
    decide +kernel
  obtain ⟨program, htext, hrun⟩ := Option.bind_eq_some_iff.1 hrun
  obtain ⟨slot, hslot, hrun⟩ := Option.map_eq_some_iff.1 hrun
  obtain ⟨hlooks, hawaiting⟩ := Prod.mk.inj hrun
  have hread := read_of_ofText? htext
  have hlooks := Progress.looksUp_of_looksUp? hlooks
  cases slot with
  | awaiting =>
    obtain ⟨j, first, start, hle, hborn, -, -, hbecomes, hrole⟩ := exists_start hread hslot
    obtain rfl := hbecomes.eq_awaiting
    obtain ⟨-, v, hv⟩ | ⟨scope, done, ⟨ident', role⟩, hbegins, hitem, hname', hstarts⟩ := hrole
    · cases hv
    · obtain rfl := Role.eq_constant_of_starts hstarts
      obtain ⟨-, hwrites, hmoments⟩ := constants_hold_initial_values hread hborn hbegins hitem
      rw [hname'] at hwrites hmoments
      obtain ⟨slot, hslot', -, -, huses, -⟩ := hmoments 29 hle
      obtain rfl := Option.some.inj (hslot.symm.trans hslot')
      exact ⟨program, hread, hslot, hlooks, huses rfl (.looksUp hlooks),
        fun k v ↦ (hwrites k v).1⟩
  | _ => cases hawaiting

end Program

end LateConst
