import LateConst.Proofs.Unwinding

/-!
# Where a fault is caught

A fault is taken by the innermost `try` whose body its task is in, counting the bodies around the
calls that have led to it. The handler gets the value that was thrown, or an error that tells about
the fault, and finds the world as the fault has left it. After that its `try` takes no fault any
more. A fault for which there is no handler ends the run, and so does every crash
(`Program.innermost_handler_takes_over`).
-/

namespace LateConst

/-! ### Worlds -/

/-- What is in a world is still there, and no more has been shown. -/
structure World.IsKept (world world' : World) : Prop where
  records : ∀ (id : RecordId) record, world.store.records[id]? = some record →
    world'.store.records[id]? = some record
  arrays : world'.store.arrays = world.store.arrays
  events : world'.events = world.events

theorem World.IsKept.refl (world : World) : world.IsKept world := ⟨fun _ _ h ↦ h, rfl, rfl⟩

/-- A handler is about to start in a new record that holds what it has caught and nothing else. The
rest of the world is as it was when the fault was raised. -/
structure Landing.Starts (landing : Landing) (fault : Fault) (world : World) (thread : Thread)
    (world' : World) : Prop where
  thread : thread = ⟨.exec (.block landing.handler) world.store.records.size, landing.body,
    landing.callers⟩
  records : world'.store.records = world.store.records.push
    ⟨.handler, world.store.chain landing.env,
      [⟨landing.ident.name, .mutable (fault.caught world.store.nextRef) true⟩]⟩
  arrays : world'.store.arrays = world.store.arrays
  room : world'.store.room = world.store.room
  events : world'.events = world.events

theorem Landing.starts_catching (landing : Landing) (fault : Fault) (world : World) :
    landing.Starts fault world (landing.thread world) (world.catching landing fault) where
  thread := rfl
  records := Store.addName_push (world.store.fresh.2.records_addRecord .handler landing.env) _ _
  arrays := rfl
  room := rfl
  events := rfl

/-- What a handler gets: the very value that was thrown, or else an error with the family and the
message of the fault. -/
structure Fault.IsCaught (fault : Fault) (thread : Thread) : Prop where
  thrown : ∀ v text, fault = .thrown v text →
    (∃ stmt, thread.focus = .value v [] (.throw stmt)) ∧ ∀ ref, fault.caught ref = v
  raised : (∀ v text, fault ≠ .thrown v text) →
    ∀ ref, fault.caught ref = .error ref fault.family fault.message

namespace Thread.RaisesAt

variable {thread : Thread} {world world' : World} {body : List StmtFrame} {callers : List Caller}
  {site : Option Site} {fault : Fault}

/-- What was done before a fault is raised stays done. -/
theorem isKept (h : thread.RaisesAt world world' body callers site fault) :
    world.IsKept world' := by
  cases h with
  | @declaration store record before after ident _ _ _ hrecords harrays =>
    refine ⟨fun id found hfound ↦ ?_, harrays, rfl⟩
    obtain ⟨hlt, rfl⟩ := Array.getElem?_eq_some_iff.1 hfound
    rw [hrecords, Array.getElem?_push_lt hlt]
  | _ => exact .refl world

theorem isCaught (h : thread.RaisesAt world world' body callers site fault) :
    fault.IsCaught thread where
  thrown v text heq := by
    subst heq
    cases h with
    | node _ _ hfault => exact hfault.elim
    | thrown hfocus _ => exact ⟨⟨_, hfocus⟩, fun _ ↦ rfl⟩
    | spawned _ _ _ hfault => exact hfault.elim
  raised hthrown ref := by
    cases fault with
    | thrown v text => exact (hthrown v text rfl).elim
    | _ => rfl

end Thread.RaisesAt

/-! ### Guards -/

theorem Frame.part_eq_of_landing? {frame : Frame} {landing : Landing}
    (h : frame.landing? = some landing) : frame.part = .guard landing := by
  obtain ⟨since, part⟩ := frame
  cases part with
  | node depth site => cases h
  | guard found => exact congrArg Part.guard (Option.some.inj h)

/-- The body of a `try` is begun by the task that goes into it. -/
theorem Thread.mem_opened_of_mem_begins {thread : Thread} {landing : Landing}
    (h : .guard landing ∈ thread.begins) : landing ∈ thread.opened := by
  obtain hmem | hmem := List.mem_append.1 h
  · obtain ⟨found, hfound, heq⟩ := List.mem_map.1 hmem
    rwa [← Part.guard.inj heq]
  · obtain ⟨station, -, heq⟩ := List.mem_map.1 hmem
    cases heq

theorem Thread.mem_stack_of_mem_openAt {thread : Thread} {k : Nat} {stack : List Frame}
    {fault : Fault} {guard : Frame} {landing : Landing} (hopened : thread.opened = [])
    (hguard : guard.landing? = some landing) (h : guard ∈ thread.openAt k stack fault) :
    guard ∈ stack := by
  obtain hold | ⟨-, hbegins⟩ := mem_frames (List.mem_filter.1 h).1
  · exact hold
  · rw [Frame.part_eq_of_landing? hguard] at hbegins
    exact (List.not_mem_nil (hopened ▸ mem_opened_of_mem_begins hbegins)).elim

/-- A `try` takes over in the step after this moment. The task has gone into its body once and has
been there since, also when it waited. The handler is about to start, and the other tasks wait as
before. This body is never open again, and it is open in no other task at any moment. -/
structure Program.TakesOver (program : Program) (verbose : Bool) (queue : TurnQueue Thread)
    (label : String) (k : Nat) (world' : World) (fault : Fault) (guard : Frame)
    (landing : Landing) : Prop where
  own : guard.since < k ∧ ∃ before,
    (program.moment verbose queue guard.since).job? = some ⟨label, before⟩ ∧
      landing ∈ before.opened
  stays : ∀ m, guard.since < m → m ≤ k → ∃ thread,
    ⟨label, thread⟩ ∈ (program.moment verbose queue m).jobs ∧ guard.depth ≤ thread.depth ∧
      landing ∈ thread.landings
  starts : ∃ world waiting thread left after,
    program.moment verbose queue k = .going ⟨world, waiting, some ⟨label, thread⟩⟩ ∧
      program.moment verbose queue (k + 1) = .going ⟨after, waiting, some ⟨label, left⟩⟩ ∧
      landing.Starts fault world' left after
  never : ∀ m > k, ∀ (thread : Thread) (fault : Fault),
    guard ∉ thread.openAt m (program.stack verbose queue label m) fault
  others : ∀ m other thread fault, other ≠ label →
    (program.moment verbose queue m).job? = some ⟨other, thread⟩ →
      guard ∉ thread.openAt m (program.stack verbose queue other m) fault

namespace Program

variable {program : Program} {verbose : Bool} {queue : TurnQueue Thread} {label : String} {k : Nat}
  {thread : Thread} {world' : World} {fault : Fault} {site : Option Site}

/-- A body that has been left is never open again. -/
theorem not_mem_openAt {guard : Frame} {m : Nat} (hsince : guard.since ≤ k) (hlt : k < m)
    (hleft : guard ∉ program.stack verbose queue label (k + 1)) :
    guard ∉ thread.openAt m (program.stack verbose queue label m) fault := by
  intro hguard
  obtain hold | ⟨rfl, -⟩ := Thread.mem_frames (List.mem_filter.1 hguard).1
  · exact hleft (mem_stack_of_le (Nat.lt_succ_of_le hsince) hlt hold)
  · exact Nat.not_lt.2 hsince hlt

/-- The body of a `try` is left when its handler takes over. -/
theorem not_mem_stack_of_lands {world world' : World} {guard : Frame} {landing : Landing}
    (hjob : (program.moment verbose queue k).job? = some ⟨label, thread⟩)
    (hmove : thread.move (program.moment verbose queue k).world =
      .goOn world (landing.thread world'))
    (hguard : guard.landing? = some landing) :
    guard ∉ program.stack verbose queue label (k + 1) := by
  rw [stack_succ_of_job? hjob, hmove]
  intro hstill
  have hle : guard.depth ≤ (landing.thread world').depth :=
    of_decide_eq_true (List.mem_filter.1 hstill).2
  rw [Frame.depth, Frame.part_eq_of_landing? hguard] at hle
  simp [Part.depth, Landing.depth, Landing.thread, Thread.depth, Depth.le_def] at hle

/-- The innermost body that is open where a fault is raised is that of the `try` that takes over. -/
theorem takesOver_of_uncaught?
    (hjob : (program.moment verbose queue k).job? = some ⟨label, thread⟩)
    (hraises : thread.uncaught? (program.moment verbose queue k).world =
      some (world', fault, site))
    {inner outer : List Frame} {guard : Frame} {landing : Landing}
    (hopen : thread.openAt k (program.stack verbose queue label k) fault =
      inner ++ guard :: outer)
    (hinner : ∀ frame ∈ inner, frame.landing? = none) (hguard : guard.landing? = some landing) :
    program.TakesOver verbose queue label k world' fault guard landing := by
  have hstands := program.stands (Progress.mem_jobs_of_job? hjob)
  obtain ⟨body, callers, hmove, hat, hopened⟩ := Thread.exists_raisesAt_of_uncaught? hraises
  have hfind : Landing.find body callers = some landing := by
    rw [Landing.find_eq_head?, ← hat.landings_openAt (k := k) hopened hstands, hopen,
      List.filterMap_append, List.filterMap_eq_nil_iff.2 hinner, List.nil_append,
      List.filterMap_cons_some hguard, List.head?_cons]
  rw [Thread.raise_of_find hfind] at hmove
  have hmem : guard ∈ thread.openAt k (program.stack verbose queue label k) fault := by
    rw [hopen]
    exact List.mem_append_right _ List.mem_cons_self
  have hstack := Thread.mem_stack_of_mem_openAt hopened hguard hmem
  obtain ⟨hsince, before, hbefore, hbegins⟩ := exists_begins_of_mem_stack hstack
  rw [Frame.part_eq_of_landing? hguard] at hbegins
  have hleft := not_mem_stack_of_lands hjob hmove hguard
  obtain ⟨waiting, hgoing⟩ := Progress.exists_going_of_job? hjob
  refine ⟨⟨hsince, before, hbefore, Thread.mem_opened_of_mem_begins hbegins⟩,
    fun m hm hle ↦ ?_, ?_, fun m hm _ _ ↦ not_mem_openAt (Nat.le_of_lt hsince) hm hleft,
    fun m other _ _ hne hother hmem' ↦ ?_⟩
  · obtain ⟨within, hwithin, hdeep, hlandings⟩ :=
      exists_mem_jobs_of_mem_stack hjob hle (mem_stack_of_le hm hle hstack)
    exact ⟨within, hwithin, hdeep, hlandings landing hguard⟩
  · refine ⟨_, waiting, thread, _, _, hgoing, ?_, landing.starts_catching fault world'⟩
    rw [moment, hgoing]
    exact Progress.next_of_goOn hmove
  · obtain ⟨-, _, hbegun, -⟩ := exists_begins_of_mem_openAt hother hmem'
    cases hbefore.symm.trans hbegun
    exact hne rfl

/-- A fault goes to the innermost `try` whose body its task is in, wherever the body was begun and
however often the task has waited since. The handler gets the value that was thrown or an error that
tells about the fault; what was done before stays done. If there is no such `try` the run ends with
the fault, as it does if a name of the program itself is declared twice. A crash ends it in any
case. -/
theorem innermost_handler_takes_over (program : Program) (verbose : Bool)
    (queue : TurnQueue Thread) :
    (∀ k label thread, (program.moment verbose queue k).job? = some ⟨label, thread⟩ →
      ∀ world' fault site,
        thread.uncaught? (program.moment verbose queue k).world = some (world', fault, site) →
        (program.moment verbose queue k).world.IsKept world' ∧ fault.IsCaught thread ∧
          ((∀ frame ∈ thread.openAt k (program.stack verbose queue label k) fault,
              frame.landing? = none) →
            ∃ rest, program.moment verbose queue (k + 1) =
              .ended world' rest (some (.uncaught fault site))) ∧
          ∀ inner guard outer landing,
            thread.openAt k (program.stack verbose queue label k) fault =
              inner ++ guard :: outer →
            (∀ frame ∈ inner, frame.landing? = none) → guard.landing? = some landing →
            program.TakesOver verbose queue label k world' fault guard landing) ∧
    (∀ k label thread, (program.moment verbose queue k).job? = some ⟨label, thread⟩ →
      ∀ world' crash, thread.exposed.move (program.moment verbose queue k).world =
          .fail world' (.crash crash) →
        ∃ rest, program.moment verbose queue (k + 1) =
          .ended world' rest (some (.crash crash))) ∧
    ∀ ident, program.declared.2 = some ident → ∃ world rest,
      program.moment verbose queue 0 =
        .ended world rest (some (.uncaught (.duplicateName ident.name) (some (.ident ident)))) := by
  refine ⟨fun k label thread hjob world' fault site hraises ↦ ?_,
    fun k label thread hjob world' crash hcrash ↦ ?_, fun ident hdeclared ↦ ?_⟩
  · obtain ⟨body, callers, -, hat, -⟩ := Thread.exists_raisesAt_of_uncaught? hraises
    exact ⟨hat.isKept, hat.isCaught, exists_ended_of_uncaught? hjob hraises,
      fun _ _ _ _ hopen hinner hguard ↦ takesOver_of_uncaught? hjob hraises hopen hinner hguard⟩
  · obtain ⟨waiting, hgoing⟩ := Progress.exists_going_of_job? hjob
    refine ⟨waiting.abandon, ?_⟩
    rw [moment, hgoing]
    exact Progress.next_of_fail (Thread.move_of_crash hcrash)
  · exact ⟨_, _, moment_of_declared_eq_some hdeclared verbose queue 0⟩

/-- A function throws an array to a `try` in which its task has waited before, and the handler adds
an element to it. -/
theorem innermost_handler_takes_over_after_pause : ∃ program thread world' fault site guard landing,
    read (String.toList
      ("let a = [1]; function f() \x7bthrow a;\x7d " ++
        "try \x7bprint 1; pause; f();\x7d catch (e) \x7bpush(e, 2);\x7d print a;")) =
      .program program ∧
      (program.moment false .empty 28).job? = some ⟨"main#1", thread⟩ ∧
      thread.uncaught? (program.moment false .empty 28).world = some (world', fault, site) ∧
      guard.since = 10 ∧ landing.ident.name = "e" ∧ (program.moment false .empty 18).job? = none ∧
      program.TakesOver false .empty "main#1" 28 world' fault guard landing ∧
      (program.moment false .empty 50).world.printed = ["1", "[1, 2]"] := by
  have hrun : ((ofText? (String.toList
      ("let a = [1]; function f() \x7bthrow a;\x7d " ++
        "try \x7bprint 1; pause; f();\x7d catch (e) \x7bpush(e, 2);\x7d print a;"))).bind
      fun program ↦ (program.moment false .empty 28).job?.bind fun job ↦
        (job.work.uncaught? (program.moment false .empty 28).world).bind fun raised ↦
          ((job.work.openAt 28 (program.stack false .empty job.label 28) raised.2.1).find?
            fun frame ↦ frame.landing?.isSome).bind fun guard ↦ guard.landing?.map fun landing ↦
              (job.label, guard.since, landing.ident.name,
                (program.moment false .empty 18).job?.isNone,
                (program.moment false .empty 50).world.printed)) =
      some ("main#1", 10, "e", true, ["1", "[1, 2]"]) := by
    decide +kernel
  obtain ⟨program, htext, hrun⟩ := Option.bind_eq_some_iff.1 hrun
  obtain ⟨⟨label, thread⟩, hjob, hrun⟩ := Option.bind_eq_some_iff.1 hrun
  obtain ⟨⟨world', fault, site⟩, hraises, hrun⟩ := Option.bind_eq_some_iff.1 hrun
  obtain ⟨guard, hfind, hrun⟩ := Option.bind_eq_some_iff.1 hrun
  obtain ⟨landing, hguard, hrun⟩ := Option.map_eq_some_iff.1 hrun
  obtain rfl : label = "main#1" := congrArg Prod.fst hrun
  obtain ⟨-, inner, outer, hopen, hinner⟩ := List.find?_eq_some_iff_append.1 hfind
  obtain ⟨hfaults, -⟩ := program.innermost_handler_takes_over false .empty
  obtain ⟨-, -, -, htakes⟩ := hfaults _ _ _ hjob _ _ _ hraises
  have hover := htakes inner guard outer landing hopen
    (fun frame hframe ↦ by simpa using hinner frame hframe) hguard
  exact ⟨program, thread, world', fault, site, guard, landing, read_of_ofText? htext, hjob, hraises,
    congrArg (·.2.1) hrun, congrArg (·.2.2.1) hrun,
    Option.isNone_iff_eq_none.1 (congrArg (·.2.2.2.1) hrun), hover, congrArg (·.2.2.2.2) hrun⟩

end Program

end LateConst
