import LateConst.Proofs.Evaluation.Loop
import LateConst.Proofs.Growth
import LateConst.Proofs.Narration
import LateConst.Proofs.RoundRobin.Job

/-!
# Loops see arrays whole

A loop over an array asks for one more element before every trip, and ends when there is none. Since
arrays only grow, the elements that it has seen by then are all that the array has
(`Program.arrays_are_seen_whole`), whoever has added them, and whenever.
-/

namespace LateConst

/-! ### One trip -/

namespace Store

/-- The record of one trip, with its variable not given a value yet. -/
def addTrip (store : Store) (loop : Loop) : Store :=
  (store.addRecord .iteration (some loop.env)).2.addName store.records.size loop.ident.name
    (.declared loop.kind true)

theorem records_addTrip (store : Store) (loop : Loop) :
    (store.addTrip loop).records = store.records.push
      ⟨.iteration, store.chain loop.env, [⟨loop.ident.name, .declared loop.kind true⟩]⟩ :=
  addName_push (records_addRecord store .iteration loop.env) _ _

/-- The variable of the trip is given its value, and its record holds nothing else. -/
theorem exists_slotToDefine_addTrip (store : Store) (loop : Loop) (v : Value) : ∃ slot,
    (store.addTrip loop).slotToDefine store.records.size loop.ident.name v = .ok slot ∧
      slot.value? = some v ∧
      ((store.addTrip loop).setSlot store.records.size loop.ident.name slot).records =
        store.records.push ⟨.iteration, store.chain loop.env, [⟨loop.ident.name, slot⟩]⟩ := by
  have hslot : (store.addTrip loop).slot? store.records.size loop.ident.name =
      some (.declared loop.kind true) := by
    rw [slot?, records_addTrip, Array.getElem?_push_size]
    simp [Record.slot?]
  have hrecords (slot : Slot) :
      ((store.addTrip loop).setSlot store.records.size loop.ident.name slot).records =
        store.records.push ⟨.iteration, store.chain loop.env, [⟨loop.ident.name, slot⟩]⟩ := by
    rw [setSlot, records_addTrip, modify_push]
    simp [Record.set]
  have hdefine : ∃ slot, (Slot.declared loop.kind true).define loop.ident.name v = .ok slot ∧
      slot.value? = some v := by
    cases loop.kind <;> exact ⟨_, rfl, rfl⟩
  obtain ⟨slot, hdefine, hvalue⟩ := hdefine
  refine ⟨slot, ?_, hvalue, hrecords slot⟩
  rw [slotToDefine_of_slot? hslot, hdefine]
  rfl

end Store

namespace Loop

variable {loop : Loop} {n : Nat} {world : World}

/-- Where there are no more elements, the loop is left. -/
theorem move_head_of_none (h : loop.items.element? world.store n = none) :
    (loop.head n).move world = .goOn world loop.exit := by
  rw [head, Thread.move, frame, Thread.advance]
  dsimp only
  rw [h]
  rfl

/-- Where there is one more element, a trip is made with it. -/
theorem move_head_of_some {v : Value} (h : loop.items.element? world.store n = some v) :
    (loop.head n).move world = .goOn ⟨world.store.addTrip loop, world.events⟩
      ⟨.value v [] (.loopVariable loop.ident.name loop.block world.store.records.size),
        loop.frame (n + 1) :: loop.body, loop.callers⟩ := by
  rw [head, Thread.move, frame, Thread.advance]
  dsimp only
  rw [h]
  rfl

end Loop

/-- Who is inside of a loop after a move from its head has begun one more trip. -/
theorem Loop.exists_element?_of_own? {loop : Loop} {n m : Nat} {world : World} {thread : Thread}
    (h : ((loop.head m).move world).own? = some thread)
    (hloop : loop.Surrounds n thread.body thread.callers) :
    ∃ v, loop.items.element? world.store m = some v ∧ n = m + 1 := by
  cases helement : loop.items.element? world.store m with
  | none =>
    rw [move_head_of_none helement] at h
    cases h
    exact hloop.not_exit.elim
  | some v =>
    rw [move_head_of_some helement] at h
    cases h
    exact ⟨v, rfl, hloop.unique (loop.surrounds_head (m + 1))⟩

/-- The variable of a loop gets its value, and the block is executed next. -/
theorem Thread.move_loopVariable {store : Store} {events : Array Event} {name : String}
    {block : Block} {env : RecordId} {v : Value} {slot : Slot} {body : List StmtFrame}
    {callers : List Caller} (h : store.slotToDefine env name v = .ok slot) :
    Thread.move ⟨.value v [] (.loopVariable name block env), body, callers⟩ ⟨store, events⟩ =
      .goOn ⟨store.setSlot env name slot, events⟩ ⟨.exec (.block block) env, body, callers⟩ := by
  rw [move, apply]
  dsimp only
  rw [h]

/-- The loop over an array at whose head a thread stands, the array, and how many trips have been
made. -/
def Thread.arrayLoop? : Thread → Option (Loop × Ref × Nat)
  | ⟨.next, .forLoop kind ident block env (.array ref) n :: body, callers⟩ =>
    some (⟨⟨kind, ident, block, env, .array ref⟩, body, callers⟩, ref, n)
  | _ => none

theorem Thread.eq_head_of_arrayLoop? {thread : Thread} {loop : Loop} {ref : Ref} {n : Nat}
    (h : thread.arrayLoop? = some (loop, ref, n)) :
    thread = loop.head n ∧ loop.items = .array ref := by
  unfold arrayLoop? at h
  split at h
  · cases h
    exact ⟨rfl, rfl⟩
  · cases h

/-! ### The trips of a loop -/

namespace Program

variable {program : Program} {verbose : Bool} {queue : TurnQueue Thread} {label : String}
  {loop : Loop} {thread : Thread} {ref : Ref} {g k n m t : Nat} {v : Value} {trips : List Nat}
  {values : List Value}

/-- At a moment the task stands at the head of the loop. Two moves later it is about to execute the
block in a record that was not there before and holds nothing but the variable of the loop, with
this value. -/
def Trip (program : Program) (verbose : Bool) (queue : TurnQueue Thread) (label : String)
    (loop : Loop) (t : Nat) (v : Value) : Prop :=
  ∃ n id slot, (program.moment verbose queue t).job? = some ⟨label, loop.head n⟩ ∧
    (program.moment verbose queue t).world.store.records[id]? = none ∧
    (program.moment verbose queue (t + 2)).job? = some ⟨label,
      ⟨.exec (.block loop.block) id, loop.frame (n + 1) :: loop.body, loop.callers⟩⟩ ∧
    (program.moment verbose queue (t + 2)).world.store.records[id]? =
      some ⟨.iteration, (program.moment verbose queue t).world.store.chain loop.env,
        [⟨loop.ident.name, slot⟩]⟩ ∧ slot.value? = some v

/-- What is left of the task at a moment is inside of the loop. -/
def Inside (program : Program) (verbose : Bool) (queue : TurnQueue Thread) (label : String)
    (loop : Loop) (t : Nat) : Prop :=
  ∃ n thread, ⟨label, thread⟩ ∈ (program.moment verbose queue t).jobs ∧
    loop.Surrounds n thread.body thread.callers

/-- The task has begun the loop at one moment and is inside of it ever since, up to another one. In
between it has made these trips, in this order, and with these values. -/
structure Trips (program : Program) (verbose : Bool) (queue : TurnQueue Thread) (label : String)
    (loop : Loop) (g k : Nat) (trips : List Nat) (values : List Value) : Prop where
  lt : g < k
  begins : ∃ stmt, (program.moment verbose queue g).job? = some ⟨label, loop.entry stmt⟩
  inside : ∀ t, g < t → t ≤ k → program.Inside verbose queue label loop t
  ordered : trips.Pairwise (· < ·)
  mem_iff : ∀ t, t ∈ trips ↔ g < t ∧ t < k ∧
    ∃ n, (program.moment verbose queue t).job? = some ⟨label, loop.head n⟩
  bound : List.Forall₂ (program.Trip verbose queue label loop) trips values

theorem job?_succ {world : World} {work : Thread}
    (hjob : (program.moment verbose queue k).job? = some ⟨label, thread⟩)
    (hmove : thread.move (program.moment verbose queue k).world = .goOn world work) :
    (program.moment verbose queue (k + 1)).job? = some ⟨label, work⟩ ∧
      (program.moment verbose queue (k + 1)).world = world :=
  Progress.next_of_job? hjob fun _ ↦ hmove

/-- A task at the head of a loop makes a trip if there is one more element. -/
theorem trip_of_element? (hhead : (program.moment verbose queue t).job? = some ⟨label, loop.head n⟩)
    (helement : loop.items.element? (program.moment verbose queue t).world.store n = some v) :
    program.Trip verbose queue label loop t v := by
  obtain ⟨slot, hslot, hvalue, hrecords⟩ :=
    (program.moment verbose queue t).world.store.exists_slotToDefine_addTrip loop v
  obtain ⟨hjob, hworld⟩ := job?_succ hhead (Loop.move_head_of_some helement)
  obtain ⟨hjob, hworld⟩ := job?_succ hjob (hworld ▸ Thread.move_loopVariable hslot)
  refine ⟨n, _, slot, hhead, Array.getElem?_eq_none (Nat.le_refl _), hjob, ?_, hvalue⟩
  rw [hworld, hrecords, Array.getElem?_push_size]

/-- No two tasks have the same label. -/
theorem nodup_jobs (program : Program) (verbose : Bool) (queue : TurnQueue Thread) (k : Nat) :
    ((program.moment verbose queue k).jobs.map Job.label).Nodup := by
  cases hdeclared : program.declared.2 with
  | some ident =>
    rw [moment_of_declared_eq_some hdeclared]
    exact List.nodup_nil
  | none =>
    obtain ⟨line, hlog, hline⟩ := (program.taskRun verbose).exists_steps_log
      (fun _ world thread ↦ thread.keepsOthers_move world) k
    rw [moment_eq_taskRun verbose hdeclared]
    cases hmoment : (program.taskRun verbose).moment k with
    | ended world rest error => exact List.nodup_nil
    | going rota =>
      rw [hmoment] at hline
      obtain rfl := hline
      have hnodup := hlog.accounts.nodup_everyone.of_append_left
      obtain ⟨world, queue, present⟩ := rota
      cases present <;> exact hnodup

/-- The loop begins, and no trip has been made yet. -/
theorem Trips.begin {stmt : Stmt}
    (hentry : (program.moment verbose queue k).job? = some ⟨label, loop.entry stmt⟩)
    (hinside : program.Inside verbose queue label loop (k + 1)) :
    program.Trips verbose queue label loop k (k + 1) [] [] where
  lt := Nat.lt_succ_self k
  begins := ⟨stmt, hentry⟩
  inside t hlt hle := by
    obtain rfl : t = k + 1 := Nat.le_antisymm hle hlt
    exact hinside
  ordered := .nil
  mem_iff t := ⟨fun hmem ↦ (by cases hmem), fun ⟨hlt, hlt', _⟩ ↦ by omega⟩
  bound := .nil

/-- The next moment adds to the trips if the task is at the head of the loop, and only then. -/
theorem Trips.append (h : program.Trips verbose queue label loop g k trips values)
    (hinside : program.Inside verbose queue label loop (k + 1)) {new : List Nat}
    {more : List Value} (hordered : new.Pairwise (· < ·))
    (hnew : ∀ t, t ∈ new ↔ t = k ∧
      ∃ n, (program.moment verbose queue t).job? = some ⟨label, loop.head n⟩)
    (hbound : List.Forall₂ (program.Trip verbose queue label loop) new more) :
    program.Trips verbose queue label loop g (k + 1) (trips ++ new) (values ++ more) where
  lt := Nat.lt_succ_of_lt h.lt
  begins := h.begins
  inside t hlt hle := by
    obtain rfl | hle := Nat.eq_or_lt_of_le hle
    · exact hinside
    · exact h.inside t hlt (Nat.le_of_lt_succ hle)
  ordered := by
    refine List.pairwise_append.2 ⟨h.ordered, hordered, fun t ht t' ht' ↦ ?_⟩
    obtain rfl := ((hnew t').1 ht').1
    exact ((h.mem_iff t).1 ht).2.1
  mem_iff t := by
    rw [List.mem_append, h.mem_iff, hnew]
    constructor
    · rintro (⟨hlt, hlt', hhead⟩ | ⟨rfl, hhead⟩)
      · exact ⟨hlt, Nat.lt_succ_of_lt hlt', hhead⟩
      · exact ⟨h.lt, Nat.lt_succ_self t, hhead⟩
    · rintro ⟨hlt, hlt', hhead⟩
      obtain rfl | hlt' := Nat.eq_or_lt_of_le (Nat.le_of_lt_succ hlt')
      · exact .inr ⟨rfl, hhead⟩
      · exact .inl ⟨hlt, hlt', hhead⟩
  bound := List.rel_append h.bound hbound

/-- Who is not at the head of the loop makes no trip. -/
theorem Trips.stay (h : program.Trips verbose queue label loop g k trips values)
    (hinside : program.Inside verbose queue label loop (k + 1))
    (hhead : ∀ n, (program.moment verbose queue k).job? ≠ some ⟨label, loop.head n⟩) :
    program.Trips verbose queue label loop g (k + 1) trips values := by
  have hnew (t : Nat) : t ∈ [] ↔ t = k ∧
      ∃ n, (program.moment verbose queue t).job? = some ⟨label, loop.head n⟩ := by
    refine ⟨fun hmem ↦ (by cases hmem), ?_⟩
    rintro ⟨rfl, n, htrip⟩
    exact (hhead n htrip).elim
  simpa using h.append hinside .nil hnew .nil

/-- Who is at the head of the loop, and has one more element, makes one more trip with it. -/
theorem Trips.concat (h : program.Trips verbose queue label loop g k trips values)
    (hinside : program.Inside verbose queue label loop (k + 1))
    (hhead : (program.moment verbose queue k).job? = some ⟨label, loop.head n⟩)
    (helement : loop.items.element? (program.moment verbose queue k).world.store n = some v) :
    program.Trips verbose queue label loop g (k + 1) (trips ++ [k]) (values ++ [v]) := by
  have hnew (t : Nat) : t ∈ [k] ↔ t = k ∧
      ∃ n, (program.moment verbose queue t).job? = some ⟨label, loop.head n⟩ := by
    rw [List.mem_singleton, iff_self_and]
    rintro rfl
    exact ⟨n, hhead⟩
  exact h.append hinside (List.pairwise_singleton _ _) hnew
    (.cons (trip_of_element? hhead helement) .nil)

/-! ### Loops over arrays -/

def elements (program : Program) (verbose : Bool) (queue : TurnQueue Thread) (ref : Ref) (k : Nat) :
    List Value :=
  ((program.moment verbose queue k).world.store.elements ref).toList

theorem element?_eq (hitems : loop.items = .array ref) (n : Nat) :
    loop.items.element? (program.moment verbose queue k).world.store n =
      (program.elements verbose queue ref k)[n]? := by
  rw [hitems, Value.element?, elements, Array.getElem?_toList]

/-- What the first trips have been made with stays the same when the array grows. -/
theorem take_elements_succ (hle : n ≤ (program.elements verbose queue ref k).length) :
    n ≤ (program.elements verbose queue ref (k + 1)).length ∧
      (program.elements verbose queue ref (k + 1)).take n =
        (program.elements verbose queue ref k).take n := by
  obtain ⟨more, hmore⟩ := program.grows verbose queue (Nat.le_succ k) ref
  replace hmore : program.elements verbose queue ref k ++ more =
    program.elements verbose queue ref (k + 1) := hmore
  constructor
  · rw [← hmore, List.length_append]
    exact Nat.le_add_right_of_le hle
  · calc
      _ = (program.elements verbose queue ref k ++ more).take n := by rw [hmore]
      _ = (program.elements verbose queue ref k).take n := List.take_append_of_le_length hle

/-- A task that is inside of a loop over an array has made its trips with the first elements of the
array, one for each, in their order. -/
theorem exists_trips (hitems : loop.items = .array ref)
    (hjob : ⟨label, thread⟩ ∈ (program.moment verbose queue k).jobs)
    (hloop : loop.Surrounds n thread.body thread.callers) :
    n ≤ (program.elements verbose queue ref k).length ∧ ∃ g trips,
      program.Trips verbose queue label loop g k trips
        ((program.elements verbose queue ref k).take n) := by
  induction k generalizing thread n with
  | zero =>
    obtain ⟨ident, -, hstart⟩ | ⟨-, world, -, hstart⟩ := program.start_cases verbose queue
    · rw [moment, hstart] at hjob
      cases hjob
    · rw [moment, hstart] at hjob
      obtain rfl : thread = .ofBody program programRecord :=
        congrArg Job.work (List.mem_singleton.1 hjob)
      exact (hloop.of_cons_of_ne fun heq ↦ by cases heq).not_nil.elim
  | succ k ih =>
    have hinside : program.Inside verbose queue label loop (k + 1) := ⟨n, thread, hjob, hloop⟩
    obtain ⟨hold, hwaits⟩ | ⟨before, waiting, hpresent, hleft⟩ | ⟨present, waiting, -, hnew, -⟩ :=
      Progress.mem_jobs_next (program.nodup_jobs verbose queue k) hjob
    · obtain ⟨hle, g, trips, htrips⟩ := ih hold hloop
      obtain ⟨hle', htake⟩ := take_elements_succ hle
      rw [htake]
      exact ⟨hle', g, trips, htrips.stay hinside fun m ↦ hwaits _⟩
    · replace hleft : (before.move _).own? = some thread := hleft
      have hbefore := Progress.mem_jobs_of_job? hpresent
      by_cases hhead : ∃ m, before = loop.head m
      · obtain ⟨m, rfl⟩ := hhead
        obtain ⟨hle, g, trips, htrips⟩ := ih hbefore (loop.surrounds_head m)
        obtain ⟨v, hmore, rfl⟩ := Loop.exists_element?_of_own? hleft hloop
        have helement := (element?_eq hitems m).symm.trans hmore
        obtain ⟨hle', htake⟩ := take_elements_succ (List.getElem?_eq_some_iff.1 helement).1
        have hseen : (program.elements verbose queue ref (k + 1)).take (m + 1) =
            (program.elements verbose queue ref k).take m ++ [v] := by
          calc
            _ = (program.elements verbose queue ref k).take (m + 1) := htake
            _ = _ := by rw [List.take_add_one, helement, Option.toList_some]
        rw [hseen]
        exact ⟨hle', g, _, htrips.concat hinside hpresent hmore⟩
      · obtain hold | ⟨rfl, stmt, rfl⟩ | hhead' := Thread.keepsLoops_of_own? hleft loop n hloop
        · obtain ⟨hle, g, trips, htrips⟩ := ih hbefore hold
          obtain ⟨hle', htake⟩ := take_elements_succ hle
          rw [htake]
          refine ⟨hle', g, trips, htrips.stay hinside fun m heq ↦ hhead ⟨m, ?_⟩⟩
          exact congrArg Job.work (Option.some.inj (hpresent.symm.trans heq))
        · exact ⟨Nat.zero_le _, k, [], Trips.begin hpresent hinside⟩
        · exact (hhead hhead').elim
    · exact (Thread.not_surrounds_of_new? hnew hloop).elim

/-- Arrays only grow: what an array holds at some moment stands at the beginning of what it holds
later. So a loop over an array that is left at its head, because there are no more elements, has
made one trip for every element that the array has by then, in their order, whoever has added it
and whenever, and every trip in a new record. -/
theorem arrays_are_seen_whole (program : Program) (verbose : Bool) (queue : TurnQueue Thread) :
    (∀ ref i j, i ≤ j →
      program.elements verbose queue ref i <+: program.elements verbose queue ref j) ∧
    ∀ label (loop : Loop) ref n k, loop.items = .array ref →
      (program.moment verbose queue k).job? = some ⟨label, loop.head n⟩ →
      (program.moment verbose queue (k + 1)).job? = some ⟨label, loop.exit⟩ →
        ∃ g trips, program.Trips verbose queue label loop g k trips
          (program.elements verbose queue ref k) := by
  refine ⟨fun ref i j hle ↦ program.grows verbose queue hle ref,
    fun label loop ref n k hitems hhead hexit ↦ ?_⟩
  obtain ⟨-, g, trips, htrips⟩ := exists_trips hitems (Progress.mem_jobs_of_job? hhead)
    (loop.surrounds_head n)
  have hall : (program.elements verbose queue ref k).length ≤ n := by
    refine List.getElem?_eq_none_iff.1 ?_
    rw [← element?_eq hitems]
    refine Option.eq_none_iff_forall_ne_some.2 fun v hmore ↦ ?_
    have htrip := (job?_succ hhead (Loop.move_head_of_some hmore)).1
    cases htrip.symm.trans hexit
  rw [List.take_of_length_le hall] at htrips
  exact ⟨g, trips, htrips⟩

/-- An array is gone over to which the block of the loop adds an element, and another task adds one
while the loop pauses. -/
theorem arrays_are_seen_whole_of_shared_array : ∃ program loop ref g trips,
    Program.read (String.toList
      ("let a = [1]; function f() \x7bpush(a, 3);\x7d spawn f; " ++
        "for (let x of a) \x7bprint x; if (x == 1) \x7bpush(a, 2);\x7d pause;\x7d")) =
      .program program ∧ loop.items = .array ref ∧
      (program.moment false .empty 105).world.printed = ["1", "2", "3"] ∧
      (program.elements false .empty ref 105).length = 3 ∧
      program.Trips false .empty "main#1" loop g 105 trips
        (program.elements false .empty ref 105) := by
  have hrun : ((ofText? (String.toList
      ("let a = [1]; function f() \x7bpush(a, 3);\x7d spawn f; " ++
        "for (let x of a) \x7bprint x; if (x == 1) \x7bpush(a, 2);\x7d pause;\x7d"))).bind
      fun program ↦ (program.moment false .empty 105).job?.bind fun job ↦
        job.work.arrayLoop?.map fun found ↦ (job.label, found.2.2,
          (program.elements false .empty found.2.1 105).length,
          (program.moment false .empty 105).world.printed)) =
      some ("main#1", 3, 3, ["1", "2", "3"]) := by
    decide +kernel
  obtain ⟨program, htext, hrun⟩ := Option.bind_eq_some_iff.1 hrun
  obtain ⟨⟨label, thread⟩, hjob, hrun⟩ := Option.bind_eq_some_iff.1 hrun
  obtain ⟨⟨loop, ref, n⟩, hfound, hrun⟩ := Option.map_eq_some_iff.1 hrun
  obtain rfl : label = "main#1" := congrArg Prod.fst hrun
  obtain rfl : n = 3 := congrArg (·.2.1) hrun
  have hlength : (program.elements false .empty ref 105).length = 3 := congrArg (·.2.2.1) hrun
  have hprinted : (program.moment false .empty 105).world.printed = ["1", "2", "3"] :=
    congrArg (·.2.2.2) hrun
  obtain ⟨rfl, hitems⟩ := Thread.eq_head_of_arrayLoop? hfound
  have hnone := List.getElem?_eq_none (Nat.le_of_eq hlength)
  have hexit := (job?_succ hjob (Loop.move_head_of_none ((element?_eq hitems _).trans hnone))).1
  obtain ⟨-, hloops⟩ := program.arrays_are_seen_whole false .empty
  obtain ⟨g, trips, htrips⟩ := hloops _ loop ref _ 105 hitems hjob hexit
  exact ⟨program, loop, ref, g, trips, read_of_ofText? htext, hitems, hprinted, hlength, htrips⟩

end Program

end LateConst
