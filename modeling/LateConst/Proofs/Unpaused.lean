import LateConst.Command
import LateConst.Proofs.Evaluation
import LateConst.Proofs.Unpaused.Thread

/-!
# Pauses of a lone task

A program that spawns nothing has one task only, and a pause of it has no effect at all: without its
`pause`s the program makes the same run. A moment of the one run agrees with a moment of the other
(`Progress.Twin`), and from there either both go on, or the run with pauses does so alone, which
it cannot do forever.
-/

namespace LateConst

/-! ### Announcements -/

namespace World

variable {world world' : World}

@[simp]
theorem printed_announce (verbose : Bool) (note : Note) (world : World) :
    ((workload verbose).announce note world).printed = world.printed := by
  cases verbose with
  | false => rfl
  | true =>
    change (world.events.push (.noted note)).toList.filterMap Event.printed? = world.printed
    rw [Array.toList_push, List.filterMap_append]
    exact List.append_nil _

/-- Announcements print nothing. -/
theorem Alike.announce (h : world.Alike world') (verbose verbose' : Bool) (note note' : Note) :
    ((workload verbose).announce note world).Alike
      ((workload verbose').announce note' world') where
  store := by rw [store_announce, store_announce, h.store]
  printed := by rw [printed_announce, printed_announce, h.printed]

theorem Alike.announce_left (h : world.Alike world') (verbose : Bool) (note : Note) :
    ((workload verbose).announce note world).Alike world' where
  store := by rw [store_announce, h.store]
  printed := by rw [printed_announce, h.printed]

theorem Alike.bindings_eq (h : world.Alike world') : world'.bindings = world.bindings := by
  rw [bindings, bindings, h.store]

end World

/-- The same is reported of the error, at the same place. -/
theorem conclude_eq_of_alike {error error' : Option RunError}
    (h : Option.Rel RunError.Alike error error') (b : Bulletin) :
    conclude b error' = conclude b error := by
  cases h with
  | none => rfl
  | some h =>
    cases h with
    | crash crash => rfl
    | @uncaught fault site site' hsite =>
      have hspan : site'.map Site.span = site.map Site.span := by
        obtain rfl | rfl := hsite
        · rfl
        · rw [Option.map_map]
          exact congrArg (site.map ·) (funext Site.span_unpaused)
      rw [conclude, conclude, Bulletin.uncaughtFault, Bulletin.uncaughtFault, hspan]

namespace Progress

/-- Moments of the run of a lone task and of its run without pauses. -/
inductive Twin : RunProgress → RunProgress → Prop
  | present {world world' : World} {label label' : String} {thread : Thread} {n n' : Nat}
      (hworld : world.Alike world') (hinside : thread.callers = [] → thread.focus.IsInside) :
      Twin (.going ⟨world, ⟨[], n⟩, some ⟨label, thread⟩⟩)
        (.going ⟨world', ⟨[], n'⟩, some ⟨label', thread.unpaused⟩⟩)
  /-- The task has paused. -/
  | paused {world world' : World} {label label' : String} {thread : Thread} {n n' : Nat}
      (hworld : world.Alike world') (hinside : thread.callers = [] → thread.focus.IsInside) :
      Twin (.going ⟨world, ⟨[⟨label, thread⟩], n⟩, none⟩)
        (.going ⟨world', ⟨[], n'⟩, some ⟨label', thread.unpaused⟩⟩)
  /-- Both are about to begin. -/
  | waiting {world world' : World} {label label' : String} {thread : Thread} {n n' : Nat}
      (hworld : world.Alike world') (hinside : thread.callers = [] → thread.focus.IsInside) :
      Twin (.going ⟨world, ⟨[⟨label, thread⟩], n⟩, none⟩)
        (.going ⟨world', ⟨[⟨label', thread.unpaused⟩], n'⟩, none⟩)
  | finished {world world' : World} {n n' : Nat} (hworld : world.Alike world') :
      Twin (.going ⟨world, ⟨[], n⟩, none⟩) (.going ⟨world', ⟨[], n'⟩, none⟩)
  | ended {world world' : World} {queue queue' : TurnQueue Thread} {error error' : Option RunError}
      (hworld : world.Alike world') (herror : Option.Rel RunError.Alike error error') :
      Twin (.ended world queue error) (.ended world' queue' error')

/-- A bound for the moves that a run can make alone. -/
def delay : RunProgress → Nat
  | .going ⟨_, _, some job⟩ => job.work.delay
  | .going ⟨_, ⟨job :: _, _⟩, none⟩ => job.work.delay + 1
  | _ => 0

/-- Both runs go on, or the run with pauses goes on alone, but not forever. -/
theorem Twin.next {progress progress' : RunProgress} (h : Twin progress progress')
    (hspawn : ∀ thread, progress.present? = some thread →
      ∀ v stmt, thread.focus ≠ .value v [] (.spawn stmt)) (verbose verbose' : Bool) :
    Twin (progress.next (workload verbose)) progress' ∧
        (progress.next (workload verbose)).delay < progress.delay ∨
      Twin (progress.next (workload verbose)) (progress'.next (workload verbose')) := by
  cases h with
  | @present world world' label label' thread n n' hworld hinside =>
    by_cases hlingers : thread.Lingers
    · left
      obtain ⟨thread', hmove, hsame, hinside'⟩ := hlingers.exists_move world
      rw [← hsame]
      obtain ⟨hmove, hlt⟩ | ⟨hmove, hlt⟩ := hmove
      · rw [next_of_goOn hmove]
        exact ⟨.present hworld fun _ ↦ hinside', hlt⟩
      · rw [next_of_pause hmove]
        exact ⟨.paused (hworld.announce_left verbose _) fun _ ↦ hinside', hlt⟩
    · right
      have hmirrors := Thread.mirrors_move hworld (hspawn thread rfl) hinside hlingers
      generalize hmove : thread.move world = move at hmirrors
      generalize hmove' : thread.unpaused.move world' = move' at hmirrors
      cases hmirrors with
      | goOn hworld hinside =>
        rw [next_of_goOn hmove, next_of_goOn hmove']
        exact .present hworld hinside
      | finish hworld =>
        rw [next_of_finish hmove, next_of_finish hmove']
        exact .finished (hworld.announce verbose verbose' _ _)
      | fail hworld herror =>
        rw [next_of_fail hmove, next_of_fail hmove']
        exact .ended hworld (.some herror)
  | paused hworld hinside => exact .inl ⟨.present hworld hinside, Nat.lt_succ_self _⟩
  | waiting hworld hinside => exact .inr (.present hworld hinside)
  | finished hworld => exact .inr (.ended hworld .none)
  | ended hworld herror => exact .inr (.ended hworld herror)

/-! ### What can be seen of a run -/

/-- Nobody can tell the two moments apart: the same lines have been printed, all records and arrays
hold the same, and if the one run has ended then so has the other, by the same error if by any. -/
inductive LooksLike : RunProgress → RunProgress → Prop
  | going {rota rota' : Rota World Thread} (hworld : rota.world.Alike rota'.world) :
      LooksLike (.going rota) (.going rota')
  | ended {world world' : World} {queue queue' : TurnQueue Thread} {error error' : Option RunError}
      (hworld : world.Alike world') (herror : Option.Rel RunError.Alike error error') :
      LooksLike (.ended world queue error) (.ended world' queue' error')

def HasEnded : RunProgress → Prop
  | .going _ => False
  | .ended _ _ _ => True

def error? : RunProgress → Option RunError
  | .going _ => none
  | .ended _ _ error => error

theorem exists_eq_ended_of_error? {progress : RunProgress} {error : RunError}
    (h : progress.error? = some error) :
    ∃ queue, progress = .ended progress.world queue (some error) := by
  cases progress with
  | going rota => cases h
  | ended world queue error' => exact ⟨queue, congrArg (Progress.ended world queue) h⟩

theorem Twin.looksLike {progress progress' : RunProgress} (h : Twin progress progress') :
    progress.LooksLike progress' := by
  cases h with
  | present hworld _ => exact .going hworld
  | paused hworld _ => exact .going hworld
  | waiting hworld _ => exact .going hworld
  | finished hworld => exact .going hworld
  | ended hworld herror => exact .ended hworld herror

namespace LooksLike

variable {progress progress' : RunProgress}

theorem hasEnded_iff (h : progress.LooksLike progress') :
    progress.HasEnded ↔ progress'.HasEnded := by
  cases h <;> rfl

end LooksLike

end Progress

/-- Two sequences that are related at the beginning, and stay so, whether both go on or one of them
alone, are related to the end, if the one goes on alone only as long as its rank falls. -/
theorem exists_related_of_rank {α β : Type} {x : Nat → α} {y : Nat → β} {R : α → β → Prop}
    {rank : α → Nat} (hstart : R (x 0) (y 0))
    (hstep : ∀ i j, R (x i) (y j) →
      R (x (i + 1)) (y j) ∧ rank (x (i + 1)) < rank (x i) ∨ R (x (i + 1)) (y (j + 1))) :
    (∀ i, ∃ j, R (x i) (y j)) ∧ ∀ j, ∃ i, R (x i) (y j) := by
  constructor
  · intro i
    induction i with
    | zero => exact ⟨0, hstart⟩
    | succ i ih =>
      obtain ⟨j, hrelated⟩ := ih
      obtain ⟨halone, -⟩ | hboth := hstep i j hrelated
      · exact ⟨j, halone⟩
      · exact ⟨j + 1, hboth⟩
  · intro j
    induction j with
    | zero => exact ⟨0, hstart⟩
    | succ j ih =>
      obtain ⟨i, hrelated⟩ := ih
      -- the rank falls until both go on
      induction hrank : rank (x i) using Nat.strongRecOn generalizing i with
      | ind r ih =>
        obtain ⟨halone, hlt⟩ | hboth := hstep i j hrelated
        · exact ih _ (hrank ▸ hlt) (i + 1) halone rfl
        · exact ⟨i + 1, hboth⟩

/-! ### Programs that spawn nothing -/

def Site.spawns : Site → Bool
  | .stmt (.spawn _ _) => true
  | _ => false

namespace Program

variable {text : List Char} {program : Program} {verbose : Bool} {queue : TurnQueue Thread}
  {k : Nat}

/-- No statement of the program spawns a task, be it in a function or not. -/
def IsAlone (program : Program) : Prop :=
  ∀ e span scopes, ¬ program.Visits (.stmt (.spawn e span)) scopes

/-- No node of the program, down to some depth and there is nothing below, spawns a task. -/
theorem isAlone_of_allWithin {depth : Nat}
    (h : Visit.allWithin (fun site ↦ !site.spawns) depth
      (program.map fun s ↦ (.stmt s, [.block program]))) : program.IsAlone := by
  intro e span scopes hvisits
  obtain ⟨s, hs, hreaches⟩ := hvisits.exists_reaches
  have hspawns := hreaches.of_allWithin h (List.mem_map_of_mem hs)
  cases hspawns

/-- A task never comes to the value of a function that it would spawn. -/
theorem IsAlone.ne_spawn (halone : program.IsAlone) (hread : Program.read text = .program program)
    {thread : Thread} (hpresent : (program.moment verbose queue k).present? = some thread)
    (v : Value) (stmt : Stmt) : thread.focus ≠ .value v [] (.spawn stmt) := by
  obtain ⟨focus, body, callers⟩ := thread
  rintro rfl
  have hunderWay : program.UnderWay verbose queue k ⟨.spawn stmt, body, callers⟩ :=
    ⟨_, hpresent, List.mem_cons_self⟩
  obtain ⟨s, e, env, g, h, hevaluates⟩ := hunderWay.exists_evaluates nofun
  obtain ⟨hwants, ⟨thread, hpresent', hfocus⟩, -⟩ := hevaluates
  obtain ⟨layout, -, hthreads⟩ := scoped_moment hread verbose queue g
  have hscoped := (hthreads thread (Progress.mem_tasks_of_present? hpresent')).focus
  rw [hfocus] at hscoped
  obtain ⟨scopes, -, hvisits⟩ := hscoped
  cases hwants with
  | spawn => exact halone _ _ scopes hvisits

/-! ### Whole runs -/

theorem declared_unpaused (program : Program) : program.unpaused.declared = program.declared := by
  rw [declared, declared, unpaused, stmtsUnpaused_eq, edits_unpaused?.hoistBody]

theorem twin_start (program : Program) (verbose verbose' : Bool)
    (queue queue' : TurnQueue Thread) :
    (program.start verbose queue).Twin (program.unpaused.start verbose' queue') := by
  have hthread : Thread.ofBody program.unpaused programRecord =
      (Thread.ofBody program programRecord).unpaused := by
    rw [unpaused, stmtsUnpaused_eq]
    rfl
  rw [start_eq, start_eq, declared_unpaused, hthread]
  obtain ⟨store, twice⟩ := program.declared
  have hworld : World.Alike ⟨store, #[]⟩ ⟨store, #[]⟩ := ⟨rfl, rfl⟩
  cases twice with
  | some ident => exact .ended hworld (.some (.uncaught _ (.inl rfl)))
  | none => exact .waiting (hworld.announce verbose verbose' _ _) fun _ ↦ trivial

/-- Without the `pause`s that stand outside of all functions, a program that spawns nothing makes
the same run: whatever the one run comes to, the other comes to as well, and if the one comes to an
end then so does the other. At the end both have printed the same, the names of the program have the
same values, and the same error, if there is one, is reported at the same place. -/
theorem pauses_are_invisible (hread : Program.read text = .program program)
    (halone : program.IsAlone) (verbose verbose' : Bool) (queue queue' : TurnQueue Thread) :
    (∀ k, ∃ k', (program.moment verbose queue k).LooksLike
      (program.unpaused.moment verbose' queue' k')) ∧
    (∀ k', ∃ k, (program.moment verbose queue k).LooksLike
      (program.unpaused.moment verbose' queue' k')) ∧
    ((∃ k, (program.moment verbose queue k).HasEnded) ↔
      ∃ k', (program.unpaused.moment verbose' queue' k').HasEnded) ∧
    ∀ k k' world world' rest rest' error error',
      program.moment verbose queue k = .ended world rest error →
      program.unpaused.moment verbose' queue' k' = .ended world' rest' error' →
        world'.printed = world.printed ∧ world'.bindings = world.bindings ∧
          Option.Rel RunError.Alike error error' ∧ ∀ b, conclude b error' = conclude b error := by
  have hstart : (program.moment verbose queue 0).Twin (program.unpaused.moment verbose' queue' 0) :=
    twin_start program verbose verbose' queue queue'
  have hstep (k k' : Nat) (htwin : (program.moment verbose queue k).Twin
      (program.unpaused.moment verbose' queue' k')) :=
    htwin.next (fun _ hpresent ↦ halone.ne_spawn hread hpresent) verbose verbose'
  obtain ⟨hforth, hback⟩ := exists_related_of_rank hstart hstep
  refine ⟨fun k ↦ ?_, fun k' ↦ ?_, ⟨fun ⟨k, hended⟩ ↦ ?_, fun ⟨k', hended⟩ ↦ ?_⟩, ?_⟩
  · obtain ⟨k', htwin⟩ := hforth k
    exact ⟨k', htwin.looksLike⟩
  · obtain ⟨k, htwin⟩ := hback k'
    exact ⟨k, htwin.looksLike⟩
  · obtain ⟨k', htwin⟩ := hforth k
    exact ⟨k', htwin.looksLike.hasEnded_iff.1 hended⟩
  · obtain ⟨k, htwin⟩ := hback k'
    exact ⟨k, htwin.looksLike.hasEnded_iff.2 hended⟩
  · intro k k' world world' rest rest' error error' hended hended'
    obtain ⟨j, htwin⟩ := hback k'
    have hlooks := htwin.looksLike
    rw [hended'] at hlooks
    generalize hmoment : program.moment verbose queue j = progress at hlooks
    cases hlooks with
    | ended hworld herror =>
      obtain ⟨rfl, rfl⟩ := ended_unique hended hmoment
      exact ⟨hworld.printed, hworld.bindings_eq, herror, conclude_eq_of_alike herror⟩

/-- A program pauses inside of a loop, and then has no elements for the loop inside of that. -/
theorem pauses_are_invisible_in_nested_loops : ∃ program world rest error,
    Program.read (String.toList
        "for (let x of [1]) \x7bpause; print x; for (let y of x) \x7bpause;\x7d\x7d") =
      .program program ∧
      program.IsAlone ∧
      program.moment false .empty 21 = .ended world rest (some error) ∧
      world.printed = ["1"] ∧
      ∃ k world' rest' error', program.unpaused.moment true .empty k =
        .ended world' rest' (some error') ∧ world'.printed = ["1"] ∧ error.Alike error' := by
  have hrun : ((ofText? (String.toList
        "for (let x of [1]) \x7bpause; print x; for (let y of x) \x7bpause;\x7d\x7d")).bind
      fun program ↦ (program.moment false .empty 21).error?.map fun _ ↦
        ((program.moment false .empty 21).world.printed,
          Visit.allWithin (fun site ↦ !site.spawns) 5
            (program.map fun s ↦ (.stmt s, [.block program])))) = some (["1"], true) := by
    decide +kernel
  obtain ⟨program, htext, hrun⟩ := Option.bind_eq_some_iff.1 hrun
  obtain ⟨error, herror, hrun⟩ := Option.map_eq_some_iff.1 hrun
  obtain ⟨hprinted, hall⟩ := Prod.mk.inj hrun
  have hread := read_of_ofText? htext
  have halone := isAlone_of_allWithin hall
  obtain ⟨rest, hended⟩ := Progress.exists_eq_ended_of_error? herror
  obtain ⟨hforth, -⟩ :=
    pauses_are_invisible hread halone false true TurnQueue.empty TurnQueue.empty
  obtain ⟨k, hlooks⟩ := hforth 21
  rw [hended] at hlooks
  generalize hended' : program.unpaused.moment true .empty k = progress' at hlooks
  cases hlooks with
  | ended hworld herror =>
    cases herror with
    | some herror =>
      exact ⟨program, _, rest, error, hread, halone, hended, hprinted, k, _, _, _, hended',
        hworld.printed.trans hprinted, herror⟩

end Program

end LateConst
