import LateConst.Proofs.Unwinding.Stack

/-!
# Where a fault is blamed

A fault passes what is open in its task, from the inside to the outside, until a handler takes it or
nothing is left. Every node that it passes gives it its place, unless the fault has one already
(`Frame.pass`). So the innermost node is blamed, or the name if it is one that is declared twice,
whatever else the fault passes (`Program.innermost_node_is_blamed`).
-/

namespace LateConst

/-- The site of a fault that comes with this site to a frame and passes it. -/
def Frame.pass (site : Option Site) (frame : Frame) : Option Site := site.or frame.site?

theorem Frame.foldl_pass (site : Option Site) (frames : List Frame) :
    frames.foldl pass site = site.or (frames.findSome? site?) := by
  induction frames generalizing site with
  | nil => exact (Option.or_none).symm
  | cons frame more ih =>
    rw [List.foldl_cons, ih, pass, List.findSome?_cons, Option.or_assoc]
    cases frame.site? <;> rfl

/-- A fault is blamed on the node at which it is raised, and then on no other. -/
theorem Frame.foldl_pass_eq {frames passed : List Frame} {site : Site}
    (hhead : frames.head?.bind Frame.site? = some site) (hpassed : passed <+: frames)
    (hne : passed ≠ []) : passed.foldl Frame.pass none = some site := by
  obtain ⟨frame, more, rfl⟩ := List.exists_cons_of_ne_nil hne
  obtain ⟨rest, rfl⟩ := hpassed
  have hsite : frame.site? = some site := hhead
  rw [Frame.foldl_pass, List.findSome?_cons, hsite]
  rfl

/-- The site of a fault is what it has become by passing these frames, or the first of them. -/
structure Settles (frames : List Frame) (born site : Option Site) : Prop where
  innermost : site = born.or (frames.findSome? Frame.site?)
  stays : ∀ passed, passed <+: frames → (born = none → passed ≠ []) →
    passed.foldl Frame.pass born = site

theorem settles_of_head? {frames : List Frame} {site : Site}
    (hhead : frames.head?.bind Frame.site? = some site) : Settles frames none (some site) where
  innermost := by
    obtain ⟨frame, hframe, hsite⟩ := Option.bind_eq_some_iff.1 hhead
    obtain ⟨rest, rfl⟩ := List.head?_eq_some_iff.1 hframe
    rw [List.findSome?_cons, hsite]
    rfl
  stays passed hpassed hne := Frame.foldl_pass_eq hhead hpassed (hne rfl)

namespace Thread

/-- The fault that the next move of a thread raises, with its site and the world in which it is
raised: it would end the run if there were no handlers. -/
def uncaught? (thread : Thread) (world : World) : Option (World × Fault × Option Site) :=
  match thread.exposed.move world with
  | .fail world' (.uncaught fault site) => some (world', fault, site)
  | _ => none

/-- How deep a thread is when it raises a fault. If it cannot be suspended, it has given up the
function that was called. -/
def raiseDepth (thread : Thread) (fault : Fault) : Depth :=
  match fault, thread.callers with
  | .cannotSuspend, caller :: outer => caller.depth outer
  | _, _ => thread.depth

/-- What is open when a thread raises a fault, the innermost first. -/
def openAt (thread : Thread) (k : Nat) (stack : List Frame) (fault : Fault) : List Frame :=
  (thread.frames k stack).filter fun frame ↦ frame.depth ≤ thread.raiseDepth fault

/-- The site that a fault has before it passes anything: a name that is declared twice, or none. -/
inductive Born (thread : Thread) : Fault → Option Site → Prop
  | declaration {before after : List Ident} {ident : Ident}
      (hdeclared : thread.focus.declared = before ++ ident :: after)
      (hfirst : (before.map Ident.name).Nodup) (htwice : ident.name ∈ before.map Ident.name) :
      Born thread (.duplicateName ident.name) (some (.ident ident))
  | bare {fault : Fault} (h : ∀ name, fault ≠ .duplicateName name) : Born thread fault none

variable {thread : Thread} {world world' : World} {body : List StmtFrame} {callers : List Caller}
  {stack : List Frame} {k : Nat} {fault : Fault} {site : Option Site}

theorem raiseDepth_eq (h : fault ≠ .cannotSuspend) : thread.raiseDepth fault = thread.depth := by
  unfold raiseDepth
  split
  · exact (h rfl).elim
  · rfl

theorem raiseDepth_cannotSuspend {caller : Caller} {outer : List Caller}
    (h : thread.callers = caller :: outer) :
    thread.raiseDepth .cannotSuspend = caller.depth outer := by
  obtain ⟨focus, body, callers⟩ := thread
  obtain rfl : callers = caller :: outer := h
  rfl

theorem exists_raisesAt_of_uncaught? (h : thread.uncaught? world = some (world', fault, site)) :
    ∃ body callers, thread.move world = raise world' body callers site fault ∧
      thread.RaisesAt world world' body callers site fault ∧ thread.opened = [] := by
  unfold uncaught? at h
  split at h
  next heq =>
    cases h
    exact exists_raisesAt heq
  · cases h

/-- The node at whose depth a fault is raised is the innermost thing that is open. -/
theorem Stands.head?_openAt (hstands : thread.Stands stack) {m : Station}
    (hstation : m ∈ thread.begun ++ thread.stations) (hdepth : m.depth = thread.raiseDepth fault) :
    (thread.openAt k stack fault).head?.bind Frame.site? = some m.site := by
  obtain ⟨⟨since, hfind⟩, -⟩ := hstands.isIn_frames (k := k) hstation
  rw [openAt, List.head?_filter, ← hdepth, hfind]
  rfl

/-- A spawned function that has not been entered is not inside of anything. -/
theorem Stands.openAt_eq_nil (hstands : thread.Stands stack) (hinside : ¬thread.focus.IsInside)
    (hcallers : thread.callers = []) : thread.openAt k stack fault = [] := by
  obtain ⟨focus, body, callers⟩ := thread
  obtain rfl : body = [] := hstands.fresh.resolve_left hinside
  obtain rfl : callers = [] := hcallers
  cases focus with
  | enter f args =>
    refine List.filter_eq_nil_iff.2 fun frame hframe hle ↦ hstands.inside frame hframe ?_
    exact hstands.deep frame hframe
  | _ => exact (hinside trivial).elim

namespace RaisesAt

/-- The innermost node is blamed, unless the fault brings its site along or there is no node. -/
theorem exists_born (h : thread.RaisesAt world world' body callers site fault)
    (hstands : thread.Stands stack) : ∃ born, thread.Born fault born ∧
      Settles (thread.openAt k stack fault) born site := by
  have hnode {m : Station} (hstation : m ∈ thread.begun ++ thread.stations)
      (hdepth : m.depth = thread.raiseDepth fault) (hname : ∀ name, fault ≠ .duplicateName name) :
      ∃ born, thread.Born fault born ∧
        Settles (thread.openAt k stack fault) born (some m.site) :=
    ⟨none, .bare hname, settles_of_head? (hstands.head?_openAt hstation hdepth)⟩
  cases h with
  | node hstation hdepth hfault =>
    refine hnode hstation (hdepth.trans (raiseDepth_eq ?_).symm) ?_
    · rintro rfl
      exact hfault
    · rintro name rfl
      exact hfault
  | thrown hfocus =>
    exact hnode (List.mem_append_right _ (mem_stations_of_throw hfocus)) rfl nofun
  | declaration hdeclared hfirst htwice =>
    refine ⟨_, .declaration hdeclared hfirst htwice, rfl, fun passed _ _ ↦ ?_⟩
    rw [Frame.foldl_pass]
    rfl
  | pause _ hcallers =>
    exact hnode (List.mem_append_right _ (mem_stations_of_callers hcallers))
      (raiseDepth_cannotSuspend hcallers).symm nofun
  | spawned hfocus hcallers happly hfault =>
    refine ⟨none, .bare ?_, ?_⟩
    · rintro name rfl
      exact hfault
    · rw [hstands.openAt_eq_nil (by rw [hfocus]; exact id) hcallers]
      exact ⟨rfl, fun passed hpassed hne ↦ (hne rfl (List.prefix_nil.1 hpassed)).elim⟩

/-- If a function cannot be suspended, its call is blamed. -/
theorem exists_caller (h : thread.RaisesAt world world' body callers site .cannotSuspend)
    (hstands : thread.Stands stack) : ∃ caller outer, thread.callers = caller :: outer ∧
      caller.node.isCall ∧ site = some (.expr caller.node) := by
  cases h with
  | node _ _ hfault => exact hfault.elim
  | @pause span env caller _ hfocus hcallers =>
    obtain ⟨-, hcall⟩ := hstands.stations _ (mem_stations_of_callers hcallers)
    exact ⟨caller, callers, hcallers, hcall rfl, rfl⟩
  | spawned _ _ _ hfault => exact hfault.elim

/-- The handlers that are open where a fault is raised are those that can take over. -/
theorem landings_openAt (h : thread.RaisesAt world world' body callers site fault)
    (hopened : thread.opened = []) (hstands : thread.Stands stack) :
    (thread.openAt k stack fault).filterMap Frame.landing? = Landing.around body callers := by
  have hopen : (thread.openAt k stack fault).filterMap Frame.landing? =
      thread.landings.filter fun landing ↦ landing.depth ≤ thread.raiseDepth fault := by
    rw [openAt, filterMap_landing?_filter, filterMap_landing?_frames hstands.landings, hopened,
      List.nil_append]
  have hall (hplain : fault ≠ .cannotSuspend) :
      (thread.openAt k stack fault).filterMap Frame.landing? = thread.landings := by
    rw [hopen, raiseDepth_eq hplain]
    exact List.filter_eq_self.2 fun landing hlanding ↦
      decide_eq_true (depth_le_of_mem_landings hstands.fresh hlanding)
  cases h with
  | node _ _ hfault => exact hall fun heq ↦ by rwa [heq] at hfault
  | thrown => exact hall nofun
  | declaration => exact hall nofun
  | spawned _ hcallers _ hfault =>
    rw [hall fun heq ↦ by rwa [heq] at hfault, landings, hcallers]
  | @pause span env caller _ hfocus hcallers =>
    rw [hopen, landings, hcallers, Landing.around, Landing.ofCallers, List.filter_append,
      List.filter_eq_nil_iff.2, List.filter_eq_self.2, List.nil_append]
    · rfl
    · refine fun landing hlanding ↦ decide_eq_true ?_
      rw [raiseDepth_cannotSuspend hcallers]
      refine Depth.le_trans (Landing.depth_le_of_mem_around hlanding) ?_
      simp [Caller.depth, Depth.le_def]
    · intro landing hlanding
      rw [raiseDepth_cannotSuspend hcallers]
      simp [(Landing.callers_eq_of_mem_landings hlanding).1, Landing.depth, Caller.depth,
        Depth.le_def]

end RaisesAt

end Thread

namespace Program

variable {program : Program} {verbose : Bool} {queue : TurnQueue Thread} {label : String} {k : Nat}
  {thread : Thread} {world' : World} {fault : Fault} {site : Option Site}

/-- Whatever is open where a fault is raised has been begun by the task itself. -/
theorem exists_begins_of_mem_openAt
    (hjob : (program.moment verbose queue k).job? = some ⟨label, thread⟩) {frame : Frame}
    (h : frame ∈ thread.openAt k (program.stack verbose queue label k) fault) :
    frame.since ≤ k ∧ ∃ before,
      (program.moment verbose queue frame.since).job? = some ⟨label, before⟩ ∧
        frame.part ∈ before.begins := by
  obtain hold | ⟨rfl, hbegins⟩ := Thread.mem_frames (List.mem_filter.1 h).1
  · exact (exists_begins_of_mem_stack hold).imp_left Nat.le_of_lt
  · exact ⟨Nat.le_refl _, thread, hjob, hbegins⟩

/-- If no handler is open where a fault is raised, it ends the run. -/
theorem exists_ended_of_uncaught?
    (hjob : (program.moment verbose queue k).job? = some ⟨label, thread⟩)
    (hraises : thread.uncaught? (program.moment verbose queue k).world =
      some (world', fault, site))
    (hnone : ∀ frame ∈ thread.openAt k (program.stack verbose queue label k) fault,
      frame.landing? = none) :
    ∃ rest, program.moment verbose queue (k + 1) =
      .ended world' rest (some (.uncaught fault site)) := by
  have hstands := program.stands (Progress.mem_jobs_of_job? hjob)
  obtain ⟨body, callers, hmove, hat, hopened⟩ := Thread.exists_raisesAt_of_uncaught? hraises
  have hfind : Landing.find body callers = none := by
    rw [Landing.find_eq_head?, ← hat.landings_openAt (k := k) hopened hstands,
      List.filterMap_eq_nil_iff.2 hnone, List.head?_nil]
  rw [Thread.raise_of_find_eq_none hfind] at hmove
  obtain ⟨rest, hgoing⟩ := Progress.exists_going_of_job? hjob
  refine ⟨rest.abandon, ?_⟩
  rw [moment, hgoing]
  exact Progress.next_of_fail hmove

/-- If a fault is raised, then it is blamed on the innermost expression or statement that its task
has begun and not finished; if a function cannot be suspended, that is the call of it. Only a name
that is declared twice is blamed itself. This does not change by what else the fault passes, and it
is reported if there is no handler. -/
theorem innermost_node_is_blamed
    (hjob : (program.moment verbose queue k).job? = some ⟨label, thread⟩)
    (hraises : thread.uncaught? (program.moment verbose queue k).world =
      some (world', fault, site)) :
    (∃ body callers, thread.move (program.moment verbose queue k).world =
      Thread.raise world' body callers site fault) ∧
    (∃ born, thread.Born fault born ∧
      Settles (thread.openAt k (program.stack verbose queue label k) fault) born site) ∧
    (fault = .cannotSuspend → ∃ caller outer, thread.callers = caller :: outer ∧
      caller.node.isCall ∧ site = some (.expr caller.node)) ∧
    (∀ frame ∈ thread.openAt k (program.stack verbose queue label k) fault,
      frame.since ≤ k ∧ ∃ before,
        (program.moment verbose queue frame.since).job? = some ⟨label, before⟩ ∧
          frame.part ∈ before.begins) ∧
    ((∀ frame ∈ thread.openAt k (program.stack verbose queue label k) fault,
        frame.landing? = none) →
      ∃ rest, program.moment verbose queue (k + 1) =
        .ended world' rest (some (.uncaught fault site))) := by
  have hstands := program.stands (Progress.mem_jobs_of_job? hjob)
  obtain ⟨body, callers, hmove, hat, hopened⟩ := Thread.exists_raisesAt_of_uncaught? hraises
  refine ⟨⟨body, callers, hmove⟩, hat.exists_born hstands, ?_,
    fun frame hframe ↦ exists_begins_of_mem_openAt hjob hframe,
    fun hnone ↦ exists_ended_of_uncaught? hjob hraises hnone⟩
  rintro rfl
  exact hat.exists_caller hstands

/-- Inside of a loop and a `try` a function is called, and in a list that it returns there is a name
that has not been declared. -/
theorem innermost_node_is_blamed_in_called_function : ∃ program label thread world' fault part,
    read (String.toList
      ("function f(x) \x7breturn [x, x - y];\x7d let a = 1; " ++
        "while (a) \x7btry \x7bprint 2 * f(a);\x7d catch (e) \x7ba = 0;\x7d\x7d")) =
      .program program ∧
      (program.moment false .empty 34).job? = some ⟨label, thread⟩ ∧
      thread.uncaught? (program.moment false .empty 34).world =
        some (world', fault, some part) ∧
      part.span = ⟨30, 31⟩ ∧
      (thread.openAt 34 (program.stack false .empty label 34) fault).length = 12 ∧
      ∀ passed, passed <+: thread.openAt 34 (program.stack false .empty label 34) fault →
        passed ≠ [] → passed.foldl Frame.pass none = some part := by
  have hrun : ((ofText? (String.toList
      ("function f(x) \x7breturn [x, x - y];\x7d let a = 1; " ++
        "while (a) \x7btry \x7bprint 2 * f(a);\x7d catch (e) \x7ba = 0;\x7d\x7d"))).bind
      fun program ↦ (program.moment false .empty 34).job?.bind fun job ↦
        (job.work.uncaught? (program.moment false .empty 34).world).bind fun raised ↦
          raised.2.2.map fun part ↦ (raised.2.1.family, part.span,
            (job.work.openAt 34 (program.stack false .empty job.label 34) raised.2.1).length)) =
      some (.reference, ⟨30, 31⟩, 12) := by
    decide +kernel
  obtain ⟨program, htext, hrun⟩ := Option.bind_eq_some_iff.1 hrun
  obtain ⟨⟨label, thread⟩, hjob, hrun⟩ := Option.bind_eq_some_iff.1 hrun
  obtain ⟨⟨world', fault, site⟩, hraises, hrun⟩ := Option.bind_eq_some_iff.1 hrun
  obtain ⟨part, hsite, hrun⟩ := Option.map_eq_some_iff.1 hrun
  obtain rfl : site = some part := hsite
  have hfamily : fault.family = .reference := congrArg Prod.fst hrun
  obtain ⟨-, ⟨born, hborn, hsettles⟩, -⟩ := innermost_node_is_blamed hjob hraises
  cases hborn with
  | declaration => cases hfamily
  | bare =>
    exact ⟨program, label, thread, world', fault, part, read_of_ofText? htext, hjob, hraises,
      congrArg (·.2.1) hrun, congrArg (·.2.2) hrun,
      fun passed hpassed hne ↦ hsettles.stays passed hpassed fun _ ↦ hne⟩

end Program

end LateConst
