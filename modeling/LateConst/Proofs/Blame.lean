import LateConst.Proofs.Blame.Move
import LateConst.Proofs.Bulletin
import LateConst.Proofs.Scope.Walk
import LateConst.Proofs.Scoping.Run
import LateConst.Proofs.Unpaused

/-!
# What the fault that ends a run is blamed on

A fault that no handler takes is blamed on a node of the program, or on a name where it is declared,
and its place in the text is shown (`Program.uncaught_is_shown`). There is one exception: a built-in
function that has been spawned, and not called, is nobody's fault.
-/

namespace LateConst

/-! ### Parts of a program -/

/-- The part belongs to the program: a node, or a name where it is declared. -/
inductive Program.Contains (program : Program) : Site → Prop
  | node {site : Site} {scopes : List Scope} (h : program.Visits site scopes) :
      Contains program site
  | declaration {ident : Ident} {scope : Scope} {outer : List Scope}
      (h : program.Opens (scope :: outer)) (hident : ident ∈ scope.idents) :
      Contains program (.ident ident)

namespace Program

variable {text : List Char} {program : Program} {site : Site} {scopes : List Scope}

theorem Visits.ordered_and_within (h : program.Visits site scopes)
    (hread : read text = .program program) : site.Ordered ∧ site.span.right ≤ text.length := by
  obtain ⟨hspans, horders⟩ := between_of_read hread
  obtain ⟨s, hs, hreaches⟩ := h.exists_reaches
  have hspan := Span.between_of_mem hspans (List.mem_map_of_mem hs)
  have hinside := hreaches.span_le ((placed_of_read hread).2 s hs)
  exact ⟨hreaches.ordered (horders s hs), Nat.le_trans hinside.2 hspan.2.2⟩

/-- Every part of a program that has been read has its place in the text. -/
theorem Contains.within (h : program.Contains site) (hread : read text = .program program) :
    site.span.left < site.span.right ∧ site.span.right ≤ text.length := by
  cases h with
  | node hvisits =>
    obtain ⟨⟨hpos, -, -⟩, hwithin⟩ := hvisits.ordered_and_within hread
    exact ⟨hpos, hwithin⟩
  | @declaration ident scope outer hopens hident =>
    cases hopens with
    | inside hvisits hscope =>
      obtain ⟨hordered, hwithin⟩ := hvisits.ordered_and_within hread
      have hspan := Span.between_of_mem (hordered.between_idents hscope)
        (List.mem_map_of_mem hident)
      exact ⟨hspan.2.1, Nat.le_trans hspan.2.2 hwithin⟩
    | top =>
      rw [Scope.idents_block] at hident
      obtain ⟨s, hs, hident⟩ := List.mem_flatMap.1 hident
      obtain ⟨⟨-, hparts, -⟩, hwithin⟩ := (Visits.top hs).ordered_and_within hread
      have hpart := (Site.declared_sublist_parts s).subset (List.mem_map_of_mem hident)
      have hspan := Span.between_of_mem hparts (List.mem_map_of_mem hpart)
      exact ⟨hspan.2.1, Nat.le_trans hspan.2.2 hwithin⟩

end Program

/-! ### What a thread can blame -/

namespace Thread

variable {program : Program} {layout : Layout} {thread : Thread}

theorem contains_of_declared (hfocus : thread.focus.Scoped program layout) {ident : Ident}
    (hident : ident ∈ thread.focus.declared) : program.Contains (.ident ident) := by
  obtain ⟨focus, body, callers⟩ := thread
  cases focus with
  | enter f args =>
    cases f with
    | builtin b => cases hident
    | closure code env =>
      obtain ⟨⟨scopes, -, hopens, -⟩, -⟩ := hfocus
      exact .declaration hopens (by rwa [Scope.idents_function])
  | exec s env =>
    cases s with
    | block block =>
      obtain ⟨scopes, -, hvisits⟩ := hfocus
      exact .declaration (.inside hvisits (List.mem_singleton_self _))
        (by rwa [Scope.idents_block])
    | _ => cases hident
  | _ => cases hident

theorem contains_of_reach (hfocus : thread.focus.Scoped program layout)
    (hkept : ∀ site ∈ thread.kept, program.Contains site) {site : Site}
    (hsite : site ∈ thread.reach) : program.Contains site := by
  obtain hhere | hsite := List.mem_append.1 hsite
  · obtain ⟨focus, body, callers⟩ := thread
    cases focus with
    | eval e env frames use =>
      obtain rfl := List.mem_singleton.1 hhere
      obtain ⟨⟨scopes, -, hvisits⟩, -⟩ := hfocus
      exact .node hvisits
    | exec s env =>
      obtain rfl := List.mem_singleton.1 hhere
      obtain ⟨scopes, -, hvisits⟩ := hfocus
      exact .node hvisits
    | _ => cases hhere
  · exact hkept site hsite

end Thread

/-! ### Runs -/

/-- A world and its threads agree with some layout, every thread keeps parts of the program only,
and those that have not been entered are calls of functions that have been spawned. -/
structure World.Accused (program : Program) (world : World) (threads : List Thread) : Prop where
  agrees : world.Scoped program threads
  kept : ∀ thread ∈ threads, ∀ site ∈ thread.kept, program.Contains site
  inside : ∀ thread ∈ threads, thread.callers = [] →
    thread.focus.IsInside ∨ ∃ f, thread = .ofFunction f

theorem workload_keeps_accused {program : Program} (hregular : program.Regular) (verbose : Bool) :
    (workload verbose).Keeps (World.Accused program) where
  perm hperm h := by
    obtain ⟨hscoped, hkept, hinside⟩ := h
    exact ⟨(workload_keeps_scoped hregular verbose).perm hperm hscoped,
      fun thread hthread ↦ hkept thread (hperm.mem_iff.2 hthread),
      fun thread hthread ↦ hinside thread (hperm.mem_iff.2 hthread)⟩
  announce note h :=
    { h with agrees := (workload_keeps_scoped hregular verbose).announce note h.agrees }
  move {world thread others} waiting h := by
    obtain ⟨hscoped, hkept, hinside⟩ := h
    have hmove := (thread.blames_move world).tasks
    obtain ⟨layout, -, hthreads⟩ := id hscoped
    have hfocus := (hthreads thread List.mem_cons_self).focus
    refine ⟨Thread.scoped_move hregular hscoped, fun task htask ↦ ?_, fun task htask ↦ ?_⟩
    · obtain htask | htask := Move.mem_tasks htask
      · exact fun site hsite ↦ Thread.contains_of_reach hfocus
          (hkept thread List.mem_cons_self) ((hmove task htask).kept hsite)
      · exact hkept task (List.mem_cons_of_mem _ htask)
    · obtain htask | htask := Move.mem_tasks htask
      · exact (hmove task htask).inside
      · exact hinside task (List.mem_cons_of_mem _ htask)

def RunError.places? : RunError → Option (List Span)
  | .uncaught _ site => some (site.toList.map Site.span)
  | .crash _ => none

theorem RunError.exists_of_places? {error : RunError} {places : List Span}
    (h : error.places? = some places) :
    ∃ fault site, error = .uncaught fault site ∧ site.toList.map Site.span = places := by
  cases error with
  | crash crash => cases h
  | uncaught fault site => exact ⟨fault, site, rfl, Option.some.inj h⟩

namespace Program

variable {text : List Char} {program : Program} {verbose : Bool} {queue : TurnQueue Thread}

theorem accused_moment (hread : read text = .program program) (verbose : Bool)
    (queue : TurnQueue Thread) (k : Nat) :
    World.Accused program (program.moment verbose queue k).world
      (program.moment verbose queue k).tasks := by
  refine holds_moment ⟨scoped_start program verbose queue, ?_, ?_⟩
    (workload_keeps_accused (regular_of_read hread) verbose) k
  all_goals
    obtain ⟨ident, -, hstart⟩ | ⟨-, world, -, hstart⟩ := program.start_cases verbose queue <;>
      rw [hstart]
  · exact List.forall_mem_nil _
  · exact List.forall_mem_singleton.2 (List.forall_mem_nil _)
  · exact List.forall_mem_nil _
  · exact List.forall_mem_singleton.2 fun _ ↦ .inl trivial

/-- If a fault ends a run that no handler has taken, then it is blamed on a part of the program, and
the notice about it quotes the text of this part. If nothing is to blame and nothing is quoted, a
built-in function was spawned that cannot be called without arguments. -/
theorem uncaught_is_shown (hread : read text = .program program) {world : World}
    {rest : TurnQueue Thread} {fault : Fault} {site : Option Site} {k : Nat}
    (hended : program.moment verbose queue k = .ended world rest (some (.uncaught fault site))) :
    (∃ part, site = some part ∧ program.Contains part ∧ part.span.left < part.span.right ∧
      part.span.right ≤ text.length ∧
      ∀ b : Bulletin, (Bulletin.reached (b.uncaughtFault fault site)).notices = b.notices ++
        [⟨"Uncaught " ++ fault.family.text ++ ": " ++ fault.message,
          [b.excerpt (some part.span) fault.family.text], []⟩]) ∨
    (site = none ∧
      (∃ j < k, ∃ b, (program.moment verbose queue j).present? =
        some (.ofFunction (.builtin b)) ∧ b ≠ .str ∧ fault = .wrongCount b 0) ∧
      ∀ b : Bulletin, (Bulletin.reached (b.uncaughtFault fault site)).notices = b.notices ++
        [⟨"Uncaught " ++ fault.family.text ++ ": " ++ fault.message, [], []⟩]) := by
  have hshown {part : Site} (hsite : site = some part) (hpart : program.Contains part) :
      ∃ part, site = some part ∧ program.Contains part ∧ part.span.left < part.span.right ∧
        part.span.right ≤ text.length ∧
        ∀ b : Bulletin, (Bulletin.reached (b.uncaughtFault fault site)).notices = b.notices ++
          [⟨"Uncaught " ++ fault.family.text ++ ": " ++ fault.message,
            [b.excerpt (some part.span) fault.family.text], []⟩] := by
    subst hsite
    obtain ⟨hpos, hwithin⟩ := hpart.within hread
    exact ⟨part, rfl, hpart, hpos, hwithin, fun b ↦ Bulletin.notices_reached_post b _⟩
  obtain ⟨ident, hdeclared, herror⟩ | ⟨j, hj, thread, hpresent, hfail⟩ :=
    exists_fail_of_ended hended
  · cases herror
    have hident := Store.mem_of_hoist hdeclared
    rw [map_fst_flatMap_hoisted, ← Scope.idents_block] at hident
    exact .inl (hshown rfl (.declaration .top hident))
  · obtain ⟨⟨layout, -, hthreads⟩, hkept, hinside⟩ := accused_moment hread verbose queue j
    have hmem := Progress.mem_tasks_of_present? hpresent
    have hfocus := (hthreads thread hmem).focus
    cases (thread.blames_move _).fault _ _ _ hfail with
    | node hsite =>
      exact .inl (hshown rfl (Thread.contains_of_reach hfocus (hkept thread hmem) hsite))
    | declaration hident => exact .inl (hshown rfl (Thread.contains_of_declared hfocus hident))
    | @nothing _ b args hthread hcallers hfails =>
      obtain hentered | ⟨f, rfl⟩ := hinside thread hmem hcallers
      · rw [hthread] at hentered
        exact hentered.elim
      · cases hthread
        refine .inr ⟨rfl, ⟨j, hj, b, hpresent, ?_⟩, fun b ↦ Bulletin.notices_reached_post b _⟩
        cases b with
        | str => cases hfails
        | len | push =>
          cases hfails
          exact ⟨nofun, rfl⟩

/-- A spawned function throws a number. -/
theorem uncaught_is_shown_of_spawned_function : ∃ program world rest fault part,
    read (String.toList "function f() \x7bthrow 1;\x7d spawn f;") = .program program ∧
      program.moment false .empty 16 = .ended world rest (some (.uncaught fault (some part))) ∧
      program.Contains part ∧ part.span = ⟨14, 22⟩ := by
  have hrun : ((ofText? (String.toList "function f() \x7bthrow 1;\x7d spawn f;")).bind
      fun program ↦ (program.moment false .empty 16).error?.bind RunError.places?) =
        some [⟨14, 22⟩] := by
    decide +kernel
  obtain ⟨program, htext, hrun⟩ := Option.bind_eq_some_iff.1 hrun
  obtain ⟨error, herror, hplaces⟩ := Option.bind_eq_some_iff.1 hrun
  obtain ⟨fault, site, rfl, hspans⟩ := RunError.exists_of_places? hplaces
  obtain ⟨rest, hended⟩ := Progress.exists_eq_ended_of_error? herror
  have hread := read_of_ofText? htext
  obtain ⟨part, rfl, hpart, -⟩ | ⟨rfl, -⟩ := uncaught_is_shown hread hended
  · exact ⟨program, _, rest, fault, part, hread, hended, hpart, List.singleton_inj.1 hspans⟩
  · cases hspans

/-- A built-in function that is spawned fails with nothing to blame. -/
theorem nothing_shown_of_spawned_builtin : ∃ program world rest fault,
    read "spawn len;".toList = .program program ∧
      program.moment false .empty 10 = .ended world rest (some (.uncaught fault none)) ∧
      ∀ b : Bulletin, (Bulletin.reached (b.uncaughtFault fault none)).notices = b.notices ++
        [⟨"Uncaught " ++ fault.family.text ++ ": " ++ fault.message, [], []⟩] := by
  have hrun : ((ofText? "spawn len;".toList).bind fun program ↦
      (program.moment false .empty 10).error?.bind RunError.places?) = some [] := by
    decide +kernel
  obtain ⟨program, htext, hrun⟩ := Option.bind_eq_some_iff.1 hrun
  obtain ⟨error, herror, hplaces⟩ := Option.bind_eq_some_iff.1 hrun
  obtain ⟨fault, site, rfl, hspans⟩ := RunError.exists_of_places? hplaces
  obtain ⟨rest, hended⟩ := Progress.exists_eq_ended_of_error? herror
  obtain rfl : site = none := by simpa using hspans
  exact ⟨program, _, rest, fault, read_of_ofText? htext, hended,
    fun b ↦ Bulletin.notices_reached_post b _⟩

end Program

end LateConst
