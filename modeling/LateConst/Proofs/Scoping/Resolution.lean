import Mathlib.Logic.ExistsUnique
import LateConst.Proofs.Scoping.Run

/-!
# Lexical scoping

Whenever a node is evaluated or executed in a record, the records from there outwards hold exactly
the names of the scopes that the static check has open when it visits the node. How far out a name
is found is therefore fixed by the place where it stands in the text (`Scope.distance?`), whatever
has been called, spawned or left in between.
-/

namespace LateConst

namespace Scope

/-- The names of scopes, the innermost first, and at last those of the built-in functions. -/
def rows (scopes : List Scope) : List (List String) :=
  scopes.map names ++ [Builtin.all.map Builtin.name]

/-- How many scopes there are between a place and the innermost one that declares a name. The
built-in functions are outside of all scopes. -/
def distance? (scopes : List Scope) (name : String) : Option Nat :=
  (rows scopes).findIdx? fun names ↦ decide (name ∈ names)

end Scope

namespace Store

variable {store : Store} {name : String}

/-- The record holds these names in this order. -/
def Holds (store : Store) (id : RecordId) (names : List String) : Prop :=
  ∃ record, store.records[id]? = some record ∧ record.names = names

/-- The records from one outwards hold the names of these scopes, the innermost first, and at last
come the built-in functions. -/
structure Mirrors (store : Store) (env : RecordId) (scopes : List Scope) : Prop where
  head : (store.chain env).head? = some env
  last : (store.chain env).getLast? = some globalRecord
  rows : List.Forall₂ store.Holds (store.chain env) (Scope.rows scopes)

theorem Holds.hasName_iff {id : RecordId} {names : List String} (h : store.Holds id names) :
    store.hasName id name ↔ name ∈ names := by
  obtain ⟨record, hrecord, rfl⟩ := h
  rw [hasName, hrecord]
  exact Record.has_iff

/-- The first record that holds a name stands as far out as the first row with the name. -/
theorem find?_of_holds {ids : List RecordId} {rows : List (List String)}
    (h : List.Forall₂ store.Holds ids rows) :
    (ids.find? fun id ↦ store.hasName id name) =
      (rows.findIdx? fun names ↦ decide (name ∈ names)).bind fun d ↦ ids[d]? := by
  induction h with
  | nil => rfl
  | @cons id names ids rows hholds hrest ih =>
    rw [List.find?_cons, List.findIdx?_cons]
    by_cases hname : name ∈ names
    · simp [hname, hholds.hasName_iff.2 hname]
    · have hmissing : store.hasName id name = false := by
        simpa using mt hholds.hasName_iff.1 hname
      rw [hmissing, ih, decide_eq_false hname, if_neg Bool.false_ne_true, Option.bind_map]
      rfl

theorem Mirrors.exists_getElem?_chain {env : RecordId} {scopes : List Scope} {distance : Nat}
    (h : store.Mirrors env scopes) (hdistance : Scope.distance? scopes name = some distance) :
    ∃ id, (store.chain env)[distance]? = some id := by
  obtain ⟨hlt, -⟩ := List.findIdx?_eq_some_iff_getElem.1 hdistance
  rw [← h.rows.length_eq] at hlt
  exact ⟨_, List.getElem?_eq_getElem hlt⟩

theorem Mirrors.resolve_eq {env : RecordId} {scopes : List Scope} (h : store.Mirrors env scopes)
    (name : String) :
    store.resolve env name =
      match (Scope.distance? scopes name).bind fun d ↦ (store.chain env)[d]? with
      | some id => .ok id
      | none => .error (.unresolved name) := by
  rw [resolve, resolveAlong, find?_of_holds h.rows]
  rfl

/-- Records that agree with a layout mirror the scopes that they were made for. -/
theorem Scoped.mirrors {program : Program} {layout : Layout} {env : RecordId}
    {scopes : List Scope} (h : store.Scoped program layout) (henv : layout env = some scopes) :
    store.Mirrors env scopes := by
  induction scopes generalizing env with
  | nil =>
    obtain rfl := h.eq_global henv
    obtain ⟨record, hrecord, -, hnames⟩ := h.global_record
    have hchain := h.chain_globalRecord
    exact ⟨by rw [hchain]; rfl, by rw [hchain]; rfl,
      by rw [hchain]; exact .cons ⟨record, hrecord, hnames⟩ .nil⟩
  | cons scope outer ih =>
    obtain ⟨record, -, hrecord, -, -, hnames⟩ := h.record henv
    obtain ⟨env', henv', hchain⟩ := h.exists_chain_eq henv
    obtain ⟨hhead, hlast, hrows⟩ := ih henv'
    refine ⟨by rw [hchain]; rfl, ?_, ?_⟩
    · rw [hchain, List.getLast?_cons, hlast]
      rfl
    · rw [hchain]
      exact .cons ⟨record, hrecord, hnames⟩ hrows

end Store

/-! ### Faults of names -/

namespace Slot

variable {slot slot' : Slot} {name : String} {fault : Fault}

/-- A name that is there cannot be used for one of two reasons: it has no value yet, or it is a
constant that has one. -/
def IsRefusal (name : String) (fault : Fault) : Prop :=
  fault = .unboundAccess name ∨ fault = .reassignment name

theorem isRefusal_of_read {forTypeof : Bool} (h : slot.read name forTypeof = .error fault) :
    IsRefusal name fault := by
  cases slot with
  | mutable value initialized => cases h
  | constant value initialized => cases h
  | awaiting =>
    cases h
    exact .inl rfl
  | unset =>
    cases forTypeof with
    | true => cases h
    | false =>
      cases h
      exact .inl rfl

theorem isRefusal_of_write {v : Value} (h : slot.write name v = .error fault) :
    IsRefusal name fault := by
  cases slot with
  | mutable value initialized => cases h
  | unset => cases h
  | awaiting =>
    cases h
    exact .inl rfl
  | constant value initialized =>
    cases h
    exact .inr rfl

end Slot

namespace Thread

variable {world : World} {body : List StmtFrame} {callers : List Caller} {site : Option Site}
  {fault : Fault} {name : String}

theorem caught_eq_of_raise_eq {other : Fault}
    (h : raise world body callers site fault = raise world body callers site other) :
    fault = other ∨ ∃ ref, fault.caught ref = other.caught ref := by
  obtain ⟨store, events⟩ := world
  unfold raise at h
  cases hlanding : Landing.find body callers with
  | none =>
    rw [hlanding] at h
    cases h
    exact .inl rfl
  | some landing =>
    rw [hlanding] at h
    refine .inr ⟨store.nextRef, ?_⟩
    have hpushed (v : Value) := Store.addName_push
      (store.fresh.2.records_addRecord .handler landing.env) landing.ident.name (.mutable v true)
    have hrecords := congrArg Store.records (congrArg World.store (Move.goOn.inj h).1)
    have hrecord := (Array.push_eq_push.1 ((hpushed _).symm.trans (hrecords.trans (hpushed _)))).1
    simpa [Record.add] using hrecord

theorem raise_ne_unresolved_of_isRefusal (h : Slot.IsRefusal name fault) :
    raise world body callers site fault ≠ raise world body callers site (.unresolved name) := by
  intro heq
  obtain rfl | rfl := h
  · obtain heq | ⟨ref, heq⟩ := caught_eq_of_raise_eq heq
    · cases heq
    · have hmessage : "Cannot access '" ++ name ++ "' before initialization" =
          name ++ " is not defined" := (Value.error.inj heq).2.2
      have hlength := congrArg String.length hmessage
      have hfirst : "Cannot access '".length = 15 := by decide
      have hlast : "' before initialization".length = 23 := by decide
      have hother : " is not defined".length = 15 := by decide
      rw [String.length_append, String.length_append, String.length_append, hfirst, hlast,
        hother] at hlength
      omega
  · obtain heq | ⟨ref, heq⟩ := caught_eq_of_raise_eq heq
    · cases heq
    · cases (Value.error.inj heq).2.1

theorem goOn_value_ne_raise {v : Value} {frames : List ExprFrame} {use : Use} :
    Move.goOn world ⟨.value v frames use, body, callers⟩ ≠ raise world body callers site fault := by
  unfold raise
  split
  · exact fun h ↦ by cases h
  · exact fun h ↦ by cases (Thread.mk.inj (Move.goOn.inj h).2).1

theorem goOn_next_ne_raise {world' : World} :
    Move.goOn world' ⟨.next, body, callers⟩ ≠ raise world body callers site fault := by
  unfold raise
  split
  · exact fun h ↦ by cases h
  · exact fun h ↦ by cases (Thread.mk.inj (Move.goOn.inj h).2).1

end Thread

/-! ### Nodes and names that a thread has come to -/

namespace Focus

/-- The node that is about to be evaluated or executed, and the record for its names. -/
def entered? : Focus → Option (Site × RecordId)
  | .eval e env _ _ => some (.expr e, env)
  | .exec s env => some (.stmt s, env)
  | _ => none

/-- The name that is about to be looked up, with the node that uses it and the record from which
the search begins. -/
def lookedUp? : Focus → Option (Site × String × RecordId)
  | .eval (.lookup ident) env _ _ => some (.expr (.lookup ident), ident.name, env)
  | .eval (.typeOf (.lookup ident) span) env _ _ =>
    some (.expr (.typeOf (.lookup ident) span), ident.name, env)
  | .value _ [] (.assign stmt name env) => some (.stmt stmt, name, env)
  | _ => none

variable {program : Program} {layout : Layout} {focus : Focus} {site : Site} {name : String}
  {env : RecordId}

theorem Scoped.visitsIn_entered (h : focus.Scoped program layout)
    (hentered : focus.entered? = some (site, env)) : VisitsIn program layout env site := by
  cases focus with
  | eval e env frames use =>
    cases hentered
    exact h.1
  | exec s env =>
    cases hentered
    exact h
  | _ => cases hentered

theorem lookedUp_cases (h : focus.lookedUp? = some (site, name, env)) :
    (∃ ident frames use, focus = .eval (.lookup ident) env frames use ∧
        site = .expr (.lookup ident) ∧ name = ident.name) ∨
      (∃ ident span frames use, focus = .eval (.typeOf (.lookup ident) span) env frames use ∧
        site = .expr (.typeOf (.lookup ident) span) ∧ name = ident.name) ∨
      ∃ v stmt, focus = .value v [] (.assign stmt name env) ∧ site = .stmt stmt := by
  unfold lookedUp? at h
  split at h
  next ident _ frames use =>
    cases h
    exact .inl ⟨ident, frames, use, rfl, rfl, rfl⟩
  next ident span _ frames use =>
    cases h
    exact .inr (.inl ⟨ident, span, frames, use, rfl, rfl, rfl⟩)
  next v stmt _ _ =>
    cases h
    exact .inr (.inr ⟨v, stmt, rfl, rfl⟩)
  next => cases h

theorem Scoped.visitsIn_lookedUp (h : focus.Scoped program layout)
    (hlooked : focus.lookedUp? = some (site, name, env)) : VisitsIn program layout env site := by
  obtain ⟨ident, frames, use, rfl, rfl, rfl⟩ | ⟨ident, span, frames, use, rfl, rfl, rfl⟩ |
    ⟨v, stmt, rfl, rfl⟩ := lookedUp_cases hlooked
  · exact h.1
  · exact h.1
  · exact h.2.2.1

end Focus

namespace Thread

variable {world : World} {thread : Thread} {site : Site} {name : String} {env id : RecordId}

/-- What a thread does about a name that is not declared: `typeof` has an answer to it, any other
use is a fault. -/
def missing (world : World) (thread : Thread) (site : Site) (name : String) : ThreadMove :=
  match thread.focus with
  | .eval (.typeOf _ _) _ frames use =>
    .goOn world ⟨.value (.text "undefined") frames use, thread.body, thread.callers⟩
  | _ => raise world thread.body thread.callers (some site) (.unresolved name)

theorem move_eq_missing (hlooked : thread.focus.lookedUp? = some (site, name, env))
    (hresolve : world.store.resolve env name = .error (.unresolved name)) :
    thread.move world = thread.missing world site name := by
  obtain ⟨focus, body, callers⟩ := thread
  obtain ⟨ident, frames, use, rfl, rfl, rfl⟩ | ⟨ident, span, frames, use, rfl, rfl, rfl⟩ |
    ⟨v, stmt, rfl, rfl⟩ := Focus.lookedUp_cases hlooked
  · simp only [move, eval, missing, hresolve]
  · simp only [move, eval, missing, hresolve]
    rfl
  · simp only [move, apply, missing, hresolve]

/-- A name that is found in some record is not reported as undeclared. -/
theorem move_ne_unresolved (hlooked : thread.focus.lookedUp? = some (site, name, env))
    (hresolve : world.store.resolve env name = .ok id) :
    thread.move world ≠
      raise world thread.body thread.callers (some site) (.unresolved name) := by
  obtain ⟨focus, body, callers⟩ := thread
  obtain ⟨slot, hslot⟩ := Store.hasName_iff.1 (Store.mem_chain_of_resolve hresolve).2
  obtain ⟨ident, frames, use, rfl, rfl, rfl⟩ | ⟨ident, span, frames, use, rfl, rfl, rfl⟩ |
    ⟨v, stmt, rfl, rfl⟩ := Focus.lookedUp_cases hlooked
  · simp only [move, eval, hresolve, Store.read_of_slot? hslot]
    cases hread : slot.read ident.name false with
    | ok v => exact goOn_value_ne_raise
    | error fault => exact raise_ne_unresolved_of_isRefusal (Slot.isRefusal_of_read hread)
  · simp only [move, eval, hresolve, Store.read_of_slot? hslot]
    cases hread : slot.read ident.name true with
    | ok v => exact goOn_value_ne_raise
    | error fault => exact raise_ne_unresolved_of_isRefusal (Slot.isRefusal_of_read hread)
  · simp only [move, apply, hresolve, Store.slotToWrite_of_slot? hslot]
    cases hwrite : slot.write name v with
    | ok slot' => exact goOn_next_ne_raise
    | error fault => exact raise_ne_unresolved_of_isRefusal (Slot.isRefusal_of_write hwrite)

end Thread

/-! ### Whole runs -/

namespace Program

variable {text : List Char} {program : Program} {verbose : Bool} {queue : TurnQueue Thread}
  {k : Nat} {thread : Thread}

/-- Whenever a node is evaluated or executed in a record, or looks a name up from there, one list of
scopes is open when the static check visits the node, and the records from there outwards mirror
it. A name that these scopes or the built-in functions declare is found in the record that is as far
out as the innermost of them; any other name is unresolved. -/
theorem records_mirror_scopes (hread : Program.read text = .program program)
    (hpresent : (program.moment verbose queue k).present? = some thread) :
    (∀ site env, thread.focus.entered? = some (site, env) →
      ∃ scopes, (∀ others, program.Visits site others ↔ others = scopes) ∧
        (program.moment verbose queue k).world.store.Mirrors env scopes) ∧
    ∀ site name env, thread.focus.lookedUp? = some (site, name, env) →
      ∃ scopes, (∀ others, program.Visits site others ↔ others = scopes) ∧
        (program.moment verbose queue k).world.store.Mirrors env scopes ∧
        match Scope.distance? scopes name with
        | none =>
          (program.moment verbose queue k).world.store.resolve env name =
              .error (.unresolved name) ∧
            thread.move (program.moment verbose queue k).world =
              thread.missing (program.moment verbose queue k).world site name
        | some distance =>
          ∃ id, ((program.moment verbose queue k).world.store.chain env)[distance]? = some id ∧
            (program.moment verbose queue k).world.store.resolve env name = .ok id ∧
            thread.move (program.moment verbose queue k).world ≠
              Thread.raise (program.moment verbose queue k).world thread.body thread.callers
                (some site) (.unresolved name) := by
  obtain ⟨layout, hstore, hthreads⟩ := scoped_moment hread verbose queue k
  have hfocus := (hthreads thread (Progress.mem_tasks_of_present? hpresent)).focus
  generalize (program.moment verbose queue k).world = world at hstore ⊢
  have hscopes {site : Site} {env : RecordId} (h : VisitsIn program layout env site) :
      ∃ scopes, (∀ others, program.Visits site others ↔ others = scopes) ∧
        world.store.Mirrors env scopes := by
    obtain ⟨scopes, henv, hvisits⟩ := h
    refine ⟨scopes, fun others ↦ ⟨fun hother ↦ hother.unique hread hvisits, ?_⟩,
      hstore.mirrors henv⟩
    rintro rfl
    exact hvisits
  refine ⟨fun site env hentered ↦ hscopes (hfocus.visitsIn_entered hentered),
    fun site name env hlooked ↦ ?_⟩
  obtain ⟨scopes, hvisits, hmirrors⟩ := hscopes (hfocus.visitsIn_lookedUp hlooked)
  refine ⟨scopes, hvisits, hmirrors, ?_⟩
  have hresolve := hmirrors.resolve_eq name
  cases hdistance : Scope.distance? scopes name with
  | none =>
    rw [hdistance] at hresolve
    exact ⟨hresolve, Thread.move_eq_missing hlooked hresolve⟩
  | some distance =>
    obtain ⟨id, hid⟩ := hmirrors.exists_getElem?_chain hdistance
    rw [hdistance, Option.bind_some, hid] at hresolve
    exact ⟨id, hid, hresolve, Thread.move_ne_unresolved hlooked hresolve⟩

/-- A called function looks up a constant of the program around it, in the record that is one
further out than its own. -/
theorem records_mirror_scopes_of_called_function : ∃ program thread site,
    Program.read "const c; function f() { print c; } c = 1; f();".toList = .program program ∧
      (program.moment false .empty 17).present? = some thread ∧
      thread.focus.lookedUp? = some (site, "c", 2) ∧
      (∃ scopes, (∀ others, program.Visits site others ↔ others = scopes) ∧
        (program.moment false .empty 17).world.store.Mirrors 2 scopes) ∧
      (program.moment false .empty 17).world.store.resolve 2 "c" = .ok 1 := by
  have hrun : ((ofText? "const c; function f() { print c; } c = 1; f();".toList).bind fun program ↦
      (program.moment false .empty 17).present?.bind fun thread ↦
        thread.focus.lookedUp?.map fun found ↦
          (found.2, ((program.moment false .empty 17).world.store.resolve 2 "c").toOption)) =
      some (("c", 2), some 1) := by
    decide +kernel
  obtain ⟨program, htext, hrun⟩ := Option.bind_eq_some_iff.1 hrun
  obtain ⟨thread, hpresent, hrun⟩ := Option.bind_eq_some_iff.1 hrun
  obtain ⟨⟨site, name, env⟩, hlooked, hfound⟩ := Option.map_eq_some_iff.1 hrun
  obtain ⟨⟨rfl, rfl⟩, hresolve⟩ := by simpa using hfound
  have hread := read_of_ofText? htext
  obtain ⟨scopes, hvisits, hmirrors, -⟩ :=
    (records_mirror_scopes hread hpresent).2 site "c" 2 hlooked
  refine ⟨program, thread, site, hread, hpresent, hlooked, ⟨scopes, hvisits, hmirrors⟩, ?_⟩
  cases hid : (program.moment false .empty 17).world.store.resolve 2 "c" with
  | error fault =>
    rw [hid] at hresolve
    cases hresolve
  | ok id =>
    rw [hid] at hresolve
    exact congrArg _ (Option.some.inj hresolve)

end Program

end LateConst
