import Mathlib.Data.List.Nodup
import LateConst.Proofs.Scope.Check
import LateConst.Proofs.Scoping.Run
import LateConst.Proofs.Unwinding.Move

/-!
# No name is declared twice

The fault of a name that is declared twice can only be raised where a scope is entered whose names
are not all different. In a program without such a scope no move of any thread raises it, whether
some handler would take it or not.
-/

namespace LateConst

/-! ### Scopes with different names -/

/-- No scope of the program declares a name twice. -/
def Program.Unambiguous (program : Program) : Prop :=
  ∀ scope outer, program.Opens (scope :: outer) → scope.names.Nodup

theorem nodup_of_redeclarations_eq_nil {known more : List Ident}
    (h : redeclarations known more = []) (hknown : (known.map Ident.name).Nodup) :
    ((known ++ more).map Ident.name).Nodup := by
  induction more generalizing known with
  | nil => simpa using hknown
  | cons ident more ih =>
    rw [redeclarations] at h
    split at h
    · cases h
    next hnew =>
      have hident : ident.name ∉ known.map Ident.name := by
        simpa [List.find?_eq_none] using hnew
      have hadded : ((known ++ [ident]).map Ident.name).Nodup := by
        rw [List.map_append, List.nodup_append]
        exact ⟨hknown, List.nodup_singleton _, by grind⟩
      simpa using ih h hadded

theorem Program.unambiguous_of_complaints_eq_nil {text : List Char} {program : Program}
    (hread : Program.read text = .program program) (h : program.complaints = []) :
    program.Unambiguous := by
  intro scope outer hopens
  have hscope : scope.complaints = [] := by
    refine List.eq_nil_iff_forall_not_mem.2 fun complaint hcomplaint ↦ ?_
    have hmem := (mem_complaints_iff hread).2 (.inl ⟨scope, outer, hopens, hcomplaint⟩)
    rw [h] at hmem
    cases hmem
  simpa [Scope.names] using nodup_of_redeclarations_eq_nil hscope List.nodup_nil

/-- Names that are different from each other and from those of a record can all be hoisted. -/
theorem Store.hoist_eq_none {store : Store} {id : RecordId} {record : Record}
    (h : store.records[id]? = some record) {items : List (Ident × Hoisted)}
    (hnodup : (record.names ++ (items.map Prod.fst).map Ident.name).Nodup) :
    (store.hoist id items).2 = none := by
  obtain ⟨done, rest, made, rfl, hmade, -, -, -, -, hstop, hthere⟩ := exists_stop_of_hoist h items
  rw [hstop]
  cases rest with
  | nil => rfl
  | cons item more =>
    have hmem := hthere item rfl
    rw [map_name_of_made hmade] at hmem
    rw [List.map_append, List.map_append, ← List.append_assoc] at hnodup
    exact ((List.nodup_append.1 hnodup).2.2 _ hmem _ List.mem_cons_self rfl).elim

/-- A scope with different names can be entered in a new record. -/
theorem Store.hoist_addRecord_eq_none (store : Store) (kind : ScopeKind) (env : RecordId)
    {scope : Scope} {items : List (Ident × Hoisted)} (hnames : items.map Prod.fst = scope.idents)
    (hnodup : scope.names.Nodup) :
    ((store.addRecord kind (some env)).2.hoist store.records.size items).2 = none := by
  have hrecord : (store.addRecord kind (some env)).2.records[store.records.size]? =
      some (.new kind (store.chain env)) := by
    rw [records_addRecord, Array.getElem?_push_size]
  refine hoist_eq_none hrecord ?_
  rw [hnames]
  exact hnodup

/-! ### What a move raises -/

namespace Thread

variable {program : Program} {layout : Layout} {thread : Thread} {world world' : World}
  {body : List StmtFrame} {callers : List Caller} {site : Option Site} {fault : Fault}

/-- The names of the scope that a thread enters next are different. -/
theorem nodup_declared (hunambiguous : program.Unambiguous)
    (hfocus : thread.focus.Scoped program layout) :
    (thread.focus.declared.map Ident.name).Nodup := by
  obtain ⟨focus, body, callers⟩ := thread
  cases focus with
  | enter f args =>
    cases f with
    | builtin b => exact List.nodup_nil
    | closure code env =>
      obtain ⟨⟨scopes, -, hopens, -⟩, -⟩ := hfocus
      have hnames := hunambiguous _ _ hopens
      rwa [Scope.names, Scope.idents_function] at hnames
  | exec s env =>
    cases s with
    | block block =>
      obtain ⟨scopes, -, hvisits⟩ := hfocus
      have hnames := hunambiguous _ _ (.inside hvisits (List.mem_singleton_self _))
      rwa [Scope.names, Scope.idents_block] at hnames
    | _ => exact List.nodup_nil
  | _ => exact List.nodup_nil

theorem RaisesAt.ne_duplicateName (h : thread.RaisesAt world world' body callers site fault)
    (hunambiguous : program.Unambiguous) (hfocus : thread.focus.Scoped program layout)
    (name : String) : fault ≠ .duplicateName name := by
  rintro rfl
  cases h with
  | node _ _ hfault => exact hfault
  | declaration hdeclared _ htwice =>
    have hnodup := nodup_declared hunambiguous hfocus
    rw [hdeclared, List.map_append, List.map_cons] at hnodup
    exact (List.nodup_append.1 hnodup).2.2 _ htwice _ List.mem_cons_self rfl
  | spawned _ _ _ hfault => exact hfault

/-- No thread raises a fault about a name that is declared twice if no scope declares one. -/
theorem raised?_ne_duplicateName (hunambiguous : program.Unambiguous)
    (hfocus : thread.focus.Scoped program layout) (world : World) (name : String) :
    thread.raised? world ≠ some (.duplicateName name) := by
  intro h
  unfold raised? at h
  split at h
  next heq =>
    obtain ⟨body, callers, -, hraises, -⟩ := exists_raisesAt heq
    exact hraises.ne_duplicateName hunambiguous hfocus name (Option.some.inj h)
  · cases h

/-- No move ends the run for a name that is declared twice. -/
theorem move_ne_duplicateName (hunambiguous : program.Unambiguous)
    (hfocus : thread.focus.Scoped program layout) (name : String) :
    thread.move world ≠ .fail world' (.uncaught (.duplicateName name) site) := by
  intro h
  obtain ⟨body, callers, -, hraises, -⟩ := exists_raisesAt (exposed_move_of_fail h)
  exact hraises.ne_duplicateName hunambiguous hfocus name rfl

end Thread

end LateConst
