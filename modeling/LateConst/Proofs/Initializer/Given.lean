import LateConst.Proofs.Evaluation.Wait
import LateConst.Proofs.WriteOnce

/-!
# What a declaration gives to a name

A statement that initializes names gives each of them something of the value it has waited for
(`Use.Gives`), and every other name stays as it is (`Thread.slot?_apply`). Apart from that only an
assignment to a name can change it. To a constant that awaits its value no assignment can happen, so
what is given to it is its value from then on.
-/

namespace LateConst

variable {program : Program} {store store' : Store} {world : World} {id env : RecordId}
  {name other : String} {v w : Value} {slot : Slot}

/-- The state of a name of this kind that its declaration has given a value. -/
def Kind.given (v : Value) : Kind → Slot
  | mutable => .mutable v true
  | constant => .constant v true

/-- What a statement gives to a name of a record if this is the value it has waited for. A
declaration and a trip of a loop give it as it is, a pattern gives the element at the place of the
name, or `undefined` if there is none. -/
inductive Use.Gives (store : Store) (v : Value) : Use → RecordId → String → Value → Prop
  | declare {stmt : Stmt} {name : String} {rest : List Declarator} {env : RecordId} :
      Gives store v (.declare stmt name rest env) env name v
  | destructure {stmt : Stmt} {idents : List Ident} {ident : Ident} {env : RecordId} {ref : Ref}
      {n : Nat} (hv : v = .array ref) (hident : idents[n]? = some ident) :
      Gives store v (.destructure stmt idents env) env ident.name
        ((store.elements ref)[n]?.getD .undefined)
  | loopVariable {name : String} {block : Block} {env : RecordId} :
      Gives store v (.loopVariable name block env) env name v

namespace Use

variable {use : Use}

theorem Gives.value_mem_dues (h : use.Gives store v id name w) : .value id name ∈ use.dues := by
  cases h with
  | declare => exact List.mem_cons_self
  | destructure hv hident => exact List.mem_map.2 ⟨_, List.mem_of_getElem? hident, rfl⟩
  | loopVariable => exact List.mem_singleton.2 rfl

theorem Gives.defines (h : use.Gives store v id name w) : use.Defines := by
  cases h <;> trivial

theorem Gives.takes (h : use.Gives store v id name w) : use.Takes v := by
  cases h with
  | destructure hv hident => exact ⟨_, hv⟩
  | _ => trivial

theorem Gives.unique (h : use.Gives store v id name w) (hnodup : use.dues.Nodup) {w' : Value}
    (h' : use.Gives store v id name w') : w = w' := by
  cases h with
  | declare =>
    cases h'
    rfl
  | @destructure stmt idents ident _ ref n hv hident =>
    subst hv
    generalize hname : ident.name = name' at h'
    cases h' with
    | @destructure _ _ ident' _ ref' n' hv' hident' =>
      obtain rfl := Value.array.inj hv'
      have hdue {m : Nat} {ident : Ident} (h : idents[m]? = some ident) :
          (idents.map (Ident.due id))[m]? = some (ident.due id) := by
        rw [List.getElem?_map, h]
        rfl
      have hlt := (List.getElem?_eq_some_iff.1 (hdue hident)).1
      have hplace : n = n' := by
        refine (List.getElem?_inj hlt hnodup).1 ((hdue hident).trans ?_)
        rw [hdue hident', Ident.due, Ident.due, hname]
      rw [hplace]
  | loopVariable =>
    cases h'
    rfl

theorem gives_declare_iff {stmt : Stmt} {rest : List Declarator} :
    Gives store v (.declare stmt other rest env) id name w ↔ id = env ∧ name = other ∧ w = v := by
  constructor
  · rintro ⟨⟩
    exact ⟨rfl, rfl, rfl⟩
  · rintro ⟨rfl, rfl, rfl⟩
    exact .declare

theorem gives_loopVariable_iff {block : Block} :
    Gives store v (.loopVariable other block env) id name w ↔
      id = env ∧ name = other ∧ w = v := by
  constructor
  · rintro ⟨⟩
    exact ⟨rfl, rfl, rfl⟩
  · rintro ⟨rfl, rfl, rfl⟩
    exact .loopVariable

/-- A statement that gives its value to one name leaves every other name alone. -/
theorem gives_or_stays
    (hgives : ∀ id name w, use.Gives store v id name w ↔ id = env ∧ name = other ∧ w = v)
    (hset : store'.slot? id name =
      some (if id = env ∧ name = other then slot.kind.given v else slot)) :
    (store'.slot? id name = some slot ∧ ∀ w, ¬ use.Gives store v id name w) ∨
      ∃ w, use.Gives store v id name w ∧ store'.slot? id name = some (slot.kind.given w) := by
  by_cases heq : id = env ∧ name = other
  · rw [if_pos heq] at hset
    exact .inr ⟨v, (hgives id name v).2 ⟨heq.1, heq.2, rfl⟩, hset⟩
  · rw [if_neg heq] at hset
    exact .inl ⟨hset, fun w h ↦ heq ⟨((hgives id name w).1 h).1, ((hgives id name w).1 h).2.1⟩⟩

end Use

/-- A declaration gives names of the record in which it is executed their values. -/
theorem Stmt.Wants.env_eq {s : Stmt} {e : Expr} {use : Use} (h : s.Wants env e use)
    (hgives : use.Gives store v id name w) : env = id := by
  cases h <;> cases hgives <;> rfl

/-! ### Constants that await their values -/

theorem Slot.Becomes.eq_awaiting (h : slot.Becomes .awaiting) : slot = .awaiting := by
  cases slot with
  | mutable v initialized =>
    obtain ⟨v', initialized', h⟩ := h
    cases h
  | awaiting => rfl
  | unset => obtain h | ⟨v, h⟩ := h <;> cases h
  | constant v initialized => cases h

/-- What begins by awaiting its value is a constant that is declared with one. -/
theorem Role.eq_constant_of_starts {role : Role} (h : role.Starts .awaiting) :
    role = .constant true := by
  cases role with
  | constant hasInitializer =>
    cases hasInitializer with
    | true => rfl
    | false => cases h
  | mutable => cases h
  | _ =>
    obtain ⟨v, h⟩ := h
    cases h

theorem Slot.IsOpen.eq_awaiting (h : slot.IsOpen) (hkind : slot.kind = .constant) :
    slot = .awaiting := by
  cases slot with
  | mutable value initialized => cases hkind
  | awaiting => rfl
  | _ => exact h.elim

theorem Slot.eq_given_of_define {slot' : Slot} (h : slot.define name v = .ok slot') :
    slot' = slot.kind.given v := by
  obtain ⟨hkind, rfl⟩ | ⟨hkind, rfl⟩ := define_cases h
  · rw [hkind, Kind.given]
  · rw [hkind, Kind.given]

/-- A name that has been given a value is not given another one. -/
theorem Kind.define_given_ne_ok (kind : Kind) (slot : Slot) :
    (kind.given w).define name v ≠ .ok slot := by
  cases kind <;> rintro ⟨⟩

namespace Store

/-- A name that is initialized has the value from then on, and no other name is changed. -/
theorem slot?_setSlot_of_slotToDefine {slot' : Slot} (hslot : store.slot? id name = some slot)
    (h : store.slotToDefine env other v = .ok slot') :
    (store.setSlot env other slot').slot? id name =
      some (if id = env ∧ name = other then slot.kind.given v else slot) := by
  rw [slot?_setSlot]
  split
  next heq =>
    obtain ⟨rfl, rfl⟩ := heq
    obtain ⟨old, hold, hdefine⟩ := exists_define_of_slotToDefine h
    obtain rfl := Option.some.inj (hslot.symm.trans hold)
    rw [hslot, Slot.eq_given_of_define hdefine]
    rfl
  next => exact hslot

/-- A name that has been given a value keeps it when others are initialized. -/
theorem slot?_setSlot_of_given {kind : Kind} (hslot : store.slot? id name = some (kind.given w))
    (h : store.slotToDefine env other v = .ok slot) :
    (store.setSlot env other slot).slot? id name = some (kind.given w) := by
  rw [slot?_setSlot]
  split
  next heq =>
    obtain ⟨rfl, rfl⟩ := heq
    obtain ⟨old, hold, hdefine⟩ := exists_define_of_slotToDefine h
    obtain rfl := Option.some.inj (hslot.symm.trans hold)
    exact (kind.define_given_ne_ok slot hdefine).elim
  next => exact hslot

end Store

/-- A name is not changed by another assignment of the same value. -/
theorem Slot.eq_of_write_of_write {slot' slot'' : Slot} (h : slot.write name v = .ok slot')
    (h' : slot'.write name v = .ok slot'') : slot'' = slot' := by
  cases slot with
  | mutable old initialized =>
    cases h
    cases h'
    rfl
  | unset =>
    cases h
    cases h'
  | _ => cases h

/-- An assignment changes no name but its own. -/
theorem Change.slot?_of_assign {act : Act} {dues dues' : List Due}
    (h : Change program act store dues store' dues') (hact : act = .assign env other v)
    (hslot : store.slot? id name = some slot) :
    store'.slot? id name = some slot ∨ env = id ∧ other = name ∧
      ∃ slot', slot.write name v = .ok slot' ∧ store'.slot? id name = some slot' := by
  induction h generalizing slot with
  | keep hrecords hdues =>
    left
    rw [Store.slot?, hrecords]
    exact hslot
  | enter _ _ _ _ _ => cases hact
  | define _ _ _ => cases hact
  | assign hold hwrite =>
    cases hact
    rw [Store.slot?_setSlot]
    split
    next heq =>
      obtain ⟨rfl, rfl⟩ := heq
      obtain rfl := Option.some.inj (hslot.symm.trans hold)
      exact .inr ⟨rfl, rfl, _, hwrite, by rw [hold]; rfl⟩
    next => exact .inl hslot
  | trans _ _ ih ih' =>
    obtain hslot | ⟨rfl, rfl, slot', hwrite, hslot⟩ := ih hact hslot
    · exact ih' hact hslot
    · obtain hslot | ⟨-, -, slot'', hwrite', hslot⟩ := ih' hact hslot
      · exact .inr ⟨rfl, rfl, slot', hwrite, hslot⟩
      · exact .inr ⟨rfl, rfl, slot', hwrite, Slot.eq_of_write_of_write hwrite hwrite' ▸ hslot⟩

namespace Thread

/-! ### Moves that initialize names -/

variable {idents : List Ident} {values : List Value} {body : List StmtFrame}
  {callers : List Caller} {use : Use}

theorem slot?_defineAll_of_given {kind : Kind} (hslot : store.slot? id name = some (kind.given w))
    (h : defineAll store env idents values = (store', none)) :
    store'.slot? id name = some (kind.given w) := by
  induction idents generalizing store values with
  | nil =>
    cases h
    exact hslot
  | cons ident more ih =>
    rw [defineAll] at h
    split at h
    · cases h
    next slot hdefine => exact ih (Store.slot?_setSlot_of_given hslot hdefine) h

/-- A pattern gives each of its names the element at its place, and leaves all others alone. -/
theorem slot?_defineAll (hslot : store.slot? id name = some slot)
    (h : defineAll store env idents values = (store', none)) :
    (store'.slot? id name = some slot ∧ ∀ ident ∈ idents, ¬ (id = env ∧ name = ident.name)) ∨
      ∃ (n : Nat) (ident : Ident), id = env ∧ idents[n]? = some ident ∧ name = ident.name ∧
        store'.slot? id name = some (slot.kind.given (values[n]?.getD .undefined)) := by
  induction idents generalizing store values with
  | nil =>
    cases h
    exact .inl ⟨hslot, List.forall_mem_nil _⟩
  | cons ident more ih =>
    rw [defineAll] at h
    split at h
    · cases h
    next slot' hdefine =>
      have hset := Store.slot?_setSlot_of_slotToDefine hslot hdefine
      split at hset
      next heq =>
        have hhead : values.headD .undefined = values[0]?.getD .undefined := by
          cases values <;> rfl
        exact .inr ⟨0, ident, heq.1, rfl, heq.2, hhead ▸ slot?_defineAll_of_given hset h⟩
      next hne =>
        obtain ⟨hstill, hmore⟩ | ⟨n, ident', henv, hident, hname, hgiven⟩ := ih hset h
        · exact .inl ⟨hstill, List.forall_mem_cons.2 ⟨hne, hmore⟩⟩
        · rw [List.getElem?_tail] at hgiven
          exact .inr ⟨n + 1, ident', henv, hident, hname, hgiven⟩

/-- A statement that initializes names gives a name its value, or leaves it alone. -/
theorem slot?_apply (hdefines : use.Defines)
    (howes : world.store.Owes (use.dues ++ duesAround body callers))
    (hslot : world.store.slot? id name = some slot) (v : Value) :
    ((apply world body callers v use).world.store.slot? id name = some slot ∧
        ∀ w, ¬ use.Gives world.store v id name w) ∨
      ∃ w, use.Gives world.store v id name w ∧
        (apply world body callers v use).world.store.slot? id name =
          some (slot.kind.given w) := by
  obtain ⟨store, events⟩ := world
  cases use with
  | declare stmt other rest env =>
    obtain ⟨-, slot', -, -, -, hresult⟩ := exists_define_of_owes howes v
    simp only [apply, hresult]
    exact Use.gives_or_stays (fun _ _ _ ↦ Use.gives_declare_iff)
      (Store.slot?_setSlot_of_slotToDefine hslot hresult)
  | destructure stmt idents env =>
    cases v with
    | array ref =>
      obtain ⟨store', hall, -⟩ :=
        @exists_change_of_defineAll [] _ _ _ _ howes (store.elements ref).toList
      simp only [apply, hall]
      obtain ⟨hstill, hnone⟩ | ⟨n, ident, rfl, hident, rfl, hgiven⟩ := slot?_defineAll hslot hall
      · refine .inl ⟨hstill, fun w hgives ↦ ?_⟩
        cases hgives with
        | destructure hv hident => exact hnone _ (List.mem_of_getElem? hident) ⟨rfl, rfl⟩
      · rw [Array.getElem?_toList] at hgiven
        exact .inr ⟨_, .destructure rfl hident, hgiven⟩
    | _ =>
      refine .inl ⟨?_, fun w hgives ↦ ?_⟩
      · exact Store.slot?_of_getElem? (fun _ h ↦ getElem?_records_raise h) hslot
      · cases hgives with
        | destructure hv hident => cases hv
  | loopVariable other block env =>
    obtain ⟨-, slot', -, -, -, hresult⟩ := exists_define_of_owes howes v
    simp only [apply, hresult]
    exact Use.gives_or_stays (fun _ _ _ ↦ Use.gives_loopVariable_iff)
      (Store.slot?_setSlot_of_slotToDefine hslot hresult)
  | _ => exact hdefines.elim

end Thread

end LateConst
