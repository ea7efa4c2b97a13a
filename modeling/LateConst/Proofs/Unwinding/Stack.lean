import LateConst.Proofs.Unwinding.Move
import LateConst.Proofs.WholeArray

/-!
# What is open

A task has begun expressions and statements in each other, and bodies of `try` statements, and has
not come back from all of them. `Program.stack` keeps account of them along a run: what a move
begins is put on the stack of its task, and what is deeper than the thread that is left of it is
taken off. The stack agrees with what is left to do in the thread (`Program.stands`): it holds the
nodes to which the thread will come back, and its handlers are those of the thread.
-/

namespace LateConst

/-! ### Frames -/

/-- What a thread can be inside of: an expression or a statement, or the body of a `try`. -/
inductive Part where
  | node (depth : Depth) (site : Site)
  | guard (landing : Landing)

def Part.depth : Part → Depth
  | node depth _ => depth
  | guard landing => landing.depth

def Depth.IsInside (depth : Depth) : Prop := ¬depth ≤ ⟨0, 0, 0⟩

/-- Something that was begun at a moment of a run. -/
structure Frame where
  since : Nat
  part : Part

namespace Frame

def depth (frame : Frame) : Depth := frame.part.depth

def site? (frame : Frame) : Option Site :=
  match frame.part with
  | .node _ site => some site
  | .guard _ => none

def landing? (frame : Frame) : Option Landing :=
  match frame.part with
  | .node _ _ => none
  | .guard landing => some landing

end Frame

namespace Thread

/-- What a thread begins by its next move, the innermost first. -/
def begins (thread : Thread) : List Part :=
  thread.opened.map .guard ++ thread.begun.map fun station ↦ .node station.depth station.site

def frames (thread : Thread) (k : Nat) (stack : List Frame) : List Frame :=
  thread.begins.map (Frame.mk k) ++ stack

/-- What is still open after the move: nothing that is deeper than what is left of the thread. -/
def remaining (frames : List Frame) (move : ThreadMove) : List Frame :=
  match move.own? with
  | some left => frames.filter fun frame ↦ frame.depth ≤ left.depth
  | none => []

end Thread

/-- What a task has begun up to a moment of a run and not come back from, the innermost first. -/
def Program.stack (program : Program) (verbose : Bool) (queue : TurnQueue Thread)
    (label : String) : Nat → List Frame
  | 0 => []
  | k + 1 =>
    match (program.moment verbose queue k).job? with
    | some ⟨name, thread⟩ =>
      if name = label then
        Thread.remaining (thread.frames k (program.stack verbose queue label k))
          (thread.move (program.moment verbose queue k).world)
      else program.stack verbose queue label k
    | none => program.stack verbose queue label k

/-! ### Stacks and threads -/

/-- The frame that is met first at the depth of a station is its node. -/
def Station.IsIn (station : Station) (frames : List Frame) : Prop :=
  (∃ since, frames.find? (fun frame ↦ frame.depth ≤ station.depth) =
    some ⟨since, .node station.depth station.site⟩) ∧ (station.isCall → station.site.isCall)

structure Thread.Stands (thread : Thread) (stack : List Frame) : Prop where
  deep : ∀ frame ∈ stack, frame.depth ≤ thread.depth
  inside : ∀ frame ∈ stack, frame.depth.IsInside
  stations : ∀ station ∈ thread.stations, station.IsIn stack
  landings : stack.filterMap Frame.landing? = thread.landings
  fresh : thread.IsFresh

namespace Thread

variable {thread left : Thread} {stack : List Frame} {k : Nat}

/-- What is open in a move was open before, or it is begun by the move. -/
theorem mem_frames {frame : Frame} (h : frame ∈ thread.frames k stack) :
    frame ∈ stack ∨ frame.since = k ∧ frame.part ∈ thread.begins := by
  obtain hbegins | hold := List.mem_append.1 h
  · obtain ⟨part, hpart, rfl⟩ := List.mem_map.1 hbegins
    exact .inr ⟨rfl, hpart⟩
  · exact .inl hold

theorem depth_lt_of_mem_opened {landing : Landing} (h : landing ∈ thread.opened) :
    thread.begun ≠ [] ∧ thread.depth ≤ landing.depth ∧ ¬landing.depth ≤ thread.depth := by
  obtain ⟨focus, body, callers⟩ := thread
  cases focus with
  | exec s env =>
    cases s with
    | tryCatch block ident handler span =>
      obtain rfl := List.mem_singleton.1 h
      refine ⟨List.cons_ne_nil _ _, ?_⟩
      simp [Landing.depth, depth, Depth.le_def]
    | _ => cases h
  | _ => cases h

theorem begun_eq_of_mem {station : Station} (h : station ∈ thread.begun) :
    thread.begun = [station] ∧ station.depth = thread.depth ∧
      (station.isCall → station.site.isCall) := by
  obtain ⟨focus, body, callers⟩ := thread
  cases focus with
  | eval e env frames use =>
    obtain rfl := List.mem_singleton.1 h
    exact ⟨rfl, rfl, id⟩
  | exec s env =>
    obtain rfl := List.mem_singleton.1 h
    exact ⟨rfl, rfl, nofun⟩
  | _ => cases h

theorem isInside_of_begun (h : thread.begun ≠ []) : thread.depth.IsInside := by
  obtain ⟨focus, body, callers⟩ := thread
  cases focus with
  | eval e env frames use => simp [Depth.IsInside, Depth.le_def, depth]
  | exec s env => simp [Depth.IsInside, Depth.le_def, depth]
  | _ => exact (h rfl).elim

/-- What is begun now is at least as deep as the thread, and it is not nothing but bodies. -/
theorem depth_le_of_mem_begins {part : Part} (h : part ∈ thread.begins) :
    thread.begun ≠ [] ∧ thread.depth ≤ part.depth := by
  obtain hmem | hmem := List.mem_append.1 h
  · obtain ⟨landing, hlanding, rfl⟩ := List.mem_map.1 hmem
    exact (depth_lt_of_mem_opened hlanding).imp_right And.left
  · obtain ⟨station, hstation, rfl⟩ := List.mem_map.1 hmem
    obtain ⟨hbegun, hdepth, -⟩ := begun_eq_of_mem hstation
    exact ⟨List.ne_nil_of_mem hstation, hdepth ▸ Depth.le_refl _⟩

/-- The node that is begun now is met first. -/
theorem isIn_frames_of_mem_begun {station : Station} (h : station ∈ thread.begun) :
    station.IsIn (thread.frames k stack) := by
  obtain ⟨hbegun, hdepth, hcall⟩ := begun_eq_of_mem h
  refine ⟨⟨k, ?_⟩, hcall⟩
  have hguards : ((thread.opened.map Part.guard).map (Frame.mk k)).find?
      (fun frame ↦ frame.depth ≤ station.depth) = none := by
    refine List.find?_eq_none.2 fun frame hframe ↦ ?_
    obtain ⟨part, hpart, rfl⟩ := List.mem_map.1 hframe
    obtain ⟨landing, hlanding, rfl⟩ := List.mem_map.1 hpart
    rw [decide_eq_true_iff, hdepth]
    exact (depth_lt_of_mem_opened hlanding).2.2
  rw [frames, begins, hbegun, List.map_append, List.append_assoc, List.find?_append, hguards,
    Option.none_or]
  exact List.find?_cons_of_pos (decide_eq_true (Depth.le_refl _))

/-- What is begun now is not met at the depth of another station. -/
theorem isIn_frames_of_mem_stations {station : Station} (h : station ∈ thread.stations)
    (hstation : station.IsIn stack) : station.IsIn (thread.frames k stack) := by
  obtain ⟨⟨since, hfind⟩, hcall⟩ := hstation
  refine ⟨⟨since, ?_⟩, hcall⟩
  have hbegins : (thread.begins.map (Frame.mk k)).find?
      (fun frame ↦ frame.depth ≤ station.depth) = none := by
    refine List.find?_eq_none.2 fun frame hframe ↦ ?_
    obtain ⟨part, hpart, rfl⟩ := List.mem_map.1 hframe
    obtain ⟨hbegun, hle⟩ := depth_le_of_mem_begins hpart
    rw [decide_eq_true_iff]
    exact fun hle' ↦ not_depth_le_of_mem_stations h hbegun (Depth.le_trans hle hle')
  rw [frames, List.find?_append, hbegins, Option.none_or, hfind]

/-- The handlers that are open. -/
theorem filterMap_landing?_frames (h : stack.filterMap Frame.landing? = thread.landings) :
    (thread.frames k stack).filterMap Frame.landing? = thread.opened ++ thread.landings := by
  have hguards : ((thread.opened.map Part.guard).map (Frame.mk k)).filterMap Frame.landing? =
      thread.opened := by
    rw [List.map_map, List.filterMap_map]
    exact List.filterMap_some
  have hnodes : ((thread.begun.map fun station ↦ Part.node station.depth station.site).map
      (Frame.mk k)).filterMap Frame.landing? = [] := by
    rw [List.map_map, List.filterMap_map]
    exact List.filterMap_eq_nil_iff.2 fun _ _ ↦ rfl
  rw [frames, begins, List.map_append, List.filterMap_append, List.filterMap_append, hguards,
    hnodes, h, List.append_nil]

/-- The handlers among those frames that are no deeper than a thread. -/
theorem filterMap_landing?_filter (frames : List Frame) (d : Depth) :
    (frames.filter fun frame ↦ frame.depth ≤ d).filterMap Frame.landing? =
      (frames.filterMap Frame.landing?).filter fun landing ↦ landing.depth ≤ d := by
  induction frames with
  | nil => rfl
  | cons frame more ih =>
    obtain ⟨since, part⟩ := frame
    cases part with
    | node depth site =>
      rw [List.filter_cons]
      split
      · exact ih
      · exact ih
    | guard landing =>
      change _ = (landing :: more.filterMap Frame.landing?).filter _
      rw [List.filter_cons, List.filter_cons, ← ih]
      change (if decide (landing.depth ≤ d) then _ else _ : List Frame).filterMap _ = _
      split <;> rfl

namespace Stands

theorem isIn_frames (hstands : thread.Stands stack) {station : Station}
    (h : station ∈ thread.begun ++ thread.stations) : station.IsIn (thread.frames k stack) := by
  obtain hmem | hmem := List.mem_append.1 h
  · exact isIn_frames_of_mem_begun hmem
  · exact isIn_frames_of_mem_stations hmem (hstands.stations station hmem)

/-- What is left of a thread stands on what is still open. -/
theorem step (hstands : thread.Stands stack) (hleads : thread.Leads left) :
    left.Stands ((thread.frames k stack).filter fun frame ↦ frame.depth ≤ left.depth) where
  deep frame hframe := of_decide_eq_true (List.mem_filter.1 hframe).2
  inside frame hframe := by
    obtain hold | ⟨-, hbegins⟩ := mem_frames (List.mem_filter.1 hframe).1
    · exact hstands.inside frame hold
    · obtain ⟨hbegun, hle⟩ := depth_le_of_mem_begins hbegins
      exact fun hzero ↦ isInside_of_begun hbegun (Depth.le_trans hle hzero)
  stations station hstation := by
    obtain ⟨⟨since, hfind⟩, hcall⟩ := hstands.isIn_frames (k := k) (hleads.stations hstation)
    refine ⟨⟨since, ?_⟩, hcall⟩
    have hle := depth_le_of_mem_stations hstation
    rw [List.find?_filter, ← hfind]
    congr 1
    funext frame
    simp only [Bool.decide_and, Bool.decide_eq_true]
    by_cases hframe : frame.depth ≤ station.depth
    · simp [hframe, Depth.le_trans hframe hle]
    · simp [hframe]
  landings := by
    obtain ⟨dropped, hlandings, hdropped⟩ := hleads.landings
    rw [filterMap_landing?_filter, filterMap_landing?_frames hstands.landings, hlandings,
      List.filter_append, List.filter_eq_nil_iff.2, List.filter_eq_self.2, List.nil_append]
    · exact fun landing hlanding ↦ decide_eq_true
        (depth_le_of_mem_landings (hleads.inside.imp_right And.left) hlanding)
    · exact fun landing hlanding ↦ by simpa using hdropped landing hlanding
  fresh := hleads.inside.imp_right And.left

theorem of_nil (hstations : thread.stations = []) (hlandings : thread.landings = [])
    (hfresh : thread.IsFresh) : thread.Stands [] where
  deep := List.forall_mem_nil _
  inside := List.forall_mem_nil _
  stations := hstations ▸ List.forall_mem_nil _
  landings := hlandings.symm
  fresh := hfresh

end Stands

end Thread

/-! ### Runs -/

section Labels

variable {σ τ ε : Type} {workload : Workload σ τ ε}

/-- As long as a run goes on, the tasks that wait are still there, and so is the present one if
something is left of it. -/
theorem Workload.labels_step (hkeeps : ∀ waiting world work,
    (workload.move waiting world work).KeepsOthers) {world : σ} {queue : TurnQueue τ}
    {label : String} {work : τ} {rota : Rota σ τ}
    (hgoing : workload.step ⟨world, queue, some ⟨label, work⟩⟩ = .going rota) :
    (queue.waiting ⊆ (Progress.going rota : Progress σ τ ε).jobs) ∧
      ∀ left, (workload.move queue.waiting.length world work).own? = some left →
        ⟨label, left⟩ ∈ (Progress.going rota : Progress σ τ ε).jobs := by
  have hmove := hkeeps queue.waiting.length world work
  rw [step] at hgoing
  dsimp only at hgoing
  rw [← hgoing]
  cases hmoved : workload.move queue.waiting.length world work with
  | goOn world' left =>
    refine ⟨List.subset_cons_self _ _, ?_⟩
    rintro _ ⟨⟩
    exact List.mem_cons_self
  | spawn world' name new left =>
    refine ⟨List.subset_cons_of_subset _ (List.subset_append_left _ _), ?_⟩
    rintro _ ⟨⟩
    exact List.mem_cons_self
  | pause world' left =>
    refine ⟨List.subset_append_left queue.waiting _, ?_⟩
    rintro _ ⟨⟩
    exact List.mem_append_right queue.waiting List.mem_cons_self
  | finish world' =>
    refine ⟨List.Subset.refl queue.waiting, ?_⟩
    rintro _ ⟨⟩
  | abandonOthers world' left =>
    rw [hmoved] at hmove
    exact hmove.elim
  | fail world' error =>
    rw [hmoved] at hgoing
    cases hgoing

/-- A task is there at the next moment unless it is finished or the run ends. -/
theorem Progress.mem_labels_next (hkeeps : ∀ waiting world work,
    (workload.move waiting world work).KeepsOthers) {progress : Progress σ τ ε} {rota : Rota σ τ}
    (hgoing : progress.next workload = .going rota) {label : String}
    (h : label ∈ progress.jobs.map Job.label) :
    label ∈ (progress.next workload).jobs.map Job.label ∨
      ∃ work waiting, progress.job? = some ⟨label, work⟩ ∧
        (workload.move waiting progress.world work).own? = none := by
  obtain ⟨job, hjob, rfl⟩ := List.mem_map.1 h
  cases progress with
  | ended world queue error => cases hgoing
  | going before =>
    obtain ⟨world, ⟨waiting, spawned⟩, present⟩ := before
    cases present with
    | none =>
      cases waiting with
      | nil => cases hjob
      | cons first rest => exact .inl h
    | some present =>
      obtain ⟨hwaiting, hown⟩ := workload.labels_step hkeeps hgoing
      rw [hgoing]
      obtain rfl | hwaits := List.mem_cons.1 hjob
      · cases hleft : (workload.move waiting.length world job.work).own? with
        | some left => exact .inl (List.mem_map.2 ⟨_, hown left hleft, rfl⟩)
        | none => exact .inr ⟨_, _, rfl, hleft⟩
      · exact .inl (List.mem_map_of_mem (hwaiting hwaits))

end Labels

namespace Program

variable {program : Program} {verbose : Bool} {queue : TurnQueue Thread} {label : String} {k : Nat}
  {thread left : Thread}

theorem stack_succ_of_job? (h : (program.moment verbose queue k).job? = some ⟨label, thread⟩) :
    program.stack verbose queue label (k + 1) =
      Thread.remaining (thread.frames k (program.stack verbose queue label k))
        (thread.move (program.moment verbose queue k).world) := by
  rw [stack, h]
  exact if_pos rfl

/-- What others do leaves the stack of a task as it is. -/
theorem stack_succ_of_ne
    (h : ∀ thread, (program.moment verbose queue k).job? ≠ some ⟨label, thread⟩) :
    program.stack verbose queue label (k + 1) = program.stack verbose queue label k := by
  rw [stack]
  split
  next name thread hjob =>
    refine if_neg ?_
    rintro rfl
    exact h thread hjob
  next => rfl

/-- What is open after a step was open before, or the task has just begun it. -/
theorem mem_stack_succ {frame : Frame} (h : frame ∈ program.stack verbose queue label (k + 1)) :
    frame ∈ program.stack verbose queue label k ∨ frame.since = k ∧ ∃ thread,
      (program.moment verbose queue k).job? = some ⟨label, thread⟩ ∧
        frame.part ∈ thread.begins := by
  by_cases hpresent : ∃ thread, (program.moment verbose queue k).job? = some ⟨label, thread⟩
  · obtain ⟨thread, hjob⟩ := hpresent
    rw [stack_succ_of_job? hjob] at h
    unfold Thread.remaining at h
    split at h
    · exact (Thread.mem_frames (List.mem_filter.1 h).1).imp_right fun ⟨hsince, hbegins⟩ ↦
        ⟨hsince, thread, hjob, hbegins⟩
    · cases h
  · push Not at hpresent
    rw [stack_succ_of_ne hpresent] at h
    exact .inl h

/-- Whatever is open has been begun by the task itself. -/
theorem exists_begins_of_mem_stack {frame : Frame}
    (h : frame ∈ program.stack verbose queue label k) :
    frame.since < k ∧ ∃ before,
      (program.moment verbose queue frame.since).job? = some ⟨label, before⟩ ∧
        frame.part ∈ before.begins := by
  induction k with
  | zero => cases h
  | succ k ih =>
    obtain hold | ⟨rfl, hbegins⟩ := mem_stack_succ h
    · exact (ih hold).imp_left Nat.lt_succ_of_lt
    · exact ⟨Nat.lt_succ_self _, hbegins⟩

/-- What is open has been open since it was begun. -/
theorem mem_stack_of_le {frame : Frame} {j : Nat} (hsince : frame.since < j) (hle : j ≤ k)
    (h : frame ∈ program.stack verbose queue label k) :
    frame ∈ program.stack verbose queue label j := by
  induction hle with
  | refl => exact h
  | step hle ih =>
    obtain hold | ⟨rfl, -⟩ := mem_stack_succ h
    · exact ih hold
    · exact (Nat.not_lt.2 hle hsince).elim

/-- A task that is not there has nothing open. -/
theorem stack_eq_nil {rota : Rota World Thread}
    (hgoing : program.moment verbose queue k = .going rota)
    (hlabel : label ∉ (program.moment verbose queue k).jobs.map Job.label) :
    program.stack verbose queue label k = [] := by
  induction k generalizing rota with
  | zero => rfl
  | succ k ih =>
    have hkept (h : label ∈ (program.moment verbose queue k).jobs.map Job.label) :=
      Progress.mem_labels_next (fun _ world thread ↦ thread.keepsOthers_move world) hgoing h
    by_cases hpresent : ∃ thread, (program.moment verbose queue k).job? = some ⟨label, thread⟩
    · obtain ⟨thread, hjob⟩ := hpresent
      obtain hmem | ⟨thread', waiting, hjob', hown⟩ :=
        hkept (List.mem_map_of_mem (Progress.mem_jobs_of_job? hjob))
      · exact (hlabel hmem).elim
      · cases hjob.symm.trans hjob'
        replace hown : (thread.move (program.moment verbose queue k).world).own? = none := hown
        rw [stack_succ_of_job? hjob, Thread.remaining, hown]
    · push Not at hpresent
      rw [stack_succ_of_ne hpresent]
      cases hmoment : program.moment verbose queue k with
      | ended world rest error =>
        rw [moment, hmoment] at hgoing
        cases hgoing
      | going before =>
        refine ih hmoment fun hmem ↦ ?_
        obtain hmem | ⟨thread, -, hjob, -⟩ := hkept hmem
        · exact hlabel hmem
        · exact hpresent thread hjob

/-- The stack of a task is at every moment that of its thread. -/
theorem stands (h : ⟨label, thread⟩ ∈ (program.moment verbose queue k).jobs) :
    thread.Stands (program.stack verbose queue label k) := by
  induction k generalizing label thread with
  | zero =>
    obtain ⟨ident, -, hstart⟩ | ⟨-, world, -, hstart⟩ := program.start_cases verbose queue
    · rw [moment, hstart] at h
      cases h
    · rw [moment, hstart] at h
      obtain rfl : thread = .ofBody program programRecord :=
        congrArg Job.work (List.mem_singleton.1 h)
      exact .of_nil rfl rfl (.inl trivial)
  | succ k ih =>
    obtain ⟨hold, hwaits⟩ | ⟨before, waiting, hpresent, hleft⟩ |
        ⟨present, waiting, hpresent, hnew, hfresh⟩ :=
      Progress.mem_jobs_next (program.nodup_jobs verbose queue k) h
    · rw [stack_succ_of_ne hwaits]
      exact ih hold
    · replace hleft : (before.move (program.moment verbose queue k).world).own? = some thread :=
        hleft
      rw [stack_succ_of_job? hpresent, Thread.remaining, hleft]
      exact (ih (Progress.mem_jobs_of_job? hpresent)).step (Thread.leads_of_own? hleft)
    · have hlabel := hfresh (program.nodup_jobs verbose queue (k + 1))
      obtain ⟨f, rfl⟩ := Thread.exists_ofFunction_of_new? hnew
      have hnone (other : Thread) :
          (program.moment verbose queue k).job? ≠ some ⟨label, other⟩ := fun hjob ↦
        hlabel (List.mem_map.2 ⟨_, Progress.mem_jobs_of_job? hjob, rfl⟩)
      rw [stack_succ_of_ne hnone]
      cases hmoment : program.moment verbose queue k with
      | ended world rest error =>
        rw [hmoment] at hpresent
        cases hpresent
      | going rota =>
        rw [stack_eq_nil hmoment hlabel]
        exact .of_nil rfl rfl (.inr rfl)

/-- As long as a run goes on, a task in which something is open is there, and it is that deep. -/
theorem exists_mem_jobs_of_mem_stack {job : Job Thread} {frame : Frame} {m : Nat}
    (hjob : (program.moment verbose queue k).job? = some job) (hle : m ≤ k)
    (h : frame ∈ program.stack verbose queue label m) :
    ∃ thread, ⟨label, thread⟩ ∈ (program.moment verbose queue m).jobs ∧
      frame.depth ≤ thread.depth ∧ ∀ landing ∈ frame.landing?, landing ∈ thread.landings := by
  cases hmoment : program.moment verbose queue m with
  | ended world rest error =>
    rw [moment_of_ended hmoment hle] at hjob
    cases hjob
  | going rota =>
    have hlabel : label ∈ (program.moment verbose queue m).jobs.map Job.label := by
      by_contra hlabel
      rw [stack_eq_nil hmoment hlabel] at h
      cases h
    rw [← hmoment]
    obtain ⟨⟨_, thread⟩, hmem, rfl⟩ := List.mem_map.1 hlabel
    have hstands := program.stands hmem
    refine ⟨thread, hmem, hstands.deep frame h, fun landing hlanding ↦ ?_⟩
    rw [← hstands.landings]
    exact List.mem_filterMap.2 ⟨frame, h, hlanding⟩

end Program

end LateConst
