import LateConst.Proofs.Bulletin
import LateConst.Proofs.CleanRun.MainTask
import LateConst.Proofs.CleanRun.Names

/-!
# What a clean check rules out

If the static check has nothing to say about a program, then no run of it raises the fault of a name
that is declared twice, and the task that executes the program ends only after its last statement,
or by an error (`Program.clean_run`).
-/

namespace LateConst

/-! ### The first task of a run -/

def mainLabel : String := "main#1"

/-- Only the first task has the number one. -/
theorem TurnQueue.nextLabel_ne_mainLabel {τ : Type} {queue : TurnQueue τ} (h : 0 < queue.spawned)
    (name : String) : queue.nextLabel name ≠ mainLabel := by
  have hmain : mainLabel = taskLabel "main" 1 := by decide +kernel
  rw [hmain, nextLabel_eq]
  intro heq
  have := number_eq_of_taskLabel_eq heq
  omega

/-- The first task of a run, as long as it is there, has a property. -/
structure Rota.KeepsMain {σ τ : Type} (Holds : τ → Prop) (rota : Rota σ τ) : Prop where
  spawned : 0 < rota.queue.spawned
  main : ∀ job ∈ rota.present.toList ++ rota.queue.waiting,
    job.label = mainLabel → Holds job.work

theorem Workload.keepsMain_of_step {σ τ ε : Type} {workload : Workload σ τ ε} {Holds : τ → Prop}
    (hmove : ∀ waiting world work, Holds work →
      (workload.move waiting world work).Leaves Holds True)
    {rota rota' : Rota σ τ} (h : rota.KeepsMain Holds) (hstep : workload.step rota = .going rota') :
    rota'.KeepsMain Holds := by
  obtain ⟨world, ⟨waiting, spawned⟩, present⟩ := rota
  obtain ⟨hspawned, hmain⟩ := h
  cases present with
  | none =>
    cases waiting with
    | nil => cases hstep
    | cons task rest =>
      cases hstep
      exact ⟨hspawned, hmain⟩
  | some job =>
    obtain ⟨label, work⟩ := job
    obtain ⟨hpresent, hwaiting⟩ := List.forall_mem_cons.1 hmain
    have hleaves (hlabel : label = mainLabel) := hmove waiting.length world work (hpresent hlabel)
    have hadd {spawned : Nat} {new : Job τ} (hnew : new.label = mainLabel → Holds new.work) :
        ∀ job ∈ (TurnQueue.add ⟨waiting, spawned⟩ new).waiting,
          job.label = mainLabel → Holds job.work :=
      List.forall_mem_append.2 ⟨hwaiting, List.forall_mem_singleton.2 hnew⟩
    rw [step] at hstep
    dsimp only at hstep
    cases hmoved : workload.move waiting.length world work with
    | goOn world' work' =>
      rw [hmoved] at hstep hleaves
      cases hstep
      exact ⟨hspawned, List.forall_mem_cons.2 ⟨hleaves, hwaiting⟩⟩
    | spawn world' name new work' =>
      rw [hmoved] at hstep hleaves
      cases hstep
      have hnew (hlabel : TurnQueue.nextLabel ⟨waiting, spawned⟩ name = mainLabel) : Holds new :=
        (TurnQueue.nextLabel_ne_mainLabel hspawned name hlabel).elim
      exact ⟨Nat.succ_pos _, List.forall_mem_cons.2 ⟨hleaves, hadd hnew⟩⟩
    | pause world' work' =>
      rw [hmoved] at hstep hleaves
      cases hstep
      exact ⟨hspawned, hadd hleaves⟩
    | finish world' =>
      rw [hmoved] at hstep
      cases hstep
      exact ⟨hspawned, hwaiting⟩
    | abandonOthers world' work' =>
      rw [hmoved] at hstep hleaves
      cases hstep
      exact ⟨hspawned, List.forall_mem_singleton.2 hleaves⟩
    | fail world' error =>
      rw [hmoved] at hstep
      cases hstep

namespace Program

variable {text : List Char} {program : Program} {verbose : Bool} {queue : TurnQueue Thread}

/-- At no moment the outermost activation of the first task has a `return` left to execute. -/
theorem keepsMain_moment (hclean : ∀ s ∈ program, s.IsClean) (k : Nat)
    {rota : Rota World Thread} (h : program.moment verbose queue k = .going rota) :
    rota.KeepsMain Thread.Stays := by
  induction k generalizing rota with
  | zero =>
    obtain ⟨ident, -, hstart⟩ | ⟨-, world, -, hstart⟩ := program.start_cases verbose queue
    · cases hstart.symm.trans h
    · cases hstart.symm.trans h
      refine ⟨Nat.one_pos, List.forall_mem_singleton.2 fun _ ↦ ⟨fun _ ↦ trivial, fun _ ↦ ?_, ?_⟩⟩
      · exact List.forall_mem_singleton.2 hclean
      · exact fun caller hcaller ↦ by cases hcaller
  | succ k ih =>
    rw [moment] at h
    cases hmoment : program.moment verbose queue k with
    | ended world queue error =>
      rw [hmoment] at h
      cases h
    | going before =>
      rw [hmoment] at h
      exact Workload.keepsMain_of_step
        (fun _ world work hwork ↦ (hwork.move world).mono fun _ ↦ trivial) (ih hmoment) h

theorem declared_eq_none (hunambiguous : program.Unambiguous) : program.declared.2 = none := by
  have hidents : (program.flatMap Stmt.hoisted).map Prod.fst = (Scope.block program).idents := by
    rw [map_fst_flatMap_hoisted, Scope.idents_block]
  exact Store.hoist_addRecord_eq_none Store.initial .program globalRecord hidents
    (hunambiguous _ _ .top)

/-- No run ends because a name is declared twice. -/
theorem moment_ne_duplicateName (hread : Program.read text = .program program)
    (hunambiguous : program.Unambiguous) (k : Nat) (world : World) (rest : TurnQueue Thread)
    (name : String) (site : Option Site) :
    program.moment verbose queue k ≠
      .ended world rest (some (.uncaught (.duplicateName name) site)) := by
  intro h
  obtain ⟨ident, htwice, -⟩ | ⟨j, -, thread, hpresent, hfail⟩ := exists_fail_of_ended h
  · cases (declared_eq_none hunambiguous).symm.trans htwice
  · obtain ⟨layout, -, hthreads⟩ := scoped_moment hread verbose queue j
    have hfocus := (hthreads thread (Progress.mem_tasks_of_present? hpresent)).focus
    exact Thread.move_ne_duplicateName hunambiguous hfocus name hfail

/-- If the static check leaves a bulletin without notices, then at no moment of any run a thread
raises the fault of a name that is declared twice, whether a handler would take it or not. The first
task executes no `return` except in calls, and it is finished only when nothing is left of the
program. -/
theorem clean_run (hread : Program.read text = .program program) {b checked : Bulletin}
    (hredeclared : b.redeclared = []) (hcheck : b.check program = .ok checked)
    (hnotices : checked.notices = []) (verbose : Bool) (queue : TurnQueue Thread) (k : Nat) :
    (∀ world rest name site, program.moment verbose queue k ≠
        .ended world rest (some (.uncaught (.duplicateName name) site))) ∧
      (∀ thread name, (program.moment verbose queue k).present? = some thread →
        thread.raised? (program.moment verbose queue k).world ≠ some (.duplicateName name)) ∧
      ∀ rota thread, program.moment verbose queue k = .going rota →
        rota.present = some ⟨mainLabel, thread⟩ →
          (thread.callers = [] →
            (∀ value span env, thread.focus ≠ .exec (.ret value span) env) ∧
              (∀ v, thread.focus ≠ .value v [] .ret) ∧
              ∀ v, thread.focus = .done v → v = .undefined ∧ thread.body = []) ∧
          ∀ world, thread.move rota.world = .finish world →
            thread = ⟨.done .undefined, [], []⟩ := by
  have hcomplaints := Bulletin.complaints_eq_nil_of_check hredeclared hcheck hnotices
  have hunambiguous := unambiguous_of_complaints_eq_nil hread hcomplaints
  have hclean : ∀ s ∈ program, s.IsClean := by
    rw [complaints, List.append_eq_nil_iff] at hcomplaints
    exact stmtsComplaints_eq_nil_iff.1 hcomplaints.2
  refine ⟨moment_ne_duplicateName hread hunambiguous k, fun thread name hpresent ↦ ?_,
    fun rota thread hmoment hpresent ↦ ?_⟩
  · obtain ⟨layout, -, hthreads⟩ := scoped_moment hread verbose queue k
    have hfocus := (hthreads thread (Progress.mem_tasks_of_present? hpresent)).focus
    exact Thread.raised?_ne_duplicateName hunambiguous hfocus _ name
  · have hstays : thread.Stays := (keepsMain_moment hclean k hmoment).main ⟨mainLabel, thread⟩
      (by simp [hpresent]) rfl
    refine ⟨fun hcallers ↦ ⟨fun value span env heq ↦ ?_, fun v heq ↦ ?_, fun v heq ↦ ?_⟩,
      fun world hfinish ↦ ?_⟩
    · have hret := hstays.focus hcallers
      rw [heq] at hret
      exact Stmt.IsClean.not_ret hret
    · have hret := hstays.focus hcallers
      rwa [heq] at hret
    · have hdone := hstays.focus hcallers
      rwa [heq] at hdone
    · have hleaves := hstays.move rota.world
      rwa [hfinish] at hleaves

/-- Whether nothing is wrong with the program and its first task finishes at this moment. -/
def finishesClean (program : Program) (k : Nat) : Bool :=
  match (Bulletin.new false Bulletin.defaultCap).check program, program.moment false .empty k with
  | .ok checked, .going ⟨world, _, some job⟩ =>
    match job.work.move world with
    | .finish _ => checked.notices.isEmpty && job.label == mainLabel
    | _ => false
  | _, _ => false

/-- A function that returns is called; the program itself goes on to its end. -/
theorem clean_run_of_called_function : ∃ program checked rota thread,
    Program.read "function f(a) \x7breturn a;\x7d print f(1);".toList = .program program ∧
      (Bulletin.new false Bulletin.defaultCap).check program = .ok checked ∧
      checked.notices = [] ∧ program.moment false .empty 19 = .going rota ∧
      rota.present = some ⟨mainLabel, thread⟩ ∧
      (∃ world, thread.move rota.world = .finish world) ∧ thread = ⟨.done .undefined, [], []⟩ ∧
      ∀ name, thread.raised? rota.world ≠ some (.duplicateName name) := by
  have hrun : (ofText? "function f(a) \x7breturn a;\x7d print f(1);".toList).map
      (finishesClean · 19) = some true := by
    decide +kernel
  obtain ⟨program, htext, hrun⟩ := Option.map_eq_some_iff.1 hrun
  have hread := read_of_ofText? htext
  rw [finishesClean] at hrun
  split at hrun
  next checked world rest job hcheck hmoment =>
    split at hrun
    next world' hfinish =>
      obtain ⟨label, thread⟩ := job
      obtain ⟨hempty, hlabel⟩ := Bool.and_eq_true_iff.1 hrun
      obtain rfl : label = mainLabel := eq_of_beq hlabel
      have hnotices := List.isEmpty_iff.1 hempty
      obtain ⟨-, hraised, hmain⟩ := clean_run hread rfl hcheck hnotices false .empty 19
      have hpresent : (program.moment false .empty 19).present? = some thread := by
        rw [hmoment]
        rfl
      refine ⟨program, checked, _, thread, hread, hcheck, hnotices, hmoment, rfl,
        ⟨world', hfinish⟩, (hmain _ thread hmoment rfl).2 world' hfinish, fun name ↦ ?_⟩
      have hname := hraised thread name hpresent
      rwa [hmoment] at hname
    next => cases hrun
  next => cases hrun

/-- A fault is raised where a handler takes it, too. -/
example : (match Program.read "try \x7blet a, a;\x7d catch (e) \x7b\x7d".toList with
    | .program program => (program.moment false .empty 3).present?.bind fun thread ↦
      (thread.raised? (program.moment false .empty 3).world).map Fault.message
    | _ => none) = some (Fault.duplicateName "a").message := by
  decide +kernel

end Program

end LateConst
