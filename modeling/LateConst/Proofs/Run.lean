import LateConst.Proofs.RoundRobin
import LateConst.Reading
import LateConst.Run

/-!
# Moments of a run

A run is looked at moment by moment: `Program.moment` is where it stands after some steps. A claim
about every finite part of a run is a claim about all moments.
-/

namespace LateConst

def Program.moment (program : Program) (verbose : Bool) (queue : TurnQueue Thread) :
    Nat → RunProgress
  | 0 => program.start verbose queue
  | k + 1 => (program.moment verbose queue k).next (workload verbose)

def Progress.crash? : RunProgress → Option Crash
  | .ended _ _ (some (.crash crash)) => some crash
  | _ => none

theorem Progress.exists_eq_ended_of_crash? {progress : RunProgress} {crash : Crash}
    (h : progress.crash? = some crash) :
    ∃ rest, progress = .ended progress.world rest (some (.crash crash)) := by
  unfold crash? at h
  split at h
  · cases h
    exact ⟨_, rfl⟩
  · cases h

namespace Program

def ofText? (text : List Char) : Option Program :=
  match read text with
  | .program program => some program
  | _ => none

variable {program : Program} {verbose : Bool} {queue : TurnQueue Thread}

theorem read_of_ofText? {text : List Char} (h : ofText? text = some program) :
    read text = .program program := by
  rw [ofText?] at h
  split at h
  next hread => rw [hread, Option.some.inj h]
  next => cases h

/-- What holds at the start of a run and is kept by every move holds at every moment. -/
theorem holds_moment {Holds : World → List Thread → Prop}
    (hstart : Holds (program.start verbose queue).world (program.start verbose queue).tasks)
    (hkeeps : (workload verbose).Keeps Holds) (k : Nat) :
    Holds (program.moment verbose queue k).world (program.moment verbose queue k).tasks := by
  induction k with
  | zero => exact hstart
  | succ k ih => exact hkeeps.next ih

section Ended

variable {world world' : World} {rest rest' : TurnQueue Thread} {error error' : Option RunError}
  {j k : Nat}

/-- A run that has ended stays as it is. -/
theorem moment_of_ended (h : program.moment verbose queue j = .ended world rest error)
    (hle : j ≤ k) : program.moment verbose queue k = .ended world rest error := by
  induction hle with
  | refl => exact h
  | step _ ih =>
    rw [moment, ih]
    rfl

/-- A run ends in one way only. -/
theorem ended_unique (h : program.moment verbose queue j = .ended world rest error)
    (h' : program.moment verbose queue k = .ended world' rest' error') :
    world = world' ∧ error = error' := by
  obtain hle | hle := Nat.le_total j k
  · cases (moment_of_ended h hle).symm.trans h'
    exact ⟨rfl, rfl⟩
  · cases (moment_of_ended h' hle).symm.trans h
    exact ⟨rfl, rfl⟩

end Ended

end Program

end LateConst
