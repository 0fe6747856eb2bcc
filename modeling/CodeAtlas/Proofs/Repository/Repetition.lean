import CodeAtlas.Repository.Retry
import Mathlib.Algebra.BigOperators.Intervals
import Mathlib.Algebra.BigOperators.Ring.Finset

/-!
# How often an attempt is repeated

A series of attempts ends with the first one that settles the matter, by a success or by a fault
that will not pass, unless its repetitions are used up before. The time that it takes is that of its
attempts, each cut off at the budget, and of the pauses between them, each of which is a quarter of
a second longer than the one before.
-/

namespace CodeAtlas.Retry

variable {α : Type}

/-- An outcome after which no further attempt is of use. -/
inductive Settles : Except Fault α → Prop
  | success (value : α) : Settles (.ok value)
  | fault {e : Fault} : e.mayPass = false → Settles (.error e)

theorem settles_iff (outcome : Except Fault α) : Settles outcome ↔ mayPass outcome = false := by
  constructor
  · intro settles
    cases settles with
    | success => rfl
    | fault lasting => exact lasting
  · intro lasting
    cases outcome with
    | ok value => exact .success value
    | error e => exact .fault lasting

theorem exists_fault_of_mayPass {outcome : Except Fault α} (passes : mayPass outcome = true) :
    ∃ e, outcome = .error e ∧ e.mayPass = true := by
  cases outcome with
  | ok value => cases passes
  | error e => exact ⟨e, rfl, passes⟩

/-- What a report tells of the attempts of a script, whose outcomes are known. -/
structure Reports (budget retries : Nat) (script : Nat → Attempt α)
    (outcome : Nat → Except Fault α) (report : Report α) : Prop where
  /-- The first attempt that settles the matter is the last one, if it is allowed. -/
  settled : ∀ k, Settles (outcome k) → (∀ i < k, ¬ Settles (outcome i)) →
    report.attempts = min (k + 1) (retries + 1)
  unsettled : (∀ k, ¬ Settles (outcome k)) → report.attempts = retries + 1
  last : ∃ k, report.attempts = k + 1 ∧ report.outcome = outcome k
  earlier : ∀ i, i + 1 < report.attempts → ∃ e, outcome i = .error e ∧ e.mayPass = true
  elapsed : report.elapsed = ∑ i ∈ Finset.range report.attempts, min (script i).delay budget +
    250 * (report.attempts * (report.attempts - 1) / 2)

/-- The milliseconds that have gone when an attempt starts that all others have led to. -/
def startOf (budget : Nat) (script : Nat → Attempt α) (done : Nat) : Nat :=
  ∑ i ∈ Finset.range done, ((script i).elapsed budget + pause * (i + 1))

theorem startOf_succ (budget : Nat) (script : Nat → Attempt α) (done : Nat) :
    startOf budget script (done + 1) =
      startOf budget script done + (script done).elapsed budget + pause * (done + 1) := by
  rw [startOf, Finset.sum_range_succ, ← startOf, Nat.add_assoc]

/-- The pauses before an attempt are so many quarters of a second as there are pairs of attempts up
to it. -/
theorem startOf_eq (budget : Nat) (script : Nat → Attempt α) (done : Nat) :
    startOf budget script done = ∑ i ∈ Finset.range done, min (script i).delay budget +
      250 * ((done + 1) * done / 2) := by
  have pauses : ∑ i ∈ Finset.range done, (i + 1) = (done + 1) * done / 2 := by
    have gauss := Finset.sum_range_id (done + 1)
    rwa [Finset.sum_range_succ', Nat.add_zero, Nat.add_sub_cancel] at gauss
  rw [startOf, Finset.sum_add_distrib, ← Finset.mul_sum, pauses]
  rfl

/-- A series ends some attempts later, and those before the last one have failed in passing. -/
theorem runFrom_eq (operation : String) (budget : Nat) (script : Nat → Attempt α)
    (left done : Nat) : ∃ more ≤ left,
    (∀ i < more, mayPass ((script (done + i)).outcome operation budget) = true) ∧
      (more < left → mayPass ((script (done + more)).outcome operation budget) = false) ∧
      runFrom operation budget script left done (startOf budget script done) =
        ⟨(script (done + more)).outcome operation budget, done + more + 1,
          startOf budget script (done + more) + (script (done + more)).elapsed budget⟩ := by
  induction left generalizing done with
  | zero => exact ⟨0, Nat.le_refl 0, by simp, by simp, rfl⟩
  | succ left ih =>
    cases passes : mayPass ((script done).outcome operation budget) with
    | false =>
      refine ⟨0, Nat.zero_le _, by simp, fun _ => passes, ?_⟩
      simp only [runFrom, passes, Bool.false_eq_true, if_false, Nat.add_zero]
    | true =>
      obtain ⟨more, few, failed, ends, report⟩ := ih (done + 1)
      have shift (i : Nat) : done + 1 + i = done + (i + 1) := by omega
      simp only [shift] at failed ends report
      refine ⟨more + 1, Nat.succ_le_succ few, ?_, fun less => ends (by omega), ?_⟩
      · intro i earlier
        cases i with
        | zero => exact passes
        | succ i => exact failed i (by omega)
      · rw [← report, startOf_succ]
        simp only [runFrom, passes, if_true]

/-- A series of attempts is repeated until one settles the matter or its repetitions are used up. -/
theorem run_untilSettled (operation : String) (budget retries : Nat) (script : Nat → Attempt α) :
    Reports budget retries script (fun i => (script i).outcome operation budget)
      (run operation budget retries script) := by
  obtain ⟨last, few, failed, ends, report⟩ :=
    runFrom_eq operation budget script retries 0
  simp only [Nat.zero_add] at failed ends report
  have report : run operation budget retries script = _ := report
  have unsettled : ∀ i < last, ¬ Settles ((script i).outcome operation budget) := by
    intro i earlier settles
    rw [settles_iff, failed i earlier] at settles
    cases settles
  have settled : last < retries → Settles ((script last).outcome operation budget) :=
    fun less => (settles_iff _).mpr (ends less)
  rw [report]
  constructor
  case settled =>
    intro k settles first
    -- neither attempt comes before the other one, as far as repetitions are left
    have notBefore : ¬ k < last := fun before => unsettled k before settles
    have notAfter : last < retries → ¬ last < k := fun less after => first last after (settled less)
    show last + 1 = min (k + 1) (retries + 1)
    omega
  case unsettled =>
    intro never
    have used : ¬ last < retries := fun less => never last (settled less)
    show last + 1 = retries + 1
    omega
  case last => exact ⟨last, rfl, rfl⟩
  case earlier =>
    intro i before
    exact exists_fault_of_mayPass (failed i (Nat.lt_of_succ_lt_succ before))
  case elapsed =>
    show startOf budget script last + (script last).elapsed budget = _
    rw [startOf_eq, Finset.sum_range_succ, Nat.add_sub_cancel, Nat.add_right_comm]
    rfl

/-- The attempt that is slow for the budget is repeated after a quarter of a second, and the fault
that comes next will not pass. -/
example : run "fetch" 100 5 (fun i => if i = 0 then ⟨400, .ok ()⟩ else ⟨30, .error .cancelled⟩) =
    ⟨.error .cancelled, 2, 380⟩ := rfl

end CodeAtlas.Retry
