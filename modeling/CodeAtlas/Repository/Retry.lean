import CodeAtlas.Fault

/-!
Attempts with a time budget, repeated after faults that may pass. An attempt that takes longer than
its budget fails by timeout when the budget is spent; before the n-th repetition there is a pause of
n quarters of a second. Time is counted in milliseconds.
-/

namespace CodeAtlas.Retry

/-- An attempt: how long it takes and how it ends if it is given that long. -/
structure Attempt (α : Type) where
  delay : Nat
  result : Except Fault α

/-- The length of the pause before the first repetition, in milliseconds. -/
def pause : Nat :=
  250

/-- How an attempt ends within a budget. -/
def Attempt.outcome {α : Type} (a : Attempt α) (operation : String) (budget : Nat) :
    Except Fault α :=
  if a.delay ≤ budget then a.result else .error (.timeout operation budget)

/-- The time that an attempt takes within a budget. -/
def Attempt.elapsed {α : Type} (a : Attempt α) (budget : Nat) : Nat :=
  min a.delay budget

/-- Whether an outcome is a fault after which another attempt may succeed. -/
def mayPass {α : Type} : Except Fault α → Bool
  | .error e => e.mayPass
  | .ok _ => false

/-- The end of a series of attempts: its outcome, how many there were and how long they took. -/
structure Report (α : Type) where
  outcome : Except Fault α
  attempts : Nat
  elapsed : Nat

/-- Goes on with attempt `done` of a script, with `left` repetitions allowed and `elapsed`
milliseconds gone. -/
def runFrom {α : Type} (operation : String) (budget : Nat) (script : Nat → Attempt α) :
    Nat → Nat → Nat → Report α
  | left, done, elapsed =>
    let attempt := script done
    let outcome := attempt.outcome operation budget
    let elapsed := elapsed + attempt.elapsed budget
    match left with
    | 0 => ⟨outcome, done + 1, elapsed⟩
    | left + 1 =>
      if mayPass outcome then
        runFrom operation budget script left (done + 1) (elapsed + pause * (done + 1))
      else ⟨outcome, done + 1, elapsed⟩

/-- Runs the attempts of a script, with a budget for each and a number of repetitions. -/
def run {α : Type} (operation : String) (budget retries : Nat) (script : Nat → Attempt α) :
    Report α :=
  runFrom operation budget script retries 0 0

end CodeAtlas.Retry
