import Mathlib.Data.Nat.Basic
import Mathlib.Order.WellFounded

/-!
# Loops

A loop is a turn: nothing where its guard fails, and else the state after one
run of its body.  `Ends turn start finish` says that the loop leaves `start`
for `finish` after finitely many turns.
-/

namespace Loop

variable {State : Type*} {turn : State → Option State}
  {start middle finish finish' : State}

/-- The loop ends in a state in which its guard fails. -/
inductive Ends (turn : State → Option State) : State → State → Prop where
  | exit {state : State} : turn state = none → Ends turn state state
  | turn {start middle finish : State} : turn start = some middle →
      Ends turn middle finish → Ends turn start finish

/-- The loop with a bound on the tests of its guard. -/
def run (turn : State → Option State) : Nat → State → Option State
  | 0, _ => none
  | fuel + 1, state =>
      match turn state with
      | none => some state
      | some next => run turn fuel next

namespace Ends

/-- The guard fails at the end. -/
theorem exited (ends : Ends turn start finish) : turn finish = none := by
  induction ends with
  | exit fails => exact fails
  | turn _ _ induction => exact induction

theorem unique (ends : Ends turn start finish)
    (ends' : Ends turn start finish') : finish = finish' := by
  induction ends with
  | exit fails =>
      cases ends' with
      | exit => rfl
      | turn goes _ => cases fails.symm.trans goes
  | turn goes _ induction =>
      cases ends' with
      | exit fails => cases fails.symm.trans goes
      | turn goes' rest =>
          cases goes.symm.trans goes'
          exact induction rest

/-- What every turn keeps holds at the end. -/
theorem invariant (inv : State → Prop)
    (keeps : ∀ state next, inv state → turn state = some next → inv next)
    (ends : Ends turn start finish) (initial : inv start) : inv finish := by
  induction ends with
  | exit => exact initial
  | turn goes _ induction => exact induction (keeps _ _ initial goes)

end Ends

theorem ends_of_run {fuel : Nat} (ran : run turn fuel start = some finish) :
    Ends turn start finish := by
  induction fuel generalizing start with
  | zero => cases ran
  | succ fuel induction =>
      rw [run] at ran
      split at ran
      · rename_i fails
        cases ran
        exact .exit fails
      · rename_i goes
        exact .turn goes (induction ran)

/-- The states between the turns of the loop. -/
inductive Passes (turn : State → Option State) (start : State) :
    State → Prop where
  | start : Passes turn start start
  | turn {state next : State} : Passes turn start state →
      turn state = some next → Passes turn start next

/-- What every turn keeps holds all along. -/
theorem Passes.invariant (inv : State → Prop)
    (keeps : ∀ state next, inv state → turn state = some next → inv next)
    (passes : Passes turn start finish) (initial : inv start) : inv finish := by
  induction passes with
  | start => exact initial
  | turn _ goes induction => exact keeps _ _ induction goes

/-- A loop ends from where its turns keep an invariant and lower a measure. -/
theorem ends_of_measure {Rank : Type*} [LT Rank] [WellFoundedLT Rank]
    (inv : State → Prop) (measure : State → Rank)
    (lowers : ∀ state next, inv state → turn state = some next →
      inv next ∧ measure next < measure state) (initial : inv start) :
    ∃ finish, Ends turn start finish := by
  induction bound : measure start using WellFoundedLT.induction
    generalizing start with
  | ind bound induction =>
      cases step : turn start with
      | none => exact ⟨start, .exit step⟩
      | some next =>
          obtain ⟨kept, lower⟩ := lowers start next initial step
          obtain ⟨finish, rest⟩ := induction (measure next) (bound ▸ lower)
            kept rfl
          exact ⟨finish, .turn step rest⟩

/-- A loop whose guard never fails does not end. -/
theorem not_ends (inv : State → Prop)
    (goes : ∀ state, inv state → ∃ next, turn state = some next ∧ inv next)
    (initial : inv start) : ¬Ends turn start finish := by
  intro ends
  have last := ends.invariant inv (fun state next kept step => by
    obtain ⟨next', step', kept'⟩ := goes state kept
    cases step.symm.trans step'
    exact kept') initial
  obtain ⟨next, step, -⟩ := goes finish last
  cases ends.exited.symm.trans step

end Loop
