import CoralApi.Library.Loop
import CoralApi.Host
import CoralApi.ResponseSpec

/-!
# The time of `inaccel_response_wait_for`

The deadline takes one carry from the nanoseconds.  The loop behind it looks
at the flags, sleeps in `__timedwait`, and looks again unless the reply is an
error.  The sums are those of `time_t` and `long` where these do not overflow.
-/

namespace CoralApi

open Program

def ETIMEDOUT : Errno := ⟨110, by decide⟩

/-- `struct timespec` -/
structure Timespec where
  sec : Int
  nsec : Int
  deriving DecidableEq

namespace Timespec

/-- A point of time, in nanoseconds. -/
def total (time : Timespec) : Int :=
  time.sec * 10 ^ 9 + time.nsec

/-- `pthread_cond_timedwait` accepts the nanoseconds. -/
def Formed (time : Timespec) : Prop :=
  0 ≤ time.nsec ∧ time.nsec < 10 ^ 9

instance (time : Timespec) : Decidable time.Formed :=
  inferInstanceAs (Decidable (_ ∧ _))

/-- `if (abstime.tv_nsec >= 1000000000L)` -/
def carry (abstime : Timespec) : Timespec :=
  if 1000000000 ≤ abstime.nsec then
    ⟨abstime.sec + 1, abstime.nsec - 1000000000⟩
  else abstime

/-- `abstime`, from the clock and `reltime`. -/
def deadline (clock reltime : Timespec) : Timespec :=
  carry ⟨clock.sec + reltime.sec, clock.nsec + reltime.nsec⟩

section Deadline

variable {clock reltime time : Timespec}

theorem carry_total : time.carry.total = time.total := by
  unfold carry total
  split
  · ring
  · rfl

theorem carry_formed_iff (positive : 0 ≤ time.nsec) :
    time.carry.Formed ↔ time.nsec < 2 * 10 ^ 9 := by
  unfold Formed carry
  split
  · dsimp only
    omega
  · omega

/-- The sum and its carry keep the point of time. -/
theorem deadline_total :
    (deadline clock reltime).total = clock.total + reltime.total := by
  unfold deadline
  rw [carry_total]
  unfold total
  ring

theorem deadline_formed_iff (formed : clock.Formed)
    (positive : 0 ≤ reltime.nsec) :
    (deadline clock reltime).Formed ↔
      clock.nsec + reltime.nsec < 2 * 10 ^ 9 :=
  carry_formed_iff (Int.add_nonneg formed.1 positive)

end Deadline

end Timespec

/-- What a wait meets when it takes the mutex: the process, the reply of
`__timedwait` and the time.  No sleep comes before the first look. -/
structure Look where
  world : World
  free : world.held = []
  error : Option Errno
  time : Int

namespace Look

def Settled (response : Nat) (look : Look) : Prop :=
  ∃ r, look.world.responses response = some r ∧
    (r.cancelled = true ∨ r.done = true)

/-- How `pthread_cond_timedwait` may reply. -/
def Answers (abstime : Timespec) (look : Look) : Prop :=
  if abstime.Formed then
    look.error = none ∨
      look.error = some ETIMEDOUT ∧ abstime.total ≤ look.time
  else look.error = some EINVAL

end Look

/-- Where a wait is, with the number of its last look at the flags. -/
inductive Awaiting where
  | asleep (last : Nat)
  | returned (last : Nat) (value : Int)
  /-- the response is not there -/
  | stuck

/-- The wait reads the status some time after its last look. -/
def awaitStatus (response : Nat) (looks : Nat → Look) (last : Nat) :
    Awaiting :=
  match waitStatus response (looks (last + 1)).world with
  | .ok code _ => .returned last code
  | .error _ _ => .stuck

/-- The first look of `inaccel_response_wait_for`, past its clock. -/
def awaitStart (response : Nat) (looks : Nat → Look) : Awaiting :=
  match waitSection response (looks 0).world with
  | .ok _ _ => awaitStatus response looks 0
  | .error (.asleep _) _ => .asleep 0
  | .error _ _ => .stuck

/-- One turn of its loop, from one sleep to the next. -/
def awaitTurn (response : Nat) (looks : Nat → Look) :
    Awaiting → Option Awaiting
  | .asleep last =>
      let look := looks (last + 1)
      match waitWoken response look.error look.world with
      | .ok true _ => some (awaitStatus response looks (last + 1))
      | .ok false _ => some (.returned last (-1))
      | .error (.asleep _) _ => some (.asleep (last + 1))
      | .error _ _ => some .stuck
  | _ => none

/-- The kernel keeps to the deadline, and no code of a status is negative. -/
structure Looks (response : Nat) (abstime : Timespec) where
  look : Nat → Look
  answers : ∀ last, (look (last + 1)).Answers abstime
  codes : ∀ last r, (look last).world.responses response = some r →
    0 ≤ r.status.code

/-- The wait of a call returns from its last look. -/
def AwaitReturns (response : Nat) (looks : Nat → Look) (last : Nat)
    (value : Int) : Prop :=
  Loop.Ends (awaitTurn response looks) (awaitStart response looks)
    (.returned last value)

section Waits

variable {response last : Nat} {abstime : Timespec} {looks : Nat → Look}

/-- Whoever goes to sleep has seen the response at work. -/
theorem waitLoop_unsettled {w : World} :
    Ensures (waitLoop response) (fun _ _ => True)
      (fun _ _ => ∀ r, w.responses response = some r →
        ¬(r.cancelled = true ∨ r.done = true)) w := by
  unfold waitLoop
  apply ensures_derefResponse
  · intro lost _ _ _ r found
    cases lost.symm.trans found
  · intro r found
    split
    · exact unlock_same.mono (fun _ _ _ => trivial) fun _ _ => id
    · rename_i working
      refine unlock_same.bind fun _ w' _ => ?_
      intro r' found'
      cases found.symm.trans found'
      simpa using working

theorem waitSection_unsettled (look : Look) :
    Ensures (waitSection response) (fun _ _ => True)
      (fun _ _ => ¬look.Settled response) look.world := by
  unfold waitSection
  apply ensures_derefResponse
  · rintro lost _ _ _ ⟨r, found, -⟩
    cases lost.symm.trans found
  · intro r found
    apply Ensures.step (lock_run (by simp [look.free]))
    refine waitLoop_unsettled.mono (fun _ _ => id) ?_
    rintro _ _ working ⟨r, found, settled⟩
    exact working r found settled

/-- After a sleep, a failure is an error of `__timedwait`. -/
theorem waitWoken_unsettled (look : Look) :
    Ensures (waitWoken response look.error)
      (fun ended _ => ended = false → look.error ≠ none)
      (fun _ _ => ¬look.Settled response) look.world := by
  unfold waitWoken
  apply ensures_derefResponse
  · rintro lost _ _ _ ⟨r, found, -⟩
    cases lost.symm.trans found
  · intro r found
    apply Ensures.step (lock_run (by simp [look.free]))
    cases look.error with
    | some error =>
        apply Ensures.step rfl
        exact unlock_same.bind fun _ _ _ _ => Option.some_ne_none error
    | none =>
        refine ensures_bind.mpr (waitLoop_unsettled.mono ?_ ?_)
        · intro _ _ _ failed
          cases failed
        · rintro _ _ working ⟨r, found, settled⟩
          exact working r found settled

/-- What every turn leaves: whoever sleeps saw the response at work, and a
return gives a code, or it fails on an error of `__timedwait`. -/
def Awaiting.Sound (response : Nat) (looks : Nat → Look) : Awaiting → Prop
  | .asleep last => ¬(looks last).Settled response
  | .returned last value =>
      (∃ r, (looks (last + 1)).world.responses response = some r ∧
        value = r.status.code) ∨
      ¬(looks last).Settled response ∧ (looks (last + 1)).error ≠ none
  | .stuck => True

theorem awaitStatus_sound :
    (awaitStatus response looks last).Sound response looks := by
  have spec := @waitStatus_spec response (looks (last + 1)).world
  unfold awaitStatus
  split
  · rename_i code w' run
    obtain ⟨-, r, found, rfl⟩ := spec.of_ok run
    exact .inl ⟨r, found, rfl⟩
  · trivial

theorem awaitStart_sound :
    (awaitStart response looks).Sound response looks := by
  have spec := @waitSection_unsettled response (looks 0)
  unfold awaitStart
  split
  · exact awaitStatus_sound
  · rename_i run
    exact spec.of_error run
  · trivial

theorem awaitTurn_sound {state next : Awaiting}
    (sound : state.Sound response looks)
    (turn : awaitTurn response looks state = some next) :
    next.Sound response looks := by
  cases state with
  | asleep last =>
      have spec := @waitWoken_unsettled response (looks (last + 1))
      dsimp only [awaitTurn] at turn
      split at turn
      · cases turn
        exact awaitStatus_sound
      · rename_i run
        cases turn
        exact .inr ⟨sound, spec.of_ok run rfl⟩
      · rename_i run
        cases turn
        exact spec.of_error run
      · cases turn
        trivial
  | returned last value => cases turn
  | stuck => cases turn

theorem AwaitReturns.sound {value : Int}
    (returns : AwaitReturns response looks last value) :
    (Awaiting.returned last value).Sound response looks :=
  returns.invariant (·.Sound response looks)
    (fun _ _ => awaitTurn_sound) awaitStart_sound

/-- An error of a formed deadline comes when it is reached. -/
theorem Look.Answers.late {look : Look} (answers : look.Answers abstime)
    (formed : abstime.Formed) (error : look.error ≠ none) :
    abstime.total ≤ look.time := by
  unfold Answers at answers
  rw [if_pos formed] at answers
  rcases answers with none | ⟨-, late⟩
  · exact absurd none error
  · exact late

/-- With a formed deadline, a wait fails when the time is over. -/
theorem AwaitReturns.late (looks : Looks response abstime)
    (formed : abstime.Formed)
    (returns : AwaitReturns response looks.look last (-1)) :
    abstime.total ≤ (looks.look (last + 1)).time ∧
      ¬(looks.look last).Settled response := by
  rcases returns.sound with ⟨r, found, code⟩ | ⟨working, error⟩
  · have positive := looks.codes (last + 1) r found
    omega
  · exact ⟨(looks.answers last).late formed error, working⟩

/-- With a malformed deadline, a wait fails as soon as it would sleep. -/
theorem awaitReturns_of_malformed (looks : Looks response abstime)
    (malformed : ¬abstime.Formed)
    (working : ¬(looks.look 0).Settled response)
    (first : (looks.look 0).world.responses response ≠ none)
    (second : (looks.look 1).world.responses response ≠ none) :
    AwaitReturns response looks.look 0 (-1) := by
  have start : awaitStart response looks.look = .asleep 0 := by
    have spec := @waitSection_spec response _ (looks.look 0).free
    unfold awaitStart
    cases run : waitSection response (looks.look 0).world with
    | ok value w' =>
        exact absurd (spec.of_ok run).2 working
    | error reason w' =>
        rcases spec.of_error run with ⟨-, -, lost⟩ | ⟨-, rfl, -⟩
        · exact absurd lost first
        · rfl
  have failed : awaitTurn response looks.look (.asleep 0) =
      some (.returned 0 (-1)) := by
    have answers := looks.answers 0
    unfold Look.Answers at answers
    rw [if_neg malformed] at answers
    have spec := @waitWoken_spec response _ (looks.look 1).error
      (looks.look 1).free
    dsimp only [awaitTurn]
    cases run : waitWoken response (looks.look 1).error
      (looks.look 1).world with
    | ok ended w' =>
        obtain ⟨-, r, -, settled⟩ := spec.of_ok run
        cases ended with
        | true => cases answers.symm.trans (settled rfl).1
        | false => rfl
    | error reason w' =>
        rcases spec.of_error run with ⟨-, -, lost⟩ | ⟨-, none, -⟩
        · exact absurd lost second
        · cases answers.symm.trans none
  unfold AwaitReturns
  rw [start]
  exact .turn failed (.exit rfl)

end Waits

/-- `inaccel_response_wait_for` hands over the point of time that was asked
for, and fails behind it only. -/
def WaitsFor (clock reltime : Timespec) : Prop :=
  let abstime := Timespec.deadline clock reltime
  abstime.Formed ∧ abstime.total = clock.total + reltime.total ∧
    ∀ response (looks : Looks response abstime) last,
      AwaitReturns response looks.look last (-1) →
      clock.total + reltime.total ≤ (looks.look (last + 1)).time ∧
        ¬(looks.look last).Settled response

/-- One carry is enough for less than two seconds. -/
theorem waitsFor_iff {clock reltime : Timespec} (formed : clock.Formed)
    (positive : 0 ≤ reltime.nsec) :
    WaitsFor clock reltime ↔ clock.nsec + reltime.nsec < 2 * 10 ^ 9 := by
  rw [← Timespec.deadline_formed_iff formed positive]
  constructor
  · exact fun waits => waits.1
  · intro fits
    refine ⟨fits, Timespec.deadline_total, ?_⟩
    intro response looks last returns
    rw [← Timespec.deadline_total]
    exact returns.late looks fits

/-- A response at work, and a wake-up when the time is over. -/
def Look.late (abstime : Timespec) : Look where
  world := ((Process.loaded 1 "d").setResponse 2
    ⟨⟨"", [], none⟩, .ok, false, false⟩).enter 0 fun _ => .done 0 ""
  free := rfl
  error := some ETIMEDOUT
  time := abstime.total

def Looks.late {abstime : Timespec} (formed : abstime.Formed) :
    Looks 2 abstime where
  look _ := .late abstime
  answers _ := by
    rw [Look.Answers, if_pos formed]
    exact .inr ⟨rfl, Int.le_refl _⟩
  codes _ r found := by
    cases found
    decide

/-- Behind a formed deadline, a wait may fail. -/
theorem awaitReturns_late {abstime : Timespec} (formed : abstime.Formed) :
    AwaitReturns 2 (Looks.late formed).look 0 (-1) :=
  .turn (show awaitTurn 2 _ (.asleep 0) = some (.returned 0 (-1)) from rfl)
    (.exit rfl)

theorem waitsFor_second :
    WaitsFor ⟨1700000000, 999999999⟩ ⟨0, 1000000000⟩ ∧
      ∃ looks : Looks 2 (.deadline ⟨1700000000, 999999999⟩ ⟨0, 1000000000⟩),
        AwaitReturns 2 looks.look 0 (-1) :=
  ⟨(waitsFor_iff (by decide) (by decide)).mpr (by decide), _,
    awaitReturns_late (by decide)⟩

theorem not_waitsFor : ¬∀ clock reltime : Timespec, clock.Formed →
    0 ≤ reltime.sec → 0 ≤ reltime.nsec → WaitsFor clock reltime := by
  intro claim
  have waits := claim ⟨1700000000, 0⟩ ⟨0, 2000000000⟩ (by decide)
    (by decide) (by decide)
  exact absurd waits.1 (by decide)

end CoralApi
