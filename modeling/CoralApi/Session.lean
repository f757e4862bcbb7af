import CoralApi.Ownership
import CoralApi.Library.Transition

/-!
# The threads around a response

One response between its creation and its deletion: the submission, the waiter
that gets its completion, the thread that releases it, and any number of
waits.  Each critical section, each read of the status and each deletion is a
step.  `Session.Move` lists what a step can do; the functions of `rpc.cpp` do
not occur after `step_move`.
-/

namespace CoralApi

open Program Transition

/-- Where the submission of the response is. -/
inductive Task where
  | idle
  /-- `inaccel_submit` has returned -1 -/
  | failed
  /-- `inaccel_submit` has followed a pointer that dangles -/
  | lost
  /-- handed to gRPC -/
  | pending
  /-- the queue has returned the call -/
  | completed
  /-- the waiter is going to delete the response -/
  | closing
  | finished
  /-- the waiter has followed a pointer that dangles -/
  | stuck
  deriving DecidableEq

/-- Where `inaccel_response_release` is. -/
inductive Release where
  | idle
  /-- it is going to delete the response -/
  | deleting
  | finished
  | stuck
  deriving DecidableEq

/-- Where a wait is. -/
inductive Wait where
  | idle
  | asleep
  /-- out of its loop, before it reads the status -/
  | reading
  | returned (code : Int)
  | stuck
  deriving DecidableEq

structure Session where
  p : Process
  task : Task
  release : Release
  waits : Nat → Wait
  /-- log: the slices of the snapshot that was submitted -/
  snapshot : List Nat
  /-- log: the status of the completion -/
  delivered : Option Status
  /-- log: the slices that the waiter has detached -/
  cleared : List Nat

inductive Act where
  | submit (request : Nat)
  | next (status : Status)
  | settle
  | delete
  | release
  | dispose
  | wait (thread : Nat)
  | wake (thread : Nat) (error : Option Errno)
  | read (thread : Nat)
  /-- the process does something else -/
  | other (p : Process)

/-- An act, and how the calls below it are answered. -/
structure Turn where
  act : Act
  errno : Nat
  os : Nat → Reply

def Session.setWait (thread : Nat) (wait : Wait) (s : Session) : Session :=
  { s with waits := Function.update s.waits thread wait }

namespace Act

def run (P : PageSize) (response : Nat) : Act → Prog (Session → Session)
  | .submit request => do
      let result ← inaccelSubmit P request response
      if result = 0 then
        return fun s =>
          { s with task := .pending, snapshot := s.p.contexts response }
      else return fun s => { s with task := .failed }
  | .next status => do
      CoralApi.next response status
      return fun s => { s with task := .completed, delivered := some status }
  | .settle => do
      let before ← get
      let gone ← waiterSection response
      let after ← get
      let detached := after.detached.take
        (after.detached.length - before.detached.length)
      return fun s =>
        { s with
          task := if gone then .closing else .finished
          cleared := detached.reverse }
  | .delete => do
      deleteResponse response
      return fun s => { s with task := .finished }
  | .release => do
      let gone ← releaseSection response
      return fun s =>
        { s with release := if gone then .deleting else .finished }
  | .dispose => do
      deleteResponse response
      return fun s => { s with release := .finished }
  | .wait thread => do
      waitSection response
      return Session.setWait thread .reading
  | .wake thread error => do
      let ended ← waitWoken response error
      return Session.setWait thread (if ended then .reading else .returned (-1))
  | .read thread => do
      let code ← waitStatus response
      return Session.setWait thread (.returned code)
  | .other p => do
      change fun _ => p
      return id

/-- What an early end makes of the thread. -/
def stop : Act → Stop → Session → Session
  | .submit _, _, s => { s with task := .lost }
  | .next _, _, s => { s with task := .stuck }
  | .settle, _, s => { s with task := .stuck }
  | .delete, _, s => { s with task := .stuck }
  | .release, _, s => { s with release := .stuck }
  | .dispose, _, s => { s with release := .stuck }
  | .wait thread, .asleep _, s => s.setWait thread .asleep
  | .wait thread, _, s => s.setWait thread .stuck
  | .wake thread _, .asleep _, s => s.setWait thread .asleep
  | .wake thread _, _, s => s.setWait thread .stuck
  | .read thread, _, s => s.setWait thread .stuck
  | .other _, _, s => s

/-- Each thread acts in order, and a response is submitted and released once.
What else happens in the process leaves the response alone, and gives no slice
of the snapshot to another process. -/
def Allowed (response : Nat) (s : Session) : Act → Prop
  | .submit _ => s.task = .idle
  | .next _ => s.task = .pending
  | .settle => s.task = .completed
  | .delete => s.task = .closing
  | .release => s.release = .idle
  | .dispose => s.release = .deleting
  | .wait thread => s.waits thread = .idle
  | .wake thread _ => s.waits thread = .asleep
  | .read thread => s.waits thread = .reading
  | .other p =>
      p.responses response = s.p.responses response ∧
        p.deleted.count response = s.p.deleted.count response ∧ p.Named ∧
        (s.p.Own s.snapshot → p.Own s.snapshot)

instance (response : Nat) (s : Session) (act : Act) :
    Decidable (act.Allowed response s) :=
  match act with
  | .submit _ => inferInstanceAs (Decidable (s.task = .idle))
  | .next _ => inferInstanceAs (Decidable (s.task = .pending))
  | .settle => inferInstanceAs (Decidable (s.task = .completed))
  | .delete => inferInstanceAs (Decidable (s.task = .closing))
  | .release => inferInstanceAs (Decidable (s.release = .idle))
  | .dispose => inferInstanceAs (Decidable (s.release = .deleting))
  | .wait thread => inferInstanceAs (Decidable (s.waits thread = .idle))
  | .wake thread _ => inferInstanceAs (Decidable (s.waits thread = .asleep))
  | .read thread => inferInstanceAs (Decidable (s.waits thread = .reading))
  | .other _ => inferInstanceAs (Decidable (_ ∧ _ ∧ _ ∧ (_ → _)))

end Act

namespace Turn

def outcome (P : PageSize) (response : Nat) (s : Session) (turn : Turn) :
    Session :=
  match turn.act.run P response (s.p.enter turn.errno turn.os) with
  | .ok update w' => update { s with p := w'.toProcess }
  | .error reason w' => turn.act.stop reason { s with p := w'.toProcess }

/-- The turn follows a pointer to the deleted response. -/
def Dangles (P : PageSize) (response : Nat) (s : Session) (turn : Turn) :
    Prop :=
  ¬Ensures (turn.act.run P response) (fun _ _ => True)
    (fun reason w' => reason ≠ .dangling response ∨
      w'.responses response ≠ none) (s.p.enter turn.errno turn.os)

instance (P : PageSize) (response : Nat) (s : Session) (turn : Turn) :
    Decidable (turn.Dangles P response s) :=
  inferInstanceAs (Decidable (¬_))

end Turn

/-- The steps of the threads. -/
def Session.Step (P : PageSize) (response : Nat) (s : Session) (turn : Turn)
    (s' : Session) : Prop :=
  turn.act.Allowed response s ∧ s' = turn.outcome P response s

/-- A response that `inaccel_response_create` has just returned, in a process
that has given no name twice. -/
structure Session.Created (response : Nat) (s : Session) : Prop where
  created : ∃ (p : Process) (errno : Nat) (os : Nat → Reply) (w' : World),
    p.Named ∧ p.nextPtr ∉ p.deleted ∧
      inaccelResponseCreate (p.enter errno os) = .ok (some response) w' ∧
      s.p = w'.toProcess
  task : s.task = .idle
  release : s.release = .idle
  waits : ∀ thread, s.waits thread = .idle
  delivered : s.delivered = none

/-- The points of a run that takes these turns. -/
def Session.trace (P : PageSize) (response : Nat) :
    List Turn → Session → List (Session × Turn)
  | [], _ => []
  | turn :: turns, s =>
      (s, turn) :: trace P response turns (turn.outcome P response s)

/-- The end of this run. -/
def Session.play (P : PageSize) (response : Nat) (turns : List Turn)
    (s : Session) : Session :=
  turns.foldl (fun s turn => turn.outcome P response s) s

theorem Session.trace_turns {P : PageSize} {response : Nat}
    {turns : List Turn} {s : Session} :
    (s.trace P response turns).map Prod.snd = turns := by
  induction turns generalizing s with
  | nil => rfl
  | cons turn turns induction => exact congrArg (turn :: ·) induction

theorem Session.trace_append {P : PageSize} {response : Nat}
    {turns more : List Turn} {s : Session} :
    s.trace P response (turns ++ more) = s.trace P response turns ++
      (s.play P response turns).trace P response more := by
  induction turns generalizing s with
  | nil => rfl
  | cons turn turns induction => exact congrArg ((s, turn) :: ·) induction

theorem Session.run_play {P : PageSize} {response : Nat} {turns : List Turn}
    {s : Session} (allowed : ∀ point ∈ s.trace P response turns,
      point.2.act.Allowed response point.1) :
    Run (Session.Step P response) s (s.trace P response turns)
      (s.play P response turns) := by
  induction turns generalizing s with
  | nil => exact .nil s
  | cons turn turns induction =>
      refine .cons ⟨allowed _ List.mem_cons_self, rfl⟩ (induction ?_)
      exact fun point later => allowed point (List.mem_cons_of_mem _ later)

/-- A response that was just created, in the prepared process. -/
@[irreducible] def Session.fresh : Session where
  p := (final (inaccelResponseCreate
    (Process.prepared.enter 0 succeeds))).toProcess
  task := .idle
  release := .idle
  waits := fun _ => .idle
  snapshot := []
  delivered := none
  cleared := []

theorem created_fresh : Session.fresh.Created 3 where
  created := by
    refine ⟨.prepared, 0, succeeds, _, by decide +kernel, by decide +kernel,
      ?_, by with_unfolding_all rfl⟩
    with_unfolding_all rfl
  task := by with_unfolding_all rfl
  release := by with_unfolding_all rfl
  waits := fun _ => by with_unfolding_all rfl
  delivered := by with_unfolding_all rfl

/-- The response is there and then it is not. -/
structure Process.Deletes (response : Nat) (p q : Process) : Prop where
  retains : p.Retains q
  gone : q.responses response = none
  deleted : q.deleted = response :: p.deleted

/-- The act looks at the flags for this wait. -/
def Act.Checks (thread : Nat) (act : Act) : Prop :=
  act = .wait thread ∨ act = .wake thread none

/-- The act belongs to this wait. -/
def Act.Waits (thread : Nat) (act : Act) : Prop :=
  act = .wait thread ∨ (∃ error, act = .wake thread error) ∨
    act = .read thread

/-- What a step can do. -/
inductive Session.Move (response : Nat) (s : Session) : Turn → Session → Prop
    where
  | sent {request errno : Nat} {os : Nat → Reply} {r : Response}
      {grpc : Request} {p : Process}
      (through : (s.p.enter errno os).GetsThrough request response)
      (found : s.p.responses response = some r)
      (tends : s.p.Tends response (some { r with request := grpc }) p)
      (own : s.p.Named → p.Own (arrayContexts grpc.arguments)) :
      Move response s ⟨.submit request, errno, os⟩
        { s with
          p := p
          task := .pending
          snapshot := arrayContexts grpc.arguments }
  | unsent {request errno : Nat} {os : Nat → Reply} {r : Response}
      {grpc : Request} {p : Process} {task : Task}
      (fails : ¬(s.p.enter errno os).GetsThrough request response)
      (ends : task = .failed ∨ task = .lost)
      (found : s.p.responses response = some r)
      (tends : s.p.Tends response (some { r with request := grpc }) p) :
      Move response s ⟨.submit request, errno, os⟩
        { s with p := p, task := task }
  | next {status : Status} {errno : Nat} {os : Nat → Reply} {r : Response}
      {p : Process} (found : s.p.responses response = some r)
      (tends : s.p.Tends response (some { r with status := status }) p) :
      Move response s ⟨.next status, errno, os⟩
        { s with p := p, task := .completed, delivered := some status }
  | settled {errno : Nat} {os : Nat → Reply} {r : Response} {p : Process}
      {cleared : List Nat} (found : s.p.responses response = some r)
      (tends : s.p.Tends response
        (some { r with done := r.done || !r.cancelled }) p)
      (detached : s.p.Own (arrayContexts r.request.arguments) →
        cleared = arrayContexts r.request.arguments) :
      Move response s ⟨.settle, errno, os⟩
        { s with
          p := p
          task := if r.cancelled then .closing else .finished
          cleared := cleared }
  | jammed {errno : Nat} {os : Nat → Reply} {r : Response} {p : Process}
      (found : s.p.responses response = some r)
      (tends : s.p.Tends response (some r) p) :
      Move response s ⟨.settle, errno, os⟩ { s with p := p, task := .stuck }
  | deleted {errno : Nat} {os : Nat → Reply} {p : Process}
      (deletes : s.p.Deletes response p) :
      Move response s ⟨.delete, errno, os⟩
        { s with p := p, task := .finished }
  | released {errno : Nat} {os : Nat → Reply} {r : Response} {p : Process}
      (found : s.p.responses response = some r)
      (tends : s.p.Tends response
        (some { r with cancelled := r.cancelled || !r.done }) p) :
      Move response s ⟨.release, errno, os⟩
        { s with
          p := p
          release := if r.done then .deleting else .finished }
  | disposed {errno : Nat} {os : Nat → Reply} {p : Process}
      (deletes : s.p.Deletes response p) :
      Move response s ⟨.dispose, errno, os⟩
        { s with p := p, release := .finished }
  | ended {thread errno : Nat} {os : Nat → Reply} {act : Act} {r : Response}
      {p : Process} (checks : act.Checks thread)
      (found : s.p.responses response = some r)
      (flag : r.cancelled = true ∨ r.done = true)
      (tends : s.p.Tends response (some r) p) :
      Move response s ⟨act, errno, os⟩
        ({ s with p := p }.setWait thread .reading)
  | slept {thread errno : Nat} {os : Nat → Reply} {act : Act} {r : Response}
      {p : Process} (checks : act.Checks thread)
      (found : s.p.responses response = some r)
      (tends : s.p.Tends response (some r) p) :
      Move response s ⟨act, errno, os⟩
        ({ s with p := p }.setWait thread .asleep)
  | erred {thread errno : Nat} {os : Nat → Reply} {error : Option Errno}
      {r : Response} {p : Process} (found : s.p.responses response = some r)
      (tends : s.p.Tends response (some r) p) :
      Move response s ⟨.wake thread error, errno, os⟩
        ({ s with p := p }.setWait thread (.returned (-1)))
  | read {thread errno : Nat} {os : Nat → Reply} {r : Response}
      (found : s.p.responses response = some r) :
      Move response s ⟨.read thread, errno, os⟩
        (s.setWait thread (.returned r.status.code))
  | dangled {thread errno : Nat} {os : Nat → Reply} {act : Act}
      (waits : act.Waits thread) (gone : s.p.responses response = none) :
      Move response s ⟨act, errno, os⟩ (s.setWait thread .stuck)
  | other {errno : Nat} {os : Nat → Reply} {p : Process}
      (allowed : (Act.other p).Allowed response s) :
      Move response s ⟨.other p, errno, os⟩ { s with p := p }

/-- A property of all ends of an act is one of its outcome. -/
theorem Turn.outcome_of {P : PageSize} {response : Nat} {s : Session}
    {turn : Turn} {good : Session → Prop}
    (ensures : Ensures (turn.act.run P response)
      (fun update w' => good (update { s with p := w'.toProcess }))
      (fun reason w' =>
        good (turn.act.stop reason { s with p := w'.toProcess }))
      (s.p.enter turn.errno turn.os)) :
    good (turn.outcome P response s) := by
  unfold Ensures at ensures
  unfold Turn.outcome
  cases run : turn.act.run P response (s.p.enter turn.errno turn.os) with
  | ok update w' =>
      rw [run] at ensures
      exact ensures
  | error reason w' =>
      rw [run] at ensures
      exact ensures

section Moves

variable {P : PageSize} {response errno : Nat} {os : Nat → Reply}
  {s : Session} {r : Response}

theorem move_submit {request : Nat}
    (found : s.p.responses response = some r) :
    s.Move response ⟨.submit request, errno, os⟩
      (Turn.outcome P response s ⟨.submit request, errno, os⟩) := by
  have spec := @inaccelSubmit_spec P request response (s.p.enter errno os) rfl
  apply Turn.outcome_of
  refine ensures_bind.mpr (spec.mono ?_ ?_)
  · intro result w' outcome
    obtain ⟨grpc, tends, own⟩ := outcome.tends found
    split
    · rename_i success
      have returned : Except.ok (ε := Stop) result = .ok 0 :=
        congrArg _ success
      have contexts : w'.contexts response = arrayContexts grpc.arguments := by
        simp [Process.contexts, tends.here]
      rw [ensures_pure]
      simp only [contexts]
      exact .sent (outcome.through_iff.mp returned) found tends (own returned)
    · rename_i failure
      exact .unsent
        (mt outcome.through_iff.mpr fun returned =>
          failure (Except.ok.inj returned)) (.inl rfl) found tends
  · intro reason w' outcome
    obtain ⟨grpc, tends, -⟩ := outcome.tends found
    exact .unsent (mt outcome.through_iff.mpr (by simp)) (.inr rfl) found tends

theorem move_next {status : Status}
    (found : s.p.responses response = some r) :
    s.Move response ⟨.next status, errno, os⟩
      (Turn.outcome P response s ⟨.next status, errno, os⟩) := by
  apply Turn.outcome_of
  refine ensures_bind.mpr (next_spec.mono ?_ ?_)
  · rintro _ w' ⟨r', found', quiet⟩
    cases found.symm.trans found'
    refine .next found (Process.Tends.quiet ?_ quiet)
    exact .of_same ⟨rfl, rfl, rfl, rfl⟩ (Function.update_self _ _ _)
  · rintro reason w' ⟨-, -, gone⟩
    exact absurd (found.symm.trans gone) (by simp)

theorem move_settle (found : s.p.responses response = some r) :
    s.Move response ⟨.settle, errno, os⟩
      (Turn.outcome P response s ⟨.settle, errno, os⟩) := by
  apply Turn.outcome_of
  refine Ensures.step rfl (ensures_bind.mpr
    ((waiterSection_spec rfl).mono ?_ ?_))
  · rintro gone w' ⟨r', q, found', detached, rfl, quiet⟩
    cases found.symm.trans found'
    have loop : s.p.Tends response (some r) q := .of_detached found detached
    have clears := (detachSlices_retains detached).2
    have here := loop.here
    refine Ensures.step rfl (.settled found ?_ fun own => ?_)
    · refine Process.Tends.quiet (loop.trans ?_) quiet
      cases cancelled : r.cancelled with
      | true =>
          rw [if_pos rfl]
          refine .of_same ⟨rfl, rfl, rfl, rfl⟩ (here.trans ?_)
          cases r
          simp_all
      | false =>
          rw [if_neg (by simp)]
          refine .of_same ⟨rfl, rfl, rfl, rfl⟩ ?_
          simp [Process.ring, Process.setResponse]
    · have log : w'.detached = q.detached := by
        refine quiet.detached.trans ?_
        cases r.cancelled with
        | true => rfl
        | false => rfl
      have log : w'.detached =
          (arrayContexts r.request.arguments).reverse ++ s.p.detached :=
        log.trans (clears own)
      simp [log]
  · rintro reason w' (dangles | ⟨r', before, q, found', -, -, loop, quiet⟩)
    · exact absurd (found.symm.trans dangles.2.2) (by simp)
    · have tends := Process.Tends.of_detached found loop
      exact .jammed found (tends.quiet
        (w := (s.p.enter errno os).holding [.response response]) quiet)

theorem deletes (found : s.p.responses response = some r) :
    Ensures (deleteResponse response)
      (fun _ w' => s.p.Deletes response w'.toProcess) (fun _ _ => False)
      (s.p.enter errno os) := by
  refine deleteResponse_spec.mono ?_ ?_
  · rintro _ w' ⟨-, quiet⟩
    refine ⟨Process.Retains.trans ?_ (.of_quiet quiet), ?_,
      congrArg (·.deleted) quiet.rpc⟩
    · exact .of_live rfl rfl (Nat.le_refl _)
    · exact (congrFun (congrArg (·.responses) quiet.rpc) response).trans
        (Function.update_self _ _ _)
  · rintro reason w' ⟨-, -, gone⟩
    exact absurd (found.symm.trans gone) (by simp)

theorem move_delete (found : s.p.responses response = some r) :
    s.Move response ⟨.delete, errno, os⟩
      (Turn.outcome P response s ⟨.delete, errno, os⟩) := by
  apply Turn.outcome_of
  refine ensures_bind.mpr ((deletes found).mono ?_ ?_)
  · exact fun _ w' deletes => .deleted deletes
  · exact fun _ _ => False.elim

theorem move_dispose (found : s.p.responses response = some r) :
    s.Move response ⟨.dispose, errno, os⟩
      (Turn.outcome P response s ⟨.dispose, errno, os⟩) := by
  apply Turn.outcome_of
  refine ensures_bind.mpr ((deletes found).mono ?_ ?_)
  · exact fun _ w' deletes => .disposed deletes
  · exact fun _ _ => False.elim

theorem move_release (found : s.p.responses response = some r) :
    s.Move response ⟨.release, errno, os⟩
      (Turn.outcome P response s ⟨.release, errno, os⟩) := by
  apply Turn.outcome_of
  refine ensures_bind.mpr ((releaseSection_spec rfl).mono ?_ ?_)
  · rintro gone w' ⟨r', found', rfl, quiet⟩
    cases found.symm.trans found'
    refine .released found (Process.Tends.quiet ?_ quiet)
    cases done : r.done with
    | true =>
        rw [if_pos rfl]
        refine .of_same ⟨rfl, rfl, rfl, rfl⟩ (found.trans ?_)
        cases r
        simp_all
    | false =>
        rw [if_neg (by simp)]
        refine .of_same ⟨rfl, rfl, rfl, rfl⟩ ?_
        simp [Process.ring, Process.setResponse]
  · rintro reason w' ⟨-, -, gone⟩
    exact absurd (found.symm.trans gone) (by simp)

theorem move_wait {thread : Nat} :
    s.Move response ⟨.wait thread, errno, os⟩
      (Turn.outcome P response s ⟨.wait thread, errno, os⟩) := by
  have checks : (Act.wait thread).Checks thread := .inl rfl
  apply Turn.outcome_of
  refine ensures_bind.mpr ((waitSection_spec rfl).mono ?_ ?_)
  · rintro _ w' ⟨quiet, r, found, flag⟩
    exact .ended checks found flag (.of_quiet found quiet)
  · rintro reason w' (⟨rfl, rfl, gone⟩ | ⟨live, rfl, quiet⟩)
    · exact .dangled (.inl rfl) gone
    · obtain ⟨r, found⟩ := Option.ne_none_iff_exists'.mp live
      exact .slept checks found (.of_quiet found quiet)

theorem move_wake {thread : Nat} {error : Option Errno} :
    s.Move response ⟨.wake thread error, errno, os⟩
      (Turn.outcome P response s ⟨.wake thread error, errno, os⟩) := by
  apply Turn.outcome_of
  refine ensures_bind.mpr ((waitWoken_spec rfl).mono ?_ ?_)
  · rintro ended w' ⟨quiet, r, found, flag⟩
    cases ended with
    | true =>
        obtain ⟨rfl, set⟩ := flag rfl
        exact .ended (.inr rfl) found set (.of_quiet found quiet)
    | false => exact .erred found (.of_quiet found quiet)
  · rintro reason w' (⟨rfl, rfl, gone⟩ | ⟨live, rfl, rfl, quiet⟩)
    · exact .dangled (.inr (.inl ⟨error, rfl⟩)) gone
    · obtain ⟨r, found⟩ := Option.ne_none_iff_exists'.mp live
      exact .slept (.inr rfl) found (.of_quiet found quiet)

theorem move_read {thread : Nat} :
    s.Move response ⟨.read thread, errno, os⟩
      (Turn.outcome P response s ⟨.read thread, errno, os⟩) := by
  apply Turn.outcome_of
  refine ensures_bind.mpr (waitStatus_spec.mono ?_ ?_)
  · rintro code w' ⟨rfl, r, found, rfl⟩
    exact .read found
  · rintro reason w' ⟨rfl, rfl, gone⟩
    exact .dangled (.inr (.inr rfl)) gone

end Moves

/-- The functions of `rpc.cpp` do no more than the moves, while the response
is there for all but the waits. -/
theorem Session.step_move {P : PageSize} {response : Nat} {s s' : Session}
    {turn : Turn} (step : s.Step P response turn s')
    (live : (∃ thread, turn.act.Waits thread) ∨
      (∃ p, turn.act = .other p) ∨ s.p.responses response ≠ none) :
    s.Move response turn s' := by
  obtain ⟨allowed, rfl⟩ := step
  obtain ⟨act, errno, os⟩ := turn
  have found : (¬∃ thread, act.Waits thread) → (¬∃ p, act = .other p) →
      ∃ r, s.p.responses response = some r := fun waits other =>
    Option.ne_none_iff_exists'.mp
      ((live.resolve_left waits).resolve_left other)
  cases act with
  | wait thread => exact move_wait
  | wake thread error => exact move_wake
  | read thread => exact move_read
  | other p => exact .other allowed
  | submit request =>
      obtain ⟨r, found⟩ := found (by simp [Act.Waits]) (by simp)
      exact move_submit found
  | next status =>
      obtain ⟨r, found⟩ := found (by simp [Act.Waits]) (by simp)
      exact move_next found
  | settle =>
      obtain ⟨r, found⟩ := found (by simp [Act.Waits]) (by simp)
      exact move_settle found
  | delete =>
      obtain ⟨r, found⟩ := found (by simp [Act.Waits]) (by simp)
      exact move_delete found
  | release =>
      obtain ⟨r, found⟩ := found (by simp [Act.Waits]) (by simp)
      exact move_release found
  | dispose =>
      obtain ⟨r, found⟩ := found (by simp [Act.Waits]) (by simp)
      exact move_dispose found

end CoralApi
