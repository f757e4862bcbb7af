import CoralApi.Output
import CoralApi.Synchrony

/-!
# The futures of the bindings

`submit` of `rpc.hpp`, of `_rpc.py` and of `InAccel.java` creates a response,
submits it, and hands a function to a future that waits, tells the error if
there is one, and releases the response.  A client is a session whose waits
and releases come from this code alone.
-/

namespace CoralApi

open Program Transition

/-- How the code ends. -/
inductive Ending where
  /-- `std::runtime_error(std::strerror(errno))` -/
  | thrown
  /-- `inaccel::exception` with this string -/
  | raised (what : List Char)
  | returned
  /-- an exception of the host language; the response is not released -/
  | escaped
  deriving DecidableEq

/-- Where the code is. -/
inductive Place where
  /-- the response is there -/
  | ready
  /-- `inaccel_submit` has returned 0 -/
  | sent
  /-- the future is there, and its function has not started -/
  | future
  /-- in `inaccel_response_wait` -/
  | waiting
  /-- the wait has returned an error -/
  | sizing
  /-- the text has this length -/
  | filling (n : Nat)
  | releasing (ending : Ending)
  /-- in the part of the release that deletes the response -/
  | disposing (ending : Ending)
  | ended (ending : Ending)
  /-- behind a step that C does not define -/
  | undefined
  deriving DecidableEq

structure Client where
  session : Session
  place : Place

namespace Place

/-- The part of the C functions that comes next. -/
def Calls (request : Nat) : Place → Act → Prop
  | ready, act => act = .submit request
  | future, act => act = .wait 0
  | waiting, act => act = .read 0 ∨ ∃ error, act = .wake 0 error
  | releasing _, act => act = .release
  | disposing _, act => act = .dispose
  | _, _ => False

/-- Where the code is after it. -/
def next (s : Session) : Place → Place
  | ready =>
      match s.task with
      | .pending => sent
      | .failed => releasing .thrown
      | _ => undefined
  | future | waiting =>
      match s.waits 0 with
      | .returned code =>
          if code = -1 then releasing .thrown
          else if code = 0 then releasing .returned
          else sizing
      | .stuck => undefined
      | _ => waiting
  | releasing ending =>
      match s.release with
      | .deleting => disposing ending
      | .finished => ended ending
      | _ => undefined
  | disposing ending =>
      match s.release with
      | .finished => ended ending
      | _ => undefined
  | place => place

end Place

/-- A string of `n` characters after `snprintf` has written to it. -/
def filled (n : Nat) (written : List Char) : List Char :=
  written ++ List.replicate (n - written.length) nul

/-- Where the code is after it has printed the response. -/
def Place.printed : Place → Option (Option Output) → Place
  | .sizing, some (some output) =>
      if output.value < 0 then .releasing .thrown
      else .filling output.value.toNat
  | .filling n, some (some output) =>
      if output.value = n then .releasing (.raised (filled (n + 1) output.written))
      else .releasing .thrown
  | _, _ => .undefined

/-- The size of the buffer to print to. -/
def Place.room : Place → Option Nat
  | .sizing => some 0
  | .filling n => some (n + 1)
  | _ => none

/-- What the threads of the library and the server do. -/
def Act.Remote : Act → Prop
  | .next status => status.code ∈ codeTexts.map Prod.fst
  | .settle | .delete | .other _ => True
  | _ => False

inductive Deal where
  /-- a step of another thread -/
  | remote (turn : Turn)
  /-- a step of a function that the code has called -/
  | call (turn : Turn)
  /-- the code makes a future or a string -/
  | make (os : Nat → Reply)
  | print (errno : Nat) (os : Nat → Reply)

/-- The code takes its parts in order. -/
def Deal.Allowed (request response : Nat) (c : Client) : Deal → Prop
  | .remote turn => turn.act.Remote ∧ turn.act.Allowed response c.session
  | .call turn =>
      c.place.Calls request turn.act ∧ turn.act.Allowed response c.session
  | .make os => c.place = .sent ∨
      (os 0).isDone = false ∧ ∃ n, c.place = .filling n
  | .print _ _ => c.place.room ≠ none

def Client.after (P : PageSize) (response : Nat) (c : Client) : Deal → Client
  | .remote turn => ⟨turn.outcome P response c.session, c.place⟩
  | .call turn =>
      let s := turn.outcome P response c.session
      ⟨s, c.place.next s⟩
  | .make os =>
      ⟨c.session, if (os 0).isDone then .future else .ended .escaped⟩
  | .print errno os =>
      let result := inaccelResponseSnprint (c.place.room.getD 0) response
        (c.session.p.enter errno os)
      ⟨{ c.session with p := (final result).toProcess },
        c.place.printed (returned result)⟩

def Client.Step (P : PageSize) (request response : Nat) (c : Client)
    (deal : Deal) (c' : Client) : Prop :=
  deal.Allowed request response c ∧ c' = c.after P response deal

/-- A response that was created for a submission. -/
structure Client.Created (response : Nat) (c : Client) : Prop where
  created : c.session.Created response
  ready : c.place = .ready

/-- `inaccel_submit` has returned 0. -/
def Task.Sent : Task → Prop
  | idle | failed | lost => False
  | _ => True

/-- The wait of the code has returned the error of the task. -/
def Session.Erred (s : Session) : Prop :=
  ∃ code, 0 < code ∧ s.waits 0 = .returned code ∧ s.Told code

/-- What an ending tells of the calls and of the task is true. -/
def Ending.Tells (s : Session) : Ending → Prop
  | .thrown => s.task = .failed ∧ s.waits 0 = .idle ∨
      s.task.Sent ∧ (s.waits 0 = .returned (-1) ∨ s.Erred)
  | .raised what => s.task.Sent ∧ ∃ status output,
      s.waits 0 = .returned status.code ∧ s.delivered = some status ∧
      0 < status.code ∧ s.Told status.code ∧
      Formatted.format [status.text.length] (cStr status.text) = some output ∧
      what = output ++ [nul]
  | .returned => s.task.Sent ∧ s.waits 0 = .returned 0 ∧ s.Told 0
  | .escaped => s.task.Sent ∧ (s.waits 0 = .idle ∨ s.Erred)

/-- Where the ending leaves the release. -/
def Ending.release : Ending → Release
  | .escaped => .idle
  | _ => .finished

/-- The wait of the code does not need the response. -/
def Session.Unwaited (s : Session) : Prop :=
  s.waits 0 ≠ .asleep ∧ s.waits 0 ≠ .reading

/-- The code has waited, and knows how it will end. -/
structure Ending.Holds (s : Session) (ending : Ending) : Prop where
  unwaited : s.Unwaited
  tells : ending.Tells s

/-- What holds of the session where the code is. -/
def Place.Fits (s : Session) : Place → Prop
  | ready => s.task = .idle ∧ s.release = .idle ∧ s.waits 0 = .idle
  | sent | future => s.task.Sent ∧ s.release = .idle ∧ s.waits 0 = .idle
  | waiting => s.task.Sent ∧ s.release = .idle ∧
      (s.waits 0 = .asleep ∨ s.waits 0 = .reading)
  | sizing | filling _ => s.task.Sent ∧ s.release = .idle ∧ s.Erred
  | releasing ending => s.release = .idle ∧ ending.release = .finished ∧
      ending.Holds s
  | disposing ending => s.release = .deleting ∧ ending.release = .finished ∧
      ending.Holds s
  | ended ending => s.release = ending.release ∧ ending.Holds s
  | undefined => s.release = .idle ∧ s.Unwaited

structure Client.Sound (response : Nat) (c : Client) : Prop where
  honest : c.session.Honest response
  alone : ∀ thread, thread ≠ 0 → c.session.waits thread = .idle
  coded : ∀ status, c.session.delivered = some status → -1 ≤ status.code
  fits : c.place.Fits c.session

/-- What the code knows stays true. -/
structure Session.Keeps (s s' : Session) : Prop where
  waits : s'.waits = s.waits
  failed : s.task = .failed → s'.task = .failed
  sent : s.task.Sent → s'.task.Sent
  told : ∀ code, s.Told code → s'.Told code
  delivered : s.Completed → s'.delivered = s.delivered

/-- What the other threads leave to the code. -/
structure Session.Aside (s s' : Session) : Prop extends s.Keeps s' where
  release : s'.release = s.release
  idle : s.task = .idle → s'.task = .idle
  coded : (∀ status, s.delivered = some status → -1 ≤ status.code) →
    ∀ status, s'.delivered = some status → -1 ≤ status.code

section Remote

variable {P : PageSize} {response : Nat} {s s' : Session} {turn : Turn}

theorem mem_codes {code : Int} (known : code ∈ codeTexts.map Prod.fst) :
    -1 ≤ code := by
  revert code
  decide

theorem Session.Aside.of_process {p : Process} : s.Aside { s with p := p } :=
  ⟨⟨rfl, id, id, fun _ told => ⟨told.1, told.2, told.3⟩, fun _ => rfl⟩, rfl,
    id, fun coded => coded⟩

/-- A remote step before the completion. -/
theorem Session.Aside.of_early (open' : ¬s.Completed) (waits : s'.waits = s.waits)
    (release : s'.release = s.release) (before : s.task.Sent)
    (after : s'.task.Sent)
    (coded : (∀ status, s.delivered = some status → -1 ≤ status.code) →
      ∀ status, s'.delivered = some status → -1 ≤ status.code) :
    s.Aside s' := by
  refine ⟨⟨waits, ?_, fun _ => after, fun _ told =>
    absurd told.completed open', fun past => absurd past open'⟩, release, ?_,
    coded⟩
  · intro failed
    rw [failed] at before
    exact before.elim
  · intro idle
    rw [idle] at before
    exact before.elim

theorem aside_of_remote (sound : s.Sound response)
    (remote : turn.act.Remote) (step : s.Step P response turn s') :
    s.Aside s' := by
  have allowed := step.1
  cases sound.move step with
  | sent through found tends own => exact remote.elim
  | unsent fails ends found tends => exact remote.elim
  | @next status errno os r p found tends =>
      have pending : s.task = .pending := allowed
      refine .of_early (by simp [Session.Completed, pending]) rfl rfl
        (by rw [pending]; trivial) trivial ?_
      intro _ status' same
      cases same
      exact mem_codes remote
  | settled found tends detached =>
      have completed : s.task = .completed := allowed
      refine .of_early (by simp [Session.Completed, completed]) rfl rfl
        (by rw [completed]; trivial) ?_ fun coded => coded
      split <;> trivial
  | jammed found tends =>
      have completed : s.task = .completed := allowed
      exact .of_early (by simp [Session.Completed, completed]) rfl rfl
        (by rw [completed]; trivial) trivial fun coded => coded
  | deleted deletes =>
      have closing : s.task = .closing := allowed
      refine ⟨⟨rfl, ?_, fun _ => trivial, ?_, fun _ => rfl⟩, rfl, ?_,
        fun coded => coded⟩
      · intro failed
        rw [closing] at failed
        cases failed
      · exact fun _ told => ⟨.inr rfl, told.2, told.3⟩
      · intro idle
        rw [closing] at idle
        cases idle
  | released found tends => exact remote.elim
  | disposed deletes => exact remote.elim
  | ended checks found flag tends =>
      rcases checks with rfl | rfl
      · exact remote.elim
      · exact remote.elim
  | slept checks found tends =>
      rcases checks with rfl | rfl
      · exact remote.elim
      · exact remote.elim
  | erred found tends => exact remote.elim
  | read found => exact remote.elim
  | dangled waits gone =>
      rcases waits with rfl | ⟨error, rfl⟩ | rfl
      · exact remote.elim
      · exact remote.elim
      · exact remote.elim
  | other allowed => exact .of_process

theorem Session.Keeps.erred (keeps : s.Keeps s') (erred : s.Erred) :
    s'.Erred := by
  obtain ⟨code, positive, returned, told⟩ := erred
  exact ⟨code, positive, keeps.waits ▸ returned, keeps.told code told⟩

theorem Session.Keeps.tells (keeps : s.Keeps s') {ending : Ending}
    (tells : ending.Tells s) : ending.Tells s' := by
  have waits := congrFun keeps.waits 0
  cases ending with
  | thrown =>
      rcases tells with ⟨failed, idle⟩ | ⟨sent, ended⟩
      · exact .inl ⟨keeps.failed failed, waits.trans idle⟩
      · exact .inr ⟨keeps.sent sent, ended.imp waits.trans keeps.erred⟩
  | raised what =>
      obtain ⟨sent, status, output, returned, known, positive, told, shown⟩ :=
        tells
      exact ⟨keeps.sent sent, status, output, waits.trans returned,
        (keeps.delivered told.completed).trans known, positive,
        keeps.told _ told, shown⟩
  | returned =>
      obtain ⟨sent, returned, told⟩ := tells
      exact ⟨keeps.sent sent, waits.trans returned, keeps.told 0 told⟩
  | escaped =>
      exact ⟨keeps.sent tells.1, tells.2.imp waits.trans keeps.erred⟩

/-- What the code knows of its end stays true. -/
theorem Ending.Holds.keep {ending : Ending} (holds : ending.Holds s)
    (keeps : s.Keeps s') : ending.Holds s' := by
  refine ⟨?_, keeps.tells holds.tells⟩
  unfold Session.Unwaited
  rw [keeps.waits]
  exact holds.unwaited

/-- The place of the code does not hang on what other threads do. -/
theorem Place.Fits.aside {place : Place} (fits : place.Fits s)
    (aside : s.Aside s') : place.Fits s' := by
  cases place with
  | ready =>
      obtain ⟨task, release, waits⟩ := fits
      exact ⟨aside.idle task, aside.release.trans release,
        aside.waits ▸ waits⟩
  | sizing =>
      exact ⟨aside.sent fits.1, aside.release.trans fits.2.1,
        aside.erred fits.2.2⟩
  | filling n =>
      exact ⟨aside.sent fits.1, aside.release.trans fits.2.1,
        aside.erred fits.2.2⟩
  | releasing ending =>
      obtain ⟨release, last, holds⟩ := fits
      exact ⟨aside.release.trans release, last, holds.keep aside.toKeeps⟩
  | disposing ending =>
      obtain ⟨release, last, holds⟩ := fits
      exact ⟨aside.release.trans release, last, holds.keep aside.toKeeps⟩
  | ended ending =>
      exact ⟨aside.release.trans fits.1, fits.2.keep aside.toKeeps⟩
  | undefined =>
      refine ⟨aside.release.trans fits.1, ?_⟩
      unfold Session.Unwaited
      rw [aside.waits]
      exact fits.2
  | _ =>
      exact ⟨aside.sent fits.1, aside.release.trans fits.2.1,
        aside.waits ▸ fits.2.2⟩

end Remote

section Calls

variable {P : PageSize} {request response : Nat} {c : Client} {s : Session}
  {turn : Turn}

/-- The code has not released the response. -/
theorem Client.Sound.live (sound : c.Sound response)
    (kept : c.session.release ≠ .finished) :
    ∃ r, c.session.p.responses response = some r ∧ r.cancelled ≠ true ∧
      ∀ status, c.session.delivered = some status → c.session.Completed →
        r.status = status := by
  have busy : ¬c.session.Over := fun past => kept past.2
  obtain ⟨r, found, -, cancelled⟩ := sound.honest.sound.live busy
  refine ⟨r, found, fun late => kept (cancelled.mp late), ?_⟩
  intro status delivered past
  obtain ⟨known, log, same⟩ := sound.honest.status (.inr past)
  rw [delivered] at log
  cases log
  exact same r found

/-- The part of a function that comes next does not find `cancelled`. -/
theorem Client.Sound.patient (sound : c.Sound response)
    (calls : c.place.Calls request turn.act) :
    turn.Patient response c.session := by
  intro looks r found late
  have idle : c.session.release = .idle := by
    have fits := sound.fits
    cases place : c.place with
    | future =>
        rw [place] at fits
        exact fits.2.1
    | waiting =>
        rw [place] at fits
        exact fits.2.1
    | _ =>
        simp [place, Place.Calls] at calls <;> simp [calls, Act.looks] at looks
  obtain ⟨r', found', early, -⟩ := sound.live (by simp [idle])
  cases found.symm.trans found'
  exact absurd late early

theorem Session.unwaited_of_idle (idle : s.waits 0 = .idle) : s.Unwaited := by
  simp [Session.Unwaited, idle]

theorem Session.unwaited_of_returned {code : Int}
    (returned : s.waits 0 = .returned code) : s.Unwaited := by
  simp [Session.Unwaited, returned]

theorem Place.next_waiting {place : Place} (at' : place = .future ∨
      place = .waiting) (busy : s.waits 0 = .asleep ∨ s.waits 0 = .reading) :
    place.next s = .waiting := by
  rcases at' with rfl | rfl
  · rcases busy with busy | busy <;> simp [Place.next, busy]
  · rcases busy with busy | busy <;> simp [Place.next, busy]

/-- The wait of the code has returned. -/
theorem Place.fits_returned (honest : s.Honest response) {code : Int}
    (sent : s.task.Sent) (release : s.release = .idle)
    (returned : s.waits 0 = .returned code)
    (coded : -1 ≤ code) : (Place.waiting.next s).Fits s := by
  have unwaited := Session.unwaited_of_returned returned
  simp only [Place.next, returned]
  by_cases failed : code = -1
  · rw [if_pos failed]
    exact ⟨release, rfl, unwaited, .inr ⟨sent, .inl (failed ▸ returned)⟩⟩
  · have told := honest.truthful 0 code returned (by omega)
    rw [if_neg failed]
    by_cases well : code = 0
    · rw [if_pos well]
      subst well
      exact ⟨release, rfl, unwaited, sent, returned, told⟩
    · rw [if_neg well]
      exact ⟨sent, release, code, by omega, returned, told⟩

end Calls

section Moves

variable {response errno thread : Nat} {os : Nat → Reply} {s s' : Session}
  {act : Act}

theorem move_submitted {request : Nat}
    (move : s.Move response ⟨.submit request, errno, os⟩ s') :
    s'.release = s.release ∧ s'.waits = s.waits ∧
      (s'.task = .pending ∨ s'.task = .failed ∨ s'.task = .lost) := by
  cases move with
  | sent through found tends own => exact ⟨rfl, rfl, .inl rfl⟩
  | unsent fails ends found tends => exact ⟨rfl, rfl, .inr ends⟩
  | ended checks => rcases checks with same | same <;> cases same
  | slept checks => rcases checks with same | same <;> cases same
  | dangled waits =>
      rcases waits with same | ⟨error, same⟩ | same <;> cases same

theorem move_waited (move : s.Move response ⟨act, errno, os⟩ s')
    (waits : act = .wait thread ∨ ∃ error, act = .wake thread error)
    (live : s.p.responses response ≠ none) :
    s'.release = s.release ∧ s'.task = s.task ∧
      (s'.waits thread = .asleep ∨ s'.waits thread = .reading ∨
        s'.waits thread = .returned (-1)) := by
  have same : ∀ {other : Nat}, act.Checks other → other = thread := by
    intro other checks
    rcases waits with rfl | ⟨error, rfl⟩
    · rcases checks with same | same <;> cases same
      rfl
    · rcases checks with same | same <;> cases same
      rfl
  cases move with
  | ended checks found flag tends =>
      cases same checks
      exact ⟨rfl, rfl, .inr (.inl (Function.update_self ..))⟩
  | slept checks found tends =>
      cases same checks
      exact ⟨rfl, rfl, .inl (Function.update_self ..)⟩
  | @erred other errno os error r p found tends =>
      obtain rfl : other = thread := by
        rcases waits with same | ⟨_, same⟩ <;> cases same
        rfl
      exact ⟨rfl, rfl, .inr (.inr (Function.update_self ..))⟩
  | dangled _ gone => exact absurd gone live
  | _ => rcases waits with same | ⟨_, same⟩ <;> cases same

theorem move_told (move : s.Move response ⟨.read thread, errno, os⟩ s')
    {r : Response} (found : s.p.responses response = some r) :
    s'.release = s.release ∧ s'.task = s.task ∧
      s'.waits thread = .returned r.status.code := by
  cases move with
  | read found' =>
      cases found.symm.trans found'
      exact ⟨rfl, rfl, Function.update_self ..⟩
  | ended checks => rcases checks with same | same <;> cases same
  | slept checks => rcases checks with same | same <;> cases same
  | dangled _ gone => simp [found] at gone

/-- Neither part of the release touches the logs. -/
theorem move_released (move : s.Move response ⟨act, errno, os⟩ s')
    (releases : act = .release ∨ act = .dispose) :
    s.Keeps s' ∧ (s'.release = .finished ∨
      act = .release ∧ s'.release = .deleting) := by
  have keeps : ∀ {p : Process} {release : Release},
      s.Keeps { s with p := p, release := release } :=
    ⟨rfl, id, id, fun _ told => ⟨told.1, told.2, told.3⟩, fun _ => rfl⟩
  cases move with
  | @released errno os r p found tends =>
      refine ⟨keeps, ?_⟩
      cases r.done with
      | true => exact .inr ⟨rfl, rfl⟩
      | false => exact .inl rfl
  | disposed deletes => exact ⟨keeps, .inl rfl⟩
  | ended checks =>
      rcases checks with rfl | rfl <;> rcases releases with same | same <;>
        cases same
  | slept checks =>
      rcases checks with rfl | rfl <;> rcases releases with same | same <;>
        cases same
  | dangled waits =>
      rcases waits with rfl | ⟨_, rfl⟩ | rfl <;>
        rcases releases with same | same <;> cases same
  | _ => rcases releases with same | same <;> cases same

end Moves

section Steps

variable {P : PageSize} {request response : Nat} {c c' : Client} {s : Session}
  {turn : Turn}

/-- The place of the code fits behind each of its calls. -/
theorem Client.Sound.fits_call (sound : c.Sound response)
    (calls : c.place.Calls request turn.act)
    (step : c.session.Step P response turn s) :
    (c.place.next s).Fits s := by
  have honest := sound.honest.step (sound.patient calls) step
  have move := sound.honest.sound.move step
  have allowed := step.1
  have fits := sound.fits
  obtain ⟨act, errno, os⟩ := turn
  cases place : c.place with
  | ready =>
      rw [place] at fits calls
      obtain ⟨-, release, idle⟩ := fits
      obtain rfl : act = .submit request := calls
      obtain ⟨kept, waits, task⟩ := move_submitted move
      have release := kept.trans release
      have idle : s.waits 0 = .idle := by rw [waits, idle]
      have unwaited := Session.unwaited_of_idle idle
      rcases task with task | task | task
      · simp only [Place.next, task]
        exact ⟨by rw [task]; trivial, release, idle⟩
      · simp only [Place.next, task]
        exact ⟨release, rfl, unwaited, .inl ⟨task, idle⟩⟩
      · simp only [Place.next, task]
        exact ⟨release, unwaited⟩
  | future =>
      rw [place] at fits calls
      obtain ⟨sent, release, idle⟩ := fits
      obtain ⟨r, found, -⟩ := sound.live (by simp [release])
      obtain ⟨kept, same, ended⟩ :=
        move_waited move (.inl calls) (by simp [found])
      have release := kept.trans release
      have sent : s.task.Sent := same ▸ sent
      rcases ended with busy | busy | returned
      · rw [Place.next_waiting (.inl rfl) (.inl busy)]
        exact ⟨sent, release, .inl busy⟩
      · rw [Place.next_waiting (.inl rfl) (.inr busy)]
        exact ⟨sent, release, .inr busy⟩
      · exact Place.fits_returned honest sent release returned (Int.le_refl _)
  | waiting =>
      rw [place] at fits calls
      obtain ⟨sent, release, busy⟩ := fits
      obtain ⟨r, found, -, status⟩ := sound.live (by simp [release])
      rcases calls with rfl | woken
      · obtain ⟨kept, same, returned⟩ := move_told move found
        have past := sound.honest.reading 0 allowed
        obtain ⟨known, delivered, -⟩ := sound.honest.status (.inr past)
        have coded := sound.coded known delivered
        rw [← status known delivered past] at coded
        exact Place.fits_returned honest (same ▸ sent) (kept.trans release)
          returned coded
      · obtain ⟨kept, same, ended⟩ :=
          move_waited move (.inr woken) (by simp [found])
        have release := kept.trans release
        have sent : s.task.Sent := same ▸ sent
        rcases ended with busy | busy | returned
        · rw [Place.next_waiting (.inr rfl) (.inl busy)]
          exact ⟨sent, release, .inl busy⟩
        · rw [Place.next_waiting (.inr rfl) (.inr busy)]
          exact ⟨sent, release, .inr busy⟩
        · exact Place.fits_returned honest sent release returned
            (Int.le_refl _)
  | releasing ending =>
      rw [place] at fits calls
      obtain ⟨-, last, holds⟩ := fits
      obtain rfl : act = .release := calls
      obtain ⟨keeps, released⟩ := move_released move (.inl rfl)
      have holds := holds.keep keeps
      rcases released with release | ⟨-, release⟩
      · simp only [Place.next, release]
        exact ⟨release.trans last.symm, holds⟩
      · simp only [Place.next, release]
        exact ⟨release, last, holds⟩
  | disposing ending =>
      rw [place] at fits calls
      obtain ⟨-, last, holds⟩ := fits
      obtain rfl : act = .dispose := calls
      obtain ⟨keeps, released⟩ := move_released move (.inr rfl)
      have holds := holds.keep keeps
      rcases released with release | ⟨same, -⟩
      · simp only [Place.next, release]
        exact ⟨release.trans last.symm, holds⟩
      · cases same
  | _ => simp [place, Place.Calls] at calls

theorem Place.Calls.waits {place : Place} {act : Act} {thread : Nat}
    (calls : place.Calls request act) (waits : act.Waits thread) :
    thread = 0 := by
  cases place with
  | future =>
      obtain rfl : act = .wait 0 := calls
      rcases waits with same | ⟨_, same⟩ | same <;> cases same
      rfl
  | waiting =>
      rcases calls with rfl | ⟨error, rfl⟩
      · rcases waits with same | ⟨_, same⟩ | same <;> cases same
        rfl
      · rcases waits with same | ⟨_, same⟩ | same <;> cases same
        rfl
  | ready =>
      obtain rfl : act = .submit request := calls
      rcases waits with same | ⟨_, same⟩ | same <;> cases same
  | releasing =>
      obtain rfl : act = .release := calls
      rcases waits with same | ⟨_, same⟩ | same <;> cases same
  | disposing =>
      obtain rfl : act = .dispose := calls
      rcases waits with same | ⟨_, same⟩ | same <;> cases same
  | _ => exact calls.elim

theorem Place.Calls.not_next {place : Place} {status : Status}
    (calls : place.Calls request (.next status)) : False := by
  cases place <;> simp [Place.Calls] at calls

theorem Act.Checks.waits {act : Act} {thread : Nat}
    (checks : act.Checks thread) : act.Waits thread := by
  rcases checks with rfl | rfl
  · exact .inl rfl
  · exact .inr (.inl ⟨none, rfl⟩)

/-- A call of the code moves no other wait, and delivers nothing. -/
theorem Client.Sound.aside_call (sound : c.Sound response)
    (calls : c.place.Calls request turn.act)
    (step : c.session.Step P response turn s) :
    (∀ thread, thread ≠ 0 → s.waits thread = c.session.waits thread) ∧
      s.delivered = c.session.delivered := by
  have moved : ∀ {act : Act} {p : Process} {thread : Nat} {wait : Wait},
      c.place.Calls request act → act.Waits thread → ∀ other, other ≠ 0 →
        ({ c.session with p := p }.setWait thread wait).waits other =
          c.session.waits other := by
    intro act p thread wait calls waits other different
    cases calls.waits waits
    exact Function.update_of_ne different _ _
  cases sound.honest.sound.move step with
  | next => exact calls.not_next.elim
  | ended checks => exact ⟨moved calls checks.waits, rfl⟩
  | slept checks => exact ⟨moved calls checks.waits, rfl⟩
  | erred => exact ⟨moved calls (.inr (.inl ⟨_, rfl⟩)), rfl⟩
  | read => exact ⟨moved calls (.inr (.inr rfl)), rfl⟩
  | dangled waits => exact ⟨moved calls waits, rfl⟩
  | _ => exact ⟨fun _ _ => rfl, rfl⟩

/-- What `inaccel_response_snprint` does with a response that is there. -/
theorem snprint_spec {n : Nat} {r : Response} {w : World}
    (found : w.responses response = some r) :
    ∃ output w', inaccelResponseSnprint n response w = .ok output w' ∧
      w'.toProcess = w.toProcess ∧ (output = some ⟨[], -1⟩ ∨ output =
        printf (buffer n) (cStr r.status.text) r.status.text.length) := by
  unfold inaccelResponseSnprint printPtr
  by_cases null : response = 0
  · rw [if_pos null]
    exact ⟨some ⟨[], -1⟩, { w with errno := EINVAL }, rfl, rfl, .inl rfl⟩
  · rw [if_neg null]
    have str : strResponse response w = .ok (some r.status.text) w := by
      simp only [strResponse, bind, EStateM.bind, derefResponse, found]
      rfl
    unfold printText catchThrown
    simp only [bind, EStateM.bind, str]
    cases memory : (w.os 0).isDone with
    | false =>
        rw [mayThrow_failed memory]
        exact ⟨_, _, rfl, rfl, .inl rfl⟩
    | true =>
        rw [mayThrow_done memory]
        exact ⟨_, _, rfl, rfl, .inr rfl⟩

/-- The string that the code makes of a text. -/
theorem filled_printed {n size : Nat} {text : List Char} {output : Output}
    (printed : printf (buffer (n + 1)) text size = some output)
    (whole : output.value = n) :
    ∃ shown, Formatted.format [size] text = some shown ∧
      filled (n + 1) output.written = shown ++ [nul] := by
  obtain ⟨shown, format, fits⟩ := Option.bind_eq_some_iff.mp printed
  by_cases short : shown.length < 2 ^ 31
  · rw [if_pos short] at fits
    cases fits
    have length : shown.length = n := by
      have whole : (shown.length : Int) = n := whole
      omega
    refine ⟨shown, format, ?_⟩
    have all : shown.take n = shown := List.take_of_length_le (by omega)
    simp [filled, buffer, all, length]
  · rw [if_neg short] at fits
    cases fits

/-- The place of the code fits behind what it prints. -/
theorem Client.Sound.fits_print (sound : c.Sound response) {n : Nat}
    (here : c.place.room = some n) {r : Response} {output : Option Output}
    (prints : output = some ⟨[], -1⟩ ∨
      output = printf (buffer n) (cStr r.status.text) r.status.text.length)
    (status : ∀ status, c.session.delivered = some status →
      c.session.Completed → r.status = status) :
    (c.place.printed (some output)).Fits c.session := by
  have fits := sound.fits
  cases place : c.place with
  | sizing =>
      rw [place] at fits
      obtain ⟨sent, release, erred⟩ := fits
      obtain ⟨code, positive, returned, told⟩ := erred
      have unwaited := Session.unwaited_of_returned returned
      cases output with
      | none => exact ⟨release, unwaited⟩
      | some output =>
          simp only [Place.printed]
          split
          · exact ⟨release, rfl, unwaited,
              .inr ⟨sent, .inr ⟨code, positive, returned, told⟩⟩⟩
          · exact ⟨sent, release, code, positive, returned, told⟩
  | filling m =>
      rw [place] at fits here
      obtain rfl : m + 1 = n := Option.some.inj here
      obtain ⟨sent, release, erred⟩ := fits
      obtain ⟨code, positive, returned, told⟩ := erred
      have unwaited := Session.unwaited_of_returned returned
      cases output with
      | none => exact ⟨release, unwaited⟩
      | some output =>
          simp only [Place.printed]
          by_cases whole : output.value = m
          · rw [if_pos whole]
            refine ⟨release, rfl, unwaited, sent, ?_⟩
            obtain ⟨known, delivered, same⟩ := told.status
            rcases prints with failed | printed
            · cases failed
              have negative : (-1 : Int) = m := whole
              omega
            · obtain ⟨shown, format, string⟩ := filled_printed printed.symm whole
              rw [status known delivered told.completed] at format
              exact ⟨known, shown, same ▸ returned, delivered,
                same ▸ positive, same ▸ told, format, string⟩
          · rw [if_neg whole]
            exact ⟨release, rfl, unwaited,
              .inr ⟨sent, .inr ⟨code, positive, returned, told⟩⟩⟩
  | _ => simp [place, Place.room] at here

/-- The code prints a response that is there. -/
theorem Client.Sound.kept (sound : c.Sound response) {n : Nat}
    (here : c.place.room = some n) : c.session.release = .idle := by
  have fits := sound.fits
  cases place : c.place with
  | sizing =>
      rw [place] at fits
      exact fits.2.1
  | filling m =>
      rw [place] at fits
      exact fits.2.1
  | _ => simp [place, Place.room] at here

/-- Every step of a client. -/
theorem Client.Sound.step {deal : Deal} (sound : c.Sound response)
    (step : Client.Step P request response c deal c') : c'.Sound response := by
  obtain ⟨allowed, rfl⟩ := step
  cases deal with
  | remote turn =>
      obtain ⟨remote, allowed⟩ := allowed
      have aside := aside_of_remote sound.honest.sound remote
        (P := P) ⟨allowed, rfl⟩
      have patient : turn.Patient response c.session := by
        intro looks
        obtain ⟨act, errno, os⟩ := turn
        cases act <;> first | exact remote.elim | cases looks
      refine ⟨sound.honest.step patient ⟨allowed, rfl⟩, ?_,
        aside.coded sound.coded, sound.fits.aside aside⟩
      intro thread different
      exact (congrFun aside.waits thread).trans (sound.alone thread different)
  | call turn =>
      obtain ⟨calls, allowed⟩ := allowed
      have step : c.session.Step P response turn
        (turn.outcome P response c.session) := ⟨allowed, rfl⟩
      obtain ⟨waits, delivered⟩ := sound.aside_call calls step
      refine ⟨sound.honest.step (sound.patient calls) step, ?_, ?_,
        sound.fits_call calls step⟩
      · intro thread different
        exact (waits thread different).trans (sound.alone thread different)
      · intro status same
        exact sound.coded status (delivered ▸ same)
  | make os =>
      refine ⟨sound.honest, sound.alone, sound.coded, ?_⟩
      have fits := sound.fits
      show (if (os 0).isDone then Place.future else .ended .escaped).Fits _
      rcases allowed with here | ⟨fails, n, here⟩
      · rw [here] at fits
        cases (os 0).isDone with
        | true => exact fits
        | false =>
            obtain ⟨sent, release, idle⟩ := fits
            exact ⟨release, Session.unwaited_of_idle idle, sent, .inl idle⟩
      · rw [here] at fits
        obtain ⟨sent, release, code, positive, returned, told⟩ := fits
        rw [fails]
        exact ⟨release, Session.unwaited_of_returned returned, sent,
          .inr ⟨code, positive, returned, told⟩⟩
  | print errno os =>
      obtain ⟨n, here⟩ := Option.ne_none_iff_exists'.mp allowed
      obtain ⟨r, found, -, status⟩ := sound.live (by simp [sound.kept here])
      obtain ⟨output, w', run, same, prints⟩ :=
        @snprint_spec response n r (c.session.p.enter errno os) found
      have same : w'.toProcess = c.session.p := same
      have session : { c.session with p := w'.toProcess } = c.session := by
        rw [same]
      have after : c.after P response (.print errno os) =
          ⟨c.session, c.place.printed (some output)⟩ := by
        simp only [Client.after, here, Option.getD_some, run]
        exact congrArg (Client.mk · _) session
      rw [after]
      exact ⟨sound.honest, sound.alone, sound.coded,
        sound.fits_print here prints status⟩

theorem Client.Created.sound (created : c.Created response) :
    c.Sound response := by
  obtain ⟨session, ready⟩ := created
  have honest : c.session.Honest response := by
    constructor
    · exact session.sound
    · simp [session.task]
    · simp [Session.Completed, session.task]
    · simp [Session.Completed, session.task]
    · simp [session.waits]
    · intro thread code returned
      simp [session.waits] at returned
  refine ⟨honest, fun thread _ => session.waits thread, ?_, ?_⟩
  · simp [session.delivered]
  · rw [ready]
    exact ⟨session.task, session.release, session.waits 0⟩

/-- No wait is left when the response has been released. -/
theorem Client.Sound.safe (sound : c.Sound response) :
    c.session.Safe response := by
  refine ⟨sound.honest.sound, ?_⟩
  intro past thread
  by_cases other : thread = 0
  · subst other
    have fits := sound.fits
    have finished := past.2
    cases place : c.place with
    | ended ending =>
        rw [place] at fits
        exact fits.2.unwaited
    | undefined =>
        rw [place] at fits
        exact fits.2
    | _ =>
        rw [place] at fits
        simp [Place.Fits, finished] at fits
  · simp [sound.alone thread other]

end Steps

/-- A step follows a pointer to the deleted response. -/
def Deal.Dangles (P : PageSize) (response : Nat) (c : Client) : Deal → Prop
  | .remote turn => turn.Dangles P response c.session
  | .call turn => turn.Dangles P response c.session
  | .make _ => False
  | .print errno os => returned (inaccelResponseSnprint
      (c.place.room.getD 0) response (c.session.p.enter errno os)) = none

section Runs

variable {P : PageSize} {request response : Nat} {c start finish : Client}
  {trace : List (Client × Deal)} {deal : Deal}

theorem Client.Sound.not_dangles (sound : c.Sound response)
    (allowed : deal.Allowed request response c) :
    ¬deal.Dangles P response c := by
  cases deal with
  | remote turn =>
      apply sound.safe.not_dangles _ allowed.2
      intro begins
      obtain ⟨act, errno, os⟩ := turn
      cases act <;> first | exact allowed.1.elim | cases begins
  | call turn =>
      apply sound.safe.not_dangles _ allowed.2
      intro begins
      have fits := sound.fits
      have calls := allowed.1
      cases place : c.place with
      | ready =>
          rw [place] at fits
          exact fits.2.1
      | future =>
          rw [place] at fits
          exact fits.2.1
      | waiting =>
          rw [place] at fits
          exact fits.2.1
      | releasing ending =>
          rw [place] at fits
          exact fits.1
      | disposing ending =>
          rw [place] at calls
          have disposes : turn.act = .dispose := calls
          rw [disposes] at begins
          cases begins
      | _ => simp [place, Place.Calls] at calls
  | make os => exact id
  | print errno os =>
      obtain ⟨n, here⟩ := Option.ne_none_iff_exists'.mp allowed
      obtain ⟨r, found, -⟩ := sound.live (by simp [sound.kept here])
      obtain ⟨output, w', run, -⟩ := @snprint_spec response
        (c.place.room.getD 0) r (c.session.p.enter errno os) found
      simp [Deal.Dangles, run, returned]

theorem Client.Created.run_sound (created : start.Created response)
    (run : Run (Client.Step P request response) start trace finish) :
    ∀ c ∈ visited trace finish, c.Sound response :=
  run.invariant (Client.Sound response)
    (fun _ _ _ sound step => sound.step step) created.sound

theorem Client.Sound.ended (sound : c.Sound response) {ending : Ending}
    (here : c.place = .ended ending) :
    c.session.release = ending.release ∧ ending.Holds c.session := by
  have fits := sound.fits
  rw [here] at fits
  exact fits

/-- Whatever the other threads do, no thread needs the response of a future
after it is deleted. -/
theorem client_never_dangles (created : start.Created response)
    (run : Run (Client.Step P request response) start trace finish) :
    ∀ point ∈ trace, ¬point.2.Dangles P response point.1 := by
  intro point member
  obtain ⟨next, step, -⟩ := run.step_of_mem member
  have sound := created.run_sound run point.1
    (List.mem_append_left _ (List.mem_map_of_mem member))
  exact sound.not_dangles step.1

/-- The turn of the session that a deal is. -/
def Deal.turn (c : Client) : Deal → Turn
  | .remote turn => turn
  | .call turn => turn
  | .make os => ⟨.other c.session.p, 0, os⟩
  | .print errno os => ⟨.other c.session.p, errno, os⟩

theorem Session.step_other {s : Session} {errno : Nat} {os : Nat → Reply}
    (named : s.p.Named) :
    s.Step P response ⟨.other s.p, errno, os⟩ s :=
  ⟨⟨rfl, rfl, named, id⟩, rfl⟩

/-- A client is a session. -/
theorem Client.Sound.session_step (sound : c.Sound response) {c' : Client}
    (step : Client.Step P request response c deal c') :
    c.session.Step P response (deal.turn c) c'.session := by
  have named := sound.honest.sound.named
  obtain ⟨allowed, rfl⟩ := step
  cases deal with
  | remote turn => exact ⟨allowed.2, rfl⟩
  | call turn => exact ⟨allowed.2, rfl⟩
  | make os => exact Session.step_other named
  | print errno os =>
      obtain ⟨n, here⟩ := Option.ne_none_iff_exists'.mp allowed
      obtain ⟨r, found, -⟩ := sound.live (by simp [sound.kept here])
      obtain ⟨output, w', run, same, -⟩ := @snprint_spec response
        (c.place.room.getD 0) r (c.session.p.enter errno os) found
      have same : w'.toProcess = c.session.p := same
      have after : (c.after P response (.print errno os)).session =
          c.session := by
        simp only [Client.after, run]
        show { c.session with p := w'.toProcess } = c.session
        rw [same]
      rw [after]
      exact Session.step_other named

/-- The response of a future that has come to its end is deleted, unless the
submission has failed or the host language has thrown an exception. -/
theorem client_deletes_iff (created : start.Created response)
    (run : Run (Client.Step P request response) start trace finish)
    {ending : Ending} (ended : finish.place = .ended ending)
    (landed : ¬finish.session.InFlight) :
    finish.session.p.deleted.count response = 1 ↔ ending ≠ .escaped ∧
      ∃ point ∈ trace, (point.2.turn point.1).GetsThrough response
        point.1.session := by
  have sound := created.run_sound run finish (finish_mem_visited trace finish)
  have release := (sound.ended ended).1
  by_cases escaped : ending = .escaped
  · subst escaped
    have open' : ¬finish.session.Over := by
      intro past
      rw [past.2] at release
      cases release
    rw [sound.honest.sound.kept open']
    simp
  · have released : finish.session.release = .finished := by
      rw [release]
      cases ending <;> first | rfl | exact absurd rfl escaped
    have sessions : Run (Session.Step P response) start.session
        (trace.map fun point => (point.1.session, point.2.turn point.1))
        finish.session := run.simulated
      (Client.Sound response) Client.session (fun c deal => deal.turn c)
      (fun _ _ _ sound step => sound.step step)
      (fun _ _ _ sound step => sound.session_step step) created.sound
    rw [deleted_once_iff created.created sessions released landed]
    simp [escaped]

end Runs

/-- The request at 11 is submitted, its task fails, and the future tells the
error. -/
def Deal.failing : List Deal :=
  [.call ⟨.submit 11, 0, succeeds⟩, .make succeeds,
    .remote ⟨.next ⟨7, "no"⟩, 0, succeeds⟩, .remote ⟨.settle, 0, succeeds⟩,
    .call ⟨.wait 0, 0, succeeds⟩, .call ⟨.read 0, 0, succeeds⟩,
    .print 0 succeeds, .print 0 succeeds, .call ⟨.release, 0, succeeds⟩,
    .call ⟨.dispose, 0, succeeds⟩]

def Client.play (deals : List Deal) (c : Client) : Client :=
  deals.foldl (fun c deal => c.after .small 3 deal) c

def Client.fresh : Client := ⟨.fresh, .ready⟩

theorem Client.created_fresh : Client.fresh.Created 3 :=
  ⟨CoralApi.created_fresh, rfl⟩

theorem Client.run_failing : ∃ trace,
    Run (Client.Step .small 11 3) .fresh trace (Client.fresh.play Deal.failing) ∧
      trace.map Prod.snd = Deal.failing := by
  have calls : ∀ (n : Nat) (turn : Turn) (place : Place),
      (Client.fresh.play (Deal.failing.take n)).place = place →
      place.Calls 11 turn.act → turn.act.Allowed 3
        (Client.fresh.play (Deal.failing.take n)).session →
      Client.Step .small 11 3 (Client.fresh.play (Deal.failing.take n))
        (.call turn) (Client.after .small 3
          (Client.fresh.play (Deal.failing.take n)) (.call turn)) :=
    fun _ _ _ here calls allowed => ⟨⟨here ▸ calls, allowed⟩, rfl⟩
  have submitted := calls 0 ⟨.submit 11, 0, succeeds⟩ .ready rfl rfl
    (by decide +kernel)
  have launched : Client.Step .small 11 3
      (Client.fresh.play (Deal.failing.take 1)) (.make succeeds) _ :=
    ⟨.inl (by decide +kernel), rfl⟩
  have delivered : Client.Step .small 11 3
      (Client.fresh.play (Deal.failing.take 2))
      (.remote ⟨.next ⟨7, "no"⟩, 0, succeeds⟩) _ :=
    ⟨⟨by simp [Act.Remote, codeTexts], by decide +kernel⟩, rfl⟩
  have settled : Client.Step .small 11 3
      (Client.fresh.play (Deal.failing.take 3))
      (.remote ⟨.settle, 0, succeeds⟩) _ :=
    ⟨⟨trivial, by decide +kernel⟩, rfl⟩
  have waited := calls 4 ⟨.wait 0, 0, succeeds⟩ .future (by decide +kernel) rfl
    (by decide +kernel)
  have read := calls 5 ⟨.read 0, 0, succeeds⟩ .waiting (by decide +kernel)
    (.inl rfl) (by decide +kernel)
  have sized : Client.Step .small 11 3
      (Client.fresh.play (Deal.failing.take 6)) (.print 0 succeeds) _ :=
    ⟨show _ ≠ none by decide +kernel, rfl⟩
  have printed : Client.Step .small 11 3
      (Client.fresh.play (Deal.failing.take 7)) (.print 0 succeeds) _ :=
    ⟨show _ ≠ none by decide +kernel, rfl⟩
  have released := calls 8 ⟨.release, 0, succeeds⟩
    (.releasing (.raised "Permission denied: no\x00".toList))
    (by decide +kernel) rfl (by decide +kernel)
  have disposed := calls 9 ⟨.dispose, 0, succeeds⟩
    (.disposing (.raised "Permission denied: no\x00".toList))
    (by decide +kernel) rfl (by decide +kernel)
  exact ⟨_, .cons submitted (.cons launched (.cons delivered (.cons settled
    (.cons waited (.cons read (.cons sized (.cons printed (.cons released
      (.cons disposed (.nil _)))))))))), rfl⟩

theorem client_never_dangles_failing : ∃ trace : List (Client × Deal),
    trace.map Prod.snd = Deal.failing ∧
      ∀ point ∈ trace, ¬point.2.Dangles .small 3 point.1 := by
  obtain ⟨trace, run, deals⟩ := Client.run_failing
  exact ⟨trace, deals, client_never_dangles Client.created_fresh run⟩

theorem client_deletes_iff_failing : ∃ trace : List (Client × Deal),
    trace.map Prod.snd = Deal.failing ∧
      ∃ point ∈ trace, (point.2.turn point.1).GetsThrough 3
        point.1.session := by
  obtain ⟨trace, run, deals⟩ := Client.run_failing
  have ended : (Client.fresh.play Deal.failing).place =
      .ended (.raised "Permission denied: no\x00".toList) := by
    decide +kernel
  have deletes := client_deletes_iff Client.created_fresh run ended
    (by decide +kernel)
  exact ⟨trace, deals, (deletes.mp (by decide +kernel)).2⟩

end CoralApi
