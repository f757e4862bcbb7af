import CoralApi.Lifetime

/-!
# No wait sleeps past the completion

The waiter broadcasts on the condition of a response behind `done`, and the
release behind `cancelled`, each before it gives the mutex back.  A wait looks
at both flags and falls asleep in one critical section.  The broadcasts are
those that the log of the process shows.
-/

namespace CoralApi

open Program Transition

/-- The waits of a session, and whether a broadcast has reached them since they
fell asleep. -/
structure Bell where
  session : Session
  reached : Nat → Bool

/-- The thread of a wait. -/
def Act.sleeper : Act → Option Nat
  | .wait thread | .wake thread _ => some thread
  | _ => none

/-- The broadcasts so far on the condition of a response. -/
def Process.rings (response : Nat) (p : Process) : Nat :=
  p.broadcasts.count (.response response)

/-- The turn calls `__broadcast` on the condition of the response. -/
def Turn.rings (P : PageSize) (response : Nat) (s : Session) (turn : Turn) :
    Bool :=
  decide (s.p.rings response < (turn.outcome P response s).p.rings response)

/-- What else happens in the process is no broadcast on this condition. -/
def Turn.Silent (response : Nat) (s : Session) (turn : Turn) : Prop :=
  ∀ p, turn.act = .other p → p.rings response = s.p.rings response

/-- The completion or the release has ended the waits. -/
def Session.Closed (s : Session) : Prop :=
  s.task = .finished ∨ s.release = .finished

namespace Bell

def after (P : PageSize) (response : Nat) (turn : Turn) (b : Bell) : Bell where
  session := turn.outcome P response b.session
  reached := fun thread =>
    if turn.act.sleeper = some thread then false
    else b.reached thread || turn.rings P response b.session

def Step (P : PageSize) (response : Nat) (b : Bell) (turn : Turn) (b' : Bell) :
    Prop :=
  turn.act.Allowed response b.session ∧ turn.Silent response b.session ∧
    b' = b.after P response turn

/-- The waits that a broadcast has reached are those that have nothing to wait
for. -/
structure Sound (response : Nat) (b : Bell) : Prop where
  session : b.session.Sound response
  reached : ∀ thread, b.session.waits thread = .asleep →
    (b.reached thread = true ↔ b.session.Closed)

end Bell

theorem Act.Checks.sleeper {act : Act} {thread : Nat}
    (checks : act.Checks thread) : act.sleeper = some thread := by
  rcases checks with rfl | rfl
  · rfl
  · rfl

section Rings

variable {P : PageSize} {request response : Nat} {w w' : World}
  {p q : Process}

/-- The section has ended the waits. -/
def Turn.Ends (P : PageSize) (response : Nat) (s : Session) (turn : Turn) :
    Prop :=
  turn.act = .settle ∧ (turn.outcome P response s).task = .finished ∨
    turn.act = .release ∧ (turn.outcome P response s).release = .finished

theorem rings_of_same (same : q.broadcasts = p.broadcasts) :
    q.rings response = p.rings response :=
  congrArg (List.count (Bed.response response)) same

theorem rings_quiet (quiet : w.Quiet w') :
    w'.rings response = w.rings response :=
  rings_of_same (congrArg (·.broadcasts) quiet.same)

/-- A link is no broadcast. -/
theorem rings_links {ptrs : List Nat} (links : w.Links request ptrs w') :
    w'.rings response = w.rings response :=
  rings_of_same (Eq.trans (b := (w.linkSlices ptrs).broadcasts)
    (congrArg (·.broadcasts) links.same)
    (congrArg (·.broadcasts) (linkSlices_others ptrs)))

/-- `__detach` broadcasts on conditions of slices. -/
theorem rings_detachSlice {ptr : Nat} (detached : p.detachSlice ptr = some q) :
    q.rings response = p.rings response := by
  unfold Process.detachSlice at detached
  split at detached
  · cases detached
  · split at detached
    · split at detached
      · cases detached
        exact List.count_cons_of_ne (by simp)
      · cases detached
        exact List.count_cons_of_ne (by simp)
    · cases detached
      rfl

theorem rings_detachSlices {ptrs : List Nat}
    (detached : p.detachSlices ptrs = some q) :
    q.rings response = p.rings response := by
  induction ptrs generalizing p with
  | nil =>
      cases detached
      rfl
  | cons ptr ptrs induction =>
      obtain ⟨middle, first, rest⟩ := detachSlices_cons detached
      exact (induction rest).trans (rings_detachSlice first)

theorem rings_ring {r : Response} :
    (p.ring response r).rings response = p.rings response + 1 :=
  List.count_cons_self

theorem rings_send {grpc : Request} {other : Nat} {result : Except Stop Int}
    (outcome : SendOutcome request other grpc w result w') :
    w'.rings response = w.rings response := by
  have queued : ∀ p : Process,
      p.withQueue.rings response = p.rings response := fun p =>
    withQueue_ind (·.rings response = p.rings response) rfl rfl
  cases outcome with
  | early fails quiet => exact rings_quiet quiet
  | lost answered lost quiet => exact rings_quiet quiet
  | unmarked answered found fails quiet => exact (rings_quiet quiet).trans rfl
  | starved answered found closed fails quiet =>
      exact (rings_quiet quiet).trans rfl
  | short started found closed fewer answered fails quiet =>
      exact (rings_quiet quiet).trans rfl
  | unsent found answered fails quiet =>
      exact (rings_quiet quiet).trans (queued _)
  | sent found answered quiet => exact (rings_quiet quiet).trans (queued _)

theorem rings_submit {other : Nat} {result : Except Stop Int}
    (outcome : SubmitOutcome request other w result w') :
    w'.rings response = w.rings response := by
  cases outcome with
  | null missing quiet => exact rings_quiet quiet
  | unread given fails quiet => exact rings_quiet quiet
  | lost given answered lost quiet => exact rings_quiet quiet
  | stopped given answered found loop short ends =>
      obtain ⟨attached, links⟩ := loop.links
      exact (rings_links links).trans rfl
  | tried past found send ends =>
      exact (rings_send send).trans ((rings_links past.links).trans rfl)

/-- The waiter broadcasts when it sets `done`. -/
theorem rings_settle {s : Session} {errno : Nat} {os : Nat → Reply} :
    Turn.rings P response s ⟨.settle, errno, os⟩ = true ↔
      (Turn.outcome P response s ⟨.settle, errno, os⟩).task = .finished := by
  apply @Turn.outcome_of P response s _ fun s' =>
    decide (s.p.rings response < s'.p.rings response) = true ↔
      s'.task = .finished
  refine Ensures.step rfl (ensures_bind.mpr
    ((waiterSection_spec rfl).mono ?_ ?_))
  · rintro gone w' ⟨r, q, found, detached, rfl, same⟩
    have loop := @rings_detachSlices response _ _ _ detached
    have counts := @rings_quiet response _ _ same
    refine Ensures.step rfl ?_
    cases cancelled : r.cancelled with
    | true =>
        rw [cancelled, if_pos rfl] at counts
        have still : w'.rings response = s.p.rings response :=
          counts.trans loop
        simp [still]
    | false =>
        rw [cancelled, if_neg (by simp)] at counts
        have more : w'.rings response = s.p.rings response + 1 :=
          counts.trans (rings_ring.trans (congrArg (· + 1) loop))
        simp [more]
  · rintro reason w' (⟨rfl, -, -⟩ | ⟨r, before, q, -, -, -, loop, same⟩)
    · simp [Act.stop]
    · have still : w'.rings response = s.p.rings response :=
        (rings_quiet same).trans (rings_detachSlices loop)
      simp [Act.stop, still]

/-- The release broadcasts when it sets `cancelled`. -/
theorem rings_release {s : Session} {errno : Nat} {os : Nat → Reply} :
    Turn.rings P response s ⟨.release, errno, os⟩ = true ↔
      (Turn.outcome P response s ⟨.release, errno, os⟩).release =
        .finished := by
  apply @Turn.outcome_of P response s _ fun s' =>
    decide (s.p.rings response < s'.p.rings response) = true ↔
      s'.release = .finished
  refine ensures_bind.mpr ((releaseSection_spec rfl).mono ?_ ?_)
  · rintro gone w' ⟨r, found, rfl, same⟩
    have counts := @rings_quiet response _ _ same
    cases done : r.done with
    | true =>
        rw [done, if_pos rfl] at counts
        have still : w'.rings response = s.p.rings response := counts
        simp [still]
    | false =>
        rw [done, if_neg (by simp)] at counts
        have more : w'.rings response = s.p.rings response + 1 :=
          counts.trans rings_ring
        simp [more]
  · rintro reason w' ⟨rfl, -, -⟩
    simp [Act.stop]

/-- Every other turn leaves the log of this condition alone. -/
theorem rings_elsewhere {s : Session} {turn : Turn}
    (settle : turn.act ≠ .settle) (release : turn.act ≠ .release)
    (silent : turn.Silent response s) :
    (turn.outcome P response s).p.rings response = s.p.rings response := by
  obtain ⟨act, errno, os⟩ := turn
  let w := s.p.enter errno os
  apply @Turn.outcome_of P response s _ fun s' =>
    s'.p.rings response = s.p.rings response
  cases act with
  | submit request =>
      refine ensures_bind.mpr
        ((@inaccelSubmit_spec P request response w rfl).mono ?_ ?_)
      · intro result w' outcome
        split
        · exact rings_submit outcome
        · exact rings_submit outcome
      · exact fun reason w' outcome => rings_submit outcome
  | next status =>
      refine ensures_bind.mpr (next_spec.mono ?_ ?_)
      · rintro _ w' ⟨r, found, same⟩
        exact (rings_quiet same).trans rfl
      · rintro reason w' ⟨rfl, -, -⟩
        exact rfl
  | settle => exact absurd rfl settle
  | release => exact absurd rfl release
  | delete =>
      refine ensures_bind.mpr (deleteResponse_spec.mono ?_ ?_)
      · rintro _ w' ⟨-, same⟩
        exact (rings_quiet same).trans rfl
      · rintro reason w' ⟨rfl, -, -⟩
        exact rfl
  | dispose =>
      refine ensures_bind.mpr (deleteResponse_spec.mono ?_ ?_)
      · rintro _ w' ⟨-, same⟩
        exact (rings_quiet same).trans rfl
      · rintro reason w' ⟨rfl, -, -⟩
        exact rfl
  | wait thread =>
      refine ensures_bind.mpr ((waitSection_spec rfl).mono ?_ ?_)
      · rintro _ w' ⟨same, -⟩
        exact rings_quiet same
      · rintro reason w' (⟨rfl, rfl, -⟩ | ⟨-, rfl, same⟩)
        · exact rfl
        · exact rings_quiet same
  | wake thread error =>
      refine ensures_bind.mpr ((waitWoken_spec rfl).mono ?_ ?_)
      · rintro ended w' ⟨same, -⟩
        exact rings_quiet same
      · rintro reason w' (⟨rfl, rfl, -⟩ | ⟨-, -, rfl, same⟩)
        · exact rfl
        · exact rings_quiet same
  | read thread =>
      refine ensures_bind.mpr (waitStatus_spec.mono ?_ ?_)
      · rintro code w' ⟨rfl, -⟩
        exact rfl
      · rintro reason w' ⟨rfl, rfl, -⟩
        exact rfl
  | other p => exact silent p rfl

/-- The two sections that set a flag are those that broadcast, and they do it
when they end the waits. -/
theorem Turn.rings_iff {P : PageSize} {s : Session} {turn : Turn}
    (silent : turn.Silent response s) :
    turn.rings P response s = true ↔ turn.Ends P response s := by
  obtain ⟨act, errno, os⟩ := turn
  by_cases settle : act = .settle
  · subst settle
    simp [Turn.Ends, rings_settle]
  · by_cases release : act = .release
    · subst release
      simp [Turn.Ends, rings_release]
    · have same := rings_elsewhere (P := P) settle release silent
      simp [Turn.rings, Turn.Ends, same, settle, release]

end Rings

section Waits

variable {P : PageSize} {response thread errno : Nat} {os : Nat → Reply}
  {w : World} {s s' : Session} {r : Response} {turn : Turn}

/-- A wait that finds a flag set does not sleep. -/
theorem waitLoop_flagged (free : w.held = [])
    (found : w.responses response = some r)
    (flag : r.cancelled = true ∨ r.done = true) :
    Ensures (waitLoop response) (fun _ _ => True) (fun _ _ => False)
      (w.holding [.response response]) := by
  have here : (w.holding [.response response]).responses response = some r :=
    found
  have set : (r.cancelled || r.done) = true := by simpa using flag
  unfold waitLoop
  apply Ensures.step (derefResponse_run here)
  rw [if_pos set]
  exact ensures_last_unlock (p := w.toProcess) free (.refl _) fun _ _ => trivial

theorem waitSection_flagged (free : w.held = [])
    (found : w.responses response = some r)
    (flag : r.cancelled = true ∨ r.done = true) :
    Ensures (waitSection response) (fun _ _ => True) (fun _ _ => False) w := by
  unfold waitSection
  apply Ensures.step (derefResponse_run found)
  apply Ensures.step (lock_run (by simp [free]))
  rw [free]
  exact waitLoop_flagged free found flag

theorem waitWoken_flagged (free : w.held = [])
    (found : w.responses response = some r)
    (flag : r.cancelled = true ∨ r.done = true) :
    Ensures (waitWoken response none) (fun ended _ => ended = true)
      (fun _ _ => False) w := by
  unfold waitWoken
  apply Ensures.step (derefResponse_run found)
  apply Ensures.step (lock_run (by simp [free]))
  rw [free]
  refine (waitLoop_flagged free found flag).bind ?_
  exact fun _ _ _ => rfl

/-- A wait that looks at a response with a flag set leaves its loop. -/
theorem checks_flagged {act : Act} (checks : act.Checks thread)
    (found : s.p.responses response = some r)
    (flag : r.cancelled = true ∨ r.done = true) :
    (Turn.outcome P response s ⟨act, errno, os⟩).waits thread = .reading := by
  rcases checks with rfl | rfl
  · apply @Turn.outcome_of P response s _ fun s' => s'.waits thread = .reading
    refine ensures_bind.mpr ((waitSection_flagged rfl found flag).mono ?_ ?_)
    · exact fun _ _ _ => Function.update_self ..
    · exact fun _ _ => False.elim
  · apply @Turn.outcome_of P response s _ fun s' => s'.waits thread = .reading
    refine ensures_bind.mpr ((waitWoken_flagged rfl found flag).mono ?_ ?_)
    · intro ended w' left
      rw [left]
      exact Function.update_self ..
    · exact fun _ _ => False.elim

/-- A response that is there has a flag set when its waits have ended. -/
theorem Session.Sound.closed (sound : s.Sound response)
    (found : s.p.responses response = some r) :
    s.Closed ↔ r.cancelled = true ∨ r.done = true := by
  obtain ⟨done, cancelled⟩ := sound.flags found
  rw [done, cancelled, Or.comm]
  rfl

end Waits

namespace Bell

variable {P : PageSize} {response : Nat} {b b' : Bell} {turn : Turn}

/-- A step that leaves the waits alone. -/
theorem Sound.of_waits (sound : b.Sound response) {s' : Session}
    (after : turn.outcome P response b.session = s')
    (session : s'.Sound response) (waits : s'.waits = b.session.waits)
    (other : turn.act.sleeper = none)
    (closed : s'.Closed ↔
      b.session.Closed ∨ turn.rings P response b.session = true) :
    (b.after P response turn).Sound response := by
  subst after
  refine ⟨session, ?_⟩
  intro thread asleep
  have before : b.session.waits thread = .asleep :=
    (congrFun waits thread).symm.trans asleep
  show (if turn.act.sleeper = some thread then false else _) = true ↔ _
  rw [other, if_neg (by simp), Bool.or_eq_true, sound.reached thread before]
  exact closed.symm

/-- A step of a wait. -/
theorem Sound.of_wait (sound : b.Sound response) {p : Process} {wait : Wait}
    {thread : Nat} (after : turn.outcome P response b.session =
      { b.session with p := p }.setWait thread wait)
    (session : ({ b.session with p := p }.setWait thread wait).Sound response)
    (silent : turn.rings P response b.session = false)
    (own : wait = .asleep → turn.act.sleeper = some thread ∧
      ¬b.session.Closed)
    (others : ∀ other, turn.act.sleeper = some other → other = thread) :
    (b.after P response turn).Sound response := by
  rw [← after] at session
  refine ⟨session, ?_⟩
  intro other asleep
  have asleep : (turn.outcome P response b.session).waits other = .asleep :=
    asleep
  show (if turn.act.sleeper = some other then false else _) = true ↔
    (turn.outcome P response b.session).Closed
  rw [after] at asleep ⊢
  by_cases same : other = thread
  · subst same
    have sleeps : wait = .asleep :=
      (Function.update_self ..).symm.trans asleep
    obtain ⟨mine, early⟩ := own sleeps
    rw [if_pos mine]
    exact ⟨fun no => absurd no (by decide), fun past => absurd past early⟩
  · have before : b.session.waits other = .asleep :=
      (Function.update_of_ne same ..).symm.trans asleep
    rw [if_neg fun mine => same (others other mine), silent, Bool.or_false]
    exact sound.reached other before

/-- A wait sleeps only while there is something to wait for. -/
theorem Sound.sleeps (sound : b.Sound response) {thread errno : Nat}
    {os : Nat → Reply} {act : Act} {p : Process} {r : Response}
    (checks : act.Checks thread)
    (found : b.session.p.responses response = some r)
    (after : Turn.outcome P response b.session ⟨act, errno, os⟩ =
      { b.session with p := p }.setWait thread .asleep) :
    act.sleeper = some thread ∧ ¬b.session.Closed := by
  refine ⟨checks.sleeper, ?_⟩
  intro past
  have flag := (sound.session.closed found).mp past
  have left := @checks_flagged P response thread errno os b.session r act
    checks found flag
  rw [after] at left
  cases (Function.update_self ..).symm.trans left

theorem Sound.step (sound : b.Sound response) (step : Step P response b turn b') :
    b'.Sound response := by
  obtain ⟨allowed, silent, rfl⟩ := step
  have step : b.session.Step P response turn
    (turn.outcome P response b.session) := ⟨allowed, rfl⟩
  have session := sound.session.step step
  have move := sound.session.move step
  have rung := @Turn.rings_iff response P b.session turn silent
  unfold Turn.Ends at rung
  generalize after : turn.outcome P response b.session = s' at session move rung
  have quiet : turn.act ≠ .settle → turn.act ≠ .release →
      turn.rings P response b.session = false := by
    intro settle release
    rw [Bool.eq_false_iff, Ne, rung]
    simp [settle, release]
  have still : turn.rings P response b.session = false →
      (s'.Closed ↔ b.session.Closed) → (s'.Closed ↔
        b.session.Closed ∨ turn.rings P response b.session = true) := by
    intro silent same
    rw [silent, same]
    simp
  cases move with
  | sent through found tends own =>
      have silent := quiet (by simp) (by simp)
      refine sound.of_waits after session rfl rfl (still silent ?_)
      have idle : b.session.task = .idle := allowed
      simp [Session.Closed, idle]
  | unsent fails ends found tends =>
      have silent := quiet (by simp) (by simp)
      refine sound.of_waits after session rfl rfl (still silent ?_)
      have idle : b.session.task = .idle := allowed
      rcases ends with rfl | rfl
      · simp [Session.Closed, idle]
      · simp [Session.Closed, idle]
  | next found tends =>
      have silent := quiet (by simp) (by simp)
      refine sound.of_waits after session rfl rfl (still silent ?_)
      have pending : b.session.task = .pending := allowed
      simp [Session.Closed, pending]
  | @settled errno os r p cleared found tends detached =>
      refine sound.of_waits after session rfl rfl ?_
      rw [rung]
      have flags := (sound.session.flags found).2
      have completed : b.session.task = .completed := allowed
      cases cancelled : r.cancelled with
      | true => simp [Session.Closed, flags.mp cancelled]
      | false => simp [Session.Closed]
  | jammed found tends =>
      refine sound.of_waits after session rfl rfl ?_
      rw [rung]
      have completed : b.session.task = .completed := allowed
      simp [Session.Closed, completed]
  | deleted deletes =>
      have silent := quiet (by simp) (by simp)
      refine sound.of_waits after session rfl rfl (still silent ?_)
      have closing : b.session.task = .closing := allowed
      simp [Session.Closed, sound.session.closing closing]
  | @released errno os r p found tends =>
      refine sound.of_waits after session rfl rfl ?_
      rw [rung]
      have flags := (sound.session.flags found).1
      have idle : b.session.release = .idle := allowed
      cases done : r.done with
      | true => simp [Session.Closed, flags.mp done]
      | false => simp [Session.Closed]
  | disposed deletes =>
      have silent := quiet (by simp) (by simp)
      refine sound.of_waits after session rfl rfl (still silent ?_)
      have deleting : b.session.release = .deleting := allowed
      simp [Session.Closed, sound.session.deleting deleting]
  | @ended thread errno os act r p checks found flag tends =>
      refine sound.of_wait after session ?_ Wait.noConfusion ?_
      · rcases checks with rfl | rfl
        · exact quiet (by simp) (by simp)
        · exact quiet (by simp) (by simp)
      · intro other mine
        exact Option.some.inj (mine.symm.trans checks.sleeper)
  | @slept thread errno os act r p checks found tends =>
      refine sound.of_wait after session ?_ (fun _ => sound.sleeps checks found
        after) ?_
      · rcases checks with rfl | rfl
        · exact quiet (by simp) (by simp)
        · exact quiet (by simp) (by simp)
      · intro other mine
        exact Option.some.inj (mine.symm.trans checks.sleeper)
  | erred found tends =>
      refine sound.of_wait after session (quiet (by simp) (by simp))
        Wait.noConfusion ?_
      exact fun other mine => (Option.some.inj mine).symm
  | read found =>
      refine sound.of_wait after session (quiet (by simp) (by simp))
        Wait.noConfusion ?_
      intro other mine
      cases mine
  | @dangled thread errno os act waits gone =>
      refine sound.of_wait after session ?_ Wait.noConfusion ?_
      · rcases waits with rfl | ⟨error, rfl⟩ | rfl
        · exact quiet (by simp) (by simp)
        · exact quiet (by simp) (by simp)
        · exact quiet (by simp) (by simp)
      · intro other mine
        rcases waits with rfl | ⟨error, rfl⟩ | rfl
        · exact (Option.some.inj mine).symm
        · exact (Option.some.inj mine).symm
        · cases mine
  | other allowed' =>
      have silent := quiet (by simp) (by simp)
      exact sound.of_waits after session rfl rfl (still silent Iff.rfl)

/-- In every interleaving, a broadcast has reached a wait that sleeps exactly
when the completion or the release has ended it.  The wait then leaves its loop
when it takes the mutex again, if the response is still there. -/
theorem always_rings {start finish : Bell} {trace : List (Bell × Turn)}
    (created : start.session.Created response)
    (run : Run (Step P response) start trace finish) :
    ∀ b ∈ visited trace finish, ∀ thread,
      b.session.waits thread = .asleep →
        (b.reached thread = true ↔ b.session.Closed) ∧
        (b.reached thread = true → b.session.p.responses response ≠ none →
          ∀ errno os, (Turn.outcome P response b.session
            ⟨.wake thread none, errno, os⟩).waits thread = .reading) := by
  have initial : start.Sound response := by
    refine ⟨created.sound, ?_⟩
    intro thread asleep
    rw [created.waits thread] at asleep
    cases asleep
  intro b member thread asleep
  have sound := run.invariant (Sound response)
    (fun _ _ _ sound step => sound.step step) initial b member
  refine ⟨sound.reached thread asleep, ?_⟩
  intro reached live errno os
  obtain ⟨r, found⟩ := Option.ne_none_iff_exists'.mp live
  exact checks_flagged (.inr rfl) found
    ((sound.session.closed found).mp ((sound.reached thread asleep).mp reached))

/-- The end of a run that takes these turns. -/
def play (turns : List Turn) (b : Bell) : Bell :=
  turns.foldl (fun b turn => b.after .small 3 turn) b

def fresh : Bell := ⟨.fresh, fun _ => false⟩

/-- A wait sleeps until the completion. -/
theorem run_settled : ∃ trace,
    Run (Step .small 3) fresh trace (fresh.play (Turn.awaited.take 4)) := by
  have submitted : Step .small 3 fresh ⟨.submit 11, 0, succeeds⟩ _ :=
    ⟨by decide +kernel, nofun, rfl⟩
  have slept : Step .small 3 (fresh.play (Turn.awaited.take 1))
    ⟨.wait 1, 0, succeeds⟩ _ := ⟨by decide +kernel, nofun, rfl⟩
  have delivered : Step .small 3 (fresh.play (Turn.awaited.take 2))
    ⟨.next ⟨7, ""⟩, 0, succeeds⟩ _ := ⟨by decide +kernel, nofun, rfl⟩
  have settled : Step .small 3 (fresh.play (Turn.awaited.take 3))
    ⟨.settle, 0, succeeds⟩ _ := ⟨by decide +kernel, nofun, rfl⟩
  exact ⟨_, .cons submitted (.cons slept (.cons delivered
    (.cons settled (.nil _))))⟩

theorem always_rings_settled :
    (fresh.play (Turn.awaited.take 4)).session.waits 1 = .asleep ∧
      (fresh.play (Turn.awaited.take 4)).reached 1 = true := by
  obtain ⟨trace, run⟩ := run_settled
  have asleep : (fresh.play (Turn.awaited.take 4)).session.waits 1 =
    .asleep := by decide +kernel
  have closed : (fresh.play (Turn.awaited.take 4)).session.Closed :=
    .inl (by decide +kernel)
  have rings := always_rings created_fresh run _ (finish_mem_visited _ _) 1
    asleep
  exact ⟨asleep, rings.1.mpr closed⟩

end Bell

end CoralApi
