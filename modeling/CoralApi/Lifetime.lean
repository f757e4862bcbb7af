import CoralApi.Session

/-!
# Who deletes a response

`done` and `cancelled` hand the response over between the waiter and
`inaccel_response_release`: the one that comes second deletes it.  A response
that was never handed to gRPC has no second party.  The waits are not counted,
so the response may go while one of them still needs it.
-/

namespace CoralApi

open Program Transition

/-- The waiter is done with the response, and so is its owner. -/
def Session.Over (s : Session) : Prop :=
  s.task = .finished ∧ s.release = .finished

/-- What the flags say, and who deletes. -/
structure Session.Sound (response : Nat) (s : Session) : Prop where
  named : s.p.Named
  live : ¬s.Over → ∃ r, s.p.responses response = some r ∧
    (r.done = true ↔ s.task = .finished) ∧
    (r.cancelled = true ↔ s.release = .finished)
  kept : ¬s.Over → s.p.deleted.count response = 0
  gone : s.Over → s.p.responses response = none ∧
    s.p.deleted.count response = 1
  closing : s.task = .closing → s.release = .finished
  deleting : s.release = .deleting → s.task = .finished
  unstuck : s.release ≠ .stuck

section Created

/-- A new response has this name. -/
def Process.withResponse (ptr : Nat) (p : Process) : Process :=
  { p.setResponse ptr ⟨⟨"", [], none⟩, .ok, false, false⟩ with
    nextPtr := ptr + 1 }

theorem create_spec {w : World} :
    Ensures inaccelResponseCreate
      (fun result w' => ∀ response, result = some response →
        response = w.nextPtr ∧
          (w.put (w.withResponse w.nextPtr)).Quiet w')
      (fun _ _ => False) w := by
  unfold inaccelResponseCreate
  apply Ensures.step rfl
  cases w.os 0 with
  | failed error => exact fun response impossible => by cases impossible
  | done value name =>
      apply Ensures.step rfl
      apply (initCond_spec (.refl w.asked)).bind
      rintro error w₁ ⟨quiet₁, nextPtr₁, -⟩
      split
      · exact fun response impossible => by cases impossible
      · have mutex : Ensures (Utils.initMutex w.asked.nextPtr)
            (fun _ w₂ => w₂.nextPtr = w.nextPtr ∧ w.Quiet w₂)
            (fun _ _ => False) w₁ := by
          have quiet₁ : w.Quiet w₁ := ⟨quiet₁.same, quiet₁.nextPtr⟩
          unfold Utils.initMutex
          apply Ensures.step rfl
          cases w₁.os 0 with
          | done value name =>
              exact ⟨nextPtr₁, quiet₁.trans ⟨rfl, Nat.le_refl _⟩⟩
          | failed error =>
              exact ⟨nextPtr₁, quiet₁.trans ⟨rfl, Nat.le_refl _⟩⟩
        apply mutex.bind
        rintro error w₂ ⟨nextPtr₂, quiet₂⟩
        split
        · exact fun response impossible => by cases impossible
        · refine Ensures.step rfl ?_
          intro response same
          cases same
          have created := quiet₂.lift (Process.withResponse w.nextPtr)
            (fun _ => rfl) (fun _ _ _ => Nat.le_refl _)
          exact ⟨rfl, created.trans (nextPtr₂ ▸ .refl _)⟩

theorem Session.Created.sound {response : Nat} {s : Session}
    (created : s.Created response) : s.Sound response := by
  obtain ⟨⟨p, errno, os, w', named, fresh, run, same⟩, task, release, -, -⟩ :=
    created
  obtain ⟨rfl, quiet⟩ := create_spec.of_ok run response rfl
  have fresh : p.nextPtr ∉ p.deleted := fresh
  have here : w'.responses p.nextPtr =
      some ⟨⟨"", [], none⟩, .ok, false, false⟩ :=
    (congrFun (congrArg (·.responses) quiet.rpc) _).trans
      (Function.update_self _ _ _)
  have grown : p.Retains (p.withResponse p.nextPtr) :=
    .of_live rfl rfl (Nat.le_succ _)
  have retains : p.Retains w'.toProcess := grown.trans (.of_quiet quiet)
  have deleted : w'.deleted = p.deleted := congrArg (·.deleted) quiet.rpc
  constructor
  · rw [same]
    exact retains.named named
  · intro _
    exact ⟨_, same ▸ here, by simp [task], by simp [release]⟩
  · intro _
    rw [same, deleted]
    exact List.count_eq_zero.mpr fresh
  · rintro ⟨finished, -⟩
    simp [task] at finished
  · simp [task]
  · simp [release]
  · simp [release]

end Created

namespace Session.Sound

variable {P : PageSize} {response : Nat} {s s' : Session} {turn : Turn}
  {r : Response}

theorem not_over (sound : s.Sound response)
    (found : s.p.responses response = some r) : ¬s.Over := fun past => by
  simp [(sound.gone past).1] at found

/-- The flags of the response that is there. -/
theorem flags (sound : s.Sound response)
    (found : s.p.responses response = some r) :
    (r.done = true ↔ s.task = .finished) ∧
      (r.cancelled = true ↔ s.release = .finished) := by
  obtain ⟨r', found', flags⟩ := sound.live (sound.not_over found)
  cases found.symm.trans found'
  exact flags

/-- Only a wait can come too late. -/
theorem busy (sound : s.Sound response)
    (allowed : turn.act.Allowed response s) :
    (∃ thread, turn.act.Waits thread) ∨ (∃ p, turn.act = .other p) ∨
      s.p.responses response ≠ none := by
  have live : ¬s.Over → s.p.responses response ≠ none := fun busy => by
    obtain ⟨r, found, -⟩ := sound.live busy
    simp [found]
  obtain ⟨act, errno, os⟩ := turn
  cases act with
  | wait thread => exact .inl ⟨thread, .inl rfl⟩
  | wake thread error => exact .inl ⟨thread, .inr (.inl ⟨error, rfl⟩)⟩
  | read thread => exact .inl ⟨thread, .inr (.inr rfl)⟩
  | other p => exact .inr (.inl ⟨p, rfl⟩)
  | submit request =>
      exact .inr (.inr (live fun past => by simp [past.1, Act.Allowed] at allowed))
  | next status =>
      exact .inr (.inr (live fun past => by simp [past.1, Act.Allowed] at allowed))
  | settle =>
      exact .inr (.inr (live fun past => by simp [past.1, Act.Allowed] at allowed))
  | delete =>
      exact .inr (.inr (live fun past => by simp [past.1, Act.Allowed] at allowed))
  | release =>
      exact .inr (.inr (live fun past => by simp [past.2, Act.Allowed] at allowed))
  | dispose =>
      exact .inr (.inr (live fun past => by simp [past.2, Act.Allowed] at allowed))

theorem move (sound : s.Sound response) (step : s.Step P response turn s') :
    s.Move response turn s' :=
  Session.step_move step (sound.busy step.1)

/-- A step between two moments at which the response is there. -/
theorem of_tends (sound : s.Sound response)
    (found : s.p.responses response = some r) {r' : Response}
    (tends : s.p.Tends response (some r') s'.p)
    (done : r'.done = true ↔ s'.task = .finished)
    (cancelled : r'.cancelled = true ↔ s'.release = .finished)
    (one : ¬s'.Over) (closing : s'.task = .closing → s'.release = .finished)
    (deleting : s'.release = .deleting → s'.task = .finished)
    (unstuck : s'.release ≠ .stuck) : s'.Sound response where
  named := tends.retains.named sound.named
  live := fun _ => ⟨r', tends.here, done, cancelled⟩
  kept := fun _ => by
    rw [tends.deleted]
    exact sound.kept (sound.not_over found)
  gone := fun past => absurd past one
  closing := closing
  deleting := deleting
  unstuck := unstuck

/-- The second party deletes. -/
theorem of_deletes (sound : s.Sound response) (busy : ¬s.Over)
    (deletes : s.p.Deletes response s'.p) (past : s'.Over) :
    s'.Sound response where
  named := deletes.retains.named sound.named
  live := fun busy => absurd past busy
  kept := fun busy => absurd past busy
  gone := fun _ => by
    refine ⟨deletes.gone, ?_⟩
    rw [deletes.deleted, List.count_cons_self, sound.kept busy]
  closing := fun closing => by simp [past.1] at closing
  deleting := fun deleting => by simp [past.2] at deleting
  unstuck := by simp [past.2]

/-- A wait moves, and the response stays as it is. -/
theorem of_wait (sound : s.Sound response)
    (found : s.p.responses response = some r) {p : Process}
    (tends : s.p.Tends response (some r) p) (thread : Nat) (wait : Wait) :
    ({ s with p := p }.setWait thread wait).Sound response := by
  obtain ⟨done, cancelled⟩ := sound.flags found
  exact sound.of_tends found tends done cancelled (sound.not_over found)
    sound.closing sound.deleting sound.unstuck

theorem step (sound : s.Sound response) (step : s.Step P response turn s') :
    s'.Sound response := by
  have allowed := step.1
  cases sound.move step with
  | sent through found tends own =>
      obtain ⟨done, cancelled⟩ := sound.flags found
      have idle : s.task = .idle := allowed
      refine sound.of_tends found tends ?_ cancelled ?_ ?_ ?_ sound.unstuck
      · simpa [idle] using done
      · simp [Session.Over]
      · simp
      · intro deleting
        simp [sound.deleting deleting] at idle
  | unsent fails ends found tends =>
      obtain ⟨done, cancelled⟩ := sound.flags found
      have idle : s.task = .idle := allowed
      refine sound.of_tends found tends ?_ cancelled ?_ ?_ ?_ sound.unstuck
      · rcases ends with rfl | rfl
        · simpa [idle] using done
        · simpa [idle] using done
      · rcases ends with rfl | rfl
        · simp [Session.Over]
        · simp [Session.Over]
      · rcases ends with rfl | rfl
        · simp
        · simp
      · intro deleting
        simp [sound.deleting deleting] at idle
  | next found tends =>
      obtain ⟨done, cancelled⟩ := sound.flags found
      have pending : s.task = .pending := allowed
      refine sound.of_tends found tends ?_ cancelled ?_ ?_ ?_ sound.unstuck
      · simpa [pending] using done
      · simp [Session.Over]
      · simp
      · intro deleting
        simp [sound.deleting deleting] at pending
  | @settled errno os r p cleared found tends detached =>
      obtain ⟨done, cancelled⟩ := sound.flags found
      have completed : s.task = .completed := allowed
      have running : r.done = false := by simpa [completed] using done
      have undeleted : s.release ≠ .deleting := fun deleting => by
        simp [sound.deleting deleting] at completed
      cases flag : r.cancelled with
      | true =>
          simp only [flag, true_iff] at cancelled
          refine sound.of_tends found tends ?_ ?_ ?_ ?_ ?_ sound.unstuck
          · simp [flag, running]
          · simp [flag, cancelled]
          · simp [Session.Over]
          · exact fun _ => cancelled
          · exact fun deleting => absurd deleting undeleted
      | false =>
          simp only [flag, Bool.false_eq_true, false_iff] at cancelled
          refine sound.of_tends found tends ?_ ?_ ?_ ?_ ?_ sound.unstuck
          · simp [flag]
          · simp [flag, cancelled]
          · exact fun past => cancelled past.2
          · simp
          · simp
  | jammed found tends =>
      obtain ⟨done, cancelled⟩ := sound.flags found
      have completed : s.task = .completed := allowed
      refine sound.of_tends found tends ?_ cancelled ?_ ?_ ?_ sound.unstuck
      · simpa [completed] using done
      · simp [Session.Over]
      · simp
      · intro deleting
        simp [sound.deleting deleting] at completed
  | deleted deletes =>
      have closing : s.task = .closing := allowed
      refine sound.of_deletes ?_ deletes ⟨rfl, sound.closing closing⟩
      rintro ⟨finished, -⟩
      simp [closing] at finished
  | @released errno os r p found tends =>
      obtain ⟨done, cancelled⟩ := sound.flags found
      have idle : s.release = .idle := allowed
      have open' : r.cancelled = false := by simpa [idle] using cancelled
      cases flag : r.done with
      | true =>
          simp only [flag, true_iff] at done
          refine sound.of_tends found tends ?_ ?_ ?_ ?_ ?_ ?_
          · simp [flag, done]
          · simp [flag, open']
          · simp [Session.Over]
          · exact fun closing => by simp [done] at closing
          · exact fun _ => done
          · simp
      | false =>
          simp only [flag, Bool.false_eq_true, false_iff] at done
          refine sound.of_tends found tends ?_ ?_ ?_ ?_ ?_ ?_
          · simp [flag, done]
          · simp [flag]
          · exact fun past => done past.1
          · exact fun _ => rfl
          · simp
          · simp
  | disposed deletes =>
      have deleting : s.release = .deleting := allowed
      refine sound.of_deletes ?_ deletes ⟨sound.deleting deleting, rfl⟩
      rintro ⟨-, finished⟩
      simp [deleting] at finished
  | ended checks found flag tends => exact sound.of_wait found tends _ _
  | slept checks found tends => exact sound.of_wait found tends _ _
  | erred found tends => exact sound.of_wait found tends _ _
  | read found =>
      exact sound.of_wait found (.of_same ⟨rfl, rfl, rfl, rfl⟩ found) _ _
  | dangled waits gone =>
      exact { sound with }
  | other allowed =>
      obtain ⟨responses, deleted, named, -⟩ := allowed
      exact
        { named := named
          live := fun busy => responses ▸ sound.live busy
          kept := fun busy => deleted ▸ sound.kept busy
          gone := fun past => responses ▸ deleted ▸ sound.gone past
          closing := sound.closing
          deleting := sound.deleting
          unstuck := sound.unstuck }

end Session.Sound

/-- A submitted task has the response. -/
def Session.InFlight (s : Session) : Prop :=
  s.task = .pending ∨ s.task = .completed ∨ s.task = .closing ∨
    s.task = .stuck

instance (s : Session) : Decidable s.InFlight :=
  inferInstanceAs (Decidable (_ ∨ _ ∨ _ ∨ _))

/-- The response was handed to gRPC. -/
def Session.Submitted (s : Session) : Prop :=
  s.task ≠ .idle ∧ s.task ≠ .failed ∧ s.task ≠ .lost

/-- A submission for which all is there that it needs. -/
def Turn.GetsThrough (response : Nat) (s : Session) (turn : Turn) : Prop :=
  ∃ request, turn.act = .submit request ∧
    (s.p.enter turn.errno turn.os).GetsThrough request response

theorem submitted_iff {P : PageSize} {response : Nat} {s s' : Session}
    {turn : Turn} (sound : s.Sound response)
    (step : s.Step P response turn s') :
    s'.Submitted ↔ s.Submitted ∨ turn.GetsThrough response s := by
  have allowed := step.1
  cases sound.move step with
  | sent through found tends own =>
      exact iff_of_true (by simp [Session.Submitted])
        (.inr ⟨_, rfl, through⟩)
  | unsent fails ends found tends =>
      have idle : s.task = .idle := allowed
      refine iff_of_false ?_ ?_
      · rintro ⟨-, failed, lost⟩
        exact ends.elim failed lost
      · rintro (submitted | ⟨request, same, through⟩)
        · exact submitted.1 idle
        · cases same
          exact fails through
  | next found tends =>
      have pending : s.task = .pending := allowed
      exact iff_of_true (by simp [Session.Submitted])
        (.inl (by simp [Session.Submitted, pending]))
  | @settled errno os r p cleared found tends detached =>
      have completed : s.task = .completed := allowed
      refine iff_of_true ?_ (.inl (by simp [Session.Submitted, completed]))
      cases r.cancelled with
      | true => simp [Session.Submitted]
      | false => simp [Session.Submitted]
  | jammed found tends =>
      have completed : s.task = .completed := allowed
      exact iff_of_true (by simp [Session.Submitted])
        (.inl (by simp [Session.Submitted, completed]))
  | deleted deletes =>
      have closing : s.task = .closing := allowed
      exact iff_of_true (by simp [Session.Submitted])
        (.inl (by simp [Session.Submitted, closing]))
  | released found tends => exact (or_iff_left (by simp [Turn.GetsThrough])).symm
  | disposed deletes => exact (or_iff_left (by simp [Turn.GetsThrough])).symm
  | ended checks found flag tends =>
      refine (or_iff_left ?_).symm
      rintro ⟨request, rfl, -⟩
      simp [Act.Checks] at checks
  | slept checks found tends =>
      refine (or_iff_left ?_).symm
      rintro ⟨request, rfl, -⟩
      simp [Act.Checks] at checks
  | erred found tends => exact (or_iff_left (by simp [Turn.GetsThrough])).symm
  | read found => exact (or_iff_left (by simp [Turn.GetsThrough])).symm
  | dangled waits gone =>
      refine (or_iff_left ?_).symm
      rintro ⟨request, rfl, -⟩
      simp [Act.Waits] at waits
  | other allowed => exact (or_iff_left (by simp [Turn.GetsThrough])).symm

/-- In a run that starts with a new response, let the response be released and
no task in flight at the end.  Then it has been deleted once exactly when a
submission got through. -/
theorem deleted_once_iff {P : PageSize} {response : Nat}
    {start finish : Session} {trace : List (Session × Turn)}
    (created : start.Created response)
    (run : Run (Session.Step P response) start trace finish)
    (released : finish.release = .finished) (landed : ¬finish.InFlight) :
    finish.p.deleted.count response = 1 ↔
      ∃ point ∈ trace, point.2.GetsThrough response point.1 := by
  have sound : finish.Sound response :=
    run.invariant (Session.Sound response)
      (fun _ _ _ sound step => sound.step step) created.sound finish
      (finish_mem_visited trace finish)
  have submitted := run.reached_iff (Session.Sound response)
    Session.Submitted (fun s turn => turn.GetsThrough response s)
    (fun _ _ _ sound step => sound.step step)
    (fun _ _ _ sound step => submitted_iff sound step) created.sound
  have unsubmitted : ¬start.Submitted := fun submitted =>
    submitted.1 created.task
  rw [or_iff_right unsubmitted] at submitted
  rw [← submitted]
  by_cases finished : finish.task = .finished
  · refine iff_of_true (sound.gone ⟨finished, released⟩).2 ?_
    simp [Session.Submitted, finished]
  · have none := sound.kept fun past => finished past.1
    refine iff_of_false (by simp [none]) ?_
    rintro ⟨idle, failed, lost⟩
    apply landed
    unfold Session.InFlight
    cases task : finish.task with
    | idle => exact absurd task idle
    | failed => exact absurd task failed
    | lost => exact absurd task lost
    | pending => exact .inl rfl
    | completed => exact .inr (.inl rfl)
    | closing => exact .inr (.inr (.inl rfl))
    | finished => exact absurd task finished
    | stuck => exact .inr (.inr (.inr rfl))

/-- The submission starts the task, its completion comes, and the owner
releases the response. -/
def Turn.settled : List Turn :=
  [⟨.submit 11, 0, succeeds⟩, ⟨.next ⟨7, ""⟩, 0, succeeds⟩,
    ⟨.settle, 0, succeeds⟩, ⟨.release, 0, succeeds⟩, ⟨.dispose, 0, succeeds⟩]

theorem deletedOnce_settled :
    (Session.fresh.play .small 3 Turn.settled).p.deleted.count 3 = 1 ↔
      ∃ point ∈ Session.fresh.trace .small 3 Turn.settled,
        point.2.GetsThrough 3 point.1 :=
  deleted_once_iff created_fresh (Session.run_play (by decide +kernel))
    (by decide +kernel) (by decide +kernel)

/-- No response is deleted that was only released, or released after its
submission has failed. -/
theorem not_deletedOnce_unsubmitted :
    Session.fresh.Created 3 ∧ ∀ turns ∈ [[⟨.release, 0, succeeds⟩],
      [⟨.submit 11, 0, failsAfter 0⟩, ⟨.release, 0, succeeds⟩]],
      ∃ start finish trace, start.Created 3 ∧ trace.map Prod.snd = turns ∧
        Run (Session.Step .small 3) start trace finish ∧
        finish.release = .finished ∧ ¬finish.InFlight ∧
        finish.p.deleted.count 3 ≠ 1 := by
  refine ⟨created_fresh, fun turns member => ?_⟩
  refine ⟨.fresh, _, Session.fresh.trace .small 3 turns, created_fresh,
    Session.trace_turns, Session.run_play ?_, ?_⟩
  all_goals
    revert turns
    decide +kernel

section Dangles

variable {P : PageSize} {response : Nat} {s s' : Session} {turn : Turn}

/-- No thread dangles while the response is there. -/
theorem not_dangles {r : Response} (found : s.p.responses response = some r) :
    ¬turn.Dangles P response s := by
  refine not_not.mpr ?_
  obtain ⟨act, errno, os⟩ := turn
  have lives : ∀ {r' : Option Response} {p : Process} {reason : Stop},
      s.p.Tends response r' p → r' ≠ none →
      reason ≠ .dangling response ∨ p.responses response ≠ none :=
    fun tends some => .inr (tends.here ▸ some)
  cases act with
  | submit request =>
      have spec := @inaccelSubmit_spec P request response
        (s.p.enter errno os) rfl
      refine ensures_bind.mpr (spec.mono (fun result w' _ => ?_) ?_)
      · split
        · trivial
        · trivial
      · intro reason w' outcome
        obtain ⟨grpc, tends, -⟩ := outcome.tends found
        exact lives tends (by simp)
  | next status =>
      refine ensures_bind.mpr (next_spec.mono (fun _ _ _ => trivial) ?_)
      rintro reason w' ⟨-, -, gone⟩
      exact absurd (found.symm.trans gone) (by simp)
  | settle =>
      refine Ensures.step rfl (ensures_bind.mpr
        ((waiterSection_spec rfl).mono (fun _ _ _ => trivial) ?_))
      rintro reason w' (dangles | ⟨r', before, q, -, -, -, loop, quiet⟩)
      · exact absurd (found.symm.trans dangles.2.2) (by simp)
      · have tends := Process.Tends.of_detached found loop
        exact lives (tends.quiet
          (w := (s.p.enter errno os).holding [.response response]) quiet)
          (by simp)
  | delete =>
      exact ensures_bind.mpr ((deletes found).mono (fun _ _ _ => trivial)
        fun _ _ => False.elim)
  | dispose =>
      exact ensures_bind.mpr ((deletes found).mono (fun _ _ _ => trivial)
        fun _ _ => False.elim)
  | release =>
      refine ensures_bind.mpr
        ((releaseSection_spec rfl).mono (fun _ _ _ => trivial) ?_)
      rintro reason w' ⟨-, -, gone⟩
      exact absurd (found.symm.trans gone) (by simp)
  | wait thread =>
      refine ensures_bind.mpr
        ((waitSection_spec rfl).mono (fun _ _ _ => trivial) ?_)
      rintro reason w' (⟨-, -, gone⟩ | ⟨-, rfl, -⟩)
      · exact absurd (found.symm.trans gone) (by simp)
      · simp
  | wake thread error =>
      refine ensures_bind.mpr
        ((waitWoken_spec rfl).mono (fun _ _ _ => trivial) ?_)
      rintro reason w' (⟨-, -, gone⟩ | ⟨-, -, rfl, -⟩)
      · exact absurd (found.symm.trans gone) (by simp)
      · simp
  | read thread =>
      refine ensures_bind.mpr
        (waitStatus_spec.mono (fun _ _ _ => trivial) ?_)
      rintro reason w' ⟨-, -, gone⟩
      exact absurd (found.symm.trans gone) (by simp)
  | other p => trivial

def Act.begins : Act → Bool
  | .wait _ => true
  | _ => false

def Act.deletes : Act → Bool
  | .delete => true
  | .dispose => true
  | _ => false

/-- A wait begins before the release. -/
def Turn.Early (s : Session) (turn : Turn) : Prop :=
  turn.act.begins = true → s.release = .idle

instance (s : Session) (turn : Turn) : Decidable (turn.Early s) :=
  inferInstanceAs (Decidable (_ → _))

/-- Where the turn deletes the response, no wait is between its first look at
the flags and the end of its read of the status. -/
def Turn.Unwatched (s : Session) (turn : Turn) : Prop :=
  turn.act.deletes = true →
    ∀ thread, s.waits thread ≠ .asleep ∧ s.waits thread ≠ .reading

/-- No wait is left when the response is gone. -/
structure Session.Safe (response : Nat) (s : Session) : Prop where
  sound : s.Sound response
  alone : s.Over → ∀ thread,
    s.waits thread ≠ .asleep ∧ s.waits thread ≠ .reading

theorem Session.Safe.step (safe : s.Safe response) (early : turn.Early s)
    (unwatched : turn.Unwatched s) (step : s.Step P response turn s') :
    s'.Safe response := by
  have sound := safe.sound.step step
  refine ⟨sound, fun past => ?_⟩
  have waiting : ∀ {r : Option Response} {p : Process},
      s.p.Tends response r p → s'.p = p → r ≠ none → False :=
    fun tends same some => some (by
      rw [← tends.here, ← same]
      exact (sound.gone past).1)
  cases safe.sound.move step with
  | sent through found tends own => exact (waiting tends rfl (by simp)).elim
  | unsent fails ends found tends => exact (waiting tends rfl (by simp)).elim
  | next found tends => exact (waiting tends rfl (by simp)).elim
  | settled found tends detached => exact (waiting tends rfl (by simp)).elim
  | jammed found tends => exact (waiting tends rfl (by simp)).elim
  | deleted deletes => exact unwatched rfl
  | released found tends => exact (waiting tends rfl (by simp)).elim
  | disposed deletes => exact unwatched rfl
  | ended checks found flag tends =>
      exact (waiting tends rfl (by simp)).elim
  | slept checks found tends => exact (waiting tends rfl (by simp)).elim
  | erred found tends => exact (waiting tends rfl (by simp)).elim
  | read found =>
      exact (safe.sound.not_over found past).elim
  | @dangled thread errno os act waits gone =>
      intro other
      have before := safe.alone past other
      by_cases same : other = thread
      · cases same
        simp [Session.setWait]
      · simpa [Session.setWait, same] using before
  | other allowed => exact safe.alone past

theorem Session.Safe.not_dangles (safe : s.Safe response)
    (early : turn.Early s) (allowed : turn.act.Allowed response s) :
    ¬turn.Dangles P response s := by
  by_cases past : s.Over
  · obtain ⟨act, errno, os⟩ := turn
    have alone := safe.alone past
    rcases safe.sound.busy allowed with ⟨thread, waits⟩ | ⟨p, other⟩ | live
    · rcases waits with begins | ⟨error, wakes⟩ | reads
      · cases begins
        exact absurd (early rfl) (by simp [past.2])
      · cases wakes
        exact absurd allowed (alone thread).1
      · cases reads
        exact absurd allowed (alone thread).2
    · cases other
      exact not_not.mpr trivial
    · exact absurd (safe.sound.gone past).1 live
  · obtain ⟨r, found, -⟩ := safe.sound.live past
    exact CoralApi.not_dangles found

end Dangles

/-- In a run that starts with a new response and whose waits begin before the
release, no thread dangles if no deletion happens under a wait. -/
theorem never_dangles {P : PageSize} {response : Nat}
    {start finish : Session} {trace : List (Session × Turn)}
    (created : start.Created response)
    (run : Run (Session.Step P response) start trace finish)
    (early : ∀ point ∈ trace, point.2.Early point.1)
    (unwatched : ∀ point ∈ trace, point.2.Unwatched point.1) :
    ∀ point ∈ trace, ¬point.2.Dangles P response point.1 := by
  have initial : start.Safe response :=
    ⟨created.sound, fun past => by simp [Session.Over, created.task] at past⟩
  have safe := run.invariant_under (Session.Safe response)
    (fun s turn => turn.Early s ∧ turn.Unwatched s)
    (fun _ _ _ safe met step => safe.step met.1 met.2 step) initial
    fun point member => ⟨early point member, unwatched point member⟩
  rintro ⟨s, turn⟩ member
  have before : s.Safe response := safe s
    (List.mem_append_left _ (List.mem_map_of_mem member))
  obtain ⟨next, step, -⟩ := run.step_of_mem member
  exact before.not_dangles (early _ member) step.1

/-- A wait sleeps until the completion and returns before the release. -/
def Turn.awaited : List Turn :=
  [⟨.submit 11, 0, succeeds⟩, ⟨.wait 1, 0, succeeds⟩,
    ⟨.next ⟨7, ""⟩, 0, succeeds⟩, ⟨.settle, 0, succeeds⟩,
    ⟨.wake 1 none, 0, succeeds⟩, ⟨.read 1, 0, succeeds⟩,
    ⟨.release, 0, succeeds⟩]

theorem waits_awaited :
    (Session.fresh.play .small 3 Turn.awaited).waits =
      Function.update (Function.update (Function.update (fun _ => .idle)
        1 .asleep) 1 .reading) 1 (.returned 7) := by
  with_unfolding_all rfl

theorem neverDangles_awaited :
    Session.fresh.Created 3 ∧ ∀ point ∈ Session.fresh.trace .small 3
        (Turn.awaited ++ [⟨.dispose, 0, succeeds⟩]),
      ¬point.2.Dangles .small 3 point.1 := by
  refine ⟨created_fresh, never_dangles created_fresh
    (Session.run_play (by decide +kernel)) (by decide +kernel) ?_⟩
  intro point member deletes thread
  rw [Session.trace_append] at member
  rcases List.mem_append.mp member with early | last
  · exact absurd deletes ((by decide +kernel :
      ∀ point ∈ Session.fresh.trace .small 3 Turn.awaited,
        ¬point.2.act.deletes = true) point early)
  · rw [List.mem_singleton.mp last, waits_awaited]
    by_cases same : thread = 1
    · cases same
      decide
    · simp [same]

/-- The release comes between the completion and the moment at which a
sleeping wait takes the mutex again. -/
def Turn.overtaken : List Turn :=
  [⟨.submit 11, 0, succeeds⟩, ⟨.wait 1, 0, succeeds⟩,
    ⟨.next ⟨7, ""⟩, 0, succeeds⟩, ⟨.settle, 0, succeeds⟩,
    ⟨.release, 0, succeeds⟩, ⟨.dispose, 0, succeeds⟩,
    ⟨.wake 1 none, 0, succeeds⟩]

theorem not_neverDangles_overtaken :
    ∃ start finish trace, start.Created 3 ∧
      Run (Session.Step .small 3) start trace finish ∧
      (∀ point ∈ trace, point.2.Early point.1) ∧
      ∃ point ∈ trace, point.2.Dangles .small 3 point.1 :=
  ⟨.fresh, _, Session.fresh.trace .small 3 Turn.overtaken, created_fresh,
    Session.run_play (by decide +kernel), by decide +kernel,
    by decide +kernel⟩

end CoralApi
