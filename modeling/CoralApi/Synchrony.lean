import CoralApi.Lifetime

/-!
# What a wait tells

The loop of a wait ends on `done`, which the waiter sets behind its detach
loop, or on `cancelled`, which the release sets at any time.  Only the first
says that the task has completed; the status is `OK` from the start.
-/

namespace CoralApi

open Program Transition

/-- The waiter has left its critical section. -/
def Session.Completed (s : Session) : Prop :=
  s.task = .closing ∨ s.task = .finished

/-- The task has completed with this code, and its slices are detached. -/
structure Session.Told (s : Session) (code : Int) : Prop where
  completed : s.Completed
  status : ∃ status, s.delivered = some status ∧ status.code = code
  cleared : s.cleared = s.snapshot

/-- No wait has returned a code of its own. -/
def Session.Truthful (s : Session) : Prop :=
  ∀ thread code, s.waits thread = .returned code → 0 ≤ code → s.Told code

def Act.looks : Act → Bool
  | .wait _ => true
  | .wake _ none => true
  | _ => false

/-- A wait that looks at the flags does not find `cancelled` before the waiter
has left its critical section. -/
def Turn.Patient (response : Nat) (s : Session) (turn : Turn) : Prop :=
  turn.act.looks = true → ∀ r ∈ s.p.responses response,
    r.cancelled = true → s.task = .closing

instance (response : Nat) (s : Session) (turn : Turn) :
    Decidable (turn.Patient response s) :=
  inferInstanceAs (Decidable (_ → _))

/-- The logs and the response agree. -/
structure Session.Honest (response : Nat) (s : Session) : Prop where
  sound : s.Sound response
  submitted : s.task = .pending ∨ s.task = .completed →
    s.p.contexts response = s.snapshot ∧ s.p.Own s.snapshot
  status : s.task = .completed ∨ s.Completed →
    ∃ status, s.delivered = some status ∧
      ∀ r ∈ s.p.responses response, r.status = status
  cleared : s.Completed → s.cleared = s.snapshot
  reading : ∀ thread, s.waits thread = .reading → s.Completed
  truthful : s.Truthful

namespace Session.Honest

variable {P : PageSize} {response : Nat} {s s' : Session} {turn : Turn}
  {r r' : Response}

/-- Before the completion no wait reads or has returned a code. -/
theorem early (honest : s.Honest response) (open' : ¬s.Completed) :
    (∀ thread, s.waits thread ≠ .reading) ∧
      ∀ thread code, s.waits thread = .returned code → ¬0 ≤ code :=
  ⟨fun thread reads => open' (honest.reading thread reads),
    fun thread code returned positive =>
      open' (honest.truthful thread code returned positive).completed⟩

/-- A step before the completion: no wait tells anything. -/
theorem of_early (honest : s.Honest response) (open' : ¬s.Completed)
    (sound : s'.Sound response) (waits : s'.waits = s.waits)
    (submitted : s'.task = .pending ∨ s'.task = .completed →
      s'.p.contexts response = s'.snapshot ∧ s'.p.Own s'.snapshot)
    (status : s'.task = .completed ∨ s'.Completed →
      ∃ status, s'.delivered = some status ∧
        ∀ r ∈ s'.p.responses response, r.status = status)
    (cleared : s'.Completed → s'.cleared = s'.snapshot) :
    s'.Honest response := by
  obtain ⟨reading, returned⟩ := honest.early open'
  refine ⟨sound, submitted, status, cleared, ?_, ?_⟩
  · intro thread reads
    exact absurd (waits ▸ reads) (reading thread)
  · intro thread code returns positive
    exact absurd positive (returned thread code (waits ▸ returns))

/-- A step that leaves the task and the logs alone. -/
theorem of_kept (honest : s.Honest response) (sound : s'.Sound response)
    (contexts : s'.p.contexts response = s.p.contexts response)
    (own : s.p.Own s.snapshot → s'.p.Own s.snapshot)
    (told : ∀ status, (∀ r ∈ s.p.responses response, r.status = status) →
      ∀ r ∈ s'.p.responses response, r.status = status)
    (logs : s'.task = s.task ∧ s'.snapshot = s.snapshot ∧
      s'.delivered = s.delivered ∧ s'.cleared = s.cleared)
    (reading : ∀ thread, s'.waits thread = .reading → s.Completed)
    (truthful : ∀ thread code, s'.waits thread = .returned code → 0 ≤ code →
      s.Told code) : s'.Honest response := by
  obtain ⟨task, snapshot, delivered, cleared⟩ := logs
  have completed : s'.Completed ↔ s.Completed := by
    unfold Session.Completed
    rw [task]
  constructor
  · exact sound
  · intro running
    rw [task] at running
    obtain ⟨before, owned⟩ := honest.submitted running
    rw [snapshot]
    exact ⟨contexts.trans before, own owned⟩
  · intro past
    rw [task, completed] at past
    obtain ⟨status, log, same⟩ := honest.status past
    exact ⟨status, delivered.trans log, told status same⟩
  · intro past
    rw [cleared, snapshot]
    exact honest.cleared (completed.mp past)
  · exact fun thread reads => completed.mpr (reading thread reads)
  · intro thread code returned positive
    obtain ⟨past, ⟨status, log, same⟩, clear⟩ :=
      truthful thread code returned positive
    exact ⟨completed.mpr past, ⟨status, delivered.trans log, same⟩,
      cleared.trans (clear.trans snapshot.symm)⟩

/-- Only the flags of the response change. -/
theorem of_tends (honest : s.Honest response) (sound : s'.Sound response)
    (found : s.p.responses response = some r)
    (tends : s.p.Tends response (some r') s'.p)
    (kept : r'.request = r.request ∧ r'.status = r.status)
    (logs : s'.task = s.task ∧ s'.snapshot = s.snapshot ∧
      s'.delivered = s.delivered ∧ s'.cleared = s.cleared)
    (reading : ∀ thread, s'.waits thread = .reading → s.Completed)
    (truthful : ∀ thread code, s'.waits thread = .returned code → 0 ≤ code →
      s.Told code) : s'.Honest response := by
  refine honest.of_kept sound ?_ tends.retains.own ?_ logs reading truthful
  · rw [contexts_eq tends.here, contexts_eq found, kept.1]
  · intro status same r'' here
    cases tends.here.symm.trans here
    exact kept.2.trans (same r found)

section Wait

variable {thread : Nat} {wait : Wait}

theorem reading_setWait (honest : s.Honest response)
    (reads : wait = .reading → s.Completed) (other : Nat)
    (reading : (s.setWait thread wait).waits other = .reading) :
    s.Completed := by
  by_cases same : other = thread
  · cases same
    exact reads (by simpa [Session.setWait] using reading)
  · exact honest.reading other (by simpa [Session.setWait, same] using reading)

theorem truthful_setWait (honest : s.Honest response)
    (tells : ∀ code, wait = .returned code → 0 ≤ code → s.Told code)
    (other : Nat) (code : Int)
    (returned : (s.setWait thread wait).waits other = .returned code)
    (positive : 0 ≤ code) : s.Told code := by
  by_cases same : other = thread
  · cases same
    exact tells code (by simpa [Session.setWait] using returned) positive
  · exact honest.truthful other code
      (by simpa [Session.setWait, same] using returned) positive

/-- A wait moves, and the response stays as it is. -/
theorem of_wait (honest : s.Honest response) {p : Process}
    (sound : ({ s with p := p }.setWait thread wait).Sound response)
    (found : s.p.responses response = some r)
    (tends : s.p.Tends response (some r) p)
    (reads : wait = .reading → s.Completed)
    (tells : ∀ code, wait = .returned code → 0 ≤ code → s.Told code) :
    ({ s with p := p }.setWait thread wait).Honest response :=
  honest.of_tends sound found tends ⟨rfl, rfl⟩ ⟨rfl, rfl, rfl, rfl⟩
    (honest.reading_setWait reads) (honest.truthful_setWait tells)

end Wait

theorem step (honest : s.Honest response) (patient : turn.Patient response s)
    (step : s.Step P response turn s') : s'.Honest response := by
  have allowed := step.1
  have sound := honest.sound.step step
  cases honest.sound.move step with
  | sent through found tends own =>
      have idle : s.task = .idle := allowed
      refine honest.of_early (by simp [Session.Completed, idle]) sound rfl
        (fun _ => ⟨contexts_eq tends.here, own honest.sound.named⟩) ?_ ?_
      · simp [Session.Completed]
      · simp [Session.Completed]
  | unsent fails ends found tends =>
      have idle : s.task = .idle := allowed
      refine honest.of_early (by simp [Session.Completed, idle]) sound rfl
        ?_ ?_ ?_
      · rcases ends with rfl | rfl
        · simp
        · simp
      · rcases ends with rfl | rfl
        · simp [Session.Completed]
        · simp [Session.Completed]
      · rcases ends with rfl | rfl
        · simp [Session.Completed]
        · simp [Session.Completed]
  | @next status errno os r p found tends =>
      have pending : s.task = .pending := allowed
      obtain ⟨contexts, own⟩ := honest.submitted (.inl pending)
      refine honest.of_early (by simp [Session.Completed, pending]) sound rfl
        (fun _ => ⟨?_, tends.retains.own own⟩) ?_ ?_
      · exact (contexts_eq tends.here).trans
          ((contexts_eq found).symm.trans contexts)
      · intro _
        refine ⟨status, rfl, fun r' here => ?_⟩
        cases tends.here.symm.trans here
        rfl
      · simp [Session.Completed]
  | @settled errno os r p cleared found tends detached =>
      have completed : s.task = .completed := allowed
      obtain ⟨contexts, own⟩ := honest.submitted (.inr completed)
      obtain ⟨status, log, same⟩ := honest.status (.inl completed)
      have slots : arrayContexts r.request.arguments = s.snapshot :=
        (contexts_eq found).symm.trans contexts
      refine honest.of_early (by simp [Session.Completed, completed]) sound rfl
        ?_ ?_ ?_
      · cases r.cancelled with
        | true => simp
        | false => simp
      · intro _
        refine ⟨status, log, fun r' here => ?_⟩
        cases tends.here.symm.trans here
        exact same r found
      · exact fun _ => (detached (slots ▸ own)).trans slots
  | jammed found tends =>
      have completed : s.task = .completed := allowed
      refine honest.of_early (by simp [Session.Completed, completed]) sound rfl
        ?_ ?_ ?_
      · simp
      · simp [Session.Completed]
      · simp [Session.Completed]
  | deleted deletes =>
      have closing : s.task = .closing := allowed
      have past : s.Completed := .inl closing
      obtain ⟨status, log, -⟩ := honest.status (.inr past)
      refine ⟨sound, ?_, ?_, fun _ => honest.cleared past, fun _ _ => .inr rfl,
        ?_⟩
      · simp
      · exact fun _ => ⟨status, log, by simp [deletes.gone]⟩
      · intro thread code returns positive
        obtain ⟨-, same, clear⟩ := honest.truthful thread code returns positive
        exact ⟨.inr rfl, same, clear⟩
  | released found tends =>
      exact honest.of_tends sound found tends ⟨rfl, rfl⟩ ⟨rfl, rfl, rfl, rfl⟩
        honest.reading honest.truthful
  | disposed deletes =>
      have deleting : s.release = .deleting := allowed
      have finished := honest.sound.deleting deleting
      have past : s.Completed := .inr finished
      obtain ⟨status, log, -⟩ := honest.status (.inr past)
      refine ⟨sound, ?_, ?_, fun _ => honest.cleared past, honest.reading, ?_⟩
      · simp [finished]
      · exact fun _ => ⟨status, log, by simp [deletes.gone]⟩
      · intro thread code returns positive
        obtain ⟨-, same, clear⟩ := honest.truthful thread code returns positive
        exact ⟨past, same, clear⟩
  | @ended thread errno os act r p checks found flag tends =>
      refine honest.of_wait sound found tends (fun _ => ?_) (by simp)
      obtain ⟨done, cancelled⟩ := honest.sound.flags found
      rcases flag with late | early
      · refine .inl (patient ?_ r found late)
        rcases checks with rfl | rfl
        · rfl
        · rfl
      · exact .inr (done.mp early)
  | slept checks found tends =>
      exact honest.of_wait sound found tends (by simp) (by simp)
  | erred found tends =>
      refine honest.of_wait sound found tends (by simp) ?_
      intro code returned positive
      cases returned
      exact absurd positive (by decide)
  | @read thread errno os r found =>
      refine honest.of_wait sound found (.of_same ⟨rfl, rfl, rfl, rfl⟩ found)
        (by simp) ?_
      intro code returned positive
      cases returned
      have past := honest.reading thread allowed
      obtain ⟨status, log, same⟩ := honest.status (.inr past)
      exact ⟨past, ⟨status, log, by rw [same r found]⟩, honest.cleared past⟩
  | dangled waits gone =>
      exact honest.of_kept sound rfl id (fun _ => id) ⟨rfl, rfl, rfl, rfl⟩
        (honest.reading_setWait (by simp)) (honest.truthful_setWait (by simp))
  | other allowed =>
      obtain ⟨responses, -, -, own⟩ := allowed
      refine honest.of_kept sound ?_ own ?_ ⟨rfl, rfl, rfl, rfl⟩
        honest.reading honest.truthful
      · simp [Process.contexts, responses]
      · exact fun status same r here => same r (responses ▸ here)

end Session.Honest

/-- In a run that starts with a new response, let no wait find `cancelled`
before the waiter has left its critical section.  Then a wait returns a code
only when the task has completed with it and its slices are detached. -/
theorem always_truthful {P : PageSize} {response : Nat}
    {start finish : Session} {trace : List (Session × Turn)}
    (created : start.Created response)
    (run : Run (Session.Step P response) start trace finish)
    (patient : ∀ point ∈ trace, point.2.Patient response point.1) :
    ∀ s ∈ visited trace finish, s.Truthful := by
  have initial : start.Honest response := by
    constructor
    · exact created.sound
    · simp [created.task]
    · simp [Session.Completed, created.task]
    · simp [Session.Completed, created.task]
    · simp [created.waits]
    · intro thread code returned
      simp [created.waits] at returned
  intro s member
  have honest := run.invariant_under (Session.Honest response)
    (fun s turn => turn.Patient response s)
    (fun _ _ _ honest patient step => honest.step patient step) initial
    patient s member
  exact honest.truthful

theorem alwaysTruthful_awaited :
    Session.fresh.Created 3 ∧
    ∀ s ∈ visited (Session.fresh.trace .small 3 Turn.awaited)
        (Session.fresh.play .small 3 Turn.awaited), s.Truthful :=
  ⟨created_fresh, always_truthful created_fresh
    (Session.run_play (by decide +kernel)) (by decide +kernel)⟩

/-- The release wakes a wait whose task is still running. -/
def Turn.interrupted : List Turn :=
  [⟨.submit 10, 0, succeeds⟩, ⟨.wait 1, 0, succeeds⟩,
    ⟨.release, 0, succeeds⟩, ⟨.wake 1 none, 0, succeeds⟩,
    ⟨.read 1, 0, succeeds⟩]

theorem not_alwaysTruthful_interrupted :
    ∃ start finish trace, start.Created 3 ∧
      Run (Session.Step .small 3) start trace finish ∧
      ¬∀ s ∈ visited trace finish, s.Truthful := by
  refine ⟨.fresh, _, Session.fresh.trace .small 3 Turn.interrupted,
    created_fresh, Session.run_play (by decide +kernel), fun truthful => ?_⟩
  have told := truthful _ (finish_mem_visited _ _) 1 0 (by decide +kernel)
    (Int.le_refl 0)
  have running : (Session.fresh.play .small 3 Turn.interrupted).task =
      .pending := by decide +kernel
  rcases told.completed with closing | finished
  · exact absurd (running.symm.trans closing) (by decide)
  · exact absurd (running.symm.trans finished) (by decide)

end CoralApi
