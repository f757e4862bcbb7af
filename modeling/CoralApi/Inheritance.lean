import CoralApi.Concord
import CoralApi.Host

/-!
# The mutexes that a child inherits

A fork copies every mutex as it is.  The handlers of `cube.c` take its global
lock and the mutexes of the registered cubes before the fork, and give them
back on both sides.  No handler takes the lock of `rpc.cpp`, the mutex of a
response, or the one of a cube that is out of the registry.
-/

namespace CoralApi

/-- A thread that the process does not have. -/
def Thread.Absent : Thread → Prop
  | unborn => True
  | gone => True
  | _ => False

namespace Crew

/-- The global locks of `cube.c` and `rpc.cpp`, and the mutexes of the
registered cubes. -/
def Global (s : Crew) (mutex : Lock) : Prop :=
  mutex = .cubes ∨ mutex = .queue ∨
    ∃ cube ∈ s.process.cubes, mutex = .cube cube.ptr

/-- The mutexes that `__prepare` takes. -/
def Handled (s : Crew) (mutex : Lock) : Prop :=
  mutex = .cubes ∨ ∃ cube ∈ s.process.cubes, mutex = .cube cube.ptr

/-- No mutex, of whatever object, is held by a thread of the parent alone: who
waits for one, waits for a thread of its own process. -/
def Present (s : Crew) : Prop :=
  ∀ mutex holder, s.owner mutex = some holder → s.thread holder ≠ .gone

/-- What a fork leaves behind. -/
structure Clear (s : Crew) : Prop where
  /-- `fork` returns in the child -/
  child : ∀ thread errno, s.thread thread = .running .child errno (.done ()) →
    ∀ mutex, s.Global mutex → s.owner mutex = none
  /-- `fork` returns in the parent -/
  parent : ∀ thread errno,
    s.thread thread = .running .parent errno (.done ()) →
    ∀ mutex, s.Global mutex → s.owner mutex ≠ some thread
  present : s.Present

/-- When a process is copied, no thread is in a critical section that the
handlers leave out. -/
def Act.Covered (s : Crew) : Act → Prop
  | child _ _ => ∀ mutex, ¬s.Handled mutex → s.owner mutex = none
  | _ => True

/-- The handlers of the child run in its only thread. -/
def Solitary (s : Crew) : Prop :=
  ∀ thread errno script, s.thread thread = .running .child errno script →
    ∀ other, other ≠ thread → (s.thread other).Absent

section Steps

variable {P : PageSize} {s s' : Crew} {act : Act} {thread holder : Nat}
variable {new : Thread} {mutex : Lock}

theorem gone_of_set (gone : (s.set thread new).thread holder = .gone)
    (there : new ≠ .gone) :
    s.thread holder = .gone := by
  by_cases here : holder = thread
  · rw [here, set_thread_self] at gone
    exact absurd gone there
  · rwa [set_thread_of_ne here] at gone

theorem Solitary.set (solitary : s.Solitary)
    (born : ¬(s.thread thread).Absent)
    (child : ∀ errno script, new = .running .child errno script →
      ∃ errno script, s.thread thread = .running .child errno script) :
    (s.set thread new).Solitary := by
  intro first errno script running other different
  have before : ∃ errno script,
      s.thread first = .running .child errno script := by
    by_cases here : first = thread
    · rw [here, set_thread_self] at running
      rw [here]
      exact child errno script running
    · rw [set_thread_of_ne here] at running
      exact ⟨errno, script, running⟩
  obtain ⟨errno', script', before⟩ := before
  have absent := solitary first errno' script' before other different
  by_cases here : other = thread
  · rw [here] at absent
    exact absurd absent born
  · rwa [set_thread_of_ne here]

/-- A thread goes on in its part. -/
theorem Solitary.goOn (solitary : s.Solitary) {part : Part}
    {errno errno' : Nat} {script script' : Script Unit}
    (running : s.thread thread = .running part errno script) :
    (s.set thread (.running part errno' script')).Solitary := by
  apply solitary.set
  · simp [running, Thread.Absent]
  · rintro _ _ ⟨⟩
    exact ⟨errno, script, running⟩

/-- A thread ends its part. -/
theorem Solitary.leave (solitary : s.Solitary)
    (born : ¬(s.thread thread).Absent)
    (outside : ∀ errno script, new ≠ .running .child errno script) :
    (s.set thread new).Solitary :=
  solitary.set born fun errno script same => absurd same (outside errno script)

theorem Solitary.create (solitary : s.Solitary)
    (creates : (s.thread thread).Creates) {fresh errno : Nat} :
    (s.set fresh (.idle errno)).Solitary := by
  intro first errno script running other different
  by_cases here : first = fresh
  · rw [here, set_thread_self] at running
    cases running
  · rw [set_thread_of_ne here] at running
    by_cases same : thread = first
    · rw [same, running] at creates
      exact creates.elim
    · have absent := solitary first errno script running thread same
      cases there : s.thread thread <;>
        simp [there, Thread.Absent, Thread.Creates] at absent creates

theorem copy_solitary {pid : Nat} : (s.copy thread pid new).Solitary := by
  intro first errno script running other different
  have here : first = thread := by
    by_contra there
    simp only [copy, Function.update_of_ne there] at running
    cases before : s.thread first <;> simp [before, Thread.abandon] at running
  rw [here] at different
  simp only [copy, Function.update_of_ne different]
  cases s.thread other <;> trivial

theorem Step.solitary (step : Step P s act s') (solitary : s.Solitary) :
    s'.Solitary := by
  cases step with
  | create creates _ => exact solitary.create creates
  | start idle =>
      exact solitary.leave (by simp [idle, Thread.Absent]) nofun
  | lock running _ => exact Solitary.goOn solitary running
  | unlock running _ => exact Solitary.goOn solitary running
  | @sleep thread errno part mutex bed running _ =>
      have born : ¬(s.thread thread).Absent := by
        simp [running, Thread.Absent]
      exact Solitary.leave solitary born nofun
  | call running _ => exact Solitary.goOn solitary running
  | throw running _ => exact Solitary.goOn solitary running
  | wake asleep =>
      exact solitary.leave (by simp [asleep, Thread.Absent]) nofun
  | finish running _ =>
      exact solitary.leave (by simp [running, Thread.Absent]) nofun
  | fork idle =>
      exact solitary.leave (by simp [idle, Thread.Absent]) nofun
  | parent running =>
      exact solitary.leave (by simp [running, Thread.Absent]) nofun
  | child _ => exact copy_solitary

/-- A step that copies no process makes no thread go, and takes no mutex for a
thread that is gone. -/
theorem Step.lost (step : Step P s act s')
    (stays : ∀ thread pid, act ≠ .child thread pid)
    (owned : s'.owner mutex = some holder)
    (gone : s'.thread holder = .gone) :
    s.owner mutex = some holder ∧ s.thread holder = .gone := by
  cases step with
  | create _ _ => exact ⟨owned, gone_of_set gone (by simp)⟩
  | start _ => exact ⟨owned, gone_of_set gone (by simp)⟩
  | @lock thread errno part taken rest running _ =>
      have before : s.thread holder = .gone := gone_of_set gone (by simp)
      refine ⟨?_, before⟩
      by_cases here : mutex = taken
      · simp only [here, set, hold, Function.update_self] at owned
        rw [← Option.some.inj owned, running] at before
        cases before
      · simpa [set, hold, here] using owned
  | @unlock thread errno part back rest running _ =>
      refine ⟨?_, gone_of_set gone (by simp)⟩
      by_cases here : mutex = back
      · simp [here, set, hold] at owned
      · simpa [set, hold, here] using owned
  | @sleep thread errno part back bed running _ =>
      refine ⟨?_, gone_of_set gone (by simp)⟩
      by_cases here : mutex = back
      · simp [here, set, hold] at owned
      · simpa [set, hold, here] using owned
  | call _ _ => exact ⟨owned, gone_of_set gone (by simp)⟩
  | throw _ _ => exact ⟨owned, gone_of_set gone (by simp)⟩
  | wake _ => exact ⟨owned, gone_of_set gone (by simp)⟩
  | finish _ _ => exact ⟨owned, gone_of_set gone (by simp)⟩
  | fork _ => exact ⟨owned, gone_of_set gone (by simp)⟩
  | parent _ => exact ⟨owned, gone_of_set gone (by simp)⟩
  | @child thread errno pid _ => exact absurd rfl (stays thread pid)

end Steps

section Fresh

variable {s : Crew}

theorem Fresh.not_running (fresh : s.Fresh) {thread errno : Nat} {part : Part}
    {script : Script Unit} :
    s.thread thread ≠ .running part errno script := by
  intro running
  rcases fresh.outside thread with unborn | ⟨errno', idle⟩
  · rw [unborn] at running
    cases running
  · rw [idle] at running
    cases running

theorem Fresh.solitary (fresh : s.Fresh) : s.Solitary :=
  fun _ _ _ running => absurd running fresh.not_running

theorem Fresh.clear (fresh : s.Fresh) : s.Clear where
  child := fun _ _ running => absurd running fresh.not_running
  parent := fun _ _ running => absurd running fresh.not_running
  present := by
    intro mutex holder owned
    rw [fresh.free] at owned
    cases owned

end Fresh

namespace Gripped

variable {P : PageSize} {s s' : Crew} {act : Act} {calm : Prop}
variable {grip : Nat → Grip} {thread : Nat} {mutex : Lock}

/-- Where all owners are there, the handlers leave what they should. -/
theorem clear_iff (gripped : s.Gripped calm grip) (solitary : s.Solitary) :
    s.Clear ↔ s.Present := by
  refine ⟨Clear.present, fun present => ⟨?_, ?_, present⟩⟩
  · intro thread errno running mutex _
    have free : (grip thread).Free := gripped.leaves running
    cases owned : s.owner mutex with
    | none => rfl
    | some holder =>
        have there := present mutex holder owned
        have held := gripped.held holder mutex there owned
        by_cases here : holder = thread
        · rw [here, free] at held
          cases held
        · -- the child has no other thread
          have absent := solitary thread errno _ running holder here
          have resting : ¬(s.thread holder).Running := by
            intro active
            cases born : s.thread holder <;>
              simp [born, Thread.Absent, Thread.Running] at absent active
          rw [gripped.rest holder resting] at held
          cases held
  · intro thread errno running mutex _ owned
    have free : (grip thread).Free := gripped.leaves running
    have held := gripped.held thread mutex (by simp [running]) owned
    rw [free] at held
    cases held

/-- The forking thread holds the mutexes of `cube.c`. -/
theorem owner_prepared (gripped : s.Gripped calm grip) {errno : Nat}
    (running : s.thread thread = .running .prepare errno (.done ()))
    (handled : s.Handled mutex) :
    s.owner mutex = some thread := by
  have prepared : (grip thread).Prepared := gripped.leaves running
  apply gripped.owner thread mutex
  rcases handled with cubes | ⟨cube, member, same⟩
  · exact (prepared mutex).mpr (.inl cubes)
  · refine (prepared mutex).mpr (.inr ⟨cube.ptr, ?_, same⟩)
    rw [← gripped.known thread ((prepared _).mpr (.inl rfl))]
    exact List.mem_map_of_mem member

/-- The forking thread holds no other mutex. -/
theorem handled_of_owner (gripped : s.Gripped calm grip) {errno : Nat}
    (running : s.thread thread = .running .prepare errno (.done ()))
    (owned : s.owner mutex = some thread) : s.Handled mutex := by
  have prepared : (grip thread).Prepared := gripped.leaves running
  have held := gripped.held thread mutex (by simp [running]) owned
  rcases (prepared mutex).mp held with cubes | ⟨ptr, known, same⟩
  · exact .inl cubes
  · rw [← gripped.known thread ((prepared _).mpr (.inl rfl))] at known
    obtain ⟨cube, member, same'⟩ := List.mem_map.mp known
    exact .inr ⟨cube, member, same'.symm ▸ same⟩

/-- The owner of a mutex that is not the forking thread is no thread of the
copy. -/
theorem gone_of_copy (gripped : s.Gripped calm grip) {pid holder : Nat}
    {new : Thread} (other : holder ≠ thread)
    (owned : s.owner mutex = some holder) :
    (s.copy thread pid new).thread holder = .gone := by
  have left : (s.copy thread pid new).thread holder =
      (s.thread holder).abandon := by simp [Crew.copy, other]
  rw [left]
  cases there : s.thread holder with
  | unborn =>
      have held := gripped.held holder mutex (by simp [there]) owned
      rw [gripped.rest holder (by simp [there, Thread.Running])] at held
      cases held
  | _ => rfl

theorem present_copy (gripped : s.Gripped calm grip) {errno pid : Nat}
    {new : Thread} (there : new ≠ .gone)
    (running : s.thread thread = .running .prepare errno (.done ())) :
    (s.copy thread pid new).Present ↔
      ∀ mutex, ¬s.Handled mutex → s.owner mutex = none := by
  constructor
  · intro present mutex unhandled
    cases owned : s.owner mutex with
    | none => rfl
    | some holder =>
        have other : holder ≠ thread := by
          rintro rfl
          exact unhandled (gripped.handled_of_owner running owned)
        have gone := @gone_of_copy _ _ _ thread _ gripped pid _ new other owned
        exact absurd gone (present mutex holder owned)
  · intro free mutex holder owned
    have owned : s.owner mutex = some holder := owned
    have handled : s.Handled mutex := by
      by_contra unhandled
      rw [free mutex unhandled] at owned
      cases owned
    have mine := gripped.owner_prepared running handled
    rw [owned] at mine
    rw [Option.some.inj mine]
    simpa [Crew.copy] using there

/-- Of all steps, a copy alone can leave a mutex with a thread that is gone. -/
theorem present_iff (gripped : s.Gripped calm grip) (present : s.Present)
    (step : Step P s act s') : s'.Present ↔ act.Covered s := by
  by_cases copies : ∃ thread pid, act = .child thread pid
  · obtain ⟨thread, pid, rfl⟩ := copies
    cases step with
    | child running => exact gripped.present_copy nofun running
  · have stays : ∀ thread pid, act ≠ .child thread pid :=
      fun thread pid same => copies ⟨thread, pid, same⟩
    have covered : act.Covered s := by
      cases act <;> first | trivial | exact absurd rfl (stays _ _)
    refine iff_of_true ?_ covered
    intro mutex holder owned gone
    obtain ⟨before, lost⟩ := step.lost stays owned gone
    exact present mutex holder before lost

end Gripped

/-- Where no call returns with a mutex, a fork hands its child no mutex of a
thread that is gone, but those that no handler takes: the threads of all
processes of a run are free of such a mutex just when no process was copied
while another thread had the lock of `rpc.cpp`, the mutex of a response, or the
one of a cube that was out of the registry. -/
theorem clear_run_iff {P : PageSize} {start finish : Crew}
    {trace : List (Crew × Act)}
    (run : Transition.Run (Step P) start trace finish) (fresh : start.Fresh)
    (tidy : ∀ point ∈ trace, point.2.Tidy point.1) :
    (∀ s ∈ Transition.visited trace finish, s.Clear) ↔
      ∀ point ∈ trace, point.2.Covered point.1 := by
  refine (run.restrict tidy).visits_iff
    (fun s => (∃ grip, s.Gripped False grip) ∧ s.Solitary) Clear
    (fun s act => act.Covered s) ?_ ?_ ⟨fresh.gripped, fresh.solitary⟩
    fresh.clear
  · rintro s act s' ⟨⟨grip, gripped⟩, solitary⟩ ⟨tidy, step⟩
    exact ⟨gripped.step False.elim (.inr tidy) step, step.solitary solitary⟩
  · rintro s act s' ⟨⟨grip, gripped⟩, solitary⟩ clear ⟨tidy, step⟩
    obtain ⟨grip', gripped'⟩ := gripped.step False.elim (.inr tidy) step
    exact (gripped'.clear_iff (step.solitary solitary)).trans
      (gripped.present_iff clear.present step)

/-- Two threads with a request and a response. -/
def caller : Crew where
  process := ((Process.loaded 1 "d").setRequest 1 ⟨"a", [], none⟩).setResponse 2
    ⟨⟨"", [], none⟩, .ok, false, false⟩
  owner := fun _ => none
  thread := fun thread => if thread < 2 then .idle 0 else .unborn

theorem caller_fresh : caller.Fresh where
  named := by decide +kernel
  free := fun _ => rfl
  outside := by
    intro thread
    by_cases born : thread < 2
    · exact .inr ⟨0, if_pos born⟩
    · exact .inl (if_neg born)

/-- Every call of the operating system succeeds. -/
def smooth : Nat → Reply := fun _ => .done 1 "a"

/-- A fork beside a thread that is outside of the library. -/
theorem clear_run_caller : ∃ trace finish errno,
    Transition.Run (Step .small) caller trace finish ∧
    finish.thread 1 = .running .child errno (.done ()) ∧
    ∀ s ∈ Transition.visited trace finish, s.Clear := by
  have reaches := @Transition.Reaches.refl _ _ (Step .small)
    (fun s act => act.Tidy s ∧ act.Covered s) caller
  have reaches := reaches.snoc (@Step.fork _ _ 1 _ rfl) ⟨trivial, trivial⟩
  have reaches := reaches.snoc (@Step.lock _ _ 1 _ _ .cubes _ rfl rfl)
    ⟨trivial, trivial⟩
  have reaches := reaches.snoc (@Step.call _ _ 1 _ _ smooth _ _ _ _ _ rfl rfl)
    ⟨trivial, trivial⟩
  have reaches := reaches.snoc (@Step.child _ _ 1 _ 2 rfl)
    ⟨trivial, fun _ unhandled =>
      Function.update_of_ne (fun same => unhandled (.inl same)) _ _⟩
  have reaches := reaches.snoc (@Step.call _ _ 1 _ _ smooth _ _ _ _ _ rfl rfl)
    ⟨trivial, trivial⟩
  have reaches := reaches.snoc (@Step.unlock _ _ 1 _ _ .cubes _ rfl rfl)
    ⟨trivial, trivial⟩
  have reaches := reaches.snoc (@Step.call _ _ 1 _ _ smooth _ _ _ _ _ rfl rfl)
    ⟨trivial, trivial⟩
  obtain ⟨trace, run, met⟩ := reaches
  have clear := (clear_run_iff run caller_fresh fun point member =>
    (met point member).1).mpr fun point member => (met point member).2
  exact ⟨trace, _, _, run, rfl, clear⟩

/-- A fork while another thread is in the critical section of
`inaccel_submit`. -/
theorem queue_stays_locked : ∃ trace finish errno, caller.Fresh ∧
    Transition.Run (Step .small) caller trace finish ∧
    (∀ point ∈ trace, point.2.Tidy point.1) ∧
    finish.thread 1 = .running .child errno (.done ()) ∧
    finish.owner .queue = some 0 ∧ finish.thread 0 = .gone ∧
    ¬finish.Clear := by
  have reaches := @Transition.Reaches.refl _ _ (Step .small)
    (fun s act => act.Tidy s) caller
  have reaches := reaches.snoc (@Step.start _ _ 0 _ (.submit 1 2) rfl) trivial
  -- up to the lock of `rpc.cpp`
  have reaches := reaches.snoc
    (@Step.call _ _ 0 _ _ smooth _ _ _ _ _ rfl rfl) trivial
  have reaches := reaches.snoc
    (@Step.call _ _ 0 _ _ smooth _ _ _ _ _ rfl rfl) trivial
  have reaches := reaches.snoc
    (@Step.call _ _ 0 _ _ smooth _ _ _ _ _ rfl rfl) trivial
  have reaches := reaches.snoc
    (@Step.call _ _ 0 _ _ smooth _ _ _ _ _ rfl rfl) trivial
  have reaches := reaches.snoc
    (@Step.call _ _ 0 _ _ smooth _ _ _ _ _ rfl rfl) trivial
  have reaches := reaches.snoc
    (@Step.call _ _ 0 _ _ smooth _ _ _ _ _ rfl rfl) trivial
  have reaches := reaches.snoc
    (@Step.call _ _ 0 _ _ smooth _ _ _ _ _ rfl rfl) trivial
  have reaches := reaches.snoc
    (@Step.call _ _ 0 _ _ smooth _ _ _ _ _ rfl rfl) trivial
  have reaches := reaches.snoc (@Step.lock _ _ 0 _ _ .queue _ rfl rfl) trivial
  -- the fork of the other thread
  have reaches := reaches.snoc (@Step.fork _ _ 1 _ rfl) trivial
  have reaches := reaches.snoc (@Step.lock _ _ 1 _ _ .cubes _ rfl rfl) trivial
  have reaches := reaches.snoc
    (@Step.call _ _ 1 _ _ smooth _ _ _ _ _ rfl rfl) trivial
  have reaches := reaches.snoc (@Step.child _ _ 1 _ 2 rfl) trivial
  have reaches := reaches.snoc
    (@Step.call _ _ 1 _ _ smooth _ _ _ _ _ rfl rfl) trivial
  have reaches := reaches.snoc (@Step.unlock _ _ 1 _ _ .cubes _ rfl rfl) trivial
  have reaches := reaches.snoc
    (@Step.call _ _ 1 _ _ smooth _ _ _ _ _ rfl rfl) trivial
  obtain ⟨trace, run, tidy⟩ := reaches
  refine ⟨trace, _, _, caller_fresh, run, tidy, rfl, rfl, rfl, ?_⟩
  intro clear
  have free := clear.child 1 _ rfl .queue (.inr (.inl rfl))
  cases free

end Crew

end CoralApi
