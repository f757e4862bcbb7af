import CoralApi.Concord
import CoralApi.Host

/-!
# No thread waits in a circle

A thread that waits with a mutex in its hands waits for the mutex of a cube.
Its rank says what it may still take, and the holder of the mutex, if it waits
too, has a lower one.
-/

namespace CoralApi

/-- The hands are empty, without the global lock, or with it. -/
def Grip.rank (g : Grip) : Nat :=
  if g.held = ∅ then 2 else if .cubes ∈ g.held then 0 else 1

namespace Crew

variable {P : PageSize} {s : Crew} {calm : Prop} {grip : Nat → Grip}

/-- The steps that find every call of the operating system answered. -/
abbrev Quiet (trace : List (Crew × Act)) : Prop :=
  ∀ point ∈ trace, point.2.Calm

namespace Gripped

theorem mayLock (gripped : s.Gripped calm grip) {thread : Nat} {mutex : Lock}
    (waits : s.Waits thread mutex) : (grip thread).MayLock mutex := by
  obtain ⟨⟨part, errno, rest, running⟩, -⟩ := waits
  exact (gripped.safe thread part errno _ running).1

theorem present_of_waits {thread : Nat} {mutex : Lock}
    (waits : s.Waits thread mutex) : s.thread thread ≠ .gone := by
  obtain ⟨⟨part, errno, rest, running⟩, -⟩ := waits
  simp [running]

/-- The holder has more in its hands. -/
theorem falls (gripped : s.Gripped calm grip) (thread : Nat) (mutex : Lock)
    (holder : Nat) (mutex' : Lock) (waits : s.Waits thread mutex)
    (owned : s.owner mutex = some holder) (waits' : s.Waits holder mutex') :
    (grip holder).rank < (grip thread).rank := by
  have holds := gripped.held holder mutex (present_of_waits waits') owned
  have busy : (grip holder).held ≠ ∅ := Finset.ne_empty_of_mem holds
  rcases (gripped.mayLock waits).order with idle | ⟨ptr, cube, free, behind⟩
  · have highest : (grip thread).rank = 2 := by simp [Grip.rank, idle]
    rw [highest]
    simp only [Grip.rank, if_neg busy]
    split <;> omega
  · -- the mutex of a cube, which a thread holds alone behind the global lock
    have above : .cubes ∈ (grip holder).held := by
      rcases (gripped.mayLock waits').order with none | ⟨_, _, _, behind'⟩
      · exact absurd none busy
      · rcases behind' with above | ⟨response, only⟩
        · exact above
        · rw [only, cube] at holds
          simp at holds
    have below : .cubes ∉ (grip thread).held := by
      intro held
      have mine := gripped.owner thread .cubes held
      rw [gripped.owner holder .cubes above] at mine
      rw [Option.some.inj mine] at holds
      exact free holds
    have lowest : (grip holder).rank = 0 := by simp [Grip.rank, busy, above]
    rw [lowest]
    simp only [Grip.rank, if_neg below]
    split <;> omega

theorem no_circle (gripped : s.Gripped calm grip) (circle : Set Nat) :
    ¬Threads.Circle s.Waits s.owner circle :=
  Threads.no_circle (fun thread => (grip thread).rank) gripped.falls circle

theorem empty_handed (gripped : s.Gripped calm grip) {thread errno : Nat}
    {bed : Bed} (asleep : s.thread thread = .asleep errno bed)
    (mutex : Lock) : s.owner mutex ≠ some thread := by
  intro owned
  have free := gripped.rest thread (by simp [asleep, Thread.Running])
  have held := gripped.held thread mutex (by simp [asleep]) owned
  rw [free] at held
  cases held

end Gripped

/-- In no interleaving are threads that wait for one another, and a thread
that sleeps holds no mutex. -/
theorem no_deadlock {start finish : Crew} {trace : List (Crew × Act)}
    (run : Transition.Run (Step P) start trace finish) (fresh : start.Fresh)
    (quiet : Quiet trace) :
    ∀ s ∈ Transition.visited trace finish,
      (∀ circle, ¬Threads.Circle s.Waits s.owner circle) ∧
      ∀ thread errno bed, s.thread thread = .asleep errno bed →
        ∀ mutex, s.owner mutex ≠ some thread := by
  have together := run.invariant_under
    (fun s => ∃ grip, s.Gripped True grip) (fun _ act => act.Calm)
    (fun s act s' ⟨_, gripped⟩ calm step =>
      gripped.step (fun _ => calm) (.inl trivial) step)
    fresh.gripped quiet
  intro s visited
  obtain ⟨grip, gripped⟩ := together s visited
  exact ⟨gripped.no_circle, fun _ _ _ => gripped.empty_handed⟩

/-- Two threads outside of the library. -/
def pair : Crew where
  process := .loaded 1 "d"
  owner := fun _ => none
  thread := fun thread => if thread < 2 then .idle 0 else .unborn

theorem pair_fresh : pair.Fresh where
  named := by decide +kernel
  free := fun _ => rfl
  outside := by
    intro thread
    by_cases born : thread < 2
    · exact .inr ⟨0, if_pos born⟩
    · exact .inl (if_neg born)

/-- A thread that waits for the global lock, which the other one holds. -/
theorem no_deadlock_pair : ∃ trace finish,
    Transition.Run (Step .small) pair trace finish ∧
    finish.Waits 1 .cubes ∧ finish.owner .cubes = some 0 ∧
    ∀ circle, ¬Threads.Circle finish.Waits finish.owner circle := by
  have reaches := @Transition.Reaches.refl _ _ (Step .small)
    (fun _ act => act.Calm) pair
  have reaches := reaches.snoc (@Step.start _ _ 0 _ (.free 1) rfl) trivial
  have reaches := reaches.snoc (@Step.lock _ _ 0 _ _ .cubes _ rfl rfl) trivial
  have reaches := reaches.snoc (@Step.start _ _ 1 _ (.free 1) rfl) trivial
  obtain ⟨trace, run, quiet⟩ := reaches
  have safe := no_deadlock run pair_fresh quiet _
    (Transition.finish_mem_visited trace _)
  exact ⟨trace, _, run, ⟨⟨.call, 0, _, rfl⟩, Option.some_ne_none 0⟩, rfl,
    safe.1⟩

end Crew

end CoralApi
