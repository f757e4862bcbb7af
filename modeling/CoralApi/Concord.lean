import CoralApi.Discipline

/-!
# The grips of all threads

What the threads hold on to fits together: a mutex has one holder, the name
that a thread keeps for a cube is in nobody else's hands, and every running
thread has code that is safe for its grip.  Each step of a thread keeps this.
-/

namespace CoralApi

open Program

/-- What a thread leaves at the end of its part. -/
def Part.Leaves (calm : Prop) : Part → Grip → Prop
  | call, g => calm → g.Free
  | prepare, g => g.Prepared
  | parent, g => g.Free
  | child, g => g.Free

def Thread.Running : Thread → Prop
  | running _ _ _ => True
  | _ => False

/-- The replies of a step are those of a calm system. -/
def Crew.Act.Calm : Crew.Act → Prop
  | call _ os => ∀ index, (os index).isDone = true
  | _ => True

/-- A thread that returns holds no mutex. -/
def Crew.Act.Tidy (s : Crew) : Crew.Act → Prop
  | finish thread => ∀ mutex, s.owner mutex ≠ some thread
  | _ => True

/-- The names of the cubes, and who may use them. -/
structure Crew.Apart (s : Crew) (grip : Nat → Grip) : Prop where
  distinct : s.process.pointers.Nodup
  fresh : ∀ cube ∈ s.process.live, cube.ptr < s.process.nextPtr
  own : ∀ thread ptr, (grip thread).own = some ptr →
    ptr < s.process.nextPtr ∧ ∀ cube ∈ s.process.live, cube.ptr ≠ ptr
  alone : ∀ thread other ptr, (grip thread).own = some ptr →
    (grip other).own = some ptr → thread = other
  seen : ∀ thread ptr, (grip thread).seen ptr →
    ptr < s.process.nextPtr ∧ ∀ other, (grip other).own ≠ some ptr
  locked : ∀ thread ptr, s.owner (.cube ptr) = some thread →
    ptr < s.process.nextPtr ∧ ∀ other, (grip other).own ≠ some ptr

structure Crew.Gripped (calm : Prop) (s : Crew) (grip : Nat → Grip) : Prop
    extends s.Apart grip where
  safe : ∀ thread part errno script,
    s.thread thread = .running part errno script →
    Safe calm (part.Leaves calm) script (fun _ => part.Leaves calm)
      (grip thread)
  rest : ∀ thread, ¬(s.thread thread).Running → (grip thread).Free
  owner : ∀ thread, ∀ mutex ∈ (grip thread).held,
    s.owner mutex = some thread
  held : ∀ thread mutex, s.thread thread ≠ .gone →
    s.owner mutex = some thread → mutex ∈ (grip thread).held
  known : ∀ thread, .cubes ∈ (grip thread).held →
    s.process.pointers = (grip thread).known

namespace Crew

section Set

variable {s : Crew} {thread other : Nat} {new : Thread}

@[simp] theorem set_thread_self : (s.set thread new).thread thread = new := by
  simp [set]

theorem set_thread_of_ne (different : other ≠ thread) :
    (s.set thread new).thread other = s.thread other := by
  simp [set, different]

end Set

namespace Apart

variable {s : Crew} {grip : Nat → Grip} {thread : Nat} {new : Thread}
variable {g : Grip} {p : Process}

/-- A name that nobody keeps stays so. -/
theorem unowned (moves : (grip thread).Moves s.process g p) {ptr : Nat}
    (named : ptr < s.process.nextPtr)
    (free : ∀ other, (grip other).own ≠ some ptr) (other : Nat) :
    (Function.update grip thread g other).own ≠ some ptr := by
  by_cases here : other = thread
  · rw [here, Function.update_self]
    intro own
    rcases moves.own ptr own with ⟨before, -⟩ | ⟨late, -⟩
    · exact free thread before
    · exact absurd named (Nat.not_lt.mpr late)
  · rw [Function.update_of_ne here]
    exact free other

/-- The cubes are known before the action, or they are the one of the
thread. -/
theorem live_named (apart : s.Apart grip)
    (moves : (grip thread).Moves s.process g p) {cube : Cube}
    (member : cube ∈ p.live) : cube.ptr < s.process.nextPtr := by
  rcases moves.live cube member with ⟨old, before, same⟩ | own
  · rw [← same]
    exact apart.fresh old before
  · exact (apart.own thread cube.ptr own).1

theorem own_call (apart : s.Apart grip)
    (moves : (grip thread).Moves s.process g p) {other ptr : Nat}
    (own : (Function.update grip thread g other).own = some ptr) :
    ptr < p.nextPtr ∧ ∀ cube ∈ p.live, cube.ptr ≠ ptr := by
  by_cases here : other = thread
  · rw [here, Function.update_self] at own
    rcases moves.own ptr own with ⟨before, none⟩ | ⟨late, named⟩
    · have named := (apart.own thread ptr before).1
      exact ⟨Nat.lt_of_lt_of_le named moves.nextPtr, none⟩
    · refine ⟨named, ?_⟩
      intro cube member same
      have early := apart.live_named moves member
      omega
  · rw [Function.update_of_ne here] at own
    obtain ⟨named, none⟩ := apart.own other ptr own
    refine ⟨Nat.lt_of_lt_of_le named moves.nextPtr, ?_⟩
    intro cube member same
    rcases moves.live cube member with ⟨old, before, same'⟩ | mine
    · exact none old before (same'.trans same)
    · rw [same] at mine
      exact here (apart.alone other thread ptr own mine)

theorem own_alone (apart : s.Apart grip)
    (moves : (grip thread).Moves s.process g p) {other ptr : Nat}
    (different : other ≠ thread) (mine : g.own = some ptr)
    (own : (grip other).own = some ptr) : False := by
  rcases moves.own ptr mine with ⟨before, -⟩ | ⟨late, -⟩
  · exact different (apart.alone other thread ptr own before)
  · exact absurd (apart.own other ptr own).1 (Nat.not_lt.mpr late)

theorem call (apart : s.Apart grip)
    (moves : (grip thread).Moves s.process g p) :
    ((s.on p).set thread new).Apart (Function.update grip thread g) where
  distinct := by
    rcases moves.pointers with same | ⟨-, distinct, -⟩
    · exact same ▸ apart.distinct
    · exact distinct
  fresh := by
    intro cube member
    exact Nat.lt_of_lt_of_le (apart.live_named moves member) moves.nextPtr
  own := fun _ _ => apart.own_call moves
  alone := by
    intro other third ptr own own'
    by_cases here : other = thread <;> by_cases there : third = thread
    · rw [here, there]
    · rw [here, Function.update_self] at own
      rw [Function.update_of_ne there] at own'
      exact (apart.own_alone moves there own own').elim
    · rw [Function.update_of_ne here] at own
      rw [there, Function.update_self] at own'
      exact (apart.own_alone moves here own' own).elim
    · rw [Function.update_of_ne here] at own
      rw [Function.update_of_ne there] at own'
      exact apart.alone other third ptr own own'
  seen := by
    intro other ptr seen
    have before : ptr < s.process.nextPtr ∧
        ∀ other, (grip other).own ≠ some ptr := by
      by_cases here : other = thread
      · rw [here, Function.update_self] at seen
        rcases moves.seen ptr seen with before | ⟨cube, member, same⟩
        · exact apart.seen thread ptr before
        · refine ⟨same ▸ apart.fresh cube member, ?_⟩
          intro other own
          exact (apart.own other ptr own).2 cube member same
      · rw [Function.update_of_ne here] at seen
        exact apart.seen other ptr seen
    exact ⟨Nat.lt_of_lt_of_le before.1 moves.nextPtr,
      unowned moves before.1 before.2⟩
  locked := by
    intro other ptr held
    have before := apart.locked other ptr held
    exact ⟨Nat.lt_of_lt_of_le before.1 moves.nextPtr,
      unowned moves before.1 before.2⟩

end Apart

namespace Gripped

variable {calm : Prop} {s : Crew} {grip : Nat → Grip} {thread : Nat}
variable {new : Thread}

/-- One thread changes.  The others keep what they hold, and the registry
stays as it is while one of them holds the global lock. -/
theorem change (gripped : s.Gripped calm grip) {g : Grip} {s' : Crew}
    (apart : s'.Apart (Function.update grip thread g))
    (others : ∀ other, other ≠ thread → s'.thread other = s.thread other)
    (foreign : ∀ other, other ≠ thread → ∀ mutex,
      s'.owner mutex = some other ↔ s.owner mutex = some other)
    (registry : ∀ other, other ≠ thread → .cubes ∈ (grip other).held →
      s'.process.pointers = s.process.pointers)
    (mine : ∀ mutex, s'.owner mutex = some thread ↔ mutex ∈ g.held)
    (known : .cubes ∈ g.held → s'.process.pointers = g.known)
    (safe : ∀ part errno script,
      s'.thread thread = .running part errno script →
      Safe calm (part.Leaves calm) script (fun _ => part.Leaves calm) g)
    (rest : ¬(s'.thread thread).Running → g.Free) :
    s'.Gripped calm (Function.update grip thread g) := by
  refine ⟨apart, ?_, ?_, ?_, ?_, ?_⟩
  · intro other part errno script running
    by_cases here : other = thread
    · rw [here] at running ⊢
      rw [Function.update_self]
      exact safe part errno script running
    · rw [others other here] at running
      rw [Function.update_of_ne here]
      exact gripped.safe other part errno script running
  · intro other resting
    by_cases here : other = thread
    · rw [here] at resting ⊢
      rw [Function.update_self]
      exact rest resting
    · rw [others other here] at resting
      rw [Function.update_of_ne here]
      exact gripped.rest other resting
  · intro other mutex held
    by_cases here : other = thread
    · rw [here, Function.update_self] at held
      rw [here]
      exact (mine mutex).mpr held
    · rw [Function.update_of_ne here] at held
      exact (foreign other here mutex).mpr (gripped.owner other mutex held)
  · intro other mutex there held
    by_cases here : other = thread
    · rw [here] at held ⊢
      rw [Function.update_self]
      exact (mine mutex).mp held
    · rw [others other here] at there
      rw [Function.update_of_ne here]
      exact gripped.held other mutex there ((foreign other here mutex).mp held)
  · intro other held
    by_cases here : other = thread
    · rw [here, Function.update_self] at held ⊢
      exact known held
    · rw [Function.update_of_ne here] at held ⊢
      exact (registry other here held).trans (gripped.known other held)

/-- What a thread of the process holds. -/
theorem mine (gripped : s.Gripped calm grip)
    (present : s.thread thread ≠ .gone) (mutex : Lock) :
    s.owner mutex = some thread ↔ mutex ∈ (grip thread).held :=
  ⟨gripped.held thread mutex present, gripped.owner thread mutex⟩

/-- A thread goes on to other code. -/
theorem turn (gripped : s.Gripped calm grip)
    (present : s.thread thread ≠ .gone)
    (safe : ∀ part errno script, new = .running part errno script →
      Safe calm (part.Leaves calm) script (fun _ => part.Leaves calm)
        (grip thread))
    (rest : ¬new.Running → (grip thread).Free) :
    (s.set thread new).Gripped calm grip := by
  have same : Function.update grip thread (grip thread) = grip :=
    Function.update_eq_self thread grip
  have apart : (s.set thread new).Apart
      (Function.update grip thread (grip thread)) := by
    rw [same]
    exact { gripped.toApart with }
  have changed := gripped.change apart (fun _ => set_thread_of_ne)
    (fun _ _ _ => Iff.rfl) (fun _ _ _ => rfl) (gripped.mine present)
    (gripped.known thread) (by simpa using safe) (by simpa using rest)
  rwa [same] at changed

/-- A thread takes or gives back mutexes, and keeps what it has met. -/
theorem regrip (gripped : s.Gripped calm grip) {g : Grip}
    {owner : Lock → Option Nat} (own : g.own = (grip thread).own)
    (seen : g.seen = (grip thread).seen)
    (others : ∀ other, other ≠ thread → ∀ mutex,
      owner mutex = some other ↔ s.owner mutex = some other)
    (mine : ∀ mutex, owner mutex = some thread ↔ mutex ∈ g.held)
    (met : ∀ ptr, .cube ptr ∈ g.held → ptr < s.process.nextPtr ∧
      ∀ other, (grip other).own ≠ some ptr)
    (known : .cubes ∈ g.held → s.process.pointers = g.known)
    (safe : ∀ part errno script, new = .running part errno script →
      Safe calm (part.Leaves calm) script (fun _ => part.Leaves calm) g)
    (rest : ¬new.Running → g.Free) :
    ({ s with owner := owner }.set thread new).Gripped calm
      (Function.update grip thread g) := by
  have owns : ∀ other, (Function.update grip thread g other).own =
      (grip other).own := by
    intro other
    by_cases here : other = thread
    · rw [here, Function.update_self, own]
    · rw [Function.update_of_ne here]
  have sees : ∀ other, (Function.update grip thread g other).seen =
      (grip other).seen := by
    intro other
    by_cases here : other = thread
    · rw [here, Function.update_self, seen]
    · rw [Function.update_of_ne here]
  have apart : ({ s with owner := owner }.set thread new).Apart
      (Function.update grip thread g) := by
    refine ⟨gripped.distinct, gripped.fresh, ?_, ?_, ?_, ?_⟩
    · intro other ptr
      rw [owns]
      exact gripped.own other ptr
    · intro other third ptr
      rw [owns, owns]
      exact gripped.alone other third ptr
    · intro other ptr
      simp only [owns, sees]
      exact gripped.seen other ptr
    · intro other ptr held
      simp only [owns]
      by_cases here : other = thread
      · rw [here] at held
        exact met ptr ((mine _).mp held)
      · exact gripped.locked other ptr ((others other here _).mp held)
  exact gripped.change apart (fun _ => set_thread_of_ne) others
    (fun _ _ _ => rfl) mine known (by simpa using safe) (by simpa using rest)

/-- A thread takes a mutex. -/
theorem lock (gripped : s.Gripped calm grip) {part : Part} {errno : Nat}
    {mutex : Lock} {rest : Script Unit}
    (running : s.thread thread = .running part errno (.lock mutex rest))
    (free : s.owner mutex = none) :
    ∃ grip, ((s.hold mutex (some thread)).set thread
      (.running part errno rest)).Gripped calm grip := by
  have present : s.thread thread ≠ .gone := by simp [running]
  obtain ⟨may, continues⟩ := gripped.safe thread part errno _ running
  let taken := ((grip thread).locked mutex).knows
    (if mutex = .cubes then s.process.pointers else (grip thread).known)
  have same := gripped.mine present
  refine ⟨_, gripped.regrip (g := taken) rfl rfl ?_ ?_ ?_ ?_ ?_ ?_⟩
  · intro other different mutex'
    by_cases here : mutex' = mutex
    · simp [here, free, different.symm]
    · simp [here]
  · intro mutex'
    by_cases here : mutex' = mutex
    · simp [here, taken]
    · simp [here, taken, same]
  · intro ptr held
    rcases Finset.mem_insert.mp held with here | before
    · exact gripped.seen thread ptr (may.met ptr here.symm)
    · exact gripped.locked thread ptr (gripped.owner thread _ before)
  · intro held
    by_cases here : mutex = .cubes
    · simp [taken, here, Grip.knows]
    · rcases Finset.mem_insert.mp held with same | before
      · exact absurd same.symm here
      · simpa [taken, here, Grip.knows] using gripped.known thread before
  · rintro part' errno' script ⟨⟩
    exact continues s.process.pointers
  · exact fun resting => absurd trivial resting

/-- A thread gives back a mutex. -/
theorem unlock (gripped : s.Gripped calm grip) {mutex : Lock}
    (holds : s.owner mutex = some thread)
    (present : s.thread thread ≠ .gone)
    (safe : ∀ part errno script, new = .running part errno script →
      Safe calm (part.Leaves calm) script (fun _ => part.Leaves calm)
        ((grip thread).unlocked mutex))
    (rest : ¬new.Running → ((grip thread).unlocked mutex).Free) :
    ∃ grip, ((s.hold mutex none).set thread new).Gripped calm grip := by
  have same := gripped.mine present
  refine ⟨_, gripped.regrip (g := (grip thread).unlocked mutex) rfl rfl
    ?_ ?_ ?_ ?_ safe rest⟩
  · intro other different mutex'
    by_cases here : mutex' = mutex
    · simp [here, holds, different.symm]
    · simp [here]
  · intro mutex'
    by_cases here : mutex' = mutex
    · simp [here]
    · simp [here, same]
  · intro ptr held
    have before := Finset.mem_of_mem_erase held
    exact gripped.locked thread ptr (gripped.owner thread _ before)
  · intro held
    exact gripped.known thread (Finset.mem_of_mem_erase held)

section Call

variable {g : Grip} {p : Process}

/-- A thread acts on the process. -/
theorem call (gripped : s.Gripped calm grip)
    (present : s.thread thread ≠ .gone)
    (moves : (grip thread).Moves s.process g p)
    (safe : ∀ part errno script, new = .running part errno script →
      Safe calm (part.Leaves calm) script (fun _ => part.Leaves calm) g)
    (running : new.Running) :
    ((s.on p).set thread new).Gripped calm (Function.update grip thread g) := by
  refine gripped.change (gripped.toApart.call moves)
    (fun _ => set_thread_of_ne) (fun _ _ _ => Iff.rfl) ?_ ?_
    (fun held => moves.known (moves.held ▸ held)) (by simpa using safe)
    (fun resting => absurd (by simpa using running) resting)
  · intro other different held
    rcases moves.pointers with same | ⟨mine, -⟩
    · exact same
    · -- the global lock has one holder
      have owned := gripped.owner thread .cubes mine
      rw [gripped.owner other .cubes held] at owned
      exact absurd (Option.some.inj owned) different
  · intro mutex
    rw [moves.held]
    exact gripped.mine present mutex

end Call

section Step

variable {P : PageSize} {act : Act} {s' : Crew}

/-- A thread that has ended its part holds what the part leaves. -/
theorem leaves (gripped : s.Gripped calm grip) {part : Part} {errno : Nat}
    (running : s.thread thread = .running part errno (.done ())) :
    part.Leaves calm (grip thread) :=
  gripped.safe thread part errno _ running

/-- How a thread meets the process. -/
theorem meets (gripped : s.Gripped calm grip) (thread : Nat) :
    (grip thread).Meets s.process :=
  ⟨gripped.known thread, gripped.distinct, gripped.fresh, gripped.own thread⟩

section Actions

variable {errno : Nat} {part : Part} {os : Nat → Reply} {β : Type}
variable {action : Prog β} {rest : β → Script Unit} {w : World}

theorem acts (gripped : s.Gripped calm grip)
    (running : s.thread thread = .running part errno (.call action rest))
    (quiet : calm → (Act.call thread os).Calm) {value : β}
    (ends : action (s.process.enter errno os) = .ok value w) :
    ∃ g, (grip thread).Moves s.process g w.toProcess ∧
      Safe calm (part.Leaves calm) (rest value) (fun _ => part.Leaves calm)
        g := by
  have acts := gripped.safe thread part errno _ running
    (s.process.enter errno os) (gripped.meets thread) quiet
  rwa [Ensures, ends] at acts

theorem fails (gripped : s.Gripped calm grip)
    (running : s.thread thread = .running part errno (.call action rest))
    (quiet : calm → (Act.call thread os).Calm)
    (ends : action (s.process.enter errno os) = .error .thrown w) :
    ∃ g, (grip thread).Moves s.process g w.toProcess ∧
      part.Leaves calm g := by
  have acts := gripped.safe thread part errno _ running
    (s.process.enter errno os) (gripped.meets thread) quiet
  rw [Ensures, ends] at acts
  exact acts rfl

end Actions

/-- The child has one thread, and what the others held stays locked. -/
theorem copy (gripped : s.Gripped calm grip) {pid errno : Nat}
    {part : Part} {script : Script Unit}
    (present : s.thread thread ≠ .gone)
    (safe : Safe calm (part.Leaves calm) script (fun _ => part.Leaves calm)
      (grip thread)) :
    ∃ grip, (s.copy thread pid (.running part errno script)).Gripped calm
      grip := by
  let empty : Grip := ⟨∅, none, [], fun _ => False⟩
  let alone := Function.update (fun _ => empty) thread (grip thread)
  have mine : alone thread = grip thread := by simp [alone]
  have others {other : Nat} (different : other ≠ thread) :
      alone other = empty := by simp [alone, different]
  have owns {other ptr : Nat} (own : (alone other).own = some ptr) :
      other = thread ∧ (grip thread).own = some ptr := by
    by_cases here : other = thread
    · rw [here, mine] at own
      exact ⟨here, own⟩
    · rw [others here] at own
      cases own
  have abandoned {other : Nat} (different : other ≠ thread) :
      (s.copy thread pid (.running part errno script)).thread other =
        (s.thread other).abandon := by
    simp [Crew.copy, different]
  refine ⟨alone, ⟨gripped.distinct, gripped.fresh, ?_, ?_, ?_, ?_⟩,
    ?_, ?_, ?_, ?_, ?_⟩
  · intro other ptr own
    exact gripped.own thread ptr (owns own).2
  · intro other third ptr own own'
    rw [(owns own).1, (owns own').1]
  · intro other ptr seen
    have before : (grip thread).seen ptr := by
      by_cases here : other = thread
      · rwa [here, mine] at seen
      · rw [others here] at seen
        exact seen.elim
    obtain ⟨named, free⟩ := gripped.seen thread ptr before
    exact ⟨named, fun other own => free thread (owns own).2⟩
  · intro other ptr held
    obtain ⟨named, free⟩ := gripped.locked other ptr held
    exact ⟨named, fun other own => free thread (owns own).2⟩
  · intro other part' errno' script' running
    by_cases here : other = thread
    · rw [here] at running ⊢
      simp only [Crew.copy, Function.update_self] at running
      cases running
      rw [mine]
      exact safe
    · rw [abandoned here] at running
      cases there : s.thread other <;> simp [there, Thread.abandon] at running
  · intro other resting
    by_cases here : other = thread
    · refine absurd ?_ resting
      simp [here, Crew.copy, Thread.Running]
    · rw [others here]
      rfl
  · intro other mutex held
    by_cases here : other = thread
    · rw [here, mine] at held
      rw [here]
      exact gripped.owner thread mutex held
    · rw [others here] at held
      cases held
  · intro other mutex there held
    by_cases here : other = thread
    · rw [here] at held
      rw [here, mine]
      exact gripped.held thread mutex present held
    · rw [abandoned here] at there
      -- nobody has called in a thread that is not born
      cases born : s.thread other <;> simp [born, Thread.abandon] at there
      have empty := gripped.rest other (by simp [born, Thread.Running])
      have inside := gripped.held other mutex (by simp [born]) held
      rw [empty] at inside
      cases inside
  · intro other held
    by_cases here : other = thread
    · rw [here, mine] at held ⊢
      exact gripped.known thread held
    · rw [others here] at held
      cases held

/-- Each step keeps the grips together. -/
theorem step (gripped : s.Gripped calm grip) (quiet : calm → act.Calm)
    (tidy : calm ∨ act.Tidy s) (step : Step P s act s') :
    ∃ grip, s'.Gripped calm grip := by
  cases step with
  | @create thread new creates unborn =>
      refine ⟨grip, gripped.turn (by simp [unborn]) nofun fun _ => ?_⟩
      exact gripped.rest new (by simp [unborn, Thread.Running])
  | @start thread errno job idle =>
      have free := gripped.rest thread (by simp [idle, Thread.Running])
      refine ⟨grip, gripped.turn (by simp [idle]) ?_ ?_⟩
      · rintro part errno script ⟨⟩
        exact safe_job job (fun _ short calm => absurd calm short) free
      · exact fun resting => absurd trivial resting
  | lock running free => exact gripped.lock running free
  | @unlock thread errno part mutex rest running holds =>
      refine gripped.unlock holds (by simp [running]) ?_ ?_
      · rintro part errno script ⟨⟩
        exact (gripped.safe thread _ _ _ running).2
      · exact fun resting => absurd trivial resting
  | @sleep thread errno part mutex bed running holds =>
      refine gripped.unlock holds (by simp [running]) nofun fun _ => ?_
      have held : (grip thread).held = {mutex} :=
        gripped.safe thread _ _ _ running
      simp [Grip.Free, held]
  | call running ends =>
      obtain ⟨g, moves, continues⟩ := gripped.acts running quiet ends
      refine ⟨_, gripped.call (by simp [running]) moves ?_ trivial⟩
      rintro part errno script ⟨⟩
      exact continues
  | throw running ends =>
      obtain ⟨g, moves, fails⟩ := gripped.fails running quiet ends
      refine ⟨_, gripped.call (by simp [running]) moves ?_ trivial⟩
      rintro part errno script ⟨⟩
      exact fails
  | @wake thread errno bed error asleep =>
      have free := gripped.rest thread (by simp [asleep, Thread.Running])
      refine ⟨grip, gripped.turn (by simp [asleep]) ?_ ?_⟩
      · rintro part errno script ⟨⟩
        exact (safe_bed bed error free).mono fun _ _ free _ => free
      · exact fun resting => absurd trivial resting
  | @finish thread errno part running ends =>
      refine ⟨grip, gripped.turn (by simp [running]) nofun fun _ => ?_⟩
      have leaves := gripped.leaves running
      cases part with
      | call =>
          rcases tidy with calm | none
          · exact leaves calm
          · refine Finset.eq_empty_of_forall_notMem fun mutex held => ?_
            exact none mutex (gripped.owner thread mutex held)
      | prepare => exact absurd rfl ends
      | parent => exact leaves
      | child => exact leaves
  | @fork thread errno idle =>
      have free := gripped.rest thread (by simp [idle, Thread.Running])
      refine ⟨grip, gripped.turn (by simp [idle]) ?_ ?_⟩
      · rintro part errno script ⟨⟩
        exact safe_prepare free
      · exact fun resting => absurd trivial resting
  | @parent thread errno running =>
      refine ⟨grip, gripped.turn (by simp [running]) ?_ ?_⟩
      · rintro part errno script ⟨⟩
        exact safe_parent (gripped.leaves running)
      · exact fun resting => absurd trivial resting
  | @child thread errno pid running =>
      exact gripped.copy (by simp [running])
        (safe_child (gripped.leaves running))

end Step

end Gripped

/-- Before the first call. -/
theorem Fresh.gripped {calm : Prop} {s : Crew} (fresh : s.Fresh) :
    ∃ grip, s.Gripped calm grip := by
  let empty : Grip := ⟨∅, none, [], fun _ => False⟩
  have distinct : s.process.pointers.Nodup := by
    refine List.Nodup.sublist ?_ fresh.named.cubes_distinct
    exact (List.sublist_append_left _ _).map Cube.ptr
  refine ⟨fun _ => empty, ⟨distinct, ?_, nofun, nofun, nofun, ?_⟩, ?_,
    fun _ _ => rfl, nofun, ?_, nofun⟩
  · intro cube member
    exact fresh.named.fresh cube.ptr (Process.Named.ptr_mem member)
  · intro thread ptr held
    rw [fresh.free] at held
    cases held
  · intro thread part errno script running
    rcases fresh.outside thread with unborn | ⟨errno', idle⟩
    · rw [unborn] at running
      cases running
    · rw [idle] at running
      cases running
  · intro thread mutex _ held
    rw [fresh.free] at held
    cases held

end Crew

end CoralApi
