import CoralApi.BlockSpec
import CoralApi.Crew
import Mathlib.Data.Finset.Basic

/-!
# What a thread holds on to

Beside its code, a thread is described by its grip: the mutexes that it holds,
the name that it keeps for a new cube, the registry as it is while the thread
holds the global lock, and the cubes that it has met.  `Safe` says that the
code takes no mutex out of order and gives back what it holds, whatever the
other threads do to the rest.
-/

namespace CoralApi

open Program

structure Grip where
  held : Finset Lock
  own : Option Nat
  known : List Nat
  seen : Nat → Prop

namespace Grip

/-- The order of the mutexes: the one of a cube comes behind the global lock,
behind the one of a response, or first.  Any other comes first. -/
structure MayLock (g : Grip) (mutex : Lock) : Prop where
  order : g.held = ∅ ∨ ∃ ptr, mutex = .cube ptr ∧ mutex ∉ g.held ∧
    (.cubes ∈ g.held ∨ ∃ response, g.held = {.response response})
  met : ∀ ptr, mutex = .cube ptr → g.seen ptr

def locked (g : Grip) (mutex : Lock) : Grip :=
  { g with held := insert mutex g.held }

def unlocked (g : Grip) (mutex : Lock) : Grip :=
  { g with held := g.held.erase mutex }

/-- The registry was read. -/
def knows (g : Grip) (known : List Nat) : Grip := { g with known := known }

def owns (g : Grip) (own : Option Nat) : Grip := { g with own := own }

def sees (g : Grip) (ptr : Nat) : Grip :=
  { g with seen := fun other => other = ptr ∨ g.seen other }

/-- The thread has met the cubes of the registry. -/
def scans (g : Grip) : Grip :=
  { g with seen := fun ptr => ptr ∈ g.known ∨ g.seen ptr }

@[simp] theorem locked_held (g : Grip) (mutex : Lock) :
    (g.locked mutex).held = insert mutex g.held := rfl

@[simp] theorem locked_known (g : Grip) (mutex : Lock) :
    (g.locked mutex).known = g.known := rfl

@[simp] theorem locked_own (g : Grip) (mutex : Lock) :
    (g.locked mutex).own = g.own := rfl

@[simp] theorem unlocked_held (g : Grip) (mutex : Lock) :
    (g.unlocked mutex).held = g.held.erase mutex := rfl

@[simp] theorem knows_held (g : Grip) (known : List Nat) :
    (g.knows known).held = g.held := rfl

@[simp] theorem sees_held (g : Grip) (ptr : Nat) :
    (g.sees ptr).held = g.held := rfl

@[simp] theorem scans_held (g : Grip) : g.scans.held = g.held := rfl

theorem locked_unlocked {g : Grip} {mutex : Lock} (free : mutex ∉ g.held) :
    (g.locked mutex).unlocked mutex = g := by
  simp only [locked, unlocked, Finset.erase_insert free]

/-- How a thread meets the process. -/
structure Meets (g : Grip) (p : Process) : Prop where
  known : .cubes ∈ g.held → p.pointers = g.known
  distinct : p.pointers.Nodup
  fresh : ∀ cube ∈ p.live, cube.ptr < p.nextPtr
  own : ∀ ptr, g.own = some ptr → ptr < p.nextPtr ∧
    ∀ cube ∈ p.live, cube.ptr ≠ ptr

/-- What an action may do: name a new object, register the cube of the name
that the thread keeps, take a cube out, and meet a cube. -/
structure Moves (g : Grip) (p : Process) (g' : Grip) (p' : Process) : Prop where
  held : g'.held = g.held
  known : .cubes ∈ g.held → p'.pointers = g'.known
  nextPtr : p.nextPtr ≤ p'.nextPtr
  own : ∀ ptr, g'.own = some ptr →
    (g.own = some ptr ∧ ∀ cube ∈ p'.live, cube.ptr ≠ ptr) ∨
      p.nextPtr ≤ ptr ∧ ptr < p'.nextPtr
  live : ∀ cube ∈ p'.live, (∃ old ∈ p.live, old.ptr = cube.ptr) ∨
    g.own = some cube.ptr
  pointers : p'.pointers = p.pointers ∨
    .cubes ∈ g.held ∧ p'.pointers.Nodup ∧
      ∀ ptr ∈ p'.pointers, ptr ∈ p.pointers ∨ g.own = some ptr
  seen : ∀ ptr, g'.seen ptr → g.seen ptr ∨
    ∃ cube ∈ p.live, cube.ptr = ptr

end Grip

/-- Every call of the operating system succeeds. -/
def World.Answered (w : World) : Prop := ∀ index, (w.os index).isDone = true

/-- The code keeps to the order of the mutexes and ends in `post`, or by an
exception in `fail`.  In calm, every call of the operating system succeeds. -/
def Safe (calm : Prop) (fail : Grip → Prop) {α : Type} :
    Script α → (α → Grip → Prop) → Grip → Prop
  | .done value, post, g => post value g
  | .lock mutex rest, post, g =>
      g.MayLock mutex ∧ ∀ known, Safe calm fail rest post
        ((g.locked mutex).knows (if mutex = .cubes then known else g.known))
  | .unlock mutex rest, post, g =>
      mutex ∈ g.held ∧ Safe calm fail rest post (g.unlocked mutex)
  | .sleep mutex _, _, g => g.held = {mutex}
  | .call action rest, post, g =>
      ∀ w : World, g.Meets w.toProcess → (calm → w.Answered) →
        Ensures action
          (fun value w' => ∃ g', g.Moves w.toProcess g' w'.toProcess ∧
            Safe calm fail (rest value) post g')
          (fun reason w' => reason = .thrown →
            ∃ g', g.Moves w.toProcess g' w'.toProcess ∧ fail g') w

section Rules

variable {calm : Prop} {fail : Grip → Prop} {α β : Type} {g : Grip}
variable {x : Script α} {f : α → Script β}
variable {post : α → Grip → Prop} {post' : β → Grip → Prop}

theorem Safe.bind (safe : Safe calm fail x post g)
    (rest : ∀ value g', post value g' → Safe calm fail (f value) post' g') :
    Safe calm fail (x >>= f) post' g := by
  induction x generalizing g with
  | done value => exact rest value g safe
  | lock mutex x induction =>
      exact ⟨safe.1, fun known => induction (safe.2 known)⟩
  | unlock mutex x induction => exact ⟨safe.1, induction safe.2⟩
  | sleep mutex bed => exact safe
  | call action x induction =>
      intro w meets answered
      refine (safe w meets answered).mono ?_ fun _ _ => id
      rintro value w' ⟨g', moves, safe⟩
      exact ⟨g', moves, induction value safe⟩

theorem Safe.mono {post₁ : α → Grip → Prop} (safe : Safe calm fail x post g)
    (weaker : ∀ value g', post value g' → post₁ value g') :
    Safe calm fail x post₁ g := by
  have same : (x >>= fun value => Threads.Code.done value) = x :=
    Threads.Code.bind_done
  rw [← same]
  exact safe.bind weaker

theorem safe_lock {mutex : Lock} {next : Unit → Script β}
    (may : g.MayLock mutex)
    (rest : ∀ known, Safe calm fail (next ()) post'
      ((g.locked mutex).knows (if mutex = .cubes then known else g.known))) :
    Safe calm fail (Stepwise.lock mutex >>= next) post' g :=
  ⟨may, rest⟩

theorem safe_unlock {mutex : Lock} {next : Unit → Script β}
    (held : mutex ∈ g.held)
    (rest : Safe calm fail (next ()) post' (g.unlocked mutex)) :
    Safe calm fail (Stepwise.unlock mutex >>= next) post' g :=
  ⟨held, rest⟩

theorem safe_call {action : Prog α}
    (acts : ∀ w : World, g.Meets w.toProcess → (calm → w.Answered) →
      Ensures action
        (fun value w' => ∃ g', g.Moves w.toProcess g' w'.toProcess ∧
          Safe calm fail (f value) post' g')
        (fun reason w' => reason = .thrown →
          ∃ g', g.Moves w.toProcess g' w'.toProcess ∧ fail g') w) :
    Safe calm fail ((action : Script α) >>= f) post' g :=
  acts

end Rules

/-- No cube is new, and the registry is the same. -/
structure Process.Steady (p p' : Process) : Prop where
  pointers : p'.pointers = p.pointers
  live : ∀ cube ∈ p'.live, ∃ old ∈ p.live, old.ptr = cube.ptr
  nextPtr : p.nextPtr ≤ p'.nextPtr

namespace Process.Steady

variable {p p' p'' : Process}

theorem refl (p : Process) : p.Steady p :=
  ⟨rfl, fun cube member => ⟨cube, member, rfl⟩, Nat.le_refl _⟩

theorem trans (first : p.Steady p') (second : p'.Steady p'') :
    p.Steady p'' where
  pointers := second.pointers.trans first.pointers
  live := by
    intro cube member
    obtain ⟨old, member', same⟩ := second.live cube member
    obtain ⟨older, member'', same'⟩ := first.live old member'
    exact ⟨older, member'', same'.trans same⟩
  nextPtr := Nat.le_trans first.nextPtr second.nextPtr

theorem of_cubes (cubes : p'.cubes = p.cubes) (orphans : p'.orphans = p.orphans)
    (nextPtr : p.nextPtr ≤ p'.nextPtr) : p.Steady p' := by
  refine ⟨congrArg (·.map Cube.ptr) cubes, ?_, nextPtr⟩
  intro cube member
  refine ⟨cube, ?_, rfl⟩
  rwa [Process.live, cubes, orphans] at member

/-- A change inside of the cubes. -/
theorem of_modifyCube {ptr : Nat} {change : Cube → Cube}
    (keeps : ∀ cube, (change cube).ptr = cube.ptr) :
    p.Steady (p.modifyCube ptr change) where
  pointers := by
    simp only [Process.pointers, modifyCube, List.map_map]
    apply List.map_congr_left
    intro cube _
    simp only [Function.comp]
    split
    · exact keeps cube
    · rfl
  live := by
    intro cube member
    rw [live_modifyCube] at member
    obtain ⟨old, member', same⟩ := List.mem_map.mp member
    refine ⟨old, member', ?_⟩
    rw [← same]
    split
    · exact (keeps old).symm
    · rfl
  nextPtr := Nat.le_refl _

end Process.Steady

/-- The action leaves the cubes where they are, and throws no exception. -/
def Tame {α : Type} (action : Prog α) : Prop :=
  ∀ w : World, Ensures action (fun _ w' => w.Steady w'.toProcess)
    (fun reason _ => reason ≠ .thrown) w

/-- The action leaves the cubes where they are, and throws exceptions when a
call fails. -/
def Throws {α : Type} (action : Prog α) : Prop :=
  ∀ w : World, Ensures action (fun _ w' => w.Steady w'.toProcess)
    (fun reason w' => reason = .thrown →
      w.Steady w'.toProcess ∧ ¬w.Answered) w

section Tame

variable {calm : Prop} {fail : Grip → Prop} {α β : Type} {g : Grip}
variable {action : Prog α} {post : β → Grip → Prop}

/-- A thread takes no notice of a steady stretch. -/
theorem Process.Steady.moves {p p' : Process} (steady : p.Steady p')
    (meets : g.Meets p) : g.Moves p g p' where
  held := rfl
  known := fun held => steady.pointers.trans (meets.known held)
  nextPtr := steady.nextPtr
  own := by
    intro ptr own
    refine .inl ⟨own, ?_⟩
    intro cube member same
    obtain ⟨old, member', same'⟩ := steady.live cube member
    exact (meets.own ptr own).2 old member' (same'.trans same)
  live := fun cube member => .inl (steady.live cube member)
  pointers := .inl steady.pointers
  seen := fun _ => .inl

theorem Tame.then {next : α → Script β} (tame : Tame action)
    (rest : ∀ value, Safe calm fail (next value) post g) :
    Safe calm fail ((action : Script α) >>= next) post g := by
  apply safe_call
  intro w meets _
  refine (tame w).mono ?_ ?_
  · exact fun value w' steady => ⟨g, steady.moves meets, rest value⟩
  · exact fun reason w' quiet thrown => absurd thrown quiet

/-- A tame action at the end. -/
theorem Tame.last {post : α → Grip → Prop} (tame : Tame action)
    (rest : ∀ value, post value g) :
    Safe calm fail (action : Script α) post g := by
  have next : Safe calm fail ((action : Script α) >>= .done) post g :=
    tame.then rest
  exact next

theorem Throws.then {next : α → Script β} (throws : Throws action)
    (failing : ¬calm → fail g)
    (rest : ∀ value, Safe calm fail (next value) post g) :
    Safe calm fail ((action : Script α) >>= next) post g := by
  apply safe_call
  intro w meets answered
  refine (throws w).mono ?_ ?_
  · exact fun value w' steady => ⟨g, steady.moves meets, rest value⟩
  · intro reason w' ends thrown
    obtain ⟨steady, short⟩ := ends thrown
    exact ⟨g, steady.moves meets, failing (mt answered short)⟩

theorem Tame.bind {action : Prog α} {next : α → Prog β} (first : Tame action)
    (rest : ∀ value, Tame (next value)) : Tame (action >>= next) := by
  intro w
  refine ensures_bind.mpr ((first w).mono ?_ fun _ _ => id)
  intro value w' steady
  exact (rest value w').mono (fun _ _ => steady.trans) fun _ _ => id

theorem tame_pure (value : α) : Tame (pure value) := fun w => .refl w.toProcess

theorem QuietCall.tame (quiet : QuietCall action) : Tame action := by
  intro w
  refine (quiet w).mono ?_ fun _ _ => False.elim
  exact fun _ w' same => .of_cubes same.cubes same.orphans same.nextPtr

theorem tame_change {update : Process → Process}
    (steady : ∀ p : Process, p.Steady (update p)) : Tame (change update) :=
  fun w => steady w.toProcess

theorem tame_logged {effect : Process → Process}
    (steady : ∀ p : Process, p.Steady (effect p)) : Tame (logged effect) := by
  intro w
  simp only [logged, Ensures]
  cases w.os 0 with
  | done => exact steady w.toProcess
  | failed => exact .refl w.toProcess

theorem tame_process : Tame Utils.process := fun w => .refl w.toProcess

end Tame

end CoralApi
