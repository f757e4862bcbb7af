import Mathlib.Data.Set.Basic
import Mathlib.Order.WellFounded

/-!
# Threads that lock

The code of a thread is a tree: between two steps another thread can come in.
It takes and gives back mutexes, goes to sleep with a mutex that it gives back,
or calls an action on what the threads share.  A circle is a set of threads
that wait for one another.
-/

namespace Threads

section Code

variable {Lock Bed : Type} {Action : Type → Type}

/-- What a thread has still to do. -/
inductive Code (Lock Bed : Type) (Action : Type → Type) (α : Type) :
    Type 1 where
  | done (value : α) : Code Lock Bed Action α
  | lock (mutex : Lock) (rest : Code Lock Bed Action α) :
      Code Lock Bed Action α
  | unlock (mutex : Lock) (rest : Code Lock Bed Action α) :
      Code Lock Bed Action α
  /-- Give back the mutex and sleep.  What follows the wake-up is code of its
  own. -/
  | sleep (mutex : Lock) (bed : Bed) : Code Lock Bed Action α
  | call {β : Type} (action : Action β) (rest : β → Code Lock Bed Action α) :
      Code Lock Bed Action α

namespace Code

variable {α β γ : Type}

/-- Sequencing. -/
protected def bind :
    Code Lock Bed Action α → (α → Code Lock Bed Action β) →
      Code Lock Bed Action β
  | done value, next => next value
  | lock mutex rest, next => lock mutex (rest.bind next)
  | unlock mutex rest, next => unlock mutex (rest.bind next)
  | sleep mutex bed, _ => sleep mutex bed
  | call action rest, next => call action fun value => (rest value).bind next

instance : Monad (Code Lock Bed Action) where
  pure := done
  bind := Code.bind

/-- An action is one step. -/
instance : MonadLift Action (Code Lock Bed Action) where
  monadLift action := call action done

variable {x : Code Lock Bed Action α} {f : α → Code Lock Bed Action β}
variable {mutex : Lock} {bed : Bed}

@[simp] theorem done_bind {value : α} : (done value >>= f) = f value := rfl

@[simp] theorem lock_bind : (lock mutex x >>= f) = lock mutex (x >>= f) := rfl

@[simp] theorem unlock_bind :
    (unlock mutex x >>= f) = unlock mutex (x >>= f) := rfl

@[simp] theorem sleep_bind : (sleep mutex bed >>= f) = sleep mutex bed := rfl

@[simp] theorem call_bind {action : Action γ}
    {rest : γ → Code Lock Bed Action α} :
    (call action rest >>= f) = call action fun value => rest value >>= f := rfl

/-- A return at the end does nothing. -/
@[simp] theorem bind_done : (x >>= done) = x := by
  induction x with
  | done value => rfl
  | lock mutex rest induction => exact congrArg (lock mutex) induction
  | unlock mutex rest induction => exact congrArg (unlock mutex) induction
  | sleep mutex bed => rfl
  | call action rest induction =>
      exact congrArg (call action) (funext induction)

end Code

end Code

section Circles

variable {Thread Lock Rank : Type*} [Preorder Rank] [WellFoundedLT Rank]
variable {waits : Thread → Lock → Prop} {owner : Lock → Option Thread}

/-- Every thread of the set waits for a mutex that a thread of the set
holds. -/
def Circle (waits : Thread → Lock → Prop) (owner : Lock → Option Thread)
    (circle : Set Thread) : Prop :=
  circle.Nonempty ∧ ∀ thread ∈ circle, ∃ mutex holder,
    waits thread mutex ∧ owner mutex = some holder ∧ holder ∈ circle

/-- Where the rank falls from a waiting thread to the waiting holder of its
mutex, no circle is. -/
theorem no_circle (rank : Thread → Rank)
    (falls : ∀ thread mutex holder mutex', waits thread mutex →
      owner mutex = some holder → waits holder mutex' →
      rank holder < rank thread) (circle : Set Thread) :
    ¬Circle waits owner circle := by
  rintro ⟨⟨thread, member⟩, closed⟩
  induction hrank : rank thread using WellFoundedLT.induction
    generalizing thread with
  | ind value induction =>
      obtain ⟨mutex, holder, waiting, held, inside⟩ := closed thread member
      obtain ⟨mutex', _, waiting', -, -⟩ := closed holder inside
      have lower := falls thread mutex holder mutex' waiting held waiting'
      rw [hrank] at lower
      exact induction (rank holder) lower holder inside rfl

end Circles

end Threads
