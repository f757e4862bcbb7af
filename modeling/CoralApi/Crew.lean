import CoralApi.Names
import CoralApi.Script
import CoralApi.Library.Transition
import Mathlib.Logic.Function.Basic

/-!
# The threads of a process

Any number of threads run the code of the library, one step at a time and in
any order.  A fork runs `__prepare` and copies the process; from there a run
follows the parent or the child.  In the child, the other threads exist no
more, but a mutex that one of them held stays locked.
-/

namespace CoralApi

/-- What a running thread is in. -/
inductive Part where
  | call
  /-- `__prepare` -/
  | prepare
  /-- `__parent`, in the process that forks -/
  | parent
  /-- the handlers of the child -/
  | child
  deriving DecidableEq

inductive Thread where
  /-- not created yet -/
  | unborn
  /-- a thread of the parent alone -/
  | gone
  /-- outside of the library -/
  | idle (errno : Nat)
  | running (part : Part) (errno : Nat) (script : Script Unit)
  | asleep (errno : Nat) (bed : Bed)

/-- The threads, and who holds the mutexes. -/
structure Crew where
  process : Process
  owner : Lock → Option Nat
  thread : Nat → Thread

namespace Thread

/-- A thread may create another one: the child of a fork has to run its
handlers first. -/
def Creates : Thread → Prop
  | idle _ => True
  | running .call _ _ => True
  | _ => False

/-- What is left of another thread in the child. -/
def abandon : Thread → Thread
  | unborn => unborn
  | _ => gone

end Thread

namespace Crew

def set (s : Crew) (thread : Nat) (new : Thread) : Crew :=
  { s with thread := Function.update s.thread thread new }

def hold (s : Crew) (mutex : Lock) (holder : Option Nat) : Crew :=
  { s with owner := Function.update s.owner mutex holder }

def on (s : Crew) (p : Process) : Crew := { s with process := p }

/-- The memory of the child, and its only thread. -/
def copy (s : Crew) (thread pid : Nat) (new : Thread) : Crew where
  process := s.process.copy pid
  owner := s.owner
  thread := Function.update (fun other => (s.thread other).abandon) thread new

/-- What the threads do. -/
inductive Act where
  | create (thread new : Nat)
  | start (thread : Nat) (job : Job)
  /-- take or give back a mutex -/
  | turn (thread : Nat)
  /-- an action, with the replies that it gets -/
  | call (thread : Nat) (os : Nat → Reply)
  | wake (thread : Nat) (error : Option Errno)
  | finish (thread : Nat)
  | fork (thread : Nat)
  /-- `fork` returns in the parent -/
  | parent (thread : Nat)
  /-- `fork` returns in the child -/
  | child (thread pid : Nat)

/-- One step of one thread.  There is none that uses an object after its
deletion, and none past a mutex of another thread. -/
inductive Step (P : PageSize) (s : Crew) : Act → Crew → Prop where
  | create {thread new : Nat} :
      (s.thread thread).Creates → s.thread new = .unborn →
      Step P s (.create thread new) (s.set new (.idle 0))
  | start {thread errno : Nat} {job : Job} :
      s.thread thread = .idle errno →
      Step P s (.start thread job)
        (s.set thread (.running .call errno (job.script P)))
  | lock {thread errno : Nat} {part : Part} {mutex : Lock}
      {rest : Script Unit} :
      s.thread thread = .running part errno (.lock mutex rest) →
      s.owner mutex = none →
      Step P s (.turn thread)
        ((s.hold mutex (some thread)).set thread (.running part errno rest))
  | unlock {thread errno : Nat} {part : Part} {mutex : Lock}
      {rest : Script Unit} :
      s.thread thread = .running part errno (.unlock mutex rest) →
      s.owner mutex = some thread →
      Step P s (.turn thread)
        ((s.hold mutex none).set thread (.running part errno rest))
  | sleep {thread errno : Nat} {part : Part} {mutex : Lock} {bed : Bed} :
      s.thread thread = .running part errno (.sleep mutex bed) →
      s.owner mutex = some thread →
      Step P s (.turn thread)
        ((s.hold mutex none).set thread (.asleep errno bed))
  | call {thread errno : Nat} {part : Part} {os : Nat → Reply} {β : Type}
      {action : Prog β} {rest : β → Script Unit} {value : β} {w : World} :
      s.thread thread = .running part errno (.call action rest) →
      action (s.process.enter errno os) = .ok value w →
      Step P s (.call thread os)
        ((s.on w.toProcess).set thread (.running part w.errno (rest value)))
  | throw {thread errno : Nat} {part : Part} {os : Nat → Reply} {β : Type}
      {action : Prog β} {rest : β → Script Unit} {w : World} :
      s.thread thread = .running part errno (.call action rest) →
      action (s.process.enter errno os) = .error .thrown w →
      Step P s (.call thread os)
        ((s.on w.toProcess).set thread (.running part w.errno (.done ())))
  | wake {thread errno : Nat} {bed : Bed} {error : Option Errno} :
      s.thread thread = .asleep errno bed →
      Step P s (.wake thread error)
        (s.set thread (.running .call errno (bed.script error)))
  | finish {thread errno : Nat} {part : Part} :
      s.thread thread = .running part errno (.done ()) → part ≠ .prepare →
      Step P s (.finish thread) (s.set thread (.idle errno))
  | fork {thread errno : Nat} :
      s.thread thread = .idle errno →
      Step P s (.fork thread)
        (s.set thread (.running .prepare errno Stepwise.prepare))
  | parent {thread errno : Nat} :
      s.thread thread = .running .prepare errno (.done ()) →
      Step P s (.parent thread)
        (s.set thread (.running .parent errno Stepwise.parent))
  | child {thread errno pid : Nat} :
      s.thread thread = .running .prepare errno (.done ()) →
      Step P s (.child thread pid)
        (s.copy thread pid (.running .child errno (Stepwise.child P)))

/-- A thread waits for a mutex. -/
def Waits (s : Crew) (thread : Nat) (mutex : Lock) : Prop :=
  (∃ part errno rest,
    s.thread thread = .running part errno (.lock mutex rest)) ∧
  s.owner mutex ≠ none

/-- No thread has a call at work. -/
structure Fresh (s : Crew) : Prop where
  named : s.process.Named
  free : ∀ mutex, s.owner mutex = none
  outside : ∀ thread, s.thread thread = .unborn ∨
    ∃ errno, s.thread thread = .idle errno

end Crew

end CoralApi
