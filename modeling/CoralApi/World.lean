import CoralApi.Machine
import Mathlib.Data.List.Basic

/-!
# The state of a process that uses the library

`Process` is what the threads of one process share: the objects of `cube.c`
and `rpc.cpp` and the part of the operating system they work on.  `World` adds
what belongs to the calling thread: the locks it holds, `errno`, and the
replies that the operating system, the allocators and gRPC will give to its
next calls.

Objects are named by the moment of their allocation, so a name is never used
twice.  A slice lives in the list of its cube, so `slice->cube` is the cube
whose list holds it.
-/

namespace CoralApi

/-- An error number. -/
abbrev Errno := { error : Nat // 0 < error }

def EPERM : Errno := ⟨1, by decide⟩
def ENOENT : Errno := ⟨2, by decide⟩
def ENOMEM : Errno := ⟨12, by decide⟩
def EACCES : Errno := ⟨13, by decide⟩
def EFAULT : Errno := ⟨14, by decide⟩
def EEXIST : Errno := ⟨17, by decide⟩
def EINVAL : Errno := ⟨22, by decide⟩
def EADDRNOTAVAIL : Errno := ⟨99, by decide⟩
def SIGSEGV : Int := 11

/-- The mutexes of the library. -/
inductive Lock where
  /-- `it` of `cube.c` -/
  | cubes
  /-- `it` of `rpc.cpp` -/
  | queue
  /-- `cube->mutex` -/
  | cube (ptr : Nat)
  /-- `response->mutex` -/
  | response (ptr : Nat)
  deriving DecidableEq

/-- Where a thread sleeps: on the condition of a slice or of a response. -/
inductive Bed where
  | slice (ptr : Nat)
  | response (ptr : Nat)
  deriving DecidableEq

/-- `PROT_READ`, and `PROT_READ | PROT_WRITE`. -/
inductive Prot where
  | read
  | readWrite
  deriving DecidableEq

/-- `slice->page` -/
structure Span where
  offset : Nat
  size : Nat
  deriving DecidableEq

/-- `cube->page` -/
structure Block where
  addr : Nat
  size : Nat
  deriving DecidableEq

/-- `slice_t`.  The version counts in the naturals, and the links in the
integers: neither wraps. -/
structure Slice where
  ptr : Nat
  nlinks : Int
  page : Span
  offset : Nat
  size : Nat
  version : Nat
  deriving DecidableEq

/-- `cube_t`.  The links count in the integers. -/
structure Cube where
  ptr : Nat
  nlinks : Int
  page : Block
  pid : Nat
  slices : List Slice
  id : String
  deriving DecidableEq

/-- A file of the directory tree of `INACCEL_SHM`: the `self` of the process
that made it, its name, and its bytes below its length. -/
structure File where
  dir : String
  id : String
  length : Nat
  bytes : Nat → UInt8

/-- A shared mapping of a file. -/
structure Mapping where
  block : Block
  dir : String
  id : String
  deriving DecidableEq

/-- `inaccel::Array`; `context` is the slice. -/
structure ArrayArg where
  context : Nat
  id : String
  offset : Nat
  size : Nat
  version : Nat
  deriving DecidableEq

/-- `inaccel::Argument`: the two cases of its `oneof`, and neither. -/
inductive Argument where
  | empty
  | array (array : ArrayArg)
  | scalar (bytes : List UInt8)
  deriving DecidableEq

/-- `inaccel::Metadata` -/
structure Metadata where
  self : String
  stamp : Nat
  deriving DecidableEq

/-- `inaccel::Request` -/
structure Request where
  accelerator : String
  arguments : List Argument
  metadata : Option Metadata
  deriving DecidableEq

/-- `grpc::Status` -/
structure Status where
  code : Int
  message : String
  deriving DecidableEq

/-- The status object before any completion. -/
def Status.ok : Status := ⟨0, ""⟩

/-- `struct _inaccel_response`, less the reply message and the call context,
which nothing here reads. -/
structure Response where
  request : Request
  status : Status
  cancelled : Bool
  done : Bool
  deriving DecidableEq

/-- A call handed to gRPC: the tag and the message. -/
structure PendingCall where
  response : Nat
  message : Request
  deriving DecidableEq

/-- What the threads of a process share of `rpc.cpp`. -/
structure Rpc where
  /-- `cq` is not null -/
  cq : Bool
  /-- the threads that run `__waiter` -/
  waiters : Nat
  /-- `atoi(getenv("INACCEL_EXTRA_WAITERS"))`, when it is set -/
  extraWaiters : Option Int
  stamp : Nat
  requests : Nat → Option Request
  responses : Nat → Option Response
  /-- the calls handed to gRPC and not completed -/
  pending : List PendingCall
  /-- log: the responses that were deleted -/
  deleted : List Nat

/-- What the threads of a process share. -/
structure Process extends Rpc where
  pid : Nat
  self : String
  /-- the name of the next object -/
  nextPtr : Nat
  /-- the anonymous mappings of `__alloc`, by the object in them -/
  objects : List Nat
  /-- the initialised mutexes, by their object -/
  mutexes : List Nat
  /-- the registry, `static cube_t **cubes` -/
  cubes : List Cube
  /-- the cubes that left the registry and are not released yet -/
  orphans : List Cube
  files : List File
  /-- the open descriptors, by the file they are open on -/
  fds : List String
  maps : List Mapping
  /-- the protection of a page, by its number -/
  prot : Nat → Prot
  /-- log: the slices whose count `__detach` has lowered -/
  detached : List Nat
  /-- log: the conditions on which `__broadcast` was called -/
  broadcasts : List Bed
  /-- log: the cubes that were released -/
  released : List Nat
  /-- log: the files that `__unlink` was called on -/
  unlinked : List String

/-- The reply to a call of the operating system, of an allocator or of gRPC:
the number or the name it gives, or its error number. -/
inductive Reply where
  | done (value : Nat) (name : String)
  | failed (error : Errno)
  deriving DecidableEq

def Reply.isDone : Reply → Bool
  | .done _ _ => true
  | .failed _ => false

/-- A process as one of its threads meets it in the middle of a call. -/
structure World extends Process where
  held : List Lock
  /-- the thread has unlocked a mutex that it did not hold -/
  misuse : Bool
  errno : Nat
  /-- the replies to the next calls -/
  os : Nat → Reply

/-- Why a call has not returned. -/
inductive Stop where
  /-- a C++ exception -/
  | thrown
  /-- it locks a mutex that it holds already -/
  | blocked
  /-- it sleeps on the condition of an object -/
  | asleep (ptr : Nat)
  /-- it reads an object that was released -/
  | dangling (ptr : Nat)
  deriving DecidableEq

/-- A piece of the library's code. -/
abbrev Prog := EStateM Stop World

namespace Cube

/-- Change the slice at a pointer. -/
def modifySlice (ptr : Nat) (change : Slice → Slice) (cube : Cube) : Cube :=
  { cube with
    slices := cube.slices.map fun slice =>
      if slice.ptr = ptr then change slice else slice }

end Cube

namespace Process

/-- The cubes that are not released. -/
def live (p : Process) : List Cube := p.cubes ++ p.orphans

/-- The slice at a pointer, with its cube. -/
def findSlice (p : Process) (ptr : Nat) : Option (Cube × Slice) :=
  p.live.findSome? fun cube =>
    (cube.slices.find? fun slice => slice.ptr == ptr).map fun slice =>
      (cube, slice)

/-- Change the cube at a pointer. -/
def modifyCube (ptr : Nat) (change : Cube → Cube) (p : Process) : Process :=
  { p with
    cubes := p.cubes.map fun cube =>
      if cube.ptr = ptr then change cube else cube
    orphans := p.orphans.map fun cube =>
      if cube.ptr = ptr then change cube else cube }

/-- A thread of the process starts a call: it holds no lock of the library. -/
def enter (p : Process) (errno : Nat) (os : Nat → Reply) : World :=
  { toProcess := p, held := [], misuse := false, errno := errno, os := os }

end Process

/-- The thread sees another shared state. -/
def World.put (w : World) (p : Process) : World := { w with toProcess := p }

/-- The thread holds these locks, the last one first. -/
def World.holding (w : World) (locks : List Lock) : World :=
  { w with held := locks }

/-- The state after one reply. -/
def World.asked (w : World) : World :=
  { w with os := fun index => w.os (index + 1) }

/-- Ask for the next reply. -/
def ask : Prog Reply := fun w => .ok (w.os 0) w.asked

/-- `errno = error` -/
def setErrno (error : Nat) : Prog Unit := fun w =>
  .ok () { w with errno := error }

def getErrno : Prog Nat := fun w => .ok w.errno w

/-- Change the shared state. -/
def change (update : Process → Process) : Prog Unit := fun w =>
  .ok () (w.put (update w.toProcess))

/-- `pthread_mutex_lock` on a default mutex. -/
def lock (mutex : Lock) : Prog Unit := fun w =>
  if mutex ∈ w.held then .error .blocked w
  else .ok () (w.holding (mutex :: w.held))

/-- `pthread_mutex_unlock` -/
def unlock (mutex : Lock) : Prog Unit := fun w =>
  if mutex ∈ w.held then .ok () (w.holding (w.held.erase mutex))
  else .ok () { w with misuse := true }

/-- `pthread_cond_wait` up to the wake-up: the mutex is released and the
thread sleeps in one step.  What follows the wake-up is a definition of its
own, which starts by taking the mutex again. -/
def sleepOn {α : Type} (cond : Nat) (mutex : Lock) : Prog α := do
  unlock mutex
  throw (.asleep cond)

/-- A call whose failure is only logged, `SYSLOG(...)`. -/
def logged (effect : Process → Process) : Prog Unit := fun w =>
  match w.os 0 with
  | .done _ _ => .ok () (w.asked.put (effect w.toProcess))
  | .failed error => .ok () { w.asked with errno := error }

/-- An allocation of a C++ object, which may throw. -/
def mayThrow : Prog Unit := fun w =>
  match w.os 0 with
  | .done _ _ => .ok () w.asked
  | .failed _ => .error .thrown w.asked

/-- `try { ... } catch (...) { return value; }` -/
def catchThrown {α : Type} (body : Prog α) (value : α) : Prog α := fun w =>
  match body w with
  | .error .thrown w' => .ok value w'
  | result => result

/-- Follow a pointer to a slice. -/
def derefSlice (ptr : Nat) : Prog (Cube × Slice) := fun w =>
  match w.findSlice ptr with
  | some found => .ok found w
  | none => .error (.dangling ptr) w

end CoralApi
