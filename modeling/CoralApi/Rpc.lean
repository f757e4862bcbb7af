import CoralApi.Cube

/-!
# Requests, responses and submission

The functions of `rpc.cpp`.  Calls of protobuf and gRPC that allocate are
`mayThrow`.  A function whose critical section and whose end the scheduler can
separate is split at that point: the section says what is left to do, and the
function is the composition.
-/

namespace CoralApi

/-- `request->grpc` -/
def derefRequest (ptr : Nat) : Prog Request := fun w =>
  match w.requests ptr with
  | some request => .ok request w
  | none => .error (.dangling ptr) w

/-- Follow a pointer to a response. -/
def derefResponse (ptr : Nat) : Prog Response := fun w =>
  match w.responses ptr with
  | some response => .ok response w
  | none => .error (.dangling ptr) w

def Process.setRequest (ptr : Nat) (request : Request) (p : Process) :
    Process :=
  { p with requests := Function.update p.requests ptr (some request) }

def Process.setResponse (ptr : Nat) (response : Response) (p : Process) :
    Process :=
  { p with responses := Function.update p.responses ptr (some response) }

/-- `inaccel_request_create`: the request, or its accelerator, may not fit into
the memory. -/
def inaccelRequestCreate (accelerator : Option String) :
    Prog (Option Nat) := do
  match accelerator with
  | none => do
      setErrno EINVAL
      return none
  | some accelerator =>
      match ← ask with
      | .failed _ => return none
      | .done _ _ =>
          match ← ask with
          | .failed _ => return none
          | .done _ _ => do
              let w ← get
              change fun p =>
                { p.setRequest p.nextPtr ⟨accelerator, [], none⟩ with
                  nextPtr := p.nextPtr + 1 }
              return some w.nextPtr

/-- `while (argument_size() <= index) add_argument()`, at the size of the
list. -/
def padArguments (index : Nat) (arguments : List Argument) : List Argument :=
  arguments ++ List.replicate (index + 1 - arguments.length) .empty

/-- `set_context(...)`: the other fields of an array that is there already
stay. -/
def Argument.setContext (context : Nat) : Argument → Argument
  | .array slot => .array { slot with context := context }
  | _ => .array ⟨context, "", 0, 0, 0⟩

/-- The `oneof` of the slot is at `array`. -/
def Argument.isArray : Argument → Bool
  | .array _ => true
  | _ => false

/-- The `oneof` of the slot is at `scalar`. -/
def Argument.isScalar : Argument → Bool
  | .scalar _ => true
  | _ => false

/-- `add_argument()`, in each of so many turns.  The slots of the turns before
stay when one of them throws. -/
def addArguments (request : Nat) : Nat → Prog Unit
  | 0 => return ()
  | turns + 1 => do
      mayThrow
      let grpc ← derefRequest request
      change (Process.setRequest request
        { grpc with arguments := grpc.arguments ++ [.empty] })
      addArguments request turns

/-- Write to the slot of an index. -/
def modifyArgument (request index : Nat) (update : Argument → Argument) :
    Prog Unit := do
  let grpc ← derefRequest request
  change (Process.setRequest request
    { grpc with arguments := grpc.arguments.modify index update })

/-- `mutable_array()` and `mutable_scalar()`: the `oneof` leaves its other case
before the message of the new one is allocated. -/
def switchArgument (request index : Nat) (isCase : Argument → Bool)
    (blank : Argument) : Prog Unit := do
  let grpc ← derefRequest request
  if grpc.arguments[index]?.any isCase then return ()
  else do
    modifyArgument request index fun _ => .empty
    mayThrow
    modifyArgument request index fun _ => blank

/-- `mutable_arguments()`, the loop and `mutable_argument(index)`, up to the
case of the `oneof`. -/
def reachArgument (request index : Nat) (isCase : Argument → Bool)
    (blank : Argument) : Prog Unit := do
  let grpc ← derefRequest request
  mayThrow
  addArguments request (index + 1 - grpc.arguments.length)
  switchArgument request index isCase blank

/-- The `try` block of `inaccel_request_arg_array`. -/
def putArray (request slice index : Nat) : Prog Int := do
  reachArgument request index Argument.isArray (.array ⟨0, "", 0, 0, 0⟩)
  modifyArgument request index (.setContext slice)
  return 0

/-- The `try` block of `inaccel_request_arg_scalar`. -/
def putScalar (request : Nat) (value : List UInt8) (index : Nat) :
    Prog Int := do
  reachArgument request index Argument.isScalar (.scalar [])
  -- `set_bytes` allocates
  mayThrow
  modifyArgument request index fun _ => .scalar value
  return 0

/-- `inaccel_request_arg_array` -/
def inaccelRequestArgArray (P : PageSize) (request size value index : Nat) :
    Prog Int := do
  if request = 0 ∨ size = 0 then do
    setErrno EINVAL
    return -1
  else
    match ← slice P value size with
    | none => return -1
    | some slice => catchThrown (putArray request slice index) (-1)

/-- `inaccel_request_arg_scalar` -/
def inaccelRequestArgScalar (request : Nat) (value : List UInt8)
    (index : Nat) : Prog Int := do
  if request = 0 ∨ value.length = 0 then do
    setErrno EINVAL
    return -1
  else catchThrown (putScalar request value index) (-1)

/-- `inaccel_response_create`, past its two initialisations. -/
def inaccelResponseCreate : Prog (Option Nat) := do
  match ← ask with
  | .failed _ => return none
  | .done _ _ => do
      let w ← get
      if (← Utils.initCond) ≠ 0 then return none
      else if (← Utils.initMutex w.nextPtr) ≠ 0 then return none
      else do
        change fun p =>
          { p.setResponse p.nextPtr
              ⟨⟨"", [], none⟩, Status.ok, false, false⟩ with
            nextPtr := p.nextPtr + 1 }
        return some w.nextPtr

/-- The loop of `inaccel_submit` over the arguments from `index` on: every
array is attached and described.  It returns false at the first `__attach`
that fails. -/
def attachArguments (P : PageSize) (request : Nat) :
    Nat → List Argument → Prog Bool
  | _, [] => return true
  | index, .array array :: arguments => do
      if (← attach P array.context) ≠ 0 then return false
      else do
        -- `set_id` allocates
        mayThrow
        let (cube, slice) ← derefSlice array.context
        let grpc ← derefRequest request
        change (Process.setRequest request
          { grpc with
            arguments := grpc.arguments.set index (.array
              { array with
                id := cube.id
                offset := slice.offset
                size := slice.size
                version := slice.version }) })
        attachArguments P request (index + 1) arguments
  | index, _ :: arguments => attachArguments P request (index + 1) arguments

/-- Start waiters until one fails, and return its error number. -/
def startWaiters : Nat → Prog Nat
  | 0 => return 0
  | count + 1 => do
      let error ← Utils.daemon
      if error ≠ 0 then return error
      else startWaiters count

/-- The body of `if (!cq)`: the extra waiters come first, then one more. -/
def openQueue : Prog Nat := do
  mayThrow
  change fun p => { p with cq := true }
  let w ← get
  let error ← startWaiters ((w.extraWaiters.getD 0).toNat)
  if error ≠ 0 then return error
  else Utils.daemon

/-- The critical section of `inaccel_submit`. -/
def submitQueue : Prog Bool := do
  lock .queue
  let w ← get
  if w.cq then do
    unlock .queue
    return true
  else if (← openQueue) ≠ 0 then do
    let errsv ← getErrno
    unlock .queue
    setErrno errsv
    return false
  else do
    unlock .queue
    return true

/-- `response->request = request->grpc` and the metadata of the request. -/
def stampRequest (request response : Nat) : Prog Unit := do
  mayThrow
  let grpc ← derefRequest request
  let r ← derefResponse response
  change (Process.setResponse response { r with request := grpc })
  mayThrow
  change fun p =>
    { p.setRequest request
        { grpc with metadata := some ⟨p.self, p.stamp⟩ } with
      stamp := p.stamp + 1 }

/-- `AsyncServe(...)->Finish(...)` on a new stub. -/
def handOver (request response : Nat) : Prog Unit := do
  mayThrow
  let message ← derefRequest request
  change fun p => { p with pending := p.pending ++ [⟨response, message⟩] }

/-- What `inaccel_submit` does after the loop. -/
def submitAttached (request response : Nat) : Prog Int := do
  stampRequest request response
  if ← submitQueue then do
    handOver request response
    return 0
  else return -1

/-- The `try` block of `inaccel_submit`. -/
def submitBody (P : PageSize) (request response : Nat) : Prog Int := do
  mayThrow
  let grpc ← derefRequest request
  if ← attachArguments P request 0 grpc.arguments then
    submitAttached request response
  else return -1

/-- `inaccel_submit` -/
def inaccelSubmit (P : PageSize) (request response : Nat) : Prog Int := do
  if request = 0 ∨ response = 0 then do
    setErrno EINVAL
    return -1
  else catchThrown (submitBody P request response) (-1)

/-- The loop of `__waiter` over the arguments of the response. -/
def detachArguments : List Argument → Prog Unit
  | [] => return ()
  | .array array :: arguments => do
      let _ ← detach array.context
      detachArguments arguments
  | _ :: arguments => detachArguments arguments

/-- `delete response`, with its mutex and its condition. -/
def deleteResponse (response : Nat) : Prog Unit := do
  let _ ← derefResponse response
  Utils.destroyMutex response
  change fun p =>
    { p with
      responses := Function.update p.responses response none
      deleted := response :: p.deleted }

/-- The completion queue returns a call: gRPC has written its status. -/
def next (response : Nat) (status : Status) : Prog Unit := do
  let r ← derefResponse response
  change fun p =>
    { p.setResponse response { r with status := status } with
      pending := p.pending.eraseP fun call => call.response == response }

/-- The part of the critical section of `__waiter` after the loop; it returns
whether the response is to be deleted. -/
def settle (response : Nat) : Prog Bool := do
  let r ← derefResponse response
  if r.cancelled then do
    unlock (.response response)
    return true
  else do
    change (Process.setResponse response { r with done := true })
    Utils.broadcast (.response response)
    unlock (.response response)
    return false

/-- The critical section of `__waiter`. -/
def waiterSection (response : Nat) : Prog Bool := do
  let r ← derefResponse response
  lock (.response response)
  detachArguments r.request.arguments
  settle response

/-- What `__waiter` does with a call that the queue returns. -/
def waiter (response : Nat) : Prog Unit := do
  if ← waiterSection response then deleteResponse response
  else return ()

/-- The critical section of `inaccel_response_release`; it returns whether the
response is to be deleted. -/
def releaseSection (response : Nat) : Prog Bool := do
  let r ← derefResponse response
  lock (.response response)
  if r.done then do
    unlock (.response response)
    return true
  else do
    change (Process.setResponse response { r with cancelled := true })
    Utils.broadcast (.response response)
    unlock (.response response)
    return false

/-- `inaccel_response_release` -/
def inaccelResponseRelease (response : Nat) : Prog Unit := do
  if response = 0 then return ()
  else if ← releaseSection response then deleteResponse response
  else return ()

/-- The loop of the waits, with the mutex held: one turn up to the sleep. -/
def waitLoop (response : Nat) : Prog Unit := do
  let r ← derefResponse response
  if r.cancelled || r.done then unlock (.response response)
  else sleepOn response (.response response)

/-- The critical section of the waits, up to the sleep. -/
def waitSection (response : Nat) : Prog Unit := do
  let _ ← derefResponse response
  lock (.response response)
  waitLoop response

/-- The waits after a sleep: the wait takes the mutex again and returns an
error, or the loop goes on.  It returns whether the loop has ended well. -/
def waitWoken (response : Nat) (error : Option Errno) : Prog Bool := do
  let _ ← derefResponse response
  lock (.response response)
  match error with
  | some _ => do
      let errsv ← getErrno
      unlock (.response response)
      setErrno errsv
      return false
  | none => do
      waitLoop response
      return true

/-- `response->status.error_code()` -/
def waitStatus (response : Nat) : Prog Int := do
  let r ← derefResponse response
  return r.status.code

/-- `inaccel_response_wait` and, past its clock, `inaccel_response_wait_for`,
up to the sleep. -/
def inaccelResponseWait (response : Nat) : Prog Int := do
  if response = 0 then do
    setErrno EINVAL
    return -1
  else do
    waitSection response
    waitStatus response

end CoralApi
