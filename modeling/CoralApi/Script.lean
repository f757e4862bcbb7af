import CoralApi.Fork
import CoralApi.Library.Threads

/-!
# The code of the threads

The functions of `cube.c`, `rpc.cpp` and the handlers of a fork, step by step:
between two steps other threads run.  What a function reads behind a lock it
reads there, and not before.  An exception ends the call, whose value is -1
then.
-/

namespace CoralApi

abbrev Script (α : Type) := Threads.Code Lock Bed Prog α

/-- Follow a pointer to a cube. -/
def derefCube (ptr : Nat) : Prog Cube := fun w =>
  match w.live.find? fun cube => cube.ptr == ptr with
  | some cube => .ok cube w
  | none => .error (.dangling ptr) w

/-- The pointers in the registry. -/
def Process.pointers (p : Process) : List Nat := p.cubes.map Cube.ptr

def pointers : Prog (List Nat) := fun w => .ok w.pointers w

namespace Stepwise

def lock (mutex : Lock) : Script Unit := .lock mutex (.done ())

def unlock (mutex : Lock) : Script Unit := .unlock mutex (.done ())

/-- `pthread_cond_wait`, up to the wake-up. -/
def sleepOn {α : Type} (bed : Bed) (mutex : Lock) : Script α :=
  .sleep mutex bed

/-- The loop over the registry. -/
def scan (found : Cube → Bool) : List Nat → Script (Option Cube)
  | [] => return none
  | ptr :: ptrs => do
      lock (.cube ptr)
      let cube ← derefCube ptr
      if found cube then return some cube
      else do
        unlock (.cube ptr)
        scan found ptrs

/-- `__access`, past the hand-over from the global lock. -/
def accessCube (P : PageSize) (addr : Nat) (cube : Cube) : Script Int := do
  if cube.pid ≠ (← Utils.process) then do
    unlock (.cube cube.ptr)
    setErrno EACCES
    return -1
  else if cube.slices.any (·.refuses cube.page.addr addr) then do
    unlock (.cube cube.ptr)
    setErrno EPERM
    return -1
  else
    match cube.slices.find? (·.blocks cube.page.addr addr) with
    | some slice => sleepOn (.slice slice.ptr) (.cube cube.ptr)
    | none => do
        match ← unprotectSlices P cube addr cube.slices with
        | some errsv => do
            unlock (.cube cube.ptr)
            setErrno errsv
            return -1
        | none => do
            unlock (.cube cube.ptr)
            return 0

/-- `__access`, up to the moment it sleeps. -/
def access (P : PageSize) (addr : Nat) : Script Int := do
  lock .cubes
  match ← scan (·.contains addr) (← pointers) with
  | none => do
      unlock .cubes
      return SIGSEGV
  | some cube => do
      unlock .cubes
      accessCube P addr cube

/-- `__access` after it has slept on a slice. -/
def accessWoken (slice : Nat) (error : Option Errno) : Script Int := do
  let (cube, _) ← derefSlice slice
  lock (.cube cube.ptr)
  match error with
  | some _ => do
      let errsv ← getErrno
      unlock (.cube cube.ptr)
      setErrno errsv
      return -1
  | none => do
      let (_, s) ← derefSlice slice
      if s.nlinks ≠ 0 then sleepOn (.slice slice) (.cube cube.ptr)
      else do
        unlock (.cube cube.ptr)
        return 0

/-- `__attach` -/
def attach (P : PageSize) (slice : Nat) : Script Int := do
  let (cube, s) ← derefSlice slice
  if cube.pid ≠ (← Utils.process) then do
    setErrno EACCES
    return -1
  else do
    lock (.cube cube.ptr)
    let cube ← derefCube cube.ptr
    if (← Utils.protect P (wadd cube.page.addr s.page.offset) s.page.size) ≠ 0
    then do
      let errsv ← getErrno
      unlock (.cube cube.ptr)
      setErrno errsv
      return -1
    else do
      change (Process.link cube.ptr slice)
      unlock (.cube cube.ptr)
      return 0

/-- The end of `__detach` and of `inaccel_free` for a cube without links. -/
def releaseCube (cube : Cube) : Script Unit := do
  freeSlices cube.slices
  unlock (.cube cube.ptr)
  Utils.destroyMutex cube.ptr
  change fun p =>
    { p with
      orphans := p.orphans.filter fun other => other.ptr ≠ cube.ptr
      released := cube.ptr :: p.released }
  Utils.free cube.ptr

/-- `__detach` -/
def detach (slice : Nat) : Script Int := do
  let (cube, _) ← derefSlice slice
  if cube.pid ≠ (← Utils.process) then do
    setErrno EACCES
    return -1
  else do
    lock (.cube cube.ptr)
    let cube ← derefCube cube.ptr
    change fun p =>
      { p.modifyCube cube.ptr fun cube =>
          { cube.modifySlice slice fun slice =>
              { slice with nlinks := slice.nlinks - 1 } with
            nlinks := cube.nlinks - 1 } with
        detached := slice :: p.detached }
    Utils.broadcast (.slice slice)
    if cube.nlinks = 0 then do
      Self.unlink cube.id
      releaseCube cube
      return 0
    else do
      unlock (.cube cube.ptr)
      return 0

/-- `__slice`, past the hand-over from the global lock. -/
def sliceCube (P : PageSize) (addr size : Nat) (cube : Cube) :
    Script (Option Nat) := do
  if cube.pid ≠ (← Utils.process) then do
    unlock (.cube cube.ptr)
    setErrno EACCES
    return none
  else
    match cube.findRange addr size with
    | some slice => do
        unlock (.cube cube.ptr)
        return some slice.ptr
    | none => do
        match ← Utils.alloc with
        | none => return none
        | some ptr => do
            if (← Utils.initCond) ≠ 0 then do
              let errsv ← getErrno
              Utils.free ptr
              setErrno errsv
              return none
            else if (← Collection.setSlice cube.ptr
                (newSlice P cube addr size ptr)) ≠ 0 then do
              let errsv ← getErrno
              unlock (.cube cube.ptr)
              Utils.free ptr
              setErrno errsv
              return none
            else do
              unlock (.cube cube.ptr)
              return some ptr

/-- `__slice` -/
def slice (P : PageSize) (addr size : Nat) : Script (Option Nat) := do
  lock .cubes
  match ← scan (·.containsRange addr size) (← pointers) with
  | none => do
      unlock .cubes
      setErrno EADDRNOTAVAIL
      return none
  | some cube => do
      unlock .cubes
      sliceCube P addr size cube

/-- `inaccel_alloc` from its lock on. -/
def publishCube (cube : Cube) : Script (Option Nat) := do
  lock .cubes
  if (← Collection.setCube cube) ≠ 0 then do
    let errsv ← getErrno
    unlock .cubes
    Utils.unmap cube.page.addr cube.page.size
    Self.unlink cube.id
    Utils.destroyMutex cube.ptr
    Utils.free cube.ptr
    setErrno errsv
    return none
  else do
    unlock .cubes
    return some cube.page.addr

/-- `inaccel_alloc` -/
def inaccelAlloc (P : PageSize) (size : Nat) : Script (Option Nat) := do
  if size = 0 then return none
  else
    match ← Utils.alloc with
    | none => return none
    | some ptr => do
        let pid ← Utils.process
        if (← Utils.initMutex ptr) ≠ 0 then do
          let errsv ← getErrno
          Utils.free ptr
          setErrno errsv
          return none
        else
          match ← Self.linkOpen with
          | none => do
              let errsv ← getErrno
              Utils.destroyMutex ptr
              Utils.free ptr
              setErrno errsv
              return none
          | some id =>
              match ← Utils.map P (ceilPagesize P size) id with
              | none => do
                  let errsv ← getErrno
                  Self.close id
                  Utils.destroyMutex ptr
                  Utils.free ptr
                  setErrno errsv
                  return none
              | some addr => do
                  Self.close id
                  publishCube
                    { ptr := ptr
                      nlinks := 0
                      page := ⟨addr, ceilPagesize P size⟩
                      pid := pid
                      slices := []
                      id := id }

/-- `inaccel_free`, past the hand-over from the global lock. -/
def retireCube (cube : Cube) : Script Unit := do
  Utils.unmap cube.page.addr cube.page.size
  let pid ← Utils.process
  if cube.pid ≠ pid then releaseCube cube
  else if cube.nlinks = 0 then do
    Self.unlink cube.id
    releaseCube cube
  else do
    change (Process.modifyCube cube.ptr fun cube =>
      { cube with nlinks := cube.nlinks - 1 })
    unlock (.cube cube.ptr)

/-- `inaccel_free` -/
def inaccelFree (addr : Nat) : Script Unit := do
  if addr = 0 then return ()
  else do
    lock .cubes
    match ← scan (fun cube => cube.page.addr == addr) (← pointers) with
    | none => unlock .cubes
    | some cube => do
        Collection.unsetCube cube
        unlock .cubes
        retireCube cube

/-- `inaccel_realloc`, past the hand-over from the global lock. -/
def stretchCube (P : PageSize) (cube : Cube) (newSize : Nat) :
    Script (Option Nat) := do
  if cube.pid ≠ (← Utils.process) then do
    unlock (.cube cube.ptr)
    setErrno EACCES
    return none
  else if newSize ≤ cube.page.size then do
    unlock (.cube cube.ptr)
    return some cube.page.addr
  else if !(← Self.reopen cube.id) then do
    let errsv ← getErrno
    unlock (.cube cube.ptr)
    setErrno errsv
    return none
  else
    match ← Utils.remap P cube.page.addr cube.page.size
        (ceilPagesize P newSize) cube.id with
    | none => do
        let errsv ← getErrno
        Self.close cube.id
        unlock (.cube cube.ptr)
        setErrno errsv
        return none
    | some newAddr => do
        Self.close cube.id
        change (Process.modifyCube cube.ptr fun cube =>
          { cube with page := ⟨newAddr, ceilPagesize P newSize⟩ })
        unlock (.cube cube.ptr)
        return some newAddr

/-- `inaccel_realloc` -/
def inaccelRealloc (P : PageSize) (addr newSize : Nat) :
    Script (Option Nat) := do
  if addr = 0 then inaccelAlloc P newSize
  else if newSize = 0 then do
    inaccelFree addr
    setErrno EADDRNOTAVAIL
    return none
  else do
    lock .cubes
    match ← scan (fun cube => cube.page.addr == addr) (← pointers) with
    | none => do
        unlock .cubes
        setErrno EADDRNOTAVAIL
        return none
    | some cube => do
        unlock .cubes
        stretchCube P cube newSize

/-- `inaccel_request_arg_array` -/
def inaccelRequestArgArray (P : PageSize) (request size value index : Nat) :
    Script Int := do
  if request = 0 ∨ size = 0 then do
    setErrno EINVAL
    return -1
  else
    match ← slice P value size with
    | none => return -1
    | some slice => putArray request slice index

/-- The loop of `inaccel_submit` over the arguments from `index` on. -/
def attachArguments (P : PageSize) (request : Nat) :
    Nat → List Argument → Script Bool
  | _, [] => return true
  | index, .array array :: arguments => do
      if (← attach P array.context) ≠ 0 then return false
      else do
        mayThrow
        let (cube, slice) ← derefSlice array.context
        let grpc ← derefRequest request
        change (Process.setRequest request
          { grpc with
            arguments := grpc.arguments.set index (.array
              { array with
                id := cube.id
                offset := slice.offset
                size := slice.size
                version := slice.version }) })
        attachArguments P request (index + 1) arguments
  | index, _ :: arguments => attachArguments P request (index + 1) arguments

/-- The critical section of `inaccel_submit`. -/
def submitQueue : Script Bool := do
  lock .queue
  let w ← (get : Prog World)
  if w.cq then do
    unlock .queue
    return true
  else if (← openQueue) ≠ 0 then do
    let errsv ← getErrno
    unlock .queue
    setErrno errsv
    return false
  else do
    unlock .queue
    return true

/-- `response->request = request->grpc` and the metadata of the request. -/
def stampRequest (request response : Nat) : Script Unit := do
  mayThrow
  let grpc ← derefRequest request
  let r ← derefResponse response
  change (Process.setResponse response { r with request := grpc })
  mayThrow
  change fun p =>
    { p.setRequest request
        { grpc with metadata := some ⟨p.self, p.stamp⟩ } with
      stamp := p.stamp + 1 }

/-- `inaccel_submit` -/
def inaccelSubmit (P : PageSize) (request response : Nat) : Script Int := do
  if request = 0 ∨ response = 0 then do
    setErrno EINVAL
    return -1
  else do
    mayThrow
    let grpc ← derefRequest request
    if ← attachArguments P request 0 grpc.arguments then do
      stampRequest request response
      if ← submitQueue then do
        handOver request response
        return 0
      else return -1
    else return -1

/-- The loop of `__waiter` over the arguments of the response. -/
def detachArguments : List Argument → Script Unit
  | [] => return ()
  | .array array :: arguments => do
      let _ ← detach array.context
      detachArguments arguments
  | _ :: arguments => detachArguments arguments

/-- What `__waiter` does with a call that the queue returns. -/
def waiter (response : Nat) : Script Unit := do
  let _ ← derefResponse response
  lock (.response response)
  let r ← derefResponse response
  detachArguments r.request.arguments
  let r ← derefResponse response
  if r.cancelled then do
    unlock (.response response)
    deleteResponse response
  else do
    change (Process.setResponse response { r with done := true })
    Utils.broadcast (.response response)
    unlock (.response response)

/-- `inaccel_response_release` -/
def inaccelResponseRelease (response : Nat) : Script Unit := do
  if response = 0 then return ()
  else do
    let _ ← derefResponse response
    lock (.response response)
    let r ← derefResponse response
    if r.done then do
      unlock (.response response)
      deleteResponse response
    else do
      change (Process.setResponse response { r with cancelled := true })
      Utils.broadcast (.response response)
      unlock (.response response)

/-- The loop of the waits, with the mutex held, and the status behind it. -/
def waitLoop (response : Nat) : Script Int := do
  let r ← derefResponse response
  if r.cancelled || r.done then do
    unlock (.response response)
    waitStatus response
  else sleepOn (.response response) (.response response)

/-- `inaccel_response_wait` and, past its clock, `inaccel_response_wait_for`,
up to the sleep. -/
def inaccelResponseWait (response : Nat) : Script Int := do
  if response = 0 then do
    setErrno EINVAL
    return -1
  else do
    let _ ← derefResponse response
    lock (.response response)
    waitLoop response

/-- The waits after a sleep. -/
def waitWoken (response : Nat) (error : Option Errno) : Script Int := do
  let _ ← derefResponse response
  lock (.response response)
  match error with
  | some _ => do
      let errsv ← getErrno
      unlock (.response response)
      setErrno errsv
      return -1
  | none => waitLoop response

/-- The loop of `__prepare`. -/
def lockCubes : List Nat → Script Unit
  | [] => return ()
  | ptr :: ptrs => do
      lock (.cube ptr)
      lockCubes ptrs

/-- `__prepare` -/
def prepare : Script Unit := do
  lock .cubes
  lockCubes (← pointers)

/-- The loop of `__parent`. -/
def unlockCubes : List Nat → Script Unit
  | [] => return ()
  | ptr :: ptrs => do
      unlock (.cube ptr)
      unlockCubes ptrs

/-- `__parent` -/
def parent : Script Unit := do
  unlockCubes (← pointers)
  unlock .cubes

/-- The loop of `__child`. -/
def protectCubes (P : PageSize) : List Nat → Script Unit
  | [] => return ()
  | ptr :: ptrs => do
      let cube ← derefCube ptr
      logged (Process.protectPages P cube.page.addr cube.page.size .read)
      unlock (.cube ptr)
      protectCubes P ptrs

/-- `__child`, and `__init` of `self.c` behind it. -/
def child (P : PageSize) : Script Unit := do
  protectCubes P (← pointers)
  unlock .cubes
  Self.init

end Stepwise

/-- A call of the library. -/
inductive Job where
  /-- the handler of a fault -/
  | access (addr : Nat)
  | alloc (size : Nat)
  | free (addr : Nat)
  | realloc (addr newSize : Nat)
  | requestCreate (accelerator : Option String)
  | argArray (request size value index : Nat)
  | argScalar (request : Nat) (value : List UInt8) (index : Nat)
  | responseCreate
  | submit (request response : Nat)
  | wait (response : Nat)
  | release (response : Nat)
  /-- gRPC completes a call -/
  | next (response : Nat) (status : Status)
  /-- the queue returns a call -/
  | waiter (response : Nat)

/-- The code of a call. -/
def Job.script (P : PageSize) : Job → Script Unit
  | access addr => do let _ ← Stepwise.access P addr
  | alloc size => do let _ ← Stepwise.inaccelAlloc P size
  | free addr => Stepwise.inaccelFree addr
  | realloc addr newSize => do let _ ← Stepwise.inaccelRealloc P addr newSize
  | requestCreate accelerator => do
      let _ ← inaccelRequestCreate accelerator
  | argArray request size value index => do
      let _ ← Stepwise.inaccelRequestArgArray P request size value index
  | argScalar request value index => do
      let _ ← inaccelRequestArgScalar request value index
  | responseCreate => do let _ ← inaccelResponseCreate
  | submit request response => do
      let _ ← Stepwise.inaccelSubmit P request response
  | wait response => do let _ ← Stepwise.inaccelResponseWait response
  | release response => Stepwise.inaccelResponseRelease response
  | next response status => CoralApi.next response status
  | waiter response => Stepwise.waiter response

/-- The code behind a wake-up. -/
def Bed.script (error : Option Errno) : Bed → Script Unit
  | slice ptr => do let _ ← Stepwise.accessWoken ptr error
  | response ptr => do let _ ← Stepwise.waitWoken ptr error

end CoralApi
