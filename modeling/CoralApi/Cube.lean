import CoralApi.Utils

/-!
# Cubes and slices

The functions of `cube.c`.  A scan of the registry that stops at a cube keeps
the mutex of that cube; the function that scans then releases the global lock.
The loops over the slices of a cube run under the mutex of the cube.
-/

namespace CoralApi

namespace Cube

/-- The test of `__access` on a cube. -/
def contains (cube : Cube) (addr : Nat) : Bool :=
  cube.page.addr ≤ addr && addr < wadd cube.page.addr cube.page.size

/-- The test of `__slice` on a cube: the end of the range wraps. -/
def containsRange (cube : Cube) (addr size : Nat) : Bool :=
  cube.page.addr ≤ addr &&
    wadd addr size ≤ wadd cube.page.addr cube.page.size

end Cube

namespace Slice

/-- The address lies in the page range of the slice. -/
def overPage (base addr : Nat) (slice : Slice) : Bool :=
  wadd base slice.page.offset ≤ addr &&
    addr < wadd (wadd base slice.page.offset) slice.page.size

/-- The address lies in the bytes of the slice. -/
def overBytes (base addr : Nat) (slice : Slice) : Bool :=
  wadd base slice.offset ≤ addr &&
    addr < wadd (wadd base slice.offset) slice.size

/-- The address lies outside of the bytes of the slice, as the second scan of
`__access` tests it. -/
def offBytes (base addr : Nat) (slice : Slice) : Bool :=
  wadd base slice.offset > addr ||
    addr ≥ wadd (wadd base slice.offset) slice.size

/-- The first scan of `__access` stops here. -/
def refuses (base addr : Nat) (slice : Slice) : Bool :=
  slice.overPage base addr && slice.nlinks != 0 && slice.overBytes base addr

/-- The second scan of `__access` stops here. -/
def blocks (base addr : Nat) (slice : Slice) : Bool :=
  slice.overPage base addr && slice.nlinks != 0 && slice.offBytes base addr

end Slice

/-- The loop over the registry: every cube is locked, tested and unlocked, and
the first one that passes the test stays locked. -/
def scan (found : Cube → Bool) : List Cube → Prog (Option Cube)
  | [] => return none
  | cube :: cubes => do
      lock (.cube cube.ptr)
      if found cube then return some cube
      else do
        unlock (.cube cube.ptr)
        scan found cubes

/-- The third scan of `__access`; it leaves with `errno` at the first failing
`mprotect`. -/
def unprotectSlices (P : PageSize) (cube : Cube) (addr : Nat) :
    List Slice → Prog (Option Nat)
  | [] => return none
  | slice :: slices => do
      if slice.overPage cube.page.addr addr then
        if (← Utils.unprotect P (wadd cube.page.addr slice.page.offset)
            slice.page.size) ≠ 0 then
          return some (← getErrno)
        else do
          change (Process.modifyCube cube.ptr
            (Cube.modifySlice slice.ptr fun slice =>
              { slice with version := slice.version + 1 }))
          unprotectSlices P cube addr slices
      else unprotectSlices P cube addr slices

/-- `__access`, up to the moment it sleeps. -/
def access (P : PageSize) (addr : Nat) : Prog Int := do
  lock .cubes
  match ← scan (·.contains addr) (← get).cubes with
  | none => do
      unlock .cubes
      return SIGSEGV
  | some cube => do
      unlock .cubes
      if cube.pid ≠ (← Utils.process) then do
        unlock (.cube cube.ptr)
        setErrno EACCES
        return -1
      else if cube.slices.any (·.refuses cube.page.addr addr) then do
        unlock (.cube cube.ptr)
        setErrno EPERM
        return -1
      else
        match cube.slices.find? (·.blocks cube.page.addr addr) with
        | some slice => sleepOn slice.ptr (.cube cube.ptr)
        | none => do
            match ← unprotectSlices P cube addr cube.slices with
            | some errsv => do
                unlock (.cube cube.ptr)
                setErrno errsv
                return -1
            | none => do
                unlock (.cube cube.ptr)
                return 0

/-- `__access` after it has slept on a slice: the wait returns an error, or
the count of the slice is tested again. -/
def accessWoken (slice : Nat) (error : Option Errno) : Prog Int := do
  let (cube, s) ← derefSlice slice
  lock (.cube cube.ptr)
  match error with
  | some _ => do
      let errsv ← getErrno
      unlock (.cube cube.ptr)
      setErrno errsv
      return -1
  | none =>
      if s.nlinks ≠ 0 then sleepOn slice (.cube cube.ptr)
      else do
        unlock (.cube cube.ptr)
        return 0

/-- `cube->nlinks++; slice->nlinks++` -/
def Process.link (cube slice : Nat) : Process → Process :=
  Process.modifyCube cube fun cube =>
    { cube.modifySlice slice fun slice =>
        { slice with nlinks := slice.nlinks + 1 } with
      nlinks := cube.nlinks + 1 }

/-- `__attach` -/
def attach (P : PageSize) (slice : Nat) : Prog Int := do
  let (cube, s) ← derefSlice slice
  if cube.pid ≠ (← Utils.process) then do
    setErrno EACCES
    return -1
  else do
    lock (.cube cube.ptr)
    if (← Utils.protect P (wadd cube.page.addr s.page.offset) s.page.size) ≠ 0
    then do
      let errsv ← getErrno
      unlock (.cube cube.ptr)
      setErrno errsv
      return -1
    else do
      change (Process.link cube.ptr slice)
      unlock (.cube cube.ptr)
      return 0

/-- The loop that releases the slices of a cube. -/
def freeSlices : List Slice → Prog Unit
  | [] => return ()
  | slice :: slices => do
      Utils.free slice.ptr
      freeSlices slices

/-- The end of `__detach` and of `inaccel_free` for a cube without links: its
slices and the cube are released.  Nothing here takes the cube out of the
registry. -/
def releaseCube (cube : Cube) : Prog Unit := do
  freeSlices cube.slices
  unlock (.cube cube.ptr)
  Utils.destroyMutex cube.ptr
  change fun p =>
    { p with
      orphans := p.orphans.filter fun other => other.ptr ≠ cube.ptr
      released := cube.ptr :: p.released }
  Utils.free cube.ptr

/-- `__detach` -/
def detach (slice : Nat) : Prog Int := do
  let (cube, _) ← derefSlice slice
  if cube.pid ≠ (← Utils.process) then do
    setErrno EACCES
    return -1
  else do
    lock (.cube cube.ptr)
    -- `nlinks--` of the slice and of the cube; the test reads the old count
    change fun p =>
      { p.modifyCube cube.ptr fun cube =>
          { cube.modifySlice slice fun slice =>
              { slice with nlinks := slice.nlinks - 1 } with
            nlinks := cube.nlinks - 1 } with
        detached := slice :: p.detached }
    Utils.broadcast (.slice slice)
    if cube.nlinks = 0 then do
      Self.unlink cube.id
      releaseCube cube
      return 0
    else do
      unlock (.cube cube.ptr)
      return 0

/-- The slice that `__slice` looks for in a cube. -/
def Cube.findRange (addr size : Nat) (cube : Cube) : Option Slice :=
  cube.slices.find? fun slice =>
    addr == wadd cube.page.addr slice.offset && size == slice.size

/-- The fields that `__slice` gives to a new slice. -/
def newSlice (P : PageSize) (cube : Cube) (addr size ptr : Nat) : Slice :=
  let offset := wsub addr cube.page.addr
  let pageOffset := wsub (floorPagesize P addr) cube.page.addr
  { ptr := ptr
    nlinks := 0
    page :=
      { offset := pageOffset
        size := ceilPagesize P (wadd (wsub offset pageOffset) size) }
    offset := offset
    size := size
    version := 0 }

/-- `__slice` -/
def slice (P : PageSize) (addr size : Nat) : Prog (Option Nat) := do
  lock .cubes
  match ← scan (·.containsRange addr size) (← get).cubes with
  | none => do
      unlock .cubes
      setErrno EADDRNOTAVAIL
      return none
  | some cube => do
      unlock .cubes
      if cube.pid ≠ (← Utils.process) then do
        unlock (.cube cube.ptr)
        setErrno EACCES
        return none
      else
        match cube.findRange addr size with
        | some slice => do
            unlock (.cube cube.ptr)
            return some slice.ptr
        | none => do
            match ← Utils.alloc with
            | none => return none
            | some ptr => do
                if (← Utils.initCond) ≠ 0 then do
                  let errsv ← getErrno
                  Utils.free ptr
                  setErrno errsv
                  return none
                else if (← Collection.setSlice cube.ptr
                    (newSlice P cube addr size ptr)) ≠ 0 then do
                  let errsv ← getErrno
                  unlock (.cube cube.ptr)
                  Utils.free ptr
                  setErrno errsv
                  return none
                else do
                  unlock (.cube cube.ptr)
                  return some ptr

/-- `inaccel_alloc` -/
def inaccelAlloc (P : PageSize) (size : Nat) : Prog (Option Nat) := do
  if size = 0 then return none
  else
    match ← Utils.alloc with
    | none => return none
    | some ptr => do
        let pid ← Utils.process
        if (← Utils.initMutex ptr) ≠ 0 then do
          let errsv ← getErrno
          Utils.free ptr
          setErrno errsv
          return none
        else
          match ← Self.linkOpen with
          | none => do
              let errsv ← getErrno
              Utils.destroyMutex ptr
              Utils.free ptr
              setErrno errsv
              return none
          | some id =>
              match ← Utils.map P (ceilPagesize P size) id with
              | none => do
                  let errsv ← getErrno
                  Self.close id
                  Utils.destroyMutex ptr
                  Utils.free ptr
                  setErrno errsv
                  return none
              | some addr => do
                  Self.close id
                  let cube : Cube :=
                    { ptr := ptr
                      nlinks := 0
                      page := ⟨addr, ceilPagesize P size⟩
                      pid := pid
                      slices := []
                      id := id }
                  lock .cubes
                  if (← Collection.setCube cube) ≠ 0 then do
                    let errsv ← getErrno
                    unlock .cubes
                    Utils.unmap cube.page.addr cube.page.size
                    Self.unlink id
                    Utils.destroyMutex ptr
                    Utils.free ptr
                    setErrno errsv
                    return none
                  else do
                    unlock .cubes
                    return some cube.page.addr

/-- `inaccel_free` -/
def inaccelFree (addr : Nat) : Prog Unit := do
  if addr = 0 then return ()
  else do
    lock .cubes
    match ← scan (fun cube => cube.page.addr == addr) (← get).cubes with
    | none => unlock .cubes
    | some cube => do
        Collection.unsetCube cube
        unlock .cubes
        Utils.unmap cube.page.addr cube.page.size
        let pid ← Utils.process
        if cube.pid ≠ pid then releaseCube cube
        else if cube.nlinks = 0 then do
          Self.unlink cube.id
          releaseCube cube
        else do
          change (Process.modifyCube cube.ptr fun cube =>
            { cube with nlinks := cube.nlinks - 1 })
          unlock (.cube cube.ptr)

/-- `inaccel_realloc` -/
def inaccelRealloc (P : PageSize) (addr newSize : Nat) :
    Prog (Option Nat) := do
  if addr = 0 then inaccelAlloc P newSize
  else if newSize = 0 then do
    inaccelFree addr
    setErrno EADDRNOTAVAIL
    return none
  else do
    lock .cubes
    match ← scan (fun cube => cube.page.addr == addr) (← get).cubes with
    | none => do
        unlock .cubes
        setErrno EADDRNOTAVAIL
        return none
    | some cube => do
        unlock .cubes
        if cube.pid ≠ (← Utils.process) then do
          unlock (.cube cube.ptr)
          setErrno EACCES
          return none
        else if newSize ≤ cube.page.size then do
          unlock (.cube cube.ptr)
          return some cube.page.addr
        else if !(← Self.reopen cube.id) then do
          let errsv ← getErrno
          unlock (.cube cube.ptr)
          setErrno errsv
          return none
        else
          match ← Utils.remap P cube.page.addr cube.page.size
              (ceilPagesize P newSize) cube.id with
          | none => do
              let errsv ← getErrno
              Self.close cube.id
              unlock (.cube cube.ptr)
              setErrno errsv
              return none
          | some newAddr => do
              Self.close cube.id
              change (Process.modifyCube cube.ptr fun cube =>
                { cube with page := ⟨newAddr, ceilPagesize P newSize⟩ })
              unlock (.cube cube.ptr)
              return some newAddr

end CoralApi
