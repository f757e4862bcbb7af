import CoralApi.Cube
import CoralApi.Library.Program

/-!
# The sections of `inaccel_alloc`, `inaccel_free` and `inaccel_realloc`

Where another thread can come in between.  A section holds the global lock
from its start to its end or not at all, and maps, unmaps or moves at most one
block.
-/

namespace CoralApi

open Program

/-- `inaccel_alloc` up to its lock: a block that no scan finds yet. -/
def makeCube (P : PageSize) (size : Nat) : Prog (Option Cube) := do
  match ← Utils.alloc with
  | none => return none
  | some ptr => do
      let pid ← Utils.process
      if (← Utils.initMutex ptr) ≠ 0 then do
        let errsv ← getErrno
        Utils.free ptr
        setErrno errsv
        return none
      else
        match ← Self.linkOpen with
        | none => do
            let errsv ← getErrno
            Utils.destroyMutex ptr
            Utils.free ptr
            setErrno errsv
            return none
        | some id =>
            match ← Utils.map P (ceilPagesize P size) id with
            | none => do
                let errsv ← getErrno
                Self.close id
                Utils.destroyMutex ptr
                Utils.free ptr
                setErrno errsv
                return none
            | some addr => do
                Self.close id
                return some
                  { ptr := ptr
                    nlinks := 0
                    page := ⟨addr, ceilPagesize P size⟩
                    pid := pid
                    slices := []
                    id := id }

/-- The critical section of `inaccel_alloc`; it returns `errno` when it
fails. -/
def registerCube (cube : Cube) : Prog (Option Nat) := do
  lock .cubes
  if (← Collection.setCube cube) ≠ 0 then do
    let errsv ← getErrno
    unlock .cubes
    return some errsv
  else do
    unlock .cubes
    return none

/-- What `inaccel_alloc` does with a block that is not registered. -/
def dropCube (cube : Cube) (errsv : Nat) : Prog Unit := do
  Utils.unmap cube.page.addr cube.page.size
  Self.unlink cube.id
  Utils.destroyMutex cube.ptr
  Utils.free cube.ptr
  setErrno errsv

/-- `inaccel_alloc` from its lock on. -/
def publishCube (cube : Cube) : Prog (Option Nat) := do
  match ← registerCube cube with
  | some errsv => do
      dropCube cube errsv
      return none
  | none => return some cube.page.addr

theorem inaccelAlloc_eq {P : PageSize} {size : Nat} :
    inaccelAlloc P size =
      if size = 0 then pure none
      else (do
        match ← makeCube P size with
        | none => return none
        | some cube => publishCube cube) := by
  unfold inaccelAlloc
  split
  · rfl
  · unfold makeCube publishCube registerCube dropCube
    simp only [bind_assoc]
    congr 1
    funext result
    cases result with
    | none => simp only [pure_bind]
    | some ptr =>
        simp only [bind_assoc]
        congr 1
        funext pid
        congr 1
        funext error
        split
        · simp only [bind_assoc, pure_bind]
        · simp only [bind_assoc]
          congr 1
          funext result
          cases result with
          | none => simp only [bind_assoc, pure_bind]
          | some id =>
              simp only [bind_assoc]
              congr 1
              funext result
              cases result with
              | none => simp only [bind_assoc, pure_bind]
              | some addr =>
                  simp only [bind_assoc, pure_bind]
                  congr 1
                  funext _
                  congr 1
                  funext _
                  congr 1
                  funext error
                  split
                  · simp only [bind_assoc, pure_bind]
                  · simp only [bind_assoc, pure_bind]

/-- The critical section of `inaccel_free`; the cube that it returns is locked
and can no longer be found. -/
def takeCube (addr : Nat) : Prog (Option Cube) := do
  lock .cubes
  match ← scan (fun cube => cube.page.addr == addr) (← get).cubes with
  | none => do
      unlock .cubes
      return none
  | some cube => do
      Collection.unsetCube cube
      unlock .cubes
      return some cube

/-- What `inaccel_free` does with a cube that is unmapped. -/
def retireCube (cube : Cube) : Prog Unit := do
  let pid ← Utils.process
  if cube.pid ≠ pid then releaseCube cube
  else if cube.nlinks = 0 then do
    Self.unlink cube.id
    releaseCube cube
  else do
    change (Process.modifyCube cube.ptr fun cube =>
      { cube with nlinks := cube.nlinks - 1 })
    unlock (.cube cube.ptr)

theorem inaccelFree_eq {addr : Nat} :
    inaccelFree addr =
      if addr = 0 then pure ()
      else (do
        match ← takeCube addr with
        | none => return ()
        | some cube => do
            Utils.unmap cube.page.addr cube.page.size
            retireCube cube) := by
  unfold inaccelFree takeCube retireCube
  split
  · rfl
  · simp only [bind_assoc]
    congr 1
    funext _
    congr 1
    funext w
    congr 1
    funext found
    cases found with
    | none => simp only [bind_assoc, pure_bind, bind_pure_unit]
    | some cube => simp only [bind_assoc, pure_bind]

/-- The critical section of `inaccel_realloc`; the cube that it returns is
locked. -/
def findCube (addr : Nat) : Prog (Option Cube) := do
  lock .cubes
  match ← scan (fun cube => cube.page.addr == addr) (← get).cubes with
  | none => do
      unlock .cubes
      return none
  | some cube => do
      unlock .cubes
      return some cube

/-- What `inaccel_realloc` does with a cube up to the call that moves its
block: either it ends with a result, or the block has a new address. -/
def stretchCube (P : PageSize) (cube : Cube) (newSize : Nat) :
    Prog (Except (Option Nat) Nat) := do
  if cube.pid ≠ (← Utils.process) then do
    unlock (.cube cube.ptr)
    setErrno EACCES
    return .error none
  else if newSize ≤ cube.page.size then do
    unlock (.cube cube.ptr)
    return .error (some cube.page.addr)
  else if !(← Self.reopen cube.id) then do
    let errsv ← getErrno
    unlock (.cube cube.ptr)
    setErrno errsv
    return .error none
  else
    match ← Utils.remap P cube.page.addr cube.page.size
        (ceilPagesize P newSize) cube.id with
    | none => do
        let errsv ← getErrno
        Self.close cube.id
        unlock (.cube cube.ptr)
        setErrno errsv
        return .error none
    | some newAddr => return .ok newAddr

/-- The end of `inaccel_realloc` for a block that has moved. -/
def settleCube (P : PageSize) (cube : Cube) (newSize newAddr : Nat) :
    Prog (Option Nat) := do
  Self.close cube.id
  change (Process.modifyCube cube.ptr fun cube =>
    { cube with page := ⟨newAddr, ceilPagesize P newSize⟩ })
  unlock (.cube cube.ptr)
  return some newAddr

theorem inaccelRealloc_eq {P : PageSize} {addr newSize : Nat} :
    inaccelRealloc P addr newSize =
      if addr = 0 then inaccelAlloc P newSize
      else if newSize = 0 then (do
        inaccelFree addr
        setErrno EADDRNOTAVAIL
        return none)
      else (do
        match ← findCube addr with
        | none => do
            setErrno EADDRNOTAVAIL
            return none
        | some cube =>
            match ← stretchCube P cube newSize with
            | .error result => return result
            | .ok newAddr => settleCube P cube newSize newAddr) := by
  unfold inaccelRealloc findCube stretchCube settleCube
  split
  · rfl
  · split
    · rfl
    · simp only [bind_assoc]
      congr 1
      funext _
      congr 1
      funext w
      congr 1
      funext found
      cases found with
      | none => simp only [bind_assoc, pure_bind]
      | some cube =>
          simp only [bind_assoc, pure_bind]
          congr 1
          funext _
          congr 1
          funext pid
          split
          · simp only [bind_assoc, pure_bind]
          · split
            · simp only [bind_assoc, pure_bind]
            · simp only [bind_assoc]
              congr 1
              funext opened
              split
              · simp only [bind_assoc, pure_bind]
              · simp only [bind_assoc]
                congr 1
                funext result
                cases result with
                | none => simp only [bind_assoc, pure_bind]
                | some newAddr => simp only [pure_bind]

end CoralApi
