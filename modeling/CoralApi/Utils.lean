import CoralApi.World

/-!
# The operating system below the library

The wrappers of `utils.c`, `self.c` and `collection.c`, with the part of the
operating system that they reach.  A reply that no kernel gives, such as a new
mapping on top of an old one, counts as a failure of the call.
-/

namespace CoralApi

/-- Two address ranges with no common byte. -/
def Block.Disjoint (left right : Block) : Prop :=
  left.addr + left.size ≤ right.addr ∨ right.addr + right.size ≤ left.addr

instance (left right : Block) : Decidable (left.Disjoint right) :=
  inferInstanceAs (Decidable (_ ∨ _))

theorem Block.Disjoint.symm {left right : Block}
    (disjoint : left.Disjoint right) : right.Disjoint left :=
  Or.symm disjoint

namespace Process

/-- `mprotect` of a page-aligned range: exactly its pages change. -/
def protectPages (P : PageSize) (addr size : Nat) (prot : Prot)
    (p : Process) : Process :=
  { p with
    prot := fun page =>
      if addr ≤ page * P.bytes ∧ page * P.bytes < addr + size then prot
      else p.prot page }

/-- The ranges a kernel may choose for a mapping besides the old ones. -/
def Admits (P : PageSize) (block : Block) (maps : List Mapping) : Prop :=
  0 < block.addr ∧ 0 < block.size ∧ P.bytes ∣ block.addr ∧
    block.addr + block.size < wordSize ∧
    ∀ mapping ∈ maps, mapping.block.Disjoint block

instance (P : PageSize) (block : Block) (maps : List Mapping) :
    Decidable (Admits P block maps) :=
  inferInstanceAs (Decidable (_ ∧ _ ∧ _ ∧ _ ∧ _))

/-- A new shared mapping, readable and writable. -/
def mapBlock (P : PageSize) (block : Block) (dir id : String)
    (p : Process) : Process :=
  { p.protectPages P block.addr block.size .readWrite with
    maps := ⟨block, dir, id⟩ :: p.maps }

def unmapBlock (block : Block) (p : Process) : Process :=
  { p with maps := p.maps.filter fun mapping => mapping.block ≠ block }

/-- The protection that all pages of a block share, if they share one. -/
def uniformProt (P : PageSize) (block : Block) (p : Process) : Option Prot :=
  let first := block.addr / P.bytes
  if (List.range (block.size / P.bytes)).all fun index =>
      p.prot (first + index) = p.prot first then
    some (p.prot first)
  else none

/-- The mapping keeps its file; the whole new range gets the protection of the
old one. -/
def remapBlock (P : PageSize) (old new : Block) (prot : Prot)
    (p : Process) : Process :=
  { p.protectPages P new.addr new.size prot with
    maps := p.maps.map fun mapping =>
      if mapping.block = old then { mapping with block := new } else mapping }

def hasFile (p : Process) (dir id : String) : Bool :=
  p.files.any fun file => file.dir == dir && file.id == id

/-- `ftruncate`: the bytes below both lengths stay, the new ones are zero. -/
def truncateFile (dir id : String) (length : Nat) (p : Process) : Process :=
  { p with
    files := p.files.map fun file =>
      if file.dir = dir ∧ file.id = id then
        { file with
          length := length
          bytes := fun index =>
            if index < min file.length length then file.bytes index else 0 }
      else file }

end Process

namespace Utils

/-- `__process` -/
def process : Prog Nat := fun w => .ok w.pid w

/-- `__alloc`: a new anonymous mapping for one object. -/
def alloc : Prog (Option Nat) := do
  match ← ask with
  | .done _ _ => do
      let w ← get
      change fun p =>
        { p with nextPtr := p.nextPtr + 1, objects := p.nextPtr :: p.objects }
      return some w.nextPtr
  | .failed error => do
      setErrno error
      return none

/-- `__free` -/
def free (ptr : Nat) : Prog Unit :=
  logged fun p => { p with objects := p.objects.erase ptr }

/-- `__init_mutex`, which returns the error number. -/
def initMutex (ptr : Nat) : Prog Nat := do
  match ← ask with
  | .done _ _ => do
      change fun p => { p with mutexes := ptr :: p.mutexes }
      return 0
  | .failed error => return error

/-- `__destroy_mutex` -/
def destroyMutex (ptr : Nat) : Prog Unit :=
  change fun p => { p with mutexes := p.mutexes.erase ptr }

/-- `__init_cond`, which returns the error number. -/
def initCond : Prog Nat := do
  match ← ask with
  | .done _ _ => return 0
  | .failed error => return error

/-- `__broadcast`, which does not fail on a condition that was initialised. -/
def broadcast (bed : Bed) : Prog Unit :=
  change fun p => { p with broadcasts := bed :: p.broadcasts }

/-- `mprotect` -/
def mprotect (P : PageSize) (addr size : Nat) (prot : Prot) : Prog Int := do
  match ← ask with
  | .done _ _ => do
      change (Process.protectPages P addr size prot)
      return 0
  | .failed error => do
      setErrno error
      return -1

/-- `__protect` -/
def protect (P : PageSize) (addr size : Nat) : Prog Int :=
  mprotect P addr size .read

/-- `__unprotect` -/
def unprotect (P : PageSize) (addr size : Nat) : Prog Int :=
  mprotect P addr size .readWrite

/-- `ftruncate`, which refuses lengths that are no `off_t`. -/
def ftruncate (id : String) (length : Nat) : Prog Int := do
  match ← ask with
  | .done _ _ => do
      if length < 2 ^ 63 then do
        change fun p => p.truncateFile p.self id length
        return 0
      else do
        setErrno EINVAL
        return -1
  | .failed error => do
      setErrno error
      return -1

/-- `__map` -/
def map (P : PageSize) (size : Nat) (id : String) : Prog (Option Nat) := do
  if (← ftruncate id size) = 0 then
    match ← ask with
    | .done addr _ => do
        let w ← get
        if Process.Admits P ⟨addr, size⟩ w.maps then do
          change fun p => p.mapBlock P ⟨addr, size⟩ p.self id
          return some addr
        else do
          setErrno ENOMEM
          return none
    | .failed error => do
        setErrno error
        return none
  else return none

/-- `__remap`.  `mremap` fails on a block whose pages have different
protections. -/
def remap (P : PageSize) (oldAddr oldSize newSize : Nat) (id : String) :
    Prog (Option Nat) := do
  if (← ftruncate id newSize) = 0 then
    match ← ask with
    | .done addr _ => do
        let w ← get
        let others := w.maps.filter fun mapping =>
          mapping.block ≠ ⟨oldAddr, oldSize⟩
        match w.uniformProt P ⟨oldAddr, oldSize⟩ with
        | some prot =>
            if Process.Admits P ⟨addr, newSize⟩ others then do
              change (Process.remapBlock P ⟨oldAddr, oldSize⟩ ⟨addr, newSize⟩
                prot)
              return some addr
            else do
              setErrno ENOMEM
              return none
        | none => do
            setErrno EFAULT
            return none
    | .failed error => do
        setErrno error
        return none
  else return none

/-- `__unmap` -/
def unmap (addr size : Nat) : Prog Unit :=
  logged (Process.unmapBlock ⟨addr, size⟩)

/-- `__daemon`, which returns the error number of `pthread_create`. -/
def daemon : Prog Nat := do
  match ← ask with
  | .done _ _ => do
      change fun p => { p with waiters := p.waiters + 1 }
      return 0
  | .failed error => return error

end Utils

namespace Self

/-- `__link_open`: `mkstemp` makes an empty file of a name not in use. -/
def linkOpen : Prog (Option String) := do
  match ← ask with
  | .done _ id => do
      let w ← get
      if w.hasFile w.self id then do
        setErrno EEXIST
        return none
      else do
        change fun p =>
          { p with
            files := ⟨p.self, id, 0, fun _ => 0⟩ :: p.files
            fds := id :: p.fds }
        return some id
  | .failed error => do
      setErrno error
      return none

/-- `__reopen` -/
def reopen (id : String) : Prog Bool := do
  match ← ask with
  | .done _ _ => do
      let w ← get
      if w.hasFile w.self id then do
        change fun p => { p with fds := id :: p.fds }
        return true
      else do
        setErrno ENOENT
        return false
  | .failed error => do
      setErrno error
      return false

/-- `__close` -/
def close (id : String) : Prog Unit :=
  logged fun p => { p with fds := p.fds.erase id }

/-- `__unlink` -/
def unlink (id : String) : Prog Unit := do
  change fun p => { p with unlinked := id :: p.unlinked }
  logged fun p =>
    { p with
      files := p.files.filter fun file =>
        !(file.dir == p.self && file.id == id) }

end Self

namespace Collection

/-- `__set` on the registry: the item is appended, unless `realloc` fails. -/
def setCube (cube : Cube) : Prog Int := do
  match ← ask with
  | .done _ _ => do
      change fun p => { p with cubes := p.cubes ++ [cube] }
      return 0
  | .failed _ => do
      setErrno ENOMEM
      return -1

/-- `__unset` on the registry; the cube is still allocated. -/
def unsetCube (cube : Cube) : Prog Unit :=
  change fun p =>
    { p with
      cubes := p.cubes.filter fun other => other.ptr ≠ cube.ptr
      orphans := cube :: p.orphans }

/-- `__set` on the slices of a cube. -/
def setSlice (cube : Nat) (slice : Slice) : Prog Int := do
  match ← ask with
  | .done _ _ => do
      change (Process.modifyCube cube fun cube =>
        { cube with slices := cube.slices ++ [slice] })
      return 0
  | .failed _ => do
      setErrno ENOMEM
      return -1

end Collection

end CoralApi
