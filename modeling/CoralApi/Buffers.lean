import CoralApi.Containment
import CoralApi.Resize

/-!
# The buffers of the Java binding

An `InAccelByteBuf` keeps the address of its native block twice: in the
`ByteBuffer` in use and in the `Finalize` that runs when the object is
collected.  Any number of buffers share the process and its addresses.
-/

namespace CoralApi

open Program Transition

/-- An `InAccelByteBuf`: the pointer of its `Finalize`, once it is registered,
and what it inherits from Netty, whose constructor calls `allocateDirect` and
whose last release takes the `ByteBuffer` away and calls `freeDirect`. -/
structure InAccelByteBuf where
  pointer : Option Nat
  buffer : Option Block
  maxCapacity : Nat

namespace InAccelByteBuf

/-- `finalize(long ptr)` -/
def finalize (ptr : Nat) (self : InAccelByteBuf) : InAccelByteBuf :=
  { self with pointer := some ptr }

/-- The block that the call gives, or `none` for an `OutOfMemoryError`. -/
def allocateDirect (P : PageSize) (initialCapacity : Nat)
    (self : InAccelByteBuf) : Prog (Option (Block × InAccelByteBuf)) := do
  match ← inaccelAlloc P initialCapacity with
  | none => return none
  | some memoryAddress =>
      return some (⟨memoryAddress, initialCapacity⟩,
        self.finalize memoryAddress)

def freeDirect (buffer : Block) (self : InAccelByteBuf) :
    Prog InAccelByteBuf := do
  inaccelFree buffer.addr
  return self.finalize 0

def reallocateDirect (P : PageSize) (oldBuffer : Block) (initialCapacity : Nat)
    (self : InAccelByteBuf) : Prog (Option (Block × InAccelByteBuf)) := do
  match ← inaccelRealloc P oldBuffer.addr initialCapacity with
  | none => return none
  | some memoryAddress =>
      return some (⟨memoryAddress, initialCapacity⟩,
        self.finalize memoryAddress)

/-- The constructor. -/
def create (P : PageSize) (initialCapacity maxCapacity : Nat) :
    Prog (Option InAccelByteBuf) := do
  match ← allocateDirect P initialCapacity ⟨none, none, maxCapacity⟩ with
  | none => return none
  | some (buffer, self) => return some { self with buffer := some buffer }

/-- `capacity(int newCapacity)` behind `checkNewCapacity`, on a buffer that is
not released. -/
def capacity (P : PageSize) (newCapacity : Nat) (buffer : Block)
    (self : InAccelByteBuf) : Prog (Option InAccelByteBuf) :=
  if newCapacity = buffer.size then return some self
  else do
    match ← reallocateDirect P buffer newCapacity self with
    | none => return none
    | some (buffer, self) => return some { self with buffer := some buffer }

/-- The last `release()`. -/
def release (buffer : Block) (self : InAccelByteBuf) : Prog InAccelByteBuf :=
  freeDirect buffer { self with buffer := none }

/-- `Finalize.run()` -/
def run (self : InAccelByteBuf) : Prog Unit :=
  match self.pointer with
  | none => return ()
  | some ptr => inaccelFree ptr

end InAccelByteBuf

/-- How a native block is given back. -/
inductive Use where
  /-- its buffer passes it to `inaccel_free` -/
  | free (block : Nat)
  /-- a call of `inaccel_realloc` frees it -/
  | realloc (block : Nat)

def Use.block : Use → Nat
  | .free block => block
  | .realloc block => block

/-- No block is passed to `inaccel_free` twice by its buffer, or behind the
call of `inaccel_realloc` that has freed it. -/
def Use.Fine (later earlier : Use) : Prop :=
  ∀ block, later = .free block →
    earlier ≠ .free block ∧ earlier ≠ .realloc block

/-- The buffers of a process.  `block` is the native block that a buffer got,
and `uses` are the blocks given back, the last one first. -/
structure Buffers where
  process : Process
  buffer : Nat → Option InAccelByteBuf
  block : Nat → Nat
  uses : List Use

/-- The calls on a buffer. -/
inductive BufferCall where
  | create (initialCapacity maxCapacity : Nat)
  | capacity (newCapacity : Nat)
  | release
  | finalize

/-- A call on a buffer, and how the calls below it are answered. -/
structure Invocation where
  id : Nat
  call : BufferCall
  errno : Nat
  os : Nat → Reply

/-- The cube that is registered at an address. -/
def Process.nameAt (addr : Nat) (p : Process) : Nat :=
  ((p.cubes.find? fun cube => cube.page.addr == addr).map Cube.ptr).getD 0

namespace Buffers

/-- The block of the buffer is passed to `inaccel_free`, unless the pointer is
NULL. -/
def passes (s : Buffers) (id ptr : Nat) : List Use :=
  if ptr = 0 then [] else [.free (s.block id)]

/-- The block of the buffer is registered no more. -/
def loses (s : Buffers) (id : Nat) (p : Process) : List Use :=
  if s.block id ∈ s.process.cubes.map Cube.ptr ∧
      s.block id ∉ p.cubes.map Cube.ptr then [.realloc (s.block id)]
  else []

/-- A constructor that throws leaves no object. -/
def afterCreate (s : Buffers) (id : Nat)
    (result : EStateM.Result Stop World (Option InAccelByteBuf)) : Buffers :=
  let p := (final result).toProcess
  match returned result with
  | some (some self) =>
      { s with
        process := p
        buffer := Function.update s.buffer id (some self)
        block := Function.update s.block id (p.nameAt (self.pointer.getD 0)) }
  | _ => { s with process := p }

/-- A call that throws leaves the fields of the object. -/
def afterCapacity (s : Buffers) (id : Nat)
    (result : EStateM.Result Stop World (Option InAccelByteBuf)) : Buffers :=
  let p := (final result).toProcess
  { s with
    process := p
    buffer :=
      match returned result with
      | some (some self) => Function.update s.buffer id (some self)
      | _ => s.buffer
    uses := s.loses id p ++ s.uses }

def afterRelease (s : Buffers) (id ptr : Nat)
    (result : EStateM.Result Stop World InAccelByteBuf) : Buffers :=
  { s with
    process := (final result).toProcess
    buffer :=
      match returned result with
      | some self => Function.update s.buffer id (some self)
      | none => s.buffer
    uses := s.passes id ptr ++ s.uses }

/-- The object is gone. -/
def afterFinalize (s : Buffers) (id ptr : Nat)
    (result : EStateM.Result Stop World Unit) : Buffers :=
  { s with
    process := (final result).toProcess
    buffer := Function.update s.buffer id none
    uses := s.passes id ptr ++ s.uses }

/-- The state after a call. -/
def after (P : PageSize) (s : Buffers) (turn : Invocation) : Buffers :=
  let w := s.process.enter turn.errno turn.os
  match turn.call, s.buffer turn.id with
  | .create initialCapacity maxCapacity, _ =>
      s.afterCreate turn.id
        (InAccelByteBuf.create P initialCapacity maxCapacity w)
  | .capacity newCapacity, some self =>
      match self.buffer with
      | some buffer =>
          s.afterCapacity turn.id (self.capacity P newCapacity buffer w)
      | none => s
  | .release, some self =>
      match self.buffer with
      | some buffer =>
          s.afterRelease turn.id buffer.addr (self.release buffer w)
      | none => s
  | .finalize, some self =>
      s.afterFinalize turn.id (self.pointer.getD 0) (self.run w)
  | _, none => s

/-- The buffer is there and not released. -/
def InUse (s : Buffers) (id : Nat) : Prop :=
  ∃ self buffer, s.buffer id = some self ∧ self.buffer = some buffer

/-- Capacities are numbers of Java up to the maximum.  A released buffer has no
capacity to set and is not released again, and a buffer that is collected is
used no more. -/
def Allows (s : Buffers) (turn : Invocation) : Prop :=
  match turn.call with
  | .create initialCapacity maxCapacity =>
      (s.buffer turn.id).isNone = true ∧ initialCapacity ≤ maxCapacity ∧
        maxCapacity < 2 ^ 31
  | .capacity newCapacity => s.InUse turn.id ∧
      ∀ self ∈ s.buffer turn.id, newCapacity ≤ self.maxCapacity
  | .release => s.InUse turn.id
  | .finalize => (s.buffer turn.id).isSome = true

instance (s : Buffers) (id : Nat) : Decidable (s.InUse id) :=
  decidable_of_iff (((s.buffer id).bind (·.buffer)).isSome = true) (by
    simp [InUse, Option.isSome_iff_exists, Option.bind_eq_some_iff, exists_comm])

instance (s : Buffers) (turn : Invocation) : Decidable (s.Allows turn) :=
  match turn with
  | ⟨_, .create _ _, _, _⟩ => inferInstanceAs (Decidable (_ ∧ _ ∧ _))
  | ⟨_, .capacity _, _, _⟩ => inferInstanceAs (Decidable (_ ∧ _))
  | ⟨id, .release, _, _⟩ => inferInstanceAs (Decidable (s.InUse id))
  | ⟨id, .finalize, _, _⟩ =>
      inferInstanceAs (Decidable ((s.buffer id).isSome = true))

def Step (P : PageSize) (s : Buffers) (turn : Invocation) (s' : Buffers) :
    Prop :=
  s.Allows turn ∧ s' = s.after P turn

/-- The pointer is the base of the live block of the buffer. -/
def Bases (s : Buffers) (id ptr : Nat) : Prop :=
  ∃ cube ∈ s.process.cubes, cube.ptr = s.block id ∧ cube.page.addr = ptr

/-- Every pointer in a `Finalize` is NULL or the base of the live block of its
buffer, which is the block that the `ByteBuffer` in use points to. -/
structure Owns (s : Buffers) : Prop where
  pointer : ∀ id self ptr, s.buffer id = some self →
    self.pointer = some ptr → ptr = 0 ∨ s.Bases id ptr
  used : ∀ id self buffer, s.buffer id = some self →
    self.buffer = some buffer →
      self.pointer = some buffer.addr ∧ s.Bases id buffer.addr
  once : s.uses.Pairwise Use.Fine

/-- No buffer was made yet. -/
structure Unused (s : Buffers) : Prop where
  buffer : ∀ id, s.buffer id = none
  uses : s.uses = []

end Buffers

section Blocks

variable {P : PageSize} {w w' : World} {cube : Cube} {size newSize : Nat}

theorem inaccelAlloc_blocks (plotted : w.Plotted P) (free : w.held = []) :
    Ensures (inaccelAlloc P size)
      (fun result w' => w'.Plotted P ∧ w.nextPtr ≤ w'.nextPtr ∧
        match result with
        | none => w'.cubes = w.cubes
        | some addr => size ≠ 0 ∧ ∃ cube, w.nextPtr ≤ cube.ptr ∧
            cube.page.addr = addr ∧ w'.cubes = w.cubes ++ [cube])
      (fun _ _ => False) w := by
  refine (inaccelAlloc_spec free).mono ?_ fun _ _ => id
  intro result w' outcome
  cases outcome with
  | failed beside =>
      have keeps : w.toProcess.Keeps P w'.toProcess :=
        .of_cubes beside.pid beside.cubes beside.orphans beside.nextPtr
          beside.maps
      exact ⟨keeps.plotted plotted, beside.nextPtr, beside.cubes⟩
  | @made ptr addr id _ requested admits fresh effect =>
      have after := @plotted_addCube P w.toProcess
        ⟨ptr, 0, ⟨addr, ceilPagesize P size⟩, w.pid, [], id⟩ plotted rfl
        (dvd_ceilPagesize P size) admits fresh
      have taken : ptr + 1 ≤ w'.nextPtr := effect.nextPtr
      exact ⟨(Process.Keeps.of_agrees effect.agrees).plotted after, by omega,
        requested, _, fresh, rfl, effect.cubes⟩

/-- The block at the address is registered no more, and the others stay. -/
theorem inaccelFree_blocks (plotted : w.Plotted P) (free : w.held = [])
    (member : cube ∈ w.cubes) :
    Ensures (inaccelFree cube.page.addr)
      (fun _ w' => w'.Plotted P ∧ w.nextPtr ≤ w'.nextPtr ∧
        (∀ other ∈ w.cubes, other.ptr ≠ cube.ptr → other ∈ w'.cubes) ∧
        ∀ other ∈ w'.cubes, other.ptr ≠ cube.ptr)
      (fun _ _ => False) w := by
  refine (inaccelFree_spec free).mono ?_ fun _ _ => id
  intro _ w' outcome
  have first := plotted.find?_base member
  cases outcome with
  | missed lost quiet =>
      rcases lost with null | lost
      · exact absurd null (Nat.ne_of_gt (plotted.placed cube member).positive)
      · cases first.symm.trans lost
  | freed given found unmapped effect =>
      cases first.symm.trans found
      have keeps := (keeps_freeCube plotted member unmapped).trans
        (.of_agrees effect.agrees)
      have cubes : w'.cubes = (w.freeCube cube).cubes := effect.cubes
      refine ⟨keeps.plotted plotted, keeps.nextPtr, ?_, ?_⟩
      · intro other also different
        rw [cubes]
        exact Process.mem_freeCube_of_ne also different
      · intro other also
        rw [cubes] at also
        exact (Process.mem_freeCube also).2

/-- A call that gives an address leaves the block there. -/
theorem inaccelRealloc_blocks (plotted : w.Plotted P) (free : w.held = [])
    (member : cube ∈ w.cubes) (asked : newSize ≠ 0) :
    Ensures (inaccelRealloc P cube.page.addr newSize)
      (fun result w' => w'.Plotted P ∧ w.nextPtr ≤ w'.nextPtr ∧
        match result with
        | none => w'.cubes = w.cubes
        | some addr => (∃ page : Block, page.addr = addr ∧
              { cube with page := page } ∈ w'.cubes) ∧
            ∀ other ∈ w.cubes, other.ptr ≠ cube.ptr → other ∈ w'.cubes)
      (fun _ _ => False) w := by
  have given := Nat.ne_of_gt (plotted.placed cube member).positive
  have found := plotted.find?_base member
  refine (inaccelRealloc_exact given asked found free).mono ?_ fun _ _ => id
  rintro result w' ⟨-, outcome⟩
  cases stretched : w.stretch P cube newSize w.os with
  | none =>
      rw [stretched] at outcome
      obtain ⟨rfl, quiet⟩ := outcome
      have after := (Process.Keeps.of_agrees quiet.agrees).plotted plotted
      refine ⟨after, quiet.nextPtr, ?_⟩
      by_cases fits : cube.pid = w.pid ∧ newSize ≤ cube.page.size
      · rw [show w.unmoved cube newSize = some cube.page.addr from if_pos fits]
        dsimp only
        rw [quiet.cubes]
        exact ⟨⟨cube.page, rfl, member⟩, fun _ also _ => also⟩
      · rw [show w.unmoved cube newSize = none from if_neg fits]
        exact quiet.cubes
  | some moved =>
      obtain ⟨page, prot⟩ := moved
      rw [stretched] at outcome
      obtain ⟨rfl, whole, quiet⟩ := outcome
      have grows : w.growth P cube.page.addr newSize w.os =
          some (cube, page, prot) := by
        simp [Process.growth_eq given, found, stretched]
      obtain ⟨-, -, -, -, -, admits⟩ := growth_eq grows
      have pages : P.bytes ∣ page.size := whole ▸ dvd_ceilPagesize P newSize
      have after := (Process.Keeps.of_agrees quiet.agrees).plotted
        (plotted_moveCube plotted member pages admits)
      have cubes : w'.cubes = (w.moveCube P cube page prot).cubes := quiet.cubes
      refine ⟨after, quiet.nextPtr, ⟨page, rfl, ?_⟩, ?_⟩
      · rw [cubes]
        exact List.mem_map.mpr ⟨cube, member, if_pos rfl⟩
      · intro other also different
        rw [cubes]
        exact List.mem_map.mpr ⟨other, also, if_neg different⟩

/-- The call frees the block and returns NULL. -/
theorem inaccelRealloc_gone (plotted : w.Plotted P) (free : w.held = [])
    (member : cube ∈ w.cubes) :
    Ensures (inaccelRealloc P cube.page.addr 0)
      (fun result w' => result = none ∧
        ∀ other ∈ w'.cubes, other.ptr ≠ cube.ptr)
      (fun _ _ => False) w := by
  have given := Nat.ne_of_gt (plotted.placed cube member).positive
  rw [inaccelRealloc_eq, if_neg given, if_pos rfl]
  refine (inaccelFree_blocks plotted free member).bind ?_
  rintro _ w' ⟨-, -, -, gone⟩
  exact Ensures.step rfl ⟨rfl, gone⟩

theorem inaccelFree_null (free : w.held = []) :
    Ensures (inaccelFree 0) (fun _ w' => w.Quiet w') (fun _ _ => False) w := by
  refine (inaccelFree_spec free).mono ?_ fun _ _ => id
  intro _ w' outcome
  cases outcome with
  | missed _ quiet => exact quiet
  | freed given => exact absurd rfl given

end Blocks

namespace InAccelByteBuf

variable {P : PageSize} {w : World} {cube : Cube} {self : InAccelByteBuf}
  {buffer : Block} {initialCapacity maxCapacity newCapacity : Nat}

/-- A new buffer has a new block. -/
theorem create_spec (initialCapacity maxCapacity : Nat)
    (plotted : w.Plotted P) (free : w.held = []) :
    Ensures (create P initialCapacity maxCapacity)
      (fun result w' => w'.Plotted P ∧ w.nextPtr ≤ w'.nextPtr ∧
        match result with
        | none => w'.cubes = w.cubes
        | some self => initialCapacity ≠ 0 ∧ ∃ cube, w.nextPtr ≤ cube.ptr ∧
            w'.cubes = w.cubes ++ [cube] ∧
            self = ⟨some cube.page.addr,
              some ⟨cube.page.addr, initialCapacity⟩, maxCapacity⟩)
      (fun _ _ => False) w := by
  unfold create allocateDirect
  rw [bind_assoc]
  refine (inaccelAlloc_blocks plotted free).bind ?_
  rintro (_ | memoryAddress) w' outcome
  · exact outcome
  · obtain ⟨after, nextPtr, asked, cube, new, rfl, cubes⟩ := outcome
    exact ⟨after, nextPtr, asked, cube, new, cubes, rfl⟩

/-- A call that throws leaves the blocks, and one that returns leaves the
buffer its block. -/
theorem capacity_spec (plotted : w.Plotted P) (free : w.held = [])
    (member : cube ∈ w.cubes) (base : cube.page.addr = buffer.addr)
    (pointer : self.pointer = some buffer.addr)
    (used : self.buffer = some buffer) (asked : newCapacity ≠ 0) :
    Ensures (self.capacity P newCapacity buffer)
      (fun result w' => w'.Plotted P ∧ w.nextPtr ≤ w'.nextPtr ∧
        match result with
        | none => w'.cubes = w.cubes
        | some self' => (∃ page : Block, { cube with page := page } ∈ w'.cubes ∧
              self' = ⟨some page.addr, some ⟨page.addr, newCapacity⟩,
                self.maxCapacity⟩) ∧
            ∀ other ∈ w.cubes, other.ptr ≠ cube.ptr → other ∈ w'.cubes)
      (fun _ _ => False) w := by
  unfold capacity
  split
  · rename_i same
    refine ⟨plotted, Nat.le_refl _, ⟨cube.page, member, ?_⟩,
      fun _ also _ => also⟩
    obtain ⟨_, _, _⟩ := self
    cases pointer
    cases used
    rw [base, same]
  · unfold reallocateDirect
    rw [bind_assoc, ← base]
    refine (inaccelRealloc_blocks plotted free member asked).bind ?_
    rintro (_ | memoryAddress) w' outcome
    · exact outcome
    · obtain ⟨after, nextPtr, ⟨page, rfl, inside⟩, stays⟩ := outcome
      exact ⟨after, nextPtr, ⟨page, inside, rfl⟩, stays⟩

/-- It throws for a call that frees the block. -/
theorem capacity_zero (self : InAccelByteBuf) (plotted : w.Plotted P)
    (free : w.held = []) (member : cube ∈ w.cubes)
    (base : cube.page.addr = buffer.addr) (nonempty : buffer.size ≠ 0) :
    Ensures (self.capacity P 0 buffer)
      (fun result w' => result = none ∧
        ∀ other ∈ w'.cubes, other.ptr ≠ cube.ptr)
      (fun _ _ => False) w := by
  unfold capacity reallocateDirect
  rw [if_neg (Ne.symm nonempty), bind_assoc, ← base]
  refine (inaccelRealloc_gone plotted free member).bind ?_
  rintro _ w' ⟨rfl, gone⟩
  exact ⟨rfl, gone⟩

theorem release_spec (self : InAccelByteBuf) (plotted : w.Plotted P)
    (free : w.held = []) (member : cube ∈ w.cubes)
    (base : cube.page.addr = buffer.addr) :
    Ensures (self.release buffer)
      (fun result w' => w'.Plotted P ∧ w.nextPtr ≤ w'.nextPtr ∧
        result = ⟨some 0, none, self.maxCapacity⟩ ∧
        ∀ other ∈ w.cubes, other.ptr ≠ cube.ptr → other ∈ w'.cubes)
      (fun _ _ => False) w := by
  unfold release freeDirect
  rw [← base]
  refine (inaccelFree_blocks plotted free member).bind ?_
  rintro _ w' ⟨after, nextPtr, stays, -⟩
  exact ⟨after, nextPtr, rfl, stays⟩

end InAccelByteBuf

theorem Use.fine_of_ne {later earlier : Use}
    (different : earlier.block ≠ later.block) : later.Fine earlier := by
  rintro block rfl
  exact ⟨fun same => different (same ▸ rfl), fun same => different (same ▸ rfl)⟩

namespace Buffers

/-- A buffer is released, or both of its pointers are the base of its block. -/
def Holds (s : Buffers) (id : Nat) (self : InAccelByteBuf) : Prop :=
  match self.buffer with
  | none => self.pointer = some 0
  | some buffer => self.pointer = some buffer.addr ∧ buffer.size ≠ 0 ∧
      s.Bases id buffer.addr

/-- What the calls keep unless a capacity is set to zero: no two buffers have
one block, and the block of a buffer in use was never given back. -/
structure Sound (P : PageSize) (s : Buffers) : Prop where
  plotted : s.process.Plotted P
  held : ∀ id self, s.buffer id = some self → s.Holds id self
  apart : ∀ id other, s.InUse id → s.InUse other →
    s.block id = s.block other → id = other
  unspent : ∀ id, s.InUse id → ∀ use ∈ s.uses, use.block ≠ s.block id
  known : ∀ use ∈ s.uses, use.block < s.process.nextPtr
  once : s.uses.Pairwise Use.Fine

section Turns

variable {P : PageSize} {s s' : Buffers} {id : Nat} {self : InAccelByteBuf}
  {buffer : Block}

theorem Unused.sound (unused : s.Unused) (plotted : s.process.Plotted P) :
    s.Sound P where
  plotted := plotted
  held id self found := by simp [unused.buffer] at found
  apart id _ inUse := by
    obtain ⟨self, _, found, _⟩ := inUse
    simp [unused.buffer] at found
  unspent := by simp [unused.uses]
  known := by simp [unused.uses]
  once := by simp [unused.uses]

theorem Sound.inUse (sound : s.Sound P) (found : s.buffer id = some self)
    (used : self.buffer = some buffer) :
    self.pointer = some buffer.addr ∧ buffer.size ≠ 0 ∧
      s.Bases id buffer.addr := by
  have held := sound.held id self found
  rwa [Holds, used] at held

theorem Sound.released (sound : s.Sound P) (found : s.buffer id = some self)
    (released : self.buffer = none) : self.pointer = some 0 := by
  have held := sound.held id self found
  rwa [Holds, released] at held

theorem Sound.owns (sound : s.Sound P) : s.Owns where
  pointer id self ptr found points := by
    cases used : self.buffer with
    | none =>
        have null := sound.released found used
        exact .inl (Option.some.inj (points.symm.trans null))
    | some buffer =>
        obtain ⟨same, -, bases⟩ := sound.inUse found used
        cases points.symm.trans same
        exact .inr bases
  used id self buffer found used := by
    obtain ⟨same, -, bases⟩ := sound.inUse found used
    exact ⟨same, bases⟩
  once := sound.once

theorem Sound.block_lt (sound : s.Sound P) (inUse : s.InUse id) :
    s.block id < s.process.nextPtr := by
  obtain ⟨self, buffer, found, used⟩ := inUse
  obtain ⟨-, -, cube, member, same, -⟩ := sound.inUse found used
  rw [← same]
  exact sound.plotted.named.fresh _
    (Process.Named.ptr_mem (List.mem_append_left _ member))

/-- A call on one buffer: the blocks of the others stay, and its own block is
the one it had, a new one, or the one that it gives back. -/
structure Turn (P : PageSize) (s s' : Buffers) (id : Nat) : Prop where
  plotted : s'.process.Plotted P
  nextPtr : s.process.nextPtr ≤ s'.process.nextPtr
  buffers : ∀ other, other ≠ id → s'.buffer other = s.buffer other
  blocks : ∀ other, other ≠ id → s'.block other = s.block other
  stays : ∀ cube ∈ s.process.cubes,
    (s.InUse id → cube.ptr ≠ s.block id) → cube ∈ s'.process.cubes
  held : ∀ self, s'.buffer id = some self → s'.Holds id self
  own : s'.InUse id → s.InUse id ∧ s'.block id = s.block id ∨
    s.process.nextPtr ≤ s'.block id
  uses : s'.uses = s.uses ∨ s.InUse id ∧ ¬s'.InUse id ∧
    s'.uses = .free (s.block id) :: s.uses

namespace Turn

theorem kept {other : Nat} (turn : Turn P s s' id) (inUse : s'.InUse other) :
    s.InUse other ∧ s'.block other = s.block other ∨
      other = id ∧ s.process.nextPtr ≤ s'.block other := by
  by_cases here : other = id
  · subst here
    exact (turn.own inUse).imp_right fun new => ⟨rfl, new⟩
  · refine .inl ⟨?_, turn.blocks other here⟩
    rwa [InUse, ← turn.buffers other here]

/-- A block that was given back is not one in use. -/
theorem old {other : Nat} {use : Use} (turn : Turn P s s' id)
    (sound : s.Sound P) (given : use ∈ s.uses) (inUse : s'.InUse other) :
    use.block ≠ s'.block other := by
  rcases turn.kept inUse with ⟨before, same⟩ | ⟨-, new⟩
  · rw [same]
    exact sound.unspent other before use given
  · exact Nat.ne_of_lt (Nat.lt_of_lt_of_le (sound.known use given) new)

theorem holds {other : Nat} (turn : Turn P s s' id) (sound : s.Sound P)
    (found : s'.buffer other = some self) : s'.Holds other self := by
  by_cases here : other = id
  · subst here
    exact turn.held self found
  · have before := (turn.buffers other here).symm.trans found
    cases used : self.buffer with
    | none =>
        rw [Holds, used]
        exact sound.released before used
    | some buffer =>
        obtain ⟨points, nonempty, cube, member, same, base⟩ :=
          sound.inUse before used
        have left := turn.stays cube member fun inUse also => here
          (sound.apart other id ⟨self, buffer, before, used⟩ inUse
            (same.symm.trans also))
        rw [Holds, used]
        exact ⟨points, nonempty, cube, left,
          same.trans (turn.blocks other here).symm, base⟩

theorem apart {one other : Nat} (turn : Turn P s s' id) (sound : s.Sound P)
    (inUse : s'.InUse one) (also : s'.InUse other)
    (same : s'.block one = s'.block other) : one = other := by
  rcases turn.kept inUse with ⟨before, block⟩ | ⟨rfl, new⟩
  · rcases turn.kept also with ⟨before', block'⟩ | ⟨-, new⟩
    · exact sound.apart one other before before'
        (block.symm.trans (same.trans block'))
    · have below := sound.block_lt before
      omega
  · rcases turn.kept also with ⟨before', block'⟩ | ⟨rfl, -⟩
    · have below := sound.block_lt before'
      omega
    · rfl

theorem sound (turn : Turn P s s' id) (sound : s.Sound P) : s'.Sound P := by
  refine ⟨turn.plotted, fun other self => turn.holds sound,
    fun one other => turn.apart sound, ?_, ?_, ?_⟩
  · intro other inUse use given
    rcases turn.uses with same | ⟨before, gone, spent⟩
    · exact turn.old sound (same ▸ given) inUse
    · rw [spent] at given
      rcases List.mem_cons.mp given with rfl | earlier
      · rcases turn.kept inUse with ⟨before', block⟩ | ⟨rfl, -⟩
        · intro same
          have here := sound.apart id other before before' (same.trans block)
          exact gone (here ▸ inUse)
        · exact absurd inUse gone
      · exact turn.old sound earlier inUse
  · intro use given
    refine Nat.lt_of_lt_of_le ?_ turn.nextPtr
    rcases turn.uses with same | ⟨before, -, spent⟩
    · exact sound.known use (same ▸ given)
    · rw [spent] at given
      rcases List.mem_cons.mp given with rfl | earlier
      · exact sound.block_lt before
      · exact sound.known use earlier
  · rcases turn.uses with same | ⟨before, -, spent⟩
    · exact same ▸ sound.once
    · rw [spent]
      exact List.pairwise_cons.mpr ⟨fun earlier given =>
        Use.fine_of_ne (sound.unspent id before earlier given), sound.once⟩

end Turn

theorem nameAt_base {p : Process} {cube : Cube} (plotted : p.Plotted P)
    (member : cube ∈ p.cubes) : p.nameAt cube.page.addr = cube.ptr := by
  rw [Process.nameAt, plotted.find?_base member]
  rfl

/-- A call that leaves the buffers and the blocks. -/
theorem Sound.beside {p : Process} (sound : s.Sound P) (plotted : p.Plotted P)
    (nextPtr : s.process.nextPtr ≤ p.nextPtr)
    (cubes : p.cubes = s.process.cubes) :
    { s with process := p }.Sound P where
  plotted := plotted
  held id self found := by
    have held := sound.held id self found
    unfold Holds Bases at held ⊢
    rwa [cubes]
  apart := sound.apart
  unspent := sound.unspent
  known use given := Nat.lt_of_lt_of_le (sound.known use given) nextPtr
  once := sound.once

theorem loses_eq_nil {p : Process}
    (stays : s.block id ∈ p.cubes.map Cube.ptr) : s.loses id p = [] :=
  if_neg fun lost => lost.2 stays

variable {errno initialCapacity maxCapacity newCapacity : Nat}
  {os : Nat → Reply}

theorem Sound.create (sound : s.Sound P) (new : s.buffer id = none) :
    (s.afterCreate id (InAccelByteBuf.create P initialCapacity maxCapacity
      (s.process.enter errno os))).Sound P := by
  obtain ⟨result, w, run, plotted, nextPtr, outcome⟩ :=
    (InAccelByteBuf.create_spec (P := P) (w := s.process.enter errno os)
      initialCapacity maxCapacity sound.plotted rfl).exists_ok
  rw [run]
  cases result with
  | none => exact sound.beside plotted nextPtr outcome
  | some self =>
      obtain ⟨asked, cube, fresh, cubes, rfl⟩ := outcome
      have member : cube ∈ w.cubes := by simp [cubes]
      have name := nameAt_base plotted member
      have unused : ¬s.InUse id := by
        rintro ⟨self, -, found, -⟩
        simp [new] at found
      have block := name.symm.trans (Function.update_self id _ s.block).symm
      refine @Turn.sound P s _ id ⟨plotted, nextPtr, ?_, ?_, ?_, ?_,
        fun _ => .inr (fresh.trans_eq block), .inl rfl⟩ sound
      · exact fun other away => Function.update_of_ne away _ _
      · exact fun other away => Function.update_of_ne away _ _
      · intro other also _
        exact cubes ▸ List.mem_append_left _ also
      · intro self found
        cases (Function.update_self id _ s.buffer).symm.trans found
        exact ⟨rfl, asked, cube, member, block, rfl⟩

theorem Sound.capacity (sound : s.Sound P) (found : s.buffer id = some self)
    (used : self.buffer = some buffer) (asked : newCapacity ≠ 0) :
    (s.afterCapacity id (self.capacity P newCapacity buffer
      (s.process.enter errno os))).Sound P := by
  obtain ⟨points, -, cube, member, same, base⟩ := sound.inUse found used
  obtain ⟨result, w, run, plotted, nextPtr, outcome⟩ :=
    (InAccelByteBuf.capacity_spec (w := s.process.enter errno os) sound.plotted
      rfl member base points used asked).exists_ok
  rw [run]
  cases result with
  | none =>
      have stays : s.block id ∈ w.cubes.map Cube.ptr := by
        rw [outcome]
        exact List.mem_map.mpr ⟨cube, member, same⟩
      have left : s.afterCapacity id (.ok none w) =
          { s with process := w.toProcess } :=
        congrArg (fun lost => Buffers.mk w.toProcess s.buffer s.block
          (lost ++ s.uses)) (loses_eq_nil stays)
      rw [left]
      exact sound.beside plotted nextPtr outcome
  | some self' =>
      obtain ⟨⟨page, inside, rfl⟩, others⟩ := outcome
      have stays : s.block id ∈ w.cubes.map Cube.ptr :=
        List.mem_map.mpr ⟨_, inside, same⟩
      have inUse : s.InUse id := ⟨self, buffer, found, used⟩
      refine @Turn.sound P s _ id ⟨plotted, nextPtr, ?_, fun _ _ => rfl, ?_, ?_,
        fun _ => .inl ⟨inUse, rfl⟩,
        .inl (congrArg (· ++ s.uses) (loses_eq_nil stays))⟩ sound
      · exact fun other away => Function.update_of_ne away _ _
      · intro other also different
        exact others other also fun this => different inUse (this.trans same)
      · intro self' after
        cases (Function.update_self id _ s.buffer).symm.trans after
        exact ⟨rfl, asked, _, inside, same, rfl⟩

theorem Sound.passes (sound : s.Sound P) (bases : s.Bases id buffer.addr) :
    s.passes id buffer.addr = [.free (s.block id)] := by
  obtain ⟨cube, member, -, base⟩ := bases
  have positive := (sound.plotted.placed cube member).positive
  exact if_neg (Nat.ne_of_gt (base ▸ positive))

theorem Sound.release (sound : s.Sound P) (found : s.buffer id = some self)
    (used : self.buffer = some buffer) :
    (s.afterRelease id buffer.addr (self.release buffer
      (s.process.enter errno os))).Sound P := by
  obtain ⟨-, -, bases⟩ := sound.inUse found used
  have spent := sound.passes bases
  obtain ⟨cube, member, same, base⟩ := bases
  obtain ⟨result, w, run, plotted, nextPtr, rfl, others⟩ :=
    (InAccelByteBuf.release_spec (w := s.process.enter errno os) self
      sound.plotted rfl member base).exists_ok
  rw [run]
  have inUse : s.InUse id := ⟨self, buffer, found, used⟩
  have gone : ¬(s.afterRelease id buffer.addr
      (.ok ⟨some 0, none, self.maxCapacity⟩ w)).InUse id := by
    rintro ⟨self, buffer, after, used⟩
    cases (Function.update_self id _ s.buffer).symm.trans after
    cases used
  refine @Turn.sound P s _ id ⟨plotted, nextPtr, ?_, fun _ _ => rfl, ?_, ?_,
    fun after => absurd after gone,
    .inr ⟨inUse, gone, congrArg (· ++ s.uses) spent⟩⟩ sound
  · exact fun other away => Function.update_of_ne away _ _
  · intro other also different
    exact others other also fun this => different inUse (this.trans same)
  · intro self after
    cases (Function.update_self id _ s.buffer).symm.trans after
    rfl

/-- The object of a released buffer passes NULL. -/
theorem Sound.finalize (sound : s.Sound P) (found : s.buffer id = some self) :
    (s.afterFinalize id (self.pointer.getD 0)
      (self.run (s.process.enter errno os))).Sound P := by
  have gone : ∀ result ptr, ¬(s.afterFinalize id ptr result).InUse id := by
    rintro result ptr ⟨self, buffer, after, -⟩
    cases (Function.update_self id _ s.buffer).symm.trans after
  have held : ∀ result ptr self,
      (s.afterFinalize id ptr result).buffer id = some self →
        (s.afterFinalize id ptr result).Holds id self := by
    intro result ptr self after
    cases (Function.update_self id _ s.buffer).symm.trans after
  unfold InAccelByteBuf.run
  cases used : self.buffer with
  | none =>
      rw [sound.released found used]
      obtain ⟨result, w, run, quiet⟩ :=
        (inaccelFree_null (w := s.process.enter errno os) rfl).exists_ok
      have run : inaccelFree 0 (s.process.enter errno os) = .ok result w := run
      have plotted := (Process.Keeps.of_agrees quiet.agrees).plotted
        sound.plotted
      dsimp only
      rw [run]
      refine @Turn.sound P s _ id ⟨plotted, quiet.nextPtr, ?_, fun _ _ => rfl,
        ?_, held _ _, fun after => absurd after (gone _ _), .inl rfl⟩ sound
      · exact fun other away => Function.update_of_ne away _ _
      · intro other also _
        exact quiet.cubes ▸ also
  | some buffer =>
      obtain ⟨points, -, bases⟩ := sound.inUse found used
      have spent := sound.passes bases
      obtain ⟨cube, member, same, base⟩ := bases
      obtain ⟨result, w, run, plotted, nextPtr, others, -⟩ :=
        (inaccelFree_blocks (w := s.process.enter errno os) sound.plotted rfl
          member).exists_ok
      have inUse : s.InUse id := ⟨self, buffer, found, used⟩
      rw [points]
      dsimp only
      rw [← base, run, base]
      refine @Turn.sound P s _ id ⟨plotted, nextPtr, ?_, fun _ _ => rfl, ?_,
        held _ _, fun after => absurd after (gone _ _),
        .inr ⟨inUse, gone _ _, congrArg (· ++ s.uses) spent⟩⟩ sound
      · exact fun other away => Function.update_of_ne away _ _
      · intro other also different
        exact others other also fun this => different inUse (this.trans same)

theorem after_capacity (found : s.buffer id = some self)
    (used : self.buffer = some buffer) :
    s.after P ⟨id, .capacity newCapacity, errno, os⟩ =
      s.afterCapacity id (self.capacity P newCapacity buffer
        (s.process.enter errno os)) := by
  simp only [after, found, used]

theorem after_release (found : s.buffer id = some self)
    (used : self.buffer = some buffer) :
    s.after P ⟨id, .release, errno, os⟩ =
      s.afterRelease id buffer.addr (self.release buffer
        (s.process.enter errno os)) := by
  simp only [after, found, used]

theorem after_finalize (found : s.buffer id = some self) :
    s.after P ⟨id, .finalize, errno, os⟩ =
      s.afterFinalize id (self.pointer.getD 0)
        (self.run (s.process.enter errno os)) := by
  simp only [after, found]

/-- The block that is registered at the base of a buffer in use is its own. -/
theorem Sound.nameAt (sound : s.Sound P) (found : s.buffer id = some self)
    (used : self.buffer = some buffer) :
    s.process.nameAt buffer.addr = s.block id := by
  obtain ⟨-, -, cube, member, same, base⟩ := sound.inUse found used
  rw [← base, nameAt_base sound.plotted member, same]

/-- The last release and the finalization of a buffer in use call
`inaccel_free` with an address, and the log gets the block registered there. -/
theorem Sound.logs_free {call : BufferCall} (sound : s.Sound P)
    (found : s.buffer id = some self) (used : self.buffer = some buffer)
    (frees : call = .release ∨ call = .finalize) :
    (s.after P ⟨id, call, errno, os⟩).process = (final
        (inaccelFree buffer.addr (s.process.enter errno os))).toProcess ∧
      (s.after P ⟨id, call, errno, os⟩).uses =
        .free (s.process.nameAt buffer.addr) :: s.uses := by
  obtain ⟨points, -, bases⟩ := sound.inUse found used
  have logged : s.passes id buffer.addr ++ s.uses =
      .free (s.process.nameAt buffer.addr) :: s.uses := by
    rw [sound.passes bases, sound.nameAt found used, List.singleton_append]
  rcases frees with rfl | rfl
  · rw [after_release found used]
    refine ⟨?_, logged⟩
    show (final (self.release buffer (s.process.enter errno os))).toProcess = _
    unfold InAccelByteBuf.release InAccelByteBuf.freeDirect
    rw [final_bind_of fun _ _ => rfl]
  · rw [after_finalize found, points]
    refine ⟨?_, logged⟩
    show (final (self.run (s.process.enter errno os))).toProcess = _
    rw [InAccelByteBuf.run, points]

/-- The finalization of a released buffer passes NULL, and the log is left
alone. -/
theorem Sound.logs_released (sound : s.Sound P)
    (found : s.buffer id = some self) (released : self.buffer = none) :
    (s.after P ⟨id, .finalize, errno, os⟩).process =
        (final (inaccelFree 0 (s.process.enter errno os))).toProcess ∧
      (s.after P ⟨id, .finalize, errno, os⟩).uses = s.uses := by
  have points := sound.released found released
  rw [after_finalize found, points]
  refine ⟨?_, rfl⟩
  show (final (self.run (s.process.enter errno os))).toProcess = _
  rw [InAccelByteBuf.run, points]

/-- A new capacity calls `inaccel_realloc`.  The log gets the block registered
at the address if the call frees it, which it does for the capacity zero. -/
theorem Sound.logs_realloc (sound : s.Sound P)
    (found : s.buffer id = some self) (used : self.buffer = some buffer)
    (other : newCapacity ≠ buffer.size) :
    (s.after P ⟨id, .capacity newCapacity, errno, os⟩).process = (final
        (inaccelRealloc P buffer.addr newCapacity
          (s.process.enter errno os))).toProcess ∧
      (s.after P ⟨id, .capacity newCapacity, errno, os⟩).uses =
        if newCapacity = 0 then
          .realloc (s.process.nameAt buffer.addr) :: s.uses
        else s.uses := by
  rw [after_capacity found used]
  constructor
  · show (final (self.capacity P newCapacity buffer
      (s.process.enter errno os))).toProcess = _
    unfold InAccelByteBuf.capacity InAccelByteBuf.reallocateDirect
    rw [if_neg other, bind_assoc, final_bind_of]
    intro result w
    cases result <;> rfl
  · obtain ⟨points, nonempty, cube, member, same, base⟩ :=
      sound.inUse found used
    show s.loses id _ ++ s.uses = _
    by_cases asked : newCapacity = 0
    · subst asked
      obtain ⟨result, w, run, -, gone⟩ :=
        (InAccelByteBuf.capacity_zero (w := s.process.enter errno os) self
          sound.plotted rfl member base nonempty).exists_ok
      have lost : s.block id ∉ w.cubes.map Cube.ptr := by
        intro left
        obtain ⟨other, also, left⟩ := List.mem_map.mp left
        exact gone other also (left.trans same.symm)
      rw [run, if_pos rfl, sound.nameAt found used]
      exact congrArg (· ++ s.uses)
        (if_pos ⟨List.mem_map.mpr ⟨cube, member, same⟩, lost⟩)
    · obtain ⟨result, w, run, -, -, outcome⟩ :=
        (InAccelByteBuf.capacity_spec (w := s.process.enter errno os)
          sound.plotted rfl member base points used asked).exists_ok
      have stays : s.block id ∈ w.cubes.map Cube.ptr := by
        cases result with
        | none => exact outcome ▸ List.mem_map.mpr ⟨cube, member, same⟩
        | some self' =>
            obtain ⟨⟨page, inside, -⟩, -⟩ := outcome
            exact List.mem_map.mpr ⟨_, inside, same⟩
      rw [run, if_neg asked]
      exact congrArg (· ++ s.uses) (loses_eq_nil stays)

theorem Sound.after {turn : Invocation} (sound : s.Sound P)
    (allowed : s.Allows turn) (positive : turn.call ≠ .capacity 0) :
    (s.after P turn).Sound P := by
  obtain ⟨id, call, errno, os⟩ := turn
  cases call with
  | create initialCapacity maxCapacity =>
      exact sound.create (Option.isNone_iff_eq_none.mp allowed.1)
  | capacity newCapacity =>
      obtain ⟨self, buffer, found, used⟩ := allowed.1
      rw [after_capacity found used]
      exact sound.capacity found used fun zero => positive (zero ▸ rfl)
  | release =>
      obtain ⟨self, buffer, found, used⟩ := allowed
      rw [after_release found used]
      exact sound.release found used
  | finalize =>
      obtain ⟨self, found⟩ := Option.isSome_iff_exists.mp allowed
      rw [after_finalize found]
      exact sound.finalize found

/-- The call frees the block and throws, and the buffer keeps its pointers. -/
theorem Sound.breaks {turn : Invocation} (sound : s.Sound P)
    (allowed : s.Allows turn) (zero : turn.call = .capacity 0) :
    ¬(s.after P turn).Owns := by
  obtain ⟨id, call, errno, os⟩ := turn
  subst zero
  obtain ⟨self, buffer, found, used⟩ := allowed.1
  obtain ⟨-, nonempty, cube, member, same, base⟩ := sound.inUse found used
  obtain ⟨result, w, run, rfl, gone⟩ :=
    (InAccelByteBuf.capacity_zero (w := s.process.enter errno os) self
      sound.plotted rfl member base nonempty).exists_ok
  rw [after_capacity found used, run]
  intro owns
  obtain ⟨-, other, also, left, -⟩ := owns.used id self buffer found used
  exact gone other also (left.trans same.symm)

/-- Every state of the run owns its blocks. -/
def OwnsThroughout (trace : List (Buffers × Invocation)) (finish : Buffers) :
    Prop :=
  ∀ s ∈ visited trace finish, s.Owns

/-- The buffers own their blocks unless a capacity is set to zero. -/
theorem ownsThroughout_iff {p : Process} {start finish : Buffers}
    {events : List (Process × Happening)} {trace : List (Buffers × Invocation)}
    (fresh : p.Fresh) (before : Run (Descent P) p events start.process)
    (unused : start.Unused) (run : Run (Step P) start trace finish) :
    OwnsThroughout trace finish ↔
      ∀ point ∈ trace, point.2.call ≠ .capacity 0 := by
  have initial := unused.sound (run_surveyed fresh before).plotted
  refine run.visits_iff_of_breaks (Sound P) Owns
    (fun _ turn => turn.call ≠ .capacity 0) (fun _ => Sound.owns) ?_ ?_ initial
  · rintro s turn _ sound positive ⟨allowed, rfl⟩
    exact sound.after allowed positive
  · rintro s turn _ sound zero ⟨allowed, rfl⟩
    exact sound.breaks allowed (not_not.mp zero)

end Turns

/-- A process without buffers. -/
def initial : Buffers := ⟨.loaded 1 "d", fun _ => none, fun _ => 0, []⟩

theorem initial_unused : initial.Unused := ⟨fun _ => rfl, rfl⟩

/-- A call on the first buffer, whose calls of the system succeed. -/
def smooth (call : BufferCall) : Invocation :=
  ⟨0, call, 0, fun _ => .done 131072 ""⟩

def created : Buffers := initial.after .small (smooth (.create 1 8192))

/-- A buffer of one byte gets another capacity. -/
theorem run_resized {newCapacity : Nat} (admitted : newCapacity ≤ 8192) :
    Run (Step .small) initial
      [(initial, smooth (.create 1 8192)),
        (created, smooth (.capacity newCapacity))]
      (created.after .small (smooth (.capacity newCapacity))) := by
  have inUse : created.InUse 0 := by decide +kernel
  have limits : ∀ self ∈ created.buffer 0, 8192 ≤ self.maxCapacity := by
    decide +kernel
  refine .cons ⟨by decide, rfl⟩ (.cons ⟨⟨inUse, ?_⟩, rfl⟩ (.nil _))
  exact fun self found => Nat.le_trans admitted (limits self found)

theorem ownsThroughout_grown :
    OwnsThroughout
      [(initial, smooth (.create 1 8192)),
        (created, smooth (.capacity 8192))]
      (created.after .small (smooth (.capacity 8192))) :=
  (ownsThroughout_iff ⟨rfl, rfl⟩ (.nil _) initial_unused
    (run_resized (Nat.le_refl _))).mpr (by simp [smooth])

/-- `capacity(0)` -/
theorem not_ownsThroughout_emptied :
    ¬∀ (P : PageSize) (p : Process) (start finish : Buffers)
      (events : List (Process × Happening))
      (trace : List (Buffers × Invocation)), p.Fresh →
      Run (Descent P) p events start.process → start.Unused →
      Run (Step P) start trace finish → OwnsThroughout trace finish := by
  intro claim
  have owns := claim .small _ _ _ _ _ ⟨rfl, rfl⟩ (.nil _) initial_unused
    (run_resized (Nat.zero_le _)) _ (finish_mem_visited _ _)
  obtain ⟨self, buffer, found, used⟩ :
      (created.after .small (smooth (.capacity 0))).InUse 0 := by
    decide +kernel
  obtain ⟨-, cube, member, -⟩ := owns.used 0 self buffer found used
  have empty : (created.after .small (smooth (.capacity 0))).process.cubes =
      [] := by decide +kernel
  rw [empty] at member
  cases member

end Buffers

end CoralApi
