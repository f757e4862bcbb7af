import CoralApi.Files
import CoralApi.Library.Transition

/-!
# A process and its host program

The events of a process: calls of the library, stores by the host program, and
faults that wake up.  `Deed` lists what an event can do to the cubes, the
mappings and the page protections; the step functions do not occur after
`event_deed`.
-/

namespace CoralApi

open Program

/-- The block has a byte at the address. -/
def Block.Holds (block : Block) (addr : Nat) : Prop :=
  block.addr ≤ addr ∧ addr < block.addr + block.size

instance (block : Block) (addr : Nat) : Decidable (block.Holds addr) :=
  inferInstanceAs (Decidable (_ ∧ _))

/-- A host store: the byte goes into the file that is mapped at the address,
which after a fork is a file of the parent. -/
def Process.storeByte (addr : Nat) (byte : UInt8) (p : Process) : Process :=
  match p.maps.find? fun mapping => mapping.block.Holds addr with
  | none => p
  | some mapping =>
      { p with
        files := p.files.map fun file =>
          if file.dir = mapping.dir ∧ file.id = mapping.id then
            { file with
              bytes := Function.update file.bytes
                (addr - mapping.block.addr) byte }
          else file }

/-- A store to the page of an address takes effect. -/
def Process.Writable (P : PageSize) (addr : Nat) (p : Process) : Prop :=
  p.prot (addr / P.bytes) = .readWrite

instance (P : PageSize) (addr : Nat) (p : Process) :
    Decidable (p.Writable P addr) :=
  inferInstanceAs (Decidable (_ = _))

/-- One try of a store: it takes effect, or the handler of the fault runs and
the store is tried again later. -/
def hostStore (P : PageSize) (addr : Nat) (byte : UInt8) : Prog Unit := do
  let w ← get
  if w.Writable P addr then change (Process.storeByte addr byte)
  else do
    let _ ← access P addr

inductive Op where
  | alloc (size : Nat)
  | free (addr : Nat)
  | realloc (addr newSize : Nat)
  | slice (addr size : Nat)
  | attach (slice : Nat)
  | detach (slice : Nat)
  | store (addr : Nat) (byte : UInt8)
  | woken (slice : Nat) (error : Option Errno)

namespace Op

def run (P : PageSize) : Op → Prog Unit
  | .alloc size => do let _ ← inaccelAlloc P size
  | .free addr => do let _ ← inaccelFree addr
  | .realloc addr newSize => do let _ ← inaccelRealloc P addr newSize
  | .slice addr size => do let _ ← CoralApi.slice P addr size
  | .attach ptr => do let _ ← CoralApi.attach P ptr
  | .detach ptr => do let _ ← CoralApi.detach ptr
  | .store addr byte => hostStore P addr byte
  | .woken ptr error => do let _ ← accessWoken ptr error

/-- Sizes are words and slices do not wrap; a slice is attached while its
block is there, and every detach matches an attach. -/
def Allowed (p : Process) : Op → Prop
  | .alloc size => size < wordSize
  | .realloc _ newSize => newSize < wordSize
  | .slice addr size => addr + size < wordSize
  | .attach ptr => ∃ cube ∈ p.cubes, ∃ found ∈ cube.slices, found.ptr = ptr
  | .detach ptr =>
      ∃ cube ∈ p.live, ∃ found ∈ cube.slices,
        found.ptr = ptr ∧ 0 < found.nlinks
  | _ => True

/-- Sizes are words and slices do not wrap. -/
def Sized : Op → Prop
  | .alloc size => size < wordSize
  | .realloc _ newSize => newSize < wordSize
  | .slice addr size => addr + size < wordSize
  | _ => True

/-- Addresses and sizes are words. -/
def Words : Op → Prop
  | .alloc size => size < wordSize
  | .realloc _ newSize => newSize < wordSize
  | .slice addr size => addr < wordSize ∧ size < wordSize
  | _ => True

theorem Sized.words {op : Op} (sized : op.Sized) : op.Words := by
  cases op with
  | alloc => exact sized
  | realloc => exact sized
  | slice addr size =>
      have below : addr + size < wordSize := sized
      exact ⟨by omega, by omega⟩
  | free => trivial
  | attach => trivial
  | detach => trivial
  | store => trivial
  | woken => trivial

theorem Allowed.sized {p : Process} {op : Op} (allowed : op.Allowed p) :
    op.Sized := by
  cases op with
  | alloc => exact allowed
  | realloc => exact allowed
  | slice => exact allowed
  | free => trivial
  | attach => trivial
  | detach => trivial
  | store => trivial
  | woken => trivial

end Op

/-- An event: what happens, and how the calls below it are answered. -/
structure Event where
  op : Op
  errno : Nat
  os : Nat → Reply

/-- What an event does to protected pages. -/
inductive Effect where
  | other
  /-- a fault opens slices of a cube -/
  | opens (cube : Cube) (slices : List Slice)
  /-- a block grows, and all of its pages have this protection -/
  | grows (cube : Cube) (prot : Prot)

namespace Event

def effect (P : PageSize) (p : Process) (event : Event) : Effect :=
  match event.op with
  | .store addr _ =>
      if p.Writable P addr then .other
      else
        match p.fault addr event.os with
        | none => .other
        | some (cube, slices) => .opens cube slices
  | .realloc addr newSize =>
      match p.growth P addr newSize event.os with
      | none => .other
      | some (cube, _, prot) => .grows cube prot
  | _ => .other

/-- The name that `mkstemp` gives to the event. -/
def made (event : Event) : Option String :=
  match event.op, event.os 2 with
  | .alloc _, .done _ id => some id
  | .realloc 0 _, .done _ id => some id
  | _, _ => none

/-- The event frees the block at an address. -/
def frees (event : Event) (addr : Nat) : Bool :=
  match event.op with
  | .free base => base == addr
  | .realloc base 0 => base == addr
  | _ => false

theorem frees_iff {event : Event} {addr : Nat} :
    event.frees addr = false ↔
      event.op ≠ .free addr ∧ event.op ≠ .realloc addr 0 := by
  obtain ⟨op, errno, os⟩ := event
  cases op with
  | realloc base newSize =>
      cases newSize with
      | zero => simp [Event.frees]
      | succ newSize => simp [Event.frees]
  | _ => simp [Event.frees]

/-- The state after the event. -/
def outcome (P : PageSize) (p : Process) (event : Event) : Process :=
  (final (event.op.run P (p.enter event.errno event.os))).toProcess

end Event

/-- The steps of a process. -/
def Step (P : PageSize) (p : Process) (event : Event) (p' : Process) : Prop :=
  event.op.Allowed p ∧ p' = event.outcome P p

instance (p : Process) (op : Op) : Decidable (op.Allowed p) :=
  match op with
  | .alloc size => inferInstanceAs (Decidable (size < wordSize))
  | .free _ => inferInstanceAs (Decidable True)
  | .realloc _ newSize => inferInstanceAs (Decidable (newSize < wordSize))
  | .slice addr size => inferInstanceAs (Decidable (addr + size < wordSize))
  | .attach ptr => inferInstanceAs (Decidable
      (∃ cube ∈ p.cubes, ∃ found ∈ cube.slices, found.ptr = ptr))
  | .detach ptr => inferInstanceAs (Decidable
      (∃ cube ∈ p.live, ∃ found ∈ cube.slices,
        found.ptr = ptr ∧ 0 < found.nlinks))
  | .store _ _ => inferInstanceAs (Decidable True)
  | .woken _ _ => inferInstanceAs (Decidable True)

/-- The states before some events, with the events. -/
def replay (P : PageSize) (p : Process) : List Event → List (Process × Event)
  | [] => []
  | event :: events => (p, event) :: replay P (event.outcome P p) events

/-- The state after some events. -/
def Process.after (P : PageSize) (p : Process) (events : List Event) :
    Process :=
  events.foldl (fun p event => event.outcome P p) p

theorem replay_append {P : PageSize} {p : Process}
    (first second : List Event) :
    replay P p (first ++ second) =
      replay P p first ++ replay P (p.after P first) second := by
  induction first generalizing p with
  | nil => rfl
  | cons event first induction =>
      exact congrArg ((p, event) :: ·) induction

theorem replay_run {P : PageSize} {p : Process} {events : List Event}
    (allowed : ∀ point ∈ replay P p events, point.2.op.Allowed point.1) :
    Transition.Run (Step P) p (replay P p events) (p.after P events) := by
  induction events generalizing p with
  | nil => exact .nil p
  | cons event events induction =>
      rw [replay, List.forall_mem_cons] at allowed
      exact .cons ⟨allowed.1, rfl⟩ (induction allowed.2)

/-- The static storage of the library in a process that has made no call. -/
def Process.loaded (pid : Nat) (self : String) : Process where
  cq := false
  waiters := 0
  extraWaiters := none
  stamp := 0
  requests := fun _ => none
  responses := fun _ => none
  pending := []
  deleted := []
  pid := pid
  self := self
  nextPtr := 1
  objects := []
  mutexes := []
  cubes := []
  orphans := []
  files := []
  fds := []
  maps := []
  prot := fun _ => .readWrite
  detached := []
  broadcasts := []
  released := []
  unlinked := []

/-- An event whose calls all succeed; those that give an address give this
one. -/
def Event.smooth (op : Op) (addr : Nat) : Event :=
  ⟨op, 0, fun _ => .done addr "a"⟩

/-- The parts of the state that the layout and the protection of blocks
depend on. -/
structure Process.Agrees (p p' : Process) : Prop where
  pid : p'.pid = p.pid
  cubes : p'.cubes = p.cubes
  orphans : p'.orphans = p.orphans
  maps : p'.maps = p.maps
  prot : p'.prot = p.prot
  nextPtr : p.nextPtr ≤ p'.nextPtr

theorem Process.Agrees.refl (p : Process) : p.Agrees p :=
  ⟨rfl, rfl, rfl, rfl, rfl, Nat.le_refl _⟩

theorem Process.Agrees.live {p p' : Process} (agrees : p.Agrees p') :
    p'.live = p.live := by
  rw [Process.live, Process.live, agrees.cubes, agrees.orphans]

theorem World.Quiet.agrees {w w' : World} (quiet : w.Quiet w') :
    w.toProcess.Agrees w'.toProcess :=
  ⟨quiet.pid, quiet.cubes, quiet.orphans, quiet.maps, quiet.prot,
    quiet.nextPtr⟩

/-- What an event can do, in a process that may have cubes of its parent. -/
inductive Deed (P : PageSize) (p : Process) (event : Event) :
    Effect → Process → Prop where
  | agrees {p' : Process} (agrees : p.Agrees p') : Deed P p event .other p'
  | beside {p' : Process} (pid : p'.pid = p.pid) (cubes : p'.cubes = p.cubes)
      (orphans : p'.orphans = p.orphans) (nextPtr : p.nextPtr ≤ p'.nextPtr)
      (maps : p.maps ⊆ p'.maps)
      (mapped : p'.maps = p.maps ∨ ∃ block id, event.made = some id ∧
        Process.Admits P block p.maps ∧ p'.maps = ⟨block, p.self, id⟩ :: p.maps)
      (prot : ∀ mapping ∈ p.maps, ∀ page, mapping.block.HasPage P page →
        p'.prot page = p.prot page) : Deed P p event .other p'
  | alloc {cube : Cube} {p' : Process} (empty : cube.slices = [])
      (own : cube.pid = p.pid) (whole : P.bytes ∣ cube.page.size)
      (admits : Process.Admits P cube.page p.maps)
      (fresh : p.nextPtr ≤ cube.ptr)
      (made : event.made = some cube.id)
      (agrees : (p.addCube P cube).Agrees p') : Deed P p event .other p'
  | free {cube : Cube} {addr : Nat} {maps : List Mapping} {p' : Process}
      (frees : event.op = .free addr ∨ event.op = .realloc addr 0)
      (member : cube ∈ p.cubes) (base : cube.page.addr = addr)
      (unmapped : maps = p.maps ∨
        maps = p.maps.filter fun mapping => mapping.block ≠ cube.page)
      (agrees : Process.Agrees { p.freeCube cube with maps := maps } p') :
      Deed P p event .other p'
  | grow {cube : Cube} {page : Block} {prot : Prot} {p' : Process}
      (member : cube ∈ p.cubes) (own : cube.pid = p.pid)
      (longer : cube.page.size < page.size) (whole : P.bytes ∣ page.size)
      (uniform : p.uniformProt P cube.page = some prot)
      (admits : Process.Admits P page
        (p.maps.filter fun mapping => mapping.block ≠ cube.page))
      (agrees : (p.moveCube P cube page prot).Agrees p') :
      Deed P p event (.grows cube prot) p'
  | slice {cube : Cube} {addr size ptr : Nat} {p' : Process}
      (slices : event.op = .slice addr size)
      (member : cube ∈ p.cubes) (own : cube.pid = p.pid)
      (contains : cube.containsRange addr size = true)
      (fresh : p.nextPtr ≤ ptr)
      (agrees : (p.addSlice cube.ptr
        (newSlice P cube addr size ptr)).Agrees p') : Deed P p event .other p'
  | attach {cube : Cube} {slice : Slice} {p' : Process}
      (attaches : event.op = .attach slice.ptr) (member : cube ∈ p.live)
      (own : cube.pid = p.pid) (inside : slice ∈ cube.slices)
      (agrees : (Process.link cube.ptr slice.ptr
        (p.protectPages P (wadd cube.page.addr slice.page.offset)
          slice.page.size .read)).Agrees p') : Deed P p event .other p'
  | detach {cube : Cube} {slice : Slice} {p' : Process}
      (detaches : event.op = .detach slice.ptr)
      (member : cube ∈ p.live) (own : cube.pid = p.pid)
      (inside : slice ∈ cube.slices)
      (agrees : (p.unlinkSlice cube.ptr slice.ptr).Agrees p' ∨
        (((p.unlinkSlice cube.ptr slice.ptr).unlinkFile cube.id).release
          cube.ptr).Agrees p') :
      Deed P p event .other p'
  | fault {cube : Cube} {addr : Nat} {opened : List Slice} {p' : Process}
      (member : cube ∈ p.cubes) (own : cube.pid = p.pid)
      (contains : cube.contains addr = true)
      (idle : ∀ slice ∈ cube.slices,
        slice.overPage cube.page.addr addr = true → slice.nlinks = 0)
      (known : opened.Sublist cube.slices)
      (spans : ∀ slice ∈ opened, slice.overPage cube.page.addr addr = true)
      (agrees : (p.openSlices P cube opened).Agrees p') :
      Deed P p event (.opens cube opened) p'

/-- A block that an event frees is not one that it keeps. -/
theorem Event.ptr_ne {p : Process} {event : Event} {cube other : Cube}
    {addr : Nat} (named : p.Named) (member : cube ∈ p.cubes)
    (also : other ∈ p.cubes) (base : other.page.addr = addr)
    (frees : event.op = .free addr ∨ event.op = .realloc addr 0)
    (kept : event.op ≠ .free cube.page.addr ∧
      event.op ≠ .realloc cube.page.addr 0) : cube.ptr ≠ other.ptr := by
  intro same
  have equal := named.same_cube (List.mem_append_left _ member)
    (List.mem_append_left _ also) same
  rw [← base, ← equal] at frees
  rcases frees with freed | freed
  · exact kept.1 freed
  · exact kept.2 freed

theorem openSlices_nextPtr {P : PageSize} {p : Process} {cube : Cube}
    (opened : List Slice) :
    (p.openSlices P cube opened).nextPtr = p.nextPtr := by
  induction opened generalizing p with
  | nil => rfl
  | cons slice opened induction =>
      exact @induction (p.openSlice P cube slice)

theorem Deed.nextPtr_le {P : PageSize} {p p' : Process} {event : Event}
    {effect : Effect} (deed : Deed P p event effect p') :
    p.nextPtr ≤ p'.nextPtr := by
  cases deed with
  | agrees agrees => exact agrees.nextPtr
  | beside pid cubes orphans nextPtr maps mapped prot => exact nextPtr
  | alloc empty own whole admits fresh made agrees =>
      have taken : _ + 1 ≤ p'.nextPtr := agrees.nextPtr
      omega
  | @free cube addr maps p' frees member base unmapped agrees =>
      have kept : (p.freeCube cube).nextPtr = p.nextPtr := by
        simp only [Process.freeCube]
        split
        · rfl
        · rfl
      exact kept ▸ agrees.nextPtr
  | grow member own longer whole uniform admits agrees => exact agrees.nextPtr
  | slice slices member own contains fresh agrees =>
      have taken : _ + 1 ≤ p'.nextPtr := agrees.nextPtr
      simp only [newSlice] at taken
      omega
  | attach attaches member own inside agrees => exact agrees.nextPtr
  | detach detaches member own inside agrees =>
      rcases agrees with kept | released
      · exact kept.nextPtr
      · exact released.nextPtr
  | fault member own contains idle known spans agrees =>
      exact openSlices_nextPtr _ ▸ agrees.nextPtr

theorem fault_eq {addr : Nat} {os : Nat → Reply} {p : Process} {cube : Cube}
    {opened : List Slice} (fault : p.fault addr os = some (cube, opened)) :
    cube ∈ p.cubes ∧ cube.contains addr = true ∧
      cube.pid = p.pid ∧
      (∀ slice ∈ cube.slices,
        slice.overPage cube.page.addr addr = true → slice.nlinks = 0) ∧
      opened = openedSlices os
        (cube.slices.filter (·.overPage cube.page.addr addr)) := by
  unfold Process.fault at fault
  split at fault
  · cases fault
  · rename_i found
    split at fault
    · rename_i own
      cases fault
      exact ⟨List.mem_of_find?_eq_some found,
        by simpa using List.find?_some found, own.1, own.2, rfl⟩
    · cases fault

theorem remaps_eq {P : PageSize} {old page : Block} {newSize : Nat}
    {os : Nat → Reply} {p : Process} {prot : Prot}
    (remaps : p.remaps P old newSize os = some (page, prot)) :
    page.size = newSize ∧ p.uniformProt P old = some prot ∧
      Process.Admits P page
        (p.maps.filter fun mapping => mapping.block ≠ old) := by
  unfold Process.remaps at remaps
  split at remaps
  · rename_i uniform
    split at remaps
    · rename_i admits
      cases remaps
      exact ⟨rfl, uniform, admits.2⟩
    · cases remaps
  · cases remaps

theorem growth_eq {P : PageSize} {addr newSize : Nat} {os : Nat → Reply}
    {p : Process} {cube : Cube} {page : Block} {prot : Prot}
    (grows : p.growth P addr newSize os = some (cube, page, prot)) :
    cube ∈ p.cubes ∧ cube.pid = p.pid ∧ cube.page.size < newSize ∧
      page.size = ceilPagesize P newSize ∧
      p.uniformProt P cube.page = some prot ∧
      Process.Admits P page
        (p.maps.filter fun mapping => mapping.block ≠ cube.page) := by
  unfold Process.growth at grows
  split at grows
  · cases grows
  · split at grows
    · cases grows
    · rename_i found
      split at grows
      · rename_i asked
        obtain ⟨moved, remaps, same⟩ := Option.map_eq_some_iff.mp grows
        cases same
        exact ⟨List.mem_of_find?_eq_some found, asked.1, asked.2.1,
          remaps_eq remaps⟩
      · cases grows

section Steps

variable {P : PageSize} {p : Process} {event : Event}

/-- The state that a call reaches is what its ends ensure. -/
theorem final_of {α : Type} (good : Process → Prop) {x : Prog α}
    {w : World} {post : α → World → Prop} {stop : Stop → World → Prop}
    (ensures : Ensures x post stop w)
    (onReturn : ∀ value w', post value w' → good w'.toProcess)
    (onStop : ∀ reason w', stop reason w' → good w'.toProcess) :
    good (final ((do let _ ← x : Prog Unit) w)).toProcess := by
  simp only [bind, EStateM.bind]
  cases run : x w with
  | ok value w' => exact onReturn value w' (ensures.of_ok run)
  | error reason w' => exact onStop reason w' (ensures.of_error run)

/-- The outcome of a call whose value the event drops. -/
theorem final_void {α : Type} {x : Prog α} {w : World} :
    final ((do let _ ← x : Prog Unit) w) = final (x w) :=
  final_bind_of fun _ _ => rfl

theorem alloc_deed {size : Nat} {result : Option Nat} {w w' : World}
    (outcome : AllocOutcome P w size result w')
    (makes : w.Makes P result w')
    (made : ∀ id, w.Names id → event.made = some id) :
    Deed P w.toProcess event .other w'.toProcess := by
  cases outcome with
  | failed beside =>
      refine .beside beside.pid beside.cubes beside.orphans beside.nextPtr
        beside.maps ?_ beside.prot
      rcases makes.maps with same | ⟨block, id, named, admits, more⟩
      · exact .inl same
      · exact .inr ⟨block, id, made id named, admits, more⟩
  | @made ptr addr id w' requested admits fresh effect =>
      let cube : Cube :=
        ⟨ptr, 0, ⟨addr, ceilPagesize P size⟩, w.pid, [], id⟩
      have named : w.nextPtr ≤ cube.ptr := fresh
      obtain ⟨last, here, known⟩ := makes.last addr rfl
      have cubes : w'.cubes = w.cubes ++ [cube] := effect.cubes
      rw [cubes, List.getLast?_concat] at here
      cases here
      exact .alloc rfl rfl (dvd_ceilPagesize P size) admits named
        (made _ known) effect.agrees

theorem free_deed {addr : Nat} {w w' : World}
    (frees : event.op = .free addr ∨ event.op = .realloc addr 0)
    (outcome : FreeOutcome w addr w') :
    Deed P w.toProcess event .other w'.toProcess := by
  cases outcome with
  | missed lost quiet => exact .agrees quiet.agrees
  | freed given found unmapped effect =>
      exact .free frees (List.mem_of_find?_eq_some found)
        (by simpa using List.find?_some found) unmapped effect.agrees

/-- A store writes files only. -/
theorem storeByte_eq (addr : Nat) (byte : UInt8) (p : Process) :
    ∃ files, p.storeByte addr byte = { p with files := files } := by
  unfold Process.storeByte
  split
  · exact ⟨p.files, rfl⟩
  · exact ⟨_, rfl⟩

theorem storeByte_agrees {addr : Nat} {byte : UInt8} :
    p.Agrees (p.storeByte addr byte) := by
  obtain ⟨files, same⟩ := storeByte_eq addr byte p
  rw [same]
  exact ⟨rfl, rfl, rfl, rfl, rfl, Nat.le_refl _⟩

theorem hostStore_run {addr : Nat} {byte : UInt8} {w : World} :
    hostStore P addr byte w =
      if w.Writable P addr then
        .ok () (w.put (w.storeByte addr byte))
      else (do let _ ← access P addr : Prog Unit) w := by
  have unfolded : hostStore P addr byte w =
      (if w.Writable P addr then change (Process.storeByte addr byte)
        else do let _ ← access P addr : Prog Unit) w := rfl
  rw [unfolded]
  by_cases writable : w.Writable P addr
  · rw [if_pos writable, if_pos writable]
    rfl
  · rw [if_neg writable, if_neg writable]

/-- How one try of a store can end. -/
theorem hostStore_spec {addr : Nat} {byte : UInt8} {w : World}
    (free : w.held = []) :
    Ensures (hostStore P addr byte)
      (fun _ w' =>
        w.Writable P addr ∧ w' = w.put (w.storeByte addr byte) ∨
          ¬w.Writable P addr ∧
            match w.fault addr w.os with
            | none => w.Quiet w'
            | some (cube, opened) =>
                (w.put (w.openSlices P cube opened)).Quiet w')
      (fun reason w' => ¬w.Writable P addr ∧ w.Quiet w' ∧
        w.fault addr w.os = none ∧
        ∃ cube ∈ w.cubes, ∃ slice ∈ cube.slices, slice.nlinks ≠ 0 ∧
          reason = .asleep slice.ptr) w := by
  have ran := @hostStore_run P addr byte w
  by_cases writable : w.Writable P addr
  · rw [if_pos writable] at ran
    exact (ensures_ok ran).mpr (.inl ⟨writable, rfl⟩)
  · rw [if_neg writable] at ran
    rw [Ensures, ran]
    refine ensures_bind.mpr ((access_spec (P := P) free).mono ?_ ?_)
    · intro result w' ended
      refine .inr ⟨writable, ?_⟩
      cases fault : w.fault addr w.os with
      | none =>
          rw [fault] at ended
          exact ended.2
      | some opens =>
          rw [fault] at ended
          exact ended.1
    · rintro reason w' ⟨quiet, fault, cube, member, slice, inside, -, -, blocks,
        rfl⟩
      refine ⟨writable, quiet, fault, cube, member, slice, inside, ?_, rfl⟩
      simp only [Slice.blocks, Bool.and_eq_true, bne_iff_ne] at blocks
      exact blocks.1.2

theorem Event.made_alloc {size errno : Nat} {os : Nat → Reply} {id : String}
    (named : (p.enter errno os).Names id) :
    Event.made ⟨.alloc size, errno, os⟩ = some id := by
  obtain ⟨value, reply⟩ := named
  have reply : os 2 = .done value id := reply
  simp only [Event.made, reply]

theorem Event.made_realloc {size errno : Nat} {os : Nat → Reply} {id : String}
    (named : (p.enter errno os).Names id) :
    Event.made ⟨.realloc 0 size, errno, os⟩ = some id := by
  obtain ⟨value, reply⟩ := named
  have reply : os 2 = .done value id := reply
  simp only [Event.made, reply]

/-- `inaccel_realloc` of a null pointer. -/
theorem outcome_realloc_null {size errno : Nat} {os : Nat → Reply} :
    Event.outcome P p ⟨.realloc 0 size, errno, os⟩ =
      (final ((do let _ ← inaccelAlloc P size : Prog Unit)
        (p.enter errno os))).toProcess := by
  simp only [Event.outcome, Op.run, inaccelRealloc, if_true]

theorem event_deed {event : Event} (words : event.op.Words) :
    Deed P p event (event.effect P p) (event.outcome P p) := by
  obtain ⟨op, errno, os⟩ := event
  have free : (p.enter errno os).held = [] := rfl
  cases op with
  | alloc size =>
      exact final_of (Deed P p _ _)
        ((inaccelAlloc_spec free).and inaccelAlloc_files)
        (fun _ _ ended => alloc_deed ended.1 ended.2 fun _ => Event.made_alloc)
        (fun _ _ ended => ended.1.elim)
  | free addr =>
      exact final_of (Deed P p _ _) (inaccelFree_spec free)
        (fun _ _ => free_deed (.inl rfl)) (fun _ _ => False.elim)
  | realloc addr newSize =>
      have effect_eq : Event.effect P p ⟨.realloc addr newSize, errno, os⟩ =
          match p.growth P addr newSize os with
          | none => .other
          | some (cube, _, prot) => .grows cube prot := rfl
      rw [effect_eq]
      by_cases null : addr = 0
      · subst null
        have stays : p.growth P 0 newSize os = none := by
          simp [Process.growth]
        rw [stays, outcome_realloc_null]
        exact final_of (Deed P p _ _)
          ((inaccelAlloc_spec free).and inaccelAlloc_files)
          (fun _ _ ended => alloc_deed ended.1 ended.2
            fun _ => Event.made_realloc)
          (fun _ _ ended => ended.1.elim)
      · refine final_of (Deed P p _ _) (inaccelRealloc_spec (P := P) free)
          ?_ (fun _ _ => False.elim)
        intro result w' outcome
        cases outcome with
        | alloc null' stays outcome => exact absurd null' null
        | free emptied stays outcome =>
            rw [show p.growth P addr newSize os = none from stays]
            exact free_deed (.inr (by rw [emptied])) outcome
        | kept stays quiet =>
            rw [show p.growth P addr newSize os = none from stays]
            exact .agrees quiet.agrees
        | @moved cube page prot w' grows effect =>
            have grows : p.growth P addr newSize os =
                some (cube, page, prot) := grows
            obtain ⟨member, own, longer, size, uniform, admits⟩ :=
              growth_eq grows
            rw [grows]
            have reached := le_ceilPagesize_of_pos words (size ▸ admits.2.1)
            refine .grow member own ?_ ?_ uniform admits effect.agrees
            · omega
            · rw [size]
              exact dvd_ceilPagesize P newSize
  | slice addr size =>
      refine final_of (Deed P p _ _) (slice_spec (P := P) free)
        ?_ (fun _ _ => False.elim)
      intro result w' outcome
      cases outcome with
      | missed fed quiet => exact .agrees quiet.agrees
      | starved starves member quiet => exact .agrees quiet.agrees
      | known fed first own found quiet => exact .agrees quiet.agrees
      | made fed first own contains new fresh effect =>
          exact .slice rfl (List.mem_of_find?_eq_some first) own contains fresh
            effect.agrees
  | attach ptr =>
      apply final_of (Deed P p _ _) (attach_spec (P := P) free)
      · intro result w' ended
        split at ended
        · obtain ⟨-, cube, slice, attached⟩ := ended
          obtain ⟨member, inside, rfl⟩ := findSlice_mem attached.found
          exact .attach rfl member attached.own inside attached.effect.agrees
        · exact .agrees ended.2.2.agrees
      · rintro reason w' ⟨rfl, -⟩
        exact .agrees ⟨rfl, rfl, rfl, rfl, rfl, Nat.le_refl _⟩
  | detach ptr =>
      apply final_of (Deed P p _ _) (detach_spec free (by simp))
      · rintro result w' (⟨-, -, quiet⟩ | ⟨-, cube, slice, detaches⟩)
        · exact .agrees quiet.agrees
        · obtain ⟨member, inside, rfl⟩ := findSlice_mem detaches.found
          refine .detach rfl member detaches.own inside ?_
          have effect := detaches.effect
          split at effect
          · exact .inr effect.agrees
          · exact .inl effect.agrees
      · rintro reason w' ⟨rfl, -⟩
        exact .agrees ⟨rfl, rfl, rfl, rfl, rfl, Nat.le_refl _⟩
  | store addr byte =>
      have effect_eq : Event.effect P p ⟨.store addr byte, errno, os⟩ =
          if p.Writable P addr then .other
          else
            match p.fault addr os with
            | none => .other
            | some (cube, slices) => .opens cube slices := rfl
      rw [effect_eq]
      refine (hostStore_spec (P := P) (w := p.enter errno os) free).of_final
        (fun w' => Deed P p _ _ w'.toProcess) ?_ ?_
      · rintro result w' (⟨writable, rfl⟩ | ⟨faults, ended⟩)
        · rw [if_pos (show p.Writable P addr from writable)]
          exact .agrees storeByte_agrees
        · rw [if_neg (show ¬p.Writable P addr from faults)]
          cases fault : p.fault addr os with
          | none =>
              rw [show (p.enter errno os).fault addr (p.enter errno os).os =
                none from fault] at ended
              exact .agrees ended.agrees
          | some opens =>
              obtain ⟨cube, opened⟩ := opens
              rw [show (p.enter errno os).fault addr (p.enter errno os).os =
                some (cube, opened) from fault] at ended
              obtain ⟨member, contains, own, idle, rfl⟩ := fault_eq fault
              have known := openedSlices_sublist os
                (cube.slices.filter (·.overPage cube.page.addr addr))
              refine .fault member own contains idle
                (known.trans List.filter_sublist) ?_ ended.agrees
              intro slice inside
              exact (List.mem_filter.mp (known.subset inside)).2
      · rintro reason w' ⟨faults, quiet, fault, -⟩
        rw [if_neg (show ¬p.Writable P addr from faults),
          show p.fault addr os = none from fault]
        exact .agrees quiet.agrees
  | woken ptr error =>
      exact final_of (Deed P p _ _) (accessWoken_spec free)
        (fun _ _ ended => .agrees ended.1.agrees)
        (fun _ _ ended => .agrees ended.1.agrees)

theorem Step.deed {event : Event} {p' : Process} (step : Step P p event p') :
    Deed P p event (event.effect P p) p' := by
  obtain ⟨allowed, rfl⟩ := step
  exact event_deed allowed.sized.words

end Steps

end CoralApi
