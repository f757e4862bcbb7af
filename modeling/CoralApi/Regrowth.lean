import CoralApi.Intact
import CoralApi.Kinship

/-!
# What a block holds after it has grown

The owner of a block changes its size and stores to it, in any order.  The
code remembers only the size of the mapping: a smaller size changes nothing,
and a larger one that still fits into the mapping changes nothing either.
-/

namespace CoralApi

open Program Transition

/-- A file of zeros. -/
structure File.Blank (length : Nat) (file : File) : Prop where
  length : file.length = length
  zero : ∀ index, file.bytes index = 0

section Fresh

variable {P : PageSize} {w : World} {size : Nat}

theorem File.Blank.resize {file : File} {length : Nat}
    (blank : file.Blank length) (length' : Nat) :
    (file.resize length').Blank length' := by
  refine ⟨rfl, fun index => ?_⟩
  show (if _ then file.bytes index else 0) = 0
  rw [blank.zero, ite_self]

theorem linkOpen_blank :
    Ensures Self.linkOpen
      (fun result w' => w'.self = w.self ∧ ∀ id, result = some id →
        ∃ file, w'.Files w.self id (some file) ∧ file.Blank 0)
      (fun _ _ => True) w := by
  apply Ensures.step rfl
  cases w.os 0 with
  | failed error => exact ⟨rfl, fun id made => by cases made⟩
  | done value name =>
      apply Ensures.step rfl
      split
      · exact ⟨rfl, fun id made => by cases made⟩
      · refine ⟨rfl, ?_⟩
        rintro _ ⟨⟩
        refine ⟨⟨w.self, name, 0, fun _ => 0⟩, ⟨rfl, ?_⟩, rfl, fun _ => rfl⟩
        exact List.find?_cons_of_pos (by simp)

theorem map_blank {name : String} {file : File} {length : Nat}
    (before : w.Files w.self name (some file)) (blank : file.Blank length) :
    Ensures (Utils.map P size name)
      (fun result w' => result ≠ none →
        ∃ file, w'.Files w.self name (some file) ∧ file.Blank size)
      (fun _ _ => True) w := by
  obtain ⟨rest, same, aside, fails⟩ := map_eq P size name
  rw [same]
  refine (ftruncate_files before).bind ?_
  rintro result w₁ ⟨truncated, files⟩
  by_cases made : result = 0
  · rw [if_pos (truncated.mp made)] at files
    refine (ensures_files (aside result) files).mono ?_ fun _ _ => id
    exact fun _ w' after _ => ⟨_, after, blank.resize size⟩
  · rw [fails result made]
    exact fun made => (made rfl).elim

/-- A step that writes no file, in the directory of the process. -/
theorem ensures_aside {α β : Type} {x : Prog α} {f : α → Prog β}
    {post : β → World → Prop} {self : String}
    (writes : WritesOnly (fun _ => False) x) (here : w.self = self)
    (rest : ∀ value w₁, w₁.self = self →
      Ensures (f value) post (fun _ _ => True) w₁) :
    Ensures (x >>= f) post (fun _ _ => True) w :=
  ensures_bind.mpr ((writes w).mono
    (fun value w₁ moved => rest value w₁ (moved.self.trans here))
    fun _ _ _ => trivial)

/-- The file of a block that was made. -/
def World.Blanks (w : World) (cube : Cube) (w' : World) : Prop :=
  ∃ file, w'.Files w.self cube.id (some file) ∧ file.Blank cube.page.size

theorem makeCube_blank :
    Ensures (makeCube P size)
      (fun result w' => ∀ cube, result = some cube → w.Blanks cube w')
      (fun _ _ => True) w := by
  have fails : ∀ {w' : World} (cube : Cube), none = some cube →
      w.Blanks cube w' := fun cube made => by cases made
  unfold makeCube
  refine ensures_aside writesOnly_alloc rfl fun result w₁ self₁ => ?_
  cases result with
  | none => exact fails
  | some ptr =>
      apply Ensures.step rfl
      refine ensures_aside (writesOnly_initMutex ptr) self₁
        fun error w₂ self₂ => ?_
      split
      · exact ensures_aside writesOnly_getErrno self₂ fun _ w₃ self₃ =>
          ensures_aside (writesOnly_free ptr) self₃ fun _ w₄ self₄ =>
            ensures_aside (writesOnly_setErrno _) self₄ fun _ _ _ => fails
      · refine linkOpen_blank.bind ?_
        rintro result w₃ ⟨same, opened⟩
        have self₃ := same.trans self₂
        cases result with
        | none =>
            exact ensures_aside writesOnly_getErrno self₃ fun _ w₄ self₄ =>
              ensures_aside (writesOnly_destroyMutex ptr) self₄
                fun _ w₅ self₅ =>
                  ensures_aside (writesOnly_free ptr) self₅ fun _ w₆ self₆ =>
                    ensures_aside (writesOnly_setErrno _) self₆
                      fun _ _ _ => fails
        | some name =>
            obtain ⟨file, files, blank⟩ := opened name rfl
            rw [← same] at files
            have maps := (@map_blank P w₃ (ceilPagesize P size) name file 0
              files blank).and (writesOnly_map _ name _)
            refine ensures_bind.mpr (maps.mono ?_ fun _ _ _ => trivial)
            rintro result w₄ ⟨mapped, moved⟩
            have self₄ := moved.self.trans self₃
            cases result with
            | none =>
                exact ensures_aside writesOnly_getErrno self₄ fun _ w₅ self₅ =>
                  ensures_aside (writesOnly_close name) self₅ fun _ w₆ self₆ =>
                    ensures_aside (writesOnly_destroyMutex ptr) self₆
                      fun _ w₇ self₇ =>
                        ensures_aside (writesOnly_free ptr) self₇
                          fun _ w₈ self₈ =>
                            ensures_aside (writesOnly_setErrno _) self₈
                              fun _ _ _ => fails
            | some addr =>
                obtain ⟨file, files, blank⟩ := mapped (by simp)
                refine (ensures_files (writesOnly_close name) files).bind ?_
                rintro _ w₅ files cube made
                cases made
                rw [self₃] at files
                exact ⟨file, files, blank⟩

/-- The file of a block that `inaccel_alloc` has registered. -/
theorem inaccelAlloc_blank :
    Ensures (inaccelAlloc P size)
      (fun result w' => ∀ addr, result = some addr →
        ∃ cube, w'.cubes.getLast? = some cube ∧ w.Blanks cube w')
      (fun _ _ => True) w := by
  rw [inaccelAlloc_eq]
  split
  · exact fun addr made => by cases made
  · refine makeCube_blank.bind fun result w₁ made => ?_
    cases result with
    | none => exact fun addr made => by cases made
    | some cube =>
        obtain ⟨file, files, blank⟩ := made cube rfl
        refine registerCube_files.bind ?_
        rintro result w₂ ⟨writes, -, last⟩
        cases result with
        | some errsv =>
            refine ensures_bind.mpr ((writesOnly_dropCube cube errsv w₂).mono
              (fun _ _ _ addr made => by cases made) fun _ _ _ => trivial)
        | none =>
            intro addr _
            refine ⟨cube, last rfl, file, ⟨writes.self.trans files.1, ?_⟩,
              blank⟩
            rw [writes.file _ _ fun _ => id]
            exact files.2

end Fresh

/-- The byte that a load reads.  A page beyond the end of the file is no
memory. -/
def Process.loadByte (addr : Nat) (p : Process) : Option UInt8 := do
  let mapping ← p.maps.find? fun mapping => mapping.block.Holds addr
  let file ← p.file mapping.dir mapping.id
  if addr - mapping.block.addr < file.length then
    some (file.bytes (addr - mapping.block.addr))
  else none

/-- A block of the process in a mapping of its own, all of it writable, over a
file with nothing beyond the block. -/
structure Process.Backed (P : PageSize) (p : Process) (cube : Cube)
    (file : File) : Prop where
  plotted : p.Plotted P
  member : cube ∈ p.cubes
  own : cube.pid = p.pid
  here : p.file p.self cube.id = some file
  tail : ∀ index, cube.page.size ≤ index → file.bytes index = 0
  mapped : ⟨cube.page, p.self, cube.id⟩ ∈ p.maps
  alone : ∀ mapping ∈ p.maps, ∀ addr, mapping.block.Holds addr →
    cube.page.Holds addr → mapping = ⟨cube.page, p.self, cube.id⟩
  writable : ∀ page, cube.page.HasPage P page → p.prot page = .readWrite

section Backed

variable {P : PageSize} {p p' : Process} {cube : Cube} {file : File}
  {addr size index : Nat} {w w' : World}

theorem Process.Backed.find_mapping (backed : p.Backed P cube file)
    (holds : cube.page.Holds addr) :
    p.maps.find? (fun mapping => mapping.block.Holds addr) =
      some ⟨cube.page, p.self, cube.id⟩ := by
  refine find?_eq_of_unique backed.mapped (by simpa using holds) ?_
  intro other inside also
  exact backed.alone other inside addr (by simpa using also) holds

theorem Process.Backed.load (backed : p.Backed P cube file)
    (inside : index < cube.page.size) :
    p.loadByte (cube.page.addr + index) =
      if index < file.length then some (file.bytes index) else none := by
  have holds : cube.page.Holds (cube.page.addr + index) :=
    ⟨Nat.le_add_right _ _, Nat.add_lt_add_left inside _⟩
  unfold Process.loadByte
  rw [backed.find_mapping holds]
  simp [backed.here]

/-- The block is as it was, and only its file may have changed. -/
theorem Process.Backed.of_agrees {file' : File} (backed : p.Backed P cube file)
    (agrees : p.Agrees p') (self : p'.self = p.self)
    (here : p'.file p.self cube.id = some file')
    (tail : ∀ index, cube.page.size ≤ index → file'.bytes index = 0) :
    p'.Backed P cube file' where
  plotted := (Process.Keeps.of_agrees agrees).plotted backed.plotted
  member := agrees.cubes ▸ backed.member
  own := backed.own.trans agrees.pid.symm
  here := self ▸ here
  tail := tail
  mapped := by
    rw [agrees.maps, self]
    exact backed.mapped
  alone := by
    rw [agrees.maps, self]
    exact backed.alone
  writable := by
    rw [agrees.prot]
    exact backed.writable

theorem Block.Disjoint.not_holds {left right : Block}
    (disjoint : left.Disjoint right) (here : left.Holds addr)
    (there : right.Holds addr) : False := by
  obtain ⟨above, below⟩ := here
  obtain ⟨above', below'⟩ := there
  rcases disjoint with before | after
  · omega
  · omega

/-- The protection that pages share is that of the first one. -/
theorem uniformProt_first {block : Block} {prot : Prot}
    (uniform : p.uniformProt P block = some prot) :
    prot = p.prot (block.addr / P.bytes) := by
  simp only [Process.uniformProt] at uniform
  split at uniform
  · cases uniform
    rfl
  · cases uniform

/-- A byte of the file. -/
def File.store (index : Nat) (byte : UInt8) (file : File) : File :=
  { file with bytes := Function.update file.bytes index byte }

theorem Process.Backed.store (backed : p.Backed P cube file)
    (inside : index < cube.page.size) (byte : UInt8) :
    (p.storeByte (cube.page.addr + index) byte).Backed P cube
      (file.store index byte) := by
  have holds : cube.page.Holds (cube.page.addr + index) :=
    ⟨Nat.le_add_right _ _, Nat.add_lt_add_left inside _⟩
  refine backed.of_agrees storeByte_agrees ?_ ?_ ?_
  · unfold Process.storeByte
    rw [backed.find_mapping holds]
  · unfold Process.storeByte
    rw [backed.find_mapping holds]
    dsimp only
    rw [Nat.add_sub_cancel_left]
    have stored := @file_map_self p p.self cube.id (File.store index byte)
      fun _ => ⟨rfl, rfl⟩
    rw [backed.here] at stored
    exact stored
  · intro other beyond
    have different : other ≠ index := by omega
    show Function.update file.bytes index byte other = 0
    rw [Function.update_of_ne different]
    exact backed.tail other beyond

/-- The block moves, and its file gets the new length. -/
theorem Process.Backed.move {page : Block} {prot : Prot}
    (backed : p.Backed P cube file) (whole : P.bytes ∣ page.size)
    (uniform : p.uniformProt P cube.page = some prot)
    (admits : Process.Admits P page
      (p.maps.filter fun mapping => mapping.block ≠ cube.page))
    (agrees : (p.moveCube P cube page prot).Agrees p')
    (self : p'.self = p.self)
    (here : p'.file p.self cube.id = some (file.resize page.size)) :
    p'.Backed P { cube with page := page } (file.resize page.size) := by
  have moved := @plotted_moveCube P p cube page prot backed.plotted
    backed.member whole admits
  have maps : p'.maps = p.maps.map fun mapping =>
      if mapping.block = cube.page then { mapping with block := page }
      else mapping := agrees.maps
  refine ⟨(Process.Keeps.of_agrees agrees).plotted moved, ?_,
    backed.own.trans agrees.pid.symm, self ▸ here, ?_, ?_, ?_, ?_⟩
  · rw [agrees.cubes]
    exact List.mem_map.mpr ⟨cube, backed.member, if_pos rfl⟩
  · intro index beyond
    exact if_neg fun inside => Nat.not_lt.mpr beyond
      (Nat.lt_of_lt_of_le inside (Nat.min_le_right _ _))
  · rw [maps, self]
    exact List.mem_map.mpr ⟨_, backed.mapped, if_pos rfl⟩
  · rw [maps, self]
    intro mapping listed addr there here
    obtain ⟨old, inside, rfl⟩ := List.mem_map.mp listed
    have base := backed.plotted.holds_base backed.member
    by_cases same : old.block = cube.page
    · rw [if_pos same, backed.alone old inside _ (same ▸ base) base]
    · rw [if_neg same] at there
      have apart := admits.2.2.2.2 old
        (List.mem_filter.mpr ⟨inside, by simpa using same⟩)
      exact (apart.not_holds there here).elim
  · intro number inside
    rw [agrees.prot]
    refine (if_pos inside).trans ?_
    have first := Block.Holds.hasPage
      (backed.plotted.holds_base backed.member)
      (backed.plotted.placed cube backed.member).aligned
    rw [← backed.writable _ first]
    exact uniformProt_first uniform

/-- The block that `inaccel_alloc` gives is backed by zeros. -/
theorem inaccelAlloc_backed (plotted : w.Plotted P) (free : w.held = []) :
    Ensures (inaccelAlloc P size)
      (fun result w' => ∀ addr, result = some addr → ∃ cube file,
        w'.Backed P cube file ∧ cube.page = ⟨addr, ceilPagesize P size⟩ ∧
          file.Blank (ceilPagesize P size))
      (fun _ _ => False) w := by
  have blank := @inaccelAlloc_blank P w size
  refine ((inaccelAlloc_spec free).and blank).mono ?_ fun _ _ => And.left
  rintro result w' ⟨outcome, blank⟩ addr rfl
  cases outcome with
  | @made ptr _ id _ requested admits fresh effect =>
      have cubes : w'.cubes = w.cubes ++
        [⟨ptr, 0, ⟨addr, ceilPagesize P size⟩, w.pid, [], id⟩] := effect.cubes
      obtain ⟨cube, last, file, ⟨self, here⟩, blank⟩ := blank addr rfl
      rw [cubes, List.getLast?_concat] at last
      cases last
      have after := @plotted_addCube P w.toProcess
        ⟨ptr, 0, ⟨addr, ceilPagesize P size⟩, w.pid, [], id⟩ plotted rfl
        (dvd_ceilPagesize P size) admits fresh
      have maps : w'.maps = ⟨⟨addr, ceilPagesize P size⟩, w.self, id⟩ ::
        w.maps := effect.maps
      refine ⟨_, file, ⟨(Process.Keeps.of_agrees effect.agrees).plotted after,
        ?_, effect.pid.symm, self ▸ here, fun index _ => blank.zero index, ?_,
        ?_, ?_⟩, rfl, blank⟩
      · rw [cubes]
        exact List.mem_append_right _ (List.mem_singleton_self _)
      · rw [maps, self]
        exact List.mem_cons_self
      · rw [maps, self]
        intro mapping listed addr there here
        rcases List.mem_cons.mp listed with new | old
        · exact new
        · exact ((admits.2.2.2.2 mapping old).not_holds there here).elim
      · intro page inside
        rw [effect.prot]
        exact if_pos inside

end Backed

/-- The owner of a block, with the size it asked for last. -/
structure Tenant where
  process : Process
  addr : Nat
  requested : Nat

/-- What the owner does. -/
inductive Usage where
  | realloc (newSize errno : Nat) (os : Nat → Reply)
  | store (index : Nat) (byte : UInt8) (errno : Nat) (os : Nat → Reply)

namespace Tenant

/-- The byte that the owner reads at an index. -/
def byte (s : Tenant) (index : Nat) : Option UInt8 :=
  s.process.loadByte (s.addr + index)

/-- The size of the mapping. -/
def size (s : Tenant) : Nat :=
  match s.process.cubes.find? fun cube => cube.page.addr == s.addr with
  | some cube => cube.page.size
  | none => 0

/-- The owner after an action. -/
def after (P : PageSize) (s : Tenant) : Usage → Tenant
  | .realloc newSize errno os =>
      match inaccelRealloc P s.addr newSize (s.process.enter errno os) with
      | .ok (some addr) w => ⟨w.toProcess, addr, newSize⟩
      | result => { s with process := (final result).toProcess }
  | .store index byte errno os =>
      { s with
        process := (final (hostStore P (s.addr + index) byte
          (s.process.enter errno os))).toProcess }

/-- Sizes are words other than zero.  Stores stay inside the size that was
asked for last, and in the file. -/
def Allows (s : Tenant) : Usage → Prop
  | .realloc newSize _ _ => newSize ≠ 0 ∧ newSize < wordSize
  | .store index _ _ _ => index < s.requested ∧ s.byte index ≠ none

def Step (P : PageSize) (s : Tenant) (usage : Usage) (s' : Tenant) : Prop :=
  s.Allows usage ∧ s' = s.after P usage

/-- A call that gives a block has kept the bytes below both sizes, and the
bytes that the owner gains are zero. -/
def Refills (P : PageSize) (s : Tenant) : Usage → Prop
  | .realloc newSize errno os => ∀ addr w,
      inaccelRealloc P s.addr newSize (s.process.enter errno os) =
        .ok (some addr) w →
      (∀ index < min s.requested newSize, ∀ byte, s.byte index = some byte →
        w.loadByte (addr + index) = some byte) ∧
      ∀ index, s.requested ≤ index → index < newSize →
        w.loadByte (addr + index) = some 0
  | .store _ _ _ _ => True

/-- A call that gives more finds no byte but zeros where the owner gains bytes
of the old mapping. -/
def Clean (P : PageSize) (s : Tenant) : Usage → Prop
  | .realloc newSize _ os =>
      if newSize ≤ s.size then
        ∀ index, s.requested ≤ index → index < newSize →
          s.byte index = some 0
      else s.process.growth P s.addr newSize os = none ∨
        ∀ index, s.requested ≤ index → index < s.size →
          s.byte index = none ∨ s.byte index = some 0
  | .store _ _ _ _ => True

end Tenant

section Calls

variable {P : PageSize} {p : Process} {cube : Cube} {file : File}
  {newSize errno : Nat} {os : Nat → Reply} {s s' : Tenant} {usage : Usage}

theorem Process.resized_of_stretch {page : Block} {prot : Prot}
    (stretched : p.stretch P cube newSize os = some (page, prot)) :
    p.resized P cube newSize os = (p.file p.self cube.id).map
      (File.resize (ceilPagesize P newSize)) := by
  refine if_pos ?_
  unfold Process.stretch at stretched
  split at stretched
  · rename_i reached
    unfold Process.remaps at stretched
    split at stretched
    · rename_i first _ _
      split at stretched
      · rename_i fits
        refine ⟨reached.1, reached.2.1, reached.2.2.1, reached.2.2.2, ?_,
          fits.1⟩
        rw [show os 1 = _ from first]
        rfl
      · cases stretched
    · cases stretched
  · cases stretched

/-- A call that fails has at most changed the length of the file. -/
theorem Process.resized_tail (backed : p.Backed P cube file) :
    ∃ file', p.resized P cube newSize os = some file' ∧
      ∀ index, cube.page.size ≤ index → file'.bytes index = 0 := by
  unfold Process.resized
  rw [backed.here]
  split
  · refine ⟨_, rfl, fun index beyond => ?_⟩
    show (if _ then file.bytes index else 0) = 0
    rw [backed.tail index beyond, ite_self]
  · exact ⟨file, rfl, backed.tail⟩

theorem Process.Backed.realloc (backed : p.Backed P cube file)
    (asked : newSize ≠ 0) :
    Ensures (inaccelRealloc P cube.page.addr newSize)
      (fun result w =>
        if newSize ≤ cube.page.size then
          result = some cube.page.addr ∧ w.Backed P cube file
        else
          match p.stretch P cube newSize os with
          | none => result = none ∧ ∃ file', w.Backed P cube file'
          | some (page, _) => result = some page.addr ∧
              page.size = ceilPagesize P newSize ∧
              w.Backed P { cube with page := page } (file.resize page.size))
      (fun _ _ => False) (p.enter errno os) := by
  have given := (backed.plotted.placed cube backed.member).positive
  refine (inaccelRealloc_exact (Nat.ne_of_gt given) asked
    (backed.plotted.find?_base backed.member) rfl).mono ?_ fun _ _ => id
  rintro result w ⟨⟨self, here⟩, outcome⟩
  have self : w.self = p.self := self
  have here : w.file p.self cube.id = p.resized P cube newSize os := here
  cases stretched : p.stretch P cube newSize os with
  | none =>
      rw [show World.os (p.enter errno os) = os from rfl,
        Process.enter_toProcess, stretched] at outcome
      obtain ⟨rfl, quiet⟩ := outcome
      have agrees : p.Agrees w.toProcess := quiet.agrees
      by_cases short : newSize ≤ cube.page.size
      · rw [if_pos short]
        have stays : ¬p.Resizes P cube newSize os := fun resizes =>
          Nat.not_lt.mpr short resizes.2.1
        have unresized : p.resized P cube newSize os = some file :=
          (if_neg stays).trans backed.here
        rw [unresized] at here
        exact ⟨if_pos ⟨backed.own, short⟩,
          backed.of_agrees agrees self here backed.tail⟩
      · rw [if_neg short]
        obtain ⟨file', resized, tail⟩ := Process.resized_tail backed
        rw [resized] at here
        exact ⟨if_neg fun both => short both.2, file',
          backed.of_agrees agrees self here tail⟩
  | some moved =>
      obtain ⟨page, prot⟩ := moved
      rw [show World.os (p.enter errno os) = os from rfl,
        Process.enter_toProcess, stretched] at outcome
      obtain ⟨rfl, whole, quiet⟩ := outcome
      have agrees : (p.moveCube P cube page prot).Agrees w.toProcess :=
        quiet.agrees
      have grows : p.growth P cube.page.addr newSize os =
          some (cube, page, prot) := by
        simp [Process.growth_eq (Nat.ne_of_gt given),
          backed.plotted.find?_base backed.member, stretched]
      obtain ⟨-, -, longer, -, uniform, admits⟩ := CoralApi.growth_eq grows
      rw [if_neg (Nat.not_le.mpr longer)]
      refine ⟨rfl, whole, backed.move ?_ uniform admits agrees self ?_⟩
      · rw [whole]
        exact dvd_ceilPagesize P newSize
      · rw [here, Process.resized_of_stretch stretched, backed.here, whole]
        rfl

/-- The state of the owner of a block. -/
def Tenant.Sound (P : PageSize) (s : Tenant) : Prop :=
  ∃ cube file, s.process.Backed P cube file ∧ cube.page.addr = s.addr ∧
    s.requested ≤ cube.page.size

theorem Tenant.size_eq (backed : s.process.Backed P cube file)
    (base : cube.page.addr = s.addr) : s.size = cube.page.size := by
  have found := backed.plotted.find?_base backed.member
  unfold Tenant.size
  rw [← base, found]

theorem Tenant.byte_eq {index : Nat} (backed : s.process.Backed P cube file)
    (base : cube.page.addr = s.addr) (inside : index < cube.page.size) :
    s.byte index =
      if index < file.length then some (file.bytes index) else none := by
  rw [Tenant.byte, ← base]
  exact backed.load inside

/-- A block of the same file and place reads the same bytes. -/
theorem Tenant.byte_kept {w : World} {index : Nat}
    (backed : s.process.Backed P cube file) (base : cube.page.addr = s.addr)
    (kept : w.Backed P cube file) (inside : index < cube.page.size) :
    w.loadByte (s.addr + index) = s.byte index := by
  rw [Tenant.byte_eq backed base inside, ← base]
  exact kept.load inside

/-- A byte of a block whose file has been resized with it. -/
theorem Process.Backed.load_grown {page : Block} {index : Nat}
    (grown : p.Backed P { cube with page := page } (file.resize page.size))
    (inside : index < page.size) :
    p.loadByte (page.addr + index) =
      some (if index < file.length then file.bytes index else 0) := by
  have bounded : index < file.length ↔ index < min file.length page.size :=
    ⟨fun below => Nat.lt_min.mpr ⟨below, inside⟩,
      fun below => Nat.lt_of_lt_of_le below (Nat.min_le_left _ _)⟩
  simp only [bounded]
  exact (grown.load inside).trans (if_pos inside)

/-- A call that fits into the mapping gives what is there. -/
theorem Tenant.refills_short (backed : s.process.Backed P cube file)
    (base : cube.page.addr = s.addr) (within : s.requested ≤ cube.page.size)
    (asked : newSize ≠ 0) (short : newSize ≤ cube.page.size) :
    s.Refills P (.realloc newSize errno os) ↔
      ∀ index, s.requested ≤ index → index < newSize →
        s.byte index = some 0 := by
  have outcome := @Process.Backed.realloc P s.process cube file newSize errno
    os backed asked
  rw [base] at outcome
  simp only [if_pos short] at outcome
  constructor
  · intro refills index above below
    obtain ⟨_, w, ran, rfl, kept⟩ := outcome.exists_ok
    have zero := (refills s.addr w ran).2 index above below
    rwa [Tenant.byte_kept backed base kept (by omega)] at zero
  · intro clean addr w ran
    obtain ⟨same, kept⟩ := outcome.of_ok ran
    cases same
    refine ⟨fun index below byte held => ?_, fun index above below => ?_⟩
    · rw [Tenant.byte_kept backed base kept (by omega)]
      exact held
    · rw [Tenant.byte_kept backed base kept (by omega)]
      exact clean index above below

/-- A call that moves the block adds zeros behind what is there. -/
theorem Tenant.refills_grown {page : Block} {prot : Prot}
    (backed : s.process.Backed P cube file) (base : cube.page.addr = s.addr)
    (within : s.requested ≤ cube.page.size) (asked : newSize ≠ 0)
    (word : newSize < wordSize) (long : cube.page.size < newSize)
    (stretched : s.process.stretch P cube newSize os = some (page, prot)) :
    s.Refills P (.realloc newSize errno os) ↔
      ∀ index, s.requested ≤ index → index < cube.page.size →
        s.byte index = none ∨ s.byte index = some 0 := by
  have outcome := @Process.Backed.realloc P s.process cube file newSize errno
    os backed asked
  rw [base] at outcome
  simp only [if_neg (Nat.not_le.mpr long), stretched] at outcome
  obtain ⟨_, w, ran, rfl, whole, grown⟩ := outcome.exists_ok
  have fits : newSize ≤ page.size := by
    have positive := (grown.plotted.placed _ grown.member).nonempty
    dsimp only at positive
    rw [whole] at positive ⊢
    exact le_ceilPagesize_of_pos word positive
  constructor
  · intro refills index above below
    have zero := (refills page.addr w ran).2 index above (by omega)
    rw [grown.load_grown (by omega)] at zero
    rw [Tenant.byte_eq backed base below]
    by_cases inside : index < file.length
    · rw [if_pos inside] at zero ⊢
      exact .inr zero
    · rw [if_neg inside]
      exact .inl rfl
  · intro clean addr w' ran'
    cases ran.symm.trans ran'
    refine ⟨fun index below byte held => ?_, fun index above below => ?_⟩
    · rw [Tenant.byte_eq backed base (by omega)] at held
      rw [grown.load_grown (by omega)]
      by_cases inside : index < file.length
      · rwa [if_pos inside] at held ⊢
      · rw [if_neg inside] at held
        cases held
    · rw [grown.load_grown (by omega)]
      by_cases inside : index < file.length
      · rw [if_pos inside]
        by_cases mapped : index < cube.page.size
        · have empty := clean index above mapped
          rw [Tenant.byte_eq backed base mapped, if_pos inside] at empty
          rcases empty with unread | zero
          · cases unread
          · exact zero
        · rw [backed.tail index (Nat.not_lt.mp mapped)]
      · rw [if_neg inside]

/-- The calls that give less than asked for are those that find other bytes
than zeros. -/
theorem Tenant.Sound.refills_iff (sound : s.Sound P)
    (allowed : s.Allows usage) : s.Refills P usage ↔ s.Clean P usage := by
  obtain ⟨cube, file, backed, base, within⟩ := sound
  cases usage with
  | store => exact Iff.rfl
  | realloc newSize errno os =>
      have size := Tenant.size_eq backed base
      by_cases short : newSize ≤ cube.page.size
      · rw [Tenant.refills_short backed base within allowed.1 short]
        simp only [Tenant.Clean, size, if_pos short]
      · have given := (backed.plotted.placed cube backed.member).positive
        have growth := @Process.growth_eq P cube.page.addr newSize os s.process
          (Nat.ne_of_gt given)
        rw [backed.plotted.find?_base backed.member, Option.bind_some, base]
          at growth
        simp only [Tenant.Clean, size, if_neg short, growth]
        cases stretched : s.process.stretch P cube newSize os with
        | none =>
            have outcome := @Process.Backed.realloc P s.process cube file
              newSize errno os backed allowed.1
            rw [base] at outcome
            simp only [if_neg short, stretched] at outcome
            refine iff_of_true (fun addr w ran => ?_) (.inl rfl)
            cases (outcome.of_ok ran).1
        | some moved =>
            obtain ⟨page, prot⟩ := moved
            rw [Tenant.refills_grown backed base within allowed.1 allowed.2
              (not_le.mp short) stretched]
            simp only [Option.map_some, reduceCtorEq, false_or]

/-- What the owner does keeps the block backed. -/
theorem Tenant.Step.sound (step : Tenant.Step P s usage s')
    (sound : s.Sound P) : s'.Sound P := by
  obtain ⟨allowed, rfl⟩ := step
  obtain ⟨cube, file, backed, base, within⟩ := sound
  cases usage with
  | store index byte errno os =>
      have inside : index < cube.page.size :=
        Nat.lt_of_lt_of_le allowed.1 within
      have holds : cube.page.Holds (s.addr + index) :=
        base ▸ ⟨Nat.le_add_right _ _, Nat.add_lt_add_left inside _⟩
      have writable : s.process.Writable P (s.addr + index) :=
        backed.writable _ (holds.hasPage
          (backed.plotted.placed cube backed.member).aligned)
      have ran := @hostStore_run P (s.addr + index) byte
        (s.process.enter errno os)
      rw [Process.enter_toProcess, if_pos writable] at ran
      have stored : (s.after P (.store index byte errno os)).process =
          s.process.storeByte (s.addr + index) byte :=
        congrArg (fun result => (final result).toProcess) ran
      refine ⟨cube, file.store index byte, ?_, base, within⟩
      rw [stored, ← base]
      exact backed.store inside byte
  | realloc newSize errno os =>
      have outcome := @Process.Backed.realloc P s.process cube file newSize
        errno os backed allowed.1
      rw [base] at outcome
      obtain ⟨result, w, ran, outcome⟩ := outcome.exists_ok
      simp only [Tenant.after, ran]
      by_cases short : newSize ≤ cube.page.size
      · rw [if_pos short] at outcome
        obtain ⟨rfl, kept⟩ := outcome
        exact ⟨cube, file, kept, base, short⟩
      · rw [if_neg short] at outcome
        cases stretched : s.process.stretch P cube newSize os with
        | none =>
            rw [stretched] at outcome
            obtain ⟨rfl, file', kept⟩ := outcome
            exact ⟨cube, file', kept, base, within⟩
        | some moved =>
            obtain ⟨page, prot⟩ := moved
            rw [stretched] at outcome
            obtain ⟨rfl, whole, grown⟩ := outcome
            refine ⟨{ cube with page := page }, _, grown, rfl, ?_⟩
            have positive := (grown.plotted.placed _ grown.member).nonempty
            dsimp only at positive ⊢
            rw [whole] at positive ⊢
            exact le_ceilPagesize_of_pos allowed.2 positive

/-- In every life of a block the calls fill it as documented exactly when no
call gives back bytes that the owner has stored and given up. -/
theorem refills_visits_iff {start p : Process} {size addr errno : Nat}
    {os : Nat → Reply} {w : World} {before : List (Process × Happening)}
    {trace : List (Tenant × Usage)} {finish : Tenant} (fresh : start.Fresh)
    (reached : Run (Descent P) start before p) (word : size < wordSize)
    (made : inaccelAlloc P size (p.enter errno os) = .ok (some addr) w)
    (run : Run (Tenant.Step P) ⟨w.toProcess, addr, size⟩ trace finish) :
    (∀ index < ceilPagesize P size, w.loadByte (addr + index) = some 0) ∧
      ((∀ point ∈ trace, point.1.Refills P point.2) ↔
        ∀ point ∈ trace, point.1.Clean P point.2) := by
  have plotted := (run_surveyed fresh reached).plotted
  obtain ⟨cube, file, backed, page, blank⟩ :=
    (@inaccelAlloc_backed P size (p.enter errno os) plotted rfl).of_ok made
      addr rfl
  have initial : Tenant.Sound P ⟨w.toProcess, addr, size⟩ := by
    have positive := (backed.plotted.placed cube backed.member).nonempty
    rw [page] at positive
    refine ⟨cube, file, backed, by rw [page], ?_⟩
    rw [page]
    exact le_ceilPagesize_of_pos word positive
  refine ⟨fun index inside => ?_, forall₂_congr fun point member => ?_⟩
  · have mapped : index < cube.page.size := by
      rw [page]
      exact inside
    have load := backed.load mapped
    rw [page, blank.length, if_pos inside, blank.zero] at load
    exact load
  · have sound := run.invariant (Tenant.Sound P)
      (fun _ _ _ before step => step.sound before) initial point.1
      (List.mem_append_left _ (List.mem_map_of_mem member))
    obtain ⟨next, ⟨allowed, -⟩, -⟩ := run.step_of_mem member
    exact sound.refills_iff allowed

end Calls

instance (s : Tenant) (usage : Usage) : Decidable (s.Allows usage) :=
  match usage with
  | .realloc _ _ _ => inferInstanceAs (Decidable (_ ∧ _))
  | .store _ _ _ _ => inferInstanceAs (Decidable (_ ∧ _))

/-- The states before some actions, with the actions. -/
def Tenant.replay (P : PageSize) (s : Tenant) :
    List Usage → List (Tenant × Usage)
  | [] => []
  | usage :: usages => (s, usage) :: (s.after P usage).replay P usages

theorem Tenant.replay_run {P : PageSize} {s : Tenant} {usages : List Usage}
    (allowed : ∀ point ∈ s.replay P usages, point.1.Allows point.2) :
    ∃ finish, Run (Tenant.Step P) s (s.replay P usages) finish := by
  induction usages generalizing s with
  | nil => exact ⟨s, .nil s⟩
  | cons usage usages induction =>
      rw [Tenant.replay, List.forall_mem_cons] at allowed
      obtain ⟨finish, run⟩ := induction allowed.2
      exact ⟨finish, .cons ⟨allowed.1, rfl⟩ run⟩

/-- A block of 100 bytes in the first page of a new process. -/
def Tenant.hundred : Tenant :=
  ⟨(final (inaccelAlloc .small 100 ((Process.loaded 1 "d").enter 0
    fun _ => .done 131072 "a"))).toProcess, 131072, 100⟩

theorem refills_stored : (Process.loaded 1 "d").Fresh ∧
    ∀ point ∈ Tenant.hundred.replay .small
      [.store 80 7 0 (fun _ => .done 0 ""), .realloc 101 0 fun _ => .done 0 ""],
      point.1.Refills .small point.2 := by
  obtain ⟨finish, run⟩ := @Tenant.replay_run .small Tenant.hundred
    [.store 80 7 0 (fun _ => .done 0 ""), .realloc 101 0 fun _ => .done 0 ""]
    (by decide +kernel)
  have made : returned (inaccelAlloc .small 100 ((Process.loaded 1 "d").enter 0
      fun _ => .done 131072 "a")) = some (some 131072) := by decide +kernel
  refine ⟨⟨rfl, rfl⟩, (refills_visits_iff ⟨rfl, rfl⟩ (.nil _) (by decide)
    (eq_ok_final made) run).2.mpr ?_⟩
  intro point member
  rcases List.mem_cons.mp member with rfl | member
  · trivial
  · rw [List.mem_singleton.mp member]
    have size : (Tenant.hundred.after .small
        (.store 80 7 0 fun _ => .done 0 "")).size = 4096 := by decide +kernel
    have gained : (Tenant.hundred.after .small
        (.store 80 7 0 fun _ => .done 0 "")).byte 100 = some 0 := by
      decide +kernel
    simp only [Tenant.Clean, size]
    rw [if_pos (by decide)]
    intro index above below
    have above : 100 ≤ index := above
    obtain rfl : index = 100 := by omega
    exact gained

/-- A byte comes back that was stored, given up and asked for again. -/
theorem not_refills_shrunk : ¬∀ (P : PageSize) (start p : Process)
    (size addr errno : Nat) (os : Nat → Reply) (w : World)
    (before : List (Process × Happening)) (trace : List (Tenant × Usage))
    (finish : Tenant), start.Fresh → Run (Descent P) start before p →
      size < wordSize →
      inaccelAlloc P size (p.enter errno os) = .ok (some addr) w →
      Run (Tenant.Step P) ⟨w.toProcess, addr, size⟩ trace finish →
      ∀ point ∈ trace, point.1.Refills P point.2 := by
  intro claim
  obtain ⟨finish, run⟩ := @Tenant.replay_run .small Tenant.hundred
    [.store 80 7 0 (fun _ => .done 0 ""), .realloc 50 0 fun _ => .done 0 "",
      .realloc 100 0 fun _ => .done 0 ""]
    (by decide +kernel)
  have made : returned (inaccelAlloc .small 100 ((Process.loaded 1 "d").enter 0
      fun _ => .done 131072 "a")) = some (some 131072) := by decide +kernel
  have refills := claim .small _ _ 100 131072 0 _ _ [] _ finish ⟨rfl, rfl⟩
    (.nil _) (by decide) (eq_ok_final made) run _
    (List.mem_cons_of_mem _ (List.mem_cons_of_mem _ List.mem_cons_self))
  have ran : returned (inaccelRealloc .small 131072 100
      (((Tenant.hundred.after .small (.store 80 7 0 fun _ => .done 0 "")).after
        .small (.realloc 50 0 fun _ => .done 0 "")).process.enter 0
          fun _ => .done 0 "")) = some (some 131072) := by decide +kernel
  have zero := (refills 131072 _ (eq_ok_final ran)).2 80 (by decide +kernel)
    (by decide)
  exact absurd zero (by decide +kernel)

end CoralApi
