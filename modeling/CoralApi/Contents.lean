import CoralApi.Library.Heap
import CoralApi.Regrowth

/-!
# What a process sees of its blocks

A load in an own block reads the file of the block.  The own blocks, with what
their loads give, are the heap of the process.  What a call does to the cubes
and to their files gives the heap behind it.
-/

namespace CoralApi

open Program

/-- A block with what its owner reads in it. -/
def Process.region (cube : Cube) (p : Process) : Region UInt8 where
  size := cube.page.size
  load := fun index =>
    if index < cube.page.size then p.loadByte (cube.page.addr + index)
    else none

/-- The registered blocks of the process. -/
def Process.heap (p : Process) : Heap UInt8 := fun base =>
  (p.cubes.find? fun cube =>
    cube.page.addr == base && cube.pid == p.pid).map fun cube => p.region cube

/-- A file as it is seen in a block of this size. -/
def File.region (size : Nat) (file : File) : Region UInt8 where
  size := size
  load := fun index =>
    if index < size ∧ index < file.length then some (file.bytes index)
    else none

/-- Every own block has a file, with nothing beyond the block. -/
def Process.Stocked (p : Process) : Prop :=
  ∀ cube ∈ p.cubes, cube.pid = p.pid →
    ∃ file, p.file p.self cube.id = some file ∧
      ∀ index, cube.page.size ≤ index → file.bytes index = 0

/-- The own cubes have files of their own. -/
structure Process.Filed (p : Process) : Prop where
  here : p.Stocked
  unique : ∀ cube ∈ p.live, cube.pid = p.pid → ∀ other ∈ p.live,
    other.pid = p.pid → cube.id = other.id → cube.ptr = other.ptr

/-- What tells where a cube is and which file it has. -/
def Cube.site (cube : Cube) : Nat × Block × Nat × String :=
  (cube.ptr, cube.page, cube.pid, cube.id)

section Heaps

variable {P : PageSize} {names : List (String × String)} {p p' : Process}
  {cube : Cube} {file : File} {addr base : Nat} {region : Region UInt8}

/-- An own block is mapped alone. -/
theorem Process.Charted.find_mapping (charted : p.Charted P names)
    (member : cube ∈ p.cubes) (own : cube.pid = p.pid)
    (holds : cube.page.Holds addr) :
    p.maps.find? (fun mapping => mapping.block.Holds addr) =
      some ⟨cube.page, p.self, cube.id⟩ := by
  have mine := charted.mine cube member own
  refine find?_eq_of_unique mine (by simpa using holds) ?_
  intro other inside also
  by_contra different
  exact (charted.disjoint inside mine different).not_holds (by simpa using also)
    holds

theorem Process.Charted.region_eq (charted : p.Charted P names)
    (member : cube ∈ p.cubes) (own : cube.pid = p.pid)
    (here : p.file p.self cube.id = some file) :
    p.region cube = file.region cube.page.size := by
  refine Region.ext rfl fun index => ?_
  show (if _ then _ else _) = if _ then _ else _
  by_cases inside : index < cube.page.size
  · have holds : cube.page.Holds (cube.page.addr + index) :=
      ⟨Nat.le_add_right _ _, Nat.add_lt_add_left inside _⟩
    rw [if_pos inside, Process.loadByte,
      charted.find_mapping member own holds]
    simp [here, inside]
  · rw [if_neg inside, if_neg fun both => inside both.1]

/-- Two blocks at one base are one. -/
theorem Process.Laid.same_base (laid : p.Laid P) (member : cube ∈ p.cubes)
    {other : Cube} (also : other ∈ p.cubes)
    (same : other.page.addr = cube.page.addr) : other = cube :=
  laid.plotted.eq_of_common member also (laid.plotted.holds_base member)
    (same ▸ laid.plotted.holds_base also)

/-- Two own blocks with one file are one. -/
theorem Process.Charted.same_id (charted : p.Charted P names) (laid : p.Laid P)
    (member : cube ∈ p.cubes) (own : cube.pid = p.pid) {other : Cube}
    (also : other ∈ p.cubes) (theirs : other.pid = p.pid)
    (same : other.id = cube.id) : other = cube := by
  have mine := charted.mine other also theirs
  have block := charted.single _ mine cube member own rfl same
  exact laid.same_base member also (congrArg Block.addr block)

theorem Process.heap_apply (laid : p.Laid P) (member : cube ∈ p.cubes)
    (own : cube.pid = p.pid) :
    p.heap cube.page.addr = some (p.region cube) := by
  have found : p.cubes.find? (fun other =>
      other.page.addr == cube.page.addr && other.pid == p.pid) = some cube := by
    refine find?_eq_of_unique member (by simp [own]) ?_
    intro other also matched
    rw [Bool.and_eq_true, beq_iff_eq] at matched
    exact laid.same_base member also matched.1
  rw [Process.heap, found]
  rfl

theorem Process.heap_some (found : p.heap base = some region) :
    ∃ cube ∈ p.cubes, cube.pid = p.pid ∧ cube.page.addr = base ∧
      p.region cube = region := by
  obtain ⟨cube, first, same⟩ := Option.map_eq_some_iff.mp found
  have matched := List.find?_some first
  rw [Bool.and_eq_true, beq_iff_eq, beq_iff_eq] at matched
  exact ⟨cube, List.mem_of_find?_eq_some first, matched.2, matched.1, same⟩

/-- A heap that has the own blocks, and no others. -/
theorem Process.heap_ext (laid : p.Laid P) {heap : Heap UInt8}
    (all : ∀ cube ∈ p.cubes, cube.pid = p.pid →
      heap cube.page.addr = some (p.region cube))
    (only : ∀ base region, heap base = some region →
      ∃ cube ∈ p.cubes, cube.pid = p.pid ∧ cube.page.addr = base) :
    p.heap = heap := by
  funext base
  cases found : heap base with
  | some region =>
      obtain ⟨cube, member, own, rfl⟩ := only base region found
      rw [Process.heap_apply laid member own, ← found, all cube member own]
  | none =>
      rw [← Option.not_isSome_iff_eq_none, Option.isSome_iff_exists]
      rintro ⟨region, here⟩
      obtain ⟨cube, member, own, rfl, -⟩ := Process.heap_some here
      rw [all cube member own] at found
      cases found

/-- The same cubes, with the same places, owners and files. -/
structure Process.SameSites (p p' : Process) : Prop where
  pid : p'.pid = p.pid
  self : p'.self = p.self
  sites : p'.cubes.map Cube.site = p.cubes.map Cube.site

theorem Process.SameSites.same {p p' : Process} (same : p.SameSites p') :
    (∀ cube' ∈ p'.cubes, ∃ cube ∈ p.cubes, cube.site = cube'.site) ∧
      ∀ cube ∈ p.cubes, ∃ cube' ∈ p'.cubes, cube'.site = cube.site := by
  constructor
  · intro cube' member'
    have listed : cube'.site ∈ p'.cubes.map Cube.site :=
      List.mem_map_of_mem member'
    rw [same.sites] at listed
    exact List.mem_map.mp listed
  · intro cube member
    have listed : cube.site ∈ p.cubes.map Cube.site :=
      List.mem_map_of_mem member
    rw [← same.sites] at listed
    exact List.mem_map.mp listed

theorem Cube.site_eq_iff {cube cube' : Cube} :
    cube.site = cube'.site ↔ cube.ptr = cube'.ptr ∧ cube.page = cube'.page ∧
      cube.pid = cube'.pid ∧ cube.id = cube'.id := by
  simp only [Cube.site, Prod.mk.injEq]

/-- A file of a block, and what it has become. -/
structure File.Turns (size : Nat) (turn : Region UInt8 → Region UInt8)
    (file file' : File) : Prop where
  region : file'.region size = turn (file.region size)
  tail : (∀ index, size ≤ index → file.bytes index = 0) →
    ∀ index, size ≤ index → file'.bytes index = 0

theorem File.Turns.refl (size : Nat) (file : File) :
    file.Turns size (fun region => region) file :=
  ⟨rfl, fun tail => tail⟩

/-- The file of a new block. -/
theorem File.region_blank {size : Nat} (blank : file.Blank size) :
    file.region size = .blank 0 size := by
  refine Region.ext rfl fun index => ?_
  simp [File.region, Region.blank, blank.length, blank.zero]

/-- Every block has its place still, and its file has turned into another. -/
theorem Process.heap_turned (turn : Nat → Region UInt8 → Region UInt8)
    (laid : p.Laid P) (charted : p.Charted P names)
    (stocked : p.Stocked) (laid' : p'.Laid P) {names' : List (String × String)}
    (charted' : p'.Charted P names') (same : p.SameSites p')
    (files : ∀ cube ∈ p.cubes, cube.pid = p.pid →
      ∀ file, p.file p.self cube.id = some file →
        ∃ file', p'.file p.self cube.id = some file' ∧
          file.Turns cube.page.size (turn cube.page.addr) file') :
    p'.heap = (fun base => (p.heap base).map (turn base)) ∧ p'.Stocked := by
  have old : ∀ cube' ∈ p'.cubes, cube'.pid = p'.pid → ∃ cube ∈ p.cubes,
      cube.pid = p.pid ∧ cube.page = cube'.page ∧ ∃ file file',
        p.file p.self cube.id = some file ∧
        p'.file p'.self cube'.id = some file' ∧
        file.Turns cube.page.size (turn cube.page.addr) file' ∧
        ∀ index, cube.page.size ≤ index → file.bytes index = 0 := by
    intro cube' member' own'
    obtain ⟨cube, member, site⟩ := same.same.1 cube' member'
    obtain ⟨-, page, pid, id⟩ := Cube.site_eq_iff.mp site
    have own : cube.pid = p.pid := pid.trans (own'.trans same.pid)
    obtain ⟨file, here, tail⟩ := stocked cube member own
    obtain ⟨file', here', turns⟩ := files cube member own file here
    rw [id] at here'
    rw [← same.self] at here'
    exact ⟨cube, member, own, page, file, file', here, here', turns, tail⟩
  constructor
  · apply Process.heap_ext laid'
    · intro cube' member' own'
      obtain ⟨cube, member, own, page, file, file', here, here', turns, -⟩ :=
        old cube' member' own'
      rw [charted'.region_eq member' own' here', ← page,
        Process.heap_apply laid member own,
        charted.region_eq member own here, turns.region]
      rfl
    · intro base region found
      obtain ⟨before, listed, -⟩ := Option.map_eq_some_iff.mp found
      obtain ⟨cube, member, own, base, -⟩ := Process.heap_some listed
      obtain ⟨cube', member', site⟩ := same.same.2 cube member
      obtain ⟨-, page, pid, -⟩ := Cube.site_eq_iff.mp site
      exact ⟨cube', member', pid.trans (own.trans same.pid.symm),
        page ▸ base⟩
  · intro cube' member' own'
    obtain ⟨cube, -, -, page, file, file', -, here', turns, tail⟩ :=
      old cube' member' own'
    exact ⟨file', here', page ▸ turns.tail tail⟩

/-- An event that makes, frees and moves no block. -/
def Op.Still : Op → Prop
  | .alloc _ | .free _ | .realloc _ _ => False
  | _ => True

theorem Event.made_still {event : Event} (still : event.op.Still) :
    event.made = none := by
  obtain ⟨op, errno, os⟩ := event
  cases op with
  | alloc size => exact still.elim
  | realloc addr newSize => exact still.elim
  | _ => rfl

theorem Event.effect_still {event : Event} (still : event.op.Still)
    (cube : Cube) (prot : Prot) : event.effect P p ≠ .grows cube prot := by
  obtain ⟨op, errno, os⟩ := event
  cases op with
  | realloc addr newSize => exact still.elim
  | store addr byte =>
      simp only [Event.effect]
      split
      · simp
      · split <;> simp
  | _ => simp [Event.effect]

theorem sites_modifyCube {ptr : Nat} {change : Cube → Cube}
    (same : ∀ cube, (change cube).site = cube.site) :
    (p.modifyCube ptr change).cubes.map Cube.site = p.cubes.map Cube.site := by
  show (p.cubes.map _).map Cube.site = _
  rw [List.map_map]
  apply List.map_congr_left
  intro cube _
  show Cube.site (if cube.ptr = ptr then change cube else cube) = cube.site
  split
  · exact same cube
  · rfl

theorem sites_openSlices {slices : List Slice} :
    (p.openSlices P cube slices).cubes.map Cube.site =
      p.cubes.map Cube.site := by
  induction slices generalizing p with
  | nil => rfl
  | cons slice slices induction =>
      exact induction.trans (sites_modifyCube fun _ => rfl)

theorem Deed.sites {event : Event} {effect : Effect}
    (deed : Deed P p event effect p') (still : event.op.Still)
    (other : ∀ cube prot, effect ≠ .grows cube prot) :
    p'.cubes.map Cube.site = p.cubes.map Cube.site := by
  cases deed with
  | agrees agrees => rw [agrees.cubes]
  | beside pid cubes => rw [cubes]
  | alloc empty own whole admits fresh made agrees =>
      rw [Event.made_still still] at made
      cases made
  | free frees member base unmapped agrees =>
      rcases frees with frees | frees <;> simp [frees, Op.Still] at still
  | grow => exact absurd rfl (other _ _)
  | slice slices member own contains fresh agrees =>
      rw [agrees.cubes]
      exact sites_modifyCube fun _ => rfl
  | attach attaches member own inside agrees =>
      rw [agrees.cubes]
      exact sites_modifyCube fun _ => rfl
  | detach detaches member own inside agrees =>
      rcases agrees with kept | released
      · rw [kept.cubes]
        exact sites_modifyCube fun _ => rfl
      · rw [released.cubes]
        exact sites_modifyCube fun _ => rfl
  | fault member own contains idle known spans agrees =>
      rw [agrees.cubes]
      exact sites_openSlices

/-- A cube that an event has made had no file before. -/
theorem Deed.unique {event : Event} {effect : Effect}
    (deed : Deed P p event effect p') (charted : p.Charted P names)
    (fresh : ∀ id, event.made = some id → (p.self, id) ∉ names)
    (unique : ∀ cube ∈ p.live, cube.pid = p.pid → ∀ other ∈ p.live,
      other.pid = p.pid → cube.id = other.id → cube.ptr = other.ptr) :
    ∀ cube ∈ p'.live, cube.pid = p'.pid → ∀ other ∈ p'.live,
      other.pid = p'.pid → cube.id = other.id → cube.ptr = other.ptr := by
  rcases deed.descends_or_adds with descends | ⟨pid, new, made, cubes,
    orphans⟩
  · intro cube member own other also theirs same
    obtain ⟨cube', member', alike⟩ := descends.all cube member
    obtain ⟨other', also', alike'⟩ := descends.all other also
    rw [alike.ptr, alike'.ptr]
    apply unique cube' member' _ other' also'
    · exact alike'.pid.symm.trans (theirs.trans descends.pid)
    · exact alike.id.symm.trans (same.trans alike'.id)
    · exact alike.pid.symm.trans (own.trans descends.pid)
  · have split : ∀ cube ∈ p'.live, cube ∈ p.live ∨ cube = new := by
      intro cube member
      rw [Process.live, cubes, orphans] at member
      rcases List.mem_append.mp member with registered | orphan
      · rcases List.mem_append.mp registered with old | last
        · exact .inl (List.mem_append_left _ old)
        · exact .inr (List.mem_singleton.mp last)
      · exact .inl (List.mem_append_right _ orphan)
    have apart : ∀ cube ∈ p.live, cube.pid = p.pid → cube.id ≠ new.id := by
      intro cube member own same
      have known := charted.files cube member own
      rw [same] at known
      exact fresh new.id made.2 known
    intro cube member own other also theirs same
    rw [pid] at own theirs
    rcases split cube member with old | rfl
    · rcases split other also with old' | rfl
      · exact unique cube old own other old' theirs same
      · exact absurd same (apart cube old own)
    · rcases split other also with old' | rfl
      · exact absurd same.symm (apart other old' theirs)
      · rfl

/-- A process whose blocks are in order, in memory and in its directory. -/
structure Process.Housed (P : PageSize) (names : List (String × String))
    (p : Process) : Prop where
  laid : p.Laid P
  charted : p.Charted P names
  filed : p.Filed

/-- The heap of two states that have the own files in common. -/
theorem Process.Housed.heap_still (housed : p.Housed P names)
    (laid' : p'.Laid P) {names' : List (String × String)}
    (charted' : p'.Charted P names') (same : p.SameSites p')
    (files : ∀ cube ∈ p.cubes, cube.pid = p.pid →
      p'.file p.self cube.id = p.file p.self cube.id) :
    p'.heap = p.heap ∧ p'.Stocked := by
  have turned := Process.heap_turned (fun _ region => region)
    housed.laid housed.charted housed.filed.here laid' charted' same ?_
  · obtain ⟨heap, stocked⟩ := turned
    constructor
    · rw [heap]
      funext base
      exact Option.map_id_apply
    · exact stocked
  · intro cube member own file here
    exact ⟨file, (files cube member own).trans here, .refl _ file⟩

/-- The command of an allocation, by what it returns. -/
def allocCommand (P : PageSize) (size : Nat) :
    Option (Option Nat) → Heap.Command UInt8
  | some (some addr) => .make addr (ceilPagesize P size)
  | _ => .skip

section Blocks

variable {w w' : World} {size newSize : Nat} {result : Option Nat}
  {names' : List (String × String)}

theorem Process.Housed.alloc (housed : w.Housed P names) (laid' : w'.Laid P)
    (charted' : w'.Charted P names')
    (fresh : ∀ id, w.Names id → (w.self, id) ∉ names)
    (outcome : AllocOutcome P w size result w') (makes : w.Makes P result w')
    (blank : ∀ addr, result = some addr →
      ∃ cube, w'.cubes.getLast? = some cube ∧ w.Blanks cube w') :
    w'.heap = (allocCommand P size (some result)).run 0 w.heap ∧
      w'.Stocked := by
  have files : ∀ cube ∈ w.cubes, cube.pid = w.pid →
      w'.file w.self cube.id = w.file w.self cube.id := by
    intro cube member own
    apply makes.writes.file
    intro _ named
    exact fresh _ named (housed.charted.files cube
      (List.mem_append_left _ member) own)
  cases outcome with
  | failed beside =>
      apply housed.heap_still laid' charted' _ files
      exact ⟨beside.pid, makes.writes.self, by rw [beside.cubes]⟩
  | @made ptr addr id w' requested admits unused effect =>
      obtain ⟨last, ended, file, here, empty⟩ := blank addr rfl
      have cubes : w'.cubes = w.cubes ++ [_] := effect.cubes
      have pid : w'.pid = w.pid := effect.pid
      rw [cubes, List.getLast?_concat] at ended
      have same := Option.some.inj ended
      have page : last.page = ⟨addr, ceilPagesize P size⟩ := by rw [← same]
      have own : last.pid = w.pid := by rw [← same]
      rw [same] at cubes
      have member : last ∈ w'.cubes := by simp [cubes]
      have backed : w'.file w'.self last.id = some file := by
        rw [here.1]
        exact here.2
      constructor
      · apply Process.heap_ext laid'
        · intro cube inside mine
          show Function.update w.heap addr _ _ = _
          by_cases there : cube.page.addr = addr
          · have alike : cube = last :=
              laid'.same_base member inside (by rw [there, page])
            rw [there, Function.update_self, alike,
              charted'.region_eq member (own.trans pid.symm) backed,
              File.region_blank empty, page]
          · rw [Function.update_of_ne there]
            have old : cube ∈ w.cubes := by
              rw [cubes] at inside
              rcases List.mem_append.mp inside with old | new
              · exact old
              · rw [List.mem_singleton.mp new, page] at there
                exact absurd rfl there
            rw [pid] at mine
            obtain ⟨file', here', -⟩ := housed.filed.here cube old mine
            rw [Process.heap_apply housed.laid old mine,
              housed.charted.region_eq old mine here']
            rw [charted'.region_eq inside (mine.trans pid.symm)]
            rw [here.1]
            exact (files cube old mine).trans here'
        · intro base region found
          by_cases there : base = addr
          · exact ⟨last, member, own.trans pid.symm, by rw [page, there]⟩
          · have found : w.heap base = some region := by
              rw [← found]
              exact (Function.update_of_ne there _ _).symm
            obtain ⟨cube, old, mine, here', -⟩ := Process.heap_some found
            exact ⟨cube, by simp [cubes, old], mine.trans pid.symm, here'⟩
      · intro cube inside mine
        rw [cubes] at inside
        rcases List.mem_append.mp inside with old | new
        · rw [pid] at mine
          obtain ⟨file', here', tail⟩ := housed.filed.here cube old mine
          refine ⟨file', ?_, tail⟩
          rw [here.1]
          exact (files cube old mine).trans here'
        · rw [List.mem_singleton.mp new]
          exact ⟨file, backed, fun index _ => empty.zero index⟩

theorem Process.Housed.free (housed : w.Housed P names) (laid' : w'.Laid P)
    (charted' : w'.Charted P names') (outcome : FreeOutcome w addr w')
    (writes : w.Writes (fun id => ∃ cube ∈ w.cubes, cube.page.addr = addr ∧
      cube.pid = w.pid ∧ cube.id = id) w') :
    w'.heap = (Heap.Command.drop addr).run 0 w.heap ∧ w'.Stocked := by
  -- a block at another base has another file
  have files : ∀ cube ∈ w.cubes, cube.pid = w.pid → cube.page.addr ≠ addr →
      w'.file w.self cube.id = w.file w.self cube.id := by
    intro cube member own elsewhere
    apply writes.file
    rintro _ ⟨other, also, there, theirs, same⟩
    have alike := housed.charted.same_id housed.laid member own also theirs same
    exact elsewhere (alike ▸ there)
  have cubes : ∀ cube, cube ∈ w'.cubes ↔
      cube ∈ w.cubes ∧ cube.page.addr ≠ addr := by
    intro cube
    cases outcome with
    | missed lost quiet =>
        rw [quiet.cubes]
        constructor
        · intro member
          refine ⟨member, ?_⟩
          rintro rfl
          rcases lost with null | lost
          · exact (housed.laid.placed cube member).positive.ne' null
          · exact absurd (beq_self_eq_true _)
              (List.find?_eq_none.mp lost cube member)
        · exact And.left
    | @freed freed maps w' given found unmapped effect =>
        have same : w'.cubes = (w.freeCube freed).cubes := effect.cubes
        have inside := List.mem_of_find?_eq_some found
        have base : freed.page.addr = addr := by
          simpa using List.find?_some found
        rw [same]
        constructor
        · intro member
          obtain ⟨member, different⟩ := Process.mem_freeCube member
          refine ⟨member, fun there => different ?_⟩
          rw [housed.laid.same_base inside member (there.trans base.symm)]
        · rintro ⟨member, elsewhere⟩
          apply Process.mem_freeCube_of_ne member
          intro same
          have alike := housed.laid.named.same_cube
            (List.mem_append_left _ member) (List.mem_append_left _ inside) same
          exact elsewhere (alike ▸ base)
  have pid := writes.pid
  constructor
  · apply Process.heap_ext laid'
    · intro cube member' own
      obtain ⟨member, elsewhere⟩ := (cubes cube).mp member'
      have mine := own.trans pid
      obtain ⟨file, here, -⟩ := housed.filed.here cube member mine
      have kept := (files cube member mine elsewhere).trans here
      rw [← writes.self] at kept
      show Function.update w.heap addr none cube.page.addr = _
      rw [Function.update_of_ne elsewhere,
        Process.heap_apply housed.laid member mine,
        housed.charted.region_eq member mine here,
        charted'.region_eq member' own kept]
    · intro base region found
      have elsewhere : base ≠ addr := by
        rintro rfl
        have lost : Function.update w.heap base none base = some region := found
        rw [Function.update_self] at lost
        cases lost
      have found : w.heap base = some region := by
        rw [← found]
        exact (Function.update_of_ne elsewhere _ _).symm
      obtain ⟨cube, member, own, here, -⟩ := Process.heap_some found
      refine ⟨cube, (cubes cube).mpr ⟨member, ?_⟩, own.trans pid.symm, here⟩
      rw [here]
      exact elsewhere
  · intro cube member' own
    obtain ⟨member, elsewhere⟩ := (cubes cube).mp member'
    obtain ⟨file, here, tail⟩ := housed.filed.here cube member (own.trans pid)
    refine ⟨file, ?_, tail⟩
    rw [writes.self]
    exact (files cube member (own.trans pid) elsewhere).trans here

theorem File.turns_store {index size : Nat} {byte : UInt8}
    (inside : index < size) :
    file.Turns size (Region.write index byte) (file.store index byte) := by
  constructor
  · refine Region.ext rfl fun other => ?_
    by_cases same : other = index
    · subst same
      simp [File.region, Region.write, File.store]
    · simp [File.region, Region.write, File.store, same]
  · intro tail other beyond
    have different : other ≠ index := by omega
    simp [File.store, different, tail other beyond]

theorem Region.write_beyond {index : Nat} {byte : UInt8}
    (beyond : file.length ≤ index ∨ addr ≤ index) :
    (file.region addr).write index byte = file.region addr := by
  refine Region.ext rfl fun other => ?_
  by_cases same : other = index
  · subst same
    have outside : ¬(other < addr ∧ other < file.length) := by omega
    simp [File.region, Region.write, outside]
  · simp [Region.write, same]

theorem File.region_resize {size size' length : Nat}
    (tail : ∀ index, size ≤ index → file.bytes index = 0) :
    (file.resize length).region size' =
      (file.region size).resize 0 size' length := by
  refine Region.ext rfl fun index => ?_
  show (if index < size' ∧ index < length then
      some (if index < min file.length length then file.bytes index else 0)
    else none) = if index < size' ∧ index < length then
      some ((if index < size ∧ index < file.length then
        some (file.bytes index) else none).getD 0)
    else none
  by_cases inside : index < size' ∧ index < length
  · rw [if_pos inside, if_pos inside]
    by_cases short : index < file.length
    · rw [if_pos (Nat.lt_min.mpr ⟨short, inside.2⟩)]
      by_cases below : index < size
      · rw [if_pos ⟨below, short⟩]
        rfl
      · rw [if_neg fun both => below both.1, tail index (Nat.le_of_not_lt below)]
        rfl
    · rw [if_neg fun both => short (Nat.lt_min.mp both).1,
        if_neg fun both => short both.2]
      rfl
  · rw [if_neg inside, if_neg inside]

theorem File.resize_tail {size length : Nat}
    (tail : ∀ index, size ≤ index → file.bytes index = 0) :
    ∀ index, size ≤ index → (file.resize length).bytes index = 0 := by
  intro index beyond
  show (if _ then file.bytes index else 0) = 0
  rw [tail index beyond, ite_self]

/-- A store reaches the file of the one own block at the address. -/
theorem Process.Charted.file_store (charted : p.Charted P names)
    {byte : UInt8} (member : cube ∈ p.cubes) (own : cube.pid = p.pid)
    (here : p.file p.self cube.id = some file) :
    (p.storeByte addr byte).file p.self cube.id =
      some (if cube.page.Holds addr then
        file.store (addr - cube.page.addr) byte else file) := by
  by_cases holds : cube.page.Holds addr
  · rw [if_pos holds, Process.storeByte,
      charted.find_mapping member own holds]
    have stored := @file_map_self p p.self cube.id
      (File.store (addr - cube.page.addr) byte) fun _ => ⟨rfl, rfl⟩
    rw [here] at stored
    exact stored
  · rw [if_neg holds]
    rcases @storeByte_file p addr byte p.self cube.id with same | ⟨mapping,
      inside, dir, id, within⟩
    · exact same.trans here
    · have block := charted.single mapping inside cube member own dir id
      exact absurd (block ▸ within) holds

theorem Process.Housed.store (housed : p.Housed P names) {byte : UInt8}
    (laid' : (p.storeByte addr byte).Laid P)
    (charted' : (p.storeByte addr byte).Charted P names') :
    (p.storeByte addr byte).heap =
        (Heap.Command.write addr byte).run 0 p.heap ∧
      (p.storeByte addr byte).Stocked := by
  obtain ⟨files, stored⟩ := storeByte_eq addr byte p
  have same : p.SameSites (p.storeByte addr byte) := by
    rw [stored]
    exact ⟨rfl, rfl, rfl⟩
  apply Process.heap_turned (fun base region =>
    if base ≤ addr then region.write (addr - base) byte else region)
    housed.laid housed.charted housed.filed.here laid' charted' same
  intro cube member own file here
  refine ⟨_, housed.charted.file_store member own here, ?_⟩
  by_cases holds : cube.page.Holds addr
  · simp only [if_pos holds, if_pos holds.1]
    apply File.turns_store
    have below := holds.2
    have above := holds.1
    omega
  · rw [if_neg holds]
    by_cases above : cube.page.addr ≤ addr
    · simp only [if_pos above]
      have beyond : cube.page.size ≤ addr - cube.page.addr := by
        by_contra short
        exact holds ⟨above, by omega⟩
      exact ⟨(Region.write_beyond (.inr beyond)).symm, fun tail => tail⟩
    · simp only [if_neg above]
      exact .refl _ file

/-- The file of a block has another length, and the block is where it was. -/
theorem Process.Housed.truncated (housed : p.Housed P names)
    (laid' : p'.Laid P) (charted' : p'.Charted P names')
    (same : p.SameSites p') (member : cube ∈ p.cubes) (own : cube.pid = p.pid)
    {length : Nat}
    (here : p'.file p.self cube.id =
      (p.file p.self cube.id).map (File.resize length))
    (others : ∀ other ∈ p.cubes, other.pid = p.pid → other.id ≠ cube.id →
      p'.file p.self other.id = p.file p.self other.id) :
    p'.heap = (Heap.Command.resize cube.page.addr cube.page.addr
        cube.page.size length).run 0 p.heap ∧ p'.Stocked := by
  have turned := Process.heap_turned (fun base region =>
    if base = cube.page.addr then region.resize 0 cube.page.size length
    else region) housed.laid housed.charted housed.filed.here laid' charted'
    same ?_
  · obtain ⟨heap, stocked⟩ := turned
    refine ⟨?_, stocked⟩
    rw [heap]
    funext base
    show _ = Function.update (Function.update p.heap _ none) _ _ base
    by_cases there : base = cube.page.addr
    · subst there
      rw [Function.update_self]
      simp only [if_true]
    · rw [Function.update_of_ne there, Function.update_of_ne there]
      simp only [if_neg there, Option.map_id_fun', id]
  · intro other also theirs file found
    by_cases there : other.page.addr = cube.page.addr
    · have alike := housed.laid.same_base member also there
      subst alike
      obtain ⟨file', found', tail⟩ := housed.filed.here other also theirs
      rw [found] at found'
      cases found'
      rw [found] at here
      refine ⟨_, here, ?_⟩
      simp only [if_true]
      exact ⟨File.region_resize tail, File.resize_tail⟩
    · have different : other.id ≠ cube.id := by
        intro same
        have alike := housed.charted.same_id housed.laid member own also
          theirs same
        exact there (congrArg (fun cube => cube.page.addr) alike)
      refine ⟨file, (others other also theirs different).trans found, ?_⟩
      simp only [if_neg there]
      exact .refl _ file

/-- A block has moved, and its file has the length of the new one. -/
theorem Process.Housed.moved (housed : p.Housed P names)
    (laid' : p'.Laid P) (charted' : p'.Charted P names')
    (pid : p'.pid = p.pid) (self : p'.self = p.self)
    (member : cube ∈ p.cubes) (own : cube.pid = p.pid) {page : Block}
    {prot : Prot} (cubes : p'.cubes = (p.moveCube P cube page prot).cubes)
    (here : p'.file p.self cube.id =
      (p.file p.self cube.id).map (File.resize page.size))
    (others : ∀ other ∈ p.cubes, other.pid = p.pid → other.id ≠ cube.id →
      p'.file p.self other.id = p.file p.self other.id) :
    p'.heap = (Heap.Command.resize cube.page.addr page.addr
        page.size page.size).run 0 p.heap ∧ p'.Stocked := by
  obtain ⟨file, found, tail⟩ := housed.filed.here cube member own
  rw [found] at here
  have split : ∀ other ∈ p'.cubes, other = { cube with page := page } ∨
      other ∈ p.cubes ∧ other.page.addr ≠ cube.page.addr ∧
        (other.pid = p.pid →
          p'.file p.self other.id = p.file p.self other.id) := by
    intro other inside
    rw [cubes] at inside
    rcases mem_moveCube housed.laid.named member inside with rfl | ⟨old, ptr⟩
    · exact .inl rfl
    · refine .inr ⟨old, ?_, ?_⟩
      · intro there
        exact ptr (congrArg Cube.ptr (housed.laid.same_base member old there))
      · intro theirs
        apply others other old theirs
        intro same
        exact ptr (congrArg Cube.ptr
          (housed.charted.same_id housed.laid member own old theirs same))
  have new : { cube with page := page } ∈ p'.cubes := by
    rw [cubes]
    exact List.mem_map.mpr ⟨cube, member, if_pos rfl⟩
  have mine : ({ cube with page := page } : Cube).pid = p'.pid :=
    own.trans pid.symm
  have backed : p'.file p'.self cube.id = some (file.resize page.size) := by
    rw [self]
    exact here
  have reached : p.heap cube.page.addr = some (file.region cube.page.size) := by
    rw [Process.heap_apply housed.laid member own,
      housed.charted.region_eq member own found]
  constructor
  · apply Process.heap_ext laid'
    · intro other inside theirs
      show Function.update (Function.update p.heap _ none) _ _ _ = _
      by_cases there : other.page.addr = page.addr
      · have alike := laid'.same_base new inside there
        rw [there, Function.update_self, alike,
          charted'.region_eq new mine backed, reached,
          File.region_resize tail]
        rfl
      · rw [Function.update_of_ne there]
        rcases split other inside with rfl | ⟨old, elsewhere, kept⟩
        · exact absurd rfl there
        · rw [pid] at theirs
          obtain ⟨file', found', -⟩ := housed.filed.here other old theirs
          rw [Function.update_of_ne elsewhere,
            Process.heap_apply housed.laid old theirs,
            housed.charted.region_eq old theirs found',
            charted'.region_eq inside (theirs.trans pid.symm)]
          rw [self]
          exact (kept theirs).trans found'
    · intro base region filled
      by_cases there : base = page.addr
      · exact ⟨_, new, mine, there.symm⟩
      · have filled : Function.update p.heap cube.page.addr none base =
            some region := by
          rw [← filled]
          exact (Function.update_of_ne there _ _).symm
        by_cases gone : base = cube.page.addr
        · subst gone
          rw [Function.update_self] at filled
          cases filled
        · rw [Function.update_of_ne gone] at filled
          obtain ⟨other, old, theirs, place, -⟩ := Process.heap_some filled
          refine ⟨other, ?_, theirs.trans pid.symm, place⟩
          rw [cubes]
          refine List.mem_map.mpr ⟨other, old, if_neg ?_⟩
          intro ptr
          have alike := housed.laid.named.same_cube
            (List.mem_append_left _ old) (List.mem_append_left _ member) ptr
          exact gone (alike ▸ place.symm)
  · intro other inside theirs
    rcases split other inside with rfl | ⟨old, elsewhere, kept⟩
    · refine ⟨_, backed, ?_⟩
      intro index beyond
      show (if index < min file.length page.size then _ else _) = (0 : UInt8)
      exact if_neg fun short => Nat.not_lt.mpr beyond (Nat.lt_min.mp short).2
    · rw [pid] at theirs
      obtain ⟨file', found', tail'⟩ := housed.filed.here other old theirs
      refine ⟨file', ?_, tail'⟩
      rw [self]
      exact (kept theirs).trans found'

end Blocks

end Heaps

end CoralApi
