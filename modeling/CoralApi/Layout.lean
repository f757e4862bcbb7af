import CoralApi.Host

/-!
# The layout of blocks and slices

The registered cubes of a process lie in disjoint page-aligned mappings, and
every slice spans whole pages of its cube that cover its bytes.  Every step
keeps this layout.
-/

namespace CoralApi

/-- A slice of a block of this size: whole pages that cover its bytes. -/
structure Slice.Fits (P : PageSize) (size : Nat) (slice : Slice) : Prop where
  base : P.bytes ∣ slice.page.offset
  whole : P.bytes ∣ slice.page.size
  start : slice.page.offset ≤ slice.offset
  finish : slice.offset + slice.size ≤ slice.page.offset + slice.page.size
  inside : slice.page.offset + slice.page.size ≤ size

structure Block.Placed (P : PageSize) (block : Block) : Prop where
  positive : 0 < block.addr
  nonempty : 0 < block.size
  aligned : P.bytes ∣ block.addr
  whole : P.bytes ∣ block.size
  fits : block.addr + block.size < wordSize

/-- The layout of the blocks, whatever the slices are. -/
structure Process.Plotted (P : PageSize) (p : Process) : Prop where
  named : p.Named
  placed : ∀ cube ∈ p.cubes, cube.page.Placed P
  mapped : ∀ cube ∈ p.cubes, ∃ mapping ∈ p.maps, mapping.block = cube.page
  apart : ∀ cube ∈ p.cubes, ∀ other ∈ p.cubes, cube ≠ other →
    cube.page.Disjoint other.page

/-- The layout of the cubes, whoever made them. -/
structure Process.Laid (P : PageSize) (p : Process) : Prop
    extends plotted : p.Plotted P where
  slices : ∀ cube ∈ p.cubes, ∀ slice ∈ cube.slices,
    slice.Fits P cube.page.size

structure Process.WellFormed (P : PageSize) (p : Process) : Prop
    extends laid : p.Laid P where
  own : ∀ cube ∈ p.cubes, cube.pid = p.pid

/-- No call of the library has been made yet. -/
def Process.Fresh (p : Process) : Prop := p.cubes = [] ∧ p.orphans = []

theorem Process.Fresh.laid {P : PageSize} {p : Process} (fresh : p.Fresh) :
    p.Laid P := by
  have names : p.names = [] := by
    simp [Process.names, Process.live, fresh.1, fresh.2]
  refine ⟨⟨⟨by simp [names], by simp [names]⟩, ?_, ?_, ?_⟩, ?_⟩
  all_goals simp [fresh.1]

theorem Process.Fresh.wellFormed {P : PageSize} {p : Process}
    (fresh : p.Fresh) : p.WellFormed P :=
  ⟨fresh.laid, by simp [fresh.1]⟩

section Arithmetic

variable {P : PageSize} {block : Block} {slice : Slice}

/-- A block leaves room for one more page below the end of the words. -/
theorem Block.Placed.room (placed : block.Placed P) :
    block.size + P.bytes < wordSize := by
  have bytes := Nat.le_of_dvd placed.positive placed.aligned
  have fits := placed.fits
  omega

theorem Slice.Fits.longer {size newSize : Nat} (fits : slice.Fits P size)
    (longer : size ≤ newSize) : slice.Fits P newSize :=
  { fits with inside := Nat.le_trans fits.inside longer }

/-- In a cube that may end with the last word, nothing wraps in the page range
of a new slice. -/
theorem newSlice_page {cube : Cube} {addr size ptr : Nat}
    (positive : 0 < cube.page.addr) (aligned : P.bytes ∣ cube.page.addr)
    (fits : cube.page.addr + cube.page.size ≤ wordSize)
    (word : addr < wordSize) (above : cube.page.addr ≤ addr)
    (below : addr + size ≤ cube.page.addr + cube.page.size) :
    (newSlice P cube addr size ptr).offset = addr - cube.page.addr ∧
      (newSlice P cube addr size ptr).page =
        ⟨P.floor addr - cube.page.addr,
          ceilPagesize P (addr - P.floor addr + size)⟩ ∧
      cube.page.addr ≤ P.floor addr ∧
      addr - P.floor addr + size + P.bytes - 1 < wordSize := by
  have bytes := Nat.le_of_dvd positive aligned
  have floor := floorPagesize_eq P word
  have floorBelow := P.floor_le addr
  have baseBelow : cube.page.addr ≤ P.floor addr :=
    (PageSize.le_floor aligned).mpr above
  have offset : wsub addr cube.page.addr = addr - cube.page.addr :=
    wsub_eq above word
  have pageOffset : wsub (floorPagesize P addr) cube.page.addr =
      P.floor addr - cube.page.addr := by
    rw [floor]
    exact wsub_eq baseBelow (by omega)
  have lead : wsub (addr - cube.page.addr) (P.floor addr - cube.page.addr) =
      addr - P.floor addr := by
    rw [wsub_eq (by omega) (by omega)]
    omega
  have length : wadd (addr - P.floor addr) size = addr - P.floor addr + size :=
    wadd_eq (by omega)
  refine ⟨offset, ?_, baseBelow, by omega⟩
  simp only [newSlice, pageOffset, offset, lead, length]

/-- The slices that `__slice` makes for ranges inside of a cube fit. -/
theorem newSlice_fits_range {cube : Cube} {addr size ptr : Nat}
    (positive : 0 < cube.page.addr) (aligned : P.bytes ∣ cube.page.addr)
    (whole : P.bytes ∣ cube.page.size)
    (fits : cube.page.addr + cube.page.size ≤ wordSize)
    (word : addr < wordSize) (above : cube.page.addr ≤ addr)
    (below : addr + size ≤ cube.page.addr + cube.page.size) :
    (newSlice P cube addr size ptr).Fits P cube.page.size := by
  obtain ⟨offset, page, baseBelow, rounds⟩ := @newSlice_page P cube addr size
    ptr positive aligned fits word above below
  have floorBelow := P.floor_le addr
  have reaches := le_ceilPagesize rounds
  have ending : P.bytes ∣ cube.page.addr + cube.page.size - P.floor addr :=
    Nat.dvd_sub (Nat.dvd_add aligned whole) (P.dvd_floor addr)
  have stays := ceilPagesize_le rounds ending (by omega)
  refine ⟨?_, ?_, ?_, ?_, ?_⟩
  · rw [page]
    exact Nat.dvd_sub (P.dvd_floor addr) aligned
  · rw [page]
    exact dvd_ceilPagesize P _
  · rw [page, offset]
    exact Nat.sub_le_sub_right floorBelow _
  · rw [page, offset]
    simp only [newSlice]
    omega
  · rw [page]
    simp only
    omega

/-- The slices that `__slice` makes fit. -/
theorem newSlice_fits {cube : Cube} {addr size ptr : Nat}
    (placed : cube.page.Placed P) (word : addr + size < wordSize)
    (contains : cube.containsRange addr size = true) :
    (newSlice P cube addr size ptr).Fits P cube.page.size := by
  simp only [Cube.containsRange, wadd_eq word, wadd_eq placed.fits,
    Bool.and_eq_true, decide_eq_true_eq] at contains
  obtain ⟨above, below⟩ := contains
  exact newSlice_fits_range placed.positive placed.aligned placed.whole
    (Nat.le_of_lt placed.fits) (by omega) above below

end Arithmetic

/-- A cube stays where it is, and its slices stay in place. -/
structure Cube.Kept (P : PageSize) (cube cube' : Cube) : Prop where
  ptr : cube'.ptr = cube.ptr
  page : cube'.page = cube.page
  pid : cube'.pid = cube.pid
  id : cube'.id = cube.id
  slices : ∀ size, (∀ slice ∈ cube.slices, slice.Fits P size) →
    ∀ slice ∈ cube'.slices, slice.Fits P size

theorem Cube.Kept.refl (P : PageSize) (cube : Cube) : cube.Kept P cube :=
  ⟨rfl, rfl, rfl, rfl, fun _ fits => fits⟩

theorem Cube.Kept.trans {P : PageSize} {cube cube' cube'' : Cube}
    (left : cube.Kept P cube') (right : cube'.Kept P cube'') :
    cube.Kept P cube'' where
  ptr := right.ptr.trans left.ptr
  page := right.page.trans left.page
  pid := right.pid.trans left.pid
  id := right.id.trans left.id
  slices := fun size fits => right.slices size (left.slices size fits)

/-- Every registered cube was there before and is kept, with its mapping. -/
structure Process.Keeps (P : PageSize) (p p' : Process) : Prop where
  pid : p'.pid = p.pid
  names : p'.names.Subperm p.names
  nextPtr : p.nextPtr ≤ p'.nextPtr
  cubes : ∀ cube' ∈ p'.cubes, ∃ cube ∈ p.cubes, cube.Kept P cube'
  maps : ∀ mapping ∈ p.maps,
    (∃ cube ∈ p'.cubes, cube.page = mapping.block) → mapping ∈ p'.maps

namespace Process.Keeps

variable {P : PageSize} {p p' p'' : Process}

theorem trans (left : p.Keeps P p') (right : p'.Keeps P p'') :
    p.Keeps P p'' where
  pid := right.pid.trans left.pid
  names := right.names.trans left.names
  nextPtr := Nat.le_trans left.nextPtr right.nextPtr
  cubes := by
    intro cube'' member
    obtain ⟨cube', member', kept'⟩ := right.cubes cube'' member
    obtain ⟨cube, member, kept⟩ := left.cubes cube' member'
    exact ⟨cube, member, kept.trans kept'⟩
  maps := by
    rintro mapping inside ⟨cube'', member, page⟩
    obtain ⟨cube', member', kept⟩ := right.cubes cube'' member
    apply right.maps mapping _ ⟨cube'', member, page⟩
    exact left.maps mapping inside ⟨cube', member', kept.page ▸ page⟩

theorem of_cubes (pid : p'.pid = p.pid) (cubes : p'.cubes = p.cubes)
    (orphans : p'.orphans = p.orphans) (nextPtr : p.nextPtr ≤ p'.nextPtr)
    (maps : p.maps ⊆ p'.maps) : p.Keeps P p' where
  pid := pid
  names := by rw [Process.names, Process.live, cubes, orphans]; rfl
  nextPtr := nextPtr
  cubes := by
    rw [cubes]
    exact fun cube member => ⟨cube, member, .refl P cube⟩
  maps := fun _ inside _ => maps inside

theorem of_agrees (agrees : p.Agrees p') : p.Keeps P p' :=
  of_cubes agrees.pid agrees.cubes agrees.orphans agrees.nextPtr
    (by simp [agrees.maps])

theorem of_protectPages (addr size : Nat) (prot : Prot) :
    p.Keeps P (p.protectPages P addr size prot) :=
  of_cubes rfl rfl rfl (Nat.le_refl _) (List.Subset.refl _)

theorem of_modifyCube {ptr : Nat} {change : Cube → Cube}
    (kept : ∀ cube : Cube, cube.Kept P (change cube))
    (names : ∀ cube, (change cube).names = cube.names) :
    p.Keeps P (p.modifyCube ptr change) where
  pid := rfl
  names := by rw [names_modifyCube names]
  nextPtr := Nat.le_refl _
  cubes := by
    intro cube' member'
    obtain ⟨cube, member, rfl⟩ := List.mem_map.mp member'
    refine ⟨cube, member, ?_⟩
    split
    · exact kept cube
    · exact .refl P cube
  maps := fun _ inside _ => inside

theorem of_release (ptr : Nat) : p.Keeps P (p.release ptr) where
  pid := rfl
  names := (names_release ptr).subperm
  nextPtr := Nat.le_refl _
  cubes := fun cube member => ⟨cube, member, .refl P cube⟩
  maps := fun _ inside _ => inside

/-- The names and places of the new state follow from those of the old. -/
theorem plotted (keeps : p.Keeps P p') (before : p.Plotted P) :
    p'.Plotted P := by
  have named := before.named.of_subperm keeps.names keeps.nextPtr
  refine ⟨named, ?_, ?_, ?_⟩
  · intro cube' member
    obtain ⟨cube, member, kept⟩ := keeps.cubes cube' member
    rw [kept.page]
    exact before.placed cube member
  · intro cube' member'
    obtain ⟨cube, member, kept⟩ := keeps.cubes cube' member'
    obtain ⟨mapping, inside, block⟩ := before.mapped cube member
    have page : cube'.page = mapping.block := kept.page.trans block.symm
    exact ⟨mapping, keeps.maps mapping inside ⟨cube', member', page⟩, page.symm⟩
  · intro cube' member' other' also' different
    obtain ⟨cube, member, kept⟩ := keeps.cubes cube' member'
    obtain ⟨other, also, keptOther⟩ := keeps.cubes other' also'
    rw [kept.page, keptOther.page]
    apply before.apart cube member other also
    rintro rfl
    apply different
    exact named.same_cube (List.mem_append_left _ member')
      (List.mem_append_left _ also') (kept.ptr.trans keptOther.ptr.symm)

theorem laid (keeps : p.Keeps P p') (before : p.Laid P) : p'.Laid P := by
  refine ⟨keeps.plotted before.plotted, fun cube' member => ?_⟩
  obtain ⟨cube, member, kept⟩ := keeps.cubes cube' member
  rw [kept.page]
  exact kept.slices _ (before.slices cube member)

theorem wellFormed (keeps : p.Keeps P p') (before : p.WellFormed P) :
    p'.WellFormed P := by
  refine ⟨keeps.laid before.laid, fun cube' member => ?_⟩
  obtain ⟨cube, member, kept⟩ := keeps.cubes cube' member
  rw [kept.pid, keeps.pid]
  exact before.own cube member

end Process.Keeps

section Moves

variable {P : PageSize} {p p' : Process} {cube : Cube}

theorem kept_modifySlice {ptr : Nat} {change : Slice → Slice}
    (page : ∀ slice, (change slice).page = slice.page)
    (offset : ∀ slice, (change slice).offset = slice.offset)
    (size : ∀ slice, (change slice).size = slice.size) (cube : Cube) :
    cube.Kept P (cube.modifySlice ptr change) := by
  refine ⟨rfl, rfl, rfl, rfl, fun bound fits slice' member => ?_⟩
  obtain ⟨slice, inside, rfl⟩ := List.mem_map.mp member
  have fits := fits slice inside
  split
  · refine ⟨?_, ?_, ?_, ?_, ?_⟩
    · rw [page]
      exact fits.base
    · rw [page]
      exact fits.whole
    · rw [page, offset]
      exact fits.start
    · rw [page, offset, size]
      exact fits.finish
    · rw [page]
      exact fits.inside
  · exact fits

theorem names_modifySlice {ptr : Nat} {change : Slice → Slice}
    (same : ∀ slice, (change slice).ptr = slice.ptr) (cube : Cube) :
    (cube.modifySlice ptr change).names = cube.names := by
  simp only [Cube.names, Cube.modifySlice, List.map_map]
  congr 2
  funext slice
  simp only [Function.comp_apply]
  split
  · exact same slice
  · rfl

theorem keeps_link (cube slice : Nat) :
    p.Keeps P (Process.link cube slice p) := by
  apply Process.Keeps.of_modifyCube
  · intro cube
    have kept := @kept_modifySlice P slice
      (fun slice => { slice with nlinks := slice.nlinks + 1 })
      (fun _ => rfl) (fun _ => rfl) (fun _ => rfl) cube
    exact ⟨kept.ptr, kept.page, kept.pid, kept.id, kept.slices⟩
  · exact names_modifySlice fun _ => rfl

theorem keeps_unlinkSlice (cube slice : Nat) :
    p.Keeps P (p.unlinkSlice cube slice) := by
  have lowered : p.Keeps P (p.modifyCube cube fun cube =>
      { cube.modifySlice slice fun slice =>
          { slice with nlinks := slice.nlinks - 1 } with
        nlinks := cube.nlinks - 1 }) := by
    apply Process.Keeps.of_modifyCube
    · intro cube
      have kept := @kept_modifySlice P slice
        (fun slice => { slice with nlinks := slice.nlinks - 1 })
        (fun _ => rfl) (fun _ => rfl) (fun _ => rfl) cube
      exact ⟨kept.ptr, kept.page, kept.pid, kept.id, kept.slices⟩
    · exact names_modifySlice fun _ => rfl
  exact lowered.trans (.of_cubes rfl rfl rfl (Nat.le_refl _)
    (List.Subset.refl _))

theorem keeps_openSlices (slices : List Slice) :
    p.Keeps P (p.openSlices P cube slices) := by
  induction slices generalizing p with
  | nil => exact .of_agrees ⟨rfl, rfl, rfl, rfl, rfl, Nat.le_refl _⟩
  | cons slice slices induction =>
      refine Process.Keeps.trans ?_ induction
      refine (Process.Keeps.of_protectPages
        (wadd cube.page.addr slice.page.offset) slice.page.size
        .readWrite).trans ?_
      apply Process.Keeps.of_modifyCube
      · exact kept_modifySlice (fun _ => rfl) (fun _ => rfl) (fun _ => rfl)
      · exact names_modifySlice fun _ => rfl

/-- The other cubes stay when a cube leaves the registry. -/
theorem keeps_freeCube {maps : List Mapping} (plotted : p.Plotted P)
    (member : cube ∈ p.cubes)
    (unmapped : maps = p.maps ∨
      maps = p.maps.filter fun mapping => mapping.block ≠ cube.page) :
    p.Keeps P { p.freeCube cube with maps := maps } := by
  refine ⟨?_, Process.names_freeCube plotted.named member, ?_, ?_, ?_⟩
  · simp only [Process.freeCube]
    split
    · rfl
    · rfl
  · simp only [Process.freeCube]
    split
    · exact Nat.le_refl _
    · exact Nat.le_refl _
  · exact fun cube' member' =>
      ⟨cube', (Process.mem_freeCube member').1, .refl P cube'⟩
  · rintro mapping inside ⟨cube', member', page⟩
    obtain ⟨also, different⟩ := Process.mem_freeCube member'
    rcases unmapped with same | removed
    · rw [same]
      exact inside
    · rw [removed]
      refine List.mem_filter.mpr ⟨inside, ?_⟩
      rw [← page]
      have apart := plotted.apart cube' also cube member fun same =>
        different (congrArg Cube.ptr same)
      simpa using apart.ne (plotted.placed cube member).nonempty

theorem plotted_addCube (plotted : p.Plotted P) (empty : cube.slices = [])
    (whole : P.bytes ∣ cube.page.size)
    (admits : Process.Admits P cube.page p.maps)
    (fresh : p.nextPtr ≤ cube.ptr) : (p.addCube P cube).Plotted P := by
  obtain ⟨positive, nonempty, aligned, fits, separate⟩ := admits
  have beside : ∀ other ∈ p.cubes, other.page.Disjoint cube.page := by
    intro other member
    obtain ⟨mapping, inside, block⟩ := plotted.mapped other member
    rw [← block]
    exact separate mapping inside
  refine ⟨?_, ?_, ?_, ?_⟩
  · exact plotted.named.of_new (Process.names_addCube empty) fresh
      (Nat.lt_succ_self _)
  · intro other member
    rcases List.mem_append.mp member with old | new
    · exact plotted.placed other old
    · rw [List.mem_singleton.mp new]
      exact ⟨positive, nonempty, aligned, whole, fits⟩
  · intro other member
    rcases List.mem_append.mp member with old | new
    · obtain ⟨mapping, inside, block⟩ := plotted.mapped other old
      exact ⟨mapping, List.mem_cons_of_mem _ inside, block⟩
    · rw [List.mem_singleton.mp new]
      exact ⟨_, List.mem_cons_self, rfl⟩
  · intro left member right also different
    rcases List.mem_append.mp member with old | new
    · rcases List.mem_append.mp also with old' | new'
      · exact plotted.apart left old right old' different
      · rw [List.mem_singleton.mp new']
        exact beside left old
    · rcases List.mem_append.mp also with old' | new'
      · rw [List.mem_singleton.mp new]
        exact (beside right old').symm
      · exact (different ((List.mem_singleton.mp new).trans
          (List.mem_singleton.mp new').symm)).elim

/-- The registered cubes after a block has moved. -/
theorem mem_moveCube {page : Block} {prot : Prot} {cube' : Cube}
    (named : p.Named) (member : cube ∈ p.cubes)
    (member' : cube' ∈ (p.moveCube P cube page prot).cubes) :
    cube' = { cube with page := page } ∨
      cube' ∈ p.cubes ∧ cube'.ptr ≠ cube.ptr :=
  Process.mem_modifyCube named member member'

theorem plotted_moveCube {page : Block} {prot : Prot}
    (plotted : p.Plotted P) (member : cube ∈ p.cubes)
    (whole : P.bytes ∣ page.size)
    (admits : Process.Admits P page
      (p.maps.filter fun mapping => mapping.block ≠ cube.page)) :
    (p.moveCube P cube page prot).Plotted P := by
  obtain ⟨positive, nonempty, aligned, fits, separate⟩ := admits
  have blocks : ∀ other ∈ p.cubes, other.ptr ≠ cube.ptr →
      ∃ mapping ∈ p.maps, mapping.block = other.page ∧
        mapping.block ≠ cube.page := by
    intro other also different
    obtain ⟨mapping, inside, block⟩ := plotted.mapped other also
    have apart := plotted.apart other also cube member fun same =>
      different (congrArg Cube.ptr same)
    refine ⟨mapping, inside, block, ?_⟩
    rw [block]
    exact apart.ne (plotted.placed cube member).nonempty
  have beside : ∀ other ∈ p.cubes, other.ptr ≠ cube.ptr →
      other.page.Disjoint page := by
    intro other also different
    obtain ⟨mapping, inside, block, elsewhere⟩ := blocks other also different
    rw [← block]
    exact separate mapping (List.mem_filter.mpr ⟨inside, by simpa using elsewhere⟩)
  refine ⟨?_, ?_, ?_, ?_⟩
  · have same : (p.moveCube P cube page prot).names =
        (p.remapBlock P cube.page page prot).names :=
      Process.names_modifyCube fun _ => rfl
    refine plotted.named.of_subperm ?_ (Nat.le_refl _)
    rw [same]
    exact List.Subperm.refl _
  · intro cube' member'
    rcases mem_moveCube plotted.named member member' with rfl | ⟨old, -⟩
    · exact ⟨positive, nonempty, aligned, whole, fits⟩
    · exact plotted.placed cube' old
  · intro cube' member'
    rcases mem_moveCube plotted.named member member' with
      rfl | ⟨old, different⟩
    · obtain ⟨mapping, inside, block⟩ := plotted.mapped cube member
      refine ⟨_, List.mem_map_of_mem inside, ?_⟩
      rw [if_pos block]
    · obtain ⟨mapping, inside, block, elsewhere⟩ := blocks cube' old different
      refine ⟨_, List.mem_map_of_mem inside, ?_⟩
      rw [if_neg elsewhere]
      exact block
  · intro left member' right also' different
    rcases mem_moveCube plotted.named member member' with rfl | ⟨old, other⟩
    · rcases mem_moveCube plotted.named member also' with
        rfl | ⟨old', other'⟩
      · exact (different rfl).elim
      · exact (beside right old' other').symm
    · rcases mem_moveCube plotted.named member also' with
        rfl | ⟨old', other'⟩
      · exact beside left old other
      · exact plotted.apart left old right old' different

/-- The registered cubes after a slice was made. -/
theorem mem_addSlice {slice : Slice} {cube' : Cube} (named : p.Named)
    (member : cube ∈ p.cubes)
    (member' : cube' ∈ (p.addSlice cube.ptr slice).cubes) :
    cube' = { cube with slices := cube.slices ++ [slice] } ∨
      cube' ∈ p.cubes ∧ cube'.ptr ≠ cube.ptr :=
  Process.mem_modifyCube named member member'

theorem plotted_addSlice {slice : Slice} (plotted : p.Plotted P)
    (member : cube ∈ p.cubes) (fresh : p.nextPtr ≤ slice.ptr) :
    (p.addSlice cube.ptr slice).Plotted P := by
  refine ⟨?_, ?_, ?_, ?_⟩
  · exact plotted.named.of_new
      (Process.names_addSlice plotted.named (List.mem_append_left _ member))
      fresh (Nat.lt_succ_self _)
  · intro cube' member'
    rcases mem_addSlice plotted.named member member' with rfl | ⟨old, -⟩
    · exact plotted.placed cube member
    · exact plotted.placed cube' old
  · intro cube' member'
    rcases mem_addSlice plotted.named member member' with rfl | ⟨old, -⟩
    · exact plotted.mapped cube member
    · exact plotted.mapped cube' old
  · intro left member' right also' different
    rcases mem_addSlice plotted.named member member' with rfl | ⟨old, other⟩
    · rcases mem_addSlice plotted.named member also' with
        rfl | ⟨old', other'⟩
      · exact (different rfl).elim
      · exact plotted.apart cube member right old' fun same =>
          other' (congrArg Cube.ptr same.symm)
    · rcases mem_addSlice plotted.named member also' with
        rfl | ⟨old', other'⟩
      · exact plotted.apart left old cube member fun same =>
          other (congrArg Cube.ptr same)
      · exact plotted.apart left old right old' different

/-- The same cube at another moment: its owner and its file stay. -/
structure Cube.Same (cube cube' : Cube) : Prop where
  ptr : cube'.ptr = cube.ptr
  pid : cube'.pid = cube.pid
  id : cube'.id = cube.id

theorem Cube.Same.refl (cube : Cube) : cube.Same cube := ⟨rfl, rfl, rfl⟩

theorem Cube.Same.trans {cube cube' cube'' : Cube} (left : cube.Same cube')
    (right : cube'.Same cube'') : cube.Same cube'' :=
  ⟨right.ptr.trans left.ptr, right.pid.trans left.pid, right.id.trans left.id⟩

/-- No cube is new, and none has another owner or another file. -/
structure Process.Descends (p p' : Process) : Prop where
  pid : p'.pid = p.pid
  cubes : ∀ cube' ∈ p'.cubes, ∃ cube ∈ p.cubes, cube.Same cube'
  all : ∀ cube' ∈ p'.live, ∃ cube ∈ p.live, cube.Same cube'

namespace Process.Descends

variable {p p' p'' : Process}

theorem trans (left : p.Descends p') (right : p'.Descends p'') :
    p.Descends p'' := by
  refine ⟨right.pid.trans left.pid, ?_, ?_⟩
  · intro cube'' member''
    obtain ⟨cube', member', same'⟩ := right.cubes cube'' member''
    obtain ⟨cube, member, same⟩ := left.cubes cube' member'
    exact ⟨cube, member, same.trans same'⟩
  · intro cube'' member''
    obtain ⟨cube', member', same'⟩ := right.all cube'' member''
    obtain ⟨cube, member, same⟩ := left.all cube' member'
    exact ⟨cube, member, same.trans same'⟩

theorem of_cubes (pid : p'.pid = p.pid) (cubes : p'.cubes = p.cubes)
    (orphans : p'.orphans = p.orphans) : p.Descends p' := by
  refine ⟨pid, ?_, ?_⟩
  · exact fun cube member => ⟨cube, cubes ▸ member, .refl cube⟩
  · intro cube member
    rw [Process.live, cubes, orphans] at member
    exact ⟨cube, member, .refl cube⟩

theorem of_agrees (agrees : p.Agrees p') : p.Descends p' :=
  of_cubes agrees.pid agrees.cubes agrees.orphans

theorem of_modifyCube {ptr : Nat} {change : Cube → Cube}
    (same : ∀ cube : Cube, cube.Same (change cube)) :
    p.Descends (p.modifyCube ptr change) := by
  refine ⟨rfl, ?_, ?_⟩
  · intro cube' member'
    obtain ⟨cube, member, rfl⟩ := List.mem_map.mp member'
    refine ⟨cube, member, ?_⟩
    split
    · exact same cube
    · exact .refl cube
  · intro cube' member'
    rw [live_modifyCube] at member'
    obtain ⟨cube, member, rfl⟩ := List.mem_map.mp member'
    refine ⟨cube, member, ?_⟩
    split
    · exact same cube
    · exact .refl cube

theorem of_release (ptr : Nat) : p.Descends (p.release ptr) := by
  refine ⟨rfl, fun cube member => ⟨cube, member, .refl cube⟩, ?_⟩
  intro cube member
  refine ⟨cube, ?_, .refl cube⟩
  rcases List.mem_append.mp member with registered | orphan
  · exact List.mem_append_left _ registered
  · exact List.mem_append_right _ (List.mem_filter.mp orphan).1

theorem of_freeCube (member : cube ∈ p.cubes) (maps : List Mapping) :
    p.Descends { p.freeCube cube with maps := maps } := by
  let left : Process :=
    { p with
      cubes := p.cubes.filter fun other => other.ptr ≠ cube.ptr
      orphans := cube :: p.orphans }
  have leaves : p.Descends left := by
    refine ⟨rfl, ?_, ?_⟩
    · exact fun other inside =>
        ⟨other, (List.mem_filter.mp inside).1, .refl other⟩
    · intro other inside
      refine ⟨other, ?_, .refl other⟩
      rcases List.mem_append.mp inside with registered | orphan
      · exact List.mem_append_left _ (List.mem_filter.mp registered).1
      · rcases List.mem_cons.mp orphan with rfl | orphan
        · exact List.mem_append_left _ member
        · exact List.mem_append_right _ orphan
  have freed : p.Descends (p.freeCube cube) := by
    unfold Process.freeCube
    dsimp only
    split
    · exact (leaves.trans (of_release cube.ptr)).trans (of_cubes rfl rfl rfl)
    · exact leaves.trans (of_modifyCube fun _ => ⟨rfl, rfl, rfl⟩)
  exact freed.trans (of_cubes rfl rfl rfl)

theorem of_openSlices (slices : List Slice) :
    p.Descends (p.openSlices P cube slices) := by
  induction slices generalizing p with
  | nil => exact of_cubes rfl rfl rfl
  | cons slice slices induction =>
      refine trans ?_ induction
      have opened : p.Descends (p.protectPages P
          (wadd cube.page.addr slice.page.offset) slice.page.size
          .readWrite) := of_cubes rfl rfl rfl
      apply opened.trans
      apply of_modifyCube
      exact fun _ => ⟨rfl, rfl, rfl⟩

theorem of_unlinkSlice (cube slice : Nat) :
    p.Descends (p.unlinkSlice cube slice) := by
  have lowered : p.Descends (p.modifyCube cube fun cube =>
      { cube.modifySlice slice fun slice =>
          { slice with nlinks := slice.nlinks - 1 } with
        nlinks := cube.nlinks - 1 }) :=
    of_modifyCube fun _ => ⟨rfl, rfl, rfl⟩
  exact lowered.trans (of_cubes rfl rfl rfl)

theorem of_addSlice (cube : Nat) (slice : Slice) :
    p.Descends (p.addSlice cube slice) := by
  have added : p.Descends (p.modifyCube cube fun cube =>
      { cube with slices := cube.slices ++ [slice] }) :=
    of_modifyCube fun _ => ⟨rfl, rfl, rfl⟩
  exact added.trans (of_cubes rfl rfl rfl)

theorem of_moveCube (page : Block) (prot : Prot) :
    p.Descends (p.moveCube P cube page prot) := by
  have remapped : p.Descends (p.remapBlock P cube.page page prot) :=
    of_cubes rfl rfl rfl
  apply remapped.trans
  apply of_modifyCube
  exact fun _ => ⟨rfl, rfl, rfl⟩

theorem of_link (cube slice : Nat) :
    p.Descends (Process.link cube slice p) := by
  apply of_modifyCube
  exact fun _ => ⟨rfl, rfl, rfl⟩

end Process.Descends

/-- The cube is made by the event. -/
def Cube.MadeBy (p : Process) (event : Event) (cube : Cube) : Prop :=
  cube.pid = p.pid ∧ event.made = some cube.id

/-- An event makes no cube, or registers one. -/
theorem Deed.descends_or_adds {event : Event} {effect : Effect}
    (deed : Deed P p event effect p') :
    p.Descends p' ∨ p'.pid = p.pid ∧ ∃ cube : Cube, cube.MadeBy p event ∧
      p'.cubes = p.cubes ++ [cube] ∧ p'.orphans = p.orphans := by
  cases deed with
  | agrees agrees => exact .inl (.of_agrees agrees)
  | beside pid cubes orphans nextPtr maps mapped prot =>
      exact .inl (.of_cubes pid cubes orphans)
  | @alloc cube p' empty own whole admits fresh made agrees =>
      exact .inr ⟨agrees.pid, cube, ⟨own, made⟩, agrees.cubes, agrees.orphans⟩
  | free frees member base unmapped agrees =>
      exact .inl ((Process.Descends.of_freeCube member _).trans
        (.of_agrees agrees))
  | grow member own longer whole uniform admits agrees =>
      exact .inl ((Process.Descends.of_moveCube _ _).trans (.of_agrees agrees))
  | slice slices member own contains fresh agrees =>
      exact .inl ((Process.Descends.of_addSlice _ _).trans (.of_agrees agrees))
  | @attach cube slice p' attaches member own inside agrees =>
      have shut : p.Descends (p.protectPages P
          (wadd cube.page.addr slice.page.offset) slice.page.size .read) :=
        .of_cubes rfl rfl rfl
      exact .inl ((shut.trans (.of_link _ _)).trans (.of_agrees agrees))
  | @detach cube slice p' detaches member own inside agrees =>
      have lowered := Process.Descends.of_unlinkSlice (p := p) cube.ptr slice.ptr
      rcases agrees with kept | released
      · exact .inl (lowered.trans (.of_agrees kept))
      · have removed : (p.unlinkSlice cube.ptr slice.ptr).Descends
            ((p.unlinkSlice cube.ptr slice.ptr).unlinkFile cube.id) :=
          .of_cubes rfl rfl rfl
        exact .inl (((lowered.trans removed).trans (.of_release _)).trans
          (.of_agrees released))
  | fault member own contains idle known spans agrees =>
      exact .inl ((Process.Descends.of_openSlices _).trans (.of_agrees agrees))

/-- The cubes after an event. -/
theorem Deed.descends {event : Event} {effect : Effect}
    (deed : Deed P p event effect p') :
    p'.pid = p.pid ∧
      (∀ cube' ∈ p'.cubes,
        (∃ cube ∈ p.cubes, cube.Same cube') ∨ cube'.MadeBy p event) ∧
      ∀ cube' ∈ p'.live,
        (∃ cube ∈ p.live, cube.Same cube') ∨ cube'.MadeBy p event := by
  rcases deed.descends_or_adds with descends | ⟨pid, cube, made, cubes,
    orphans⟩
  · exact ⟨descends.pid,
      fun cube' member => .inl (descends.cubes cube' member),
      fun cube' member => .inl (descends.all cube' member)⟩
  · refine ⟨pid, ?_, ?_⟩
    · intro cube' member
      rw [cubes] at member
      rcases List.mem_append.mp member with old | last
      · exact .inl ⟨cube', old, .refl cube'⟩
      · cases List.mem_singleton.mp last
        exact .inr made
    · intro cube' member
      rw [Process.live, cubes, orphans] at member
      rcases List.mem_append.mp member with registered | orphan
      · rcases List.mem_append.mp registered with old | last
        · exact .inl ⟨cube', List.mem_append_left _ old, .refl cube'⟩
        · cases List.mem_singleton.mp last
          exact .inr made
      · exact .inl ⟨cube', List.mem_append_right _ orphan, .refl cube'⟩

/-- What an event does to the layout. -/
inductive Rearranges (P : PageSize) (p : Process) (event : Event)
    (p' : Process) : Prop where
  | keeps (keeps : p.Keeps P p') : Rearranges P p event p'
  | adds {cube : Cube} (empty : cube.slices = [])
      (whole : P.bytes ∣ cube.page.size)
      (admits : Process.Admits P cube.page p.maps)
      (fresh : p.nextPtr ≤ cube.ptr)
      (keeps : (p.addCube P cube).Keeps P p') : Rearranges P p event p'
  | moves {cube : Cube} {page : Block} {prot : Prot}
      (member : cube ∈ p.cubes) (longer : cube.page.size < page.size)
      (whole : P.bytes ∣ page.size)
      (admits : Process.Admits P page
        (p.maps.filter fun mapping => mapping.block ≠ cube.page))
      (keeps : (p.moveCube P cube page prot).Keeps P p') :
      Rearranges P p event p'
  | slices {cube : Cube} {addr size ptr : Nat}
      (slices : event.op = .slice addr size) (member : cube ∈ p.cubes)
      (contains : cube.containsRange addr size = true)
      (fresh : p.nextPtr ≤ ptr)
      (keeps : (p.addSlice cube.ptr (newSlice P cube addr size ptr)).Keeps P
        p') : Rearranges P p event p'

theorem Deed.rearranges {event : Event} {effect : Effect}
    (deed : Deed P p event effect p') (before : p.Plotted P) :
    Rearranges P p event p' := by
  cases deed with
  | agrees agrees => exact .keeps (.of_agrees agrees)
  | beside pid cubes orphans nextPtr maps mapped prot =>
      exact .keeps (.of_cubes pid cubes orphans nextPtr maps)
  | alloc empty own whole admits fresh made agrees =>
      exact .adds empty whole admits fresh (.of_agrees agrees)
  | free frees member base unmapped agrees =>
      exact .keeps ((keeps_freeCube before member unmapped).trans
        (.of_agrees agrees))
  | grow member own longer whole uniform admits agrees =>
      exact .moves member longer whole admits (.of_agrees agrees)
  | slice slices member own contains fresh agrees =>
      exact .slices slices member contains fresh (.of_agrees agrees)
  | @attach cube slice p' attaches member own inside agrees =>
      have linked := (@Process.Keeps.of_protectPages P p
        (wadd cube.page.addr slice.page.offset) slice.page.size .read).trans
          (keeps_link cube.ptr slice.ptr)
      exact .keeps (linked.trans (.of_agrees agrees))
  | @detach cube slice p' detaches member own inside agrees =>
      have lowered := @keeps_unlinkSlice P p cube.ptr slice.ptr
      rcases agrees with kept | released
      · exact .keeps (lowered.trans (.of_agrees kept))
      · have removed : (p.unlinkSlice cube.ptr slice.ptr).Keeps P
            ((p.unlinkSlice cube.ptr slice.ptr).unlinkFile cube.id) :=
          .of_agrees ⟨rfl, rfl, rfl, rfl, rfl, Nat.le_refl _⟩
        exact .keeps (((lowered.trans removed).trans (.of_release _)).trans
          (.of_agrees released))
  | fault member own contains idle known spans agrees =>
      exact .keeps ((keeps_openSlices _).trans (.of_agrees agrees))

/-- Every event keeps the layout of the blocks. -/
theorem Deed.plotted {event : Event} {effect : Effect}
    (deed : Deed P p event effect p') (before : p.Plotted P) :
    p'.Plotted P := by
  cases deed.rearranges before with
  | keeps keeps => exact keeps.plotted before
  | adds empty whole admits fresh keeps =>
      exact keeps.plotted (plotted_addCube before empty whole admits fresh)
  | moves member longer whole admits keeps =>
      exact keeps.plotted (plotted_moveCube before member whole admits)
  | slices slices member contains fresh keeps =>
      exact keeps.plotted (plotted_addSlice before member fresh)

/-- Every event keeps the layout. -/
theorem Deed.laid {event : Event} {effect : Effect}
    (deed : Deed P p event effect p') (sized : event.op.Sized)
    (before : p.Laid P) : p'.Laid P := by
  have named := before.named
  cases deed.rearranges before.plotted with
  | keeps keeps => exact keeps.laid before
  | adds empty whole admits fresh keeps =>
      refine keeps.laid ⟨plotted_addCube before.plotted empty whole admits
        fresh, fun other member => ?_⟩
      rcases List.mem_append.mp member with old | new
      · exact before.slices other old
      · rw [List.mem_singleton.mp new, empty]
        exact fun slice inside => by cases inside
  | moves member longer whole admits keeps =>
      refine keeps.laid ⟨plotted_moveCube before.plotted member whole admits,
        fun cube' member' => ?_⟩
      rcases mem_moveCube named member member' with rfl | ⟨old, -⟩
      · exact fun slice inside => (before.slices _ member slice
          inside).longer (Nat.le_of_lt longer)
      · exact before.slices cube' old
  | @slices cube addr size ptr slices member contains fresh keeps =>
      rw [slices] at sized
      refine keeps.laid ⟨plotted_addSlice before.plotted member fresh,
        fun cube' member' => ?_⟩
      rcases mem_addSlice named member member' with rfl | ⟨old, -⟩
      · intro slice inside
        rcases List.mem_append.mp inside with known | new
        · exact before.slices cube member slice known
        · rw [List.mem_singleton.mp new]
          exact newSlice_fits (before.placed cube member) sized contains
      · exact before.slices cube' old

end Moves

end CoralApi
