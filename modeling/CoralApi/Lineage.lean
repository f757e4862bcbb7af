import CoralApi.Branch
import Mathlib.Data.List.Pairwise

/-!
# The mappings of a process and of its descendants

Mappings are apart, and those of an own file are those of own blocks.  A file
that has a name for good keeps out of the way of new files.
-/

namespace CoralApi

open Program Transition

/-- Two mappings without a common byte. -/
def Mapping.Apart (mapping other : Mapping) : Prop :=
  mapping.block.Disjoint other.block

instance : Std.Symm Mapping.Apart := ⟨fun _ _ => Block.Disjoint.symm⟩

/-- Where the files of a process are mapped.  All names that files ever had
are known. -/
structure Process.Charted (P : PageSize) (names : List (String × String))
    (p : Process) : Prop where
  apart : p.maps.Pairwise Mapping.Apart
  sized : ∀ mapping ∈ p.maps, 0 < mapping.block.size
  aligned : ∀ mapping ∈ p.maps, P.bytes ∣ mapping.block.addr
  named : ∀ mapping ∈ p.maps, (mapping.dir, mapping.id) ∈ names
  mine : ∀ cube ∈ p.cubes, cube.pid = p.pid →
    ⟨cube.page, p.self, cube.id⟩ ∈ p.maps
  single : ∀ mapping ∈ p.maps, ∀ cube ∈ p.cubes, cube.pid = p.pid →
    mapping.dir = p.self → mapping.id = cube.id → mapping.block = cube.page
  files : ∀ cube ∈ p.live, cube.pid = p.pid → (p.self, cube.id) ∈ names

namespace Process.Charted

variable {P : PageSize} {names : List (String × String)} {p p' : Process}
  {cube : Cube} {mapping other : Mapping}

/-- Different mappings have no common byte. -/
theorem disjoint (charted : p.Charted P names) (inside : mapping ∈ p.maps)
    (also : other ∈ p.maps) (different : mapping ≠ other) :
    mapping.block.Disjoint other.block :=
  charted.apart.forall inside also different

/-- A mapping of a file that is not the one of an own block is apart from the
block. -/
theorem disjoint_page (charted : p.Charted P names) (inside : mapping ∈ p.maps)
    (member : cube ∈ p.cubes) (own : cube.pid = p.pid)
    (other : ¬(mapping.dir = p.self ∧ mapping.id = cube.id)) :
    mapping.block.Disjoint cube.page := by
  apply charted.disjoint inside (charted.mine cube member own)
  rintro rfl
  exact other ⟨rfl, rfl⟩

/-- No cube is new and no block has moved. -/
theorem of_kept (charted : p.Charted P names) (self : p'.self = p.self)
    (descends : p.Descends p')
    (cubes : ∀ cube' ∈ p'.cubes, ∃ cube ∈ p.cubes, cube'.pid = cube.pid ∧
      cube'.id = cube.id ∧ cube'.page = cube.page)
    (maps : p'.maps.Sublist p.maps)
    (stays : ∀ mapping ∈ p.maps,
      (∃ cube ∈ p'.cubes, cube.page = mapping.block) → mapping ∈ p'.maps) :
    p'.Charted P names where
  apart := charted.apart.sublist maps
  sized := fun mapping inside => charted.sized mapping (maps.subset inside)
  aligned := fun mapping inside =>
    charted.aligned mapping (maps.subset inside)
  named := fun mapping inside => charted.named mapping (maps.subset inside)
  mine := by
    intro cube' member' own
    obtain ⟨cube, member, pid, id, page⟩ := cubes cube' member'
    have there := charted.mine cube member
      (pid.symm.trans (own.trans descends.pid))
    rw [page, self, id]
    exact stays _ there ⟨cube', member', page⟩
  single := by
    intro mapping inside cube' member' own dir name
    obtain ⟨cube, member, pid, id, page⟩ := cubes cube' member'
    rw [page]
    exact charted.single mapping (maps.subset inside) cube member
      (pid.symm.trans (own.trans descends.pid)) (self ▸ dir) (id ▸ name)
  files := by
    intro cube' member' own
    obtain ⟨cube, member, same⟩ := descends.all cube' member'
    rw [self, same.id]
    exact charted.files cube member
      (same.pid.symm.trans (own.trans descends.pid))

theorem of_keeps (charted : p.Charted P names) (self : p'.self = p.self)
    (descends : p.Descends p') (keeps : p.Keeps P p')
    (maps : p'.maps.Sublist p.maps) : p'.Charted P names := by
  refine charted.of_kept self descends ?_ maps keeps.maps
  intro cube' member'
  obtain ⟨cube, member, kept⟩ := keeps.cubes cube' member'
  exact ⟨cube, member, kept.pid, kept.id, kept.page⟩

theorem mono {more : List (String × String)} (charted : p.Charted P names)
    (known : ∀ name ∈ names, name ∈ more) : p.Charted P more :=
  { charted with
    named := fun mapping inside => known _ (charted.named mapping inside)
    files := fun cube member own => known _ (charted.files cube member own) }

/-- A new mapping of a new file, with or without a cube for it. -/
theorem of_mapped {block : Block} {id : String} (charted : p.Charted P names)
    (pid : p'.pid = p.pid) (self : p'.self = p.self)
    (admits : Process.Admits P block p.maps)
    (maps : p'.maps = ⟨block, p.self, id⟩ :: p.maps)
    (fresh : (p.self, id) ∉ names) (orphans : p'.orphans = p.orphans)
    (cubes : ∀ cube ∈ p'.cubes,
      cube ∈ p.cubes ∨ cube.page = block ∧ cube.id = id) :
    p'.Charted P ((p.self, id) :: names) := by
  obtain ⟨-, nonempty, aligned, -, separate⟩ := admits
  refine ⟨?_, ?_, ?_, ?_, ?_, ?_, ?_⟩
  · rw [maps]
    refine List.Pairwise.cons ?_ charted.apart
    exact fun mapping inside => (separate mapping inside).symm
  · intro mapping inside
    rw [maps] at inside
    rcases List.mem_cons.mp inside with rfl | old
    · exact nonempty
    · exact charted.sized mapping old
  · intro mapping inside
    rw [maps] at inside
    rcases List.mem_cons.mp inside with rfl | old
    · exact aligned
    · exact charted.aligned mapping old
  · intro mapping inside
    rw [maps] at inside
    rcases List.mem_cons.mp inside with rfl | old
    · exact List.mem_cons_self
    · exact List.mem_cons_of_mem _ (charted.named mapping old)
  · intro cube member own
    rw [maps, self]
    rcases cubes cube member with old | ⟨rfl, rfl⟩
    · exact List.mem_cons_of_mem _ (charted.mine cube old (own.trans pid))
    · exact List.mem_cons_self
  · intro mapping inside cube member own dir name
    rw [maps] at inside
    rw [self] at dir
    rcases List.mem_cons.mp inside with rfl | older
    · rcases cubes cube member with old | ⟨page, -⟩
      · have known := charted.files cube (List.mem_append_left _ old)
          (own.trans pid)
        have same : id = cube.id := name
        exact absurd (same ▸ known) fresh
      · exact page.symm
    · rcases cubes cube member with old | ⟨page, same⟩
      · exact charted.single mapping older cube old (own.trans pid) dir name
      · have known := charted.named mapping older
        rw [dir, name, same] at known
        exact absurd known fresh
  · intro cube member own
    rw [self]
    rw [Process.live, orphans] at member
    rcases List.mem_append.mp member with registered | orphan
    · rcases cubes cube registered with old | ⟨-, same⟩
      · exact List.mem_cons_of_mem _ (charted.files cube
          (List.mem_append_left _ old) (own.trans pid))
      · rw [same]
        exact List.mem_cons_self
    · exact List.mem_cons_of_mem _ (charted.files cube
        (List.mem_append_right _ orphan) (own.trans pid))

/-- The one mapping at an own block. -/
theorem at_page (charted : p.Charted P names) (inside : mapping ∈ p.maps)
    (member : cube ∈ p.cubes) (own : cube.pid = p.pid)
    (here : mapping.block = cube.page) :
    mapping = ⟨cube.page, p.self, cube.id⟩ := by
  by_contra different
  have apart := charted.disjoint inside (charted.mine cube member own) different
  exact apart.ne (charted.sized _ (charted.mine cube member own)) here

/-- An own block has moved. -/
theorem of_moved {page : Block} (charted : p.Charted P names) (laid : p.Laid P)
    (self : p'.self = p.self) (descends : p.Descends p')
    (member : cube ∈ p.cubes) (own : cube.pid = p.pid)
    (admits : Process.Admits P page
      (p.maps.filter fun mapping => mapping.block ≠ cube.page))
    (maps : p'.maps = p.maps.map fun mapping =>
      if mapping.block = cube.page then { mapping with block := page }
      else mapping)
    (cubes : ∀ cube' ∈ p'.cubes, cube' = { cube with page := page } ∨
      cube' ∈ p.cubes ∧ cube'.ptr ≠ cube.ptr) : p'.Charted P names := by
  obtain ⟨-, nonempty, aligned, -, separate⟩ := admits
  have beside : ∀ mapping ∈ p.maps, mapping.block ≠ cube.page →
      mapping.block.Disjoint page := fun mapping inside elsewhere =>
    separate mapping (List.mem_filter.mpr ⟨inside, by simpa using elsewhere⟩)
  have elsewhere : ∀ other ∈ p.cubes, other.ptr ≠ cube.ptr →
      other.page ≠ cube.page := fun other also different =>
    (laid.apart other also cube member fun same =>
      different (congrArg Cube.ptr same)).ne (laid.placed cube member).nonempty
  have split : ∀ mapping' ∈ p'.maps, ∃ mapping ∈ p.maps,
      mapping'.dir = mapping.dir ∧ mapping'.id = mapping.id ∧
        (mapping.block = cube.page ∧ mapping'.block = page ∨
          mapping.block ≠ cube.page ∧ mapping'.block = mapping.block) := by
    intro mapping' inside'
    rw [maps] at inside'
    obtain ⟨mapping, inside, rfl⟩ := List.mem_map.mp inside'
    refine ⟨mapping, inside, ?_⟩
    split
    · rename_i here
      exact ⟨rfl, rfl, .inl ⟨here, rfl⟩⟩
    · rename_i away
      exact ⟨rfl, rfl, .inr ⟨away, rfl⟩⟩
  refine ⟨?_, ?_, ?_, ?_, ?_, ?_, ?_⟩
  · rw [maps]
    refine List.pairwise_map.mpr (charted.apart.imp_of_mem ?_)
    intro mapping other inside also apart
    unfold Mapping.Apart at *
    split
    · rename_i here
      split
      · rename_i there
        rw [here, there] at apart
        exact (apart.ne (laid.placed cube member).nonempty rfl).elim
      · rename_i away
        exact (beside other also away).symm
    · rename_i away
      split
      · exact beside mapping inside away
      · exact apart
  · intro mapping' inside'
    obtain ⟨mapping, inside, -, -, ⟨-, block⟩ | ⟨-, block⟩⟩ :=
      split mapping' inside'
    · rw [block]
      exact nonempty
    · rw [block]
      exact charted.sized mapping inside
  · intro mapping' inside'
    obtain ⟨mapping, inside, -, -, ⟨-, block⟩ | ⟨-, block⟩⟩ :=
      split mapping' inside'
    · rw [block]
      exact aligned
    · rw [block]
      exact charted.aligned mapping inside
  · intro mapping' inside'
    obtain ⟨mapping, inside, dir, id, -⟩ := split mapping' inside'
    rw [dir, id]
    exact charted.named mapping inside
  · intro cube' member' own'
    rw [self, maps]
    rcases cubes cube' member' with rfl | ⟨old, different⟩
    · refine List.mem_map.mpr ⟨_, charted.mine cube member own, ?_⟩
      rw [if_pos rfl]
    · refine List.mem_map.mpr ⟨_, charted.mine cube' old
        (own'.trans descends.pid), ?_⟩
      rw [if_neg (elsewhere cube' old different)]
  · intro mapping' inside' cube' member' own' dir' name'
    obtain ⟨mapping, inside, dir, id, moved⟩ := split mapping' inside'
    rw [dir, self] at dir'
    rw [id] at name'
    rcases cubes cube' member' with rfl | ⟨old, different⟩
    · have here := charted.single mapping inside cube member own dir' name'
      rcases moved with ⟨-, block⟩ | ⟨away, -⟩
      · exact block
      · exact absurd here away
    · have here := charted.single mapping inside cube' old
        (own'.trans descends.pid) dir' name'
      rcases moved with ⟨there, -⟩ | ⟨-, block⟩
      · exact absurd (here.symm.trans there) (elsewhere cube' old different)
      · exact block.trans here
  · intro cube' member' own'
    obtain ⟨other, also, same⟩ := descends.all cube' member'
    rw [self, same.id]
    exact charted.files other also
      (same.pid.symm.trans (own'.trans descends.pid))

end Process.Charted

theorem openSlices_maps {P : PageSize} {p : Process} {cube : Cube}
    {opened : List Slice} : (p.openSlices P cube opened).maps = p.maps := by
  induction opened generalizing p with
  | nil => rfl
  | cons slice opened induction => exact induction.trans rfl

/-- The names of files after an event. -/
def Event.names (event : Event) (self : String)
    (names : List (String × String)) : List (String × String) :=
  match event.made with
  | none => names
  | some id => (self, id) :: names

theorem Event.mem_names {event : Event} {self : String}
    {names : List (String × String)} {name : String × String}
    (known : name ∈ names) : name ∈ event.names self names := by
  unfold Event.names
  split
  · exact known
  · exact List.mem_cons_of_mem _ known

/-- Every event keeps the chart. -/
theorem Deed.charted {P : PageSize} {p p' : Process} {event : Event}
    {effect : Effect} {names : List (String × String)}
    (deed : Deed P p event effect p') (self : p'.self = p.self)
    (fresh : ∀ id, event.made = some id → (p.self, id) ∉ names)
    (laid : p.Laid P) (charted : p.Charted P names) :
    p'.Charted P (event.names p.self names) := by
  have old : p'.Charted P names → p'.Charted P (event.names p.self names) :=
    fun charted => charted.mono fun _ => Event.mem_names
  have new : ∀ {block : Block} {id : String}, event.made = some id →
      Process.Admits P block p.maps →
      p'.maps = ⟨block, p.self, id⟩ :: p.maps → p'.pid = p.pid →
      p'.orphans = p.orphans → (∀ cube ∈ p'.cubes,
        cube ∈ p.cubes ∨ cube.page = block ∧ cube.id = id) →
      p'.Charted P (event.names p.self names) := by
    intro block id made admits maps pid orphans cubes
    have names_eq : event.names p.self names = (p.self, id) :: names := by
      simp only [Event.names, made]
    rw [names_eq]
    exact charted.of_mapped pid self admits maps (fresh id made) orphans cubes
  cases deed with
  | agrees agrees =>
      exact old (charted.of_keeps self (.of_agrees agrees)
        (Process.Keeps.of_agrees (P := P) agrees) (by rw [agrees.maps]))
  | beside pid cubes orphans nextPtr maps mapped prot =>
      rcases mapped with same | ⟨block, id, made, admits, more⟩
      · exact old (charted.of_keeps self (.of_cubes pid cubes orphans)
          (Process.Keeps.of_cubes (P := P) pid cubes orphans nextPtr maps)
          (by rw [same]))
      · exact new made admits more pid orphans fun cube member =>
          .inl (cubes ▸ member)
  | @alloc cube p' empty own whole admits fresh made agrees =>
      refine new made admits agrees.maps agrees.pid agrees.orphans ?_
      intro cube' member
      rw [agrees.cubes] at member
      rcases List.mem_append.mp member with old | last
      · exact .inl old
      · rw [List.mem_singleton.mp last]
        exact .inr ⟨rfl, rfl⟩
  | @free cube addr maps p' frees member base unmapped agrees =>
      refine old (charted.of_keeps self
        ((Process.Descends.of_freeCube member maps).trans (.of_agrees agrees))
        ((keeps_freeCube laid.plotted member unmapped).trans
          (.of_agrees agrees)) ?_)
      rw [agrees.maps]
      rcases unmapped with rfl | rfl
      · exact List.Sublist.refl _
      · exact List.filter_sublist
  | @grow cube page prot p' member own longer whole uniform admits agrees =>
      refine old (charted.of_moved laid self
        ((Process.Descends.of_moveCube page prot).trans (.of_agrees agrees))
        member own admits agrees.maps ?_)
      intro cube' member'
      rw [agrees.cubes] at member'
      exact Process.mem_modifyCube laid.named member member'
  | @slice cube addr size ptr p' slices member own contains fresh agrees =>
      refine old (charted.of_kept self
        ((Process.Descends.of_addSlice _ _).trans (.of_agrees agrees)) ?_
        (by rw [agrees.maps]; exact List.Sublist.refl _)
        fun mapping inside _ => agrees.maps ▸ inside)
      intro cube' member'
      rw [agrees.cubes] at member'
      rcases Process.mem_modifyCube laid.named member member' with rfl | ⟨old, -⟩
      · exact ⟨cube, member, rfl, rfl, rfl⟩
      · exact ⟨cube', old, rfl, rfl, rfl⟩
  | @attach cube slice p' attaches member own inside agrees =>
      have shut : p.Descends (p.protectPages P
          (wadd cube.page.addr slice.page.offset) slice.page.size .read) :=
        .of_cubes rfl rfl rfl
      have linked := (Process.Keeps.of_protectPages (P := P) (p := p)
        (wadd cube.page.addr slice.page.offset) slice.page.size .read).trans
          (keeps_link cube.ptr slice.ptr)
      refine old (charted.of_keeps self
        ((shut.trans (.of_link _ _)).trans (.of_agrees agrees))
        (linked.trans (.of_agrees agrees)) ?_)
      rw [agrees.maps]
      exact List.Sublist.refl _
  | @detach cube slice p' detaches member own inside agrees =>
      have lowered := Process.Descends.of_unlinkSlice (p := p) cube.ptr slice.ptr
      have keeps := keeps_unlinkSlice (P := P) (p := p) cube.ptr slice.ptr
      rcases agrees with kept | released
      · refine old (charted.of_keeps self (lowered.trans (.of_agrees kept))
          (keeps.trans (.of_agrees kept)) ?_)
        rw [kept.maps]
        exact List.Sublist.refl _
      · have removed : (p.unlinkSlice cube.ptr slice.ptr).Descends
            ((p.unlinkSlice cube.ptr slice.ptr).unlinkFile cube.id) :=
          .of_cubes rfl rfl rfl
        have same : (p.unlinkSlice cube.ptr slice.ptr).Keeps P
            ((p.unlinkSlice cube.ptr slice.ptr).unlinkFile cube.id) :=
          .of_agrees ⟨rfl, rfl, rfl, rfl, rfl, Nat.le_refl _⟩
        refine old (charted.of_keeps self
          (((lowered.trans removed).trans (.of_release _)).trans
            (.of_agrees released))
          (((keeps.trans same).trans (.of_release _)).trans
            (.of_agrees released)) ?_)
        rw [released.maps]
        exact List.Sublist.refl _
  | @fault cube addr opened p' member own contains idle known spans agrees =>
      refine old (charted.of_keeps self
        ((Process.Descends.of_openSlices _).trans (.of_agrees agrees))
        ((keeps_openSlices _).trans (.of_agrees agrees)) ?_)
      exact agrees.maps.trans openSlices_maps ▸ List.Sublist.refl _

section Deeds

variable {P : PageSize} {p p' : Process} {event : Event} {effect : Effect}

/-- A mapping after an event was there, is new, or is that of an own block. -/
theorem Deed.maps (deed : Deed P p event effect p') {names}
    (charted : p.Charted P names) :
    ∀ mapping ∈ p'.maps, mapping ∈ p.maps ∨
      mapping.dir = p.self ∧ (event.made = some mapping.id ∨
        ∃ cube ∈ p.cubes, cube.pid = p.pid ∧ mapping.id = cube.id) := by
  have old : p'.maps.Sublist p.maps → ∀ mapping ∈ p'.maps, mapping ∈ p.maps ∨
      mapping.dir = p.self ∧ (event.made = some mapping.id ∨
        ∃ cube ∈ p.cubes, cube.pid = p.pid ∧ mapping.id = cube.id) :=
    fun fewer mapping inside => .inl (fewer.subset inside)
  have new : ∀ {block : Block} {id : String}, event.made = some id →
      p'.maps = ⟨block, p.self, id⟩ :: p.maps →
      ∀ mapping ∈ p'.maps, mapping ∈ p.maps ∨
        mapping.dir = p.self ∧ (event.made = some mapping.id ∨
          ∃ cube ∈ p.cubes, cube.pid = p.pid ∧ mapping.id = cube.id) := by
    intro block id made maps mapping inside
    rw [maps] at inside
    rcases List.mem_cons.mp inside with rfl | older
    · exact .inr ⟨rfl, .inl made⟩
    · exact .inl older
  cases deed with
  | agrees agrees => exact old (by rw [agrees.maps])
  | beside pid cubes orphans nextPtr maps mapped prot =>
      rcases mapped with same | ⟨block, id, made, admits, more⟩
      · exact old (by rw [same])
      · exact new made more
  | alloc empty own whole admits fresh made agrees => exact new made agrees.maps
  | free frees member base unmapped agrees =>
      refine old ?_
      rw [agrees.maps]
      rcases unmapped with rfl | rfl
      · exact List.Sublist.refl _
      · exact List.filter_sublist
  | @grow cube page prot p' member own longer whole uniform admits agrees =>
      intro mapping' inside'
      rw [agrees.maps] at inside'
      obtain ⟨mapping, inside, rfl⟩ := List.mem_map.mp inside'
      split
      · rename_i here
        have same := charted.at_page inside member own here
        refine .inr ⟨congrArg Mapping.dir same, .inr ⟨cube, member, own, ?_⟩⟩
        exact congrArg Mapping.id same
      · exact .inl inside
  | slice slices member own contains fresh agrees =>
      exact old (agrees.maps ▸ List.Sublist.refl _)
  | attach attaches member own inside agrees =>
      exact old (agrees.maps ▸ List.Sublist.refl _)
  | detach detaches member own inside agrees =>
      rcases agrees with kept | released
      · exact old (kept.maps ▸ List.Sublist.refl _)
      · exact old (released.maps ▸ List.Sublist.refl _)
  | fault member own contains idle known spans agrees =>
      exact old (agrees.maps.trans openSlices_maps ▸ List.Sublist.refl _)

/-- A mapped page outside of the own blocks stays read-only. -/
theorem Deed.stays_read (deed : Deed P p event effect p') (laid : p.Laid P)
    {mapping : Mapping} {page : Nat} (inside : mapping ∈ p.maps)
    (has : mapping.block.HasPage P page)
    (beside : ∀ cube ∈ p.cubes, cube.pid = p.pid → ¬cube.page.HasPage P page)
    (read : p.prot page = .read) : p'.prot page = .read := by
  cases deed with
  | agrees agrees =>
      rw [agrees.prot]
      exact read
  | beside pid cubes orphans nextPtr maps mapped prot =>
      rw [prot mapping inside page has]
      exact read
  | @alloc cube p' empty own whole admits fresh made agrees =>
      rw [agrees.prot]
      have apart := admits.2.2.2.2 mapping inside
      exact (if_neg (apart.not_hasPage has)).trans read
  | free frees member base unmapped agrees =>
      rw [agrees.prot]
      exact (congrFun Process.prot_freeCube page).trans read
  | @grow cube block prot p' member own longer whole uniform admits agrees =>
      rw [agrees.prot]
      have away : mapping.block ≠ cube.page := fun same =>
        beside cube member own (same ▸ has)
      have apart := admits.2.2.2.2 mapping
        (List.mem_filter.mpr ⟨inside, by simpa using away⟩)
      exact (if_neg (apart.not_hasPage has)).trans read
  | slice slices member own contains fresh agrees =>
      rw [agrees.prot]
      exact read
  | attach attaches member own inside agrees =>
      rw [agrees.prot]
      show (if _ then Prot.read else p.prot page) = .read
      split
      · rfl
      · exact read
  | detach detaches member own inside agrees =>
      rcases agrees with kept | released
      · rw [kept.prot]
        exact read
      · rw [released.prot]
        exact read
  | @fault cube addr opened p' member own contains idle known spans agrees =>
      rw [agrees.prot]
      have fits : ∀ slice ∈ opened, slice.Fits P cube.page.size :=
        fun slice listed => laid.slices cube member slice (known.subset listed)
      exact (openSlices_beside (laid.placed cube member) fits
        (beside cube member own)).trans read

/-- A cube of another process stays as it is until it is freed. -/
theorem Deed.keeps_foreign (deed : Deed P p event effect p') (laid : p.Laid P)
    {cube : Cube} (member : cube ∈ p.cubes) (foreign : cube.pid ≠ p.pid)
    (kept : event.op ≠ .free cube.page.addr ∧
      event.op ≠ .realloc cube.page.addr 0) : cube ∈ p'.cubes := by
  have changed : ∀ {other : Cube} {change : Cube → Cube}, other ∈ p.live →
      other.pid = p.pid → cube ∈ p.cubes.map fun found =>
        if found.ptr = other.ptr then change found else found := by
    intro other change also own
    refine List.mem_map.mpr ⟨cube, member, if_neg fun same => ?_⟩
    have equal := laid.named.same_cube (List.mem_append_left _ member) also same
    exact foreign (equal ▸ own)
  cases deed with
  | agrees agrees => exact agrees.cubes ▸ member
  | beside pid cubes orphans nextPtr maps mapped prot => exact cubes ▸ member
  | alloc empty own whole admits fresh made agrees =>
      rw [agrees.cubes]
      exact List.mem_append_left _ member
  | @free other addr maps p' frees also base unmapped agrees =>
      have different := Event.ptr_ne laid.named member also base frees kept
      rw [agrees.cubes]
      exact Process.mem_freeCube_of_ne member different
  | grow also own longer whole uniform admits agrees =>
      rw [agrees.cubes]
      exact changed (List.mem_append_left _ also) own
  | slice slices also own contains fresh agrees =>
      rw [agrees.cubes]
      exact changed (List.mem_append_left _ also) own
  | attach attaches also own inside agrees =>
      rw [agrees.cubes]
      exact changed also own
  | detach detaches also own inside agrees =>
      rcases agrees with kept | released
      · rw [kept.cubes]
        exact changed also own
      · rw [released.cubes]
        exact changed also own
  | fault also own contains idle known spans agrees =>
      rw [agrees.cubes, openSlices_cubes]
      exact changed (List.mem_append_left _ also) own

end Deeds

end CoralApi
