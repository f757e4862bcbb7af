import CoralApi.InFlight
import CoralApi.Tally

/-!
# The bytes of an attached slice

A submission attaches the slices of its arrays and tells the server where
their files are.  From the attach until the last detach no process of the tree
changes these bytes, whatever it allocates, moves, frees, stores or forks.
-/

namespace CoralApi

open Program Transition

/-- The byte at an index of a file. -/
def File.load (index : Nat) (file : File) : Option UInt8 :=
  if index < file.length then some (file.bytes index) else none

/-- The file that a server opens by its name. -/
def Family.file (dir id : String) (f : Family) : Option File :=
  f.files.find? fun file => file.dir == dir && file.id == id

/-- The byte that a server reads. -/
def Family.loadFile (dir id : String) (index : Nat) (f : Family) :
    Option UInt8 :=
  (f.file dir id).bind (File.load index)

/-- Every detach finds a link of its slice. -/
def Family.Act.Paired (f : Family) : Family.Act → Prop
  | .event pid happens => ∀ m, f.members pid = some m →
      happens.Paired (m.on f.files)
  | .fork _ _ _ _ => True

/-- A fault on a slice opens all pages of it.  None of them is a page of this
slice. -/
def Effect.SparesSlice (P : PageSize) (ptr : Nat) : Effect → Prop
  | .opens cube slices => ∀ slice ∈ cube.slices, slice.ptr = ptr →
      ∀ opened ∈ slices, slice.page.Apart P opened.page
  | _ => True

/-- An event of the owner of an attached slice keeps a link of the slice, opens
no page of it, and asks for no size whose rounding wraps. -/
structure Event.Carries (P : PageSize) (ptr : Nat) (p : Process)
    (event : Event) : Prop where
  leaves : event.Leaves ptr p
  spares : (event.effect P p).SparesSlice P ptr
  sized : ∀ addr newSize, event.op = .realloc addr newSize →
    newSize + P.bytes - 1 < wordSize

def Family.Act.Carries (P : PageSize) (owner ptr : Nat) (f : Family) :
    Family.Act → Prop
  | .event pid happens => pid = owner → ∀ m, f.members pid = some m →
      happens.Carries P ptr (m.on f.files)
  | .fork _ _ _ _ => True

/-- The blocks of all processes are in order, and so are their counts. -/
structure Family.Reckoned (P : PageSize) (f : Family) : Prop
    extends f.Tended P where
  tallied : ∀ pid m, f.members pid = some m → m.Tallied

/-- An attached slice, in a file of its owner. -/
structure Cargo where
  owner : Nat
  dir : String
  id : String
  slice : Slice

namespace Cargo

/-- The byte of the file belongs to the slice. -/
def Covers (cargo : Cargo) (index : Nat) : Prop :=
  cargo.slice.offset ≤ index ∧ index < cargo.slice.offset + cargo.slice.size

/-- Where the file is mapped, the pages of the slice are read-only. -/
def Closed (P : PageSize) (cargo : Cargo) (p : Process) : Prop :=
  ∀ mapping ∈ p.maps, mapping.dir = cargo.dir → mapping.id = cargo.id →
    ∀ page, cargo.slice.page.HasPage P page →
      mapping.block.HasPage P (mapping.block.addr / P.bytes + page) →
      p.prot (mapping.block.addr / P.bytes + page) = .read

/-- What the file has of the bytes of the slice stays. -/
def Kept (cargo : Cargo) (file file' : Option File) : Prop :=
  ∀ index, cargo.Covers index → ∀ byte,
    file.bind (File.load index) = some byte →
      file'.bind (File.load index) = some byte

end Cargo

/-- A call can change the file of the name, in the directory of the process:
it makes the file, frees the last of the block, or moves the block. -/
def Event.Rewrites (p : Process) (id : String) (event : Event) : Prop :=
  event.made = some id ∨
    match event.op with
    | .free addr => ∃ cube,
        p.cubes.find? (fun cube => cube.page.addr == addr) = some cube ∧
          cube.pid = p.pid ∧ cube.nlinks = 0 ∧ cube.id = id
    | .realloc addr newSize => addr ≠ 0 ∧ ∃ cube,
        p.cubes.find? (fun cube => cube.page.addr == addr) = some cube ∧
          cube.pid = p.pid ∧ (newSize = 0 → cube.nlinks = 0) ∧ cube.id = id
    | .detach ptr => ∃ cube slice, p.findSlice ptr = some (cube, slice) ∧
        cube.pid = p.pid ∧ cube.nlinks = 0 ∧ cube.id = id
    | _ => False

/-- The slice is attached, and no process can write to it. -/
structure Family.Ships (P : PageSize) (cargo : Cargo) (f : Family) : Prop where
  fits : ∃ length, cargo.slice.Fits P length
  maker : (cargo.owner, cargo.dir, cargo.id) ∈ f.made
  bears : ∃ m, f.members cargo.owner = some m ∧ m.self = cargo.dir ∧
    m.Bears cargo.id cargo.slice
  closed : ∀ pid q, f.members pid = some q → cargo.Closed P q.toProcess

section Counts

variable {P : PageSize} {f f' : Family} {pid : Nat} {m : Relative}

theorem Family.Act.Paired.matched {act : Family.Act} (paired : act.Paired f)
    (reckoned : f.Reckoned P) : act.Matched f := by
  cases act with
  | event pid event =>
      intro m here
      exact (paired m here).matched
        ((reckoned.tallied pid m here).of_same rfl rfl)
  | fork pid child errno os => trivial

theorem Family.Step.tallied {act : Family.Act} (step : Family.Step P f act f')
    (reckoned : f.Reckoned P) (paired : act.Paired f) :
    ∀ pid m, f'.members pid = some m → m.Tallied := by
  have sound := reckoned.sound
  intro other q found
  cases step with
  | @event pid event m here admits =>
      rcases some_update found with ⟨rfl, rfl⟩ | ⟨-, found⟩
      · have counts : (m.on f.files).Tallied :=
          (reckoned.tallied _ m here).of_same rfl rfl
        exact event.tallied admits.1.words
          (sound.members _ m here).laid.on.named (paired m here) counts
      · exact reckoned.tallied other q found
  | @fork pid child errno os m here new answered =>
      by_cases last : other = child
      · subst last
        rcases some_update found with ⟨-, rfl⟩ | ⟨absent, -⟩
        · obtain ⟨self, prot, same, -⟩ :=
            (sound.members pid m here).copied other errno answered
          apply (reckoned.tallied pid m here).of_same
          · exact (congrArg Process.cubes same :)
          · exact (congrArg Process.orphans same :)
        · exact absurd rfl absent
      · obtain ⟨before, there, same⟩ := Family.unforked sound here last found
        apply (reckoned.tallied other before there).of_same
        · exact (congrArg Process.cubes same :)
        · exact (congrArg Process.orphans same :)

theorem Family.Step.reckoned {act : Family.Act} (step : Family.Step P f act f')
    (reckoned : f.Reckoned P) (paired : act.Paired f) : f'.Reckoned P where
  toTended := (step.tended reckoned.toTended (paired.matched reckoned)).1
  tallied := step.tallied reckoned paired

theorem Family.reckoned_loaded (pid : Nat) (self : String) :
    (Family.loaded pid self).Reckoned P := by
  constructor
  · exact Family.tended_loaded pid self
  · intro other m here
    obtain ⟨-, rfl⟩ := Family.members_loaded here
    constructor
    · intro cube member
      cases member
    · intro cube member
      cases member

end Counts

section Pages

variable {P : PageSize} {names : List (String × String)} {p p' : Process}
  {cube : Cube} {slice : Slice} {cargo : Cargo} {event : Event}

theorem openSlices_apart {opened : List Slice} {page : Nat}
    (placed : cube.page.Placed P)
    (fits : ∀ slice ∈ opened, slice.Fits P cube.page.size)
    (apart : ∀ slice ∈ opened, ¬slice.page.HasPage P page) :
    (p.openSlices P cube opened).prot (cube.pageAt P page) =
      p.prot (cube.pageAt P page) := by
  induction opened generalizing p with
  | nil => rfl
  | cons slice opened induction =>
      have later := @induction (p.openSlice P cube slice)
        (fun other member => fits other (List.mem_cons_of_mem _ member))
        fun other member => apart other (List.mem_cons_of_mem _ member)
      have first := @protectPages_pageAt P cube slice page .readWrite p placed
        (fits slice List.mem_cons_self)
      rw [if_neg (apart slice List.mem_cons_self)] at first
      exact later.trans first

/-- A process that has not made the file leaves its pages closed. -/
theorem Cargo.Closed.foreign {effect : Effect} (closed : cargo.Closed P p)
    (deed : Deed P p event effect p') (laid : p.Laid P)
    (charted : p.Charted P names)
    (elsewhere : ∀ cube ∈ p.cubes, cube.pid = p.pid →
      ¬(cargo.dir = p.self ∧ cargo.id = cube.id))
    (unmade : ∀ id, event.made = some id →
      ¬(cargo.dir = p.self ∧ cargo.id = id)) :
    cargo.Closed P p' := by
  intro mapping inside dir id page covered has
  rcases deed.maps charted mapping inside with old | ⟨self, made | ⟨cube,
    member, own, name⟩⟩
  · apply deed.stays_read laid old has
    · intro cube member own
      have apart := charted.disjoint_page old member own
        (by rw [dir, id]; exact elsewhere cube member own)
      exact apart.not_hasPage has
    · exact closed mapping old dir id page covered has
  · exact absurd ⟨dir ▸ self, id.symm⟩ (unmade _ made)
  · exact absurd ⟨dir ▸ self, id ▸ name⟩ (elsewhere cube member own)

/-- The block of the slice, while it is registered. -/
structure Process.Loads (P : PageSize) (names : List (String × String))
    (cargo : Cargo) (cube : Cube) (p : Process) : Prop where
  laid : p.Laid P
  charted : p.Charted P names
  self : p.self = cargo.dir
  member : cube ∈ p.cubes
  own : cube.pid = p.pid
  id : cube.id = cargo.id
  slice : ∃ slice ∈ cube.slices, cargo.slice.Alike slice ∧ 0 < slice.nlinks

namespace Process.Loads

variable (loads : p.Loads P names cargo cube)

include loads

theorem fits : cargo.slice.Fits P cube.page.size := by
  obtain ⟨slice, inside, alike, -⟩ := loads.slice
  exact alike.fits (loads.laid.slices cube loads.member slice inside)

/-- The file is mapped at the block alone. -/
theorem block {mapping : Mapping} (inside : mapping ∈ p.maps)
    (dir : mapping.dir = cargo.dir) (id : mapping.id = cargo.id) :
    mapping.block = cube.page :=
  loads.charted.single mapping inside cube loads.member loads.own
    (dir.trans loads.self.symm) (id.trans loads.id.symm)

theorem short {page : Nat} (covered : cargo.slice.page.HasPage P page) :
    page * P.bytes < cube.page.size :=
  Nat.lt_of_lt_of_le covered.2 loads.fits.inside

/-- The pages of the slice in the block. -/
theorem read {page : Nat} (closed : cargo.Closed P p)
    (covered : cargo.slice.page.HasPage P page) :
    p.prot (cube.pageAt P page) = .read := by
  have there := loads.charted.mine cube loads.member loads.own
  have placed := loads.laid.placed cube loads.member
  exact closed _ there loads.self loads.id page covered
    ((hasPage_pageAt placed).mpr (loads.short covered))

/-- No mapping of the file is new, and the pages of the slice stay. -/
theorem closed_of_kept (closed : cargo.Closed P p)
    (maps : ∀ mapping ∈ p'.maps, mapping.dir = cargo.dir →
      mapping.id = cargo.id → mapping ∈ p.maps)
    (stays : ∀ page, cargo.slice.page.HasPage P page →
      p.prot (cube.pageAt P page) = .read →
        p'.prot (cube.pageAt P page) = .read) :
    cargo.Closed P p' := by
  intro mapping inside dir id page covered has
  rw [loads.block (maps mapping inside dir id) dir id]
  exact stays page covered (loads.read closed covered)

/-- A new mapping is one of a new file. -/
theorem fewer {block : Block} {made : String}
    (fresh : (p.self, made) ∉ names)
    (maps : p'.maps = ⟨block, p.self, made⟩ :: p.maps) :
    ∀ mapping ∈ p'.maps, mapping.dir = cargo.dir →
      mapping.id = cargo.id → mapping ∈ p.maps := by
  intro mapping inside dir id
  rw [maps] at inside
  rcases List.mem_cons.mp inside with rfl | old
  · have known := loads.charted.files cube
      (List.mem_append_left _ loads.member) loads.own
    have same : made = cube.id := id.trans loads.id.symm
    exact absurd (same ▸ known) fresh
  · exact old

/-- The block has moved. -/
theorem closed_moved {page : Block} {prot : Prot} (closed : cargo.Closed P p)
    (whole : P.bytes ∣ page.size)
    (uniform : p.uniformProt P cube.page = some prot)
    (admits : Process.Admits P page
      (p.maps.filter fun mapping => mapping.block ≠ cube.page)) :
    cargo.Closed P (p.moveCube P cube page prot) := by
  intro mapping' inside' dir id number covered has
  obtain ⟨mapping, inside, rfl⟩ := List.mem_map.mp inside'
  have placed : page.Placed P :=
    ⟨admits.1, admits.2.1, admits.2.2.1, whole, admits.2.2.2.1⟩
  have shut : prot = .read := by
    have here := uniformProt_eq (loads.laid.placed cube loads.member) uniform
      (loads.short covered)
    exact here.symm.trans (loads.read closed covered)
  by_cases here : mapping.block = cube.page
  · rw [if_pos here] at has ⊢
    have short := (@hasPage_pageAt P { cube with page := page } number
      placed).mp has
    exact (@protectPages_moved P cube p page prot placed number short).trans
      shut
  · rw [if_neg here] at dir id
    exact absurd (loads.block inside dir id) here

/-- The owner leaves the pages of the slice closed. -/
theorem closed_deed {effect : Effect} (closed : cargo.Closed P p)
    (deed : Deed P p event effect p')
    (fresh : ∀ id, event.made = some id → (p.self, id) ∉ names)
    (spares : effect.SparesSlice P cargo.slice.ptr) :
    cargo.Closed P p' := by
  have placed := loads.laid.placed cube loads.member
  have has : ∀ page, cargo.slice.page.HasPage P page →
      cube.page.HasPage P (cube.pageAt P page) :=
    fun page covered => (hasPage_pageAt placed).mpr (loads.short covered)
  have there := loads.charted.mine cube loads.member loads.own
  have still : p'.maps ⊆ p.maps → p'.prot = p.prot → cargo.Closed P p' := by
    intro maps prot
    apply loads.closed_of_kept closed
    · exact fun mapping inside _ _ => maps inside
    · intro page covered read
      exact (congrFun prot _).trans read
  cases deed with
  | agrees agrees =>
      exact still (agrees.maps ▸ List.Subset.refl _) agrees.prot
  | beside pid cubes orphans nextPtr maps mapped prot =>
      apply loads.closed_of_kept closed
      · rcases mapped with same | ⟨block, id, made, admits, more⟩
        · exact fun mapping inside _ _ => same ▸ inside
        · exact loads.fewer (fresh id made) more
      · intro page covered read
        exact (prot _ there _ (has page covered)).trans read
  | @alloc new p' empty own whole admits unused made agrees =>
      apply loads.closed_of_kept closed
      · exact loads.fewer (fresh _ made) agrees.maps
      · intro page covered read
        have apart := admits.2.2.2.2 _ there
        rw [agrees.prot]
        exact (if_neg (apart.not_hasPage (has page covered))).trans read
  | @free freed addr maps p' frees registered base unmapped agrees =>
      apply still
      · rw [agrees.maps]
        rcases unmapped with rfl | rfl
        · exact List.Subset.refl _
        · exact fun mapping inside => List.mem_of_mem_filter inside
      · exact agrees.prot.trans Process.prot_freeCube
  | @grow moved page prot p' registered own longer whole uniform admits agrees =>
      by_cases same : moved.ptr = cube.ptr
      · cases loads.laid.named.same_cube (List.mem_append_left _ registered)
          (List.mem_append_left _ loads.member) same
        have closed' := loads.closed_moved closed whole uniform admits
        intro mapping inside
        rw [agrees.maps] at inside
        rw [agrees.prot]
        exact closed' mapping inside
      · have away : cube.page ≠ moved.page :=
          (loads.laid.apart cube loads.member moved registered
            fun equal => same (congrArg Cube.ptr equal.symm)).ne
              (loads.laid.placed moved registered).nonempty
        apply loads.closed_of_kept closed
        · intro mapping' inside' dir id
          rw [agrees.maps] at inside'
          obtain ⟨mapping, inside, rfl⟩ := List.mem_map.mp inside'
          by_cases here : mapping.block = moved.page
          · rw [if_pos here] at dir id
            exact absurd ((loads.block inside dir id).symm.trans here) away
          · rw [if_neg here]
            exact inside
        · intro page covered read
          have apart := admits.2.2.2.2 _ (List.mem_filter.mpr
            ⟨there, by simpa using away⟩)
          rw [agrees.prot]
          exact (if_neg (apart.not_hasPage (has page covered))).trans read
  | slice slices registered own contains unused agrees =>
      exact still (agrees.maps ▸ List.Subset.refl _) agrees.prot
  | attach attaches member own inside agrees =>
      apply loads.closed_of_kept closed
      · exact fun mapping inside _ _ => agrees.maps ▸ inside
      · intro page covered read
        rw [agrees.prot]
        show (if _ then Prot.read else p.prot _) = .read
        split
        · rfl
        · exact read
  | detach detaches member own inside agrees =>
      rcases agrees with kept | released
      · exact still (kept.maps ▸ List.Subset.refl _) kept.prot
      · exact still (released.maps ▸ List.Subset.refl _) released.prot
  | @fault faulted addr opened p' registered own contains idle known spans
      agrees =>
      apply loads.closed_of_kept closed
      · exact fun mapping inside _ _ =>
          openSlices_maps ▸ agrees.maps ▸ inside
      · intro page covered read
        rw [agrees.prot, ← read]
        have fits : ∀ slice ∈ opened, slice.Fits P faulted.page.size :=
          fun slice listed =>
            loads.laid.slices faulted registered slice (known.subset listed)
        by_cases same : faulted.ptr = cube.ptr
        · cases loads.laid.named.same_cube (List.mem_append_left _ registered)
            (List.mem_append_left _ loads.member) same
          apply openSlices_apart placed fits
          obtain ⟨slice, inside, alike, -⟩ := loads.slice
          intro other listed
          exact spares slice inside alike.ptr other listed page
            (alike.page ▸ covered)
        · apply openSlices_beside (loads.laid.placed faulted registered) fits
          have apart := loads.laid.apart cube loads.member faulted registered
            fun equal => same (congrArg Cube.ptr equal.symm)
          exact apart.not_hasPage (has page covered)

end Process.Loads

end Pages

section Bytes

variable {P : PageSize} {names : List (String × String)} {p p' : Process}
  {cube : Cube} {slice : Slice} {cargo : Cargo} {event : Event}
  {dir id : String}

theorem Cargo.Kept.of_eq {file file' : Option File} (same : file' = file) :
    cargo.Kept file file' :=
  fun _ _ _ read => same ▸ read

/-- No event but a store changes another file. -/
theorem Event.outcome_file (unstored : ∀ addr byte, event.op ≠ .store addr byte)
    (keeps : dir = p.self → ¬event.Rewrites p id) :
    (event.outcome P p).file dir id = p.file dir id := by
  obtain ⟨op, errno, os⟩ := event
  have free : (p.enter errno os).held = [] := rfl
  have ended : ∀ {α : Type} {x : Prog α},
      Ensures x
        (fun _ w' => (p.enter errno os).Writes
          (fun name => Event.Rewrites p name ⟨op, errno, os⟩) w')
        (fun _ w' => (p.enter errno os).Writes
          (fun name => Event.Rewrites p name ⟨op, errno, os⟩) w')
        (p.enter errno os) →
      (final ((do let _ ← x : Prog Unit) (p.enter errno os))).toProcess.file
        dir id = p.file dir id := fun ensures =>
    final_of (fun p' => p'.file dir id = p.file dir id) ensures
      (fun _ _ writes => writes.file dir id keeps)
      fun _ _ writes => writes.file dir id keeps
  have made : ∀ size, (∀ name, (p.enter errno os).Names name →
        Event.made ⟨op, errno, os⟩ = some name) →
      (final ((do let _ ← inaccelAlloc P size : Prog Unit)
        (p.enter errno os))).toProcess.file dir id = p.file dir id :=
    fun size named => ended (((inaccelAlloc_spec free).and
      inaccelAlloc_files).mono
        (fun _ _ both => both.2.writes.mono fun name known =>
          .inl (named name known))
        fun _ _ both => both.1.elim)
  cases op with
  | alloc size => exact made size fun _ => Event.made_alloc
  | free addr =>
      exact ended (inaccelFree_writesTo free fun cube found own unused =>
        .inr ⟨cube, found, own, unused, rfl⟩)
  | realloc addr newSize =>
      by_cases null : addr = 0
      · subst null
        rw [outcome_realloc_null]
        exact made newSize fun _ => Event.made_realloc
      · by_cases empty : newSize = 0
        · subst empty
          apply @ended _ (inaccelRealloc P addr 0)
          rw [inaccelRealloc_eq, if_neg null, if_pos rfl]
          have freed := @inaccelFree_writesTo _
            (fun name => Event.Rewrites p name ⟨.realloc addr 0, errno, os⟩)
            addr free fun cube found own unused =>
              .inr ⟨null, cube, found, own, fun _ => unused, rfl⟩
          apply freed.bind
          intro _ w₁ writes
          apply Moves.ensures _ writes
          exact (writesOnly_setErrno _).bind fun _ => moves_pure none
        · exact ended (inaccelRealloc_writesTo null free
            fun cube found own => .inr ⟨null, cube, found, own,
              fun zero => absurd zero empty, rfl⟩)
  | slice addr size => exact ended (writesOnly_slice addr size _)
  | attach ptr => exact ended (writesOnly_attach ptr _)
  | detach ptr =>
      exact ended (detach_writesTo fun cube slice found own unused =>
        .inr ⟨cube, slice, found, own, unused, rfl⟩)
  | woken ptr error => exact ended (writesOnly_accessWoken ptr error _)
  | store addr byte => exact absurd rfl (unstored addr byte)

/-- A store to a byte of the slice has no effect. -/
theorem Cargo.Closed.kept_store {addr : Nat} {byte : UInt8}
    (closed : cargo.Closed P p) (charted : p.Charted P names)
    (fits : ∃ length, cargo.slice.Fits P length)
    (writable : p.Writable P addr) :
    cargo.Kept (p.file cargo.dir cargo.id)
      ((p.storeByte addr byte).file cargo.dir cargo.id) := by
  unfold Process.storeByte
  cases found : p.maps.find? fun mapping => mapping.block.Holds addr with
  | none => exact .of_eq rfl
  | some mapping =>
      by_cases here : cargo.dir = mapping.dir ∧ cargo.id = mapping.id
      · have holds : mapping.block.Holds addr := by
          simpa using List.find?_some found
        have inside := List.mem_of_find?_eq_some found
        have aligned := charted.aligned mapping inside
        intro index covered old read
        have beside : index ≠ addr - mapping.block.addr := by
          intro same
          obtain ⟨length, fits⟩ := fits
          have has := fits.hasPage covered.1 covered.2
          have page : mapping.block.addr / P.bytes + index / P.bytes =
              addr / P.bytes := by
            obtain ⟨count, start⟩ := aligned
            have split : addr = index + P.bytes * count := by
              have above := holds.1
              omega
            rw [split, start, Nat.add_mul_div_left _ _ P.bytes_pos,
              Nat.mul_div_cancel_left _ P.bytes_pos, Nat.add_comm]
          have shut := closed mapping inside here.1.symm here.2.symm _ has
            (page ▸ holds.hasPage aligned)
          rw [page] at shut
          exact absurd writable (not_writable_of_read shut)
        have stored : Process.file mapping.dir mapping.id
            { p with files := p.files.map fun file =>
                if file.dir = mapping.dir ∧ file.id = mapping.id then
                  file.store (addr - mapping.block.addr) byte
                else file } = _ := file_map_self fun _ => ⟨rfl, rfl⟩
        dsimp only
        rw [here.1, here.2]
        rw [here.1, here.2] at read
        refine (congrArg (·.bind (File.load index)) stored).trans ?_
        obtain ⟨file, there, load⟩ := Option.bind_eq_some_iff.mp read
        rw [there]
        have same : (file.store (addr - mapping.block.addr) byte).bytes index =
            file.bytes index := by
          unfold File.store
          exact Function.update_of_ne beside _ _
        show (if index < file.length then some (File.bytes _ index) else none) =
          some old
        rw [same]
        exact load
      · exact .of_eq (file_map (fun _ => ⟨rfl, rfl⟩) here)

/-- An event of a process where the pages of the slice are closed. -/
theorem Cargo.Closed.kept (closed : cargo.Closed P p)
    (charted : p.Charted P names) (fits : ∃ length, cargo.slice.Fits P length)
    (rewritten : p.self = cargo.dir → event.Rewrites p cargo.id →
      cargo.Kept (p.file cargo.dir cargo.id)
        ((event.outcome P p).file cargo.dir cargo.id)) :
    cargo.Kept (p.file cargo.dir cargo.id)
      ((event.outcome P p).file cargo.dir cargo.id) := by
  by_cases own : p.self = cargo.dir ∧ event.Rewrites p cargo.id
  · exact rewritten own.1 own.2
  have keeps : cargo.dir = p.self → ¬event.Rewrites p cargo.id :=
    fun same rewrites => own ⟨same.symm, rewrites⟩
  have others : (∀ addr byte, event.op ≠ .store addr byte) →
      cargo.Kept (p.file cargo.dir cargo.id)
        ((event.outcome P p).file cargo.dir cargo.id) :=
    fun unstored => .of_eq (event.outcome_file unstored keeps)
  obtain ⟨op, errno, os⟩ := event
  cases op with
  | store addr byte =>
      have ran := @hostStore_run P addr byte (p.enter errno os)
      rw [Process.enter_toProcess] at ran
      by_cases writable : p.Writable P addr
      · rw [if_pos writable] at ran
        have stored : Event.outcome P p ⟨.store addr byte, errno, os⟩ =
            p.storeByte addr byte :=
          congrArg (fun result => (final result).toProcess) ran
        rw [stored]
        exact closed.kept_store charted fits writable
      · rw [if_neg writable] at ran
        have faulted : Event.outcome P p ⟨.store addr byte, errno, os⟩ =
            (final ((do let _ ← access P addr : Prog Unit)
              (p.enter errno os))).toProcess :=
          congrArg (fun result => (final result).toProcess) ran
        rw [faulted]
        have writes := @writesOnly_access P (fun _ => False) addr
          (p.enter errno os)
        exact final_of (fun p' => cargo.Kept (p.file cargo.dir cargo.id)
            (p'.file cargo.dir cargo.id)) writes
          (fun _ _ writes => .of_eq (writes.file _ _ fun _ => not_false))
          fun _ _ writes => .of_eq (writes.file _ _ fun _ => not_false)
  | alloc size => exact others fun _ _ => Op.noConfusion
  | realloc addr newSize => exact others fun _ _ => Op.noConfusion
  | free addr => exact others fun _ _ => Op.noConfusion
  | slice addr size => exact others fun _ _ => Op.noConfusion
  | attach ptr => exact others fun _ _ => Op.noConfusion
  | detach ptr => exact others fun _ _ => Op.noConfusion
  | woken ptr error => exact others fun _ _ => Op.noConfusion

theorem File.load_resize {file : File} {length index : Nat}
    (below : index < length) (byte : UInt8)
    (read : file.load index = some byte) :
    (file.resize length).load index = some byte := by
  unfold File.load at read
  split at read
  · rename_i inside
    cases read
    show (if index < length then some (if _ then _ else _) else none) = _
    rw [if_pos below, if_pos (Nat.lt_min.mpr ⟨inside, below⟩)]
  · cases read

/-- A longer size that does not wrap keeps the bytes of the slice. -/
theorem Cargo.kept_resized {newSize : Nat} {os : Nat → Reply}
    (fits : cargo.slice.Fits P cube.page.size)
    (sized : newSize + P.bytes - 1 < wordSize) (self : p.self = cargo.dir)
    (same : cube.id = cargo.id) :
    cargo.Kept (p.file cargo.dir cargo.id) (p.resized P cube newSize os) := by
  rw [← self, ← same]
  unfold Process.resized
  split
  · rename_i resizes
    intro index covered byte read
    obtain ⟨file, there, load⟩ := Option.bind_eq_some_iff.mp read
    rw [there]
    apply File.load_resize _ byte load
    have long := resizes.2.1
    have reaches := le_ceilPagesize sized
    have finish := fits.finish
    have inside := fits.inside
    have below := covered.2
    omega
  · exact .of_eq rfl

/-- The owner keeps the bytes of an attached slice. -/
theorem Process.Bears.rewritten (bears : p.Bears cargo.id cargo.slice)
    (housed : p.Housed P names) (tallied : p.Tallied)
    (paired : event.Paired p) (carries : event.Carries P cargo.slice.ptr p)
    (fresh : ∀ id, event.made = some id → (p.self, id) ∉ names)
    (self : p.self = cargo.dir) (rewrites : event.Rewrites p cargo.id) :
    cargo.Kept (p.file cargo.dir cargo.id)
      ((event.outcome P p).file cargo.dir cargo.id) := by
  obtain ⟨cube, member, own, same, slice, inside, alike, linked⟩ := bears
  have named := housed.laid.named
  have lone : ∀ other ∈ p.live, other.pid = p.pid → other.id = cargo.id →
      other = cube := by
    intro other also theirs name
    exact named.same_cube also member
      (housed.filed.unique other also theirs cube member own
        (name.trans same.symm))
  have used : cube ∈ p.cubes → cube.nlinks ≠ 0 := by
    intro registered
    have used := (tallied.registered cube registered).used inside linked
    omega
  rcases rewrites with made | rewrites
  · have known := housed.charted.files cube member own
    rw [same] at known
    exact absurd known (fresh _ made)
  obtain ⟨op, errno, os⟩ := event
  cases op with
  | free addr =>
      obtain ⟨other, found, theirs, unused, name⟩ := rewrites
      have registered := List.mem_of_find?_eq_some found
      cases lone other (List.mem_append_left _ registered) theirs name
      exact absurd unused (used registered)
  | realloc addr newSize =>
      obtain ⟨given, other, found, theirs, empty, name⟩ := rewrites
      have registered := List.mem_of_find?_eq_some found
      cases lone other (List.mem_append_left _ registered) theirs name
      have asked : newSize ≠ 0 := fun zero => used registered (empty zero)
      have fits : cargo.slice.Fits P cube.page.size :=
        alike.fits (housed.laid.slices cube registered slice inside)
      apply final_of (fun p' => cargo.Kept (p.file cargo.dir cargo.id)
          (p'.file cargo.dir cargo.id))
        (@inaccelRealloc_exact P (p.enter errno os) cube addr newSize given
          asked found rfl)
      · intro result w' ended
        have resized : w'.file p.self cube.id =
            p.resized P cube newSize os := ended.1.2
        have kept : cargo.Kept (p.file cargo.dir cargo.id)
            (p.resized P cube newSize os) :=
          Cargo.kept_resized fits (carries.sized addr newSize rfl) self name
        rw [← resized, self, name] at kept
        exact kept
      · exact fun _ _ => False.elim
  | detach ptr =>
      obtain ⟨other, found, here, theirs, unused, name⟩ := rewrites
      obtain ⟨also, within, rfl⟩ := findSlice_mem here
      cases lone other also theirs name
      have outlasts := tallied.outlasts named member within
        (paired cube found here) inside linked fun equal =>
          carries.leaves (equal.trans alike.ptr) cube found here
      omega
  | alloc size => exact rewrites.elim
  | slice addr size => exact rewrites.elim
  | attach ptr => exact rewrites.elim
  | store addr byte => exact rewrites.elim
  | woken ptr error => exact rewrites.elim

end Bytes

section Voyage

variable {P : PageSize} {f f' : Family} {cargo : Cargo} {pid : Nat}
  {m : Relative} {event : Event}

/-- A file that an event changes is one of an own block, or a new one. -/
theorem Event.Rewrites.owned {p : Process} {id : String}
    (rewrites : event.Rewrites p id) :
    p.OwnFile id ∨ event.made = some id := by
  rcases rewrites with made | rewrites
  · exact .inr made
  · left
    obtain ⟨op, errno, os⟩ := event
    cases op with
    | free addr =>
        obtain ⟨cube, found, own, -, same⟩ := rewrites
        have registered := List.mem_of_find?_eq_some found
        exact ⟨cube, List.mem_append_left _ registered, own, same⟩
    | realloc addr newSize =>
        obtain ⟨-, cube, found, own, -, same⟩ := rewrites
        have registered := List.mem_of_find?_eq_some found
        exact ⟨cube, List.mem_append_left _ registered, own, same⟩
    | detach ptr =>
        obtain ⟨cube, slice, found, own, -, same⟩ := rewrites
        exact ⟨cube, (findSlice_mem found).1, own, same⟩
    | alloc size => exact rewrites.elim
    | slice addr size => exact rewrites.elim
    | attach ptr => exact rewrites.elim
    | store addr byte => exact rewrites.elim
    | woken ptr error => exact rewrites.elim

namespace Family.Ships

variable (ships : f.Ships P cargo)

include ships

theorem known : (cargo.dir, cargo.id) ∈ f.names :=
  List.mem_map_of_mem ships.maker

/-- The process whose own block has the file is the owner. -/
theorem owner_of_own {cube : Cube} (sound : f.Sound P)
    (here : f.members pid = some m) (member : cube ∈ m.live)
    (own : cube.pid = m.pid) (self : m.self = cargo.dir)
    (same : cube.id = cargo.id) : pid = cargo.owner := by
  have theirs := sound.members pid m here
  have made := theirs.owns cube member (own.trans theirs.known)
  rw [self, same] at made
  exact sound.same_maker made ships.maker

/-- What the owner has attached. -/
theorem bearer (here : f.members cargo.owner = some m) :
    m.self = cargo.dir ∧ (m.on f.files).Bears cargo.id cargo.slice := by
  obtain ⟨bearer, there, self, bears⟩ := ships.bears
  rw [here] at there
  cases there
  exact ⟨self, bears⟩

theorem closed_event (sound : f.Sound P) (reckoned : f.Reckoned P)
    (here : f.members pid = some m) (admits : f.Admits m event)
    (carries : pid = cargo.owner →
      event.Carries P cargo.slice.ptr (m.on f.files)) :
    cargo.Closed P (m.after P event f.files).toProcess := by
  have theirs := sound.members pid m here
  have closed : cargo.Closed P (m.on f.files) := ships.closed pid m here
  have laid : (m.on f.files).Laid P := theirs.laid.on
  have charted : (m.on f.files).Charted P f.names := theirs.charted.on
  have deed : Deed P (m.on f.files) event _
      (m.after P event f.files).toProcess := event_deed admits.1.words
  have unmade : ∀ id, event.made = some id →
      ¬(cargo.dir = m.self ∧ cargo.id = id) := by
    intro id made same
    have known := ships.known
    rw [same.1, same.2] at known
    exact admits.2 id made known
  by_cases mine : ∃ cube ∈ m.cubes, cube.pid = m.pid ∧
      cargo.dir = m.self ∧ cargo.id = cube.id
  · obtain ⟨cube, registered, own, self, same⟩ := mine
    have live := List.mem_append_left m.orphans registered
    have owner := ships.owner_of_own sound here live own self.symm same.symm
    subst owner
    obtain ⟨-, other, also, own', same', attached⟩ := ships.bearer here
    have filed := reckoned.filed _ m here
    have lone := laid.named.same_cube also live
      (filed.unique other also own' cube live own (same'.trans same))
    cases lone
    have loads : (m.on f.files).Loads P f.names cargo cube :=
      ⟨laid, charted, self.symm, registered, own, same', attached⟩
    exact loads.closed_deed closed deed admits.2 (carries rfl).spares
  · apply closed.foreign deed laid charted
    · intro cube registered own both
      exact mine ⟨cube, registered, own, both⟩
    · exact unmade

theorem kept_event (sound : f.Sound P) (reckoned : f.Reckoned P)
    (here : f.members pid = some m) (admits : f.Admits m event)
    (paired : event.Paired (m.on f.files))
    (carries : pid = cargo.owner →
      event.Carries P cargo.slice.ptr (m.on f.files)) :
    cargo.Kept ((m.on f.files).file cargo.dir cargo.id)
      ((m.after P event f.files).file cargo.dir cargo.id) := by
  have theirs := sound.members pid m here
  have closed : cargo.Closed P (m.on f.files) := ships.closed pid m here
  apply closed.kept theirs.charted.on ships.fits
  intro self rewrites
  rcases rewrites.owned with ⟨cube, live, own, same⟩ | made
  · have owner := ships.owner_of_own sound here live own self same
    subst owner
    have filed := reckoned.filed _ m here
    exact (ships.bearer here).2.rewritten (sound.housed here filed)
      ((reckoned.tallied _ m here).of_same rfl rfl) paired (carries rfl)
      admits.2 self rewrites
  · have known := ships.known
    rw [← self] at known
    exact absurd known (admits.2 _ made)

/-- One act, with the slice attached throughout. -/
theorem step {act : Family.Act} (step : Family.Step P f act f')
    (reckoned : f.Reckoned P) (paired : act.Paired f)
    (carries : act.Carries P cargo.owner cargo.slice.ptr f) :
    f'.Ships P cargo ∧
      cargo.Kept (f.file cargo.dir cargo.id)
        (f'.file cargo.dir cargo.id) := by
  have sound := reckoned.sound
  have maker := step.made _ ships.maker
  cases step with
  | @event pid event m here admits =>
      have carries : pid = cargo.owner →
          event.Carries P cargo.slice.ptr (m.on f.files) :=
        fun owner => carries owner m here
      have linked := paired m here
      constructor
      · constructor
        · exact ships.fits
        · exact maker
        · by_cases owner : pid = cargo.owner
          · subst owner
            obtain ⟨self, bears⟩ := ships.bearer here
            refine ⟨m.after P event f.files, Function.update_self _ _ _, ?_, ?_⟩
            · exact (event_files (P := P) (p := m.on f.files) event).self.trans
                self
            · exact event.bears admits.1.words
                (sound.members _ m here).laid.on.named
                ((reckoned.tallied _ m here).of_same rfl rfl) linked
                (carries rfl).leaves bears
          · obtain ⟨bearer, there, rest⟩ := ships.bears
            refine ⟨bearer, ?_, rest⟩
            exact (Function.update_of_ne (Ne.symm owner) _ _).trans there
        · intro other q found
          rcases some_update found with ⟨rfl, rfl⟩ | ⟨-, there⟩
          · exact ships.closed_event sound reckoned here admits carries
          · exact ships.closed other q there
      · exact ships.kept_event sound reckoned here admits linked carries
  | @fork pid child errno os m here new answered =>
      refine ⟨?_, .of_eq rfl⟩
      constructor
      · exact ships.fits
      · exact maker
      · obtain ⟨bearer, there, self, bears⟩ := ships.bears
        have old : cargo.owner ≠ child := by
          intro same
          rw [same, new] at there
          cases there
        obtain ⟨q, found, same⟩ :=
          Family.forked_of_some child errno os sound here there old
        refine ⟨q, found, ?_, ?_⟩
        · exact (congrArg Process.self same :).trans self
        · obtain ⟨cube, member, own, rest⟩ := bears
          have live : q.live = bearer.live := (congrArg Process.live same :)
          have pid : q.pid = bearer.pid := (congrArg Process.pid same :)
          exact ⟨cube, live ▸ member, own.trans pid.symm, rest⟩
      · intro other q found
        by_cases last : other = child
        · subst last
          rcases some_update found with ⟨-, rfl⟩ | ⟨absent, -⟩
          · obtain ⟨self, prot, same, shut⟩ :=
              (sound.members pid m here).copied other errno answered
            have closed := ships.closed pid m here
            intro mapping inside dir id page covered has
            rw [same] at inside ⊢
            exact shut.2 _ (closed mapping inside dir id page covered has)
          · exact absurd rfl absent
        · obtain ⟨before, there, same⟩ := Family.unforked sound here last found
          have closed := ships.closed other before there
          have maps : q.maps = before.maps := (congrArg Process.maps same :)
          have prot : q.prot = before.prot := (congrArg Process.prot same :)
          intro mapping inside
          rw [maps] at inside
          rw [prot]
          exact closed mapping inside

end Family.Ships

/-- The owner reads the byte where a server does. -/
theorem Process.Charted.load_own {p : Process} {cube : Cube} {index : Nat}
    {names : List (String × String)} (charted : p.Charted P names)
    (member : cube ∈ p.cubes) (own : cube.pid = p.pid)
    (inside : index < cube.page.size) :
    p.loadByte (cube.page.addr + index) =
      (p.file p.self cube.id).bind (File.load index) := by
  have holds : cube.page.Holds (cube.page.addr + index) :=
    ⟨Nat.le_add_right _ _, by omega⟩
  unfold Process.loadByte
  rw [charted.find_mapping member own holds]
  show ((p.file p.self cube.id).bind fun file => _) = _
  simp only [Nat.add_sub_cancel_left]
  rfl

/-- What a successful `__attach` leaves. -/
theorem attach_agrees {p : Process} {ptr errno : Nat} {os : Nat → Reply}
    {cube : Cube} {slice : Slice} (found : p.findSlice ptr = some (cube, slice))
    (attached : returned (attach P ptr (p.enter errno os)) = some 0) :
    cube.pid = p.pid ∧
      (Process.link cube.ptr ptr
        (p.protectPages P (wadd cube.page.addr slice.page.offset)
          slice.page.size .read)).Agrees
        (Event.outcome P p ⟨.attach ptr, errno, os⟩) := by
  have run := eq_ok_final attached
  obtain ⟨-, cube', slice', links⟩ :=
    (@attach_spec P ptr (p.enter errno os) rfl).of_ok run
  have same : some (cube', slice') = some (cube, slice) :=
    links.found.symm.trans found
  cases same
  have ended : (final (attach P ptr (p.enter errno os))).toProcess =
      Event.outcome P p ⟨.attach ptr, errno, os⟩ :=
    (congrArg World.toProcess final_void).symm
  rw [← ended]
  exact ⟨links.own, links.effect.agrees⟩

theorem Process.bears_link {p : Process} {cube : Cube} {slice : Slice}
    (live : cube ∈ p.live) (own : cube.pid = p.pid)
    (inside : slice ∈ cube.slices) (zero : 0 ≤ slice.nlinks) :
    (p.link cube.ptr slice.ptr).Bears cube.id slice := by
  refine ⟨cube.shift slice.ptr 1, ?_, own, rfl,
    { slice with nlinks := slice.nlinks + 1 }, ?_, ⟨rfl, rfl, rfl, rfl⟩, ?_⟩
  · have linked := List.mem_map_of_mem (f := fun other : Cube =>
      if other.ptr = cube.ptr then other.shift slice.ptr 1 else other) live
    rw [if_pos rfl] at linked
    unfold Process.link
    rw [Process.live_modifyCube]
    exact linked
  · have raised := List.mem_map_of_mem (f := fun other =>
      if other.ptr = slice.ptr then { other with nlinks := other.nlinks + 1 }
      else other) inside
    rw [if_pos rfl] at raised
    exact raised
  · show 0 < slice.nlinks + 1
    omega

/-- The attach closes the pages of the slice. -/
theorem Family.ships_attach {owner ptr errno : Nat} {os : Nat → Reply}
    {cube : Cube} {slice : Slice} (reckoned : f.Reckoned P)
    (here : f.members owner = some m)
    (found : m.findSlice ptr = some (cube, slice)) (registered : cube ∈ m.cubes)
    (attached : returned (attach P ptr ((m.on f.files).enter errno os)) = some 0)
    (step : Family.Step P f (.event owner ⟨.attach ptr, errno, os⟩) f') :
    f'.Ships P ⟨owner, m.self, cube.id, slice⟩ ∧
      f'.file m.self cube.id = f.file m.self cube.id := by
  have sound := reckoned.sound
  have mine := sound.members owner m here
  have laid : (m.on f.files).Laid P := mine.laid.on
  obtain ⟨live, inside, rfl⟩ := findSlice_mem found
  obtain ⟨own, agrees⟩ := attach_agrees (p := m.on f.files) found attached
  have own' : cube.pid = owner := own.trans mine.known
  have maker := step.made _ (sound.owned here registered own')
  have fits := laid.slices cube registered slice inside
  cases step with
  | @event pid event m' here' admits =>
      cases here.symm.trans here'
      have self : (m.after P ⟨.attach slice.ptr, errno, os⟩ f.files).self =
          m.self := (event_files (P := P) (p := m.on f.files) _).self
      constructor
      · constructor
        · exact ⟨_, fits⟩
        · exact maker
        · refine ⟨_, Function.update_self _ _ _, self, ?_⟩
          apply Process.Bears.agrees _ agrees
          exact Process.bears_link (p := (m.on f.files).protectPages P _ _ _)
            live own inside ((reckoned.tallied owner m here).nonneg live inside)
        · intro pid q there mapping old dir id page covered has
          rcases some_update there with ⟨rfl, rfl⟩ | ⟨other, there⟩
          · have old : mapping ∈ m.maps := agrees.maps ▸ old
            have block := mine.charted.single mapping old cube registered own
              dir id
            rw [block]
            refine (congrFun agrees.prot _).trans ?_
            have closed := @protectPages_pageAt P cube slice page .read
              (m.on f.files) (laid.placed cube registered) fits
            rw [if_pos covered] at closed
            exact closed
          · exact reckoned.sealed owner m here cube registered own' pid q there
              other mapping old dir id _ has
      · exact Event.outcome_file (p := m.on f.files)
          (fun _ _ => Op.noConfusion)
          fun _ rewrites => rewrites.elim (fun made => by cases made) id

/-- The slice stays attached in a run, and its bytes stay in the file. -/
theorem Family.Ships.run {trace : List (Family × Family.Act)} {finish : Family}
    (ships : f.Ships P cargo) (reckoned : f.Reckoned P)
    (run : Run (Family.Step P) f trace finish)
    (paired : ∀ point ∈ trace, point.2.Paired point.1)
    (carries : ∀ point ∈ trace,
      point.2.Carries P cargo.owner cargo.slice.ptr point.1) :
    ∀ s ∈ visited trace finish, s.Reckoned P ∧ s.Ships P cargo ∧
      cargo.Kept (f.file cargo.dir cargo.id)
        (s.file cargo.dir cargo.id) := by
  apply run.invariant_under
    (fun s => s.Reckoned P ∧ s.Ships P cargo ∧
      cargo.Kept (f.file cargo.dir cargo.id) (s.file cargo.dir cargo.id))
    fun s act => act.Paired s ∧ act.Carries P cargo.owner cargo.slice.ptr s
  · intro s act s' ⟨reckoned, ships, kept⟩ ⟨paired, carries⟩ step
    obtain ⟨ships', stays⟩ := ships.step step reckoned paired carries
    refine ⟨step.reckoned reckoned paired, ships', ?_⟩
    intro index covered byte read
    exact stays index covered byte (kept index covered byte read)
  · exact ⟨reckoned, ships, .of_eq rfl⟩
  · exact fun point member => ⟨paired point member, carries point member⟩

/-- The owner of a slice reads in it what a server reads in the file. -/
theorem Family.Reckoned.load {owner ptr index : Nat} {cube : Cube}
    {slice : Slice} (reckoned : f.Reckoned P) (here : f.members owner = some m)
    (found : m.findSlice ptr = some (cube, slice)) (registered : cube ∈ m.cubes)
    (own : cube.pid = m.pid) (below : index < slice.size) :
    (m.on f.files).loadByte (cube.page.addr + slice.offset + index) =
      f.loadFile m.self cube.id (slice.offset + index) := by
  have mine := reckoned.sound.members owner m here
  have fits := mine.laid.slices cube registered slice (findSlice_mem found).2.1
  have start := fits.start
  have finish := fits.finish
  have inside := fits.inside
  rw [Nat.add_assoc]
  exact Process.Charted.load_own (p := m.on f.files) mine.charted.on registered
    own (by omega)

end Voyage

end CoralApi
