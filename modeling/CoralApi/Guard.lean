import CoralApi.Layout
import CoralApi.Library.PageGuard

/-!
# Cubes as guarded regions

The view of a cube forgets addresses: its pages are numbered from the start of
its block and its slices are regions named by their pointers.  Every step of a
process is a step, or nothing, in the view of every registered cube.
-/

namespace CoralApi

/-- The page, counted from the start of the block, lies in the span. -/
def Span.HasPage (P : PageSize) (span : Span) (page : Nat) : Prop :=
  span.offset ≤ page * P.bytes ∧ page * P.bytes < span.offset + span.size

instance (P : PageSize) (span : Span) (page : Nat) :
    Decidable (span.HasPage P page) :=
  inferInstanceAs (Decidable (_ ∧ _))

namespace Cube

def sliceAt (cube : Cube) (ptr : Nat) : Option Slice :=
  cube.slices.find? fun slice => slice.ptr == ptr

/-- The number of the page of the process that is a page of the block. -/
def pageAt (P : PageSize) (cube : Cube) (page : Nat) : Nat :=
  cube.page.addr / P.bytes + page

def view (P : PageSize) (prot : Nat → Prot) (cube : Cube) :
    PageGuard.State Nat Nat where
  pages ptr := (cube.sliceAt ptr).elim ∅ fun slice =>
    {page | slice.page.HasPage P page}
  domain := {page | page * P.bytes < cube.page.size}
  writable := {page | page * P.bytes < cube.page.size ∧
    prot (cube.pageAt P page) = .readWrite}
  links ptr := (cube.sliceAt ptr).elim 0 Slice.nlinks
  version ptr := (cube.sliceAt ptr).elim 0 Slice.version

end Cube

section Pages

variable {P : PageSize} {cube : Cube} {slice : Slice} {page : Nat}

theorem Cube.pageAt_mul (placed : cube.page.Placed P) :
    cube.pageAt P page * P.bytes = cube.page.addr + page * P.bytes := by
  rw [Cube.pageAt, Nat.add_mul, Nat.div_mul_cancel placed.aligned]

theorem hasPage_pageAt (placed : cube.page.Placed P) :
    cube.page.HasPage P (cube.pageAt P page) ↔
      page * P.bytes < cube.page.size := by
  rw [Block.HasPage, Cube.pageAt_mul placed]
  omega

/-- The start of the pages of a slice does not wrap. -/
theorem Slice.Fits.wadd_eq (fits : slice.Fits P cube.page.size)
    (placed : cube.page.Placed P) :
    wadd cube.page.addr slice.page.offset =
      cube.page.addr + slice.page.offset := by
  have inside := fits.inside
  have bound := placed.fits
  exact CoralApi.wadd_eq (by omega)

/-- The pages that `mprotect` changes for a slice are those of its span. -/
theorem protectPages_pageAt {prot : Prot} {p : Process}
    (placed : cube.page.Placed P) (fits : slice.Fits P cube.page.size) :
    (p.protectPages P (wadd cube.page.addr slice.page.offset) slice.page.size
        prot).prot (cube.pageAt P page) =
      if slice.page.HasPage P page then prot
      else p.prot (cube.pageAt P page) := by
  simp only [Process.protectPages, fits.wadd_eq placed,
    Cube.pageAt_mul placed]
  apply if_congr _ rfl rfl
  rw [Span.HasPage]
  omega

/-- The pages that `mprotect` changes for a slice lie in its block. -/
theorem protectPages_beside {prot : Prot} {p : Process} {number : Nat}
    (placed : cube.page.Placed P) (fits : slice.Fits P cube.page.size)
    (outside : ¬cube.page.HasPage P number) :
    (p.protectPages P (wadd cube.page.addr slice.page.offset) slice.page.size
        prot).prot number = p.prot number := by
  simp only [Process.protectPages, fits.wadd_eq placed]
  apply if_neg
  intro inside
  apply outside
  have bound := fits.inside
  constructor
  · omega
  · omega

/-- The faulting address lies in the pages of a slice exactly when its page
does. -/
theorem overPage_iff {addr : Nat} (placed : cube.page.Placed P)
    (fits : slice.Fits P cube.page.size) (above : cube.page.addr ≤ addr) :
    slice.overPage cube.page.addr addr = true ↔
      slice.page.HasPage P ((addr - cube.page.addr) / P.bytes) := by
  have start := fits.wadd_eq placed
  have inside := fits.inside
  have bound := placed.fits
  have finish : wadd (cube.page.addr + slice.page.offset) slice.page.size =
      cube.page.addr + slice.page.offset + slice.page.size :=
    CoralApi.wadd_eq (by omega)
  simp only [Slice.overPage, start, finish, Bool.and_eq_true,
    decide_eq_true_eq, Span.HasPage]
  have low := @PageSize.le_floor P slice.page.offset (addr - cube.page.addr)
    fits.base
  have high := @PageSize.floor_lt P (slice.page.offset + slice.page.size)
    (addr - cube.page.addr) (Nat.dvd_add fits.base fits.whole)
  rw [PageSize.floor] at low high
  omega

/-- The page of a byte of a slice is a page of the slice. -/
theorem Slice.Fits.hasPage {size index : Nat} (fits : slice.Fits P size)
    (above : slice.offset ≤ index)
    (below : index < slice.offset + slice.size) :
    slice.page.HasPage P (index / P.bytes) := by
  have start := fits.start
  have finish := fits.finish
  constructor
  · exact (PageSize.le_floor fits.base).mpr (by omega)
  · exact (PageSize.floor_lt (Nat.dvd_add fits.base fits.whole)).mpr (by omega)

theorem Cube.pageAt_div {addr : Nat} (placed : cube.page.Placed P)
    (above : cube.page.addr ≤ addr) :
    cube.pageAt P ((addr - cube.page.addr) / P.bytes) = addr / P.bytes := by
  obtain ⟨count, start⟩ := placed.aligned
  have split : addr = addr - cube.page.addr + P.bytes * count := by omega
  rw [Cube.pageAt, split, start, Nat.add_sub_cancel,
    Nat.add_mul_div_left _ _ P.bytes_pos, Nat.mul_div_cancel_left _ P.bytes_pos,
    Nat.add_comm]

end Pages

section View

variable {P : PageSize} {cube : Cube} {prot prot' : Nat → Prot}

theorem sliceAt_eq {slice : Slice} (distinct : (cube.slices.map Slice.ptr).Nodup)
    (inside : slice ∈ cube.slices) : cube.sliceAt slice.ptr = some slice :=
  Keyed.find?_eq distinct inside

theorem mem_of_sliceAt {slice : Slice} {ptr : Nat}
    (here : cube.sliceAt ptr = some slice) :
    slice ∈ cube.slices ∧ slice.ptr = ptr :=
  ⟨List.mem_of_find?_eq_some here, by simpa using List.find?_some here⟩

/-- A change of one slice shows at its pointer. -/
theorem sliceAt_modifySlice {ptr : Nat} {change : Slice → Slice}
    (same : ∀ slice, (change slice).ptr = slice.ptr) (other : Nat) :
    (cube.modifySlice ptr change).sliceAt other =
      (cube.sliceAt other).map fun slice =>
        if slice.ptr = ptr then change slice else slice := by
  simp only [Cube.sliceAt, Cube.modifySlice, List.find?_map]
  congr 2
  funext slice
  simp only [Function.comp_apply]
  split
  · rw [same]
  · rfl

/-- The view of a cube depends on the protection of its own pages. -/
theorem view_congr (placed : cube.page.Placed P)
    (agree : ∀ number, cube.page.HasPage P number → prot' number = prot number) :
    cube.view P prot' = cube.view P prot := by
  have writable : (cube.view P prot').writable = (cube.view P prot).writable := by
    ext page
    simp only [Cube.view, Set.mem_ofPred_eq, and_congr_right_iff]
    intro inside
    rw [agree _ ((hasPage_pageAt placed).mpr inside)]
  simp only [Cube.view] at writable ⊢
  rw [writable]

theorem mem_pages {ptr page : Nat} :
    page ∈ (cube.view P prot).pages ptr ↔
      ∃ slice, cube.sliceAt ptr = some slice ∧ slice.page.HasPage P page := by
  simp only [Cube.view]
  cases cube.sliceAt ptr with
  | none => simp
  | some slice => simp

theorem mem_pages_here {slice : Slice} {page : Nat}
    (here : cube.sliceAt slice.ptr = some slice) :
    page ∈ (cube.view P prot).pages slice.ptr ↔
      slice.page.HasPage P page := by
  simp [mem_pages, here]

theorem view_wellFormed (placed : cube.page.Placed P)
    (fits : ∀ slice ∈ cube.slices, slice.Fits P cube.page.size) :
    (cube.view P prot).WellFormed := by
  refine ⟨⟨0, ?_⟩, fun page inside => inside.1, ?_⟩
  · simpa [Cube.view] using placed.nonempty
  · intro ptr page member
    obtain ⟨slice, here, spans⟩ := mem_pages.mp member
    have bound := (fits slice (mem_of_sliceAt here).1).inside
    have reached := spans.2
    simp only [Cube.view, Set.mem_ofPred_eq]
    omega

/-- What a change leaves alone shows no difference. -/
theorem elim_modifySlice {α : Type} (field : Slice → α) (absent : α)
    {ptr : Nat} (change : Slice → Slice)
    (same : ∀ slice, (change slice).ptr = slice.ptr)
    (kept : ∀ slice, field (change slice) = field slice) (other : Nat) :
    ((cube.modifySlice ptr change).sliceAt other).elim absent field =
      (cube.sliceAt other).elim absent field := by
  rw [sliceAt_modifySlice same]
  cases cube.sliceAt other with
  | none => rfl
  | some slice =>
      simp only [Option.map_some, Option.elim_some]
      split
      · exact kept slice
      · rfl

/-- A change of a field shows at the pointer of the slice. -/
theorem elim_modifySlice_update {α : Type} (field : Slice → α) (absent : α)
    {slice : Slice} (change : Slice → Slice) (adjust : α → α)
    (same : ∀ slice, (change slice).ptr = slice.ptr)
    (moved : ∀ slice, field (change slice) = adjust (field slice))
    (here : cube.sliceAt slice.ptr = some slice) :
    (fun other => ((cube.modifySlice slice.ptr change).sliceAt other).elim
        absent field) =
      Function.update (fun other => (cube.sliceAt other).elim absent field)
        slice.ptr (adjust ((cube.sliceAt slice.ptr).elim absent field)) := by
  funext other
  rw [sliceAt_modifySlice same]
  by_cases equal : other = slice.ptr
  · subst equal
    simp [here, moved]
  · rw [Function.update_of_ne equal]
    cases found : cube.sliceAt other with
    | none => rfl
    | some slice' =>
        have named := (mem_of_sliceAt found).2
        simp only [Option.map_some, Option.elim_some]
        rw [if_neg (named ▸ equal)]

/-- The writable pages after `mprotect` on the pages of a slice. -/
theorem writable_protectPages {slice : Slice} {p : Process} {state : Prot}
    (placed : cube.page.Placed P) (fits : slice.Fits P cube.page.size)
    (page : Nat) :
    page ∈ (cube.view P (p.protectPages P
        (wadd cube.page.addr slice.page.offset) slice.page.size
        state).prot).writable ↔
      if slice.page.HasPage P page then state = .readWrite
      else page ∈ (cube.view P p.prot).writable := by
  simp only [Cube.view, Set.mem_ofPred_eq, protectPages_pageAt placed fits]
  by_cases spans : slice.page.HasPage P page
  · have bound := fits.inside
    have reached := spans.2
    have inside : page * P.bytes < cube.page.size := by omega
    rw [if_pos spans, if_pos spans]
    exact and_iff_right inside
  · rw [if_neg spans, if_neg spans]

/-- A change that keeps the names and places of the slices. -/
theorem pages_modifySlice (prot prot' : Nat → Prot) {ptr : Nat}
    (change : Slice → Slice)
    (same : ∀ slice, (change slice).ptr = slice.ptr)
    (page : ∀ slice, (change slice).page = slice.page) :
    ((cube.modifySlice ptr change).view P prot').pages =
      (cube.view P prot).pages := by
  funext other
  exact elim_modifySlice (fun slice => {page | slice.page.HasPage P page}) ∅
    change same (fun slice => by rw [page]) other

/-- `__attach` in the view. -/
theorem view_attach {slice : Slice} {p : Process}
    (placed : cube.page.Placed P) (fits : slice.Fits P cube.page.size)
    (here : cube.sliceAt slice.ptr = some slice) :
    ({ cube.modifySlice slice.ptr fun slice =>
          { slice with nlinks := slice.nlinks + 1 } with
        nlinks := cube.nlinks + 1 } : Cube).view P
          (p.protectPages P (wadd cube.page.addr slice.page.offset)
            slice.page.size .read).prot =
      (cube.view P p.prot).attach slice.ptr := by
  let change : Slice → Slice := fun slice =>
    { slice with nlinks := slice.nlinks + 1 }
  apply PageGuard.State.ext
  · exact pages_modifySlice p.prot _ change (fun _ => rfl) (fun _ => rfl)
  · rfl
  · ext page
    have spans := @mem_pages_here P cube p.prot slice page here
    refine (writable_protectPages placed fits page).trans ?_
    simp only [PageGuard.State.attach, Set.mem_sdiff, spans]
    by_cases inside : slice.page.HasPage P page
    · simp [inside]
    · simp [inside]
  · exact elim_modifySlice_update Slice.nlinks 0 change (· + 1) (fun _ => rfl)
      (fun _ => rfl) here
  · funext other
    exact elim_modifySlice Slice.version 0 change (fun _ => rfl)
      (fun _ => rfl) other

/-- `__detach` in the view. -/
theorem view_detach {slice : Slice}
    (here : cube.sliceAt slice.ptr = some slice) :
    ({ cube.modifySlice slice.ptr fun slice =>
          { slice with nlinks := slice.nlinks - 1 } with
        nlinks := cube.nlinks - 1 } : Cube).view P prot =
      (cube.view P prot).detach slice.ptr := by
  let change : Slice → Slice := fun slice =>
    { slice with nlinks := slice.nlinks - 1 }
  apply PageGuard.State.ext
  · exact pages_modifySlice prot prot change (fun _ => rfl) (fun _ => rfl)
  · rfl
  · rfl
  · exact elim_modifySlice_update Slice.nlinks 0 change (· - 1) (fun _ => rfl)
      (fun _ => rfl) here
  · funext other
    exact elim_modifySlice Slice.version 0 change (fun _ => rfl)
      (fun _ => rfl) other

/-- The cube after the versions of some slices have risen. -/
def Cube.bump (opened : List Slice) (cube : Cube) : Cube :=
  opened.foldl (fun cube slice =>
    cube.modifySlice slice.ptr fun slice =>
      { slice with version := slice.version + 1 }) cube

theorem Cube.bump_ptr (opened : List Slice) :
    (cube.bump opened).ptr = cube.ptr := by
  induction opened generalizing cube with
  | nil => rfl
  | cons slice opened induction => exact induction

theorem Cube.bump_names (opened : List Slice) :
    (cube.bump opened).names = cube.names := by
  induction opened generalizing cube with
  | nil => rfl
  | cons slice opened induction =>
      exact induction.trans (@names_modifySlice slice.ptr
        (fun slice => { slice with version := slice.version + 1 })
        (fun _ => rfl) cube)

theorem Cube.bump_page (opened : List Slice) :
    (cube.bump opened).page = cube.page := by
  induction opened generalizing cube with
  | nil => rfl
  | cons slice opened induction => exact induction

/-- One slice that a fault opens, in the view. -/
theorem view_openSlice {slice : Slice} {p : Process}
    (placed : cube.page.Placed P) (fits : slice.Fits P cube.page.size)
    (here : cube.sliceAt slice.ptr = some slice) :
    (cube.bump [slice]).view P (p.openSlice P cube slice).prot =
      (cube.view P p.prot).openRegions {slice.ptr} := by
  let change : Slice → Slice := fun slice =>
    { slice with version := slice.version + 1 }
  apply PageGuard.State.ext
  · exact pages_modifySlice p.prot _ change (fun _ => rfl) (fun _ => rfl)
  · rfl
  · ext page
    have spans := @mem_pages_here P cube p.prot slice page here
    refine (writable_protectPages placed fits page).trans ?_
    simp only [PageGuard.State.openRegions, PageGuard.State.reach,
      Set.mem_singleton_iff, Set.iUnion_iUnion_eq_left, Set.mem_union, spans]
    by_cases inside : slice.page.HasPage P page
    · simp [inside]
    · simp [inside]
  · funext other
    exact elim_modifySlice Slice.nlinks 0 change (fun _ => rfl)
      (fun _ => rfl) other
  · refine (elim_modifySlice_update Slice.version 0 change (· + 1)
      (fun _ => rfl) (fun _ => rfl) here).trans ?_
    funext other
    by_cases same : other = slice.ptr
    · subst same
      simp [PageGuard.State.openRegions, Cube.view]
    · simp [PageGuard.State.openRegions, Cube.view, same]

/-- A fault in the view. -/
theorem view_openSlices {opened : List Slice} {p : Process}
    (placed : cube.page.Placed P)
    (fits : ∀ slice ∈ opened, slice.Fits P cube.page.size)
    (here : ∀ slice ∈ opened, cube.sliceAt slice.ptr = some slice)
    (distinct : (opened.map Slice.ptr).Nodup) :
    (cube.bump opened).view P (p.openSlices P cube opened).prot =
      (cube.view P p.prot).openRegions {ptr | ptr ∈ opened.map Slice.ptr} := by
  induction opened generalizing cube p with
  | nil => simp [Cube.bump, Process.openSlices]
  | cons slice opened induction =>
      rw [List.map_cons, List.nodup_cons] at distinct
      have first := view_openSlice (p := p) placed
        (fits slice List.mem_cons_self) (here slice List.mem_cons_self)
      have rest := @induction (cube.bump [slice]) (p.openSlice P cube slice)
        placed (fun other member => fits other (List.mem_cons_of_mem _ member))
        ?_ distinct.2
      · rw [first, PageGuard.State.openRegions_insert (by
          simpa using distinct.1)] at rest
        refine Eq.trans rest ?_
        congr 1
        ext ptr
        simp
      · intro other member
        have different : other.ptr ≠ slice.ptr := by
          intro same
          exact distinct.1 (same ▸ List.mem_map_of_mem member)
        have shown := @sliceAt_modifySlice cube slice.ptr
          (fun slice => { slice with version := slice.version + 1 })
          (fun _ => rfl) other.ptr
        rw [here other (List.mem_cons_of_mem _ member), Option.map_some,
          if_neg different] at shown
        exact shown

/-- A new slice in the view. -/
theorem view_addSlice {slice : Slice} (unknown : cube.sliceAt slice.ptr = none)
    (nlinks : slice.nlinks = 0) (version : slice.version = 0) :
    ({ cube with slices := cube.slices ++ [slice] } : Cube).view P prot =
      (cube.view P prot).watch slice.ptr {page | slice.page.HasPage P page} := by
  have known : ∀ other, other ≠ slice.ptr →
      ({ cube with slices := cube.slices ++ [slice] } : Cube).sliceAt other =
        cube.sliceAt other := by
    intro other different
    simp [Cube.sliceAt, List.find?_append, different.symm]
  have new : ({ cube with slices := cube.slices ++ [slice] } : Cube).sliceAt
      slice.ptr = some slice := by
    have missed : cube.slices.find? (fun other => other.ptr == slice.ptr) =
      none := unknown
    simp [Cube.sliceAt, List.find?_append, missed]
  apply PageGuard.State.ext
  · funext other
    by_cases same : other = slice.ptr
    · subst same
      simp [Cube.view, PageGuard.State.watch, new]
    · simp [Cube.view, PageGuard.State.watch, known other same, same]
  · rfl
  · rfl
  · funext other
    by_cases same : other = slice.ptr
    · subst same
      simp [Cube.view, PageGuard.State.watch, new, unknown, nlinks]
    · simp [Cube.view, PageGuard.State.watch, known other same]
  · funext other
    by_cases same : other = slice.ptr
    · subst same
      simp [Cube.view, PageGuard.State.watch, new, unknown, version]
    · simp [Cube.view, PageGuard.State.watch, known other same]

theorem uniformProt_eq {p : Process} {state : Prot}
    (placed : cube.page.Placed P)
    (uniform : p.uniformProt P cube.page = some state) {page : Nat}
    (inside : page * P.bytes < cube.page.size) :
    p.prot (cube.pageAt P page) = state := by
  simp only [Process.uniformProt] at uniform
  split at uniform
  · rename_i same
    have count : page < cube.page.size / P.bytes := by
      rw [← Nat.mul_div_cancel page P.bytes_pos]
      exact Nat.div_lt_div_of_lt_of_dvd placed.whole inside
    have here := List.all_eq_true.mp same page (List.mem_range.mpr count)
    cases uniform
    simpa [Cube.pageAt] using here
  · cases uniform

/-- The pages that a block gains. -/
def Cube.gained (P : PageSize) (cube : Cube) (page : Block) : Set Nat :=
  {number | cube.page.size ≤ number * P.bytes ∧ number * P.bytes < page.size}

theorem protectPages_moved {p : Process} {page : Block} {state : Prot}
    (placed : page.Placed P) {number : Nat}
    (inside : number * P.bytes < page.size) :
    (p.moveCube P cube page state).prot
      (({ cube with page := page } : Cube).pageAt P number) = state := by
  have same := @Cube.pageAt_mul P { cube with page := page } number placed
  simp only [Process.moveCube, Process.modifyCube, Process.remapBlock,
    Process.protectPages, same]
  apply if_pos
  omega

/-- A block whose pages are writable grows by writable pages, any other by
protected ones. -/
theorem view_moveCube {p : Process} {page : Block} {state : Prot}
    (placed : cube.page.Placed P) (moved : page.Placed P)
    (longer : cube.page.size < page.size)
    (uniform : p.uniformProt P cube.page = some state) :
    ({ cube with page := page } : Cube).view P
        (p.moveCube P cube page state).prot =
      (cube.view P p.prot).grow (cube.gained P page)
        (if state = .readWrite then cube.gained P page else ∅) := by
  have before : ∀ number, number * P.bytes < cube.page.size →
      p.prot (cube.pageAt P number) = state := fun number inside =>
    uniformProt_eq placed uniform inside
  have after : ∀ number, number * P.bytes < page.size →
      (p.moveCube P cube page state).prot
        (({ cube with page := page } : Cube).pageAt P number) = state :=
    fun number inside => protectPages_moved moved inside
  apply PageGuard.State.ext
  · rfl
  · ext number
    simp only [Cube.view, PageGuard.State.grow, Cube.gained, Set.mem_union,
      Set.mem_ofPred_eq]
    omega
  · ext number
    have shown : number ∈ (({ cube with page := page } : Cube).view P
        (p.moveCube P cube page state).prot).writable ↔
          number * P.bytes < page.size ∧ state = .readWrite :=
      and_congr_right fun inside => by rw [after number inside]
    have shownBefore : number ∈ (cube.view P p.prot).writable ↔
        number * P.bytes < cube.page.size ∧ state = .readWrite :=
      and_congr_right fun inside => by rw [before number inside]
    rw [shown, PageGuard.State.grow, Set.mem_union, shownBefore]
    by_cases open_ : state = .readWrite
    · simp only [open_, and_true, if_true, Cube.gained, Set.mem_ofPred_eq]
      omega
    · simp [open_]
  · rfl
  · rfl

end View

/-- The slices of a cube that are opened. -/
def Effect.opened (cube : Cube) : Effect → Set Nat
  | .opens faulted slices =>
      {ptr | faulted = cube ∧ ptr ∈ slices.map Slice.ptr}
  | _ => ∅

/-- If the cube grows, it grows by writable pages. -/
def Effect.GrowsWritable (cube : Cube) : Effect → Prop
  | .grows moved prot => moved = cube → prot = .readWrite
  | _ => True

/-- What a step does in the view of a cube. -/
structure Follows (P : PageSize) (p p' : Process) (effect : Effect)
    (cube cube' : Cube) (label : PageGuard.Label Nat Nat) : Prop where
  ptr : cube'.ptr = cube.ptr
  step : PageGuard.Step (cube.view P p.prot) label (cube'.view P p'.prot)
  opened : label.opened = effect.opened cube
  grows : (cube.view P p.prot).GrowsWritable label ↔ effect.GrowsWritable cube
  adds : ∀ added, label = .grow added → added.Nonempty
  fresh : ∀ ptr, label = .watch ptr → p.nextPtr ≤ ptr
  known : ∀ ptr ∈ cube'.slices.map Slice.ptr,
    ptr ∈ cube.slices.map Slice.ptr ∨ p.nextPtr ≤ ptr

/-- A cube that has no slices yet and is writable as a whole. -/
structure Cube.Blank (P : PageSize) (p : Process) (prot : Nat → Prot)
    (cube : Cube) : Prop where
  fresh : p.nextPtr ≤ cube.ptr
  empty : cube.slices = []
  writable : (cube.view P prot).domain ⊆ (cube.view P prot).writable

section Simulation

variable {P : PageSize} {p p' : Process} {cube cube' : Cube} {effect : Effect}

/-- A cube that a step leaves alone. -/
theorem Follows.idle (opened : effect.opened cube = ∅)
    (grows : effect.GrowsWritable cube)
    (same : cube.view P p'.prot = cube.view P p.prot) :
    Follows P p p' effect cube cube .idle where
  ptr := rfl
  step := by
    rw [same]
    exact .idle
  opened := opened.symm
  grows := iff_of_true trivial grows
  adds := fun _ impossible => by cases impossible
  fresh := fun _ impossible => by cases impossible
  known := fun _ inside => .inl inside

/-- The pointers of the slices after a change that keeps the names. -/
theorem known_of_names (ptr : cube'.ptr = cube.ptr)
    (names : cube'.names = cube.names) :
    ∀ ptr ∈ cube'.slices.map Slice.ptr,
      ptr ∈ cube.slices.map Slice.ptr ∨ p.nextPtr ≤ ptr := by
  rw [Cube.names, Cube.names, ptr] at names
  rw [List.tail_eq_of_cons_eq names]
  exact fun _ inside => .inl inside

/-- Every cube after a step follows a cube before it, or is blank. -/
def Simulates (P : PageSize) (p p' : Process) (effect : Effect) : Prop :=
  ∀ cube' ∈ p'.cubes, cube'.Blank P p p'.prot ∨
    ∃ cube ∈ p.cubes, ∃ label, Follows P p p' effect cube cube' label

theorem Simulates.congr {q : Process} (simulates : Simulates P p q effect)
    (cubes : p'.cubes = q.cubes) (prot : p'.prot = q.prot) :
    Simulates P p p' effect := by
  intro cube' member
  rw [cubes] at member
  rw [prot]
  rcases simulates cube' member with blank | ⟨cube, member, label, follows⟩
  · exact .inl blank
  · refine .inr ⟨cube, member, label, ?_⟩
    exact { follows with step := prot ▸ follows.step }

theorem Simulates.agrees {q : Process} (simulates : Simulates P p q effect)
    (agrees : q.Agrees p') : Simulates P p p' effect :=
  simulates.congr agrees.cubes agrees.prot

/-- Pages of other cubes are not pages of this cube. -/
theorem prot_beside (wellFormed : p.WellFormed P) (member : cube ∈ p.cubes)
    {other : Cube} (also : other ∈ p.cubes) (different : other ≠ cube)
    {number : Nat} (inside : other.page.HasPage P number) :
    ¬cube.page.HasPage P number :=
  (wellFormed.apart other also cube member different).not_hasPage inside

/-- A change of one cube, and of no page of another, is simulated. -/
theorem simulates_of_change {change : Cube → Cube}
    (wellFormed : p.WellFormed P) (member : cube ∈ p.cubes)
    (cubes : p'.cubes = p.cubes.map fun other =>
      if other.ptr = cube.ptr then change other else other)
    (changed : ∃ label, Follows P p p' effect cube (change cube) label)
    (opened : ∀ other, other ≠ cube → effect.opened other = ∅)
    (grows : ∀ other, other ≠ cube → effect.GrowsWritable other)
    (beside : ∀ other ∈ p.cubes, other ≠ cube → ∀ number,
      other.page.HasPage P number → p'.prot number = p.prot number) :
    Simulates P p p' effect := by
  intro cube' member'
  rw [cubes] at member'
  right
  rcases Process.mem_modifyCube wellFormed.named member member' with
    rfl | ⟨old, different⟩
  · exact ⟨cube, member, changed⟩
  · have unlike : cube' ≠ cube := fun same => different (congrArg Cube.ptr same)
    exact ⟨cube', old, .idle,
      .idle (opened cube' unlike) (grows cube' unlike)
        (view_congr (wellFormed.placed cube' old) (beside cube' old unlike))⟩

/-- Registered cubes that a step keeps as they are. -/
theorem simulates_of_kept (wellFormed : p.WellFormed P)
    (cubes : ∀ cube' ∈ p'.cubes, cube' ∈ p.cubes ∧ ∀ number,
      cube'.page.HasPage P number → p'.prot number = p.prot number) :
    Simulates P p p' .other := by
  intro cube' member'
  obtain ⟨member, same⟩ := cubes cube' member'
  exact .inr ⟨cube', member, .idle,
    .idle rfl trivial (view_congr (wellFormed.placed cube' member) same)⟩

theorem simulates_attach {slice : Slice} (wellFormed : p.WellFormed P)
    (member : cube ∈ p.cubes) (inside : slice ∈ cube.slices) :
    Simulates P p (Process.link cube.ptr slice.ptr
      (p.protectPages P (wadd cube.page.addr slice.page.offset)
        slice.page.size .read)) .other := by
  have placed := wellFormed.placed cube member
  have fits := wellFormed.slices cube member slice inside
  have here := sliceAt_eq (wellFormed.named.slices_distinct
    (List.mem_append_left _ member)) inside
  apply simulates_of_change wellFormed member rfl
  · refine ⟨.attach slice.ptr, rfl, ?_, rfl, Iff.rfl, ?_, ?_, ?_⟩
    · exact (view_attach placed fits here) ▸ .attach
    · exact fun _ impossible => by cases impossible
    · exact fun _ impossible => by cases impossible
    · exact known_of_names rfl (@names_modifySlice slice.ptr
        (fun slice => { slice with nlinks := slice.nlinks + 1 })
        (fun _ => rfl) cube)
  · exact fun _ _ => rfl
  · exact fun _ _ => trivial
  · exact fun other also different number page =>
      protectPages_beside placed fits
        (prot_beside wellFormed member also different page)

theorem simulates_unlinkSlice {slice : Slice} (wellFormed : p.WellFormed P)
    (member : cube ∈ p.live) (inside : slice ∈ cube.slices) :
    Simulates P p (p.unlinkSlice cube.ptr slice.ptr) .other := by
  have here := sliceAt_eq (wellFormed.named.slices_distinct member) inside
  by_cases registered : cube ∈ p.cubes
  · apply simulates_of_change wellFormed registered rfl
    · refine ⟨.detach slice.ptr, rfl, ?_, rfl, Iff.rfl, ?_, ?_, ?_⟩
      · exact (view_detach here) ▸ .detach
      · exact fun _ impossible => by cases impossible
      · exact fun _ impossible => by cases impossible
      · exact known_of_names rfl (@names_modifySlice slice.ptr
          (fun slice => { slice with nlinks := slice.nlinks - 1 })
          (fun _ => rfl) cube)
    · exact fun _ _ => rfl
    · exact fun _ _ => trivial
    · exact fun _ _ _ _ _ => rfl
  · apply simulates_of_kept wellFormed
    intro cube' member'
    obtain ⟨other, also, rfl⟩ := List.mem_map.mp member'
    have different : other.ptr ≠ cube.ptr := by
      intro same
      have equal := wellFormed.named.same_cube
        (List.mem_append_left _ also) member same
      exact registered (equal ▸ also)
    rw [if_neg different]
    exact ⟨also, fun _ _ => rfl⟩

theorem openSlices_cubes (opened : List Slice) :
    (p.openSlices P cube opened).cubes = p.cubes.map fun other =>
      if other.ptr = cube.ptr then other.bump opened else other := by
  induction opened generalizing p with
  | nil => simp [Process.openSlices, Cube.bump]
  | cons slice opened induction =>
      refine (@induction (p.openSlice P cube slice)).trans ?_
      simp only [Process.openSlice, Process.modifyCube, Process.protectPages,
        List.map_map]
      congr 1
      funext other
      simp only [Function.comp_apply]
      by_cases same : other.ptr = cube.ptr
      · rw [if_pos same, if_pos (show (other.modifySlice _ _).ptr = _ from
          same), if_pos same]
        rfl
      · rw [if_neg same, if_neg same, if_neg same]

theorem openSlices_beside {opened : List Slice} {number : Nat}
    (placed : cube.page.Placed P)
    (fits : ∀ slice ∈ opened, slice.Fits P cube.page.size)
    (outside : ¬cube.page.HasPage P number) :
    (p.openSlices P cube opened).prot number = p.prot number := by
  induction opened generalizing p with
  | nil => rfl
  | cons slice opened induction =>
      refine (@induction (p.openSlice P cube slice) fun other member =>
        fits other (List.mem_cons_of_mem _ member)).trans ?_
      exact protectPages_beside placed (fits slice List.mem_cons_self) outside

theorem simulates_openSlices {addr : Nat} {opened : List Slice}
    (wellFormed : p.WellFormed P) (member : cube ∈ p.cubes)
    (contains : cube.contains addr = true)
    (idle : ∀ slice ∈ cube.slices,
      slice.overPage cube.page.addr addr = true → slice.nlinks = 0)
    (known : opened.Sublist cube.slices)
    (spans : ∀ slice ∈ opened, slice.overPage cube.page.addr addr = true) :
    Simulates P p (p.openSlices P cube opened) (.opens cube opened) := by
  have placed := wellFormed.placed cube member
  have fits := wellFormed.slices cube member
  have distinct := wellFormed.named.slices_distinct
    (List.mem_append_left _ member)
  have above : cube.page.addr ≤ addr := by
    simp only [Cube.contains, Bool.and_eq_true, decide_eq_true_eq] at contains
    exact contains.1
  let page := (addr - cube.page.addr) / P.bytes
  have overPage : ∀ slice ∈ cube.slices,
      (slice.overPage cube.page.addr addr = true ↔
        slice.page.HasPage P page) := fun slice inside =>
    overPage_iff placed (fits slice inside) above
  apply simulates_of_change wellFormed member (openSlices_cubes opened)
  · refine ⟨.fault page {ptr | ptr ∈ opened.map Slice.ptr},
      Cube.bump_ptr opened, ?_, ?_, Iff.rfl, ?_, ?_,
      known_of_names (Cube.bump_ptr opened) (Cube.bump_names opened)⟩
    · have view := view_openSlices (p := p) placed
        (fun slice inside => fits slice (known.subset inside))
        (fun slice inside => sliceAt_eq distinct (known.subset inside))
        ((known.map Slice.ptr).nodup distinct)
      rw [view]
      apply PageGuard.Step.fault
      · intro ptr raised
        obtain ⟨slice, inside, rfl⟩ := List.mem_map.mp raised
        have member := known.subset inside
        exact mem_pages.mpr ⟨slice, sliceAt_eq distinct member,
          (overPage slice member).mp (spans slice inside)⟩
      · intro ptr covered
        obtain ⟨slice, here, covers⟩ := mem_pages.mp covered
        have inside := (mem_of_sliceAt here).1
        have unlinked := idle slice inside ((overPage slice inside).mpr covers)
        simp [Cube.view, here, unlinked]
    · simp [Effect.opened, PageGuard.Label.opened]
    · exact fun _ impossible => by cases impossible
    · exact fun _ impossible => by cases impossible
  · intro other different
    simp [Effect.opened, different.symm]
  · exact fun _ _ => trivial
  · exact fun other also different number page =>
      openSlices_beside placed (fun slice inside =>
        fits slice (known.subset inside))
        (prot_beside wellFormed member also different page)

theorem simulates_addSlice {slice : Slice} (wellFormed : p.WellFormed P)
    (member : cube ∈ p.cubes) (fresh : p.nextPtr ≤ slice.ptr)
    (nlinks : slice.nlinks = 0) (version : slice.version = 0) :
    Simulates P p (p.addSlice cube.ptr slice) .other := by
  have unknown : cube.sliceAt slice.ptr = none := by
    cases found : cube.sliceAt slice.ptr with
    | none => rfl
    | some other =>
        obtain ⟨inside, same⟩ := mem_of_sliceAt found
        have taken := wellFormed.named.fresh other.ptr
          (Process.Named.slice_mem (List.mem_append_left _ member) inside)
        omega
  apply simulates_of_change wellFormed member rfl
  · refine ⟨.watch slice.ptr, rfl, ?_, rfl, Iff.rfl, ?_, ?_, ?_⟩
    · rw [view_addSlice unknown nlinks version]
      apply PageGuard.Step.watch
      · simp [Cube.view, unknown]
      · simp [Cube.view, unknown]
      · simp [Cube.view, unknown]
    · exact fun _ impossible => by cases impossible
    · rintro ptr ⟨⟩
      exact fresh
    · intro ptr inside
      rw [List.map_append, List.mem_append] at inside
      rcases inside with old | new
      · exact .inl old
      · rw [List.mem_singleton.mp new]
        exact .inr fresh
  · exact fun _ _ => rfl
  · exact fun _ _ => trivial
  · exact fun _ _ _ _ _ => rfl

theorem simulates_moveCube {page : Block} {state : Prot}
    (wellFormed : p.WellFormed P) (member : cube ∈ p.cubes)
    (longer : cube.page.size < page.size) (whole : P.bytes ∣ page.size)
    (uniform : p.uniformProt P cube.page = some state)
    (admits : Process.Admits P page
      (p.maps.filter fun mapping => mapping.block ≠ cube.page)) :
    Simulates P p (p.moveCube P cube page state) (.grows cube state) := by
  have placed := wellFormed.placed cube member
  obtain ⟨positive, nonempty, aligned, fits, separate⟩ := admits
  have moved : page.Placed P := ⟨positive, nonempty, aligned, whole, fits⟩
  have shown : ∀ number, number ∈ (cube.view P p.prot).writable ↔
      number * P.bytes < cube.page.size ∧ state = .readWrite := fun number =>
    and_congr_right fun inside => by
      rw [uniformProt_eq placed uniform inside]
  have view := view_moveCube placed moved longer uniform
  have new : Disjoint (cube.gained P page) (cube.view P p.prot).domain := by
    rw [Set.disjoint_left]
    intro number gained inside
    exact absurd inside (Nat.not_lt.mpr gained.1)
  have nonempty : (cube.view P p.prot).domain.Nonempty :=
    (view_wellFormed placed (wellFormed.slices cube member)).domain
  apply simulates_of_change wellFormed member rfl
  · refine ⟨.grow (cube.gained P page), rfl, ?_, rfl, ?_, ?_, ?_,
      fun _ inside => .inl inside⟩
    · rw [view]
      by_cases writable : state = .readWrite
      · rw [if_pos writable]
        apply PageGuard.Step.growWritable new
        exact fun number inside => (shown number).mpr ⟨inside, writable⟩
      · rw [if_neg writable]
        apply PageGuard.Step.growProtected new
        rw [Set.disjoint_left]
        exact fun number inside open_ =>
          writable ((shown number).mp open_).2
    · simp only [PageGuard.State.GrowsWritable, Effect.GrowsWritable,
        forall_const, Set.not_disjoint_iff]
      constructor
      · rintro ⟨number, -, open_⟩
        exact ((shown number).mp open_).2
      · intro writable
        obtain ⟨number, inside⟩ := nonempty
        exact ⟨number, inside, (shown number).mpr ⟨inside, writable⟩⟩
    · rintro added ⟨⟩
      refine ⟨cube.page.size / P.bytes, ?_, ?_⟩
      · rw [Nat.div_mul_cancel placed.whole]
      · rw [Nat.div_mul_cancel placed.whole]
        exact longer
    · exact fun _ impossible => by cases impossible
  · exact fun _ _ => rfl
  · exact fun other different same => (different same.symm).elim
  · intro other also different number inside
    have apart : other.page.Disjoint page := by
      obtain ⟨mapping, here, block⟩ := wellFormed.mapped other also
      rw [← block]
      apply separate mapping
      refine List.mem_filter.mpr ⟨here, ?_⟩
      have disjoint := wellFormed.apart other also cube member different
      simpa [block] using disjoint.ne placed.nonempty
    have outside := apart.not_hasPage inside
    simp only [Process.moveCube, Process.modifyCube, Process.remapBlock,
      Process.protectPages]
    exact if_neg outside

theorem simulates_addCube (wellFormed : p.WellFormed P)
    (empty : cube.slices = []) (whole : P.bytes ∣ cube.page.size)
    (admits : Process.Admits P cube.page p.maps)
    (fresh : p.nextPtr ≤ cube.ptr) :
    Simulates P p (p.addCube P cube) .other := by
  obtain ⟨positive, nonempty, aligned, fits, separate⟩ := admits
  have placed : cube.page.Placed P :=
    ⟨positive, nonempty, aligned, whole, fits⟩
  intro cube' member'
  rcases List.mem_append.mp member' with old | new
  · refine .inr ⟨cube', old, .idle, .idle rfl trivial ?_⟩
    apply view_congr (wellFormed.placed cube' old)
    intro number inside
    obtain ⟨mapping, here, block⟩ := wellFormed.mapped cube' old
    have apart := block ▸ separate mapping here
    exact if_neg (apart.not_hasPage inside)
  · rw [List.mem_singleton.mp new]
    refine .inl ⟨fresh, empty, fun number inside => ⟨inside, ?_⟩⟩
    exact if_pos ((hasPage_pageAt placed).mpr inside)

/-- Every step is simulated in the view of every registered cube. -/
theorem Deed.simulates {event : Event} (deed : Deed P p event effect p')
    (allowed : event.op.Allowed p) (wellFormed : p.WellFormed P) :
    Simulates P p p' effect := by
  have kept : Simulates P p p .other :=
    simulates_of_kept wellFormed fun cube' member => ⟨member, fun _ _ => rfl⟩
  cases deed with
  | agrees agrees => exact kept.agrees agrees
  | beside pid cubes orphans nextPtr maps mapped prot =>
      apply simulates_of_kept wellFormed
      rw [cubes]
      intro cube' member
      obtain ⟨mapping, inside, block⟩ := wellFormed.mapped cube' member
      exact ⟨member, fun number page => prot mapping inside number
        (block ▸ page)⟩
  | alloc empty own whole admits fresh made agrees =>
      exact (simulates_addCube wellFormed empty whole admits fresh).agrees
        agrees
  | @free cube addr maps p' frees member base unmapped agrees =>
      refine Simulates.agrees ?_ agrees
      apply simulates_of_kept wellFormed
      intro cube' member'
      refine ⟨(Process.mem_freeCube member').1, fun number _ => ?_⟩
      rw [Process.prot_freeCube]
  | grow member own longer whole uniform admits agrees =>
      exact (simulates_moveCube wellFormed member longer whole uniform
        admits).agrees agrees
  | slice slices member own contains fresh agrees =>
      exact (simulates_addSlice wellFormed member fresh rfl rfl).agrees agrees
  | @attach cube slice p' attaches live own inside agrees =>
      -- the slice that a step attaches is in a registered cube
      rw [attaches] at allowed
      obtain ⟨other, member, slice', inside', same⟩ := allowed
      have here := wellFormed.named.findSlice_eq (List.mem_append_left _ member)
        inside'
      have there := wellFormed.named.findSlice_eq live inside
      rw [same, there] at here
      cases here
      exact (simulates_attach wellFormed member inside).agrees agrees
  | @detach cube slice p' detaches member own inside agrees =>
      have lowered := simulates_unlinkSlice wellFormed member inside
      rcases agrees with linked | released
      · exact lowered.agrees linked
      · exact lowered.congr released.cubes released.prot
  | fault member own contains idle known spans agrees =>
      exact (simulates_openSlices wellFormed member contains idle known
        spans).agrees agrees

/-- The cube of a fault or of a move is still there after it. -/
theorem Deed.follows {event : Event} (deed : Deed P p event effect p')
    (allowed : event.op.Allowed p) (wellFormed : p.WellFormed P)
    (touches : (∃ slices, effect = .opens cube slices) ∨
      ∃ prot, effect = .grows cube prot) :
    cube ∈ p.cubes ∧ ∃ cube' ∈ p'.cubes, ∃ label,
      Follows P p p' effect cube cube' label := by
  have stays : cube ∈ p.cubes ∧ ∃ cube' ∈ p'.cubes, cube'.ptr = cube.ptr := by
    rcases touches with ⟨slices, rfl⟩ | ⟨prot, rfl⟩
    · cases deed with
      | fault member own contains idle known spans agrees =>
          rw [agrees.cubes, openSlices_cubes]
          refine ⟨member, _, List.mem_map_of_mem member, ?_⟩
          rw [if_pos rfl, Cube.bump_ptr]
    · cases deed with
      | @grow cube page prot p' member own longer whole uniform admits agrees =>
          rw [agrees.cubes]
          refine ⟨member, { cube with page := page }, ?_, rfl⟩
          refine List.mem_map.mpr ⟨cube, member, ?_⟩
          rw [if_pos rfl]
  obtain ⟨member, cube', member', same⟩ := stays
  refine ⟨member, cube', member', ?_⟩
  rcases deed.simulates allowed wellFormed cube' member' with
    blank | ⟨other, also, label, follows⟩
  · have taken := wellFormed.named.fresh cube.ptr
      (Process.Named.ptr_mem (List.mem_append_left _ member))
    have fresh := blank.fresh
    omega
  · have equal := wellFormed.named.same_cube (List.mem_append_left _ also)
      (List.mem_append_left _ member) (follows.ptr.symm.trans same)
    exact ⟨label, equal ▸ follows⟩

theorem Effect.opened_self (cube : Cube) (slices : List Slice) :
    (Effect.opens cube slices).opened cube =
      {ptr | ptr ∈ slices.map Slice.ptr} := by
  simp [Effect.opened]

theorem Effect.opened_other {other : Cube} (different : cube ≠ other)
    (slices : List Slice) : (Effect.opens cube slices).opened other = ∅ := by
  simp [Effect.opened, different]

/-- The slices that a step opens belong to the cube of the fault. -/
theorem Deed.opened {event : Event} {slices : List Slice}
    (deed : Deed P p event (.opens cube slices) p') :
    slices ⊆ cube.slices := by
  cases deed with
  | fault member own contains idle known spans agrees => exact known.subset

/-- Spans without a common page. -/
def Span.Apart (P : PageSize) (left right : Span) : Prop :=
  ∀ page, left.HasPage P page → ¬right.HasPage P page

/-- A span has finitely many pages. -/
theorem Span.forall_iff {span : Span} {good : Nat → Prop} :
    (∀ page, span.HasPage P page → good page) ↔
      ∀ page < (span.offset + span.size) / P.bytes + 1,
        span.HasPage P page → good page := by
  constructor
  · exact fun all page _ => all page
  · intro bounded page inside
    apply bounded page _ inside
    have reached := Nat.le_of_lt inside.2
    have count := (Nat.le_div_iff_mul_le P.bytes_pos).mpr reached
    omega

instance (span : Span) (good : Nat → Prop) [DecidablePred good] :
    Decidable (∀ page, span.HasPage P page → good page) :=
  decidable_of_iff _ Span.forall_iff.symm

instance (left right : Span) : Decidable (left.Apart P right) :=
  inferInstanceAs (Decidable (∀ page, left.HasPage P page →
    ¬right.HasPage P page))

/-- The pages that are reached by opening some slices of a cube. -/
theorem apart_reach {prot : Nat → Prot} {slice : Slice} {slices : List Slice}
    (distinct : (cube.slices.map Slice.ptr).Nodup)
    (known : slices ⊆ cube.slices) (inside : slice ∈ cube.slices) :
    Disjoint ((cube.view P prot).pages slice.ptr)
        ((cube.view P prot).reach {ptr | ptr ∈ slices.map Slice.ptr}) ↔
      ∀ opened ∈ slices, slice.page.Apart P opened.page := by
  have here := sliceAt_eq distinct inside
  rw [Set.disjoint_left]
  constructor
  · intro disjoint opened raised page covered reached
    apply disjoint (mem_pages.mpr ⟨slice, here, covered⟩)
    exact Set.mem_biUnion (List.mem_map_of_mem raised) (mem_pages.mpr
      ⟨opened, sliceAt_eq distinct (known raised), reached⟩)
  · intro apart page covered reached
    obtain ⟨slice', same, covers⟩ := mem_pages.mp covered
    cases here.symm.trans same
    obtain ⟨ptr, raised, spans⟩ := Set.mem_iUnion₂.mp reached
    obtain ⟨opened, inside', rfl⟩ := List.mem_map.mp raised
    obtain ⟨opened', same', covers'⟩ := mem_pages.mp spans
    cases (sliceAt_eq distinct (known inside')).symm.trans same'
    exact apart opened inside' page covers covers'

end Simulation

/-- Every step keeps the layout. -/
theorem Step.wellFormed {P : PageSize} {p p' : Process} {event : Event}
    (step : Step P p event p') (wellFormed : p.WellFormed P) :
    p'.WellFormed P := by
  have deed := step.deed
  obtain ⟨pid, cubes, -⟩ := deed.descends
  refine ⟨deed.laid step.1.sized wellFormed.laid, fun cube' member => ?_⟩
  rw [pid]
  rcases cubes cube' member with ⟨cube, member, same⟩ | new
  · rw [same.pid]
    exact wellFormed.own cube member
  · exact new.1

end CoralApi
