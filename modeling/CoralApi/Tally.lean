import CoralApi.Delivery
import CoralApi.Ledger

/-!
# Attached slices and the cubes that hold them

The processes of a tree attach and detach in any order.  As long as every
detach finds a link of its slice, no call destroys a cube with an attached
slice, and the slice keeps its place.
-/

namespace CoralApi

open Program Transition

/-- The cube counts the links of its slices, less what it owes. -/
structure Cube.Tallied (owed : Int) (cube : Cube) : Prop where
  nonneg : ∀ slice ∈ cube.slices, 0 ≤ slice.nlinks
  nlinks : cube.nlinks = cube.total - owed

/-- `inaccel_free` takes one from the count of a cube. -/
structure Process.Tallied (p : Process) : Prop where
  registered : ∀ cube ∈ p.cubes, cube.Tallied 0
  orphaned : ∀ cube ∈ p.orphans, cube.Tallied 1

/-- A detach finds a link of its slice. -/
def Event.Paired (p : Process) (event : Event) : Prop :=
  match event.op with
  | .detach ptr => ∀ cube slice, p.findSlice ptr = some (cube, slice) →
      0 < slice.nlinks
  | _ => True

section Cubes

variable {cube cube' : Cube} {slice : Slice} {owed more : Int}

theorem Cube.Tallied.le_total (tallied : cube.Tallied owed)
    (inside : slice ∈ cube.slices) : slice.nlinks ≤ cube.total := by
  apply List.single_le_sum _ _ (List.mem_map_of_mem inside)
  intro links member
  obtain ⟨other, also, rfl⟩ := List.mem_map.mp member
  exact tallied.nonneg other also

theorem Cube.Tallied.used (tallied : cube.Tallied owed)
    (inside : slice ∈ cube.slices) (linked : 0 < slice.nlinks) :
    1 - owed ≤ cube.nlinks := by
  have bound := tallied.le_total inside
  have count := tallied.nlinks
  omega

theorem Cube.Tallied.empty (empty : cube.slices = [])
    (none : cube.nlinks = 0) : cube.Tallied 0 := by
  constructor
  · simp [empty]
  · simp [Cube.total, empty, none]

theorem Cube.Tallied.shift (tallied : cube.Tallied owed)
    (distinct : (cube.slices.map Slice.ptr).Nodup)
    (inside : slice ∈ cube.slices) (stays : 0 ≤ slice.nlinks + more) :
    (cube.shift slice.ptr more).Tallied owed := by
  constructor
  · intro slice' inside'
    obtain ⟨old, also, rfl⟩ := List.mem_map.mp inside'
    split
    · rename_i same
      cases List.inj_on_of_nodup_map distinct also inside same
      exact stays
    · exact tallied.nonneg old also
  · have total : (cube.shift slice.ptr more).total = cube.total + more :=
      Cube.total_shift distinct inside
    have count := tallied.nlinks
    show cube.nlinks + more = _
    omega

/-- A cube with an attached slice counts more than a detach takes. -/
theorem Cube.Tallied.outlasts {other : Slice} (tallied : cube.Tallied owed)
    (owes : owed ≤ 1) (distinct : (cube.slices.map Slice.ptr).Nodup)
    (inside : slice ∈ cube.slices) (linked : 0 < slice.nlinks)
    (also : other ∈ cube.slices) (attached : 0 < other.nlinks)
    (leaves : slice.ptr = other.ptr → 1 < slice.nlinks) :
    0 < cube.nlinks := by
  have lowered : (cube.shift slice.ptr (-1)).Tallied owed :=
    tallied.shift distinct inside (by omega)
  have count : (cube.shift slice.ptr (-1)).nlinks = cube.nlinks + -1 := rfl
  have there := List.mem_map_of_mem (f := fun found =>
    if found.ptr = slice.ptr then { found with nlinks := found.nlinks + -1 }
    else found) also
  by_cases same : other.ptr = slice.ptr
  · cases List.inj_on_of_nodup_map distinct also inside same
    have more := leaves rfl
    rw [if_pos rfl] at there
    have used := lowered.used there
      (show 0 < slice.nlinks + -1 by omega)
    omega
  · rw [if_neg same] at there
    have used := lowered.used there attached
    omega

theorem Cube.Tallied.recounts (tallied : cube.Tallied owed)
    (recounts : cube.Recounts cube') : cube'.Tallied owed := by
  have links := congrArg (List.map Prod.snd) recounts.links
  simp only [List.map_map] at links
  have links : cube'.slices.map Slice.nlinks = cube.slices.map Slice.nlinks :=
    links
  constructor
  · intro slice' inside'
    have member := List.mem_map_of_mem (f := Slice.nlinks) inside'
    rw [links] at member
    obtain ⟨slice, inside, same⟩ := List.mem_map.mp member
    rw [← same]
    exact tallied.nonneg slice inside
  · rw [recounts.nlinks, tallied.nlinks, Cube.total, Cube.total, links]

end Cubes

section Processes

variable {P : PageSize} {p p' p'' : Process} {cube : Cube} {slice : Slice}
  {event : Event}

theorem Process.Tallied.of_same (tallied : p.Tallied)
    (cubes : p'.cubes = p.cubes) (orphans : p'.orphans = p.orphans) :
    p'.Tallied := by
  constructor
  · rw [cubes]
    exact tallied.registered
  · rw [orphans]
    exact tallied.orphaned

theorem Process.Tallied.nonneg (tallied : p.Tallied) (member : cube ∈ p.live)
    (inside : slice ∈ cube.slices) : 0 ≤ slice.nlinks := by
  rcases List.mem_append.mp member with registered | orphan
  · exact (tallied.registered cube registered).nonneg slice inside
  · exact (tallied.orphaned cube orphan).nonneg slice inside

theorem Process.Tallied.outlasts {other : Slice} (tallied : p.Tallied)
    (named : p.Named) (member : cube ∈ p.live) (inside : slice ∈ cube.slices)
    (linked : 0 < slice.nlinks) (also : other ∈ cube.slices)
    (attached : 0 < other.nlinks)
    (leaves : slice.ptr = other.ptr → 1 < slice.nlinks) :
    0 < cube.nlinks := by
  have distinct := named.slices_distinct member
  rcases List.mem_append.mp member with registered | orphan
  · exact (tallied.registered cube registered).outlasts (by decide) distinct
      inside linked also attached leaves
  · exact (tallied.orphaned cube orphan).outlasts (by decide) distinct
      inside linked also attached leaves

theorem Process.Tallied.agrees (tallied : p.Tallied) (agrees : p.Agrees p') :
    p'.Tallied :=
  tallied.of_same agrees.cubes agrees.orphans

theorem Process.Tallied.modifyCube {key : Nat} {change : Cube → Cube}
    (tallied : p.Tallied) (kept : ∀ cube ∈ p.live, cube.ptr = key →
      ∀ owed, cube.Tallied owed → (change cube).Tallied owed) :
    (p.modifyCube key change).Tallied := by
  constructor
  · intro cube' member'
    obtain ⟨cube, member, rfl⟩ := List.mem_map.mp member'
    have before := tallied.registered cube member
    split
    · rename_i here
      exact kept cube (List.mem_append_left _ member) here 0 before
    · exact before
  · intro cube' member'
    obtain ⟨cube, member, rfl⟩ := List.mem_map.mp member'
    have before := tallied.orphaned cube member
    split
    · rename_i here
      exact kept cube (List.mem_append_right _ member) here 1 before
    · exact before

theorem Process.Tallied.recount {key : Nat} {change : Cube → Cube}
    (tallied : p.Tallied) (recounts : ∀ cube : Cube,
      cube.Recounts (change cube)) : (p.modifyCube key change).Tallied :=
  tallied.modifyCube fun cube _ _ _ before => before.recounts (recounts cube)

theorem Process.Tallied.shiftLinks {more : Int} (tallied : p.Tallied)
    (named : p.Named) (member : cube ∈ p.live) (inside : slice ∈ cube.slices)
    (stays : 0 ≤ slice.nlinks + more) :
    (p.shiftLinks cube.ptr slice.ptr more).Tallied := by
  apply tallied.modifyCube
  intro other also same owed before
  cases named.same_cube also member same
  exact before.shift (named.slices_distinct member) inside stays

theorem Process.Tallied.openSlices (tallied : p.Tallied)
    (opened : List Slice) : (p.openSlices P cube opened).Tallied := by
  induction opened generalizing p with
  | nil => exact tallied
  | cons slice opened induction =>
      apply @induction (p.openSlice P cube slice)
      have shut : (p.protectPages P (wadd cube.page.addr slice.page.offset)
          slice.page.size .readWrite).Tallied := tallied.of_same rfl rfl
      exact shut.recount (Cube.recounts_modifySlice (fun _ => rfl) fun _ => rfl)

theorem Process.Tallied.release (tallied : p.Tallied) (ptr : Nat) :
    (p.release ptr).Tallied where
  registered := tallied.registered
  orphaned := fun cube member =>
    tallied.orphaned cube (Process.mem_release.mp member).1

theorem Process.Tallied.freeCube (tallied : p.Tallied) (named : p.Named)
    (member : cube ∈ p.cubes) : (p.freeCube cube).Tallied := by
  have fewer : ∀ other, other ∈ (p.freeCube cube).cubes → other.Tallied 0 :=
    fun other there =>
      tallied.registered other (Process.mem_freeCube there).1
  constructor
  · exact fewer
  · intro other there
    unfold Process.freeCube at there
    dsimp only at there
    split at there
    · obtain ⟨there, different⟩ := Process.mem_release.mp there
      rcases List.mem_cons.mp there with rfl | orphan
      · exact absurd rfl different
      · exact tallied.orphaned other orphan
    · obtain ⟨old, within, same⟩ := List.mem_map.mp there
      rw [← same]
      rcases List.mem_cons.mp within with here | orphan
      · rw [here, if_pos rfl]
        have before := tallied.registered cube member
        have count := before.nlinks
        constructor
        · exact before.nonneg
        · show cube.nlinks - 1 = cube.total - 1
          omega
      · rw [if_neg (named.not_both member orphan).symm]
        exact tallied.orphaned old orphan

/-- A call that makes no block. -/
theorem Deed.tallied {effect : Effect} (deed : Deed P p event effect p')
    (named : p.Named) (unmade : event.made = none) (paired : event.Paired p)
    (tallied : p.Tallied) : p'.Tallied := by
  cases deed with
  | agrees agrees => exact tallied.agrees agrees
  | beside pid cubes orphans nextPtr maps mapped prot =>
      exact tallied.of_same cubes orphans
  | alloc empty own whole admits fresh made agrees =>
      rw [unmade] at made
      cases made
  | @free cube addr maps p' frees member base unmapped agrees =>
      have freed : Process.Tallied { p.freeCube cube with maps := maps } :=
        (tallied.freeCube named member).of_same rfl rfl
      exact freed.agrees agrees
  | @grow cube page prot p' member own longer whole uniform admits agrees =>
      have remapped : (p.remapBlock P cube.page page prot).Tallied :=
        tallied.of_same rfl rfl
      have moved : (p.moveCube P cube page prot).Tallied :=
        remapped.recount fun _ => ⟨⟨rfl, rfl, rfl, rfl⟩, rfl, rfl⟩
      exact moved.agrees agrees
  | @slice cube addr size ptr p' slices member own contains fresh agrees =>
      have added : (p.addSlice cube.ptr (newSlice P cube addr size
          ptr)).Tallied := by
        have grown : (p.modifyCube cube.ptr fun cube' =>
            { cube' with slices := cube'.slices ++
                [newSlice P cube addr size ptr] }).Tallied := by
          apply tallied.modifyCube
          intro other _ _ owed before
          constructor
          · intro slice inside
            rcases List.mem_append.mp inside with old | new
            · exact before.nonneg slice old
            · rw [List.mem_singleton.mp new]
              exact Int.le_refl 0
          · have count := before.nlinks
            have total : Cube.total { other with slices := other.slices ++
                [newSlice P cube addr size ptr] } = other.total + 0 := by
              simp only [Cube.total, List.map_append, List.sum_append]
              rfl
            show other.nlinks = _
            omega
        exact grown.of_same rfl rfl
      exact added.agrees agrees
  | @attach cube slice p' attaches member own inside agrees =>
      have shut : (p.protectPages P (wadd cube.page.addr slice.page.offset)
          slice.page.size .read).Tallied := tallied.of_same rfl rfl
      have names : (p.protectPages P (wadd cube.page.addr slice.page.offset)
          slice.page.size .read).Named := ⟨named.distinct, named.fresh⟩
      have zero := tallied.nonneg member inside
      have linked := @Process.Tallied.shiftLinks _ cube slice 1 shut names
        member inside (by omega)
      exact linked.agrees agrees
  | @detach cube slice p' detaches member own inside agrees =>
      have linked : 0 < slice.nlinks := by
        have paired : event.Paired p := paired
        simp only [Event.Paired, detaches] at paired
        exact paired cube slice (named.findSlice_eq member inside)
      have lowered : (p.shiftLinks cube.ptr slice.ptr (-1)).Tallied :=
        tallied.shiftLinks named member inside (by omega)
      have lowered : (p.unlinkSlice cube.ptr slice.ptr).Tallied :=
        lowered.of_same rfl rfl
      rcases agrees with kept | released
      · exact lowered.agrees kept
      · have removed : ((p.unlinkSlice cube.ptr slice.ptr).unlinkFile
            cube.id).Tallied := lowered.of_same rfl rfl
        exact (removed.release cube.ptr).agrees released
  | fault member own contains idle known spans agrees =>
      exact (tallied.openSlices _).agrees agrees

theorem tallied_alloc {size errno : Nat} {os : Nat → Reply}
    (tallied : p.Tallied) :
    (final ((do let _ ← inaccelAlloc P size : Prog Unit)
      (p.enter errno os))).toProcess.Tallied := by
  apply final_of Process.Tallied
    (@inaccelAlloc_spec P size (p.enter errno os) rfl)
  · intro result w' outcome
    cases outcome with
    | failed beside => exact tallied.of_same beside.cubes beside.orphans
    | made requested admits fresh effect =>
        have agrees := effect.agrees
        constructor
        · rw [agrees.cubes]
          intro cube member
          rcases List.mem_append.mp member with old | new
          · exact tallied.registered cube old
          · rw [List.mem_singleton.mp new]
            exact .empty rfl rfl
        · rw [agrees.orphans]
          exact tallied.orphaned
  · exact fun _ _ => False.elim

/-- Every event keeps the counts. -/
theorem Event.tallied (words : event.op.Words) (named : p.Named)
    (paired : event.Paired p) (tallied : p.Tallied) :
    (event.outcome P p).Tallied := by
  obtain ⟨op, errno, os⟩ := event
  have others : Event.made ⟨op, errno, os⟩ = none →
      (Event.outcome P p ⟨op, errno, os⟩).Tallied := fun unmade =>
    (event_deed words).tallied named unmade paired tallied
  cases op with
  | alloc size => exact tallied_alloc tallied
  | realloc addr newSize =>
      by_cases null : addr = 0
      · subst null
        rw [outcome_realloc_null]
        exact tallied_alloc tallied
      · apply others
        simp [Event.made, null]
  | free addr => exact others rfl
  | slice addr size => exact others rfl
  | attach ptr => exact others rfl
  | detach ptr => exact others rfl
  | store addr byte => exact others rfl
  | woken ptr error => exact others rfl

/-- In a process with such counts, a paired detach from a registered block
finds a link on it. -/
theorem Event.Paired.matched (paired : event.Paired p) (tallied : p.Tallied) :
    event.Matched p := by
  obtain ⟨op, errno, os⟩ := event
  cases op with
  | detach ptr =>
      intro cube slice found registered
      have linked := paired cube slice found
      have used := (tallied.registered cube registered).used
        (findSlice_mem found).2.1 linked
      omega
  | alloc size => trivial
  | realloc addr newSize => trivial
  | free addr => trivial
  | slice addr size => trivial
  | attach ptr => trivial
  | store addr byte => trivial
  | woken ptr error => trivial

end Processes

/-- The slice is in the same place. -/
structure Slice.Alike (slice slice' : Slice) : Prop where
  ptr : slice'.ptr = slice.ptr
  offset : slice'.offset = slice.offset
  size : slice'.size = slice.size
  page : slice'.page = slice.page

theorem Slice.Alike.refl (slice : Slice) : slice.Alike slice :=
  ⟨rfl, rfl, rfl, rfl⟩

theorem Slice.Alike.trans {slice slice' slice'' : Slice}
    (left : slice.Alike slice') (right : slice'.Alike slice'') :
    slice.Alike slice'' :=
  ⟨right.ptr.trans left.ptr, right.offset.trans left.offset,
    right.size.trans left.size, right.page.trans left.page⟩

theorem Slice.Alike.fits {P : PageSize} {size : Nat} {slice slice' : Slice}
    (alike : slice.Alike slice') (fits : slice'.Fits P size) :
    slice.Fits P size := by
  constructor
  · exact alike.page ▸ fits.base
  · exact alike.page ▸ fits.whole
  · exact alike.offset ▸ alike.page ▸ fits.start
  · exact alike.offset ▸ alike.size ▸ alike.page ▸ fits.finish
  · exact alike.page ▸ fits.inside

/-- The cube later, with slices that have lost no link. -/
structure Cube.Heir (cube cube' : Cube) : Prop where
  same : cube.Same cube'
  slices : ∀ slice ∈ cube.slices, ∃ slice' ∈ cube'.slices,
    slice.Alike slice' ∧ slice.nlinks ≤ slice'.nlinks

/-- Every cube is there later. -/
def Process.Passes (p p' : Process) : Prop :=
  ∀ cube ∈ p.live, ∃ cube' ∈ p'.live, cube.Heir cube'

section Heirs

variable {P : PageSize} {p p' p'' : Process} {cube cube' cube'' : Cube}
  {slice : Slice} {event : Event}

theorem Cube.Heir.refl (cube : Cube) : cube.Heir cube :=
  ⟨.refl cube, fun slice inside =>
    ⟨slice, inside, .refl slice, Int.le_refl _⟩⟩

theorem Cube.Heir.trans (left : cube.Heir cube') (right : cube'.Heir cube'') :
    cube.Heir cube'' := by
  constructor
  · exact left.same.trans right.same
  · intro slice inside
    obtain ⟨slice', inside', alike, links⟩ := left.slices slice inside
    obtain ⟨slice'', inside'', alike', links'⟩ := right.slices slice' inside'
    exact ⟨slice'', inside'', alike.trans alike', Int.le_trans links links'⟩

theorem heir_modifySlice {ptr : Nat} {change : Slice → Slice}
    (changed : ∀ slice : Slice, slice.Alike (change slice) ∧
      slice.nlinks ≤ (change slice).nlinks) (cube : Cube) :
    cube.Heir (cube.modifySlice ptr change) := by
  constructor
  · exact ⟨rfl, rfl, rfl⟩
  · intro slice inside
    refine ⟨_, List.mem_map_of_mem inside, ?_⟩
    split
    · exact changed slice
    · exact ⟨.refl slice, Int.le_refl _⟩

theorem Process.Passes.of_subset (subset : p.live ⊆ p'.live) : p.Passes p' :=
  fun cube member => ⟨cube, subset member, .refl cube⟩

theorem Process.Passes.trans (left : p.Passes p') (right : p'.Passes p'') :
    p.Passes p'' := by
  intro cube member
  obtain ⟨cube', member', heir⟩ := left cube member
  obtain ⟨cube'', member'', heir'⟩ := right cube' member'
  exact ⟨cube'', member'', heir.trans heir'⟩

theorem Process.Passes.agrees (passes : p.Passes p') (agrees : p'.Agrees p'') :
    p.Passes p'' :=
  passes.trans (.of_subset (agrees.live ▸ List.Subset.refl _))

theorem passes_modifyCube {key : Nat} {change : Cube → Cube}
    (heir : ∀ cube : Cube, cube.Heir (change cube)) :
    p.Passes (p.modifyCube key change) := by
  intro cube member
  rw [Process.live_modifyCube]
  refine ⟨_, List.mem_map_of_mem member, ?_⟩
  split
  · exact heir cube
  · exact .refl cube

theorem passes_openSlices (opened : List Slice) :
    p.Passes (p.openSlices P cube opened) := by
  induction opened generalizing p with
  | nil => exact .of_subset (List.Subset.refl _)
  | cons slice opened induction =>
      let shut := p.protectPages P (wadd cube.page.addr slice.page.offset)
        slice.page.size .readWrite
      have raised : shut.Passes (shut.modifyCube cube.ptr
          (Cube.modifySlice slice.ptr fun slice =>
            { slice with version := slice.version + 1 })) :=
        passes_modifyCube (heir_modifySlice fun slice =>
          ⟨⟨rfl, rfl, rfl, rfl⟩, Int.le_refl _⟩)
      have first : p.Passes (p.openSlice P cube slice) := raised
      exact first.trans induction

/-- A block that is freed is there as long as its count is not zero. -/
theorem heir_freeCube {freed : Cube} (named : p.Named)
    (registered : freed ∈ p.cubes) (member : cube ∈ p.live)
    (used : cube ∈ p.cubes → cube.pid = p.pid ∧ cube.nlinks ≠ 0) :
    ∃ cube' ∈ (p.freeCube freed).live, cube.Heir cube' := by
  let left : Process :=
    { p with
      cubes := p.cubes.filter fun other => other.ptr ≠ freed.ptr
      orphans := freed :: p.orphans }
  have there : cube ∈ left.live :=
    (Process.live_freeCube named registered).symm.subset member
  unfold Process.freeCube
  dsimp only
  split
  · rename_i released
    have different : cube.ptr ≠ freed.ptr := by
      intro same
      cases named.same_cube member (List.mem_append_left _ registered) same
      obtain ⟨own, linked⟩ := used registered
      exact released.elim (absurd own) linked
    refine ⟨cube, ?_, .refl cube⟩
    rcases List.mem_append.mp there with stays | orphan
    · exact List.mem_append_left _ stays
    · exact List.mem_append_right _
        (Process.mem_release.mpr ⟨orphan, different⟩)
  · have lowered : left.Passes (left.modifyCube freed.ptr fun cube =>
        { cube with nlinks := cube.nlinks - 1 }) :=
      passes_modifyCube fun _ => ⟨⟨rfl, rfl, rfl⟩,
        fun slice inside => ⟨slice, inside, .refl slice, Int.le_refl _⟩⟩
    exact lowered cube there

/-- Only a detach takes links, and only a free takes a block. -/
theorem Deed.heir {effect : Effect} (deed : Deed P p event effect p')
    (named : p.Named) (undetached : ∀ ptr, event.op ≠ .detach ptr)
    (member : cube ∈ p.live)
    (used : cube ∈ p.cubes → cube.pid = p.pid ∧ cube.nlinks ≠ 0) :
    ∃ cube' ∈ p'.live, cube.Heir cube' := by
  have passes : p.Passes p' → ∃ cube' ∈ p'.live, cube.Heir cube' :=
    fun passes => passes cube member
  cases deed with
  | agrees agrees => exact passes (.of_subset (agrees.live ▸ List.Subset.refl _))
  | beside pid cubes orphans nextPtr maps mapped prot =>
      apply passes
      apply Process.Passes.of_subset
      rw [Process.live, Process.live, cubes, orphans]
      exact List.Subset.refl _
  | @alloc new p' empty own whole admits fresh made agrees =>
      have added : p.Passes (p.addCube P new) := by
        apply Process.Passes.of_subset
        intro other there
        rcases List.mem_append.mp there with old | orphan
        · exact List.mem_append_left _ (List.mem_append_left _ old)
        · exact List.mem_append_right _ orphan
      exact passes (added.agrees agrees)
  | @free freed addr maps p' frees registered base unmapped agrees =>
      obtain ⟨cube', there, heir⟩ := heir_freeCube named registered member used
      refine ⟨cube', ?_, heir⟩
      rw [agrees.live]
      exact there
  | @grow moved page prot p' registered own longer whole uniform admits agrees =>
      have remapped : p.Passes (p.moveCube P moved page prot) :=
        @passes_modifyCube (p.remapBlock P moved.page page prot) _ _ fun _ =>
          ⟨⟨rfl, rfl, rfl⟩, fun slice inside =>
            ⟨slice, inside, .refl slice, Int.le_refl _⟩⟩
      exact passes (remapped.agrees agrees)
  | @slice target addr size ptr p' slices registered own contains fresh agrees =>
      have added : p.Passes (p.addSlice target.ptr
          (newSlice P target addr size ptr)) :=
        @passes_modifyCube p _ _ fun _ => ⟨⟨rfl, rfl, rfl⟩,
          fun slice inside => ⟨slice, List.mem_append_left _ inside,
            .refl slice, Int.le_refl _⟩⟩
      exact passes (added.agrees agrees)
  | @attach target slice p' attaches also own inside agrees =>
      have linked : p.Passes (Process.link target.ptr slice.ptr
          (p.protectPages P (wadd target.page.addr slice.page.offset)
            slice.page.size .read)) := by
        refine @passes_modifyCube (p.protectPages P _ _ _) _ _ fun cube => ?_
        have raised := @heir_modifySlice slice.ptr
          (fun slice => { slice with nlinks := slice.nlinks + 1 })
          (fun slice => ⟨⟨rfl, rfl, rfl, rfl⟩, by simp⟩) cube
        exact ⟨⟨rfl, rfl, rfl⟩, raised.slices⟩
      exact passes (linked.agrees agrees)
  | detach detaches also own inside agrees =>
      exact absurd detaches (undetached _)
  | fault registered own contains idle known spans agrees =>
      exact passes ((passes_openSlices _).agrees agrees)

end Heirs

/-- An attached slice at the place of this one, in an own block with a file of
this name. -/
def Process.Bears (id : String) (slice : Slice) (p : Process) : Prop :=
  ∃ cube ∈ p.live, cube.pid = p.pid ∧ cube.id = id ∧
    ∃ slice' ∈ cube.slices, slice.Alike slice' ∧ 0 < slice'.nlinks

/-- A detach of the slice leaves a link. -/
def Event.Leaves (ptr : Nat) (p : Process) (event : Event) : Prop :=
  match event.op with
  | .detach other => other = ptr → ∀ cube slice,
      p.findSlice other = some (cube, slice) → 1 < slice.nlinks
  | _ => True

section Bears

variable {P : PageSize} {p p' : Process} {cube target : Cube}
  {slice found : Slice} {id : String} {event : Event}

theorem Process.Bears.agrees (bears : p.Bears id slice)
    (agrees : p.Agrees p') : p'.Bears id slice := by
  obtain ⟨cube, member, own, rest⟩ := bears
  exact ⟨cube, agrees.live ▸ member, own.trans agrees.pid.symm, rest⟩

theorem Process.Bears.unlinkSlice (bears : p.Bears id slice) (named : p.Named)
    (member : target ∈ p.live) (inside : found ∈ target.slices)
    (leaves : found.ptr = slice.ptr → 1 < found.nlinks) :
    (p.unlinkSlice target.ptr found.ptr).Bears id slice := by
  obtain ⟨cube, also, own, same, slice', within, alike, linked⟩ := bears
  by_cases here : cube.ptr = target.ptr
  · cases named.same_cube also member here
    refine ⟨target.shift found.ptr (-1), ?_, own, same, _,
      List.mem_map_of_mem within, ?_⟩
    · have there := List.mem_map_of_mem (f := fun other =>
        if other.ptr = target.ptr then other.shift found.ptr (-1) else other)
        member
      rw [← Process.live_modifyCube, if_pos rfl] at there
      exact there
    · split
      · rename_i lowered
        cases List.inj_on_of_nodup_map (named.slices_distinct member) within
          inside lowered
        have more := leaves alike.ptr
        refine ⟨alike.trans ⟨rfl, rfl, rfl, rfl⟩, ?_⟩
        show 0 < found.nlinks + -1
        omega
      · exact ⟨alike, linked⟩
  · refine ⟨cube, ?_, own, same, slice', within, alike, linked⟩
    have there := List.mem_map_of_mem (f := fun other =>
      if other.ptr = target.ptr then other.shift found.ptr (-1) else other) also
    rw [← Process.live_modifyCube, if_neg here] at there
    exact there

theorem Process.Bears.detach {ptr errno : Nat} {os : Nat → Reply}
    (bears : p.Bears id slice) (named : p.Named) (tallied : p.Tallied)
    (paired : Event.Paired p ⟨.detach ptr, errno, os⟩)
    (leaves : Event.Leaves slice.ptr p ⟨.detach ptr, errno, os⟩) :
    (Event.outcome P p ⟨.detach ptr, errno, os⟩).Bears id slice := by
  apply final_of (Process.Bears id slice)
    (@detach_spec ptr (p.enter errno os) [] rfl (by simp))
  · rintro result w' (⟨-, -, quiet⟩ | ⟨-, target, found, detaches⟩)
    · exact bears.agrees quiet.agrees
    · have here : p.findSlice ptr = some (target, found) := detaches.found
      have linked := paired target found here
      obtain ⟨member, inside, rfl⟩ := findSlice_mem here
      have agrees := detaches.effect.agrees
      split at agrees
      · rename_i last
        apply Process.Bears.agrees _ agrees
        obtain ⟨cube, also, own, same, slice', within, alike, attached⟩ := bears
        have different : cube.ptr ≠ target.ptr := by
          intro shared
          cases named.same_cube also member shared
          have used := tallied.outlasts named member inside linked within
            attached fun equal => leaves (equal.trans alike.ptr) _ found here
          omega
        refine ⟨cube, ?_, own, same, slice', within, alike, attached⟩
        rcases List.mem_append.mp also with registered | orphan
        · apply List.mem_append_left
          exact List.mem_map.mpr ⟨cube, registered, if_neg different⟩
        · apply List.mem_append_right
          apply Process.mem_release.mpr
          refine ⟨?_, different⟩
          exact List.mem_map.mpr ⟨cube, orphan, if_neg different⟩
      · have lowered := bears.unlinkSlice named member inside
          fun same => leaves same target found here
        exact lowered.agrees agrees
  · rintro reason w' ⟨rfl, -⟩
    exact bears

/-- A slice stays attached until its last detach. -/
theorem Event.bears (words : event.op.Words) (named : p.Named)
    (tallied : p.Tallied) (paired : event.Paired p)
    (leaves : event.Leaves slice.ptr p) (bears : p.Bears id slice) :
    (event.outcome P p).Bears id slice := by
  have others : (∀ ptr, event.op ≠ .detach ptr) →
      (event.outcome P p).Bears id slice := by
    intro undetached
    obtain ⟨cube, member, own, same, slice', within, alike, linked⟩ := bears
    have deed : Deed P p event _ (event.outcome P p) := event_deed words
    have used : cube ∈ p.cubes → cube.pid = p.pid ∧ cube.nlinks ≠ 0 := by
      intro registered
      have used := (tallied.registered cube registered).used within linked
      exact ⟨own, by omega⟩
    obtain ⟨cube', there, heir⟩ := deed.heir named undetached member used
    obtain ⟨slice'', within', alike', links⟩ := heir.slices slice' within
    refine ⟨cube', there, ?_, heir.same.id.trans same, slice'', within',
      alike.trans alike', Int.lt_of_lt_of_le linked links⟩
    exact heir.same.pid.trans (own.trans deed.descends.1.symm)
  obtain ⟨op, errno, os⟩ := event
  cases op with
  | detach ptr => exact bears.detach named tallied paired leaves
  | alloc size => exact others fun _ => Op.noConfusion
  | realloc addr newSize => exact others fun _ => Op.noConfusion
  | free addr => exact others fun _ => Op.noConfusion
  | slice addr size => exact others fun _ => Op.noConfusion
  | attach ptr => exact others fun _ => Op.noConfusion
  | store addr byte => exact others fun _ => Op.noConfusion
  | woken ptr error => exact others fun _ => Op.noConfusion

end Bears

end CoralApi
