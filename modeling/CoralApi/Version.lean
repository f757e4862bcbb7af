import CoralApi.InFlight

/-!
# Versions name contents

A message names an array by file, range and version.  A version stands for the
bytes of a slice as long as no store can reach them without a fault on a page
of the slice, which raises the version.  The faults that open a page of a slice
without raising its version are those of other slices that share the page.
-/

namespace CoralApi

open Program Transition

/-- The event attaches the slice, which has this version. -/
def AttachesAt (P : PageSize) (ptr version : Nat) (point : Process × Event) :
    Prop :=
  point.2.op = .attach ptr ∧
    Ensures (attach P ptr) (fun result _ => result = 0) (fun _ _ => False)
      (point.1.enter point.2.errno point.2.os) ∧
    ∃ cube ∈ point.1.cubes, ∃ slice ∈ cube.slices,
      slice.ptr = ptr ∧ slice.version = version

/-- A store to a byte of the slice takes effect. -/
def StoresTo (P : PageSize) (ptr : Nat) (point : Process × Event) : Prop :=
  ∃ addr byte, point.2.op = .store addr byte ∧ point.1.Writable P addr ∧
    ∃ cube ∈ point.1.cubes, ∃ slice ∈ cube.slices, slice.ptr = ptr ∧
      cube.page.addr + slice.offset ≤ addr ∧
      addr < cube.page.addr + slice.offset + slice.size

/-- Between two attaches of a slice at one version no store changes it. -/
def VersionSound (P : PageSize) (trace : List (Process × Event)) : Prop :=
  ∀ before first between second after ptr version,
    trace = before ++ first :: (between ++ second :: after) →
    AttachesAt P ptr version first → AttachesAt P ptr version second →
    ∀ point ∈ between, ¬StoresTo P ptr point

/-- No slice that is opened shares a page with another slice whose pages are
all read-only. -/
def Effect.SparesProtected (P : PageSize) (p : Process) : Effect → Prop
  | .opens cube slices => ∀ slice ∈ cube.slices, slice ∉ slices →
      (∀ page, slice.page.HasPage P page →
        p.prot (cube.pageAt P page) = .read) →
      ∀ opened ∈ slices, slice.page.Apart P opened.page
  | _ => True

instance (P : PageSize) (p : Process) (effect : Effect) :
    Decidable (effect.SparesProtected P p) :=
  match effect with
  | .opens cube slices => inferInstanceAs (Decidable
      (∀ slice ∈ cube.slices, slice ∉ slices →
        (∀ page, slice.page.HasPage P page →
          p.prot (cube.pageAt P page) = .read) →
        ∀ opened ∈ slices, slice.page.Apart P opened.page))
  | .other => inferInstanceAs (Decidable True)
  | .grows _ _ => inferInstanceAs (Decidable True)

/-- The slice of a name is in the cube of a name, and the view of that cube
has a property. -/
structure Tracks (P : PageSize) (c ptr : Nat)
    (good : PageGuard.State Nat Nat → Prop) (p : Process) : Prop where
  wellFormed : p.WellFormed P
  cubeKnown : c < p.nextPtr
  known : ptr < p.nextPtr
  owner : ∀ cube ∈ p.cubes, ptr ∈ cube.slices.map Slice.ptr → cube.ptr = c
  good : ∀ cube ∈ p.cubes, cube.ptr = c → good (cube.view P p.prot)

section Version

variable {P : PageSize} {p p' : Process} {event : Event} {c ptr : Nat}
  {good : PageGuard.State Nat Nat → Prop}

theorem Tracks.step (tracks : Tracks P c ptr good p)
    (step : Step P p event p')
    (keeps : ∀ cube ∈ p.cubes, ∀ label next,
      PageGuard.Step (cube.view P p.prot) label next →
      label ≠ .watch ptr → label.opened = (event.effect P p).opened cube →
      good (cube.view P p.prot) → good next) :
    Tracks P c ptr good p' := by
  have deed := step.deed
  have later := deed.nextPtr_le
  have cubeKnown := tracks.cubeKnown
  have known := tracks.known
  refine ⟨step.wellFormed tracks.wellFormed, by omega, by omega, ?_, ?_⟩
  · intro cube' member' inside
    rcases deed.simulates step.1 tracks.wellFormed cube' member' with
      blank | ⟨cube, member, label, follows⟩
    · simp [blank.empty] at inside
    · rcases follows.known ptr inside with old | new
      · exact follows.ptr.trans (tracks.owner cube member old)
      · omega
  · intro cube' member' same
    rcases deed.simulates step.1 tracks.wellFormed cube' member' with
      blank | ⟨cube, member, label, follows⟩
    · have fresh := blank.fresh
      omega
    · apply keeps cube member label _ follows.step _ follows.opened
      · exact tracks.good cube member (follows.ptr ▸ same)
      · rintro rfl
        have fresh := follows.fresh ptr rfl
        omega

/-- A fault that spares the protected slices does so in every view. -/
theorem sparesProtected_view {cube : Cube} (wellFormed : p.WellFormed P)
    (step : Step P p event p')
    (spares : (event.effect P p).SparesProtected P p) (member : cube ∈ p.cubes) :
    (cube.view P p.prot).SparesProtected
      ((event.effect P p).opened cube) := by
  have deed := step.deed
  cases effect : event.effect P p with
  | other => simp [Effect.opened, PageGuard.State.SparesProtected]
  | grows moved prot => simp [Effect.opened, PageGuard.State.SparesProtected]
  | opens faulted slices =>
      rw [effect] at deed spares
      by_cases here : faulted = cube
      · subst here
        have distinct := wellFormed.named.slices_distinct
          (List.mem_append_left _ member)
        rw [Effect.opened_self]
        intro ptr closed protected_
        cases at_ : faulted.sliceAt ptr with
        | none => simp [Cube.view, at_]
        | some slice =>
            obtain ⟨inside, rfl⟩ := mem_of_sliceAt at_
            apply (apart_reach distinct deed.opened inside).mpr
            apply spares slice inside
            · exact fun raised => closed (List.mem_map_of_mem raised)
            · exact (disjoint_writable_iff distinct
                (wellFormed.slices faulted member slice inside) inside).mp
                  protected_
      · rw [Effect.opened_other here]
        simp [PageGuard.State.SparesProtected]

/-- A slice that was just attached is sealed at its version. -/
theorem attach_tracks {version : Nat} (wellFormed : p.WellFormed P)
    (step : Step P p event p') (attaches : AttachesAt P ptr version (p, event)) :
    ∃ c, Tracks P c ptr (PageGuard.State.Sealed ptr version) p' := by
  have after := step.wellFormed wellFormed
  have later := step.deed.nextPtr_le
  obtain ⟨op, errno, os⟩ := event
  obtain ⟨same, returns, cube, member, slice, inside, rfl, rfl⟩ := attaches
  have same : op = .attach slice.ptr := same
  subst same
  have live : cube ∈ p.live := List.mem_append_left _ member
  have here := sliceAt_eq (wellFormed.named.slices_distinct live) inside
  let linked : Cube :=
    { cube.modifySlice slice.ptr fun slice =>
        { slice with nlinks := slice.nlinks + 1 } with
      nlinks := cube.nlinks + 1 }
  let q := Process.link cube.ptr slice.ptr
    (p.protectPages P (wadd cube.page.addr slice.page.offset)
      slice.page.size .read)
  have agrees : q.Agrees p' := by
    cases run : attach P slice.ptr (p.enter errno os) with
    | error reason w' => exact ((ensures_error run).mp returns).elim
    | ok value w' =>
        have reached : p' = w'.toProcess := by
          rw [step.2]
          simp [Event.outcome, Op.run, bind, EStateM.bind, run, final, pure,
            EStateM.pure]
        have ended := (attach_spec (P := P) rfl).of_ok run
        rw [if_pos ((ensures_ok run).mp returns)] at ended
        obtain ⟨-, owner, found, attached⟩ := ended
        cases (wellFormed.named.findSlice_eq live inside).symm.trans
          attached.found
        rw [reached]
        exact attached.effect.agrees
  have member' : linked ∈ p'.cubes := by
    rw [agrees.cubes]
    refine List.mem_map.mpr ⟨cube, member, ?_⟩
    rw [if_pos rfl]
  have live' : linked ∈ p'.live := List.mem_append_left _ member'
  have names : linked.names = cube.names :=
    @names_modifySlice slice.ptr
      (fun slice => { slice with nlinks := slice.nlinks + 1 })
      (fun _ => rfl) cube
  have owned : slice.ptr ∈ linked.slices.map Slice.ptr := by
    rw [List.tail_eq_of_cons_eq names]
    exact List.mem_map_of_mem inside
  have cubeKnown := wellFormed.named.fresh _ (Process.Named.ptr_mem live)
  have known := wellFormed.named.fresh _ (Process.Named.slice_mem live inside)
  refine ⟨cube.ptr, after, by omega, by omega, ?_, ?_⟩
  · intro cube' also owned'
    have equal := after.named.same_owner (List.mem_append_left _ also) live'
      owned' owned
    rw [equal]
    rfl
  · intro cube' also same
    have equal : cube' = linked :=
      after.named.same_cube (List.mem_append_left _ also) live' same
    have version : (cube.view P p.prot).version slice.ptr = slice.version := by
      simp [Cube.view, here]
    have view := view_attach (p := p) (wellFormed.placed cube member)
      (wellFormed.slices cube member slice inside) here
    rw [equal, agrees.prot, ← version]
    exact view ▸ PageGuard.State.sealed_attach

/-- A sealed slice that a store reaches has a higher version. -/
theorem lt_version_of_storesTo {version : Nat}
    (tracks : Tracks P c ptr (PageGuard.State.Sealed ptr version) p)
    (stores : StoresTo P ptr (p, event)) :
    ∃ cube ∈ p.cubes, cube.ptr = c ∧
      version < (cube.view P p.prot).version ptr := by
  obtain ⟨addr, byte, -, writable, cube, member, slice, inside, rfl, above,
    below⟩ := stores
  have wellFormed := tracks.wellFormed
  have owner := tracks.owner cube member (List.mem_map_of_mem inside)
  obtain ⟨reached, guarded⟩ := tracks.good cube member owner
  refine ⟨cube, member, owner, lt_of_le_of_ne reached fun same => ?_⟩
  have distinct := wellFormed.named.slices_distinct
    (List.mem_append_left _ member)
  have fits := wellFormed.slices cube member slice inside
  have shut := (disjoint_writable_iff distinct fits inside).mp
    (guarded same.symm) _ (fits.hasPage
      (show slice.offset ≤ addr - cube.page.addr by omega) (by omega))
  rw [Cube.pageAt_div (wellFormed.placed cube member) (by omega)] at shut
  cases shut.symm.trans writable

end Version

/-- In a run from any laid-out process whose faults spare the protected
slices, versions are sound. -/
theorem version_sound {P : PageSize} {start finish : Process}
    {trace : List (Process × Event)} (wellFormed : start.WellFormed P)
    (run : Run (Step P) start trace finish)
    (spares : ∀ point ∈ trace,
      (point.2.effect P point.1).SparesProtected P point.1) :
    VersionSound P trace := by
  intro before first between second after ptr version split attaches again
    point inside stores
  obtain ⟨early, late, rfl⟩ := List.append_of_mem inside
  rw [split] at run spares
  obtain ⟨p₁, run, rest⟩ := run.of_append
  obtain ⟨rfl, p₂, step, rest⟩ := rest.of_cons
  obtain ⟨p₄, between, rest⟩ := rest.of_append
  obtain ⟨rfl, -⟩ := rest.of_cons
  obtain ⟨p₃, toStore, fromStore⟩ := between.of_append
  obtain ⟨rfl, -⟩ := fromStore.of_cons
  have before₁ := run.invariant (Process.WellFormed P)
    (fun _ _ _ before step => step.wellFormed before) wellFormed first.1
    (finish_mem_visited _ _)
  obtain ⟨c, sealed₂⟩ := attach_tracks before₁ step attaches
  -- up to the store the slice is sealed at its version
  have sealed₃ := toStore.invariant_under
    (Tracks P c ptr (PageGuard.State.Sealed ptr version))
    (fun p event => (event.effect P p).SparesProtected P p)
    (fun p event p' tracks spares step => tracks.step step
      fun cube member label next moves known opened isSealed =>
        moves.sealed (view_wellFormed (tracks.wellFormed.placed cube member)
          (tracks.wellFormed.slices cube member)) isSealed known
          (opened ▸ sparesProtected_view tracks.wellFormed step spares member))
    sealed₂ (fun point member => spares point (by simp [member])) point.1
    (finish_mem_visited _ _)
  obtain ⟨cube, member, owner, raised⟩ := lt_version_of_storesTo sealed₃ stores
  -- from the store on its version is higher
  have raised₃ : Tracks P c ptr (fun s => version < s.version ptr) point.1 :=
    { sealed₃ with
      good := fun other also same => by
        rw [sealed₃.wellFormed.named.same_cube (List.mem_append_left _ also)
          (List.mem_append_left _ member) (same.trans owner.symm)]
        exact raised }
  have raised₄ := fromStore.invariant _
    (fun p event p' tracks step => tracks.step step
      fun cube member label next moves known opened higher =>
        Nat.lt_of_lt_of_le higher moves.version_le)
    raised₃ second.1 (finish_mem_visited _ _)
  obtain ⟨-, -, cube, member, slice, inside, rfl, rfl⟩ := again
  have higher := raised₄.good cube member
    (raised₄.owner cube member (List.mem_map_of_mem inside))
  have here := sliceAt_eq (raised₄.wellFormed.named.slices_distinct
    (List.mem_append_left _ member)) inside
  simp [Cube.view, here] at higher

/-- A slice of the second page, which another slice may share. -/
def twoSlices (size : Nat) : List Event :=
  [.smooth (.alloc 8192) 65536,
    .smooth (.slice 69632 4096) 0,
    .smooth (.slice 65536 size) 0,
    .smooth (.attach 3) 0,
    .smooth (.detach 3) 0]

/-- A fault on the first page, and a store to the second one. -/
def storeTwice : List Event :=
  [.smooth (.detach 2) 0,
    .smooth (.store 65536 1) 0,
    .smooth (.store 69632 1) 0]

/-- The other slice has the first page only. -/
theorem versionSound_twoSlices :
    VersionSound .small (replay .small (.loaded 1 "p") (twoSlices 4096 ++
      .smooth (.attach 2) 0 :: (storeTwice ++ [.smooth (.attach 2) 0]))) :=
  version_sound (Process.Fresh.wellFormed ⟨rfl, rfl⟩)
    (replay_run (by decide +kernel)) (by decide +kernel)

/-- The other slice has both pages. -/
theorem not_versionSound_twoSlices :
    ∃ start finish trace, start.WellFormed .small ∧
      Run (Step .small) start trace finish ∧ ¬VersionSound .small trace := by
  let start := Process.loaded 1 "p"
  let attach : Event := .smooth (.attach 2) 0
  let p₁ := start.after .small (twoSlices 8192)
  let p₂ := p₁.after .small [attach]
  let p₃ := p₂.after .small storeTwice
  have run := replay_run (P := .small) (p := start) (show ∀ point ∈
    replay .small start (twoSlices 8192 ++ attach :: (storeTwice ++ [attach])),
      point.2.op.Allowed point.1 by decide +kernel)
  have split : replay .small start
      (twoSlices 8192 ++ attach :: (storeTwice ++ [attach])) =
        replay .small start (twoSlices 8192) ++
          (p₁, attach) :: (replay .small p₂ storeTwice ++ [(p₃, attach)]) := by
    rw [replay_append, replay, replay_append]
    rfl
  refine ⟨start, _, _, Process.Fresh.wellFormed ⟨rfl, rfl⟩, run, fun sound => ?_⟩
  apply sound _ (p₁, attach) _ (p₃, attach) [] 2 0 split
  · exact ⟨rfl, by decide +kernel, by decide +kernel⟩
  · exact ⟨rfl, by decide +kernel, by decide +kernel⟩
  · exact List.mem_cons_of_mem _ (List.mem_cons_of_mem _ List.mem_cons_self)
  · exact ⟨69632, 1, rfl, by decide +kernel, by decide +kernel⟩

end CoralApi
