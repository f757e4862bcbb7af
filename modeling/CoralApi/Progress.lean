import CoralApi.Guard

/-!
# Faults that make progress

A read-only page can become writable again only through a slice over it.  The
protection of pages comes from slices, except where `inaccel_realloc` grows a
block that is read-only as a whole: `mremap` gives its protection to the added
pages, and no slice is over them.
-/

namespace CoralApi

open Program Transition

/-- Every read-only page of a cube lies in a slice. -/
def Process.Covered (P : PageSize) (p : Process) : Prop :=
  ∀ cube ∈ p.cubes, ∀ page, page * P.bytes < cube.page.size →
    p.prot (cube.pageAt P page) = .read →
    ∃ slice ∈ cube.slices, slice.page.HasPage P page

/-- A fault on a page that no slice with links covers does not sleep, and when
the handler returns 0 the store goes through. -/
def Process.Progresses (P : PageSize) (p : Process) : Prop :=
  ∀ cube ∈ p.cubes, ∀ addr, cube.page.addr ≤ addr →
    addr < cube.page.addr + cube.page.size → ¬p.Writable P addr →
    (∀ slice ∈ cube.slices,
      slice.page.HasPage P ((addr - cube.page.addr) / P.bytes) →
      slice.nlinks = 0) →
    ∀ errno os, Ensures (access P addr)
      (fun result w' => result = 0 → w'.Writable P addr)
      (fun _ _ => False) (p.enter errno os)

/-- A block that grows is writable. -/
def Effect.GrowsOpen : Effect → Prop
  | .grows _ prot => prot = .readWrite
  | _ => True

instance (effect : Effect) : Decidable effect.GrowsOpen :=
  match effect with
  | .grows _ prot => inferInstanceAs (Decidable (prot = .readWrite))
  | .other => inferInstanceAs (Decidable True)
  | .opens _ _ => inferInstanceAs (Decidable True)

section Progress

variable {P : PageSize} {p p' : Process} {cube : Cube}

theorem covered_iff (wellFormed : p.WellFormed P) :
    p.Covered P ↔ ∀ cube ∈ p.cubes, (cube.view P p.prot).Covered := by
  apply forall₂_congr
  intro cube member
  have distinct := wellFormed.named.slices_distinct
    (List.mem_append_left _ member)
  constructor
  · rintro covered page ⟨inside, shut⟩
    have state : p.prot (cube.pageAt P page) = .read := by
      cases state : p.prot (cube.pageAt P page) with
      | read => rfl
      | readWrite => exact (shut ⟨inside, state⟩).elim
    obtain ⟨slice, known, covers⟩ := covered page inside state
    exact Set.mem_iUnion.mpr ⟨slice.ptr,
      mem_pages.mpr ⟨slice, sliceAt_eq distinct known, covers⟩⟩
  · intro covered page inside state
    have shut : page ∉ (cube.view P p.prot).writable := by
      rintro ⟨-, writable⟩
      cases state.symm.trans writable
    obtain ⟨ptr, spans⟩ := Set.mem_iUnion.mp (covered ⟨inside, shut⟩)
    obtain ⟨slice, here, covers⟩ := mem_pages.mp spans
    exact ⟨slice, (mem_of_sliceAt here).1, covers⟩

/-- One step keeps the read-only pages covered exactly when it does not grow a
read-only block. -/
theorem step_covered_iff {event : Event} (wellFormed : p.WellFormed P)
    (covered : p.Covered P) (step : Step P p event p') :
    p'.Covered P ↔ (event.effect P p).GrowsOpen := by
  have deed := step.deed
  have after := step.wellFormed wellFormed
  rw [covered_iff wellFormed] at covered
  rw [covered_iff after]
  have decides : ∀ cube ∈ p.cubes, ∀ cube' label,
      Follows P p p' (event.effect P p) cube cube' label →
        ((cube'.view P p'.prot).Covered ↔
          (event.effect P p).GrowsWritable cube) := by
    intro cube member cube' label follows
    rw [← follows.grows]
    exact follows.step.covered_iff (view_wellFormed
      (wellFormed.placed cube member) (wellFormed.slices cube member))
      (covered cube member) follows.adds
  constructor
  · intro covered'
    cases effect : event.effect P p with
    | grows moved prot =>
        rw [effect] at deed decides
        obtain ⟨member, cube', member', label, follows⟩ :=
          deed.follows step.1 wellFormed (.inr ⟨prot, rfl⟩)
        exact (decides moved member cube' label follows).mp
          (covered' cube' member') rfl
    | other => trivial
    | opens faulted slices => trivial
  · intro open_ cube' member'
    rcases deed.simulates step.1 wellFormed cube' member' with
      blank | ⟨cube, member, label, follows⟩
    · exact fun page shut => (shut.2 (blank.writable shut.1)).elim
    · apply (decides cube member cube' label follows).mpr
      cases effect : event.effect P p with
      | grows moved prot =>
          rw [effect] at open_
          exact fun _ => open_
      | other => trivial
      | opens faulted slices => trivial

/-- Opening slices makes their pages writable. -/
theorem openSlices_writable {slices : List Slice} {slice : Slice} {page : Nat}
    (wellFormed : p.WellFormed P) (member : cube ∈ p.cubes)
    (known : slices.Sublist cube.slices) (inside : slice ∈ slices)
    (covers : slice.page.HasPage P page) :
    (p.openSlices P cube slices).prot (cube.pageAt P page) = .readWrite := by
  have distinct := wellFormed.named.slices_distinct
    (List.mem_append_left _ member)
  have view := view_openSlices (p := p) (wellFormed.placed cube member)
    (fun slice inside => wellFormed.slices cube member slice
      (known.subset inside))
    (fun slice inside => sliceAt_eq distinct (known.subset inside))
    ((known.map Slice.ptr).nodup distinct)
  have opened : page ∈ ((cube.bump slices).view P
      (p.openSlices P cube slices).prot).writable := by
    rw [view]
    exact .inr (Set.mem_biUnion (List.mem_map_of_mem inside)
      (mem_pages.mpr ⟨slice, sliceAt_eq distinct (known.subset inside),
        covers⟩))
  have state := opened.2
  rwa [Cube.pageAt, Cube.bump_page] at state

/-- The cube at an address is the first one that contains it. -/
theorem find_contains {addr : Nat} (wellFormed : p.WellFormed P)
    (member : cube ∈ p.cubes) (above : cube.page.addr ≤ addr)
    (below : addr < cube.page.addr + cube.page.size) :
    p.cubes.find? (·.contains addr) = some cube := by
  have contains_iff : ∀ other ∈ p.cubes, (other.contains addr = true ↔
      other.page.addr ≤ addr ∧
        addr < other.page.addr + other.page.size) := by
    intro other also
    rw [Cube.contains, wadd_eq (wellFormed.placed other also).fits]
    simp
  cases found : p.cubes.find? (·.contains addr) with
  | none =>
      have missed := List.find?_eq_none.mp found cube member
      exact (missed ((contains_iff cube member).mpr ⟨above, below⟩)).elim
  | some other =>
      have also := List.mem_of_find?_eq_some found
      obtain ⟨from_, to_⟩ := (contains_iff other also).mp
        (by simpa using List.find?_some found)
      by_cases same : other = cube
      · rw [same]
      · rcases wellFormed.apart other also cube member same with
          before | after
        · omega
        · omega

theorem progresses_of_covered (wellFormed : p.WellFormed P)
    (covered : p.Covered P) : p.Progresses P := by
  intro cube member addr above below shut idle errno os
  have placed := wellFormed.placed cube member
  have fits := wellFormed.slices cube member
  have number := Cube.pageAt_div placed above
  have over_iff : ∀ slice ∈ cube.slices,
      (slice.overPage cube.page.addr addr = true ↔
        slice.page.HasPage P ((addr - cube.page.addr) / P.bytes)) :=
    fun slice inside => overPage_iff placed (fits slice inside) above
  have fault : p.fault addr os = some (cube, openedSlices os
      (cube.slices.filter (·.overPage cube.page.addr addr))) := by
    have found := find_contains wellFormed member above below
    have own := wellFormed.own cube member
    have free : ∀ slice ∈ cube.slices,
        slice.overPage cube.page.addr addr = true → slice.nlinks = 0 :=
      fun slice inside spans =>
        idle slice inside ((over_iff slice inside).mp spans)
    simp only [Process.fault, found]
    rw [if_pos ⟨own, free⟩]
  -- the slice that covers the page is among those that are opened
  have read : p.prot (cube.pageAt P ((addr - cube.page.addr) / P.bytes)) =
      .read := by
    rw [number]
    cases state : p.prot (addr / P.bytes) with
    | read => rfl
    | readWrite => exact (shut state).elim
  have inside : (addr - cube.page.addr) / P.bytes * P.bytes <
      cube.page.size := by
    have reached := P.floor_le (addr - cube.page.addr)
    rw [PageSize.floor] at reached
    omega
  obtain ⟨slice, known, covers⟩ := covered cube member _ inside read
  refine (access_spec (P := P) (w := p.enter errno os) rfl).mono ?_ ?_
  · intro result w' ended zero
    rw [show (p.enter errno os).fault addr (p.enter errno os).os = _ from
      fault] at ended
    have all := ended.2 zero
    have writable := openSlices_writable (p := p) wellFormed member
      List.filter_sublist
      (List.mem_filter.mpr ⟨known, (over_iff slice known).mpr covers⟩) covers
    rw [number, ← all] at writable
    rw [Process.Writable, ended.1.prot]
    exact writable
  · rintro reason w' ⟨-, none, -⟩
    rw [show (p.enter errno os).fault addr (p.enter errno os).os = _ from
      fault] at none
    cases none

end Progress

/-- A run from a process without cubes keeps the read-only pages covered, and
its faults make progress, exactly when it never grows a read-only block. -/
theorem covered_visits_iff {P : PageSize} {start finish : Process}
    {trace : List (Process × Event)} (fresh : start.Fresh)
    (run : Run (Step P) start trace finish) :
    (∀ p ∈ visited trace finish, p.Covered P ∧ p.Progresses P) ↔
      ∀ point ∈ trace, (point.2.effect P point.1).GrowsOpen := by
  have initial : start.Covered P := by
    intro cube member
    rw [fresh.1] at member
    cases member
  have wellFormed := run.invariant (Process.WellFormed P)
    (fun _ _ _ before step => step.wellFormed before) fresh.wellFormed
  rw [← run.visits_iff (Process.WellFormed P) (Process.Covered P)
    (fun p event => (event.effect P p).GrowsOpen)
    (fun _ _ _ before step => step.wellFormed before)
    (fun _ _ _ before covered step => step_covered_iff before covered step)
    fresh.wellFormed initial]
  constructor
  · exact fun covered p seen => (covered p seen).1
  · exact fun covered p seen =>
      ⟨covered p seen,
        progresses_of_covered (wellFormed p seen) (covered p seen)⟩

/-- A block of one page with a slice for it, a first operation, and then a
growth of the block to two pages. -/
def growAfter (first : Op) : List Event :=
  [.smooth (.alloc 4096) 65536,
    .smooth (.slice 65536 4096) 0,
    .smooth first 0,
    .smooth (.realloc 65536 8192) 131072]

/-- The block is writable when it grows. -/
theorem covered_growAfter :
    (Process.loaded 1 "p").Fresh ∧
    ∀ p ∈ visited
        (replay .small (.loaded 1 "p") (growAfter (.store 65536 1)))
        ((Process.loaded 1 "p").after .small (growAfter (.store 65536 1))),
      p.Covered .small ∧ p.Progresses .small :=
  ⟨⟨rfl, rfl⟩, (covered_visits_iff ⟨rfl, rfl⟩
    (replay_run (by decide +kernel))).mpr (by decide +kernel)⟩

/-- The block is read-only when it grows, and the handler of a store to the new
page returns 0 without making it writable. -/
theorem not_covered_growAfter :
    ∃ start finish trace, start.Fresh ∧
      Run (Step .small) start trace finish ∧
      ¬finish.Covered .small ∧ ¬finish.Progresses .small := by
  refine ⟨.loaded 1 "p",
    (Process.loaded 1 "p").after .small (growAfter (.attach 2)), _,
    ⟨rfl, rfl⟩, replay_run (by decide +kernel), ?_, ?_⟩
  · intro covered
    obtain ⟨cube, member, inside, shut, bare⟩ :
        ∃ cube ∈ ((Process.loaded 1 "p").after .small
            (growAfter (.attach 2))).cubes,
          1 * PageSize.small.bytes < cube.page.size ∧
          ((Process.loaded 1 "p").after .small
            (growAfter (.attach 2))).prot (cube.pageAt .small 1) = .read ∧
          ∀ slice ∈ cube.slices, ¬slice.page.HasPage .small 1 := by
      decide +kernel
    obtain ⟨slice, known, covers⟩ := covered cube member 1 inside shut
    exact bare slice known covers
  · intro progresses
    obtain ⟨cube, member, above, below, shut, bare, returns⟩ :
        ∃ cube ∈ ((Process.loaded 1 "p").after .small
            (growAfter (.attach 2))).cubes,
          cube.page.addr ≤ 135168 ∧
          135168 < cube.page.addr + cube.page.size ∧
          ¬((Process.loaded 1 "p").after .small
            (growAfter (.attach 2))).Writable .small 135168 ∧
          (∀ slice ∈ cube.slices,
            slice.page.HasPage .small
              ((135168 - cube.page.addr) / PageSize.small.bytes) →
            slice.nlinks = 0) ∧
          ¬Ensures (access .small 135168)
            (fun result w' => result = 0 → w'.Writable .small 135168)
            (fun _ _ => False) (((Process.loaded 1 "p").after .small
              (growAfter (.attach 2))).enter 0 fun _ => .done 0 "a") := by
      decide +kernel
    exact returns (progresses cube member 135168 above below shut bare 0 _)

end CoralApi
