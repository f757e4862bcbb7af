import CoralApi.Guard

/-!
# Arrays in flight

The pages of a slice with links are meant to be read-only.  A fault checks the
slices over its own page and then opens all of their pages, so the invariant
lives exactly as long as no fault opens a slice that shares a page with a slice
in flight.
-/

namespace CoralApi

open Transition

/-- The pages of the slices with links are read-only. -/
def Process.InFlightProtected (P : PageSize) (p : Process) : Prop :=
  ∀ cube ∈ p.cubes, ∀ slice ∈ cube.slices, 0 < slice.nlinks →
    ∀ page, slice.page.HasPage P page →
      p.prot (cube.pageAt P page) = .read

/-- No host store to a byte of a slice with links takes effect. -/
def Process.InFlightUnchanged (P : PageSize) (p : Process) : Prop :=
  ∀ cube ∈ p.cubes, ∀ slice ∈ cube.slices, 0 < slice.nlinks →
    ∀ addr, cube.page.addr + slice.offset ≤ addr →
      addr < cube.page.addr + slice.offset + slice.size →
      ¬p.Writable P addr

/-- No slice that is opened shares a page with a slice that has links. -/
def Effect.SparesLinked (P : PageSize) : Effect → Prop
  | .opens cube slices => ∀ slice ∈ cube.slices, 0 < slice.nlinks →
      ∀ opened ∈ slices, slice.page.Apart P opened.page
  | _ => True

instance (P : PageSize) (effect : Effect) :
    Decidable (effect.SparesLinked P) :=
  match effect with
  | .opens cube slices => inferInstanceAs (Decidable
      (∀ slice ∈ cube.slices, 0 < slice.nlinks →
        ∀ opened ∈ slices, slice.page.Apart P opened.page))
  | .other => inferInstanceAs (Decidable True)
  | .grows _ _ => inferInstanceAs (Decidable True)

section InFlight

variable {P : PageSize} {p p' : Process} {cube : Cube}

/-- The pages of a slice in its view are read-only pages of the process. -/
theorem disjoint_writable_iff {slice : Slice}
    (distinct : (cube.slices.map Slice.ptr).Nodup)
    (fits : slice.Fits P cube.page.size) (inside : slice ∈ cube.slices) :
    Disjoint ((cube.view P p.prot).pages slice.ptr)
        (cube.view P p.prot).writable ↔
      ∀ page, slice.page.HasPage P page →
        p.prot (cube.pageAt P page) = .read := by
  have here := sliceAt_eq distinct inside
  rw [Set.disjoint_left]
  constructor
  · intro disjoint page covers
    have bound := fits.inside
    have reached := covers.2
    have shut := disjoint (mem_pages.mpr ⟨slice, here, covers⟩)
    cases state : p.prot (cube.pageAt P page) with
    | read => rfl
    | readWrite => exact (shut ⟨by omega, state⟩).elim
  · intro shut page covered open_
    obtain ⟨slice', same, covers⟩ := mem_pages.mp covered
    cases here.symm.trans same
    rw [Cube.view, Set.mem_ofPred_eq, shut page covers] at open_
    cases open_.2

theorem inFlightProtected_iff (wellFormed : p.WellFormed P) :
    p.InFlightProtected P ↔
      ∀ cube ∈ p.cubes, (cube.view P p.prot).InFlightProtected := by
  have views : ∀ cube ∈ p.cubes, ((cube.view P p.prot).InFlightProtected ↔
      ∀ slice ∈ cube.slices, 0 < slice.nlinks → ∀ page,
        slice.page.HasPage P page → p.prot (cube.pageAt P page) = .read) := by
    intro cube member
    have distinct := wellFormed.named.slices_distinct
      (List.mem_append_left _ member)
    have fits := wellFormed.slices cube member
    constructor
    · intro safe slice inside linked
      have here := sliceAt_eq distinct inside
      exact (disjoint_writable_iff distinct (fits slice inside) inside).mp
        (safe slice.ptr (by simpa [Cube.view, here] using linked))
    · intro shut ptr linked
      cases here : cube.sliceAt ptr with
      | none => simp [Cube.view, here] at linked
      | some slice =>
          obtain ⟨inside, rfl⟩ := mem_of_sliceAt here
          apply (disjoint_writable_iff distinct (fits slice inside) inside).mpr
          exact shut slice inside (by simpa [Cube.view, here] using linked)
  exact forall₂_congr fun cube member => (views cube member).symm

theorem sparesLinked_iff {slices : List Slice} (wellFormed : p.WellFormed P)
    (member : cube ∈ p.cubes) (known : slices ⊆ cube.slices) :
    (cube.view P p.prot).SparesLinked {ptr | ptr ∈ slices.map Slice.ptr} ↔
      ∀ slice ∈ cube.slices, 0 < slice.nlinks →
        ∀ opened ∈ slices, slice.page.Apart P opened.page := by
  have distinct := wellFormed.named.slices_distinct
    (List.mem_append_left _ member)
  constructor
  · intro spares slice inside linked
    have here := sliceAt_eq distinct inside
    exact (apart_reach distinct known inside).mp
      (spares slice.ptr (by simpa [Cube.view, here] using linked))
  · intro apart ptr linked
    cases here : cube.sliceAt ptr with
    | none => simp [Cube.view, here] at linked
    | some slice =>
        obtain ⟨inside, rfl⟩ := mem_of_sliceAt here
        apply (apart_reach distinct known inside).mpr
        exact apart slice inside (by simpa [Cube.view, here] using linked)

/-- One step keeps the arrays in flight protected exactly when its fault
spares them. -/
theorem step_inFlight_iff {event : Event} (wellFormed : p.WellFormed P)
    (safe : p.InFlightProtected P) (step : Step P p event p') :
    p'.InFlightProtected P ↔ (event.effect P p).SparesLinked P := by
  have deed := step.deed
  have after := step.wellFormed wellFormed
  rw [inFlightProtected_iff wellFormed] at safe
  rw [inFlightProtected_iff after]
  have decides : ∀ cube ∈ p.cubes, ∀ cube' label,
      Follows P p p' (event.effect P p) cube cube' label →
        ((cube'.view P p'.prot).InFlightProtected ↔
          (cube.view P p.prot).SparesLinked
            ((event.effect P p).opened cube)) := by
    intro cube member cube' label follows
    rw [← follows.opened]
    exact follows.step.inFlight_iff (view_wellFormed
      (wellFormed.placed cube member) (wellFormed.slices cube member))
      (safe cube member)
  constructor
  · intro safe'
    cases effect : event.effect P p with
    | opens faulted slices =>
        rw [effect] at deed decides
        obtain ⟨member, cube', member', label, follows⟩ :=
          deed.follows step.1 wellFormed (.inl ⟨slices, rfl⟩)
        have spares := (decides faulted member cube' label follows).mp
          (safe' cube' member')
        rw [Effect.opened_self] at spares
        exact (sparesLinked_iff wellFormed member deed.opened).mp spares
    | other => trivial
    | grows moved prot => trivial
  · intro spares cube' member'
    rcases deed.simulates step.1 wellFormed cube' member' with
      blank | ⟨cube, member, label, follows⟩
    · intro ptr linked
      simp [Cube.view, Cube.sliceAt, blank.empty] at linked
    · apply (decides cube member cube' label follows).mpr
      cases effect : event.effect P p with
      | opens faulted slices =>
          rw [effect] at deed spares
          by_cases here : faulted = cube
          · subst here
            rw [Effect.opened_self]
            exact (sparesLinked_iff wellFormed member deed.opened).mpr spares
          · rw [Effect.opened_other here]
            simp [PageGuard.State.SparesLinked]
      | other => simp [Effect.opened, PageGuard.State.SparesLinked]
      | grows moved prot => simp [Effect.opened, PageGuard.State.SparesLinked]

/-- Read-only pages keep the bytes of the slices with links. -/
theorem unchanged_of_protected (wellFormed : p.WellFormed P)
    (safe : p.InFlightProtected P) : p.InFlightUnchanged P := by
  intro cube member slice inside linked addr above below writable
  have placed := wellFormed.placed cube member
  have fits := wellFormed.slices cube member slice inside
  have covers : slice.page.HasPage P ((addr - cube.page.addr) / P.bytes) :=
    fits.hasPage (by omega) (by omega)
  have shut := safe cube member slice inside linked _ covers
  rw [Cube.pageAt_div placed (by omega)] at shut
  cases shut.symm.trans writable

end InFlight

/-- A run from a process without cubes keeps the arrays in flight protected
exactly when no fault in it opens a slice that shares a page with one of
them. -/
theorem inFlightProtected_visits_iff {P : PageSize} {start finish : Process}
    {trace : List (Process × Event)} (fresh : start.Fresh)
    (run : Run (Step P) start trace finish) :
    (∀ p ∈ visited trace finish,
        p.InFlightProtected P ∧ p.InFlightUnchanged P) ↔
      ∀ point ∈ trace, (point.2.effect P point.1).SparesLinked P := by
  have initial : start.InFlightProtected P := by
    intro cube member
    rw [fresh.1] at member
    cases member
  have wellFormed := run.invariant (Process.WellFormed P)
    (fun _ _ _ before step => step.wellFormed before) fresh.wellFormed
  rw [← run.visits_iff (Process.WellFormed P) (Process.InFlightProtected P)
    (fun p event => (event.effect P p).SparesLinked P)
    (fun _ _ _ before step => step.wellFormed before)
    (fun _ _ _ before safe step => step_inFlight_iff before safe step)
    fresh.wellFormed initial]
  constructor
  · exact fun safe p seen => (safe p seen).1
  · exact fun safe p seen =>
      ⟨safe p seen, unchanged_of_protected (wellFormed p seen) (safe p seen)⟩

/-- One slice of the first page is in flight; a fault on the second page opens
another slice. -/
def faultBeside (addr size : Nat) : List Event :=
  [.smooth (.alloc 8192) 65536,
    .smooth (.slice 65536 4096) 0,
    .smooth (.slice addr size) 0,
    .smooth (.attach 2) 0,
    .smooth (.attach 3) 0,
    .smooth (.detach 3) 0,
    .smooth (.store 69632 1) 0]

/-- The opened slice has the second page only. -/
theorem inFlightProtected_faultBeside :
    (Process.loaded 1 "p").Fresh ∧
    ∀ p ∈ visited (replay .small (.loaded 1 "p") (faultBeside 69632 4096))
        ((Process.loaded 1 "p").after .small (faultBeside 69632 4096)),
      p.InFlightProtected .small ∧ p.InFlightUnchanged .small :=
  ⟨⟨rfl, rfl⟩, (inFlightProtected_visits_iff ⟨rfl, rfl⟩
    (replay_run (by decide +kernel))).mpr (by decide +kernel)⟩

/-- The opened slice has both pages. -/
theorem not_inFlightProtected_faultBeside :
    ∃ start finish trace, start.Fresh ∧
      Run (Step .small) start trace finish ∧
      ¬finish.InFlightProtected .small ∧ ¬finish.InFlightUnchanged .small := by
  refine ⟨.loaded 1 "p",
    (Process.loaded 1 "p").after .small (faultBeside 65536 8192), _,
    ⟨rfl, rfl⟩, replay_run (by decide +kernel), ?_, ?_⟩
  · intro safe
    obtain ⟨cube, member, slice, inside, linked, covers, writable⟩ :
        ∃ cube ∈ ((Process.loaded 1 "p").after .small
            (faultBeside 65536 8192)).cubes,
          ∃ slice ∈ cube.slices, 0 < slice.nlinks ∧
            slice.page.HasPage .small 0 ∧
            ((Process.loaded 1 "p").after .small
              (faultBeside 65536 8192)).prot (cube.pageAt .small 0) =
                .readWrite := by
      decide +kernel
    cases (safe cube member slice inside linked 0 covers).symm.trans writable
  · intro unchanged
    obtain ⟨cube, member, slice, inside, linked, above, below, writable⟩ :
        ∃ cube ∈ ((Process.loaded 1 "p").after .small
            (faultBeside 65536 8192)).cubes,
          ∃ slice ∈ cube.slices, 0 < slice.nlinks ∧
            cube.page.addr + slice.offset ≤ 65536 ∧
            65536 < cube.page.addr + slice.offset + slice.size ∧
            ((Process.loaded 1 "p").after .small
              (faultBeside 65536 8192)).Writable .small 65536 := by
      decide +kernel
    exact unchanged cube member slice inside linked 65536 above below writable

end CoralApi
