import Mathlib.Data.Set.Lattice
import Mathlib.Order.CompletePartialOrder
import Mathlib.Algebra.Group.Int.Defs

/-!
# Regions guarded by page protection

A domain of pages carries regions that may overlap.  Attaching a region
protects its pages and counts a link; a write fault on a page opens regions
over that page, which makes all of their pages writable and raises their
versions.  A version is meant to name the contents of its region, and a region
with links is meant to keep its contents.

A fault opens whole regions, so it may reach pages of a region that is not over
the faulting page.  The theorems below say which faults keep the two purposes.
-/

namespace PageGuard

/-- `region` indexes the regions, `page` the pages. -/
@[ext] structure State (Region Page : Type*) where
  pages : Region → Set Page
  domain : Set Page
  writable : Set Page
  links : Region → Int
  version : Region → Nat

variable {Region Page : Type*}

namespace State

/-- The pages that opening some regions makes writable. -/
def reach (s : State Region Page) (opened : Set Region) : Set Page :=
  ⋃ region ∈ opened, s.pages region

/-- No page of a region with links is writable. -/
def InFlightProtected (s : State Region Page) : Prop :=
  ∀ region, 0 < s.links region → Disjoint (s.pages region) s.writable

/-- Every protected page lies in a region. -/
def Covered (s : State Region Page) : Prop :=
  s.domain \ s.writable ⊆ ⋃ region, s.pages region

/-- A region whose version is still `version` has no writable page. -/
def Sealed (region : Region) (version : Nat) (s : State Region Page) : Prop :=
  version ≤ s.version region ∧
    (s.version region = version → Disjoint (s.pages region) s.writable)

/-- Opening these regions reaches no page of a region with links. -/
def SparesLinked (s : State Region Page) (opened : Set Region) : Prop :=
  ∀ region, 0 < s.links region →
    Disjoint (s.pages region) (s.reach opened)

/-- Opening these regions reaches no page of another region that is protected
as a whole. -/
def SparesProtected (s : State Region Page) (opened : Set Region) : Prop :=
  ∀ region, region ∉ opened → Disjoint (s.pages region) s.writable →
    Disjoint (s.pages region) (s.reach opened)

section Operations

variable [DecidableEq Region] (s : State Region Page)

/-- A new region over pages of the domain. -/
def watch (region : Region) (pages : Set Page) : State Region Page :=
  { s with pages := Function.update s.pages region pages }

def attach (region : Region) : State Region Page :=
  { s with
    writable := s.writable \ s.pages region
    links := Function.update s.links region (s.links region + 1) }

def detach (region : Region) : State Region Page :=
  { s with links := Function.update s.links region (s.links region - 1) }

open Classical in
noncomputable def openRegions (opened : Set Region) : State Region Page :=
  { s with
    writable := s.writable ∪ s.reach opened
    version := fun region =>
      if region ∈ opened then s.version region + 1 else s.version region }

/-- New pages, with the protection that all old pages have. -/
def grow (added addedWritable : Set Page) : State Region Page :=
  { s with
    domain := s.domain ∪ added
    writable := s.writable ∪ addedWritable }

end Operations

end State

inductive Label (Region Page : Type*) where
  | watch (region : Region)
  | attach (region : Region)
  | detach (region : Region)
  | fault (page : Page) (opened : Set Region)
  | grow (added : Set Page)
  | idle

/-- The steps of a guarded domain. -/
inductive Step [DecidableEq Region] :
    State Region Page → Label Region Page → State Region Page → Prop where
  | watch {s : State Region Page} {region : Region} {pages : Set Page}
      (unknown : s.pages region = ∅) (idle : s.links region = 0)
      (fresh : s.version region = 0) :
      Step s (.watch region) (s.watch region pages)
  | attach {s : State Region Page} {region : Region} :
      Step s (.attach region) (s.attach region)
  | detach {s : State Region Page} {region : Region} :
      Step s (.detach region) (s.detach region)
  | fault {s : State Region Page} {page : Page} {opened : Set Region}
      (spans : ∀ region ∈ opened, page ∈ s.pages region)
      (idle : ∀ region, page ∈ s.pages region → s.links region = 0) :
      Step s (.fault page opened) (s.openRegions opened)
  | growWritable {s : State Region Page} {added : Set Page}
      (new : Disjoint added s.domain) (uniform : s.domain ⊆ s.writable) :
      Step s (.grow added) (s.grow added added)
  | growProtected {s : State Region Page} {added : Set Page}
      (new : Disjoint added s.domain)
      (uniform : Disjoint s.domain s.writable) :
      Step s (.grow added) (s.grow added ∅)
  | idle {s : State Region Page} : Step s .idle s

/-- The regions that a step opens. -/
def Label.opened : Label Region Page → Set Region
  | .fault _ opened => opened
  | _ => ∅

/-- A step that adds pages adds writable ones. -/
def State.GrowsWritable (s : State Region Page) : Label Region Page → Prop
  | .grow _ => ¬Disjoint s.domain s.writable
  | _ => True

/-- The domain is not empty and holds the regions. -/
structure State.WellFormed (s : State Region Page) : Prop where
  domain : s.domain.Nonempty
  writable : s.writable ⊆ s.domain
  regions : ∀ region, s.pages region ⊆ s.domain

section Theorems

variable {s t : State Region Page} {label : Label Region Page}
  {region : Region} {version : Nat}

@[simp] theorem State.reach_empty : s.reach ∅ = ∅ := by
  simp [State.reach]

@[simp] theorem State.openRegions_empty : s.openRegions ∅ = s := by
  apply State.ext
  · rfl
  · rfl
  · simp [State.openRegions]
  · rfl
  · simp [State.openRegions]

/-- Regions may be opened one after the other. -/
theorem State.openRegions_insert {opened : Set Region}
    (other : region ∉ opened) :
    (s.openRegions {region}).openRegions opened =
      s.openRegions (insert region opened) := by
  apply State.ext
  · rfl
  · rfl
  · simp [State.openRegions, State.reach, Set.union_assoc]
  · rfl
  · funext raised
    by_cases same : raised = region
    · subst same
      simp [State.openRegions, other]
    · have kept : raised ∈ insert region opened ↔ raised ∈ opened :=
        Set.mem_insert_iff.trans (or_iff_right same)
      simp only [State.openRegions, Set.mem_singleton_iff, same, if_false]
      by_cases inside : raised ∈ opened
      · rw [if_pos inside, if_pos (kept.mpr inside)]
      · rw [if_neg inside, if_neg (mt kept.mp inside)]

variable [DecidableEq Region]

/-- A step keeps the regions with links protected exactly when what it opens
spares them. -/
theorem Step.inFlight_iff (wellFormed : s.WellFormed)
    (safe : s.InFlightProtected) (step : Step s label t) :
    t.InFlightProtected ↔ s.SparesLinked label.opened := by
  cases step with
  | @watch watched pages unknown idle fresh =>
      simp only [Label.opened, State.SparesLinked, State.reach_empty,
        Set.disjoint_empty, implies_true, iff_true]
      intro region linked
      have other : region ≠ watched := by
        rintro rfl
        exact absurd linked (by simp [State.watch, idle])
      simpa [State.watch, other] using safe region linked
  | @attach attached =>
      simp only [Label.opened, State.SparesLinked, State.reach_empty,
        Set.disjoint_empty, implies_true, iff_true]
      intro region linked
      by_cases same : region = attached
      · subst region
        exact Set.disjoint_sdiff_right
      · have before := safe region (by
          simpa [State.attach, same] using linked)
        exact before.mono_right Set.sdiff_subset
  | @detach detached =>
      simp only [Label.opened, State.SparesLinked, State.reach_empty,
        Set.disjoint_empty, implies_true, iff_true]
      intro region linked
      apply safe region
      by_cases same : region = detached
      · subst region
        simp only [State.detach, Function.update_self] at linked
        omega
      · simpa [State.detach, same] using linked
  | @fault page opened spans idle =>
      constructor
      · intro after region linked
        exact (after region linked).mono_right Set.subset_union_right
      · intro spares region linked
        exact Set.disjoint_union_right.mpr
          ⟨safe region linked, spares region linked⟩
  | @growWritable added new uniform =>
      simp only [Label.opened, State.SparesLinked, State.reach_empty,
        Set.disjoint_empty, implies_true, iff_true]
      intro region linked
      exact Set.disjoint_union_right.mpr ⟨safe region linked,
        (new.mono_right (wellFormed.regions region)).symm⟩
  | @growProtected added new uniform =>
      simp only [Label.opened, State.SparesLinked, State.reach_empty,
        Set.disjoint_empty, implies_true, iff_true]
      intro region linked
      simpa [State.grow] using safe region linked
  | idle => simpa [Label.opened, State.SparesLinked] using safe

/-- A region whose version still stands stays without writable pages while the
steps spare the protected regions. -/
theorem Step.sealed (wellFormed : s.WellFormed)
    (isSealed : s.Sealed region version) (step : Step s label t)
    (known : label ≠ .watch region)
    (spares : s.SparesProtected label.opened) : t.Sealed region version := by
  obtain ⟨reached, guarded⟩ := isSealed
  cases step with
  | @watch watched pages unknown idle fresh =>
      have other : region ≠ watched := by
        rintro rfl
        exact known rfl
      refine ⟨reached, fun same => ?_⟩
      simpa [State.watch, other] using guarded same
  | @attach attached =>
      exact ⟨reached, fun same => (guarded same).mono_right Set.sdiff_subset⟩
  | @detach detached => exact ⟨reached, guarded⟩
  | @fault page opened spans idle =>
      by_cases bumped : region ∈ opened
      · constructor
        · simp only [State.openRegions, bumped, if_true]
          omega
        · intro same
          simp only [State.openRegions, bumped, if_true] at same
          omega
      · refine ⟨by simpa [State.openRegions, bumped] using reached, ?_⟩
        intro same
        have before := guarded (by
          simpa [State.openRegions, bumped] using same)
        exact Set.disjoint_union_right.mpr
          ⟨before, spares region bumped before⟩
  | @growWritable added new uniform =>
      refine ⟨reached, fun same => ?_⟩
      exact Set.disjoint_union_right.mpr ⟨guarded same,
        (new.mono_right (wellFormed.regions region)).symm⟩
  | @growProtected added new uniform =>
      refine ⟨reached, fun same => ?_⟩
      simpa [State.grow] using guarded same
  | idle => exact ⟨reached, guarded⟩

/-- An attached region is sealed at its version. -/
theorem State.sealed_attach :
    (s.attach region).Sealed region (s.version region) :=
  ⟨le_refl _, fun _ => Set.disjoint_sdiff_right⟩

theorem Step.version_le (step : Step s label t) :
    s.version region ≤ t.version region := by
  cases step with
  | watch => exact le_refl _
  | attach => exact le_refl _
  | detach => exact le_refl _
  | @fault page opened spans idle =>
      simp only [State.openRegions]
      split
      · exact Nat.le_succ _
      · exact le_refl _
  | growWritable => exact le_refl _
  | growProtected => exact le_refl _
  | idle => exact le_refl _

/-- A step keeps every protected page under a region exactly when it adds no
protected page. -/
theorem Step.covered_iff (wellFormed : s.WellFormed) (covered : s.Covered)
    (step : Step s label t)
    (adds : ∀ added, label = .grow added → added.Nonempty) :
    t.Covered ↔ s.GrowsWritable label := by
  cases step with
  | @watch watched pages unknown idle fresh =>
      simp only [State.GrowsWritable, iff_true]
      intro page shut
      obtain ⟨region, spans⟩ := Set.mem_iUnion.mp (covered shut)
      have other : region ≠ watched := by
        rintro rfl
        simp [unknown] at spans
      exact Set.mem_iUnion.mpr ⟨region, by simpa [State.watch, other] using spans⟩
  | @attach attached =>
      simp only [State.GrowsWritable, iff_true]
      rintro page ⟨inside, shut⟩
      by_cases opened : page ∈ s.writable
      · have spans : page ∈ s.pages attached := by
          by_contra off
          exact shut ⟨opened, off⟩
        exact Set.mem_iUnion.mpr ⟨attached, spans⟩
      · exact covered ⟨inside, opened⟩
  | @detach detached =>
      simp only [State.GrowsWritable, iff_true]
      exact covered
  | @fault page opened spans idle =>
      simp only [State.GrowsWritable, iff_true]
      rintro page ⟨inside, shut⟩
      exact covered ⟨inside, fun opened => shut (.inl opened)⟩
  | @growWritable added new uniform =>
      have meets : ¬Disjoint s.domain s.writable := by
        obtain ⟨page, inside⟩ := wellFormed.domain
        exact Set.not_disjoint_iff.mpr ⟨page, inside, uniform inside⟩
      simp only [State.GrowsWritable, meets, not_false_eq_true, iff_true]
      rintro page ⟨inside | new_, shut⟩
      · exact (shut (.inl (uniform inside))).elim
      · exact (shut (.inr new_)).elim
  | @growProtected added new uniform =>
      simp only [State.GrowsWritable, uniform, not_true_eq_false, iff_false]
      intro after
      obtain ⟨page, member⟩ := adds added rfl
      have off : page ∉ s.domain := Set.disjoint_left.mp new member
      have shut : page ∈ (s.grow added ∅).domain \ (s.grow added ∅).writable := by
        refine ⟨.inr member, ?_⟩
        intro opened
        simp only [State.grow, Set.union_empty] at opened
        exact off (wellFormed.writable opened)
      obtain ⟨region, spans⟩ := Set.mem_iUnion.mp (after shut)
      exact off (wellFormed.regions region spans)
  | idle => simpa only [State.GrowsWritable, iff_true] using covered

end Theorems

end PageGuard
