import CoralApi.BlockSpec
import CoralApi.Library.Keyed
import Mathlib.Data.List.Flatten

/-!
# Names of cubes and slices

No two live objects share a name, and the next name is not in use.  A pointer
to a slice then finds the one slice of that name, and a change at a pointer
touches one cube.
-/

namespace CoralApi

def Cube.names (cube : Cube) : List Nat :=
  cube.ptr :: cube.slices.map Slice.ptr

def Process.names (p : Process) : List Nat :=
  p.live.flatMap Cube.names

structure Process.Named (p : Process) : Prop where
  distinct : p.names.Nodup
  fresh : ∀ name ∈ p.names, name < p.nextPtr

instance (p : Process) : Decidable p.Named :=
  decidable_of_iff (p.names.Nodup ∧ ∀ name ∈ p.names, name < p.nextPtr)
    ⟨fun both => ⟨both.1, both.2⟩, fun named => ⟨named.1, named.2⟩⟩

theorem findSlice_mem {p : Process} {ptr : Nat} {cube : Cube} {slice : Slice}
    (found : p.findSlice ptr = some (cube, slice)) :
    cube ∈ p.live ∧ slice ∈ cube.slices ∧ slice.ptr = ptr := by
  obtain ⟨other, member, hit⟩ := List.exists_of_findSome?_eq_some found
  obtain ⟨slice', inside, same⟩ := Option.map_eq_some_iff.mp hit
  cases same
  refine ⟨member, List.mem_of_find?_eq_some inside, ?_⟩
  simpa using List.find?_some inside

namespace Process.Named

variable {p q : Process} {cube other : Cube} {slice : Slice}

theorem cubes_distinct (named : p.Named) :
    (p.live.map Cube.ptr).Nodup := by
  refine List.Nodup.sublist ?_ named.distinct
  unfold Process.names
  induction p.live with
  | nil => exact List.Sublist.refl _
  | cons cube cubes induction =>
      simp only [List.map_cons, List.flatMap_cons, Cube.names,
        List.cons_append]
      exact (induction.trans (List.sublist_append_right _ _)).cons_cons _

theorem slices_distinct (named : p.Named) (member : cube ∈ p.live) :
    (cube.slices.map Slice.ptr).Nodup := by
  have distinct := (List.nodup_flatMap.mp named.distinct).1 cube member
  exact (List.nodup_cons.mp distinct).2

theorem ptr_mem (member : cube ∈ p.live) : cube.ptr ∈ p.names :=
  List.mem_flatMap.mpr ⟨cube, member, List.mem_cons_self⟩

theorem slice_mem (member : cube ∈ p.live) (inside : slice ∈ cube.slices) :
    slice.ptr ∈ p.names :=
  List.mem_flatMap.mpr ⟨cube, member,
    List.mem_cons_of_mem _ (List.mem_map_of_mem inside)⟩

theorem same_cube (named : p.Named) (member : cube ∈ p.live)
    (also : other ∈ p.live) (same : cube.ptr = other.ptr) : cube = other :=
  Keyed.eq_of_key named.cubes_distinct member also same

/-- A slice is in one cube. -/
theorem same_owner (named : p.Named) (member : cube ∈ p.live)
    (also : other ∈ p.live) (owned : slice.ptr ∈ cube.slices.map Slice.ptr)
    (shared : slice.ptr ∈ other.slices.map Slice.ptr) : cube = other :=
  Keyed.eq_of_shared named.distinct member also
    (List.mem_cons_of_mem _ owned) (List.mem_cons_of_mem _ shared)

/-- A pointer finds the slice of that name. -/
theorem findSlice_eq (named : p.Named) (member : cube ∈ p.live)
    (inside : slice ∈ cube.slices) :
    p.findSlice slice.ptr = some (cube, slice) := by
  have here := Keyed.find?_eq (named.slices_distinct member) inside
  unfold Process.findSlice
  obtain ⟨before, after, split⟩ := List.append_of_mem member
  have missed : ∀ other ∈ before, (other.slices.find? fun found =>
      found.ptr == slice.ptr).map (fun found => (other, found)) = none := by
    intro other early
    cases hit : other.slices.find? (fun found => found.ptr == slice.ptr) with
    | none => rfl
    | some found =>
        have same : found.ptr = slice.ptr := by simpa using List.find?_some hit
        have also : other ∈ p.live := by simp [split, early]
        have owned : slice.ptr ∈ other.slices.map Slice.ptr :=
          List.mem_map.mpr ⟨found, List.mem_of_find?_eq_some hit, same⟩
        have shared := List.mem_map_of_mem (f := Slice.ptr) inside
        cases named.same_owner member also shared owned
        have distinct := named.cubes_distinct
        rw [split, List.map_append, List.map_cons, List.nodup_middle,
          List.nodup_cons] at distinct
        apply (distinct.1 _).elim
        exact List.mem_append_left _ (List.mem_map_of_mem early)
  rw [split, List.findSome?_append, List.findSome?_eq_none_iff.mpr missed,
    Option.none_or, List.findSome?_cons, here]
  rfl

theorem of_subperm (named : p.Named) (names : q.names.Subperm p.names)
    (nextPtr : p.nextPtr ≤ q.nextPtr) : q.Named := by
  refine ⟨?_, fun name member => ?_⟩
  · obtain ⟨list, permuted, sublist⟩ := names
    exact (List.Nodup.sublist sublist named.distinct).perm permuted
  · exact Nat.lt_of_lt_of_le (named.fresh name (names.subset member)) nextPtr

/-- A new object takes a name that no other object has. -/
theorem of_new (named : p.Named) {name : Nat}
    (names : q.names.Perm (name :: p.names)) (unused : p.nextPtr ≤ name)
    (taken : name < q.nextPtr) : q.Named := by
  refine ⟨?_, fun other member => ?_⟩
  · apply List.Nodup.perm _ names.symm
    refine List.nodup_cons.mpr ⟨fun member => ?_, named.distinct⟩
    exact absurd (named.fresh name member) (Nat.not_lt.mpr unused)
  · rcases List.mem_cons.mp (names.mem_iff.mp member) with same | old
    · rw [same]
      exact taken
    · have before := named.fresh other old
      omega

end Process.Named

namespace Process

variable {p : Process} {cube : Cube} {slice : Slice}

theorem live_modifyCube (ptr : Nat) (change : Cube → Cube) :
    (p.modifyCube ptr change).live =
      p.live.map fun cube => if cube.ptr = ptr then change cube else cube := by
  simp [live, modifyCube]

/-- A change at a pointer touches the one cube there. -/
theorem mem_modifyCube (named : p.Named) (member : cube ∈ p.cubes)
    {change : Cube → Cube} {cube' : Cube}
    (member' : cube' ∈ p.cubes.map fun other =>
      if other.ptr = cube.ptr then change other else other) :
    cube' = change cube ∨ cube' ∈ p.cubes ∧ cube'.ptr ≠ cube.ptr := by
  obtain ⟨other, also, rfl⟩ := List.mem_map.mp member'
  by_cases same : other.ptr = cube.ptr
  · have equal := named.same_cube (List.mem_append_left _ also)
      (List.mem_append_left _ member) same
    rw [if_pos same, equal]
    exact .inl rfl
  · rw [if_neg same]
    exact .inr ⟨also, same⟩

theorem names_modifyCube {ptr : Nat} {change : Cube → Cube}
    (same : ∀ cube, (change cube).names = cube.names) :
    (p.modifyCube ptr change).names = p.names := by
  simp only [names, live_modifyCube, List.flatMap_map]
  congr 1
  funext cube
  split
  · exact same cube
  · rfl

theorem names_addSlice (named : p.Named) (member : cube ∈ p.live) :
    (p.addSlice cube.ptr slice).names.Perm (slice.ptr :: p.names) := by
  obtain ⟨before, after, split, update, -⟩ :=
    Keyed.exists_split named.cubes_distinct member
  have added : (p.addSlice cube.ptr slice).live =
      before ++ { cube with slices := cube.slices ++ [slice] } :: after := by
    rw [← update fun cube => { cube with slices := cube.slices ++ [slice] }]
    exact live_modifyCube _ _
  rw [names, added, names, split]
  simp only [List.flatMap_append, List.flatMap_cons, Cube.names,
    List.map_append, List.map_cons, List.map_nil]
  have middle := @List.perm_middle _ slice.ptr
    (before.flatMap Cube.names ++ cube.ptr :: cube.slices.map Slice.ptr)
    (after.flatMap Cube.names)
  simpa using middle

theorem names_addCube {P : PageSize} (empty : cube.slices = []) :
    (p.addCube P cube).names.Perm (cube.ptr :: p.names) := by
  have added : (p.addCube P cube).live = p.cubes ++ cube :: p.orphans := by
    simp [live, addCube, mapBlock, protectPages]
  rw [names, added]
  refine (List.perm_middle.flatMap_right _).trans ?_
  simp [Cube.names, empty, names, live]

theorem live_freeCube (named : p.Named) (member : cube ∈ p.cubes) :
    (p.cubes.filter (fun other => other.ptr ≠ cube.ptr) ++
      cube :: p.orphans).Perm p.live := by
  have distinct : (p.cubes.map Cube.ptr).Nodup := by
    have distinct := named.cubes_distinct
    rw [live, List.map_append] at distinct
    exact (List.nodup_append.mp distinct).1
  obtain ⟨before, after, split, -, remove⟩ :=
    Keyed.exists_split distinct member
  rw [remove, live, split]
  simp only [List.append_assoc, List.cons_append]
  exact (List.perm_middle.append_left before)

theorem live_release (ptr : Nat) : (p.release ptr).live ⊆ p.live :=
  List.append_subset.mpr ⟨List.subset_append_left _ _, fun _ orphan =>
    List.mem_append_right _ (List.mem_filter.mp orphan).1⟩

theorem names_release (ptr : Nat) :
    (p.release ptr).names.Sublist p.names := by
  unfold names live
  rw [List.flatMap_append, List.flatMap_append]
  exact (List.filter_sublist.flatMap _).append_left _

/-- The cubes that stay in the registry stay as they are. -/
theorem mem_freeCube {cube' : Cube}
    (member' : cube' ∈ (p.freeCube cube).cubes) :
    cube' ∈ p.cubes ∧ cube'.ptr ≠ cube.ptr := by
  simp only [freeCube] at member'
  split at member'
  · obtain ⟨inside, different⟩ := List.mem_filter.mp member'
    exact ⟨inside, by simpa using different⟩
  · obtain ⟨other, inside, rfl⟩ := List.mem_map.mp member'
    obtain ⟨inside, different⟩ := List.mem_filter.mp inside
    have different : other.ptr ≠ cube.ptr := by simpa using different
    rw [if_neg different]
    exact ⟨inside, different⟩

theorem mem_freeCube_of_ne {other : Cube} (member : cube ∈ p.cubes)
    (different : cube.ptr ≠ other.ptr) : cube ∈ (p.freeCube other).cubes := by
  have left : cube ∈ p.cubes.filter fun found => found.ptr ≠ other.ptr :=
    List.mem_filter.mpr ⟨member, by simpa using different⟩
  unfold freeCube
  dsimp only
  split
  · exact left
  · exact List.mem_map.mpr ⟨cube, left, if_neg different⟩

theorem prot_freeCube : (p.freeCube cube).prot = p.prot := by
  simp only [freeCube]
  split
  · rfl
  · rfl

theorem names_freeCube (named : p.Named) (member : cube ∈ p.cubes) :
    (p.freeCube cube).names.Subperm p.names := by
  have same := (live_freeCube named member).flatMap_right Cube.names
  simp only [freeCube]
  split
  · exact (@names_release
      { p with
        cubes := p.cubes.filter fun other => other.ptr ≠ cube.ptr
        orphans := cube :: p.orphans } cube.ptr).subperm.trans same.subperm
  · rw [names_modifyCube]
    · exact same.subperm
    · exact fun _ => rfl

end Process

end CoralApi
