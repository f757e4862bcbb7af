import CoralApi.Layout

/-!
# What the scans of the registry find

The blocks of the registry are apart.  A scan that looks for an address, for a
base or for a range then finds the same cube whatever the order of the
registry is, and the calls on a cube of another process are refused.
-/

namespace CoralApi

open Program

/-- The first match is the only one. -/
theorem find?_eq_of_unique {α : Type} {found : α → Bool} {items : List α}
    {item : α} (member : item ∈ items) (matched : found item = true)
    (unique : ∀ other ∈ items, found other = true → other = item) :
    items.find? found = some item := by
  cases result : items.find? found with
  | none =>
      exact absurd matched (List.find?_eq_none.mp result item member)
  | some other =>
      have also := List.mem_of_find?_eq_some result
      rw [unique other also (List.find?_some result)]

namespace Process.Plotted

variable {P : PageSize} {p : Process} {cube other : Cube} {addr size : Nat}

/-- Registered blocks with a common byte are the same. -/
theorem eq_of_common (plotted : p.Plotted P) (member : cube ∈ p.cubes)
    (also : other ∈ p.cubes) (here : cube.page.Holds addr)
    (there : other.page.Holds addr) : other = cube := by
  by_contra different
  obtain ⟨above, below⟩ := here
  obtain ⟨above', below'⟩ := there
  rcases plotted.apart other also cube member different with before | after
  · omega
  · omega

theorem holds_base (plotted : p.Plotted P) (member : cube ∈ p.cubes) :
    cube.page.Holds cube.page.addr := by
  have nonempty := (plotted.placed cube member).nonempty
  exact ⟨Nat.le_refl _, by omega⟩

theorem holds_range (plotted : p.Plotted P) (member : cube ∈ p.cubes)
    (nonempty : 0 < size) (word : addr + size < wordSize)
    (contains : cube.containsRange addr size = true) :
    cube.page.Holds addr := by
  simp only [Cube.containsRange, wadd_eq word,
    wadd_eq (plotted.placed cube member).fits, Bool.and_eq_true,
    decide_eq_true_eq] at contains
  exact ⟨contains.1, by omega⟩

theorem find?_base (plotted : p.Plotted P) (member : cube ∈ p.cubes) :
    p.cubes.find? (fun other => other.page.addr == cube.page.addr) =
      some cube := by
  refine find?_eq_of_unique member (beq_self_eq_true _) fun other also same => ?_
  have same : other.page.addr = cube.page.addr := beq_iff_eq.mp same
  exact plotted.eq_of_common member also (plotted.holds_base member)
    (same ▸ plotted.holds_base also)

theorem find?_containsRange (plotted : p.Plotted P) (member : cube ∈ p.cubes)
    (nonempty : 0 < size) (word : addr + size < wordSize)
    (contains : cube.containsRange addr size = true) :
    p.cubes.find? (·.containsRange addr size) = some cube := by
  refine find?_eq_of_unique member contains fun other also same => ?_
  exact plotted.eq_of_common member also
    (plotted.holds_range member nonempty word contains)
    (plotted.holds_range also nonempty word same)

end Process.Plotted

/-- The call fails with `EACCES` and leaves the process as it is. -/
def Process.Refuses {α : Type} (p : Process) (call : Prog α) (value : α) :
    Prop :=
  ∀ errno os, Ensures call
    (fun result w' =>
      result = value ∧ w'.errno = EACCES ∧ w'.toProcess = p)
    (fun _ _ => False) (p.enter errno os)

/-- The call returns the value, holds no lock, and leaves the process as it
is. -/
def Process.Returns {α : Type} (p : Process) (call : Prog α) (value : α) :
    Prop :=
  ∀ errno os, Ensures call
    (fun result w' => result = value ∧ w'.held = [] ∧ w'.toProcess = p)
    (fun _ _ => False) (p.enter errno os)

namespace Process

variable {P : PageSize} {p : Process} {cube : Cube} {slice : Slice}
  {addr size : Nat}

/-- The exit of a call that has found a cube of another process. -/
theorem ensures_refuse {α : Type} {mutex : Lock} {value : α} {w : World} :
    Ensures (do
      unlock mutex
      setErrno EACCES
      return value)
      (fun result w' =>
        result = value ∧ w'.errno = EACCES ∧ w'.toProcess = w.toProcess)
      (fun _ _ => False) w := by
  by_cases held : mutex ∈ w.held
  · apply Ensures.step (unlock_run held)
    exact ⟨rfl, rfl, rfl⟩
  · have missed : unlock mutex w = .ok () { w with misuse := true } := by
      simp [unlock, held]
    apply Ensures.step missed
    exact ⟨rfl, rfl, rfl⟩

theorem Laid.refuses_slice (laid : p.Laid P) (member : cube ∈ p.cubes)
    (foreign : cube.pid ≠ p.pid) (nonempty : 0 < size)
    (word : addr + size < wordSize)
    (contains : cube.containsRange addr size = true) :
    p.Refuses (CoralApi.slice P addr size) none := by
  intro errno os
  have first := laid.plotted.find?_containsRange member nonempty word contains
  unfold CoralApi.slice
  apply ensures_found rfl first
  apply ensures_handOver
  apply Ensures.step rfl
  split
  · exact ensures_refuse
  · rename_i own
    exact absurd foreign own

/-- `__slice` returns the slice that the cube has for the range. -/
theorem Laid.returns_slice (laid : p.Laid P) (member : cube ∈ p.cubes)
    (own : cube.pid = p.pid) (nonempty : 0 < size)
    (word : addr + size < wordSize)
    (contains : cube.containsRange addr size = true)
    (found : cube.findRange addr size = some slice) :
    p.Returns (CoralApi.slice P addr size) (some slice.ptr) := by
  intro errno os
  have first := laid.plotted.find?_containsRange member nonempty word contains
  unfold CoralApi.slice
  apply ensures_found rfl first
  apply ensures_handOver
  apply Ensures.step rfl
  split
  · rename_i foreign
    exact absurd own foreign
  · rw [found]
    apply Ensures.step (unlock_run List.mem_cons_self)
    refine ⟨rfl, ?_, rfl⟩
    exact List.erase_cons_head _ _

theorem Laid.refuses_realloc (laid : p.Laid P) (member : cube ∈ p.cubes)
    (foreign : cube.pid ≠ p.pid) (asked : size ≠ 0) :
    p.Refuses (inaccelRealloc P cube.page.addr size) none := by
  intro errno os
  have first := laid.plotted.find?_base member
  have positive := (laid.placed cube member).positive
  unfold inaccelRealloc
  rw [if_neg (Nat.ne_of_gt positive), if_neg asked]
  apply ensures_found rfl first
  apply ensures_handOver
  apply Ensures.step rfl
  split
  · exact ensures_refuse
  · rename_i own
    exact absurd foreign own

theorem Laid.refuses_attach (laid : p.Laid P) (member : cube ∈ p.cubes)
    (foreign : cube.pid ≠ p.pid) (inside : slice ∈ cube.slices) :
    p.Refuses (CoralApi.attach P slice.ptr) (-1) := by
  intro errno os
  have found := laid.named.findSlice_eq (List.mem_append_left _ member) inside
  unfold CoralApi.attach
  apply Ensures.step (derefSlice_run found)
  apply Ensures.step rfl
  split
  · exact ⟨rfl, rfl, rfl⟩
  · rename_i own
    exact absurd foreign own

theorem Laid.refuses_detach (laid : p.Laid P) (member : cube ∈ p.cubes)
    (foreign : cube.pid ≠ p.pid) (inside : slice ∈ cube.slices) :
    p.Refuses (CoralApi.detach slice.ptr) (-1) := by
  intro errno os
  have found := laid.named.findSlice_eq (List.mem_append_left _ member) inside
  unfold CoralApi.detach
  apply Ensures.step (derefSlice_run found)
  apply Ensures.step rfl
  split
  · exact ⟨rfl, rfl, rfl⟩
  · rename_i own
    exact absurd foreign own

end Process

end CoralApi
