import CoralApi.Terrain

/-!
# The registry is exact

In every state that the threads of a process reach, the registered cubes are
those that were returned and not freed, their blocks are apart, and what a scan
finds does not depend on the order of the registry.  The scan of `__slice` adds
an address and a size in machine words; where the sum wraps, it finds whichever
cube comes first.
-/

namespace CoralApi

open Program Transition

namespace Crowd

/-- Whatever the order of the registry, a scan that no mutex stops finds the
same cube. -/
def Ordered (s : Crowd) (found : Cube → Bool) : Prop :=
  ∀ cubes : List Cube, cubes.Perm s.process.cubes →
    s.Open found s.process.cubes → s.Open found cubes →
      cubes.find? found = s.process.cubes.find? found

/-- The registry is exact, but for the calls in progress. -/
structure Exact (P : PageSize) (s : Crowd) : Prop where
  /-- The registered cubes are those that were returned and not freed. -/
  registered : ∀ ptr, (∃ cube ∈ s.process.cubes, cube.ptr = ptr) ↔
    (ptr ∈ s.returned ∨ s.Returning ptr) ∧ ¬(ptr ∈ s.freed ∨ s.Freeing ptr)
  once : (s.process.cubes.map Cube.ptr).Nodup
  placed : ∀ cube ∈ s.process.cubes, ¬s.Moving cube.ptr →
    0 < cube.page.size ∧ P.bytes ∣ cube.page.addr ∧
      P.bytes ∣ cube.page.size ∧
      ∃ mapping ∈ s.process.maps, mapping.block = cube.page
  apart : ∀ cube ∈ s.process.cubes, ¬s.Moving cube.ptr →
    ∀ other ∈ s.process.cubes, ¬s.Moving other.ptr → cube ≠ other →
      cube.page.Disjoint other.page
  single : ∀ addr, ∀ cube ∈ s.process.cubes, ¬s.Moving cube.ptr →
    ∀ other ∈ s.process.cubes, ¬s.Moving other.ptr →
      cube.contains addr = true → other.contains addr = true → cube = other
  access : ∀ addr, s.Ordered (·.contains addr)
  base : ∀ addr, s.Ordered fun cube => cube.page.addr == addr

/-- What holds of the threads in every state. -/
structure Sound (P : PageSize) (s : Crowd) : Prop where
  counted : s.Counted
  guarded : s.Guarded
  charted : s.Charted P

section Sound

variable {P : PageSize} {s s' : Crowd} {cube other : Cube} {addr size : Nat}

theorem Step.sound {act : Act} (step : Step P s act s') (sound : s.Sound P) :
    s'.Sound P :=
  ⟨step.deal.counted sound.counted,
    step.deal.guarded sound.counted sound.guarded,
    step.deal.charted sound.counted sound.guarded sound.charted⟩

theorem Fresh.sound (fresh : s.Fresh) : s.Sound P := by
  obtain ⟨cubes, idle, returned, freed⟩ := fresh
  have silent : ∀ {α : Type} {f : Stage → Option α} {x : α},
      f .idle = none → ¬∃ thread, f (s.stage thread) = some x := by
    rintro α f x none ⟨thread, shown⟩
    rw [idle, none] at shown
    cases shown
  refine ⟨⟨?_, ?_, ?_, ?_, ?_⟩, ⟨?_, ?_⟩, ⟨?_, ?_, ?_⟩⟩
  · simp [registered, cubes]
  · rintro ptr (known | returning)
    · simp [returned] at known
    · exact (silent rfl returning).elim
  · rintro ptr (known | freeing)
    · simp [freed] at known
    · exact (silent rfl freeing).elim
  · intro ptr
    simp only [registered, cubes, List.map_nil, List.not_mem_nil, false_iff]
    rintro ⟨known | returning, -⟩
    · simp [returned] at known
    · exact silent rfl returning
  · exact fun thread cube shown => (silent rfl ⟨thread, shown⟩).elim
  · exact fun thread other ptr shown => (silent rfl ⟨thread, shown⟩).elim
  · exact fun thread cube shown => (silent rfl ⟨thread, shown⟩).elim
  all_goals
    intro ptr
    first
    | rintro block (⟨cube, member, -⟩ | shown)
      · simp [cubes] at member
      · exact (silent rfl shown).elim
    | rintro other block block' (⟨cube, member, -⟩ | shown)
      · simp [cubes] at member
      · exact (silent rfl shown).elim

theorem Sound.spot (member : cube ∈ s.process.cubes)
    (still : ¬s.Moving cube.ptr) : s.Spot P cube.ptr cube.page :=
  .inl ⟨cube, member, rfl, rfl, still⟩

/-- Cubes at rest with a common byte are the same. -/
theorem Sound.eq_of_common (sound : s.Sound P)
    (member : cube ∈ s.process.cubes) (still : ¬s.Moving cube.ptr)
    (also : other ∈ s.process.cubes) (rests : ¬s.Moving other.ptr)
    (here : cube.page.Holds addr) (there : other.page.Holds addr) :
    cube = other := by
  have same : cube.ptr = other.ptr := by
    by_contra different
    have apart := sound.charted.apart cube.ptr other.ptr _ _
      (Sound.spot member still) (Sound.spot also rests) different
    obtain ⟨above, below⟩ := here
    obtain ⟨above', below'⟩ := there
    rcases apart with before | after
    · omega
    · omega
  exact List.inj_on_of_nodup_map sound.counted.once member also same

theorem Sound.placed (sound : s.Sound P) (member : cube ∈ s.process.cubes)
    (still : ¬s.Moving cube.ptr) : cube.page.Placed P :=
  sound.charted.placed cube.ptr cube.page (Sound.spot member still)

/-- A cube that a scan visits is at rest. -/
theorem Open.still {found : Cube → Bool} {cubes : List Cube}
    (opened : s.Open found cubes) (visited : cube ∈ scanned found cubes) :
    ¬s.Moving cube.ptr := by
  rintro ⟨thread, moves⟩
  exact opened cube visited thread (locked_of_moving moves)

/-- Where the cubes at rest that a scan matches have a common byte, the scan
does not depend on the order. -/
theorem Sound.ordered (sound : s.Sound P) {found : Cube → Bool} (addr : Nat)
    (common : ∀ cube ∈ s.process.cubes, ¬s.Moving cube.ptr →
      found cube = true → cube.page.Holds addr) : s.Ordered found := by
  intro cubes permuted opened opened'
  have hit : ∀ {list : List Cube} {cube : Cube}, list.Perm s.process.cubes →
      s.Open found list → list.find? found = some cube →
        cube ∈ s.process.cubes ∧ ¬s.Moving cube.ptr ∧ found cube = true := by
    intro list cube same opened first
    exact ⟨same.mem_iff.mp (List.mem_of_find?_eq_some first),
      opened.still (find?_mem_scanned first),
      List.find?_some first⟩
  cases first : cubes.find? found with
  | none =>
      cases second : s.process.cubes.find? found with
      | none => rfl
      | some cube =>
          obtain ⟨member, -, matched⟩ := hit (.refl _) opened second
          have missed := List.find?_eq_none.mp first cube
            (permuted.mem_iff.mpr member)
          exact absurd matched missed
  | some cube =>
      obtain ⟨member, still, matched⟩ := hit permuted opened' first
      cases second : s.process.cubes.find? found with
      | none =>
          have missed := List.find?_eq_none.mp second cube member
          exact absurd matched missed
      | some other =>
          obtain ⟨also, rests, matched'⟩ := hit (.refl _) opened second
          rw [sound.eq_of_common member still also rests
            (common cube member still matched)
            (common other also rests matched')]

theorem Sound.holds_of_contains (sound : s.Sound P)
    (member : cube ∈ s.process.cubes) (still : ¬s.Moving cube.ptr)
    (contains : cube.contains addr = true) : cube.page.Holds addr := by
  simp only [Cube.contains, wadd_eq (sound.placed member still).fits,
    Bool.and_eq_true, decide_eq_true_eq] at contains
  exact contains

theorem Sound.exact (sound : s.Sound P) : s.Exact P := by
  refine ⟨?_, sound.counted.once, ?_, ?_, ?_, ?_, ?_⟩
  · intro ptr
    refine Iff.trans ?_ (sound.counted.exact ptr)
    simp only [registered, List.mem_map]
  · intro cube member still
    have placed := sound.placed member still
    exact ⟨placed.nonempty, placed.aligned, placed.whole,
      sound.charted.mapped cube.ptr cube.page (Sound.spot member still)⟩
  · intro cube member still other also rests different
    refine sound.charted.apart cube.ptr other.ptr _ _ (Sound.spot member still)
      (Sound.spot also rests) fun same => different ?_
    exact List.inj_on_of_nodup_map sound.counted.once member also same
  · intro addr cube member still other also rests here there
    exact sound.eq_of_common member still also rests
      (sound.holds_of_contains member still here)
      (sound.holds_of_contains also rests there)
  · intro addr
    exact sound.ordered addr fun cube member still contains =>
      sound.holds_of_contains member still contains
  · intro addr
    refine sound.ordered addr fun cube member still base => ?_
    have nonempty := (sound.placed member still).nonempty
    have base : cube.page.addr = addr := beq_iff_eq.mp base
    exact ⟨Nat.le_of_eq base, by omega⟩

theorem Sound.ordered_slice (sound : s.Sound P) (nonempty : 0 < size)
    (word : addr + size < wordSize) :
    s.Ordered (·.containsRange addr size) := by
  refine sound.ordered addr fun cube member still contains => ?_
  simp only [Cube.containsRange, wadd_eq word,
    wadd_eq (sound.placed member still).fits, Bool.and_eq_true,
    decide_eq_true_eq] at contains
  exact ⟨contains.1, by omega⟩

/-- The scan of `__slice` included, as long as its range is not empty and does
not wrap. -/
theorem registry_exact {start finish : Crowd}
    {trace : List (Crowd × Act)} (fresh : start.Fresh)
    (run : Run (Step P) start trace finish) :
    ∀ s ∈ visited trace finish, s.Exact P ∧
      ∀ addr size, 0 < size → addr + size < wordSize →
        s.Ordered (·.containsRange addr size) := by
  intro s seen
  have sound : s.Sound P := run.invariant (Sound P)
    (fun _ _ _ before step => step.sound before) fresh.sound s seen
  exact ⟨sound.exact, fun _ _ nonempty word =>
    sound.ordered_slice nonempty word⟩

end Sound

/-- The threads of a process that has loaded the library. -/
def loaded : Crowd := ⟨.loaded 1 "d", fun _ => .idle, [], []⟩

theorem fresh_loaded : loaded.Fresh := ⟨rfl, fun _ => rfl, rfl, rfl⟩

/-- The first thread allocates one byte, and the kernel and `mkstemp` give
these. -/
def allocated (s : Crowd) (cube : Cube) : Crowd :=
  let os : Nat → Reply := fun _ => .done cube.page.addr cube.id
  let s₁ := s.turn 0 (final (makeCube .small 1 (s.enter 0 0 os))) (.made cube)
  let s₂ := s₁.turn 0 (final (registerCube cube (s₁.enter 0 0 os)))
    (.listed cube)
  { s₂ with
    stage := Function.update s₂.stage 0 .idle
    returned := cube.ptr :: s₂.returned }

theorem run_allocated {s : Crowd} {cube : Cube} {os : Nat → Reply}
    (idle : s.stage 0 = .idle)
    (gives : os = fun _ => .done cube.page.addr cube.id)
    (made : Program.returned (makeCube .small 1 (s.enter 0 0 os)) =
      some (some cube))
    (listed : Program.returned (registerCube cube
      ((s.turn 0 (final (makeCube .small 1 (s.enter 0 0 os)))
        (.made cube)).enter 0 0 os)) = some none) :
    ∃ trace, Run (Step .small) s trace (s.allocated cube) := by
  subst gives
  let os : Nat → Reply := fun _ => .done cube.page.addr cube.id
  let s₁ := s.turn 0 (final (makeCube .small 1 (s.enter 0 0 os))) (.made cube)
  let s₂ := s₁.turn 0 (final (registerCube cube (s₁.enter 0 0 os)))
    (.listed cube)
  have step₁ : Step .small s (.make 0 1 0 os) s₁ :=
    .make idle (by decide) (eq_ok_final made)
  have here₁ : s₁.stage 0 = .made cube := rfl
  have step₂ : Step .small s₁ (.register 0 0 os) s₂ :=
    .register here₁ (eq_ok_final listed)
  have here₂ : s₂.stage 0 = .listed cube := rfl
  exact ⟨_, .cons step₁ (.cons step₂ (.cons (.giveOut here₂) (.nil _)))⟩

/-- Two blocks of a page. -/
def first : Cube := ⟨1, 0, ⟨65536, 4096⟩, 1, [], "a"⟩
def second : Cube := ⟨2, 0, ⟨131072, 4096⟩, 1, [], "b"⟩

def both : Crowd := (loaded.allocated first).allocated second

theorem run_both : ∃ trace, Run (Step .small) loaded trace both := by
  obtain ⟨trace, run⟩ := @run_allocated loaded first _ rfl rfl
    (by decide +kernel) (by decide +kernel)
  obtain ⟨trace', run'⟩ := @run_allocated (loaded.allocated first) second _ rfl
    rfl (by decide +kernel) (by decide +kernel)
  exact ⟨_, run.append run'⟩

theorem registry_exact_both :
    ∃ trace, Run (Step .small) loaded trace both ∧
      ∀ s ∈ visited trace both, s.Exact .small ∧
        ∀ addr size, 0 < size → addr + size < wordSize →
          s.Ordered (·.containsRange addr size) := by
  obtain ⟨trace, run⟩ := run_both
  exact ⟨trace, run, registry_exact fresh_loaded run⟩

/-- The range starts above both blocks, and its end wraps to below both. -/
theorem not_ordered_slice :
    ∃ start finish trace, start.Fresh ∧
      Run (Step .small) start trace finish ∧
      ∃ addr size, 0 < addr ∧ addr < wordSize ∧ 0 < size ∧ size < wordSize ∧
        ¬finish.Ordered (·.containsRange addr size) := by
  obtain ⟨trace, run⟩ := run_both
  refine ⟨loaded, both, trace, fresh_loaded, run, 196608, wordSize - 131072,
    by decide, by decide, by decide, by decide, ?_⟩
  intro ordered
  have idle : ∀ thread, both.stage thread = .idle := by
    intro thread
    by_cases here : thread = 0
    · subst here
      rfl
    · simp [both, allocated, turn, loaded]
  have opened : ∀ cubes, both.Open (·.containsRange 196608 (wordSize - 131072))
      cubes := by
    intro cubes cube _ thread held
    rw [idle] at held
    cases held
  have swapped : [second, first].Perm both.process.cubes := by decide +kernel
  have same := ordered [second, first] swapped (opened _) (opened _)
  revert same
  decide +kernel

end Crowd

end CoralApi
