import CoralApi.Account
import CoralApi.Lookup
import Mathlib.Data.Nat.ModEq

/-!
# One slice for each range

A cube has one slice for an offset and a size.  The slice that `__slice` has
returned for a range is returned again at the same distance from the base,
wherever the block has moved, until the block is freed.  The containment test
of `__slice` adds in machine words: a range that wraps lies in any block below
it, and the first of them in the registry gets the slice.
-/

namespace CoralApi

open Program Transition

/-- The steps of a process, whatever ranges it asks slices for. -/
def Advance (P : PageSize) (p : Process) (event : Event) (p' : Process) : Prop :=
  event.op.Words ∧ p' = event.outcome P p

/-- The range of a `__slice` is not empty and does not wrap, and a new slice
can be made. -/
def Event.Straight (p : Process) (event : Event) : Prop :=
  match event.op with
  | .slice addr size => 0 < size ∧ addr + size < wordSize ∧
      ¬SliceStarves (p.enter event.errno event.os) addr size
  | _ => True

/-- The event does not free the block of a cube. -/
def Event.Spares (ptr : Nat) (p : Process) (event : Event) : Prop :=
  ∀ cube ∈ p.cubes, cube.ptr = ptr → event.frees cube.page.addr = false

/-- No two slices have the same place. -/
def Cube.Single (cube : Cube) : Prop :=
  (cube.slices.map fun slice => (slice.offset, slice.size)).Nodup

/-- Whenever a call has returned a slice and the block has not been freed
since, a call for the same distance and size returns it again, with what it
has accumulated. -/
def Stable (P : PageSize) (trace : List (Process × Event)) (p : Process) :
    Prop :=
  ∀ past before event mid addr size ptr,
    trace = past ++ (before, event) :: mid → event.op = .slice addr size →
    returned (slice P addr size (before.enter event.errno event.os)) =
      some (some ptr) →
    ∃ cube ∈ (event.outcome P before).cubes, ∃ slice ∈ cube.slices,
      slice.ptr = ptr ∧ ∀ distance, addr = wadd cube.page.addr distance →
        (∀ point ∈ mid, point.2.Spares cube.ptr point.1) →
        ∃ cube' ∈ p.cubes, cube'.ptr = cube.ptr ∧ ∃ slice' ∈ cube'.slices,
          slice.Credited
            (mid.map fun point => point.2.bumps P point.1 ptr).sum
            (mid.map fun point => point.2.links P point.1 ptr).sum slice' ∧
          p.Returns (CoralApi.slice P (wadd cube'.page.addr distance) size)
            (some ptr)

section Single

variable {P : PageSize} {p p' : Process} {cube : Cube} {event : Event}

theorem Event.Straight.sized (straight : event.Straight p)
    (words : event.op.Words) : event.op.Sized := by
  obtain ⟨op, errno, os⟩ := event
  cases op with
  | alloc size => exact words
  | realloc addr newSize => exact words
  | slice addr size => exact straight.2.1
  | free addr => trivial
  | attach ptr => trivial
  | detach ptr => trivial
  | store addr byte => trivial
  | woken ptr error => trivial

/-- The places of the slices, in order. -/
def Cube.places (cube : Cube) : List (Nat × Nat) :=
  cube.slices.map fun slice => (slice.offset, slice.size)

theorem Cube.places_modifySlice {ptr : Nat} {change : Slice → Slice}
    (offset : ∀ slice, (change slice).offset = slice.offset)
    (size : ∀ slice, (change slice).size = slice.size) :
    (cube.modifySlice ptr change).places = cube.places := by
  simp only [Cube.places, Cube.modifySlice, List.map_map]
  apply List.map_congr_left
  intro slice inside
  simp only [Function.comp_apply]
  split
  · rw [offset, size]
  · rfl

/-- The places of the slices of every cube are as they should be. -/
def Process.Settles (good : List (Nat × Nat) → Prop) (p : Process) : Prop :=
  ∀ cube ∈ p.live, good cube.places

/-- No cube of the process has two slices of one place. -/
def Process.Single (p : Process) : Prop := ∀ cube ∈ p.live, cube.Single

section Settles

variable {good : List (Nat × Nat) → Prop}

theorem Process.Settles.agrees (settles : p.Settles good)
    (agrees : p.Agrees p') : p'.Settles good := by
  rw [Process.Settles, agrees.live]
  exact settles

theorem Process.Settles.of_subset (settles : p.Settles good)
    (subset : p'.live ⊆ p.live) : p'.Settles good :=
  fun cube member => settles cube (subset member)

theorem Process.Settles.modifyCube {ptr : Nat} {change : Cube → Cube}
    (settles : p.Settles good) (keeps : ∀ cube ∈ p.live, cube.ptr = ptr →
      good cube.places → good (change cube).places) :
    (p.modifyCube ptr change).Settles good := by
  intro cube' member'
  rw [Process.live_modifyCube] at member'
  obtain ⟨cube, member, rfl⟩ := List.mem_map.mp member'
  split
  · rename_i here
    exact keeps cube member here (settles cube member)
  · exact settles cube member

theorem Process.Settles.same {ptr : Nat} {change : Cube → Cube}
    (settles : p.Settles good)
    (same : ∀ cube : Cube, (change cube).places = cube.places) :
    (p.modifyCube ptr change).Settles good :=
  settles.modifyCube fun cube _ _ before => (same cube).symm ▸ before

theorem Process.Settles.unlinkSlice (settles : p.Settles good)
    (cube slice : Nat) : (p.unlinkSlice cube slice).Settles good := by
  have lowered : (p.modifyCube cube fun cube =>
      { cube.modifySlice slice fun slice =>
          { slice with nlinks := slice.nlinks - 1 } with
        nlinks := cube.nlinks - 1 }).Settles good :=
    settles.same fun cube => @Cube.places_modifySlice cube slice
      (fun slice => { slice with nlinks := slice.nlinks - 1 })
      (fun _ => rfl) fun _ => rfl
  exact lowered

theorem Process.Settles.release (settles : p.Settles good) (ptr : Nat) :
    (p.release ptr).Settles good :=
  settles.of_subset (Process.live_release ptr)

theorem Process.Settles.openSlices (settles : p.Settles good)
    (opened : List Slice) : (p.openSlices P cube opened).Settles good := by
  induction opened generalizing p with
  | nil => exact settles
  | cons slice opened induction =>
      refine @induction (p.openSlice P cube slice) ?_
      have shut : (p.protectPages P (wadd cube.page.addr slice.page.offset)
          slice.page.size .readWrite).Settles good := settles
      exact shut.same fun cube =>
        Cube.places_modifySlice (fun _ => rfl) fun _ => rfl

theorem Process.Settles.freeCube (settles : p.Settles good) (named : p.Named)
    (member : cube ∈ p.cubes) : (p.freeCube cube).Settles good := by
  let left : Process :=
    { p with
      cubes := p.cubes.filter fun other => other.ptr ≠ cube.ptr
      orphans := cube :: p.orphans }
  have leaves : left.Settles good :=
    settles.of_subset (Process.live_freeCube named member).subset
  unfold Process.freeCube
  dsimp only
  split
  · exact leaves.release cube.ptr
  · exact leaves.same fun _ => rfl

/-- Only `__slice` makes a new place. -/
theorem Deed.settles {effect : Effect} (deed : Deed P p event effect p')
    (named : p.Named) (empty : good [])
    (slices : ∀ cube ∈ p.live, ∀ addr size ptr,
      event.op = .slice addr size → good cube.places →
        good (Cube.places { cube with
          slices := cube.slices ++ [CoralApi.newSlice P cube addr size ptr] }))
    (settles : p.Settles good) : p'.Settles good := by
  cases deed with
  | agrees agrees => exact settles.agrees agrees
  | beside pid cubes orphans nextPtr maps mapped prot =>
      rw [Process.Settles, Process.live, cubes, orphans]
      exact settles
  | @alloc cube p' sliceless own whole admits fresh made agrees =>
      refine Process.Settles.agrees (p := p.addCube P cube) ?_ agrees
      intro other member
      have cases : other ∈ (p.cubes ++ [cube]) ++ p.orphans := member
      simp only [List.mem_append, List.mem_singleton] at cases
      rcases cases with (old | rfl) | orphan
      · exact settles other (List.mem_append_left _ old)
      · rw [Cube.places, sliceless]
        exact empty
      · exact settles other (List.mem_append_right _ orphan)
  | @free cube addr maps p' frees member base unmapped agrees =>
      have freed := settles.freeCube named member
      exact Process.Settles.agrees
        (p := { p.freeCube cube with maps := maps }) freed agrees
  | @grow cube page prot p' member own longer whole uniform admits agrees =>
      have moved : (p.remapBlock P cube.page page prot).Settles good := settles
      refine Process.Settles.agrees ?_ agrees
      exact moved.same fun _ => rfl
  | @slice cube addr size ptr p' asks member own contains fresh agrees =>
      refine Process.Settles.agrees (p := p.addSlice cube.ptr
        (newSlice P cube addr size ptr)) ?_ agrees
      refine settles.modifyCube fun other also same before => ?_
      cases named.same_cube also (List.mem_append_left _ member) same
      exact slices cube also addr size ptr asks before
  | @attach cube slice p' attaches member own inside agrees =>
      have shut : (p.protectPages P (wadd cube.page.addr slice.page.offset)
          slice.page.size .read).Settles good := settles
      refine Process.Settles.agrees ?_ agrees
      exact shut.same fun cube => @Cube.places_modifySlice cube slice.ptr
        (fun slice => { slice with nlinks := slice.nlinks + 1 })
        (fun _ => rfl) fun _ => rfl
  | @detach cube slice p' detaches member own inside agrees =>
      have lowered := settles.unlinkSlice cube.ptr slice.ptr
      rcases agrees with kept | released
      · exact lowered.agrees kept
      · have removed : ((p.unlinkSlice cube.ptr slice.ptr).unlinkFile
            cube.id).Settles good := lowered
        exact (removed.release cube.ptr).agrees released
  | fault member own contains idle known spans agrees =>
      exact (settles.openSlices _).agrees agrees

end Settles

/-- A new slice has a place of its own, whether its range wraps or not. -/
theorem Cube.Single.newSlice {addr size ptr : Nat} (single : cube.Single)
    (word : addr < wordSize) (base : cube.page.addr ≤ wordSize)
    (new : cube.findRange addr size = none) :
    Cube.Single
      { cube with
        slices := cube.slices ++ [CoralApi.newSlice P cube addr size ptr] } := by
  simp only [Cube.Single, List.map_append, List.map_singleton]
  refine List.nodup_append.mpr ⟨single, List.nodup_singleton _, ?_⟩
  rintro place known other last rfl
  obtain ⟨slice, inside, rfl⟩ := List.mem_map.mp known
  obtain ⟨offset, size'⟩ := Prod.mk.inj (List.mem_singleton.mp last)
  have missed := List.find?_eq_none.mp new slice inside
  rw [show slice.offset = wsub addr cube.page.addr from offset,
    wadd_wsub word base, show slice.size = size from size'] at missed
  simp at missed

theorem Advance.single (step : Advance P p event p') (plotted : p.Plotted P)
    (single : p.Single) : p'.Single := by
  obtain ⟨words, rfl⟩ := step
  by_cases slices : ∃ addr size, event.op = .slice addr size
  · obtain ⟨op, errno, os⟩ := event
    obtain ⟨addr, size, rfl⟩ := slices
    apply final_of Process.Single
      (slice_spec (P := P) (w := p.enter errno os) rfl) ?_
      (fun _ _ => False.elim)
    intro result w' outcome
    have settles : p.Settles List.Nodup := single
    cases outcome with
    | missed fed quiet => exact settles.agrees quiet.agrees
    | starved starves member quiet => exact settles.agrees quiet.agrees
    | known fed first own found quiet => exact settles.agrees quiet.agrees
    | @made cube ptr w' fed first own contains new fresh effect =>
        refine Process.Settles.agrees (p := p.addSlice cube.ptr
          (newSlice P cube addr size ptr)) ?_ effect.agrees
        have registered : cube ∈ p.cubes := List.mem_of_find?_eq_some first
        have base := (plotted.placed cube registered).fits
        refine settles.modifyCube fun other also same before => ?_
        cases plotted.named.same_cube also (List.mem_append_left _ registered)
          same
        exact Cube.Single.newSlice before words.1 (by omega) new
  · refine (event_deed words).settles plotted.named List.nodup_nil ?_ single
    exact fun _ _ addr size _ asks => absurd ⟨addr, size, asks⟩ slices

theorem Process.Fresh.single (fresh : p.Fresh) : p.Single := by
  intro cube member
  rw [Process.live, fresh.1, fresh.2] at member
  cases member

/-- In every run, whatever the ranges, no two slices of a cube have one offset
and one size. -/
theorem slices_single {start finish : Process} {trace : List (Process × Event)}
    (fresh : start.Fresh) (run : Run (Advance P) start trace finish) :
    ∀ p ∈ visited trace finish, p.Single := by
  have both := run.invariant (fun p => p.Plotted P ∧ p.Single)
    (fun p event p' before step => ⟨step.2 ▸ (event_deed step.1).plotted
      before.1, step.single before.1 before.2⟩) ⟨fresh.laid.plotted, fresh.single⟩
  exact fun p member => (both p member).2

end Single

section Stable

variable {P : PageSize} {p p' start finish : Process} {cube : Cube}
  {slice : Slice} {event : Event} {trace : List (Process × Event)}

/-- What holds after every event. -/
structure Process.Orderly (P : PageSize) (p : Process) : Prop where
  laid : p.Laid P
  single : p.Single

theorem Process.Fresh.orderly (fresh : p.Fresh) : p.Orderly P :=
  ⟨fresh.laid, fresh.single⟩

theorem Advance.orderly (step : Advance P p event p')
    (straight : event.Straight p) (orderly : p.Orderly P) :
    p'.Orderly P := by
  refine ⟨?_, step.single orderly.laid.plotted orderly.single⟩
  obtain ⟨words, rfl⟩ := step
  exact (event_deed words).laid (straight.sized words) orderly.laid

/-- A distance that leads to one byte from a base leads to one byte from every
base. -/
theorem wadd_congr {base base' distance offset : Nat}
    (same : wadd base distance = wadd base offset) :
    wadd base' distance = wadd base' offset := by
  have congruent : Nat.ModEq wordSize distance offset :=
    Nat.ModEq.add_left_cancel' base same
  exact congruent.add_left base'

/-- `__slice` finds a slice at the place where its cube has it. -/
theorem Process.Orderly.returns (orderly : p.Orderly P)
    (member : cube ∈ p.cubes) (own : cube.pid = p.pid)
    (inside : slice ∈ cube.slices) (nonempty : 0 < slice.size) :
    p.Returns (CoralApi.slice P (wadd cube.page.addr slice.offset) slice.size)
      (some slice.ptr) := by
  have placed := orderly.laid.placed cube member
  have fits := orderly.laid.slices cube member slice inside
  have bound := placed.fits
  have start := fits.start
  have finish := fits.finish
  have within := fits.inside
  have addr : wadd cube.page.addr slice.offset =
      cube.page.addr + slice.offset := wadd_eq (by omega)
  have contains : cube.containsRange (wadd cube.page.addr slice.offset)
      slice.size = true := by
    simp only [Cube.containsRange, addr, Bool.and_eq_true, decide_eq_true_eq]
    rw [wadd_eq (by omega), wadd_eq bound]
    omega
  refine orderly.laid.returns_slice member own nonempty (by omega) contains ?_
  refine find?_eq_of_unique inside (by simp) fun other also found => ?_
  simp only [Bool.and_eq_true, beq_iff_eq] at found
  have fits' := orderly.laid.slices cube member other also
  have start' := fits'.start
  have finish' := fits'.finish
  have within' := fits'.inside
  have addr' : wadd cube.page.addr other.offset =
      cube.page.addr + other.offset := wadd_eq (by omega)
  have single := orderly.single cube (List.mem_append_left _ member)
  refine List.inj_on_of_nodup_map single also inside (Prod.ext ?_ ?_)
  · show other.offset = slice.offset
    omega
  · exact found.2.symm

/-- The slice that a call has returned is in a cube over its range. -/
theorem slice_returned {addr size ptr errno : Nat} {os : Nat → Reply}
    (laid : p.Laid P) (word : addr < wordSize)
    (answer : returned (CoralApi.slice P addr size (p.enter errno os)) =
      some (some ptr)) :
    ∃ cube ∈ (Event.outcome P p ⟨.slice addr size, errno, os⟩).cubes,
      cube.pid = p.pid ∧ ∃ slice ∈ cube.slices, slice.ptr = ptr ∧
        slice.size = size ∧ addr = wadd cube.page.addr slice.offset := by
  have run := eq_ok_final answer
  have outcome := (slice_spec (P := P) (w := p.enter errno os) rfl).of_ok run
  have after : Event.outcome P p ⟨.slice addr size, errno, os⟩ =
      (final (CoralApi.slice P addr size (p.enter errno os))).toProcess :=
    congrArg World.toProcess final_void
  rw [after]
  cases outcome with
  | @known cube slice w' fed first own found quiet =>
      rw [quiet.cubes]
      have matched := List.find?_some found
      simp only [Bool.and_eq_true, beq_iff_eq] at matched
      exact ⟨cube, List.mem_of_find?_eq_some first, own, slice,
        List.mem_of_find?_eq_some found, rfl, matched.2.symm, matched.1⟩
  | @made cube ptr w' fed first own contains new fresh effect =>
      have contained := contains
      simp only [Cube.containsRange, Bool.and_eq_true, decide_eq_true_eq]
        at contained
      have placed := laid.placed cube (List.mem_of_find?_eq_some first)
      have bound := placed.fits
      have distance : wsub addr cube.page.addr = addr - cube.page.addr :=
        wsub_eq contained.1 (by omega)
      have back : wadd cube.page.addr (wsub addr cube.page.addr) = addr := by
        rw [distance, wadd_eq (by omega)]
        omega
      rw [effect.cubes]
      refine ⟨_, List.mem_map_of_mem (List.mem_of_find?_eq_some first), ?_⟩
      rw [if_pos rfl]
      exact ⟨own, newSlice P cube addr size ptr, List.mem_concat_self, rfl, rfl,
        back.symm⟩

/-- A cube that no event of a run frees is there at the end, credited with
what the events have added. -/
theorem run_credits (run : Run (Advance P) start trace finish)
    (straight : ∀ point ∈ trace, point.2.Straight point.1)
    (orderly : start.Orderly P) (member : cube ∈ start.cubes)
    (spared : ∀ point ∈ trace, point.2.Spares cube.ptr point.1) :
    ∃ cube' ∈ finish.cubes, cube.Credited
      (fun ptr => (trace.map fun point => point.2.bumps P point.1 ptr).sum)
      (fun ptr => (trace.map fun point => point.2.links P point.1 ptr).sum)
      cube' := by
  induction run generalizing cube with
  | nil => exact ⟨cube, member, .of_silent fun _ _ => ⟨rfl, rfl⟩⟩
  | @cons start middle finish event trace step rest induction =>
      rw [List.forall_mem_cons] at straight spared
      have next := step.orderly straight.1 orderly
      obtain ⟨cube₁, member₁, credited⟩ := Event.credits step.1 orderly.laid
        member (spared.1 cube member rfl)
      rw [← step.2] at member₁
      obtain ⟨cube', member', later⟩ := induction straight.2 next member₁
        (credited.same.ptr ▸ spared.2)
      refine ⟨cube', member', ?_⟩
      simp only [List.map_cons, List.sum_cons]
      exact credited.trans later

theorem Advance.pid (step : Advance P p event p') : p'.pid = p.pid := by
  obtain ⟨words, rfl⟩ := step
  exact (event_deed (P := P) words).descends.1

/-- What holds after a run. -/
theorem run_orderly (run : Run (Advance P) start trace finish)
    (straight : ∀ point ∈ trace, point.2.Straight point.1)
    (orderly : start.Orderly P) :
    finish.Orderly P ∧ finish.pid = start.pid := by
  have both := run.invariant_under
    (fun p => p.Orderly P ∧ p.pid = start.pid)
    (fun p event => event.Straight p) ?_ ⟨orderly, rfl⟩ straight
  · exact both finish (finish_mem_visited trace finish)
  · intro p event p' before straight step
    exact ⟨step.orderly straight before.1,
      step.pid.trans before.2⟩

/-- In every run whose slices are asked for ranges that are not empty and do
not wrap, each range keeps its one slice. -/
theorem slice_stable (fresh : start.Fresh)
    (run : Run (Advance P) start trace finish)
    (straight : ∀ point ∈ trace, point.2.Straight point.1) :
    finish.Single ∧ Stable P trace finish := by
  refine ⟨slices_single fresh run finish (finish_mem_visited trace finish), ?_⟩
  intro past before event mid addr size ptr split slices answer
  subst split
  obtain ⟨before', first, second⟩ := run.of_append
  obtain ⟨rfl, after, step, rest⟩ := second.of_cons
  rw [List.forall_mem_append, List.forall_mem_cons] at straight
  obtain ⟨straightPast, straightHere, straightMid⟩ := straight
  have orderly := (run_orderly first straightPast fresh.orderly).1
  have next := step.orderly straightHere orderly
  have kept := step.pid
  obtain ⟨last, same⟩ := run_orderly rest straightMid next
  obtain ⟨op, errno, os⟩ := event
  cases slices
  have word : addr + size < wordSize := straightHere.2.1
  obtain ⟨cube, member, own, slice, inside, rfl, rfl, found⟩ :=
    slice_returned orderly.laid (by omega) answer
  refine ⟨cube, member, slice, inside, rfl, fun distance here spared => ?_⟩
  rw [← step.2] at member
  obtain ⟨cube', member', credited⟩ :=
    run_credits rest straightMid next member spared
  obtain ⟨slice', inside', later⟩ := credited.slices slice inside
  refine ⟨cube', member', credited.same.ptr, slice', inside', later, ?_⟩
  have own' : cube'.pid = finish.pid := by
    rw [credited.same.pid, own, same, kept]
  have nonempty : 0 < slice'.size := later.size ▸ straightHere.1
  have returns := last.returns member' own' inside' nonempty
  have moved : wadd cube'.page.addr distance =
      wadd cube'.page.addr slice'.offset := by
    rw [later.offset]
    exact wadd_congr (here.symm.trans found)
  rw [moved, ← later.ptr, ← later.size]
  exact returns

/-- A run of events on words. -/
theorem advance_run {events : List Event}
    (words : ∀ event ∈ events, event.op.Words) :
    Run (Advance P) p (replay P p events) (p.after P events) := by
  induction events generalizing p with
  | nil => exact .nil p
  | cons event events induction =>
      rw [List.forall_mem_cons] at words
      exact .cons ⟨words.1, rfl⟩ (induction words.2)

end Stable

/-- A block of a page with a slice of 1024 bytes moves. -/
def moving : List Event :=
  [.smooth (.alloc 1) 131072, .smooth (.slice 133120 1024) 0,
    .smooth (.realloc 131072 8192) 262144]

theorem slice_stable_moving :
    Process.Single ((Process.loaded 1 "d").after .small moving) ∧
      Stable .small (replay .small (.loaded 1 "d") moving)
        ((Process.loaded 1 "d").after .small moving) := by
  refine slice_stable ⟨rfl, rfl⟩ (advance_run ?_) ?_
  · simp [moving, Op.Words, Event.smooth, wordSize]
  · rintro point member
    rcases member with _ | ⟨_, _ | ⟨_, _ | ⟨_, ⟨⟩⟩⟩⟩
    · trivial
    · refine ⟨by decide, by decide, ?_⟩
      rintro ⟨_, _, _, _, short⟩
      exact short ⟨rfl, rfl⟩
    · trivial

/-- Two blocks of a page, at 0x20000 and at 0x30000.  The second one gets a
slice for a range that wraps, and moves to 0x10000, below the first. -/
def wrapping : List Event :=
  [⟨.alloc 1, 0, fun _ => .done 131072 "a"⟩,
    ⟨.alloc 1, 0, fun _ => .done 196608 "b"⟩,
    .smooth (.slice 327680 (wordSize - 129024)) 0,
    .smooth (.realloc 196608 8192) 65536]

/-- Then the same distance and size lead to a slice of the first block. -/
theorem not_stable_wrapping :
    Run (Advance .small) (.loaded 1 "d")
        (replay .small (.loaded 1 "d") wrapping)
        ((Process.loaded 1 "d").after .small wrapping) ∧
      ¬Stable .small (replay .small (.loaded 1 "d") wrapping)
        ((Process.loaded 1 "d").after .small wrapping) := by
  refine ⟨advance_run ?_, fun stable => ?_⟩
  · simp [wrapping, Op.Words, Event.smooth, wordSize]
  · let before := (Process.loaded 1 "d").after .small (wrapping.take 2)
    let event := Event.smooth (.slice 327680 (wordSize - 129024)) 0
    let after := event.outcome .small before
    have answer : returned (slice .small 327680 (wordSize - 129024)
        (before.enter event.errno event.os)) = some (some 3) := by
      decide +kernel
    obtain ⟨cube, member, slice, inside, named, stays⟩ := stable
      (replay .small (.loaded 1 "d") (wrapping.take 2)) before event
      (replay .small after (wrapping.drop 3)) 327680 _ 3 rfl rfl answer
    have places : ∀ cube ∈ after.cubes, ∀ slice ∈ cube.slices,
        slice.ptr = 3 → cube.ptr = 2 ∧
          327680 = wadd cube.page.addr 131072 := by decide +kernel
    obtain ⟨target, distance⟩ := places cube member slice inside named
    have spared : ∀ point ∈ replay .small after (wrapping.drop 3),
        point.2.Spares cube.ptr point.1 := by
      rintro point last
      rcases last with _ | ⟨_, ⟨⟩⟩
      exact fun _ _ _ => rfl
    obtain ⟨cube', member', same, -, -, -, returns⟩ :=
      stays 131072 distance spared
    let finish := (Process.loaded 1 "d").after .small wrapping
    have moved : ∀ cube ∈ finish.cubes, cube.ptr = 2 →
        wadd cube.page.addr 131072 = 196608 := by decide +kernel
    rw [moved cube' member' (same.trans target)] at returns
    have other : returned (CoralApi.slice .small 196608 (wordSize - 129024)
        (finish.enter 0 fun _ => .done 0 "")) = some (some 4) := by
      decide +kernel
    have answered := (returns 0 _).of_ok (eq_ok_final other)
    cases answered.1

end CoralApi
