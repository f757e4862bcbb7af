import CoralApi.Branch
import CoralApi.Identity

/-!
# Slices of what is mapped

`__slice` adds an address and a size in machine words.  Where the sum wraps,
no block has the range, and yet the test of a block below the address may
pass.
-/

namespace CoralApi

open Program Transition

/-- The range lies in the block. -/
def Block.Spans (block : Block) (addr size : Nat) : Prop :=
  block.addr ≤ addr ∧ addr + size ≤ block.addr + block.size

/-- A block of the process has the range. -/
def Process.Spans (addr size : Nat) (cube : Cube) (p : Process) : Prop :=
  cube ∈ p.cubes ∧ cube.pid = p.pid ∧ cube.page.Spans addr size

/-- `__slice` returns the slice of a cube at a distance from its base. -/
def Process.Gives (P : PageSize) (addr size : Nat) (cube : Cube)
    (w : World) : Prop :=
  Ensures (slice P addr size)
    (fun result w' => ∃ ptr, result = some ptr ∧
      ∃ cube' ∈ w'.cubes, cube'.ptr = cube.ptr ∧ cube'.page = cube.page ∧
        ∃ slice ∈ cube'.slices, slice.ptr = ptr ∧
          slice.offset = addr - cube.page.addr ∧ slice.size = size)
    (fun _ _ => False) w

/-- `__slice` returns a slice if, and unless an allocation fails only if, a
block of the process has the range. -/
def Process.SlicesRanges (P : PageSize) (addr size : Nat) (p : Process) :
    Prop :=
  (∀ errno os ptr, returned (slice P addr size (p.enter errno os)) =
      some (some ptr) → ∃ cube, p.Spans addr size cube) ∧
    ∀ cube, p.Spans addr size cube → ∀ errno os,
      (∀ index < 3, (os index).isDone = true) →
        Process.Gives P addr size cube (p.enter errno os)

/-- The first block that passes the test of `__slice` for a range that wraps
is one of the process. -/
def Process.Misses (addr size : Nat) (p : Process) : Prop :=
  wordSize ≤ addr + size ∧ ∃ cube,
    p.cubes.find? (·.containsRange addr size) = some cube ∧ cube.pid = p.pid

section Ranges

variable {P : PageSize} {p p' : Process} {cube : Cube} {addr size : Nat}
  {w : World}

theorem Process.Plotted.spans_iff (plotted : p.Plotted P)
    (member : cube ∈ p.cubes) (word : addr + size < wordSize) :
    cube.containsRange addr size = true ↔ cube.page.Spans addr size := by
  simp only [Cube.containsRange, wadd_eq word,
    wadd_eq (plotted.placed cube member).fits, Bool.and_eq_true,
    decide_eq_true_eq, Block.Spans]

/-- No block has a range that wraps. -/
theorem Process.Plotted.not_spans (plotted : p.Plotted P)
    (wraps : wordSize ≤ addr + size) : ¬p.Spans addr size cube := by
  rintro ⟨member, -, -, below⟩
  have fits := (plotted.placed cube member).fits
  omega

/-- The offsets of slices are words. -/
def Process.Offsets (p : Process) : Prop :=
  p.Settles fun places => ∀ place ∈ places, place.1 < wordSize

theorem Process.Offsets.lt (offsets : p.Offsets) (member : cube ∈ p.cubes)
    {slice : Slice} (inside : slice ∈ cube.slices) :
    slice.offset < wordSize :=
  offsets cube (List.mem_append_left _ member) _ (List.mem_map_of_mem inside)

/-- The place of a slice that is found again. -/
theorem offset_of_findRange {slice : Slice} (word : addr < wordSize)
    (small : slice.offset < wordSize) (above : cube.page.addr ≤ addr)
    (found : cube.findRange addr size = some slice) :
    slice.offset = addr - cube.page.addr ∧ slice.size = size := by
  have matched := List.find?_some found
  simp only [Bool.and_eq_true, beq_iff_eq] at matched
  obtain ⟨here, same⟩ := matched
  refine ⟨?_, same.symm⟩
  unfold wadd at here
  by_cases fits : cube.page.addr + slice.offset < wordSize
  · rw [Nat.mod_eq_of_lt fits] at here
    omega
  · rw [Nat.mod_eq_sub_mod (by omega), Nat.mod_eq_of_lt (by omega)] at here
    omega

theorem Reply.exists_done {reply : Reply} (answered : reply.isDone = true) :
    ∃ value name, reply = .done value name := by
  cases reply with
  | done value name => exact ⟨value, name, rfl⟩
  | failed error => cases answered

theorem alloc_run (answered : (w.os 0).isDone = true) :
    Utils.alloc w = .ok (some w.nextPtr) (w.asked.put
      { w.toProcess with
        nextPtr := w.nextPtr + 1
        objects := w.nextPtr :: w.objects }) := by
  obtain ⟨value, name, reply⟩ := Reply.exists_done answered
  simp only [Utils.alloc, bind, EStateM.bind, ask, reply]
  rfl

theorem initCond_run (answered : (w.os 0).isDone = true) :
    Utils.initCond w = .ok 0 w.asked := by
  obtain ⟨value, name, reply⟩ := Reply.exists_done answered
  simp only [Utils.initCond, bind, EStateM.bind, ask, reply]
  rfl

theorem setSlice_run {ptr : Nat} {slice : Slice}
    (answered : (w.os 0).isDone = true) :
    Collection.setSlice ptr slice w = .ok 0 (w.asked.put
      (w.modifyCube ptr fun cube =>
        { cube with slices := cube.slices ++ [slice] })) := by
  obtain ⟨value, name, reply⟩ := Reply.exists_done answered
  simp only [Collection.setSlice, bind, EStateM.bind, ask, reply]
  rfl

/-- With memory, `__slice` gives a slice of the first block that passes. -/
theorem slice_supplied (free : w.held = []) (word : addr < wordSize)
    (offsets : w.Offsets)
    (first : w.cubes.find? (·.containsRange addr size) = some cube)
    (own : cube.pid = w.pid)
    (supplied : ∀ index < 3, (w.os index).isDone = true) :
    Process.Gives P addr size cube w := by
  have member := List.mem_of_find?_eq_some first
  have contains := List.find?_some first
  simp only [Cube.containsRange, Bool.and_eq_true, decide_eq_true_eq]
    at contains
  unfold Process.Gives slice
  apply ensures_found free first
  apply ensures_handOver
  apply Ensures.step rfl
  refine (if_neg (not_not.mpr own)).symm ▸ ?_
  cases known : cube.findRange addr size with
  | some slice =>
      have inside := List.mem_of_find?_eq_some known
      refine Ensures.step (unlock_run List.mem_cons_self) ?_
      exact ⟨slice.ptr, rfl, cube, member, rfl, rfl, slice, inside, rfl,
        offset_of_findRange word (offsets.lt member inside) contains.1
          known⟩
  | none =>
      dsimp only
      apply Ensures.step (@alloc_run (w.holding [.cube cube.ptr])
        (supplied 0 (by decide)))
      apply Ensures.step (initCond_run (supplied 1 (by decide)))
      refine (if_neg (not_not.mpr rfl)).symm ▸ ?_
      apply Ensures.step (setSlice_run (supplied 2 (by decide)))
      refine Ensures.step (unlock_run List.mem_cons_self) ?_
      refine ⟨w.nextPtr, rfl, _, List.mem_map_of_mem member, ?_⟩
      rw [if_pos rfl]
      refine ⟨rfl, rfl, newSlice P cube addr size w.nextPtr,
        List.mem_concat_self, rfl, ?_, rfl⟩
      exact wsub_eq contains.1 word

theorem Process.Plotted.slices_iff (plotted : p.Plotted P)
    (offsets : p.Offsets) (word : addr < wordSize) (nonempty : 0 < size) :
    p.SlicesRanges P addr size ↔ ¬p.Misses addr size := by
  constructor
  · rintro ⟨sound, -⟩ ⟨wraps, cube, first, own⟩
    let os : Nat → Reply := fun _ => .done 0 ""
    have gives := @slice_supplied P cube addr size (p.enter 0 os) rfl word
      offsets first own fun _ _ => rfl
    unfold Process.Gives Ensures at gives
    cases run : slice P addr size (p.enter 0 os) with
    | ok result w' =>
        rw [run] at gives
        obtain ⟨ptr, rfl, -⟩ := gives
        obtain ⟨other, spans⟩ := sound 0 os ptr (by rw [run]; rfl)
        exact plotted.not_spans wraps spans
    | error reason w' =>
        rw [run] at gives
        exact gives
  · intro aware
    refine ⟨?_, ?_⟩
    · intro errno os ptr answer
      have outcome := (slice_spec (P := P) (w := p.enter errno os) rfl).of_ok
        (eq_ok_final answer)
      have found : ∃ cube,
          p.cubes.find? (·.containsRange addr size) = some cube ∧
            cube.pid = p.pid := by
        cases outcome with
        | known fed first own known quiet => exact ⟨_, first, own⟩
        | made fed first own contains new fresh effect =>
            exact ⟨_, first, own⟩
      obtain ⟨cube, first, own⟩ := found
      have member := List.mem_of_find?_eq_some first
      have fits : addr + size < wordSize := by
        by_contra wraps
        exact aware ⟨Nat.le_of_not_lt wraps, cube, first, own⟩
      refine ⟨cube, member, own, (plotted.spans_iff member fits).mp ?_⟩
      simpa using List.find?_some first
    · rintro cube ⟨member, own, spans⟩ errno os supplied
      have fits : addr + size < wordSize := by
        have bound := (plotted.placed cube member).fits
        have below := spans.2
        omega
      have first := plotted.find?_containsRange member nonempty fits
        ((plotted.spans_iff member fits).mpr spans)
      exact slice_supplied rfl word offsets first own supplied

end Ranges

/-- The registry stays, and so do the mappings. -/
structure World.SameBlocks (w w' : World) : Prop where
  cubes : w'.cubes = w.cubes
  orphans : w'.orphans = w.orphans
  maps : w'.maps = w.maps
  nextPtr : w'.nextPtr = w.nextPtr

namespace World.SameBlocks

variable {w w' w'' : World}

theorem refl (w : World) : w.SameBlocks w := ⟨rfl, rfl, rfl, rfl⟩

theorem trans (left : w.SameBlocks w') (right : w'.SameBlocks w'') :
    w.SameBlocks w'' :=
  ⟨right.cubes.trans left.cubes, right.orphans.trans left.orphans,
    right.maps.trans left.maps, right.nextPtr.trans left.nextPtr⟩

instance : Std.Refl World.SameBlocks := ⟨refl⟩

instance : Trans World.SameBlocks World.SameBlocks World.SameBlocks := ⟨trans⟩

end World.SameBlocks

/-- What a call of the process that keeps the blocks leaves. -/
def SameBlocksCall {α : Type} (x : Prog α) : Prop := Moves World.SameBlocks x

section Forks

variable {P : PageSize}

theorem sameBlocks_of_process {α : Type} {x : Prog α}
    (same : ∀ w, Ensures x
      (fun _ w' => w'.toProcess = w.toProcess ∧ w'.os = w.os)
      (fun _ w' => w.SameBlocks w') w) : SameBlocksCall x := by
  intro w
  refine (same w).mono ?_ fun _ _ => id
  intro _ w' ⟨same, _⟩
  refine ⟨?_, ?_, ?_, ?_⟩ <;> rw [same]

theorem sameBlocks_lock (mutex : Lock) : SameBlocksCall (lock mutex) :=
  sameBlocks_of_process fun w => lock_same (.refl w)

theorem sameBlocks_unlock (mutex : Lock) : SameBlocksCall (unlock mutex) :=
  sameBlocks_of_process fun _ => unlock_same

theorem sameBlocks_lockCubes (cubes : List Cube) :
    SameBlocksCall (lockCubes cubes) := by
  induction cubes with
  | nil => exact moves_pure _
  | cons cube cubes induction =>
      exact (sameBlocks_lock _).bind fun _ => induction

theorem sameBlocks_unlockCubes (cubes : List Cube) :
    SameBlocksCall (unlockCubes cubes) := by
  induction cubes with
  | nil => exact moves_pure _
  | cons cube cubes induction =>
      exact (sameBlocks_unlock _).bind fun _ => induction

theorem sameBlocks_protectCubes (cubes : List Cube) :
    SameBlocksCall (protectCubes P cubes) := by
  induction cubes with
  | nil => exact moves_pure _
  | cons cube cubes induction =>
      have protects : SameBlocksCall (logged (Process.protectPages P
          cube.page.addr cube.page.size .read)) := by
        intro w
        unfold Ensures logged
        cases w.os 0 with
        | done value name => exact ⟨rfl, rfl, rfl, rfl⟩
        | failed error => exact ⟨rfl, rfl, rfl, rfl⟩
      exact protects.bind fun _ =>
        (sameBlocks_unlock _).bind fun _ => induction

theorem sameBlocks_prepare : SameBlocksCall prepare :=
  (sameBlocks_lock _).bind fun _ => moves_get.bind fun _ =>
    sameBlocks_lockCubes _

theorem sameBlocks_forkParent : SameBlocksCall forkParent :=
  sameBlocks_prepare.bind fun _ => moves_get.bind fun _ =>
    (sameBlocks_unlockCubes _).bind fun _ => sameBlocks_unlock _

theorem sameBlocks_forkChild (pid : Nat) :
    SameBlocksCall (forkChild P pid) := by
  have copies : SameBlocksCall (change (Process.copy pid)) :=
    fun w => ⟨rfl, rfl, rfl, rfl⟩
  have starts : SameBlocksCall Self.init := by
    intro w
    unfold Self.init
    apply Ensures.step rfl
    cases w.os 0 with
    | done value name => exact ⟨rfl, rfl, rfl, rfl⟩
    | failed error => exact ⟨rfl, rfl, rfl, rfl⟩
  have protects : SameBlocksCall (child P) :=
    moves_get.bind fun _ => (sameBlocks_protectCubes _).bind fun _ =>
      sameBlocks_unlock _
  exact sameBlocks_prepare.bind fun _ => copies.bind fun _ =>
    protects.bind fun _ => starts

end Forks

/-- What happens to a process, and to the child that it goes on as. -/
inductive Happening where
  | event (event : Event)
  /-- other processes change the files -/
  | files (files : List File)
  | parent (errno : Nat) (os : Nat → Reply)
  | child (pid errno : Nat) (os : Nat → Reply)

/-- The steps of a process and of its descendants, whatever ranges they ask
slices for. -/
inductive Descent (P : PageSize) (p : Process) : Happening → Process → Prop
  | event {event : Event} (words : event.op.Words) :
      Descent P p (.event event) (event.outcome P p)
  | files (files : List File) :
      Descent P p (.files files) { p with files := files }
  | parent {errno : Nat} {os : Nat → Reply} :
      Descent P p (.parent errno os)
        (final (forkParent (p.enter errno os))).toProcess
  | child {pid errno : Nat} {os : Nat → Reply} :
      Descent P p (.child pid errno os)
        (final (forkChild P pid (p.enter errno os))).toProcess

section Descents

variable {P : PageSize} {p p' start finish : Process} {addr size : Nat}

/-- The registry of every process. -/
structure Process.Surveyed (P : PageSize) (p : Process) : Prop where
  plotted : p.Plotted P
  offsets : p.Offsets

theorem Process.Fresh.surveyed (fresh : p.Fresh) : p.Surveyed P := by
  refine ⟨fresh.laid.plotted, fun cube member => ?_⟩
  rw [Process.live, fresh.1, fresh.2] at member
  cases member

theorem Process.Surveyed.of_same {w : World} (surveyed : p.Surveyed P)
    (cubes : w.cubes = p.cubes) (orphans : w.orphans = p.orphans)
    (maps : w.maps = p.maps) (nextPtr : w.nextPtr = p.nextPtr) :
    w.Surveyed P := by
  have live : w.live = p.live := congrArg₂ _ cubes orphans
  have names : w.names = p.names := by
    rw [Process.names, live, Process.names]
  obtain ⟨⟨named, placed, mapped, apart⟩, offsets⟩ := surveyed
  refine ⟨⟨⟨names ▸ named.distinct, ?_⟩, ?_, ?_, ?_⟩, ?_⟩
  · rw [names, nextPtr]
    exact named.fresh
  · rwa [cubes]
  · rwa [cubes, maps]
  · rwa [cubes]
  · unfold Process.Offsets Process.Settles
    rw [live]
    exact offsets

theorem Process.Surveyed.after_call {α : Type} {x : Prog α} {errno : Nat}
    {os : Nat → Reply} (surveyed : p.Surveyed P) (same : SameBlocksCall x) :
    (final (x (p.enter errno os))).toProcess.Surveyed P := by
  have kept := (same (p.enter errno os)).of_final
    (fun w' => World.SameBlocks (p.enter errno os) w') (fun _ _ => id)
    fun _ _ => id
  exact surveyed.of_same kept.cubes kept.orphans kept.maps kept.nextPtr

theorem Event.surveyed {event : Event} (words : event.op.Words)
    (surveyed : p.Surveyed P) : (event.outcome P p).Surveyed P := by
  have deed := event_deed (P := P) (p := p) words
  refine ⟨deed.plotted surveyed.plotted, ?_⟩
  refine deed.settles surveyed.plotted.named (fun _ inside => nomatch inside)
    ?_ surveyed.offsets
  intro cube _ addr size ptr _ before place inside
  simp only [Cube.places, List.map_append, List.map_singleton] at inside
  rcases List.mem_append.mp inside with old | new
  · exact before place old
  · rw [List.mem_singleton.mp new]
    exact Nat.mod_lt _ (by decide)

theorem Descent.surveyed {happening : Happening}
    (step : Descent P p happening p') (surveyed : p.Surveyed P) :
    p'.Surveyed P := by
  cases step with
  | event words => exact Event.surveyed words surveyed
  | files files => exact ⟨⟨⟨surveyed.plotted.named.distinct,
      surveyed.plotted.named.fresh⟩, surveyed.plotted.placed,
      surveyed.plotted.mapped, surveyed.plotted.apart⟩, surveyed.offsets⟩
  | parent => exact surveyed.after_call sameBlocks_forkParent
  | child => exact surveyed.after_call (sameBlocks_forkChild _)

theorem run_surveyed {trace : List (Process × Happening)}
    (fresh : start.Fresh) (run : Run (Descent P) start trace finish) :
    finish.Surveyed P :=
  run.invariant (·.Surveyed P) (fun _ _ _ before step => step.surveyed before)
    fresh.surveyed finish (finish_mem_visited trace finish)

/-- `__slice` is exact unless the range wraps and the first block that passes
its test is one of the process. -/
theorem slicesRanges_iff {trace : List (Process × Happening)}
    (fresh : start.Fresh) (run : Run (Descent P) start trace finish)
    (word : addr < wordSize) (nonempty : 0 < size) :
    finish.SlicesRanges P addr size ↔ ¬finish.Misses addr size := by
  have surveyed := run_surveyed fresh run
  exact surveyed.plotted.slices_iff surveyed.offsets word nonempty

end Descents

/-- A process with a block of one page. -/
theorem run_paged : Run (Descent .small) (.loaded 1 "d")
    [(.loaded 1 "d", .event (.smooth (.alloc 1) 131072))]
    (Event.outcome .small (.loaded 1 "d") (.smooth (.alloc 1) 131072)) :=
  .cons (.event (show 1 < wordSize by decide)) (.nil _)

theorem slicesRanges_paged :
    (Event.outcome .small (.loaded 1 "d")
      (.smooth (.alloc 1) 131072)).SlicesRanges .small 131082 100 := by
  refine (slicesRanges_iff ⟨rfl, rfl⟩ run_paged (by decide) (by decide)).mpr ?_
  rintro ⟨wraps, -⟩
  exact absurd wraps (by decide)

/-- The range of -4096 bytes from the end of the block on. -/
theorem not_slicesRanges_wrapping :
    ¬∀ (P : PageSize) (start finish : Process)
      (trace : List (Process × Happening)), start.Fresh →
      Run (Descent P) start trace finish → ∀ addr < wordSize,
        ∀ size < wordSize, 0 < size → finish.SlicesRanges P addr size := by
  intro claim
  have sound := (claim _ _ _ _ ⟨rfl, rfl⟩ run_paged 135168 (by decide)
    (wordSize - 4096) (by decide) (by decide)).1
  obtain ⟨cube, member, -, spans⟩ := sound 0 (fun _ => .done 0 "") 2
    (by decide +kernel)
  have pages : ∀ cube ∈ (Event.outcome .small (.loaded 1 "d")
      (.smooth (.alloc 1) 131072)).cubes, cube.page = ⟨131072, 4096⟩ := by
    decide +kernel
  rw [pages cube member] at spans
  exact absurd spans.2 (by decide)

end CoralApi
