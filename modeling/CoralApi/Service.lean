import CoralApi.Contents

/-!
# The calls of a process as commands to its heap

An event changes the heap of the process by one command, which the value of
the call and the replies below it decide.
-/

namespace CoralApi

open Program

/-- What an allocation does. -/
def World.allocs (P : PageSize) (size : Nat) (w : World) :
    Heap.Command UInt8 :=
  allocCommand P size (returned (inaccelAlloc P size w))

/-- The command of a reallocation that finds this block, by what it returns.
A call that fails behind its `ftruncate` leaves the file with the new
length. -/
def growCommand (P : PageSize) (addr newSize : Nat) (os : Nat → Reply)
    (region : Region UInt8) (result : Option (Option Nat)) :
    Heap.Command UInt8 :=
  let length := ceilPagesize P newSize
  if newSize ≤ region.size then .skip
  else
    match result with
    | some (some newAddr) => .resize addr newAddr length length
    | _ =>
        if (os 0).isDone ∧ (os 1).isDone ∧ length < 2 ^ 63 then
          .resize addr addr region.size length
        else .skip

/-- What a reallocation of a block does. -/
def World.grows (P : PageSize) (addr newSize : Nat) (w : World) :
    Heap.Command UInt8 :=
  match w.heap addr with
  | none => .skip
  | some region => growCommand P addr newSize w.os region
      (returned (inaccelRealloc P addr newSize w))

/-- What an event does to the blocks of the process. -/
def Event.command (P : PageSize) (p : Process) (event : Event) :
    Heap.Command UInt8 :=
  let w := p.enter event.errno event.os
  match event.op with
  | .alloc size => w.allocs P size
  | .free addr => .drop addr
  | .realloc addr newSize =>
      if addr = 0 then w.allocs P newSize
      else if newSize = 0 then .drop addr
      else w.grows P addr newSize
  | .store addr byte => if p.Writable P addr then .write addr byte else .skip
  | _ => .skip

/-- A detach from a registered block finds a link on it. -/
def Event.Matched (p : Process) (event : Event) : Prop :=
  match event.op with
  | .detach ptr => ∀ cube slice, p.findSlice ptr = some (cube, slice) →
      cube ∈ p.cubes → cube.nlinks ≠ 0
  | _ => True

section Heaps

variable {P : PageSize} {names : List (String × String)} {p : Process}
  {cube : Cube} {addr : Nat}

/-- The state after a command, when it keeps the layout. -/
def Process.Serves (P : PageSize) (names : List (String × String))
    (command : Heap.Command UInt8) (p p' : Process) : Prop :=
  p'.Laid P → p'.Charted P names →
    p'.heap = command.run 0 p.heap ∧ p'.Stocked

section Grown

variable {newSize newAddr : Nat} {os : Nat → Reply} {region : Region UInt8}

theorem growCommand_short {result : Option (Option Nat)}
    (short : newSize ≤ region.size) :
    growCommand P addr newSize os region result = .skip :=
  if_pos short

theorem growCommand_moved (long : ¬newSize ≤ region.size) :
    growCommand P addr newSize os region (some (some newAddr)) =
      .resize addr newAddr (ceilPagesize P newSize) (ceilPagesize P newSize) :=
  if_neg long

theorem growCommand_failed (long : ¬newSize ≤ region.size) :
    growCommand P addr newSize os region (some none) =
      if (os 0).isDone ∧ (os 1).isDone ∧ ceilPagesize P newSize < 2 ^ 63 then
        .resize addr addr region.size (ceilPagesize P newSize)
      else .skip :=
  if_neg long

end Grown

section Calls

variable {errno size newSize : Nat} {os : Nat → Reply}
  {names' : List (String × String)}

/-- What a call returns, and the state behind it. -/
theorem returned_final_of {α : Type} (good : Option α → Process → Prop)
    {x : Prog α} {w : World} {post : α → World → Prop}
    {stop : Stop → World → Prop} (ensures : Ensures x post stop w)
    (onReturn : ∀ value w', post value w' → good (some value) w'.toProcess)
    (onStop : ∀ reason w', stop reason w' → good none w'.toProcess) :
    good (returned (x w))
      (final ((do let _ ← x : Prog Unit) w)).toProcess := by
  simp only [bind, EStateM.bind]
  cases run : x w with
  | ok value w' => exact onReturn value w' (ensures.of_ok run)
  | error reason w' => exact onStop reason w' (ensures.of_error run)

theorem Process.Housed.serves_alloc (housed : p.Housed P names)
    (fresh : ∀ id, (p.enter errno os).Names id → (p.self, id) ∉ names) :
    p.Serves P names' ((p.enter errno os).allocs P size)
      (final ((do let _ ← inaccelAlloc P size : Prog Unit)
        (p.enter errno os))).toProcess := by
  have spec := ((@inaccelAlloc_spec P size (p.enter errno os) rfl).and
    inaccelAlloc_files).and inaccelAlloc_blank
  refine returned_final_of (fun result p' => p.Serves P names'
    (allocCommand P size result) p') spec ?_ fun _ _ ended => ended.1.1.elim
  intro result w' ended laid' charted'
  exact Process.Housed.alloc (w := p.enter errno os) housed laid' charted'
    fresh ended.1.1 ended.1.2 ended.2

theorem Process.Housed.frees (housed : p.Housed P names) :
    Ensures (inaccelFree addr)
      (fun _ w' => p.Serves P names' (.drop addr) w'.toProcess)
      (fun _ _ => False) (p.enter errno os) := by
  have known : ∀ cube, p.cubes.find? (fun cube => cube.page.addr == addr) =
      some cube → cube.pid = p.pid → cube.nlinks = 0 → ∃ other ∈ p.cubes,
        other.page.addr = addr ∧ other.pid = p.pid ∧ other.id = cube.id := by
    intro cube found own _
    exact ⟨cube, List.mem_of_find?_eq_some found,
      by simpa using List.find?_some found, own, rfl⟩
  have spec := (@inaccelFree_spec addr (p.enter errno os) rfl).and
    (@inaccelFree_writesTo _ (fun id => ∃ other ∈ p.cubes,
      other.page.addr = addr ∧ other.pid = p.pid ∧ other.id = id) addr rfl known)
  apply spec.mono
  · intro _ w' ended laid' charted'
    exact Process.Housed.free (w := p.enter errno os) housed laid' charted'
      ended.1 ended.2
  · intro _ _ ended
    exact ended.1

theorem Process.Housed.serves_free (housed : p.Housed P names) :
    p.Serves P names' (.drop addr)
      (final ((do let _ ← inaccelFree addr : Prog Unit)
        (p.enter errno os))).toProcess :=
  final_of (p.Serves P names' (.drop addr)) housed.frees
    (fun _ _ served => served) fun _ _ => False.elim

/-- A reallocation to nothing frees. -/
theorem Process.Housed.serves_empty (housed : p.Housed P names)
    (given : addr ≠ 0) :
    p.Serves P names' (.drop addr)
      (final ((do let _ ← inaccelRealloc P addr 0 : Prog Unit)
        (p.enter errno os))).toProcess := by
  have freed : Ensures (inaccelRealloc P addr 0)
      (fun _ w' => p.Serves P names' (.drop addr) w'.toProcess)
      (fun _ _ => False) (p.enter errno os) := by
    rw [inaccelRealloc_eq, if_neg given, if_pos rfl]
    apply housed.frees.bind
    intro _ w₁ served
    exact Ensures.step rfl served
  exact final_of (p.Serves P names' (.drop addr)) freed
    (fun _ _ served => served) fun _ _ => False.elim

/-- A block that is not there, or not of the process. -/
theorem Process.Housed.serves_lost (housed : p.Housed P names)
    (given : addr ≠ 0) (asked : newSize ≠ 0)
    (lost : ∀ cube, p.cubes.find? (fun cube => cube.page.addr == addr) =
      some cube → cube.pid ≠ p.pid) :
    p.Serves P names' ((p.enter errno os).grows P addr newSize)
      (final ((do let _ ← inaccelRealloc P addr newSize : Prog Unit)
        (p.enter errno os))).toProcess := by
  have empty : p.heap addr = none := by
    rw [← Option.not_isSome_iff_eq_none, Option.isSome_iff_exists]
    rintro ⟨region, here⟩
    obtain ⟨cube, member, own, rfl, -⟩ := Process.heap_some here
    exact lost cube (housed.laid.plotted.find?_base member) own
  have skips : (p.enter errno os).grows P addr newSize = .skip := by
    have there : (p.enter errno os).heap addr = none := empty
    rw [World.grows, there]
  rw [skips]
  refine final_of (p.Serves P names' .skip)
    ((inaccelRealloc_spec (P := P) (w := p.enter errno os) rfl).and
      (@inaccelRealloc_writesTo P _ (fun _ => False) addr newSize given rfl
        fun cube found own => lost cube found own))
    ?_ fun _ _ ended => ended.1.elim
  intro result w' ended laid' charted'
  have quiet : (p.enter errno os).Quiet w' := by
    cases ended.1 with
    | alloc null => exact absurd null given
    | free emptied => exact absurd emptied asked
    | kept stays quiet => exact quiet
    | @moved cube page prot w' grows effect =>
        have grows : p.growth P addr newSize os = some (cube, page, prot) :=
          grows
        rw [Process.growth_eq given] at grows
        obtain ⟨found, first, moved⟩ := Option.bind_eq_some_iff.mp grows
        obtain ⟨stretched, moves, same⟩ := Option.map_eq_some_iff.mp moved
        have foreign := lost found first
        rw [Process.stretch, if_neg fun all => foreign all.1] at moves
        cases moves
  apply housed.heap_still laid' charted'
  · exact ⟨quiet.pid, ended.2.self, by rw [quiet.cubes]; rfl⟩
  · intro cube member own
    exact ended.2.file _ _ fun _ => id

theorem Process.Housed.serves_grow (housed : p.Housed P names)
    (asked : newSize ≠ 0) (member : cube ∈ p.cubes) (own : cube.pid = p.pid) :
    p.Serves P names' ((p.enter errno os).grows P cube.page.addr newSize)
      (final ((do let _ ← inaccelRealloc P cube.page.addr newSize : Prog Unit)
        (p.enter errno os))).toProcess := by
  have given : cube.page.addr ≠ 0 :=
    (housed.laid.placed cube member).positive.ne'
  have first := housed.laid.plotted.find?_base member
  obtain ⟨file, here, tail⟩ := housed.filed.here cube member own
  have reached : (p.enter errno os).heap cube.page.addr =
      some (p.region cube) := Process.heap_apply housed.laid member own
  have known : ∀ other, p.cubes.find? (fun other =>
      other.page.addr == cube.page.addr) = some other →
        other.pid = p.pid → cube.id = other.id := by
    intro other found _
    rw [first] at found
    rw [Option.some.inj found]
  rw [World.grows, reached]
  refine returned_final_of (fun result p' => p.Serves P names'
    (growCommand P cube.page.addr newSize os (p.region cube) result) p')
    ((inaccelRealloc_exact (P := P) (w := p.enter errno os) given asked first
      rfl).and (@inaccelRealloc_writesTo P _ (cube.id = ·) _ newSize given rfl
      known))
    ?_ fun _ _ ended => ended.1.elim
  intro result w' ended laid' charted'
  obtain ⟨⟨⟨self, resized⟩, outcome⟩, writes⟩ := ended
  have self : w'.self = p.self := self
  have others : ∀ other ∈ p.cubes, other.pid = p.pid → other.id ≠ cube.id →
      w'.file p.self other.id = p.file p.self other.id := by
    intro other _ _ different
    exact writes.file _ _ fun _ same => different same.symm
  have resized : w'.file p.self cube.id = p.resized P cube newSize os := resized
  cases stretched : p.stretch P cube newSize os with
  | none =>
      rw [show World.os (p.enter errno os) = os from rfl,
        Process.enter_toProcess, stretched] at outcome
      obtain ⟨rfl, quiet⟩ := outcome
      have same : p.SameSites w'.toProcess :=
        ⟨quiet.pid, self, by rw [quiet.cubes]; rfl⟩
      by_cases resizes : p.Resizes P cube newSize os
      · have long : ¬newSize ≤ cube.page.size := Nat.not_le.mpr resizes.2.1
        have unmoved : p.unmoved cube newSize = none :=
          if_neg fun both => long both.2
        rw [unmoved, growCommand_failed long, if_pos ⟨resizes.2.2.1, resizes.2.2.2.2⟩]
        apply housed.truncated laid' charted' same member own _ others
        rw [resized]
        exact if_pos resizes
      · have unchanged : w'.heap = p.heap ∧ w'.Stocked := by
          apply housed.heap_still laid' charted' same
          intro other also theirs
          by_cases alike : other.id = cube.id
          · rw [alike, resized]
            exact if_neg resizes
          · exact others other also theirs alike
        by_cases short : newSize ≤ cube.page.size
        · rw [growCommand_short short]
          exact unchanged
        · have unmoved : p.unmoved cube newSize = none :=
            if_neg fun both => short both.2
          have found : p.hasFile p.self cube.id = true := by
            rw [hasFile_iff, here]
            rfl
          rw [unmoved, growCommand_failed short, if_neg fun all => resizes
            ⟨own, Nat.lt_of_not_le short, all.1, found, all.2⟩]
          exact unchanged
  | some moves =>
      obtain ⟨page, prot⟩ := moves
      rw [show World.os (p.enter errno os) = os from rfl,
        Process.enter_toProcess, stretched] at outcome
      obtain ⟨rfl, whole, quiet⟩ := outcome
      have grows : p.growth P cube.page.addr newSize os =
          some (cube, page, prot) := by
        simp [Process.growth_eq given, first, stretched]
      obtain ⟨-, -, longer, -⟩ := CoralApi.growth_eq grows
      rw [growCommand_moved (Nat.not_le.mpr longer), ← whole]
      apply housed.moved laid' charted' quiet.pid self member own quiet.cubes
        _ others
      rw [resized, Process.resized_of_stretch stretched, whole]

theorem Process.Housed.serves_store (housed : p.Housed P names) {byte : UInt8}
    (writable : p.Writable P addr) :
    p.Serves P names' (.write addr byte)
      (final (hostStore P addr byte (p.enter errno os))).toProcess := by
  have ran := @hostStore_run P addr byte (p.enter errno os)
  rw [Process.enter_toProcess, if_pos writable] at ran
  rw [ran]
  exact housed.store

/-- An event without a command leaves the own files alone. -/
theorem Process.Housed.files_still (housed : p.Housed P names) {event : Event}
    (still : event.op.Still) (matched : event.Matched p)
    (skips : event.command P p = .skip) :
    ∀ cube ∈ p.cubes, cube.pid = p.pid →
      (event.outcome P p).file p.self cube.id = p.file p.self cube.id := by
  obtain ⟨op, errno, os⟩ := event
  have untouched : ∀ {α : Type} {x : Prog α}, WritesOnly (fun _ => False) x →
      ∀ cube ∈ p.cubes, cube.pid = p.pid →
        (final ((do let _ ← x : Prog Unit) (p.enter errno os))).toProcess.file
          p.self cube.id = p.file p.self cube.id := by
    intro α x writes cube member own
    exact final_of (fun p' => p'.file p.self cube.id = p.file p.self cube.id)
      (writes (p.enter errno os)) (fun _ _ ended => ended.file _ _ fun _ => id)
      fun _ _ ended => ended.file _ _ fun _ => id
  cases op with
  | alloc size => exact still.elim
  | free addr => exact still.elim
  | realloc addr newSize => exact still.elim
  | slice addr size => exact untouched (writesOnly_slice addr size)
  | attach ptr => exact untouched (writesOnly_attach ptr)
  | woken ptr error => exact untouched (writesOnly_accessWoken ptr error)
  | store addr byte =>
      have fault : ¬p.Writable P addr := by
        intro writable
        have writes : Event.command P p ⟨.store addr byte, errno, os⟩ =
            .write addr byte := if_pos writable
        rw [writes] at skips
        cases skips
      have ran := @hostStore_run P addr byte (p.enter errno os)
      rw [Process.enter_toProcess, if_neg fault] at ran
      have faulted : Event.outcome P p ⟨.store addr byte, errno, os⟩ =
          (final ((do let _ ← access P addr : Prog Unit)
            (p.enter errno os))).toProcess :=
        congrArg (fun result => (final result).toProcess) ran
      rw [faulted]
      exact untouched (writesOnly_access addr)
  | detach ptr =>
      intro cube member own
      have known : ∀ found slice, p.findSlice ptr = some (found, slice) →
          found.pid = p.pid → found.nlinks = 0 → found.id ≠ cube.id := by
        intro found slice first theirs unlinked same
        have live := (findSlice_mem first).1
        have ptrs := housed.filed.unique found live theirs cube
          (List.mem_append_left _ member) own same
        have alike := housed.laid.named.same_cube live
          (List.mem_append_left _ member) ptrs
        exact matched found slice first (alike ▸ member) unlinked
      refine final_of (fun p' => p'.file p.self cube.id = p.file p.self cube.id)
        (@detach_writesTo (p.enter errno os) (· ≠ cube.id) ptr known)
        ?_ ?_
      · intro _ w' ended
        exact ended.file _ _ fun _ different => different rfl
      · intro _ w' ended
        exact ended.file _ _ fun _ different => different rfl

/-- An event does to the heap what its command does. -/
theorem Process.Housed.event (housed : p.Housed P names) {event : Event}
    (sized : event.op.Sized) (matched : event.Matched p)
    (fresh : ∀ id, event.made = some id → (p.self, id) ∉ names) :
    (event.outcome P p).heap = (event.command P p).run 0 p.heap ∧
      (event.outcome P p).Housed P (event.names p.self names) := by
  have deed : Deed P p event _ (event.outcome P p) := event_deed sized.words
  have laid' := deed.laid sized housed.laid
  have self := (event_files (P := P) (p := p) event).self
  have charted' := deed.charted self fresh housed.laid housed.charted
  have unique := deed.unique housed.charted fresh housed.filed.unique
  have served : p.Serves P (event.names p.self names) (event.command P p)
      (event.outcome P p) := by
    by_cases quiet : event.op.Still ∧ event.command P p = .skip
    · obtain ⟨still, skips⟩ := quiet
      intro laid' charted'
      rw [skips]
      apply housed.heap_still laid' charted' ⟨deed.descends.1, self, _⟩
        (housed.files_still still matched skips)
      exact deed.sites still (Event.effect_still still)
    · obtain ⟨op, errno, os⟩ := event
      cases op with
      | alloc size =>
          exact housed.serves_alloc fun id named =>
            fresh id (Event.made_alloc named)
      | free addr => exact housed.serves_free
      | realloc addr newSize =>
          by_cases null : addr = 0
          · subst null
            rw [outcome_realloc_null]
            exact housed.serves_alloc fun id named =>
              fresh id (Event.made_realloc named)
          · by_cases emptied : newSize = 0
            · subst emptied
              have drops : Event.command P p ⟨.realloc addr 0, errno, os⟩ =
                  .drop addr := by
                simp only [Event.command, if_neg null, if_true]
              rw [drops]
              exact housed.serves_empty null
            · have grows : Event.command P p
                  ⟨.realloc addr newSize, errno, os⟩ =
                    (p.enter errno os).grows P addr newSize := by
                simp only [Event.command, if_neg null, if_neg emptied]
              rw [grows]
              cases found : p.cubes.find? fun cube => cube.page.addr == addr with
              | none =>
                  apply housed.serves_lost null emptied
                  intro cube found'
                  rw [found] at found'
                  cases found'
              | some cube =>
                  by_cases own : cube.pid = p.pid
                  · obtain rfl : cube.page.addr = addr := by
                      simpa using List.find?_some found
                    exact housed.serves_grow emptied
                      (List.mem_of_find?_eq_some found) own
                  · apply housed.serves_lost null emptied
                    intro cube' found'
                    rw [found] at found'
                    cases found'
                    exact own
      | store addr byte =>
          by_cases writable : p.Writable P addr
          · have writes : Event.command P p ⟨.store addr byte, errno, os⟩ =
                .write addr byte := if_pos writable
            rw [writes]
            exact housed.serves_store writable
          · exact absurd ⟨trivial, if_neg writable⟩ quiet
      | _ => exact absurd ⟨trivial, rfl⟩ quiet
  obtain ⟨heap, stocked⟩ := served laid' charted'
  exact ⟨heap, laid', charted', stocked, unique⟩

end Calls

end Heaps

end CoralApi
