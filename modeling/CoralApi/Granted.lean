import CoralApi.Containment
import CoralApi.Remains
import CoralApi.Resize

/-!
# The size of a block that a caller gets

`python.c` hands the allocators of the library to NumPy.  Whatever size a
caller asks for, the block that it gets is compared with the exact number of
bytes.
-/

namespace CoralApi

open Program Transition

/-- Multiplication of two words. -/
def wmul (left right : Nat) : Nat := left * right % wordSize

/-- `PyDataMem_CallocFunc` -/
def pyDataMemCallocFunc (P : PageSize) (nelem elsize : Nat) :
    Prog (Option Nat) :=
  inaccelAlloc P (wmul nelem elsize)

/-- `PyDataMem_MallocFunc` -/
def pyDataMemMallocFunc (P : PageSize) (size : Nat) : Prog (Option Nat) :=
  inaccelAlloc P size

/-- `PyDataMem_ReallocFunc` -/
def pyDataMemReallocFunc (P : PageSize) (ptr newSize : Nat) :
    Prog (Option Nat) :=
  inaccelRealloc P ptr newSize

/-- The calls that give a block. -/
inductive Allocator where
  | alloc (size : Nat)
  | realloc (ptr newSize : Nat)
  | malloc (size : Nat)
  | reallocFunc (ptr newSize : Nat)
  | calloc (nelem elsize : Nat)

namespace Allocator

def run (P : PageSize) : Allocator → Prog (Option Nat)
  | alloc size => inaccelAlloc P size
  | realloc ptr newSize => inaccelRealloc P ptr newSize
  | malloc size => pyDataMemMallocFunc P size
  | reallocFunc ptr newSize => pyDataMemReallocFunc P ptr newSize
  | calloc nelem elsize => pyDataMemCallocFunc P nelem elsize

/-- The number of bytes that the caller asks for. -/
def asked : Allocator → Nat
  | alloc size => size
  | realloc _ newSize => newSize
  | malloc size => size
  | reallocFunc _ newSize => newSize
  | calloc nelem elsize => nelem * elsize

/-- The arguments are words. -/
def Words : Allocator → Prop
  | alloc size => size < wordSize
  | realloc ptr newSize => ptr < wordSize ∧ newSize < wordSize
  | malloc size => size < wordSize
  | reallocFunc ptr newSize => ptr < wordSize ∧ newSize < wordSize
  | calloc nelem elsize => nelem < wordSize ∧ elsize < wordSize

end Allocator

/-- The registered cube at an address has room for so many bytes. -/
def Process.HasRoom (p : Process) (addr size : Nat) : Prop :=
  ∃ cube, p.cubes.find? (fun cube => cube.page.addr == addr) = some cube ∧
    size ≤ cube.page.size

/-- The block that a call gives is never smaller than asked for. -/
def Process.Grants (P : PageSize) (call : Allocator) (errno : Nat)
    (os : Nat → Reply) (p : Process) : Prop :=
  Ensures (call.run P)
    (fun result w => ∀ addr, result = some addr → w.HasRoom addr call.asked)
    (fun _ _ => False) (p.enter errno os)

/-- The number of bytes is no word, and an allocation of the bytes that are
left of it succeeds. -/
def World.Truncates (P : PageSize) (asked : Nat) (w : World) : Prop :=
  wordSize ≤ asked ∧ asked % wordSize ≠ 0 ∧
    w.allocates P (asked % wordSize) = true

section Room

variable {P : PageSize} {p : Process} {w : World} {cube : Cube}
  {addr size newSize : Nat}

theorem Process.HasRoom.congr {p' : Process} (room : p.HasRoom addr size)
    (cubes : p'.cubes = p.cubes) : p'.HasRoom addr size := by
  obtain ⟨cube, found, fits⟩ := room
  exact ⟨cube, cubes ▸ found, fits⟩

theorem Process.Plotted.hasRoom (plotted : p.Plotted P)
    (member : cube ∈ p.cubes) (fits : size ≤ cube.page.size) :
    p.HasRoom cube.page.addr size :=
  ⟨cube, plotted.find?_base member, fits⟩

/-- The block that `inaccel_alloc` gives is the rounded size long. -/
theorem inaccelAlloc_room (plotted : w.Plotted P) (word : size < wordSize)
    (free : w.held = []) :
    Ensures (inaccelAlloc P size)
      (fun result w' => ∀ addr, result = some addr →
        w'.HasRoom addr size ∧ ∀ bytes, w'.HasRoom addr bytes →
          bytes < wordSize)
      (fun _ _ => False) w := by
  refine (inaccelAlloc_spec free).mono ?_ fun _ _ => id
  intro result w' outcome addr made
  cases outcome with
  | failed beside => cases made
  | @made ptr base id _ requested admits fresh effect =>
      cases made
      have after := @plotted_addCube P w.toProcess
        ⟨ptr, 0, ⟨addr, ceilPagesize P size⟩, w.pid, [], id⟩ plotted rfl
        (dvd_ceilPagesize P size) admits fresh
      have found := after.find?_base (List.mem_append_right w.cubes
        (List.mem_singleton_self _))
      have found := (congrArg (List.find? _) effect.cubes).trans found
      refine ⟨⟨_, found, ?_⟩, ?_⟩
      · exact le_ceilPagesize_of_pos word admits.2.1
      · rintro bytes ⟨cube, same, fits⟩
        cases found.symm.trans same
        have bound := admits.2.2.2.1
        dsimp only at fits bound
        omega

/-- The block that `inaccel_realloc` gives has room for the new size. -/
theorem inaccelRealloc_room (plotted : w.Plotted P)
    (word : newSize < wordSize) (free : w.held = []) :
    Ensures (inaccelRealloc P addr newSize)
      (fun result w' => ∀ addr, result = some addr → w'.HasRoom addr newSize)
      (fun _ _ => False) w := by
  by_cases given : addr = 0
  · rw [inaccelRealloc_eq, if_pos given]
    exact (inaccelAlloc_room plotted word free).mono
      (fun _ _ room addr made => (room addr made).1) fun _ _ => id
  by_cases asked : newSize = 0
  · subst asked
    refine (inaccelRealloc_empty given free).mono ?_ fun _ _ => id
    rintro _ w' rfl _ made
    cases made
  cases found : w.cubes.find? (fun cube => cube.page.addr == addr) with
  | none =>
      refine (inaccelRealloc_lost given asked found free).mono ?_ fun _ _ => id
      rintro _ w' rfl _ made
      cases made
  | some cube =>
      refine (inaccelRealloc_exact given asked found free).mono ?_
        fun _ _ => id
      rintro result w' ⟨-, outcome⟩ base made
      cases stretched : w.stretch P cube newSize w.os with
      | none =>
          rw [stretched] at outcome
          obtain ⟨rfl, quiet⟩ := outcome
          unfold Process.unmoved at made
          split at made
          · rename_i fits
            cases made
            have member := List.mem_of_find?_eq_some found
            exact (plotted.hasRoom member fits.2).congr quiet.cubes
          · cases made
      | some moved =>
          obtain ⟨page, prot⟩ := moved
          rw [stretched] at outcome
          obtain ⟨rfl, whole, quiet⟩ := outcome
          cases made
          have grows : w.growth P addr newSize w.os =
              some (cube, page, prot) := by
            simp [Process.growth_eq given, found, stretched]
          obtain ⟨member, -, -, -, -, admits⟩ := growth_eq grows
          have after := @plotted_moveCube P w.toProcess cube page prot plotted
            member (whole ▸ dvd_ceilPagesize P newSize) admits
          have moved : { cube with page := page } ∈
              (w.moveCube P cube page prot).cubes :=
            List.mem_map.mpr ⟨cube, member, if_pos rfl⟩
          have positive := admits.2.1
          rw [whole] at positive
          have fits := le_ceilPagesize_of_pos word positive
          rw [← whole] at fits
          exact (after.hasRoom moved fits).congr quiet.cubes

theorem grants_alloc (plotted : p.Plotted P) (call : Allocator)
    (fits : call.asked < wordSize)
    (same : call.run P = inaccelAlloc P call.asked) (errno : Nat)
    (os : Nat → Reply) : p.Grants P call errno os := by
  unfold Process.Grants
  rw [same]
  exact (inaccelAlloc_room plotted fits rfl).mono
    (fun _ _ room addr made => (room addr made).1) fun _ _ => id

/-- A product that is no word. -/
theorem grants_truncated (plotted : p.Plotted P) {nelem elsize errno : Nat}
    {os : Nat → Reply} (long : wordSize ≤ nelem * elsize) :
    p.Grants P (.calloc nelem elsize) errno os ↔
      ¬(p.enter errno os).Truncates P (nelem * elsize) := by
  have word : wmul nelem elsize < wordSize := Nat.mod_lt _ (by decide)
  have room := @inaccelAlloc_room P (p.enter errno os) _ plotted word rfl
  have leads := @inaccelAlloc_leads P (p.enter errno os) (wmul nelem elsize) rfl
  refine (room.and leads).iff ?_ fun _ _ stopped => stopped.1.elim
  rintro result w' ⟨room, -, allocates⟩
  cases result with
  | none =>
      refine iff_of_true (fun addr made => by cases made) ?_
      rintro ⟨-, asked, made⟩
      exact Bool.false_ne_true (allocates.mpr ⟨asked, made⟩)
  | some addr =>
      obtain ⟨asked, made⟩ := allocates.mp rfl
      refine iff_of_false (fun grants => ?_) fun fits => fits ⟨long, asked, made⟩
      have short := (room addr rfl).2 _ (grants addr rfl)
      exact Nat.not_lt.mpr long short

end Room

section Calls

variable {P : PageSize} {start finish : Process} {call : Allocator}
  {errno : Nat} {os : Nat → Reply}

/-- Every allocator but `PyDataMem_CallocFunc` gives what it is asked for, and
that one does unless it allocates what is left of a product that is no word. -/
theorem grants_iff {trace : List (Process × Happening)}
    (fresh : start.Fresh) (run : Run (Descent P) start trace finish)
    (words : call.Words) :
    finish.Grants P call errno os ↔
      ¬(finish.enter errno os).Truncates P call.asked := by
  have plotted := (run_surveyed fresh run).plotted
  have fitting : call.asked < wordSize →
      ¬(finish.enter errno os).Truncates P call.asked :=
    fun fits truncates => Nat.not_lt.mpr truncates.1 fits
  cases call with
  | alloc size =>
      exact iff_of_true
        (grants_alloc plotted (.alloc size) words rfl errno os) (fitting words)
  | malloc size =>
      exact iff_of_true
        (grants_alloc plotted (.malloc size) words rfl errno os) (fitting words)
  | realloc ptr newSize =>
      exact iff_of_true (inaccelRealloc_room plotted words.2 rfl)
        (fitting words.2)
  | reallocFunc ptr newSize =>
      exact iff_of_true (inaccelRealloc_room plotted words.2 rfl)
        (fitting words.2)
  | calloc nelem elsize =>
      by_cases fits : nelem * elsize < wordSize
      · have same : wmul nelem elsize = nelem * elsize := Nat.mod_eq_of_lt fits
        exact iff_of_true (grants_alloc plotted (.calloc nelem elsize) fits
          (congrArg (inaccelAlloc P) same) errno os) (fitting fits)
      · exact grants_truncated plotted (Nat.not_lt.mp fits)

end Calls

/-- A call for 8000 bytes in a process that has a block. -/
theorem grants_calloc :
    (Event.outcome .small (.loaded 1 "d") (.smooth (.alloc 1) 131072)).Grants
      .small (.calloc 1000 8) 0 fun _ => .done 65536 "b" := by
  have words : (Allocator.calloc 1000 8).Words :=
    show 1000 < wordSize ∧ 8 < wordSize by decide
  refine (grants_iff ⟨rfl, rfl⟩ run_paged words).mpr ?_
  rintro ⟨long, -⟩
  exact absurd long (by decide)

/-- 2 ^ 63 + 1 elements of 2 bytes get one page. -/
theorem not_grants_calloc : ¬∀ (P : PageSize) (start finish : Process)
    (trace : List (Process × Happening)), start.Fresh →
    Run (Descent P) start trace finish → ∀ call : Allocator, call.Words →
      ∀ errno os, finish.Grants P call errno os := by
  intro claim
  have words : (Allocator.calloc (2 ^ 63 + 1) 2).Words :=
    show 2 ^ 63 + 1 < wordSize ∧ 2 < wordSize by decide
  have grants := claim .small (.loaded 1 "d") (.loaded 1 "d") [] ⟨rfl, rfl⟩
    (.nil _) _ words 0 fun _ => .done 65536 "b"
  have run : returned ((Allocator.calloc (2 ^ 63 + 1) 2).run .small
      ((Process.loaded 1 "d").enter 0 fun _ => .done 65536 "b")) =
        some (some 65536) := by
    decide +kernel
  obtain ⟨cube, found, fits⟩ := grants.of_ok (eq_ok_final run) 65536 rfl
  have sizes : ∀ cube ∈ (final ((Allocator.calloc (2 ^ 63 + 1) 2).run .small
      ((Process.loaded 1 "d").enter 0 fun _ => .done 65536 "b"))).cubes,
        cube.page.size = 4096 := by
    decide +kernel
  rw [sizes cube (List.mem_of_find?_eq_some found)] at fits
  exact absurd fits (by decide)

end CoralApi
