import CoralApi.Granted

/-!
# A block that could not grow

`inaccel_realloc` sets the length of the file and then moves the mapping.  A
new size whose rounding wraps gives the file the length zero before `mremap`
refuses it.
-/

namespace CoralApi

open Program Transition

/-- A call that returns NULL leaves the block, its mapping and the bytes that
its file has for it. -/
def Process.LeavesIntact (P : PageSize) (cube : Cube) (newSize errno : Nat)
    (os : Nat → Reply) (p : Process) : Prop :=
  Ensures (inaccelRealloc P cube.page.addr newSize)
    (fun result w => result = none →
      w.cubes = p.cubes ∧ w.maps = p.maps ∧
      ∀ file, p.file p.self cube.id = some file →
        cube.page.size ≤ file.length →
        ∃ file', w.file p.self cube.id = some file' ∧
          cube.page.size ≤ file'.length ∧
          ∀ index < cube.page.size, file'.bytes index = file.bytes index)
    (fun _ _ => False) (p.enter errno os)

/-- The rounding of the new size wraps, and the file is there, opens and takes
the length zero. -/
def Process.Cuts (P : PageSize) (cube : Cube) (newSize : Nat)
    (os : Nat → Reply) (p : Process) : Prop :=
  wordSize ≤ newSize + P.bytes - 1 ∧
    (os 0).isDone = true ∧ (os 1).isDone = true ∧
    ∃ file, p.file p.self cube.id = some file ∧
      cube.page.size ≤ file.length

section Failure

variable {P : PageSize} {p : Process} {cube : Cube} {newSize errno : Nat}
  {os : Nat → Reply}

/-- The part of a file that is as long as a block. -/
theorem File.resize_bytes {file : File} {size length index : Nat}
    (long : size ≤ file.length) (fits : size ≤ length)
    (inside : index < size) :
    (file.resize length).bytes index = file.bytes index :=
  if_pos (Nat.lt_min.mpr ⟨by omega, by omega⟩)

/-- A length that does not wrap keeps the block in the file. -/
theorem Process.resized_keeps {file : File}
    (fits : newSize + P.bytes - 1 < wordSize)
    (here : p.file p.self cube.id = some file)
    (long : cube.page.size ≤ file.length) :
    ∃ file', p.resized P cube newSize os = some file' ∧
      cube.page.size ≤ file'.length ∧
      ∀ index < cube.page.size, file'.bytes index = file.bytes index := by
  unfold Process.resized
  rw [here]
  split
  · rename_i resizes
    have longer := Nat.le_trans (Nat.le_of_lt resizes.2.1)
      (le_ceilPagesize fits)
    exact ⟨_, rfl, longer, fun index => File.resize_bytes long longer⟩
  · exact ⟨file, rfl, long, fun index _ => rfl⟩

/-- `mremap` refuses the length zero. -/
theorem Process.stretch_eq_none (zero : ceilPagesize P newSize = 0) :
    p.stretch P cube newSize os = none := by
  unfold Process.stretch
  split
  · apply Option.eq_none_iff_forall_ne_some.mpr
    rintro ⟨page, prot⟩ remapped
    obtain ⟨whole, -, admits⟩ := remaps_eq remapped
    rw [zero] at whole
    exact absurd whole (Nat.ne_of_gt admits.2.1)
  · rfl

/-- A length that wraps leaves nothing of the file. -/
theorem Process.resized_cuts {file : File}
    (zero : ceilPagesize P newSize = 0)
    (own : cube.pid = p.pid) (longer : cube.page.size < newSize)
    (here : p.file p.self cube.id = some file) :
    p.resized P cube newSize os =
      if (os 0).isDone = true ∧ (os 1).isDone = true then
        some (file.resize 0)
      else some file := by
  have known : p.hasFile p.self cube.id = true :=
    hasFile_iff.mpr (by simp [here])
  have resizes : p.Resizes P cube newSize os ↔
      (os 0).isDone = true ∧ (os 1).isDone = true := by
    simp only [Process.Resizes, own, longer, known, zero, true_and]
    simp
  unfold Process.resized
  simp only [resizes, here, zero, Option.map_some]

theorem Process.Plotted.leavesIntact (plotted : p.Plotted P)
    (member : cube ∈ p.cubes) (own : cube.pid = p.pid) (asked : newSize ≠ 0)
    (word : newSize < wordSize) :
    p.LeavesIntact P cube newSize errno os ↔ ¬p.Cuts P cube newSize os := by
  have placed := plotted.placed cube member
  refine (inaccelRealloc_exact (Nat.ne_of_gt placed.positive) asked
    (plotted.find?_base member) rfl).iff ?_ fun _ _ => False.elim
  rintro result w ⟨⟨-, here⟩, outcome⟩
  have here : w.file p.self cube.id = p.resized P cube newSize os := here
  simp only [Process.enter] at outcome
  by_cases fits : newSize + P.bytes - 1 < wordSize
  · refine iff_of_true (fun failed => ?_) fun cuts => absurd cuts.1 (by omega)
    cases stretched : p.stretch P cube newSize os with
    | none =>
        rw [stretched] at outcome
        refine ⟨outcome.2.cubes, outcome.2.maps, fun file known long => ?_⟩
        rw [here]
        exact Process.resized_keeps fits known long
    | some moved =>
        rw [stretched] at outcome
        cases failed.symm.trans outcome.1
  · have wraps := Nat.not_lt.mp fits
    have zero := ceilPagesize_eq_zero word wraps
    have room := placed.room
    have longer : cube.page.size < newSize := by omega
    rw [Process.stretch_eq_none zero] at outcome
    have failed : p.unmoved cube newSize = none :=
      if_neg fun both => Nat.not_lt.mpr both.2 longer
    rw [failed] at outcome
    constructor
    · rintro intact ⟨-, opened, truncated, file, known, long⟩
      obtain ⟨file', known', long', -⟩ :=
        (intact outcome.1).2.2 file known long
      rw [here, Process.resized_cuts zero own longer known,
        if_pos ⟨opened, truncated⟩] at known'
      cases known'
      exact absurd placed.nonempty (Nat.not_lt.mpr long')
    · intro spared _
      refine ⟨outcome.2.cubes, outcome.2.maps, fun file known long => ?_⟩
      have stays : ¬((os 0).isDone = true ∧ (os 1).isDone = true) :=
        fun both => spared ⟨wraps, both.1, both.2, file, known, long⟩
      rw [here, Process.resized_cuts zero own longer known, if_neg stays]
      exact ⟨file, rfl, long, fun index _ => rfl⟩

/-- A failed `inaccel_realloc` leaves the block intact unless the rounding of
the size wraps and the file has been cut before `mremap` fails. -/
theorem leavesIntact_iff {start finish : Process}
    {trace : List (Process × Happening)} (fresh : start.Fresh)
    (run : Run (Descent P) start trace finish) (member : cube ∈ finish.cubes)
    (own : cube.pid = finish.pid) (asked : newSize ≠ 0)
    (word : newSize < wordSize) :
    finish.LeavesIntact P cube newSize errno os ↔
      ¬finish.Cuts P cube newSize os :=
  (run_surveyed fresh run).plotted.leavesIntact member own asked word

end Failure

/-- A process whose first block has one page. -/
theorem mem_paged : ⟨1, 0, ⟨131072, 4096⟩, 1, [], "a"⟩ ∈
    (Event.outcome .small (.loaded 1 "d") (.smooth (.alloc 1) 131072)).cubes :=
  by decide +kernel

/-- The file grows and `mremap` fails. -/
theorem leavesIntact_grown :
    (Event.outcome .small (.loaded 1 "d")
      (.smooth (.alloc 1) 131072)).LeavesIntact .small
        ⟨1, 0, ⟨131072, 4096⟩, 1, [], "a"⟩ 5000 0 fun index =>
          if index = 2 then .failed ENOMEM else .done 0 "" := by
  refine (leavesIntact_iff ⟨rfl, rfl⟩ run_paged mem_paged rfl (by decide)
    (by decide)).mpr ?_
  rintro ⟨wraps, -⟩
  exact absurd wraps (by decide)

/-- The file is cut to nothing by a call for 2 ^ 64 - 1 bytes. -/
theorem not_leavesIntact_wrapping : ¬∀ (P : PageSize) (start finish : Process)
    (trace : List (Process × Happening)) (cube : Cube), start.Fresh →
    Run (Descent P) start trace finish → cube ∈ finish.cubes →
    cube.pid = finish.pid → ∀ newSize < wordSize, newSize ≠ 0 →
      ∀ errno os, finish.LeavesIntact P cube newSize errno os := by
  intro claim
  have intact := claim _ _ _ _ _ ⟨rfl, rfl⟩ run_paged mem_paged rfl
    (wordSize - 1) (by decide) (by decide) 0 fun _ => .done 0 ""
  have run : returned (inaccelRealloc .small 131072 (wordSize - 1)
      ((Event.outcome .small (.loaded 1 "d")
        (.smooth (.alloc 1) 131072)).enter 0 fun _ => .done 0 "")) =
          some none := by
    decide +kernel
  have before : ((Event.outcome .small (.loaded 1 "d")
      (.smooth (.alloc 1) 131072)).file "d" "a").map File.length =
        some 4096 := by
    decide +kernel
  have after : ((final (inaccelRealloc .small 131072 (wordSize - 1)
      ((Event.outcome .small (.loaded 1 "d")
        (.smooth (.alloc 1) 131072)).enter 0 fun _ => .done 0 ""))).file
          "d" "a").map File.length = some 0 := by
    decide +kernel
  obtain ⟨file, known, long⟩ := Option.map_eq_some_iff.mp before
  have kept := ((intact.of_ok (eq_ok_final run)) rfl).2.2
  obtain ⟨file', known', long', -⟩ := kept file known (Nat.le_of_eq long.symm)
  have known' : (final (inaccelRealloc .small 131072 (wordSize - 1)
      ((Event.outcome .small (.loaded 1 "d")
        (.smooth (.alloc 1) 131072)).enter 0 fun _ => .done 0 ""))).file
          "d" "a" = some file' := known'
  rw [known'] at after
  rw [Option.some.inj after] at long'
  exact absurd long' (by decide)

end CoralApi
