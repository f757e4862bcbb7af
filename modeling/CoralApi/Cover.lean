import CoralApi.Layout
import Mathlib.Algebra.Order.Ring.Int

/-!
# The pages of a slice

`__slice` rounds the start of a range down and its length up, in machine
words.  For a range inside of a cube this is exact arithmetic, and the pages
are the fewest that contain the range.
-/

namespace CoralApi

/-- The fields of a slice in exact integers; the sum that `__ceil_pagesize`
masks, the largest number on the way, is a word. -/
structure Slice.Exact (P : PageSize) (base addr size : Nat)
    (slice : Slice) : Prop where
  start : (slice.offset : Int) = addr - base
  length : slice.size = size
  pageOffset : (slice.page.offset : Int) =
    (addr : Int) / P.bytes * P.bytes - base
  pageSize : (slice.page.size : Int) =
    ((slice.offset : Int) - slice.page.offset + size + P.bytes - 1) / P.bytes *
      P.bytes
  rounds : (slice.offset : Int) - slice.page.offset + size + P.bytes - 1 <
    wordSize

/-- Every interval of whole pages that contains the range contains the page
range. -/
def Slice.Smallest (P : PageSize) (slice : Slice) : Prop :=
  ∀ first last : Int, (P.bytes : Int) ∣ first → (P.bytes : Int) ∣ last →
    first ≤ slice.offset → (slice.offset : Int) + slice.size ≤ last →
    first ≤ slice.page.offset ∧
      (slice.page.offset : Int) + slice.page.size ≤ last

section Cover

variable {P : PageSize} {cube : Cube} {addr size ptr : Nat}

theorem newSlice_exact (positive : 0 < cube.page.addr)
    (aligned : P.bytes ∣ cube.page.addr)
    (fits : cube.page.addr + cube.page.size ≤ wordSize)
    (word : addr < wordSize) (above : cube.page.addr ≤ addr)
    (below : addr + size ≤ cube.page.addr + cube.page.size) :
    (newSlice P cube addr size ptr).Exact P cube.page.addr addr size := by
  obtain ⟨offset, page, baseBelow, rounds⟩ := @newSlice_page P cube addr size
    ptr positive aligned fits word above below
  have floorBelow := P.floor_le addr
  have bytes := P.bytes_pos
  have floor : ((P.floor addr : Nat) : Int) =
      (addr : Int) / P.bytes * P.bytes := by
    simp [PageSize.floor]
  have lead : ((newSlice P cube addr size ptr).offset : Int) -
      (newSlice P cube addr size ptr).page.offset + size + P.bytes - 1 =
        ((addr - P.floor addr + size + P.bytes - 1 : Nat) : Int) := by
    rw [page, offset]
    simp only
    omega
  refine ⟨?_, rfl, ?_, ?_, ?_⟩
  · rw [offset]
    omega
  · rw [page, ← floor]
    simp only
    omega
  · rw [lead, page]
    simp only
    rw [ceilPagesize_eq, Nat.mod_eq_of_lt rounds]
    simp [PageSize.floor]
  · rw [lead]
    exact_mod_cast rounds

/-- Rounding up stays below every aligned bound. -/
theorem ceil_le {step length bound : Int} (positive : 0 < step)
    (aligned : step ∣ bound) (below : length ≤ bound) :
    (length + step - 1) / step * step ≤ bound := by
  obtain ⟨count, rfl⟩ := aligned
  have quotient : (length + step - 1) / step < count + 1 := by
    rw [Int.ediv_lt_iff_lt_mul positive, Int.add_mul, Int.mul_comm count]
    omega
  rw [Int.mul_comm step]
  exact Int.mul_le_mul_of_nonneg_right (by omega) (by omega)

/-- Rounding down stays above every aligned bound. -/
theorem le_floor_int {step addr bound : Int} (positive : 0 < step)
    (aligned : step ∣ bound) (above : bound ≤ addr) :
    bound ≤ addr / step * step := by
  obtain ⟨count, rfl⟩ := aligned
  rw [Int.mul_comm step] at above ⊢
  have quotient : count ≤ addr / step := Int.le_ediv_of_mul_le positive above
  exact Int.mul_le_mul_of_nonneg_right quotient (by omega)

/-- Of the intervals of whole pages that contain the range, the page range is
in each. -/
theorem Slice.Exact.smallest {slice : Slice} {base : Nat}
    (precise : slice.Exact P base addr size) (aligned : P.bytes ∣ base) :
    slice.Smallest P := by
  intro first last before behind start finish
  have positive : (0 : Int) < P.bytes := by exact_mod_cast P.bytes_pos
  have grid : (P.bytes : Int) ∣ base := by exact_mod_cast aligned
  have offset := precise.pageOffset
  have shifted : first + base ≤ (addr : Int) / P.bytes * P.bytes := by
    refine le_floor_int positive (Int.dvd_add before grid) ?_
    have start' := precise.start
    omega
  have whole : (P.bytes : Int) ∣ last - slice.page.offset := by
    rw [offset]
    exact Int.dvd_sub behind (Int.dvd_sub (Int.dvd_mul_left _ _) grid)
  have rounded : (slice.page.size : Int) ≤ last - slice.page.offset := by
    rw [precise.pageSize]
    refine ceil_le positive whole ?_
    have length := precise.length
    omega
  exact ⟨by omega, by omega⟩

/-- The page range of a new slice. -/
theorem newSlice_covers (positive : 0 < cube.page.addr)
    (aligned : P.bytes ∣ cube.page.addr) (whole : P.bytes ∣ cube.page.size)
    (fits : cube.page.addr + cube.page.size ≤ wordSize) (nonempty : 0 < size)
    (above : cube.page.addr ≤ addr)
    (below : addr + size ≤ cube.page.addr + cube.page.size) :
    (newSlice P cube addr size ptr).Exact P cube.page.addr addr size ∧
      (newSlice P cube addr size ptr).Fits P cube.page.size ∧
      (newSlice P cube addr size ptr).Smallest P :=
  have word : addr < wordSize := by omega
  have precise := newSlice_exact positive aligned fits word above below
  ⟨precise, newSlice_fits_range positive aligned whole fits word above below,
    precise.smallest aligned⟩

end Cover

/-- A cube of two pages that ends with the last word. -/
def Cube.top : Cube where
  ptr := 1
  nlinks := 0
  page := ⟨2 ^ 64 - 8192, 8192⟩
  pid := 1
  slices := []
  id := "a"

/-- The last bytes of all. -/
theorem newSlice_covers_top :
    (newSlice .small .top (2 ^ 64 - 4000) 4000 2).page = ⟨4096, 4096⟩ ∧
      (newSlice .small .top (2 ^ 64 - 4000) 4000 2).Exact .small
        (2 ^ 64 - 8192) (2 ^ 64 - 4000) 4000 ∧
      (newSlice .small .top (2 ^ 64 - 4000) 4000 2).Fits .small 8192 ∧
      (newSlice .small .top (2 ^ 64 - 4000) 4000 2).Smallest .small :=
  ⟨by decide +kernel, @newSlice_covers .small .top (2 ^ 64 - 4000) 4000 2
    (by decide +kernel) (by decide +kernel) (by decide +kernel)
    (by decide +kernel) (by decide) (by decide +kernel) (by decide +kernel)⟩

end CoralApi
