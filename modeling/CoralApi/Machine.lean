import Mathlib.Data.Nat.Bitwise
import Mathlib.Tactic.Ring

/-!
# Machine words and page rounding

Addresses and sizes are 64-bit words, kept as natural numbers below
`wordSize`.  `floorPagesize` and `ceilPagesize` are the bit masks of
`utils.c`; the lemmas restate them as division by the page size, which is the
form every later argument about pages uses.
-/

namespace CoralApi

/-- The number of values of a `uintptr_t`, a `size_t` and an `off_t`. -/
def wordSize : Nat := 2 ^ 64

/-- Addition of two words. -/
def wadd (left right : Nat) : Nat := (left + right) % wordSize

/-- Subtraction of two words. -/
def wsub (left right : Nat) : Nat := (left + (wordSize - right)) % wordSize

theorem wadd_eq {left right : Nat} (fits : left + right < wordSize) :
    wadd left right = left + right :=
  Nat.mod_eq_of_lt fits

theorem wsub_eq {left right : Nat} (ordered : right ≤ left)
    (fits : left < wordSize) : wsub left right = left - right := by
  have rearranged : left + (wordSize - right) = left - right + wordSize := by
    omega
  rw [wsub, rearranged, Nat.add_mod_right]
  exact Nat.mod_eq_of_lt (by omega)

/-- A distance leads back, wrapped or not. -/
theorem wadd_wsub {left right : Nat} (word : left < wordSize)
    (base : right ≤ wordSize) : wadd right (wsub left right) = left := by
  have round : right + (left + (wordSize - right)) = left + wordSize := by
    omega
  rw [wadd, wsub, Nat.add_mod_mod, round, Nat.add_mod_right,
    Nat.mod_eq_of_lt word]

/-- `sysconf(_SC_PAGESIZE)`: a power of two that a word can hold. -/
structure PageSize where
  shift : Nat
  shift_lt : shift < 64

namespace PageSize

/-- Pages of 4096 bytes. -/
def small : PageSize := ⟨12, by decide⟩

def bytes (P : PageSize) : Nat := 2 ^ P.shift

theorem bytes_pos (P : PageSize) : 0 < P.bytes := Nat.two_pow_pos _

theorem bytes_dvd_wordSize (P : PageSize) : P.bytes ∣ wordSize :=
  Nat.pow_dvd_pow 2 (Nat.le_of_lt P.shift_lt)

theorem bytes_le_wordSize (P : PageSize) : P.bytes ≤ wordSize :=
  Nat.le_of_dvd (by decide) P.bytes_dvd_wordSize

/-- The base of the page that holds a byte. -/
def floor (P : PageSize) (addr : Nat) : Nat := addr / P.bytes * P.bytes

theorem floor_le (P : PageSize) (addr : Nat) : P.floor addr ≤ addr :=
  Nat.div_mul_le_self _ _

theorem dvd_floor (P : PageSize) (addr : Nat) : P.bytes ∣ P.floor addr :=
  Nat.dvd_mul_left _ _

theorem lt_floor_add (P : PageSize) (addr : Nat) :
    addr < P.floor addr + P.bytes :=
  Nat.lt_div_mul_add P.bytes_pos

/-- An aligned bound that an address reaches is reached by its page. -/
theorem le_floor {P : PageSize} {bound addr : Nat} (aligned : P.bytes ∣ bound) :
    bound ≤ P.floor addr ↔ bound ≤ addr := by
  obtain ⟨count, rfl⟩ := aligned
  rw [floor, Nat.mul_comm P.bytes count,
    Nat.mul_le_mul_right_iff P.bytes_pos, Nat.le_div_iff_mul_le P.bytes_pos]

theorem floor_lt {P : PageSize} {bound addr : Nat} (aligned : P.bytes ∣ bound) :
    P.floor addr < bound ↔ addr < bound := by
  have reached := @le_floor P bound addr aligned
  omega

end PageSize

/-- The mask `~(sysconf(_SC_PAGESIZE) - 1)` clears the bits below the page. -/
private theorem land_mask {shift ptr : Nat} (small : shift < 64)
    (word : ptr < wordSize) :
    ptr &&& (wordSize - 2 ^ shift) = ptr / 2 ^ shift * 2 ^ shift := by
  have mask : wordSize - 2 ^ shift = (2 ^ (64 - shift) - 1) * 2 ^ shift := by
    rw [Nat.sub_mul, ← Nat.pow_add, Nat.sub_add_cancel (Nat.le_of_lt small)]
    simp [wordSize]
  rw [mask]
  apply Nat.eq_of_testBit_eq
  intro index
  simp only [Nat.testBit_and, Nat.testBit_mul_two_pow, Nat.testBit_div_two_pow,
    Nat.testBit_two_pow_sub_one]
  by_cases high : shift ≤ index
  · have restored : index - shift + shift = index := Nat.sub_add_cancel high
    by_cases inWord : index < 64
    · have shifted : index - shift < 64 - shift := by omega
      simp [high, restored, shifted]
    · have zero : ptr.testBit index = false :=
        Nat.testBit_lt_two_pow
          (Nat.lt_of_lt_of_le word (Nat.pow_le_pow_right (by decide) (by omega)))
      simp [high, restored, zero]
  · simp [high]

/-- `__floor_pagesize`. -/
def floorPagesize (P : PageSize) (ptr : Nat) : Nat :=
  -- in a word, `~(P - 1)` is `2 ^ 64 - P`
  ptr &&& (wordSize - P.bytes)

/-- `__ceil_pagesize`: the sum wraps. -/
def ceilPagesize (P : PageSize) (ptr : Nat) : Nat :=
  (ptr + P.bytes - 1) % wordSize &&& (wordSize - P.bytes)

theorem floorPagesize_eq (P : PageSize) {ptr : Nat} (word : ptr < wordSize) :
    floorPagesize P ptr = P.floor ptr :=
  land_mask P.shift_lt word

theorem ceilPagesize_eq (P : PageSize) (ptr : Nat) :
    ceilPagesize P ptr = P.floor ((ptr + P.bytes - 1) % wordSize) :=
  land_mask P.shift_lt (Nat.mod_lt _ (by decide))

theorem dvd_ceilPagesize (P : PageSize) (ptr : Nat) :
    P.bytes ∣ ceilPagesize P ptr := by
  rw [ceilPagesize_eq]
  exact P.dvd_floor _

/-- Rounding up without a wrap reaches the argument. -/
theorem le_ceilPagesize {P : PageSize} {ptr : Nat}
    (fits : ptr + P.bytes - 1 < wordSize) : ptr ≤ ceilPagesize P ptr := by
  rw [ceilPagesize_eq, Nat.mod_eq_of_lt fits]
  have next := P.lt_floor_add (ptr + P.bytes - 1)
  have positive := P.bytes_pos
  omega

/-- Rounding up with a wrap gives zero. -/
theorem ceilPagesize_eq_zero {P : PageSize} {ptr : Nat}
    (word : ptr < wordSize) (wraps : wordSize ≤ ptr + P.bytes - 1) :
    ceilPagesize P ptr = 0 := by
  have bytes := P.bytes_pos
  have bound := P.bytes_le_wordSize
  have wrapped : (ptr + P.bytes - 1) % wordSize < P.bytes := by
    rw [Nat.mod_eq_sub_mod wraps, Nat.mod_eq_of_lt (by omega)]
    omega
  rw [ceilPagesize_eq, PageSize.floor, Nat.div_eq_of_lt wrapped, Nat.zero_mul]

/-- A result that is not zero did not wrap. -/
theorem le_ceilPagesize_of_pos {P : PageSize} {ptr : Nat}
    (word : ptr < wordSize) (positive : 0 < ceilPagesize P ptr) :
    ptr ≤ ceilPagesize P ptr := by
  by_cases fits : ptr + P.bytes - 1 < wordSize
  · exact le_ceilPagesize fits
  · rw [ceilPagesize_eq_zero word (Nat.not_lt.mp fits)] at positive
    exact absurd positive (Nat.lt_irrefl 0)

/-- Rounding up without a wrap stays below every aligned bound of the
argument. -/
theorem ceilPagesize_le {P : PageSize} {ptr bound : Nat}
    (fits : ptr + P.bytes - 1 < wordSize) (aligned : P.bytes ∣ bound)
    (below : ptr ≤ bound) : ceilPagesize P ptr ≤ bound := by
  rw [ceilPagesize_eq, Nat.mod_eq_of_lt fits]
  obtain ⟨count, rfl⟩ := aligned
  have positive := P.bytes_pos
  have quotient : (ptr + P.bytes - 1) / P.bytes < count + 1 := by
    rw [Nat.div_lt_iff_lt_mul positive, Nat.add_mul, Nat.mul_comm count]
    omega
  calc
    P.floor (ptr + P.bytes - 1)
        ≤ count * P.bytes := Nat.mul_le_mul_right _ (by omega)
    _ = P.bytes * count := Nat.mul_comm _ _

end CoralApi
