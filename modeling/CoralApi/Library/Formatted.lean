import Mathlib.Algebra.Group.Nat.Defs
import Mathlib.Data.List.Basic
import Mathlib.Tactic.SplitIfs

/-!
# Formatted output

What `printf` makes of a format and of arguments that are all of type
`size_t`, of 64 bits.  A letter stands for itself, `%%` for a percent sign,
and a conversion for the next argument.  There is no output where C does not
define one.  No conversion prints a percent sign, so each one of the format is
missing in the output.
-/

namespace Formatted

/-- The flags, the width and the precision of a conversion. -/
structure Spec where
  flags : List Char
  width : Nat
  precision : Option Nat

/-- The modifiers that make an integer conversion one of `size_t`, or of the
`unsigned long` that it is. -/
def isSize (letters : List Char) : Bool :=
  letters == ['z'] || letters == ['l']

def isFlag (letter : Char) : Bool := "-+ #0".toList.contains letter

/-- A decimal number; no digits make 0. -/
def number (digits : List Char) : Nat := Nat.ofDigitChars 10 digits 0

/-- Read what stands between the percent sign and the letter. -/
def Spec.read (text : List Char) : Option Spec :=
  let flags := text.takeWhile isFlag
  let field := text.dropWhile isFlag
  let width := number (field.takeWhile Char.isDigit)
  match field.dropWhile Char.isDigit with
  | '.' :: field =>
      if isSize (field.dropWhile Char.isDigit) then
        some ⟨flags, width, some (number (field.takeWhile Char.isDigit))⟩
      else none
  | rest => if isSize rest then some ⟨flags, width, none⟩ else none

def isSigned (letter : Char) : Bool := letter == 'd' || letter == 'i'

def isHex (letter : Char) : Bool := letter == 'x' || letter == 'X'

/-- The digits of an argument, by the letter of the conversion. -/
def digits (letter : Char) (value : Nat) : Option (List Char) :=
  if isSigned letter && 2 ^ 63 ≤ value then none
  else if isSigned letter || letter == 'u' then some (Nat.toDigits 10 value)
  else if letter = 'o' then some (Nat.toDigits 8 value)
  else if letter = 'x' then some (Nat.toDigits 16 value)
  else if letter = 'X' then some ((Nat.toDigits 16 value).map Char.toUpper)
  else none

namespace Spec

/-- The least number of digits; no digit of a zero is asked for. -/
def precise (spec : Spec) (digits : List Char) : List Char :=
  let least := spec.precision.getD 1
  if least = 0 ∧ digits = ['0'] then []
  else List.replicate (least - digits.length) '0' ++ digits

/-- What stands before the digits. -/
def sign (spec : Spec) (letter : Char) (value : Nat) : List Char :=
  if isSigned letter && '+' ∈ spec.flags then ['+']
  else if isSigned letter && ' ' ∈ spec.flags then [' ']
  else if isHex letter && '#' ∈ spec.flags && value ≠ 0 then ['0', letter]
  else []

/-- The alternative form, which signed and decimal numbers have not. -/
def alternative (spec : Spec) (letter : Char) (digits : List Char) :
    Option (List Char) :=
  if '#' ∉ spec.flags ∨ isHex letter then some digits
  else if letter = 'o' then
    some (if digits.head? = some '0' then digits else '0' :: digits)
  else none

/-- Fill up to the width. -/
def fill (spec : Spec) (sign digits : List Char) : List Char :=
  let missing := spec.width - (sign.length + digits.length)
  if '-' ∈ spec.flags then sign ++ digits ++ List.replicate missing ' '
  else if '0' ∈ spec.flags ∧ spec.precision = none then
    sign ++ List.replicate missing '0' ++ digits
  else List.replicate missing ' ' ++ sign ++ digits

end Spec

/-- The output of one conversion. -/
def convert (field : List Char) (letter : Char) (value : Nat) :
    Option (List Char) := do
  let spec ← Spec.read field
  let read ← digits letter value
  let number ← spec.alternative letter (spec.precise read)
  return spec.fill (spec.sign letter value) number

/-- The output from a letter on.  Behind a percent sign, the conversion is
read up to its letter; the modifiers of its length are no such letters. -/
def scan : List Nat → Option (List Char) → List Char → Option (List Char)
  | _, none, [] => some []
  | _, some _, [] => none
  | values, none, letter :: text =>
      if letter = '%' then scan values (some []) text
      else (scan values none text).map (letter :: ·)
  | values, some field, letter :: text =>
      if field = [] ∧ letter = '%' then
        (scan values none text).map ('%' :: ·)
      else if letter.isAlpha && !"hljztL".toList.contains letter then
        (values.head?.bind (convert field letter)).bind fun output =>
          (scan values.tail none text).map (output ++ ·)
      else scan values (some (field ++ [letter])) text

/-- The output of a format. -/
def format (values : List Nat) (text : List Char) : Option (List Char) :=
  scan values none text

section Percents

variable {letter : Char} {field text output : List Char} {value base : Nat}
  {values : List Nat}

theorem digitChar_plain (digit : Nat) :
    digit.digitChar ≠ '%' ∧ digit.digitChar.toUpper ≠ '%' := by
  by_cases small : digit < 16
  · revert digit
    decide
  · have star : digit.digitChar = '*' :=
      Nat.digitChar_eq_star.mpr (Nat.le_of_not_lt small)
    rw [star]
    decide

theorem mem_toDigitsCore {fuel : Nat}
    (inside : letter ∈ Nat.toDigitsCore base fuel value text) :
    letter ∈ text ∨ ∃ digit : Nat, letter = digit.digitChar := by
  induction fuel generalizing value text with
  | zero => exact .inl inside
  | succ fuel induction =>
      have next : letter ∈ (value % base).digitChar :: text →
          letter ∈ text ∨ ∃ digit : Nat, letter = digit.digitChar := by
        intro inside
        rcases List.mem_cons.mp inside with first | rest
        · exact .inr ⟨_, first⟩
        · exact .inl rest
      rw [Nat.toDigitsCore] at inside
      split at inside
      · exact next inside
      · rcases induction inside with inside | digit
        · exact next inside
        · exact .inr digit

theorem toDigits_plain :
    '%' ∉ Nat.toDigits base value ∧
      '%' ∉ (Nat.toDigits base value).map Char.toUpper := by
  have digit : ∀ letter ∈ Nat.toDigits base value,
      ∃ digit : Nat, letter = digit.digitChar := by
    intro letter inside
    rcases mem_toDigitsCore inside with nothing | digit
    · cases nothing
    · exact digit
  constructor
  · intro inside
    obtain ⟨value, percent⟩ := digit _ inside
    exact (digitChar_plain value).1 percent.symm
  · intro inside
    obtain ⟨letter, member, percent⟩ := List.mem_map.mp inside
    obtain ⟨value, rfl⟩ := digit letter member
    exact (digitChar_plain value).2 percent

theorem digits_plain (read : digits letter value = some output) :
    '%' ∉ output := by
  unfold digits at read
  split_ifs at read
  · cases read
    exact toDigits_plain.1
  · cases read
    exact toDigits_plain.1
  · cases read
    exact toDigits_plain.1
  · cases read
    exact toDigits_plain.2

namespace Spec

variable {spec : Spec} {number sign : List Char}

theorem precise_plain (plain : '%' ∉ number) :
    '%' ∉ spec.precise number := by
  unfold precise
  dsimp only
  split_ifs
  · exact List.not_mem_nil
  · simp [plain]

theorem sign_plain : '%' ∉ spec.sign letter value := by
  unfold sign
  split_ifs with plus blank hex
  · decide
  · decide
  · have other : letter ≠ '%' := by
      rintro rfl
      simp [isHex] at hex
    simp [Ne.symm other]
  · exact List.not_mem_nil

theorem alternative_plain (plain : '%' ∉ number)
    (read : spec.alternative letter number = some output) :
    '%' ∉ output := by
  unfold alternative at read
  split_ifs at read
  · cases read
    exact plain
  · cases read
    exact plain
  · cases read
    simp [plain]

theorem fill_plain (before : '%' ∉ sign) (plain : '%' ∉ number) :
    '%' ∉ spec.fill sign number := by
  unfold fill
  dsimp only
  split
  · simp [before, plain]
  · split
    · simp [before, plain]
    · simp [before, plain]

end Spec

theorem convert_plain (converted : convert field letter value = some output) :
    '%' ∉ output := by
  unfold convert at converted
  obtain ⟨spec, -, converted⟩ := Option.bind_eq_some_iff.mp converted
  obtain ⟨read, digits, converted⟩ := Option.bind_eq_some_iff.mp converted
  obtain ⟨number, form, converted⟩ := Option.bind_eq_some_iff.mp converted
  cases converted
  have plain : '%' ∉ spec.precise read :=
    Spec.precise_plain (digits_plain digits)
  exact Spec.fill_plain Spec.sign_plain (Spec.alternative_plain plain form)

/-- A conversion loses its percent sign. -/
theorem scan_count {mode : Option (List Char)}
    (run : scan values mode text = some output) :
    output.count '%' ≤ text.count '%' := by
  induction text generalizing values mode output with
  | nil =>
      cases mode with
      | none =>
          cases run
          exact Nat.le_refl _
      | some field => cases run
  | cons letter text induction =>
      have more : text.count '%' ≤ (letter :: text).count '%' :=
        List.count_le_count_cons
      cases mode with
      | none =>
          rw [scan] at run
          split at run
          · exact Nat.le_trans (induction run) more
          · rename_i other
            obtain ⟨rest, tail, rfl⟩ := Option.map_eq_some_iff.mp run
            rw [List.count_cons_of_ne other, List.count_cons_of_ne other]
            exact induction tail
      | some field =>
          rw [scan] at run
          split at run
          · rename_i escape
            obtain ⟨rest, tail, rfl⟩ := Option.map_eq_some_iff.mp run
            rw [escape.2, List.count_cons_self, List.count_cons_self]
            exact Nat.succ_le_succ (induction tail)
          · split at run
            · obtain ⟨first, converted, run⟩ :=
                Option.bind_eq_some_iff.mp run
              obtain ⟨value, -, converted⟩ :=
                Option.bind_eq_some_iff.mp converted
              obtain ⟨rest, tail, rfl⟩ := Option.map_eq_some_iff.mp run
              rw [List.count_append,
                List.count_eq_zero.mpr (convert_plain converted), Nat.zero_add]
              exact Nat.le_trans (induction tail) more
            · exact Nat.le_trans (induction run) more

/-- Without a percent sign, the output is the format. -/
theorem format_plain (plain : '%' ∉ text) :
    format values text = some text := by
  unfold format
  induction text with
  | nil => rfl
  | cons letter text induction =>
      have other : letter ≠ '%' := by
        rintro rfl
        exact plain List.mem_cons_self
      have rest : '%' ∉ text :=
        fun inside => plain (List.mem_cons_of_mem _ inside)
      rw [scan, if_neg other, induction rest]
      rfl

theorem format_count (run : format values text = some output)
    (percent : '%' ∈ text) : output.count '%' < text.count '%' := by
  unfold format at run
  induction text generalizing output with
  | nil => cases percent
  | cons letter text induction =>
      rw [scan] at run
      split at run
      · rename_i same
        rw [same, List.count_cons_self]
        exact Nat.lt_succ_of_le (scan_count run)
      · rename_i other
        obtain ⟨rest, tail, rfl⟩ := Option.map_eq_some_iff.mp run
        rw [List.count_cons_of_ne other, List.count_cons_of_ne other]
        exact induction tail
          (List.mem_of_ne_of_mem (Ne.symm other) percent)

/-- A format is printed as it stands if it has no percent sign. -/
theorem format_eq_self_iff : format values text = some text ↔ '%' ∉ text := by
  constructor
  · intro run percent
    exact Nat.lt_irrefl _ (format_count run percent)
  · exact format_plain

end Percents

end Formatted
