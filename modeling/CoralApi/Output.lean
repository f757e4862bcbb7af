import CoralApi.Library.Formatted
import CoralApi.Print
import Mathlib.Data.List.TakeWhile

/-!
# The printing functions

`inaccel_request_fprint` and its kin hand the text to `printf` as the format,
with its size as the only argument.  The letters are the `char`s of C.
-/

namespace CoralApi

open Program

/-- What `__str_response` makes of `status.error_code()`. -/
def codeTexts : List (Int × String) :=
  [(0, "Ok"), (1, "Cancelled"), (2, "Unknown"), (3, "Invalid argument"),
    (4, "Deadline exceeded"), (5, "Not found"), (6, "Already exists"),
    (7, "Permission denied"), (16, "Unauthenticated"),
    (8, "Resource exhausted"), (9, "Failed precondition"), (10, "Aborted"),
    (11, "Out of range"), (12, "Unimplemented"), (13, "Internal"),
    (14, "Unavailable"), (15, "Data loss"), (-1, "Do not use")]

def codeText (code : Int) : List Char :=
  ((codeTexts.lookup code).getD "").toList

/-- The text of a status. -/
def Status.text (status : Status) : List Char :=
  codeText status.code ++
    if status.message = "" then [] else ": ".toList ++ status.message.toList

/-- `__str_response` -/
def strResponse (response : Nat) : Prog (Option (List Char)) := do
  let r ← derefResponse response
  return some r.status.text

def nul : Char := Char.ofNat 0

/-- `string.str().c_str()` -/
def cStr (text : List Char) : List Char := text.takeWhile (· != nul)

/-- What a call writes, and its value. -/
structure Output where
  written : List Char
  value : Int
  deriving DecidableEq

/-- The buffer of `snprintf`. -/
def buffer (n : Nat) (output : List Char) : List Char :=
  if n = 0 then [] else output.take (n - 1) ++ [nul]

/-- `fprintf` and `snprintf`, unless C does not define their effect. -/
def printf (write : List Char → List Char) (format : List Char) (size : Nat) :
    Option Output :=
  (Formatted.format [size] format).bind fun output =>
    if output.length < 2 ^ 31 then some ⟨write output, output.length⟩
    else none

/-- The `try` block of the printing functions. -/
def printText (str : Prog (Option (List Char)))
    (write : List Char → List Char) : Prog (Option Output) :=
  catchThrown (do
    match ← str with
    | none => return some ⟨[], -1⟩
    | some text => do
        -- `string.str()`
        mayThrow
        return printf write (cStr text) text.length) (some ⟨[], -1⟩)

/-- A printing function, past its test for null. -/
def printPtr (ptr : Nat) (str : Nat → Prog (Option (List Char)))
    (write : List Char → List Char) : Prog (Option Output) := do
  if ptr = 0 then do
    setErrno EINVAL
    return some ⟨[], -1⟩
  else printText (str ptr) write

/-- `inaccel_request_fprint` -/
def inaccelRequestFprint (request : Nat) : Prog (Option Output) :=
  printPtr request strRequest id

/-- `inaccel_request_snprint` -/
def inaccelRequestSnprint (n request : Nat) : Prog (Option Output) :=
  printPtr request strRequest (buffer n)

/-- `inaccel_response_fprint` -/
def inaccelResponseFprint (response : Nat) : Prog (Option Output) :=
  printPtr response strResponse id

/-- `inaccel_response_snprint` -/
def inaccelResponseSnprint (n response : Nat) : Prog (Option Output) :=
  printPtr response strResponse (buffer n)

section Plain

variable {slot : Printed} {slots : List Printed}

/-- The id of an array has no percent sign. -/
def Printed.Plain : Printed → Prop
  | array id _ _ _ => '%' ∉ id.toList
  | _ => True

theorem decimal_plain {value : Nat} : '%' ∉ decimal value :=
  fun inside => absurd (isDigit_decimal _ inside) (by decide)

theorem decimalInt_plain {offset : Int} : '%' ∉ decimalInt offset := by
  intro inside
  have signed := signed_decimalInt _ inside
  unfold Signed at signed
  exact absurd signed (by decide)

theorem hexBytes_plain {bytes : List UInt8} :
    '%' ∉ bytes.flatMap hexByte := by
  intro inside
  obtain ⟨byte, -, digit⟩ := List.mem_flatMap.mp inside
  exact absurd (hexByte_mem _ digit) (by decide)

theorem line_plain_iff : '%' ∉ slot.line ↔ slot.Plain := by
  cases slot with
  | empty => exact iff_of_true (by decide) trivial
  | scalar bytes =>
      refine iff_of_true ?_ trivial
      rw [line_scalar]
      simp only [List.mem_append, hexBytes_plain, or_false]
      decide
  | array id offset size version =>
      have field : ∀ {name : String} {value : List Char},
          '%' ∉ name.toList → ('%' ∉ name.toList ++ value ↔ '%' ∉ value) := by
        intro name value plain
        rw [List.mem_append, not_or]
        exact and_iff_right plain
      rw [line_array, field (by decide), field (by decide), List.mem_append,
        not_or]
      refine and_iff_left ?_
      rw [field (by decide), List.mem_append, not_or]
      refine ⟨decimalInt_plain, ?_⟩
      rw [field (by decide), List.mem_append, not_or]
      exact ⟨decimal_plain, (field (by decide)).mpr decimal_plain⟩

theorem body_plain_iff :
    '%' ∉ printedBody slots ↔ ∀ slot ∈ slots, slot.Plain := by
  unfold printedBody
  split
  · rename_i empty
    rw [empty]
    exact iff_of_true (by decide) fun _ inside => nomatch inside
  · rw [List.mem_flatMap, not_exists]
    refine forall_congr' fun slot => ?_
    rw [not_and, line_plain_iff]

theorem request_plain_iff {accelerator : String} :
    '%' ∉ printedRequest accelerator slots ↔
      '%' ∉ accelerator.toList ∧ ∀ slot ∈ slots, slot.Plain := by
  have head : '%' ∉ "---\n".toList := by decide
  have colon : '%' ∉ ":".toList := by decide
  simp only [printedRequest, List.mem_append, head, colon, false_or, or_false,
    not_or, body_plain_iff]

theorem codeText_plain {code : Int} : '%' ∉ codeText code := by
  have all : ∀ entry ∈ codeTexts, '%' ∉ entry.2.toList := by decide
  unfold codeText
  cases found : codeTexts.lookup code with
  | none => decide
  | some text =>
      obtain ⟨before, after, entries, -⟩ :=
        List.lookup_eq_some_iff.mp found
      exact all (code, text) (by simp [entries])

theorem status_plain_iff {status : Status} :
    '%' ∉ status.text ↔ '%' ∉ status.message.toList := by
  have colon : '%' ∉ ": ".toList := by decide
  unfold Status.text
  rw [List.mem_append, not_or]
  refine (and_iff_right codeText_plain).trans ?_
  split
  · rename_i empty
    rw [empty]
    exact iff_of_true (by decide) (by decide)
  · simp only [List.mem_append, colon, false_or]

end Plain

/-- What the library prints. -/
inductive Printable where
  | request (ptr : Nat)
  | response (ptr : Nat)

namespace Printable

def ptr : Printable → Nat
  | request ptr => ptr
  | response ptr => ptr

/-- `__str_request` and `__str_response` -/
def str : Printable → Prog (Option (List Char))
  | request ptr => strRequest ptr
  | response ptr => strResponse ptr

def fprint : Printable → Prog (Option Output)
  | request ptr => inaccelRequestFprint ptr
  | response ptr => inaccelResponseFprint ptr

def snprint (n : Nat) : Printable → Prog (Option Output)
  | request ptr => inaccelRequestSnprint n ptr
  | response ptr => inaccelResponseSnprint n ptr

/-- The text is written, up to the end of the buffer, and its length is
returned. -/
def Prints (item : Printable) (text : List Char) (w : World) : Prop :=
  returned (item.fprint w) = some (some ⟨text, text.length⟩) ∧
    ∀ n, returned (item.snprint n w) =
      some (some ⟨buffer n text, text.length⟩)

/-- The strings in the text have no percent sign: the name of the accelerator
and the ids of the arrays, or the error message. -/
def Plain (item : Printable) (p : Process) : Prop :=
  match item with
  | request ptr => ∀ grpc, p.requests ptr = some grpc →
      '%' ∉ grpc.accelerator.toList ∧
        ∀ slot ∈ arrayContexts grpc.arguments, ∀ cube slice,
          p.findSlice slot = some (cube, slice) → '%' ∉ cube.id.toList
  | response ptr => ∀ r, p.responses ptr = some r →
      '%' ∉ r.status.message.toList

end Printable

section Prints

variable {item : Printable} {text : List Char} {w w' : World}
  {write : List Char → List Char}

theorem cStr_eq (nulless : nul ∉ text) : cStr text = text := by
  refine List.takeWhile_eq_self_iff.mpr fun letter inside => ?_
  have other : letter ≠ nul := by
    rintro rfl
    exact nulless inside
  simpa using other

/-- What is left to the output of the text. -/
theorem printPtr_run {ptr : Nat} {str : Nat → Prog (Option (List Char))}
    (real : ptr ≠ 0) (run : str ptr w = .ok (some text) w')
    (memory : (w'.os 0).isDone = true) (nulless : nul ∉ text) :
    returned (printPtr ptr str write w) =
      some (printf write text text.length) := by
  unfold printPtr
  rw [if_neg real]
  unfold printText catchThrown
  simp only [bind, EStateM.bind, run, mayThrow_done memory, cStr_eq nulless]
  rfl

theorem printf_plain (plain : '%' ∉ text) (short : text.length < 2 ^ 31) :
    printf write text text.length = some ⟨write text, text.length⟩ := by
  unfold printf
  rw [Formatted.format_plain plain, Option.bind_some, if_pos short]

/-- A stream shows the whole output. -/
theorem plain_of_printf
    (printed : printf id text text.length = some ⟨text, text.length⟩) :
    '%' ∉ text := by
  obtain ⟨output, formatted, written⟩ := Option.bind_eq_some_iff.mp printed
  split at written
  · have same : output = text :=
      congrArg Output.written (Option.some.inj written)
    rw [same] at formatted
    exact Formatted.format_eq_self_iff.mp formatted
  · cases written

/-- So does a buffer that is longer than the text. -/
theorem plain_of_snprintf
    (printed : printf (buffer (text.length + 1)) text text.length =
      some ⟨buffer (text.length + 1) text, text.length⟩) : '%' ∉ text := by
  obtain ⟨output, formatted, written⟩ := Option.bind_eq_some_iff.mp printed
  split at written
  · have output_eq := Option.some.inj written
    have length : output.length = text.length :=
      Int.ofNat.inj (congrArg Output.value output_eq)
    have letters : output.take text.length ++ [nul] =
        text.take text.length ++ [nul] := congrArg Output.written output_eq
    rw [← length, List.take_length, length, List.take_length,
      List.append_cancel_right_eq] at letters
    rw [letters] at formatted
    exact Formatted.format_eq_self_iff.mp formatted
  · cases written

theorem slots_plain_iff {p : Process} {arguments : List Argument}
    {slots : List Printed}
    (printed : arguments.map (Argument.printed p) = slots.map some) :
    (∀ slot ∈ slots, slot.Plain) ↔
      ∀ ptr ∈ arrayContexts arguments, ∀ cube slice,
        p.findSlice ptr = some (cube, slice) → '%' ∉ cube.id.toList := by
  induction arguments generalizing slots with
  | nil =>
      cases List.map_eq_nil_iff.mp printed.symm
      exact iff_of_true (fun _ inside => nomatch inside)
        fun _ inside => nomatch inside
  | cons argument arguments induction =>
      obtain ⟨slot, slots, rfl⟩ : ∃ slot rest, slots = slot :: rest := by
        cases slots with
        | nil => cases printed
        | cons slot slots => exact ⟨slot, slots, rfl⟩
      obtain ⟨first, rest⟩ := List.cons.inj printed
      rw [List.forall_mem_cons, induction rest]
      cases argument with
      | empty =>
          cases first
          exact and_iff_right trivial
      | scalar value =>
          cases first
          exact and_iff_right trivial
      | array array =>
          obtain ⟨⟨cube, slice⟩, found, rfl⟩ := Option.map_eq_some_iff.mp first
          have contexts : arrayContexts (.array array :: arguments) =
              array.context :: arrayContexts arguments := rfl
          rw [contexts, List.forall_mem_cons]
          refine and_congr_left' ⟨?_, fun plain => plain cube slice found⟩
          intro plain cube' slice' found'
          cases found.symm.trans found'
          exact plain

namespace Printable

theorem str_plain_iff (run : item.str w = .ok (some text) w') :
    '%' ∉ text ↔ item.Plain w.toProcess := by
  cases item with
  | request ptr =>
      obtain ⟨grpc, slots, found, printed, rfl⟩ :=
        strRequest_spec.of_ok run text rfl
      rw [request_plain_iff, slots_plain_iff printed]
      constructor
      · intro plain grpc' found'
        cases found.symm.trans found'
        exact plain
      · exact fun plain => plain grpc found
  | response ptr =>
      have spec : Ensures (strResponse ptr)
          (fun result _ => ∃ r, w.responses ptr = some r ∧
            result = some r.status.text) (fun _ _ => True) w :=
        ensures_derefResponse (fun _ _ _ _ => trivial)
          fun r found => ⟨r, found, rfl⟩
      obtain ⟨r, found, same⟩ := spec.of_ok run
      rw [Option.some.inj same, status_plain_iff]
      constructor
      · intro plain r' found'
        cases found.symm.trans found'
        exact plain
      · exact fun plain => plain r found

/-- The text is printed if and only if no string in it has a percent sign. -/
theorem prints_iff (real : item.ptr ≠ 0)
    (run : item.str w = .ok (some text) w')
    (memory : (w'.os 0).isDone = true) (nulless : nul ∉ text)
    (short : text.length < 2 ^ 31) :
    item.Prints text w ↔ item.Plain w.toProcess := by
  have fprint : returned (item.fprint w) =
      some (printf id text text.length) := by
    cases item with
    | request ptr => exact printPtr_run real run memory nulless
    | response ptr => exact printPtr_run real run memory nulless
  have snprint : ∀ n, returned (item.snprint n w) =
      some (printf (buffer n) text text.length) := by
    intro n
    cases item with
    | request ptr => exact printPtr_run real run memory nulless
    | response ptr => exact printPtr_run real run memory nulless
  rw [← str_plain_iff run]
  constructor
  · rintro ⟨stream, -⟩
    exact plain_of_printf (Option.some.inj (fprint.symm.trans stream))
  · intro plain
    refine ⟨fprint.trans ?_, fun n => (snprint n).trans ?_⟩
    · rw [printf_plain plain short]
      rfl
    · rw [printf_plain plain short]

end Printable

end Prints

/-- A response of a server that sends a message. -/
def Process.answered (message : String) : Process :=
  { Process.loaded 1 "p" with
    responses := fun _ =>
      some ⟨⟨"", [], none⟩, ⟨13, message⟩, false, true⟩ }

theorem prints_message : (Printable.response 5).Prints
    "Internal: no memory".toList
    ((Process.answered "no memory").enter 0 succeeds) := by
  have run : returned ((Printable.response 5).str
      ((Process.answered "no memory").enter 0 succeeds)) =
        some (some "Internal: no memory".toList) := rfl
  refine (Printable.prints_iff (by decide) (eq_ok_final run) rfl (by decide)
    (by decide)).mpr ?_
  rintro r ⟨⟩
  decide

/-- The server sends "50%% done". -/
theorem not_prints_message : ¬∀ (item : Printable) (text : List Char)
    (w w' : World), item.ptr ≠ 0 → item.str w = .ok (some text) w' →
      (w'.os 0).isDone = true → nul ∉ text → text.length < 2 ^ 31 →
        item.Prints text w := by
  intro claim
  have run : returned ((Printable.response 5).str
      ((Process.answered "50%% done").enter 0 succeeds)) =
        some (some "Internal: 50%% done".toList) := rfl
  have printed := claim (.response 5) _ _ _ (by decide) (eq_ok_final run) rfl
    (by decide) (by decide)
  have written : returned ((Printable.response 5).fprint
      ((Process.answered "50%% done").enter 0 succeeds)) =
        some (some ⟨"Internal: 50% done".toList, 18⟩) := rfl
  exact absurd (written.symm.trans printed.1) (by decide)

end CoralApi
