import CoralApi.ArgumentSpec
import CoralApi.Library.Text
import CoralApi.Ownership

/-!
# The printed form of a request

`__str_request` writes names unquoted and tells lists apart by layout alone.
Behind a colon of the argument lines stands a blank and a letter or a digit,
or a line that is indented; no list of arguments begins so.
-/

namespace CoralApi

open Program

/-- `<<` of an unsigned number. -/
def decimal (value : Nat) : List Char := Nat.toDigits 10 value

/-- `<<` of a signed number. -/
def decimalInt : Int → List Char
  | .ofNat value => decimal value
  | .negSucc value => '-' :: decimal (value + 1)

/-- The value of the `off_t` in `slice->offset`. -/
def Slice.offsetT (slice : Slice) : Int :=
  if slice.offset < 2 ^ 63 then slice.offset
  else slice.offset - (wordSize : Int)

def hex : List Char := "0123456789ABCDEF".toList

/-- The two digits of a byte. -/
def hexByte (byte : UInt8) : List Char :=
  [hex.getD ((byte &&& 0xF0) >>> 4).toNat '0',
    hex.getD ((byte &&& 0x0F) >>> 0).toNat '0']

/-- What is printed of an argument. -/
inductive Printed where
  | empty
  | array (id : String) (offset : Int) (size version : Nat)
  | scalar (bytes : List UInt8)
  deriving DecidableEq

def Printed.text : Printed → List Char
  | empty => "- {}".toList
  | array id offset size version =>
      "- array:".toList ++ ("\n    id: ".toList ++ id.toList) ++
        ("\n    offset: ".toList ++ decimalInt offset) ++
        ("\n    size: ".toList ++ decimal size) ++
        ("\n    version: ".toList ++ decimal version)
  | scalar bytes =>
      "- scalar:".toList ++
        ("\n    bytes: 0x".toList ++ bytes.flatMap hexByte)

/-- The body of the loop of `__str_request`: an array of another process
fails. -/
def strArgument : Argument → Prog (Option (List Char))
  | .empty => return some Printed.empty.text
  | .array array => do
      let (cube, slice) ← derefSlice array.context
      if cube.pid ≠ (← Utils.process) then do
        setErrno EACCES
        return none
      else
        return some (Printed.array cube.id slice.offsetT slice.size
          slice.version).text
  | .scalar bytes => return some (Printed.scalar bytes).text

/-- The loop of `__str_request`; it copies every argument. -/
def strArguments : List Argument → Prog (Option (List Char))
  | [] => return some []
  | argument :: arguments => do
      mayThrow
      match ← strArgument argument with
      | none => return none
      | some text =>
          match ← strArguments arguments with
          | none => return none
          | some rest => return some ('\n' :: text ++ rest)

/-- `__str_request`; nothing stands for -1. -/
def strRequest (request : Nat) : Prog (Option (List Char)) := do
  let grpc ← derefRequest request
  let string := "---\n".toList ++ grpc.accelerator.toList ++ ":".toList
  -- the arguments are copied
  mayThrow
  if grpc.arguments = [] then return some (string ++ " []".toList)
  else
    match ← strArguments grpc.arguments with
    | none => return none
    | some text => return some (string ++ text)

/-- What is printed of an argument in this state. -/
def Argument.printed (p : Process) : Argument → Option Printed
  | .empty => some .empty
  | .array slot => (p.findSlice slot.context).map fun (cube, slice) =>
      .array cube.id slice.offsetT slice.size slice.version
  | .scalar value => some (.scalar value)

/-- The ids of the cubes are six letters or digits. -/
def Process.Lettered (p : Process) : Prop :=
  ∀ cube ∈ p.live, cube.id.toList.length = 6 ∧
    ∀ letter ∈ cube.id.toList, letter.isAlphanum = true

/-- A line, with the break before it. -/
def Printed.line (slot : Printed) : List Char := '\n' :: slot.text

/-- The lines behind the colon of the name. -/
def printedBody (slots : List Printed) : List Char :=
  if slots = [] then " []".toList else slots.flatMap Printed.line

section Letters

variable {value value' : Nat} {letter : Char}

def Signed (letter : Char) : Prop := letter.isDigit = true ∨ letter = '-'

theorem isDigit_decimal : ∀ letter ∈ decimal value, letter.isDigit = true :=
  fun _ inside => Nat.isDigit_of_mem_toDigits (by decide) (by decide) inside

theorem decimal_injective (same : decimal value = decimal value') :
    value = value' := by
  have read := congrArg (Nat.ofDigitChars 10 · 0) same
  simpa only [decimal, Nat.ofDigitChars_ten_toDigits] using read

theorem signed_decimalInt {offset : Int} :
    ∀ letter ∈ decimalInt offset, Signed letter := by
  cases offset with
  | ofNat value => exact fun letter inside => .inl (isDigit_decimal _ inside)
  | negSucc value =>
      intro letter inside
      rcases List.mem_cons.mp inside with sign | digit
      · exact .inr sign
      · exact .inl (isDigit_decimal _ digit)

theorem decimalInt_injective {offset offset' : Int}
    (same : decimalInt offset = decimalInt offset') : offset = offset' := by
  have signless : ∀ {value rest}, decimal value ≠ '-' :: rest := by
    intro value rest same
    have digit := isDigit_decimal '-' (same ▸ List.mem_cons_self)
    simp at digit
  cases offset with
  | ofNat value =>
      cases offset' with
      | ofNat value' => exact congrArg Int.ofNat (decimal_injective same)
      | negSucc value' => exact (signless same).elim
  | negSucc value =>
      cases offset' with
      | ofNat value' => exact (signless same.symm).elim
      | negSucc value' =>
          have next := decimal_injective (List.cons.inj same).2
          exact congrArg Int.negSucc (Nat.succ.inj next)

theorem hex_eq : hex = ['0', '1', '2', '3', '4', '5', '6', '7', '8', '9', 'A',
    'B', 'C', 'D', 'E', 'F'] := rfl

theorem hexByte_mem {byte : UInt8} : ∀ letter ∈ hexByte byte, letter ∈ hex := by
  have zero : '0' ∈ hex := hex_eq ▸ List.mem_cons_self
  have digit : ∀ index, hex.getD index '0' ∈ hex := by
    intro index
    by_cases inside : index < hex.length
    · rw [← List.getElem_eq_getD (h := inside)]
      exact List.getElem_mem inside
    · rw [List.getD_eq_default _ _ (Nat.le_of_not_lt inside)]
      exact zero
  intro letter member
  rcases List.mem_cons.mp member with high | low
  · exact high ▸ digit _
  · exact List.mem_singleton.mp low ▸ digit _

/-- The byte of two digits. -/
def unhex (digits : List Char) : Nat :=
  digits.foldl (fun value letter => 16 * value + hex.idxOf letter) 0

theorem hexByte_injective {byte byte' : UInt8}
    (same : hexByte byte = hexByte byte') : byte = byte' := by
  have all : ∀ value < 256, unhex (hexByte (UInt8.ofNat value)) = value := by
    decide +kernel
  have here := all byte.toNat byte.toNat_lt
  have there := all byte'.toNat byte'.toNat_lt
  rw [UInt8.ofNat_toNat] at here there
  exact UInt8.toNat_inj.mp (here.symm.trans ((congrArg unhex same).trans there))

theorem hexBytes_injective {bytes bytes' : List UInt8}
    (same : bytes.flatMap hexByte = bytes'.flatMap hexByte) :
    bytes = bytes' := by
  refine Text.items_unique (fun _ => True) (fun _ => True)
    (fun _ => List.cons_ne_nil _ _) trivial (fun _ _ => trivial) ?_
    (fun _ _ => trivial) (fun _ _ => trivial) same
  intro byte byte' rest rest' _ _ _ _ same
  obtain ⟨digits, tail⟩ := List.append_inj same rfl
  exact ⟨hexByte_injective digits, tail⟩

end Letters

section Lines

variable {slot slot' : Printed} {rest rest' : List Char}

/-- The id of an array is six letters or digits. -/
def Printed.Lettered : Printed → Prop
  | array id _ _ _ => id.toList.length = 6 ∧
      ∀ letter ∈ id.toList, letter.isAlphanum = true
  | _ => True

/-- What can follow a line: another one, or nothing. -/
def EndsLine (rest : List Char) : Prop :=
  ∀ letter ∈ rest.head?, letter = '\n'

theorem EndsLine.stops {kind : Char → Prop} (follows : EndsLine rest)
    (other : ¬kind '\n') : Text.Stops kind rest :=
  fun letter first => follows letter first ▸ other

theorem endsLine_line : EndsLine (slot.line ++ rest) := by
  rintro letter ⟨⟩
  rfl

theorem decimal_unique {value value' : Nat} (follows : EndsLine rest)
    (follows' : EndsLine rest')
    (same : decimal value ++ rest = decimal value' ++ rest') :
    value = value' ∧ rest = rest' := by
  obtain ⟨digits, rests⟩ := Text.stretch_unique isDigit_decimal isDigit_decimal
    (follows.stops (by decide)) (follows'.stops (by decide)) same
  exact ⟨decimal_injective digits, rests⟩

theorem decimalInt_unique {offset offset' : Int} (follows : EndsLine rest)
    (follows' : EndsLine rest')
    (same : decimalInt offset ++ rest = decimalInt offset' ++ rest') :
    offset = offset' ∧ rest = rest' := by
  have unsigned : ¬Signed '\n' := by unfold Signed; decide
  obtain ⟨digits, rests⟩ := Text.stretch_unique signed_decimalInt
    signed_decimalInt (follows.stops unsigned) (follows'.stops unsigned) same
  exact ⟨decimalInt_injective digits, rests⟩

theorem hexBytes_unique {bytes bytes' : List UInt8} (follows : EndsLine rest)
    (follows' : EndsLine rest')
    (same : bytes.flatMap hexByte ++ rest = bytes'.flatMap hexByte ++ rest') :
    bytes = bytes' ∧ rest = rest' := by
  have digits : ∀ {bytes : List UInt8},
      ∀ letter ∈ bytes.flatMap hexByte, letter ∈ hex := by
    intro bytes letter inside
    obtain ⟨byte, -, digit⟩ := List.mem_flatMap.mp inside
    exact hexByte_mem letter digit
  obtain ⟨equal, rests⟩ := Text.stretch_unique digits digits
    (follows.stops (by decide)) (follows'.stops (by decide)) same
  exact ⟨hexBytes_injective equal, rests⟩

theorem endsLine_break {field : String} {letters text : List Char}
    (broken : field.toList = '\n' :: letters) :
    EndsLine (field.toList ++ text) := by
  rintro letter first
  rw [broken] at first
  cases first
  rfl

theorem endsLine_size {text : List Char} :
    EndsLine ("\n    size: ".toList ++ text) :=
  endsLine_break String.toList_ofList

theorem endsLine_version {text : List Char} :
    EndsLine ("\n    version: ".toList ++ text) :=
  endsLine_break String.toList_ofList

theorem line_array {id : String} {offset : Int} {size version : Nat} :
    (Printed.array id offset size version).line =
      "\n- array:".toList ++ ("\n    id: ".toList ++ (id.toList ++
        ("\n    offset: ".toList ++ (decimalInt offset ++
          ("\n    size: ".toList ++ (decimal size ++
            ("\n    version: ".toList ++ decimal version))))))) := by
  change "\n- array:".toList ++ _ ++ _ ++ _ ++ _ = _
  simp only [List.append_assoc]

theorem line_scalar {bytes : List UInt8} :
    (Printed.scalar bytes).line =
      "\n- scalar:".toList ++
        ("\n    bytes: 0x".toList ++ bytes.flatMap hexByte) := rfl

/-- The letter that tells the kinds of the lines apart. -/
def Printed.kind : Printed → Char
  | empty => '{'
  | array .. => 'a'
  | scalar _ => 's'

theorem kind_line : (slot.line ++ rest)[3]? = some slot.kind := by
  cases slot with
  | empty => rfl
  | array => rfl
  | scalar => rfl

/-- A line is read back, whatever line follows it. -/
theorem line_unique (lettered : slot.Lettered) (lettered' : slot'.Lettered)
    (follows : EndsLine rest) (follows' : EndsLine rest')
    (same : slot.line ++ rest = slot'.line ++ rest') :
    slot = slot' ∧ rest = rest' := by
  have kinds : slot.kind = slot'.kind := by
    have letter := congrArg (·[3]?) same
    simpa only [kind_line, Option.some.injEq] using letter
  cases slot with
  | empty =>
      cases slot' with
      | empty => exact ⟨rfl, List.append_cancel_left same⟩
      | array => exact absurd (show '{' = 'a' from kinds) (by decide)
      | scalar => exact absurd (show '{' = 's' from kinds) (by decide)
  | array id offset size version =>
      cases slot' with
      | empty => exact absurd (show 'a' = '{' from kinds) (by decide)
      | scalar => exact absurd (show 'a' = 's' from kinds) (by decide)
      | array id' offset' size' version' =>
          simp only [line_array, List.append_assoc,
            List.append_cancel_left_eq] at same
          obtain ⟨ids, same⟩ := List.append_inj same
            (lettered.1.trans lettered'.1.symm)
          obtain ⟨offsets, same⟩ := decimalInt_unique endsLine_size
            endsLine_size (List.append_cancel_left same)
          obtain ⟨sizes, same⟩ := decimal_unique endsLine_version
            endsLine_version (List.append_cancel_left same)
          obtain ⟨versions, rests⟩ := decimal_unique follows follows'
            (List.append_cancel_left same)
          rw [String.toList_inj.mp ids, offsets, sizes, versions]
          exact ⟨rfl, rests⟩
  | scalar bytes =>
      cases slot' with
      | empty => exact absurd (show 's' = '{' from kinds) (by decide)
      | array => exact absurd (show 's' = 'a' from kinds) (by decide)
      | scalar bytes' =>
          simp only [line_scalar, List.append_assoc,
            List.append_cancel_left_eq] at same
          obtain ⟨equal, rests⟩ := hexBytes_unique follows follows' same
          exact ⟨congrArg Printed.scalar equal, rests⟩

end Lines

section Bodies

variable {slot : Printed} {slots slots' : List Printed} {text : List Char}

/-- What can stand behind the colon of a name. -/
def Opens (body : List Char) : Prop :=
  body = [' ', '[', ']'] ∨ ∃ rest, body = '\n' :: '-' :: rest

theorem not_opens_indented : ¬Opens ('\n' :: ' ' :: text) := by
  rintro (empty | ⟨rest, line⟩)
  · simp at empty
  · simp at line

theorem not_opens_value {letter : Char} (plain : letter ≠ '[') :
    ¬Opens (' ' :: letter :: text) := by
  rintro (empty | ⟨rest, line⟩)
  · exact plain (List.cons.inj (List.cons.inj empty).2).1
  · simp at line

/-- A field is indented. -/
theorem shields_indented {field : List Char} (plain : ':' ∉ field) :
    Text.Shields ':' Opens (':' :: '\n' :: ' ' :: field) := by
  refine .of_mark ?_ fun rest => not_opens_indented
  simpa using plain

/-- A value does not begin with a bracket. -/
theorem shields_value {value field : List Char} (nonempty : value ≠ [])
    (plain : ∀ letter ∈ value, letter ≠ ':' ∧ letter ≠ '[')
    (plain' : ':' ∉ field) :
    Text.Shields ':' Opens (':' :: ' ' :: (value ++ field)) := by
  cases value with
  | nil => exact absurd rfl nonempty
  | cons letter value =>
      refine .of_mark ?_ fun rest =>
        not_opens_value (plain letter List.mem_cons_self).2
      intro inside
      rcases List.mem_cons.mp inside with blank | inside
      · exact absurd blank (by decide)
      · rcases List.mem_append.mp inside with inside | inside
        · exact (plain ':' inside).1 rfl
        · exact plain' inside

theorem plain_of_isDigit {letter : Char} (digit : letter.isDigit = true) :
    letter ≠ ':' ∧ letter ≠ '[' := by
  refine ⟨?_, ?_⟩ <;> rintro rfl <;> simp at digit

theorem plain_of_signed {letter : Char} (signed : Signed letter) :
    letter ≠ ':' ∧ letter ≠ '[' := by
  rcases signed with digit | rfl
  · exact plain_of_isDigit digit
  · decide

theorem plain_of_isAlphanum {letter : Char} (alphanum : letter.isAlphanum) :
    letter ≠ ':' ∧ letter ≠ '[' := by
  refine ⟨?_, ?_⟩ <;> rintro rfl <;> simp [Char.isAlphanum] at alphanum

theorem decimal_ne_nil {value : Nat} : decimal value ≠ [] :=
  Nat.toDigits_ne_nil

theorem decimalInt_ne_nil {offset : Int} : decimalInt offset ≠ [] := by
  cases offset with
  | ofNat value => exact decimal_ne_nil
  | negSucc value => exact List.cons_ne_nil _ _

theorem shields_line (lettered : slot.Lettered) :
    Text.Shields ':' Opens slot.line := by
  cases slot with
  | empty => exact .of_not_mem (by decide)
  | array id offset size version =>
      have parts : (Printed.array id offset size version).line =
          "\n- array".toList ++ ((':' :: '\n' :: ' ' :: "   id".toList) ++
            ((':' :: ' ' :: (id.toList ++ "\n    offset".toList)) ++
            ((':' :: ' ' :: (decimalInt offset ++ "\n    size".toList)) ++
            ((':' :: ' ' :: (decimal size ++ "\n    version".toList)) ++
            (':' :: ' ' :: (decimal version ++ [])))))) := by
        rw [line_array]
        simp only [List.append_assoc, List.cons_append, List.append_nil]
        rfl
      have named : id.toList ≠ [] := by
        intro empty
        simpa [empty] using lettered.1
      rw [parts]
      refine .append (.of_not_mem (by decide)) (.append ?_ (.append ?_
        (.append ?_ (.append ?_ ?_))))
      · exact shields_indented (by decide)
      · exact shields_value named
          (fun letter inside => plain_of_isAlphanum (lettered.2 letter inside))
          (by decide)
      · exact shields_value decimalInt_ne_nil
          (fun letter inside => plain_of_signed
            (signed_decimalInt letter inside)) (by decide)
      · exact shields_value decimal_ne_nil
          (fun letter inside => plain_of_isDigit
            (isDigit_decimal letter inside)) (by decide)
      · exact shields_value decimal_ne_nil
          (fun letter inside => plain_of_isDigit
            (isDigit_decimal letter inside)) (by decide)
  | scalar bytes =>
      have parts : (Printed.scalar bytes).line =
          "\n- scalar".toList ++ ((':' :: '\n' :: ' ' :: "   bytes".toList) ++
            (':' :: ' ' :: (("0x".toList ++ bytes.flatMap hexByte) ++ []))) := by
        rw [line_scalar, List.append_nil]
        rfl
      rw [parts]
      refine .append (.of_not_mem (by decide)) (.append ?_ ?_)
      · exact shields_indented (by decide)
      · refine shields_value (List.cons_ne_nil _ _) ?_ (by decide)
        intro letter inside
        have mark : ∀ letter ∈ "0x".toList, letter ≠ ':' ∧ letter ≠ '[' := by
          simp
        rcases List.mem_append.mp inside with inside | inside
        · exact mark letter inside
        · obtain ⟨byte, -, digit⟩ := List.mem_flatMap.mp inside
          have digits : ∀ letter ∈ hex, letter ≠ ':' ∧ letter ≠ '[' := by
            rw [hex_eq]
            simp
          exact digits letter (hexByte_mem letter digit)

theorem shields_body (all : ∀ slot ∈ slots, slot.Lettered) :
    Text.Shields ':' Opens (printedBody slots) := by
  unfold printedBody
  split
  · exact .of_not_mem (by decide)
  · exact .flatMap fun slot inside => shields_line (all slot inside)

theorem opens_body : Opens (printedBody slots) := by
  unfold printedBody
  split
  · exact .inl rfl
  · rename_i nonempty
    obtain ⟨slot, slots, rfl⟩ := List.exists_cons_of_ne_nil nonempty
    cases slot with
    | empty => exact .inr ⟨_, rfl⟩
    | array => exact .inr ⟨_, rfl⟩
    | scalar => exact .inr ⟨_, rfl⟩

theorem printedBody_injective (all : ∀ slot ∈ slots, slot.Lettered)
    (all' : ∀ slot ∈ slots', slot.Lettered)
    (same : printedBody slots = printedBody slots') : slots = slots' := by
  have first : ∀ {slots : List Printed}, slots ≠ [] →
      " []".toList ≠ slots.flatMap Printed.line := by
    intro slots nonempty same
    obtain ⟨slot, slots, rfl⟩ := List.exists_cons_of_ne_nil nonempty
    exact absurd (List.cons.inj same).1 (by decide)
  by_cases empty : slots = []
  · by_cases empty' : slots' = []
    · exact empty.trans empty'.symm
    · rw [printedBody, printedBody, if_pos empty, if_neg empty'] at same
      exact (first empty' same).elim
  · by_cases empty' : slots' = []
    · rw [printedBody, printedBody, if_neg empty, if_pos empty'] at same
      exact (first empty same.symm).elim
    · rw [printedBody, printedBody, if_neg empty, if_neg empty'] at same
      exact Text.items_unique Printed.Lettered EndsLine
        (fun _ => List.cons_ne_nil _ _) (fun _ first => by cases first)
        (fun _ _ => endsLine_line)
        (fun _ _ _ _ lettered lettered' follows follows' =>
          line_unique lettered lettered' follows follows') all all' same

/-- The whole text. -/
def printedRequest (accelerator : String) (slots : List Printed) : List Char :=
  "---\n".toList ++ accelerator.toList ++ ":".toList ++ printedBody slots

theorem printedRequest_injective {accelerator accelerator' : String}
    (all : ∀ slot ∈ slots, slot.Lettered)
    (all' : ∀ slot ∈ slots', slot.Lettered)
    (same : printedRequest accelerator slots =
      printedRequest accelerator' slots') :
    accelerator = accelerator' ∧ slots = slots' := by
  simp only [printedRequest, List.append_assoc,
    List.append_cancel_left_eq] at same
  obtain ⟨names, bodies⟩ := Text.name_unique (shields_body all)
    (shields_body all') opens_body opens_body same
  exact ⟨String.toList_inj.mp names, printedBody_injective all all' bodies⟩

end Bodies

section Runs

variable {w : World}

theorem Argument.printed_lettered {p : Process} (lettered : p.Lettered)
    {argument : Argument} {slot : Printed}
    (printed : argument.printed p = some slot) : slot.Lettered := by
  cases argument with
  | empty =>
      cases printed
      trivial
  | scalar value =>
      cases printed
      trivial
  | array array =>
      obtain ⟨⟨cube, s⟩, found, rfl⟩ := Option.map_eq_some_iff.mp printed
      exact lettered cube (findSlice_mem found).1

/-- What is returned is the text of the argument. -/
theorem strArgument_spec {argument : Argument} :
    Ensures (strArgument argument)
      (fun result w' => ∀ text, result = some text →
        w'.toProcess = w.toProcess ∧
          ∃ slot, argument.printed w.toProcess = some slot ∧ text = slot.text)
      (fun _ _ => True) w := by
  cases argument with
  | empty =>
      intro text same
      exact ⟨rfl, .empty, rfl, (Option.some.inj same).symm⟩
  | scalar value =>
      intro text same
      exact ⟨rfl, .scalar value, rfl, (Option.some.inj same).symm⟩
  | array array =>
      refine ensures_derefSlice (fun _ => trivial) fun cube s found => ?_
      apply Ensures.step rfl
      split
      · refine Ensures.step rfl ?_
        intro text same
        cases same
      · intro text same
        refine ⟨rfl, _, ?_, (Option.some.inj same).symm⟩
        simp only [Argument.printed, found, Option.map_some]

/-- The loop returns the lines of the arguments. -/
theorem strArguments_spec {arguments : List Argument} :
    Ensures (strArguments arguments)
      (fun result _ => ∀ text, result = some text →
        ∃ slots : List Printed,
        arguments.map (Argument.printed w.toProcess) = slots.map some ∧
          text = slots.flatMap Printed.line)
      (fun _ _ => True) w := by
  induction arguments generalizing w with
  | nil =>
      intro text same
      exact ⟨[], rfl, (Option.some.inj same).symm⟩
  | cons argument arguments induction =>
      cases first : (w.os 0).isDone with
      | false => exact ensures_bind.mpr (.ends (mayThrow_failed first) trivial)
      | true =>
          apply Ensures.step (mayThrow_done first)
          refine strArgument_spec.bind ?_
          intro result w' head
          cases result with
          | none =>
              intro text same
              cases same
          | some line =>
              obtain ⟨unchanged, slot, printed, rfl⟩ := head line rfl
              refine induction.bind ?_
              intro result w'' tail
              cases result with
              | none =>
                  intro text same
                  cases same
              | some rest =>
                  obtain ⟨slots, printed', rfl⟩ := tail rest rfl
                  intro text same
                  refine ⟨slot :: slots, ?_, (Option.some.inj same).symm⟩
                  rw [unchanged] at printed'
                  exact congrArg₂ List.cons printed printed'

/-- The function returns the text of the request. -/
theorem strRequest_spec {request : Nat} :
    Ensures (strRequest request)
      (fun result _ => ∀ text, result = some text →
        ∃ (grpc : Request) (slots : List Printed),
        w.requests request = some grpc ∧
          grpc.arguments.map (Argument.printed w.toProcess) =
            slots.map some ∧
          text = printedRequest grpc.accelerator slots)
      (fun _ _ => True) w := by
  apply ensures_derefRequest (fun _ => trivial)
  intro grpc found
  cases first : (w.os 0).isDone with
  | false => exact ensures_bind.mpr (.ends (mayThrow_failed first) trivial)
  | true =>
      apply Ensures.step (mayThrow_done first)
      split
      · rename_i empty
        intro text same
        refine ⟨grpc, [], found, ?_, (Option.some.inj same).symm⟩
        rw [empty]
        rfl
      · rename_i nonempty
        refine strArguments_spec.bind ?_
        intro result w' loop
        cases result with
        | none =>
            intro text same
            cases same
        | some lines =>
            obtain ⟨slots, printed, rfl⟩ := loop lines rfl
            intro text same
            refine ⟨grpc, slots, found, printed, ?_⟩
            have slotted : slots ≠ [] := by
              rintro rfl
              exact nonempty (List.map_eq_nil_iff.mp printed)
            rw [← Option.some.inj same, printedRequest, printedBody,
              if_neg slotted]

/-- Two requests of one text have the same accelerator and, slot by slot, the
same arguments. -/
theorem strRequest_injective {request request' : Nat} {w w' v v' : World}
    {text : List Char} (lettered : w.Lettered) (lettered' : v.Lettered)
    (run : strRequest request w = .ok (some text) w')
    (run' : strRequest request' v = .ok (some text) v') :
    ∃ (grpc grpc' : Request) (slots : List Printed),
      w.requests request = some grpc ∧
      v.requests request' = some grpc' ∧
      grpc.accelerator = grpc'.accelerator ∧
      grpc.arguments.map (Argument.printed w.toProcess) = slots.map some ∧
      grpc'.arguments.map (Argument.printed v.toProcess) =
        slots.map some := by
  obtain ⟨grpc, slots, found, printed, rfl⟩ :=
    strRequest_spec.of_ok run text rfl
  obtain ⟨grpc', slots', found', printed', same⟩ :=
    strRequest_spec.of_ok run' _ rfl
  have all : ∀ {p : Process} {arguments : List Argument}
      {slots : List Printed}, p.Lettered →
      arguments.map (Argument.printed p) = slots.map some →
        ∀ slot ∈ slots, slot.Lettered := by
    intro p arguments slots lettered printed slot inside
    have inside : some slot ∈ arguments.map (Argument.printed p) :=
      printed ▸ List.mem_map_of_mem inside
    obtain ⟨argument, -, here⟩ := List.mem_map.mp inside
    exact Argument.printed_lettered lettered here
  obtain ⟨names, equal⟩ := printedRequest_injective (all lettered printed)
    (all lettered' printed') same
  exact ⟨grpc, grpc', slots, found, found', names, printed,
    equal ▸ printed'⟩

/-- A request of a name with a colon and a break, and every kind of slot. -/
def Process.printing : Process :=
  { Process.loaded 1 "p" with
    cubes := [⟨1, 0, ⟨65536, 4096⟩, 1, [⟨2, 0, ⟨0, 4096⟩, 0, 4096, 0⟩],
      "b2ZxAb"⟩]
    requests := fun _ => some ⟨"a:\n- {}",
      [.empty, .array ⟨2, "", 0, 0, 0⟩, .scalar [1]], none⟩ }

theorem strRequest_printing :
    ∃ (text : List Char) (grpc grpc' : Request) (slots : List Printed),
      returned (strRequest 10 (Process.printing.enter 0 succeeds)) =
        some (some text) ∧
      Process.printing.requests 10 = some grpc ∧
      Process.printing.requests 11 = some grpc' ∧
      grpc.accelerator = grpc'.accelerator ∧
      grpc.arguments.map (Argument.printed Process.printing) =
        slots.map some ∧
      grpc'.arguments.map (Argument.printed Process.printing) =
        slots.map some := by
  have lettered : (Process.printing.enter 0 succeeds).Lettered := by
    intro cube member
    have here : cube ∈ [(⟨1, 0, ⟨65536, 4096⟩, 1,
        [⟨2, 0, ⟨0, 4096⟩, 0, 4096, 0⟩], "b2ZxAb"⟩ : Cube)] := member
    rw [List.mem_singleton.mp here]
    have letters : "b2ZxAb".toList.all Char.isAlphanum = true := by decide
    exact ⟨by decide, List.all_eq_true.mp letters⟩
  obtain ⟨text, printed⟩ : ∃ text, ∀ request, returned (strRequest request
      (Process.printing.enter 0 succeeds)) = some (some text) :=
    ⟨_, fun request => rfl⟩
  obtain ⟨grpc, grpc', slots, same⟩ := strRequest_injective lettered lettered
    (eq_ok_final (printed 10)) (eq_ok_final (printed 11))
  exact ⟨_, grpc, grpc', slots, printed 10, same⟩

end Runs

end CoralApi
