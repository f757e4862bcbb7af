import CoralApi.ArgumentSpec
import CoralApi.Library.Slots
import CoralApi.Library.Transition
import CoralApi.Traffic

/-!
# The message of a submission

A request is a table of slots.  `Draft` follows one request through any
history of calls on it, with a log of what the successful ones have put into
which slot, and of which slot the others were at when they threw.  A submission
describes the arrays of the table and changes no slot otherwise, so the next
message is again the table.
-/

namespace CoralApi

open Program Transition

/-- What a successful call puts into a slot. -/
inductive Entry where
  | array (slice : Nat)
  | scalar (bytes : List UInt8)
  deriving DecidableEq

def Argument.entry : Argument → Option Entry
  | .empty => none
  | .array slot => some (.array slot.context)
  | .scalar value => some (.scalar value)

/-- The description that a slice has at its attach. -/
def Process.description (ptr : Nat) (p : Process) : Option ArrayArg :=
  (p.findSlice ptr).map fun found =>
    ⟨ptr, found.1.id, found.2.offset, found.2.size, found.2.version⟩

/-- The argument that the message carries for a slot. -/
def Entry.carried (p : Process) : Option Entry → Option Argument
  | none => some .empty
  | some (.scalar bytes) => some (.scalar bytes)
  | some (.array ptr) => (p.description ptr).map .array

/-- What a slot holds when the call that was to write it has thrown, unless it
still holds what it held. -/
def Entry.Cut (held : Option Entry) : Prop :=
  held = none ∨ held = some (.scalar [])

/-- The calls on a request, and whatever else happens. -/
inductive Edit where
  | argArray (size value index : Nat)
  | argScalar (bytes : List UInt8) (index : Nat)
  | submit (response : Nat)
  | other

/-- A request with its history. -/
structure Draft where
  p : Process
  /-- log: the slots of the calls, the last one first, with what a call has put
  there, or `none` if it has thrown -/
  log : List (Nat × Option Entry)

namespace Edit

def run (P : PageSize) (request : Nat) : Edit → Prog Int
  | argArray size value index =>
      inaccelRequestArgArray P request size value index
  | argScalar bytes index => inaccelRequestArgScalar request bytes index
  | submit response => inaccelSubmit P request response
  | other => return 0

/-- The slot and the entry of a call that passes its checks and gets its
slice. -/
def entry (P : PageSize) (request : Nat) (w : World) :
    Edit → Option (Nat × Entry)
  | argArray size value index =>
      if request = 0 ∨ size = 0 then none
      else (returned (slice P value size w)).join.map fun ptr =>
        (index, .array ptr)
  | argScalar bytes index =>
      if request = 0 ∨ bytes.length = 0 then none
      else some (index, .scalar bytes)
  | submit _ => none
  | other => none

/-- What a call leaves in the log. -/
def mark (P : PageSize) (request : Nat) (w : World) (whole : Bool)
    (edit : Edit) : List (Nat × Option Entry) :=
  ((edit.entry P request w).map fun put =>
    (put.1, if whole then some put.2 else none)).toList

end Edit

namespace Draft

/-- The history after a call. -/
def after (P : PageSize) (request : Nat) (edit : Edit) (w : World)
    (s : Draft) : Draft where
  p := (final (edit.run P request w)).toProcess
  log := edit.mark P request w (returned (edit.run P request w) == some 0) ++
    s.log

/-- The steps of a history.  Between the calls the request stays as it is. -/
inductive Step (P : PageSize) (request : Nat) (s : Draft) :
    Edit → Draft → Prop where
  | edit {edit : Edit} {errno : Nat} {os : Nat → Reply} :
      Step P request s edit (s.after P request edit (s.p.enter errno os))
  | other {p : Process}
      (kept : p.requests request = s.p.requests request) :
      Step P request s .other { s with p := p }

/-- The request was just created. -/
def Created (request : Nat) (s : Draft) : Prop :=
  ∃ accelerator p errno os w, inaccelRequestCreate accelerator
    (Process.enter p errno os) = .ok (some request) w ∧ s = ⟨w.toProcess, []⟩

/-- The slots of the request hold what the log says. -/
def Sound (request : Nat) (s : Draft) : Prop :=
  ∃ grpc, s.p.requests request = some grpc ∧
    Slots.Fits Entry.Cut s.log (grpc.arguments.map Argument.entry)

end Draft

section Tables

variable {arguments : List Argument} {index : Nat}

/-- A slot gets its entry. -/
theorem entries_modify {update : Argument → Argument} {entry : Entry}
    (puts : ∀ argument, (update argument).entry = some entry) :
    ((padArguments index arguments).modify index update).map Argument.entry =
      (Slots.pad none index (arguments.map Argument.entry)).modify index
        fun _ => some entry := by
  have padded : (padArguments index arguments).map Argument.entry =
      Slots.pad none index (arguments.map Argument.entry) := by
    simp [padArguments, Slots.pad, Argument.entry]
  rw [← padded]
  apply List.ext_getElem?
  intro other
  rw [List.getElem?_map, List.getElem?_modify, List.getElem?_modify,
    List.getElem?_map]
  cases (padArguments index arguments)[other]? with
  | none => rfl
  | some argument =>
      by_cases here : index = other
      · simp [here, puts]
      · simp [here]

theorem entry_setContext {ptr : Nat} (argument : Argument) :
    (argument.setContext ptr).entry = some (.array ptr) := by
  cases argument with
  | empty => rfl
  | array array => rfl
  | scalar bytes => rfl

/-- The entries of a table that a call has left when it threw. -/
theorem entries_torn {torn : List Argument} (leaves : Torn index arguments torn) :
    Slots.Torn none Entry.Cut index (arguments.map Argument.entry)
      (torn.map Argument.entry) := by
  refine leaves.map Argument.entry ?_
  rintro argument (rfl | rfl)
  · exact .inl rfl
  · exact .inr rfl

end Tables

section Descriptions

variable {P : PageSize} {request response : Nat} {accelerator : String}
  {metadata : Option Metadata} {before arguments : List Argument}
  {array : ArrayArg} {w w' : World}

theorem description_link {p : Process} {cube ptr other : Nat} :
    (p.link cube ptr).description other = p.description other :=
  view_link (fun _ _ _ _ _ => rfl) cube

theorem Attached.description {ptr other : Nat} {cube : Cube} {slice : Slice}
    (attached : Attached P w ptr cube slice w') :
    w'.description other = w.description other := by
  have live : w'.live = (Process.link cube.ptr ptr w.toProcess).live :=
    congrArg (·.live) attached.effect.same
  have found : w'.description other =
      (Process.link cube.ptr ptr w.toProcess).description other := by
    simp only [Process.description, Process.findSlice, live]
  exact found.trans description_link

/-- An array slot is described as soon as its slice is attached. -/
theorem attachSlot_spec (free : w.held = [])
    (found : w.requests request =
      some ⟨accelerator, before ++ .array array :: arguments, metadata⟩) :
    Ensures (attachArguments P request before.length [.array array])
      (fun result w' =>
        if result = true then
          w'.held = [] ∧ (∀ ptr, w'.description ptr = w.description ptr) ∧
            ∃ slot, w.description array.context = some slot ∧
              w'.requests request = some
                ⟨accelerator, before ++ .array slot :: arguments, metadata⟩
        else w'.requests request = w.requests request)
      (fun _ w' => w'.requests request = w.requests request) w := by
  unfold attachArguments
  refine ensures_bind.mpr ((attach_spec free).mono ?_ ?_)
  · intro result w₁ ended
    split at ended
    · rename_i success
      obtain ⟨-, cube, slice, attached⟩ := ended
      have held : w₁.held = [] := attached.effect.held.trans free
      have requests : w₁.requests = w.requests :=
        congrArg (·.requests) attached.effect.rpc
      have same : ∀ ptr, w₁.description ptr = w.description ptr :=
        fun ptr => attached.description
      simp only [success, ne_eq, not_true_eq_false, if_false]
      cases first : (w₁.os 0).isDone with
      | false =>
          exact ensures_thrown first (congrFun requests request)
      | true =>
          apply Ensures.step (mayThrow_done first)
          have described : w₁.description array.context =
              some ⟨array.context, cube.id, slice.offset, slice.size,
                slice.version⟩ := by
            rw [same, Process.description, attached.found]
            rfl
          obtain ⟨pair, present, slot⟩ := Option.map_eq_some_iff.mp described
          apply Ensures.step (derefSlice_run (w := w₁.asked) present)
          apply Ensures.step (t := w₁.asked) (by
            simp only [derefRequest, World.asked_toProcess, requests, found]
            rfl)
          refine Ensures.step rfl ?_
          rw [attachArguments, ensures_pure, if_pos rfl]
          refine ⟨held, same, _, (same _).symm.trans described, ?_⟩
          rw [← slot]
          simp [Process.setRequest]
    · rename_i failure
      simp only [ne_eq, failure, not_false_eq_true, if_true]
      rw [ensures_pure, if_neg (by simp)]
      exact congrFun (congrArg (·.requests) ended.2.2.rpc) request
  · rintro reason w₁ ⟨rfl, -⟩
    rfl

/-- The slots of two lists hold the same. -/
def Argument.Alike (arguments others : List Argument) : Prop :=
  others.map Argument.entry = arguments.map Argument.entry

/-- The loop of `inaccel_submit` changes descriptions alone.  When it ends
well, every array has the description of its slice. -/
theorem attachArguments_describes (free : w.held = [])
    (found : w.requests request =
      some ⟨accelerator, before ++ arguments, metadata⟩) :
    Ensures (attachArguments P request before.length arguments)
      (fun result w' => ∃ described,
        w'.requests request =
          some ⟨accelerator, before ++ described, metadata⟩ ∧
        Argument.Alike arguments described ∧
        (result = true → w'.held = [] ∧ described.map some =
          arguments.map fun argument =>
            Entry.carried w.toProcess argument.entry))
      (fun _ w' => ∃ described,
        w'.requests request =
          some ⟨accelerator, before ++ described, metadata⟩ ∧
        Argument.Alike arguments described) w := by
  induction arguments generalizing before w with
  | nil => exact ⟨[], found, rfl, fun _ => ⟨free, rfl⟩⟩
  | cons argument arguments induction =>
      -- the rest of the loop, behind a slot that is now as in the message
      have later : ∀ (slot : Argument) (w₁ : World), w₁.held = [] →
          (∀ ptr, w₁.description ptr = w.description ptr) →
          slot.entry = argument.entry →
          Entry.carried w.toProcess argument.entry = some slot →
          w₁.requests request =
            some ⟨accelerator, before ++ slot :: arguments, metadata⟩ →
          Ensures (attachArguments P request (before.length + 1) arguments)
            (fun result w' => ∃ described,
              w'.requests request =
                some ⟨accelerator, before ++ described, metadata⟩ ∧
              Argument.Alike (argument :: arguments) described ∧
              (result = true → w'.held = [] ∧ described.map some =
                (argument :: arguments).map fun argument =>
                  Entry.carried w.toProcess argument.entry))
            (fun _ w' => ∃ described,
              w'.requests request =
                some ⟨accelerator, before ++ described, metadata⟩ ∧
              Argument.Alike (argument :: arguments) described) w₁ := by
        intro slot w₁ free₁ same entry carried found₁
        have found₁ : w₁.requests request = some
            ⟨accelerator, (before ++ [slot]) ++ arguments, metadata⟩ := by
          rw [found₁, List.append_assoc]
          rfl
        have rest := induction free₁ found₁
        rw [List.length_append] at rest
        have carries : ∀ entry : Option Entry, Entry.carried w₁.toProcess entry =
            Entry.carried w.toProcess entry := by
          intro entry
          cases entry with
          | none => rfl
          | some entry =>
              cases entry with
              | scalar bytes => rfl
              | array ptr => simp only [Entry.carried, same]
        refine rest.mono ?_ ?_
        · rintro result w₂ ⟨described, found₂, alike, ended⟩
          refine ⟨slot :: described, ?_, ?_, fun success => ?_⟩
          · rw [found₂, List.append_assoc]
            rfl
          · exact congrArg₂ List.cons entry alike
          · obtain ⟨free₂, filled⟩ := ended success
            refine ⟨free₂, ?_⟩
            rw [List.map_cons, List.map_cons, carried, filled]
            simp only [carries]
        · rintro reason w₂ ⟨described, found₂, alike⟩
          refine ⟨slot :: described, ?_, congrArg₂ List.cons entry alike⟩
          rw [found₂, List.append_assoc]
          rfl
      cases argument with
      | empty =>
          exact later .empty w free (fun _ => rfl) rfl rfl found
      | scalar bytes =>
          exact later (.scalar bytes) w free (fun _ => rfl) rfl rfl found
      | array array =>
          rw [attachArguments_cons]
          refine ensures_bind.mpr ((attachSlot_spec free found).mono ?_ ?_)
          · intro result w₁ ended
            cases result with
            | true =>
                rw [if_pos rfl] at ended
                obtain ⟨free₁, same, slot, described, found₁⟩ := ended
                rw [if_pos rfl]
                have named : slot.context = array.context := by
                  obtain ⟨pair, -, rfl⟩ := Option.map_eq_some_iff.mp described
                  rfl
                refine later (.array slot) w₁ free₁ same ?_ ?_ found₁
                · simp only [Argument.entry, named]
                · simp only [Argument.entry, Entry.carried, described,
                    Option.map_some]
            | false =>
                rw [if_neg (by simp)] at ended
                exact ⟨_, ended.trans found, rfl, by simp⟩
          · intro reason w₁ ended
            exact ⟨_, ended.trans found, rfl⟩

/-- The rest of a submission keeps the slots of the request, and sends them. -/
theorem SendOutcome.table {grpc : Request} {result : Except Stop Int}
    (outcome : SendOutcome request response grpc w result w')
    (found : w.requests request = some grpc) :
    (∃ grpc', w'.requests request = some grpc' ∧
        grpc'.arguments = grpc.arguments) ∧
      (result = .ok 0 → ∃ message,
        w'.pending = w.pending ++ [⟨response, message⟩] ∧
          message.arguments = grpc.arguments) := by
  have marked : ∀ r, (w.stamped request response grpc r).requests request =
      some { grpc with metadata := some ⟨w.self, w.stamp⟩ } :=
    fun _ => Function.update_self _ _ _
  cases outcome with
  | early fails quiet =>
      have same := congrFun (congrArg (·.requests) quiet.rpc) request
      exact ⟨⟨grpc, same.trans found, rfl⟩, by simp⟩
  | lost answered lost quiet =>
      have same := congrFun (congrArg (·.requests) quiet.rpc) request
      exact ⟨⟨grpc, same.trans found, rfl⟩, by simp⟩
  | unmarked answered found' fails quiet =>
      have same := congrFun (congrArg (·.requests) quiet.rpc) request
      exact ⟨⟨grpc, same.trans found, rfl⟩, by simp⟩
  | starved answered found' closed fails quiet =>
      have same := congrFun (congrArg (·.requests) quiet.rpc) request
      exact ⟨⟨_, same.trans (marked _), rfl⟩, by simp⟩
  | short started found' closed fewer answered fails quiet =>
      have same := congrFun (congrArg (·.requests) quiet.rpc) request
      exact ⟨⟨_, same.trans (marked _), rfl⟩, by simp⟩
  | @unsent r w' found' answered fails quiet =>
      have same := congrFun (congrArg (·.requests) quiet.rpc) request
      refine ⟨⟨_, same.trans (Eq.trans ?_ (marked r)), rfl⟩, by simp⟩
      exact congrFun withQueue_requests request
  | @sent r w' found' answered quiet =>
      have same := congrFun (congrArg (·.requests) quiet.rpc) request
      refine ⟨⟨_, same.trans (Eq.trans ?_ (marked r)), rfl⟩, fun _ => ?_⟩
      · exact congrFun withQueue_requests request
      · have pending : ∀ p : Process, p.withQueue.pending = p.pending :=
          fun p => withQueue_ind (·.pending = p.pending) rfl rfl
        let message := { grpc with metadata := some ⟨w.self, w.stamp⟩ }
        refine ⟨message, (congrArg (·.pending) quiet.rpc).trans ?_, rfl⟩
        exact congrArg (· ++ [⟨response, message⟩])
          (pending (w.stamped request response grpc r))

/-- The request has its slots, and a message that was sent has each of them
with the description of its slice. -/
def Describes (request response : Nat) (grpc : Request) (w : World)
    (result : Except Stop Int) (w' : World) : Prop :=
  (∃ grpc', w'.requests request = some grpc' ∧
    Argument.Alike grpc.arguments grpc'.arguments) ∧
  (result = .ok 0 → ∃ message,
    w'.pending = w.pending ++ [⟨response, message⟩] ∧
      message.arguments.map some = grpc.arguments.map fun argument =>
        Entry.carried w.toProcess argument.entry)

theorem Describes.of_short {grpc grpc' : Request} {result : Except Stop Int}
    (short : result ≠ .ok 0) (found : w'.requests request = some grpc')
    (alike : Argument.Alike grpc.arguments grpc'.arguments) :
    Describes request response grpc w result w' :=
  ⟨⟨grpc', found, alike⟩, fun zero => absurd zero short⟩

theorem inaccelSubmit_describes {grpc : Request} (free : w.held = [])
    (found : w.requests request = some grpc) :
    Ensures (inaccelSubmit P request response)
      (fun result => Describes request response grpc w (.ok result))
      (fun reason => Describes request response grpc w (.error reason))
      w := by
  have kept : ∀ {w' : World} {result : Except Stop Int}, w.Quiet w' →
      result ≠ .ok 0 → Describes request response grpc w result w' :=
    fun quiet short => .of_short short
      ((congrFun (congrArg (·.requests) quiet.rpc) request).trans found) rfl
  unfold inaccelSubmit
  split
  · apply (quiet_setErrno _).bind (.refl w)
    exact fun _ w₁ quiet => kept quiet (by simp)
  · apply ensures_caught
    unfold submitBody
    cases first : (w.os 0).isDone with
    | false =>
        exact ensures_thrown first (kept ⟨rfl, Nat.le_refl _⟩ (by simp [caught]))
    | true =>
        apply Ensures.step (mayThrow_done first)
        apply ensures_derefRequest
        · exact fun _ => kept ⟨rfl, Nat.le_refl _⟩ (by simp [caught])
        · intro grpc' found'
          cases found.symm.trans found'
          have here : w.asked.requests request = some
              ⟨grpc.accelerator, [] ++ grpc.arguments, grpc.metadata⟩ := found
          have free : w.asked.held = [] := free
          refine ensures_bind.mpr (((attachArguments_describes free here).and
            (attachArguments_spec free found'
              (List.append_nil _).symm)).mono ?_ ?_)
          · rintro attached w₁ ⟨⟨described, found₁, alike, ended⟩, loop⟩
            cases attached with
            | false => exact .of_short (by simp [caught]) found₁ alike
            | true =>
                obtain ⟨free₁, filled⟩ := ended rfl
                obtain ⟨ptrs, links⟩ := loop.links
                have pending : w₁.pending = w.pending :=
                  congrArg (·.pending) links.rpc
                rw [if_pos rfl]
                have sends : ∀ result w₂, SendOutcome request response
                    ⟨grpc.accelerator, [] ++ described, grpc.metadata⟩ w₁ result
                      w₂ → Describes request response grpc w (caught result)
                        w₂ := by
                  intro result w₂ outcome
                  obtain ⟨⟨grpc₂, found₂, same⟩, sent⟩ := outcome.table found₁
                  refine ⟨⟨grpc₂, found₂, same ▸ alike⟩, fun zero => ?_⟩
                  obtain ⟨message, handed, carried⟩ :=
                    sent (caught_zero.mp zero)
                  exact ⟨message, pending ▸ handed, carried ▸ filled⟩
                exact (submitAttached_spec free₁ found₁).mono
                  (fun _ _ => sends _ _) (fun _ _ => sends _ _)
          · rintro reason w₁ ⟨⟨described, found₁, alike⟩, loop⟩
            refine .of_short ?_ found₁ alike
            rw [Ne, caught_zero]
            simp

end Descriptions

namespace Draft

variable {P : PageSize} {request : Nat} {s s' start finish : Draft}
  {trace : List (Draft × Edit)}

/-- What every end of a call ensures holds of the draft after it. -/
theorem after_of {edit : Edit} {w : World} {good : Draft → Prop}
    (ensures : Ensures (edit.run P request)
      (fun result w' => good ⟨w'.toProcess,
        edit.mark P request w (result == 0) ++ s.log⟩)
      (fun _ w' => good ⟨w'.toProcess,
        edit.mark P request w false ++ s.log⟩) w) :
    good (s.after P request edit w) := by
  unfold Draft.after
  cases run : edit.run P request w with
  | ok result w' => exact ensures.of_ok run
  | error reason w' => exact ensures.of_error run

theorem Sound.of_same (sound : s.Sound request) {p : Process}
    (kept : p.requests request = s.p.requests request) :
    Sound request { s with p := p } := by
  obtain ⟨grpc, found, holds⟩ := sound
  exact ⟨grpc, kept.trans found, holds⟩

theorem Sound.of_quiet (sound : s.Sound request) {w w' : World}
    (kept : w.requests request = s.p.requests request) (quiet : w.Quiet w') :
    Sound request { s with p := w'.toProcess } :=
  sound.of_same ((congrFun (congrArg (·.requests) quiet.rpc) request).trans
    kept)

/-- `__slice` knows nothing of requests. -/
theorem slice_requests {addr size : Nat} {result : Option Nat} {w w' : World}
    (free : w.held = []) (run : slice P addr size w = .ok result w') :
    w'.requests = w.requests := by
  cases (slice_spec free).of_ok run with
  | missed fed quiet => exact congrArg (·.requests) quiet.rpc
  | starved starves member quiet => exact congrArg (·.requests) quiet.rpc
  | known fed first own found quiet => exact congrArg (·.requests) quiet.rpc
  | made fed first own contains new fresh effect =>
      exact congrArg (·.requests) effect.rpc

/-- The table has its new entry. -/
theorem Sound.store (sound : s.Sound request) {grpc : Request}
    {w w' : World} {index : Nat} {update : Argument → Argument} {entry : Entry}
    (found : w.requests request = some grpc)
    (kept : w.requests request = s.p.requests request)
    (tables : World.Tables request grpc
      ((padArguments index grpc.arguments).modify index update) w w')
    (puts : ∀ argument, (update argument).entry = some entry) :
    Sound request ⟨w'.toProcess, (index, some entry) :: s.log⟩ := by
  obtain ⟨grpc', found', fits⟩ := sound
  cases (kept.symm.trans found).symm.trans found'
  refine ⟨_, tables.here, ?_⟩
  rw [entries_modify puts]
  exact fits.write

/-- A call has thrown. -/
theorem Sound.tear (sound : s.Sound request) {grpc : Request} {w w' : World}
    {index : Nat} {torn : List Argument}
    (found : w.requests request = some grpc)
    (kept : w.requests request = s.p.requests request)
    (leaves : Torn index grpc.arguments torn)
    (tables : World.Tables request grpc torn w w') :
    Sound request ⟨w'.toProcess, (index, none) :: s.log⟩ := by
  obtain ⟨grpc', found', fits⟩ := sound
  cases (kept.symm.trans found).symm.trans found'
  exact ⟨_, tables.here, fits.tear (entries_torn leaves)⟩

theorem after_argArray (sound : s.Sound request)
    {size value index errno : Nat} {os : Nat → Reply} :
    (s.after P request (.argArray size value index)
      (s.p.enter errno os)).Sound request := by
  refine after_of ((inaccelRequestArgArray_spec rfl).mono ?_ ?_)
  · intro result w' outcome
    cases outcome with
    | null missing quiet =>
        rw [Edit.mark, Edit.entry, if_pos missing]
        exact sound.of_quiet rfl quiet
    | unsliced run =>
        have unmarked : Edit.mark P request (s.p.enter errno os) false
            (.argArray size value index) = [] := by
          simp [Edit.mark, Edit.entry, run, returned]
        show Sound request ⟨_, Edit.mark P request _ false _ ++ _⟩
        rw [unmarked]
        exact sound.of_same (congrFun (slice_requests rfl run) request)
    | thrown given run found leaves tables =>
        have same := congrFun (slice_requests rfl run) request
        have torn := sound.tear found same leaves tables
        simp only [Edit.mark, Edit.entry, if_neg given, run, returned]
        exact torn
    | stored given run found tables =>
        have same := congrFun (slice_requests rfl run) request
        have stored := sound.store found same tables entry_setContext
        simp only [Edit.mark, Edit.entry, if_neg given, run, returned]
        exact stored
  · intro reason w' outcome
    cases outcome with
    | lost run lost quiet =>
        obtain ⟨grpc, found, -⟩ := sound
        have same := congrFun (slice_requests rfl run) request
        cases found.symm.trans (same.symm.trans lost)

theorem after_argScalar (sound : s.Sound request) {bytes : List UInt8}
    {index errno : Nat} {os : Nat → Reply} :
    (s.after P request (.argScalar bytes index)
      (s.p.enter errno os)).Sound request := by
  refine after_of (inaccelRequestArgScalar_spec.mono ?_ ?_)
  · intro result w' outcome
    cases outcome with
    | null missing quiet =>
        rw [Edit.mark, Edit.entry, if_pos missing]
        exact sound.of_quiet rfl quiet
    | thrown given found leaves tables =>
        rw [Edit.mark, Edit.entry, if_neg given]
        exact sound.tear found rfl leaves tables
    | stored given found tables =>
        rw [Edit.mark, Edit.entry, if_neg given]
        exact sound.store found rfl tables fun _ => rfl
  · intro reason w' outcome
    cases outcome with
    | lost lost quiet =>
        obtain ⟨grpc, found, -⟩ := sound
        cases found.symm.trans lost

theorem after_submit (sound : s.Sound request) {response errno : Nat}
    {os : Nat → Reply} :
    (s.after P request (.submit response) (s.p.enter errno os)).Sound
      request := by
  obtain ⟨grpc, found, fits⟩ := sound
  have kept : ∀ (result : Except Stop Int) (w' : World),
      Describes request response grpc (s.p.enter errno os) result w' →
        Sound request ⟨w'.toProcess, s.log⟩ := by
    rintro result w' ⟨⟨grpc', found', alike⟩, -⟩
    refine ⟨grpc', found', ?_⟩
    rw [show grpc'.arguments.map Argument.entry = _ from alike]
    exact fits
  refine after_of ((inaccelSubmit_describes rfl found).mono ?_ ?_)
  · exact fun result w' describes => kept _ w' describes
  · exact fun reason w' describes => kept _ w' describes

theorem Sound.step (sound : s.Sound request) {edit : Edit}
    (step : Draft.Step P request s edit s') : s'.Sound request := by
  cases step with
  | other kept => exact sound.of_same kept
  | edit =>
      cases edit with
      | argArray size value index => exact after_argArray sound
      | argScalar bytes index => exact after_argScalar sound
      | submit response => exact after_submit sound
      | other =>
          apply after_of
          exact sound.of_same rfl

theorem Created.sound (created : s.Created request) : s.Sound request := by
  obtain ⟨accelerator, p, errno, os, w, run, rfl⟩ := created
  have spec : Ensures (inaccelRequestCreate accelerator)
      (fun result w' => ∀ ptr, result = some ptr → ∃ name,
        w'.requests ptr = some ⟨name, [], none⟩)
      (fun _ _ => True) (p.enter errno os) := by
    unfold inaccelRequestCreate
    cases accelerator with
    | none =>
        apply (quiet_setErrno _).bind (.refl _)
        intro _ w _ ptr made
        cases made
    | some accelerator =>
        apply Ensures.step rfl
        cases (p.enter errno os).os 0 with
        | failed error =>
            intro ptr made
            cases made
        | done value name =>
            apply Ensures.step rfl
            cases (p.enter errno os).asked.os 0 with
            | failed error =>
                intro ptr made
                cases made
            | done value name =>
                refine Ensures.step rfl (Ensures.step rfl ?_)
                intro ptr made
                cases made
                exact ⟨accelerator, Function.update_self _ _ _⟩
  obtain ⟨name, found⟩ := spec.of_ok run request rfl
  exact ⟨_, found, Slots.fits_nil⟩

/-- The message of a successful submission is the table. -/
theorem Sound.sends (sound : s.Sound request) {response errno : Nat}
    {os : Nat → Reply} {w' : World}
    (sent : inaccelSubmit P request response (s.p.enter errno os) =
      .ok 0 w') :
    ∃ message, w'.pending = s.p.pending ++ [⟨response, message⟩] ∧
      Slots.bound (Slots.stored s.log) ≤ message.arguments.length ∧
      message.arguments.length ≤ Slots.bound s.log ∧
      ∀ index < message.arguments.length, ∃ held,
        Slots.Holds Entry.Cut index s.log held ∧
        message.arguments[index]? = Entry.carried s.p held := by
  obtain ⟨grpc, found, fits⟩ := sound
  obtain ⟨-, handed⟩ := (inaccelSubmit_describes rfl found).of_ok sent
  obtain ⟨message, pending, described⟩ := handed rfl
  have length : message.arguments.length =
      (grpc.arguments.map Argument.entry).length := by
    have lengths := congrArg List.length described
    rw [List.length_map, List.length_map] at lengths
    rw [lengths, List.length_map]
  refine ⟨message, pending, length ▸ fits.lower, length ▸ fits.upper, ?_⟩
  intro index bounded
  have inside : index < grpc.arguments.length := by
    rwa [length, List.length_map] at bounded
  refine ⟨grpc.arguments[index].entry, fits.holds index _ ?_, ?_⟩
  · rw [List.getElem?_map, List.getElem?_eq_getElem inside]
    rfl
  · have slot := congrArg (·[index]?) described
    simp only [List.getElem?_map, List.getElem?_eq_getElem bounded,
      List.getElem?_eq_getElem inside, Option.map_some,
      Option.some.injEq] at slot
    rw [List.getElem?_eq_getElem bounded]
    exact slot

/-- After any history, the message of a successful submission has a slot for
every successful call, and none beyond the calls.  A slot holds its last entry
as it is at the attach; when a later call has thrown at it, it may be empty or
a scalar without bytes.  As long as no call throws, the message has the slots
of the successful calls and no others. -/
theorem message_sent (run : Run (Draft.Step P request) start trace finish)
    (created : start.Created request) {response errno : Nat}
    {os : Nat → Reply} {w' : World}
    (sent : inaccelSubmit P request response (finish.p.enter errno os) =
      .ok 0 w') :
    ∃ message, w'.pending = finish.p.pending ++ [⟨response, message⟩] ∧
      Slots.bound (Slots.stored finish.log) ≤ message.arguments.length ∧
      message.arguments.length ≤ Slots.bound finish.log ∧
      (∀ index < message.arguments.length, ∃ held,
        Slots.Holds Entry.Cut index finish.log held ∧
        message.arguments[index]? = Entry.carried finish.p held) ∧
      ((∀ call ∈ finish.log, call.2 ≠ none) →
        message.arguments.length = Slots.bound (Slots.stored finish.log) ∧
        ∀ index < message.arguments.length, message.arguments[index]? =
          Entry.carried finish.p
            (Slots.last? index (Slots.stored finish.log))) := by
  have sound := run.invariant (Sound request)
    (fun _ _ _ sound step => sound.step step) created.sound finish
    (finish_mem_visited trace finish)
  obtain ⟨message, pending, lower, upper, slots⟩ := sound.sends sent
  refine ⟨message, pending, lower, upper, slots, fun whole => ⟨?_, ?_⟩⟩
  · rw [Slots.bound_stored whole] at lower ⊢
    omega
  · intro index bounded
    obtain ⟨held, holds, carried⟩ := slots index bounded
    rw [carried, holds.eq_last? whole]

/-- An edit for which every call succeeds. -/
def smooth (edit : Edit) (s : Draft) : Draft :=
  s.after .small 3 edit (s.p.enter 0 succeeds)

/-- An edit for which so many calls succeed. -/
def cut (count : Nat) (edit : Edit) (s : Draft) : Draft :=
  s.after .small 3 edit (s.p.enter 0 (failsAfter count))

def fresh : Draft :=
  ⟨(final (inaccelRequestCreate (some "a")
    (Process.prepared.enter 0 succeeds))).toProcess, []⟩

theorem created_fresh : fresh.Created 3 :=
  ⟨some "a", .prepared, 0, succeeds, _, eq_ok_final (by decide +kernel), rfl⟩

/-- A scalar is overwritten by an array, beyond a gap, between two
submissions, and then `set_bytes` throws behind another gap. -/
def edited : Draft :=
  (((((fresh.smooth (.argScalar [7] 2)).smooth (.argArray 4096 65536 0)).smooth
    (.submit 12)).smooth (.argArray 4096 65536 2))).cut 4 (.argScalar [9] 4)

theorem messageSent_edited :
    ∃ message, (final (inaccelSubmit .small 3 13
        (edited.p.enter 0 succeeds))).pending =
          edited.p.pending ++ [⟨13, message⟩] ∧
      3 ≤ message.arguments.length ∧ message.arguments.length ≤ 5 ∧
      ∃ held, Slots.Holds Entry.Cut 2 edited.log held ∧
        message.arguments[2]? = Entry.carried edited.p held := by
  have run : Run (Draft.Step .small 3) fresh _ edited :=
    .cons .edit (.cons .edit (.cons .edit (.cons .edit
      (.cons .edit (.nil _)))))
  have sent : inaccelSubmit .small 3 13 (edited.p.enter 0 succeeds) =
      .ok 0 (final (inaccelSubmit .small 3 13
        (edited.p.enter 0 succeeds))) := eq_ok_final (by decide +kernel)
  have stored : Slots.bound (Slots.stored edited.log) = 3 := by decide +kernel
  have bound : Slots.bound edited.log = 5 := by decide +kernel
  obtain ⟨message, pending, lower, upper, slots, -⟩ := message_sent run
    created_fresh sent
  rw [stored] at lower
  rw [bound] at upper
  exact ⟨message, pending, lower, upper, slots 2 lower⟩

example : edited.log =
    [(4, none), (2, some (.array 2)), (0, some (.array 2)),
      (2, some (.scalar [7]))] := by
  decide +kernel

/-- The second `add_argument` throws, the call returns -1, and the first slot
is sent. -/
theorem not_message_sent : ¬∀ (P : PageSize) (request : Nat)
    (start finish : Draft) (trace : List (Draft × Edit))
    (_ : Run (Draft.Step P request) start trace finish)
    (_ : start.Created request) (response errno : Nat) (os : Nat → Reply)
    (w' : World) (_ : inaccelSubmit P request response
      (finish.p.enter errno os) = .ok 0 w'),
    ∃ message, w'.pending = finish.p.pending ++ [⟨response, message⟩] ∧
      message.arguments.length = Slots.bound (Slots.stored finish.log) ∧
      ∀ index < message.arguments.length, message.arguments[index]? =
        Entry.carried finish.p
          (Slots.last? index (Slots.stored finish.log)) := by
  intro claim
  let finish := fresh.cut 2 (.argScalar [7] 3)
  have run : Run (Draft.Step .small 3) fresh _ finish :=
    .cons .edit (.nil _)
  have sent : inaccelSubmit .small 3 12 (finish.p.enter 0 succeeds) =
      .ok 0 (final (inaccelSubmit .small 3 12
        (finish.p.enter 0 succeeds))) := eq_ok_final (by decide +kernel)
  obtain ⟨message, pending, length, -⟩ := claim _ _ _ _ _ run created_fresh _ _
    _ _ sent
  have nothing : Slots.bound (Slots.stored finish.log) = 0 := by
    decide +kernel
  have lengths : ((final (inaccelSubmit .small 3 12
      (finish.p.enter 0 succeeds))).pending.map fun call =>
        call.message.arguments.length) = [1] := by decide +kernel
  have before : finish.p.pending = [] := by decide +kernel
  rw [pending, before] at lengths
  have one : message.arguments.length = 1 := List.singleton_inj.mp lengths
  rw [length, nothing] at one
  cases one

end Draft

end CoralApi
