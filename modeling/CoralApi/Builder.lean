import CoralApi.Message

/-!
# Building a request argument by argument

The bindings wrap a request with the position of its next argument.  A method
with an index writes to that slot.  A method without one writes to the next
position, which moves on only when the call succeeds.  A call that throws half
way may leave an empty slot at its position, and the next one without an index
goes to the same slot.
-/

namespace CoralApi

open Program Transition

/-- The value of an argument: memory of the allocator of the library or of
another one, a number, or something else. -/
inductive Value where
  | buffer (shared : Bool) (address : Nat) (bytes : List UInt8)
  | number (bytes : List UInt8)
  | other

inductive Method where
  | arg
  | argArray
  | argScalar

/-- The call that a method makes at an index.  It raises on a value without
one. -/
def Method.edit : Method → Value → Option (Nat → Edit)
  | .arg, .buffer true address bytes =>
      some (Edit.argArray bytes.length address)
  | .arg, .buffer false _ bytes => some (Edit.argScalar bytes)
  | .arg, .number bytes => some (Edit.argScalar bytes)
  | .argArray, .buffer _ address bytes =>
      some (Edit.argArray bytes.length address)
  | .argScalar, .buffer _ _ bytes => some (Edit.argScalar bytes)
  | .argScalar, .number bytes => some (Edit.argScalar bytes)
  | _, _ => none

/-- An index as the library receives it. -/
def unsigned (index : Int) : Nat := (index % 2 ^ 32).toNat

/-- A request with the position of its next argument. -/
structure Builder where
  draft : Draft
  index : Nat
  /-- log: the calls that have got to the table, with their indexes, the last
  one first; `none` has thrown there -/
  calls : List (Option Int × Option Entry)

namespace Builder

inductive Act where
  | method (method : Method) (value : Value) (index : Option Int)
  | submit (response : Nat)
  | other

def slot (index : Option Int) (b : Builder) : Nat :=
  unsigned (index.getD b.index)

/-- The call of a method, which raises unless it gives zero. -/
def call (P : PageSize) (request : Nat) (edit : Nat → Edit)
    (index : Option Int) (w : World) (b : Builder) : Builder :=
  let edit := edit (b.slot index)
  let whole := returned (edit.run P request w) == some 0
  { draft := b.draft.after P request edit w
    index := if whole ∧ index = none then b.index + 1 else b.index
    calls := (edit.mark P request w whole).map (fun put => (index, put.2)) ++
      b.calls }

inductive Step (P : PageSize) (request : Nat) (b : Builder) :
    Act → Builder → Prop where
  | called {method : Method} {value : Value} {index : Option Int}
      {edit : Nat → Edit} {errno : Nat} {os : Nat → Reply}
      (accepted : method.edit value = some edit) :
      Step P request b (.method method value index)
        (b.call P request edit index (b.draft.p.enter errno os))
  | refused {method : Method} {value : Value} {index : Option Int}
      (refused : method.edit value = none) :
      Step P request b (.method method value index) b
  | submitted {response errno : Nat} {os : Nat → Reply} :
      Step P request b (.submit response)
        { b with
          draft := b.draft.after P request (.submit response)
            (b.draft.p.enter errno os) }
  | other {p : Process}
      (kept : p.requests request = b.draft.p.requests request) :
      Step P request b .other { b with draft := { b.draft with p := p } }

/-- The request was just created. -/
def Created (request : Nat) (b : Builder) : Prop :=
  b.draft.Created request ∧ b.index = 0 ∧ b.calls = []

end Builder

/-- The entries of the successful calls without an index, the first one
first. -/
def automatic : List (Option Int × Option Entry) → List Entry
  | [] => []
  | (none, some entry) :: calls => automatic calls ++ [entry]
  | _ :: calls => automatic calls

/-- The writes of the calls. -/
def placed : List (Option Int × Option Entry) → List (Nat × Option Entry)
  | [] => []
  | (index, entry) :: calls =>
      (unsigned (index.getD (automatic calls).length), entry) :: placed calls

section Positions

variable {calls : List (Option Int × Option Entry)} {index : Nat}
  {held : Option Entry}

theorem unsigned_of_lt (small : index < 2 ^ 32) : unsigned index = index := by
  unfold unsigned
  omega

/-- Below all indexes that were given, each slot has the argument of its
position. -/
theorem holds_placed (few : (automatic calls).length < 2 ^ 32)
    (beyond : ∀ call ∈ calls, ∀ given, call.1 = some given →
      (automatic calls).length ≤ unsigned given)
    (below : index < (automatic calls).length)
    (holds : Slots.Holds Entry.Cut index (placed calls) held) :
    held = (automatic calls)[index]? := by
  induction calls with
  | nil => exact absurd below (Nat.not_lt_zero index)
  | cons call calls induction =>
      obtain ⟨given, entry⟩ := call
      -- a call at another slot counts for nothing
      have skip : automatic ((given, entry) :: calls) = automatic calls →
          unsigned (given.getD (automatic calls).length) ≠ index →
          held = (automatic ((given, entry) :: calls))[index]? := by
        intro same apart
        rw [same] at few beyond below ⊢
        refine induction few (fun call member =>
          beyond call (List.mem_cons_of_mem _ member)) below ?_
        rw [placed] at holds
        cases entry with
        | none => exact holds.resolve_left fun cut => apart cut.1
        | some entry =>
            rw [Slots.Holds, if_neg apart] at holds
            exact holds
      cases given with
      | some given =>
          have same : automatic ((some given, entry) :: calls) =
              automatic calls := by
            cases entry with
            | none => rfl
            | some entry => rfl
          apply skip same
          have above := beyond _ List.mem_cons_self given rfl
          rw [Option.getD_some]
          omega
      | none =>
          cases entry with
          | none =>
              apply skip rfl
              have few : (automatic calls).length < 2 ^ 32 := few
              have below : index < (automatic calls).length := below
              rw [Option.getD_none, unsigned_of_lt few]
              omega
          | some entry =>
              simp only [automatic, List.length_append, List.length_singleton]
                at few beyond below
              rw [placed, Option.getD_none, unsigned_of_lt (by omega),
                Slots.Holds] at holds
              by_cases last : (automatic calls).length = index
              · rw [if_pos last] at holds
                rw [holds, ← last]
                simp [automatic]
              · rw [if_neg last] at holds
                rw [induction (by omega) _ (by omega) holds, automatic,
                  List.getElem?_append_left (by omega)]
                intro call member given indexed
                have above := beyond call (List.mem_cons_of_mem _ member)
                  given indexed
                omega

/-- The table reaches beyond the positions. -/
theorem length_automatic_le (few : (automatic calls).length < 2 ^ 32) :
    (automatic calls).length ≤ Slots.bound (Slots.stored (placed calls)) := by
  induction calls with
  | nil => exact Nat.zero_le _
  | cons call calls induction =>
      obtain ⟨given, entry⟩ := call
      cases entry with
      | none =>
          cases given with
          | none => exact induction few
          | some given => exact induction few
      | some entry =>
          rw [placed, Slots.stored, Slots.bound]
          cases given with
          | some given => exact Nat.le_trans (induction few) (Nat.le_max_left ..)
          | none =>
              simp only [automatic, List.length_append, List.length_singleton]
                at few ⊢
              rw [Option.getD_none, unsigned_of_lt (by omega)]
              omega

/-- Calls without an index fill the slots up to their number.  When the last
of them has thrown, there can be one more. -/
theorem bound_placed (few : (automatic calls).length < 2 ^ 32)
    (plain : ∀ call ∈ calls, call.1 = none) :
    Slots.bound (Slots.stored (placed calls)) = (automatic calls).length ∧
      Slots.bound (placed calls) ≤ (automatic calls).length + 1 ∧
      ((∀ call, calls.head? = some call → call.2 ≠ none) →
        Slots.bound (placed calls) = (automatic calls).length) := by
  induction calls with
  | nil => exact ⟨rfl, Nat.zero_le _, fun _ => rfl⟩
  | cons call calls induction =>
      obtain ⟨given, entry⟩ := call
      have unindexed : given = none := plain _ List.mem_cons_self
      subst unindexed
      have rest : ∀ call ∈ calls, call.1 = none := fun call member =>
        plain call (List.mem_cons_of_mem _ member)
      cases entry with
      | none =>
          have few : (automatic calls).length < 2 ^ 32 := few
          obtain ⟨stored, bound, -⟩ := induction few rest
          rw [placed, Option.getD_none, unsigned_of_lt few, Slots.stored,
            Slots.bound, automatic]
          · refine ⟨stored, by omega, fun whole => ?_⟩
            exact absurd rfl (whole _ rfl)
          · simp
      | some entry =>
          simp only [automatic, List.length_append, List.length_singleton]
            at few ⊢
          have fewer : (automatic calls).length < 2 ^ 32 := by omega
          obtain ⟨stored, bound, -⟩ := induction fewer rest
          rw [placed, Option.getD_none, unsigned_of_lt fewer, Slots.stored,
            Slots.bound, Slots.bound, stored]
          exact ⟨by omega, by omega, fun _ => by omega⟩

end Positions

namespace Edit

variable {P : PageSize} {request : Nat} {w : World}

/-- The call of a method. -/
theorem method_edit {method : Method} {value : Value} {edit : Nat → Edit}
    (accepted : method.edit value = some edit) :
    (∃ size address, edit = Edit.argArray size address) ∨
      ∃ bytes, edit = Edit.argScalar bytes := by
  cases method with
  | arg =>
      cases value with
      | buffer shared address bytes =>
          cases shared with
          | true => exact .inl ⟨_, _, (Option.some.inj accepted).symm⟩
          | false => exact .inr ⟨_, (Option.some.inj accepted).symm⟩
      | number bytes => exact .inr ⟨_, (Option.some.inj accepted).symm⟩
      | other => cases accepted
  | argArray =>
      cases value with
      | buffer shared address bytes =>
          exact .inl ⟨_, _, (Option.some.inj accepted).symm⟩
      | number bytes => cases accepted
      | other => cases accepted
  | argScalar =>
      cases value with
      | buffer shared address bytes =>
          exact .inr ⟨_, (Option.some.inj accepted).symm⟩
      | number bytes => exact .inr ⟨_, (Option.some.inj accepted).symm⟩
      | other => cases accepted

/-- A call of a method marks its own slot. -/
theorem entry_index {method : Method} {value : Value} {edit : Nat → Edit}
    {index : Nat} {put : Nat × Entry}
    (accepted : method.edit value = some edit)
    (gets : (edit index).entry P request w = some put) : put.1 = index := by
  rcases method_edit accepted with ⟨size, address, rfl⟩ | ⟨bytes, rfl⟩
  · simp only [Edit.entry] at gets
    split at gets
    · cases gets
    · obtain ⟨ptr, -, rfl⟩ := Option.map_eq_some_iff.mp gets
      rfl
  · simp only [Edit.entry] at gets
    split at gets
    · cases gets
    · cases gets
      rfl

/-- A successful call has got to the table. -/
theorem entry_of_returned {method : Method} {value : Value}
    {edit : Nat → Edit} {index : Nat} (free : w.held = [])
    (accepted : method.edit value = some edit)
    (succeeded : returned ((edit index).run P request w) = some 0) :
    ∃ entry, (edit index).entry P request w = some (index, entry) := by
  rcases method_edit accepted with ⟨size, address, rfl⟩ | ⟨bytes, rfl⟩
  · have run := eq_ok_final succeeded
    cases (inaccelRequestArgArray_spec free).of_ok run with
    | @stored ptr grpc w₁ w' given sliced found tables =>
        refine ⟨.array ptr, ?_⟩
        simp [Edit.entry, if_neg given, sliced, returned]
  · have run := eq_ok_final succeeded
    cases inaccelRequestArgScalar_spec.of_ok run with
    | stored given found tables => exact ⟨.scalar bytes, if_neg given⟩

end Edit

namespace Builder

variable {P : PageSize} {request : Nat} {b b' start finish : Builder}
  {trace : List (Builder × Act)}

/-- The slots are those of the calls, and the position counts the calls
without an index. -/
structure Sound (request : Nat) (b : Builder) : Prop where
  draft : b.draft.Sound request
  log : b.draft.log = placed b.calls
  index : b.index = (automatic b.calls).length

theorem Sound.call {method : Method} {value : Value} {edit : Nat → Edit}
    {index : Option Int} {errno : Nat} {os : Nat → Reply}
    (sound : b.Sound request) (accepted : method.edit value = some edit) :
    (b.call P request edit index (b.draft.p.enter errno os)).Sound
      request := by
  have draft : (b.draft.after P request (edit (b.slot index))
      (b.draft.p.enter errno os)).Sound request :=
    sound.draft.step .edit
  have slot : b.slot index =
      unsigned (index.getD (automatic b.calls).length) := by
    rw [Builder.slot, sound.index]
  have marked := @Edit.entry_index P request (b.draft.p.enter errno os) method
    value edit (b.slot index)
  have succeeds := @Edit.entry_of_returned P request
    (b.draft.p.enter errno os) method value edit (b.slot index) rfl accepted
  constructor
  · exact draft
  · show Edit.mark _ _ _ _ _ ++ b.draft.log = placed _
    unfold Builder.call
    dsimp only
    generalize (returned ((edit (b.slot index)).run P request
      (b.draft.p.enter errno os)) == some 0) = whole
    rw [sound.log, Edit.mark]
    cases gets : (edit (b.slot index)).entry P request
        (b.draft.p.enter errno os) with
    | none => rfl
    | some put =>
        obtain ⟨reached, entry⟩ := put
        have here : reached = b.slot index := marked accepted gets
        rw [here, slot]
        rfl
  · unfold Builder.call
    dsimp only
    by_cases whole : returned ((edit (b.slot index)).run P request
        (b.draft.p.enter errno os)) = some 0
    · obtain ⟨entry, gets⟩ := succeeds whole
      simp only [whole, Edit.mark, gets]
      cases index with
      | none =>
          show b.index + 1 = (automatic b.calls ++ [entry]).length
          rw [sound.index, List.length_append, List.length_singleton]
      | some given => exact sound.index
    · have short : (returned ((edit (b.slot index)).run P request
          (b.draft.p.enter errno os)) == some 0) = false := by simpa using whole
      simp only [short, Edit.mark]
      cases (edit (b.slot index)).entry P request
          (b.draft.p.enter errno os) with
      | none => exact sound.index
      | some put =>
          cases index with
          | none => exact sound.index
          | some given => exact sound.index

theorem Sound.step {act : Act} (sound : b.Sound request)
    (step : Builder.Step P request b act b') : b'.Sound request := by
  cases step with
  | called accepted => exact sound.call accepted
  | refused refused => exact sound
  | submitted => exact ⟨sound.draft.step .edit, sound.log, sound.index⟩
  | other kept => exact ⟨sound.draft.of_same kept, sound.log, sound.index⟩

theorem Created.sound (created : b.Created request) : b.Sound request := by
  obtain ⟨made, index, calls⟩ := created
  constructor
  · exact made.sound
  · obtain ⟨accelerator, p, errno, os, w, run, same⟩ := made
    rw [same, calls]
    rfl
  · rw [index, calls]
    rfl

/-- The arguments that were given without an index arrive in the order of
their calls, in the first slots, as long as all given indexes lie beyond them.
Calls that raise leave no gap.  Without given indexes there is at most one slot
more, the one at which the last call has thrown. -/
theorem positions_sent (run : Run (Builder.Step P request) start trace finish)
    (created : start.Created request)
    (few : (automatic finish.calls).length < 2 ^ 32)
    (beyond : ∀ call ∈ finish.calls, ∀ given, call.1 = some given →
      (automatic finish.calls).length ≤ unsigned given)
    {response errno : Nat} {os : Nat → Reply} {w' : World}
    (sent : inaccelSubmit P request response
      (finish.draft.p.enter errno os) = .ok 0 w') :
    ∃ message,
      w'.pending = finish.draft.p.pending ++ [⟨response, message⟩] ∧
      (message.arguments.take (automatic finish.calls).length).map some =
        (automatic finish.calls).map (fun entry =>
          Entry.carried finish.draft.p (some entry)) ∧
      ((∀ call ∈ finish.calls, call.1 = none) →
        (automatic finish.calls).length ≤ message.arguments.length ∧
        message.arguments.length ≤ (automatic finish.calls).length + 1 ∧
        ((∀ call, finish.calls.head? = some call → call.2 ≠ none) →
          message.arguments.length = (automatic finish.calls).length)) := by
  have sound := run.invariant (Sound request)
    (fun _ _ _ sound step => sound.step step) created.sound finish
    (finish_mem_visited trace finish)
  obtain ⟨message, pending, lower, upper, slots⟩ := sound.draft.sends sent
  refine ⟨message, pending, ?_, fun plain => ?_⟩
  · have reached : (automatic finish.calls).length ≤
        message.arguments.length := by
      refine Nat.le_trans ?_ lower
      rw [sound.log]
      exact length_automatic_le few
    apply List.ext_getElem?
    intro index
    by_cases below : index < (automatic finish.calls).length
    · obtain ⟨held, holds, carried⟩ := slots index (by omega)
      rw [sound.log] at holds
      have last := holds_placed few beyond below holds
      rw [List.getElem?_eq_getElem below] at last
      rw [List.getElem?_eq_getElem (by omega), last] at carried
      rw [List.getElem?_map, List.getElem?_take_of_lt below,
        List.getElem?_eq_getElem (by omega), List.getElem?_map,
        List.getElem?_eq_getElem below, Option.map_some, Option.map_some,
        carried]
    · rw [List.getElem?_eq_none, List.getElem?_eq_none]
      · rw [List.length_map]
        exact Nat.not_lt.mp below
      · rw [List.length_map]
        exact (List.length_take_le _ _).trans (Nat.not_lt.mp below)
  · obtain ⟨stored, bound, exact'⟩ := bound_placed few plain
    rw [sound.log] at lower upper
    rw [stored] at lower
    exact ⟨lower, upper.trans bound, fun whole =>
      Nat.le_antisymm (upper.trans (exact' whole).le) lower⟩

/-- A call below which every call succeeds. -/
def smooth (edit : Nat → Edit) (index : Option Int) (b : Builder) : Builder :=
  b.call .small 3 edit index (b.draft.p.enter 0 succeeds)

/-- A number, a scalar at a given index, an array that throws, and an array. -/
def filled : Builder :=
  let placed := (Builder.smooth (.argScalar [7]) none ⟨.fresh, 0, []⟩).smooth
    (.argScalar [9]) (some 3)
  (placed.call .small 3 (.argArray 1 65536) none
    (placed.draft.p.enter 0 (failsAfter 3))).smooth (.argArray 1 65536) none

theorem positions_sent_filled :
    ∃ message, (final (inaccelSubmit .small 3 13
        (filled.draft.p.enter 0 succeeds))).pending =
          filled.draft.p.pending ++ [⟨13, message⟩] ∧
      (message.arguments.take 2).map some =
        [some (.scalar [7]), Entry.carried filled.draft.p
          (some (.array 4))] := by
  have created : Builder.Created 3 ⟨.fresh, 0, []⟩ :=
    ⟨Draft.created_fresh, rfl, rfl⟩
  have number : Method.edit .arg (.number [7]) = some (.argScalar [7]) := rfl
  have wrong : Method.edit .argArray (.number [8]) = none := rfl
  have given : Method.edit .argScalar (.number [9]) = some (.argScalar [9]) :=
    rfl
  have shared : Method.edit .arg (.buffer true 65536 [0]) =
      some (.argArray 1 65536) := rfl
  have run : Run (Builder.Step .small 3) ⟨.fresh, 0, []⟩ _ filled :=
    .cons (.called number) (.cons (@Step.refused _ _ _ _ _ none wrong)
      (.cons (.called given) (.cons (.called shared)
        (.cons (.called shared) (.nil _)))))
  have calls : filled.calls =
      [(none, some (.array 4)), (none, none), (some 3, some (.scalar [9])),
        (none, some (.scalar [7]))] := by
    decide +kernel
  have beyond : ∀ call ∈ filled.calls, ∀ given, call.1 = some given →
      (automatic filled.calls).length ≤ unsigned given := by
    rw [calls]
    intro call member given indexed
    simp only [List.mem_cons, List.not_mem_nil, or_false] at member
    rcases member with rfl | rfl | rfl | rfl
    · cases indexed
    · cases indexed
    · cases indexed
      decide
    · cases indexed
  have sent := eq_ok_final (show returned (inaccelSubmit .small 3 13
    (filled.draft.p.enter 0 succeeds)) = some 0 by decide +kernel)
  obtain ⟨message, pending, taken, -⟩ := positions_sent run created
    (by decide +kernel) beyond sent
  rw [calls] at taken
  exact ⟨message, pending, taken⟩

end Builder

end CoralApi
