import CoralApi.Library.Slots
import CoralApi.SubmitSpec

/-!
# What the functions on an argument of a request do

`inaccel_request_arg_array` looks for its slice before it reads the request,
so a slice that it has made stays when the request cannot be written.  Both
functions write to the table step by step, and what a step has written stays
when a later one throws.
-/

namespace CoralApi

open Program

/-- The request has this table, and nothing else has changed. -/
def World.Tables (request : Nat) (grpc : Request) (arguments : List Argument)
    (w w' : World) : Prop :=
  (w.put (w.setRequest request { grpc with arguments := arguments })).Quiet w'

/-- What the slot of a call can hold when the call throws: it was emptied, or
has got a scalar without bytes. -/
def Argument.Cut (argument : Argument) : Prop :=
  argument = .empty ∨ argument = .scalar []

/-- A table that a call on the slot of an index leaves when it throws. -/
abbrev Torn (index : Nat) (arguments torn : List Argument) : Prop :=
  Slots.Torn .empty Argument.Cut index arguments torn

/-- How `inaccel_request_arg_array` can end. -/
inductive ArgArrayOutcome (P : PageSize) (request size value index : Nat)
    (w : World) : Except Stop Int → World → Prop where
  | null {w' : World} (missing : request = 0 ∨ size = 0)
      (quiet : w.Quiet w') :
      ArgArrayOutcome P request size value index w (.ok (-1)) w'
  | unsliced {w' : World} (run : slice P value size w = .ok none w') :
      ArgArrayOutcome P request size value index w (.ok (-1)) w'
  | thrown {ptr : Nat} {grpc : Request} {torn : List Argument}
      {w₁ w' : World} (given : ¬(request = 0 ∨ size = 0))
      (run : slice P value size w = .ok (some ptr) w₁)
      (found : w₁.requests request = some grpc)
      (leaves : Torn index grpc.arguments torn)
      (tables : World.Tables request grpc torn w₁ w') :
      ArgArrayOutcome P request size value index w (.ok (-1)) w'
  | lost {ptr : Nat} {w₁ w' : World}
      (run : slice P value size w = .ok (some ptr) w₁)
      (lost : w₁.requests request = none) (quiet : w₁.Quiet w') :
      ArgArrayOutcome P request size value index w
        (.error (.dangling request)) w'
  | stored {ptr : Nat} {grpc : Request} {w₁ w' : World}
      (given : ¬(request = 0 ∨ size = 0))
      (run : slice P value size w = .ok (some ptr) w₁)
      (found : w₁.requests request = some grpc)
      (tables : World.Tables request grpc
        ((padArguments index grpc.arguments).modify index (.setContext ptr))
        w₁ w') :
      ArgArrayOutcome P request size value index w (.ok 0) w'

/-- How `inaccel_request_arg_scalar` can end. -/
inductive ArgScalarOutcome (request : Nat) (value : List UInt8) (index : Nat)
    (w : World) : Except Stop Int → World → Prop where
  | null {w' : World} (missing : request = 0 ∨ value.length = 0)
      (quiet : w.Quiet w') :
      ArgScalarOutcome request value index w (.ok (-1)) w'
  | thrown {grpc : Request} {torn : List Argument} {w' : World}
      (given : ¬(request = 0 ∨ value.length = 0))
      (found : w.requests request = some grpc)
      (leaves : Torn index grpc.arguments torn)
      (tables : World.Tables request grpc torn w w') :
      ArgScalarOutcome request value index w (.ok (-1)) w'
  | lost {w' : World} (lost : w.requests request = none)
      (quiet : w.Quiet w') :
      ArgScalarOutcome request value index w (.error (.dangling request)) w'
  | stored {grpc : Request} {w' : World}
      (given : ¬(request = 0 ∨ value.length = 0))
      (found : w.requests request = some grpc)
      (tables : World.Tables request grpc
        ((padArguments index grpc.arguments).modify index
          fun _ => .scalar value) w w') :
      ArgScalarOutcome request value index w (.ok 0) w'

theorem ensures_derefRequest {α : Type} {request : Nat} {f : Request → Prog α}
    {post : α → World → Prop} {stop : Stop → World → Prop} {w : World}
    (lost : w.requests request = none → stop (.dangling request) w)
    (rest : ∀ grpc, w.requests request = some grpc →
      Ensures (f grpc) post stop w) :
    Ensures (derefRequest request >>= f) post stop w := by
  cases found : w.requests request with
  | none =>
      refine Ensures.ends ?_ (lost found)
      simp only [bind, EStateM.bind, derefRequest, found]
  | some grpc =>
      have run : derefRequest request w = .ok grpc w := by
        simp only [derefRequest, found]
      exact Ensures.step run (rest grpc found)

section Tables

variable {request index : Nat} {grpc : Request} {w w' : World}
  {arguments : List Argument}

theorem World.Tables.refl (found : w.requests request = some grpc) :
    World.Tables request grpc grpc.arguments w w := by
  have same : w.setRequest request grpc = w.toProcess := by
    unfold Process.setRequest
    rw [← found, Function.update_eq_self]
  show (w.put (w.setRequest request grpc)).Quiet w
  rw [same]
  exact .refl w

theorem World.Tables.here (tables : World.Tables request grpc arguments w w') :
    w'.requests request = some { grpc with arguments := arguments } :=
  (congrFun (congrArg (·.requests) tables.rpc) request).trans
    (Function.update_self _ _ _)

theorem World.Tables.asked (tables : World.Tables request grpc arguments w w') :
    World.Tables request grpc arguments w w'.asked :=
  World.Quiet.trans tables ⟨rfl, Nat.le_refl _⟩

theorem World.Tables.again (tables : World.Tables request grpc arguments w w')
    (others : List Argument) :
    World.Tables request grpc others w
      (w'.put (w'.setRequest request { grpc with arguments := others })) := by
  have moved := tables.lift (Process.setRequest request
    { grpc with arguments := others }) (fun _ => rfl) (fun _ _ => id)
  refine moved.of_visible ?_ (Nat.le_refl _)
  simp [Process.setRequest]

theorem modifyArgument_run (index : Nat) (update : Argument → Argument)
    (tables : World.Tables request grpc arguments w w') :
    ∃ w₁, modifyArgument request index update w' = .ok () w₁ ∧
      World.Tables request grpc (arguments.modify index update) w w₁ := by
  have run : derefRequest request w' =
      .ok { grpc with arguments := arguments } w' := by
    simp only [derefRequest, tables.here]
  refine ⟨_, ?_, tables.again _⟩
  unfold modifyArgument
  simp only [bind, EStateM.bind, run]
  rfl

/-- The turns before the one that throws stay. -/
theorem ensures_addArguments {turns : Nat}
    (tables : World.Tables request grpc arguments w w') :
    Ensures (addArguments request turns)
      (fun _ w'' => World.Tables request grpc
        (arguments ++ List.replicate turns .empty) w w'')
      (fun reason w'' => reason = .thrown ∧ ∃ before ≤ turns,
        World.Tables request grpc
          (arguments ++ List.replicate before .empty) w w'') w' := by
  induction turns generalizing arguments w' with
  | zero =>
      show World.Tables request grpc (arguments ++ []) w w'
      rwa [List.append_nil]
  | succ turns induction =>
      unfold addArguments
      have more : ∀ turns, arguments ++ [Argument.empty] ++
          List.replicate turns .empty =
            arguments ++ List.replicate (turns + 1) .empty := by
        intro turns
        rw [List.append_assoc, List.singleton_append, ← List.replicate_succ]
      cases first : (w'.os 0).isDone with
      | false =>
          refine ensures_thrown first ⟨rfl, 0, Nat.zero_le _, ?_⟩
          rw [List.replicate_zero, List.append_nil]
          exact tables.asked
      | true =>
          apply Ensures.step (mayThrow_done first)
          have here := tables.asked
          have run : derefRequest request w'.asked =
              .ok { grpc with arguments := arguments } w'.asked := by
            simp only [derefRequest, here.here]
          refine Ensures.step run (Ensures.step rfl ?_)
          refine (induction (here.again _)).mono ?_ ?_
          · intro _ w₁ tables
            rwa [more] at tables
          · rintro reason w₁ ⟨rfl, before, few, tables⟩
            rw [more] at tables
            exact ⟨rfl, before + 1, Nat.succ_le_succ few, tables⟩

/-- The slot is at its case, or was emptied. -/
theorem ensures_switchArgument {isCase : Argument → Bool} {blank : Argument}
    (tables : World.Tables request grpc arguments w w') :
    Ensures (switchArgument request index isCase blank)
      (fun _ w'' => World.Tables request grpc (arguments.modify index
        fun argument => if isCase argument then argument else blank) w w'')
      (fun reason w'' => reason = .thrown ∧ World.Tables request grpc
        (arguments.modify index fun _ => .empty) w w'') w' := by
  have run : derefRequest request w' =
      .ok { grpc with arguments := arguments } w' := by
    simp only [derefRequest, tables.here]
  unfold switchArgument
  apply Ensures.step run
  split
  · rename_i already
    have same : (arguments.modify index fun argument =>
        if isCase argument then argument else blank) = arguments := by
      refine (@Slots.modify_congr _ arguments index _ id ?_).trans
        (List.modify_id ..)
      intro argument slot
      have there : isCase argument = true := by simpa [slot] using already
      simp [there]
    rw [ensures_pure, same]
    exact tables
  · rename_i otherwise
    obtain ⟨w₁, emptied, tables₁⟩ :=
      modifyArgument_run index (fun _ => .empty) tables
    apply Ensures.step emptied
    cases first : (w₁.os 0).isDone with
    | false => exact ensures_thrown first ⟨rfl, tables₁.asked⟩
    | true =>
        apply Ensures.step (mayThrow_done first)
        obtain ⟨w₂, blanked, tables₂⟩ :=
          modifyArgument_run index (fun _ => blank) tables₁.asked
        refine (ensures_ok blanked).mpr ?_
        have same : ((arguments.modify index fun _ => .empty).modify index
            fun _ => blank) = arguments.modify index fun argument =>
              if isCase argument then argument else blank := by
          rw [List.modify_modify_eq]
          apply Slots.modify_congr
          intro argument slot
          have different : isCase argument = false := by
            simpa [slot] using otherwise
          simp [different]
        rw [← same]
        exact tables₂

/-- The slot of the index is there and at its case, or the call throws. -/
theorem ensures_reachArgument {isCase : Argument → Bool} {blank : Argument}
    (found : w.requests request = some grpc) :
    Ensures (reachArgument request index isCase blank)
      (fun _ w' => World.Tables request grpc
        ((padArguments index grpc.arguments).modify index
          fun argument => if isCase argument then argument else blank) w w')
      (fun reason w' => reason = .thrown ∧ ∃ torn,
        Torn index grpc.arguments torn ∧
          World.Tables request grpc torn w w') w := by
  have run : derefRequest request w = .ok grpc w := by
    simp only [derefRequest, found]
  have start := World.Tables.refl found
  unfold reachArgument
  apply Ensures.step run
  cases first : (w.os 0).isDone with
  | false =>
      exact ensures_thrown first
        ⟨rfl, grpc.arguments, Slots.torn_refl, start.asked⟩
  | true =>
      apply Ensures.step (mayThrow_done first)
      refine ensures_bind.mpr ((ensures_addArguments start.asked).mono ?_ ?_)
      · intro _ w₁ tables
        refine (ensures_switchArgument tables).mono (fun _ _ => id) ?_
        rintro reason w₂ ⟨rfl, tables⟩
        exact ⟨rfl, _, Slots.torn_pad.modify fun _ => .inl (.inl rfl), tables⟩
      · rintro reason w₁ ⟨rfl, before, few, tables⟩
        exact ⟨rfl, _, Slots.torn_append few, tables⟩

end Tables

theorem inaccelRequestArgArray_spec {P : PageSize}
    {request size value index : Nat} {w : World} (free : w.held = []) :
    Ensures (inaccelRequestArgArray P request size value index)
      (fun result =>
        ArgArrayOutcome P request size value index w (.ok result))
      (fun reason =>
        ArgArrayOutcome P request size value index w (.error reason)) w := by
  unfold inaccelRequestArgArray
  split
  · rename_i missing
    apply (quiet_setErrno _).bind (.refl w)
    exact fun _ _ quiet => .null missing quiet
  · rename_i given
    cases run : slice P value size w with
    | error reason w₁ => exact ((slice_spec free).of_error run).elim
    | ok result w₁ =>
        apply Ensures.step run
        cases result with
        | none => exact .unsliced run
        | some ptr =>
            apply ensures_caught
            unfold putArray
            cases found : w₁.requests request with
            | none =>
                unfold reachArgument
                rw [bind_assoc]
                apply ensures_derefRequest
                · exact fun lost => .lost run lost (.refl w₁)
                · exact fun grpc there => absurd (found.symm.trans there)
                    (by simp)
            | some grpc =>
                refine ensures_bind.mpr
                  ((ensures_reachArgument found).mono ?_ ?_)
                · intro _ w₂ tables
                  obtain ⟨w₃, stored, tables⟩ :=
                    modifyArgument_run index (.setContext ptr) tables
                  apply Ensures.step stored
                  rw [List.modify_modify_eq] at tables
                  refine .stored given run found ?_
                  have same : Argument.setContext ptr ∘ (fun argument =>
                      if argument.isArray then argument
                      else .array ⟨0, "", 0, 0, 0⟩) = .setContext ptr := by
                    funext argument
                    cases argument with
                    | empty => rfl
                    | array slot => rfl
                    | scalar bytes => rfl
                  rwa [same] at tables
                · rintro reason w₂ ⟨rfl, torn, leaves, tables⟩
                  exact .thrown given run found leaves tables

theorem inaccelRequestArgScalar_spec {request : Nat} {value : List UInt8}
    {index : Nat} {w : World} :
    Ensures (inaccelRequestArgScalar request value index)
      (fun result => ArgScalarOutcome request value index w (.ok result))
      (fun reason => ArgScalarOutcome request value index w (.error reason))
      w := by
  unfold inaccelRequestArgScalar
  split
  · rename_i missing
    apply (quiet_setErrno _).bind (.refl w)
    exact fun _ _ quiet => .null missing quiet
  · rename_i given
    apply ensures_caught
    unfold putScalar
    cases found : w.requests request with
    | none =>
        unfold reachArgument
        rw [bind_assoc]
        apply ensures_derefRequest
        · exact fun lost => .lost lost (.refl w)
        · exact fun grpc there => absurd (found.symm.trans there) (by simp)
    | some grpc =>
        refine ensures_bind.mpr ((ensures_reachArgument found).mono ?_ ?_)
        · intro _ w₁ tables
          cases first : (w₁.os 0).isDone with
          | false =>
              refine ensures_thrown first (.thrown given found
                (Slots.torn_pad.modify fun argument => ?_) tables.asked)
              cases argument with
              | empty => exact .inl (.inr rfl)
              | array slot => exact .inl (.inr rfl)
              | scalar bytes => exact .inr rfl
          | true =>
              apply Ensures.step (mayThrow_done first)
              obtain ⟨w₂, stored, tables⟩ :=
                modifyArgument_run index (fun _ => .scalar value) tables.asked
              apply Ensures.step stored
              rw [List.modify_modify_eq] at tables
              exact .stored given found tables
        · rintro reason w₁ ⟨rfl, torn, leaves, tables⟩
          exact .thrown given found leaves tables

end CoralApi
