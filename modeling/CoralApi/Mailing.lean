import CoralApi.ArgumentSpec
import CoralApi.Branch
import CoralApi.ResponseSpec
import CoralApi.Traffic

/-!
# The stages of a submission

A thread goes through `inaccel_submit` stage by stage, and other threads may
come between.  The marks of a process are its `self`, its counter and the
metadata of its requests.  One stage writes a mark, another one hands the
marked request over, and the others leave the marks alone.
-/

namespace CoralApi

open Program

/-- Where a thread is in `inaccel_submit`. -/
inductive Mailing where
  /-- not in it; its last call has returned this -/
  | idle (result : Int)
  | called (request response : Nat)
  /-- in the loop, with these arguments ahead -/
  | attaching (request response index : Nat) (ahead : List Argument)
  | stamped (request response : Nat)
  | queued (request response : Nat)

namespace Mailing

/-- One stage. -/
def run (P : PageSize) : Mailing → Prog Mailing
  | idle result => return idle result
  | called request response => do
      mayThrow
      let grpc ← derefRequest request
      return attaching request response 0 grpc.arguments
  | attaching request response index (argument :: ahead) => do
      if ← attachArguments P request index [argument] then
        return attaching request response (index + 1) ahead
      else return idle (-1)
  | attaching request response _ [] => do
      stampRequest request response
      return stamped request response
  | stamped request response => do
      if ← submitQueue then return queued request response
      else return idle (-1)
  | queued request response => do
      handOver request response
      return idle 0

/-- All that is left of a submission. -/
def rest (P : PageSize) : Mailing → Prog Int
  | idle result => return result
  | called request response => submitBody P request response
  | attaching request response index ahead => do
      if ← attachArguments P request index ahead then
        submitAttached request response
      else return -1
  | stamped request response => do
      if ← submitQueue then do
        handOver request response
        return 0
      else return -1
  | queued request response => do
      handOver request response
      return 0

/-- The request that a thread has marked and not handed over. -/
def carried : Mailing → Option Nat
  | stamped request _ => some request
  | queued request _ => some request
  | _ => none

end Mailing

/-- A submission is its stages, one after the other. -/
theorem Mailing.rest_run (P : PageSize) (stage : Mailing) :
    stage.rest P = (do (← stage.run P).rest P) := by
  cases stage with
  | idle result => rfl
  | called request response =>
      simp only [rest, run, submitBody, bind_assoc, pure_bind]
  | attaching request response index ahead =>
      cases ahead with
      | nil =>
          simp only [rest, run, submitAttached, attachArguments, bind_assoc,
            pure_bind]
          rfl
      | cons argument ahead =>
          rw [rest, attachArguments_cons]
          simp only [run, bind_assoc]
          congr 1
          funext attached
          cases attached with
          | false => rfl
          | true => rfl
  | stamped request response =>
      simp only [rest, run, bind_assoc]
      congr 1
      funext ready
      cases ready with
      | false => rfl
      | true => rfl
  | queued request response =>
      simp only [rest, run, bind_assoc, pure_bind]

/-- The metadata that a request carries. -/
def Process.mark (p : Process) (request : Nat) : Option Metadata :=
  (p.requests request).bind Request.metadata

/-- No mark is written, and no call is handed over. -/
structure Process.KeepsMarks (p p' : Process) : Prop where
  self : p'.self = p.self
  stamp : p'.stamp = p.stamp
  marks : p'.mark = p.mark
  pending : p'.pending = p.pending

namespace Process.KeepsMarks

variable {p p' p'' : Process}

theorem refl (p : Process) : p.KeepsMarks p := ⟨rfl, rfl, rfl, rfl⟩

theorem trans (first : p.KeepsMarks p') (second : p'.KeepsMarks p'') :
    p.KeepsMarks p'' where
  self := second.self.trans first.self
  stamp := second.stamp.trans first.stamp
  marks := second.marks.trans first.marks
  pending := second.pending.trans first.pending

theorem of_rpc (rpc : p'.toRpc = p.toRpc) (self : p'.self = p.self) :
    p.KeepsMarks p' where
  self := self
  stamp := congrArg (·.stamp) rpc
  marks := by
    have requests : p'.requests = p.requests := congrArg (·.requests) rpc
    funext request
    rw [mark, requests, mark]
  pending := congrArg (·.pending) rpc

theorem of_quiet {w w' : World} (quiet : w.Quiet w') :
    w.toProcess.KeepsMarks w'.toProcess :=
  of_rpc quiet.rpc quiet.self

/-- A request changes behind its mark. -/
theorem of_setRequest {request : Nat} {grpc grpc' : Request}
    (found : p.requests request = some grpc)
    (same : grpc'.metadata = grpc.metadata) :
    p.KeepsMarks (p.setRequest request grpc') where
  self := rfl
  stamp := rfl
  marks := by
    funext other
    by_cases here : other = request
    · subst here
      simp [mark, Process.setRequest, found, same]
    · simp [mark, Process.setRequest, Function.update_of_ne here]
  pending := rfl

theorem of_withQueue : p.KeepsMarks p.withQueue :=
  withQueue_ind p.KeepsMarks (.refl p) ⟨rfl, rfl, rfl, rfl⟩

end Process.KeepsMarks

/-- What a stage does to the marks. -/
inductive Mailing.Deals (stage : Mailing) (p : Process) :
    Mailing → Process → Prop where
  | keeps {next : Mailing} {p' : Process} (same : p.KeepsMarks p')
      (carried : ∀ request, next.carried = some request →
        stage.carried = some request) :
      Deals stage p next p'
  | stamps {request response index : Nat} {grpc : Request} {r : Response}
      (here : stage = .attaching request response index []) :
      Deals stage p (.stamped request response)
        (p.stamped request response grpc r)
  | sends {request response : Nat} {message : Request}
      (here : stage = .queued request response)
      (found : p.requests request = some message) :
      Deals stage p (.idle 0) (p.send response message)

section Stages

variable {P : PageSize} {w w' : World} {request response index : Nat}

/-- The loop of `inaccel_submit` leaves the marks alone. -/
theorem attachArgument_keepsMarks (free : w.held = []) (argument : Argument) :
    Ensures (attachArguments P request index [argument])
      (fun _ w' => w.KeepsMarks w'.toProcess)
      (fun _ w' => w.KeepsMarks w'.toProcess) w := by
  cases argument with
  | empty => exact .refl w.toProcess
  | scalar bytes => exact .refl w.toProcess
  | array array =>
      unfold attachArguments
      refine ensures_bind.mpr ((attach_spec free).mono ?_ ?_)
      · intro result w₁ ended
        split at ended
        · rename_i success
          obtain ⟨-, cube, slice, attached⟩ := ended
          have same : w.KeepsMarks w₁.toProcess :=
            .of_rpc attached.effect.rpc attached.effect.self
          simp only [success, ne_eq, not_true_eq_false, if_false]
          cases first : (w₁.os 0).isDone with
          | false => exact ensures_thrown first same
          | true =>
              apply Ensures.step (mayThrow_done first)
              refine ensures_derefSlice (fun _ => same) fun cube' s' _ => ?_
              refine ensures_derefRequest (fun _ => same) fun grpc there => ?_
              exact same.trans (.of_setRequest there rfl)
        · rename_i failure
          simp only [ne_eq, failure, not_false_eq_true, if_true]
          exact .of_quiet ended.2.2
      · rintro reason w₁ ⟨rfl, -⟩
        exact .refl w₁.toProcess

theorem submitQueue_keepsMarks (free : w.held = []) :
    Ensures submitQueue (fun _ w' => w.KeepsMarks w'.toProcess)
      (fun _ w' => w.KeepsMarks w'.toProcess) w := by
  refine (submitQueue_spec free).mono ?_ ?_
  · intro ready w₁ outcome
    cases outcome with
    | ready answered os quiet =>
        exact Process.KeepsMarks.of_withQueue.trans (.of_quiet quiet)
    | short started closed fewer answered fails quiet =>
        have opened : w.KeepsMarks (w.openQueue started) :=
          ⟨rfl, rfl, rfl, rfl⟩
        exact opened.trans (.of_quiet quiet)
  · intro reason w₁ outcome
    cases outcome with
    | starved closed fails quiet =>
        exact .of_quiet (w := w.holding [.queue]) quiet

theorem stampRequest_deals {ends : Stop → World → Prop} {stage : Mailing}
    (here : stage = .attaching request response index [])
    (stops : ∀ reason w', w.KeepsMarks w'.toProcess → ends reason w') :
    Ensures (stampRequest request response)
      (fun _ w' => stage.Deals w.toProcess (.stamped request response)
        w'.toProcess) ends w := by
  unfold stampRequest
  cases first : (w.os 0).isDone with
  | false => exact ensures_thrown first (stops _ _ (.refl _))
  | true =>
      apply Ensures.step (mayThrow_done first)
      refine ensures_derefRequest (fun _ => stops _ _ (.refl _)) ?_
      intro grpc found
      apply ensures_derefResponse
      · rintro - reason w' ⟨rfl, -, -⟩
        exact stops _ _ (.refl _)
      · intro r _
        apply Ensures.step rfl
        cases second : (w.os 1).isDone with
        | false =>
            exact ensures_thrown second (stops _ _ ⟨rfl, rfl, rfl, rfl⟩)
        | true =>
            apply Ensures.step (mayThrow_done second)
            exact .stamps here

theorem handOver_deals {ends : Stop → World → Prop} {stage : Mailing}
    (here : stage = .queued request response)
    (stops : ∀ reason w', w.KeepsMarks w'.toProcess → ends reason w') :
    Ensures (handOver request response)
      (fun _ w' => stage.Deals w.toProcess (.idle 0) w'.toProcess) ends w := by
  unfold handOver
  cases first : (w.os 0).isDone with
  | false => exact ensures_thrown first (stops _ _ (.refl _))
  | true =>
      apply Ensures.step (mayThrow_done first)
      refine ensures_derefRequest (fun _ => stops _ _ (.refl _)) ?_
      exact fun message found => .sends here found

/-- What one stage does to the marks, and a stage that fails. -/
theorem Mailing.run_spec (stage : Mailing) (free : w.held = []) :
    Ensures (stage.run P)
      (fun next w' => stage.Deals w.toProcess next w'.toProcess)
      (fun _ w' => w.KeepsMarks w'.toProcess) w := by
  cases stage with
  | idle result => exact .keeps (.refl _) fun _ => id
  | called request response =>
      cases first : (w.os 0).isDone with
      | false => exact ensures_thrown first (.refl _)
      | true =>
          apply Ensures.step (mayThrow_done first)
          refine ensures_derefRequest (fun _ => .refl _) fun grpc _ => ?_
          exact .keeps (.refl _) fun _ => id
  | attaching request response index ahead =>
      cases ahead with
      | cons argument ahead =>
          refine ensures_bind.mpr ((attachArgument_keepsMarks free _).mono ?_
            fun _ _ => id)
          intro attached w₁ same
          cases attached with
          | true => exact .keeps same fun _ => id
          | false => exact .keeps same fun _ => id
      | nil =>
          have deals := @stampRequest_deals w request response index
            (fun _ w' => w.KeepsMarks w'.toProcess) _ rfl fun _ _ => id
          exact deals.bind fun _ _ => id
  | stamped request response =>
      refine ensures_bind.mpr ((submitQueue_keepsMarks free).mono ?_
        fun _ _ => id)
      intro ready w₁ same
      cases ready with
      | true => exact .keeps same fun _ => id
      | false => exact .keeps same fun _ none => by cases none
  | queued request response =>
      have deals := @handOver_deals w request response
        (fun _ w' => w.KeepsMarks w'.toProcess) _ rfl fun _ _ => id
      exact deals.bind fun _ _ => id

end Stages

section Forks

variable {P : PageSize} {w : World} {child : Nat}

theorem lockCubes_same (cubes : List Cube) :
    Ensures (lockCubes cubes)
      (fun _ w' => w'.toProcess = w.toProcess ∧ w'.os = w.os)
      (fun _ _ => True) w := by
  induction cubes generalizing w with
  | nil => exact ⟨rfl, rfl⟩
  | cons cube cubes induction =>
      refine (lock_same trivial).bind fun _ w₁ ⟨first, os⟩ => ?_
      refine induction.mono ?_ fun _ _ => id
      exact fun _ w₂ rest => ⟨rest.1.trans first, rest.2.trans os⟩

theorem prepare_same :
    Ensures prepare (fun _ w' => w'.toProcess = w.toProcess ∧ w'.os = w.os)
      (fun _ _ => True) w := by
  refine (lock_same trivial).bind fun _ w₁ ⟨first, os⟩ => ?_
  refine Ensures.step rfl ((lockCubes_same _).mono ?_ fun _ _ => id)
  exact fun _ w₂ rest => ⟨rest.1.trans first, rest.2.trans os⟩

/-- The loop of `__child` writes no mark, and asks once for every cube. -/
theorem protectCubes_keepsMarks (cubes : List Cube) :
    Ensures (protectCubes P cubes)
      (fun _ w' => w.KeepsMarks w'.toProcess ∧
        w'.os = fun index => w.os (index + cubes.length))
      (fun _ _ => True) w := by
  induction cubes generalizing w with
  | nil => exact ⟨.refl _, rfl⟩
  | cons cube cubes induction =>
      have protects : Ensures
          (logged (Process.protectPages P cube.page.addr cube.page.size .read))
          (fun _ w' => w.KeepsMarks w'.toProcess ∧
            w'.os = fun index => w.os (index + 1)) (fun _ _ => True) w := by
        simp only [logged, Ensures]
        cases w.os 0 with
        | done => exact ⟨⟨rfl, rfl, rfl, rfl⟩, rfl⟩
        | failed => exact ⟨.refl _, rfl⟩
      refine protects.bind fun _ w₁ first => ?_
      refine unlock_same.bind fun _ w₂ second => ?_
      refine induction.mono ?_ fun _ _ => id
      intro _ w₃ last
      have same : w₁.KeepsMarks w₃.toProcess := second.1 ▸ last.1
      refine ⟨first.1.trans same, ?_⟩
      rw [last.2, second.2, first.2]
      rfl

/-- Nothing happens to the memory of the parent. -/
theorem forkParent_same :
    Ensures forkParent (fun _ w' => w'.toProcess = w.toProcess)
      (fun _ _ => True) w := by
  refine prepare_same.bind fun _ w₁ ⟨prepared, _⟩ => ?_
  apply Ensures.step rfl
  have opens : Ensures (unlockCubes w₁.cubes)
      (fun _ w' => w'.toProcess = w₁.toProcess) (fun _ _ => True) w₁ :=
    (unlockCubes_same _).mono (fun _ _ => id) fun _ _ => False.elim
  refine opens.bind fun _ w₂ same => ?_
  refine unlock_same.mono ?_ fun _ _ => id
  exact fun _ w₃ ⟨last, _⟩ => last.trans (same.trans prepared)

/-- The child counts on from its parent, under the name that `mkdtemp` gives
it, and under the name of the parent when `mkdtemp` fails. -/
theorem forkChild_marks :
    Ensures (forkChild P child)
      (fun _ w' => w'.stamp = w.stamp ∧ w'.self =
        match w.os w.cubes.length with
        | .done _ name => name
        | .failed _ => w.self)
      (fun _ _ => True) w := by
  refine prepare_same.bind fun _ w₁ ⟨prepared, os⟩ => ?_
  refine Ensures.step rfl ?_
  unfold CoralApi.child
  refine ensures_bind.mpr (Ensures.step rfl ?_)
  refine (protectCubes_keepsMarks _).bind fun _ w₂ ⟨same, asked⟩ => ?_
  refine unlock_same.mono ?_ fun _ _ => id
  intro _ w₃ ⟨last, os'⟩
  have stamp : w₃.stamp = w.stamp := by
    rw [last, same.stamp]
    exact congrArg (·.stamp) prepared
  have self : w₃.self = w.self := by
    rw [last, same.self]
    exact congrArg (·.self) prepared
  have next : w₃.os 0 = w.os w.cubes.length := by
    have cubes : w₁.cubes = w.cubes := congrArg (·.cubes) prepared
    rw [os', asked, ← os, ← cubes]
    exact congrArg w₁.os (Nat.zero_add _)
  unfold Self.init
  apply Ensures.step rfl
  rw [← next]
  cases w₃.os 0 with
  | done value name => exact ⟨stamp, rfl⟩
  | failed error => exact ⟨stamp, self⟩

end Forks

end CoralApi
