import CoralApi.Ownership
import CoralApi.Script

/-!
# A thread alone

A thread that nobody disturbs runs the functions of the sequential model: the
code of the threads reads again, behind a lock, what it finds unchanged there.
-/

namespace CoralApi

open Program

def Bed.ptr : Bed → Nat
  | slice ptr => ptr
  | response ptr => ptr

/-- The code, with no other thread between two steps. -/
def Script.alone {α : Type} : Script α → Prog α
  | .done value => pure value
  | .lock mutex rest => do
      lock mutex
      Script.alone rest
  | .unlock mutex rest => do
      unlock mutex
      Script.alone rest
  | .sleep mutex bed => sleepOn bed.ptr mutex
  | .call action rest => do
      let value ← action
      Script.alone (rest value)

section Rules

variable {α β : Type} {w w' : World}

/-- Nothing follows a sleep. -/
theorem sleepOn_bind {cond : Nat} {mutex : Lock} {f : α → Prog β} :
    (sleepOn cond mutex >>= f) = sleepOn cond mutex := by
  simp only [sleepOn, bind_assoc]
  congr 1

theorem alone_bind (x : Script α) (f : α → Script β) :
    Script.alone (x >>= f) =
      Script.alone x >>= fun value => Script.alone (f value) := by
  induction x with
  | done value => rfl
  | lock mutex x induction =>
      simp only [Threads.Code.lock_bind, Script.alone, induction, bind_assoc]
  | unlock mutex x induction =>
      simp only [Threads.Code.unlock_bind, Script.alone, induction, bind_assoc]
  | sleep mutex bed => exact sleepOn_bind.symm
  | call action x induction =>
      simp only [Threads.Code.call_bind, Script.alone, induction, bind_assoc]

theorem alone_lift (action : Prog α) :
    Script.alone (action : Script α) = action := bind_pure action

theorem alone_lock (mutex : Lock) :
    Script.alone (Stepwise.lock mutex) = lock mutex := bind_pure _

theorem alone_unlock (mutex : Lock) :
    Script.alone (Stepwise.unlock mutex) = unlock mutex := bind_pure _

theorem alone_ite (condition : Prop) [Decidable condition]
    (x y : Script α) :
    Script.alone (if condition then x else y) =
      if condition then Script.alone x else Script.alone y :=
  apply_ite Script.alone condition x y

theorem process_of_lock {mutex : Lock} (run : lock mutex w = .ok () w') :
    w'.toProcess = w.toProcess := by
  have same : Ensures (lock mutex) _ (fun _ _ => True) w := lock_same trivial
  exact (same.of_ok run).1

theorem process_of_unlock {mutex : Lock} (run : unlock mutex w = .ok () w') :
    w'.toProcess = w.toProcess := by
  have same : Ensures (unlock mutex) _ (fun _ _ => True) w := unlock_same
  exact (same.of_ok run).1

theorem bind_of_ok {x : Prog α} {f : α → Prog β} {value : α}
    (run : x w = .ok value w') : (x >>= f) w = f value w' := by
  simp only [bind, EStateM.bind, run]

/-- Two programs that agree from one state on. -/
theorem bind_agrees {x y : Prog α} {f g : α → Prog β} (first : x w = y w)
    (rest : ∀ value w', y w = .ok value w' → f value w' = g value w') :
    (x >>= f) w = (y >>= g) w := by
  simp only [bind, EStateM.bind, first]
  cases run : y w with
  | ok value w' => exact rest value w' run
  | error reason w' => rfl

end Rules

section Scans

variable {w : World}

/-- The cubes of the registry are found at their pointers. -/
theorem derefCube_of_named {cube : Cube} (named : w.Named)
    (member : cube ∈ w.live) : derefCube cube.ptr w = .ok cube w := by
  have found : w.live.find? (fun other => other.ptr == cube.ptr) =
      some cube := by
    cases result : w.live.find? fun other => other.ptr == cube.ptr with
    | none =>
        have missed := List.find?_eq_none.mp result cube member
        simp at missed
    | some other =>
        have inside := List.mem_of_find?_eq_some result
        have same : other.ptr = cube.ptr := by
          simpa using List.find?_some result
        rw [named.same_cube inside member same]
  simp only [derefCube, found]

theorem alone_scan {found : Cube → Bool} {cubes : List Cube}
    (named : w.Named) (inside : ∀ cube ∈ cubes, cube ∈ w.live) :
    Script.alone (Stepwise.scan found (cubes.map Cube.ptr)) w =
      scan found cubes w := by
  induction cubes generalizing w with
  | nil => rfl
  | cons cube cubes induction =>
      simp only [List.map_cons, Stepwise.scan, scan, alone_bind, alone_lock,
        alone_lift]
      apply bind_agrees rfl
      intro _ w' run
      have same := process_of_lock run
      have member : cube ∈ w'.live :=
        same ▸ inside cube List.mem_cons_self
      have deref := derefCube_of_named (same ▸ named) member
      rw [bind_of_ok deref]
      split
      · rfl
      · rw [alone_bind, alone_unlock]
        apply bind_agrees rfl
        intro _ w'' run'
        have same' := (process_of_unlock run').trans same
        exact induction (same' ▸ named) fun other also =>
          same' ▸ inside other (List.mem_cons_of_mem _ also)

/-- The walk over the registry, under the global lock. -/
theorem alone_walk {found : Cube → Bool} {α : Type} (named : w.Named)
    {next : Option Cube → Script α} {next' : Option Cube → Prog α}
    (rest : ∀ result, Script.alone (next result) = next' result) :
    Script.alone (do
      Stepwise.lock .cubes
      next (← Stepwise.scan found (← pointers))) w =
    (do
      lock .cubes
      next' (← scan found (← get).cubes)) w := by
  simp only [alone_bind, alone_lock, alone_lift]
  apply bind_agrees rfl
  intro _ w₁ run
  have same := process_of_lock run
  rw [bind_of_ok (rfl : pointers w₁ = .ok w₁.pointers w₁),
    bind_of_ok (rfl : (get : Prog World) w₁ = .ok w₁ w₁)]
  apply bind_agrees
  · exact alone_scan (same ▸ named) fun cube member =>
      List.mem_append_left _ member
  · intro result w₂ _
    rw [rest]

end Scans

section Cubes

variable {P : PageSize} {w : World}

theorem alone_access {addr : Nat} (named : w.Named) :
    Script.alone (Stepwise.access P addr) w = access P addr w := by
  apply alone_walk named
  intro result
  cases result with
  | none => rfl
  | some cube =>
      simp only [Stepwise.accessCube, alone_bind, alone_lift, alone_ite,
        alone_unlock]
      refine bind_congr fun _ => bind_congr fun pid => ?_
      congr 2
      cases cube.slices.find? (·.blocks cube.page.addr addr) with
      | some slice => rfl
      | none =>
          simp only [alone_bind, alone_lift]
          refine bind_congr fun error => ?_
          cases error <;> rfl

theorem alone_slice {addr size : Nat} (named : w.Named) :
    Script.alone (Stepwise.slice P addr size) w = slice P addr size w := by
  apply alone_walk named
  intro result
  cases result with
  | none => rfl
  | some cube =>
      simp only [Stepwise.sliceCube, alone_bind, alone_lift, alone_ite,
        alone_unlock]
      refine bind_congr fun _ => bind_congr fun pid => ?_
      congr 1
      cases cube.findRange addr size with
      | some slice => rfl
      | none =>
          simp only [alone_bind, alone_lift]
          refine bind_congr fun name => ?_
          cases name with
          | none => rfl
          | some ptr =>
              simp only [alone_bind, alone_lift, alone_ite, alone_unlock]
              rfl

/-- The end of a cube. -/
theorem alone_releaseCube (cube : Cube) :
    Script.alone (Stepwise.releaseCube cube) = releaseCube cube := by
  simp only [Stepwise.releaseCube, releaseCube, alone_bind, alone_lift,
    alone_unlock]

theorem alone_inaccelFree {addr : Nat} (named : w.Named) :
    Script.alone (Stepwise.inaccelFree addr) w = inaccelFree addr w := by
  unfold Stepwise.inaccelFree inaccelFree
  split
  · rfl
  · apply alone_walk named
    intro result
    cases result with
    | none => exact alone_unlock _
    | some cube =>
        simp only [Stepwise.retireCube, alone_bind, alone_lift, alone_ite,
          alone_unlock, alone_releaseCube]

theorem alone_inaccelAlloc {size : Nat} :
    Script.alone (Stepwise.inaccelAlloc P size) = inaccelAlloc P size := by
  unfold Stepwise.inaccelAlloc inaccelAlloc
  rw [alone_ite]
  congr 1
  rw [alone_bind, alone_lift]
  refine bind_congr fun name => ?_
  cases name with
  | none => rfl
  | some ptr =>
      simp only [alone_bind, alone_lift, alone_ite]
      refine bind_congr fun pid => bind_congr fun error => ?_
      congr 1
      refine bind_congr fun file => ?_
      cases file with
      | none => rfl
      | some id =>
          simp only [alone_bind, alone_lift]
          refine bind_congr fun block => ?_
          cases block with
          | none => rfl
          | some addr =>
              simp only [Stepwise.publishCube, alone_bind, alone_lift,
                alone_lock, alone_unlock, alone_ite]
              rfl

theorem alone_inaccelRealloc {addr newSize : Nat} (named : w.Named) :
    Script.alone (Stepwise.inaccelRealloc P addr newSize) w =
      inaccelRealloc P addr newSize w := by
  unfold Stepwise.inaccelRealloc inaccelRealloc
  split
  · rw [alone_inaccelAlloc]
  · split
    · rw [alone_bind]
      apply bind_agrees (alone_inaccelFree named)
      intro _ w' _
      rfl
    · apply alone_walk named
      intro result
      cases result with
      | none => rfl
      | some cube =>
          simp only [Stepwise.stretchCube, alone_bind, alone_lift, alone_ite,
            alone_unlock]
          refine bind_congr fun _ => bind_congr fun pid => ?_
          congr 2
          refine bind_congr fun opened => ?_
          congr 1
          refine bind_congr fun block => ?_
          cases block <;> rfl

end Cubes

section Slices

variable {P : PageSize} {w w' : World} {ptr : Nat}

theorem process_of_derefSlice {pair : Cube × Slice}
    (run : derefSlice ptr w = .ok pair w') :
    w' = w ∧ w.findSlice ptr = some pair := by
  unfold derefSlice at run
  cases found : w.findSlice ptr with
  | none =>
      rw [found] at run
      cases run
  | some pair' =>
      rw [found] at run
      cases run
      exact ⟨rfl, rfl⟩

/-- A cube that is read again behind its lock. -/
theorem alone_relock {α : Type} {cube : Cube} (named : w.Named)
    (member : cube ∈ w.live) {next : Cube → Script α} {next' : Prog α}
    (rest : Script.alone (next cube) = next') :
    Script.alone (do
      Stepwise.lock (.cube cube.ptr)
      next (← derefCube cube.ptr)) w =
    (do
      lock (.cube cube.ptr)
      next') w := by
  simp only [alone_bind, alone_lock, alone_lift]
  apply bind_agrees rfl
  intro _ w₁ run
  have same := process_of_lock run
  have deref : derefCube cube.ptr w₁ = .ok cube w₁ :=
    derefCube_of_named (same ▸ named) (same ▸ member)
  rw [bind_of_ok deref, rest]

/-- What follows a slice that is found. -/
theorem alone_derefSlice {α : Type} {f : Cube × Slice → Script α}
    {g : Cube × Slice → Prog α}
    (rest : ∀ pair, w.findSlice ptr = some pair →
      Script.alone (f pair) w = g pair w) :
    Script.alone ((derefSlice ptr : Script (Cube × Slice)) >>= f) w =
      (derefSlice ptr >>= g) w := by
  rw [alone_bind, alone_lift]
  apply bind_agrees rfl
  intro pair w₁ run
  obtain ⟨rfl, found⟩ := process_of_derefSlice run
  exact rest pair found

theorem alone_attach (named : w.Named) :
    Script.alone (Stepwise.attach P ptr) w = attach P ptr w := by
  unfold Stepwise.attach attach
  apply alone_derefSlice
  rintro ⟨cube, slice⟩ found
  rw [alone_bind, alone_lift]
  apply bind_agrees rfl
  rintro pid w₂ ⟨⟩
  rw [alone_ite]
  split
  · rfl
  · apply alone_relock named (findSlice_mem found).1
    simp only [alone_bind, alone_lift, alone_ite, alone_unlock]
    rfl

theorem alone_detach (named : w.Named) :
    Script.alone (Stepwise.detach ptr) w = detach ptr w := by
  unfold Stepwise.detach detach
  apply alone_derefSlice
  rintro ⟨cube, slice⟩ found
  rw [alone_bind, alone_lift]
  apply bind_agrees rfl
  rintro pid w₂ ⟨⟩
  rw [alone_ite]
  split
  · rfl
  · apply alone_relock named (findSlice_mem found).1
    simp only [alone_bind, alone_lift, alone_ite, alone_unlock,
      alone_releaseCube]
    rfl

theorem alone_accessWoken {error : Option Errno} :
    Script.alone (Stepwise.accessWoken ptr error) w =
      accessWoken ptr error w := by
  unfold Stepwise.accessWoken accessWoken
  apply alone_derefSlice
  rintro ⟨cube, slice⟩ found
  rw [alone_bind, alone_lock]
  apply bind_agrees rfl
  intro _ w₂ run₂
  cases error with
  | some error => rfl
  | none =>
      have again : w₂.findSlice ptr = some (cube, slice) := by
        rwa [process_of_lock run₂]
      rw [alone_bind, alone_lift, bind_of_ok (derefSlice_run again), alone_ite]
      rfl

end Slices

section Arguments

variable {P : PageSize} {w w' : World}

theorem retains_link {p : Process} {cube slice : Nat} :
    p.Retains (Process.link cube slice p) :=
  .modifyCube fun _ => ⟨rfl, rfl, Cube.modifySlice_ptrs fun _ => rfl⟩

theorem attach_named {ptr : Nat} {result : Int} (named : w.Named)
    (free : w.held = []) (run : attach P ptr w = .ok result w') :
    w'.Named ∧ w'.held = [] := by
  have outcome := (attach_spec free).of_ok run
  split at outcome
  · obtain ⟨-, cube, slice, attached⟩ := outcome
    have protects : w.Retains (w.protectPages P
        (wadd cube.page.addr slice.page.offset) slice.page.size .read) :=
      .of_live rfl rfl (Nat.le_refl _)
    have quiet := attached.effect
    exact ⟨((protects.trans retains_link).trans (.of_quiet quiet)).named named,
      quiet.held.trans free⟩
  · obtain ⟨-, -, quiet⟩ := outcome
    exact ⟨(Process.Retains.of_quiet quiet).named named,
      quiet.held.trans free⟩

/-- An action that leaves the cubes and the locks to the others. -/
def Aside {α : Type} (action : Prog α) : Prop :=
  ∀ w value w', action w = .ok value w' →
    w'.live = w.live ∧ w'.nextPtr = w.nextPtr ∧ w'.held = w.held

theorem named_aside {α : Type} {action : Prog α} (aside : Aside action)
    {value : α} (run : action w = .ok value w')
    (ready : w.Named ∧ w.held = []) : w'.Named ∧ w'.held = [] := by
  obtain ⟨live, nextPtr, held⟩ := aside w value w' run
  obtain ⟨⟨distinct, fresh⟩, free⟩ := ready
  have names : w'.names = w.names := congrArg (·.flatMap Cube.names) live
  exact ⟨⟨names ▸ distinct, names ▸ nextPtr ▸ fresh⟩, held.trans free⟩

theorem aside_mayThrow : Aside mayThrow := by
  intro w value w' run
  unfold mayThrow at run
  split at run
  · cases run
    exact ⟨rfl, rfl, rfl⟩
  · cases run

theorem aside_derefSlice (ptr : Nat) : Aside (derefSlice ptr) := by
  intro w value w' run
  obtain ⟨rfl, -⟩ := process_of_derefSlice run
  exact ⟨rfl, rfl, rfl⟩

theorem aside_derefRequest (ptr : Nat) : Aside (derefRequest ptr) := by
  intro w value w' run
  unfold derefRequest at run
  split at run
  · cases run
    exact ⟨rfl, rfl, rfl⟩
  · cases run

theorem aside_setRequest (ptr : Nat) (request : Request) :
    Aside (change (Process.setRequest ptr request)) := by
  rintro w value w' ⟨⟩
  exact ⟨rfl, rfl, rfl⟩

theorem alone_attachArguments {request index : Nat}
    {arguments : List Argument} (ready : w.Named ∧ w.held = []) :
    Script.alone (Stepwise.attachArguments P request index arguments) w =
      attachArguments P request index arguments w := by
  induction arguments generalizing index w with
  | nil => rfl
  | cons argument arguments induction =>
      cases argument with
      | empty => exact induction ready
      | scalar bytes => exact induction ready
      | array array =>
          rw [Stepwise.attachArguments, attachArguments, alone_bind]
          apply bind_agrees (alone_attach ready.1)
          intro result w₁ run
          have ready := attach_named ready.1 ready.2 run
          rw [alone_ite]
          split
          · rfl
          · simp only [alone_bind, alone_lift]
            apply bind_agrees rfl
            intro _ w₂ run
            have ready := named_aside aside_mayThrow run ready
            apply bind_agrees rfl
            rintro ⟨cube, slice⟩ w₃ run
            have ready := named_aside (aside_derefSlice _) run ready
            apply bind_agrees rfl
            intro grpc w₄ run
            have ready := named_aside (aside_derefRequest _) run ready
            apply bind_agrees rfl
            intro _ w₅ run
            have ready := named_aside (aside_setRequest _ _) run ready
            exact induction ready

end Arguments

section Requests

variable {P : PageSize} {w : World}

theorem catchThrown_agrees {α : Type} {x y : Prog α} {value : α}
    (same : x w = y w) : catchThrown x value w = catchThrown y value w := by
  simp only [catchThrown, same]

theorem alone_requestArgArray {request size value index : Nat}
    (named : w.Named) (free : w.held = []) :
    catchThrown (Script.alone (Stepwise.inaccelRequestArgArray P request size
      value index)) (-1) w =
      inaccelRequestArgArray P request size value index w := by
  unfold Stepwise.inaccelRequestArgArray inaccelRequestArgArray
  rw [alone_ite]
  split
  · rfl
  · rw [alone_bind]
    -- `__slice` throws no exception
    obtain ⟨result, w', run, -⟩ := (@slice_spec P value size w free).exists_ok
    have run' := (alone_slice named).trans run
    rw [bind_of_ok run]
    unfold catchThrown
    rw [bind_of_ok run']
    cases result with
    | none => rfl
    | some ptr => simp only [alone_lift]

theorem alone_submitQueue : Script.alone Stepwise.submitQueue = submitQueue := by
  simp only [Stepwise.submitQueue, submitQueue, alone_bind, alone_lift,
    alone_lock, alone_unlock, alone_ite]
  rfl

theorem alone_stampRequest {request response : Nat} :
    Script.alone (Stepwise.stampRequest request response) =
      stampRequest request response := by
  simp only [Stepwise.stampRequest, stampRequest, alone_bind, alone_lift]

/-- The calls of `inaccel_submit`, under its `catch`. -/
theorem alone_submit {request response : Nat} (named : w.Named)
    (free : w.held = []) :
    catchThrown (Script.alone (Stepwise.inaccelSubmit P request response)) (-1)
      w = inaccelSubmit P request response w := by
  unfold Stepwise.inaccelSubmit inaccelSubmit
  rw [alone_ite]
  split
  · rfl
  · apply catchThrown_agrees
    unfold submitBody
    rw [alone_bind, alone_lift]
    apply bind_agrees rfl
    intro _ w₁ run
    have ready := named_aside aside_mayThrow run ⟨named, free⟩
    rw [alone_bind, alone_lift]
    apply bind_agrees rfl
    intro grpc w₂ run
    have ready := named_aside (aside_derefRequest _) run ready
    rw [alone_bind]
    apply bind_agrees (alone_attachArguments ready)
    intro attached w₃ _
    simp only [submitAttached, alone_ite, alone_bind, alone_stampRequest,
      alone_submitQueue, alone_lift]
    rfl

end Requests

section Responses

variable {w w' : World} {response : Nat}

theorem process_of_derefResponse {r : Response}
    (run : derefResponse response w = .ok r w') :
    w' = w ∧ w.responses response = some r := by
  unfold derefResponse at run
  cases found : w.responses response with
  | none =>
      rw [found] at run
      cases run
  | some other =>
      rw [found] at run
      cases run
      exact ⟨rfl, rfl⟩

theorem alone_detachArguments {arguments : List Argument} {locks : List Lock}
    (named : w.Named) (held : w.held = locks)
    (unheld : ∀ cube, Lock.cube cube ∉ locks) :
    Script.alone (Stepwise.detachArguments arguments) w =
      detachArguments arguments w := by
  induction arguments generalizing w with
  | nil => rfl
  | cons argument arguments induction =>
      cases argument with
      | empty => exact induction named held
      | scalar bytes => exact induction named held
      | array array =>
          rw [Stepwise.detachArguments, detachArguments, alone_bind]
          apply bind_agrees (alone_detach named)
          intro result w₁ run
          obtain ⟨q, first, quiet⟩ := (detach_detachSlice held unheld).of_ok run
          have retains := (detachSlice_retains first).1.trans (.of_quiet quiet)
          exact induction (retains.named named) (quiet.held.trans held)

/-- A response that is read again behind its lock. -/
theorem alone_reread {α : Type} {next : Response → Script α}
    {next' : Response → Prog α}
    (rest : ∀ r w', w'.toProcess = w.toProcess →
      w'.held = .response response :: w.held →
      Script.alone (next r) w' = next' r w') :
    Script.alone (do
      let _ ← derefResponse response
      Stepwise.lock (.response response)
      next (← derefResponse response)) w =
    (do
      let r ← derefResponse response
      lock (.response response)
      next' r) w := by
  simp only [alone_bind, alone_lock, alone_lift]
  apply bind_agrees rfl
  intro r w₁ run
  obtain ⟨rfl, found⟩ := process_of_derefResponse run
  apply bind_agrees rfl
  intro _ w₂ run₂
  have same := process_of_lock run₂
  have again : derefResponse response w₂ = .ok r w₂ := by
    rw [derefResponse, same, found]
  rw [bind_of_ok again]
  apply rest r w₂ same
  unfold lock at run₂
  split at run₂
  · cases run₂
  · cases run₂
    rfl

theorem alone_waiter (named : w.Named) (free : w.held = []) :
    Script.alone (Stepwise.waiter response) w = waiter response w := by
  unfold Stepwise.waiter waiter waiterSection
  simp only [bind_assoc]
  apply alone_reread
  intro r w₁ same held
  rw [alone_bind]
  have unheld : ∀ cube, Lock.cube cube ∉ [Lock.response response] := by simp
  apply bind_agrees
  · exact alone_detachArguments (same ▸ named) (free ▸ held) unheld
  · intro _ w₂ _
    simp only [settle, alone_bind, alone_lift, alone_ite, alone_unlock,
      bind_assoc]
    apply bind_agrees rfl
    intro r w₃ _
    split
    · simp only [bind_assoc, pure_bind, if_true]
    · simp only [bind_assoc, pure_bind, Bool.false_eq_true, if_false,
        bind_pure_unit]

theorem alone_responseRelease :
    Script.alone (Stepwise.inaccelResponseRelease response) w =
      inaccelResponseRelease response w := by
  unfold Stepwise.inaccelResponseRelease inaccelResponseRelease releaseSection
  rw [alone_ite]
  split
  · rfl
  · simp only [bind_assoc]
    apply alone_reread
    intro r w₁ _ _
    rw [alone_ite]
    split
    · simp only [alone_bind, alone_lift, alone_unlock, bind_assoc, pure_bind,
        if_true]
    · simp only [alone_bind, alone_lift, alone_unlock, bind_assoc, pure_bind,
        Bool.false_eq_true, if_false, bind_pure_unit]

theorem alone_waitLoop : Script.alone (Stepwise.waitLoop response) = (do
    waitLoop response
    waitStatus response) := by
  unfold Stepwise.waitLoop waitLoop
  rw [alone_bind, alone_lift, bind_assoc]
  refine bind_congr fun r => ?_
  rw [alone_ite]
  split
  · simp only [alone_bind, alone_lift, alone_unlock]
  · exact sleepOn_bind.symm

theorem alone_responseWait :
    Script.alone (Stepwise.inaccelResponseWait response) =
      inaccelResponseWait response := by
  unfold Stepwise.inaccelResponseWait inaccelResponseWait waitSection
  rw [alone_ite]
  congr 1
  simp only [alone_bind, alone_lift, alone_lock, alone_waitLoop, bind_assoc]

theorem alone_waitWoken {error : Option Errno} :
    Script.alone (Stepwise.waitWoken response error) = (do
      if ← waitWoken response error then waitStatus response
      else return -1) := by
  unfold Stepwise.waitWoken waitWoken
  simp only [alone_bind, alone_lift, alone_lock, bind_assoc]
  refine bind_congr fun _ => bind_congr fun _ => ?_
  cases error with
  | some error =>
      simp only [alone_bind, alone_lift, alone_unlock, bind_assoc, pure_bind,
        Bool.false_eq_true, if_false]
      rfl
  | none => simp only [alone_waitLoop, bind_assoc, pure_bind, if_true]

end Responses

section Forks

variable {P : PageSize} {w : World}

theorem alone_lockCubes (cubes : List Cube) :
    Script.alone (Stepwise.lockCubes (cubes.map Cube.ptr)) =
      lockCubes cubes := by
  induction cubes with
  | nil => rfl
  | cons cube cubes induction =>
      simp only [List.map_cons, Stepwise.lockCubes, lockCubes, alone_bind,
        alone_lock, induction]

theorem alone_unlockCubes (cubes : List Cube) :
    Script.alone (Stepwise.unlockCubes (cubes.map Cube.ptr)) =
      unlockCubes cubes := by
  induction cubes with
  | nil => rfl
  | cons cube cubes induction =>
      simp only [List.map_cons, Stepwise.unlockCubes, unlockCubes, alone_bind,
        alone_unlock, induction]

theorem alone_prepare : Script.alone Stepwise.prepare = prepare := by
  simp only [Stepwise.prepare, prepare, alone_bind, alone_lock, alone_lift]
  refine bind_congr fun _ => ?_
  funext w
  exact congrFun (alone_lockCubes w.cubes) w

theorem alone_parent : Script.alone Stepwise.parent = parent := by
  simp only [Stepwise.parent, parent, alone_bind, alone_unlock, alone_lift]
  funext w
  rw [bind_of_ok (rfl : pointers w = .ok w.pointers w),
    bind_of_ok (rfl : (get : Prog World) w = .ok w w), Process.pointers,
    alone_unlockCubes]

theorem alone_protectCubes {cubes : List Cube} (named : w.Named)
    (inside : ∀ cube ∈ cubes, cube ∈ w.live) :
    Script.alone (Stepwise.protectCubes P (cubes.map Cube.ptr)) w =
      protectCubes P cubes w := by
  induction cubes generalizing w with
  | nil => rfl
  | cons cube cubes induction =>
      have deref := derefCube_of_named named (inside cube List.mem_cons_self)
      simp only [List.map_cons, Stepwise.protectCubes, protectCubes,
        alone_bind, alone_lift, alone_unlock]
      rw [bind_of_ok deref]
      apply bind_agrees rfl
      intro _ w₁ run₁
      apply bind_agrees rfl
      intro _ w₂ run₂
      have live : w₂.live = w.live ∧ w₂.nextPtr = w.nextPtr := by
        rw [process_of_unlock run₂]
        unfold logged at run₁
        split at run₁
        · cases run₁
          exact ⟨rfl, rfl⟩
        · cases run₁
          exact ⟨rfl, rfl⟩
      have names : w₂.names = w.names := congrArg (·.flatMap Cube.names) live.1
      apply induction
      · exact ⟨names ▸ named.distinct, names ▸ live.2 ▸ named.fresh⟩
      · exact fun other also =>
          live.1 ▸ inside other (List.mem_cons_of_mem _ also)

theorem alone_child (named : w.Named) :
    Script.alone (Stepwise.child P) w = (do
      child P
      Self.init) w := by
  simp only [Stepwise.child, child, alone_bind, alone_unlock, alone_lift,
    bind_assoc]
  rw [bind_of_ok (rfl : pointers w = .ok w.pointers w),
    bind_of_ok (rfl : (get : Prog World) w = .ok w w)]
  apply bind_agrees
  · exact alone_protectCubes named fun cube member =>
      List.mem_append_left _ member
  · intro _ w₁ _
    rfl

end Forks

/-- A call in the sequential model. -/
def Job.run (P : PageSize) : Job → Prog Unit
  | access addr => do let _ ← CoralApi.access P addr
  | alloc size => do let _ ← inaccelAlloc P size
  | free addr => inaccelFree addr
  | realloc addr newSize => do let _ ← inaccelRealloc P addr newSize
  | requestCreate accelerator => do
      let _ ← inaccelRequestCreate accelerator
  | argArray request size value index => do
      let _ ← inaccelRequestArgArray P request size value index
  | argScalar request value index => do
      let _ ← inaccelRequestArgScalar request value index
  | responseCreate => do let _ ← inaccelResponseCreate
  | submit request response => do let _ ← inaccelSubmit P request response
  | wait response => do let _ ← inaccelResponseWait response
  | release response => inaccelResponseRelease response
  | next response status => CoralApi.next response status
  | waiter response => CoralApi.waiter response

section Jobs

variable {P : PageSize} {w : World}

/-- An exception ends a call, here or in its `catch`. -/
theorem catchThrown_inner {α : Type} {x : Prog α} {value : α} :
    catchThrown (do let _ ← catchThrown x value) () w =
      catchThrown (do let _ ← x) () w := by
  simp only [catchThrown, bind, EStateM.bind]
  cases run : x w with
  | ok value w' => rfl
  | error reason w' => cases reason <;> rfl

theorem alone_ignored {α : Type} {x : Script α} {y : Prog α}
    (same : Script.alone x w = y w) :
    Script.alone (do let _ ← x) w = (do let _ ← y) w := by
  rw [alone_bind]
  exact bind_agrees same fun _ _ _ => rfl

theorem alone_caught {α : Type} {x : Script α} {y : Prog α} {value : α}
    (same : catchThrown (Script.alone x) value w = y w) :
    catchThrown (Script.alone (do let _ ← x)) () w =
      catchThrown (do let _ ← y) () w := by
  rw [alone_bind]
  have outer : catchThrown (do let _ ← catchThrown (Script.alone x) value) () w =
      catchThrown (do let _ ← y) () w :=
    catchThrown_agrees (bind_agrees same fun _ _ _ => rfl)
  exact catchThrown_inner.symm.trans outer

/-- A call that no other thread disturbs is the call of the sequential
model. -/
theorem alone_job (job : Job) (named : w.Named) (free : w.held = []) :
    catchThrown (Script.alone (job.script P)) () w =
      catchThrown (job.run P) () w := by
  cases job with
  | access addr =>
      exact catchThrown_agrees (alone_ignored (alone_access named))
  | alloc size =>
      exact catchThrown_agrees
        (alone_ignored (congrFun alone_inaccelAlloc w))
  | free addr => exact catchThrown_agrees (alone_inaccelFree named)
  | realloc addr newSize =>
      exact catchThrown_agrees (alone_ignored (alone_inaccelRealloc named))
  | requestCreate accelerator =>
      exact catchThrown_agrees (alone_ignored (congrFun (alone_lift _) w))
  | argArray request size value index =>
      exact alone_caught (alone_requestArgArray named free)
  | argScalar request value index =>
      exact catchThrown_agrees (alone_ignored (congrFun (alone_lift _) w))
  | responseCreate =>
      exact catchThrown_agrees (alone_ignored (congrFun (alone_lift _) w))
  | submit request response => exact alone_caught (alone_submit named free)
  | wait response =>
      exact catchThrown_agrees
        (alone_ignored (congrFun alone_responseWait w))
  | release response => exact catchThrown_agrees alone_responseRelease
  | next response status =>
      exact catchThrown_agrees (congrFun (alone_lift _) w)
  | waiter response => exact catchThrown_agrees (alone_waiter named free)

end Jobs

end CoralApi
