import CoralApi.Grip

/-!
# Actions that leave the cubes where they are

Every action of a script but four: those that name a new object, register a
cube, take it out of the registry, or follow a pointer to it.
-/

namespace CoralApi

open Program

section Actions

theorem tame_get : Tame (get : Prog World) := fun w => .refl w.toProcess

theorem tame_derefSlice (ptr : Nat) : Tame (derefSlice ptr) := by
  intro w
  simp only [derefSlice, Ensures]
  cases w.findSlice ptr with
  | none => simp
  | some found => exact .refl w.toProcess

theorem tame_derefRequest (ptr : Nat) : Tame (derefRequest ptr) := by
  intro w
  simp only [derefRequest, Ensures]
  cases w.requests ptr with
  | none => simp
  | some request => exact .refl w.toProcess

theorem tame_derefResponse (ptr : Nat) : Tame (derefResponse ptr) := by
  intro w
  simp only [derefResponse, Ensures]
  cases w.responses ptr with
  | none => simp
  | some r => exact .refl w.toProcess

/-- A change of anything but the cubes. -/
theorem tame_rest {update : Process → Process}
    (same : ∀ p : Process, (update p).cubes = p.cubes ∧
      (update p).orphans = p.orphans ∧ p.nextPtr ≤ (update p).nextPtr) :
    Tame (change update) :=
  tame_change fun p => .of_cubes (same p).1 (same p).2.1 (same p).2.2

theorem tame_ask {α : Type} {next : Reply → Prog α}
    (rest : ∀ reply, Tame (next reply)) : Tame (ask >>= next) :=
  quiet_ask.tame.bind rest

theorem tame_fail {α : Type} {error : Nat} {value : α} :
    Tame (do
      setErrno error
      return value) :=
  (quiet_setErrno error).tame.bind fun _ => tame_pure value

theorem tame_mprotect (P : PageSize) (addr size : Nat) (prot : Prot) :
    Tame (Utils.mprotect P addr size prot) := by
  apply tame_ask
  intro reply
  cases reply with
  | done value name =>
      exact Tame.bind (tame_rest fun _ => ⟨rfl, rfl, Nat.le_refl _⟩) fun _ =>
            tame_pure 0
  | failed error => exact tame_fail

theorem tame_initCond : Tame Utils.initCond := by
  apply tame_ask
  intro reply
  cases reply with
  | done value name => exact tame_pure 0
  | failed error => exact tame_pure error.val

theorem tame_ftruncate (id : String) (length : Nat) :
    Tame (Utils.ftruncate id length) :=
  (quiet_ftruncate id length).tame

theorem tame_map (P : PageSize) (size : Nat) (id : String) :
    Tame (Utils.map P size id) := by
  apply (tame_ftruncate id size).bind
  intro result
  split
  · apply tame_ask
    intro reply
    cases reply with
    | done addr name =>
        apply tame_get.bind
        intro w
        split
        · exact Tame.bind (tame_rest fun _ => ⟨rfl, rfl, Nat.le_refl _⟩) fun _ =>
            tame_pure _
        · exact tame_fail
    | failed error => exact tame_fail
  · exact tame_pure none

theorem tame_remap (P : PageSize) (oldAddr oldSize newSize : Nat)
    (id : String) : Tame (Utils.remap P oldAddr oldSize newSize id) := by
  apply (tame_ftruncate id newSize).bind
  intro result
  split
  · apply tame_ask
    intro reply
    cases reply with
    | done addr name =>
        apply tame_get.bind
        intro w
        split
        · dsimp only
          split
          · exact Tame.bind (tame_rest fun _ => ⟨rfl, rfl, Nat.le_refl _⟩) fun _ =>
            tame_pure _
          · exact tame_fail
        · exact tame_fail
    | failed error => exact tame_fail
  · exact tame_pure none

theorem tame_unmap (addr size : Nat) : Tame (Utils.unmap addr size) :=
  tame_logged fun _ => .of_cubes rfl rfl (Nat.le_refl _)

theorem tame_reopen (id : String) : Tame (Self.reopen id) := by
  apply tame_ask
  intro reply
  cases reply with
  | done value name =>
      apply tame_get.bind
      intro w
      split
      · exact Tame.bind (tame_rest fun _ => ⟨rfl, rfl, Nat.le_refl _⟩) fun _ =>
            tame_pure _
      · exact tame_fail
  | failed error => exact tame_fail

theorem tame_unlink (id : String) : Tame (Self.unlink id) := by
  refine Tame.bind (tame_rest fun _ => ⟨rfl, rfl, Nat.le_refl _⟩) fun _ => ?_
  exact tame_logged fun _ => .of_cubes rfl rfl (Nat.le_refl _)

theorem tame_broadcast (bed : Bed) : Tame (Utils.broadcast bed) :=
  tame_rest fun _ => ⟨rfl, rfl, Nat.le_refl _⟩

theorem tame_setSlice (cube : Nat) (slice : Slice) :
    Tame (Collection.setSlice cube slice) := by
  apply tame_ask
  intro reply
  cases reply with
  | done value name =>
      refine (tame_change fun p => ?_).bind fun _ => tame_pure 0
      exact .of_modifyCube fun _ => rfl
  | failed error => exact tame_fail

theorem tame_freeSlices (slices : List Slice) : Tame (freeSlices slices) :=
  (quiet_freeSlices slices).tame

theorem tame_unprotectSlices (P : PageSize) (cube : Cube) (addr : Nat)
    (slices : List Slice) : Tame (unprotectSlices P cube addr slices) := by
  induction slices with
  | nil => exact tame_pure none
  | cons slice slices induction =>
      unfold unprotectSlices
      split
      · apply (tame_mprotect P _ _ _).bind
        intro result
        split
        · exact quiet_getErrno.tame.bind fun _ => tame_pure _
        · refine (tame_change fun p => ?_).bind fun _ => induction
          exact .of_modifyCube fun _ => rfl
      · exact induction

theorem tame_deleteResponse (response : Nat) :
    Tame (deleteResponse response) := by
  apply (tame_derefResponse response).bind
  intro r
  apply (quiet_destroyMutex response).tame.bind
  exact fun _ => tame_rest fun _ => ⟨rfl, rfl, Nat.le_refl _⟩

theorem tame_next (response : Nat) (status : Status) :
    Tame (next response status) := by
  apply (tame_derefResponse response).bind
  exact fun _ => tame_rest fun _ => ⟨rfl, rfl, Nat.le_refl _⟩

theorem tame_waitStatus (response : Nat) : Tame (waitStatus response) :=
  (tame_derefResponse response).bind fun r => tame_pure r.status.code

theorem tame_init : Tame Self.init := by
  apply tame_ask
  intro reply
  cases reply with
  | done value name =>
      exact tame_rest fun _ => ⟨rfl, rfl, Nat.le_refl _⟩
  | failed error => exact (quiet_setErrno _).tame

theorem tame_requestCreate (accelerator : Option String) :
    Tame (inaccelRequestCreate accelerator) := by
  cases accelerator with
  | none => exact tame_fail
  | some accelerator =>
      apply tame_ask
      intro reply
      cases reply with
      | failed error => exact tame_pure none
      | done value name =>
          apply tame_ask
          intro reply
          cases reply with
          | failed error => exact tame_pure none
          | done value name =>
              apply tame_get.bind
              intro w
              exact Tame.bind (tame_rest fun _ => ⟨rfl, rfl, Nat.le_succ _⟩)
                fun _ => tame_pure _

theorem tame_responseCreate : Tame inaccelResponseCreate := by
  apply tame_ask
  intro reply
  cases reply with
  | failed error => exact tame_pure none
  | done value name =>
      apply tame_get.bind
      intro w
      apply tame_initCond.bind
      intro error
      split
      · exact tame_pure none
      · apply (quiet_initMutex _).tame.bind
        intro error
        split
        · exact tame_pure none
        · exact Tame.bind (tame_rest fun _ => ⟨rfl, rfl, Nat.le_succ _⟩) fun _ =>
            tame_pure _

section Answers

variable {α β : Type} {action : Prog α}

/-- An action that throws only when a call fails, and hands on the replies. -/
def Answers (action : Prog α) : Prop :=
  ∀ w : World, Ensures action
    (fun _ w' => w.Steady w'.toProcess ∧ (w.Answered → w'.Answered))
    (fun reason w' => reason = .thrown →
      w.Steady w'.toProcess ∧ ¬w.Answered) w

theorem Answers.throws (answers : Answers action) : Throws action :=
  fun w => (answers w).mono (fun _ _ ended => ended.1) fun _ _ => id

theorem Answers.bind {next : α → Prog β} (first : Answers action)
    (rest : ∀ value, Answers (next value)) : Answers (action >>= next) := by
  intro w
  refine ensures_bind.mpr ((first w).mono ?_ fun _ _ => id)
  rintro value w' ⟨steady, answered⟩
  refine (rest value w').mono ?_ ?_
  · rintro result w'' ⟨steady', answered'⟩
    exact ⟨steady.trans steady', answered' ∘ answered⟩
  · intro reason w'' ends thrown
    obtain ⟨steady', short⟩ := ends thrown
    exact ⟨steady.trans steady', short ∘ answered⟩

theorem answers_pure (value : α) : Answers (pure value) :=
  fun w => ⟨.refl w.toProcess, id⟩

theorem answers_mayThrow : Answers mayThrow := by
  intro w
  simp only [mayThrow, Ensures]
  cases reply : w.os 0 with
  | done value name =>
      exact ⟨.refl w.toProcess, fun answered index => answered (index + 1)⟩
  | failed error =>
      refine fun _ => ⟨.refl w.toProcess, fun answered => ?_⟩
      have first := answered 0
      rw [reply] at first
      cases first

end Answers

theorem throws_mayThrow : Throws mayThrow := answers_mayThrow.throws

theorem Throws.bind {α β : Type} {action : Prog α} {next : α → Prog β}
    (first : Throws action) (rest : ∀ value, Tame (next value)) :
    Throws (action >>= next) := by
  intro w
  refine ensures_bind.mpr ((first w).mono ?_ fun _ _ => id)
  intro value w' steady
  exact (rest value w').mono (fun _ _ => steady.trans)
    fun reason _ quiet thrown => absurd thrown quiet

theorem tame_daemon : Tame Utils.daemon := by
  apply tame_ask
  intro reply
  cases reply with
  | done value name =>
      exact Tame.bind (tame_rest fun _ => ⟨rfl, rfl, Nat.le_refl _⟩) fun _ =>
        tame_pure 0
  | failed error => exact tame_pure error.val

theorem tame_startWaiters (count : Nat) : Tame (startWaiters count) := by
  induction count with
  | zero => exact tame_pure 0
  | succ count induction =>
      apply tame_daemon.bind
      intro error
      split
      · exact tame_pure error
      · exact induction

theorem throws_openQueue : Throws openQueue := by
  apply throws_mayThrow.bind
  intro _
  refine Tame.bind (tame_rest fun _ => ⟨rfl, rfl, Nat.le_refl _⟩) fun _ => ?_
  apply tame_get.bind
  intro w
  apply (tame_startWaiters _).bind
  intro error
  split
  · exact tame_pure error
  · exact tame_daemon

theorem throws_handOver (request response : Nat) :
    Throws (handOver request response) := by
  apply throws_mayThrow.bind
  intro _
  apply (tame_derefRequest request).bind
  exact fun _ => tame_rest fun _ => ⟨rfl, rfl, Nat.le_refl _⟩

/-- An exception that is caught. -/
theorem Throws.caught {α : Type} {action : Prog α} {value : α}
    (throws : Throws action) : Tame (catchThrown action value) := by
  intro w
  have ends := throws w
  unfold Ensures at *
  unfold catchThrown
  cases run : action w with
  | ok result w' =>
      rw [run] at ends
      exact ends
  | error reason w' =>
      rw [run] at ends
      cases reason with
      | thrown => exact (ends rfl).1
      | blocked => simp
      | asleep ptr => simp
      | dangling ptr => simp

section Tables

variable {request index : Nat}

/-- A change of the table of a request. -/
theorem answers_table {change : Request → Request} :
    Answers (do
      let grpc ← derefRequest request
      CoralApi.change (Process.setRequest request (change grpc))) := by
  intro w
  simp only [bind, EStateM.bind, derefRequest, Ensures]
  cases w.requests request with
  | none => simp
  | some grpc => exact ⟨.of_cubes rfl rfl (Nat.le_refl _), id⟩

theorem answers_derefRequest : Answers (derefRequest request) := by
  intro w
  simp only [derefRequest, Ensures]
  cases w.requests request with
  | none => simp
  | some grpc => exact ⟨.refl w.toProcess, id⟩

theorem answers_addArguments (turns : Nat) :
    Answers (addArguments request turns) := by
  induction turns with
  | zero => exact answers_pure ()
  | succ turns induction =>
      apply answers_mayThrow.bind
      intro _
      rw [← bind_assoc]
      exact answers_table.bind fun _ => induction

theorem answers_modifyArgument (update : Argument → Argument) :
    Answers (modifyArgument request index update) :=
  answers_table

theorem answers_reachArgument (isCase : Argument → Bool) (blank : Argument) :
    Answers (reachArgument request index isCase blank) := by
  apply answers_derefRequest.bind
  intro grpc
  apply answers_mayThrow.bind
  intro _
  apply (answers_addArguments _).bind
  intro _
  apply answers_derefRequest.bind
  intro grpc
  split
  · exact answers_pure ()
  · apply (answers_modifyArgument _).bind
    intro _
    exact answers_mayThrow.bind fun _ => answers_modifyArgument _

theorem throws_putArray (slice : Nat) :
    Throws (putArray request slice index) := by
  apply Answers.throws
  apply (answers_reachArgument _ _).bind
  intro _
  exact (answers_modifyArgument _).bind fun _ => answers_pure 0

theorem throws_putScalar (value : List UInt8) :
    Throws (putScalar request value index) := by
  apply Answers.throws
  apply (answers_reachArgument _ _).bind
  intro _
  apply answers_mayThrow.bind
  intro _
  exact (answers_modifyArgument _).bind fun _ => answers_pure 0

end Tables

theorem tame_argScalar (request : Nat) (value : List UInt8) (index : Nat) :
    Tame (inaccelRequestArgScalar request value index) := by
  unfold inaccelRequestArgScalar
  split
  · exact tame_fail
  · exact (throws_putScalar value).caught

end Actions

end CoralApi
