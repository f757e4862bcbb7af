import CoralApi.ArgumentSpec
import CoralApi.Deadline
import CoralApi.Host
import CoralApi.Lifetime

/-!
# What `errno` tells

The calls of the operating system set `errno`; the functions of pthread return
their error number and leave `errno` alone.  Here every function of `rpc.cpp`
that reports a failure gets the cause of the failure, read off the process and
the replies, and the runs are compared with it.
-/

namespace CoralApi

open Program

/-- Why a call fails, or why it does not return. -/
inductive Cause where
  /-- a call of the operating system, or the library itself, sets `errno` -/
  | errno (error : Errno)
  /-- a function of pthread returns the number -/
  | pthread (error : Errno)
  /-- a C++ exception -/
  | thrown
  /-- it follows a pointer to nothing -/
  | stuck
  deriving DecidableEq

namespace World

/-- A call that is answered, up to the next reply; `cause` is how it fails. -/
def reply (w : World) (cause : Errno → Cause) (count : Nat) :
    Except Cause Nat :=
  match w.os count with
  | .done _ _ => return count + 1
  | .failed error => throw (cause error)

/-- An allocation of a C++ object. -/
def throwing (w : World) (count : Nat) : Except Cause Nat :=
  w.reply (fun _ => .thrown) count

/-- Why `__slice` fails. -/
def sliceCause (w : World) (addr size : Nat) : Except Cause Nat :=
  match w.cubes.find? (·.containsRange addr size) with
  | none => throw (.errno EADDRNOTAVAIL)
  | some cube =>
      if cube.pid ≠ w.pid then throw (.errno EACCES)
      else
        match cube.findRange addr size with
        | some _ => return 0
        | none => do
            let count ← w.reply .errno 0
            let count ← w.reply .pthread count
            w.reply (fun _ => .errno ENOMEM) count

/-- Why a number of calls of one kind fails. -/
def repliesCause (w : World) (cause : Errno → Cause) :
    Nat → Nat → Except Cause Nat
  | 0, count => return count
  | calls + 1, count => do
      let count ← w.reply cause count
      w.repliesCause cause calls count

/-- Why the slot of an index does not get to a case of its `oneof`: the slots
up to it are allocated, and the message of the case. -/
def reachCause (w : World) (request index : Nat) (isCase : Argument → Bool)
    (count : Nat) : Except Cause Nat :=
  match w.requests request with
  | none => throw .stuck
  | some grpc => do
      let count ← w.throwing count
      let count ← w.repliesCause (fun _ => .thrown)
        (index + 1 - grpc.arguments.length) count
      if grpc.arguments[index]?.any isCase then return count
      else w.throwing count

/-- Why `inaccel_request_arg_array` fails. -/
def argArrayCause (w : World) (request size value index : Nat) :
    Except Cause Nat :=
  if request = 0 ∨ size = 0 then throw (.errno EINVAL)
  else do
    let count ← w.sliceCause value size
    w.reachCause request index Argument.isArray count

/-- Why `inaccel_response_create` fails. -/
def createCause (w : World) : Except Cause Nat := do
  let count ← w.throwing 0
  let count ← w.reply .pthread count
  w.reply .pthread count

/-- Why `__attach` fails. -/
def attachCause (w : World) (ptr count : Nat) : Except Cause Nat :=
  match w.owner ptr with
  | none => throw .stuck
  | some pid =>
      if pid ≠ w.pid then throw (.errno EACCES)
      else w.reply .errno count

/-- Why the loop of `inaccel_submit` fails, over the slices of its arrays. -/
def argumentsCause (w : World) : List Nat → Nat → Except Cause Nat
  | [], count => return count
  | ptr :: ptrs, count => do
      let count ← w.attachCause ptr count
      let count ← w.throwing count
      w.argumentsCause ptrs count

/-- Why the critical section of `inaccel_submit` fails. -/
def queueCause (w : World) (count : Nat) : Except Cause Nat :=
  if w.cq then return count
  else do
    let count ← w.throwing count
    w.repliesCause .pthread w.threads count

/-- Why `inaccel_submit` fails. -/
def submitCause (w : World) (request response : Nat) : Except Cause Nat :=
  if request = 0 ∨ response = 0 then throw (.errno EINVAL)
  else do
    let count ← w.throwing 0
    match w.requests request with
    | none => throw .stuck
    | some grpc => do
        let count ← w.argumentsCause (arrayContexts grpc.arguments) count
        let count ← w.throwing count
        if (w.responses response).isSome then do
          let count ← w.throwing count
          let count ← w.queueCause count
          w.throwing count
        else throw .stuck

end World

/-- The replies before the one with this number are used up, and `errno` has
not changed. -/
structure World.Shifts (w : World) (count : Nat) (v : World) : Prop where
  os : ∀ index, v.os index = w.os (count + index)
  errno : v.errno = w.errno

theorem World.Shifts.refl (w : World) : w.Shifts 0 w :=
  ⟨fun index => congrArg w.os (Nat.zero_add index).symm, rfl⟩

/-- How a piece of code ends that succeeds in `fine` and fails with `failed`,
and `errno` with it. -/
inductive World.Meets {α : Type} (w : World) (fine : α → World → Prop)
    (failed : α → Prop) :
    Except Cause Nat → Except Stop α → World → Prop where
  | passes {value : α} {count : Nat} {v : World} (good : fine value v)
      (shifts : w.Shifts count v) : Meets w fine failed (.ok count) (.ok value) v
  | tells {value : α} {error : Errno} {v : World} (bad : failed value)
      (told : v.errno = error) :
      Meets w fine failed (.error (.errno error)) (.ok value) v
  | hides {value : α} {error : Errno} {v : World} (bad : failed value)
      (kept : v.errno = w.errno) :
      Meets w fine failed (.error (.pthread error)) (.ok value) v
  | throws {result : Except Stop α} {v : World} :
      Meets w fine failed (.error .thrown) result v
  | sticks {reason : Stop} {v : World} (other : reason ≠ .thrown) :
      Meets w fine failed (.error .stuck) (.error reason) v

/-- The code runs as this cause says. -/
def World.Reports {α : Type} (w : World) (cause : Except Cause Nat)
    (fine : α → World → Prop) (failed : α → Prop) (x : Prog α) (v : World) :
    Prop :=
  Ensures x (fun value => w.Meets fine failed cause (.ok value))
    (fun reason => w.Meets fine failed cause (.error reason)) v

namespace World

section Rules

variable {α β : Type} {w v : World} {count : Nat} {cause : Except Cause Nat}
variable {causes : Nat → Except Cause Nat}
variable {fine : α → World → Prop} {failed : α → Prop}
variable {fine' : β → World → Prop} {failed' : β → Prop}

theorem reports_thrown {x : Prog α} :
    w.Reports (.error .thrown) fine failed x v := by
  unfold Reports Ensures
  split
  · exact .throws
  · exact .throws

/-- The rule of sequencing: behind a failure the rest hands it on. -/
theorem Reports.bind {x : Prog α} {f : α → Prog β}
    (first : w.Reports cause fine failed x v)
    (rest : ∀ value count v', fine value v' → w.Shifts count v' →
      w.Reports (causes count) fine' failed' (f value) v')
    (fails : ∀ value v', failed value →
      Ensures (f value) (fun result v'' => failed' result ∧
        v''.errno = v'.errno) (fun _ _ => False) v') :
    w.Reports (cause >>= causes) fine' failed' (x >>= f) v := by
  refine ensures_bind.mpr (Ensures.mono first ?_ ?_)
  · intro value v' met
    cases met with
    | passes good shifts => exact rest value _ v' good shifts
    | tells bad told =>
        exact (fails value v' bad).mono
          (fun _ _ ended => .tells ended.1 (ended.2.trans told))
          fun _ _ => False.elim
    | hides bad kept =>
        exact (fails value v' bad).mono
          (fun _ _ ended => .hides ended.1 (ended.2.trans kept))
          fun _ _ => False.elim
    | throws => exact reports_thrown
  · intro reason v' met
    cases met with
    | throws => exact .throws
    | sticks other => exact .sticks other

/-- Sequencing where no more causes follow. -/
theorem Reports.andThen {x : Prog α} {f : α → Prog β}
    (first : w.Reports cause fine failed x v)
    (rest : ∀ value count v', fine value v' → w.Shifts count v' →
      w.Reports (.ok count) fine' failed' (f value) v')
    (fails : ∀ value v', failed value →
      Ensures (f value) (fun result v'' => failed' result ∧
        v''.errno = v'.errno) (fun _ _ => False) v') :
    w.Reports cause fine' failed' (x >>= f) v := by
  rw [← bind_pure cause]
  exact first.bind rest fails

theorem reports_step {x : Prog α} {f : α → Prog β} {value : α} {v' : World}
    (run : x v = .ok value v')
    (rest : w.Reports cause fine' failed' (f value) v') :
    w.Reports cause fine' failed' (x >>= f) v :=
  Ensures.step run rest

/-- A call of which the reply decides. -/
theorem reports_ask {f : Reply → Prog α} {kind : Errno → Cause}
    (shifts : w.Shifts count v)
    (answered : ∀ value name, w.Shifts (count + 1) v.asked →
      w.Reports (.ok (count + 1)) fine failed (f (.done value name)) v.asked)
    (refused : ∀ error, v.asked.errno = w.errno →
      w.Reports (.error (kind error)) fine failed (f (.failed error))
        v.asked) :
    w.Reports (w.reply kind count) fine failed (ask >>= f) v := by
  have here : v.os 0 = w.os count := shifts.os 0
  apply reports_step rfl
  unfold reply
  rw [here]
  cases w.os count with
  | done value name =>
      refine answered value name ⟨?_, shifts.errno⟩
      intro index
      have shifted : count + 1 + index = count + (index + 1) := by omega
      rw [shifted]
      exact shifts.os (index + 1)
  | failed error => exact refused error shifts.errno

/-- An exception is a failure without a number. -/
theorem Reports.caught {body : Prog α} {value : α}
    (reports : w.Reports cause fine failed body v) :
    w.Reports cause fine failed (catchThrown body value) v := by
  unfold Reports Ensures at *
  unfold catchThrown
  cases run : body v with
  | ok result v' =>
      rw [run] at reports
      exact reports
  | error reason v' =>
      rw [run] at reports
      cases reason with
      | thrown =>
          cases reports with
          | throws => exact .throws
          | sticks other => exact absurd rfl other
      | blocked => exact reports
      | asleep ptr => exact reports
      | dangling ptr => exact reports

end Rules

section Calls

variable {w v : World} {count : Nat} (shifts : w.Shifts count v)

include shifts

theorem mayThrow_reports :
    w.Reports (w.throwing count) (fun _ v' => v' = v.asked) (fun _ => False)
      mayThrow v := by
  have asks : mayThrow = (do
      match ← ask with
      | .done _ _ => return ()
      | .failed _ => throw .thrown) := by
    funext v
    simp only [mayThrow, bind, EStateM.bind, ask]
    cases v.os 0 with
    | done => rfl
    | failed => rfl
  rw [asks]
  apply reports_ask shifts
  · exact fun _ _ later => .passes rfl later
  · exact fun _ _ => .throws

/-- A reply that stands for an allocation of a C++ object. -/
theorem ask_reports :
    w.Reports (w.throwing count)
      (fun reply v' => reply.isDone = true ∧ v' = v.asked) (fun _ => False) ask
      v := by
  rw [← bind_pure ask]
  apply reports_ask shifts
  · exact fun _ _ later => .passes ⟨rfl, rfl⟩ later
  · exact fun _ _ => .throws

theorem alloc_reports :
    w.Reports (w.reply .errno count)
      (fun result v' => result ≠ none ∧ v'.held = v.held ∧
        v'.requests = v.requests) (· = none) Utils.alloc v := by
  unfold Utils.alloc
  apply reports_ask shifts
  · intro _ _ later
    exact .passes ⟨Option.some_ne_none _, rfl, rfl⟩ ⟨later.os, later.errno⟩
  · exact fun _ _ => .tells rfl rfl

theorem initCond_reports :
    w.Reports (w.reply .pthread count)
      (fun error v' => error = 0 ∧ v' = v.asked) (· ≠ 0) Utils.initCond v := by
  unfold Utils.initCond
  apply reports_ask shifts
  · exact fun _ _ later => .passes ⟨rfl, rfl⟩ later
  · exact fun error kept => .hides (Nat.ne_of_gt error.property) kept

theorem initMutex_reports {ptr : Nat} :
    w.Reports (w.reply .pthread count) (fun error _ => error = 0) (· ≠ 0)
      (Utils.initMutex ptr) v := by
  unfold Utils.initMutex
  apply reports_ask shifts
  · exact fun _ _ later => .passes rfl ⟨later.os, later.errno⟩
  · exact fun error kept => .hides (Nat.ne_of_gt error.property) kept

theorem protect_reports {P : PageSize} {addr size : Nat} :
    w.Reports (w.reply .errno count)
      (fun result v' => result = 0 ∧
        v' = v.asked.put (v.protectPages P addr size .read)) (· ≠ 0)
      (Utils.protect P addr size) v := by
  unfold Utils.protect Utils.mprotect
  apply reports_ask shifts
  · exact fun _ _ later => .passes ⟨rfl, rfl⟩ ⟨later.os, later.errno⟩
  · exact fun _ _ => .tells (by decide) rfl

theorem daemon_reports :
    w.Reports (w.reply .pthread count)
      (fun error v' => error = 0 ∧ v'.held = v.held ∧
        v'.requests = v.requests) (· ≠ 0) Utils.daemon v := by
  unfold Utils.daemon
  apply reports_ask shifts
  · exact fun _ _ later =>
      .passes ⟨rfl, rfl, rfl⟩ ⟨later.os, later.errno⟩
  · exact fun error kept => .hides (Nat.ne_of_gt error.property) kept

theorem setSlice_reports {cube : Nat} {slice : Slice} :
    w.Reports (w.reply (fun _ => .errno ENOMEM) count)
      (fun result v' => result = 0 ∧ v'.held = v.held ∧
        v'.requests = v.requests) (· ≠ 0)
      (Collection.setSlice cube slice) v := by
  unfold Collection.setSlice
  apply reports_ask shifts
  · exact fun _ _ later =>
      .passes ⟨rfl, rfl, rfl⟩ ⟨later.os, later.errno⟩
  · exact fun _ _ => .tells (by decide) rfl

end Calls

/-- Whatever is cleaned up, `errno` comes back. -/
theorem ensures_restored {α : Type} {x : Prog Unit} {value : α} {error : Nat}
    {v : World} (ends : Ensures x (fun _ _ => True) (fun _ _ => False) v) :
    Ensures (do
      x
      setErrno error
      return value) (fun result v' => result = value ∧ v'.errno = error)
      (fun _ _ => False) v :=
  ends.bind fun _ _ _ => ⟨rfl, rfl⟩

theorem free_ends {ptr : Nat} {v : World} :
    Ensures (Utils.free ptr) (fun _ _ => True) (fun _ _ => False) v :=
  (quiet_free ptr v).mono (fun _ _ _ => trivial) fun _ _ => id

theorem unlock_ends {mutex : Lock} {v : World} :
    Ensures (unlock mutex) (fun _ _ => True) (fun _ _ => False) v := by
  by_cases held : mutex ∈ v.held
  · exact (ensures_ok (unlock_run held)).mpr trivial
  · have run : unlock mutex v = .ok () { v with misuse := true } :=
      if_neg held
    exact (ensures_ok run).mpr trivial

theorem slice_reports {P : PageSize} {addr size : Nat} {w : World}
    (free : w.held = []) :
    w.Reports (w.sliceCause addr size)
      (fun result v => result ≠ none ∧ v.requests = w.requests) (· = none)
      (slice P addr size) w := by
  unfold slice sliceCause
  apply ensures_scan free
  · intro missed
    rw [missed]
    apply Ensures.step (unlock_run (by simp))
    exact .tells rfl rfl
  · intro cube found
    rw [found]
    apply ensures_handOver
    apply Ensures.step rfl
    by_cases foreign : cube.pid ≠ w.pid
    · simp only [if_pos foreign]
      refine (if_pos foreign).symm ▸ ?_
      apply Ensures.step (unlock_run (by simp))
      exact .tells rfl rfl
    · simp only [if_neg foreign]
      refine (if_neg foreign).symm ▸ ?_
      have shifts : w.Shifts 0 (w.holding [.cube cube.ptr]) :=
        ⟨(World.Shifts.refl w).os, rfl⟩
      cases known : cube.findRange addr size with
      | some slice =>
          apply Ensures.step (unlock_run (by simp))
          exact .passes ⟨Option.some_ne_none _, rfl⟩ ⟨shifts.os, shifts.errno⟩
      | none =>
          apply (alloc_reports shifts).bind
          · rintro result count v ⟨present, held, requests⟩ shifts
            obtain ⟨ptr, rfl⟩ := Option.ne_none_iff_exists'.mp present
            apply (initCond_reports shifts).bind
            · rintro error count v' ⟨rfl, rfl⟩ shifts
              simp only [ne_eq, not_true_eq_false, if_false]
              apply (setSlice_reports shifts).andThen
              · rintro result count v' ⟨rfl, held', requests'⟩ shifts
                have held : .cube cube.ptr ∈ v'.held := by
                  rw [held', World.asked_held, held]
                  exact List.mem_singleton_self _
                apply Ensures.step (unlock_run held)
                refine .passes ⟨Option.some_ne_none _, ?_⟩
                  ⟨shifts.os, shifts.errno⟩
                exact requests'.trans requests
              · intro result v' failed
                refine (if_pos failed).symm ▸ Ensures.step rfl ?_
                exact unlock_ends.bind fun _ _ _ => ensures_restored free_ends
            · intro error v' failed
              refine (if_pos failed).symm ▸ Ensures.step rfl ?_
              exact ensures_restored free_ends
          · rintro result v rfl
            exact ⟨rfl, rfl⟩

theorem addArguments_reports {w v : World} {request turns count : Nat}
    {grpc : Request} (found : v.requests request = some grpc)
    (shifts : w.Shifts count v) :
    w.Reports (w.repliesCause (fun _ => .thrown) turns count)
      (fun _ v' => v'.requests request = some
        { grpc with
          arguments := grpc.arguments ++ List.replicate turns .empty })
      (fun _ => False) (addArguments request turns) v := by
  induction turns generalizing count grpc v with
  | zero =>
      refine .passes (found.trans ?_) shifts
      rw [List.replicate_zero, List.append_nil]
  | succ turns induction =>
      unfold addArguments
      apply (mayThrow_reports shifts).bind
      · rintro _ count v' rfl shifts
        refine @reports_step _ _ _ _ _ _ _ _ _ grpc v.asked ?_
          (reports_step rfl ?_)
        · simp only [derefRequest, World.asked_toProcess, found]
        · let longer : Request :=
            { grpc with arguments := grpc.arguments ++ [.empty] }
          have here : (v.asked.put (v.setRequest request longer)).requests
              request = some longer := Function.update_self _ _ _
          have grown := induction here ⟨shifts.os, shifts.errno⟩
          dsimp only [longer] at grown
          rwa [List.append_assoc, List.singleton_append,
            ← List.replicate_succ] at grown
      · exact fun _ _ => False.elim

theorem modifyArgument_reports {w v : World} {request index count : Nat}
    {grpc : Request} {update : Argument → Argument}
    (found : v.requests request = some grpc) (shifts : w.Shifts count v) :
    w.Reports (.ok count) (fun _ v' => ∃ grpc, v'.requests request = some grpc)
      (fun _ => False) (modifyArgument request index update) v := by
  refine @reports_step _ _ _ _ _ _ _ _ _ grpc v ?_ ?_
  · simp only [derefRequest, found]
  · exact .passes ⟨_, Function.update_self _ _ _⟩ ⟨shifts.os, shifts.errno⟩

theorem switchArgument_reports {w v : World} {request index count : Nat}
    {grpc : Request} {isCase : Argument → Bool} {blank : Argument}
    (found : v.requests request = some grpc) (shifts : w.Shifts count v) :
    w.Reports
      (if grpc.arguments[index]?.any isCase then .ok count
        else w.throwing count)
      (fun _ v' => ∃ grpc, v'.requests request = some grpc) (fun _ => False)
      (switchArgument request index isCase blank) v := by
  unfold switchArgument
  refine @reports_step _ _ _ _ _ _ _ _ _ grpc v ?_ ?_
  · simp only [derefRequest, found]
  · split
    · exact .passes ⟨_, found⟩ shifts
    · let emptied := v.put (v.setRequest request { grpc with
        arguments := grpc.arguments.modify index fun _ => .empty })
      have shifts : w.Shifts count emptied := ⟨shifts.os, shifts.errno⟩
      refine @reports_step _ _ _ _ _ _ _ _ _ () emptied ?_ ?_
      · simp only [modifyArgument, bind, EStateM.bind, derefRequest, found]
        rfl
      · apply (mayThrow_reports shifts).andThen
        · rintro _ count v' rfl shifts
          exact modifyArgument_reports (Function.update_self _ _ _) shifts
        · exact fun _ _ => False.elim

theorem reachArgument_reports {w v : World} {request index count : Nat}
    {isCase : Argument → Bool} {blank : Argument}
    (empty : isCase .empty = false)
    (requests : v.requests = w.requests) (shifts : w.Shifts count v) :
    w.Reports (w.reachCause request index isCase count)
      (fun _ v' => ∃ grpc, v'.requests request = some grpc) (fun _ => False)
      (reachArgument request index isCase blank) v := by
  unfold reachArgument reachCause
  rw [← requests]
  apply ensures_derefRequest
  · intro lost
    rw [lost]
    exact .sticks (by simp)
  · intro grpc found
    rw [found]
    apply (mayThrow_reports shifts).bind
    · rintro _ count v' rfl shifts
      have found : v.asked.requests request = some grpc := found
      apply (addArguments_reports found shifts).bind
      · intro _ count v' grown shifts
        have same : (grpc.arguments ++ List.replicate
            (index + 1 - grpc.arguments.length) .empty)[index]?.any isCase =
              grpc.arguments[index]?.any isCase := by
          rw [Slots.getElem?_append_replicate (by omega)]
          cases grpc.arguments[index]? with
          | none => exact empty
          | some argument => rfl
        rw [← same]
        exact switchArgument_reports grown shifts
      · exact fun _ _ => False.elim
    · exact fun _ _ => False.elim

theorem argArray_reports {P : PageSize} {request size value index : Nat}
    {w : World} (free : w.held = []) :
    w.Reports (w.argArrayCause request size value index)
      (fun result _ => result = 0) (· = -1)
      (inaccelRequestArgArray P request size value index) w := by
  unfold inaccelRequestArgArray argArrayCause
  split
  · exact Ensures.step rfl (.tells rfl rfl)
  · apply (slice_reports free).bind
    · rintro result count v ⟨present, requests⟩ shifts
      obtain ⟨slice, rfl⟩ := Option.ne_none_iff_exists'.mp present
      apply Reports.caught
      apply (reachArgument_reports rfl requests shifts).andThen
      · rintro _ count v' ⟨grpc, found⟩ shifts
        apply (modifyArgument_reports found shifts).andThen
        · exact fun _ count v'' _ shifts => .passes rfl shifts
        · exact fun _ _ => False.elim
      · exact fun _ _ => False.elim
    · rintro result v rfl
      exact ⟨rfl, rfl⟩

theorem create_reports {w : World} :
    w.Reports w.createCause (fun result _ => result ≠ none) (· = none)
      inaccelResponseCreate w := by
  unfold inaccelResponseCreate createCause
  apply (ask_reports (.refl w)).bind
  · rintro reply count v ⟨done, rfl⟩ shifts
    cases reply with
    | failed error => cases done
    | done value name =>
        refine reports_step rfl ?_
        apply (initCond_reports shifts).bind
        · rintro error count v ⟨rfl, rfl⟩ shifts
          apply (initMutex_reports shifts).andThen
          · rintro error count v rfl shifts
            refine reports_step rfl ?_
            exact .passes (Option.some_ne_none _) ⟨shifts.os, shifts.errno⟩
          · exact fun error v failed => (if_pos failed).symm ▸ ⟨rfl, rfl⟩
        · exact fun error v failed => (if_pos failed).symm ▸ ⟨rfl, rfl⟩
  · exact fun _ _ => False.elim

/-- Nothing that a cause reads has changed, besides the replies. -/
structure Resembles (w v : World) : Prop where
  held : v.held = w.held
  pid : v.pid = w.pid
  cq : v.cq = w.cq
  threads : v.threads = w.threads
  owner : ∀ ptr, v.owner ptr = w.owner ptr
  requests : ∀ ptr, v.requests ptr = none ↔ w.requests ptr = none
  responses : ∀ ptr, v.responses ptr = none ↔ w.responses ptr = none

namespace Resembles

variable {w v v' : World}

theorem refl (w : World) : w.Resembles w :=
  ⟨rfl, rfl, rfl, rfl, fun _ => rfl, fun _ => .rfl, fun _ => .rfl⟩

theorem trans (first : w.Resembles v) (second : v.Resembles v') :
    w.Resembles v' where
  held := second.held.trans first.held
  pid := second.pid.trans first.pid
  cq := second.cq.trans first.cq
  threads := second.threads.trans first.threads
  owner := fun ptr => (second.owner ptr).trans (first.owner ptr)
  requests := fun ptr => (second.requests ptr).trans (first.requests ptr)
  responses := fun ptr => (second.responses ptr).trans (first.responses ptr)

theorem asked (same : w.Resembles v) : w.Resembles v.asked :=
  ⟨same.held, same.pid, same.cq, same.threads, same.owner, same.requests,
    same.responses⟩

/-- Another description of a request that is there. -/
theorem described {request : Nat} {grpc grpc' : Request}
    (same : w.Resembles v) (found : v.requests request = some grpc) :
    w.Resembles (v.put (v.setRequest request grpc')) := by
  refine ⟨same.held, same.pid, same.cq, same.threads, same.owner, ?_,
    same.responses⟩
  intro ptr
  rw [← same.requests ptr]
  by_cases here : ptr = request
  · simp [Process.setRequest, here, found]
  · simp [Process.setRequest, here]

theorem stamped {request response : Nat} {grpc : Request} {r : Response}
    (same : w.Resembles v) (found : v.requests request = some grpc)
    (found' : v.responses response = some r) :
    w.Resembles (v.put (v.stamped request response grpc r)) := by
  refine ⟨same.held, same.pid, same.cq, same.threads, same.owner,
    (same.described found).requests, ?_⟩
  intro ptr
  rw [← same.responses ptr]
  by_cases here : ptr = response
  · simp [Process.stamped, Process.setRequest, Process.setResponse, here,
      found']
  · simp [Process.stamped, Process.setRequest, Process.setResponse, here]

end Resembles

theorem attach_reports {P : PageSize} {w v : World} {ptr count : Nat}
    (free : w.held = []) (same : w.Resembles v) (shifts : w.Shifts count v) :
    w.Reports (w.attachCause ptr count)
      (fun result v' => result = 0 ∧ w.owner ptr ≠ none ∧ w.Resembles v')
      (· ≠ 0) (attach P ptr) v := by
  have owner := same.owner ptr
  unfold attach attachCause
  apply ensures_derefSlice
  · intro missed
    have lost : w.owner ptr = none := by
      rw [← owner, Process.owner, missed]
      rfl
    rw [lost]
    exact .sticks (by simp)
  · intro cube slice found
    have owned : w.owner ptr = some cube.pid := by
      rw [← owner, Process.owner, found]
      rfl
    simp only [owned]
    apply Ensures.step rfl
    have pid := same.pid
    by_cases foreign : cube.pid ≠ w.pid
    · have foreign' : cube.pid ≠ v.pid := pid.symm ▸ foreign
      rw [if_pos foreign]
      refine (if_pos foreign').symm ▸ ?_
      exact Ensures.step rfl (.tells (by decide) rfl)
    · have own : ¬cube.pid ≠ v.pid := pid.symm ▸ foreign
      rw [if_neg foreign]
      refine (if_neg own).symm ▸ ?_
      have held : v.held = [] := same.held.trans free
      apply Ensures.step (lock_run (by simp [held]))
      have shifts : w.Shifts count (v.holding (.cube cube.ptr :: v.held)) :=
        ⟨shifts.os, shifts.errno⟩
      apply (protect_reports shifts).andThen
      · rintro result count v' ⟨rfl, rfl⟩ shifts
        apply Ensures.step rfl
        apply Ensures.step (unlock_run (by simp))
        refine .passes ⟨rfl, by simp, same.trans ?_⟩
          ⟨shifts.os, shifts.errno⟩
        exact ⟨by simp, rfl, rfl, rfl, fun other => owner_link _,
          fun _ => .rfl, fun _ => .rfl⟩
      · intro result v' failed
        refine (if_pos failed).symm ▸ Ensures.step rfl ?_
        exact (ensures_restored unlock_ends).mono
          (fun _ _ ended => ⟨ended.1 ▸ by decide, ended.2⟩) fun _ _ => id

theorem arguments_reports {P : PageSize} {w v : World}
    {request index count : Nat} {arguments : List Argument}
    (free : w.held = []) (present : w.requests request ≠ none)
    (same : w.Resembles v) (shifts : w.Shifts count v) :
    w.Reports (w.argumentsCause (arrayContexts arguments) count)
      (fun result v' => result = true ∧ w.Resembles v') (· = false)
      (attachArguments P request index arguments) v := by
  induction arguments generalizing index count v with
  | nil => exact .passes ⟨rfl, same⟩ shifts
  | cons argument arguments induction =>
      cases argument with
      | empty => exact induction same shifts
      | scalar bytes => exact induction same shifts
      | array array =>
          unfold attachArguments
          apply (attach_reports free same shifts).bind
          · rintro result count v ⟨rfl, owned, same⟩ shifts
            apply (mayThrow_reports shifts).bind
            · rintro _ count v' rfl shifts
              rw [← same.owner] at owned
              obtain ⟨⟨cube, slice⟩, found⟩ := Option.ne_none_iff_exists'.mp
                (mt Process.owner_eq_none.mpr owned)
              apply Ensures.step (derefSlice_run (w := v.asked) found)
              apply ensures_derefRequest
              · exact fun lost => absurd ((same.requests request).mp lost)
                  present
              · intro grpc found'
                apply Ensures.step rfl
                exact induction (same.asked.described found')
                  ⟨shifts.os, shifts.errno⟩
            · exact fun _ _ => False.elim
          · intro result v' failed
            exact (if_pos failed).symm ▸ ⟨rfl, rfl⟩

theorem startWaiters_reports {w v : World} {threads count : Nat}
    (shifts : w.Shifts count v) :
    w.Reports (w.repliesCause .pthread threads count)
      (fun error v' => error = 0 ∧ v'.held = v.held ∧
        v'.requests = v.requests) (· ≠ 0)
      (startWaiters threads) v := by
  induction threads generalizing count v with
  | zero => exact .passes ⟨rfl, rfl, rfl⟩ shifts
  | succ threads induction =>
      unfold startWaiters
      apply (daemon_reports shifts).bind
      · rintro error count v' ⟨rfl, held, requests⟩ shifts
        rw [← held, ← requests]
        exact induction shifts
      · intro error v' failed
        exact (if_pos failed).symm ▸ ⟨failed, rfl⟩

theorem openQueue_reports {w v : World} {count : Nat}
    (threads : v.threads = w.threads) (shifts : w.Shifts count v) :
    w.Reports (do
        let count ← w.throwing count
        w.repliesCause .pthread w.threads count)
      (fun error v' => error = 0 ∧ v'.held = v.held ∧
        v'.requests = v.requests) (· ≠ 0) openQueue v := by
  rw [openQueue_eq, ← threads]
  apply (mayThrow_reports shifts).bind
  · rintro _ count v' rfl shifts
    refine reports_step rfl (reports_step rfl ?_)
    exact startWaiters_reports ⟨shifts.os, shifts.errno⟩
  · exact fun _ _ => False.elim

theorem queue_reports {w v : World} {count : Nat} (free : w.held = [])
    (same : w.Resembles v) (shifts : w.Shifts count v) :
    w.Reports (w.queueCause count)
      (fun result v' => result = true ∧ v'.requests = v.requests) (· = false)
      submitQueue v := by
  unfold submitQueue queueCause
  have held : v.held = [] := same.held.trans free
  apply Ensures.step (lock_run (by simp [held]))
  apply Ensures.step rfl
  by_cases opened : w.cq = true
  · have opened' : v.cq = true := same.cq.trans opened
    rw [if_pos opened]
    refine (if_pos opened').symm ▸ ?_
    apply Ensures.step (unlock_run (by simp))
    exact .passes ⟨rfl, rfl⟩ ⟨shifts.os, shifts.errno⟩
  · have closed : ¬v.cq = true := same.cq.symm ▸ opened
    rw [if_neg opened]
    refine (if_neg closed).symm ▸ ?_
    let locked := v.holding (.queue :: v.held)
    have threads : locked.threads = w.threads := same.threads
    have shifts : w.Shifts count locked := ⟨shifts.os, shifts.errno⟩
    apply (openQueue_reports threads shifts).andThen
    · rintro error count v' ⟨rfl, held, requests⟩ shifts
      apply Ensures.step (unlock_run (by simp [held, locked]))
      exact .passes ⟨rfl, requests⟩ ⟨shifts.os, shifts.errno⟩
    · intro error v' failed
      refine (if_pos failed).symm ▸ Ensures.step rfl ?_
      exact ensures_restored unlock_ends

/-- What `inaccel_submit` does behind the metadata. -/
theorem handOver_reports {w v : World} {request response count : Nat}
    (free : w.held = []) (present : w.requests request ≠ none)
    (same : w.Resembles v) (shifts : w.Shifts count v) :
    w.Reports (do
        let count ← w.queueCause count
        w.throwing count)
      (fun result _ => result = (0 : Int)) (· = -1) (do
        if ← submitQueue then do
          handOver request response
          return 0
        else return -1) v := by
  apply (queue_reports free same shifts).bind
  · rintro result count v' ⟨rfl, requests⟩ shifts
    simp only [if_true, handOver, bind_assoc]
    apply (mayThrow_reports shifts).andThen
    · rintro _ count v'' rfl shifts
      apply ensures_derefRequest
      · intro lost
        have lost : v.requests request = none :=
          (congrFun requests request).symm.trans lost
        exact absurd ((same.requests request).mp lost) present
      · intro grpc found
        exact Ensures.step rfl (.passes rfl ⟨shifts.os, shifts.errno⟩)
    · exact fun _ _ => False.elim
  · rintro result v' rfl
    exact ⟨rfl, rfl⟩

theorem submitAttached_reports {w v : World} {request response count : Nat}
    (free : w.held = []) (present : w.requests request ≠ none)
    (same : w.Resembles v) (shifts : w.Shifts count v) :
    w.Reports (do
        let count ← w.throwing count
        if (w.responses response).isSome then do
          let count ← w.throwing count
          let count ← w.queueCause count
          w.throwing count
        else throw .stuck)
      (fun result _ => result = 0) (· = -1) (submitAttached request response)
      v := by
  have found : v.requests request ≠ none :=
    mt (same.requests request).mp present
  obtain ⟨grpc, found⟩ := Option.ne_none_iff_exists'.mp found
  unfold submitAttached stampRequest
  simp only [bind_assoc]
  apply (mayThrow_reports shifts).bind
  · rintro _ count v' rfl shifts
    refine reports_step (by
      simp only [derefRequest, World.asked_toProcess, found]
      rfl) ?_
    apply ensures_derefResponse
    · rintro lost reason v' ⟨rfl, rfl, -⟩
      have lost : w.responses response = none :=
        (same.responses response).mp lost
      simp only [lost]
      exact .sticks (by simp)
    · intro r found'
      have there : (w.responses response).isSome = true := by
        rw [Option.isSome_iff_ne_none]
        intro lost
        cases found'.symm.trans ((same.responses response).mpr lost)
      rw [if_pos there]
      refine reports_step rfl ?_
      have shifts : w.Shifts count (v.asked.put (v.asked.setResponse response
        { r with request := grpc })) := ⟨shifts.os, shifts.errno⟩
      apply (mayThrow_reports shifts).bind
      · rintro _ count v' rfl shifts
        refine reports_step rfl ?_
        exact handOver_reports free present
          (same.asked.asked.stamped found found') ⟨shifts.os, shifts.errno⟩
      · exact fun _ _ => False.elim
  · exact fun _ _ => False.elim

theorem submit_reports {P : PageSize} {w : World} {request response : Nat}
    (free : w.held = []) :
    w.Reports (w.submitCause request response) (fun result _ => result = 0)
      (· = -1) (inaccelSubmit P request response) w := by
  unfold inaccelSubmit submitCause
  split
  · exact Ensures.step rfl (.tells rfl rfl)
  · apply Reports.caught
    apply (mayThrow_reports (.refl w)).bind
    · rintro _ count v rfl shifts
      apply ensures_derefRequest
      · intro lost
        have lost : w.requests request = none := lost
        simp only [lost]
        exact .sticks (by simp)
      · intro grpc found
        have found : w.requests request = some grpc := found
        simp only [found]
        have same : w.Resembles w.asked := (Resembles.refl w).asked
        apply (arguments_reports free (by simp [found]) same shifts).bind
        · rintro result count v ⟨rfl, same⟩ shifts
          exact submitAttached_reports free (by simp [found]) same shifts
        · rintro result v rfl
          exact ⟨rfl, rfl⟩
    · exact fun _ _ => False.elim

end World

/-- What a wait finds when it takes the mutex, and when it reads the status
later.  No code of a status is negative. -/
structure Glance (response : Nat) where
  process : Process
  later : Process
  codes : ∀ r, later.responses response = some r → 0 ≤ r.status.code

/-- A wait wakes up, and `__wait` or `__timedwait` replies. -/
structure Wake (response : Nat) extends Glance response where
  error : Option Errno

/-- A call that may report a failure, with all that it meets but `errno`. -/
inductive Reporter where
  | argArray (p : Process) (os : Nat → Reply) (request size value index : Nat)
  | create (p : Process) (os : Nat → Reply)
  /-- `inaccel_response_wait` and, past its clock,
  `inaccel_response_wait_for` -/
  | wait (response : Nat) (first : Glance response)
      (wakes : List (Wake response))
  | submit (p : Process) (os : Nat → Reply) (request response : Nat)

/-- `errno` behind a call, when the call reports a failure. -/
def failure {α : Type} (failed : α → Prop) [DecidablePred failed] (x : Prog α)
    (w : World) : Option Nat :=
  match x w with
  | .ok value w' => if failed value then some w'.errno else none
  | .error _ _ => none

/-- A thread of the process goes on with this `errno`, in a section that asks
for no reply. -/
def Process.resume (p : Process) (errno : Nat) : World :=
  p.enter errno fun _ => .failed EPERM

section Waits

variable {response : Nat}

/-- `return response->status.error_code()` -/
def Glance.failure (glance : Glance response) (errno : Nat) : Option Nat :=
  CoralApi.failure (· = -1) (waitStatus response) (glance.later.resume errno)

/-- The loop of the waits from a sleep on. -/
def wakesFailure : List (Wake response) → Nat → Option Nat
  | [], _ => none
  | wake :: wakes, errno =>
      match waitWoken response wake.error (wake.process.resume errno) with
      | .ok true w => wake.failure w.errno
      -- the wait returns -1
      | .ok false w => some w.errno
      | .error (.asleep _) w => wakesFailure wakes w.errno
      | .error _ _ => none

/-- A wait, up to its return or to its last wake-up. -/
def waitFailure (first : Glance response) (wakes : List (Wake response))
    (errno : Nat) : Option Nat :=
  if response = 0 then
    failure (· = -1) (inaccelResponseWait response)
      (first.process.resume errno)
  else
    match waitSection response (first.process.resume errno) with
    | .ok () w => first.failure w.errno
    | .error (.asleep _) w => wakesFailure wakes w.errno
    | .error _ _ => none

/-- Why a wait fails from a sleep on. -/
def wakesCause : List (Wake response) → Except Cause Nat
  | [] => return 0
  | wake :: wakes =>
      match wake.process.responses response with
      | none => throw .stuck
      | some r =>
          match wake.error with
          | some error => throw (.pthread error)
          | none => if r.cancelled || r.done then return 0 else wakesCause wakes

/-- Why a wait fails. -/
def waitCause (first : Glance response) (wakes : List (Wake response)) :
    Except Cause Nat :=
  if response = 0 then throw (.errno EINVAL)
  else
    match first.process.responses response with
    | none => throw .stuck
    | some r => if r.cancelled || r.done then return 0 else wakesCause wakes

end Waits

namespace Reporter

/-- `errno` behind the call, when it reports a failure. -/
def failure (P : PageSize) : Reporter → Nat → Option Nat
  | argArray p os request size value index, errno =>
      CoralApi.failure (· = -1)
        (inaccelRequestArgArray P request size value index) (p.enter errno os)
  | create p os, errno =>
      CoralApi.failure (· = none) inaccelResponseCreate (p.enter errno os)
  | wait _ first wakes, errno => waitFailure first wakes errno
  | submit p os request response, errno =>
      CoralApi.failure (· = -1) (inaccelSubmit P request response)
        (p.enter errno os)

/-- Why the call fails. -/
def cause : Reporter → Except Cause Nat
  | argArray p os request size value index =>
      (p.enter 0 os).argArrayCause request size value index
  | create p os => (p.enter 0 os).createCause
  | wait _ first wakes => waitCause first wakes
  | submit p os request response => (p.enter 0 os).submitCause request response

/-- Whatever `errno` was before the call, a failure leaves the number of its
cause there. -/
def Tells (P : PageSize) (call : Reporter) : Prop :=
  ∀ errno left, call.failure P errno = some left →
    call.cause = .error .thrown ∨
      ∃ error : Errno, left = error ∧
        (call.cause = .error (.errno error) ∨
          call.cause = .error (.pthread error))

end Reporter

/-- What a cause makes of `errno`. -/
def Cause.Explains (cause : Except Cause Nat) (errno : Nat)
    (failure : Option Nat) : Prop :=
  match cause with
  | .ok _ => failure = none
  | .error (.errno error) => failure = some error.val
  | .error (.pthread _) => failure = some errno
  | .error .thrown => True
  | .error .stuck => failure = none

theorem World.Reports.explains {α : Type} {fine : α → World → Prop}
    {failed : α → Prop} [DecidablePred failed] {x : Prog α} {w : World}
    {cause : Except Cause Nat} (reports : w.Reports cause fine failed x w)
    (apart : ∀ value v, fine value v → ¬failed value) :
    Cause.Explains cause w.errno (failure failed x w) := by
  unfold Reports Ensures at reports
  unfold failure
  cases run : x w with
  | ok value v =>
      rw [run] at reports
      cases reports with
      | passes good shifts => exact if_neg (apart value v good)
      | tells bad told => exact (if_pos bad).trans (congrArg some told)
      | hides bad kept => exact (if_pos bad).trans (congrArg some kept)
      | throws => trivial
  | error reason v =>
      rw [run] at reports
      cases reports with
      | throws => trivial
      | sticks other => rfl

section Waits

variable {response : Nat} {w : World}

/-- The only lock is given back. -/
theorem unlock_holding {mutex : Lock} (free : w.held = []) :
    unlock mutex (w.holding [mutex]) = .ok () w := by
  rw [unlock_run (by simp)]
  simp [World.holding_same free]

theorem waitLoop_run {r : Response} (free : w.held = [])
    (found : w.responses response = some r) :
    waitLoop response (w.holding [.response response]) =
      if r.cancelled || r.done then .ok () w
      else .error (.asleep response) w := by
  have here : (w.holding [.response response]).responses response = some r :=
    found
  simp only [waitLoop, bind, EStateM.bind, derefResponse_run here]
  split
  · exact unlock_holding free
  · simp only [sleepOn, bind, EStateM.bind, unlock_holding free]
    rfl

theorem waitSection_run (free : w.held = []) :
    waitSection response w =
      match w.responses response with
      | none => .error (.dangling response) w
      | some r =>
          if r.cancelled || r.done then .ok () w
          else .error (.asleep response) w := by
  simp only [waitSection, bind, EStateM.bind]
  cases found : w.responses response with
  | none => simp only [derefResponse, found]
  | some r =>
      simp only [derefResponse_run found]
      rw [lock_run (by simp [free]), free]
      exact waitLoop_run free found

theorem waitWoken_run {error : Option Errno} (free : w.held = []) :
    waitWoken response error w =
      match w.responses response with
      | none => .error (.dangling response) w
      | some r =>
          match error with
          | some _ => .ok false w
          | none =>
              if r.cancelled || r.done then .ok true w
              else .error (.asleep response) w := by
  simp only [waitWoken, bind, EStateM.bind]
  cases found : w.responses response with
  | none => simp only [derefResponse, found]
  | some r =>
      simp only [derefResponse_run found]
      rw [lock_run (by simp [free]), free]
      cases error with
      | none =>
          simp only [EStateM.bind, waitLoop_run free found]
          cases r.cancelled || r.done with
          | true => rfl
          | false => rfl
      | some error =>
          simp only [EStateM.bind, getErrno, unlock_holding free]
          rfl

/-- A status never passes for a failure. -/
theorem Glance.failure_eq (glance : Glance response) (errno : Nat) :
    glance.failure errno = none := by
  unfold Glance.failure CoralApi.failure
  cases run : waitStatus response (glance.later.resume errno) with
  | error reason w => rfl
  | ok code w =>
      obtain ⟨-, r, found, rfl⟩ := waitStatus_spec.of_ok run
      have positive := glance.codes r found
      exact if_neg (by omega)

theorem wakes_explained (wakes : List (Wake response)) (errno : Nat) :
    Cause.Explains (wakesCause wakes) errno (wakesFailure wakes errno) := by
  induction wakes with
  | nil => rfl
  | cons wake wakes induction =>
      unfold wakesFailure wakesCause
      rw [waitWoken_run rfl]
      cases found : wake.process.responses response with
      | none =>
          have lost : (wake.process.resume errno).responses response = none :=
            found
          rw [lost]
          rfl
      | some r =>
          have there : (wake.process.resume errno).responses response =
              some r := found
          rw [there]
          cases wake.error with
          | some error => rfl
          | none =>
              by_cases ended : (r.cancelled || r.done) = true
              · simp only [if_pos ended]
                exact wake.failure_eq errno
              · simp only [if_neg ended]
                exact induction

theorem wait_explained (first : Glance response) (wakes : List (Wake response))
    (errno : Nat) :
    Cause.Explains (waitCause first wakes) errno
      (waitFailure first wakes errno) := by
  unfold waitFailure waitCause
  split
  · rename_i null
    simp only [failure, inaccelResponseWait, if_pos null]
    rfl
  · rw [waitSection_run rfl]
    cases found : first.process.responses response with
    | none =>
        have lost : (first.process.resume errno).responses response = none :=
          found
        rw [lost]
        rfl
    | some r =>
        have there : (first.process.resume errno).responses response =
            some r := found
        rw [there]
        by_cases ended : (r.cancelled || r.done) = true
        · simp only [if_pos ended]
          exact first.failure_eq errno
        · simp only [if_neg ended]
          exact wakes_explained wakes errno

end Waits

section Blind

variable {p : Process} {os : Nat → Reply} {errno : Nat}

theorem argumentsCause_enter (ptrs : List Nat) (count : Nat) :
    (p.enter errno os).argumentsCause ptrs count =
      (p.enter 0 os).argumentsCause ptrs count := by
  induction ptrs generalizing count with
  | nil => rfl
  | cons ptr ptrs induction =>
      unfold World.argumentsCause
      simp only [induction]
      rfl

theorem repliesCause_enter (cause : Errno → Cause) (calls count : Nat) :
    (p.enter errno os).repliesCause cause calls count =
      (p.enter 0 os).repliesCause cause calls count := by
  induction calls generalizing count with
  | zero => rfl
  | succ calls induction =>
      unfold World.repliesCause
      simp only [induction]
      rfl

/-- A cause does not depend on `errno`. -/
theorem argArrayCause_enter (request size value index : Nat) :
    (p.enter errno os).argArrayCause request size value index =
      (p.enter 0 os).argArrayCause request size value index := by
  unfold World.argArrayCause World.reachCause
  simp only [repliesCause_enter]
  rfl

theorem submitCause_enter (request response : Nat) :
    (p.enter errno os).submitCause request response =
      (p.enter 0 os).submitCause request response := by
  unfold World.submitCause World.queueCause
  simp only [argumentsCause_enter, repliesCause_enter]
  rfl

end Blind

/-- The cause of a call says what its failure leaves in `errno`. -/
theorem Reporter.explained (P : PageSize) (call : Reporter) (errno : Nat) :
    Cause.Explains call.cause errno (call.failure P errno) := by
  cases call with
  | argArray p os request size value index =>
      have reports := @World.argArray_reports P request size value index
        (p.enter errno os) rfl
      rw [argArrayCause_enter] at reports
      exact reports.explains fun value _ fine failed => by
        rw [fine] at failed
        cases failed
  | create p os =>
      have reports := @World.create_reports (p.enter errno os)
      exact reports.explains fun _ _ fine failed => fine failed
  | wait response first wakes => exact wait_explained first wakes errno
  | submit p os request response =>
      have reports := @World.submit_reports P (p.enter errno os) request
        response rfl
      rw [submitCause_enter] at reports
      exact reports.explains fun value _ fine failed => by
        rw [fine] at failed
        cases failed

/-- The functions of pthread are the ones whose numbers get lost. -/
theorem Reporter.tells_iff (P : PageSize) (call : Reporter) :
    call.Tells P ↔ ∀ error, call.cause ≠ .error (.pthread error) := by
  have explained := call.explained P
  constructor
  · intro tells error failed
    -- another number from before the call stays
    have kept := explained (error + 1)
    rw [failed] at kept
    obtain thrown | ⟨number, left, told⟩ := tells _ _ kept
    · cases failed.symm.trans thrown
    · rcases told with told | told
      · cases failed.symm.trans told
      · cases failed.symm.trans told
        omega
  · intro kind errno left failed
    have ends := explained errno
    rw [failed] at ends
    cases cause : call.cause with
    | ok count =>
        rw [cause] at ends
        cases ends
    | error cause' =>
        rw [cause] at ends
        cases cause' with
        | errno error => exact .inr ⟨error, Option.some.inj ends, .inl rfl⟩
        | pthread error => exact absurd cause (kind error)
        | thrown => exact .inl rfl
        | stuck => cases ends

/-- A wait for a response at work runs into its time limit. -/
def Reporter.late : Reporter :=
  .wait 1 ⟨(Process.loaded 1 "d").withResponse 1, .loaded 1 "d", nofun⟩
    [⟨⟨(Process.loaded 1 "d").withResponse 1, .loaded 1 "d", nofun⟩,
      some ETIMEDOUT⟩]

theorem Reporter.not_tells :
    ¬∀ (P : PageSize) (call : Reporter), call.Tells P := by
  intro claim
  have stale : Reporter.late.failure .small 0 = some 0 := by decide
  obtain thrown | ⟨error, zero, -⟩ := claim .small .late 0 0 stale
  · exact absurd thrown (by decide)
  · exact absurd zero (Nat.ne_of_lt error.property)

end CoralApi
