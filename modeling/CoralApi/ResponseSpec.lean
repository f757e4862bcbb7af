import CoralApi.SubmitSpec

/-!
# What the functions on a response do

The sections of `__waiter`, `inaccel_response_release` and the waits, for a
thread that holds no lock.
-/

namespace CoralApi

open Program

/-- The thread follows a pointer to a response that is not there. -/
def Dangles (response : Nat) (w : World) (reason : Stop) (w' : World) : Prop :=
  w' = w ∧ reason = .dangling response ∧ w.responses response = none

/-- A response gets a flag, and a broadcast reaches its waits. -/
def Process.ring (response : Nat) (r : Response) (p : Process) : Process :=
  { p.setResponse response r with
    broadcasts := .response response :: p.broadcasts }

section Sections

variable {response : Nat} {w : World}

theorem derefResponse_run {r : Response}
    (found : w.responses response = some r) :
    derefResponse response w = .ok r w := by
  simp [derefResponse, found]

theorem ensures_derefResponse {α : Type} {f : Response → Prog α}
    {post : α → World → Prop} {stop : Stop → World → Prop}
    (lost : w.responses response = none →
      ∀ reason w', Dangles response w reason w' → stop reason w')
    (rest : ∀ r, w.responses response = some r →
      Ensures (f r) post stop w) :
    Ensures (derefResponse response >>= f) post stop w := by
  cases found : w.responses response with
  | none =>
      refine Ensures.ends ?_ (lost found _ w ⟨rfl, rfl, found⟩)
      simp only [bind, EStateM.bind, derefResponse, found]
  | some r => exact Ensures.step (derefResponse_run found) (rest r found)

theorem releaseSection_spec (free : w.held = []) :
    Ensures (releaseSection response)
      (fun gone w' => ∃ r, w.responses response = some r ∧ gone = r.done ∧
        (w.put (if r.done then w.toProcess
          else w.ring response { r with cancelled := true })).Quiet w')
      (Dangles response w) w := by
  unfold releaseSection
  apply ensures_derefResponse (fun _ _ _ => id)
  intro r found
  apply Ensures.step (lock_run (by simp [free]))
  rw [free]
  split
  · rename_i done
    apply ensures_unlock (p := w.toProcess) free (.refl _)
    intro w₁ quiet
    refine ⟨r, found, done.symm, ?_⟩
    rw [if_pos done]
    exact quiet
  · rename_i running
    refine Ensures.step rfl (Ensures.step rfl ?_)
    refine ensures_unlock (p := w.ring response
      { r with cancelled := true }) free ⟨rfl, Nat.le_refl _⟩ ?_
    intro w₁ quiet
    refine ⟨r, found, (Bool.eq_false_iff.mpr running).symm, ?_⟩
    rw [if_neg running]
    exact quiet

/-- One turn of the loop of the waits. -/
theorem waitLoop_spec {r : Response} (free : w.held = [])
    (found : w.responses response = some r) :
    Ensures (waitLoop response)
      (fun _ w' => (r.cancelled = true ∨ r.done = true) ∧ w.Quiet w')
      (fun reason w' => reason = .asleep response ∧ w.Quiet w')
      (w.holding [.response response]) := by
  have here : (w.holding [.response response]).responses response = some r :=
    found
  unfold waitLoop
  apply Ensures.step (derefResponse_run here)
  split
  · rename_i ended
    exact ensures_last_unlock (p := w.toProcess) free (.refl _)
      fun _ quiet => ⟨by simpa using ended, quiet⟩
  · apply Ensures.step (unlock_run (by simp))
    refine ⟨rfl, ?_⟩
    simpa [World.holding_same free] using World.Quiet.refl w

theorem waitSection_spec (free : w.held = []) :
    Ensures (waitSection response)
      (fun _ w' => w.Quiet w' ∧ ∃ r, w.responses response = some r ∧
        (r.cancelled = true ∨ r.done = true))
      (fun reason w' => Dangles response w reason w' ∨
        w.responses response ≠ none ∧ reason = .asleep response ∧ w.Quiet w')
      w := by
  unfold waitSection
  apply ensures_derefResponse (fun _ _ _ => .inl)
  intro r found
  apply Ensures.step (lock_run (by simp [free]))
  rw [free]
  refine (waitLoop_spec free found).mono ?_ ?_
  · exact fun _ _ ended => ⟨ended.2, r, found, ended.1⟩
  · exact fun _ _ sleeps => .inr ⟨by simp [found], sleeps⟩

theorem waitWoken_spec {error : Option Errno} (free : w.held = []) :
    Ensures (waitWoken response error)
      (fun ended w' => w.Quiet w' ∧ ∃ r, w.responses response = some r ∧
        (ended = true → error = none ∧ (r.cancelled = true ∨ r.done = true)))
      (fun reason w' => Dangles response w reason w' ∨
        w.responses response ≠ none ∧ error = none ∧
          reason = .asleep response ∧ w.Quiet w')
      w := by
  unfold waitWoken
  apply ensures_derefResponse (fun _ _ _ => .inl)
  intro r found
  apply Ensures.step (lock_run (by simp [free]))
  rw [free]
  cases error with
  | some error =>
      apply Ensures.step rfl
      exact ensures_fail free (.refl _) fun _ quiet =>
        ⟨quiet, r, found, by simp⟩
  | none =>
      refine ensures_bind.mpr ((waitLoop_spec free found).mono ?_ ?_)
      · exact fun _ _ ended => ⟨ended.2, r, found, fun _ => ⟨rfl, ended.1⟩⟩
      · exact fun _ _ sleeps => .inr ⟨by simp [found], rfl, sleeps⟩

theorem waitStatus_spec :
    Ensures (waitStatus response)
      (fun code w' => w' = w ∧ ∃ r, w.responses response = some r ∧
        code = r.status.code)
      (Dangles response w) w := by
  unfold waitStatus
  apply ensures_derefResponse (fun _ _ _ => id)
  exact fun r found => ⟨rfl, r, found, rfl⟩

theorem next_spec {status : Status} :
    Ensures (next response status)
      (fun _ w' => ∃ r, w.responses response = some r ∧
        (w.put { w.setResponse response { r with status := status } with
          pending := w.pending.eraseP fun call =>
            call.response == response }).Quiet w')
      (Dangles response w) w := by
  unfold next
  apply ensures_derefResponse (fun _ _ _ => id)
  exact fun r found => ⟨r, found, .refl _⟩

theorem deleteResponse_spec :
    Ensures (deleteResponse response)
      (fun _ w' => w.responses response ≠ none ∧
        (w.put { w.toProcess with
          responses := Function.update w.responses response none
          deleted := response :: w.deleted }).Quiet w')
      (Dangles response w) w := by
  unfold deleteResponse
  apply ensures_derefResponse (fun _ _ _ => id)
  intro r found
  refine Ensures.step rfl ?_
  exact ⟨by simp [found], rfl, Nat.le_refl _⟩

end Sections

/-- `__detach` of a slice, unless the pointer dangles. -/
def Process.detachSlice (ptr : Nat) (p : Process) : Option Process :=
  match p.findSlice ptr with
  | none => none
  | some (cube, _) =>
      if cube.pid = p.pid then
        if cube.nlinks = 0 then
          some (((p.unlinkSlice cube.ptr ptr).unlinkFile
            cube.id).release cube.ptr)
        else some (p.unlinkSlice cube.ptr ptr)
      else some p

/-- The loop of `__waiter` over the slices that a response names. -/
def Process.detachSlices : List Nat → Process → Option Process
  | [], p => some p
  | ptr :: ptrs, p =>
      match p.detachSlice ptr with
      | none => none
      | some q => q.detachSlices ptrs

/-- The loop has got past its first slice. -/
theorem detachSlices_cons {p q : Process} {ptr : Nat} {ptrs : List Nat}
    (detached : p.detachSlices (ptr :: ptrs) = some q) :
    ∃ middle, p.detachSlice ptr = some middle ∧
      middle.detachSlices ptrs = some q := by
  simp only [Process.detachSlices] at detached
  split at detached
  · cases detached
  · rename_i middle first
    exact ⟨middle, first, detached⟩

theorem detach_detachSlice {ptr : Nat} {w : World} {locks : List Lock}
    (held : w.held = locks) (unheld : ∀ cube, Lock.cube cube ∉ locks) :
    Ensures (detach ptr)
      (fun _ w' => ∃ q, w.detachSlice ptr = some q ∧ (w.put q).Quiet w')
      (fun reason w' => w.detachSlice ptr = none ∧ reason = .dangling ptr ∧
        w' = w) w := by
  refine (detach_spec held unheld).mono ?_ ?_
  · rintro result w' (⟨-, ⟨cube, slice, found, foreign⟩, quiet⟩ |
      ⟨-, cube, slice, detaches⟩)
    · refine ⟨w.toProcess, ?_, quiet⟩
      simp [Process.detachSlice, found, foreign]
    · refine ⟨_, ?_, detaches.effect⟩
      simp only [Process.detachSlice, detaches.found, detaches.own, if_true]
      split
      · rfl
      · rfl
  · rintro reason w' ⟨rfl, rfl, lost⟩
    exact ⟨by simp [Process.detachSlice, lost], rfl, rfl⟩

/-- Detaching shows, whatever is hidden. -/
theorem detachSlice_visible {w v : World} (same : w.visible = v.visible)
    (ptr : Nat) :
    (w.detachSlice ptr).map (fun p => (w.put p).visible) =
      (v.detachSlice ptr).map fun p => (v.put p).visible := by
  have natural : ∀ u : World,
      (u.detachSlice ptr).map (fun p => (u.put p).visible) =
        (u.visible.detachSlice ptr).map fun p => (u.visible.put p).visible := by
    intro u
    have found : u.visible.findSlice ptr = u.findSlice ptr := rfl
    have pid : u.visible.pid = u.pid := rfl
    simp only [Process.detachSlice, found, pid]
    split
    · rfl
    · split
      · split
        · rfl
        · rfl
      · rfl
  rw [natural w, natural v, same]

theorem detachSlices_visible {w v : World} (same : w.visible = v.visible)
    (ptrs : List Nat) :
    (w.detachSlices ptrs).map (fun p => (w.put p).visible) =
      (v.detachSlices ptrs).map fun p => (v.put p).visible := by
  induction ptrs generalizing w v with
  | nil => exact congrArg some same
  | cons ptr ptrs induction =>
      have first := detachSlice_visible same ptr
      simp only [Process.detachSlices]
      cases left : w.detachSlice ptr with
      | none =>
          rw [left] at first
          cases right : v.detachSlice ptr with
          | none => rfl
          | some q => simp [right] at first
      | some p =>
          rw [left] at first
          cases right : v.detachSlice ptr with
          | none => simp [right] at first
          | some q =>
              rw [right] at first
              exact @induction (w.put p) (v.put q) (Option.some.inj first)

/-- Links are counted in the cubes, and the pid of the process stays. -/
theorem detachSlice_others {p q : Process} {ptr : Nat}
    (detached : p.detachSlice ptr = some q) :
    q.toRpc = p.toRpc ∧ q.pid = p.pid ∧ q.nextPtr = p.nextPtr := by
  unfold Process.detachSlice at detached
  split at detached
  · cases detached
  · split at detached
    · split at detached
      · cases detached
        exact ⟨rfl, rfl, rfl⟩
      · cases detached
        exact ⟨rfl, rfl, rfl⟩
    · cases detached
      exact ⟨rfl, rfl, rfl⟩

theorem detachSlices_others {p q : Process} {ptrs : List Nat}
    (detached : p.detachSlices ptrs = some q) :
    q.toRpc = p.toRpc ∧ q.pid = p.pid ∧ q.nextPtr = p.nextPtr := by
  induction ptrs generalizing p with
  | nil =>
      cases detached
      exact ⟨rfl, rfl, rfl⟩
  | cons ptr ptrs induction =>
      obtain ⟨middle, first, rest⟩ := detachSlices_cons detached
      obtain ⟨rpc, pid, nextPtr⟩ := induction rest
      obtain ⟨rpc', pid', nextPtr'⟩ := detachSlice_others first
      exact ⟨rpc.trans rpc', pid.trans pid', nextPtr.trans nextPtr'⟩

/-- A quiet stretch may come before the loop. -/
theorem World.Quiet.detachSlices {w w' : World} (quiet : w.Quiet w')
    {ptrs : List Nat} {p' : Process}
    (detached : w'.detachSlices ptrs = some p') :
    ∃ p, w.detachSlices ptrs = some p ∧ (w.put p).Quiet (w'.put p') := by
  have same := detachSlices_visible quiet.same ptrs
  rw [detached] at same
  cases found : w.detachSlices ptrs with
  | none => simp [found] at same
  | some p =>
      rw [found] at same
      refine ⟨p, rfl, Option.some.inj same, ?_⟩
      have before := (detachSlices_others found).2.2
      have after := (detachSlices_others detached).2.2
      exact before ▸ after ▸ quiet.nextPtr

/-- The loop of `__waiter` detaches the slices in order, up to a pointer that
dangles. -/
theorem detachArguments_spec {arguments : List Argument} {w : World}
    {locks : List Lock} (held : w.held = locks)
    (unheld : ∀ cube, Lock.cube cube ∉ locks) :
    Ensures (detachArguments arguments)
      (fun _ w' => ∃ q, w.detachSlices (arrayContexts arguments) = some q ∧
        (w.put q).Quiet w')
      (fun reason w' => (∃ ptr, reason = .dangling ptr) ∧
        ∃ before q, before <+: arrayContexts arguments ∧
          w.detachSlices before = some q ∧ (w.put q).Quiet w') w := by
  induction arguments generalizing w with
  | nil => exact ⟨w.toProcess, rfl, .refl w⟩
  | cons argument arguments induction =>
      cases argument with
      | empty => exact induction held
      | scalar bytes => exact induction held
      | array array =>
          have slots : arrayContexts (.array array :: arguments) =
              array.context :: arrayContexts arguments := rfl
          rw [slots]
          refine ensures_bind.mpr
            ((detach_detachSlice held unheld).mono ?_ ?_)
          · rintro result w₁ ⟨q, first, quiet⟩
            have later : ∀ {ptrs p'} {w₂ : World},
                w₁.detachSlices ptrs = some p' → (w₁.put p').Quiet w₂ →
                ∃ p, w.detachSlices (array.context :: ptrs) = some p ∧
                  (w.put p).Quiet w₂ := by
              intro ptrs p' w₂ detached rest
              obtain ⟨p, here, quiet⟩ := quiet.detachSlices detached
              refine ⟨p, ?_, World.Quiet.trans quiet rest⟩
              simpa [Process.detachSlices, first] using here
            refine (induction (quiet.held.trans held)).mono ?_ ?_
            · rintro _ w₂ ⟨q₂, detached, quiet₂⟩
              exact later detached quiet₂
            · rintro reason w₂ ⟨dangles, before, q₂, early, detached, quiet₂⟩
              obtain ⟨p, here, quiet₃⟩ := later detached quiet₂
              exact ⟨dangles, array.context :: before, p,
                List.cons_prefix_cons.mpr ⟨rfl, early⟩, here, quiet₃⟩
          · rintro reason w₁ ⟨lost, rfl, rfl⟩
            exact ⟨⟨_, rfl⟩, [], _, List.nil_prefix, rfl, .refl _⟩

/-- The end of the critical section of `__waiter`. -/
theorem settle_spec {response : Nat} {r : Response} {w w' : World}
    {p : Process} (free : w.held = []) (found : p.responses response = some r)
    (quiet : ((w.put p).holding [.response response]).Quiet w')
    {stop : Stop → World → Prop} :
    Ensures (settle response)
      (fun gone w'' => gone = r.cancelled ∧
        (w.put (if r.cancelled then p
          else p.ring response { r with done := true })).Quiet w'')
      stop w' := by
  have here : w'.responses response = some r :=
    (congrFun (congrArg (·.responses) quiet.rpc) response).trans found
  unfold settle
  apply Ensures.step (derefResponse_run here)
  split
  · rename_i cancelled
    apply ensures_unlock free quiet
    exact fun w₂ quiet₂ => ⟨cancelled.symm, quiet₂⟩
  · rename_i awaited
    have settled := quiet.lift (Process.ring response
      { r with done := true }) (fun _ => rfl) (fun _ _ => id)
    refine Ensures.step rfl (Ensures.step rfl ?_)
    refine ensures_unlock (p := p.ring response
      { r with done := true }) free settled ?_
    exact fun w₂ quiet₂ => ⟨(Bool.eq_false_iff.mpr awaited).symm, quiet₂⟩

theorem waiterSection_spec {response : Nat} {w : World} (free : w.held = []) :
    Ensures (waiterSection response)
      (fun gone w' => ∃ r q, w.responses response = some r ∧
        w.detachSlices (arrayContexts r.request.arguments) = some q ∧
        gone = r.cancelled ∧
        (w.put (if r.cancelled then q
          else q.ring response { r with done := true })).Quiet w')
      (fun reason w' => Dangles response w reason w' ∨
        ∃ r before q, w.responses response = some r ∧
          (∃ ptr, reason = .dangling ptr) ∧
          before <+: arrayContexts r.request.arguments ∧
          w.detachSlices before = some q ∧
          ((w.put q).holding [.response response]).Quiet w')
      w := by
  unfold waiterSection
  apply ensures_derefResponse (fun _ _ _ => .inl)
  intro r found
  apply Ensures.step (lock_run (by simp [free]))
  rw [free]
  refine ensures_bind.mpr ((detachArguments_spec
    (w := w.holding [.response response]) rfl (by simp)).mono ?_ ?_)
  · rintro _ w₁ ⟨q, detached, quiet⟩
    have quiet : ((w.put q).holding [.response response]).Quiet w₁ := quiet
    have here : q.responses response = some r :=
      (congrFun (congrArg (·.responses) (detachSlices_others detached).1)
        response).trans found
    refine (settle_spec free here quiet).mono ?_ (fun _ _ => id)
    exact fun gone w₂ ⟨same, settled⟩ =>
      ⟨r, q, found, detached, same, settled⟩
  · rintro reason w₁ ⟨dangles, before, q, early, detached, quiet⟩
    exact .inr ⟨r, before, q, found, dangles, early, detached, quiet⟩

end CoralApi
