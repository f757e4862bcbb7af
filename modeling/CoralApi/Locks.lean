import CoralApi.Rollback

/-!
# Locks at the end of a call

A call starts without locks.  It keeps one in two places: `__slice` forgets the
mutex of the cube when it cannot make a new slice, and `inaccel_submit` leaves
its critical section with an exception when it cannot make the queue.
-/

namespace CoralApi

open Program

inductive Call where
  | access (addr : Nat)
  | woken (slice : Nat) (error : Option Errno)
  | attach (slice : Nat)
  | detach (slice : Nat)
  | slice (addr size : Nat)
  | alloc (size : Nat)
  | free (addr : Nat)
  | realloc (addr newSize : Nat)
  | submit (request response : Nat)

def Call.run (P : PageSize) : Call → Prog Unit
  | .access addr => do let _ ← CoralApi.access P addr
  | .woken ptr error => do let _ ← accessWoken ptr error
  | .attach ptr => do let _ ← CoralApi.attach P ptr
  | .detach ptr => do let _ ← CoralApi.detach ptr
  | .slice addr size => do let _ ← CoralApi.slice P addr size
  | .alloc size => do let _ ← inaccelAlloc P size
  | .free addr => inaccelFree addr
  | .realloc addr newSize => do let _ ← inaccelRealloc P addr newSize
  | .submit request response => do let _ ← inaccelSubmit P request response

/-- The thread holds no lock and has never unlocked one that it did not
hold. -/
def World.Balanced (w : World) : Prop := w.held = [] ∧ w.misuse = false

instance (w : World) : Decidable w.Balanced :=
  inferInstanceAs (Decidable (_ ∧ _))

/-- The creation of the queue throws. -/
def QueueStarves (w : World) (request response : Nat) : Prop :=
  w.cq = false ∧ ∃ asked, w.Reaches request response asked ∧
    (w.os asked).isDone = false

/-- The two ways to keep a lock. -/
def Call.Leaks (w : World) : Call → Prop
  | .slice addr size => SliceStarves w addr size
  | .submit request response => QueueStarves w request response
  | _ => False

section Balanced

variable {P : PageSize} {w w' : World}

theorem World.Quiet.balanced (quiet : w.Quiet w') :
    w'.Balanced ↔ w.Balanced := by
  rw [World.Balanced, World.Balanced, quiet.held, quiet.misuse]

theorem World.Beside.balanced (beside : w.Beside P w') :
    w'.Balanced ↔ w.Balanced := by
  have held : w'.held = w.held := congrArg (·.held) beside.same
  have misuse : w'.misuse = w.misuse := congrArg (·.misuse) beside.same
  rw [World.Balanced, World.Balanced, held, misuse]

theorem World.Links.balanced {request : Nat} {ptrs : List Nat}
    (links : w.Links request ptrs w') : w'.Balanced ↔ w.Balanced := by
  rw [World.Balanced, World.Balanced, links.held, links.misuse]

theorem AllocOutcome.balanced {size : Nat} {result : Option Nat}
    (outcome : AllocOutcome P w size result w') : w'.Balanced ↔ w.Balanced := by
  cases outcome with
  | failed beside => exact beside.balanced
  | made requested admits fresh effect => exact effect.balanced

theorem FreeOutcome.balanced {addr : Nat} (outcome : FreeOutcome w addr w') :
    w'.Balanced ↔ w.Balanced := by
  cases outcome with
  | missed lost quiet => exact quiet.balanced
  | freed given found unmapped effect => exact effect.balanced

theorem AttachOutcome.balanced {request : Nat} {ptrs : List Nat}
    {result : Except Stop Bool}
    (outcome : AttachOutcome request w ptrs result w') :
    w'.Balanced ↔ w.Balanced := by
  obtain ⟨attached, links⟩ := outcome.links
  exact links.balanced

/-- The section that makes the queue is the only one that keeps a lock. -/
theorem SendOutcome.balanced_iff {request response : Nat} {grpc : Request}
    {result : Except Stop Int} (balanced : w.Balanced)
    (outcome : SendOutcome request response grpc w result w') :
    w'.Balanced ↔ ¬(w.cq = false ∧ (w.responses response).isSome = true ∧
      (∀ index < 2, (w.os index).isDone = true) ∧
      (w.os 2).isDone = false) := by
  have opening : w.cq = false → 0 < w.queueCalls := by
    intro closed
    simp [Process.queueCalls, closed]
  cases outcome with
  | early fails quiet =>
      refine iff_of_true (quiet.balanced.mpr balanced) ?_
      rintro ⟨-, -, answered, -⟩
      exact absurd (answered 0 (by omega)) (by simp [fails])
  | lost answered lost quiet =>
      refine iff_of_true (quiet.balanced.mpr balanced) ?_
      rintro ⟨-, live, -, -⟩
      simp [lost] at live
  | unmarked first found fails quiet =>
      refine iff_of_true (quiet.balanced.mpr balanced) ?_
      rintro ⟨-, -, answered, -⟩
      exact absurd (answered 1 (by omega)) (by simp [fails])
  | starved answered found closed fails quiet =>
      refine iff_of_false ?_ (not_not.mpr ⟨closed, by simp [found], answered,
        fails⟩)
      rintro ⟨held, -⟩
      rw [quiet.held] at held
      cases held
  | short started found closed fewer answered fails quiet =>
      refine iff_of_true (quiet.balanced.mpr balanced) ?_
      rintro ⟨-, -, -, starved⟩
      exact absurd (answered 2 (by omega)) (by simp [starved])
  | unsent found answered fails quiet =>
      refine iff_of_true (quiet.balanced.mpr balanced) ?_
      rintro ⟨closed, -, -, starved⟩
      have calls := opening closed
      exact absurd (answered 2 (by omega)) (by simp [starved])
  | sent found answered quiet =>
      refine iff_of_true (quiet.balanced.mpr balanced) ?_
      rintro ⟨closed, -, -, starved⟩
      exact absurd (answered 2 (by omega)) (by simp [starved])

theorem SubmitOutcome.balanced_iff {request response : Nat}
    {result : Except Stop Int} (balanced : w.Balanced)
    (outcome : SubmitOutcome request response w result w') :
    w'.Balanced ↔ ¬QueueStarves w request response := by
  cases outcome with
  | null missing quiet =>
      refine iff_of_true (quiet.balanced.mpr balanced) ?_
      rintro ⟨-, asked, ⟨given, given', -⟩, -⟩
      exact missing.elim given given'
  | unread given fails quiet =>
      refine iff_of_true (quiet.balanced.mpr balanced) ?_
      rintro ⟨-, asked, ⟨-, -, -, answered, grpc, -, -, rfl⟩, -⟩
      exact absurd (answered 0 (by omega)) (by simp [fails])
  | lost given answered lost quiet =>
      refine iff_of_true (quiet.balanced.mpr balanced) ?_
      rintro ⟨-, asked, ⟨-, -, -, -, grpc, found, -⟩, -⟩
      simp [lost] at found
  | stopped given answered found loop short ends =>
      refine iff_of_true (loop.balanced.mpr balanced) ?_
      rintro ⟨-, asked, reaches, -⟩
      have serves := ((reaches_iff given found).mp reaches).2.1
      exact short (loop.attached_iff.mpr serves)
  | @tried grpc grpc' w₁ _ _ _ past found send ends =>
      rw [send.balanced_iff (past.links.balanced.mpr balanced), past.cq]
      have third : ∀ asked, asked =
          2 * (arrayContexts grpc.arguments).length + 3 →
            w₁.os 2 = w.os asked := by
        rintro asked rfl
        exact (past.os 2).trans (congrArg w.os (by omega))
      refine not_congr ⟨?_, ?_⟩
      · rintro ⟨closed, live, marks, fails⟩
        refine ⟨closed, _, past.reaches_iff.mpr ⟨rfl, live, marks⟩, ?_⟩
        rwa [← third _ rfl]
      · rintro ⟨closed, asked, reaches, fails⟩
        obtain ⟨here, live, marks⟩ := past.reaches_iff.mp reaches
        refine ⟨closed, live, marks, ?_⟩
        rwa [third asked here]

end Balanced

/-- A call that starts without locks ends without locks, unless it keeps one
in the two known ways. -/
theorem returns_balanced_iff (P : PageSize) (call : Call) (p : Process)
    (errno : Nat) (os : Nat → Reply) :
    Ensures (call.run P) (fun _ => World.Balanced) (fun _ => World.Balanced)
        (p.enter errno os) ↔
      ¬call.Leaks (p.enter errno os) := by
  have free : (p.enter errno os).held = [] := rfl
  have balanced : (p.enter errno os).Balanced := ⟨rfl, rfl⟩
  generalize p.enter errno os = w at free balanced
  have dropped : ∀ {α : Type} {x : Prog α} {good : World → Prop},
      Ensures (do let _ ← x : Prog Unit) (fun _ => good) (fun _ => good) w ↔
        Ensures x (fun _ => good) (fun _ => good) w := by
    intro α x good
    exact ensures_bind
  have even : ∀ {w' : World}, (w'.Balanced ↔ w.Balanced) →
      (w'.Balanced ↔ ¬False) := fun same =>
    iff_of_true (same.mpr balanced) not_false
  cases call with
  | access addr =>
      refine dropped.trans ((access_spec (P := P) free).iff ?_ ?_)
      · intro result w' ended
        apply even
        split at ended
        · exact ended.2.balanced
        · exact ended.1.balanced
      · exact fun reason w' ended => even ended.1.balanced
  | woken ptr error =>
      refine dropped.trans ((accessWoken_spec free).iff ?_ ?_)
      · exact fun result w' ended => even ended.1.balanced
      · exact fun reason w' ended => even ended.1.balanced
  | attach ptr =>
      refine dropped.trans ((attach_spec (P := P) free).iff ?_ ?_)
      · intro result w' ended
        apply even
        split at ended
        · obtain ⟨-, cube, slice, attached⟩ := ended
          exact attached.effect.balanced
        · exact ended.2.2.balanced
      · rintro reason w' ⟨rfl, -⟩
        exact even Iff.rfl
  | detach ptr =>
      refine dropped.trans ((detach_spec free (by simp)).iff ?_ ?_)
      · rintro result w' (⟨-, -, quiet⟩ | ⟨-, cube, slice, detaches⟩)
        · exact even quiet.balanced
        · exact even detaches.effect.balanced
      · rintro reason w' ⟨rfl, -⟩
        exact even Iff.rfl
  | slice addr size =>
      refine dropped.trans ((slice_spec (P := P) free).iff ?_
        (fun _ _ => False.elim))
      intro result w' outcome
      cases outcome with
      | missed fed quiet =>
          exact iff_of_true (quiet.balanced.mpr balanced) fed
      | starved starves member quiet =>
          refine iff_of_false ?_ (not_not.mpr starves)
          rintro ⟨held, -⟩
          rw [quiet.held] at held
          cases held
      | known fed first own found quiet =>
          exact iff_of_true (quiet.balanced.mpr balanced) fed
      | made fed first own contains new fresh effect =>
          exact iff_of_true (effect.balanced.mpr balanced) fed
  | alloc size =>
      refine dropped.trans ((inaccelAlloc_spec (P := P) free).iff ?_
        (fun _ _ => False.elim))
      exact fun result w' outcome => even outcome.balanced
  | free addr =>
      refine (inaccelFree_spec free).iff ?_ (fun _ _ => False.elim)
      exact fun _ w' outcome => even outcome.balanced
  | realloc addr newSize =>
      refine dropped.trans ((inaccelRealloc_spec (P := P) free).iff ?_
        (fun _ _ => False.elim))
      intro result w' outcome
      cases outcome with
      | alloc null stays outcome => exact even outcome.balanced
      | free emptied stays outcome => exact even outcome.balanced
      | kept stays quiet => exact even quiet.balanced
      | moved grows effect => exact even effect.balanced
  | submit request response =>
      refine dropped.trans ((inaccelSubmit_spec (P := P) free).iff ?_ ?_)
      · exact fun _ _ outcome => outcome.balanced_iff balanced
      · exact fun _ _ outcome => outcome.balanced_iff balanced

/-- A new slice without memory, and a new queue without memory. -/
theorem not_returnsBalanced_starved :
    ¬Ensures (Call.run .small (.slice 69632 4096)) (fun _ => World.Balanced)
        (fun _ => World.Balanced) (Process.prepared.enter 0 (failsAfter 0)) ∧
      ¬Ensures (Call.run .small (.submit 10 12)) (fun _ => World.Balanced)
        (fun _ => World.Balanced) (Process.prepared.enter 0 (failsAfter 7)) := by
  decide +kernel

end CoralApi
