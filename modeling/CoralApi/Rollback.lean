import CoralApi.SubmitSpec
import CoralApi.Host
import Mathlib.Algebra.Order.BigOperators.Group.List

/-!
# The links of a failed submission

`inaccel_submit` takes nothing back.  Once its first array is attached, a call
that returns -1 leaves the links that it has made.
-/

namespace CoralApi

open Program

/-- The counts of a cube and of its slices. -/
def Cube.links (cube : Cube) : Nat × Int × List (Nat × Int) :=
  (cube.ptr, cube.nlinks, cube.slices.map fun slice =>
    (slice.ptr, slice.nlinks))

/-- `nlinks` of every cube and of every slice. -/
def Process.links (p : Process) : List (Nat × Int × List (Nat × Int)) :=
  p.live.map Cube.links

/-- The links of all cubes together. -/
def Process.total (p : Process) : Int := (p.live.map Cube.nlinks).sum

/-- The first array slot of a submission is attached. -/
def World.AttachesFirst (request response : Nat) (w : World) : Prop :=
  request ≠ 0 ∧ response ≠ 0 ∧ (w.os 0).isDone = true ∧
    ∃ grpc ∈ w.requests request,
      ∃ ptr ∈ (arrayContexts grpc.arguments).head?, w.asked.Attaches ptr

/-- Every step of a submission succeeds. -/
def World.GetsThrough (request response : Nat) (w : World) : Prop :=
  ∃ asked, w.Reaches request response asked ∧
    ∀ index ≤ w.queueCalls, (w.os (asked + index)).isDone = true

section Links

variable {p : Process} {ptr : Nat}

theorem total_eq : p.total = (p.links.map fun links => links.2.1).sum := by
  simp [Process.total, Process.links, Function.comp_def, Cube.links]

theorem total_lt_linkSlice (found : p.owner ptr ≠ none) :
    p.total < (p.linkSlice ptr).total := by
  cases here : p.findSlice ptr with
  | none => exact absurd (Process.owner_eq_none.mpr here) found
  | some pair =>
      obtain ⟨cube, slice⟩ := pair
      obtain ⟨other, member, hit⟩ := List.exists_of_findSome?_eq_some here
      obtain ⟨found', _, same⟩ := Option.map_eq_some_iff.mp hit
      cases same
      have linked : p.linkSlice ptr = p.link cube.ptr ptr := by
        simp [Process.linkSlice, here]
      have live : (p.link cube.ptr ptr).live = _ :=
        Process.live_modifyCube _ _
      rw [Process.total, Process.total, linked, live, List.map_map]
      apply List.sum_lt_sum
      · intro other member
        simp only [Function.comp]
        split
        · exact Int.le_of_lt (Int.lt_succ _)
        · exact Int.le_refl _
      · refine ⟨cube, member, ?_⟩
        simp only [Function.comp, if_true]
        exact Int.lt_succ _

theorem total_lt_linkSlices {ptrs : List Nat}
    (found : ∀ ptr ∈ ptrs, p.owner ptr ≠ none) (some : ptrs ≠ []) :
    p.total < (p.linkSlices ptrs).total := by
  induction ptrs generalizing p with
  | nil => exact absurd rfl some
  | cons ptr ptrs induction =>
      have first := total_lt_linkSlice (found ptr List.mem_cons_self)
      have rest : ∀ other ∈ ptrs, (p.linkSlice ptr).owner other ≠ none := by
        intro other member
        rw [owner_linkSlice]
        exact found other (List.mem_cons_of_mem _ member)
      by_cases last : ptrs = []
      · rw [last]
        exact first
      · exact first.trans (@induction (p.linkSlice ptr) rest last)

/-- Every attached slot is a link that was not there before. -/
theorem links_linkSlices_iff {ptrs : List Nat}
    (found : ∀ ptr ∈ ptrs, p.owner ptr ≠ none) :
    (p.linkSlices ptrs).links = p.links ↔ ptrs = [] := by
  constructor
  · intro same
    by_contra some
    have more := total_lt_linkSlices found some
    rw [total_eq, total_eq, same] at more
    exact lt_irrefl _ more
  · rintro rfl
    rfl

end Links

section Outcome

variable {request response : Nat} {w w' : World}

theorem World.Quiet.links (quiet : w.Quiet w') : w'.links = w.links := by
  rw [Process.links, Process.links, Process.live, Process.live, quiet.cubes,
    quiet.orphans]

theorem SendOutcome.links {grpc : Request} {result : Except Stop Int}
    (outcome : SendOutcome request response grpc w result w') :
    w'.links = w.links := by
  have withQueue : ∀ p : Process, p.withQueue.links = p.links :=
    fun p => withQueue_ind (·.links = p.links) rfl rfl
  cases outcome with
  | early fails quiet => exact quiet.links
  | lost answered lost quiet => exact quiet.links
  | unmarked first found fails quiet => exact quiet.links
  | starved answered found closed fails quiet => exact quiet.links
  | short started found closed fewer answered fails quiet => exact quiet.links
  | unsent found answered fails quiet =>
      exact quiet.links.trans (withQueue _)
  | sent found answered quiet => exact quiet.links.trans (withQueue _)

/-- The call is handed over when every reply past the loop is there. -/
theorem SendOutcome.sent_iff {grpc : Request} {result : Except Stop Int}
    (outcome : SendOutcome request response grpc w result w') :
    result = .ok 0 ↔ (w.responses response).isSome = true ∧
      ∀ index < w.queueCalls + 3, (w.os index).isDone = true := by
  cases outcome with
  | early fails quiet =>
      refine iff_of_false (by simp) fun sent => ?_
      exact absurd (sent.2 0 (by omega)) (by simp [fails])
  | lost answered lost quiet =>
      exact iff_of_false (by simp) fun sent => by simp [lost] at sent
  | unmarked first found fails quiet =>
      refine iff_of_false (by simp) fun sent => ?_
      exact absurd (sent.2 1 (by omega)) (by simp [fails])
  | starved answered found closed fails quiet =>
      refine iff_of_false (by simp) fun sent => ?_
      exact absurd (sent.2 2 (by omega)) (by simp [fails])
  | short started found closed fewer answered fails quiet =>
      have calls : w.queueCalls = w.threads + 1 := by
        simp [Process.queueCalls, closed]
      refine iff_of_false (by simp) fun sent => ?_
      exact absurd (sent.2 (started + 3) (by omega)) (by simp [fails])
  | unsent found answered fails quiet =>
      refine iff_of_false (by simp) fun sent => ?_
      exact absurd (sent.2 (w.queueCalls + 2) (by omega)) (by simp [fails])
  | sent found answered quiet => exact iff_of_true rfl ⟨by simp [found], answered⟩

/-- A call that is not handed over returns -1. -/
theorem SendOutcome.returns {grpc : Request} {result : Except Stop Int}
    (outcome : SendOutcome request response grpc w result w')
    (live : (w.responses response).isSome = true) (unsent : result ≠ .ok 0) :
    caught result = .ok (-1) := by
  cases outcome with
  | early fails quiet => rfl
  | lost answered lost quiet => simp [lost] at live
  | unmarked first found fails quiet => rfl
  | starved answered found closed fails quiet => rfl
  | short started found closed fewer answered fails quiet => rfl
  | unsent found answered fails quiet => rfl
  | sent found answered quiet => exact absurd rfl unsent

theorem World.Links.links_iff {ptrs : List Nat}
    (links : w.Links request ptrs w')
    (found : ∀ ptr ∈ ptrs, w.owner ptr ≠ none) :
    w'.links = w.links ↔ ptrs = [] := by
  rw [← links_linkSlices_iff found, Process.links, links.live]
  rfl

theorem attachesFirst_iff {grpc : Request} (given : request ≠ 0 ∧ response ≠ 0)
    (answered : (w.os 0).isDone = true)
    (found : w.requests request = some grpc) :
    w.AttachesFirst request response ↔
      ∃ ptr ∈ (arrayContexts grpc.arguments).head?, w.asked.Attaches ptr := by
  constructor
  · rintro ⟨-, -, -, grpc', found', first⟩
    cases found.symm.trans found'
    exact first
  · exact fun first => ⟨given.1, given.2, answered, grpc, found, first⟩

theorem World.Serves.first {ptr : Nat} {ptrs : List Nat}
    (serves : w.Serves (ptr :: ptrs)) : w.Attaches ptr :=
  ⟨serves.owns ptr List.mem_cons_self,
    serves.answered 0 (by simp)⟩

theorem SendOutcome.through_iff {grpc grpc' : Request} {w₁ : World}
    {ended : Except Stop Int} (past : w.PastLoop request response grpc w₁)
    (send : SendOutcome request response grpc' w₁ ended w') :
    ended = .ok 0 ↔ w.GetsThrough request response := by
  have later : ∀ index, w₁.os (index + 2) =
      w.os (2 * (arrayContexts grpc.arguments).length + 3 + index) :=
    fun index => (past.os _).trans (congrArg w.os (by omega))
  rw [send.sent_iff, past.queueCalls]
  constructor
  · rintro ⟨live, sent⟩
    refine ⟨_, past.reaches_iff.mpr ⟨rfl, live, ?_⟩, ?_⟩
    · exact fun index bound => sent index (by omega)
    · intro index bound
      rw [← later]
      exact sent (index + 2) (by omega)
  · rintro ⟨asked, reaches, through⟩
    obtain ⟨rfl, live, marks⟩ := past.reaches_iff.mp reaches
    refine ⟨live, fun index bound => ?_⟩
    by_cases early : index < 2
    · exact marks index early
    · have done := through (index - 2) (by omega)
      rwa [← later, Nat.sub_add_cancel (by omega)] at done

/-- A loop that stops early returns -1 and leaves its links, unless it stops
at the first array. -/
theorem AttachOutcome.links_iff {ptrs : List Nat} {ended : Except Stop Bool}
    (outcome : AttachOutcome request w ptrs ended w')
    (short : ended ≠ .ok true) (valid : ∀ ptr ∈ ptrs, w.owner ptr ≠ none) :
    caught (ended.map fun _ => -1) = .ok (-1) ∧
      (w'.links = w.links ↔ ¬∃ ptr ∈ ptrs.head?, w.Attaches ptr) := by
  cases outcome with
  | attached serves os links => exact absurd rfl short
  | refused before slots serves found fails links =>
      have known : ∀ ptr ∈ before, w.owner ptr ≠ none := fun ptr member =>
        valid ptr (slots ▸ List.mem_append_left _ member)
      refine ⟨rfl, (links.links_iff known).trans ?_⟩
      cases before with
      | nil =>
          refine iff_of_true rfl ?_
          rintro ⟨ptr, first, attaches⟩
          rw [slots] at first
          cases first
          exact fails attaches
      | cons ptr before =>
          refine iff_of_false (by simp) (not_not.mpr ⟨ptr, ?_, serves.first⟩)
          simp [slots]
  | @thrown before after ptr _ slots serves owns answered fails links =>
      have known : ∀ other ∈ before ++ [ptr], w.owner other ≠ none := by
        intro other member
        apply valid other
        rw [slots]
        rcases List.mem_append.mp member with early | here
        · exact List.mem_append_left _ early
        · exact List.mem_append_right _ (List.mem_singleton.mp here ▸ by simp)
      refine ⟨rfl, (links.links_iff known).trans ?_⟩
      refine iff_of_false (by simp) (not_not.mpr ?_)
      cases before with
      | nil => exact ⟨ptr, by simp [slots], owns, answered⟩
      | cons first before => exact ⟨first, by simp [slots], serves.first⟩
  | dangling before slots serves lost links =>
      exact absurd lost (valid _ (by simp [slots]))

end Outcome

/-- A submission on valid objects that returns -1 leaves all counts as they
were exactly when it does not get to attach an array, or succeeds. -/
theorem rollback_iff (P : PageSize) {request response : Nat} {w : World}
    (free : w.held = []) (live : (w.responses response).isSome = true)
    (valid : ∀ grpc ∈ w.requests request,
      ∀ ptr ∈ arrayContexts grpc.arguments, w.owner ptr ≠ none) :
    Ensures (inaccelSubmit P request response)
        (fun result w' => result = -1 → w'.links = w.links)
        (fun _ _ => True) w ↔
      (w.AttachesFirst request response → w.GetsThrough request response) := by
  have decides : ∀ result w',
      SubmitOutcome request response w result w' →
        ((result = .ok (-1) → w'.links = w.links) ↔
          (w.AttachesFirst request response →
            w.GetsThrough request response)) := by
    intro result w' outcome
    cases outcome with
    | null missing quiet =>
        refine iff_of_true (fun _ => quiet.links) ?_
        rintro ⟨given, given', -⟩
        exact (missing.elim given given').elim
    | unread given fails quiet =>
        refine iff_of_true (fun _ => quiet.links) ?_
        rintro ⟨-, -, answered, -⟩
        exact absurd answered (by simp [fails])
    | lost given answered lost quiet =>
        refine iff_of_true (fun _ => quiet.links) ?_
        rintro ⟨-, -, -, grpc, found, -⟩
        simp [lost] at found
    | stopped given answered found loop short ends =>
        have stuck : ¬w.GetsThrough request response := by
          rintro ⟨asked, reaches, -⟩
          exact short (loop.attached_iff.mpr
            ((reaches_iff given found).mp reaches).2.1)
        obtain ⟨returns, traceless⟩ := loop.links_iff short (valid _ found)
        rw [ends, returns, attachesFirst_iff given answered found]
        simp only [true_implies, stuck, imp_false]
        exact traceless
    | @tried grpc grpc' w₁ _ ended _ past found send ends =>
        have through := send.through_iff past
        by_cases sent : ended = .ok 0
        · refine iff_of_true ?_ fun _ => through.mp sent
          rw [ends, sent]
          intro negative
          cases negative
        · have returns := send.returns (past.responses ▸ live) sent
          rw [ends, returns, send.links,
            attachesFirst_iff past.given past.answered past.found]
          simp only [true_implies, mt through.mpr sent, imp_false]
          refine (past.links.links_iff (valid _ past.found)).trans ?_
          have serves := past.serves
          cases slots : arrayContexts grpc.arguments with
          | nil => simp
          | cons ptr ptrs =>
              rw [slots] at serves
              exact iff_of_false (by simp)
                (not_not.mpr ⟨ptr, by simp, serves.first⟩)
  refine (inaccelSubmit_spec free).iff ?_ ?_
  · intro result w' outcome
    rw [← decides _ _ outcome, Except.ok.injEq]
  · intro reason w' outcome
    rw [← decides _ _ outcome]
    simp

/-- A process with one block and one slice, a request that names the slice
twice, a request with a scalar, and two responses. -/
@[irreducible] def Process.prepared : Process :=
  { ((Process.loaded 1 "p").after .small
      [.smooth (.alloc 8192) 65536, .smooth (.slice 65536 4096) 0]) with
    requests := fun ptr =>
      if ptr = 10 then
        some ⟨"a", [.array ⟨2, "", 0, 0, 0⟩, .array ⟨2, "", 0, 0, 0⟩], none⟩
      else if ptr = 11 then some ⟨"a", [.scalar [1]], none⟩
      else none
    responses := fun ptr =>
      if ptr = 12 ∨ ptr = 13 then
        some ⟨⟨"", [], none⟩, .ok, false, false⟩
      else none }

def succeeds (_ : Nat) : Reply := .done 0 ""

/-- These calls succeed, and then every call fails. -/
def failsAfter (count index : Nat) : Reply :=
  if index < count then .done 0 "" else .failed ENOMEM

/-- Nothing fails. -/
theorem rollback_succeeds :
    Ensures (inaccelSubmit .small 10 12)
      (fun result w' => result = -1 → w'.links = Process.prepared.links)
      (fun _ _ => True) (Process.prepared.enter 0 succeeds) := by
  have free : (Process.prepared.enter 0 succeeds).held = [] := rfl
  apply (rollback_iff .small free ?_ ?_).mpr
  · exact fun _ => ⟨7, by decide +kernel, by decide +kernel⟩
  · decide +kernel
  · decide +kernel

/-- The second `mprotect` fails. -/
theorem not_rollback_secondAttach :
    ¬Ensures (inaccelSubmit .small 10 12)
      (fun result w' => result = -1 → w'.links = Process.prepared.links)
      (fun _ _ => True) (Process.prepared.enter 0 (failsAfter 3)) := by
  decide +kernel

end CoralApi
