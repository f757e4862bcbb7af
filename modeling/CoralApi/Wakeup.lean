import CoralApi.Watch

/-!
# No lost wake-up

A thread that no broadcast has reached sleeps on a slice that is still
attached.  `__detach` lowers the count of a slice and broadcasts in one
critical section, and a thread finds the count above zero and sleeps in one.
-/

namespace CoralApi

open Transition

namespace Watch

/-- Every sleep ends in time: what a thread sleeps on is in use, or a broadcast
has reached it. -/
structure Prompt (s : Watch) : Prop where
  inUse : ∀ thread ptr, s.asleep thread = some (ptr, false) →
    ∃ cube ∈ s.process.live, ∃ slice ∈ cube.slices,
      slice.ptr = ptr ∧ 0 < slice.nlinks
  /-- when no attach is left, every thread has been reached -/
  woken : ∀ ptr, (∀ token ∈ s.tokens, token.slice ≠ ptr) →
    ∀ thread reached, s.asleep thread = some (ptr, reached) → reached = true

variable {P : PageSize} {s start finish : Watch} {trace : List (Watch × Act)}

theorem Sound.prompt (sound : s.Sound) : s.Prompt := by
  obtain ⟨freed, ledger⟩ := sound.ledger
  constructor
  · intro thread ptr asleep
    have slot := sound.unreached thread ptr asleep
    obtain ⟨cube, member, -, within⟩ := ledger.known ptr slot
    obtain ⟨slice, inside, rfl⟩ := List.mem_map.mp within
    have links := ledger.nlinks_eq member inside
    have linked := (ledger.mem_slots_iff member inside).mp slot
    exact ⟨cube, member, slice, inside, rfl, by omega⟩
  · intro ptr gone thread reached asleep
    cases reached with
    | true => rfl
    | false =>
        obtain ⟨token, known, same⟩ :=
          List.mem_map.mp (sound.unreached thread ptr asleep)
        exact absurd same (gone token known)

/-- In every interleaving no wake-up is lost. -/
theorem always_prompt (idle : start.Idle)
    (run : Run (Step P) start trace finish) :
    ∀ s ∈ visited trace finish, s.Prompt := by
  intro s seen
  have sound : s.Sound := run.invariant Sound
    (fun _ _ _ before step => before.step step) idle.sound s seen
  exact sound.prompt

theorem always_prompt_asleep :
    ∃ trace finish, Run (Step .small) loaded trace finish ∧
      finish.asleep 1 = some (2, false) ∧
      ∀ s ∈ visited trace finish, s.Prompt := by
  obtain ⟨trace, finish, run, -, asleep⟩ := run_asleep
  exact ⟨trace, finish, run, asleep, always_prompt idle_loaded run⟩

end Watch

end CoralApi
