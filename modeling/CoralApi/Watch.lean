import CoralApi.Layout
import CoralApi.Ledger

/-!
# Faulting threads

The threads of a process allocate, move and free blocks, ask for slices,
attach and detach them, and store.  A thread whose fault finds a slice in use
sleeps on the condition of the slice; `__detach` broadcasts on it.  Every
critical section is one step, and so is a wait: it releases the mutex and
sleeps.
-/

namespace CoralApi

open Program Transition

/-- An attached slice, with the version that was in force at the attach. -/
structure Token where
  slice : Nat
  version : Nat
  deriving DecidableEq

structure Watch where
  process : Process
  /-- the slice that a thread sleeps on, and whether a broadcast has reached
  it since it fell asleep -/
  asleep : Nat → Option (Nat × Bool)
  /-- the attaches that no detach has matched yet -/
  tokens : List Token
  /-- log: the version in force at an attach, and the version that
  `inaccel_submit` has copied into the message for it -/
  copies : List (Nat × Nat)

/-- The version of the slice at a pointer. -/
def Process.versionAt (p : Process) (ptr : Nat) : Nat :=
  (p.findSlice ptr).elim 0 fun found => found.2.version

namespace Watch

def slots (s : Watch) : List Nat := s.tokens.map Token.slice

/-- The conditions that were broadcast between two moments. -/
def broadcastSince (p p' : Process) : List Bed :=
  p'.broadcasts.take (p'.broadcasts.length - p.broadcasts.length)

/-- A broadcast on its slice reaches a thread that sleeps. -/
def reach (beds : List Bed) : Option (Nat × Bool) → Option (Nat × Bool)
  | some (ptr, reached) =>
      some (ptr, reached || beds.contains (Bed.slice ptr))
  | none => none

/-- Where a call leaves its thread. -/
def stageAfter {α : Type} : EStateM.Result Stop World α → Option (Nat × Bool)
  | .error (.asleep ptr) _ => some (ptr, false)
  | _ => none

/-- The state after an event of a thread. -/
def after (P : PageSize) (thread : Nat) (event : Event) (s : Watch) : Watch :=
  let result := event.op.run P (s.process.enter event.errno event.os)
  let p' := (final result).toProcess
  { s with
    process := p'
    asleep := Function.update
      (fun other => reach (broadcastSince s.process p') (s.asleep other))
      thread (stageAfter result) }

inductive Act where
  | event (thread : Nat) (event : Event)
  | copy (thread : Nat) (token : Token)

/-- The calls that have no part in the tokens. -/
def Plain : Op → Prop
  | .attach _ => False
  | .detach _ => False
  | .woken _ _ => False
  | _ => True

/-- The steps of the threads.  Every detach matches an earlier attach, and a
copy is made while its slice is attached.  A thread may wake up without a
broadcast. -/
inductive Step (P : PageSize) (s : Watch) : Act → Watch → Prop where
  | call {thread : Nat} {event : Event} (awake : s.asleep thread = none)
      (words : event.op.Words) (plain : Plain event.op) :
      Step P s (.event thread event) (s.after P thread event)
  | attach {thread ptr errno : Nat} {os : Nat → Reply}
      (awake : s.asleep thread = none) :
      Step P s (.event thread ⟨.attach ptr, errno, os⟩)
        { s.after P thread ⟨.attach ptr, errno, os⟩ with
          tokens :=
            if returned (attach P ptr (s.process.enter errno os)) = some 0 then
              ⟨ptr, (Event.outcome P s.process
                ⟨.attach ptr, errno, os⟩).versionAt ptr⟩ :: s.tokens
            else s.tokens }
  | detach {thread errno : Nat} {os : Nat → Reply} {token : Token}
      (awake : s.asleep thread = none) (known : token ∈ s.tokens) :
      Step P s (.event thread ⟨.detach token.slice, errno, os⟩)
        { s.after P thread ⟨.detach token.slice, errno, os⟩ with
          tokens := s.tokens.erase token }
  | copy {thread : Nat} {token : Token} {cube : Cube} {slice : Slice}
      (awake : s.asleep thread = none) (known : token ∈ s.tokens)
      (found : s.process.findSlice token.slice = some (cube, slice)) :
      Step P s (.copy thread token)
        { s with copies := (token.version, slice.version) :: s.copies }
  | wake {thread ptr errno : Nat} {reached : Bool} {os : Nat → Reply}
      {error : Option Errno} (asleep : s.asleep thread = some (ptr, reached)) :
      Step P s (.event thread ⟨.woken ptr error, errno, os⟩)
        (s.after P thread ⟨.woken ptr error, errno, os⟩)

/-- No slice is in use, and all blocks are those of the process. -/
structure Idle (s : Watch) : Prop where
  named : s.process.Named
  own : ∀ cube ∈ s.process.cubes, cube.pid = s.process.pid
  unlinked : ∀ cube ∈ s.process.cubes, cube.nlinks = 0 ∧
    ∀ slice ∈ cube.slices, slice.nlinks = 0
  orphans : s.process.orphans = []
  released : s.process.released = []
  asleep : ∀ thread, s.asleep thread = none
  tokens : s.tokens = []
  copies : s.copies = []

/-- What holds in every state.  No thread sleeps without a broadcast on a slice
that has no attach left. -/
structure Sound (s : Watch) : Prop where
  ledger : ∃ freed, s.process.Ledger s.slots freed
  own : ∀ cube ∈ s.process.cubes, cube.pid = s.process.pid
  unreached : ∀ thread ptr, s.asleep thread = some (ptr, false) →
    ptr ∈ s.slots

end Watch

section Calls

variable {P : PageSize} {p : Process} {event : Event} {slots : List Nat}
  {freed : List Cube} {ptr other errno : Nat} {os : Nat → Reply}

/-- The blocks of a process stay its own. -/
theorem Event.own_outcome (words : event.op.Words)
    (own : ∀ cube ∈ p.cubes, cube.pid = p.pid) :
    ∀ cube ∈ (event.outcome P p).cubes,
      cube.pid = (event.outcome P p).pid := by
  obtain ⟨pid, cubes, -⟩ := (event_deed (P := P) (p := p) words).descends
  intro cube' member'
  rcases cubes cube' member' with ⟨cube, member, same⟩ | made
  · rw [same.pid, pid]
    exact own cube member
  · exact made.1.trans pid.symm

theorem Process.Books.nlinks_eq {cube : Cube} {slice : Slice}
    (books : p.Books slots freed) (member : cube ∈ p.live)
    (inside : slice ∈ cube.slices) : slice.nlinks = slots.count slice.ptr := by
  rcases List.mem_append.mp member with registered | orphan
  · exact (books.registered cube registered).1.slices slice inside
  · exact (books.orphaned cube orphan).1.slices slice inside

/-- The slice of a slot is attached. -/
theorem Process.Books.mem_slots_iff {cube : Cube} {slice : Slice}
    (books : p.Books slots freed) (member : cube ∈ p.live)
    (inside : slice ∈ cube.slices) :
    slice.ptr ∈ slots ↔ slice.nlinks ≠ 0 := by
  rw [books.nlinks_eq member inside, ← List.count_pos_iff]
  omega

/-- The calls that have no part in the tokens leave the slots. -/
theorem Event.plain_ledger (plain : Watch.Plain event.op)
    (ledger : p.Ledger slots freed)
    (own : ∀ cube ∈ p.cubes, cube.pid = p.pid) :
    ∃ freed', (event.outcome P p).Ledger slots freed' := by
  obtain ⟨op, errno, os⟩ := event
  let w := p.enter errno os
  have free : w.held = [] := rfl
  have good : ∀ {w' : World}, (w.Quiet w') →
      ∃ freed', w'.toProcess.Ledger slots freed' := fun quiet =>
    ⟨freed, ledger.still (.of_quiet quiet)⟩
  cases op with
  | alloc size =>
      exact final_of (fun p' => ∃ freed', p'.Ledger slots freed')
        (inaccelAlloc_spec (P := P) (w := w) free)
        (fun _ _ outcome => ⟨freed, (outcome.ledger ledger).1⟩)
        fun _ _ => False.elim
  | free addr =>
      exact final_of (fun p' => ∃ freed', p'.Ledger slots freed')
        (inaccelFree_spec (w := w) free)
        (fun _ _ outcome => ⟨_, (outcome.ledger ledger
          fun cube member _ => own cube member).1⟩)
        fun _ _ => False.elim
  | realloc addr newSize =>
      exact final_of (fun p' => ∃ freed', p'.Ledger slots freed')
        (inaccelRealloc_spec (P := P) (w := w) free)
        (fun _ _ outcome => outcome.ledger ledger
          fun cube member _ => own cube member)
        fun _ _ => False.elim
  | slice addr size =>
      exact final_of (fun p' => ∃ freed', p'.Ledger slots freed')
        (slice_spec (P := P) (w := w) free)
        (fun _ _ outcome => ⟨freed, (outcome.ledger ledger).1⟩)
        fun _ _ => False.elim
  | store addr byte =>
      refine (hostStore_spec (P := P) (w := w) free).of_final
        (fun w' => ∃ freed', w'.toProcess.Ledger slots freed') ?_ ?_
      · rintro _ w' (⟨-, rfl⟩ | ⟨-, ended⟩)
        · refine ⟨freed, ledger.still ?_⟩
          obtain ⟨files, same⟩ := storeByte_eq addr byte p
          have still : p.Still (p.storeByte addr byte) :=
            same ▸ ⟨rfl, rfl, rfl, rfl, Nat.le_refl _, List.Subset.refl _⟩
          exact still
        · split at ended
          · exact good ended
          · exact ⟨freed, (ledger.openSlices _).still (.of_quiet ended)⟩
      · exact fun _ _ ended => good ended.2.1
  | attach ptr => exact plain.elim
  | detach ptr => exact plain.elim
  | woken ptr error => exact plain.elim

/-- A thread falls asleep where its call may stop. -/
theorem Watch.stop_of_asleep {α : Type} {x : Prog α} {w : World}
    {post : α → World → Prop} {stop : Stop → World → Prop}
    (asleep : stageAfter (x w) = some (ptr, false))
    (ensures : Ensures x post stop w) : ∃ w', stop (.asleep ptr) w' := by
  cases run : x w with
  | ok value w' =>
      rw [run] at asleep
      cases asleep
  | error reason w' =>
      rw [run] at asleep
      cases reason with
      | asleep other =>
          cases asleep
          exact ⟨w', ensures.of_error run⟩
      | thrown => cases asleep
      | blocked => cases asleep
      | dangling other => cases asleep

theorem Watch.stageAfter_void {α : Type} {x : Prog α} {w : World} :
    stageAfter ((do let _ ← x : Prog Unit) w) = stageAfter (x w) := by
  simp only [bind, EStateM.bind]
  cases x w with
  | ok value w' => rfl
  | error reason w' =>
      cases reason with
      | thrown => rfl
      | blocked => rfl
      | asleep other => rfl
      | dangling other => rfl

/-- A detach does not sleep. -/
theorem Event.detach_awake :
    Watch.stageAfter (Op.run P (.detach ptr) (p.enter errno os)) ≠
      some (other, false) := by
  intro asleep
  obtain ⟨w', -, dangles, -⟩ := Watch.stop_of_asleep
    (Watch.stageAfter_void.symm.trans asleep)
    (@detach_spec ptr (p.enter errno os) [] rfl (by simp))
  cases dangles

/-- A thread falls asleep on a slice that is attached. -/
theorem Event.sleeps (ledger : p.Ledger slots freed)
    (asleep : Watch.stageAfter (event.op.run P
      (p.enter event.errno event.os)) = some (ptr, false)) : ptr ∈ slots := by
  obtain ⟨op, errno, os⟩ := event
  let w := p.enter errno os
  have free : w.held = [] := rfl
  have void : ∀ {α : Type} {x : Prog α},
      Watch.stageAfter ((do let _ ← x : Prog Unit) w) = some (ptr, false) →
        Watch.stageAfter (x w) = some (ptr, false) := fun asleep =>
    Watch.stageAfter_void.symm.trans asleep
  cases op with
  | alloc size =>
      exact (Watch.stop_of_asleep (void asleep)
        (inaccelAlloc_spec (P := P) free)).elim fun _ => False.elim
  | free addr =>
      exact (Watch.stop_of_asleep (void asleep)
        (inaccelFree_spec free)).elim fun _ => False.elim
  | realloc addr newSize =>
      exact (Watch.stop_of_asleep (void asleep)
        (inaccelRealloc_spec (P := P) free)).elim fun _ => False.elim
  | slice addr size =>
      exact (Watch.stop_of_asleep (void asleep)
        (slice_spec (P := P) free)).elim fun _ => False.elim
  | attach other =>
      obtain ⟨w', -, dangles, -⟩ := Watch.stop_of_asleep (void asleep)
        (attach_spec (P := P) free)
      cases dangles
  | detach other => exact (Event.detach_awake asleep).elim
  | store addr byte =>
      obtain ⟨w', -, -, -, cube, member, slice, inside, linked, same⟩ :=
        Watch.stop_of_asleep asleep (hostStore_spec (P := P) free)
      cases same
      exact (ledger.mem_slots_iff (List.mem_append_left _ member)
        inside).mpr linked
  | woken other error =>
      obtain ⟨w', -, ⟨dangles, -⟩ | ⟨same, cube, slice, found, linked⟩⟩ :=
        Watch.stop_of_asleep (void asleep) (accessWoken_spec free)
      · cases dangles
      · cases same
        obtain ⟨member, inside, rfl⟩ := findSlice_mem found
        exact (ledger.mem_slots_iff member inside).mpr linked

/-- What a detach does that matches an attach. -/
structure Detached (p : Process) (slots : List Nat)
    (freed : List Cube) (ptr : Nat) (p' : Process) : Prop where
  ledger : p'.Ledger (slots.erase ptr) freed
  broadcasts : p'.broadcasts = .slice ptr :: p.broadcasts

theorem Event.detach_ledger (ledger : p.Ledger slots freed)
    (known : ptr ∈ slots) :
    Detached p slots freed ptr
      (Event.outcome P p ⟨.detach ptr, errno, os⟩) := by
  let w := p.enter errno os
  obtain ⟨cube, member, own, within⟩ := ledger.known ptr known
  obtain ⟨slice, inside, rfl⟩ := List.mem_map.mp within
  have found := ledger.named.findSlice_eq member inside
  refine final_of (Detached p slots freed slice.ptr)
    (@detach_spec slice.ptr w [] rfl (by simp)) ?_ ?_
  · rintro result w' (⟨-, ⟨other, slice', found', foreign⟩, -⟩ |
      ⟨-, other, slice', detaches⟩)
    · cases found.symm.trans found'
      exact absurd own foreign
    · cases found.symm.trans detaches.found
      have effect := detaches.effect
      let q := if cube.nlinks = 0 then
          ((p.unlinkSlice cube.ptr slice.ptr).unlinkFile cube.id).release
            cube.ptr
        else p.unlinkSlice cube.ptr slice.ptr
      have detached : p.detachSlice slice.ptr = some q := by
        simp only [Process.detachSlice, found, own, if_true, q]
        split
        · rfl
        · rfl
      have log : q.broadcasts = .slice slice.ptr :: p.broadcasts := by
        unfold q
        split
        · rfl
        · rfl
      have effect : (w.put q).Quiet w' := effect
      exact ⟨(ledger.detach known detached).still (.of_quiet effect),
        (congrArg (·.broadcasts) effect.same).trans log⟩
  · rintro reason w' ⟨-, -, lost⟩
    cases found.symm.trans lost

/-- What an attach does to the slots. -/
theorem Event.attach_ledger (ledger : p.Ledger slots freed) :
    (Event.outcome P p ⟨.attach ptr, errno, os⟩).Ledger
      (if returned (attach P ptr (p.enter errno os)) = some 0 then
        ptr :: slots else slots) freed := by
  have outcome : Event.outcome P p ⟨.attach ptr, errno, os⟩ =
      (final (attach P ptr (p.enter errno os))).toProcess :=
    congrArg World.toProcess final_void
  have spec := @attach_spec P ptr (p.enter errno os) rfl
  rw [outcome]
  cases run : attach P ptr (p.enter errno os) with
  | error reason w' =>
      obtain ⟨same, -, -⟩ := spec.of_error run
      rw [returned, if_neg (by simp), final, same]
      exact ledger
  | ok result w' =>
      have ended := spec.of_ok run
      simp only [returned, Option.some.injEq, final]
      split at ended
      · rename_i success
        obtain ⟨-, cube, slice, attached⟩ := ended
        rw [if_pos success]
        have shut : (p.protectPages P
            (wadd cube.page.addr slice.page.offset) slice.page.size
            .read).Ledger slots freed :=
          ledger.still ⟨rfl, rfl, rfl, rfl, Nat.le_refl _,
            List.Subset.refl _⟩
        have found : p.findSlice ptr = some (cube, slice) := attached.found
        have linked := shut.link found attached.own
        exact linked.still (.of_quiet attached.effect)
      · rename_i failure
        rw [if_neg failure]
        exact ledger.still (.of_quiet ended.2.2)

theorem Event.woken_ledger {error : Option Errno}
    (ledger : p.Ledger slots freed) :
    (Event.outcome P p ⟨.woken ptr error, errno, os⟩).Ledger slots freed :=
  final_of (fun p' => p'.Ledger slots freed)
    (accessWoken_spec (w := p.enter errno os) rfl)
    (fun _ _ ended => ledger.still (.of_quiet ended.1))
    fun _ _ ended => ledger.still (.of_quiet ended.1)

end Calls

namespace Watch

variable {P : PageSize} {s s' : Watch} {act : Act} {thread ptr : Nat}
  {event : Event} {reached : Bool}

theorem reach_eq {beds : List Bed} {stage : Option (Nat × Bool)}
    (unreached : reach beds stage = some (ptr, false)) :
    stage = some (ptr, false) ∧ Bed.slice ptr ∉ beds := by
  cases stage with
  | none => cases unreached
  | some sleep =>
      obtain ⟨other, reached⟩ := sleep
      simp only [reach, Option.some.injEq, Prod.mk.injEq,
        Bool.or_eq_false_iff] at unreached
      obtain ⟨rfl, rfl, missed⟩ := unreached
      refine ⟨rfl, fun inside => ?_⟩
      rw [List.contains_iff_mem.mpr inside] at missed
      cases missed

/-- A thread that sleeps after an event without a broadcast. -/
theorem asleep_after {other : Nat}
    (asleep : (s.after P thread event).asleep other = some (ptr, false)) :
    stageAfter (event.op.run P (s.process.enter event.errno event.os)) =
        some (ptr, false) ∨
      s.asleep other = some (ptr, false) ∧
        Bed.slice ptr ∉
          broadcastSince s.process (event.outcome P s.process) := by
  by_cases same : other = thread
  · subst same
    simp only [after, Function.update_self] at asleep
    exact .inl asleep
  · simp only [after, Function.update_of_ne same] at asleep
    exact .inr (reach_eq asleep)

/-- An event that takes no slot away. -/
theorem Sound.after (sound : s.Sound) (words : event.op.Words)
    {tokens : List Token} {freed : List Cube}
    (ledger : (event.outcome P s.process).Ledger (tokens.map Token.slice) freed)
    (more : s.tokens ⊆ tokens) :
    Sound { s.after P thread event with tokens := tokens } := by
  refine ⟨⟨freed, ledger⟩, Event.own_outcome words sound.own, ?_⟩
  intro other ptr asleep
  have kept : s.slots ⊆ tokens.map Token.slice := List.map_subset _ more
  obtain ⟨before, books⟩ := sound.ledger
  rcases asleep_after asleep with now | ⟨earlier, -⟩
  · exact kept (Event.sleeps books now)
  · exact kept (sound.unreached other ptr earlier)

theorem Sound.step (sound : s.Sound) (step : Step P s act s') : s'.Sound := by
  obtain ⟨freed, ledger⟩ := sound.ledger
  cases step with
  | call awake words plain =>
      obtain ⟨freed', later⟩ := Event.plain_ledger plain ledger sound.own
      exact sound.after words later (List.Subset.refl _)
  | @attach thread ptr errno os awake =>
      have words : Op.Words (.attach ptr) := trivial
      have later := @Event.attach_ledger P s.process s.slots freed ptr errno os
        ledger
      split
      · rename_i success
        rw [if_pos success] at later
        exact sound.after words later (List.subset_cons_self _ _)
      · rename_i failure
        rw [if_neg failure] at later
        exact sound.after words later (List.Subset.refl _)
  | @detach thread errno os token awake known =>
      have slot : token.slice ∈ s.slots := List.mem_map_of_mem known
      obtain ⟨later, broadcasts⟩ := @Event.detach_ledger P s.process s.slots
        freed token.slice errno os ledger slot
      have rest : ((s.tokens.erase token).map Token.slice).Perm
          (s.slots.erase token.slice) := by
        have split := ((List.perm_cons_erase known).map Token.slice).erase
          token.slice
        rw [List.map_cons, List.erase_cons_head] at split
        exact split.symm
      refine ⟨⟨freed, later.of_perm rest⟩, Event.own_outcome trivial sound.own,
        ?_⟩
      intro other ptr asleep
      refine rest.mem_iff.mpr ?_
      rcases asleep_after asleep with now | ⟨earlier, missed⟩
      · exact (Event.detach_awake now).elim
      · refine (List.mem_erase_of_ne fun same => missed ?_).mpr
          (sound.unreached other ptr earlier)
        rw [broadcastSince, broadcasts, same]
        simp
  | copy awake known found => exact ⟨⟨freed, ledger⟩, sound.own, sound.unreached⟩
  | @wake thread ptr errno reached os error asleep =>
      have words : Op.Words (.woken ptr error) := trivial
      exact sound.after words (Event.woken_ledger ledger) (List.Subset.refl _)

theorem Idle.sound (idle : s.Idle) : s.Sound := by
  refine ⟨⟨[], ?_⟩, idle.own, ?_⟩
  · rw [slots, idle.tokens]
    exact .of_idle idle.named idle.unlinked idle.orphans idle.released
  · intro thread ptr asleep
    rw [idle.asleep] at asleep
    cases asleep

/-- The threads of a process that has loaded the library. -/
def loaded : Watch := ⟨.loaded 1 "d", fun _ => none, [], []⟩

theorem idle_loaded : loaded.Idle := by
  refine ⟨?_, ?_, ?_, rfl, rfl, fun _ => rfl, rfl, rfl⟩
  · decide
  · intro cube member
    cases member
  · intro cube member
    cases member

/-- One thread attaches a slice of a block of one page, and another thread
stores to the rest of the page. -/
theorem run_asleep : ∃ trace finish,
    Run (Step .small) loaded trace finish ∧ finish.tokens = [⟨2, 0⟩] ∧
      finish.asleep 1 = some (2, false) := by
  let s₁ := loaded.after .small 0 (.smooth (.alloc 1) 65536)
  let s₂ := s₁.after .small 0 (.smooth (.slice 65536 1024) 0)
  let attaches : Event := .smooth (.attach 2) 0
  let s₃ : Watch :=
    { s₂.after .small 0 attaches with
      tokens :=
        if returned (attach .small 2 (s₂.process.enter 0 attaches.os)) = some 0
          then ⟨2, (attaches.outcome .small s₂.process).versionAt 2⟩ :: s₂.tokens
        else s₂.tokens }
  let s₄ := s₃.after .small 1 (.smooth (.store 67584 7) 0)
  have step₁ : Step .small loaded (.event 0 (.smooth (.alloc 1) 65536)) s₁ :=
    .call rfl (show 1 < wordSize by decide) trivial
  have step₂ : Step .small s₁ (.event 0 (.smooth (.slice 65536 1024) 0)) s₂ :=
    .call (by decide +kernel) (show _ ∧ _ by decide) trivial
  have step₃ : Step .small s₂ (.event 0 attaches) s₃ :=
    .attach (by decide +kernel)
  have step₄ : Step .small s₃ (.event 1 (.smooth (.store 67584 7) 0)) s₄ :=
    .call (by decide +kernel) trivial trivial
  refine ⟨_, s₄, .cons step₁ (.cons step₂ (.cons step₃ (.cons step₄
    (.nil s₄)))), ?_, ?_⟩
  · decide +kernel
  · decide +kernel

end Watch

end CoralApi
