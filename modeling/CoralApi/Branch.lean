import CoralApi.Fork
import CoralApi.Guard

/-!
# A process and its descendants

A branch follows the calls of one process, then those of one of its children,
and so on.  All files ever made have different names.  A child has inherited
cubes: those of another process id.
-/

namespace CoralApi

open Program Transition

section Events

variable {P : PageSize} {p : Process}

/-- A store goes into a mapping of the file. -/
theorem storeByte_file {addr : Nat} {byte : UInt8} {dir id : String} :
    (p.storeByte addr byte).file dir id = p.file dir id ∨
      ∃ mapping ∈ p.maps, mapping.dir = dir ∧ mapping.id = id ∧
        mapping.block.Holds addr := by
  unfold Process.storeByte
  cases found : p.maps.find? fun mapping => mapping.block.Holds addr with
  | none => exact .inl rfl
  | some mapping =>
      by_cases here : dir = mapping.dir ∧ id = mapping.id
      · refine .inr ⟨mapping, List.mem_of_find?_eq_some found, here.1.symm,
          here.2.symm, ?_⟩
        simpa using List.find?_some found
      · exact .inl (file_map (fun _ => ⟨rfl, rfl⟩) here)

/-- A file is mapped at a writable page. -/
def Process.Storable (P : PageSize) (dir id : String) (p : Process) : Prop :=
  ∃ mapping ∈ p.maps, mapping.dir = dir ∧ mapping.id = id ∧
    ∃ addr, mapping.block.Holds addr ∧ p.Writable P addr

/-- The files that an event can change. -/
structure Process.Files (P : PageSize) (p : Process) (event : Event)
    (p' : Process) : Prop where
  self : p'.self = p.self
  file : ∀ dir id, p'.file dir id = p.file dir id ∨
    dir = p.self ∧ (p.OwnFile id ∨ event.made = some id) ∨
    p.Storable P dir id

theorem World.Writes.files {event : Event} {ids : String → Prop} {w w' : World}
    (writes : w.Writes ids w')
    (known : ∀ id, ids id → w.OwnFile id ∨ event.made = some id) :
    w.Files P event w'.toProcess := by
  refine ⟨writes.self, fun dir id => ?_⟩
  by_cases here : dir = w.self ∧ ids id
  · exact .inr (.inl ⟨here.1, known id here.2⟩)
  · exact .inl (writes.file dir id fun same written => here ⟨same, written⟩)

theorem event_files (event : Event) :
    p.Files P event (event.outcome P p) := by
  obtain ⟨op, errno, os⟩ := event
  have free : (p.enter errno os).held = [] := rfl
  have owned : ∀ {event : Event} {w'},
      (p.enter errno os).Writes p.OwnFile w' →
        p.Files P event w'.toProcess := fun writes =>
    World.Writes.files (w := p.enter errno os) writes fun _ => .inl
  have untouched : ∀ {event : Event} {α : Type} {x : Prog α},
      WritesOnly p.OwnFile x → p.Files P event
        (final ((do let _ ← x : Prog Unit) (p.enter errno os))).toProcess :=
    fun writes => final_of (p.Files P _) (writes _) (fun _ _ => owned)
      fun _ _ => owned
  have made : ∀ {event : Event} {size : Nat},
      (∀ id, (p.enter errno os).Names id → event.made = some id) →
        p.Files P event (final ((do let _ ← inaccelAlloc P size : Prog Unit)
          (p.enter errno os))).toProcess := fun named =>
    final_of (p.Files P _) ((inaccelAlloc_spec free).and inaccelAlloc_files)
      (fun _ _ ended => World.Writes.files (w := p.enter errno os)
        ended.2.writes fun id known => .inr (named id known))
      fun _ _ ended => ended.1.elim
  cases op with
  | alloc size => exact made fun _ => Event.made_alloc
  | free addr =>
      exact final_of (p.Files P _) (inaccelFree_writes free)
        (fun _ _ => owned) fun _ _ => owned
  | realloc addr newSize =>
      by_cases null : addr = 0
      · subst null
        rw [outcome_realloc_null]
        exact made fun _ => Event.made_realloc
      · exact final_of (p.Files P _) (inaccelRealloc_writes null free)
          (fun _ _ => owned) fun _ _ => owned
  | slice addr size => exact untouched (writesOnly_slice addr size)
  | attach ptr => exact untouched (writesOnly_attach ptr)
  | detach ptr =>
      exact final_of (p.Files P _) detach_writes (fun _ _ => owned)
        fun _ _ => owned
  | woken ptr error => exact untouched (writesOnly_accessWoken ptr error)
  | store addr byte =>
      have ran := @hostStore_run P addr byte (p.enter errno os)
      rw [Process.enter_toProcess] at ran
      by_cases writable : p.Writable P addr
      · rw [if_pos writable] at ran
        have stored : Event.outcome P p ⟨.store addr byte, errno, os⟩ =
            p.storeByte addr byte :=
          congrArg (fun result => (final result).toProcess) ran
        rw [stored]
        refine ⟨?_, fun dir id => ?_⟩
        · obtain ⟨files, same⟩ := storeByte_eq addr byte p
          rw [same]
        · rcases storeByte_file with same | ⟨mapping, inside, here, there, holds⟩
          · exact .inl same
          · exact .inr (.inr ⟨mapping, inside, here, there, addr, holds,
              writable⟩)
      · rw [if_neg writable] at ran
        have faulted : Event.outcome P p ⟨.store addr byte, errno, os⟩ =
            (final ((do let _ ← access P addr : Prog Unit)
              (p.enter errno os))).toProcess :=
          congrArg (fun result => (final result).toProcess) ran
        rw [faulted]
        exact untouched (writesOnly_access addr)

end Events

section Fork

variable {P : PageSize} {w : World}

/-- The pages of the cubes are read-only, and no other page has opened. -/
def Shut (P : PageSize) (cubes : List Cube) (before after : Nat → Prot) :
    Prop :=
  (∀ cube ∈ cubes, ∀ page, cube.page.HasPage P page → after page = .read) ∧
    ∀ page, before page = .read → after page = .read

theorem lockCubes_run {cubes : List Cube}
    (distinct : (cubes.map Cube.ptr).Nodup)
    (free : ∀ cube ∈ cubes, Lock.cube cube.ptr ∉ w.held) :
    ∃ locks, lockCubes cubes w = .ok () (w.holding locks) := by
  induction cubes generalizing w with
  | nil => exact ⟨w.held, rfl⟩
  | cons cube cubes induction =>
      obtain ⟨absent, distinct⟩ := List.nodup_cons.mp distinct
      have first := lock_run (free cube List.mem_cons_self)
      have others : ∀ other ∈ cubes, Lock.cube other.ptr ∉
          (w.holding (.cube cube.ptr :: w.held)).held := by
        intro other inside locked
        rcases List.mem_cons.mp locked with same | held
        · rw [Lock.cube.injEq] at same
          exact absent (same ▸ List.mem_map_of_mem inside)
        · exact free other (List.mem_cons_of_mem _ inside) held
      obtain ⟨locks, rest⟩ := induction distinct others
      refine ⟨locks, ?_⟩
      simp only [lockCubes, bind, EStateM.bind, first, rest]
      rfl

/-- The loop of `__child` when `mprotect` does not fail. -/
theorem protectCubes_spec {cubes : List Cube}
    (answered : ∀ index < cubes.length, (w.os index).isDone = true) :
    Ensures (protectCubes P cubes)
      (fun _ w' => ∃ prot, w'.toProcess = { w.toProcess with prot := prot } ∧
        Shut P cubes w.prot prot)
      (fun _ _ => False) w := by
  induction cubes generalizing w with
  | nil =>
      exact ⟨w.prot, rfl, by simp [Shut]⟩
  | cons cube cubes induction =>
      cases reply : w.os 0 with
      | failed error =>
          have first := answered 0 (Nat.zero_lt_succ _)
          rw [reply] at first
          cases first
      | done value name =>
          have shut : logged (Process.protectPages P cube.page.addr
              cube.page.size .read) w = .ok () (w.asked.put
                (w.protectPages P cube.page.addr cube.page.size .read)) := by
            simp only [logged, reply]
          apply Ensures.step shut
          apply unlock_same.bind
          rintro _ w₁ ⟨same, os⟩
          have rest : ∀ index < cubes.length, (w₁.os index).isDone = true := by
            intro index below
            rw [os]
            exact answered (index + 1) (Nat.succ_lt_succ below)
          refine (induction rest).mono ?_ fun _ _ => id
          rintro _ w₂ ⟨prot, effect, reads, kept⟩
          rw [same] at effect kept
          refine ⟨prot, effect, ?_, ?_⟩
          · intro other inside page has
            rcases List.mem_cons.mp inside with rfl | inside
            · exact kept page (if_pos has)
            · exact reads other inside page has
          · intro page read
            apply kept page
            show (if _ then Prot.read else w.prot page) = .read
            split
            · rfl
            · exact read

theorem prepare_run (free : w.held = [])
    (distinct : (w.cubes.map Cube.ptr).Nodup) :
    ∃ locks, prepare w = .ok () (w.holding locks) := by
  obtain ⟨locks, all⟩ := @lockCubes_run (w.holding [.cubes]) w.cubes distinct
    (by simp)
  refine ⟨locks, ?_⟩
  have first := @lock_run .cubes w (by simp [free])
  rw [free] at first
  simp only [prepare, bind, EStateM.bind, first]
  exact all

theorem unlockCubes_same (cubes : List Cube) :
    Ensures (unlockCubes cubes)
      (fun _ w' => w'.toProcess = w.toProcess) (fun _ _ => False) w := by
  induction cubes generalizing w with
  | nil => exact rfl
  | cons cube cubes induction =>
      refine unlock_same.bind fun _ w₁ ⟨same, _⟩ => ?_
      refine induction.mono ?_ fun _ _ => id
      exact fun _ w₂ rest => rest.trans same

/-- The memory of the parent. -/
theorem forkParent_spec (free : w.held = [])
    (distinct : (w.cubes.map Cube.ptr).Nodup) :
    Ensures forkParent (fun _ w' => w'.toProcess = w.toProcess)
      (fun _ _ => False) w := by
  obtain ⟨locks, prepared⟩ := prepare_run free distinct
  apply Ensures.step prepared
  unfold parent
  apply Ensures.step rfl
  refine (unlockCubes_same _).bind fun _ w₁ same => ?_
  refine unlock_same.mono ?_ fun _ _ => id
  exact fun _ w₂ ⟨last, _⟩ => last.trans same

/-- The memory of the child, when `mprotect` does not fail. -/
theorem forkChild_spec {pid : Nat} (free : w.held = [])
    (distinct : (w.cubes.map Cube.ptr).Nodup)
    (answered : ∀ index < w.cubes.length, (w.os index).isDone = true) :
    Ensures (forkChild P pid)
      (fun _ w' => ∃ self prot,
        w'.toProcess = { w.copy pid with self := self, prot := prot } ∧
          Shut P w.cubes w.prot prot)
      (fun _ _ => False) w := by
  obtain ⟨locks, prepared⟩ := prepare_run free distinct
  apply Ensures.step prepared
  apply Ensures.step rfl
  refine ensures_bind.mpr ?_
  apply Ensures.step rfl
  have protects := @protectCubes_spec P
    ((w.holding locks).put (w.copy pid)) w.cubes answered
  refine protects.bind ?_
  rintro _ w₁ ⟨prot, effect, shut⟩
  refine unlock_same.mono ?_ fun _ _ => id
  rintro _ w₂ ⟨same, -⟩
  have here : w₂.toProcess = { w.copy pid with prot := prot } :=
    same.trans effect
  unfold Self.init
  apply Ensures.step rfl
  cases w₂.os 0 with
  | done value self =>
      refine ⟨self, prot, ?_, shut⟩
      show { w₂.toProcess with self := self } = _
      rw [here]
  | failed error => exact ⟨w.self, prot, here, shut⟩

end Fork

end CoralApi
