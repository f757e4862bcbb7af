import CoralApi.Household
import Mathlib.Algebra.Order.BigOperators.Group.List

/-!
# The last janitor leaves nothing

While no call of `__init` and of the janitors fails, every directory has a
janitor that will remove it.  When all processes have ended, the janitors empty
`INACCEL_SHM` in a bounded number of steps.
-/

namespace CoralApi

open Program Transition

section Events

variable {P : PageSize} {p : Process} {dir id : String}

theorem storeByte_names {addr : Nat} {byte : UInt8} :
    ((p.storeByte addr byte).file dir id).isSome = (p.file dir id).isSome := by
  unfold Process.storeByte
  cases found : p.maps.find? fun mapping => mapping.block.Holds addr with
  | none => rfl
  | some mapping =>
      simp only [Process.file, List.find?_map, Option.isSome_map]
      congr 2
      funext file
      simp only [Function.comp]
      split <;> rfl

theorem World.Writes.names {ids : String → Prop} {w w' : World}
    (writes : w.Writes ids w') (other : dir ≠ w.self) :
    (w'.file dir id).isSome = (w.file dir id).isSome := by
  rw [writes.file dir id fun same => absurd same other]

/-- An event makes and removes files in the directory of its process alone. -/
theorem event_names (event : Event) (other : dir ≠ p.self) :
    ((event.outcome P p).file dir id).isSome = (p.file dir id).isSome := by
  obtain ⟨op, errno, os⟩ := event
  have free : (p.enter errno os).held = [] := rfl
  have kept : ∀ {ids : String → Prop} {w'},
      (p.enter errno os).Writes ids w' →
        (w'.toProcess.file dir id).isSome = (p.file dir id).isSome :=
    fun writes => World.Writes.names (w := p.enter errno os) writes other
  have ended : ∀ {ids ids' : String → Prop} {α : Type} {x : Prog α},
      Ensures x (fun _ w' => (p.enter errno os).Writes ids w')
        (fun _ w' => (p.enter errno os).Writes ids' w')
        (p.enter errno os) →
      ((final ((do let _ ← x : Prog Unit) (p.enter errno os))).toProcess.file
        dir id).isSome = (p.file dir id).isSome := fun ensures =>
    final_of (fun p' => (p'.file dir id).isSome = (p.file dir id).isSome)
      ensures (fun _ _ => kept) fun _ _ => kept
  have untouched : ∀ {α : Type} {x : Prog α},
      WritesOnly (fun _ => False) x →
      ((final ((do let _ ← x : Prog Unit) (p.enter errno os))).toProcess.file
        dir id).isSome = (p.file dir id).isSome := fun writes =>
    ended (writes _)
  have made : ∀ size, ((final ((do let _ ← inaccelAlloc P size : Prog Unit)
      (p.enter errno os))).toProcess.file dir id).isSome =
        (p.file dir id).isSome := fun size =>
    final_of (fun p' => (p'.file dir id).isSome = (p.file dir id).isSome)
      ((inaccelAlloc_spec free).and inaccelAlloc_files)
      (fun _ _ ended => kept ended.2.writes) fun _ _ ended => ended.1.elim
  cases op with
  | alloc size => exact made size
  | free addr => exact ended (inaccelFree_writes free)
  | realloc addr newSize =>
      by_cases null : addr = 0
      · subst null
        rw [outcome_realloc_null]
        exact made newSize
      · exact ended (inaccelRealloc_writes null free)
  | slice addr size => exact untouched (writesOnly_slice addr size)
  | attach ptr => exact untouched (writesOnly_attach ptr)
  | detach ptr => exact ended detach_writes
  | woken ptr error => exact untouched (writesOnly_accessWoken ptr error)
  | store addr byte =>
      have ran := @hostStore_run P addr byte (p.enter errno os)
      rw [Process.enter_toProcess] at ran
      by_cases writable : p.Writable P addr
      · rw [if_pos writable] at ran
        have stored : Event.outcome P p ⟨.store addr byte, errno, os⟩ =
            p.storeByte addr byte :=
          congrArg (fun result => (final result).toProcess) ran
        rw [stored]
        exact storeByte_names
      · rw [if_neg writable] at ran
        have faulted : Event.outcome P p ⟨.store addr byte, errno, os⟩ =
            (final ((do let _ ← access P addr : Prog Unit)
              (p.enter errno os))).toProcess :=
          congrArg (fun result => (final result).toProcess) ran
        rw [faulted]
        exact untouched (writesOnly_access addr)

end Events

theorem Family.mem_entries_iff {f : Family} {p : Process} {path id : String} :
    id ∈ f.entries path ↔ ((p.on f.files).file path id).isSome = true := by
  rw [Family.mem_entries, Process.file, List.find?_isSome]
  simp [Process.on]

/-- The steps that a janitor still has to take, when its directory holds this
number of files. -/
def Chore.remaining (files : Nat) : Chore → Nat
  | .starting => files + 4
  | .watching => files + 3
  | .removing entries => entries.length + 2
  | .leaving => 1
  | _ => 0

namespace Household

/-- Nothing fails in `__init` or in a janitor, and no process ends inside of
`__init`. -/
def Act.Orderly (h : Household) : Act → Prop
  | .family (.event _ _) => True
  | .family (.fork pid _ _ os) => ∀ m, h.family.members pid = some m →
      (os m.cubes.length).isDone = true
  | .hire _ reply => reply.isDone = true
  | .exit pid => h.entering pid = false
  | .work pid reply => ∀ janitor ∈ h.janitors, janitor.pid = pid →
      janitor.chore ≠ .watching → reply.isDone = true
  | .kill _ => False

/-- A janitor takes a step that does not fail, and sees that its process has
ended. -/
def Act.Diligent (h : Household) : Act → Prop
  | .work pid reply => ∀ janitor ∈ h.janitors, janitor.pid = pid →
      if janitor.chore = .watching then reply = .failed ESRCH
      else reply.isDone = true
  | _ => False

/-- The steps that the janitors still have to take. -/
def remaining (h : Household) : Nat :=
  (h.janitors.map fun janitor =>
    janitor.chore.remaining (h.family.entries janitor.path).length).sum

/-- `INACCEL_SHM` is empty. -/
def Swept (h : Household) : Prop :=
  h.family.files = [] ∧ ∀ dir ∈ h.dirs, dir = ""

/-- Every directory has a janitor, or will have one, that removes all of it. -/
structure Neat (h : Household) : Prop where
  own : ∀ pid m, h.family.members pid = some m → h.host pid = some pid
  hired : ∀ pid, h.host pid = some pid → h.entering pid = true ∨
    pid ∈ h.janitors.map Janitor.pid
  running : ∀ pid, h.entering pid = true → h.ended pid = false
  well : ∀ janitor ∈ h.janitors,
    janitor.chore.Busy ∨ janitor.chore = .exited 0
  todo : ∀ janitor ∈ h.janitors, ∀ entries,
    janitor.chore = .removing entries → entries.Nodup ∧
      ∀ id, id ∈ entries ↔ id ∈ h.family.entries janitor.path
  files : ∀ file ∈ h.family.files, file.dir ∈ h.dirs ∧ file.dir ≠ ""

section Entries

variable {P : PageSize} {f f' : Family} {dir path id name : String}

theorem mem_entries_remove : name ∈ (f.remove path id).entries dir ↔
    name ∈ f.entries dir ∧ ¬(dir = path ∧ name = id) := by
  simp only [Family.mem_entries, Family.remove, List.mem_filter]
  constructor
  · intro now
    obtain ⟨file, ⟨member, kept⟩, rfl, rfl⟩ := now
    refine ⟨⟨file, member, rfl, rfl⟩, ?_⟩
    intro gone
    simp [gone.1, gone.2] at kept
  · intro now
    obtain ⟨⟨file, member, rfl, rfl⟩, kept⟩ := now
    refine ⟨file, ⟨member, ?_⟩, rfl, rfl⟩
    simpa [← not_and_or] using kept

theorem entries_remove (other : dir ≠ path) :
    (f.remove path id).entries dir = f.entries dir := by
  have same : (f.remove path id).files.filter (fun file => file.dir == dir) =
      f.files.filter fun file => file.dir == dir := by
    simp only [Family.remove, List.filter_filter]
    apply List.filter_congr
    intro file _
    by_cases here : file.dir = dir
    · simp [here, other]
    · simp [here]
  rw [Family.entries, same, Family.entries]

/-- The files in the other directories behind an event. -/
theorem step_entries {pid : Nat} {event : Event}
    {m : Relative} (step : Family.Step P f (.event pid event) f')
    (here : f.members pid = some m) (other : dir ≠ m.self) :
    name ∈ f'.entries dir ↔ name ∈ f.entries dir := by
  cases step with
  | event here' admits =>
      cases here.symm.trans here'
      rw [@Family.mem_entries_iff _ (event.outcome P (m.on f.files)),
        @Family.mem_entries_iff f m.toProcess]
      rw [← event_names (P := P) (p := m.on f.files) event other]
      rfl

end Entries

section Neat

variable {P : PageSize} {h h' : Household} {act : Act} {janitor : Janitor}
  {reply : Reply}

/-- What the janitor of a process does when nothing fails. -/
inductive Works (h : Household) (janitor : Janitor) (reply : Reply) :
    Household → Prop where
  | waits (chore : janitor.chore = .watching) (other : reply ≠ .failed ESRCH) :
      Works h janitor reply h
  | starts (chore : janitor.chore = .starting) :
      Works h janitor reply (h.goes janitor.pid .watching)
  | looks (chore : janitor.chore = .watching) (missed : reply = .failed ESRCH) :
      Works h janitor reply (h.goes janitor.pid
        (.removing (h.family.entries janitor.path)))
  | removes {id : String} {entries : List String}
      (chore : janitor.chore = .removing (id :: entries)) :
      Works h janitor reply
        ({ h with family := h.family.remove janitor.path id }.goes janitor.pid
          (.removing entries))
  | ends (chore : janitor.chore = .removing [])
      (empty : h.family.entries janitor.path = []) :
      Works h janitor reply
        { h with toEstate := h.rmdir janitor.pid janitor.path }
  | leaves (chore : janitor.chore = .leaving) :
      Works h janitor reply (h.goes janitor.pid (.exited 0))

theorem Neat.works (neat : h.Neat) (member : janitor ∈ h.janitors)
    (busy : janitor.chore.Busy)
    (done : janitor.chore ≠ .watching → reply.isDone = true) :
    Works h janitor reply (h.work janitor reply) := by
  unfold work
  cases chore : janitor.chore with
  | starting =>
      rw [chore] at done
      rw [done (by simp)]
      exact .starts chore
  | watching =>
      by_cases missed : reply = .failed ESRCH
      · simp only [if_pos missed]
        exact .looks chore missed
      · simp only [if_neg missed]
        exact .waits chore missed
  | removing entries =>
      rw [chore] at done
      have answered := done (by simp)
      have todo := (neat.todo janitor member entries chore).2
      cases entries with
      | nil =>
          have empty : h.family.entries janitor.path = [] := by
            apply List.eq_nil_iff_forall_not_mem.mpr
            intro id there
            cases (todo id).mpr there
          show Works h janitor reply (if _ then _ else _)
          rw [if_pos ⟨answered, empty⟩]
          exact .ends chore empty
      | cons id entries =>
          have there := (todo id).mp List.mem_cons_self
          show Works h janitor reply (if _ then _ else _)
          rw [if_pos ⟨answered, there⟩]
          exact .removes chore
  | leaving => exact .leaves chore
  | exited status =>
      rw [chore] at busy
      exact busy.elim
  | killed =>
      rw [chore] at busy
      exact busy.elim

/-- Two janitors that have not removed their directories have different
ones. -/
theorem Sound.paths (sound : h.Sound P) {other : Janitor}
    (member : janitor ∈ h.janitors) (early : janitor.chore.Early)
    (member' : other ∈ h.janitors) (early' : other.chore.Early)
    (same : other.path = janitor.path) : other = janitor := by
  have kept := sound.kept
  have owns := (kept.janitors janitor member).1
  have owns' := (kept.janitors other member').1
  rw [same] at owns'
  exact kept.janitor_eq member member' (kept.apart _ _ _ owns' owns
    (kept.early member' early') (kept.early member early))

theorem Sound.paths_ne (sound : h.Sound P) {other : Janitor}
    (member : janitor ∈ h.janitors) (early : janitor.chore.Early)
    (member' : other ∈ h.janitors) (early' : other.chore.Early)
    (different : other.pid ≠ janitor.pid) : other.path ≠ janitor.path := by
  intro same
  apply different
  rw [sound.paths member early member' early' same]

theorem Sound.elsewhere (sound : h.Sound P) (neat : h.Neat) {pid : Nat}
    {m : Relative} (here : h.family.members pid = some m)
    (alive : h.ended pid = false) (member : janitor ∈ h.janitors)
    (late : janitor.chore.Late) (early : janitor.chore.Early) :
    janitor.path ≠ m.self := by
  apply Ne.symm
  apply sound.kept.elsewhere (Family.selves_of_some here) _ member early late
  refine ⟨alive, ?_⟩
  intro owner host
  rw [neat.own pid m here] at host
  rwa [← Option.some.inj host]

theorem Neat.owned (neat : h.Neat) {pid : Nat} {m : Relative}
    (here : h.family.members pid = some m) :
    h.Owns h.family.selves pid m.self :=
  ⟨neat.own pid m here, Family.selves_of_some here⟩

/-- An event makes files in a directory that is there. -/
theorem Neat.event (sound : h.Sound P) (neat : h.Neat) {pid : Nat}
    {event : Event} {m : Relative} {f' : Family}
    (family : Family.Step P h.family (.event pid event) f')
    (here : h.family.members pid = some m) (alive : h.ended pid = false) :
    Neat { h with family := f' } := by
  have selves := family.selves_event
  refine ⟨?_, neat.hired, neat.running, neat.well, ?_, ?_⟩
  · intro other q found
    have before := (congrFun selves other).symm.trans
      (Family.selves_of_some found)
    obtain ⟨q', known, -⟩ := Family.some_of_selves before
    exact neat.own other q' known
  · intro janitor member entries chore
    obtain ⟨once, todo⟩ := neat.todo janitor member entries chore
    refine ⟨once, fun id => (todo id).trans (Iff.symm ?_)⟩
    apply step_entries family here
    apply sound.elsewhere neat here alive member
    · rw [chore]
      trivial
    · rw [chore]
      trivial
  · intro file member
    by_cases mine : file.dir = m.self
    · have owned := neat.owned here
      rw [mine]
      exact ⟨(sound.kept.home owned alive).2, sound.kept.named _ _ owned⟩
    · have listed : file.id ∈ f'.entries file.dir :=
        Family.mem_entries.mpr ⟨file, member, rfl, rfl⟩
      obtain ⟨old, known, dir, -⟩ := Family.mem_entries.mp
        ((step_entries family here mine).mp listed)
      rw [← dir]
      exact neat.files old known

/-- A janitor changes, with a directory that is as its list says. -/
theorem Neat.modifyJanitor (neat : h.Neat) (f' : Family) (dirs : List String)
    {pid : Nat} (change : Janitor → Janitor) (chore : Chore)
    (same : ∀ janitor, (change janitor).pid = janitor.pid)
    (path : ∀ janitor, (change janitor).path = janitor.path)
    (turned : ∀ janitor, (change janitor).chore = chore)
    (members : f'.members = h.family.members)
    (well : chore.Busy ∨ chore = .exited 0)
    (files : ∀ file ∈ f'.files, file.dir ∈ dirs ∧ file.dir ≠ "")
    (others : ∀ other ∈ h.janitors, other.pid ≠ pid → other.chore.Early →
      f'.entries other.path = h.family.entries other.path)
    (todo : ∀ other ∈ h.janitors, other.pid = pid → ∀ entries,
      chore = .removing entries → entries.Nodup ∧
        ∀ id, id ∈ entries ↔ id ∈ f'.entries other.path) :
    Neat ⟨{ h.modifyJanitor pid change with dirs := dirs }, f'⟩ := by
  refine ⟨?_, ?_, neat.running, ?_, ?_, files⟩
  · intro other m found
    have found : f'.members other = some m := found
    rw [members] at found
    exact neat.own other m found
  · intro other host
    show _ ∨ other ∈ (h.modifyJanitor pid change).janitors.map Janitor.pid
    rw [Estate.map_pid_modifyJanitor same]
    exact neat.hired other host
  · intro other member
    rcases Estate.mem_modifyJanitor.mp member with ⟨old, -⟩ |
      ⟨before, old, mine, rfl⟩
    · exact neat.well other old
    · rw [turned]
      exact well
  · intro other member entries removing
    rcases Estate.mem_modifyJanitor.mp member with ⟨old, apart⟩ |
      ⟨before, old, mine, rfl⟩
    · have same := others other old apart (by rw [removing]; trivial)
      obtain ⟨once, todo⟩ := neat.todo other old entries removing
      refine ⟨once, fun id => ?_⟩
      show id ∈ entries ↔ id ∈ f'.entries other.path
      rw [same]
      exact todo id
    · rw [turned] at removing
      rw [path]
      exact todo before old mine entries removing

/-- A janitor goes on, beside the directories. -/
theorem Neat.goes (neat : h.Neat) (f' : Family) {pid : Nat} (chore : Chore)
    (members : f'.members = h.family.members)
    (well : chore.Busy ∨ chore = .exited 0)
    (files : ∀ file ∈ f'.files, file.dir ∈ h.dirs ∧ file.dir ≠ "")
    (others : ∀ other ∈ h.janitors, other.pid ≠ pid → other.chore.Early →
      f'.entries other.path = h.family.entries other.path)
    (todo : ∀ other ∈ h.janitors, other.pid = pid → ∀ entries,
      chore = .removing entries → entries.Nodup ∧
        ∀ id, id ∈ entries ↔ id ∈ f'.entries other.path) :
    Neat ({ h with family := f' }.goes pid chore) :=
  neat.modifyJanitor f' h.dirs (fun janitor => { janitor with chore := chore })
    chore (fun _ => rfl) (fun _ => rfl) (fun _ => rfl) members well files others
    todo

/-- What a janitor does leaves all in order. -/
theorem Neat.worked (sound : h.Sound P) (neat : h.Neat)
    (member : janitor ∈ h.janitors)
    (works : Works h janitor reply h') : h'.Neat := by
  have mine : ∀ other ∈ h.janitors, other.pid = janitor.pid →
      other = janitor := fun other member' same =>
    sound.kept.janitor_eq member member' same
  cases works with
  | waits chore missed => exact neat
  | starts chore =>
      exact neat.goes h.family .watching rfl (.inl trivial) neat.files
        (fun _ _ _ _ => rfl) fun _ _ _ _ => Chore.noConfusion
  | looks chore missed =>
      apply neat.goes h.family (.removing _) rfl (.inl trivial) neat.files
        fun _ _ _ _ => rfl
      intro other member' same entries removing
      cases removing
      rw [mine other member' same]
      exact ⟨List.nodup_dedup _, fun _ => Iff.rfl⟩
  | @removes id entries chore =>
      have early : janitor.chore.Early := by
        rw [chore]
        trivial
      apply neat.goes (h.family.remove janitor.path id) (.removing entries) rfl
        (.inl trivial)
      · intro file kept
        exact neat.files file (List.mem_filter.mp kept).1
      · intro other member' different early'
        exact entries_remove
          (sound.paths_ne member early member' early' different)
      · intro other member' same entries' removing
        cases removing
        rw [mine other member' same]
        obtain ⟨once, todo⟩ := neat.todo janitor member _ chore
        rw [List.nodup_cons] at once
        refine ⟨once.2, fun name => ?_⟩
        rw [mem_entries_remove, ← todo, List.mem_cons]
        constructor
        · intro inside
          refine ⟨.inr inside, fun gone => once.1 ?_⟩
          rw [← gone.2]
          exact inside
        · intro inside
          rcases inside with ⟨rfl | inside, kept⟩
          · exact absurd ⟨rfl, rfl⟩ kept
          · exact inside
  | ends chore empty =>
      apply neat.modifyJanitor h.family
        (h.rmdir janitor.pid janitor.path).dirs
        (fun janitor => { janitor with chore := .leaving, cleared := true })
        .leaving (fun _ => rfl) (fun _ => rfl) (fun _ => rfl) rfl (.inl trivial)
      · intro file kept
        obtain ⟨dir, named⟩ := neat.files file kept
        refine ⟨List.mem_filter.mpr ⟨dir, ?_⟩, named⟩
        rw [decide_eq_true_eq]
        intro here
        have listed : file.id ∈ h.family.entries janitor.path :=
          Family.mem_entries.mpr ⟨file, kept, here, rfl⟩
        rw [empty] at listed
        cases listed
      · exact fun _ _ _ _ => rfl
      · exact fun _ _ _ _ => Chore.noConfusion
  | leaves chore =>
      exact neat.goes h.family (.exited 0) rfl (.inr rfl) neat.files
        (fun _ _ _ _ => rfl) fun _ _ _ _ => Chore.noConfusion

/-- A new process has a directory of its own. -/
theorem Neat.forked (sound : h.Sound P) (neat : h.Neat)
    {pid child errno value : Nat} {os : Nat → Reply} {name : String}
    {f' : Family} (family : Family.Step P h.family (.fork pid child errno os) f')
    (new : h.family.selves child = none)
    (selves : f'.selves = Function.update h.family.selves child (some name))
    (host : Option Nat) :
    Neat ⟨h.makeSelf child host (.done value name), f'⟩ := by
  have files : f'.files = h.family.files := by
    cases family
    rfl
  obtain ⟨unhosted, running, -⟩ := sound.kept.absent child new
  refine ⟨?_, ?_, ?_, neat.well, ?_, ?_⟩
  · intro other m found
    have named := Family.selves_of_some found
    rw [selves] at named
    by_cases same : other = child
    · rw [same]
      exact Function.update_self ..
    · rw [Function.update_of_ne same] at named
      obtain ⟨m', known, -⟩ := Family.some_of_selves named
      exact (Function.update_of_ne same ..).trans (neat.own other m' known)
  · intro other hosted
    by_cases same : other = child
    · rw [same]
      exact .inl (Function.update_self ..)
    · rcases neat.hired other ((Function.update_of_ne same ..).symm.trans hosted)
        with entering | hired
      · exact .inl ((Function.update_of_ne same ..).trans entering)
      · exact .inr hired
  · intro other entering
    by_cases same : other = child
    · rw [same]
      exact running
    · exact neat.running other
        ((Function.update_of_ne same ..).symm.trans entering)
  · intro janitor member entries chore
    obtain ⟨once, todo⟩ := neat.todo janitor member entries chore
    refine ⟨once, fun id => (todo id).trans ?_⟩
    rw [Family.mem_entries, Family.mem_entries, files]
  · intro file member
    rw [files] at member
    obtain ⟨dir, named⟩ := neat.files file member
    exact ⟨List.mem_cons_of_mem _ dir, named⟩

theorem Neat.hire (neat : h.Neat) {pid : Nat} {path : String}
    (done : reply.isDone = true) :
    Neat { h with toEstate := h.hire pid path reply } := by
  have janitors : (h.hire pid path reply).janitors =
      h.janitors ++ [⟨pid, path, .starting, false⟩] := if_pos done
  refine ⟨neat.own, ?_, ?_, ?_, ?_, neat.files⟩
  · intro other hosted
    show _ ∨ other ∈ (h.hire pid path reply).janitors.map Janitor.pid
    rw [janitors, List.map_append]
    by_cases same : other = pid
    · exact .inr (by simp [same])
    · rcases neat.hired other hosted with entering | hired
      · exact .inl ((Function.update_of_ne same ..).trans entering)
      · exact .inr (List.mem_append_left _ hired)
  · intro other entering
    have different : other ≠ pid := by
      intro same
      rw [same] at entering
      exact absurd ((Function.update_self ..).symm.trans entering) (by decide)
    exact neat.running other
      ((Function.update_of_ne different ..).symm.trans entering)
  · intro other member
    rcases List.mem_append.mp (janitors ▸ member) with old | new
    · exact neat.well other old
    · rw [List.mem_singleton.mp new]
      exact .inl trivial
  · intro other member entries chore
    rcases List.mem_append.mp (janitors ▸ member) with old | new
    · exact neat.todo other old entries chore
    · rw [List.mem_singleton.mp new] at chore
      cases chore

theorem Neat.exit (neat : h.Neat) {pid : Nat} (settled : h.entering pid = false) :
    Neat { h with toEstate := h.exit pid } := by
  refine ⟨neat.own, neat.hired, ?_, neat.well, neat.todo, neat.files⟩
  intro other entering
  have different : other ≠ pid := by
    intro same
    have entering : h.entering other = true := entering
    rw [same, settled] at entering
    cases entering
  exact (Function.update_of_ne different ..).trans (neat.running other entering)

theorem Neat.step (sound : h.Sound P) (neat : h.Neat) (step : Step P h act h')
    (orderly : act.Orderly h) : h'.Neat := by
  cases step with
  | event family here able dir => exact neat.event sound family here able.1
  | @fork pid child errno os m f' family here able fresh =>
      obtain ⟨new, selves⟩ := family.selves_fork sound.orderly.sound here
      cases reply : os m.cubes.length with
      | failed error =>
          have done := orderly m here
          rw [reply] at done
          cases done
      | done value name =>
          exact neat.forked sound family new (selves.trans (by rw [reply]; rfl)) _
  | @hire pid reply m here alive entering => exact neat.hire orderly
  | @exit pid m here alive => exact neat.exit orderly
  | @work janitor reply member busy truth =>
      exact neat.worked sound member
        (neat.works member busy (orderly janitor member rfl))
  | kill member busy => exact orderly.elim

/-- A janitor that goes on has less to do. -/
theorem remaining_modifyJanitor {f' : Family} {dirs : List String}
    {change : Janitor → Janitor} {chore : Chore}
    (sound : h.Sound P) (member : janitor ∈ h.janitors)
    (path : ∀ janitor, (change janitor).path = janitor.path)
    (turned : ∀ janitor, (change janitor).chore = chore)
    (others : ∀ other ∈ h.janitors, other.pid ≠ janitor.pid →
      other.chore.Early → f'.entries other.path = h.family.entries other.path)
    (less : chore.remaining (f'.entries janitor.path).length <
      janitor.chore.remaining (h.family.entries janitor.path).length) :
    remaining ⟨{ h.modifyJanitor janitor.pid change with dirs := dirs }, f'⟩ <
      h.remaining := by
  simp only [remaining, Estate.modifyJanitor, List.map_map]
  apply List.sum_lt_sum
  · intro other member'
    simp only [Function.comp]
    by_cases same : other.pid = janitor.pid
    · rw [sound.kept.janitor_eq member member' same, if_pos rfl, path, turned]
      exact Nat.le_of_lt less
    · rw [if_neg same]
      cases state : other.chore with
      | leaving => exact Nat.le_refl _
      | exited status => exact Nat.le_refl _
      | killed => exact Nat.le_refl _
      | _ => rw [others other member' same (by rw [state]; trivial)]
  · refine ⟨janitor, member, ?_⟩
    simpa only [Function.comp, if_pos, path, turned] using less

theorem remaining_goes {f' : Family} {chore : Chore}
    (sound : h.Sound P) (member : janitor ∈ h.janitors)
    (others : ∀ other ∈ h.janitors, other.pid ≠ janitor.pid →
      other.chore.Early → f'.entries other.path = h.family.entries other.path)
    (less : chore.remaining (f'.entries janitor.path).length <
      janitor.chore.remaining (h.family.entries janitor.path).length) :
    remaining ({ h with family := f' }.goes janitor.pid chore) <
      h.remaining :=
  @remaining_modifyJanitor P h janitor f' h.dirs
    (fun janitor => { janitor with chore := chore }) chore sound member
    (fun _ => rfl) (fun _ => rfl) others less

theorem Works.remaining (works : Works h janitor reply h') (sound : h.Sound P)
    (member : janitor ∈ h.janitors)
    (looks : janitor.chore = .watching → reply = .failed ESRCH) :
    h'.remaining < h.remaining := by
  cases works with
  | waits chore missed => exact absurd (looks chore) missed
  | starts chore =>
      apply remaining_goes sound member fun _ _ _ _ => rfl
      rw [chore]
      exact Nat.lt_succ_self _
  | looks chore missed =>
      apply remaining_goes sound member fun _ _ _ _ => rfl
      rw [chore]
      exact Nat.lt_succ_self _
  | removes chore =>
      have early : janitor.chore.Early := by
        rw [chore]
        trivial
      apply remaining_goes sound member fun other member' different early' =>
        entries_remove (sound.paths_ne member early member' early' different)
      rw [chore]
      exact Nat.lt_succ_self _
  | ends chore empty =>
      have less : Chore.leaving.remaining
          (h.family.entries janitor.path).length <
            janitor.chore.remaining (h.family.entries janitor.path).length := by
        rw [chore]
        exact Nat.lt_succ_self _
      exact @remaining_modifyJanitor P h janitor h.family
        (h.rmdir janitor.pid janitor.path).dirs
        (fun janitor => { janitor with chore := .leaving, cleared := true })
        .leaving sound member (fun _ => rfl) (fun _ => rfl)
        (fun _ _ _ _ => rfl) less
  | leaves chore =>
      apply remaining_goes sound member fun _ _ _ _ => rfl
      rw [chore]
      exact Nat.lt_succ_self _

/-- All processes have ended. -/
def Ended (h : Household) : Prop :=
  ∀ pid m, h.family.members pid = some m → h.ended pid = true

/-- A household that the janitors alone go on with. -/
structure Closing (P : PageSize) (h : Household) : Prop where
  sound : h.Sound P
  neat : h.Neat
  ended : h.Ended

theorem Works.ended (works : Works h janitor reply h') (ended : h.Ended) :
    h'.Ended := by
  cases works <;> exact ended

theorem Closing.step (closing : h.Closing P) (diligent : act.Diligent h)
    (step : Step P h act h') : h'.Closing P ∧ h'.remaining < h.remaining := by
  cases act with
  | work pid answer =>
      cases step with
      | @work janitor _ member busy truth =>
          have able := diligent janitor member rfl
          have done : janitor.chore ≠ .watching → answer.isDone = true := by
            intro other
            rwa [if_neg other] at able
          have looks : janitor.chore = .watching → answer = .failed ESRCH := by
            intro watches
            rwa [if_pos watches] at able
          have works := closing.neat.works member busy done
          exact ⟨⟨closing.sound.step (.work member busy truth),
            closing.neat.worked closing.sound member works,
            works.ended closing.ended⟩,
            works.remaining closing.sound member looks⟩
  | _ => exact diligent.elim

/-- A janitor that has not ended can go on. -/
theorem Closing.goes_on (closing : h.Closing P) (member : janitor ∈ h.janitors)
    (busy : janitor.chore.Busy) : ∃ act next, act.Diligent h ∧
      Step P h act next := by
  have kept := closing.sound.kept
  obtain ⟨m, here, -⟩ :=
    Family.some_of_selves (kept.janitors janitor member).1.2
  have ended := closing.ended janitor.pid m here
  by_cases watches : janitor.chore = .watching
  · refine ⟨.work janitor.pid (.failed ESRCH), _, ?_,
      .work member busy fun _ _ => ended⟩
    intro other member' same
    rw [kept.janitor_eq member member' same, if_pos watches]
  · refine ⟨.work janitor.pid (.done 0 ""), _, ?_,
      .work member busy fun _ _ => ended⟩
    intro other member' same
    rw [kept.janitor_eq member member' same, if_neg watches]
    rfl

/-- Nothing is left when the janitors have ended. -/
theorem Closing.swept (closing : h.Closing P)
    (done : ∀ janitor ∈ h.janitors, ¬janitor.chore.Busy) : h.Swept := by
  have kept := closing.sound.kept
  have dirs : ∀ dir ∈ h.dirs, dir = "" := by
    intro dir member
    rcases (kept.there dir).mp member with root | ⟨owner, owns, early⟩
    · exact root
    · obtain ⟨m, here, -⟩ := Family.some_of_selves owns.2
      have ended := closing.ended owner m here
      rcases closing.neat.hired owner owns.1 with entering | hired
      · have running := closing.neat.running owner entering
        rw [ended] at running
        cases running
      · obtain ⟨janitor, member, same⟩ := List.mem_map.mp hired
        rcases closing.neat.well janitor member with busy | exited
        · exact absurd busy (done janitor member)
        · have cleared : janitor.cleared = true := by
            apply (kept.logged janitor member).done
            rw [exited]
            trivial
          exact absurd ⟨janitor, member, same, cleared⟩ early
  refine ⟨?_, dirs⟩
  apply List.eq_nil_iff_forall_not_mem.mpr
  intro file member
  obtain ⟨dir, named⟩ := closing.neat.files file member
  exact named (dirs file.dir dir)

theorem neat_loaded (root value : Nat) (name : String) :
    (loaded root (.done value name)).Neat := by
  refine ⟨?_, ?_, ?_, ?_, ?_, ?_⟩
  · intro pid m here
    obtain ⟨rfl, -⟩ := Family.members_loaded here
    exact Function.update_self ..
  · intro pid hosted
    by_cases same : pid = root
    · rw [same]
      exact .inl (Function.update_self ..)
    · have hosted := (Function.update_of_ne same ..).symm.trans hosted
      cases hosted
  · exact fun _ _ => rfl
  · intro janitor member
    cases member
  · intro janitor member
    cases member
  · intro file member
    cases member

end Neat

end Household

section Homes

open Household

variable {P : PageSize} {root value : Nat} {name : String}
  {finish final : Household} {trace trace' : List (Household × Household.Act)}

/-- While no call of `__init` and of the janitors fails, the janitors of
processes that have all ended empty `INACCEL_SHM` in a bounded number of
steps. -/
theorem homes_swept (given : name ≠ "")
    (run : Run (Household.Step P) (.loaded root (.done value name)) trace finish)
    (orderly : ∀ point ∈ trace, point.2.Orderly point.1)
    (ended : finish.Ended)
    (run' : Run (Household.Step P) finish trace' final)
    (diligent : ∀ point ∈ trace', point.2.Diligent point.1) :
    trace'.length ≤ finish.remaining ∧
      (final.Swept ∨ ∃ act next, act.Diligent final ∧
        Household.Step P final act next) := by
  have named : ∀ value' name', Reply.done value name = .done value' name' →
      name' ≠ "" := by
    intro value' name' same
    cases same
    exact given
  have start := run.invariant_under (fun h => h.Sound P ∧ h.Neat)
    (fun h act => act.Orderly h) (fun _ _ _ both orderly step =>
      ⟨both.1.step step, both.2.step both.1 step orderly⟩)
    ⟨sound_loaded root named, neat_loaded root value name⟩ orderly finish
    (finish_mem_visited trace finish)
  have closing : finish.Closing P := ⟨start.1, start.2, ended⟩
  have bound := run'.length_le_rank (Closing P) (fun h act => act.Diligent h)
    remaining (fun _ _ _ closing diligent step =>
      (closing.step diligent step).1)
    (fun _ _ _ closing diligent step => (closing.step diligent step).2)
    closing diligent
  have last := run'.invariant_under (Closing P) (fun h act => act.Diligent h)
    (fun _ _ _ closing diligent step => (closing.step diligent step).1)
    closing diligent final (finish_mem_visited trace' final)
  refine ⟨by omega, ?_⟩
  by_cases done : ∀ janitor ∈ final.janitors, ¬janitor.chore.Busy
  · exact .inl (last.swept done)
  · simp only [not_forall, not_not] at done
    obtain ⟨janitor, member, busy⟩ := done
    exact .inr (last.goes_on member busy)

end Homes

/-- The process has ended. -/
def Household.left : Household :=
  { Household.settled with toEstate := Household.settled.exit 1 }

/-- The janitor of the process, with what it does next. -/
def Janitor.next (chore : Chore) : Janitor :=
  ⟨1, "d", chore, chore == .leaving⟩

/-- The janitor goes on by these steps. -/
def Household.serve (steps : List (Chore × Reply)) (h : Household) : Household :=
  steps.foldl (fun h step => h.work (.next step.1) step.2) h

/-- The way of the janitor. -/
def Household.way : List (Chore × Reply) :=
  [(.starting, .done 0 ""), (.watching, .failed ESRCH),
    (.removing ["a"], .done 0 ""), (.removing [], .done 0 ""),
    (.leaving, .done 0 "")]

theorem Household.run_left : ∃ trace,
    Run (Household.Step .small) (.loaded 1 (.done 0 "d")) trace .left ∧
      ∀ point ∈ trace, point.2.Orderly point.1 := by
  have exits : Household.Step .small .settled (.exit 1) .left :=
    .exit (show _ = some Relative.filled from rfl) rfl
  refine ⟨_, Household.run_settled.1.snoc exits, ?_⟩
  intro point member
  rcases List.mem_append.mp member with before | last
  · simp only [settling, List.mem_cons, List.not_mem_nil, or_false] at before
    rcases before with rfl | rfl
    · rfl
    · trivial
  · rw [List.mem_singleton.mp last]
    exact show Household.settled.entering 1 = false by decide +kernel

theorem Household.serve_snoc {past : List (Chore × Reply)} {chore : Chore}
    {reply : Reply} {h : Household} (janitors : (h.serve past).janitors =
      [.next chore]) (busy : chore.Busy) (ended : (h.serve past).ended 1 = true)
    (able : if chore = .watching then reply = .failed ESRCH
      else reply.isDone = true) :
    Household.Step .small (h.serve past) (.work 1 reply)
        (h.serve (past ++ [(chore, reply)])) ∧
      Act.Diligent (h.serve past) (.work 1 reply) := by
  constructor
  · have next : h.serve (past ++ [(chore, reply)]) =
        (h.serve past).work (.next chore) reply := by
      rw [Household.serve, Household.serve, List.foldl_append]
      rfl
    rw [next]
    exact @Household.Step.work .small (h.serve past) (.next chore) reply
      (janitors ▸ List.mem_cons_self) busy fun _ _ => ended
  · intro janitor member _
    rw [janitors] at member
    rw [List.mem_singleton.mp member]
    exact able

theorem Household.run_way : ∃ trace,
    Run (Household.Step .small) .left trace (Household.left.serve Household.way) ∧
      (∀ point ∈ trace, point.2.Diligent point.1) ∧ trace.length = 5 := by
  obtain ⟨starts, able₁⟩ := @Household.serve_snoc [] .starting (.done 0 "")
    .left rfl trivial rfl rfl
  obtain ⟨looks, able₂⟩ := @Household.serve_snoc [(.starting, .done 0 "")]
    .watching (.failed ESRCH) .left rfl trivial rfl rfl
  obtain ⟨removes, able₃⟩ := @Household.serve_snoc
    [(.starting, .done 0 ""), (.watching, .failed ESRCH)] (.removing ["a"])
    (.done 0 "") .left rfl trivial rfl rfl
  obtain ⟨ends, able₄⟩ := @Household.serve_snoc
    [(.starting, .done 0 ""), (.watching, .failed ESRCH),
      (.removing ["a"], .done 0 "")] (.removing []) (.done 0 "") .left rfl
    trivial rfl rfl
  obtain ⟨leaves, able₅⟩ := @Household.serve_snoc
    [(.starting, .done 0 ""), (.watching, .failed ESRCH),
      (.removing ["a"], .done 0 ""), (.removing [], .done 0 "")] .leaving
    (.done 0 "") .left rfl trivial rfl rfl
  refine ⟨_, .cons starts (.cons looks (.cons removes (.cons ends
    (.cons leaves (.nil _))))), ?_, rfl⟩
  intro point member
  simp only [List.mem_cons, List.not_mem_nil, or_false] at member
  rcases member with rfl | rfl | rfl | rfl | rfl
  · exact able₁
  · exact able₂
  · exact able₃
  · exact able₄
  · exact able₅

theorem homes_swept_left : ∃ trace : List (Household × Household.Act),
    trace.length = 5 ∧ trace.length ≤ Household.left.remaining ∧
      ((Household.left.serve Household.way).Swept ∨ ∃ act next,
        act.Diligent (Household.left.serve Household.way) ∧
          Household.Step .small (Household.left.serve Household.way) act
            next) := by
  obtain ⟨trace, run, orderly⟩ := Household.run_left
  obtain ⟨trace', run', diligent, length⟩ := Household.run_way
  have ended : Household.left.Ended := by
    intro pid m here
    have found : Function.update (Family.loaded 1 "d").members 1
      (some Relative.filled) pid = some m := here
    rcases some_update found with ⟨rfl, -⟩ | ⟨-, found⟩
    · rfl
    · obtain ⟨rfl, -⟩ := Family.members_loaded found
      rfl
  obtain ⟨bound, rest⟩ :=
    homes_swept (by decide) run orderly ended run' diligent
  exact ⟨trace', length, bound, rest⟩

end CoralApi
