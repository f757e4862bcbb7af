import CoralApi.Estate
import CoralApi.Heaps
import CoralApi.Mailing
import Mathlib.Data.List.Dedup

/-!
# The files of a tree of processes with its janitors

Processes come and end while the janitors look for them and remove the
directories of those that have ended.  What is removed is never below a process
that has not ended, unless it uses the directory of one that has.
-/

namespace CoralApi

open Program Transition

structure Household extends Estate where
  family : Family

/-- The name that a process has for its directory. -/
def Family.selves (f : Family) : Nat → Option String := fun pid =>
  (f.members pid).map fun m => m.self

/-- `remove`, on a file. -/
def Family.remove (path id : String) (f : Family) : Family :=
  { f with
    files := f.files.filter fun file =>
      !(file.dir == path && file.id == id) }

/-- The files in a directory. -/
def Family.entries (path : String) (f : Family) : List String :=
  ((f.files.filter fun file => file.dir == path).map File.id).dedup

namespace Household

/-- The name in the memory of a process behind `__mkself`. -/
def named (self : String) : Reply → String
  | .done _ name => name
  | .failed _ => self

/-- One process loads the library. -/
def loaded (pid : Nat) (reply : Reply) : Household where
  toEstate := Estate.bare.makeSelf pid none reply
  family := .loaded pid (named "" reply)

/-- The janitor of a process goes on. -/
def goes (pid : Nat) (chore : Chore) (h : Household) : Household :=
  { h with toEstate := h.turn pid chore }

/-- The next part of a janitor: `__session`, a look with `__srch`, a step of
`nftw` with `remove`, which removes the directory behind its entries, or the
`__exit` behind `__remove`. -/
def work (janitor : Janitor) (reply : Reply) (h : Household) : Household :=
  match janitor.chore with
  | .starting =>
      h.goes janitor.pid (if reply.isDone then .watching else .exited 1)
  | .watching =>
      if reply = .failed ESRCH then
        h.goes janitor.pid (.removing (h.family.entries janitor.path))
      else h
  | .removing (id :: entries) =>
      if reply.isDone ∧ id ∈ h.family.entries janitor.path then
        { h with family := h.family.remove janitor.path id }.goes janitor.pid
          (.removing entries)
      else h.goes janitor.pid (.exited 1)
  | .removing [] =>
      if reply.isDone ∧ h.family.entries janitor.path = [] then
        { h with toEstate := h.rmdir janitor.pid janitor.path }
      else h.goes janitor.pid (.exited 1)
  | .leaving => h.goes janitor.pid (.exited 0)
  | _ => h

inductive Act where
  | family (act : Family.Act)
  | hire (pid : Nat) (reply : Reply)
  | exit (pid : Nat)
  /-- the janitor of a process goes on -/
  | work (pid : Nat) (reply : Reply)
  /-- a signal ends the janitor -/
  | kill (pid : Nat)

/-- The process can run its program. -/
def Able (h : Household) (pid : Nat) : Prop :=
  h.ended pid = false ∧ h.entering pid = false

/-- The steps.  `mkstemp` needs the directory, `mkdtemp` gives a name that is
not in use, and a look misses the process only when it has ended. -/
inductive Step (P : PageSize) (h : Household) : Act → Household → Prop where
  | event {pid : Nat} {event : Event} {m : Relative} {f' : Family}
      (family : Family.Step P h.family (.event pid event) f')
      (here : h.family.members pid = some m) (able : h.Able pid)
      (dir : ∀ id, event.made = some id → m.self ∈ h.dirs) :
      Step P h (.family (.event pid event)) { h with family := f' }
  | fork {pid child errno : Nat} {os : Nat → Reply} {m : Relative}
      {f' : Family}
      (family : Family.Step P h.family (.fork pid child errno os) f')
      (here : h.family.members pid = some m) (able : h.Able pid)
      (fresh : ∀ value name, os m.cubes.length = .done value name →
        name ∉ h.dirs) :
      Step P h (.family (.fork pid child errno os))
        { toEstate := h.makeSelf child (h.host pid) (os m.cubes.length)
          family := f' }
  | hire {pid : Nat} {reply : Reply} {m : Relative}
      (here : h.family.members pid = some m) (alive : h.ended pid = false)
      (entering : h.entering pid = true) :
      Step P h (.hire pid reply) { h with toEstate := h.hire pid m.self reply }
  | exit {pid : Nat} {m : Relative} (here : h.family.members pid = some m)
      (alive : h.ended pid = false) :
      Step P h (.exit pid) { h with toEstate := h.exit pid }
  | work {janitor : Janitor} {reply : Reply} (member : janitor ∈ h.janitors)
      (busy : janitor.chore.Busy)
      (truth : janitor.chore = .watching → reply = .failed ESRCH →
        h.ended janitor.pid = true) :
      Step P h (.work janitor.pid reply) (h.work janitor reply)
  | kill {janitor : Janitor} (member : janitor ∈ h.janitors)
      (busy : janitor.chore.Busy) :
      Step P h (.kill janitor.pid) (h.goes janitor.pid .killed)

/-- The processes and their directories are in order. -/
structure Sound (P : PageSize) (h : Household) : Prop where
  orderly : h.family.Orderly P
  kept : h.Kept h.family.selves

end Household

section Selves

variable {P : PageSize} {f f' : Family} {pid other : Nat} {m : Relative}

theorem Family.selves_of_some (here : f.members pid = some m) :
    f.selves pid = some m.self := by
  rw [Family.selves, here]
  rfl

theorem Family.selves_of_none (absent : f.members pid = none) :
    f.selves pid = none := by
  rw [Family.selves, absent]
  rfl

theorem Family.some_of_selves {dir : String} (here : f.selves pid = some dir) :
    ∃ m, f.members pid = some m ∧ m.self = dir :=
  Option.map_eq_some_iff.mp here

/-- No event gives a process another name. -/
theorem Family.Step.selves_event {event : Event}
    (step : Family.Step P f (.event pid event) f') : f'.selves = f.selves := by
  cases step with
  | @event _ _ m here admits =>
      funext other
      by_cases same : other = pid
      · subst same
        rw [Family.selves_of_some here, Family.selves_of_some
          (Function.update_self ..)]
        exact congrArg some
          (event_files (P := P) (p := m.on f.files) event).self
      · simp [Family.selves, same]

theorem Relative.Sound.child_self {os : Nat → Reply} (sound : m.Sound P f pid)
    (child errno : Nat)
    (answered : ∀ index < m.cubes.length, (os index).isDone = true) :
    (final (forkChild P child ((m.on f.files).enter errno os))).self =
      Household.named m.self (os m.cubes.length) := by
  have distinct := sound.laid.named.cubes_distinct
  rw [Process.live, List.map_append] at distinct
  have runs := @forkChild_spec P ((m.on f.files).enter errno os) child rfl
    (List.nodup_append.mp distinct).1 answered
  apply (runs.and forkChild_marks).of_final fun w' =>
    w'.self = Household.named m.self (os m.cubes.length)
  · intro _ w' ended
    rw [ended.2.2]
    rfl
  · exact fun _ _ ended => ended.1.elim

/-- The name of a new process is the one that `mkdtemp` gives, if any. -/
theorem Family.Step.selves_fork {child errno : Nat} {os : Nat → Reply}
    (step : Family.Step P f (.fork pid child errno os) f')
    (sound : f.Sound P) (here : f.members pid = some m) :
    f.selves child = none ∧
      f'.selves = Function.update f.selves child
        (some (Household.named m.self (os m.cubes.length))) := by
  cases step with
  | fork here' new answered =>
      cases here.symm.trans here'
      have known := sound.members pid m here
      refine ⟨Family.selves_of_none new, ?_⟩
      funext other
      by_cases last : other = child
      · subst last
        rw [Function.update_self,
          Family.selves_of_some (Function.update_self ..)]
        exact congrArg some (known.child_self other errno answered)
      · rw [Function.update_of_ne last]
        cases before : f.members other with
        | none =>
            have parent : other ≠ pid := by
              intro same
              rw [same, here] at before
              cases before
            simp [Family.selves, last, parent]
        | some q =>
            obtain ⟨q', found, same⟩ := Family.forked_of_some child errno os
              sound here before last
            rw [Family.selves_of_some before, Family.selves_of_some found]
            have self : (q'.on f.files).self = (q.on f.files).self := by
              rw [same]
            exact congrArg some self

/-- Nothing that is in order in memory hangs on the files. -/
theorem Family.Orderly.remove (orderly : f.Orderly P) {path id : String} :
    (f.remove path id).Orderly P := by
  refine ⟨⟨?_, orderly.sound.unique, orderly.sound.makers⟩, orderly.sealed⟩
  intro pid m here
  exact (orderly.sound.members pid m here).mono (fun _ there => there)
    fun _ known => known

end Selves

namespace Household

section Steps

variable {P : PageSize} {h h' : Household} {act : Act} {pid owner : Nat}
  {m q : Relative} {janitor : Janitor} {reply : Reply}

/-- What the janitor of a process does. -/
theorem work_cases (busy : janitor.chore.Busy) :
    h.work janitor reply = h ∨
      (∃ chore, (chore.Early → janitor.chore.Early) ∧
        (chore.Done → janitor.chore.Done) ∧ (chore.Late → janitor.chore.Late ∨
          janitor.chore = .watching ∧ reply = .failed ESRCH) ∧
        h.work janitor reply = h.goes janitor.pid chore) ∨
      (∃ id entries, janitor.chore = .removing (id :: entries) ∧
        h.work janitor reply =
          { h with family := h.family.remove janitor.path id }.goes janitor.pid
            (.removing entries)) ∨
      janitor.chore = .removing [] ∧ h.family.entries janitor.path = [] ∧
        h.work janitor reply =
          { h with toEstate := h.rmdir janitor.pid janitor.path } := by
  unfold work
  cases chore : janitor.chore with
  | starting =>
      refine .inr (.inl ⟨_, fun _ => trivial, ?_, ?_, rfl⟩)
      all_goals split <;> exact False.elim
  | watching =>
      by_cases missed : reply = .failed ESRCH
      · exact .inr (.inl ⟨_, fun _ => trivial, False.elim,
          fun _ => .inr ⟨rfl, missed⟩, if_pos missed⟩)
      · exact .inl (if_neg missed)
  | removing entries =>
      cases entries with
      | nil =>
          by_cases empty : reply.isDone ∧ h.family.entries janitor.path = []
          · exact .inr (.inr (.inr ⟨rfl, empty.2, if_pos empty⟩))
          · exact .inr (.inl ⟨_, False.elim, False.elim, False.elim,
              if_neg empty⟩)
      | cons id entries =>
          by_cases there : reply.isDone ∧
              id ∈ h.family.entries janitor.path
          · exact .inr (.inr (.inl ⟨id, entries, rfl, if_pos there⟩))
          · exact .inr (.inl ⟨_, False.elim, False.elim, False.elim,
              if_neg there⟩)
  | leaving =>
      exact .inr (.inl ⟨_, False.elim, fun _ => trivial,
        fun _ => .inl trivial, rfl⟩)
  | exited status =>
      rw [chore] at busy
      exact busy.elim
  | killed =>
      rw [chore] at busy
      exact busy.elim

/-- The directory of a parent, as its memory names it, has the same host. -/
theorem Sound.hosts (sound : h.Sound P) (here : h.family.members pid = some m) :
    h.Hosts h.family.selves (h.host pid) m.self :=
  sound.kept.hosted pid m.self (Family.selves_of_some here)

theorem Sound.step (sound : h.Sound P) (step : Step P h act h') :
    h'.Sound P := by
  have kept := sound.kept
  cases step with
  | event family here able dir =>
      refine ⟨family.orderly sound.orderly, ?_⟩
      show h.Kept _
      rw [family.selves_event]
      exact kept
  | @fork pid child errno os m f' family here able fresh =>
      obtain ⟨new, selves⟩ := family.selves_fork sound.orderly.sound here
      refine ⟨family.orderly sound.orderly, ?_⟩
      show Estate.Kept f'.selves _
      rw [selves]
      cases reply : os m.cubes.length with
      | done value name =>
          exact kept.makeSelf_done new (fresh value name reply) (h.host pid)
            value
      | failed error =>
          exact kept.makeSelf_failed new (sound.hosts here) error
  | hire here alive entering =>
      exact ⟨sound.orderly,
        kept.hire entering (Family.selves_of_some here) _⟩
  | exit here alive =>
      exact ⟨sound.orderly, kept.exit (Family.selves_of_some here)⟩
  | @work janitor reply member busy truth =>
      have late : janitor.chore.Late → h.ended janitor.pid = true :=
        fun past => kept.late janitor member (.inl past)
      rcases @work_cases h janitor reply busy with same |
        ⟨chore, early, done, past, same⟩ | ⟨id, entries, chore, same⟩ |
        ⟨chore, empty, same⟩
      · rw [same]
        exact sound
      · rw [same]
        refine ⟨sound.orderly, kept.turn member early done ?_⟩
        intro now
        rcases past now with before | ⟨watches, missed⟩
        · exact late before
        · exact truth watches missed
      · rw [same]
        rw [chore] at late
        refine ⟨sound.orderly.remove, kept.turn member ?_ False.elim late⟩
        intro _
        rw [chore]
        trivial
      · rw [same]
        refine ⟨sound.orderly, kept.rmdir member ?_ ?_⟩
        all_goals
          rw [chore]
          trivial
  | kill member busy =>
      exact ⟨sound.orderly,
        kept.turn member False.elim False.elim False.elim⟩

theorem sound_loaded (pid : Nat) {reply : Reply}
    (given : ∀ value name, reply = .done value name → name ≠ "") :
    (loaded pid reply).Sound P := by
  have orderly := (Family.tended_loaded (P := P) pid (named "" reply)).toOrderly
  refine ⟨orderly, ?_⟩
  have selves : (loaded pid reply).family.selves =
      Function.update (fun _ => none) pid (some (named "" reply)) := by
    funext other
    by_cases same : other = pid
    · subst same
      simp [Family.selves, loaded, Family.loaded, Process.loaded]
    · simp [Family.selves, loaded, Family.loaded, same]
  rw [selves]
  cases reply with
  | done value name =>
      have fresh : name ∉ Estate.bare.dirs := by
        simpa [Estate.bare] using given value name rfl
      exact Estate.kept_bare.makeSelf_done rfl fresh none value
  | failed error =>
      exact Estate.kept_bare.makeSelf_failed rfl (.inl ⟨rfl, rfl⟩) error

/-- The blocks of the safe processes are in order, too. -/
structure Tended (P : PageSize) (h : Household) : Prop extends h.Sound P where
  filed : ∀ pid m, h.family.members pid = some m → h.Safe pid →
    (m.on h.family.files).Filed

/-- What an act does to the heap of a process. -/
def Act.serve (P : PageSize) (h : Household) :
    Act → Nat → Option (Heap UInt8) → Option (Heap UInt8)
  | .family act, pid, heap => act.serve P h.family (fun _ => heap) pid
  | _, _, heap => heap

/-- A detach from a registered block finds a link on it. -/
def Act.Matched (h : Household) : Act → Prop
  | .family act => act.Matched h.family
  | _ => True

theorem alive_of_exit {e : Estate} (alive : (e.exit owner).ended pid = false) :
    e.ended pid = false := by
  by_cases same : pid = owner
  · rw [same] at alive
    exact absurd ((Function.update_self ..).symm.trans alive) (by decide)
  · exact (Function.update_of_ne same ..).symm.trans alive

/-- A process that is safe after a step was safe before it. -/
theorem Sound.safe_before (sound : h.Sound P) (step : Step P h act h')
    (safe : h'.Safe pid) : h.Safe pid := by
  cases step with
  | event family here able dir => exact safe
  | @fork parent child errno os m f' family here able fresh =>
      obtain ⟨new, -⟩ := family.selves_fork sound.orderly.sound here
      by_cases same : pid = child
      · obtain ⟨host, ended, -⟩ := sound.kept.absent pid (same ▸ new)
        refine ⟨ended, ?_⟩
        intro owner known
        rw [host] at known
        cases known
      · have hosts : (h.makeSelf child (h.host parent)
            (os m.cubes.length)).host pid = h.host pid := by
          unfold Estate.makeSelf
          split <;> exact Function.update_of_ne same ..
        have ended : (h.makeSelf child (h.host parent)
            (os m.cubes.length)).ended = h.ended := by
          unfold Estate.makeSelf
          split <;> rfl
        rw [Estate.Safe, hosts, ended] at safe
        exact safe
  | hire here alive entering => exact safe
  | exit here alive => exact ⟨alive_of_exit safe.1, fun owner host =>
      alive_of_exit (safe.2 owner host)⟩
  | @work janitor reply member busy truth =>
      rcases @work_cases h janitor reply busy with same | ⟨_, -, -, -, same⟩ |
        ⟨_, _, -, same⟩ | ⟨-, -, same⟩
      all_goals
        rw [same] at safe
        exact safe
  | kill member busy => exact safe

/-- The removal of a file in another directory leaves a process its own. -/
theorem file_remove {f : Family} {path : String} (other : m.self ≠ path)
    (id name : String) : (m.on (f.remove path id).files).file m.self name =
      (m.on f.files).file m.self name :=
  @file_filter (m.on f.files) path id m.self name fun same => other same.1

/-- A janitor removes nothing that a safe process sees. -/
theorem Tended.remove (tended : h.Tended P) (here : h.family.members pid = some m)
    (safe : h.Safe pid) {path : String} (other : m.self ≠ path) (id : String) :
    (m.on (h.family.remove path id).files).heap = (m.on h.family.files).heap ∧
      (m.on (h.family.remove path id).files).Filed := by
  have filed := tended.filed pid m here safe
  have sound := tended.orderly.sound.members pid m here
  have housed := tended.orderly.sound.housed here filed
  have same : (m.on h.family.files).SameSites
    (m.on (h.family.remove path id).files) := ⟨rfl, rfl, rfl⟩
  obtain ⟨heap, stocked⟩ := housed.heap_still sound.laid.on sound.charted.on
    same fun cube _ _ => file_remove other id cube.id
  exact ⟨heap, stocked, filed.unique⟩

/-- A step that leaves the processes and the files alone. -/
theorem Tended.of_family (tended : h.Tended P) (sound : h'.Sound P)
    (family : h'.family = h.family) (safe : ∀ pid, h'.Safe pid → h.Safe pid) :
    h'.Tended P ∧ ∀ pid, h'.family.heaps pid = h.family.heaps pid := by
  refine ⟨⟨sound, ?_⟩, fun pid => by rw [family]⟩
  intro pid m here now
  rw [family] at here ⊢
  exact tended.filed pid m here (safe pid now)

/-- A step of the processes. -/
theorem Tended.of_act {act : Family.Act} (tended : h.Tended P)
    (sound : h'.Sound P) (family : Family.Step P h.family act h'.family)
    (matched : act.Matched h.family) (safe : ∀ pid, h'.Safe pid → h.Safe pid) :
    h'.Tended P ∧ ∀ pid, h'.Safe pid →
      h'.family.heaps pid = act.serve P h.family h.family.heaps pid := by
  have orderly := tended.orderly
  refine ⟨⟨sound, ?_⟩, ?_⟩
  · intro pid m found now
    cases before : h.family.members pid with
    | none => exact (family.newborn orderly.sound before found).1
    | some q =>
        obtain ⟨m', found', -, filed, -⟩ := family.served orderly matched before
          (tended.filed pid q before (safe pid now))
        cases found.symm.trans found'
        exact filed
  · intro pid now
    cases found : h'.family.members pid with
    | none => exact family.absent found
    | some m =>
        cases before : h.family.members pid with
        | none =>
            obtain ⟨-, empty, serve⟩ :=
              family.newborn orderly.sound before found
            exact empty.trans serve.symm
        | some q =>
            obtain ⟨-, -, -, -, heap⟩ := family.served orderly matched before
              (tended.filed pid q before (safe pid now))
            exact heap

theorem Tended.step (tended : h.Tended P) (step : Step P h act h')
    (matched : act.Matched h) :
    h'.Tended P ∧ ∀ pid, h'.Safe pid →
      h'.family.heaps pid = act.serve P h pid (h.family.heaps pid) := by
  have sound := tended.toSound.step step
  have safe := fun pid => @Sound.safe_before P h h' act pid tended.toSound step
  have still : h'.family = h.family → (∀ pid heap, act.serve P h pid heap =
      heap) → h'.Tended P ∧ ∀ pid, h'.Safe pid →
        h'.family.heaps pid = act.serve P h pid (h.family.heaps pid) := by
    intro family idle
    obtain ⟨tended', heaps⟩ := tended.of_family sound family safe
    refine ⟨tended', fun pid _ => ?_⟩
    rw [idle, heaps]
  cases step with
  | event family here able dir =>
      obtain ⟨tended', heaps⟩ := tended.of_act sound family matched safe
      exact ⟨tended', fun pid now => (heaps pid now).trans
        Family.Act.serve_apply⟩
  | fork family here able fresh =>
      obtain ⟨tended', heaps⟩ := tended.of_act sound family matched safe
      exact ⟨tended', fun pid now => (heaps pid now).trans
        Family.Act.serve_apply⟩
  | hire here alive entering => exact still rfl fun _ _ => rfl
  | exit here alive => exact still rfl fun _ _ => rfl
  | @work janitor reply member busy truth =>
      rcases @work_cases h janitor reply busy with same | ⟨_, -, -, -, same⟩ |
        ⟨id, entries, chore, same⟩ | ⟨-, -, same⟩
      · exact still (by rw [same]) fun _ _ => rfl
      · exact still (by rw [same]; rfl) fun _ _ => rfl
      · rw [same] at sound ⊢
        have elsewhere : ∀ pid m, h.family.members pid = some m →
            h.Safe pid → m.self ≠ janitor.path := by
          intro pid m here now
          apply tended.kept.elsewhere (Family.selves_of_some here) now member
          all_goals
            rw [chore]
            trivial
        refine ⟨⟨sound, ?_⟩, ?_⟩
        · intro pid m here now
          exact (tended.remove here now (elsewhere pid m here now) id).2
        · intro pid now
          show (h.family.remove janitor.path id).heaps pid = h.family.heaps pid
          cases here : h.family.members pid with
          | none =>
              have absent : (h.family.remove janitor.path id).members pid =
                none := here
              rw [Family.heaps_of_none here, Family.heaps_of_none absent]
          | some m =>
              have there : (h.family.remove janitor.path id).members pid =
                some m := here
              rw [Family.heaps_of_some here, Family.heaps_of_some there]
              exact congrArg some
                (tended.remove here now (elsewhere pid m here now) id).1
      · exact still (by rw [same]) fun _ _ => rfl
  | kill member busy => exact still rfl fun _ _ => rfl

end Steps

section Runs

variable {P : PageSize} {root : Nat} {reply : Reply} {finish : Household}
  {trace : List (Household × Act)}

theorem tended_loaded (root : Nat)
    (given : ∀ value name, reply = .done value name → name ≠ "") :
    (loaded root reply).Tended P := by
  refine ⟨sound_loaded root given, ?_⟩
  intro pid m here _
  exact (Family.tended_loaded (P := P) root (named "" reply)).filed pid m here

theorem Tended.visited
    (given : ∀ value name, reply = .done value name → name ≠ "")
    (run : Run (Step P) (.loaded root reply) trace finish)
    (matched : ∀ point ∈ trace, point.2.Matched point.1) :
    ∀ h ∈ visited trace finish, h.Tended P :=
  run.invariant_under (Tended P) (fun h act => act.Matched h)
    (fun _ _ _ tended matched step => (tended.step step matched).1)
    (tended_loaded root given) matched

theorem Sound.visited
    (given : ∀ value name, reply = .done value name → name ≠ "")
    (run : Run (Step P) (.loaded root reply) trace finish) :
    ∀ h ∈ visited trace finish, h.Sound P :=
  run.invariant (Sound P) (fun _ _ _ sound step => sound.step step)
    (sound_loaded root given)

end Runs

end Household

theorem Family.mem_entries {f : Family} {path id : String} :
    id ∈ f.entries path ↔ ∃ file ∈ f.files, file.dir = path ∧ file.id = id := by
  simp [Family.entries, List.mem_dedup, and_assoc]

section Homes

open Household

variable {P : PageSize} {root : Nat} {reply : Reply} {finish : Household}
  {trace : List (Household × Household.Act)}

/-- As long as a process and the one that made its directory run, the directory
is there, and so is the file of every block of the process. -/
theorem homes_kept (given : ∀ value name, reply = .done value name → name ≠ "")
    (run : Run (Household.Step P) (.loaded root reply) trace finish)
    (matched : ∀ point ∈ trace, point.2.Matched point.1) :
    ∀ h ∈ visited trace finish, ∀ pid m, h.family.members pid = some m →
      h.Safe pid → m.self ∈ h.dirs ∧ ∀ cube ∈ m.cubes, cube.pid = pid →
        cube.id ∈ h.family.entries m.self := by
  intro h member pid m here safe
  have tended := Tended.visited given run matched h member
  refine ⟨tended.kept.safe (Family.selves_of_some here) safe, ?_⟩
  intro cube registered own
  have known := (tended.orderly.sound.members pid m here).known
  obtain ⟨file, found, -⟩ := (tended.filed pid m here safe).here cube registered
    (own.trans known.symm)
  have names := List.find?_some found
  rw [Bool.and_eq_true, beq_iff_eq, beq_iff_eq] at names
  exact Family.mem_entries.mpr ⟨file, List.mem_of_find?_eq_some found, names⟩

/-- As long as a process and the one that made its directory run, the janitors
leave the heap of the process to its own calls and stores. -/
theorem heaps_survive (given : ∀ value name, reply = .done value name → name ≠ "")
    (run : Run (Household.Step P) (.loaded root reply) trace finish)
    (matched : ∀ point ∈ trace, point.2.Matched point.1) :
    ∀ pid, finish.Safe pid → finish.family.heaps pid = trace.foldl
      (fun heap point => point.2.serve P point.1 pid heap)
      (if pid = root then some .empty else none) := by
  intro pid safe
  have start : (loaded root reply).family.heaps pid =
      if pid = root then some .empty else none := by
    have family : (loaded root reply).family = .loaded root (named "" reply) :=
      rfl
    rw [family, Family.heaps_loaded, Function.update_apply]
  rw [← start]
  exact (run.follows_at (Tended P) (fun h act => act.Matched h)
    (fun h pid => h.Safe pid) (fun h pid => h.family.heaps pid)
    (fun h act pid => act.serve P h pid)
    (fun _ _ _ tended matched step => (tended.step step matched).1)
    (fun _ _ _ _ tended step => tended.toSound.safe_before step)
    (fun _ _ _ pid tended matched step => (tended.step step matched).2 pid)
    (tended_loaded root given) matched pid safe).2

/-- A directory is in `INACCEL_SHM` from the time its process has made it until
its own janitor has removed it in the last step of `__remove`, be the janitor
killed behind it or not.  That is after the end of the process, and a janitor
that ends with 0 has come so far. -/
theorem homes_there_iff
    (given : ∀ value name, reply = .done value name → name ≠ "")
    (run : Run (Household.Step P) (.loaded root reply) trace finish) :
    ∀ h ∈ visited trace finish,
      (∀ dir, dir ∈ h.dirs ↔ dir = "" ∨
        ∃ owner, h.Owns h.family.selves owner dir ∧ ¬h.Cleared owner) ∧
      (∀ owner, h.Cleared owner → h.ended owner = true) ∧
      ∀ janitor ∈ h.janitors, janitor.chore = .exited 0 →
        h.Cleared janitor.pid := by
  intro h member
  have kept := (Sound.visited given run h member).kept
  refine ⟨kept.there, ?_, ?_⟩
  · intro owner cleared
    obtain ⟨janitor, listed, same, cleared⟩ := cleared
    rw [← same]
    exact kept.late janitor listed (.inr cleared)
  · intro janitor listed exited
    refine ⟨janitor, listed, rfl, (kept.logged janitor listed).done ?_⟩
    rw [exited]
    trivial

end Homes

/-- A process has loaded the library and has a janitor. -/
def Household.hired : Household where
  toEstate := (Household.loaded 1 (.done 0 "d")).hire 1 "d" (.done 0 "")
  family := .loaded 1 "d"

/-- It has allocated a block. -/
def Household.settled : Household := { Household.hired with family := .filled }

def Household.settling : List (Household × Household.Act) :=
  [(.loaded 1 (.done 0 "d"), .hire 1 (.done 0 "")),
    (.hired, .family (.event 1 (.smooth (.alloc 1) 65536)))]

theorem Household.run_settled :
    Run (Household.Step .small) (.loaded 1 (.done 0 "d")) settling .settled ∧
      ∀ point ∈ settling, point.2.Matched point.1 := by
  have hires : Household.Step .small (.loaded 1 (.done 0 "d"))
      (.hire 1 (.done 0 "")) .hired :=
    .hire (show _ = some ⟨.loaded 1 "d", [], []⟩ from rfl) rfl
      (by decide +kernel)
  have able : Household.hired.Able 1 := ⟨by decide +kernel, by decide +kernel⟩
  have fills : Household.Step .small .hired
      (.family (.event 1 (.smooth (.alloc 1) 65536))) .settled :=
    .event Family.step_filled
      (show _ = some ⟨.loaded 1 "d", [], []⟩ from rfl) able
      fun _ _ => show "d" ∈ Household.hired.dirs by decide +kernel
  refine ⟨.cons hires (.cons fills (.nil _)), ?_⟩
  simp [settling, Household.Act.Matched, Family.Act.Matched, Event.Matched,
    Event.smooth]

theorem Household.given_loaded : ∀ value name,
    Reply.done 0 "d" = .done value name → name ≠ "" := by
  intro value name same
  cases same
  decide

theorem Household.safe_settled : Household.settled.Safe 1 := by
  refine ⟨rfl, ?_⟩
  intro owner host
  cases host
  rfl

theorem homes_kept_settled :
    "d" ∈ Household.settled.dirs ∧
      "a" ∈ Household.settled.family.entries "d" := by
  obtain ⟨run, matched⟩ := Household.run_settled
  obtain ⟨there, files⟩ := homes_kept Household.given_loaded run matched _
    (finish_mem_visited _ _) 1 Relative.filled rfl Household.safe_settled
  obtain ⟨cube, registered, own, id⟩ : ∃ cube ∈ Relative.filled.cubes,
      cube.pid = 1 ∧ cube.id = "a" := ⟨_, List.mem_cons_self, rfl, rfl⟩
  exact ⟨there, id ▸ files cube registered own⟩

theorem heaps_survive_settled :
    Household.settled.family.heaps 1 = Household.settling.foldl
      (fun heap point => point.2.serve .small point.1 1 heap)
      (some .empty) := by
  obtain ⟨run, matched⟩ := Household.run_settled
  exact heaps_survive Household.given_loaded run matched 1
    Household.safe_settled

theorem homes_there_iff_settled : ∃ owner,
    Household.settled.Owns Household.settled.family.selves owner "d" ∧
      ¬Household.settled.Cleared owner := by
  obtain ⟨run, -⟩ := Household.run_settled
  obtain ⟨there, -⟩ := homes_there_iff Household.given_loaded run _
    (finish_mem_visited _ _)
  rcases (there "d").mp (by decide +kernel) with root | owned
  · exact absurd root (by decide)
  · exact owned

end CoralApi
