import CoralApi.Lineage
import CoralApi.Lookup

/-!
# Trees of processes

The processes that fork from one that has loaded the library, each with its
own memory, over one directory tree.  A process that descends from a fork has
the blocks of the forking process mapped, but read-only.
-/

namespace CoralApi

open Program Transition

/-- A process of a tree.  Logs: the processes that it descends from, and the
cubes that it was forked with and has not freed since. -/
structure Relative extends Process where
  ancestors : List Nat
  inherited : List Cube

/-- The processes by their ids, and the files that they share.  Log: the names
of all files ever made, with the process that made each. -/
structure Family where
  members : Nat → Option Relative
  files : List File
  made : List (Nat × String × String)

/-- The process meets these files. -/
def Process.on (files : List File) (p : Process) : Process :=
  { p with files := files }

/-- The process after an event. -/
def Relative.after (P : PageSize) (event : Event) (files : List File)
    (m : Relative) : Relative where
  toProcess := event.outcome P (m.on files)
  ancestors := m.ancestors
  inherited := m.inherited.filter fun cube => !event.frees cube.page.addr

/-- The files made, after an event. -/
def Event.makes (event : Event) (pid : Nat) (self : String)
    (made : List (Nat × String × String)) : List (Nat × String × String) :=
  match event.made with
  | none => made
  | some id => (pid, self, id) :: made

namespace Family

/-- The names of the files ever made. -/
def names (f : Family) : List (String × String) := f.made.map Prod.snd

/-- One process, which has loaded the library. -/
def loaded (pid : Nat) (self : String) : Family where
  members := Function.update (fun _ => none) pid
    (some ⟨.loaded pid self, [], []⟩)
  files := []
  made := []

inductive Act where
  | event (pid : Nat) (event : Event)
  | fork (pid child errno : Nat) (os : Nat → Reply)

/-- The event is one that the process can meet: the sizes are words, slices do
not wrap, and `mkstemp` gives a name that no file ever had. -/
def Admits (f : Family) (m : Relative) (event : Event) : Prop :=
  event.op.Sized ∧ ∀ id, event.made = some id → (m.self, id) ∉ f.names

/-- The steps of a tree.  A fork gives a new id, and no `mprotect` of its
child handler fails. -/
inductive Step (P : PageSize) (f : Family) : Act → Family → Prop where
  | event {pid : Nat} {event : Event} {m : Relative}
      (here : f.members pid = some m) (admits : f.Admits m event) :
      Step P f (.event pid event)
        { members := Function.update f.members pid
            (some (m.after P event f.files))
          files := (m.after P event f.files).files
          made := event.makes pid m.self f.made }
  | fork {pid child errno : Nat} {os : Nat → Reply} {m : Relative}
      (here : f.members pid = some m) (new : f.members child = none)
      (answered : ∀ index < m.cubes.length, (os index).isDone = true) :
      Step P f (.fork pid child errno os)
        { f with
          members := Function.update (Function.update f.members pid (some
            { toProcess := (final (forkParent
                ((m.on f.files).enter errno os))).toProcess
              ancestors := m.ancestors
              inherited := m.inherited })) child (some
            { toProcess := (final (forkChild P child
                ((m.on f.files).enter errno os))).toProcess
              ancestors := pid :: m.ancestors
              inherited := m.cubes }) }

end Family

/-- The process is a child of a fork or descends from that child. -/
def Relative.Under (m : Relative) (pid child : Nat) : Prop :=
  pid = child ∨ child ∈ m.ancestors

/-- What holds of the process with an id in a tree. -/
structure Relative.Sound (P : PageSize) (f : Family) (pid : Nat)
    (m : Relative) : Prop where
  known : m.pid = pid
  laid : m.Laid P
  charted : m.Charted P f.names
  makers : ∀ cube ∈ m.live, (f.members cube.pid).isSome
  owns : ∀ cube ∈ m.live, cube.pid = pid → (pid, m.self, cube.id) ∈ f.made
  ancestors : ∀ other ∈ m.ancestors, (f.members other).isSome
  inherited : ∀ cube ∈ m.inherited, cube ∈ m.cubes ∧ cube.pid ≠ pid ∧
    ∀ page, cube.page.HasPage P page → m.prot page = .read

structure Family.Sound (P : PageSize) (f : Family) : Prop where
  members : ∀ pid m, f.members pid = some m → m.Sound P f pid
  unique : f.names.Nodup
  makers : ∀ entry ∈ f.made, (f.members entry.1).isSome

section Members

variable {P : PageSize} {f f' : Family} {pid : Nat} {m : Relative}

theorem Process.Laid.on {p : Process} {files : List File} (laid : p.Laid P) :
    (p.on files).Laid P :=
  ⟨⟨⟨laid.named.distinct, laid.named.fresh⟩, laid.placed, laid.mapped,
    laid.apart⟩, laid.slices⟩

theorem Process.Charted.on {p : Process} {files : List File} {names}
    (charted : p.Charted P names) : (p.on files).Charted P names :=
  ⟨charted.apart, charted.sized, charted.aligned, charted.named, charted.mine,
    charted.single, charted.files⟩

/-- The page of an address in a mapping belongs to the mapping. -/
theorem Block.Holds.hasPage {block : Block} {addr : Nat}
    (holds : block.Holds addr) (aligned : P.bytes ∣ block.addr) :
    block.HasPage P (addr / P.bytes) := by
  have above := (PageSize.le_floor aligned).mpr holds.1
  have below := P.floor_le addr
  refine ⟨above, ?_⟩
  have finish := holds.2
  show P.floor addr < _
  omega

theorem Event.names_makes {event : Event} {self : String}
    {made : List (Nat × String × String)} :
    (event.makes pid self made).map Prod.snd =
      event.names self (made.map Prod.snd) := by
  unfold Event.makes Event.names
  cases event.made with
  | none => rfl
  | some id => rfl

theorem Event.mem_makes {event : Event} {self : String}
    {made : List (Nat × String × String)} {entry : Nat × String × String}
    (old : entry ∈ made) : entry ∈ event.makes pid self made := by
  unfold Event.makes
  split
  · exact old
  · exact List.mem_cons_of_mem _ old

/-- A member of a larger tree. -/
theorem Relative.Sound.mono (sound : m.Sound P f pid)
    (members : ∀ other, (f.members other).isSome → (f'.members other).isSome)
    (made : ∀ entry ∈ f.made, entry ∈ f'.made) : m.Sound P f' pid where
  known := sound.known
  laid := sound.laid
  charted := sound.charted.mono fun name known => by
    obtain ⟨entry, inside, rfl⟩ := List.mem_map.mp known
    exact List.mem_map_of_mem (made entry inside)
  makers := fun cube member => members _ (sound.makers cube member)
  owns := fun cube member own => made _ (sound.owns cube member own)
  ancestors := fun other listed => members _ (sound.ancestors other listed)
  inherited := sound.inherited

/-- What an event keeps of a member. -/
theorem Relative.Sound.event {event : Event} (sound : m.Sound P f pid)
    (here : f.members pid = some m) (admits : f.Admits m event)
    (members : ∀ other, (f.members other).isSome → (f'.members other).isSome)
    (made : f'.made = event.makes pid m.self f.made) :
    (m.after P event f.files).Sound P f' pid := by
  have deed : Deed P (m.on f.files) event _ (m.after P event f.files).toProcess :=
    event_deed admits.1.words
  have laid : (m.on f.files).Laid P := sound.laid.on
  have charted : (m.on f.files).Charted P f.names := sound.charted.on
  have self : (m.after P event f.files).self = m.self :=
    (event_files (P := P) (p := m.on f.files) event).self
  obtain ⟨same, -, all⟩ := deed.descends
  have grown : ∀ entry ∈ f.made, entry ∈ f'.made := fun entry inside =>
    made ▸ Event.mem_makes inside
  have names : f'.names = event.names m.self f.names := by
    rw [Family.names, made]
    exact Event.names_makes
  refine ⟨same.trans sound.known, deed.laid admits.1 laid, ?_, ?_, ?_, ?_, ?_⟩
  · rw [names]
    exact deed.charted self admits.2 laid charted
  · intro cube member
    rcases all cube member with ⟨old, inside, alike⟩ | ⟨mine, -⟩
    · rw [alike.pid]
      exact members _ (sound.makers old inside)
    · have mine : cube.pid = pid := mine.trans sound.known
      rw [mine]
      exact members pid (by rw [here]; rfl)
  · intro cube member own
    rw [self]
    rcases all cube member with ⟨old, inside, alike⟩ | ⟨-, named⟩
    · rw [alike.id]
      exact grown _ (sound.owns old inside (alike.pid.symm.trans own))
    · rw [made, Event.makes, named]
      exact List.mem_cons_self
  · exact fun other listed => members _ (sound.ancestors other listed)
  · intro cube listed
    obtain ⟨listed, spared⟩ := List.mem_filter.mp listed
    obtain ⟨member, foreign, read⟩ := sound.inherited cube listed
    have foreign' : cube.pid ≠ (m.on f.files).pid := by
      intro own
      exact foreign (own.trans sound.known)
    have kept := Event.frees_iff.mp (by simpa using spared)
    refine ⟨deed.keeps_foreign laid member foreign' kept, foreign, ?_⟩
    intro page has
    obtain ⟨mapping, inside, block⟩ := laid.mapped cube member
    refine deed.stays_read laid inside (block ▸ has) ?_ (read page has)
    intro other also own
    have different : cube ≠ other := fun same => foreign' (same ▸ own)
    exact (laid.apart cube member other also different).not_hasPage has

/-- The memory of a parent. -/
theorem Relative.Sound.same {errno : Nat} {os : Nat → Reply}
    (sound : m.Sound P f pid) :
    (final (forkParent ((m.on f.files).enter errno os))).toProcess =
      m.on f.files := by
  have distinct := sound.laid.named.cubes_distinct
  rw [Process.live, List.map_append] at distinct
  exact (forkParent_spec (w := (m.on f.files).enter errno os) rfl
    (List.nodup_append.mp distinct).1).of_final
      (fun w' => w'.toProcess = m.on f.files) (fun _ _ => id)
      fun _ _ => False.elim

theorem Relative.Sound.parent {errno : Nat} {os : Nat → Reply}
    (sound : m.Sound P f pid)
    (members : ∀ other, (f.members other).isSome → (f'.members other).isSome)
    (made : f'.made = f.made) :
    Relative.Sound P f' pid
      { toProcess := (final (forkParent
          ((m.on f.files).enter errno os))).toProcess
        ancestors := m.ancestors
        inherited := m.inherited } := by
  rw [sound.same]
  have grown := sound.mono members fun entry inside => made ▸ inside
  exact ⟨grown.known, grown.laid.on, grown.charted.on, grown.makers, grown.owns,
    grown.ancestors, grown.inherited⟩

/-- The memory of a child. -/
theorem Relative.Sound.copied {os : Nat → Reply}
    (sound : m.Sound P f pid) (child errno : Nat)
    (answered : ∀ index < m.cubes.length, (os index).isDone = true) :
    ∃ self prot, (final (forkChild P child
        ((m.on f.files).enter errno os))).toProcess =
          { (m.on f.files).copy child with self := self, prot := prot } ∧
        Shut P m.cubes m.prot prot := by
  have distinct := sound.laid.named.cubes_distinct
  rw [Process.live, List.map_append] at distinct
  exact (@forkChild_spec P ((m.on f.files).enter errno os) child rfl
    (List.nodup_append.mp distinct).1 answered).of_final
      (fun w' => ∃ self prot, w'.toProcess =
        { (m.on f.files).copy child with self := self, prot := prot } ∧
          Shut P m.cubes m.prot prot) (fun _ _ => id) fun _ _ => False.elim

/-- A child has no block of its own, and reads those of its parent. -/
theorem Relative.Sound.child {child errno : Nat} {os : Nat → Reply}
    (sound : m.Sound P f pid) (here : f.members pid = some m)
    (new : f.members child = none)
    (answered : ∀ index < m.cubes.length, (os index).isDone = true)
    (members : ∀ other, (f.members other).isSome → (f'.members other).isSome)
    (made : f'.made = f.made) :
    Relative.Sound P f' child
      { toProcess := (final (forkChild P child
          ((m.on f.files).enter errno os))).toProcess
        ancestors := pid :: m.ancestors
        inherited := m.cubes } := by
  obtain ⟨self, prot, same, shut⟩ :=
    sound.copied child errno answered
  rw [same]
  have foreign : ∀ cube ∈ m.live, cube.pid ≠ child := by
    intro cube member own
    have maker := sound.makers cube member
    rw [own, new] at maker
    cases maker
  have registered : ∀ cube ∈ m.cubes, cube.pid ≠ child := fun cube member =>
    foreign cube (List.mem_append_left _ member)
  have names : f'.names = f.names := congrArg (List.map Prod.snd) made
  have laid := sound.laid
  have charted := sound.charted
  refine ⟨rfl, ?_, ?_, ?_, ?_, ?_, ?_⟩
  · exact ⟨⟨⟨laid.named.distinct, laid.named.fresh⟩, laid.placed, laid.mapped,
      laid.apart⟩, laid.slices⟩
  · rw [names]
    exact ⟨charted.apart, charted.sized, charted.aligned, charted.named,
      fun cube member own => absurd own (registered cube member),
      fun _ _ cube member own => absurd own (registered cube member),
      fun cube member own => absurd own (foreign cube member)⟩
  · exact fun cube member => members _ (sound.makers cube member)
  · exact fun cube member own => absurd own (foreign cube member)
  · intro other listed
    rcases List.mem_cons.mp listed with rfl | older
    · exact members _ (by rw [here]; rfl)
    · exact members _ (sound.ancestors other older)
  · exact fun cube listed => ⟨listed, registered cube listed, shut.1 cube listed⟩

end Members

section Update

variable {α : Type} {members : Nat → Option α} {pid other : Nat} {m m' : α}

/-- A member after one has changed. -/
theorem some_update (found : Function.update members pid (some m) other =
    some m') : other = pid ∧ m' = m ∨ other ≠ pid ∧ members other = some m' := by
  by_cases same : other = pid
  · subst same
    rw [Function.update_self] at found
    exact .inl ⟨rfl, (Option.some.inj found).symm⟩
  · rw [Function.update_of_ne same] at found
    exact .inr ⟨same, found⟩

theorem isSome_update (there : (members other).isSome) :
    (Function.update members pid (some m) other).isSome := by
  by_cases same : other = pid
  · subst same
    rw [Function.update_self]
    rfl
  · rwa [Function.update_of_ne same]

end Update

section Steps

variable {P : PageSize} {f f' : Family}

theorem Family.Step.members {act : Family.Act} (step : Family.Step P f act f') :
    ∀ other, (f.members other).isSome → (f'.members other).isSome := by
  intro other there
  cases step with
  | event here admits => exact isSome_update there
  | fork here new answered => exact isSome_update (isSome_update there)

theorem Family.Step.made {act : Family.Act} (step : Family.Step P f act f') :
    ∀ entry ∈ f.made, entry ∈ f'.made := by
  intro entry inside
  cases step with
  | event here admits => exact Event.mem_makes inside
  | fork here new answered => exact inside

theorem Family.Step.sound {act : Family.Act} (step : Family.Step P f act f')
    (sound : f.Sound P) : f'.Sound P := by
  have members := step.members
  have made := step.made
  cases step with
  | @event pid event m here admits =>
      refine ⟨?_, ?_, ?_⟩
      · intro other q found
        rcases some_update found with ⟨rfl, rfl⟩ | ⟨-, found⟩
        · exact (sound.members _ _ here).event here admits members rfl
        · exact (sound.members _ _ found).mono members made
      · show ((event.makes pid m.self f.made).map Prod.snd).Nodup
        rw [Event.names_makes, Event.names]
        cases named : event.made with
        | none => exact sound.unique
        | some id =>
            exact List.nodup_cons.mpr ⟨admits.2 id named, sound.unique⟩
      · intro entry inside
        have old : ∀ entry ∈ f.made, (_ : Option Relative).isSome :=
          fun entry inside => members _ (sound.makers entry inside)
        have inside : entry ∈ event.makes pid m.self f.made := inside
        unfold Event.makes at inside
        cases named : event.made with
        | none =>
            rw [named] at inside
            exact old entry inside
        | some id =>
            rw [named] at inside
            rcases List.mem_cons.mp inside with rfl | older
            · exact members pid (by rw [here]; rfl)
            · exact old entry older
  | @fork pid child errno os m here new answered =>
      refine ⟨?_, sound.unique, ?_⟩
      · intro other q found
        have forker := sound.members _ _ here
        rcases some_update found with ⟨rfl, rfl⟩ | ⟨-, found⟩
        · exact forker.child here new answered members rfl
        · rcases some_update found with ⟨rfl, rfl⟩ | ⟨-, found⟩
          · exact forker.parent members rfl
          · exact (sound.members _ _ found).mono members made
      · exact fun entry inside => members _ (sound.makers entry inside)

theorem Family.sound_loaded (pid : Nat) (self : String) :
    (Family.loaded pid self).Sound P := by
  refine ⟨?_, List.nodup_nil, by simp [Family.loaded]⟩
  intro other q found
  have found : Function.update (fun _ => none) pid
    (some (Relative.mk (.loaded pid self) [] [])) other = some q := found
  rcases some_update found with ⟨rfl, rfl⟩ | ⟨-, found⟩
  · have laid : (Process.loaded other self).Laid P :=
      Process.Fresh.laid ⟨rfl, rfl⟩
    refine ⟨rfl, laid, ⟨List.Pairwise.nil, ?_, ?_, ?_, ?_, ?_, ?_⟩, ?_, ?_, ?_,
      ?_⟩
    all_goals simp [Process.loaded, Process.live]
  · cases found

end Steps

end CoralApi
