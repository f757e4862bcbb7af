import CoralApi.Isolation
import CoralApi.Service

/-!
# What the processes of a tree see of their blocks

Processes share a directory tree, and a child has the mappings of its parent.
Yet the heap of a process follows its own events alone: forks and the events
of other processes leave it as it is.
-/

namespace CoralApi

open Program Transition

/-- What every process sees of its blocks. -/
def Family.heaps (f : Family) : Nat → Option (Heap UInt8) := fun pid =>
  (f.members pid).map fun m => (m.on f.files).heap

/-- What an act does to the heaps.  A child starts without blocks. -/
def Family.Act.serve (P : PageSize) (f : Family) :
    Family.Act → (Nat → Option (Heap UInt8)) → Nat → Option (Heap UInt8)
  | .event pid happens, heaps =>
      match f.members pid with
      | none => heaps
      | some m => Function.update heaps pid ((heaps pid).map
          ((happens.command P (m.on f.files)).run 0))
  | .fork _ child _ _, heaps => Function.update heaps child (some .empty)

/-- A detach from a registered block finds a link on it. -/
def Family.Act.Matched (f : Family) : Family.Act → Prop
  | .event pid happens => ∀ m, f.members pid = some m →
      happens.Matched (m.on f.files)
  | .fork _ _ _ _ => True

/-- The own blocks of a process cannot be written in another one. -/
def Family.Sealed (P : PageSize) (f : Family) : Prop :=
  ∀ owner m, f.members owner = some m → ∀ cube ∈ m.cubes, cube.pid = owner →
    ∀ pid q, f.members pid = some q → pid ≠ owner →
      ∀ mapping ∈ q.maps, mapping.dir = m.self → mapping.id = cube.id →
        ∀ page, mapping.block.HasPage P page → q.prot page = .read

/-- The memory of all processes is in order. -/
structure Family.Orderly (P : PageSize) (f : Family) : Prop where
  sound : f.Sound P
  sealed : f.Sealed P

/-- The blocks of all processes are in order. -/
structure Family.Tended (P : PageSize) (f : Family) : Prop
    extends f.Orderly P where
  filed : ∀ pid m, f.members pid = some m → (m.on f.files).Filed

section Heaps

variable {P : PageSize} {f f' : Family} {owner pid : Nat} {m q : Relative}
  {cube : Cube}

theorem Family.heaps_of_some (here : f.members pid = some m) :
    f.heaps pid = some (m.on f.files).heap := by
  rw [Family.heaps, here]
  rfl

theorem Family.heaps_of_none (absent : f.members pid = none) :
    f.heaps pid = none := by
  rw [Family.heaps, absent]
  rfl

theorem Family.Sound.housed (sound : f.Sound P)
    (here : f.members pid = some m) (filed : (m.on f.files).Filed) :
    (m.on f.files).Housed P f.names :=
  ⟨(sound.members pid m here).laid.on, (sound.members pid m here).charted.on,
    filed⟩

/-- The name of the file of an own block is known. -/
theorem Family.Sound.owned (sound : f.Sound P)
    (here : f.members owner = some m) (member : cube ∈ m.cubes)
    (own : cube.pid = owner) : (owner, m.self, cube.id) ∈ f.made :=
  (sound.members owner m here).owns cube (List.mem_append_left _ member) own

/-- Own blocks of two processes have different files. -/
theorem Family.Sound.files_apart (sound : f.Sound P)
    (here : f.members owner = some m) (member : cube ∈ m.cubes)
    (own : cube.pid = owner) (there : f.members pid = some q)
    (other : pid ≠ owner) {cube' : Cube} (live : cube' ∈ q.live)
    (own' : cube'.pid = pid) : ¬(m.self = q.self ∧ cube.id = cube'.id) := by
  intro same
  have left := sound.owned here member own
  have right := (sound.members pid q there).owns cube' live own'
  rw [same.1, same.2] at left
  exact other (sound.same_maker right left)

/-- What another process has mapped of an own file stays read-only through an
event of the other process. -/
theorem Family.Sealed.event {event : Event} (sound : f.Sound P)
    (seals : f.Sealed P) (here : f.members owner = some m)
    (member : cube ∈ m.cubes) (own : cube.pid = owner)
    (there : f.members pid = some q) (admits : f.Admits q event)
    (other : pid ≠ owner) :
    ∀ mapping ∈ (q.after P event f.files).maps, mapping.dir = m.self →
      mapping.id = cube.id → ∀ page, mapping.block.HasPage P page →
        (q.after P event f.files).prot page = .read := by
  have theirs := sound.members pid q there
  have deed : Deed P (q.on f.files) event _ (q.after P event f.files).toProcess :=
    event_deed admits.1.words
  have laid : (q.on f.files).Laid P := theirs.laid.on
  have charted : (q.on f.files).Charted P f.names := theirs.charted.on
  have apart : ∀ cube' ∈ q.cubes, cube'.pid = q.pid →
      ¬(m.self = q.self ∧ cube.id = cube'.id) := by
    intro cube' member' own'
    exact sound.files_apart here member own there other
      (List.mem_append_left _ member') (own'.trans theirs.known)
  intro mapping inside dir id page has
  rcases deed.maps charted mapping inside with old | ⟨self, made | ⟨cube',
    member', own', name⟩⟩
  · have read := seals owner m here cube member own pid q there other mapping
      old dir id page has
    apply deed.stays_read laid old has _ read
    intro cube' member' own'
    refine (charted.disjoint_page old member' own' ?_).not_hasPage has
    intro same
    exact apart cube' member' own' ⟨dir ▸ same.1, id ▸ same.2⟩
  · have known : (m.self, cube.id) ∈ f.names :=
      List.mem_map_of_mem (sound.owned here member own)
    rw [← dir, ← id, self] at known
    exact absurd known (admits.2 _ made)
  · exact absurd ⟨dir ▸ self, id ▸ name⟩ (apart cube' member' own')

/-- A new process has the blocks of the others mapped read-only. -/
theorem Family.Sealed.forked {child errno : Nat} {os : Nat → Reply}
    (sound : f.Sound P) (seals : f.Sealed P)
    (here : f.members owner = some m) (member : cube ∈ m.cubes)
    (own : cube.pid = owner) (there : f.members pid = some q)
    (answered : ∀ index < q.cubes.length, (os index).isDone = true) :
    ∀ mapping ∈ q.maps, mapping.dir = m.self → mapping.id = cube.id →
      ∀ page, mapping.block.HasPage P page →
        (final (forkChild P child
          ((q.on f.files).enter errno os))).prot page = .read := by
  have theirs := sound.members pid q there
  obtain ⟨self, prot, same, shut⟩ := theirs.copied child errno answered
  intro mapping inside dir id page has
  rw [same]
  by_cases mine : pid = owner
  · subst mine
    rw [there] at here
    cases here
    have block := theirs.charted.single mapping inside cube member
      (own.trans theirs.known.symm) dir id
    exact shut.1 cube member page (block ▸ has)
  · exact shut.2 page (seals owner m here cube member own pid q there mine
      mapping inside dir id page has)

/-- A process that is no new child is as it was. -/
theorem Family.unforked {child errno : Nat} {os : Nat → Reply}
    (sound : f.Sound P) (here : f.members pid = some m) {q' : Relative}
    {other : Nat} (old : other ≠ child)
    (found : Function.update (Function.update f.members pid (some
        { toProcess := (final (forkParent
            ((m.on f.files).enter errno os))).toProcess
          ancestors := m.ancestors
          inherited := m.inherited })) child (some q) other = some q') :
    ∃ before, f.members other = some before ∧
      q'.on f.files = before.on f.files := by
  rcases some_update found with ⟨same, -⟩ | ⟨-, found⟩
  · exact absurd same old
  · rcases some_update found with ⟨rfl, rfl⟩ | ⟨-, found⟩
    · refine ⟨m, here, ?_⟩
      rw [(sound.members _ m here).same]
      rfl
    · exact ⟨q', found, rfl⟩

/-- A process that was there before a fork is as it was. -/
theorem Family.forked_of_some (child errno : Nat) (os : Nat → Reply)
    (sound : f.Sound P) (here : f.members pid = some m)
    (mine : f.members owner = some q) (old : owner ≠ child) :
    ∃ q', Function.update (Function.update f.members pid (some
        { toProcess := (final (forkParent
            ((m.on f.files).enter errno os))).toProcess
          ancestors := m.ancestors
          inherited := m.inherited })) child (some
        { toProcess := (final (forkChild P child
            ((m.on f.files).enter errno os))).toProcess
          ancestors := pid :: m.ancestors
          inherited := m.cubes }) owner = some q' ∧
      q'.on f.files = q.on f.files := by
  by_cases same : owner = pid
  · subst same
    cases here.symm.trans mine
    refine ⟨_, by rw [Function.update_of_ne old, Function.update_self], ?_⟩
    rw [(sound.members _ m here).same]
    rfl
  · exact ⟨q, by rw [Function.update_of_ne old, Function.update_of_ne same,
      mine], rfl⟩

theorem Family.Step.sealed {act : Family.Act} (step : Family.Step P f act f')
    (sound : f.Sound P) (seals : f.Sealed P) : f'.Sealed P := by
  intro owner m' mine cube member own other q' theirs different
  cases step with
  | @event pid event m here admits =>
      have deed : Deed P (m.on f.files) event _
          (m.after P event f.files).toProcess := event_deed admits.1.words
      have self : (m.after P event f.files).self = m.self :=
        (event_files (P := P) (p := m.on f.files) event).self
      rcases some_update theirs with ⟨rfl, rfl⟩ | ⟨-, there⟩
      · rcases some_update mine with ⟨same, -⟩ | ⟨-, mine⟩
        · exact absurd same.symm different
        · exact seals.event sound mine member own here admits different
      · rcases some_update mine with ⟨rfl, rfl⟩ | ⟨-, mine⟩
        · intro mapping inside dir id
          rw [self] at dir
          rcases deed.descends.2.1 cube member with ⟨old, before, same⟩ |
            ⟨-, made⟩
          · exact seals owner m here old before (same.pid.symm.trans own) other
              q' there different mapping inside dir (id.trans same.id)
          · have known := (sound.members other q' there).charted.named mapping
              inside
            rw [dir, id] at known
            exact absurd known (admits.2 _ made)
        · exact seals owner m' mine cube member own other q' there different
  | @fork pid child errno os m here new answered =>
      by_cases born : owner = child
      · subst born
        rcases some_update mine with ⟨-, rfl⟩ | ⟨absent, -⟩
        · obtain ⟨self, prot, same, -⟩ :=
            (sound.members pid m here).copied owner errno answered
          rw [same] at member
          have maker := (sound.members pid m here).makers cube
            (List.mem_append_left _ member)
          rw [own, new] at maker
          cases maker
        · exact absurd rfl absent
      · obtain ⟨before, known, same⟩ := Family.unforked sound here born mine
        have cubes : m'.cubes = before.cubes := (congrArg Process.cubes same :)
        have self : m'.self = before.self := (congrArg Process.self same :)
        rw [cubes] at member
        rw [self]
        by_cases last : other = child
        · subst last
          rcases some_update theirs with ⟨-, rfl⟩ | ⟨absent, -⟩
          · obtain ⟨self, prot, same, -⟩ :=
              (sound.members pid m here).copied other errno answered
            have shut := @Family.Sealed.forked P f owner pid before m cube
              other errno os sound seals known member own here answered
            intro mapping inside
            rw [same] at inside
            exact shut mapping inside
          · exact absurd rfl absent
        · obtain ⟨old, theirs, alike⟩ := Family.unforked sound here last theirs
          have maps : q'.maps = old.maps := (congrArg Process.maps alike :)
          have prot : q'.prot = old.prot := (congrArg Process.prot alike :)
          rw [maps, prot]
          exact seals owner before known cube member own other old theirs
            different

/-- An event of another process leaves the own files alone. -/
theorem Family.Orderly.files_kept {event : Event} (orderly : f.Orderly P)
    (here : f.members pid = some m) (admits : f.Admits m event)
    (mine : f.members owner = some q) (other : pid ≠ owner)
    (member : cube ∈ q.cubes) (own : cube.pid = owner) :
    (q.on (m.after P event f.files).files).file q.self cube.id =
      (q.on f.files).file q.self cube.id := by
  have sound := orderly.sound
  rcases (event_files (P := P) (p := m.on f.files) event).file q.self cube.id
    with same | ⟨self, owned | made⟩ | ⟨mapping, inside, dir, id, addr, holds,
      writable⟩
  · exact same
  · obtain ⟨cube', live, own', name⟩ := owned
    have apart := sound.files_apart mine member own here other live
      (own'.trans (sound.members pid m here).known)
    exact absurd ⟨self, name.symm⟩ apart
  · have known : (q.self, cube.id) ∈ f.names :=
      List.mem_map_of_mem (sound.owned mine member own)
    rw [self] at known
    exact absurd known (admits.2 _ made)
  · have aligned := (sound.members pid m here).charted.aligned mapping inside
    have read := orderly.sealed owner q mine cube member own pid m here other
      mapping inside dir id _ (holds.hasPage aligned)
    exact absurd writable (not_writable_of_read read)

/-- What an event leaves to another process. -/
theorem Family.Orderly.beside {event : Event} (orderly : f.Orderly P)
    (here : f.members pid = some m) (admits : f.Admits m event)
    (mine : f.members owner = some q) (other : pid ≠ owner)
    (filed : (q.on f.files).Filed) :
    (q.on (m.after P event f.files).files).heap = (q.on f.files).heap ∧
      (q.on (m.after P event f.files).files).Filed := by
  have sound := orderly.sound.members owner q mine
  have same : (q.on f.files).SameSites
    (q.on (m.after P event f.files).files) := ⟨rfl, rfl, rfl⟩
  have housed := orderly.sound.housed mine filed
  obtain ⟨heap, stocked⟩ := housed.heap_still sound.laid.on sound.charted.on
    same fun cube member own =>
      orderly.files_kept here admits mine other member (own.trans sound.known)
  exact ⟨heap, stocked, filed.unique⟩

/-- A new process has no block of its own. -/
theorem Family.Sound.child {child errno : Nat} {os : Nat → Reply}
    (sound : f.Sound P) (here : f.members pid = some m)
    (new : f.members child = none)
    (answered : ∀ index < m.cubes.length, (os index).isDone = true) :
    let p : Process := (final (forkChild P child
      ((m.on f.files).enter errno os))).toProcess.on f.files
    p.heap = .empty ∧ p.Filed := by
  have sound := sound.members pid m here
  obtain ⟨self, prot, same, -⟩ := sound.copied child errno answered
  rw [same]
  have foreign : ∀ cube ∈ m.live, cube.pid ≠ child := by
    intro cube member own
    have maker := sound.makers cube member
    rw [own, new] at maker
    cases maker
  refine ⟨?_, ?_, ?_⟩
  · funext base
    apply Option.eq_none_iff_forall_not_mem.mpr
    intro region found
    obtain ⟨cube, member, own, -⟩ := Process.heap_some found
    exact foreign cube (List.mem_append_left _ member) own
  · intro cube member own
    exact absurd own (foreign cube (List.mem_append_left _ member))
  · intro cube member own
    exact absurd own (foreign cube member)

/-- What an act does to the heap of a process hangs on that heap alone. -/
theorem Family.Act.serve_apply {act : Family.Act}
    {heaps : Nat → Option (Heap UInt8)} :
    act.serve P f heaps pid = act.serve P f (fun _ => heaps pid) pid := by
  cases act with
  | event other event =>
      simp only [Family.Act.serve]
      cases found : f.members other with
      | none => rfl
      | some m =>
          by_cases same : pid = other
          · subst same
            simp only [Function.update_self]
          · simp only [Function.update_of_ne same]
  | fork parent child errno os =>
      by_cases same : pid = child
      · simp only [Family.Act.serve, same, Function.update_self]
      · simp only [Family.Act.serve, Function.update_of_ne same]

/-- One act, for a process whose blocks are in order. -/
theorem Family.Step.served {act : Family.Act} (step : Family.Step P f act f')
    (orderly : f.Orderly P) (matched : act.Matched f)
    (mine : f.members owner = some q) (filed : (q.on f.files).Filed) :
    ∃ q', f'.members owner = some q' ∧ q'.self = q.self ∧
      (q'.on f'.files).Filed ∧
      f'.heaps owner = act.serve P f f.heaps owner := by
  cases step with
  | @event pid event m here admits =>
      have serve : Family.Act.serve P f (.event pid event) f.heaps =
          Function.update f.heaps pid ((f.heaps pid).map
            ((event.command P (m.on f.files)).run 0)) := by
        simp only [Family.Act.serve, here]
      rw [serve]
      by_cases same : owner = pid
      · subst same
        cases here.symm.trans mine
        have served := (orderly.sound.housed here filed).event admits.1
          (matched _ here) admits.2
        have self := (event_files (P := P) (p := q.on f.files) event).self
        refine ⟨_, Function.update_self .., self, served.2.filed, ?_⟩
        rw [Function.update_self, Family.heaps_of_some here,
          Family.heaps_of_some (Function.update_self ..)]
        exact congrArg some served.1
      · have found := (Function.update_of_ne same
          (some (m.after P event f.files)) f.members).trans mine
        have beside := orderly.beside here admits mine (Ne.symm same) filed
        refine ⟨q, found, rfl, beside.2, ?_⟩
        rw [Function.update_of_ne same, Family.heaps_of_some mine,
          Family.heaps_of_some found]
        exact congrArg some beside.1
  | @fork pid child errno os m here new answered =>
      have last : owner ≠ child := by
        intro same
        rw [same, new] at mine
        cases mine
      have serve : Family.Act.serve P f (.fork pid child errno os) f.heaps =
          Function.update f.heaps child (some .empty) := rfl
      rw [serve, Function.update_of_ne last, Family.heaps_of_some mine]
      obtain ⟨q', found, same⟩ := Family.forked_of_some child errno os
        orderly.sound here mine last
      have self : (q'.on f.files).self = (q.on f.files).self := by rw [same]
      refine ⟨q', found, self, ?_, ?_⟩
      · show (q'.on f.files).Filed
        rw [same]
        exact filed
      · rw [Family.heaps_of_some found]
        show some (q'.on f.files).heap = _
        rw [same]

/-- A process that an act makes has no block of its own. -/
theorem Family.Step.newborn {act : Family.Act} (step : Family.Step P f act f')
    (sound : f.Sound P) (absent : f.members owner = none)
    (born : f'.members owner = some q) :
    (q.on f'.files).Filed ∧ f'.heaps owner = some .empty ∧
      act.serve P f f.heaps owner = some .empty := by
  cases step with
  | event here admits =>
      rcases some_update born with ⟨rfl, -⟩ | ⟨-, found⟩
      · rw [absent] at here
        cases here
      · rw [absent] at found
        cases found
  | @fork pid child errno os m here new answered =>
      have parent : owner ≠ pid := by
        intro same
        rw [same, here] at absent
        cases absent
      rcases some_update born with ⟨rfl, rfl⟩ | ⟨-, found⟩
      · have empty := @Family.Sound.child P f pid m owner errno os sound here
          new answered
        refine ⟨empty.2, ?_, Function.update_self ..⟩
        rw [Family.heaps_of_some born]
        exact congrArg some empty.1
      · rcases some_update found with ⟨same, -⟩ | ⟨-, found⟩
        · exact absurd same parent
        · rw [absent] at found
          cases found

/-- No process comes or goes unless an act makes it. -/
theorem Family.Step.absent {act : Family.Act} (step : Family.Step P f act f')
    (stays : f'.members owner = none) :
    f'.heaps owner = act.serve P f f.heaps owner := by
  have absent : f.members owner = none := by
    rw [← Option.not_isSome_iff_eq_none]
    intro there
    have later := step.members owner there
    rw [stays] at later
    cases later
  have none' : f.heaps owner = none := Family.heaps_of_none absent
  rw [Family.heaps_of_none stays]
  cases step with
  | @event pid event m here admits =>
      rw [Family.Act.serve_apply, none']
      simp only [Family.Act.serve, here]
      by_cases same : owner = pid
      · subst same
        rw [Function.update_self]
        rfl
      · rw [Function.update_of_ne same]
  | @fork pid child errno os m here new answered =>
      have other : owner ≠ child := by
        intro same
        subst same
        simp only [Function.update_self] at stays
        cases stays
      show _ = Function.update f.heaps child (some .empty) owner
      rw [Function.update_of_ne other, none']

theorem Family.Step.orderly {act : Family.Act} (step : Family.Step P f act f')
    (orderly : f.Orderly P) : f'.Orderly P :=
  ⟨step.sound orderly.sound, step.sealed orderly.sound orderly.sealed⟩

/-- One act. -/
theorem Family.Step.tended {act : Family.Act} (step : Family.Step P f act f')
    (tended : f.Tended P) (matched : act.Matched f) :
    f'.Tended P ∧ f'.heaps = act.serve P f f.heaps := by
  have orderly := tended.toOrderly
  constructor
  · refine ⟨step.orderly orderly, ?_⟩
    intro pid q found
    cases before : f.members pid with
    | none => exact (step.newborn orderly.sound before found).1
    | some m =>
        obtain ⟨q', found', -, filed, -⟩ := step.served orderly matched before
          (tended.filed pid m before)
        cases found.symm.trans found'
        exact filed
  · funext pid
    cases found : f'.members pid with
    | none => exact step.absent found
    | some q =>
        cases before : f.members pid with
        | none =>
            obtain ⟨-, empty, serve⟩ := step.newborn orderly.sound before found
            exact empty.trans serve.symm
        | some m =>
            obtain ⟨-, -, -, -, heap⟩ := step.served orderly matched before
              (tended.filed pid m before)
            exact heap

theorem Family.members_loaded {other : Nat} {self : String}
    (here : (Family.loaded pid self).members other = some m) :
    other = pid ∧ m = ⟨.loaded pid self, [], []⟩ := by
  have here : Function.update (fun _ => none) pid
    (some (⟨.loaded pid self, [], []⟩ : Relative)) other = some m := here
  rcases some_update here with same | ⟨-, absent⟩
  · exact same
  · cases absent

theorem Family.tended_loaded (pid : Nat) (self : String) :
    (Family.loaded pid self).Tended P := by
  refine ⟨⟨Family.sound_loaded pid self, ?_⟩, ?_⟩
  · intro owner m here cube member
    obtain ⟨-, rfl⟩ := Family.members_loaded here
    cases member
  · intro other m here
    obtain ⟨-, rfl⟩ := Family.members_loaded here
    constructor
    · intro cube member
      cases member
    · intro cube member
      cases member

theorem Family.heaps_loaded (pid : Nat) (self : String) :
    (Family.loaded pid self).heaps =
      Function.update (fun _ => none) pid (some .empty) := by
  funext other
  by_cases same : other = pid
  · subst same
    have here : (Family.loaded other self).members other =
      some ⟨.loaded other self, [], []⟩ := dif_pos rfl
    rw [Function.update_self, Family.heaps_of_some here]
    rfl
  · have absent : (Family.loaded pid self).members other = none :=
      dif_neg same
    rw [Function.update_of_ne same, Family.heaps_of_none absent]

/-- In every run of every tree, each process sees in its blocks what its own
calls and stores have made of them. -/
theorem heaps_follow {root : Nat} {self : String}
    {trace : List (Family × Family.Act)} {finish : Family}
    (run : Run (Family.Step P) (.loaded root self) trace finish)
    (matched : ∀ point ∈ trace, point.2.Matched point.1) :
    finish.heaps = trace.foldl
      (fun heaps point => point.2.serve P point.1 heaps)
      (Function.update (fun _ => none) root (some .empty)) := by
  rw [← Family.heaps_loaded root self]
  exact run.follows (Family.Tended P) (fun f act => act.Matched f)
    Family.heaps (fun f act heaps => act.serve P f heaps)
    (fun _ _ _ tended matched step => (step.tended tended matched).1)
    (fun _ _ _ tended matched step => (step.tended tended matched).2)
    (Family.tended_loaded root self) matched

end Heaps

/-- A process allocates a block, stores to it and forks, and the child stores
to the block in vain. -/
theorem heaps_follow_fork :
    ∃ (trace : List (Family × Family.Act)) (finish : Family),
      Run (Family.Step .small) (.loaded 1 "d") trace finish ∧
      trace.length = 4 ∧
      finish.heaps = trace.foldl
        (fun heaps point => point.2.serve .small point.1 heaps)
        (Function.update (fun _ => none) 1 (some .empty)) := by
  have here : Family.filled.members 1 = some Relative.filled := rfl
  obtain ⟨f₁, m₁, stored, here₁, new⟩ : ∃ f₁ m₁, Family.Step .small .filled
      (.event 1 (.smooth (.store 65536 7) 0)) f₁ ∧
        f₁.members 1 = some m₁ ∧ f₁.members 2 = none :=
    ⟨_, _, .event here ⟨trivial, by simp [Event.smooth, Event.made]⟩,
      rfl, rfl⟩
  obtain ⟨f₂, q, forked, found⟩ : ∃ f₂ q, Family.Step .small f₁
      (.fork 1 2 0 fun _ => .done 0 "e") f₂ ∧ f₂.members 2 = some q :=
    ⟨_, _, .fork here₁ new fun _ _ => rfl, rfl⟩
  obtain ⟨f₃, vain⟩ : ∃ f₃, Family.Step .small f₂
      (.event 2 (.smooth (.store 65536 9) 0)) f₃ :=
    ⟨_, .event found ⟨trivial, by simp [Event.smooth, Event.made]⟩⟩
  have run := Run.cons Family.step_filled
    (.cons stored (.cons forked (.cons vain (.nil _))))
  refine ⟨_, f₃, run, rfl, heaps_follow run ?_⟩
  simp [Family.Act.Matched, Event.Matched, Event.smooth]

end CoralApi
