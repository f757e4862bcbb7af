import CoralApi.Kinship

/-!
# Forked processes and the blocks of their ancestors

A process that descends from a fork of another one changes no file of the
other, and has no writable page of it.  The calls on a block that it has
inherited are refused until it frees its mapping.
-/

namespace CoralApi

open Program Transition

/-- A file of the owner, in the processes below a fork of the owner. -/
structure Family.Watched (P : PageSize) (owner child : Nat) (dir id : String)
    (f : Family) : Prop where
  maker : (owner, dir, id) ∈ f.made
  below : (f.members child).isSome
  above : (f.members owner).isSome
  apart : ∀ m, f.members owner = some m → ¬m.Under owner child
  shut : ∀ pid m, f.members pid = some m → m.Under pid child →
    ∀ mapping ∈ m.maps, mapping.dir = dir → mapping.id = id →
      ∀ page, mapping.block.HasPage P page → m.prot page = .read

section Watched

variable {P : PageSize} {f f' : Family} {owner child pid : Nat}
  {dir id : String} {m : Relative} {cube : Cube}

theorem Family.Sound.same_maker {first second : Nat} {name : String × String}
    (sound : f.Sound P) (left : (first, name) ∈ f.made)
    (right : (second, name) ∈ f.made) : first = second :=
  congrArg Prod.fst (List.inj_on_of_nodup_map sound.unique left right rfl)

/-- A process below the fork is not the owner. -/
theorem Family.Watched.other (watched : f.Watched P owner child dir id)
    (here : f.members pid = some m) (under : m.Under pid child) :
    pid ≠ owner := by
  intro same
  subst same
  exact watched.apart m here under

/-- The file is not that of an own block of a process below the fork. -/
theorem Family.Watched.not_own (watched : f.Watched P owner child dir id)
    (sound : f.Sound P) (here : f.members pid = some m)
    (under : m.Under pid child) (member : cube ∈ m.live)
    (own : cube.pid = m.pid) : ¬(dir = m.self ∧ id = cube.id) := by
  rintro ⟨rfl, rfl⟩
  have mine := sound.members pid m here
  have made := mine.owns cube member (own.trans mine.known)
  exact watched.other here under (sound.same_maker made watched.maker)

theorem Family.Watched.event {event : Event}
    (watched : f.Watched P owner child dir id) (sound : f.Sound P)
    (here : f.members pid = some m) (admits : f.Admits m event)
    (under : m.Under pid child) :
    ∀ mapping ∈ (m.after P event f.files).maps, mapping.dir = dir →
      mapping.id = id → ∀ page, mapping.block.HasPage P page →
        (m.after P event f.files).prot page = .read := by
  have mine := sound.members pid m here
  have deed : Deed P (m.on f.files) event _ (m.after P event f.files).toProcess :=
    event_deed admits.1.words
  have laid : (m.on f.files).Laid P := mine.laid.on
  have charted : (m.on f.files).Charted P f.names := mine.charted.on
  intro mapping inside here' there page has
  rcases deed.maps charted mapping inside with old | ⟨self, made | ⟨cube, member,
    own, name⟩⟩
  · have read := watched.shut pid m here under mapping old here' there page has
    refine deed.stays_read laid old has ?_ read
    intro cube member own
    refine (charted.disjoint_page old member own ?_).not_hasPage has
    rw [here', there]
    exact watched.not_own sound here under (List.mem_append_left _ member) own
  · have known : (dir, id) ∈ f.names := List.mem_map_of_mem watched.maker
    rw [← here', ← there, self] at known
    exact absurd known (admits.2 _ made)
  · have mineOnly := watched.not_own sound here under
      (List.mem_append_left _ member) own
    exact absurd ⟨here'.symm.trans self, there.symm.trans name⟩ mineOnly

theorem Family.Step.watched {act : Family.Act}
    (step : Family.Step P f act f') (sound : f.Sound P)
    (watched : f.Watched P owner child dir id) :
    f'.Watched P owner child dir id := by
  refine ⟨step.made _ watched.maker, step.members _ watched.below,
    step.members _ watched.above, ?_, ?_⟩
  · intro q found
    cases step with
    | @event pid event m here admits =>
        rcases some_update found with ⟨rfl, rfl⟩ | ⟨-, found⟩
        · exact watched.apart m here
        · exact watched.apart q found
    | @fork pid new errno os m here unused answered =>
        rcases some_update found with ⟨rfl, rfl⟩ | ⟨-, found⟩
        · have there := watched.above
          rw [unused] at there
          cases there
        · rcases some_update found with ⟨rfl, rfl⟩ | ⟨-, found⟩
          · exact watched.apart m here
          · exact watched.apart q found
  · intro other q found under
    cases step with
    | @event pid event m here admits =>
        rcases some_update found with ⟨rfl, rfl⟩ | ⟨-, found⟩
        · exact watched.event sound here admits under
        · exact watched.shut other q found under
    | @fork pid new errno os m here unused answered =>
        have mine := sound.members pid m here
        rcases some_update found with ⟨rfl, rfl⟩ | ⟨-, found⟩
        · obtain ⟨self, prot, same, -, kept⟩ :=
            mine.copied other errno answered
          have above : m.Under pid child := by
            rcases under with rfl | below
            · have there := watched.below
              rw [unused] at there
              cases there
            · rcases List.mem_cons.mp below with same | older
              · exact .inl same.symm
              · exact .inr older
          rw [same]
          intro mapping inside here' there page has
          exact kept page
            (watched.shut pid m here above mapping inside here' there page has)
        · rcases some_update found with ⟨rfl, rfl⟩ | ⟨-, found⟩
          · rw [mine.same]
            exact watched.shut _ m here under
          · exact watched.shut other q found under

/-- The block is registered, or it is freed and unmapped. -/
def Process.Given (cube : Cube) (p : Process) : Prop :=
  cube ∈ p.cubes ∨ cube ∈ p.orphans ∧
    ∀ mapping ∈ p.maps, ¬(mapping.dir = p.self ∧ mapping.id = cube.id)

/-- The fork of the owner starts the watch. -/
theorem Family.watched_fork {errno : Nat} {os : Nat → Reply}
    (forked : Family.Step P f (.fork owner child errno os) f')
    (sound : f.Sound P) (here : f.members owner = some m)
    (own : cube.pid = owner) (given : m.Given cube) :
    f'.Watched P owner child m.self cube.id := by
  have mine := sound.members owner m here
  have there : (f.members owner).isSome := by rw [here]; rfl
  have live : cube ∈ m.live := by
    rcases given with registered | ⟨orphan, -⟩
    · exact List.mem_append_left _ registered
    · exact List.mem_append_right _ orphan
  have members := forked.members
  have made := forked.made _ (mine.owns cube live own)
  cases forked with
  | @fork _ _ _ _ m' here' new answered =>
      cases here.symm.trans here'
      have fresh : ∀ q pid, f.members pid = some q → ¬q.Under pid child := by
        rintro q pid found (rfl | below)
        · rw [new] at found
          cases found
        · have older := (sound.members pid q found).ancestors child below
          rw [new] at older
          cases older
      refine ⟨made, ?_, members owner there, ?_, ?_⟩
      · simp only [Function.update_self, Option.isSome_some]
      · intro q found
        rcases some_update found with ⟨same, -⟩ | ⟨-, found⟩
        · rw [same, new] at there
          cases there
        · rcases some_update found with ⟨-, rfl⟩ | ⟨-, found⟩
          · exact fresh m owner here
          · exact fresh q owner found
      · intro pid q found under
        rcases some_update found with ⟨-, rfl⟩ | ⟨-, found⟩
        · obtain ⟨self, prot, same, shut⟩ :=
            mine.copied child errno answered
          rw [same]
          intro mapping inside dir name page has
          rcases given with registered | ⟨-, unmapped⟩
          · have block := mine.charted.single mapping inside cube registered
              (own.trans mine.known.symm) dir name
            exact shut.1 cube registered page (block ▸ has)
          · exact absurd ⟨dir, name⟩ (unmapped mapping inside)
        · rcases some_update found with ⟨rfl, rfl⟩ | ⟨-, found⟩
          · exact absurd under (fresh m pid here)
          · exact absurd under (fresh q pid found)

/-- The process leaves the cube and its file alone, whatever it does next. -/
structure Family.Spares (P : PageSize) (dir : String) (cube : Cube)
    (f : Family) (q : Relative) : Prop where
  /-- No event changes the file. -/
  file : ∀ event, f.Admits q event →
    (event.outcome P (q.on f.files)).file dir cube.id =
      (q.on f.files).file dir cube.id
  /-- No page of the file can be written. -/
  mapped : ∀ mapping ∈ q.maps, mapping.dir = dir → mapping.id = cube.id →
    ∀ addr, mapping.block.Holds addr → ¬q.Writable P addr
  /-- Until the process frees it, the cube is as it was at the fork, no page of
  it can be written, and the calls on it are refused. -/
  inherited : cube ∈ q.inherited →
    cube ∈ q.cubes ∧
    (∀ addr, cube.page.Holds addr → ¬q.Writable P addr) ∧
    (∀ addr size, 0 < size → addr + size < wordSize →
      cube.containsRange addr size = true →
        (q.on f.files).Refuses (CoralApi.slice P addr size) none) ∧
    (∀ size, size ≠ 0 → (q.on f.files).Refuses
      (inaccelRealloc P cube.page.addr size) none) ∧
    ∀ slice ∈ cube.slices,
      (q.on f.files).Refuses (attach P slice.ptr) (-1) ∧
      (q.on f.files).Refuses (detach slice.ptr) (-1)

theorem not_writable_of_read {addr : Nat} {p : Process}
    (read : p.prot (addr / P.bytes) = .read) : ¬p.Writable P addr := by
  intro writable
  have both : Prot.read = .readWrite := read.symm.trans writable
  cases both

theorem Family.Watched.spares (watched : f.Watched P owner child dir cube.id)
    (sound : f.Sound P) (here : f.members pid = some m)
    (under : m.Under pid child) : f.Spares P dir cube m := by
  have mine := sound.members pid m here
  have mapped : ∀ mapping ∈ m.maps, mapping.dir = dir → mapping.id = cube.id →
      ∀ addr, mapping.block.Holds addr → ¬m.Writable P addr := by
    intro mapping inside here' there addr holds
    have has := holds.hasPage (mine.charted.aligned mapping inside)
    exact not_writable_of_read
      (watched.shut pid m here under mapping inside here' there _ has)
  refine ⟨?_, mapped, ?_⟩
  · intro event admits
    have files := event_files (P := P) (p := m.on f.files) event
    rcases files.file dir cube.id with same | ⟨self, own | made⟩ | ⟨mapping,
      inside, here', there, addr, holds, writable⟩
    · exact same
    · obtain ⟨other, member, own, name⟩ := own
      exact absurd ⟨self, name.symm⟩
        (watched.not_own sound here under member own)
    · have known : (dir, cube.id) ∈ f.names :=
        List.mem_map_of_mem watched.maker
      rw [self] at known
      exact absurd known (admits.2 _ made)
    · exact absurd writable (mapped mapping inside here' there addr holds)
  · intro listed
    obtain ⟨member, foreign, read⟩ := mine.inherited cube listed
    have foreign : cube.pid ≠ (m.on f.files).pid := fun own =>
      foreign (own.trans mine.known)
    have laid : (m.on f.files).Laid P := mine.laid.on
    have placed := mine.laid.placed cube member
    refine ⟨member, ?_, ?_, ?_, ?_⟩
    · exact fun addr holds =>
        not_writable_of_read (read _ (holds.hasPage placed.aligned))
    · exact fun addr size nonempty word contains =>
        laid.refuses_slice member foreign nonempty word contains
    · exact fun size asked => laid.refuses_realloc member foreign asked
    · exact fun slice inside => ⟨laid.refuses_attach member foreign inside,
        laid.refuses_detach member foreign inside⟩

/-- The processes that descend from a fork, by whatever further forks, leave
the blocks of the forking process alone, in every run. -/
theorem forked_spares {root : Nat} {self : String}
    {past future : List (Family × Family.Act)} {finish : Family} {errno : Nat}
    {os : Nat → Reply}
    (run : Run (Family.Step P) (.loaded root self) past f)
    (here : f.members owner = some m) (own : cube.pid = owner)
    (given : m.Given cube)
    (forked : Family.Step P f (.fork owner child errno os) f')
    (rest : Run (Family.Step P) f' future finish) :
    (∃ q, f'.members child = some q ∧
      (cube ∈ m.cubes → cube ∈ q.inherited)) ∧
    ∀ s ∈ visited future finish, ∀ pid q, s.members pid = some q →
      q.Under pid child → s.Spares P m.self cube q := by
  have sound : f.Sound P := run.invariant (Family.Sound P)
    (fun _ _ _ before step => step.sound before) (Family.sound_loaded root self)
    f (finish_mem_visited past f)
  have watched := Family.watched_fork forked sound here own given
  have after := forked.sound sound
  refine ⟨?_, ?_⟩
  · cases forked with
    | @fork _ _ _ _ m' here' new answered =>
        cases here.symm.trans here'
        exact ⟨_, Function.update_self .., id⟩
  · intro s seen pid q found under
    have both := rest.invariant
      (fun s => s.Sound P ∧ s.Watched P owner child m.self cube.id)
      (fun _ _ _ before step =>
        ⟨step.sound before.1, step.watched before.1 before.2⟩)
      ⟨after, watched⟩ s seen
    exact both.2.spares both.1 found under

end Watched

/-- The process of the library after an allocation of one byte. -/
def Relative.filled : Relative :=
  Relative.after .small (.smooth (.alloc 1) 65536) [] ⟨.loaded 1 "d", [], []⟩

def Family.filled : Family where
  members := Function.update (Family.loaded 1 "d").members 1
    (some Relative.filled)
  files := Relative.filled.files
  made := [(1, "d", "a")]

theorem Family.step_filled : Family.Step .small (.loaded 1 "d")
    (.event 1 (.smooth (.alloc 1) 65536)) .filled :=
  @Family.Step.event .small (.loaded 1 "d") 1 (.smooth (.alloc 1) 65536)
    ⟨.loaded 1 "d", [], []⟩ rfl
    ⟨show 1 < wordSize by decide, by simp [Family.names, Family.loaded]⟩

/-- A child stores to the block of its parent, in vain, and frees it. -/
theorem forked_spares_store :
    ∃ (past future : List (Family × Family.Act)) (f' finish : Family)
      (os : Nat → Reply),
      Run (Family.Step .small) (.loaded 1 "d") past .filled ∧
      Family.Step .small .filled (.fork 1 2 0 os) f' ∧
      Run (Family.Step .small) f' future finish ∧ future ≠ [] ∧
      ∃ cube ∈ Relative.filled.cubes,
        (∃ q, f'.members 2 = some q ∧
          (cube ∈ Relative.filled.cubes → cube ∈ q.inherited)) ∧
        ∀ s ∈ visited future finish, ∀ pid q, s.members pid = some q →
          q.Under pid 2 → s.Spares .small Relative.filled.self cube q := by
  have here : Family.filled.members 1 = some Relative.filled := rfl
  have new : Family.filled.members 2 = none := rfl
  obtain ⟨f', forked⟩ : ∃ f',
      Family.Step .small .filled (.fork 1 2 0 fun _ => .done 0 "e") f' :=
    ⟨_, .fork here new fun _ _ => rfl⟩
  have run := Run.cons Family.step_filled (.nil _)
  have registered : (⟨1, 0, ⟨65536, 4096⟩, 1, [], "a"⟩ : Cube) ∈
      Relative.filled.cubes := by decide +kernel
  obtain ⟨⟨q, found, -⟩, -⟩ :=
    forked_spares run here rfl (.inl registered) forked (.nil _)
  obtain ⟨f₁, stored⟩ : ∃ f₁, Family.Step .small f'
      (.event 2 (.smooth (.store 65536 7) 0)) f₁ :=
    ⟨_, .event found ⟨trivial, by simp [Event.smooth, Event.made]⟩⟩
  obtain ⟨q₁, found₁⟩ := Option.isSome_iff_exists.mp
    (stored.members 2 (by rw [found]; rfl))
  obtain ⟨f₂, freed⟩ : ∃ f₂, Family.Step .small f₁
      (.event 2 (.smooth (.free 65536) 0)) f₂ :=
    ⟨_, .event found₁ ⟨trivial, by simp [Event.smooth, Event.made]⟩⟩
  have rest := Run.cons stored (.cons freed (.nil _))
  exact ⟨_, _, f', f₂, _, run, forked, rest, by simp, _, registered,
    forked_spares run here rfl (.inl registered) forked rest⟩

end CoralApi
