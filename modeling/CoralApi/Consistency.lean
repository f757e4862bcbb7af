import CoralApi.Cargo

/-!
# The host and the server

A server works on the files of the arrays that are attached, and the processes
of the tree go on.  What the submitting process has seen in an array reaches
the server, and what the server leaves there reaches the process.
-/

namespace CoralApi

open Program Transition

/-- What happens between the processes of a tree and a server: an act of the
processes, or a store of the server. -/
inductive Exchange where
  | act (act : Family.Act)
  | serve (dir id : String) (index : Nat) (byte : UInt8)

/-- The byte of the file belongs to an attached slice. -/
def Family.InFlight (dir id : String) (index : Nat) (f : Family) : Prop :=
  ∃ owner m, f.members owner = some m ∧ m.self = dir ∧
    ∃ cube ∈ m.live, cube.pid = m.pid ∧ cube.id = id ∧
      ∃ slice ∈ cube.slices, 0 < slice.nlinks ∧ slice.offset ≤ index ∧
        index < slice.offset + slice.size

/-- The tree after a store of the server. -/
def Family.served (dir id : String) (index : Nat) (byte : UInt8) (f : Family) :
    Family :=
  { f with
    files := f.files.map fun file =>
      if file.dir = dir ∧ file.id = id then file.store index byte else file }

namespace Exchange

/-- The server stores into attached slices alone. -/
inductive Step (P : PageSize) (f : Family) : Exchange → Family → Prop where
  | act {act : Family.Act} {f' : Family} (step : Family.Step P f act f') :
      Step P f (.act act) f'
  | serve {dir id : String} {index : Nat} {byte : UInt8}
      (flight : f.InFlight dir id index) :
      Step P f (.serve dir id index byte) (f.served dir id index byte)

def Paired (f : Family) : Exchange → Prop
  | .act happens => happens.Paired f
  | .serve _ _ _ _ => True

def Carries (P : PageSize) (owner ptr : Nat) (f : Family) : Exchange → Prop
  | .act happens => happens.Carries P owner ptr f
  | .serve _ _ _ _ => True

/-- What the server leaves of a byte. -/
def leaves (dir id : String) (index : Nat) : Exchange → UInt8 → UInt8
  | .act _, byte => byte
  | .serve dir' id' index' byte', byte =>
      if dir' = dir ∧ id' = id ∧ index' = index then byte' else byte

/-- What the server leaves of a byte in a run. -/
def left (dir id : String) (index : Nat) (trace : List (Family × Exchange))
    (byte : UInt8) : UInt8 :=
  trace.foldl (fun byte point => point.2.leaves dir id index byte) byte

end Exchange

/-- The byte that a process reads in its block of the file. -/
def Family.Sees (owner : Nat) (id : String) (index : Nat) (byte : UInt8)
    (f : Family) : Prop :=
  ∀ m, f.members owner = some m → ∀ cube ∈ m.cubes, cube.pid = m.pid →
    cube.id = id → index < cube.page.size ∧
      (m.on f.files).loadByte (cube.page.addr + index) = some byte

/-- A server and the owner of a slice read this byte of the slice.  The owner
still reads it after a detach. -/
structure Family.Returns (P : PageSize) (owner ptr : Nat) (dir id : String)
    (index : Nat) (byte : UInt8) (f : Family) : Prop where
  serves : f.loadFile dir id index = some byte
  sees : f.Sees owner id index byte
  leaves : ∀ errno os f',
    Family.Step P f (.event owner ⟨.detach ptr, errno, os⟩) f' →
      f'.Sees owner id index byte

section Server

variable {P : PageSize} {f f' : Family} {dir id dir' id' : String}
  {index index' : Nat} {byte byte' : UInt8} {cargo : Cargo}

theorem Family.file_served :
    (f.served dir id index byte).file dir id =
      (f.file dir id).map (File.store index byte) :=
  @file_map_self { Process.loaded 0 "" with files := f.files } dir id
    (File.store index byte) fun _ => ⟨rfl, rfl⟩

theorem Family.file_served_other (other : ¬(dir' = dir ∧ id' = id)) :
    (f.served dir id index byte).file dir' id' = f.file dir' id' :=
  @file_map { Process.loaded 0 "" with files := f.files } dir id dir' id'
    (File.store index byte) (fun _ => ⟨rfl, rfl⟩) other

theorem File.load_store {file : File} (read : file.load index' = some byte') :
    (file.store index byte).load index' =
      some (if index' = index then byte else byte') := by
  unfold File.load at read ⊢
  split at read
  · rename_i inside
    cases read
    show (if index' < file.length then
      some (Function.update file.bytes index byte index') else none) = _
    rw [if_pos inside, Function.update_apply]
  · cases read

/-- A byte that a server has read is what the server leaves there. -/
theorem Family.loadFile_served
    (read : f.loadFile dir' id' index' = some byte') :
    (f.served dir id index byte).loadFile dir' id' index' = some
      ((Exchange.serve dir id index byte).leaves dir' id' index' byte') := by
  unfold Family.loadFile at read ⊢
  unfold Exchange.leaves
  by_cases here : dir' = dir ∧ id' = id
  · obtain ⟨rfl, rfl⟩ := here
    rw [Family.file_served]
    obtain ⟨file, found, load⟩ := Option.bind_eq_some_iff.mp read
    rw [found]
    simp only [true_and]
    refine (File.load_store load).trans ?_
    simp only [eq_comm]
  · have other : ¬(dir = dir' ∧ id = id' ∧ index = index') :=
      fun same => here ⟨same.1.symm, same.2.1.symm⟩
    rw [Family.file_served_other here]
    simp only [if_neg other]
    exact read

/-- A slice lies in the registered block that has its file. -/
theorem Family.Reckoned.within {pid : Nat} {m : Relative} {cube other : Cube}
    {slice : Slice} (reckoned : f.Reckoned P) (here : f.members pid = some m)
    (live : other ∈ m.live) (own' : other.pid = m.pid)
    (inside : slice ∈ other.slices) (below : index < slice.offset + slice.size)
    (registered : cube ∈ m.cubes) (own : cube.pid = m.pid)
    (same : other.id = cube.id) : index < cube.page.size := by
  have mine := reckoned.sound.members pid m here
  have filed := reckoned.filed pid m here
  have listed : cube ∈ m.live := List.mem_append_left _ registered
  cases mine.laid.named.same_cube live listed
    (filed.unique other live own' cube listed own same)
  have fits := mine.laid.slices cube registered slice inside
  have finish := fits.finish
  have within := fits.inside
  omega

/-- The server stores inside of the block. -/
theorem Family.Reckoned.inFlight {pid : Nat} {m : Relative} {cube : Cube}
    (reckoned : f.Reckoned P) (flight : f.InFlight m.self cube.id index)
    (here : f.members pid = some m) (registered : cube ∈ m.cubes)
    (own : cube.pid = m.pid) : index < cube.page.size := by
  have sound := reckoned.sound
  obtain ⟨owner, m', there, self, cube', live, own', name, slice, inside,
    linked, above, below⟩ := flight
  have mine := sound.members pid m here
  have theirs := sound.members owner m' there
  have made := theirs.owns cube' live (own'.trans theirs.known)
  rw [self, name] at made
  have same := sound.same_maker made
    (sound.owned here registered (own.trans mine.known))
  subst same
  cases there.symm.trans here
  exact reckoned.within here live own' inside below registered own name

theorem Family.Reckoned.served (reckoned : f.Reckoned P)
    (flight : f.InFlight dir id index) :
    (f.served dir id index byte).Reckoned P := by
  have sound := reckoned.sound
  constructor
  · constructor
    · constructor
      · exact ⟨fun pid m here => (sound.members pid m here).mono
          (fun _ there => there) fun _ there => there, sound.unique,
          sound.makers⟩
      · exact reckoned.sealed
    · intro pid m here
      have here : f.members pid = some m := here
      have filed := reckoned.filed pid m here
      constructor
      · intro cube registered own
        obtain ⟨file, found, tail⟩ := filed.here cube registered own
        have found : f.file m.self cube.id = some file := found
        show ∃ file', (f.served dir id index byte).file m.self cube.id =
          some file' ∧ ∀ index, cube.page.size ≤ index → file'.bytes index = 0
        by_cases named : m.self = dir ∧ cube.id = id
        · obtain ⟨rfl, rfl⟩ := named
          have below := reckoned.inFlight flight here registered own
          refine ⟨file.store index byte, ?_, ?_⟩
          · rw [Family.file_served, found]
            rfl
          · intro other long
            have apart : other ≠ index := by omega
            unfold File.store
            exact (Function.update_of_ne apart _ _).trans (tail other long)
        · rw [Family.file_served_other named]
          exact ⟨file, found, tail⟩
      · exact filed.unique
  · exact reckoned.tallied

theorem Family.Ships.served (ships : f.Ships P cargo) :
    (f.served dir id index byte).Ships P cargo :=
  ⟨ships.fits, ships.maker, ships.bears, ships.closed⟩

end Server

section Runs

variable {P : PageSize} {f f' finish : Family} {cargo : Cargo}
  {trace : List (Family × Exchange)}

theorem Exchange.Step.reckoned {exchange : Exchange}
    (step : Exchange.Step P f exchange f') (reckoned : f.Reckoned P)
    (paired : exchange.Paired f) : f'.Reckoned P := by
  cases step with
  | act step => exact step.reckoned reckoned paired
  | serve flight => exact reckoned.served flight

/-- One step of the processes or of the server, for a byte of the slice. -/
theorem Family.Ships.exchange {exchange : Exchange} {index : Nat}
    {byte : UInt8} (ships : f.Ships P cargo)
    (step : Exchange.Step P f exchange f') (reckoned : f.Reckoned P)
    (paired : exchange.Paired f)
    (carries : exchange.Carries P cargo.owner cargo.slice.ptr f)
    (covered : cargo.Covers index)
    (read : f.loadFile cargo.dir cargo.id index = some byte) :
    f'.Ships P cargo ∧ f'.loadFile cargo.dir cargo.id index =
      some (exchange.leaves cargo.dir cargo.id index byte) := by
  cases step with
  | act step =>
      obtain ⟨ships', kept⟩ := ships.step step reckoned paired carries
      exact ⟨ships', kept index covered byte read⟩
  | serve flight => exact ⟨ships.served, Family.loadFile_served read⟩

/-- A run, for a byte of the slice. -/
theorem Family.Ships.exchanges {index : Nat} {byte : UInt8}
    (ships : f.Ships P cargo) (reckoned : f.Reckoned P)
    (run : Run (Exchange.Step P) f trace finish)
    (paired : ∀ point ∈ trace, point.2.Paired point.1)
    (carries : ∀ point ∈ trace,
      point.2.Carries P cargo.owner cargo.slice.ptr point.1)
    (covered : cargo.Covers index)
    (read : f.loadFile cargo.dir cargo.id index = some byte) :
    finish.Reckoned P ∧ finish.Ships P cargo ∧
      finish.loadFile cargo.dir cargo.id index =
        some (Exchange.left cargo.dir cargo.id index trace byte) := by
  induction run generalizing byte with
  | nil => exact ⟨reckoned, ships, read⟩
  | cons step rest induction =>
      have now := paired _ List.mem_cons_self
      obtain ⟨ships', read'⟩ := ships.exchange step reckoned now
        (carries _ List.mem_cons_self) covered read
      exact induction ships' (step.reckoned reckoned now)
        (fun point member => paired point (List.mem_cons_of_mem _ member))
        (fun point member => carries point (List.mem_cons_of_mem _ member))
        read'

theorem Family.reckoned_exchanges {root : Nat} {self : String}
    (run : Run (Exchange.Step P) (.loaded root self) trace f)
    (paired : ∀ point ∈ trace, point.2.Paired point.1) : f.Reckoned P :=
  run.invariant_under (Family.Reckoned P) (fun f exchange => exchange.Paired f)
    (fun _ _ _ reckoned paired step => step.reckoned reckoned paired)
    (Family.reckoned_loaded root self) paired f (finish_mem_visited _ _)

/-- An event that leaves the heap to itself keeps the blocks and their files. -/
theorem Family.Reckoned.undisturbed {owner : Nat} {event : Event} {m : Relative}
    {cube : Cube} (reckoned : f.Reckoned P)
    (step : Family.Step P f (.event owner event) f') (still : event.op.Still)
    (matched : Family.Act.Matched f (.event owner event))
    (skips : ∀ m, f.members owner = some m →
      event.command P (m.on f.files) = .skip)
    (there : f'.members owner = some m) (registered : cube ∈ m.cubes)
    (own : cube.pid = m.pid) :
    ∃ m₀, f.members owner = some m₀ ∧ ∃ cube₀ ∈ m₀.cubes,
      cube₀.pid = m₀.pid ∧ cube₀.site = cube.site ∧
        f'.file m.self cube.id = f.file m₀.self cube₀.id := by
  cases step with
  | @event pid event m₀ here admits =>
      have housed := reckoned.sound.housed here (reckoned.filed owner m₀ here)
      have deed := event_deed (P := P) (p := m₀.on f.files) admits.1.words
      have self := (event_files (P := P) (p := m₀.on f.files) event).self
      have same : (m₀.on f.files).SameSites (event.outcome P (m₀.on f.files)) :=
        ⟨deed.descends.1, self, deed.sites still (Event.effect_still still)⟩
      cases there.symm.trans (Function.update_self ..)
      obtain ⟨cube₀, member, site⟩ := same.same.1 cube registered
      obtain ⟨-, -, pid, id⟩ := Cube.site_eq_iff.mp site
      have own₀ : cube₀.pid = m₀.pid := pid.trans (own.trans same.pid)
      have kept := housed.files_still still (matched m₀ here) (skips m₀ here)
        cube₀ member own₀
      refine ⟨m₀, here, cube₀, member, own₀, site, ?_⟩
      rw [← id]
      exact (congrArg (fun dir => Family.file dir cube₀.id _) self).trans
        kept

/-- The blocks of the file are those that the slice is in. -/
theorem Family.Ships.within {m : Relative} {cube : Cube} {index : Nat}
    (ships : f.Ships P cargo) (reckoned : f.Reckoned P)
    (here : f.members cargo.owner = some m) (registered : cube ∈ m.cubes)
    (own : cube.pid = m.pid) (same : cube.id = cargo.id)
    (covered : cargo.Covers index) : index < cube.page.size := by
  obtain ⟨-, other, live, own', same', slice, inside, alike, -⟩ :=
    ships.bearer here
  have below : index < slice.offset + slice.size := by
    rw [alike.offset, alike.size]
    exact covered.2
  exact reckoned.within here live own' inside below registered own
    (same'.trans same.symm)

/-- The owner reads an attached slice where its block is. -/
theorem Family.Ships.sees {index : Nat} {byte : UInt8}
    (ships : f.Ships P cargo) (reckoned : f.Reckoned P)
    (covered : cargo.Covers index)
    (read : f.loadFile cargo.dir cargo.id index = some byte) :
    f.Sees cargo.owner cargo.id index byte := by
  intro m here cube registered own same
  have mine := reckoned.sound.members cargo.owner m here
  have below := ships.within reckoned here registered own same covered
  obtain ⟨self, -⟩ := ships.bearer here
  refine ⟨below, ?_⟩
  rw [Process.Charted.load_own (p := m.on f.files) mine.charted.on registered
    own below]
  rw [← self, ← same] at read
  exact read

/-- A detach of the slice finds its link. -/
theorem Family.Ships.paired {errno : Nat} {os : Nat → Reply}
    (ships : f.Ships P cargo) (reckoned : f.Reckoned P) :
    Family.Act.Paired f
      (.event cargo.owner ⟨.detach cargo.slice.ptr, errno, os⟩) := by
  intro m here cube slice found
  have mine := reckoned.sound.members cargo.owner m here
  obtain ⟨-, other, live, -, -, slice', inside, alike, linked⟩ :=
    ships.bearer here
  have laid : (m.on f.files).Laid P := mine.laid.on
  have known := laid.named.findSlice_eq live inside
  rw [alike.ptr] at known
  cases known.symm.trans found
  exact linked

/-- A detach leaves to the process what it has read. -/
theorem Family.Sees.detached {owner ptr errno index : Nat} {os : Nat → Reply}
    {id : String} {byte : UInt8} (sees : f.Sees owner id index byte)
    (reckoned : f.Reckoned P)
    (step : Family.Step P f (.event owner ⟨.detach ptr, errno, os⟩) f')
    (paired : Family.Act.Paired f (.event owner ⟨.detach ptr, errno, os⟩)) :
    f'.Sees owner id index byte := by
  intro m there cube registered own same
  obtain ⟨m₀, here, cube₀, before, own₀, site, file⟩ :=
    reckoned.undisturbed step trivial (paired.matched reckoned)
      (fun _ _ => rfl) there registered own
  obtain ⟨-, page, -, name⟩ := Cube.site_eq_iff.mp site
  obtain ⟨below, read⟩ := sees m₀ here cube₀ before own₀ (name.trans same)
  have mine := reckoned.sound.members owner m₀ here
  have theirs := (step.reckoned reckoned paired).sound.members owner m there
  rw [Process.Charted.load_own (p := m₀.on f.files) mine.charted.on before own₀
    below] at read
  rw [page] at below
  refine ⟨below, ?_⟩
  rw [Process.Charted.load_own (p := m.on f'.files) theirs.charted.on
    registered own below]
  exact (congrArg (fun file => file.bind (File.load index)) file).trans read

/-- A byte of an attached slice, after a run. -/
theorem Family.Ships.returns {index : Nat} {byte : UInt8}
    (ships : f.Ships P cargo) (reckoned : f.Reckoned P)
    (run : Run (Exchange.Step P) f trace finish)
    (paired : ∀ point ∈ trace, point.2.Paired point.1)
    (carries : ∀ point ∈ trace,
      point.2.Carries P cargo.owner cargo.slice.ptr point.1)
    (covered : cargo.Covers index)
    (read : f.loadFile cargo.dir cargo.id index = some byte) :
    finish.Returns P cargo.owner cargo.slice.ptr cargo.dir cargo.id index
      (Exchange.left cargo.dir cargo.id index trace byte) := by
  obtain ⟨reckoned', ships', kept⟩ := ships.exchanges reckoned run paired
    carries covered read
  constructor
  · exact kept
  · exact ships'.sees reckoned' covered kept
  · intro errno os last detached
    exact (ships'.sees reckoned' covered kept).detached reckoned' detached
      (ships'.paired reckoned')

/-- Until its last detach, a server reads in the file of an attached slice what
the owner saw in the slice at the attach, but for what the server itself has
stored there.  The owner then sees the same, and still does after the detach.
-/
theorem results_returned {root owner ptr errno : Nat} {self : String}
    {os : Nat → Reply} {past future : List (Family × Exchange)} {m : Relative}
    {cube : Cube} {slice : Slice}
    (run : Run (Exchange.Step P) (.loaded root self) past f)
    (here : f.members owner = some m)
    (found : m.findSlice ptr = some (cube, slice)) (registered : cube ∈ m.cubes)
    (attached : returned (attach P ptr ((m.on f.files).enter errno os)) = some 0)
    (step : Family.Step P f (.event owner ⟨.attach ptr, errno, os⟩) f')
    (rest : Run (Exchange.Step P) f' future finish)
    (paired : ∀ point ∈ past ++ future, point.2.Paired point.1)
    (carries : ∀ point ∈ future, point.2.Carries P owner ptr point.1) :
    ∀ index < slice.size, ∀ byte,
      (m.on f.files).loadByte (cube.page.addr + slice.offset + index) =
          some byte →
        finish.Returns P owner ptr m.self cube.id (slice.offset + index)
          (Exchange.left m.self cube.id (slice.offset + index) future byte) := by
  have reckoned := Family.reckoned_exchanges run fun point member =>
    paired point (List.mem_append_left _ member)
  obtain ⟨ships, same⟩ := Family.ships_attach reckoned here found registered
    attached step
  have own := (attach_agrees (p := m.on f.files) found attached).1
  obtain ⟨live, inside, rfl⟩ := findSlice_mem found
  intro index below byte read
  rw [reckoned.load here found registered own below] at read
  refine ships.returns (step.reckoned reckoned fun _ _ => trivial) rest
    (fun point member => paired point (List.mem_append_right _ member)) carries
    ⟨Nat.le_add_right _ _, Nat.add_lt_add_left below _⟩ ?_
  unfold Family.loadFile
  rw [same]
  exact read

end Runs

/-- The process with a slice of its block, after a store. -/
def Relative.stocked : Relative :=
  Relative.sliced.after .small (.smooth (.store 65536 7) 0)
    Relative.sliced.files

theorem Relative.stocked_reached :
    ∃ (f : Family) (past : List (Family × Exchange)),
      Run (Exchange.Step .small) (.loaded 1 "d") past f ∧
      (∀ point ∈ past, point.2.Paired point.1) ∧
      f.members 1 = some Relative.stocked ∧ f.members 2 = none ∧
      f.files = Relative.stocked.files := by
  have here : Family.filled.members 1 = some Relative.filled := rfl
  obtain ⟨f₁, sliced, here₁, new₁, files₁⟩ : ∃ f, Family.Step .small .filled
      (.event 1 (.smooth (.slice 65536 1) 0)) f ∧
        f.members 1 = some Relative.sliced ∧ f.members 2 = none ∧
        f.files = Relative.sliced.files :=
    ⟨_, .event here ⟨show 65536 + 1 < wordSize by decide,
      by simp [Event.smooth, Event.made]⟩, rfl, rfl, rfl⟩
  obtain ⟨f₂, stored, here₂, new₂, files₂⟩ : ∃ f, Family.Step .small f₁
      (.event 1 (.smooth (.store 65536 7) 0)) f ∧
        f.members 1 = some Relative.stocked ∧ f.members 2 = none ∧
        f.files = Relative.stocked.files := by
    refine ⟨_, .event here₁ ⟨trivial, by simp [Event.smooth, Event.made]⟩, ?_,
      new₁, ?_⟩
    · rw [files₁]
      rfl
    · rw [files₁]
      rfl
  refine ⟨f₂, _, .cons (.act Family.step_filled)
    (.cons (.act sliced) (.cons (.act stored) (.nil _))), ?_, here₂, new₂,
    files₂⟩
  simp [Exchange.Paired, Family.Act.Paired, Event.Paired, Event.smooth]

/-- The process of `Relative.stocked`, with its slice attached. -/
def Relative.carrying : Relative :=
  Relative.stocked.after .small (.smooth (.attach 2) 0) Relative.stocked.files

/-- A server stores to an attached slice, and the process forks and its child
stores to the slice in vain. -/
theorem results_returned_served :
    ∃ (past future : List (Family × Exchange)) (f f' finish : Family)
      (os : Nat → Reply),
      Run (Exchange.Step .small) (.loaded 1 "d") past f ∧
      Family.Step .small f (.event 1 ⟨.attach 2, 0, os⟩) f' ∧
      Run (Exchange.Step .small) f' future finish ∧ future.length = 3 ∧
      (Relative.stocked.on Relative.stocked.files).loadByte 65536 = some 7 ∧
      finish.Returns .small 1 2 "d" "a" 0 9 := by
  obtain ⟨f₂, past, run, paired, here₂, new₂, files₂⟩ :=
    Relative.stocked_reached
  obtain ⟨f₃, attached, here₃, new₃⟩ : ∃ f, Family.Step .small f₂
      (.event 1 (.smooth (.attach 2) 0)) f ∧
        f.members 1 = some Relative.carrying ∧ f.members 2 = none := by
    refine ⟨_, .event here₂ ⟨trivial, by simp [Event.smooth, Event.made]⟩, ?_,
      new₂⟩
    rw [files₂]
    rfl
  have flight : f₃.InFlight "d" "a" 0 := by
    refine ⟨1, Relative.carrying, here₃, ?_⟩
    decide +kernel
  obtain ⟨f₄, m₄, q, forked, here₄, child⟩ : ∃ f m q, Family.Step .small
      (f₃.served "d" "a" 0 9) (.fork 1 2 0 fun _ => .done 0 "e") f ∧
        f.members 1 = some m ∧ f.members 2 = some q :=
    ⟨_, _, _, .fork here₃ new₃ fun _ _ => rfl, rfl, rfl⟩
  obtain ⟨f₅, vain⟩ : ∃ f, Family.Step .small f₄
      (.event 2 (.smooth (.store 65536 5) 0)) f :=
    ⟨_, .event child ⟨trivial, by simp [Event.smooth, Event.made]⟩⟩
  have rest : Run (Exchange.Step .small) f₃ _ f₅ :=
    .cons (.serve flight) (.cons (.act forked) (.cons (.act vain) (.nil _)))
  obtain ⟨cube, registered, slice, -, found, base, name, place, size⟩ :
      ∃ cube ∈ Relative.stocked.cubes, ∃ slice ∈ cube.slices,
        Relative.stocked.findSlice 2 = some (cube, slice) ∧
          cube.page.addr = 65536 ∧ cube.id = "a" ∧ slice.offset = 0 ∧
            slice.size = 1 := by decide +kernel
  have read : (Relative.stocked.on Relative.stocked.files).loadByte 65536 =
      some 7 := by decide +kernel
  have accepted : returned (attach .small 2 ((Relative.stocked.on
      Relative.stocked.files).enter 0 fun _ => .done 0 "a")) = some 0 := by
    decide +kernel
  refine ⟨_, _, f₂, f₃, f₅, _, run, attached, rest, rfl, read, ?_⟩
  rw [← files₂] at accepted read
  have returns := results_returned run here₂ found registered accepted
    attached rest ?_ ?_ 0 (by omega) 7 (by rw [base, place]; exact read)
  · rw [name, place] at returns
    exact returns
  · intro point member
    rcases List.mem_append.mp member with early | late
    · exact paired point early
    rcases List.mem_cons.mp late with rfl | late
    · trivial
    rcases List.mem_cons.mp late with rfl | late
    · trivial
    rcases List.mem_cons.mp late with rfl | late
    · exact fun _ _ => trivial
    · cases late
  · intro point later
    rcases List.mem_cons.mp later with rfl | later
    · trivial
    rcases List.mem_cons.mp later with rfl | later
    · trivial
    rcases List.mem_cons.mp later with rfl | later
    · intro owner
      cases owner
    · cases later

end CoralApi
