import CoralApi.Census

/-!
# Where the blocks of the threads lie

Every block that a cube or a thread answers for is a mapping of its own: it is
whole pages, and no two of them have a common byte.
-/

namespace CoralApi

/-- Blocks under keys, each one mapped, and those of different keys apart. -/
structure Chart (P : PageSize) (spots : Nat → Block → Prop)
    (maps : List Mapping) : Prop where
  placed : ∀ ptr block, spots ptr block → block.Placed P
  mapped : ∀ ptr block, spots ptr block →
    ∃ mapping ∈ maps, mapping.block = block
  apart : ∀ ptr other block block', spots ptr block → spots other block' →
    ptr ≠ other → block.Disjoint block'

namespace Chart

variable {P : PageSize} {spots spots' : Nat → Block → Prop}
  {maps maps' : List Mapping} {key : Nat} {page : Block}

/-- No block is new or has moved. -/
theorem keep (chart : Chart P spots maps)
    (fewer : ∀ ptr block, spots' ptr block → spots ptr block)
    (kept : ∀ mapping ∈ maps, (∃ ptr, spots' ptr mapping.block) →
      mapping ∈ maps') : Chart P spots' maps' where
  placed := fun ptr block here => chart.placed ptr block (fewer ptr block here)
  mapped := by
    intro ptr block here
    obtain ⟨mapping, inside, rfl⟩ :=
      chart.mapped ptr block (fewer ptr block here)
    exact ⟨mapping, kept mapping inside ⟨ptr, here⟩, rfl⟩
  apart := fun ptr other block block' here there =>
    chart.apart ptr other block block' (fewer ptr block here)
      (fewer other block' there)

/-- The block under one key is new or has moved. -/
theorem move (chart : Chart P spots maps) (placed : page.Placed P)
    (here : ∃ mapping ∈ maps', mapping.block = page)
    (others : ∀ ptr block, spots' ptr block →
      ptr = key ∧ block = page ∨ ptr ≠ key ∧ spots ptr block)
    (kept : ∀ mapping ∈ maps, (∃ ptr, ptr ≠ key ∧ spots ptr mapping.block) →
      mapping ∈ maps' ∧ mapping.block.Disjoint page) :
    Chart P spots' maps' where
  placed := by
    intro ptr block spot
    rcases others ptr block spot with ⟨-, rfl⟩ | ⟨-, old⟩
    · exact placed
    · exact chart.placed ptr block old
  mapped := by
    intro ptr block spot
    rcases others ptr block spot with ⟨-, rfl⟩ | ⟨different, old⟩
    · exact here
    · obtain ⟨mapping, inside, rfl⟩ := chart.mapped ptr block old
      exact ⟨mapping, (kept mapping inside ⟨ptr, different, old⟩).1, rfl⟩
  apart := by
    have beside : ∀ ptr block, ptr ≠ key → spots ptr block →
        block.Disjoint page := by
      intro ptr block different old
      obtain ⟨mapping, inside, rfl⟩ := chart.mapped ptr block old
      exact (kept mapping inside ⟨ptr, different, old⟩).2
    intro ptr other block block' spot spot' different
    rcases others ptr block spot with ⟨rfl, rfl⟩ | ⟨away, old⟩
    · rcases others other block' spot' with ⟨rfl, -⟩ | ⟨away', old'⟩
      · exact absurd rfl different
      · exact (beside other block' away' old').symm
    · rcases others other block' spot' with ⟨rfl, rfl⟩ | ⟨away', old'⟩
      · exact beside ptr block away old
      · exact chart.apart ptr other block block' old old' different

end Chart

namespace Crowd

/-- A registered cube whose block no thread has moved answers for its block,
and a thread for the block that it has made, taken out or moved. -/
def Spot (P : PageSize) (s : Crowd) (ptr : Nat) (block : Block) : Prop :=
  (∃ cube ∈ s.process.cubes, cube.ptr = ptr ∧ cube.page = block ∧
    ¬s.Moving ptr) ∨
  ∃ thread, (s.stage thread).spot P = some (ptr, block)

def Charted (P : PageSize) (s : Crowd) : Prop :=
  Chart P (s.Spot P) s.process.maps

section Charted

variable {P : PageSize} {s s' : Crowd} {thread : Nat} {new : Stage}
  {p' : Process} {returned freed : List Nat} {ptr : Nat} {block : Block}

/-- The blocks after a thread has gone on. -/
theorem spot_cases
    (spot : Spot P ⟨p', Function.update s.stage thread new, returned, freed⟩
      ptr block) :
    (∃ cube ∈ p'.cubes, cube.ptr = ptr ∧ cube.page = block ∧
      new.moving ≠ some ptr ∧
      ∀ other, other ≠ thread → (s.stage other).moving ≠ some ptr) ∨
    new.spot P = some (ptr, block) ∨
    ∃ other, other ≠ thread ∧ (s.stage other).spot P = some (ptr, block) := by
  rcases spot with ⟨cube, member, name, page, still⟩ | ⟨other, shown⟩
  · refine .inl ⟨cube, member, name, page, ?_, ?_⟩
    · intro moves
      refine still ⟨thread, ?_⟩
      exact (congrArg Stage.moving (Function.update_self ..)).trans moves
    · intro other different moves
      refine still ⟨other, ?_⟩
      exact (congrArg Stage.moving (Function.update_of_ne different ..)).trans
        moves
  · rcases some_update shown with ⟨-, mine⟩ | ⟨different, theirs⟩
    · exact .inr (.inl mine)
    · exact .inr (.inr ⟨other, different, theirs⟩)

/-- A registered cube keeps its block unless the thread has moved it. -/
theorem spot_of_registered {cube : Cube} (member : cube ∈ s.process.cubes)
    (mine : (s.stage thread).moving ≠ some cube.ptr)
    (others : ∀ other, other ≠ thread →
      (s.stage other).moving ≠ some cube.ptr) :
    s.Spot P cube.ptr cube.page := by
  refine .inl ⟨cube, member, rfl, rfl, ?_⟩
  rintro ⟨other, moves⟩
  by_cases here : other = thread
  · exact mine (here ▸ moves)
  · exact others other here moves

theorem locked_of_moving {stage : Stage} (moving : stage.moving = some ptr) :
    stage.locked = some ptr := by
  cases stage with
  | moved cube newSize newAddr => exact moving
  | idle => cases moving
  | made => cases moving
  | dropping => cases moving
  | listed => cases moving
  | taken => cases moving
  | unmapped => cases moving
  | found => cases moving

/-- The blocks of the cubes that a thread does not own. -/
theorem spot_away (counted : s.Counted) (guarded : s.Guarded)
    (mine : s.Owns thread ptr) {other : Nat} (different : other ≠ thread) :
    (s.stage other).spot P ≠ some (ptr, block) := by
  intro shown
  exact different (counted.owns_unique guarded (owns_of_spot shown) mine)

/-- A thread goes on with the blocks that it has, or with fewer. -/
theorem Charted.go_on (charted : s.Charted P)
    (cubes : ∀ cube ∈ p'.cubes, new.moving ≠ some cube.ptr →
      (∀ other, other ≠ thread → (s.stage other).moving ≠ some cube.ptr) →
        s.Spot P cube.ptr cube.page)
    (mine : ∀ ptr block, new.spot P = some (ptr, block) → s.Spot P ptr block)
    (maps : ∀ mapping ∈ s.process.maps,
      (∃ ptr, Spot P ⟨p', Function.update s.stage thread new, returned, freed⟩
        ptr mapping.block) → mapping ∈ p'.maps) :
    Charted P ⟨p', Function.update s.stage thread new, returned, freed⟩ := by
  refine Chart.keep charted ?_ maps
  intro ptr block found
  rcases spot_cases found with ⟨cube, member, rfl, rfl, still, others⟩ |
    shown | ⟨other, -, shown⟩
  · exact cubes cube member still others
  · exact mine ptr block shown
  · exact .inr ⟨other, shown⟩

/-- The blocks of other cubes stay mapped when a thread unmaps its own. -/
theorem Charted.go_on_unmapped (charted : s.Charted P) (counted : s.Counted)
    (guarded : s.Guarded) {cube : Cube} {maps : List Mapping}
    (mine : (s.stage thread).spot P = some (cube.ptr, cube.page))
    (still : (s.stage thread).moving = none) (silent : new.spot P = none)
    (absent : cube.ptr ∉ s.registered) (cubes : p'.cubes = s.process.cubes)
    (unmapped : maps = s.process.maps ∨
      maps = s.process.maps.filter fun mapping => mapping.block ≠ cube.page)
    (after : p'.maps = maps) :
    Charted P ⟨p', Function.update s.stage thread new, returned, freed⟩ := by
  have owns := owns_of_spot mine
  have registered : ∀ other ∈ p'.cubes,
      (∀ third, third ≠ thread → (s.stage third).moving ≠ some other.ptr) →
        s.Spot P other.ptr other.page := by
    intro other member others
    rw [cubes] at member
    exact spot_of_registered member (by rw [still]; exact nofun) others
  refine charted.go_on (fun other member _ => registered other member) ?_ ?_
  · intro ptr block shown
    rw [silent] at shown
    cases shown
  · rintro mapping inside ⟨ptr, found⟩
    rw [after]
    rcases unmapped with rfl | rfl
    · exact inside
    · have away : ptr ≠ cube.ptr ∧ s.Spot P ptr mapping.block := by
        rcases spot_cases found with ⟨other, member, rfl, page, -, others⟩ |
          shown | ⟨other, different, shown⟩
        · refine ⟨?_, page ▸ registered other member others⟩
          intro same
          exact absent (same ▸ List.mem_map_of_mem (cubes ▸ member))
        · rw [silent] at shown
          cases shown
        · refine ⟨?_, .inr ⟨other, shown⟩⟩
          rintro rfl
          exact spot_away counted guarded owns different shown
      have apart := charted.apart ptr cube.ptr mapping.block cube.page away.2
        (.inr ⟨thread, mine⟩) away.1
      have nonempty := (charted.placed cube.ptr cube.page
        (.inr ⟨thread, mine⟩)).nonempty
      exact List.mem_filter.mpr ⟨inside, by simpa using apart.ne nonempty⟩

/-- The numbers of the cubes that threads own are in use. -/
theorem Owns.below (counted : s.Counted) (guarded : s.Guarded)
    (owns : s.Owns thread ptr) : ptr < s.process.nextPtr := by
  rcases owns with ⟨cube, fresh, rfl⟩ | locked
  · exact (counted.fresh thread cube fresh).1
  · exact counted.bound ptr (counted.given_of_locked guarded locked)

theorem Counted.below (counted : s.Counted) {cube : Cube}
    (member : cube ∈ s.process.cubes) : cube.ptr < s.process.nextPtr :=
  counted.bound _ ((counted.exact _).mp (mem_registered member)).1

theorem Deal.charted (deal : Deal P s s') (counted : s.Counted)
    (guarded : s.Guarded) (charted : s.Charted P) : s'.Charted P := by
  -- the cubes of the registry when the thread had moved none
  have kept : ∀ {thread : Nat} {p' : Process}, p'.cubes = s.process.cubes →
      (s.stage thread).moving = none → ∀ cube ∈ p'.cubes,
        (∀ other, other ≠ thread →
          (s.stage other).moving ≠ some cube.ptr) →
            s.Spot P cube.ptr cube.page := by
    intro thread p' cubes still cube member others
    rw [cubes] at member
    exact spot_of_registered member (by rw [still]; exact nofun) others
  cases deal with
  | @wait thread stage p' fresh spot unlocked returning freeing moving agrees =>
      refine charted.go_on ?_ ?_ fun mapping inside _ => agrees.maps ▸ inside
      · intro cube member still others
        rw [agrees.cubes] at member
        exact spot_of_registered member (moving ▸ still) others
      · exact fun ptr block shown => .inr ⟨thread, spot ▸ shown⟩
  | @make thread cube p' here whole admits unused taken agrees =>
      have still : (s.stage thread).moving = none := by rw [here]; rfl
      obtain ⟨positive, nonempty, aligned, fits, separate⟩ := admits
      refine @Chart.move _ _ _ _ _ cube.ptr cube.page charted
        ⟨positive, nonempty, aligned, whole, fits⟩ ?_ ?_ ?_
      · exact ⟨_, by rw [agrees.maps]; exact List.mem_cons_self, rfl⟩
      · intro ptr block found
        rcases spot_cases found with ⟨other, member, rfl, rfl, -, others⟩ |
          shown | ⟨other, -, shown⟩
        · have old : other ∈ s.process.cubes := agrees.cubes ▸ member
          have below := counted.below old
          exact .inr ⟨by omega, kept agrees.cubes still other member others⟩
        · cases shown
          exact .inl ⟨rfl, rfl⟩
        · have below := (owns_of_spot shown).below counted guarded
          exact .inr ⟨by omega, .inr ⟨other, shown⟩⟩
      · intro mapping inside _
        rw [agrees.maps]
        exact ⟨List.mem_cons_of_mem _ inside, separate mapping inside⟩
  | @register thread cube p' here agrees =>
      have still : (s.stage thread).moving = none := by rw [here]; rfl
      refine charted.go_on ?_ nofun fun mapping inside _ => agrees.maps ▸ inside
      intro other member _ others
      rw [agrees.cubes] at member
      rcases List.mem_append.mp member with old | last
      · exact spot_of_registered old (by rw [still]; exact nofun) others
      · rw [List.mem_singleton.mp last]
        exact .inr ⟨thread, by rw [here]; rfl⟩
  | @drop thread errsv cube maps p' here unmapped agrees =>
      have fresh : (s.stage thread).fresh = some cube := by rw [here]; rfl
      have unknown := (counted.fresh thread cube fresh).2.1
      exact charted.go_on_unmapped counted guarded (by rw [here]; rfl)
        (by rw [here]; rfl) rfl
        (fun member => unknown ((counted.exact _).mp member).1)
        agrees.cubes unmapped agrees.maps
  | @giveOut thread cube here =>
      refine charted.go_on ?_ nofun fun mapping inside _ => inside
      exact fun other member _ => kept rfl (by rw [here]; rfl) other member
  | @take thread cube p' here member unheld agrees =>
      have still : (s.stage thread).moving = none := by rw [here]; rfl
      refine charted.go_on ?_ ?_ fun mapping inside _ => agrees.maps ▸ inside
      · intro other inside _ others
        rw [agrees.cubes] at inside
        exact spot_of_registered (List.mem_filter.mp inside).1
          (by rw [still]; exact nofun) others
      · intro ptr block shown
        cases shown
        refine .inl ⟨cube, member, rfl, rfl, ?_⟩
        rintro ⟨other, moves⟩
        exact unheld other (locked_of_moving moves)
  | @unmap thread cube maps p' here unmapped agrees =>
      exact charted.go_on_unmapped counted guarded (by rw [here]; rfl)
        (by rw [here]; rfl) rfl
        (@Counted.absent s thread counted cube (by rw [here]; rfl))
        agrees.cubes unmapped agrees.maps
  | @retire thread cube p' here agrees =>
      have absent := @Counted.absent s thread counted cube (by rw [here]; rfl)
      have maps : (s.process.retire cube).maps = s.process.maps := by
        unfold Process.retire
        split
        · rfl
        · rfl
      refine charted.go_on ?_ nofun
        fun mapping inside _ => (agrees.maps.trans maps) ▸ inside
      exact fun other member _ =>
        kept (agrees.cubes.trans (retire_cubes absent)) (by rw [here]; rfl)
          other member
  | @find thread newSize cube p' here member unheld agrees =>
      refine charted.go_on ?_ nofun fun mapping inside _ => agrees.maps ▸ inside
      exact fun other inside _ =>
        kept agrees.cubes (by rw [here]; rfl) other inside
  | @stretch thread newSize newAddr cube prot p' here admits agrees =>
      have still : (s.stage thread).moving = none := by rw [here]; rfl
      have owns : s.Owns thread cube.ptr := .inr (by rw [here]; rfl)
      have member := guarded.keeping thread cube (by rw [here]; rfl)
      have before : s.Spot P cube.ptr cube.page := by
        refine spot_of_registered member (by rw [still]; exact nofun) ?_
        intro other different moves
        exact different (counted.owns_unique guarded
          (.inr (locked_of_moving moves)) owns)
      obtain ⟨positive, nonempty, aligned, fits, separate⟩ := admits
      refine @Chart.move _ _ _ _ _ cube.ptr
        ⟨newAddr, ceilPagesize P newSize⟩ charted
        ⟨positive, nonempty, aligned, dvd_ceilPagesize P newSize, fits⟩ ?_ ?_ ?_
      · obtain ⟨mapping, inside, block⟩ := charted.mapped _ _ before
        refine ⟨{ mapping with block := ⟨newAddr, ceilPagesize P newSize⟩ },
          ?_, rfl⟩
        rw [agrees.maps]
        exact List.mem_map.mpr ⟨mapping, inside, if_pos block⟩
      · intro ptr block found
        rcases spot_cases found with ⟨other, inside, rfl, rfl, moved, others⟩ |
          shown | ⟨other, different, shown⟩
        · exact .inr ⟨fun same => moved (congrArg some same.symm),
            kept agrees.cubes still other inside others⟩
        · cases shown
          exact .inl ⟨rfl, rfl⟩
        · refine .inr ⟨?_, .inr ⟨other, shown⟩⟩
          rintro rfl
          exact spot_away counted guarded owns different shown
      · rintro mapping inside ⟨ptr, different, spot⟩
        have apart := charted.apart ptr cube.ptr _ _ spot before different
        have away : mapping.block ≠ cube.page :=
          apart.ne (charted.placed _ _ before).nonempty
        rw [agrees.maps]
        exact ⟨List.mem_map.mpr ⟨mapping, inside, if_neg away⟩,
          separate mapping
            (List.mem_filter.mpr ⟨inside, by simpa using away⟩)⟩
  | @settle thread newSize newAddr cube p' here agrees =>
      refine charted.go_on ?_ nofun fun mapping inside _ => agrees.maps ▸ inside
      intro other inside _ others
      rw [agrees.cubes] at inside
      obtain ⟨old, member, rfl⟩ := List.mem_map.mp inside
      by_cases same : old.ptr = cube.ptr
      · rw [if_pos same]
        refine .inr ⟨thread, ?_⟩
        rw [here, same]
        rfl
      · rw [if_neg same] at others ⊢
        refine spot_of_registered member ?_ others
        rw [here]
        exact fun moves => same (Option.some.inj moves).symm

end Charted

end Crowd

end CoralApi
