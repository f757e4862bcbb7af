import CoralApi.Watch

/-!
# The version of an attached slice

A handled fault raises the versions of the slices over its page, and it gets
there only when none of them is attached.  The version of a slice then stays
the same from an attach to the matching detach, and the copy that
`inaccel_submit` makes without the mutex is the version at the attach.
-/

namespace CoralApi

open Program Transition

/-- Every slice is new or was there before, and the versions of those that
were attached are the same. -/
def Process.Freezes (p p' : Process) : Prop :=
  ∀ cube' ∈ p'.live, ∀ slice' ∈ cube'.slices, p.nextPtr ≤ slice'.ptr ∨
    ∃ cube ∈ p.live, ∃ slice ∈ cube.slices, slice.ptr = slice'.ptr ∧
      (slice.nlinks ≠ 0 → slice'.version = slice.version)

section Freezes

variable {P : PageSize} {p p' p'' : Process} {cube : Cube} {event : Event}

theorem Process.Freezes.of_subset (subset : p'.live ⊆ p.live) :
    p.Freezes p' := fun cube' member' slice' inside' =>
  .inr ⟨cube', subset member', slice', inside', rfl, fun _ => rfl⟩

theorem Process.Freezes.subset (freezes : p.Freezes p')
    (subset : p''.live ⊆ p'.live) : p.Freezes p'' :=
  fun cube' member' => freezes cube' (subset member')

theorem Process.Freezes.agrees (freezes : p.Freezes p')
    (agrees : p'.Agrees p'') : p.Freezes p'' :=
  freezes.subset (agrees.live ▸ List.Subset.refl _)

theorem Process.Freezes.of_left (freezes : p'.Freezes p'')
    (subset : p'.live ⊆ p.live) (nextPtr : p'.nextPtr = p.nextPtr) :
    p.Freezes p'' := by
  intro cube' member' slice' inside'
  rcases freezes cube' member' slice' inside' with fresh | ⟨cube, member, old⟩
  · exact .inl (nextPtr ▸ fresh)
  · exact .inr ⟨cube, subset member, old⟩

/-- A change of one cube that makes no slice and changes no version. -/
theorem freezes_modifyCube {ptr : Nat} {change : Cube → Cube}
    (same : ∀ cube : Cube, ∀ slice' ∈ (change cube).slices,
      ∃ slice ∈ cube.slices, slice.ptr = slice'.ptr ∧
        slice'.version = slice.version) :
    p.Freezes (p.modifyCube ptr change) := by
  intro cube' member' slice' inside'
  rw [Process.live_modifyCube] at member'
  obtain ⟨cube, member, rfl⟩ := List.mem_map.mp member'
  split at inside'
  · obtain ⟨slice, inside, named, version⟩ := same cube slice' inside'
    exact .inr ⟨cube, member, slice, inside, named, fun _ => version⟩
  · exact .inr ⟨cube, member, slice', inside', rfl, fun _ => rfl⟩

theorem versions_modifySlice {ptr : Nat} {change : Slice → Slice}
    (named : ∀ slice, (change slice).ptr = slice.ptr)
    (version : ∀ slice, (change slice).version = slice.version)
    (cube : Cube) : ∀ slice' ∈ (cube.modifySlice ptr change).slices,
      ∃ slice ∈ cube.slices, slice.ptr = slice'.ptr ∧
        slice'.version = slice.version := by
  intro slice' inside'
  obtain ⟨slice, inside, rfl⟩ := List.mem_map.mp inside'
  refine ⟨slice, inside, ?_⟩
  split
  · exact ⟨(named slice).symm, version slice⟩
  · exact ⟨rfl, rfl⟩

/-- The slices that a fault does not open keep their versions. -/
theorem versions_openSlices (opened : List Slice) :
    ∀ cube' ∈ (p.openSlices P cube opened).live, ∀ slice' ∈ cube'.slices,
      ∃ cube ∈ p.live, ∃ slice ∈ cube.slices, slice.ptr = slice'.ptr ∧
        (slice.ptr ∉ opened.map Slice.ptr →
          slice'.version = slice.version) := by
  induction opened generalizing p with
  | nil =>
      exact fun cube' member' slice' inside' =>
        ⟨cube', member', slice', inside', rfl, fun _ => rfl⟩
  | cons first opened induction =>
      intro cube' member' slice' inside'
      obtain ⟨cube₁, member₁, slice₁, inside₁, named₁, version₁⟩ :=
        @induction (p.openSlice P cube first) cube' member' slice' inside'
      rw [Process.openSlice, Process.live_modifyCube] at member₁
      obtain ⟨old, member, rfl⟩ := List.mem_map.mp member₁
      have kept : ∃ slice ∈ old.slices, slice.ptr = slice₁.ptr ∧
          (slice.ptr ≠ first.ptr → slice₁.version = slice.version) := by
        split at inside₁
        · obtain ⟨slice, inside, rfl⟩ := List.mem_map.mp inside₁
          refine ⟨slice, inside, ?_⟩
          split
          · rename_i same
            exact ⟨rfl, fun different => absurd same different⟩
          · exact ⟨rfl, fun _ => rfl⟩
        · exact ⟨slice₁, inside₁, rfl, fun _ => rfl⟩
      obtain ⟨slice, inside, named, version⟩ := kept
      refine ⟨old, member, slice, inside, named.trans named₁, fun spared => ?_⟩
      rw [List.map_cons, List.mem_cons, not_or] at spared
      rw [version₁ (named ▸ spared.2), version spared.1]

theorem freezes_freeCube (named : p.Named) (member : cube ∈ p.cubes) :
    p.Freezes (p.freeCube cube) := by
  let left : Process :=
    { p with
      cubes := p.cubes.filter fun other => other.ptr ≠ cube.ptr
      orphans := cube :: p.orphans }
  have leaves : left.live ⊆ p.live := (Process.live_freeCube named member).subset
  unfold Process.freeCube
  dsimp only
  split
  · have gone : (left.release cube.ptr).live ⊆ p.live :=
      List.Subset.trans (Process.live_release cube.ptr) leaves
    exact .of_subset gone
  · have lowered : left.Freezes (left.modifyCube cube.ptr fun cube =>
        { cube with nlinks := cube.nlinks - 1 }) :=
      freezes_modifyCube fun cube slice inside => ⟨slice, inside, rfl, rfl⟩
    exact lowered.of_left leaves rfl

theorem freezes_addSlice {slice : Slice} {ptr : Nat}
    (fresh : p.nextPtr ≤ slice.ptr) : p.Freezes (p.addSlice ptr slice) := by
  intro cube' member' slice' inside'
  have changed : cube' ∈ (p.modifyCube ptr fun cube =>
      { cube with slices := cube.slices ++ [slice] }).live := member'
  rw [Process.live_modifyCube] at changed
  obtain ⟨cube, member, rfl⟩ := List.mem_map.mp changed
  have cases : slice' ∈ cube.slices ∨ slice' = slice := by
    split at inside'
    · rcases List.mem_append.mp inside' with old | new
      · exact .inl old
      · exact .inr (List.mem_singleton.mp new)
    · exact .inl inside'
  rcases cases with old | rfl
  · exact .inr ⟨cube, member, slice', old, rfl, fun _ => rfl⟩
  · exact .inl fresh

/-- A fault opens no slice that is attached. -/
theorem freezes_openSlices {opened : List Slice} (named : p.Named)
    (member : cube ∈ p.live) (known : opened ⊆ cube.slices)
    (idle : ∀ slice ∈ opened, slice.nlinks = 0) :
    p.Freezes (p.openSlices P cube opened) := by
  intro cube' member' slice' inside'
  obtain ⟨old, also, slice, inside, same, version⟩ :=
    versions_openSlices opened cube' member' slice' inside'
  refine .inr ⟨old, also, slice, inside, same, fun linked => version ?_⟩
  intro among
  obtain ⟨other, opens, shared⟩ := List.mem_map.mp among
  have owned : slice.ptr ∈ cube.slices.map Slice.ptr :=
    shared ▸ List.mem_map_of_mem (known opens)
  cases named.same_owner also member (List.mem_map_of_mem inside) owned
  have equal := List.inj_on_of_nodup_map (named.slices_distinct member)
    (known opens) inside shared
  exact linked (equal ▸ idle other opens)

theorem Deed.freezes {effect : Effect} (deed : Deed P p event effect p')
    (named : p.Named) : p.Freezes p' := by
  cases deed with
  | agrees agrees => exact .of_subset (agrees.live ▸ List.Subset.refl _)
  | beside pid cubes orphans nextPtr maps mapped prot =>
      refine .of_subset ?_
      rw [Process.live, cubes, orphans]
      exact List.Subset.refl _
  | @alloc cube p' empty own whole admits fresh made agrees =>
      suffices added : p.Freezes (p.addCube P cube) from added.agrees agrees
      intro other member slice inside
      have cases : other ∈ (p.cubes ++ [cube]) ++ p.orphans := member
      simp only [List.mem_append, List.mem_singleton] at cases
      rcases cases with (old | rfl) | orphan
      · exact .inr ⟨other, List.mem_append_left _ old, slice, inside, rfl,
          fun _ => rfl⟩
      · rw [empty] at inside
        cases inside
      · exact .inr ⟨other, List.mem_append_right _ orphan, slice, inside, rfl,
          fun _ => rfl⟩
  | @free cube addr maps p' frees member base unmapped agrees =>
      have freed : p.Freezes { p.freeCube cube with maps := maps } :=
        freezes_freeCube named member
      exact freed.agrees agrees
  | @grow cube page prot p' member own longer whole uniform admits agrees =>
      have moved : (p.remapBlock P cube.page page prot).Freezes
          (p.moveCube P cube page prot) :=
        freezes_modifyCube fun cube slice inside =>
          ⟨slice, inside, rfl, rfl⟩
      exact Process.Freezes.agrees moved agrees
  | slice slices member own contains fresh agrees =>
      exact (freezes_addSlice fresh).agrees agrees
  | @attach cube slice p' attaches member own inside agrees =>
      have linked : (p.protectPages P (wadd cube.page.addr slice.page.offset)
          slice.page.size .read).Freezes (Process.link cube.ptr slice.ptr
            (p.protectPages P (wadd cube.page.addr slice.page.offset)
              slice.page.size .read)) :=
        freezes_modifyCube (versions_modifySlice (fun _ => rfl) fun _ => rfl)
      exact Process.Freezes.agrees linked agrees
  | @detach cube slice p' detaches member own inside agrees =>
      have lowered : p.Freezes (p.unlinkSlice cube.ptr slice.ptr) :=
        freezes_modifyCube (versions_modifySlice (fun _ => rfl) fun _ => rfl)
      rcases agrees with kept | released
      · exact lowered.agrees kept
      · have removed : p.Freezes
            ((p.unlinkSlice cube.ptr slice.ptr).unlinkFile cube.id) := lowered
        exact (removed.subset (Process.live_release cube.ptr)).agrees released
  | fault member own contains idle known spans agrees =>
      exact (freezes_openSlices named (List.mem_append_left _ member)
        known.subset fun slice opens =>
          idle slice (known.subset opens) (spans slice opens)).agrees agrees

end Freezes

namespace Watch

/-- Every attached slice has the version of its attach, and so has every
copy. -/
structure Frozen (s : Watch) : Prop where
  tokens : ∀ token ∈ s.tokens, ∃ cube ∈ s.process.live,
    ∃ slice ∈ cube.slices, slice.ptr = token.slice ∧
      slice.version = token.version
  copies : ∀ copy ∈ s.copies, copy.2 = copy.1

variable {P : PageSize} {s s' start finish : Watch} {act : Act}
  {trace : List (Watch × Act)} {event : Event} {token : Token}

/-- The slice of a token is there. -/
theorem Sound.known (sound : s.Sound) (known : token ∈ s.tokens) :
    ∃ cube ∈ s.process.live, ∃ slice ∈ cube.slices,
      slice.ptr = token.slice := by
  obtain ⟨freed, ledger⟩ := sound.ledger
  obtain ⟨cube, member, -, within⟩ := ledger.known token.slice
    (List.mem_map_of_mem known)
  obtain ⟨slice, inside, same⟩ := List.mem_map.mp within
  exact ⟨cube, member, slice, inside, same⟩

/-- An event keeps the version of a slice that stays attached. -/
theorem Frozen.kept (frozen : s.Frozen) (sound : s.Sound)
    (words : event.op.Words) (process : s'.process = event.outcome P s.process)
    (sound' : s'.Sound) (before : token ∈ s.tokens) (after : token ∈ s'.tokens) :
    ∃ cube ∈ s'.process.live, ∃ slice ∈ cube.slices,
      slice.ptr = token.slice ∧ slice.version = token.version := by
  obtain ⟨freed, ledger⟩ := sound.ledger
  have slot : token.slice ∈ s.slots := List.mem_map_of_mem before
  obtain ⟨cube', member', slice', inside', named⟩ := sound'.known after
  refine ⟨cube', member', slice', inside', named, ?_⟩
  have freezes := (event_deed (P := P) words).freezes ledger.named
  rw [← process] at freezes
  rcases freezes cube' member' slice' inside' with
    fresh | ⟨cube, member, slice, inside, same, version⟩
  · have old := ledger.slot_lt slot
    omega
  · obtain ⟨other, also, slice₀, inside₀, named₀, version₀⟩ :=
      frozen.tokens token before
    have here := ledger.named.findSlice_eq member inside
    have there := ledger.named.findSlice_eq also inside₀
    rw [same, named, ← named₀, there] at here
    cases here
    rw [version ?_, version₀]
    exact (ledger.mem_slots_iff also inside₀).mp (named₀ ▸ slot)

theorem Frozen.step (frozen : s.Frozen) (sound : s.Sound)
    (step : Step P s act s') : s'.Frozen := by
  have sound' := sound.step step
  cases step with
  | call awake words plain =>
      exact ⟨fun token known => frozen.kept sound words rfl sound' known known,
        frozen.copies⟩
  | @attach thread ptr errno os awake =>
      have words : Op.Words (.attach ptr) := trivial
      refine ⟨fun token known => ?_, frozen.copies⟩
      by_cases before : token ∈ s.tokens
      · exact frozen.kept sound words rfl sound' before known
      · obtain ⟨cube, member, slice, inside, named⟩ := sound'.known known
        refine ⟨cube, member, slice, inside, named, ?_⟩
        have same : token = ⟨ptr, (Event.outcome P s.process
            ⟨.attach ptr, errno, os⟩).versionAt ptr⟩ := by
          dsimp only at known
          split at known
          · exact (List.mem_cons.mp known).resolve_right before
          · exact absurd known before
        obtain ⟨freed, ledger⟩ := sound'.ledger
        have found : (Event.outcome P s.process
            ⟨.attach ptr, errno, os⟩).findSlice slice.ptr = some (cube, slice) :=
          ledger.named.findSlice_eq member inside
        subst same
        have named : slice.ptr = ptr := named
        subst named
        simp only [Process.versionAt, found, Option.elim_some]
  | @detach thread errno os token' awake known' =>
      have words : Op.Words (.detach token'.slice) := trivial
      exact ⟨fun token known => frozen.kept sound words rfl sound'
        (List.mem_of_mem_erase known) known, frozen.copies⟩
  | @copy thread token cube slice awake known found =>
      refine ⟨frozen.tokens, fun copy logged => ?_⟩
      rcases List.mem_cons.mp logged with rfl | earlier
      · obtain ⟨other, also, slice', inside', named, version⟩ :=
          frozen.tokens token known
        obtain ⟨freed, ledger⟩ := sound.ledger
        have here := ledger.named.findSlice_eq also inside'
        rw [named, found] at here
        cases here
        exact version
      · exact frozen.copies copy earlier
  | @wake thread ptr errno reached os error asleep =>
      have words : Op.Words (.woken ptr error) := trivial
      exact ⟨fun token known => frozen.kept sound words rfl sound' known known,
        frozen.copies⟩

/-- Between an attach and the matching detach no step changes the version. -/
theorem always_frozen (idle : start.Idle)
    (run : Run (Step P) start trace finish) :
    ∀ s ∈ visited trace finish, s.Frozen := by
  intro s seen
  have both := run.invariant (fun s => s.Sound ∧ s.Frozen)
    (fun _ _ _ before step =>
      ⟨before.1.step step, before.2.step before.1 step⟩)
    ⟨idle.sound, ?_⟩ s seen
  · exact both.2
  · constructor
    · simp [idle.tokens]
    · simp [idle.copies]

theorem always_frozen_attached :
    ∃ trace finish, Run (Step .small) loaded trace finish ∧
      finish.tokens = [⟨2, 0⟩] ∧ ∀ s ∈ visited trace finish, s.Frozen := by
  obtain ⟨trace, finish, run, tokens, -⟩ := run_asleep
  exact ⟨trace, finish, run, tokens, always_frozen idle_loaded run⟩

end Watch

end CoralApi
