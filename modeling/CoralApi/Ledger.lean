import CoralApi.Ownership

/-!
# The counts of cubes

Let `slots` list the slices that the submissions in flight name.  A cube is
balanced when every slice counts its slots and the cube counts those of its
slices, less what it owes: nothing in the registry, and one after its
`inaccel_free`.  Both functions test the old count, so zero means that no slot
is left in the registry, and one slot after the free.
-/

namespace CoralApi

namespace Cube

/-- The links of the slices. -/
def total (cube : Cube) : Int := (cube.slices.map Slice.nlinks).sum

structure Balanced (slots : List Nat) (owed : Int) (cube : Cube) : Prop where
  slices : ∀ slice ∈ cube.slices, slice.nlinks = slots.count slice.ptr
  nlinks : cube.nlinks = cube.total - owed

/-- A slot names one of the slices. -/
def InUse (slots : List Nat) (cube : Cube) : Prop :=
  ∃ slice ∈ cube.slices, slice.ptr ∈ slots

/-- Some links more, for a slice and its cube. -/
def shift (ptr : Nat) (more : Int) (cube : Cube) : Cube :=
  { cube.modifySlice ptr fun slice =>
      { slice with nlinks := slice.nlinks + more } with
    nlinks := cube.nlinks + more }

theorem ptrs_shift {ptr : Nat} {more : Int} {cube : Cube} :
    (cube.shift ptr more).slices.map Slice.ptr = cube.slices.map Slice.ptr :=
  cube.modifySlice_ptrs fun _ => rfl

theorem total_shift {cube : Cube} {slice : Slice} {more : Int}
    (distinct : (cube.slices.map Slice.ptr).Nodup)
    (inside : slice ∈ cube.slices) :
    (cube.shift slice.ptr more).total = cube.total + more := by
  refine (Keyed.sum_update distinct inside
    (fun slice => { slice with nlinks := slice.nlinks + more })
    Slice.nlinks).trans ?_
  simp only [total]
  omega

namespace Balanced

variable {slots others : List Nat} {owed more : Int} {cube : Cube}
  {slice : Slice}

theorem slices_of_nil (empty : cube.slices = []) (none : cube.nlinks = 0) :
    cube.Balanced slots 0 :=
  ⟨by simp [empty], by simp [none, total, empty]⟩

/-- Slots that name no slice of the cube do not count. -/
theorem of_counts (balanced : cube.Balanced slots owed)
    (same : ∀ slice ∈ cube.slices,
      others.count slice.ptr = slots.count slice.ptr) :
    cube.Balanced others owed where
  slices := fun slice inside => by
    rw [same slice inside]
    exact balanced.slices slice inside
  nlinks := balanced.nlinks

/-- The counts follow the slots. -/
theorem shift (balanced : cube.Balanced slots owed)
    (distinct : (cube.slices.map Slice.ptr).Nodup) (inside : slice ∈ cube.slices)
    (here : (others.count slice.ptr : Int) = slots.count slice.ptr + more)
    (same : ∀ ptr, ptr ≠ slice.ptr → others.count ptr = slots.count ptr) :
    (cube.shift slice.ptr more).Balanced others owed := by
  constructor
  · intro slice' inside'
    obtain ⟨other, also, rfl⟩ := List.mem_map.mp inside'
    by_cases named : other.ptr = slice.ptr
    · rw [if_pos named]
      simp only [named, here, balanced.slices other also]
    · rw [if_neg named, same other.ptr named]
      exact balanced.slices other also
  · rw [total_shift distinct inside]
    have before := balanced.nlinks
    simp only [Cube.shift]
    omega

theorem nonneg (balanced : cube.Balanced slots owed) :
    ∀ links ∈ cube.slices.map Slice.nlinks, 0 ≤ links := by
  intro links member
  obtain ⟨slice, inside, rfl⟩ := List.mem_map.mp member
  rw [balanced.slices slice inside]
  exact Int.natCast_nonneg _

/-- The total says whether a slot is left. -/
theorem total_eq_zero_iff (balanced : cube.Balanced slots owed) :
    cube.total = 0 ↔ ¬cube.InUse slots := by
  have count : ∀ slice ∈ cube.slices,
      slice.nlinks = 0 ↔ slice.ptr ∉ slots := by
    intro slice inside
    rw [balanced.slices slice inside, Int.natCast_eq_zero,
      List.count_eq_zero]
  constructor
  · rintro zero ⟨slice, inside, named⟩
    have links := List.all_zero_of_le_zero_le_of_sum_eq_zero balanced.nonneg
      zero (List.mem_map_of_mem inside)
    exact (count slice inside).mp links named
  · intro unused
    apply List.sum_eq_zero
    intro links member
    obtain ⟨slice, inside, rfl⟩ := List.mem_map.mp member
    exact (count slice inside).mpr fun named =>
      unused ⟨slice, inside, named⟩

end Balanced

/-- The same objects as before, with other counts. -/
structure Became (old cube : Cube) : Prop where
  ptr : cube.ptr = old.ptr
  pid : cube.pid = old.pid
  id : cube.id = old.id
  slices : cube.slices.map Slice.ptr = old.slices.map Slice.ptr

namespace Became

variable {old cube cube' : Cube} {slots : List Nat}

theorem refl (cube : Cube) : cube.Became cube := ⟨rfl, rfl, rfl, rfl⟩

theorem trans (first : old.Became cube) (second : cube.Became cube') :
    old.Became cube' :=
  ⟨second.ptr.trans first.ptr, second.pid.trans first.pid,
    second.id.trans first.id, second.slices.trans first.slices⟩

theorem names (became : old.Became cube) : cube.names = old.names := by
  rw [Cube.names, became.ptr, became.slices, Cube.names]

theorem inUse_iff (became : old.Became cube) :
    cube.InUse slots ↔ old.InUse slots := by
  have named : ∀ cube : Cube, cube.InUse slots ↔
      ∃ ptr ∈ cube.slices.map Slice.ptr, ptr ∈ slots := by
    simp [InUse]
  rw [named, named, became.slices]

end Became

/-- The same objects with the same counts. -/
structure Recounts (old cube : Cube) : Prop extends old.Became cube where
  nlinks : cube.nlinks = old.nlinks
  links : (cube.slices.map fun slice => (slice.ptr, slice.nlinks)) =
    old.slices.map fun slice => (slice.ptr, slice.nlinks)

theorem recounts_modifySlice {ptr : Nat} {change : Slice → Slice}
    (same : ∀ slice, (change slice).ptr = slice.ptr)
    (nlinks : ∀ slice, (change slice).nlinks = slice.nlinks) (cube : Cube) :
    cube.Recounts (cube.modifySlice ptr change) := by
  refine ⟨⟨rfl, rfl, rfl, cube.modifySlice_ptrs same⟩, rfl, ?_⟩
  simp only [modifySlice, List.map_map]
  apply List.map_congr_left
  intro slice inside
  simp only [Function.comp_apply]
  split
  · rw [same, nlinks]
  · rfl

theorem Balanced.recounts {slots : List Nat} {owed : Int} {old cube : Cube}
    (balanced : old.Balanced slots owed) (recounts : old.Recounts cube) :
    cube.Balanced slots owed := by
  have totals : ∀ cube : Cube, cube.total =
      ((cube.slices.map fun slice => (slice.ptr, slice.nlinks)).map
        Prod.snd).sum := by
    intro cube
    rw [List.map_map]
    rfl
  constructor
  · intro slice inside
    have entry := List.mem_map_of_mem
      (f := fun slice : Slice => (slice.ptr, slice.nlinks)) inside
    rw [recounts.links] at entry
    obtain ⟨slice', inside', same⟩ := List.mem_map.mp entry
    obtain ⟨ptr, nlinks⟩ := Prod.mk.inj same
    rw [← ptr, ← nlinks]
    exact balanced.slices slice' inside'
  · rw [recounts.nlinks, totals cube, recounts.links, ← totals old]
    exact balanced.nlinks

end Cube

namespace Process

/-- The cubes are the same, and nothing is forgotten. -/
structure Still (p q : Process) : Prop where
  cubes : q.cubes = p.cubes
  orphans : q.orphans = p.orphans
  pid : q.pid = p.pid
  released : q.released = p.released
  nextPtr : p.nextPtr ≤ q.nextPtr
  unlinked : p.unlinked ⊆ q.unlinked

theorem Still.trans {p q r : Process} (first : p.Still q)
    (second : q.Still r) : p.Still r where
  cubes := second.cubes.trans first.cubes
  orphans := second.orphans.trans first.orphans
  pid := second.pid.trans first.pid
  released := second.released.trans first.released
  nextPtr := Nat.le_trans first.nextPtr second.nextPtr
  unlinked := List.Subset.trans first.unlinked second.unlinked

theorem Still.of_quiet {w w' : World} (quiet : w.Quiet w') :
    w.toProcess.Still w'.toProcess :=
  ⟨quiet.cubes, quiet.orphans, quiet.pid, quiet.released, quiet.nextPtr,
    by rw [quiet.unlinked]; exact List.Subset.refl _⟩

theorem Still.of_beside {P : PageSize} {w w' : World}
    (beside : w.Beside P w') : w.toProcess.Still w'.toProcess :=
  ⟨beside.cubes, beside.orphans, beside.pid,
    congrArg (·.released) beside.same, beside.nextPtr, beside.unlinked⟩

theorem Still.of_effect {w w' : World} {p q : Process}
    (quiet : (w.put q).Quiet w') (still : p.Still q) :
    p.Still w'.toProcess :=
  still.trans (.of_quiet quiet)

/-- The counts of all cubes, and the logs of the freed ones. -/
structure Books (slots : List Nat) (freed : List Cube) (p : Process) : Prop
    where
  named : p.Named
  registered : ∀ cube ∈ p.cubes,
    cube.Balanced slots 0 ∧ cube.ptr ∉ freed.map Cube.ptr
  orphaned : ∀ cube ∈ p.orphans,
    cube.Balanced slots 1 ∧ ∃ old ∈ freed, old.Became cube
  known : ∀ ptr ∈ slots, ∃ cube ∈ p.live, cube.pid = p.pid ∧
    ptr ∈ cube.slices.map Slice.ptr
  logged : ∀ old ∈ freed, (∃ cube ∈ p.orphans, old.Became cube) ∨
    old.ptr ∈ p.released ∧ old.id ∈ p.unlinked ∧
      ∀ name ∈ old.names, name ∉ p.names ∧ name < p.nextPtr
  once : p.released.Nodup
  gone : ∀ ptr ∈ p.released, ptr ∈ freed.map Cube.ptr ∧
    ptr ∉ p.names ∧ ptr < p.nextPtr

/-- A freed block is there as long as a slot names it. -/
structure Ledger (slots : List Nat) (freed : List Cube) (p : Process) : Prop
    extends Books slots freed p where
  used : ∀ cube ∈ p.orphans, cube.InUse slots

variable {slots others : List Nat} {freed : List Cube} {p q : Process}
  {cube : Cube} {slice : Slice}

namespace Books

theorem still (books : p.Books slots freed) (still : p.Still q) :
    q.Books slots freed := by
  obtain ⟨cubes, orphans, pid, released, nextPtr, unlinked⟩ := still
  have live : q.live = p.live := by rw [live, live, cubes, orphans]
  have names : q.names = p.names := by rw [names, names, live]
  constructor
  · exact books.named.of_subperm (names ▸ .refl _) nextPtr
  · rw [cubes]
    exact books.registered
  · rw [orphans]
    exact books.orphaned
  · rw [live, pid]
    exact books.known
  · intro old member
    rw [orphans, released, names]
    rcases books.logged old member with there | ⟨log, file, gone⟩
    · exact .inl there
    · exact .inr ⟨log, unlinked file, fun name here =>
        ⟨(gone name here).1, Nat.lt_of_lt_of_le (gone name here).2 nextPtr⟩⟩
  · rw [released]
    exact books.once
  · intro ptr member
    rw [released] at member
    obtain ⟨log, gone, old⟩ := books.gone ptr member
    exact ⟨log, names ▸ gone, Nat.lt_of_lt_of_le old nextPtr⟩

theorem of_perm (books : p.Books slots freed) (perm : others.Perm slots) :
    p.Books others freed where
  named := books.named
  registered := fun cube member =>
    ⟨(books.registered cube member).1.of_counts fun _ _ =>
      perm.count_eq _, (books.registered cube member).2⟩
  orphaned := fun cube member =>
    ⟨(books.orphaned cube member).1.of_counts fun _ _ =>
      perm.count_eq _, (books.orphaned cube member).2⟩
  known := fun ptr member => books.known ptr (perm.mem_iff.mp member)
  logged := books.logged
  once := books.once
  gone := books.gone

end Books

/-- Some links more, for a slice and its cube. -/
def shiftLinks (cube ptr : Nat) (more : Int) : Process → Process :=
  modifyCube cube (Cube.shift ptr more)

theorem link_eq {cube ptr : Nat} : p.link cube ptr = p.shiftLinks cube ptr 1 :=
  rfl

section Shift

variable {more : Int}

theorem became_shift (cube : Cube) (ptr : Nat) (more : Int) :
    cube.Became (cube.shift ptr more) :=
  ⟨rfl, rfl, rfl, Cube.ptrs_shift⟩

theorem became_shifted (old : Cube) (key ptr : Nat) (more : Int) :
    old.Became (if old.ptr = key then old.shift ptr more else old) := by
  split
  · exact became_shift old ptr more
  · exact .refl old

/-- The books after a change of one cube. -/
theorem Books.modifyCube (books : p.Books slots freed) {key : Nat}
    {change : Cube → Cube} (became : ∀ old : Cube, old.Became (change old))
    (balanced : ∀ old ∈ p.live, ∀ owed, old.Balanced slots owed →
      (if old.ptr = key then change old else old).Balanced others owed)
    (known : ∀ ptr ∈ others, ∃ cube ∈ p.live, cube.pid = p.pid ∧
      ptr ∈ cube.slices.map Slice.ptr) :
    (p.modifyCube key change).Books others freed := by
  have names : (p.modifyCube key change).names = p.names :=
    names_modifyCube fun cube => (became cube).names
  have became : ∀ old : Cube,
      old.Became (if old.ptr = key then change old else old) := by
    intro old
    split
    · exact became old
    · exact .refl old
  constructor
  · refine books.named.of_subperm ?_ (Nat.le_refl _)
    rw [names]
  · intro cube' member'
    obtain ⟨old, also, rfl⟩ := List.mem_map.mp member'
    obtain ⟨before, unfreed⟩ := books.registered old also
    refine ⟨balanced old (List.mem_append_left _ also) 0 before, ?_⟩
    rwa [(became old).ptr]
  · intro cube' member'
    obtain ⟨old, also, rfl⟩ := List.mem_map.mp member'
    obtain ⟨before, entry, log, entered⟩ := books.orphaned old also
    exact ⟨balanced old (List.mem_append_right _ also) 1 before, entry, log,
      entered.trans (became old)⟩
  · intro ptr named
    obtain ⟨old, also, pid, within⟩ := known ptr named
    refine ⟨_, ?_, (became old).pid.trans pid, (became old).slices ▸ within⟩
    rw [live_modifyCube]
    exact List.mem_map_of_mem also
  · intro old log
    rcases books.logged old log with ⟨orphan, there, entered⟩ | gone
    · exact .inl ⟨_, List.mem_map_of_mem there,
        entered.trans (became orphan)⟩
    · rw [names]
      exact .inr gone
  · exact books.once
  · intro ptr log
    rw [names]
    exact books.gone ptr log

theorem Books.shift (books : p.Books slots freed) (member : cube ∈ p.live)
    (own : cube.pid = p.pid) (inside : slice ∈ cube.slices)
    (here : (others.count slice.ptr : Int) = slots.count slice.ptr + more)
    (same : ∀ ptr, ptr ≠ slice.ptr → others.count ptr = slots.count ptr) :
    (p.shiftLinks cube.ptr slice.ptr more).Books others freed := by
  refine books.modifyCube (fun old => became_shift old slice.ptr more) ?_ ?_
  · intro old also owed before
    split
    · rename_i named
      cases books.named.same_cube also member named
      exact before.shift (books.named.slices_distinct also) inside here same
    · rename_i different
      refine before.of_counts fun other within => same _ fun shared => ?_
      apply different
      have owned : slice.ptr ∈ old.slices.map Slice.ptr :=
        shared ▸ List.mem_map_of_mem within
      rw [books.named.same_owner also member owned
        (List.mem_map_of_mem inside)]
  · intro ptr named
    by_cases this : ptr = slice.ptr
    · exact ⟨cube, member, own, this ▸ List.mem_map_of_mem inside⟩
    · refine books.known ptr (List.count_pos_iff.mp ?_)
      rw [← same ptr this]
      exact List.count_pos_iff.mpr named

/-- A change that keeps the counts keeps the books. -/
theorem Ledger.recount (ledger : p.Ledger slots freed) {key : Nat}
    {change : Cube → Cube}
    (recounts : ∀ old : Cube, old.Recounts (change old)) :
    (p.modifyCube key change).Ledger slots freed := by
  refine ⟨ledger.modifyCube (fun old => (recounts old).toBecame) ?_
    ledger.known, ?_⟩
  · intro old also owed before
    split
    · exact before.recounts (recounts old)
    · exact before
  · intro cube' member'
    obtain ⟨old, also, rfl⟩ := List.mem_map.mp member'
    split
    · exact (recounts old).inUse_iff.mpr (ledger.used old also)
    · exact ledger.used old also

end Shift

theorem Ledger.still (ledger : p.Ledger slots freed) (still : p.Still q) :
    q.Ledger slots freed :=
  ⟨ledger.toBooks.still still, still.orphans ▸ ledger.used⟩

/-- No cube has a link, and none was freed. -/
theorem Ledger.of_idle (named : p.Named)
    (unlinked : ∀ cube ∈ p.cubes, cube.nlinks = 0 ∧
      ∀ slice ∈ cube.slices, slice.nlinks = 0)
    (orphans : p.orphans = []) (released : p.released = []) :
    p.Ledger [] [] := by
  refine ⟨⟨named, ?_, ?_, by simp, by simp, ?_, ?_⟩, ?_⟩
  · intro cube member
    obtain ⟨zero, unlinked⟩ := unlinked cube member
    refine ⟨⟨fun slice inside => unlinked slice inside, ?_⟩, by simp⟩
    have total : cube.total = 0 := by
      apply List.sum_eq_zero
      intro links member
      obtain ⟨slice, inside, rfl⟩ := List.mem_map.mp member
      exact unlinked slice inside
    rw [zero, total]
    rfl
  · simp [orphans]
  · simp [released]
  · simp [released]
  · simp [orphans]

theorem Ledger.moveCube {P : PageSize} {page : Block} {prot : Prot}
    (ledger : p.Ledger slots freed) :
    (p.moveCube P cube page prot).Ledger slots freed := by
  have remapped : (p.remapBlock P cube.page page prot).Ledger slots freed :=
    ledger.still ⟨rfl, rfl, rfl, rfl, Nat.le_refl _, List.Subset.refl _⟩
  exact remapped.recount fun old => ⟨⟨rfl, rfl, rfl, rfl⟩, rfl, rfl⟩

theorem Ledger.openSlices {P : PageSize} (ledger : p.Ledger slots freed)
    (opened : List Slice) :
    (p.openSlices P cube opened).Ledger slots freed := by
  induction opened generalizing p with
  | nil => exact ledger
  | cons slice opened induction =>
      refine @induction (p.openSlice P cube slice) ?_
      have shut : (p.protectPages P (wadd cube.page.addr slice.page.offset)
          slice.page.size .readWrite).Ledger slots freed :=
        ledger.still ⟨rfl, rfl, rfl, rfl, Nat.le_refl _, List.Subset.refl _⟩
      exact shut.recount
        (Cube.recounts_modifySlice (fun _ => rfl) fun _ => rfl)

theorem Ledger.link (ledger : p.Ledger slots freed) {ptr : Nat}
    (found : p.findSlice ptr = some (cube, slice)) (own : cube.pid = p.pid) :
    (p.link cube.ptr ptr).Ledger (ptr :: slots) freed := by
  obtain ⟨member, inside, rfl⟩ := findSlice_mem found
  rw [link_eq]
  refine ⟨ledger.shift member own inside ?_ ?_, ?_⟩
  · rw [List.count_cons_self, Int.natCast_succ]
  · exact fun ptr different => List.count_cons_of_ne different.symm
  · intro cube' member'
    obtain ⟨old, also, rfl⟩ := List.mem_map.mp member'
    obtain ⟨other, within, named⟩ := ledger.used old also
    exact (became_shifted old _ _ _).inUse_iff.mpr
      ⟨other, within, List.mem_cons_of_mem _ named⟩

section Release

theorem Named.not_both (named : p.Named) (member : cube ∈ p.cubes)
    {other : Cube} (also : other ∈ p.orphans) : cube.ptr ≠ other.ptr := by
  have distinct := named.cubes_distinct
  rw [live, List.map_append] at distinct
  exact (List.nodup_append.mp distinct).2.2 _ (List.mem_map_of_mem member) _
    (List.mem_map_of_mem also)

theorem mem_release {cube' : Cube} {ptr : Nat} :
    cube' ∈ (p.release ptr).orphans ↔
      cube' ∈ p.orphans ∧ cube'.ptr ≠ ptr := by
  simp [release]

/-- The names of a released cube are gone. -/
theorem not_mem_names_release (named : p.Named) (member : cube ∈ p.orphans)
    {name : Nat} (here : name ∈ cube.names) :
    name ∉ (p.release cube.ptr).names := by
  intro still
  obtain ⟨other, also, shared⟩ := List.mem_flatMap.mp still
  have other_live : other ∈ p.live ∧ other.ptr ≠ cube.ptr := by
    rcases List.mem_append.mp also with registered | orphan
    · exact ⟨List.mem_append_left _ registered,
        named.not_both registered member⟩
    · obtain ⟨orphan, different⟩ := mem_release.mp orphan
      exact ⟨List.mem_append_right _ orphan, different⟩
  have same := Keyed.eq_of_shared named.distinct other_live.1
    (List.mem_append_right _ member) shared here
  exact other_live.2 (congrArg Cube.ptr same)

/-- A freed cube without slots is released, and its file removed. -/
theorem Books.release (books : p.Books slots freed)
    (member : cube ∈ p.orphans) (unused : ¬cube.InUse slots) :
    ((p.unlinkFile cube.id).release cube.ptr).Books slots freed := by
  have sublist : ((p.unlinkFile cube.id).release cube.ptr).names.Sublist
      p.names := names_release cube.ptr
  have here : cube ∈ p.live := List.mem_append_right _ member
  have removed : ∀ {name}, name ∈ cube.names →
      name ∉ ((p.unlinkFile cube.id).release cube.ptr).names :=
    not_mem_names_release (p := p.unlinkFile cube.id)
      ⟨books.named.distinct, books.named.fresh⟩ member
  constructor
  · exact books.named.of_subperm sublist.subperm (Nat.le_refl _)
  · exact books.registered
  · exact fun other also => books.orphaned other (mem_release.mp also).1
  · intro ptr named
    obtain ⟨other, also, pid, within⟩ := books.known ptr named
    refine ⟨other, ?_, pid, within⟩
    rcases List.mem_append.mp also with registered | orphan
    · exact List.mem_append_left _ registered
    · refine List.mem_append_right _ (mem_release.mpr ⟨orphan, fun same => ?_⟩)
      cases books.named.same_cube also here same
      obtain ⟨slice, inside, rfl⟩ := List.mem_map.mp within
      exact unused ⟨slice, inside, named⟩
  · intro old log
    rcases books.logged old log with ⟨orphan, there, became⟩ | ⟨log, file, out⟩
    · by_cases same : orphan.ptr = cube.ptr
      · cases books.named.same_cube (List.mem_append_right _ there) here same
        refine .inr ⟨?_, ?_, fun name inside => ?_⟩
        · exact became.ptr ▸ List.mem_cons_self
        · exact became.id ▸ List.mem_cons_self
        · have inside : name ∈ cube.names := became.names ▸ inside
          exact ⟨removed inside, books.named.fresh name
            (List.mem_flatMap.mpr ⟨cube, here, inside⟩)⟩
      · exact .inl ⟨orphan, mem_release.mpr ⟨there, same⟩, became⟩
    · exact .inr ⟨List.mem_cons_of_mem _ log, List.mem_cons_of_mem _ file,
        fun name inside => ⟨fun still => (out name inside).1
          (sublist.subset still), (out name inside).2⟩⟩
  · refine List.nodup_cons.mpr ⟨fun twice => ?_, books.once⟩
    exact (books.gone cube.ptr twice).2.1 (Named.ptr_mem here)
  · intro ptr log
    rcases List.mem_cons.mp log with now | before
    · obtain ⟨-, old, entry, became⟩ := books.orphaned cube member
      subst now
      refine ⟨?_, removed List.mem_cons_self,
        books.named.fresh _ (Named.ptr_mem here)⟩
      rw [became.ptr]
      exact List.mem_map_of_mem entry
    · obtain ⟨entry, out, old⟩ := books.gone ptr before
      exact ⟨entry, fun still => out (sublist.subset still), old⟩

/-- The last detach of a freed cube destroys it, and no other detach does. -/
theorem Ledger.detach (ledger : p.Ledger slots freed) {ptr : Nat}
    (named : ptr ∈ slots) (detached : p.detachSlice ptr = some q) :
    q.Ledger (slots.erase ptr) freed := by
  unfold detachSlice at detached
  split at detached
  · cases detached
  rename_i cube slice found
  obtain ⟨member, inside, rfl⟩ := findSlice_mem found
  have owned := List.mem_map_of_mem (f := Slice.ptr) inside
  have own : cube.pid = p.pid := by
    obtain ⟨other, also, pid, within⟩ := ledger.known _ named
    cases ledger.named.same_owner also member within owned
    exact pid
  have here : ((slots.erase slice.ptr).count slice.ptr : Int) =
      slots.count slice.ptr + -1 := by
    have positive := List.count_pos_iff.mpr named
    rw [List.count_erase_self]
    omega
  have same : ∀ ptr, ptr ≠ slice.ptr →
      (slots.erase slice.ptr).count ptr = slots.count ptr :=
    fun ptr different => List.count_erase_of_ne different
  have lowered : (p.unlinkSlice cube.ptr slice.ptr).Books
      (slots.erase slice.ptr) freed :=
    (ledger.shift member own inside here same).still
      ⟨rfl, rfl, rfl, rfl, Nat.le_refl _, List.Subset.refl _⟩
  have distinct := ledger.named.slices_distinct member
  -- the test of `__detach` reads the count of the cube before
  have test : ∀ owed, cube.Balanced slots owed → (cube.nlinks = 1 - owed ↔
      ¬(cube.shift slice.ptr (-1)).InUse (slots.erase slice.ptr)) := by
    intro owed before
    rw [← (before.shift distinct inside here same).total_eq_zero_iff,
      Cube.total_shift distinct inside, before.nlinks]
    omega
  have elsewhere : ∀ orphan ∈ p.orphans, orphan.ptr ≠ cube.ptr →
      orphan.InUse (slots.erase slice.ptr) := by
    intro orphan there different
    obtain ⟨other, within, still⟩ := ledger.used orphan there
    refine ⟨other, within, (List.mem_erase_of_ne fun same => ?_).mpr still⟩
    apply different
    have also : orphan ∈ p.live := List.mem_append_right _ there
    rw [ledger.named.same_owner also member
      (same ▸ List.mem_map_of_mem within) owned]
  rw [if_pos own] at detached
  rcases List.mem_append.mp member with registered | orphan
  · obtain ⟨balanced, -⟩ := ledger.registered cube registered
    have linked : cube.nlinks ≠ 0 := fun zero => by
      refine balanced.total_eq_zero_iff.mp ?_ ⟨slice, inside, named⟩
      have total := balanced.nlinks
      omega
    rw [if_neg linked] at detached
    cases detached
    refine ⟨lowered, fun orphan' there' => ?_⟩
    obtain ⟨old, there, rfl⟩ := List.mem_map.mp there'
    have different := (ledger.named.not_both registered there).symm
    rw [if_neg different]
    exact elsewhere old there different
  · obtain ⟨balanced, -⟩ := ledger.orphaned cube orphan
    have last := test 1 balanced
    have remains : cube.shift slice.ptr (-1) ∈
        (p.unlinkSlice cube.ptr slice.ptr).orphans :=
      List.mem_map.mpr ⟨cube, orphan, if_pos rfl⟩
    split at detached
    · rename_i zero
      cases detached
      have released := lowered.release remains (last.mp (by omega))
      refine ⟨released, fun orphan' there' => ?_⟩
      obtain ⟨there', different⟩ := mem_release.mp there'
      obtain ⟨old, there, rfl⟩ := List.mem_map.mp there'
      have different : old.ptr ≠ cube.ptr := fun same => by
        simp [same, Cube.modifySlice] at different
      rw [if_neg different]
      exact elsewhere old there different
    · rename_i linked
      cases detached
      refine ⟨lowered, fun orphan' there' => ?_⟩
      obtain ⟨old, there, rfl⟩ := List.mem_map.mp there'
      split
      · rename_i same
        cases ledger.named.same_cube (List.mem_append_right _ there) member same
        exact not_not.mp fun unused => linked (by
          have zero := last.mpr unused
          omega)
      · rename_i different
        exact elsewhere old there different

end Release

section Free

/-- The cube of a freed block out of the registry, with one link less. -/
def orphan (cube : Cube) (p : Process) : Process :=
  { p with
    cubes := p.cubes.filter fun other => other.ptr ≠ cube.ptr
    orphans := { cube with nlinks := cube.nlinks - 1 } :: p.orphans }

theorem names_orphan (named : p.Named) (member : cube ∈ p.cubes) :
    (p.orphan cube).names.Perm p.names := by
  have same := (live_freeCube named member).flatMap_right Cube.names
  refine List.Perm.trans (List.Perm.of_eq ?_) same
  simp [names, live, orphan, Cube.names]

theorem mem_orphan_cubes {other : Cube} :
    other ∈ (p.orphan cube).cubes ↔ other ∈ p.cubes ∧ other.ptr ≠ cube.ptr := by
  simp [orphan]

theorem Books.orphan (books : p.Books slots freed) (member : cube ∈ p.cubes) :
    (p.orphan cube).Books slots (cube :: freed) := by
  have perm := names_orphan books.named member
  have here : cube ∈ p.live := List.mem_append_left _ member
  have same : cube.Became { cube with nlinks := cube.nlinks - 1 } :=
    ⟨rfl, rfl, rfl, rfl⟩
  obtain ⟨balanced, unfreed⟩ := books.registered cube member
  constructor
  · exact books.named.of_subperm perm.subperm (Nat.le_refl _)
  · intro other also
    obtain ⟨also, different⟩ := mem_orphan_cubes.mp also
    obtain ⟨balanced, unfreed⟩ := books.registered other also
    refine ⟨balanced, ?_⟩
    rw [List.map_cons, List.mem_cons, not_or]
    exact ⟨different, unfreed⟩
  · intro other also
    rcases List.mem_cons.mp also with now | before
    · subst now
      refine ⟨⟨balanced.slices, ?_⟩, cube, List.mem_cons_self, same⟩
      have total := balanced.nlinks
      simp only [Cube.total] at total ⊢
      omega
    · obtain ⟨balanced, old, entry, became⟩ := books.orphaned other before
      exact ⟨balanced, old, List.mem_cons_of_mem _ entry, became⟩
  · intro ptr named
    obtain ⟨other, also, pid, within⟩ := books.known ptr named
    by_cases this : other.ptr = cube.ptr
    · cases books.named.same_cube also here this
      exact ⟨_, List.mem_append_right _ List.mem_cons_self, pid, within⟩
    · refine ⟨other, ?_, pid, within⟩
      rcases List.mem_append.mp also with registered | orphan
      · exact List.mem_append_left _ (mem_orphan_cubes.mpr ⟨registered, this⟩)
      · exact List.mem_append_right _ (List.mem_cons_of_mem _ orphan)
  · intro old log
    rcases List.mem_cons.mp log with now | before
    · exact .inl ⟨_, List.mem_cons_self, now ▸ same⟩
    · rcases books.logged old before with ⟨orphan, there, became⟩ | gone
      · exact .inl ⟨orphan, List.mem_cons_of_mem _ there, became⟩
      · refine .inr ⟨gone.1, gone.2.1, fun name inside => ?_⟩
        obtain ⟨out, taken⟩ := gone.2.2 name inside
        exact ⟨fun still => out (perm.mem_iff.mp still), taken⟩
  · exact books.once
  · intro ptr log
    obtain ⟨entry, out, taken⟩ := books.gone ptr log
    exact ⟨List.mem_cons_of_mem _ entry,
      fun still => out (perm.mem_iff.mp still), taken⟩

/-- `inaccel_free` of an own block destroys the cube when no slot is left. -/
theorem Ledger.free (ledger : p.Ledger slots freed) (member : cube ∈ p.cubes)
    (own : cube.pid = p.pid) :
    (p.freeCube cube).Ledger slots (cube :: freed) := by
  have books := ledger.toBooks.orphan member
  obtain ⟨balanced, -⟩ := ledger.registered cube member
  have count : cube.nlinks = 0 ↔ ¬cube.InUse slots := by
    rw [← balanced.total_eq_zero_iff, balanced.nlinks, sub_zero]
  have others : ∀ other ∈ p.orphans, other.ptr ≠ cube.ptr := fun other also =>
    (ledger.named.not_both member also).symm
  unfold freeCube
  split
  · rename_i last
    have zero : cube.nlinks = 0 := last.resolve_left (not_not.mpr own)
    have released := books.release List.mem_cons_self (count.mp zero)
    refine ⟨released.still
      ⟨rfl, ?_, rfl, rfl, Nat.le_refl _, List.Subset.refl _⟩, ?_⟩
    · simp [release, orphan, unlinkFile]
    · intro other also
      have also : other ∈ p.orphans := by
        simp only [release, List.filter_cons, ne_eq, not_true_eq_false,
          decide_false, Bool.false_eq_true, if_false] at also
        exact List.mem_of_mem_filter also
      exact ledger.used other also
  · rename_i linked
    have linked : ¬cube.nlinks = 0 := fun zero => linked (.inr zero)
    have cubes : (p.cubes.filter fun other => other.ptr ≠ cube.ptr).map
        (fun other => if other.ptr = cube.ptr then
          { other with nlinks := other.nlinks - 1 } else other) =
        p.cubes.filter fun other => other.ptr ≠ cube.ptr :=
      Keyed.map_others
        (fun other also => by simpa using (List.mem_filter.mp also).2) _
    have orphans : (cube :: p.orphans).map (fun other =>
        if other.ptr = cube.ptr then
          { other with nlinks := other.nlinks - 1 } else other) =
        { cube with nlinks := cube.nlinks - 1 } :: p.orphans := by
      rw [List.map_cons, if_pos rfl, Keyed.map_others others]
    refine ⟨books.still
      ⟨cubes, orphans, rfl, rfl, Nat.le_refl _, List.Subset.refl _⟩, ?_⟩
    intro other also
    rw [modifyCube, orphans] at also
    rcases List.mem_cons.mp also with now | before
    · subst now
      exact not_not.mp (mt count.mpr linked)
    · exact ledger.used other before

end Free

section New

theorem Books.slot_lt (books : p.Books slots freed) {ptr : Nat}
    (named : ptr ∈ slots) : ptr < p.nextPtr := by
  obtain ⟨cube, member, -, within⟩ := books.known ptr named
  exact books.named.fresh ptr
    (List.mem_flatMap.mpr ⟨cube, member, List.mem_cons_of_mem _ within⟩)

/-- A new slice has no slots. -/
theorem Ledger.addSlice (ledger : p.Ledger slots freed)
    (member : cube ∈ p.cubes) (unused : p.nextPtr ≤ slice.ptr)
    (none : slice.nlinks = 0) :
    (p.addSlice cube.ptr slice).Ledger slots freed := by
  have here : cube ∈ p.live := List.mem_append_left _ member
  have perm : (p.addSlice cube.ptr slice).names.Perm (slice.ptr :: p.names) :=
    names_addSlice ledger.named here
  have zero : slots.count slice.ptr = 0 := List.count_eq_zero.mpr
    fun named => absurd (ledger.slot_lt named) (Nat.not_lt.mpr unused)
  have orphans : (p.addSlice cube.ptr slice).orphans = p.orphans :=
    Keyed.map_others (fun other also =>
      (ledger.named.not_both member also).symm) _
  have kept : ∀ name, name < p.nextPtr → name ∉ p.names →
      name ∉ (p.addSlice cube.ptr slice).names ∧
        name < (p.addSlice cube.ptr slice).nextPtr := by
    intro name old out
    refine ⟨fun still => ?_, Nat.lt_succ_of_lt (by omega)⟩
    rcases List.mem_cons.mp (perm.mem_iff.mp still) with now | before
    · omega
    · exact out before
  refine ⟨⟨?_, ?_, ?_, ?_, ?_, ledger.once, ?_⟩, ?_⟩
  · exact ledger.named.of_new perm unused (Nat.lt_succ_self _)
  · intro cube' member'
    obtain ⟨old, also, rfl⟩ := List.mem_map.mp member'
    obtain ⟨balanced, unfreed⟩ := ledger.registered old also
    split
    · refine ⟨⟨?_, ?_⟩, unfreed⟩
      · intro other within
        rcases List.mem_append.mp within with before | now
        · exact balanced.slices other before
        · rw [List.mem_singleton.mp now, none, zero]
          rfl
      · have total := balanced.nlinks
        simp only [Cube.total] at total
        simp [Cube.total, none, total]
    · exact ⟨balanced, unfreed⟩
  · rw [orphans]
    exact ledger.orphaned
  · intro ptr named
    obtain ⟨old, also, pid, within⟩ := ledger.known ptr named
    refine ⟨if old.ptr = cube.ptr then
      { old with slices := old.slices ++ [slice] } else old, ?_, ?_, ?_⟩
    · have live := live_modifyCube (p := p) cube.ptr fun cube =>
        { cube with slices := cube.slices ++ [slice] }
      exact live ▸ List.mem_map_of_mem also
    · split
      · exact pid
      · exact pid
    · split
      · simp only [List.map_append]
        exact List.mem_append_left _ within
      · exact within
  · intro old log
    rcases ledger.logged old log with ⟨orphan, there, became⟩ | gone
    · exact .inl ⟨orphan, orphans ▸ there, became⟩
    · refine .inr ⟨gone.1, gone.2.1, fun name inside => ?_⟩
      exact kept name (gone.2.2 name inside).2 (gone.2.2 name inside).1
  · intro ptr log
    obtain ⟨entry, out, old⟩ := ledger.gone ptr log
    exact ⟨entry, kept ptr old out⟩
  · rw [orphans]
    exact ledger.used

/-- A new cube has no slices. -/
theorem Ledger.addCube (ledger : p.Ledger slots freed) {P : PageSize}
    (empty : cube.slices = []) (none : cube.nlinks = 0)
    (unused : p.nextPtr ≤ cube.ptr) :
    (p.addCube P cube).Ledger slots freed := by
  have perm := names_addCube (P := P) (p := p) empty
  have kept : ∀ name, name < p.nextPtr → name ∉ p.names →
      name ∉ (p.addCube P cube).names ∧
        name < (p.addCube P cube).nextPtr := by
    intro name old out
    refine ⟨fun still => ?_, Nat.lt_succ_of_lt (by omega)⟩
    rcases List.mem_cons.mp (perm.mem_iff.mp still) with now | before
    · omega
    · exact out before
  have entries : ∀ old ∈ freed, old.ptr < p.nextPtr := by
    intro old log
    rcases ledger.logged old log with ⟨orphan, there, became⟩ | gone
    · rw [← became.ptr]
      exact ledger.named.fresh _
        (Named.ptr_mem (List.mem_append_right _ there))
    · exact (gone.2.2 old.ptr List.mem_cons_self).2
  refine ⟨⟨?_, ?_, ledger.orphaned, ?_, ?_, ledger.once, ?_⟩, ledger.used⟩
  · exact ledger.named.of_new perm unused (Nat.lt_succ_self _)
  · intro cube' member'
    rcases List.mem_append.mp member' with before | now
    · exact ledger.registered cube' before
    · rw [List.mem_singleton.mp now]
      refine ⟨.slices_of_nil empty none, fun entry => ?_⟩
      obtain ⟨old, log, same⟩ := List.mem_map.mp entry
      have taken := entries old log
      omega
  · intro ptr named
    obtain ⟨old, also, pid, within⟩ := ledger.known ptr named
    refine ⟨old, ?_, pid, within⟩
    rcases List.mem_append.mp also with registered | orphan
    · exact List.mem_append_left _ (List.mem_append_left _ registered)
    · exact List.mem_append_right _ orphan
  · intro old log
    rcases ledger.logged old log with there | gone
    · exact .inl there
    · refine .inr ⟨gone.1, gone.2.1, fun name inside => ?_⟩
      exact kept name (gone.2.2 name inside).2 (gone.2.2 name inside).1
  · intro ptr log
    obtain ⟨entry, out, old⟩ := ledger.gone ptr log
    exact ⟨entry, kept ptr old out⟩

end New

section Slots

theorem Ledger.of_perm {others : List Nat} (ledger : p.Ledger slots freed)
    (perm : others.Perm slots) : p.Ledger others freed := by
  refine ⟨ledger.toBooks.of_perm perm, fun cube member => ?_⟩
  obtain ⟨slice, inside, named⟩ := ledger.used cube member
  exact ⟨slice, inside, perm.mem_iff.mpr named⟩

theorem Ledger.linkSlices {ptrs : List Nat} (ledger : p.Ledger slots freed)
    (owns : ∀ ptr ∈ ptrs, p.owner ptr = some p.pid) :
    (p.linkSlices ptrs).Ledger (ptrs.reverse ++ slots) freed := by
  induction ptrs generalizing p slots with
  | nil => exact ledger
  | cons ptr ptrs induction =>
      obtain ⟨⟨cube, slice⟩, found, own⟩ :=
        Option.map_eq_some_iff.mp (owns ptr List.mem_cons_self)
      have linked : p.linkSlice ptr = p.link cube.ptr ptr := by
        simp [linkSlice, found]
      have first := ledger.link found own
      rw [← linked] at first
      have pid : (p.linkSlice ptr).pid = p.pid := retains_linkSlice.pid
      have rest := induction first fun other member => by
        rw [owner_linkSlice, pid]
        exact owns other (List.mem_cons_of_mem _ member)
      rw [List.reverse_cons, List.append_assoc]
      exact rest

theorem Ledger.links {request : Nat} {ptrs : List Nat} {w w' : World}
    (ledger : w.Ledger slots freed)
    (owns : ∀ ptr ∈ ptrs, w.owner ptr = some w.pid)
    (links : w.Links request ptrs w') :
    w'.toProcess.Ledger (ptrs.reverse ++ slots) freed := by
  refine (ledger.linkSlices owns).still ⟨congrArg (·.cubes) links.same,
    congrArg (·.orphans) links.same, congrArg (·.pid) links.same,
    congrArg (·.released) links.same, ?_, ?_⟩
  · exact Nat.le_trans (Nat.le_of_eq
      (congrArg (·.nextPtr) (linkSlices_others ptrs))) links.nextPtr
  · rw [show w'.unlinked = (w.linkSlices ptrs).unlinked from
      congrArg (·.unlinked) links.same]
    exact List.Subset.refl _

theorem Ledger.detachSlices {ptrs : List Nat} (ledger : p.Ledger slots freed)
    {rest : List Nat} (split : slots.Perm (ptrs ++ rest))
    (detached : p.detachSlices ptrs = some q) : q.Ledger rest freed := by
  induction ptrs generalizing p slots with
  | nil =>
      cases detached
      exact ledger.of_perm split.symm
  | cons ptr ptrs induction =>
      obtain ⟨middle, first, rest⟩ := detachSlices_cons detached
      have named : ptr ∈ slots := split.mem_iff.mpr (by simp)
      refine induction (ledger.detach named first) ?_ rest
      exact (split.erase ptr).trans (by simp)

end Slots

end Process

section Outcomes

variable {P : PageSize} {slots : List Nat} {freed : List Cube} {w w' : World}

theorem SliceOutcome.ledger {addr size : Nat} {result : Option Nat}
    (outcome : SliceOutcome P w addr size result w')
    (ledger : w.Ledger slots freed) :
    w'.Ledger slots freed ∧ w'.toRpc = w.toRpc := by
  cases outcome with
  | missed fed quiet => exact ⟨ledger.still (.of_quiet quiet), quiet.rpc⟩
  | @starved cube w' starves member quiet =>
      have still : w.toProcess.Still w'.toProcess :=
        Process.Still.of_quiet (w := w.holding [.cube cube.ptr]) quiet
      exact ⟨ledger.still still, quiet.rpc⟩
  | known fed first own found quiet =>
      exact ⟨ledger.still (.of_quiet quiet), quiet.rpc⟩
  | made fed first own contains new fresh effect =>
      have member := List.mem_of_find?_eq_some first
      exact ⟨(ledger.addSlice member fresh rfl).still (.of_quiet effect),
        effect.rpc⟩

theorem AllocOutcome.ledger {size : Nat} {result : Option Nat}
    (outcome : AllocOutcome P w size result w')
    (ledger : w.Ledger slots freed) :
    w'.Ledger slots freed ∧ w'.toRpc = w.toRpc := by
  cases outcome with
  | failed beside => exact ⟨ledger.still (.of_beside beside), beside.rpc⟩
  | @made ptr addr id w' requested admits fresh effect =>
      let cube : Cube :=
        ⟨ptr, 0, ⟨addr, ceilPagesize P size⟩, w.pid, [], id⟩
      have unused : w.nextPtr ≤ cube.ptr := fresh
      exact ⟨(ledger.addCube rfl rfl unused).still (.of_quiet effect),
        effect.rpc⟩

theorem freeCube_rpc {p : Process} {cube : Cube} :
    (p.freeCube cube).toRpc = p.toRpc := by
  unfold Process.freeCube
  split
  · rfl
  · rfl

/-- An own block that is freed is logged. -/
theorem FreeOutcome.ledger {addr : Nat} (outcome : FreeOutcome w addr w')
    (ledger : w.Ledger slots freed)
    (own : ∀ cube ∈ w.cubes, cube.page.addr = addr → cube.pid = w.pid) :
    w'.Ledger slots
        (if addr = 0 then freed
          else (w.cubes.find? fun cube =>
            cube.page.addr == addr).toList ++ freed) ∧
      w'.toRpc = w.toRpc := by
  cases outcome with
  | missed lost quiet =>
      refine ⟨?_, quiet.rpc⟩
      rcases lost with null | missing
      · rw [if_pos null]
        exact ledger.still (.of_quiet quiet)
      · rw [missing, Option.toList_none, List.nil_append, ite_self]
        exact ledger.still (.of_quiet quiet)
  | @freed cube maps w' given found unmapped effect =>
      have member := List.mem_of_find?_eq_some found
      have hit : cube.page.addr = addr := by
        simpa using List.find?_some found
      have logged := ledger.free member (own cube member hit)
      rw [if_neg given, found]
      exact ⟨logged.still (.of_effect effect
        ⟨rfl, rfl, rfl, rfl, Nat.le_refl _, List.Subset.refl _⟩),
        effect.rpc.trans freeCube_rpc⟩

/-- The block that `inaccel_realloc` frees is logged, if there is one. -/
theorem ReallocOutcome.ledger {addr newSize : Nat} {result : Option Nat}
    (outcome : ReallocOutcome P w addr newSize result w')
    (ledger : w.Ledger slots freed)
    (own : ∀ cube ∈ w.cubes, cube.page.addr = addr → cube.pid = w.pid) :
    ∃ freed', w'.Ledger slots freed' := by
  cases outcome with
  | alloc null stays outcome => exact ⟨freed, (outcome.ledger ledger).1⟩
  | free emptied stays outcome => exact ⟨_, (outcome.ledger ledger own).1⟩
  | kept stays quiet => exact ⟨freed, ledger.still (.of_quiet quiet)⟩
  | moved grows effect =>
      exact ⟨freed, ledger.moveCube.still (.of_quiet effect)⟩

end Outcomes

end CoralApi
