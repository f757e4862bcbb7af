import CoralApi.CubeSpec
import CoralApi.Sections

/-!
# What `inaccel_alloc`, `inaccel_free` and `inaccel_realloc` do

The lemmas of `CubeSpec` for the three functions that map and unmap blocks.
-/

namespace CoralApi

open Program

/-- The page lies in the block. -/
def Block.HasPage (P : PageSize) (block : Block) (page : Nat) : Prop :=
  block.addr ≤ page * P.bytes ∧ page * P.bytes < block.addr + block.size

/-- The state without its mappings and the log of the removed files. -/
def World.unmapped (w : World) : World :=
  w.put { w.toProcess with
    maps := []
    prot := fun _ => .read
    unlinked := [] }

/-- A stretch of a call that may map and unmap ranges beside the old
mappings. -/
structure World.Beside (P : PageSize) (w w' : World) : Prop where
  same : w'.unmapped.visible = w.unmapped.visible
  nextPtr : w.nextPtr ≤ w'.nextPtr
  unlinked : w.unlinked ⊆ w'.unlinked
  maps : w.maps ⊆ w'.maps
  prot : ∀ mapping ∈ w.maps, ∀ page, mapping.block.HasPage P page →
    w'.prot page = w.prot page

theorem World.Quiet.beside {P : PageSize} {w w' : World}
    (quiet : w.Quiet w') : w.Beside P w' where
  same := congrArg World.unmapped quiet.same
  nextPtr := quiet.nextPtr
  unlinked := by simp [quiet.unlinked]
  maps := by simp [quiet.maps]
  prot := by simp [quiet.prot]

/-- Ranges without a common byte have no common page. -/
theorem Block.Disjoint.not_hasPage {P : PageSize} {left right : Block}
    {page : Nat} (disjoint : left.Disjoint right)
    (inside : left.HasPage P page) : ¬right.HasPage P page := by
  intro also
  obtain ⟨from_, to_⟩ := inside
  obtain ⟨from', to'⟩ := also
  rcases disjoint with before | after
  · omega
  · omega

theorem Block.Disjoint.ne {left right : Block} (disjoint : left.Disjoint right)
    (nonempty : 0 < right.size) : left ≠ right := by
  rintro rfl
  rcases disjoint with before | after
  · omega
  · omega

/-- The registry with a new cube, the newest object, on a new mapping. -/
def Process.addCube (P : PageSize) (cube : Cube) (p : Process) : Process :=
  { p.mapBlock P cube.page p.self cube.id with
    cubes := p.cubes ++ [cube]
    nextPtr := cube.ptr + 1 }

/-- How `inaccel_alloc` can end. -/
inductive AllocOutcome (P : PageSize) (w : World) (size : Nat) :
    Option Nat → World → Prop where
  | failed {w' : World} (beside : w.Beside P w') :
      AllocOutcome P w size none w'
  | made {ptr addr : Nat} {id : String} {w' : World} (requested : size ≠ 0)
      (admits : Process.Admits P ⟨addr, ceilPagesize P size⟩ w.maps)
      (fresh : w.nextPtr ≤ ptr)
      (effect : (w.put (w.addCube P
        { ptr := ptr
          nlinks := 0
          page := ⟨addr, ceilPagesize P size⟩
          pid := w.pid
          slices := []
          id := id })).Quiet w') :
      AllocOutcome P w size (some addr) w'

section Beside

variable {P : PageSize} {w w' : World} (beside : w.Beside P w')

include beside

theorem World.Beside.rpc : w'.toRpc = w.toRpc := congrArg (·.toRpc) beside.same

theorem World.Beside.pid : w'.pid = w.pid := congrArg (·.pid) beside.same

theorem World.Beside.cubes : w'.cubes = w.cubes :=
  congrArg (·.cubes) beside.same

theorem World.Beside.orphans : w'.orphans = w.orphans :=
  congrArg (·.orphans) beside.same

end Beside

theorem setCube_spec {cube : Cube} {w₀ w : World} (before : w₀.Quiet w)
    {stop : Stop → World → Prop} :
    Ensures (Collection.setCube cube)
      (fun result w' =>
        if result = 0 then
          (w₀.put { w₀.toProcess with cubes := w₀.cubes ++ [cube] }).Quiet w'
        else w₀.Quiet w')
      stop w := by
  unfold Collection.setCube
  apply Ensures.step rfl
  cases w.os 0 with
  | done value name =>
      have added := before.lift
        (fun p => { p with cubes := p.cubes ++ [cube] })
        (fun _ => rfl) (fun _ _ ordered => ordered)
      exact added.trans ⟨rfl, Nat.le_refl _⟩
  | failed error => exact before.trans ⟨rfl, Nat.le_refl _⟩

theorem registerCube_spec {cube : Cube} {w : World} (free : w.held = []) :
    Ensures (registerCube cube)
      (fun result w' =>
        match result with
        | none =>
            (w.put { w.toProcess with cubes := w.cubes ++ [cube] }).Quiet w'
        | some _ => w.Quiet w')
      (fun _ _ => False) w := by
  unfold registerCube
  apply Ensures.step (lock_run (by simp [free]))
  rw [free]
  apply (setCube_spec (.refl (w.holding [.cubes]))).bind
  intro result w₁ effect
  split
  · rename_i refused
    rw [if_neg refused] at effect
    apply Ensures.step rfl
    exact ensures_unlock (p := w.toProcess) free effect fun _ quiet => quiet
  · rename_i stored
    rw [if_pos (not_not.mp stored)] at effect
    exact ensures_unlock free effect fun _ quiet => quiet

theorem unmap_spec {block : Block} {w₀ w : World} (before : w₀.Quiet w)
    {stop : Stop → World → Prop} :
    Ensures (Utils.unmap block.addr block.size)
      (fun _ w' => ∃ maps, (maps = w₀.maps ∨
          maps = w₀.maps.filter fun mapping => mapping.block ≠ block) ∧
        (w₀.put { w₀.toProcess with maps := maps }).Quiet w')
      stop w := by
  unfold Utils.unmap
  simp only [logged, Ensures]
  cases w.os 0 with
  | failed error =>
      exact ⟨w₀.maps, .inl rfl, before.trans ⟨rfl, Nat.le_refl _⟩⟩
  | done value name =>
      refine ⟨_, .inr rfl, ?_⟩
      have unmapped := before.lift (Process.unmapBlock block) (fun _ => rfl)
        (fun _ _ ordered => ordered)
      exact unmapped.trans ⟨rfl, Nat.le_refl _⟩

theorem dropCube_spec {cube : Cube} {errsv : Nat} {w₀ w : World}
    (before : w₀.Quiet w) {stop : Stop → World → Prop} :
    Ensures (dropCube cube errsv)
      (fun _ w' => ∃ maps, (maps = w₀.maps ∨
          maps = w₀.maps.filter fun mapping => mapping.block ≠ cube.page) ∧
        (w₀.put { w₀.toProcess with
          maps := maps
          unlinked := cube.id :: w₀.unlinked }).Quiet w')
      stop w := by
  unfold dropCube
  apply (unmap_spec before).bind
  rintro _ w₁ ⟨maps, unmapped, quiet₁⟩
  apply (unlink_spec quiet₁).bind
  intro _ w₂ quiet₂
  apply (quiet_destroyMutex cube.ptr).bind quiet₂
  intro _ w₃ quiet₃
  apply (quiet_free cube.ptr).bind quiet₃
  intro _ w₄ quiet₄
  refine ((quiet_setErrno errsv).ensures quiet₄).mono ?_ fun _ _ => id
  exact fun _ w₅ quiet₅ => ⟨maps, unmapped, quiet₅⟩

/-- The cube that `inaccel_alloc` makes, the newest object, and its mapping. -/
structure World.Made (P : PageSize) (w : World) (size : Nat) (cube : Cube)
    (w' : World) : Prop where
  admits : Process.Admits P cube.page w.maps
  unused : w.nextPtr ≤ cube.ptr
  taken : cube.ptr < w'.nextPtr
  fields : cube =
    ⟨cube.ptr, 0, ⟨cube.page.addr, ceilPagesize P size⟩, w.pid, [], cube.id⟩
  effect : (w.put (w.mapBlock P cube.page w.self cube.id)).Quiet w'

theorem makeCube_spec {P : PageSize} {size : Nat} {w : World} :
    Ensures (makeCube P size)
      (fun result w' =>
        match result with
        | none => w.Quiet w'
        | some cube => w.Made P size cube w')
      (fun _ _ => False) w := by
  unfold makeCube
  apply (alloc_spec (.refl w)).bind
  rintro result w₁ ⟨quiet₁, -, -, fresh⟩
  cases result with
  | none => exact quiet₁
  | some ptr =>
      obtain ⟨unused, made⟩ := fresh ptr rfl
      -- from here on the new name is taken
      let named := w.put { w.toProcess with nextPtr := ptr + 1 }
      have naming : w.Quiet named := ⟨rfl, Nat.le_succ_of_le unused⟩
      have quiet₁ : named.Quiet w₁ := ⟨quiet₁.same, made⟩
      apply Ensures.step rfl
      rw [show w₁.pid = w.pid from quiet₁.pid]
      apply (quiet_initMutex ptr).bind quiet₁
      intro error w₂ quiet₂
      split
      · apply Ensures.step rfl
        apply (quiet_free ptr).bind quiet₂
        intro _ w₃ quiet₃
        apply (quiet_setErrno _).bind quiet₃
        exact fun _ w₄ quiet₄ => naming.trans quiet₄
      · apply quiet_linkOpen.bind quiet₂
        intro opened w₃ quiet₃
        cases opened with
        | none =>
            apply Ensures.step rfl
            apply (quiet_destroyMutex ptr).bind quiet₃
            intro _ w₄ quiet₄
            apply (quiet_free ptr).bind quiet₄
            intro _ w₅ quiet₅
            apply (quiet_setErrno _).bind quiet₅
            exact fun _ w₆ quiet₆ => naming.trans quiet₆
        | some id =>
            apply (map_spec quiet₃).bind
            intro mapped w₄ effect
            cases mapped with
            | none =>
                apply Ensures.step rfl
                apply (quiet_close id).bind effect
                intro _ w₅ quiet₅
                apply (quiet_destroyMutex ptr).bind quiet₅
                intro _ w₆ quiet₆
                apply (quiet_free ptr).bind quiet₆
                intro _ w₇ quiet₇
                apply (quiet_setErrno _).bind quiet₇
                exact fun _ w₈ quiet₈ => naming.trans quiet₈
            | some addr =>
                obtain ⟨admits, effect⟩ := effect
                apply (quiet_close id).bind effect
                intro _ w₅ quiet₅
                refine ⟨admits, unused, quiet₅.nextPtr, rfl, ?_⟩
                exact ⟨quiet₅.same,
                  Nat.le_trans (Nat.le_succ_of_le unused) quiet₅.nextPtr⟩

/-- A new mapping that may be gone again. -/
theorem World.Beside.of_mapped {P : PageSize} {w w' : World} {block : Block}
    {id name : String} {maps : List Mapping}
    (admits : Process.Admits P block w.maps)
    (unmapped : maps = ⟨block, w.self, id⟩ :: w.maps ∨
      maps = (⟨block, w.self, id⟩ :: w.maps).filter fun mapping =>
        mapping.block ≠ block)
    (quiet : (w.put { w.mapBlock P block w.self id with
      maps := maps
      unlinked := name :: w.unlinked }).Quiet w') : w.Beside P w' where
  same := congrArg World.unmapped quiet.same
  nextPtr := quiet.nextPtr
  unlinked := by
    rw [quiet.unlinked]
    exact List.subset_cons_self _ _
  maps := by
    rw [quiet.maps]
    obtain ⟨-, nonempty, -, -, apart⟩ := admits
    rcases unmapped with rfl | rfl
    · exact List.subset_cons_self _ _
    · intro mapping member
      refine List.mem_filter.mpr ⟨List.mem_cons_of_mem _ member, ?_⟩
      simpa using (apart mapping member).ne nonempty
  prot := by
    intro mapping member page inside
    rw [quiet.prot]
    exact if_neg ((admits.2.2.2.2 mapping member).not_hasPage inside)

theorem inaccelAlloc_spec {P : PageSize} {size : Nat} {w : World}
    (free : w.held = []) :
    Ensures (inaccelAlloc P size) (AllocOutcome P w size)
      (fun _ _ => False) w := by
  rw [inaccelAlloc_eq]
  split
  · exact .failed (World.Quiet.refl w).beside
  · rename_i requested
    apply makeCube_spec.bind
    intro result w₁ made
    cases result with
    | none => exact .failed (World.Quiet.beside made)
    | some cube =>
        obtain ⟨admits, unused, taken, fields, quiet₁⟩ := made
        have unheld : w₁.held = [] := quiet₁.held.trans free
        apply (registerCube_spec unheld).bind
        intro result w₂ effect
        cases result with
        | some errsv =>
            apply (dropCube_spec (quiet₁.trans effect)).bind
            rintro _ w₃ ⟨maps, unmapped, quiet₃⟩
            exact .failed (.of_mapped admits unmapped quiet₃)
        | none =>
            have added := quiet₁.lift
              (fun p => { p with cubes := p.cubes ++ [cube] })
              (fun _ => rfl) (fun _ _ ordered => ordered)
            have quiet₂ := added.trans effect
            have bound : cube.ptr + 1 ≤ w₂.nextPtr :=
              Nat.le_trans taken effect.nextPtr
            have quiet : (w.put (w.addCube P cube)).Quiet w₂ :=
              ⟨quiet₂.same, bound⟩
            rw [fields] at quiet admits
            exact .made requested admits unused quiet

/-- What `inaccel_free` does to the cube of the block.  Only the file of an
own cube is removed. -/
def Process.freeCube (cube : Cube) (p : Process) : Process :=
  let left : Process :=
    { p with
      cubes := p.cubes.filter fun other => other.ptr ≠ cube.ptr
      orphans := cube :: p.orphans }
  if cube.pid ≠ p.pid ∨ cube.nlinks = 0 then
    { left.release cube.ptr with
      unlinked := if cube.pid = p.pid then cube.id :: p.unlinked
        else p.unlinked }
  else left.modifyCube cube.ptr fun cube =>
    { cube with nlinks := cube.nlinks - 1 }

/-- How `inaccel_free` can end.  The unmapping may fail. -/
inductive FreeOutcome (w : World) (addr : Nat) : World → Prop where
  | missed {w' : World} (lost : addr = 0 ∨
        w.cubes.find? (fun cube => cube.page.addr == addr) = none)
      (quiet : w.Quiet w') : FreeOutcome w addr w'
  | freed {cube : Cube} {maps : List Mapping} {w' : World} (given : addr ≠ 0)
      (found : w.cubes.find? (fun cube => cube.page.addr == addr) = some cube)
      (unmapped : maps = w.maps ∨
        maps = w.maps.filter fun mapping => mapping.block ≠ cube.page)
      (effect : (w.put { w.freeCube cube with maps := maps }).Quiet w') :
      FreeOutcome w addr w'

theorem FreeOutcome.trans {w w' w'' : World} {addr : Nat}
    (outcome : FreeOutcome w addr w') (quiet : w'.Quiet w'') :
    FreeOutcome w addr w'' := by
  cases outcome with
  | missed lost before => exact .missed lost (before.trans quiet)
  | freed given found unmapped effect =>
      exact .freed given found unmapped (effect.trans quiet)

/-- The cube leaves the registry. -/
def Process.takeOut (cube : Cube) (p : Process) : Process :=
  { p with
    cubes := p.cubes.filter fun other => other.ptr ≠ cube.ptr
    orphans := cube :: p.orphans }

theorem takeCube_spec {addr : Nat} {w : World} (free : w.held = []) :
    Ensures (takeCube addr)
      (fun result w' =>
        result = w.cubes.find? (fun cube => cube.page.addr == addr) ∧
          match result with
          | none => w.Quiet w'
          | some cube =>
              ((w.put (w.takeOut cube)).holding [.cube cube.ptr]).Quiet w')
      (fun _ _ => False) w := by
  unfold takeCube
  apply ensures_scan free
  · intro lost
    apply ensures_unlock (p := w.toProcess) free (.refl _)
    exact fun _ quiet => ⟨lost.symm, quiet⟩
  · intro cube found
    refine Ensures.step rfl ?_
    apply ensures_handOver (w := w.put (w.takeOut cube))
    exact ⟨found.symm, .refl _⟩

/-- What `inaccel_free` does last, to a cube that it has taken out. -/
def Process.retire (cube : Cube) (p : Process) : Process :=
  if cube.pid ≠ p.pid ∨ cube.nlinks = 0 then
    { p.release cube.ptr with
      unlinked := if cube.pid = p.pid then cube.id :: p.unlinked
        else p.unlinked }
  else p.modifyCube cube.ptr fun cube => { cube with nlinks := cube.nlinks - 1 }

theorem retireCube_spec {cube : Cube} {p : Process} {w w' : World}
    (free : w.held = [])
    (before : ((w.put p).holding [.cube cube.ptr]).Quiet w') :
    Ensures (retireCube cube) (fun _ w'' => (w.put (p.retire cube)).Quiet w'')
      (fun _ _ => False) w' := by
  unfold retireCube
  refine Ensures.step rfl ?_
  rw [show w'.pid = p.pid from before.pid]
  split
  · rename_i foreign
    have same : p.retire cube = p.release cube.ptr := by
      have foreign : cube.pid ≠ p.pid := foreign
      simp only [Process.retire, foreign, not_false_eq_true, ne_eq, true_or,
        if_true, if_false]
      rfl
    rw [same]
    exact releaseCube_spec free before
  · rename_i own
    have own : cube.pid = p.pid := not_not.mp own
    split
    · rename_i last
      have same : p.retire cube =
          (p.unlinkFile cube.id).release cube.ptr := by
        simp only [Process.retire, last, or_true, if_true, own]
        rfl
      rw [same]
      apply (unlink_spec (w := w.holding [.cube cube.ptr]) before).bind
      exact fun _ w₁ quiet₁ => releaseCube_spec free quiet₁
    · rename_i linked
      have same : p.retire cube = p.modifyCube cube.ptr fun cube =>
          { cube with nlinks := cube.nlinks - 1 } := by
        simp only [Process.retire, own, linked, ne_eq, not_true_eq_false,
          or_self, if_false]
      rw [same]
      have lowered := before.lift (Process.modifyCube cube.ptr fun cube =>
        { cube with nlinks := cube.nlinks - 1 }) (fun _ => rfl)
        (fun _ _ => id)
      apply Ensures.step rfl
      exact ensures_last_unlock free lowered fun _ quiet => quiet

theorem Process.retire_takeOut {cube : Cube} {maps : List Mapping}
    {p : Process} :
    ({ p.takeOut cube with maps := maps } : Process).retire cube =
      { p.freeCube cube with maps := maps } := by
  unfold Process.retire Process.freeCube Process.takeOut
  by_cases gone : cube.pid ≠ p.pid ∨ cube.nlinks = 0
  · simp only [gone, if_true]
    rfl
  · simp only [gone, if_false]
    rfl

theorem inaccelFree_spec {addr : Nat} {w : World} (free : w.held = []) :
    Ensures (inaccelFree addr) (fun _ w' => FreeOutcome w addr w')
      (fun _ _ => False) w := by
  rw [inaccelFree_eq]
  split
  · rename_i null
    exact .missed (.inl null) (.refl w)
  · rename_i given
    apply (takeCube_spec free).bind
    rintro result w₁ ⟨found, effect⟩
    cases result with
    | none => exact .missed (.inr found.symm) effect
    | some cube =>
        apply (unmap_spec effect).bind
        rintro _ w₂ ⟨maps, unmapped, quiet₂⟩
        have taken : ((w.put { w.takeOut cube with maps := maps }).holding
            [.cube cube.ptr]).Quiet w₂ := quiet₂
        refine (retireCube_spec free taken).mono ?_ fun _ _ => id
        intro _ w₃ quiet₃
        rw [Process.retire_takeOut] at quiet₃
        exact .freed given found.symm unmapped quiet₃

/-- A cube keeps its slices and moves to a new block. -/
def Process.moveCube (P : PageSize) (cube : Cube) (page : Block) (prot : Prot)
    (p : Process) : Process :=
  (p.remapBlock P cube.page page prot).modifyCube cube.ptr fun cube =>
    { cube with page := page }

/-- The block and the protection that `mremap` gives to an old block. -/
def Process.remaps (P : PageSize) (old : Block) (newSize : Nat)
    (os : Nat → Reply) (p : Process) : Option (Block × Prot) :=
  match os 0, os 1, p.uniformProt P old with
  | .done _ _, .done addr _, some prot =>
      if newSize < 2 ^ 63 ∧ Process.Admits P ⟨addr, newSize⟩
          (p.maps.filter fun mapping => mapping.block ≠ old) then
        some (⟨addr, newSize⟩, prot)
      else none
  | _, _, _ => none

/-- The cube that `inaccel_realloc` moves, with its new block and the
protection of that block. -/
def Process.growth (P : PageSize) (addr newSize : Nat) (os : Nat → Reply)
    (p : Process) : Option (Cube × Block × Prot) :=
  if addr = 0 then none
  else
    match p.cubes.find? (fun cube => cube.page.addr == addr) with
    | none => none
    | some cube =>
        if cube.pid = p.pid ∧ cube.page.size < newSize ∧
            (os 0).isDone = true ∧ p.hasFile p.self cube.id = true then
          (p.remaps P cube.page (ceilPagesize P newSize)
            fun index => os (index + 1)).map fun moved => (cube, moved)
        else none

/-- How `inaccel_realloc` can end. -/
inductive ReallocOutcome (P : PageSize) (w : World) (addr newSize : Nat) :
    Option Nat → World → Prop where
  | alloc {result : Option Nat} {w' : World} (null : addr = 0)
      (stays : w.growth P addr newSize w.os = none)
      (outcome : AllocOutcome P w newSize result w') :
      ReallocOutcome P w addr newSize result w'
  | free {w' : World} (emptied : newSize = 0)
      (stays : w.growth P addr newSize w.os = none)
      (outcome : FreeOutcome w addr w') :
      ReallocOutcome P w addr newSize none w'
  | kept {result : Option Nat} {w' : World}
      (stays : w.growth P addr newSize w.os = none) (quiet : w.Quiet w') :
      ReallocOutcome P w addr newSize result w'
  | moved {cube : Cube} {page : Block} {prot : Prot} {w' : World}
      (grows : w.growth P addr newSize w.os = some (cube, page, prot))
      (effect : (w.put (w.moveCube P cube page prot)).Quiet w') :
      ReallocOutcome P w addr newSize (some page.addr) w'

theorem reopen_spec {id : String} {w : World} {stop : Stop → World → Prop} :
    Ensures (Self.reopen id)
      (fun opened w' => w.Quiet w' ∧
        w'.os = (fun index => w.os (index + 1)) ∧
        (opened = true ↔ (w.os 0).isDone = true ∧
          w.hasFile w.self id = true))
      stop w := by
  unfold Self.reopen
  apply Ensures.step rfl
  cases w.os 0 with
  | done value name =>
      apply Ensures.step rfl
      simp only [World.asked_toProcess, Reply.isDone, true_and]
      by_cases known : w.hasFile w.self id = true
      · simp only [known, if_true]
        exact ⟨⟨rfl, Nat.le_refl _⟩, rfl, by simp⟩
      · simp only [known]
        exact ⟨⟨rfl, Nat.le_refl _⟩, rfl, by simp⟩
  | failed error => exact ⟨⟨rfl, Nat.le_refl _⟩, rfl, by simp [Reply.isDone]⟩

theorem ftruncate_spec {id : String} {length : Nat} {w₀ w : World}
    (before : w₀.Quiet w) {stop : Stop → World → Prop} :
    Ensures (Utils.ftruncate id length)
      (fun result w' => w₀.Quiet w' ∧
        w'.os = (fun index => w.os (index + 1)) ∧
        (result = 0 ↔ (w.os 0).isDone = true ∧ length < 2 ^ 63))
      stop w := by
  unfold Utils.ftruncate
  apply Ensures.step rfl
  cases w.os 0 with
  | done value name =>
      simp only [Reply.isDone, true_and]
      by_cases fits : length < 2 ^ 63
      · simp only [fits, if_true]
        exact ⟨before.trans ⟨rfl, Nat.le_refl _⟩, rfl, by simp⟩
      · simp only [fits, if_false]
        exact ⟨before.trans ⟨rfl, Nat.le_refl _⟩, rfl, by simp⟩
  | failed error =>
      exact ⟨before.trans ⟨rfl, Nat.le_refl _⟩, rfl, by simp [Reply.isDone]⟩

theorem remap_spec {P : PageSize} {old : Block} {newSize : Nat} {id : String}
    {w₀ w : World} (before : w₀.Quiet w) {stop : Stop → World → Prop} :
    Ensures (Utils.remap P old.addr old.size newSize id)
      (fun result w' =>
        match w₀.remaps P old newSize w.os with
        | none => result = none ∧ w₀.Quiet w'
        | some (page, prot) => result = some page.addr ∧
            page = ⟨page.addr, newSize⟩ ∧
            (w₀.put (w₀.remapBlock P old page prot)).Quiet w')
      stop w := by
  obtain ⟨oldAddr, oldSize⟩ := old
  unfold Utils.remap
  apply (ftruncate_spec before).bind
  rintro result w₁ ⟨quiet, os, truncates⟩
  by_cases truncated : result = 0
  · obtain ⟨done, fits⟩ := truncates.mp truncated
    simp only [truncated, if_true]
    apply Ensures.step rfl
    simp only [os, Process.remaps]
    cases first : w.os 0 with
    | failed error =>
        rw [first] at done
        cases done
    | done value name =>
        cases w.os 1 with
        | failed error => exact ⟨rfl, quiet.trans ⟨rfl, Nat.le_refl _⟩⟩
        | done addr name =>
            apply Ensures.step rfl
            have same : w₁.asked.uniformProt P ⟨oldAddr, oldSize⟩ =
                w₀.uniformProt P ⟨oldAddr, oldSize⟩ := by
              simp only [Process.uniformProt, World.asked_toProcess, quiet.prot]
            have maps : w₁.asked.maps = w₀.maps := quiet.maps
            simp only [same, maps]
            cases w₀.uniformProt P ⟨oldAddr, oldSize⟩ with
            | none => exact ⟨rfl, quiet.trans ⟨rfl, Nat.le_refl _⟩⟩
            | some prot =>
                by_cases admits : Process.Admits P ⟨addr, newSize⟩
                    (w₀.maps.filter fun mapping =>
                      mapping.block ≠ ⟨oldAddr, oldSize⟩)
                · simp only [fits, true_and, if_pos admits]
                  refine ⟨rfl, ?_⟩
                  have moved := quiet.lift
                    (Process.remapBlock P ⟨oldAddr, oldSize⟩ ⟨addr, newSize⟩ prot)
                    (fun _ => rfl) (fun _ _ ordered => ordered)
                  exact moved.trans ⟨rfl, Nat.le_refl _⟩
                · simp only [fits, true_and, if_neg admits]
                  exact ⟨rfl, quiet.trans ⟨rfl, Nat.le_refl _⟩⟩
  · simp only [truncated, if_false]
    have stays : w₀.remaps P ⟨oldAddr, oldSize⟩ newSize w.os = none := by
      simp only [Process.remaps]
      split
      · rename_i done _ _
        rw [done] at truncates
        have fails : ¬newSize < 2 ^ 63 := fun fits =>
          truncated (truncates.mpr ⟨rfl, fits⟩)
        simp only [fails, false_and, if_false]
      · rfl
    simp only [stays]
    exact ⟨rfl, quiet⟩

theorem findCube_spec {addr : Nat} {w : World} (free : w.held = []) :
    Ensures (findCube addr)
      (fun result w' =>
        result = w.cubes.find? (fun cube => cube.page.addr == addr) ∧
          match result with
          | none => w' = w
          | some cube => w' = w.holding [.cube cube.ptr])
      (fun _ _ => False) w := by
  unfold findCube
  apply ensures_scan free
  · intro lost
    apply Ensures.step (unlock_run (by simp))
    exact ⟨lost.symm, by simp [World.holding_same free]⟩
  · intro cube found
    apply ensures_handOver
    exact ⟨found.symm, rfl⟩

/-- What `inaccel_realloc` returns for a cube that it does not move. -/
def Process.unmoved (cube : Cube) (newSize : Nat) (p : Process) : Option Nat :=
  if cube.pid = p.pid ∧ newSize ≤ cube.page.size then some cube.page.addr
  else none

/-- The block and the protection that `inaccel_realloc` gives to a cube that
it has found. -/
def Process.stretch (P : PageSize) (cube : Cube) (newSize : Nat)
    (os : Nat → Reply) (p : Process) : Option (Block × Prot) :=
  if cube.pid = p.pid ∧ cube.page.size < newSize ∧
      (os 0).isDone = true ∧ p.hasFile p.self cube.id = true then
    p.remaps P cube.page (ceilPagesize P newSize) fun index => os (index + 1)
  else none

theorem stretchCube_spec {P : PageSize} {cube : Cube} {newSize : Nat}
    {w : World} (free : w.held = []) :
    Ensures (stretchCube P cube newSize)
      (fun result w' =>
        match w.stretch P cube newSize w.os with
        | none => result = .error (w.unmoved cube newSize) ∧ w.Quiet w'
        | some (page, prot) => result = .ok page.addr ∧
            page = ⟨page.addr, ceilPagesize P newSize⟩ ∧
            ((w.put (w.remapBlock P cube.page page prot)).holding
              [.cube cube.ptr]).Quiet w')
      (fun _ _ => False) (w.holding [.cube cube.ptr]) := by
  unfold stretchCube
  apply Ensures.step rfl
  split
  · rename_i foreign
    have foreign : cube.pid ≠ w.pid := foreign
    simp only [Process.stretch, Process.unmoved, foreign, false_and, if_false]
    exact ensures_fail free (.refl _) fun _ quiet => ⟨rfl, quiet⟩
  · rename_i own
    have own : cube.pid = w.pid := not_not.mp own
    split
    · rename_i shorter
      have stays : ¬cube.page.size < newSize := Nat.not_lt.mpr shorter
      simp only [Process.stretch, stays, false_and, and_false, if_false]
      rw [Process.unmoved, if_pos ⟨own, shorter⟩]
      exact ensures_unlock (p := w.toProcess) free (.refl _)
        fun _ quiet => ⟨rfl, quiet⟩
    · rename_i longer
      have longer : cube.page.size < newSize := not_le.mp longer
      have refused : w.unmoved cube newSize = none :=
        if_neg fun both => Nat.not_lt.mpr both.2 longer
      rw [refused]
      apply reopen_spec.bind
      rintro opened w₁ ⟨quiet₁, os₁, opens⟩
      simp only [World.holding_os, World.holding_toProcess] at os₁ opens
      cases opened with
      | false =>
          have fails : ¬((w.os 0).isDone = true ∧
              w.hasFile w.self cube.id = true) := fun reopened => by
            simpa using opens.mpr reopened
          simp only [Process.stretch, fails, and_false, if_false]
          apply Ensures.step rfl
          exact ensures_fail free quiet₁ fun _ quiet => ⟨rfl, quiet⟩
      | true =>
          have stretches : w.stretch P cube newSize w.os =
              w.remaps P cube.page (ceilPagesize P newSize)
                fun index => w.os (index + 1) :=
            if_pos ⟨own, longer, opens.mp rfl⟩
          rw [stretches]
          apply (remap_spec quiet₁).bind
          intro result w₂ effect
          rw [os₁] at effect
          simp only [World.holding_toProcess] at effect
          cases remapped : w.remaps P cube.page (ceilPagesize P newSize)
              (fun index => w.os (index + 1)) with
          | none =>
              simp only [remapped] at effect
              obtain ⟨rfl, quiet₂⟩ := effect
              apply Ensures.step rfl
              apply (quiet_close cube.id).bind quiet₂
              exact fun _ w₃ quiet₃ =>
                ensures_fail free quiet₃ fun _ quiet => ⟨rfl, quiet⟩
          | some moved =>
              obtain ⟨page, prot⟩ := moved
              simp only [remapped] at effect
              obtain ⟨rfl, whole, effect⟩ := effect
              exact ⟨rfl, whole, effect⟩

theorem settleCube_spec {P : PageSize} {cube : Cube} {newSize newAddr : Nat}
    {p : Process} {w w' : World} (free : w.held = [])
    (before : ((w.put p).holding [.cube cube.ptr]).Quiet w') :
    Ensures (settleCube P cube newSize newAddr)
      (fun result w'' => result = some newAddr ∧
        (w.put (p.modifyCube cube.ptr fun cube =>
          { cube with page := ⟨newAddr, ceilPagesize P newSize⟩ })).Quiet w'')
      (fun _ _ => False) w' := by
  unfold settleCube
  apply (quiet_close cube.id).bind before
  intro _ w₁ quiet₁
  have moved := quiet₁.lift
    (Process.modifyCube cube.ptr fun cube =>
      { cube with page := ⟨newAddr, ceilPagesize P newSize⟩ })
    (fun _ => rfl) (fun _ _ => id)
  apply Ensures.step rfl
  exact ensures_unlock free moved fun _ quiet => ⟨rfl, quiet⟩

theorem Process.growth_eq {P : PageSize} {addr newSize : Nat}
    {os : Nat → Reply} {p : Process} (nonnull : addr ≠ 0) :
    p.growth P addr newSize os =
      (p.cubes.find? fun cube => cube.page.addr == addr).bind fun cube =>
        (p.stretch P cube newSize os).map fun moved => (cube, moved) := by
  rw [Process.growth, if_neg nonnull]
  cases p.cubes.find? fun cube => cube.page.addr == addr with
  | none => rfl
  | some cube =>
      simp only [Process.stretch, Option.bind_some]
      split
      · rfl
      · rfl

theorem inaccelRealloc_spec {P : PageSize} {addr newSize : Nat} {w : World}
    (free : w.held = []) :
    Ensures (inaccelRealloc P addr newSize) (ReallocOutcome P w addr newSize)
      (fun _ _ => False) w := by
  rw [inaccelRealloc_eq]
  split
  · rename_i null
    have stays : w.growth P addr newSize w.os = none := by
      simp [Process.growth, null]
    exact (inaccelAlloc_spec free).mono (fun _ _ => .alloc null stays)
      (fun _ _ => id)
  · rename_i nonnull
    have growth := @Process.growth_eq P addr newSize w.os w.toProcess nonnull
    split
    · rename_i emptied
      have stays : w.growth P addr newSize w.os = none := by
        rw [growth, emptied]
        simp [Process.stretch]
      apply (inaccelFree_spec free).bind
      intro _ w₁ outcome
      exact .free emptied stays (outcome.trans ⟨rfl, Nat.le_refl _⟩)
    · apply (findCube_spec free).bind
      rintro result w₁ ⟨found, same⟩
      rw [← found] at growth
      cases result with
      | none =>
          subst same
          exact (quiet_setErrno _).bind (.refl w₁) fun _ _ quiet =>
            .kept growth quiet
      | some cube =>
          subst same
          apply (stretchCube_spec free).bind
          intro result w₂ effect
          cases stretched : w.stretch P cube newSize w.os with
          | none =>
              rw [stretched] at effect
              obtain ⟨rfl, quiet⟩ := effect
              have stays : w.growth P addr newSize w.os = none := by
                simp [growth, stretched]
              exact .kept stays quiet
          | some moved =>
              obtain ⟨page, prot⟩ := moved
              rw [stretched] at effect
              obtain ⟨rfl, whole, quiet⟩ := effect
              have grows : w.growth P addr newSize w.os =
                  some (cube, page, prot) := by
                simp [growth, stretched]
              refine (settleCube_spec free quiet).mono ?_ fun _ _ => id
              rintro _ w₃ ⟨rfl, moved⟩
              rw [← whole] at moved
              exact .moved grows moved

end CoralApi
