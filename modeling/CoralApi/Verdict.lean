import CoralApi.Lookup

/-!
# What the fault handler decides

The three scans of `__access` over the slices of a cube of the process.  A
slice takes part where its page range has the address.  Then the links and the
bytes of such slices decide, in whatever order the slices stand, and the third
scan opens each of them once.
-/

namespace CoralApi

open Program

section Scans

variable {base addr : Nat} {slice : Slice} {cube : Cube}

/-- The page range of the slice has the address. -/
def Slice.InPages (base addr : Nat) (slice : Slice) : Prop :=
  base + slice.page.offset ≤ addr ∧
    addr < base + slice.page.offset + slice.page.size

/-- The bytes of the slice have the address. -/
def Slice.InBytes (base addr : Nat) (slice : Slice) : Prop :=
  base + slice.offset ≤ addr ∧ addr < base + slice.offset + slice.size

instance : Decidable (slice.InPages base addr) :=
  inferInstanceAs (Decidable (_ ∧ _))

instance : Decidable (slice.InBytes base addr) :=
  inferInstanceAs (Decidable (_ ∧ _))

/-- The page range and the bytes of the slice lie in a block of this size. -/
def Slice.Inside (size : Nat) (slice : Slice) : Prop :=
  slice.page.offset + slice.page.size ≤ size ∧
    slice.offset + slice.size ≤ size

/-- An attached slice has the address in its pages. -/
def Cube.Busy (addr : Nat) (cube : Cube) : Prop :=
  ∃ slice ∈ cube.slices, slice.nlinks ≠ 0 ∧
    slice.InPages cube.page.addr addr

/-- An attached slice has the address in its pages and in its bytes. -/
def Cube.Refuses (addr : Nat) (cube : Cube) : Prop :=
  ∃ slice ∈ cube.slices, slice.nlinks ≠ 0 ∧
    slice.InPages cube.page.addr addr ∧ slice.InBytes cube.page.addr addr

theorem Cube.Refuses.busy (refuses : cube.Refuses addr) : cube.Busy addr := by
  obtain ⟨slice, inside, attached, pages, -⟩ := refuses
  exact ⟨slice, inside, attached, pages⟩

/-- Inside of a block, no sum wraps. -/
theorem Slice.overPage_iff {size : Nat} (inside : slice.Inside size)
    (fits : base + size < wordSize) :
    slice.overPage base addr = true ↔ slice.InPages base addr := by
  have pages := inside.1
  unfold overPage InPages
  rw [wadd_eq (by omega), wadd_eq (by omega)]
  simp only [Bool.and_eq_true, decide_eq_true_eq]

theorem Slice.overBytes_iff {size : Nat} (inside : slice.Inside size)
    (fits : base + size < wordSize) :
    slice.overBytes base addr = true ↔ slice.InBytes base addr := by
  have bytes := inside.2
  unfold overBytes InBytes
  rw [wadd_eq (by omega), wadd_eq (by omega)]
  simp only [Bool.and_eq_true, decide_eq_true_eq]

end Scans

/-- The fault handler finds this cube of the process. -/
structure Process.Faults (addr : Nat) (cube : Cube) (p : Process) : Prop where
  named : p.Named
  first : p.cubes.find? (·.contains addr) = some cube
  own : cube.pid = p.pid
  fits : cube.page.addr + cube.page.size < wordSize
  inside : ∀ slice ∈ cube.slices, slice.Inside cube.page.size

/-- A slice with its next version, where its pages have the address. -/
def Slice.openAt (base addr : Nat) (slice : Slice) : Slice :=
  if slice.InPages base addr then { slice with version := slice.version + 1 }
  else slice

def Cube.openAt (addr : Nat) (cube : Cube) : Cube :=
  { cube with slices := cube.slices.map (·.openAt cube.page.addr addr) }

def Process.setProt (prot : Nat → Prot) (p : Process) : Process :=
  { p with prot := prot }

/-- The slices of the cube whose pages have the address are open. -/
def Process.openAt (P : PageSize) (addr : Nat) (cube : Cube) (p : Process) :
    Process :=
  (p.modifyCube cube.ptr (Cube.openAt addr)).setProt fun page =>
    if ∃ slice ∈ cube.slices, slice.InPages cube.page.addr addr ∧
        slice.InPages cube.page.addr (page * P.bytes) then .readWrite
    else p.prot page

section Openings

variable {P : PageSize} {p : Process} {cube : Cube} {addr : Nat} {w : World}

/-- The third scan, when no `mprotect` fails. -/
theorem unprotectSlices_run {slices : List Slice}
    (answered : ∀ index, (w.os index).isDone = true) :
    Ensures (unprotectSlices P cube addr slices)
      (fun result w' => result = none ∧ w'.held = w.held ∧
        w'.toProcess = w.openSlices P cube
          (slices.filter (·.overPage cube.page.addr addr)))
      (fun _ _ => False) w := by
  induction slices generalizing w with
  | nil => exact ⟨rfl, rfl, rfl⟩
  | cons slice slices induction =>
      unfold unprotectSlices
      cases spans : slice.overPage cube.page.addr addr with
      | false => simpa [spans] using induction answered
      | true =>
          simp only [if_true, List.filter_cons, spans]
          cases reply : w.os 0 with
          | failed error => simpa [reply, Reply.isDone] using answered 0
          | done value name =>
              have opens : Utils.unprotect P
                  (wadd cube.page.addr slice.page.offset) slice.page.size w =
                    .ok 0 (w.asked.put (w.protectPages P
                      (wadd cube.page.addr slice.page.offset) slice.page.size
                      .readWrite)) := by
                rw [Utils.unprotect, mprotect_run, reply]
              apply Ensures.step opens
              apply Ensures.step rfl
              exact induction fun index => answered (index + 1)

/-- The versions after these slices have been opened. -/
def Cube.raise (opened : List Slice) (cube : Cube) : Cube :=
  { cube with
    slices := cube.slices.map fun slice =>
      { slice with
        version := slice.version + (opened.map Slice.ptr).count slice.ptr } }

theorem Cube.raise_nil (cube : Cube) : cube.raise [] = cube := by
  have same : cube.slices.map (fun slice : Slice =>
      { slice with version := slice.version + 0 }) = cube.slices :=
    List.map_id _
  exact congrArg (fun slices => { cube with slices := slices }) same

theorem Cube.raise_cons (first : Slice) (opened : List Slice) (cube : Cube) :
    (cube.modifySlice first.ptr fun slice =>
      { slice with version := slice.version + 1 }).raise opened =
        cube.raise (first :: opened) := by
  have same : (cube.slices.map fun slice => if slice.ptr = first.ptr then
        { slice with version := slice.version + 1 } else slice).map
      (fun slice => { slice with
        version := slice.version + (opened.map Slice.ptr).count slice.ptr }) =
      cube.slices.map fun slice => { slice with
        version := slice.version +
          ((first :: opened).map Slice.ptr).count slice.ptr } := by
    rw [List.map_map]
    apply List.map_congr_left
    intro slice _
    simp only [Function.comp_apply, List.map_cons]
    split
    · rename_i here
      rw [← here, List.count_cons_self]
      simp only [Nat.add_assoc, Nat.add_comm 1]
    · rename_i other
      rw [List.count_cons_of_ne (Ne.symm other)]
  exact congrArg (fun slices => { cube with slices := slices }) same

theorem modifyCube_modifyCube {ptr : Nat} {first second : Cube → Cube}
    (keeps : ∀ cube, (first cube).ptr = cube.ptr) :
    (p.modifyCube ptr first).modifyCube ptr second =
      p.modifyCube ptr (second ∘ first) := by
  have both : ∀ cubes : List Cube,
      (cubes.map fun cube => if cube.ptr = ptr then first cube else cube).map
        (fun cube => if cube.ptr = ptr then second cube else cube) =
      cubes.map fun cube =>
        if cube.ptr = ptr then (second ∘ first) cube else cube := by
    intro cubes
    rw [List.map_map]
    apply List.map_congr_left
    intro cube _
    simp only [Function.comp_apply]
    by_cases here : cube.ptr = ptr
    · rw [if_pos here, if_pos ((keeps cube).trans here), if_pos here]
    · rw [if_neg here, if_neg here, if_neg here]
  unfold Process.modifyCube
  rw [both, both]

/-- The slices that are opened get their pages and their versions. -/
theorem openSlices_eq (opened : List Slice) :
    p.openSlices P cube opened =
      (p.modifyCube cube.ptr (Cube.raise opened)).setProt fun page =>
        if ∃ slice ∈ opened,
            wadd cube.page.addr slice.page.offset ≤ page * P.bytes ∧
              page * P.bytes < wadd cube.page.addr slice.page.offset +
                slice.page.size then .readWrite
        else p.prot page := by
  induction opened generalizing p with
  | nil =>
      have same : p.modifyCube cube.ptr (Cube.raise []) = p := by
        have all : ∀ cubes : List Cube, (cubes.map fun other =>
            if other.ptr = cube.ptr then other.raise [] else other) =
              cubes := by
          intro cubes
          simp only [Cube.raise_nil, ite_self, List.map_id']
        unfold Process.modifyCube
        rw [all, all]
      rw [same]
      simp [Process.openSlices, Process.setProt]
  | cons slice opened induction =>
      let q := p.protectPages P (wadd cube.page.addr slice.page.offset)
        slice.page.size .readWrite
      let lift : Slice → Slice := fun slice =>
        { slice with version := slice.version + 1 }
      have next : p.openSlices P cube (slice :: opened) =
          (q.modifyCube cube.ptr (Cube.modifySlice slice.ptr
            lift)).openSlices P cube opened := rfl
      have raised : (q.modifyCube cube.ptr (Cube.modifySlice slice.ptr
          lift)).modifyCube cube.ptr (Cube.raise opened) =
            q.modifyCube cube.ptr (Cube.raise (slice :: opened)) := by
        rw [@modifyCube_modifyCube q cube.ptr
          (Cube.modifySlice slice.ptr lift) _ fun _ => rfl]
        congr 1
        funext other
        exact Cube.raise_cons slice opened other
      rw [next, induction, raised]
      refine congrArg (Process.setProt · (p.modifyCube cube.ptr
        (Cube.raise (slice :: opened)))) ?_
      funext page
      by_cases here : wadd cube.page.addr slice.page.offset ≤
          page * P.bytes ∧ page * P.bytes <
            wadd cube.page.addr slice.page.offset + slice.page.size
      · have opens : q.prot page = .readWrite := if_pos here
        have shown : (q.modifyCube cube.ptr (Cube.modifySlice slice.ptr
          lift)).prot page = .readWrite := opens
        rw [shown, ite_self]
        exact (if_pos ⟨slice, List.mem_cons_self, here⟩).symm
      · have stays : (q.modifyCube cube.ptr (Cube.modifySlice slice.ptr
          lift)).prot page = p.prot page := if_neg here
        rw [stays]
        simp only [List.exists_mem_cons_iff, here, false_or]

theorem modifyCube_congr {ptr : Nat} {first second : Cube → Cube}
    (same : ∀ cube ∈ p.live, cube.ptr = ptr → first cube = second cube) :
    p.modifyCube ptr first = p.modifyCube ptr second := by
  have both : ∀ cubes : List Cube, (∀ cube ∈ cubes, cube ∈ p.live) →
      (cubes.map fun cube => if cube.ptr = ptr then first cube else cube) =
        cubes.map fun cube =>
          if cube.ptr = ptr then second cube else cube := by
    intro cubes live
    apply List.map_congr_left
    intro cube inside
    split
    · rename_i here
      exact same cube (live cube inside) here
    · rfl
  unfold Process.modifyCube
  rw [both p.cubes fun _ => List.mem_append_left _,
    both p.orphans fun _ => List.mem_append_right _]

/-- A slice is opened once. -/
theorem Cube.raise_filter {spans : Slice → Bool} {slice : Slice}
    (distinct : (cube.slices.map Slice.ptr).Nodup)
    (inside : slice ∈ cube.slices) :
    ((cube.slices.filter spans).map Slice.ptr).count slice.ptr =
      if spans slice then 1 else 0 := by
  have nodup : ((cube.slices.filter spans).map Slice.ptr).Nodup :=
    distinct.sublist (List.filter_sublist.map Slice.ptr)
  by_cases opens : spans slice = true
  · rw [if_pos opens]
    apply List.count_eq_one_of_mem nodup
    exact List.mem_map_of_mem (List.mem_filter.mpr ⟨inside, opens⟩)
  · rw [if_neg opens]
    apply List.count_eq_zero.mpr
    intro opened
    obtain ⟨other, member, same⟩ := List.mem_map.mp opened
    obtain ⟨also, over'⟩ := List.mem_filter.mp member
    cases List.inj_on_of_nodup_map distinct also inside same
    exact opens over'

/-- The third scan opens what it should, and nothing else. -/
theorem Process.Faults.openSlices (faults : p.Faults addr cube) :
    p.openSlices P cube (cube.slices.filter (·.overPage cube.page.addr addr)) =
      p.openAt P addr cube := by
  have spans : ∀ slice ∈ cube.slices,
      (slice.overPage cube.page.addr addr = true ↔
        slice.InPages cube.page.addr addr) :=
    fun slice inside => Slice.overPage_iff (faults.inside slice inside)
      faults.fits
  have registered : cube ∈ p.live :=
    List.mem_append_left _ (List.mem_of_find?_eq_some faults.first)
  have distinct := faults.named.slices_distinct registered
  have versions : p.modifyCube cube.ptr (Cube.raise (cube.slices.filter
      (·.overPage cube.page.addr addr))) =
        p.modifyCube cube.ptr (Cube.openAt addr) := by
    apply modifyCube_congr
    intro other also same
    cases faults.named.same_cube also registered same
    refine congrArg (fun slices => { cube with slices := slices })
      (List.map_congr_left fun slice inside => ?_)
    rw [Cube.raise_filter distinct inside, Slice.openAt]
    simp only [spans slice inside]
    split
    · rfl
    · rfl
  rw [openSlices_eq, versions, Process.openAt]
  congr 1
  funext page
  have pages : ∀ slice ∈ cube.slices,
      wadd cube.page.addr slice.page.offset =
        cube.page.addr + slice.page.offset := by
    intro slice inside
    have fits := faults.fits
    have below := (faults.inside slice inside).1
    exact wadd_eq (by omega)
  refine if_congr ?_ rfl rfl
  constructor
  · rintro ⟨slice, opened, here⟩
    obtain ⟨inside, opens⟩ := List.mem_filter.mp opened
    rw [pages slice inside] at here
    exact ⟨slice, inside, (spans slice inside).mp opens, here⟩
  · rintro ⟨slice, inside, opens, here⟩
    refine ⟨slice, List.mem_filter.mpr ⟨inside,
      (spans slice inside).mpr opens⟩, ?_⟩
    rw [pages slice inside]
    exact here

/-- An attached slice that the first scan passes blocks in the second one. -/
theorem Slice.blocks_iff {base size : Nat} {slice : Slice}
    (inside : slice.Inside size) (fits : base + size < wordSize) :
    slice.blocks base addr = true ↔ slice.nlinks ≠ 0 ∧
      slice.InPages base addr ∧ ¬slice.InBytes base addr := by
  unfold blocks
  rw [Slice.offBytes_eq]
  simp only [Bool.and_eq_true, Slice.overPage_iff inside fits, bne_iff_ne,
    Bool.not_eq_true', ← Bool.not_eq_true, Slice.overBytes_iff inside fits]
  tauto

theorem Slice.refuses_iff {base size : Nat} {slice : Slice}
    (inside : slice.Inside size) (fits : base + size < wordSize) :
    slice.refuses base addr = true ↔ slice.nlinks ≠ 0 ∧
      slice.InPages base addr ∧ slice.InBytes base addr := by
  unfold refuses
  simp only [Bool.and_eq_true, Slice.overPage_iff inside fits, bne_iff_ne,
    Slice.overBytes_iff inside fits]
  tauto

/-- How `__access` ends for an address in a cube of the process. -/
theorem access_exact (faults : p.Faults addr cube) (errno : Nat)
    {os : Nat → Reply} (answered : ∀ index, (os index).isDone = true) :
    Ensures (access P addr)
      (fun result w' => w'.held = [] ∧
        (cube.Refuses addr ∧ result = -1 ∧ w'.errno = EPERM ∧
            w'.toProcess = p ∨
          ¬cube.Busy addr ∧ result = 0 ∧ w'.toProcess = p.openAt P addr cube))
      (fun reason w' => w'.held = [] ∧ w'.toProcess = p ∧
        ¬cube.Refuses addr ∧ ∃ slice ∈ cube.slices, slice.nlinks ≠ 0 ∧
          slice.InPages cube.page.addr addr ∧ reason = .asleep slice.ptr)
      (p.enter errno os) := by
  have refuses_iff : cube.slices.any (·.refuses cube.page.addr addr) = true ↔
      cube.Refuses addr := by
    rw [List.any_eq_true]
    refine exists_congr fun slice => and_congr_right fun inside => ?_
    exact Slice.refuses_iff (faults.inside slice inside) faults.fits
  unfold access
  apply ensures_found rfl faults.first
  apply ensures_handOver
  apply Ensures.step rfl
  refine (if_neg (not_not.mpr faults.own)).symm ▸ ?_
  split
  · rename_i refused
    refine Ensures.step (unlock_run List.mem_cons_self) ?_
    exact ⟨List.erase_cons_head _ _,
      .inl ⟨refuses_iff.mp refused, rfl, rfl, rfl⟩⟩
  · rename_i passed
    have unrefused : ¬cube.Refuses addr := mt refuses_iff.mpr passed
    cases blocker : cube.slices.find? (·.blocks cube.page.addr addr) with
    | some slice =>
        have inside := List.mem_of_find?_eq_some blocker
        obtain ⟨attached, pages, -⟩ :=
          (Slice.blocks_iff (faults.inside slice inside) faults.fits).mp
            (List.find?_some blocker)
        refine Ensures.step (unlock_run List.mem_cons_self) ?_
        exact ⟨List.erase_cons_head _ _, rfl, unrefused, slice, inside,
          attached, pages, rfl⟩
    | none =>
        have idle : ¬cube.Busy addr := by
          rintro ⟨slice, inside, attached, pages⟩
          have missed := List.find?_eq_none.mp blocker slice inside
          refine missed ((Slice.blocks_iff (faults.inside slice inside)
            faults.fits).mpr ⟨attached, pages, fun bytes => ?_⟩)
          exact unrefused ⟨slice, inside, attached, pages, bytes⟩
        have scanned := @unprotectSlices_run P cube addr
          ((p.enter errno os).holding [.cube cube.ptr]) cube.slices answered
        refine ensures_bind.mpr (scanned.mono ?_ fun _ _ => False.elim)
        rintro _ w' ⟨rfl, held, opened⟩
        refine Ensures.step (unlock_run (held ▸ List.mem_cons_self)) ?_
        refine ⟨?_, .inr ⟨idle, rfl, ?_⟩⟩
        · rw [World.holding_held, held]
          exact List.erase_cons_head _ _
        · exact opened.trans faults.openSlices

end Openings

inductive Verdict where
  | refuse
  | block
  | allow
  deriving DecidableEq

/-- The verdict of `__access`, by how it ends. -/
def verdict : EStateM.Result Stop World Int → Option Verdict
  | .ok value w =>
      if value = 0 then some .allow
      else if value = -1 ∧ w.errno = EPERM then some .refuse
      else none
  | .error (.asleep _) _ => some .block
  | .error _ _ => none

/-- The pages of the slice cover its bytes. -/
def Slice.Covered (slice : Slice) : Prop :=
  slice.page.offset ≤ slice.offset ∧
    slice.offset + slice.size ≤ slice.page.offset + slice.page.size

/-- What `__access` decides for an address in a cube, and what it leaves. -/
structure Process.Decides (P : PageSize) (addr : Nat) (cube : Cube)
    (p : Process) (result : EStateM.Result Stop World Int) : Prop where
  refuses : verdict result = some .refuse ↔ cube.Refuses addr
  covered : (∀ slice ∈ cube.slices, slice.Covered) →
    (verdict result = some .refuse ↔ ∃ slice ∈ cube.slices,
      slice.nlinks ≠ 0 ∧ slice.InBytes cube.page.addr addr)
  blocks : verdict result = some .block ↔
    ¬cube.Refuses addr ∧ cube.Busy addr
  blocker : ∀ ptr w', result = .error (.asleep ptr) w' →
    ∃ slice ∈ cube.slices, slice.nlinks ≠ 0 ∧
      slice.InPages cube.page.addr addr ∧ slice.ptr = ptr
  allows : verdict result = some .allow ↔ ¬cube.Busy addr
  leaves : cube.Busy addr → (final result).toProcess = p
  opens : ¬cube.Busy addr → (final result).toProcess = p.openAt P addr cube
  free : (final result).held = []

/-- Two ways for `__access` to end that differ in the order of slices. -/
structure Alike (result result' : EStateM.Result Stop World Int) : Prop where
  verdict : CoralApi.verdict result' = CoralApi.verdict result
  prot : (final result').prot = (final result).prot
  slices : ∀ cube ∈ (final result).cubes, ∃ cube' ∈ (final result').cubes,
    cube'.ptr = cube.ptr ∧ cube'.slices.Perm cube.slices

/-- The slices of a cube stand in another order. -/
def Process.reorder (ptr : Nat) (slices : List Slice) (p : Process) :
    Process :=
  p.modifyCube ptr fun cube => { cube with slices := slices }

section Verdicts

variable {P : PageSize} {p : Process} {cube : Cube} {addr : Nat}
  {slices : List Slice}

theorem Cube.refuses_iff_bytes
    (covered : ∀ slice ∈ cube.slices, slice.Covered) :
    cube.Refuses addr ↔ ∃ slice ∈ cube.slices,
      slice.nlinks ≠ 0 ∧ slice.InBytes cube.page.addr addr := by
  refine exists_congr fun slice => and_congr_right fun inside =>
    and_congr_right fun _ => and_iff_right_of_imp fun bytes => ?_
  obtain ⟨start, finish⟩ := covered slice inside
  unfold Slice.InBytes at bytes
  unfold Slice.InPages
  omega

theorem Process.Faults.decides (faults : p.Faults addr cube) (errno : Nat)
    {os : Nat → Reply} (answered : ∀ index, (os index).isDone = true) :
    p.Decides P addr cube (access P addr (p.enter errno os)) := by
  have spec := @access_exact P p cube addr faults errno os answered
  unfold Ensures at spec
  cases run : access P addr (p.enter errno os) with
  | ok value w' =>
      rw [run] at spec
      obtain ⟨free, ⟨refused, rfl, denied, same⟩ | ⟨idle, rfl, opened⟩⟩ := spec
      · have refuses : verdict (.ok (-1) w') = some .refuse :=
          if_pos ⟨rfl, denied⟩
        refine ⟨iff_of_true refuses refused, fun covered => ?_, ?_, ?_, ?_,
          fun _ => same, fun idle => absurd refused.busy idle, free⟩
        · exact iff_of_true refuses
            ((Cube.refuses_iff_bytes covered).mp refused)
        · exact iff_of_false (by simp [refuses]) fun block =>
            block.1 refused
        · rintro ptr w'' ⟨⟩
        · exact iff_of_false (by simp [refuses]) (not_not.mpr refused.busy)
      · have allows : verdict (.ok 0 w') = some .allow := rfl
        have unrefused := mt Cube.Refuses.busy idle
        refine ⟨iff_of_false (by simp [allows]) unrefused, fun covered => ?_,
          ?_, ?_, iff_of_true allows idle, fun busy => absurd busy idle,
          fun _ => opened, free⟩
        · exact iff_of_false (by simp [allows])
            (mt (Cube.refuses_iff_bytes covered).mpr unrefused)
        · exact iff_of_false (by simp [allows]) fun block => idle block.2
        · rintro ptr w'' ⟨⟩
  | error reason w' =>
      rw [run] at spec
      obtain ⟨free, same, unrefused, slice, inside, attached, pages, rfl⟩ :=
        spec
      have blocks : verdict (.error (.asleep slice.ptr) w') = some .block := rfl
      have busy : cube.Busy addr := ⟨slice, inside, attached, pages⟩
      refine ⟨iff_of_false (by simp [blocks]) unrefused, fun covered => ?_,
        iff_of_true blocks ⟨unrefused, busy⟩, ?_, ?_, fun _ => same,
        fun idle => absurd busy idle, free⟩
      · exact iff_of_false (by simp [blocks])
          (mt (Cube.refuses_iff_bytes covered).mpr unrefused)
      · rintro ptr w'' ⟨⟩
        exact ⟨slice, inside, attached, pages, rfl⟩
      · exact iff_of_false (by simp [blocks]) (not_not.mpr busy)

/-- Another order of the slices of a cube is a state of the same kind. -/
theorem Process.Faults.reorder (faults : p.Faults addr cube)
    (permuted : slices.Perm cube.slices) :
    (p.reorder cube.ptr slices).Faults addr
      { cube with slices := slices } := by
  let change : Cube → Cube := fun cube => { cube with slices := slices }
  have registered : cube ∈ p.live :=
    List.mem_append_left _ (List.mem_of_find?_eq_some faults.first)
  have names : (p.reorder cube.ptr slices).names.Perm p.names := by
    unfold Process.names Process.reorder
    rw [Process.live_modifyCube, List.flatMap_map]
    refine List.Perm.flatMap_left _ fun other also => ?_
    split
    · rename_i here
      cases faults.named.same_cube also registered here
      exact (permuted.map Slice.ptr).cons cube.ptr
    · exact List.Perm.refl _
  refine ⟨⟨names.nodup_iff.mpr faults.named.distinct, fun name inside =>
    faults.named.fresh name (names.mem_iff.mp inside)⟩, ?_, faults.own,
    faults.fits, fun slice inside =>
      faults.inside slice (permuted.mem_iff.mp inside)⟩
  have same : ((·.contains addr) ∘ fun other : Cube =>
      if other.ptr = cube.ptr then change other else other) =
        (·.contains addr) := by
    funext other
    simp only [Function.comp_apply]
    split
    · rfl
    · rfl
  show (p.cubes.map fun other : Cube =>
    if other.ptr = cube.ptr then change other else other).find? _ = _
  rw [List.find?_map, same, faults.first]
  exact congrArg some (if_pos rfl)

theorem Cube.busy_perm (permuted : slices.Perm cube.slices) :
    Cube.Busy addr { cube with slices := slices } ↔ cube.Busy addr :=
  exists_congr fun _ => and_congr_left fun _ => permuted.mem_iff

theorem Cube.refuses_perm (permuted : slices.Perm cube.slices) :
    Cube.Refuses addr { cube with slices := slices } ↔ cube.Refuses addr :=
  exists_congr fun _ => and_congr_left fun _ => permuted.mem_iff

/-- Every registered cube has its slices, in some order. -/
theorem Process.Faults.mem_reorder (faults : p.Faults addr cube)
    (permuted : slices.Perm cube.slices) {other : Cube}
    (also : other ∈ p.cubes) : ∃ other' ∈ (p.reorder cube.ptr slices).cubes,
      other'.ptr = other.ptr ∧ other'.page = other.page ∧
        other'.slices.Perm other.slices := by
  refine ⟨_, List.mem_map_of_mem also, ?_⟩
  split
  · rename_i here
    have registered : cube ∈ p.live :=
      List.mem_append_left _ (List.mem_of_find?_eq_some faults.first)
    cases faults.named.same_cube (List.mem_append_left _ also) registered here
    exact ⟨rfl, rfl, permuted⟩
  · exact ⟨rfl, rfl, List.Perm.refl _⟩

/-- The outcome, the protections and the versions do not depend on the order
of the slices. -/
theorem Process.Faults.alike (faults : p.Faults addr cube)
    (permuted : slices.Perm cube.slices) {errno errno' : Nat}
    {os os' : Nat → Reply} (answered : ∀ index, (os index).isDone = true)
    (answered' : ∀ index, (os' index).isDone = true) :
    Alike (access P addr (p.enter errno os))
      (access P addr ((p.reorder cube.ptr slices).enter errno' os')) := by
  have here := @Process.Faults.decides P p cube addr faults errno os answered
  have there := @Process.Faults.decides P _ _ addr (faults.reorder permuted)
    errno' os' answered'
  have refuses := @Cube.refuses_perm cube addr slices permuted
  have busy := @Cube.busy_perm cube addr slices permuted
  by_cases attached : cube.Busy addr
  · have same := here.leaves attached
    have same' := there.leaves (busy.mpr attached)
    refine ⟨?_, ?_, ?_⟩
    · by_cases refused : cube.Refuses addr
      · rw [here.refuses.mpr refused,
          there.refuses.mpr (refuses.mpr refused)]
      · rw [here.blocks.mpr ⟨refused, attached⟩, there.blocks.mpr
          ⟨mt refuses.mp refused, busy.mpr attached⟩]
    · rw [same, same']
      rfl
    · rw [same, same']
      intro other also
      obtain ⟨other', also', ptr, -, perm⟩ :=
        faults.mem_reorder permuted also
      exact ⟨other', also', ptr, perm⟩
  · have opened := here.opens attached
    have opened' := there.opens (mt busy.mp attached)
    refine ⟨?_, ?_, ?_⟩
    · rw [here.allows.mpr attached, there.allows.mpr (mt busy.mp attached)]
    · rw [opened, opened']
      funext page
      refine if_congr ?_ rfl rfl
      exact exists_congr fun _ => and_congr_left fun _ => permuted.mem_iff
    · rw [opened, opened']
      intro other also
      obtain ⟨before, member, rfl⟩ := List.mem_map.mp also
      obtain ⟨before', member', ptr, page, perm⟩ :=
        faults.mem_reorder permuted member
      refine ⟨_, List.mem_map_of_mem member', ?_⟩
      by_cases target : before.ptr = cube.ptr
      · rw [if_pos target, if_pos (ptr.trans target)]
        refine ⟨ptr, ?_⟩
        unfold Cube.openAt
        rw [page]
        exact perm.map _
      · rw [if_neg target, if_neg (fun same => target (ptr.symm.trans same))]
        exact ⟨ptr, perm⟩

/-- The handler decides by the slices whose pages have the address, whatever
their order is. -/
theorem access_decides (faults : p.Faults addr cube) (errno : Nat)
    {os : Nat → Reply} (answered : ∀ index, (os index).isDone = true) :
    p.Decides P addr cube (access P addr (p.enter errno os)) ∧
      ∀ slices : List Slice, slices.Perm cube.slices →
        ∀ (errno' : Nat) (os' : Nat → Reply),
          (∀ index, (os' index).isDone = true) →
          Alike (access P addr (p.enter errno os))
            (access P addr
              ((p.reorder cube.ptr slices).enter errno' os')) :=
  ⟨faults.decides errno answered, fun _ permuted _ _ answered' =>
    faults.alike permuted answered answered'⟩

end Verdicts

/-- A block of two pages with these slices. -/
def Process.sliced (slices : List Slice) : Process :=
  { Process.loaded 1 "p" with
    nextPtr := 4
    cubes := [⟨1, 1, ⟨65536, 8192⟩, 1, slices, "a"⟩] }

/-- An attached slice and a free one of the same page. -/
def Slice.neighbours : List Slice :=
  [⟨2, 1, ⟨0, 4096⟩, 0, 100, 3⟩, ⟨3, 0, ⟨0, 8192⟩, 200, 5000, 5⟩]

theorem access_decides_neighbours :
    (Process.sliced Slice.neighbours).Decides .small 65586
        ⟨1, 1, ⟨65536, 8192⟩, 1, Slice.neighbours, "a"⟩
        (access .small 65586
          ((Process.sliced Slice.neighbours).enter 0 fun _ => .done 0 "")) ∧
      ∀ slices : List Slice, slices.Perm Slice.neighbours →
        ∀ (errno' : Nat) (os' : Nat → Reply),
          (∀ index, (os' index).isDone = true) →
          Alike (access .small 65586
              ((Process.sliced Slice.neighbours).enter 0 fun _ => .done 0 ""))
            (access .small 65586
              (((Process.sliced Slice.neighbours).reorder 1 slices).enter
                errno' os')) := by
  refine access_decides ⟨by decide +kernel, by decide +kernel, rfl, by decide,
    ?_⟩ 0 fun _ => rfl
  unfold Slice.Inside
  decide

/-- A slice whose pages leave out its bytes does not refuse. -/
theorem not_refuses_uncovered : ¬∀ (P : PageSize) (p : Process) (cube : Cube)
    (addr errno : Nat) (os : Nat → Reply), p.Faults addr cube →
      (∀ index, (os index).isDone = true) →
      (verdict (access P addr (p.enter errno os)) = some .refuse ↔
        ∃ slice ∈ cube.slices,
          slice.nlinks ≠ 0 ∧ slice.InBytes cube.page.addr addr) := by
  intro claim
  let slice : Slice := ⟨2, 1, ⟨0, 4096⟩, 4096, 100, 0⟩
  have refused := (claim .small (.sliced [slice])
    ⟨1, 1, ⟨65536, 8192⟩, 1, [slice], "a"⟩ 69636 0 (fun _ => .done 0 "")
    ⟨by decide +kernel, by decide +kernel, rfl, by decide,
      by unfold Slice.Inside; decide⟩ fun _ => rfl).mpr
    ⟨slice, List.mem_cons_self, by decide, by decide⟩
  have allowed : verdict (access .small 69636
      ((Process.sliced [slice]).enter 0 fun _ => .done 0 "")) =
        some .allow := by decide +kernel
  cases allowed.symm.trans refused

end CoralApi
