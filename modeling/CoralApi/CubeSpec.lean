import CoralApi.Frame

/-!
# What the functions of `cube.c` do

One lemma for each function: how a call that starts without locks can end, and
what it then has changed.  Every later argument about cubes goes through these
lemmas; none of them unfolds a function of `cube.c` again.
-/

namespace CoralApi

open Program

theorem lock_run {mutex : Lock} {w : World} (free : mutex ∉ w.held) :
    lock mutex w = .ok () (w.holding (mutex :: w.held)) := by
  simp [lock, free]

theorem unlock_run {mutex : Lock} {w : World} (held : mutex ∈ w.held) :
    unlock mutex w = .ok () (w.holding (w.held.erase mutex)) := by
  simp [unlock, held]

/-- The thread gives back its last lock. -/
theorem World.Quiet.unlocked {mutex : Lock} {locks : List Lock} {w w' : World}
    {p : Process} (before : w.held = locks)
    (quiet : ((w.put p).holding (mutex :: locks)).Quiet w') :
    (w.put p).Quiet (w'.holding (w'.held.erase mutex)) := by
  have held : w'.held = mutex :: locks := quiet.held
  have opened := quiet.holding locks
  rw [World.holding_holding, World.holding_same (by simpa using before)]
    at opened
  simpa [held] using opened

/-- The end of a critical section. -/
theorem ensures_unlock {α : Type} {mutex : Lock} {locks : List Lock}
    {f : Unit → Prog α} {w w' : World} {p : Process}
    {post : α → World → Prop} {stop : Stop → World → Prop}
    (before : w.held = locks)
    (quiet : ((w.put p).holding (mutex :: locks)).Quiet w')
    (rest : ∀ w'', (w.put p).Quiet w'' → Ensures (f ()) post stop w'') :
    Ensures (unlock mutex >>= f) post stop w' := by
  have held : w'.held = mutex :: locks := quiet.held
  apply Ensures.step (unlock_run (by simp [held]))
  exact rest _ (quiet.unlocked before)

theorem ensures_last_unlock {mutex : Lock} {w w' : World} {p : Process}
    {post : Unit → World → Prop} {stop : Stop → World → Prop}
    (free : w.held = []) (quiet : ((w.put p).holding [mutex]).Quiet w')
    (result : ∀ w'', (w.put p).Quiet w'' → post () w'') :
    Ensures (unlock mutex) post stop w' := by
  rw [← bind_pure (unlock mutex)]
  exact ensures_unlock free quiet result

theorem derefSlice_run {ptr : Nat} {pair : Cube × Slice} {w : World}
    (found : w.findSlice ptr = some pair) :
    derefSlice ptr w = .ok pair w := by
  simp only [derefSlice, found]

/-- A call that is given a slice. -/
theorem ensures_derefSlice {α : Type} {ptr : Nat} {f : Cube × Slice → Prog α}
    {w : World} {post : α → World → Prop} {stop : Stop → World → Prop}
    (lost : w.findSlice ptr = none → stop (.dangling ptr) w)
    (rest : ∀ cube slice, w.findSlice ptr = some (cube, slice) →
      Ensures (f (cube, slice)) post stop w) :
    Ensures (derefSlice ptr >>= f) post stop w := by
  cases found : w.findSlice ptr with
  | none =>
      refine Ensures.ends ?_ (lost found)
      simp only [bind, EStateM.bind, derefSlice, found]
  | some pair => exact Ensures.step (derefSlice_run found) (rest _ _ found)

/-- Without a lock in its way, the scan finds the first match and keeps its
mutex. -/
theorem scan_run {found : Cube → Bool} {cubes : List Cube} {w : World}
    (free : ∀ cube ∈ cubes, Lock.cube cube.ptr ∉ w.held) :
    scan found cubes w =
      match cubes.find? found with
      | none => .ok none w
      | some cube =>
          .ok (some cube) (w.holding (.cube cube.ptr :: w.held)) := by
  induction cubes with
  | nil => rfl
  | cons cube cubes induction =>
      have unheld := free cube List.mem_cons_self
      have tail := induction fun other member =>
        free other (List.mem_cons_of_mem _ member)
      cases hit : found cube with
      | true =>
          simp [scan, bind, EStateM.bind, lock, unheld, hit, pure,
            EStateM.pure]
      | false =>
          simp only [scan, bind, EStateM.bind, lock, unheld, if_false, hit,
            Bool.false_eq_true, unlock, World.holding_held,
            List.mem_cons_self, if_true, List.erase_cons_head,
            World.holding_holding, World.holding_self, List.find?_cons]
          exact tail

/-- The registry scan that starts `__access`, `__slice`, `inaccel_free` and
`inaccel_realloc`. -/
theorem ensures_scan {α : Type} {found : Cube → Bool}
    {rest : Option Cube → Prog α} {post : α → World → Prop}
    {stop : Stop → World → Prop} {w : World} (free : w.held = [])
    (missed : w.cubes.find? found = none →
      Ensures (rest none) post stop (w.holding [.cubes]))
    (hit : ∀ cube, w.cubes.find? found = some cube →
      Ensures (rest (some cube)) post stop
        (w.holding [.cube cube.ptr, .cubes])) :
    Ensures (do
      lock .cubes
      let w ← get
      let cube ← scan found w.cubes
      rest cube) post stop w := by
  apply Ensures.step (lock_run (by simp [free]))
  apply Ensures.step rfl
  have run := @scan_run found w.cubes (w.holding [.cubes]) (by simp)
  rw [free]
  cases result : w.cubes.find? found with
  | none =>
      rw [result] at run
      exact Ensures.step run (missed result)
  | some cube =>
      rw [result] at run
      exact Ensures.step run (hit cube result)

/-- A scan that finds the cube. -/
theorem ensures_found {α : Type} {found : Cube → Bool}
    {rest : Option Cube → Prog α} {post : α → World → Prop}
    {stop : Stop → World → Prop} {w : World} {cube : Cube} (free : w.held = [])
    (first : w.cubes.find? found = some cube)
    (continued : Ensures (rest (some cube)) post stop
      (w.holding [.cube cube.ptr, .cubes])) :
    Ensures (do
      lock .cubes
      let w ← get
      let cube ← scan found w.cubes
      rest cube) post stop w := by
  apply ensures_scan free
  · intro missed
    cases first.symm.trans missed
  · intro cube' hit
    cases first.symm.trans hit
    exact continued

/-- The hand-over from the global lock to the mutex of the cube. -/
theorem ensures_handOver {α : Type} {ptr : Nat} {rest : Unit → Prog α}
    {post : α → World → Prop} {stop : Stop → World → Prop} {w : World}
    (continued : Ensures (rest ()) post stop (w.holding [.cube ptr])) :
    Ensures (unlock .cubes >>= rest) post stop
      (w.holding [.cube ptr, .cubes]) := by
  apply Ensures.step (unlock_run (by simp))
  simpa using continued

theorem mprotect_run {P : PageSize} {addr size : Nat} {prot : Prot}
    {w : World} :
    Utils.mprotect P addr size prot w =
      match w.os 0 with
      | .done _ _ =>
          .ok 0 (w.asked.put (w.protectPages P addr size prot))
      | .failed error => .ok (-1) { w.asked with errno := error } := by
  simp only [Utils.mprotect, bind, EStateM.bind, ask]
  cases w.os 0 with
  | done => rfl
  | failed => rfl

/-- The slices that are opened before the first failing `mprotect`. -/
def openedSlices (os : Nat → Reply) : List Slice → List Slice
  | [] => []
  | slice :: slices =>
      if (os 0).isDone then
        slice :: openedSlices (fun index => os (index + 1)) slices
      else []

theorem openedSlices_sublist (os : Nat → Reply) (slices : List Slice) :
    (openedSlices os slices).Sublist slices := by
  induction slices generalizing os with
  | nil => exact .slnil
  | cons slice slices induction =>
      unfold openedSlices
      split
      · exact (induction _).cons_cons slice
      · exact List.nil_sublist _

/-- The writable pages and the version that a fault gives to one slice. -/
def Process.openSlice (P : PageSize) (cube : Cube) (p : Process)
    (slice : Slice) : Process :=
  (p.protectPages P (wadd cube.page.addr slice.page.offset) slice.page.size
    .readWrite).modifyCube cube.ptr
      (Cube.modifySlice slice.ptr fun slice =>
        { slice with version := slice.version + 1 })

def Process.openSlices (P : PageSize) (cube : Cube) (slices : List Slice)
    (p : Process) : Process :=
  slices.foldl (Process.openSlice P cube) p

theorem unprotectSlices_spec {P : PageSize} {cube : Cube} {addr : Nat}
    (slices : List Slice) (w : World) {stop : Stop → World → Prop} :
    Ensures (unprotectSlices P cube addr slices)
      (fun errsv w' =>
        let spans := slices.filter (·.overPage cube.page.addr addr)
        (w.put (w.openSlices P cube (openedSlices w.os spans))).Quiet w' ∧
          (errsv = none → openedSlices w.os spans = spans)) stop w := by
  induction slices generalizing w with
  | nil => exact ⟨.refl w, fun _ => rfl⟩
  | cons slice slices induction =>
      unfold unprotectSlices
      cases spans : slice.overPage cube.page.addr addr with
      | false => simpa [spans] using induction w
      | true =>
          simp only [if_true, List.filter_cons, spans]
          rw [Utils.unprotect, ensures_bind]
          cases reply : w.os 0 with
          | failed error =>
              apply (ensures_ok (by rw [mprotect_run, reply])).mpr
              simp only [Int.reduceNeg, ne_eq, reduceCtorEq, not_false_eq_true,
                if_true, openedSlices, reply, Reply.isDone]
              exact ⟨⟨rfl, Nat.le_refl _⟩, by simp⟩
          | done value name =>
              apply (ensures_ok (by rw [mprotect_run, reply])).mpr
              simp only [ne_eq, not_true_eq_false, if_false]
              apply Ensures.step rfl
              refine (induction _).mono ?_ (fun _ _ => id)
              rintro errsv w' ⟨quiet, complete⟩
              simp only [openedSlices, reply, Reply.isDone, if_true]
              refine ⟨quiet.of_visible rfl (Nat.le_refl _), ?_⟩
              intro finished
              exact congrArg (slice :: ·) (complete finished)

/-- Leave a critical section with an error: `errno` is set after the
unlock. -/
theorem ensures_fail {α : Type} {mutex : Lock} {error : Nat} {value : α}
    {w w' : World} {post : α → World → Prop} {stop : Stop → World → Prop}
    (free : w.held = []) (quiet : (w.holding [mutex]).Quiet w')
    (result : ∀ w'', w.Quiet w'' → post value w'') :
    Ensures (do
      unlock mutex
      setErrno error
      return value) post stop w' :=
  ensures_unlock (p := w.toProcess) free quiet fun _ opened =>
    (quiet_setErrno error).bind opened fun _ _ after => result _ after

/-- The cube in which a fault opens slices, and these slices: those over the
page, up to the first failing `mprotect`.  A fault opens nothing outside of
the cubes of the process, nor where a slice over the page has links. -/
def Process.fault (addr : Nat) (os : Nat → Reply) (p : Process) :
    Option (Cube × List Slice) :=
  match p.cubes.find? (·.contains addr) with
  | none => none
  | some cube =>
      if cube.pid = p.pid ∧ ∀ slice ∈ cube.slices,
          slice.overPage cube.page.addr addr = true → slice.nlinks = 0 then
        some (cube, openedSlices os
          (cube.slices.filter (·.overPage cube.page.addr addr)))
      else none

theorem Slice.offBytes_eq (base addr : Nat) (slice : Slice) :
    slice.offBytes base addr = !slice.overBytes base addr := by
  rw [Bool.eq_iff_iff]
  simp only [Slice.offBytes, Slice.overBytes, Bool.or_eq_true,
    decide_eq_true_eq, Bool.not_eq_true', Bool.and_eq_false_iff,
    decide_eq_false_iff_not]
  omega

/-- A slice over the page that neither refuses nor blocks has no links. -/
theorem nlinks_eq_zero_of_idle {base addr : Nat} {slice : Slice}
    (spans : slice.overPage base addr = true)
    (passed : slice.refuses base addr = false)
    (free : slice.blocks base addr = false) : slice.nlinks = 0 := by
  simp only [Slice.refuses, Slice.blocks, Slice.offBytes_eq, spans,
    Bool.true_and, Bool.and_eq_false_iff, bne_eq_false_iff_eq,
    Bool.not_eq_false'] at passed free
  rcases passed with zero | off
  · exact zero
  · rcases free with zero | on
    · exact zero
    · simp [on] at off

theorem access_spec {P : PageSize} {addr : Nat} {w : World}
    (free : w.held = []) :
    Ensures (access P addr)
      (fun result w' =>
        match w.fault addr w.os with
        | none => result ≠ 0 ∧ w.Quiet w'
        | some (cube, opened) =>
            (w.put (w.openSlices P cube opened)).Quiet w' ∧
              (result = 0 → opened =
                cube.slices.filter (·.overPage cube.page.addr addr)))
      (fun reason w' => w.Quiet w' ∧ w.fault addr w.os = none ∧
        ∃ cube ∈ w.cubes, ∃ slice ∈ cube.slices,
          cube.contains addr = true ∧ cube.pid = w.pid ∧
          slice.blocks cube.page.addr addr = true ∧
          reason = .asleep slice.ptr) w := by
  unfold access
  apply ensures_scan free
  · intro missed
    simp only [Process.fault, missed]
    exact ensures_unlock (p := w.toProcess) free (.refl _) fun _ opened =>
      ⟨by decide, opened⟩
  · intro cube found
    have member := List.mem_of_find?_eq_some found
    have contains : cube.contains addr = true := by
      simpa using List.find?_some found
    simp only [Process.fault, found]
    apply ensures_handOver
    apply Ensures.step rfl
    split
    · rename_i foreign
      have foreign : cube.pid ≠ w.pid := foreign
      simp only [foreign, false_and, if_false]
      exact ensures_fail free (.refl _) fun _ quiet => ⟨by decide, quiet⟩
    · rename_i own
      have own : cube.pid = w.pid := not_not.mp own
      split
      · rename_i refused
        obtain ⟨slice, inside, refuses⟩ := List.any_eq_true.mp refused
        have busy : ¬∀ slice ∈ cube.slices,
            slice.overPage cube.page.addr addr = true → slice.nlinks = 0 :=
          fun idle => by
            simp only [Slice.refuses, Bool.and_eq_true, bne_iff_ne] at refuses
            exact refuses.1.2 (idle slice inside refuses.1.1)
        simp only [busy, and_false, if_false]
        exact ensures_fail free (.refl _) fun _ quiet => ⟨by decide, quiet⟩
      · rename_i passed
        split
        · rename_i slice blocker
          have inside := List.mem_of_find?_eq_some blocker
          have blocks : slice.blocks cube.page.addr addr = true := by
            simpa using List.find?_some blocker
          have busy : ¬∀ slice ∈ cube.slices,
              slice.overPage cube.page.addr addr = true → slice.nlinks = 0 :=
            fun idle => by
              simp only [Slice.blocks, Bool.and_eq_true, bne_iff_ne] at blocks
              exact blocks.1.2 (idle slice inside blocks.1.1)
          simp only [busy, and_false, if_false]
          apply Ensures.step (unlock_run (by simp))
          refine ⟨?_, trivial, cube, member, slice, inside, contains, own, blocks,
            rfl⟩
          simpa [World.holding_same free] using World.Quiet.refl w
        · rename_i unblocked
          have idle : ∀ slice ∈ cube.slices,
              slice.overPage cube.page.addr addr = true → slice.nlinks = 0 := by
            intro slice inside spans
            apply nlinks_eq_zero_of_idle spans
            · simpa using mt (fun refuses =>
                List.any_eq_true.mpr ⟨slice, inside, refuses⟩) passed
            · simpa using List.find?_eq_none.mp unblocked slice inside
          simp only [own, true_and, if_pos idle]
          apply (unprotectSlices_spec cube.slices _).bind
          rintro errsv w' ⟨quiet, complete⟩
          cases errsv with
          | some errsv =>
              apply ensures_unlock free (by simpa using quiet)
              intro w'' effect
              apply (quiet_setErrno errsv).bind effect
              intro _ w₃ effect
              exact ⟨effect, fun zero => by cases zero⟩
          | none =>
              apply ensures_unlock free (by simpa using quiet)
              intro w'' effect
              exact ⟨effect, fun _ => complete rfl⟩

/-- `__access` after a sleep changes nothing. -/
theorem accessWoken_spec {ptr : Nat} {error : Option Errno} {w : World}
    (free : w.held = []) :
    Ensures (accessWoken ptr error)
      (fun result w' => w.Quiet w' ∧
        (result = 0 → ∃ cube slice, w.findSlice ptr = some (cube, slice) ∧
          slice.nlinks = 0))
      (fun reason w' => w.Quiet w' ∧
        (reason = .dangling ptr ∧ w.findSlice ptr = none ∨
          reason = .asleep ptr ∧ ∃ cube slice,
            w.findSlice ptr = some (cube, slice) ∧ slice.nlinks ≠ 0)) w := by
  unfold accessWoken
  apply ensures_derefSlice
  · exact fun lost => ⟨.refl w, .inl ⟨rfl, lost⟩⟩
  · intro cube slice found
    apply Ensures.step (lock_run (by simp [free]))
    rw [free]
    cases error with
    | some error =>
        apply Ensures.step rfl
        exact ensures_fail free (.refl _) fun _ quiet =>
          ⟨quiet, fun zero => by cases zero⟩
    | none =>
        simp only
        split
        · rename_i linked
          apply Ensures.step (unlock_run (by simp))
          refine ⟨?_, .inr ⟨rfl, cube, slice, found, linked⟩⟩
          simpa [World.holding_same free] using World.Quiet.refl w
        · rename_i unlinked
          apply ensures_unlock (p := w.toProcess) free (.refl _)
          exact fun _ quiet =>
            ⟨quiet, fun _ => ⟨cube, slice, found, not_not.mp unlinked⟩⟩

/-- The process that made the block of a slice. -/
def Process.owner (ptr : Nat) (p : Process) : Option Nat :=
  (p.findSlice ptr).map fun found => found.1.pid

theorem Process.owner_eq_none {p : Process} {ptr : Nat} :
    p.owner ptr = none ↔ p.findSlice ptr = none := by
  simp [Process.owner]

/-- `__attach` of a slice succeeds. -/
def World.Attaches (w : World) (ptr : Nat) : Prop :=
  w.owner ptr = some w.pid ∧ (w.os 0).isDone = true

/-- What a successful `__attach` does. -/
structure Attached (P : PageSize) (w : World) (ptr : Nat) (cube : Cube)
    (slice : Slice) (w' : World) : Prop where
  found : w.findSlice ptr = some (cube, slice)
  own : cube.pid = w.pid
  effect : (w.put (Process.link cube.ptr ptr
    (w.protectPages P (wadd cube.page.addr slice.page.offset)
      slice.page.size .read))).Quiet w'
  os : w'.os = fun index => w.os (index + 1)

theorem attach_spec {P : PageSize} {ptr : Nat} {w : World}
    (free : w.held = []) :
    Ensures (attach P ptr)
      (fun result w' =>
        if result = 0 then
          w.Attaches ptr ∧ ∃ cube slice, Attached P w ptr cube slice w'
        else w.findSlice ptr ≠ none ∧ ¬w.Attaches ptr ∧ w.Quiet w')
      (fun reason w' => w' = w ∧ reason = .dangling ptr ∧
        w.findSlice ptr = none) w := by
  unfold attach
  apply ensures_derefSlice
  · exact fun lost => ⟨rfl, rfl, lost⟩
  · intro cube slice found
    have owner : w.owner ptr = some cube.pid := by simp [Process.owner, found]
    apply Ensures.step rfl
    split
    · rename_i foreign
      have foreign : cube.pid ≠ w.pid := foreign
      have fails : ¬w.Attaches ptr := fun attaches =>
        foreign (Option.some.inj (owner.symm.trans attaches.1))
      exact (quiet_setErrno _).bind (.refl w) fun _ _ quiet =>
        ⟨by simp [found], fails, quiet⟩
    · rename_i own
      have own : cube.pid = w.pid := not_not.mp own
      apply Ensures.step (lock_run (by simp [free]))
      rw [free, Utils.protect, ensures_bind]
      cases reply : w.os 0 with
      | failed error =>
          have fails : ¬w.Attaches ptr := by
            rintro ⟨-, answered⟩
            simp [reply, Reply.isDone] at answered
          apply (ensures_ok (by
            rw [mprotect_run, World.holding_os, reply])).mpr
          apply Ensures.step rfl
          exact ensures_fail free ⟨rfl, Nat.le_refl _⟩ fun _ quiet =>
            ⟨by simp [found], fails, quiet⟩
      | done value name =>
          apply (ensures_ok (by
            rw [mprotect_run, World.holding_os, reply])).mpr
          apply Ensures.step rfl
          refine Ensures.step (unlock_run (by simp)) ?_
          refine ⟨⟨owner.trans (congrArg some own),
            by simp [reply, Reply.isDone]⟩, cube, slice, found, own, ?_, rfl⟩
          exact World.Quiet.unlocked free ⟨rfl, Nat.le_refl _⟩

/-- The counts and the log after `__detach` has lowered them. -/
def Process.unlinkSlice (cube slice : Nat) (p : Process) : Process :=
  { p.modifyCube cube fun cube =>
      { cube.modifySlice slice fun slice =>
          { slice with nlinks := slice.nlinks - 1 } with
        nlinks := cube.nlinks - 1 } with
    detached := slice :: p.detached
    broadcasts := .slice slice :: p.broadcasts }

/-- The lists and the log after `releaseCube`. -/
def Process.release (cube : Nat) (p : Process) : Process :=
  { p with
    orphans := p.orphans.filter fun other => other.ptr ≠ cube
    released := cube :: p.released }

theorem quiet_freeSlices (slices : List Slice) :
    QuietCall (freeSlices slices) := by
  induction slices with
  | nil => exact fun w => .refl w
  | cons slice slices induction =>
      intro w
      unfold freeSlices
      apply (quiet_free slice.ptr).bind (.refl w)
      intro _ w' before
      exact induction.ensures before

/-- The release of a cube whose mutex the thread holds. -/
theorem releaseCube_spec {cube : Cube} {locks : List Lock} {w w' : World}
    {p : Process} (held : w.held = locks)
    (before : ((w.put p).holding (.cube cube.ptr :: locks)).Quiet w')
    {stop : Stop → World → Prop} :
    Ensures (releaseCube cube)
      (fun _ w'' => (w.put (p.release cube.ptr)).Quiet w'') stop w' := by
  unfold releaseCube
  apply (quiet_freeSlices cube.slices).bind before
  intro _ w₁ quiet
  apply ensures_unlock held quiet
  intro w₂ quiet
  apply (quiet_destroyMutex cube.ptr).bind quiet
  intro _ w₃ quiet
  have released := quiet.lift (Process.release cube.ptr) (fun _ => rfl)
    (fun _ _ => id)
  apply Ensures.step rfl
  exact (quiet_free cube.ptr).ensures released

/-- What a successful `__detach` does. -/
structure Detaches (w : World) (ptr : Nat) (cube : Cube) (slice : Slice)
    (w' : World) : Prop where
  found : w.findSlice ptr = some (cube, slice)
  own : cube.pid = w.pid
  effect : (w.put (
    if cube.nlinks = 0 then
      ((w.unlinkSlice cube.ptr ptr).unlinkFile cube.id).release cube.ptr
    else w.unlinkSlice cube.ptr ptr)).Quiet w'

/-- Other locks than those of cubes may be held. -/
theorem detach_spec {ptr : Nat} {w : World} {locks : List Lock}
    (held : w.held = locks) (unheld : ∀ cube, Lock.cube cube ∉ locks) :
    Ensures (detach ptr)
      (fun result w' =>
        (result ≠ 0 ∧ (∃ cube slice, w.findSlice ptr = some (cube, slice) ∧
            cube.pid ≠ w.pid) ∧ w.Quiet w') ∨
          (result = 0 ∧ ∃ cube slice, Detaches w ptr cube slice w'))
      (fun reason w' => w' = w ∧ reason = .dangling ptr ∧
        w.findSlice ptr = none) w := by
  unfold detach
  apply ensures_derefSlice
  · exact fun lost => ⟨rfl, rfl, lost⟩
  · intro cube slice found
    apply Ensures.step rfl
    split
    · rename_i foreign
      have foreign : cube.pid ≠ w.pid := foreign
      exact (quiet_setErrno _).bind (.refl w) fun _ _ quiet =>
        .inl ⟨by decide, ⟨cube, slice, found, foreign⟩, quiet⟩
    · rename_i own
      apply Ensures.step (lock_run (by simp [held, unheld]))
      apply Ensures.step rfl
      apply Ensures.step rfl
      rw [held]
      have lowered : ((w.put (w.unlinkSlice cube.ptr ptr)).holding
          (.cube cube.ptr :: locks)).Quiet
            ((w.holding (.cube cube.ptr :: locks)).put
            (w.unlinkSlice cube.ptr ptr)) := ⟨rfl, Nat.le_refl _⟩
      have detaches : ∀ w', (w.put _).Quiet w' →
          Detaches w ptr cube slice w' := fun _ effect =>
        ⟨found, not_not.mp own, effect⟩
      split
      · rename_i last
        simp only [last, if_true] at detaches
        apply (unlink_spec (w := w.holding (.cube cube.ptr :: locks))
          lowered).bind
        intro _ w₁ quiet
        apply (releaseCube_spec held quiet).bind
        exact fun _ w₂ effect =>
          .inr ⟨rfl, cube, slice, detaches w₂ effect⟩
      · rename_i linked
        simp only [linked, if_false] at detaches
        apply ensures_unlock held lowered
        exact fun w₁ effect => .inr ⟨rfl, cube, slice, detaches w₁ effect⟩

theorem quiet_ftruncate (id : String) (length : Nat) :
    QuietCall (Utils.ftruncate id length) := by
  intro w
  unfold Utils.ftruncate
  apply Ensures.step rfl
  cases w.os 0 with
  | done =>
      by_cases fits : length < 2 ^ 63
      · simp only [fits, if_true]
        exact ⟨rfl, Nat.le_refl _⟩
      · simp only [fits, if_false]
        exact ⟨rfl, Nat.le_refl _⟩
  | failed => exact ⟨rfl, Nat.le_refl _⟩

theorem map_spec {P : PageSize} {size : Nat} {id : String} {w₀ w : World}
    (before : w₀.Quiet w) {stop : Stop → World → Prop} :
    Ensures (Utils.map P size id)
      (fun result w' =>
        match result with
        | none => w₀.Quiet w'
        | some addr =>
            Process.Admits P ⟨addr, size⟩ w₀.maps ∧
              (w₀.put (w₀.mapBlock P ⟨addr, size⟩ w₀.self id)).Quiet w')
      stop w := by
  unfold Utils.map
  apply (quiet_ftruncate id size).bind before
  intro result w₁ quiet
  split
  · apply Ensures.step rfl
    cases w₁.os 0 with
    | done addr name =>
        apply Ensures.step rfl
        split
        · rename_i admits
          refine ⟨by rwa [← quiet.maps], ?_⟩
          have mapped := quiet.lift
            (fun p => p.mapBlock P ⟨addr, size⟩ p.self id)
            (fun _ => rfl) (fun _ _ ordered => ordered)
          exact mapped.trans ⟨rfl, Nat.le_refl _⟩
        · exact quiet.trans ⟨rfl, Nat.le_refl _⟩
    | failed error => exact quiet.trans ⟨rfl, Nat.le_refl _⟩
  · exact quiet

theorem alloc_spec {w₀ w : World} (before : w₀.Quiet w)
    {stop : Stop → World → Prop} :
    Ensures Utils.alloc
      (fun result w' =>
        w₀.Quiet w' ∧ w'.os = (fun index => w.os (index + 1)) ∧
          ((w.os 0).isDone = true ↔ result.isSome) ∧
          ∀ ptr, result = some ptr → w₀.nextPtr ≤ ptr ∧ ptr < w'.nextPtr)
      stop w := by
  unfold Utils.alloc
  apply Ensures.step rfl
  cases w.os 0 with
  | done value name =>
      refine Ensures.step rfl (Ensures.step rfl ?_)
      refine ⟨before.trans ⟨rfl, Nat.le_succ _⟩, rfl, by simp [Reply.isDone], ?_⟩
      rintro ptr ⟨⟩
      exact ⟨before.nextPtr, Nat.lt_succ_self _⟩
  | failed error =>
      refine ⟨before.trans ⟨rfl, Nat.le_refl _⟩, rfl, by simp [Reply.isDone], ?_⟩
      rintro ptr ⟨⟩

theorem initCond_spec {w₀ w : World} (before : w₀.Quiet w)
    {stop : Stop → World → Prop} :
    Ensures Utils.initCond
      (fun error w' => w₀.Quiet w' ∧ w'.nextPtr = w.nextPtr ∧
        ((w.os 0).isDone = true ↔ error = 0))
      stop w := by
  unfold Utils.initCond
  apply Ensures.step rfl
  cases w.os 0 with
  | done value name =>
      exact ⟨before.trans ⟨rfl, Nat.le_refl _⟩, rfl, by simp [Reply.isDone]⟩
  | failed error =>
      refine ⟨before.trans ⟨rfl, Nat.le_refl _⟩, rfl, ?_⟩
      simp [Reply.isDone, Nat.ne_of_gt error.property]

/-- A cube has one more slice, the newest object. -/
def Process.addSlice (cube : Nat) (slice : Slice) (p : Process) : Process :=
  { p.modifyCube cube fun cube =>
      { cube with slices := cube.slices ++ [slice] } with
    nextPtr := slice.ptr + 1 }

theorem setSlice_spec {cube : Nat} {slice : Slice} {w₀ w : World}
    (before : w₀.Quiet w) (fresh : slice.ptr < w.nextPtr)
    {stop : Stop → World → Prop} :
    Ensures (Collection.setSlice cube slice)
      (fun result w' =>
        if result = 0 then (w₀.put (w₀.addSlice cube slice)).Quiet w'
        else w₀.Quiet w')
      stop w := by
  unfold Collection.setSlice
  apply Ensures.step rfl
  cases w.os 0 with
  | done value name =>
      have added := before.lift (Process.addSlice cube slice) (fun _ => rfl)
        (fun _ _ _ => Nat.le_refl _)
      exact added.trans ⟨rfl, fresh⟩
  | failed error => exact before.trans ⟨rfl, Nat.le_refl _⟩

/-- `__slice` finds a cube of the process without the slice, and one of the
first two calls for a new slice fails. -/
def SliceStarves (w : World) (addr size : Nat) : Prop :=
  ∃ cube, w.cubes.find? (·.containsRange addr size) = some cube ∧
    cube.pid = w.pid ∧ cube.findRange addr size = none ∧
    ¬((w.os 0).isDone = true ∧ (w.os 1).isDone = true)

/-- How `__slice` can end. -/
inductive SliceOutcome (P : PageSize) (w : World) (addr size : Nat) :
    Option Nat → World → Prop where
  | missed {w' : World} (fed : ¬SliceStarves w addr size)
      (quiet : w.Quiet w') : SliceOutcome P w addr size none w'
  | starved {cube : Cube} {w' : World} (starves : SliceStarves w addr size)
      (member : cube ∈ w.cubes)
      (quiet : (w.holding [.cube cube.ptr]).Quiet w') :
      SliceOutcome P w addr size none w'
  | known {cube : Cube} {slice : Slice} {w' : World}
      (fed : ¬SliceStarves w addr size)
      (first : w.cubes.find? (·.containsRange addr size) = some cube)
      (own : cube.pid = w.pid)
      (found : cube.findRange addr size = some slice) (quiet : w.Quiet w') :
      SliceOutcome P w addr size (some slice.ptr) w'
  | made {cube : Cube} {ptr : Nat} {w' : World}
      (fed : ¬SliceStarves w addr size)
      (first : w.cubes.find? (·.containsRange addr size) = some cube)
      (own : cube.pid = w.pid)
      (contains : cube.containsRange addr size = true)
      (new : cube.findRange addr size = none)
      (fresh : w.nextPtr ≤ ptr)
      (effect : (w.put (w.addSlice cube.ptr
        (newSlice P cube addr size ptr))).Quiet w') :
      SliceOutcome P w addr size (some ptr) w'

theorem slice_spec {P : PageSize} {addr size : Nat} {w : World}
    (free : w.held = []) :
    Ensures (slice P addr size) (SliceOutcome P w addr size)
      (fun _ _ => False) w := by
  unfold slice
  apply ensures_scan free
  · intro missed
    have fed : ¬SliceStarves w addr size := by
      rintro ⟨cube, found, -⟩
      simp [missed] at found
    exact ensures_fail free (.refl _) fun _ quiet => .missed fed quiet
  · intro cube found
    have member := List.mem_of_find?_eq_some found
    have contains : cube.containsRange addr size = true := by
      simpa using List.find?_some found
    apply ensures_handOver
    apply Ensures.step rfl
    split
    · rename_i foreign
      have fed : ¬SliceStarves w addr size := by
        rintro ⟨other, same, own, -⟩
        rw [found] at same
        cases same
        exact foreign own
      exact ensures_fail free (.refl _) fun _ quiet => .missed fed quiet
    · rename_i own
      have own : cube.pid = w.pid := not_not.mp own
      split
      · rename_i slice known
        have fed : ¬SliceStarves w addr size := by
          rintro ⟨other, same, -, new, -⟩
          rw [found] at same
          cases same
          simp [known] at new
        apply ensures_unlock (p := w.toProcess) free (.refl _)
        exact fun _ quiet => .known fed found own known quiet
      · rename_i new
        have starves_iff : SliceStarves w addr size ↔
            ¬((w.os 0).isDone = true ∧ (w.os 1).isDone = true) :=
          ⟨fun ⟨_, _, _, _, short⟩ => short,
            fun short => ⟨cube, found, own, new, short⟩⟩
        apply (alloc_spec (.refl (w.holding [.cube cube.ptr]))).bind
        rintro result w₁ ⟨quiet₁, os₁, first, fresh⟩
        cases result with
        | none =>
            exact .starved (starves_iff.mpr fun done => by
              simpa using first.mp done.1) member quiet₁
        | some ptr =>
            apply (initCond_spec quiet₁).bind
            rintro error w₂ ⟨quiet₂, next₂, second⟩
            simp only [os₁] at second
            split
            · rename_i failed
              apply Ensures.step rfl
              apply (quiet_free ptr).bind quiet₂
              intro _ w₃ quiet₃
              apply (quiet_setErrno _).bind quiet₃
              exact fun _ w₄ quiet₄ => .starved (starves_iff.mpr fun done =>
                failed (second.mp done.2)) member quiet₄
            · rename_i succeeded
              have fed : ¬SliceStarves w addr size := fun starves =>
                starves_iff.mp starves
                  ⟨first.mpr rfl, second.mpr (not_not.mp succeeded)⟩
              obtain ⟨unused, made⟩ := fresh ptr rfl
              apply (setSlice_spec quiet₂ (next₂ ▸ made)).bind
              intro result w₃ effect
              split
              · rename_i failed
                simp only [failed, if_false] at effect
                apply Ensures.step rfl
                apply ensures_unlock (p := w.toProcess) free effect
                intro w₄ quiet₄
                apply (quiet_free ptr).bind quiet₄
                intro _ w₅ quiet₅
                apply (quiet_setErrno _).bind quiet₅
                exact fun _ w₆ quiet₆ => .missed fed quiet₆
              · rename_i appended
                simp only [not_not.mp appended, if_true] at effect
                apply ensures_unlock free effect
                exact fun w₄ quiet₄ =>
                  .made fed found own contains new unused quiet₄

end CoralApi
