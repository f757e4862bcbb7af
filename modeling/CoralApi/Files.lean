import CoralApi.Names
import CoralApi.Sections

/-!
# What the functions of `cube.c` do to files

Three functions of `cube.c` change files.  They change files of the directory
of the process alone: `inaccel_alloc` those that it has just made, the others
those of own cubes.
-/

namespace CoralApi

open Program

/-- The file of a name. -/
def Process.file (dir id : String) (p : Process) : Option File :=
  p.files.find? fun file => file.dir == dir && file.id == id

/-- Of the files only those of the process with these names have changed. -/
structure World.Writes (ids : String → Prop) (w w' : World) : Prop where
  pid : w'.pid = w.pid
  self : w'.self = w.self
  file : ∀ dir id, (dir = w.self → ¬ids id) → w'.file dir id = w.file dir id

namespace World.Writes

variable {ids ids' : String → Prop} {w w' w'' : World}

theorem refl (w : World) : w.Writes ids w := ⟨rfl, rfl, fun _ _ _ => rfl⟩

theorem trans (left : w.Writes ids w') (right : w'.Writes ids w'') :
    w.Writes ids w'' := by
  refine ⟨right.pid.trans left.pid, right.self.trans left.self, ?_⟩
  intro dir id other
  rw [right.file dir id (left.self ▸ other), left.file dir id other]

theorem of_same (same : w'.toProcess = w.toProcess) : w.Writes ids w' :=
  ⟨congrArg (·.pid) same, congrArg (·.self) same,
    fun dir id _ => congrArg (Process.file dir id) same⟩

theorem mono (writes : w.Writes ids w') (weaker : ∀ id, ids id → ids' id) :
    w.Writes ids' w' :=
  ⟨writes.pid, writes.self, fun dir id other =>
    writes.file dir id fun here written => other here (weaker id written)⟩

instance : Std.Refl (World.Writes ids) := ⟨refl⟩

instance : Trans (World.Writes ids) (World.Writes ids) (World.Writes ids) :=
  ⟨trans⟩

end World.Writes

/-- No run of the program changes other files than these. -/
abbrev WritesOnly (ids : String → Prop) {α : Type} (x : Prog α) : Prop :=
  Moves (World.Writes ids) x

section Calls

variable {ids : String → Prop}

theorem writesOnly_change {update : Process → Process}
    (same : ∀ p, (update p).pid = p.pid ∧ (update p).self = p.self ∧
      (update p).files = p.files) : WritesOnly ids (change update) := by
  intro w
  obtain ⟨pid, self, files⟩ := same w.toProcess
  refine ⟨pid, self, fun dir id _ => ?_⟩
  exact congrArg (List.find? _) files

theorem writesOnly_changed {α : Type} {update : Process → Process}
    {f : Unit → Prog α}
    (same : ∀ p, (update p).pid = p.pid ∧ (update p).self = p.self ∧
      (update p).files = p.files) (rest : WritesOnly ids (f ())) :
    WritesOnly ids (change update >>= f) :=
  (writesOnly_change same).bind fun _ => rest

theorem writesOnly_logged {effect : Process → Process}
    (writes : ∀ w : World, w.Writes ids (w.put (effect w.toProcess))) :
    WritesOnly ids (logged effect) := by
  intro w
  simp only [logged, Ensures]
  cases w.os 0 with
  | done value name =>
      exact (writes w).trans ⟨rfl, rfl, fun _ _ _ => rfl⟩
  | failed error => exact ⟨rfl, rfl, fun _ _ _ => rfl⟩

theorem writesOnly_ask : WritesOnly ids ask :=
  fun _ => ⟨rfl, rfl, fun _ _ _ => rfl⟩

theorem writesOnly_setErrno (error : Nat) : WritesOnly ids (setErrno error) :=
  fun _ => ⟨rfl, rfl, fun _ _ _ => rfl⟩

theorem writesOnly_getErrno : WritesOnly ids getErrno := fun w => .refl w

theorem writesOnly_process : WritesOnly ids Utils.process := fun w => .refl w

theorem writesOnly_lock (mutex : Lock) : WritesOnly ids (lock mutex) := by
  intro w
  by_cases held : mutex ∈ w.held
  · exact Ensures.ends (by simp [lock, held]; rfl) (.refl w)
  · exact (ensures_ok (lock_run held)).mpr ⟨rfl, rfl, fun _ _ _ => rfl⟩

theorem writesOnly_unlock (mutex : Lock) : WritesOnly ids (unlock mutex) := by
  intro w
  by_cases held : mutex ∈ w.held
  · exact (ensures_ok (unlock_run held)).mpr ⟨rfl, rfl, fun _ _ _ => rfl⟩
  · have missed : unlock mutex w = .ok () { w with misuse := true } := by
      simp [unlock, held]
    exact (ensures_ok missed).mpr ⟨rfl, rfl, fun _ _ _ => rfl⟩

theorem writesOnly_sleepOn {α : Type} (cond : Nat) (mutex : Lock) :
    WritesOnly ids (sleepOn cond mutex : Prog α) :=
  (writesOnly_unlock mutex).bind fun _ => moves_throw _

theorem writesOnly_derefSlice (ptr : Nat) :
    WritesOnly ids (derefSlice ptr) := by
  intro w
  cases found : w.findSlice ptr with
  | none =>
      have lost : derefSlice ptr w = .error (.dangling ptr) w := by
        simp only [derefSlice, found]
      exact Ensures.ends lost (.refl w)
  | some pair =>
      have here : derefSlice ptr w = .ok pair w := by
        simp only [derefSlice, found]
      exact (ensures_ok here).mpr (.refl w)

theorem writesOnly_scan (found : Cube → Bool) (cubes : List Cube) :
    WritesOnly ids (scan found cubes) := by
  induction cubes with
  | nil => exact moves_pure none
  | cons cube cubes induction =>
      refine (writesOnly_lock _).bind fun _ => ?_
      split
      · exact moves_pure _
      · exact (writesOnly_unlock _).bind fun _ => induction

/-- A call that is answered and then changes no file. -/
theorem writesOnly_asked {α : Type} {done : Nat → String → Prog α}
    {failed : Errno → Prog α} (onDone : ∀ value name,
      WritesOnly ids (done value name))
    (onFailed : ∀ error, WritesOnly ids (failed error)) :
    WritesOnly ids (do
      match ← ask with
      | .done value name => done value name
      | .failed error => failed error) := by
  refine writesOnly_ask.bind fun reply => ?_
  cases reply with
  | done value name => exact onDone value name
  | failed error => exact onFailed error

theorem writesOnly_mprotect {P : PageSize} {addr size : Nat} {prot : Prot} :
    WritesOnly ids (Utils.mprotect P addr size prot) := by
  refine writesOnly_asked (fun _ _ => ?_) fun _ => ?_
  · exact writesOnly_changed (fun _ => ⟨rfl, rfl, rfl⟩) (moves_pure _)
  · exact (writesOnly_setErrno _).bind fun _ => moves_pure _

theorem writesOnly_alloc : WritesOnly ids Utils.alloc := by
  refine writesOnly_asked (fun _ _ => ?_) fun _ => ?_
  · exact moves_get.bind fun _ =>
      writesOnly_changed (fun _ => ⟨rfl, rfl, rfl⟩) (moves_pure _)
  · exact (writesOnly_setErrno _).bind fun _ => moves_pure _

theorem writesOnly_free (ptr : Nat) : WritesOnly ids (Utils.free ptr) :=
  writesOnly_logged fun _ => ⟨rfl, rfl, fun _ _ _ => rfl⟩

theorem writesOnly_close (id : String) : WritesOnly ids (Self.close id) :=
  writesOnly_logged fun _ => ⟨rfl, rfl, fun _ _ _ => rfl⟩

theorem writesOnly_unmap (addr size : Nat) :
    WritesOnly ids (Utils.unmap addr size) :=
  writesOnly_logged fun _ => ⟨rfl, rfl, fun _ _ _ => rfl⟩

theorem writesOnly_destroyMutex (ptr : Nat) :
    WritesOnly ids (Utils.destroyMutex ptr) :=
  writesOnly_change fun _ => ⟨rfl, rfl, rfl⟩

theorem writesOnly_initCond : WritesOnly ids Utils.initCond :=
  writesOnly_asked (fun _ _ => moves_pure _) fun _ => moves_pure _

theorem writesOnly_initMutex (ptr : Nat) :
    WritesOnly ids (Utils.initMutex ptr) := by
  refine writesOnly_asked (fun _ _ => ?_) fun _ => moves_pure _
  exact writesOnly_changed (fun _ => ⟨rfl, rfl, rfl⟩) (moves_pure _)

theorem writesOnly_reopen (id : String) : WritesOnly ids (Self.reopen id) := by
  refine writesOnly_asked (fun _ _ => ?_) fun _ => ?_
  · refine moves_get.bind fun w => ?_
    split
    · exact writesOnly_changed (fun _ => ⟨rfl, rfl, rfl⟩) (moves_pure _)
    · exact (writesOnly_setErrno _).bind fun _ => moves_pure _
  · exact (writesOnly_setErrno _).bind fun _ => moves_pure _

theorem writesOnly_setSlice (cube : Nat) (slice : Slice) :
    WritesOnly ids (Collection.setSlice cube slice) := by
  refine writesOnly_asked (fun _ _ => ?_) fun _ => ?_
  · exact writesOnly_changed (fun _ => ⟨rfl, rfl, rfl⟩) (moves_pure _)
  · exact (writesOnly_setErrno _).bind fun _ => moves_pure _

/-- Leave a critical section with an error. -/
theorem writesOnly_fail {α : Type} (mutex : Lock) (error : Nat) (value : α) :
    WritesOnly ids (do
      unlock mutex
      setErrno error
      return value) :=
  (writesOnly_unlock mutex).bind fun _ => (writesOnly_setErrno error).bind
    fun _ => moves_pure value

end Calls

section Untouched

variable {P : PageSize} {ids : String → Prop}

theorem writesOnly_unprotectSlices (cube : Cube) (addr : Nat)
    (slices : List Slice) :
    WritesOnly ids (unprotectSlices P cube addr slices) := by
  induction slices with
  | nil => exact moves_pure none
  | cons slice slices induction =>
      unfold unprotectSlices
      split
      · refine writesOnly_mprotect.bind fun result => ?_
        split
        · exact writesOnly_getErrno.bind fun _ => moves_pure _
        · exact writesOnly_changed (fun _ => ⟨rfl, rfl, rfl⟩) induction
      · exact induction

theorem writesOnly_access (addr : Nat) : WritesOnly ids (access P addr) := by
  refine (writesOnly_lock _).bind fun _ => moves_get.bind fun w =>
    (writesOnly_scan _ _).bind fun found => ?_
  cases found with
  | none => exact (writesOnly_unlock _).bind fun _ => moves_pure _
  | some cube =>
      refine (writesOnly_unlock _).bind fun _ =>
        writesOnly_process.bind fun pid => ?_
      split
      · exact writesOnly_fail _ _ _
      · split
        · exact writesOnly_fail _ _ _
        · split
          · exact writesOnly_sleepOn _ _
          · refine (writesOnly_unprotectSlices _ _ _).bind fun errsv => ?_
            cases errsv with
            | some errsv => exact writesOnly_fail _ _ _
            | none => exact (writesOnly_unlock _).bind fun _ => moves_pure _

theorem writesOnly_accessWoken (ptr : Nat) (error : Option Errno) :
    WritesOnly ids (accessWoken ptr error) := by
  refine (writesOnly_derefSlice ptr).bind fun found =>
    (writesOnly_lock _).bind fun _ => ?_
  cases error with
  | some error => exact writesOnly_getErrno.bind fun _ => writesOnly_fail _ _ _
  | none =>
      dsimp only
      split
      · exact writesOnly_sleepOn _ _
      · exact (writesOnly_unlock _).bind fun _ => moves_pure _

theorem writesOnly_attach (ptr : Nat) : WritesOnly ids (attach P ptr) := by
  refine (writesOnly_derefSlice ptr).bind fun found =>
    writesOnly_process.bind fun pid => ?_
  split
  · exact (writesOnly_setErrno _).bind fun _ => moves_pure _
  · refine (writesOnly_lock _).bind fun _ =>
      writesOnly_mprotect.bind fun result => ?_
    split
    · exact writesOnly_getErrno.bind fun _ => writesOnly_fail _ _ _
    · exact writesOnly_changed (fun _ => ⟨rfl, rfl, rfl⟩)
        ((writesOnly_unlock _).bind fun _ => moves_pure _)

theorem writesOnly_slice (addr size : Nat) :
    WritesOnly ids (slice P addr size) := by
  refine (writesOnly_lock _).bind fun _ => moves_get.bind fun w =>
    (writesOnly_scan _ _).bind fun found => ?_
  cases found with
  | none => exact writesOnly_fail _ _ _
  | some cube =>
      refine (writesOnly_unlock _).bind fun _ =>
        writesOnly_process.bind fun pid => ?_
      split
      · exact writesOnly_fail _ _ _
      · split
        · exact (writesOnly_unlock _).bind fun _ => moves_pure _
        · refine writesOnly_alloc.bind fun result => ?_
          cases result with
          | none => exact moves_pure none
          | some ptr =>
              refine writesOnly_initCond.bind fun error => ?_
              split
              · exact writesOnly_getErrno.bind fun _ =>
                  (writesOnly_free ptr).bind fun _ =>
                    (writesOnly_setErrno _).bind fun _ => moves_pure none
              · refine (writesOnly_setSlice _ _).bind fun result => ?_
                split
                · exact writesOnly_getErrno.bind fun _ =>
                    (writesOnly_unlock _).bind fun _ =>
                      (writesOnly_free ptr).bind fun _ =>
                        (writesOnly_setErrno _).bind fun _ => moves_pure none
                · exact (writesOnly_unlock _).bind fun _ => moves_pure _

end Untouched

section Names

variable {p : Process} {dir id dir' id' : String}

/-- A change of the files of one name leaves the others. -/
theorem file_map {update : File → File}
    (same : ∀ file, (update file).dir = file.dir ∧
      (update file).id = file.id) (other : ¬(dir' = dir ∧ id' = id)) :
    Process.file dir' id'
      { p with
        files := p.files.map fun file =>
          if file.dir = dir ∧ file.id = id then update file else file } =
      p.file dir' id' := by
  unfold Process.file
  rw [List.find?_map]
  have names : ((fun file : File => file.dir == dir' && file.id == id') ∘
      fun file => if file.dir = dir ∧ file.id = id then update file else file) =
        fun file => file.dir == dir' && file.id == id' := by
    funext file
    simp only [Function.comp]
    split
    · rw [(same file).1, (same file).2]
    · rfl
  rw [names]
  cases found : p.files.find? fun file => file.dir == dir' && file.id == id' with
  | none => rfl
  | some file =>
      have here := List.find?_some found
      simp only [Bool.and_eq_true, beq_iff_eq] at here
      rw [Option.map_some, if_neg]
      rw [here.1, here.2]
      exact other

theorem file_filter (other : ¬(dir' = dir ∧ id' = id)) :
    Process.file dir' id'
      { p with
        files := p.files.filter fun file =>
          !(file.dir == dir && file.id == id) } = p.file dir' id' := by
  unfold Process.file
  rw [List.find?_filter]
  congr 1
  funext file
  by_cases here : file.dir = dir' ∧ file.id = id'
  · have kept : (dir' == dir && id' == id) = false := by simpa using other
    simp [here, kept]
  · have missed : (file.dir == dir' && file.id == id') = false := by
      simpa using here
    simp [missed]

theorem file_cons {file : File} (other : ¬(dir' = file.dir ∧ id' = file.id)) :
    Process.file dir' id' { p with files := file :: p.files } =
      p.file dir' id' := by
  unfold Process.file
  apply List.find?_cons_of_neg
  simp only [Bool.and_eq_true, beq_iff_eq]
  exact fun here => other ⟨here.1.symm, here.2.symm⟩

theorem hasFile_iff : p.hasFile dir id = true ↔ (p.file dir id).isSome := by
  rw [Process.hasFile, Process.file, List.find?_isSome, List.any_eq_true]

end Names

section Written

variable {P : PageSize} {w : World}

theorem writesOnly_ftruncate (id : String) (length : Nat) :
    WritesOnly (· = id) (Utils.ftruncate id length) := by
  refine writesOnly_asked (fun _ _ => ?_) fun _ => ?_
  · split
    · refine Moves.bind ?_ fun _ => moves_pure _
      intro w
      refine ⟨rfl, rfl, fun dir id' other => ?_⟩
      exact file_map (fun _ => ⟨rfl, rfl⟩) fun here => other here.1 here.2
    · exact (writesOnly_setErrno _).bind fun _ => moves_pure _
  · exact (writesOnly_setErrno _).bind fun _ => moves_pure _

theorem writesOnly_unlink (id : String) :
    WritesOnly (· = id) (Self.unlink id) := by
  refine writesOnly_changed (fun _ => ⟨rfl, rfl, rfl⟩) ?_
  refine writesOnly_logged fun w => ⟨rfl, rfl, fun dir id' other => ?_⟩
  exact file_filter fun here => other here.1 here.2

/-- A step that writes no file may come before others. -/
theorem WritesOnly.of_none {ids : String → Prop} {α : Type} {x : Prog α}
    (writes : WritesOnly (fun _ => False) x) : WritesOnly ids x :=
  Moves.mono writes fun _ _ written => written.mono fun _ => False.elim

/-- Behind its `ftruncate`, `__map` writes no file. -/
theorem map_eq (P : PageSize) (size : Nat) (id : String) :
    ∃ rest : Int → Prog (Option Nat),
      (Utils.map P size id = Utils.ftruncate id size >>= rest) ∧
      (∀ result, WritesOnly (fun _ => False) (rest result)) ∧
      ∀ result, result ≠ 0 → rest result = pure none := by
  refine ⟨_, rfl, ?_, fun result failed => if_neg failed⟩
  intro result
  split
  · refine writesOnly_asked (fun addr _ => ?_) fun _ => ?_
    · refine moves_get.bind fun w => ?_
      split
      · exact writesOnly_changed (fun _ => ⟨rfl, rfl, rfl⟩) (moves_pure _)
      · exact (writesOnly_setErrno _).bind fun _ => moves_pure _
    · exact (writesOnly_setErrno _).bind fun _ => moves_pure _
  · exact moves_pure none

/-- Behind its `ftruncate`, `__remap` writes no file. -/
theorem remap_eq (P : PageSize) (addr size newSize : Nat) (id : String) :
    ∃ rest : Int → Prog (Option Nat),
      (Utils.remap P addr size newSize id =
        Utils.ftruncate id newSize >>= rest) ∧
      ∀ result, WritesOnly (fun _ => False) (rest result) := by
  refine ⟨_, rfl, ?_⟩
  intro result
  split
  · refine writesOnly_asked (fun addr _ => ?_) fun _ => ?_
    · refine moves_get.bind fun w => ?_
      dsimp only
      split
      · split
        · exact writesOnly_changed (fun _ => ⟨rfl, rfl, rfl⟩) (moves_pure _)
        · exact (writesOnly_setErrno _).bind fun _ => moves_pure _
      · exact (writesOnly_setErrno _).bind fun _ => moves_pure _
    · exact (writesOnly_setErrno _).bind fun _ => moves_pure _
  · exact moves_pure none

theorem writesOnly_map (size : Nat) (id : String) :
    WritesOnly (· = id) (Utils.map P size id) := by
  obtain ⟨rest, same, aside, -⟩ := map_eq P size id
  rw [same]
  exact (writesOnly_ftruncate id size).bind fun result =>
    (aside result).of_none

theorem writesOnly_remap (addr size newSize : Nat) (id : String) :
    WritesOnly (· = id) (Utils.remap P addr size newSize id) := by
  obtain ⟨rest, same, aside⟩ := remap_eq P addr size newSize id
  rw [same]
  exact (writesOnly_ftruncate id newSize).bind fun result =>
    (aside result).of_none

theorem writesOnly_freeSlices {ids : String → Prop} (slices : List Slice) :
    WritesOnly ids (freeSlices slices) := by
  induction slices with
  | nil => exact moves_pure ()
  | cons slice slices induction =>
      exact (writesOnly_free slice.ptr).bind fun _ => induction

theorem writesOnly_releaseCube {ids : String → Prop} (cube : Cube) :
    WritesOnly ids (releaseCube cube) :=
  (writesOnly_freeSlices cube.slices).bind fun _ =>
    (writesOnly_unlock _).bind fun _ =>
      (writesOnly_destroyMutex _).bind fun _ =>
        writesOnly_changed (fun _ => ⟨rfl, rfl, rfl⟩) (writesOnly_free _)

/-- The names of the files of own cubes. -/
def Process.OwnFile (p : Process) (id : String) : Prop :=
  ∃ cube ∈ p.live, cube.pid = p.pid ∧ cube.id = id

theorem ownFile_of_mem {cube : Cube} (member : cube ∈ w.cubes)
    (own : cube.pid = w.pid) : w.OwnFile cube.id :=
  ⟨cube, List.mem_append_left _ member, own, rfl⟩

theorem WritesOnly.of_id {ids : String → Prop} {id : String} {α : Type}
    {x : Prog α} (writes : WritesOnly (· = id) x) (known : ids id) :
    WritesOnly ids x :=
  Moves.mono writes fun _ _ written => written.mono fun _ same => same ▸ known

/-- `inaccel_free` writes no file but that of a cube that it releases. -/
theorem inaccelFree_writesTo {ids : String → Prop} {addr : Nat}
    (free : w.held = [])
    (known : ∀ cube, w.cubes.find? (fun cube => cube.page.addr == addr) =
      some cube → cube.pid = w.pid → cube.nlinks = 0 → ids cube.id) :
    Ensures (inaccelFree addr) (fun _ w' => w.Writes ids w')
      (fun _ w' => w.Writes ids w') w := by
  unfold inaccelFree
  split
  · exact .refl w
  · apply ensures_scan free
    · exact fun _ => (writesOnly_unlock _).ensures ⟨rfl, rfl, fun _ _ _ => rfl⟩
    · intro cube found
      have before : w.Writes ids
          (w.holding [.cube cube.ptr, .cubes]) := ⟨rfl, rfl, fun _ _ _ => rfl⟩
      refine Moves.then (writesOnly_change fun _ => ⟨rfl, rfl, rfl⟩) before ?_
        fun _ _ => id
      intro _ w₁ writes₁
      refine (writesOnly_unlock _).then writes₁ ?_ fun _ _ => id
      intro _ w₂ writes₂
      refine (writesOnly_unmap _ _).then writes₂ ?_ fun _ _ => id
      intro _ w₃ writes₃
      refine Ensures.step rfl ?_
      rw [writes₃.pid]
      split
      · exact (writesOnly_releaseCube cube).ensures writes₃
      · rename_i own
        split
        · rename_i unused
          have known := known cube found (not_not.mp own) unused
          refine Moves.ensures ?_ writes₃
          exact ((writesOnly_unlink cube.id).of_id known).bind fun _ =>
            writesOnly_releaseCube cube
        · refine Moves.ensures ?_ writes₃
          exact writesOnly_changed (fun _ => ⟨rfl, rfl, rfl⟩)
            (writesOnly_unlock _)

theorem inaccelFree_writes {addr : Nat} (free : w.held = []) :
    Ensures (inaccelFree addr) (fun _ w' => w.Writes w.OwnFile w')
      (fun _ w' => w.Writes w.OwnFile w') w :=
  inaccelFree_writesTo free fun _ found own _ =>
    ownFile_of_mem (List.mem_of_find?_eq_some found) own

/-- `__detach` writes no file but that of a cube that it releases. -/
theorem detach_writesTo {ids : String → Prop} {ptr : Nat}
    (known : ∀ cube slice, w.findSlice ptr = some (cube, slice) →
      cube.pid = w.pid → cube.nlinks = 0 → ids cube.id) :
    Ensures (detach ptr) (fun _ w' => w.Writes ids w')
      (fun _ w' => w.Writes ids w') w := by
  apply ensures_derefSlice
  · exact fun _ => .refl w
  · intro cube s found
    apply Ensures.step rfl
    split
    · refine Moves.ensures ?_ (.refl w)
      exact (writesOnly_setErrno _).bind fun _ => moves_pure _
    · rename_i own
      refine Moves.ensures ?_ (.refl w)
      refine (writesOnly_lock _).bind fun _ => ?_
      refine writesOnly_changed (fun _ => ⟨rfl, rfl, rfl⟩) ?_
      refine writesOnly_changed (fun _ => ⟨rfl, rfl, rfl⟩) ?_
      split
      · rename_i unused
        have known := known cube s found (not_not.mp own) unused
        exact ((writesOnly_unlink cube.id).of_id known).bind fun _ =>
          (writesOnly_releaseCube cube).bind fun _ => moves_pure _
      · exact (writesOnly_unlock _).bind fun _ => moves_pure _

theorem detach_writes {ptr : Nat} :
    Ensures (detach ptr) (fun _ w' => w.Writes w.OwnFile w')
      (fun _ w' => w.Writes w.OwnFile w') w :=
  detach_writesTo fun cube _ found own _ =>
    ⟨cube, (findSlice_mem found).1, own, rfl⟩

/-- A stretch of a call that shows in no list and writes these files only. -/
structure World.Calm (ids : String → Prop) (w w' : World) : Prop where
  quiet : w.Quiet w'
  writes : w.Writes ids w'

namespace World.Calm

variable {ids ids' : String → Prop} {w w' w'' : World}

theorem refl (w : World) : w.Calm ids w := ⟨.refl w, .refl w⟩

theorem trans (left : w.Calm ids w') (right : w'.Calm ids w'') :
    w.Calm ids w'' :=
  ⟨left.quiet.trans right.quiet, left.writes.trans right.writes⟩

instance : Std.Refl (World.Calm ids) := ⟨refl⟩

instance : Trans (World.Calm ids) (World.Calm ids) (World.Calm ids) := ⟨trans⟩

end World.Calm

theorem QuietCall.calm {ids : String → Prop} {α : Type} {x : Prog α}
    (quiet : QuietCall x) (writes : WritesOnly ids x) :
    Moves (World.Calm ids) x :=
  fun w => ((quiet w).and (writes w)).mono
    (fun _ _ both => ⟨both.1, both.2⟩) fun _ _ both => both.1.elim

/-- The name that the reply to `mkstemp` gives, the third one of
`inaccel_alloc`. -/
def World.Names (w : World) (id : String) : Prop :=
  ∃ value, w.os 2 = .done value id

/-- What `inaccel_alloc` has mapped before its lock. -/
def World.Maps (P : PageSize) (w w' : World) : Option Cube → Prop
  | none => w'.maps = w.maps
  | some cube => w.Names cube.id ∧ Process.Admits P cube.page w.maps ∧
      w'.maps = ⟨cube.page, w.self, cube.id⟩ :: w.maps

theorem alloc_calm (ids : String → Prop) :
    Ensures Utils.alloc
      (fun _ w' => w.Calm ids w' ∧ w'.os = fun index => w.os (index + 1))
      (fun _ _ => True) w := by
  have quiet : Ensures Utils.alloc _ (fun _ _ => True) w :=
    alloc_spec (.refl w)
  exact (quiet.and (writesOnly_alloc w)).mono
    (fun _ _ both => ⟨⟨both.1.1, both.2⟩, both.1.2.1⟩) fun _ _ _ => trivial

theorem initMutex_calm (ids : String → Prop) {ptr : Nat} :
    Ensures (Utils.initMutex ptr)
      (fun _ w' => w.Calm ids w' ∧ w'.os = fun index => w.os (index + 1))
      (fun _ _ => True) w := by
  have asked : Ensures (Utils.initMutex ptr)
      (fun _ w' => w'.os = fun index => w.os (index + 1))
      (fun _ _ => True) w := by
    unfold Utils.initMutex
    apply Ensures.step rfl
    cases w.os 0 with
    | done value name => rfl
    | failed error => rfl
  exact (((quiet_initMutex ptr).calm (writesOnly_initMutex ptr) w).and
    asked).mono (fun _ _ => id) fun _ _ _ => trivial

/-- `mkstemp` gives the name of the reply. -/
theorem linkOpen_calm :
    Ensures Self.linkOpen
      (fun result w' => w.Calm (fun id => result = some id) w' ∧
        ∀ id, result = some id → ∃ value, w.os 0 = .done value id)
      (fun _ _ => True) w := by
  unfold Self.linkOpen
  apply Ensures.step rfl
  cases w.os 0 with
  | failed error =>
      exact ⟨⟨⟨rfl, Nat.le_refl _⟩, rfl, rfl, fun _ _ _ => rfl⟩,
        fun id made => by cases made⟩
  | done value id =>
      apply Ensures.step rfl
      split
      · exact ⟨⟨⟨rfl, Nat.le_refl _⟩, rfl, rfl, fun _ _ _ => rfl⟩,
          fun id made => by cases made⟩
      · refine ⟨⟨⟨rfl, Nat.le_refl _⟩, rfl, rfl, fun dir id' other => ?_⟩, ?_⟩
        · exact file_cons fun here => other here.1 (by rw [here.2])
        · rintro _ ⟨⟩
          exact ⟨value, rfl⟩

section Ends

variable {ids : String → Prop}

theorem calm_getErrno : Moves (World.Calm ids) getErrno :=
  quiet_getErrno.calm writesOnly_getErrno

theorem calm_setErrno (error : Nat) : Moves (World.Calm ids) (setErrno error) :=
  (quiet_setErrno error).calm (writesOnly_setErrno error)

theorem calm_free (ptr : Nat) : Moves (World.Calm ids) (Utils.free ptr) :=
  (quiet_free ptr).calm (writesOnly_free ptr)

theorem calm_destroyMutex (ptr : Nat) :
    Moves (World.Calm ids) (Utils.destroyMutex ptr) :=
  (quiet_destroyMutex ptr).calm (writesOnly_destroyMutex ptr)

theorem calm_close (id : String) : Moves (World.Calm ids) (Self.close id) :=
  (quiet_close id).calm (writesOnly_close id)

end Ends

theorem writesOnly_dropCube (cube : Cube) (errsv : Nat) :
    WritesOnly (· = cube.id) (dropCube cube errsv) :=
  (writesOnly_unmap _ _).bind fun _ => (writesOnly_unlink cube.id).bind
    fun _ => (writesOnly_destroyMutex _).bind fun _ =>
      (writesOnly_free _).bind fun _ => writesOnly_setErrno errsv

theorem lock_same {mutex : Lock} {w : World} {stop : Stop → World → Prop}
    (blocks : stop .blocked w) :
    Ensures (lock mutex)
      (fun _ w' => w'.toProcess = w.toProcess ∧ w'.os = w.os) stop w := by
  by_cases held : mutex ∈ w.held
  · exact Ensures.ends (by simp [lock, held]) blocks
  · exact (ensures_ok (lock_run held)).mpr ⟨rfl, rfl⟩

theorem unlock_same {mutex : Lock} {w : World} {stop : Stop → World → Prop} :
    Ensures (unlock mutex)
      (fun _ w' => w'.toProcess = w.toProcess ∧ w'.os = w.os) stop w := by
  by_cases held : mutex ∈ w.held
  · exact (ensures_ok (unlock_run held)).mpr ⟨rfl, rfl⟩
  · have missed : unlock mutex w = .ok () { w with misuse := true } := by
      simp [unlock, held]
    exact (ensures_ok missed).mpr ⟨rfl, rfl⟩

/-- A block that is made has the file of the reply. -/
theorem makeCube_files {size : Nat} :
    Ensures (makeCube P size)
      (fun result w' => w.Writes w.Names w' ∧ w.Maps P w' result)
      (fun _ _ => True) w := by
  have fails : ∀ {w'}, w.Calm w.Names w' →
      w.Writes w.Names w' ∧ w.Maps P w' none :=
    fun calm => ⟨calm.writes, calm.quiet.maps⟩
  refine ensures_bind.mpr ((alloc_calm w.Names).mono ?_ fun _ _ => id)
  rintro result w₁ ⟨calm₁, os₁⟩
  cases result with
  | none => exact fails calm₁
  | some ptr =>
      apply Ensures.step rfl
      refine ensures_bind.mpr ((initMutex_calm w.Names).mono ?_ fun _ _ => id)
      rintro error w₂ ⟨calm₂, os₂⟩
      have calm₂ := calm₁.trans calm₂
      have third : w₂.os 0 = w.os 2 := by rw [os₂, os₁]
      split
      · refine calm_getErrno.then calm₂ ?_ fun _ _ _ => trivial
        intro errsv w₃ calm₃
        refine (calm_free ptr).then calm₃ ?_ fun _ _ _ => trivial
        intro _ w₄ calm₄
        refine (calm_setErrno errsv).then calm₄ ?_ fun _ _ _ => trivial
        exact fun _ w₅ calm₅ => fails calm₅
      · refine ensures_bind.mpr (linkOpen_calm.mono ?_ fun _ _ => id)
        rintro result w₃ ⟨opened, named⟩
        have known : ∀ id, result = some id → w.Names id := by
          intro id made
          obtain ⟨value, reply⟩ := named id made
          exact ⟨value, third.symm.trans reply⟩
        have calm₃ : w.Calm w.Names w₃ :=
          calm₂.trans ⟨opened.quiet, opened.writes.mono known⟩
        cases result with
        | none =>
            refine calm_getErrno.then calm₃ ?_ fun _ _ _ => trivial
            intro errsv w₄ calm₄
            refine (calm_destroyMutex ptr).then calm₄ ?_ fun _ _ _ => trivial
            intro _ w₅ calm₅
            refine (calm_free ptr).then calm₅ ?_ fun _ _ _ => trivial
            intro _ w₆ calm₆
            refine (calm_setErrno errsv).then calm₆ ?_ fun _ _ _ => trivial
            exact fun _ w₇ calm₇ => fails calm₇
        | some name =>
            have known := known name rfl
            have maps : Ensures (Utils.map P (ceilPagesize P size) name)
                _ (fun _ _ => True) w₃ := map_spec calm₃.quiet
            refine ensures_bind.mpr ((maps.and
              (((writesOnly_map _ name).of_id known).ensures
                calm₃.writes)).mono ?_ fun _ _ _ => trivial)
            rintro result w₄ ⟨mapped, writes₄⟩
            cases result with
            | none =>
                have calm₄ : w.Calm w.Names w₄ := ⟨mapped, writes₄⟩
                refine calm_getErrno.then calm₄ ?_ fun _ _ _ => trivial
                intro errsv w₅ calm₅
                refine (calm_close name).then calm₅ ?_ fun _ _ _ => trivial
                intro _ w₆ calm₆
                refine (calm_destroyMutex ptr).then calm₆ ?_
                  fun _ _ _ => trivial
                intro _ w₇ calm₇
                refine (calm_free ptr).then calm₇ ?_ fun _ _ _ => trivial
                intro _ w₈ calm₈
                refine (calm_setErrno errsv).then calm₈ ?_ fun _ _ _ => trivial
                exact fun _ w₉ calm₉ => fails calm₉
            | some addr =>
                obtain ⟨admits, quiet⟩ := mapped
                have closes : Moves (World.Calm w.Names) (Self.close name) :=
                  calm_close name
                refine closes.then (.refl w₄) ?_ fun _ _ _ => trivial
                intro _ w₅ calm₅
                refine ⟨writes₄.trans calm₅.writes, known, admits, ?_⟩
                rw [calm₅.quiet.maps, quiet.maps]
                rfl

theorem setCube_files {cube : Cube} {w : World} :
    Ensures (Collection.setCube cube)
      (fun result w' => w.Writes (fun _ => False) w' ∧ w'.maps = w.maps ∧
        (result = 0 → w'.cubes.getLast? = some cube))
      (fun _ _ => True) w := by
  unfold Collection.setCube
  apply Ensures.step rfl
  cases w.os 0 with
  | done value name =>
      exact ⟨⟨rfl, rfl, fun _ _ _ => rfl⟩, rfl, fun _ => List.getLast?_concat⟩
  | failed error =>
      exact ⟨⟨rfl, rfl, fun _ _ _ => rfl⟩, rfl, fun made => by cases made⟩

/-- A registered block is the last one of the registry. -/
theorem registerCube_files {cube : Cube} :
    Ensures (registerCube cube)
      (fun result w' => w.Writes (fun _ => False) w' ∧ w'.maps = w.maps ∧
        (result = none → w'.cubes.getLast? = some cube))
      (fun _ _ => True) w := by
  by_cases held : Lock.cubes ∈ w.held
  · have blocks : lock .cubes w = .error .blocked w := by simp [lock, held]
    exact ensures_bind.mpr (Ensures.ends blocks trivial)
  · apply Ensures.step (lock_run held)
    refine ensures_bind.mpr (setCube_files.mono ?_ fun _ _ => id)
    rintro result w₁ ⟨writes, maps, last⟩
    have locked : w.Writes (fun _ => False)
        (w.holding (.cubes :: w.held)) := .of_same rfl
    have writes := locked.trans writes
    split
    · apply Ensures.step rfl
      refine unlock_same.bind fun _ w₂ unlocked => ?_
      refine ⟨writes.trans (.of_same unlocked.1), ?_,
        fun made => by cases made⟩
      rw [unlocked.1]
      exact maps
    · rename_i appended
      refine unlock_same.bind fun _ w₂ unlocked => ?_
      refine ⟨writes.trans (.of_same unlocked.1), ?_, fun _ => ?_⟩
      · rw [unlocked.1]
        exact maps
      · rw [unlocked.1]
        exact last (not_not.mp appended)

/-- What `inaccel_alloc` does to files and mappings, failing ends included. -/
structure World.Makes (P : PageSize) (w : World) (result : Option Nat)
    (w' : World) : Prop where
  writes : w.Writes w.Names w'
  maps : w'.maps = w.maps ∨ ∃ block id, w.Names id ∧
    Process.Admits P block w.maps ∧ w'.maps = ⟨block, w.self, id⟩ :: w.maps
  last : ∀ addr, result = some addr →
    ∃ cube, w'.cubes.getLast? = some cube ∧ w.Names cube.id

def World.SameMaps (w w' : World) : Prop := w'.maps = w.maps

instance : Std.Refl World.SameMaps := ⟨fun _ => rfl⟩

instance : Trans World.SameMaps World.SameMaps World.SameMaps :=
  ⟨fun left right => Eq.trans right left⟩

theorem QuietCall.sameMaps {α : Type} {x : Prog α} (quiet : QuietCall x) :
    Moves World.SameMaps x :=
  fun w => (quiet w).mono (fun _ _ quiet => quiet.maps)
    fun _ _ impossible => impossible.elim

theorem sameMaps_unlink (id : String) :
    Moves World.SameMaps (Self.unlink id) := by
  intro w
  apply Ensures.step rfl
  simp only [logged, Ensures]
  split
  · rename_i run
    split at run
    · cases run
      rfl
    · cases run
      rfl
  · rename_i run
    split at run
    · cases run
    · cases run

/-- The end of a call that has mapped a block in vain. -/
theorem dropCube_files {cube : Cube} {errsv : Nat} {w' : World}
    (admits : Process.Admits P cube.page w.maps)
    (maps : w'.maps = ⟨cube.page, w.self, cube.id⟩ :: w.maps) :
    Ensures (dropCube cube errsv)
      (fun _ w'' => w''.maps = w.maps ∨
        w''.maps = ⟨cube.page, w.self, cube.id⟩ :: w.maps)
      (fun _ _ => True) w' := by
  have gone : (w'.unmapBlock cube.page).maps = w.maps := by
    unfold Process.unmapBlock
    rw [maps, List.filter_cons_of_neg (by simp)]
    apply List.filter_eq_self.mpr
    intro mapping inside
    simpa using (admits.2.2.2.2 mapping inside).ne admits.2.1
  have ends : Moves World.SameMaps (do
      Self.unlink cube.id
      Utils.destroyMutex cube.ptr
      Utils.free cube.ptr
      setErrno errsv) :=
    (sameMaps_unlink cube.id).bind fun _ =>
      (quiet_destroyMutex cube.ptr).sameMaps.bind fun _ =>
        (quiet_free cube.ptr).sameMaps.bind fun _ =>
          (quiet_setErrno errsv).sameMaps
  refine ensures_bind.mpr ?_
  simp only [Utils.unmap, logged, Ensures]
  cases w'.os 0 with
  | done value name =>
      exact (ends _).mono (fun _ _ same => .inl (same.trans gone))
        fun _ _ _ => trivial
  | failed error =>
      exact (ends _).mono (fun _ _ same => .inr (same.trans maps))
        fun _ _ _ => trivial

theorem inaccelAlloc_files {size : Nat} :
    Ensures (inaccelAlloc P size) (w.Makes P) (fun _ _ => True) w := by
  rw [inaccelAlloc_eq]
  split
  · exact ⟨.refl w, .inl rfl, fun _ made => by cases made⟩
  · refine ensures_bind.mpr (makeCube_files.mono ?_ fun _ _ => id)
    rintro result w₁ ⟨writes₁, made⟩
    cases result with
    | none => exact ⟨writes₁, .inl made, fun _ made => by cases made⟩
    | some cube =>
        obtain ⟨named, admits, maps₁⟩ := made
        refine ensures_bind.mpr (registerCube_files.mono ?_ fun _ _ => id)
        rintro result w₂ ⟨writes₂, maps₂, last⟩
        have writes₂ := writes₁.trans (writes₂.mono fun _ => False.elim)
        have maps₂ := maps₂.trans maps₁
        cases result with
        | some errsv =>
            have drops := ((writesOnly_dropCube cube errsv).of_id named).ensures
              writes₂
            refine ensures_bind.mpr (((dropCube_files admits maps₂).and
              drops).mono ?_ fun _ _ _ => trivial)
            rintro _ w₃ ⟨maps₃, writes₃⟩
            refine ⟨writes₃, ?_, fun _ made => by cases made⟩
            rcases maps₃ with same | more
            · exact .inl same
            · exact .inr ⟨_, _, named, admits, more⟩
        | none =>
            exact ⟨writes₂, .inr ⟨_, _, named, admits, maps₂⟩,
              fun _ _ => ⟨cube, last rfl, named⟩⟩

/-- `inaccel_realloc` writes no file but that of the block it finds. -/
theorem inaccelRealloc_writesTo {ids : String → Prop} {addr newSize : Nat}
    (given : addr ≠ 0) (free : w.held = [])
    (known : ∀ cube, w.cubes.find? (fun cube => cube.page.addr == addr) =
      some cube → cube.pid = w.pid → ids cube.id) :
    Ensures (inaccelRealloc P addr newSize)
      (fun _ w' => w.Writes ids w') (fun _ w' => w.Writes ids w') w := by
  unfold inaccelRealloc
  rw [if_neg given]
  split
  · refine ensures_bind.mpr
      ((inaccelFree_writesTo free fun cube found own _ =>
        known cube found own).mono ?_ fun _ _ => id)
    intro _ w₁ writes
    refine Moves.ensures ?_ writes
    exact (writesOnly_setErrno _).bind fun _ => moves_pure none
  · apply ensures_scan free
    · intro _
      have lost : WritesOnly ids (do
          unlock .cubes
          setErrno EADDRNOTAVAIL
          return (none : Option Nat)) := writesOnly_fail _ _ _
      exact lost.ensures (.of_same rfl)
    · intro cube found
      have before : w.Writes ids
          (w.holding [.cube cube.ptr, .cubes]) := .of_same rfl
      refine (writesOnly_unlock _).then before ?_ fun _ _ => id
      intro _ w₁ writes₁
      refine Ensures.step rfl ?_
      rw [writes₁.pid]
      split
      · exact (writesOnly_fail _ _ _).ensures writes₁
      · rename_i own
        have known := known cube found (not_not.mp own)
        refine Moves.ensures ?_ writes₁
        split
        · exact (writesOnly_unlock _).bind fun _ => moves_pure _
        · refine (writesOnly_reopen cube.id).bind fun opened => ?_
          split
          · exact writesOnly_getErrno.bind fun _ => writesOnly_fail _ _ _
          · refine Moves.bind ((writesOnly_remap _ _ _ cube.id).of_id known)
              fun result => ?_
            cases result with
            | none =>
                exact writesOnly_getErrno.bind fun _ =>
                  (writesOnly_close _).bind fun _ => writesOnly_fail _ _ _
            | some newAddr =>
                exact (writesOnly_close _).bind fun _ =>
                  writesOnly_changed (fun _ => ⟨rfl, rfl, rfl⟩)
                    ((writesOnly_unlock _).bind fun _ => moves_pure _)

theorem inaccelRealloc_writes {addr newSize : Nat} (given : addr ≠ 0)
    (free : w.held = []) :
    Ensures (inaccelRealloc P addr newSize)
      (fun _ w' => w.Writes w.OwnFile w')
      (fun _ w' => w.Writes w.OwnFile w') w :=
  inaccelRealloc_writesTo given free fun _ found =>
    ownFile_of_mem (List.mem_of_find?_eq_some found)

end Written

end CoralApi
