import CoralApi.Branch

/-!
# The file of a block that is asked to grow

`inaccel_realloc` sets the length of the file before it moves the mapping.
The result and the file of a call on a registered block are given as functions
of the state before it and of the replies.
-/

namespace CoralApi

open Program

/-- A file of another length: the bytes below both lengths stay, and the new
ones are zero. -/
def File.resize (length : Nat) (file : File) : File :=
  { file with
    length := length
    bytes := fun index =>
      if index < min file.length length then file.bytes index else 0 }

/-- The call reaches `ftruncate`, which succeeds. -/
def Process.Resizes (P : PageSize) (cube : Cube) (newSize : Nat)
    (os : Nat → Reply) (p : Process) : Prop :=
  cube.pid = p.pid ∧ cube.page.size < newSize ∧ (os 0).isDone = true ∧
    p.hasFile p.self cube.id = true ∧ (os 1).isDone = true ∧
    ceilPagesize P newSize < 2 ^ 63

instance (P : PageSize) (cube : Cube) (newSize : Nat) (os : Nat → Reply)
    (p : Process) : Decidable (p.Resizes P cube newSize os) :=
  inferInstanceAs (Decidable (_ ∧ _ ∧ _ ∧ _ ∧ _ ∧ _))

/-- The file of the cube after the call. -/
def Process.resized (P : PageSize) (cube : Cube) (newSize : Nat)
    (os : Nat → Reply) (p : Process) : Option File :=
  if p.Resizes P cube newSize os then
    (p.file p.self cube.id).map (File.resize (ceilPagesize P newSize))
  else p.file p.self cube.id

section Files

variable {P : PageSize} {p : Process} {w w' : World} {cube : Cube}
  {addr newSize : Nat} {stop : Stop → World → Prop}

/-- A change of the file of a name. -/
theorem file_map_self {dir id : String} {update : File → File}
    (same : ∀ file, (update file).dir = file.dir ∧
      (update file).id = file.id) :
    Process.file dir id
      { p with
        files := p.files.map fun file =>
          if file.dir = dir ∧ file.id = id then update file else file } =
      (p.file dir id).map update := by
  unfold Process.file
  dsimp only
  induction p.files with
  | nil => rfl
  | cons file files induction =>
      rw [List.map_cons]
      by_cases hit : file.dir = dir ∧ file.id = id
      · rw [if_pos hit, List.find?_cons_of_pos (by simp [same, hit]),
          List.find?_cons_of_pos (by simp [hit])]
        rfl
      · rw [if_neg hit, List.find?_cons_of_neg (by simpa using hit),
          List.find?_cons_of_neg (by simpa using hit), induction]

theorem truncateFile_file (dir id : String) (length : Nat) :
    (p.truncateFile dir id length).file dir id =
      (p.file dir id).map (File.resize length) :=
  file_map_self fun _ => ⟨rfl, rfl⟩

/-- The directory of the process and one file in it. -/
def World.Files (self name : String) (file : Option File) (w : World) : Prop :=
  w.self = self ∧ w.file self name = file

/-- A program that writes no file keeps the one of a name. -/
theorem ensures_files {α : Type} {x : Prog α} {self name : String}
    {file : Option File} (keeps : WritesOnly (fun _ => False) x)
    (before : w.Files self name file) :
    Ensures x (fun _ => World.Files self name file) (fun _ _ => True) w := by
  have after : ∀ w', w.Writes (fun _ => False) w' → w'.Files self name file :=
    fun w' writes => ⟨writes.self.trans before.1,
      (writes.file self name fun _ => id).trans before.2⟩
  exact (keeps w).mono (fun _ => after) fun _ _ _ => trivial

theorem ftruncate_files {self name : String} {file : Option File} {length : Nat}
    (before : w.Files self name file) :
    Ensures (Utils.ftruncate name length)
      (fun result w' =>
        (result = 0 ↔ (w.os 0).isDone = true ∧ length < 2 ^ 63) ∧
        w'.Files self name
          (if (w.os 0).isDone = true ∧ length < 2 ^ 63 then
            file.map (File.resize length)
          else file)) stop w := by
  apply Ensures.step rfl
  obtain ⟨rfl, rfl⟩ := before
  cases w.os 0 with
  | done value given =>
      by_cases fits : length < 2 ^ 63
      · refine (if_pos fits).symm ▸ Ensures.step rfl ?_
        rw [if_pos ⟨rfl, fits⟩]
        exact ⟨iff_of_true rfl ⟨rfl, fits⟩, rfl,
          truncateFile_file w.self name length⟩
      · refine (if_neg fits).symm ▸ Ensures.step rfl ?_
        rw [if_neg fun both => fits both.2]
        exact ⟨iff_of_false (by decide) fun both => fits both.2, rfl, rfl⟩
  | failed error =>
      refine Ensures.step rfl ⟨iff_of_false (by decide) ?_, rfl, rfl⟩
      exact fun both => Bool.false_ne_true both.1

theorem remap_files {self name : String} {file : Option File}
    {oldAddr oldSize newSize : Nat} (before : w.Files self name file) :
    Ensures (Utils.remap P oldAddr oldSize newSize name)
      (fun _ => World.Files self name
        (if (w.os 0).isDone = true ∧ newSize < 2 ^ 63 then
          file.map (File.resize newSize)
        else file)) (fun _ _ => True) w := by
  obtain ⟨rest, same, aside⟩ := remap_eq P oldAddr oldSize newSize name
  rw [same]
  refine (ftruncate_files before).bind fun result w₁ after => ?_
  exact ensures_files (aside result) after.2

theorem reopen_opens {name : String} :
    Ensures (Self.reopen name)
      (fun opened w' => w'.os 0 = w.os 1 ∧
        (opened = true ↔ (w.os 0).isDone = true ∧
          w.hasFile w.self name = true)) (fun _ _ => True) w :=
  reopen_spec.mono (fun _ _ ⟨_, os, opens⟩ => ⟨congrFun os 0, opens⟩)
    fun _ _ => id

theorem stretchCube_files {self : String} {file : Option File}
    (before : w.Files self cube.id file) :
    Ensures (stretchCube P cube newSize)
      (fun _ => World.Files self cube.id
        (if w.Resizes P cube newSize w.os then
          file.map (File.resize (ceilPagesize P newSize))
        else file)) (fun _ _ => True) w := by
  unfold stretchCube
  apply Ensures.step rfl
  split
  · rename_i foreign
    rw [if_neg fun resizes => foreign resizes.1]
    exact ensures_files (writesOnly_fail _ _ _) before
  · rename_i own
    split
    · rename_i short
      rw [if_neg fun resizes => Nat.not_lt.mpr short resizes.2.1]
      exact ensures_files ((writesOnly_unlock _).bind fun _ =>
        moves_pure _) before
    · rename_i long
      have opening := reopen_opens.and
        (ensures_files (writesOnly_reopen cube.id) before)
      refine Ensures.bind (opening.mono (fun _ _ => id)
        fun _ _ _ => trivial) ?_
      rintro opened w₁ ⟨⟨os, opens⟩, after⟩
      cases opened with
      | false =>
          have refused : ¬w.Resizes P cube newSize w.os := fun resizes =>
            Bool.false_ne_true (opens.mpr ⟨resizes.2.2.1, resizes.2.2.2.1⟩)
          rw [if_neg refused]
          exact ensures_files (writesOnly_getErrno.bind fun _ =>
            writesOnly_fail _ _ _) after
      | true =>
          have opened := opens.mp rfl
          have resizes : w.Resizes P cube newSize w.os ↔
              (w₁.os 0).isDone = true ∧ ceilPagesize P newSize < 2 ^ 63 := by
            rw [os]
            exact ⟨fun resizes => resizes.2.2.2.2, fun both =>
              ⟨not_not.mp own, not_le.mp long, opened.1, opened.2, both⟩⟩
          simp only [resizes]
          refine (remap_files after).bind fun result w₂ after => ?_
          cases result with
          | none =>
              exact ensures_files (writesOnly_getErrno.bind fun _ =>
                (writesOnly_close _).bind fun _ => writesOnly_fail _ _ _) after
          | some newAddr => exact after

theorem settleCube_files {self : String} {file : Option File} {newAddr : Nat}
    (before : w.Files self cube.id file) :
    Ensures (settleCube P cube newSize newAddr)
      (fun _ => World.Files self cube.id file) (fun _ _ => True) w :=
  ensures_files ((writesOnly_close _).bind fun _ =>
    writesOnly_changed (fun _ => ⟨rfl, rfl, rfl⟩)
      ((writesOnly_unlock _).bind fun _ => moves_pure _)) before

/-- How `inaccel_realloc` with a size ends on a block that it finds. -/
theorem inaccelRealloc_exact (given : addr ≠ 0) (asked : newSize ≠ 0)
    (found : w.cubes.find? (fun cube => cube.page.addr == addr) = some cube)
    (free : w.held = []) :
    Ensures (inaccelRealloc P addr newSize)
      (fun result w' =>
        w'.Files w.self cube.id (w.resized P cube newSize w.os) ∧
          match w.stretch P cube newSize w.os with
          | none => result = w.unmoved cube newSize ∧ w.Quiet w'
          | some (page, prot) => result = some page.addr ∧
              page.size = ceilPagesize P newSize ∧
              (w.put (w.moveCube P cube page prot)).Quiet w')
      (fun _ _ => False) w := by
  have resized : w.resized P cube newSize w.os =
      if w.Resizes P cube newSize w.os then
        (w.file w.self cube.id).map (File.resize (ceilPagesize P newSize))
      else w.file w.self cube.id := rfl
  rw [inaccelRealloc_eq, if_neg given, if_neg asked, resized]
  refine (findCube_spec free).bind ?_
  rintro result w₁ ⟨same, held⟩
  rw [found] at same
  subst same
  obtain rfl := held
  have files := @stretchCube_files P _ _ newSize w.self
    (w.file w.self cube.id)
    (show (w.holding [.cube cube.ptr]).Files w.self cube.id _ from ⟨rfl, rfl⟩)
  refine Ensures.bind (((stretchCube_spec free).and files).mono
    (fun _ _ => id) fun _ _ => And.left) ?_
  rintro result w₂ ⟨effect, files⟩
  cases stretched : w.stretch P cube newSize w.os with
  | none =>
      rw [stretched] at effect
      obtain ⟨rfl, quiet⟩ := effect
      exact ⟨files, rfl, quiet⟩
  | some moved =>
      obtain ⟨page, prot⟩ := moved
      rw [stretched] at effect
      obtain ⟨rfl, whole, quiet⟩ := effect
      refine (((settleCube_spec free quiet).and (settleCube_files files)).mono
        ?_ fun _ _ => And.left)
      rintro _ w₃ ⟨⟨rfl, moved⟩, files⟩
      rw [← whole] at moved
      exact ⟨files, rfl, congrArg Block.size whole, moved⟩

/-- It returns NULL when it frees. -/
theorem inaccelRealloc_empty (given : addr ≠ 0) (free : w.held = []) :
    Ensures (inaccelRealloc P addr 0) (fun result _ => result = none)
      (fun _ _ => False) w := by
  rw [inaccelRealloc_eq, if_neg given, if_pos rfl]
  refine (inaccelFree_spec free).bind fun _ w₁ _ => ?_
  exact Ensures.step rfl rfl

/-- It returns NULL for an address that it does not find. -/
theorem inaccelRealloc_lost (given : addr ≠ 0) (asked : newSize ≠ 0)
    (lost : w.cubes.find? (fun cube => cube.page.addr == addr) = none)
    (free : w.held = []) :
    Ensures (inaccelRealloc P addr newSize) (fun result _ => result = none)
      (fun _ _ => False) w := by
  rw [inaccelRealloc_eq, if_neg given, if_neg asked]
  refine (findCube_spec free).bind ?_
  rintro result w₁ ⟨same, -⟩
  rw [lost] at same
  subst same
  exact Ensures.step rfl rfl

end Files

end CoralApi
