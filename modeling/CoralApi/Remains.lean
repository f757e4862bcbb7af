import CoralApi.Branch

/-!
# What a failed allocation leaves

`inaccel_alloc` acquires an object, a mutex, a file with a descriptor, a
mapping and a place in the registry.  Each exit is followed from reply to
reply: the reply with a number belongs to one call.
-/

namespace CoralApi

open Program

/-- What a process holds of the operating system, and its registry. -/
structure Holdings where
  files : List File
  fds : List String
  maps : List Mapping
  objects : List Nat
  mutexes : List Nat
  cubes : List Cube

def Process.holdings (p : Process) : Holdings :=
  ⟨p.files, p.fds, p.maps, p.objects, p.mutexes, p.cubes⟩

/-- The first calls took so many replies and left these holdings. -/
structure World.Leads (w : World) (count : Nat) (holdings : Holdings)
    (w' : World) : Prop where
  os : ∀ index, w'.os index = w.os (count + index)
  held : w'.held = w.held
  self : w'.self = w.self
  holdings : w'.holdings = holdings

section Calls

variable {P : PageSize} {w₀ w : World} {count ptr : Nat} {h : Holdings}
  {stop : Stop → World → Prop}

theorem World.Leads.refl (w : World) : w.Leads 0 w.holdings w :=
  ⟨fun index => by rw [Nat.zero_add], rfl, rfl, rfl⟩

theorem World.Leads.next (before : w₀.Leads count h w) :
    w.os 0 = w₀.os count := before.os 0

theorem World.Leads.put {p : Process} {h' : Holdings}
    (before : w₀.Leads count h w) (self : p.self = w.self)
    (holdings : p.holdings = h') : w₀.Leads count h' (w.put p) :=
  ⟨before.os, before.held, self.trans before.self, holdings⟩

theorem World.Leads.more (before : w₀.Leads count h w) :
    w₀.Leads (count + 1) h w.asked := by
  refine ⟨fun index => ?_, before.held, before.self, before.holdings⟩
  show w.os (index + 1) = _
  rw [before.os, Nat.add_assoc, Nat.add_comm 1]

theorem World.Leads.errno (before : w₀.Leads count h w) (errno : Nat) :
    w₀.Leads count h { w with errno := errno } :=
  ⟨before.os, before.held, before.self, before.holdings⟩

/-- A call whose failure is only logged. -/
theorem logged_leads {effect : Process → Process} {h : Bool → Holdings}
    (before : w₀.Leads count (h false) w)
    (self : (effect w.toProcess).self = w.self)
    (after : (effect w.toProcess).holdings = h true) :
    Ensures (logged effect)
      (fun _ => w₀.Leads (count + 1) (h (w₀.os count).isDone)) stop w := by
  rw [← before.next]
  unfold Ensures logged
  cases w.os 0 with
  | done value name => exact before.more.put self after
  | failed error => exact before.more.errno error

theorem free_leads (before : w₀.Leads count h w) :
    Ensures (Utils.free ptr)
      (fun _ => w₀.Leads (count + 1)
        { h with
          objects := if (w₀.os count).isDone then h.objects.erase ptr
            else h.objects }) stop w := by
  obtain rfl := before.holdings
  exact @logged_leads _ _ _ _ _ (fun done =>
    { w.holdings with
      objects := if done then w.objects.erase ptr else w.objects })
    before rfl rfl

theorem close_leads {id : String} (before : w₀.Leads count h w) :
    Ensures (Self.close id)
      (fun _ => w₀.Leads (count + 1)
        { h with
          fds := if (w₀.os count).isDone then h.fds.erase id else h.fds })
      stop w := by
  obtain rfl := before.holdings
  exact @logged_leads _ _ _ _ _ (fun done =>
    { w.holdings with fds := if done then w.fds.erase id else w.fds })
    before rfl rfl

theorem unmap_leads {block : Block} (before : w₀.Leads count h w) :
    Ensures (Utils.unmap block.addr block.size)
      (fun _ => w₀.Leads (count + 1)
        { h with
          maps := if (w₀.os count).isDone then
              h.maps.filter fun mapping => mapping.block ≠ block
            else h.maps }) stop w := by
  obtain rfl := before.holdings
  exact @logged_leads _ _ _ _ _ (fun done =>
    { w.holdings with
      maps := if done then w.maps.filter fun mapping => mapping.block ≠ block
        else w.maps })
    before rfl rfl

/-- The files apart from one. -/
def otherFiles (dir id : String) (files : List File) : List File :=
  files.filter fun file => !(file.dir == dir && file.id == id)

theorem unlink_leads {id : String} (before : w₀.Leads count h w) :
    Ensures (Self.unlink id)
      (fun _ => w₀.Leads (count + 1)
        { h with
          files := if (w₀.os count).isDone then otherFiles w₀.self id h.files
            else h.files }) stop w := by
  obtain rfl := before.holdings
  rw [← before.self]
  refine Ensures.step rfl (@logged_leads _ _ _ _ _ (fun done =>
    { w.holdings with
      files := if done then otherFiles w.self id w.files else w.files })
    (before.put rfl rfl) rfl rfl)

theorem destroyMutex_leads (before : w₀.Leads count h w) :
    Ensures (Utils.destroyMutex ptr)
      (fun _ => w₀.Leads count { h with mutexes := h.mutexes.erase ptr })
      stop w := by
  obtain rfl := before.holdings
  exact before.put rfl rfl

theorem alloc_leads (before : w₀.Leads count h w) :
    Ensures Utils.alloc
      (fun result w' =>
        if (w₀.os count).isDone then ∃ ptr, result = some ptr ∧
          w₀.Leads (count + 1) { h with objects := ptr :: h.objects } w'
        else result = none ∧ w₀.Leads (count + 1) h w') stop w := by
  rw [← before.next]
  apply Ensures.step rfl
  cases w.os 0 with
  | done value name =>
      refine Ensures.step rfl (Ensures.step rfl ?_)
      refine ⟨w.nextPtr, rfl, ?_⟩
      obtain rfl := before.holdings
      exact before.more.put rfl rfl
  | failed error => exact ⟨rfl, before.more.errno error⟩

theorem initMutex_leads (before : w₀.Leads count h w) :
    Ensures (Utils.initMutex ptr)
      (fun error w' =>
        if (w₀.os count).isDone then error = 0 ∧
          w₀.Leads (count + 1) { h with mutexes := ptr :: h.mutexes } w'
        else error ≠ 0 ∧ w₀.Leads (count + 1) h w') stop w := by
  rw [← before.next]
  apply Ensures.step rfl
  cases w.os 0 with
  | done value name =>
      refine Ensures.step rfl ⟨rfl, ?_⟩
      obtain rfl := before.holdings
      exact before.more.put rfl rfl
  | failed error => exact ⟨Nat.pos_iff_ne_zero.mp error.2, before.more⟩

/-- The reply of `mkstemp` names a new file. -/
def Process.opens (p : Process) : Reply → Option String
  | .done _ id => if p.hasFile p.self id then none else some id
  | .failed _ => none

theorem linkOpen_leads (before : w₀.Leads count h w)
    (files : h.files = w₀.files) :
    Ensures Self.linkOpen
      (fun result w' => result = w₀.opens (w₀.os count) ∧
        w₀.Leads (count + 1)
          (match result with
          | some id =>
              { h with
                files := ⟨w₀.self, id, 0, fun _ => 0⟩ :: h.files
                fds := id :: h.fds }
          | none => h) w') stop w := by
  have known : ∀ id, w.hasFile w.self id = w₀.hasFile w₀.self id := by
    intro id
    have same : w.files = h.files := congrArg Holdings.files before.holdings
    unfold Process.hasFile
    rw [same, files, before.self]
  rw [← before.next]
  apply Ensures.step rfl
  cases w.os 0 with
  | done value id =>
      apply Ensures.step rfl
      show Ensures (if w.hasFile w.self id then _ else _) _ _ _
      simp only [Process.opens]
      rw [known]
      split
      · exact Ensures.step rfl ⟨rfl, before.more.errno _⟩
      · refine Ensures.step rfl ⟨rfl, ?_⟩
        obtain rfl := before.holdings
        refine before.more.put rfl ?_
        rw [← before.self]
        rfl
  | failed error => exact Ensures.step rfl ⟨rfl, before.more.errno _⟩

/-- One file may have another length. -/
structure Resized (dir id : String) (files files' : List File) : Prop where
  length : files'.length = files.length
  others : otherFiles dir id files' = otherFiles dir id files

theorem resized_truncate {p : Process} {dir id : String} {length : Nat} :
    Resized dir id p.files (p.truncateFile dir id length).files := by
  refine ⟨List.length_map _, ?_⟩
  unfold otherFiles Process.truncateFile
  dsimp only
  induction p.files with
  | nil => rfl
  | cons file files induction =>
      rw [List.map_cons]
      by_cases hit : file.dir = dir ∧ file.id = id
      · rw [if_pos hit, List.filter_cons_of_neg (by simp [hit]), induction,
          List.filter_cons_of_neg (by simp [hit])]
      · have other := not_and_or.mp hit
        rw [if_neg hit, List.filter_cons_of_pos (by simpa using other),
          induction, List.filter_cons_of_pos (by simpa using other)]

theorem ftruncate_leads {id : String} {length : Nat}
    (before : w₀.Leads count h w) :
    Ensures (Utils.ftruncate id length)
      (fun result w' =>
        (result = 0 ↔ (w₀.os count).isDone ∧ length < 2 ^ 63) ∧
        ∃ files, Resized w₀.self id h.files files ∧
          w₀.Leads (count + 1) { h with files := files } w') stop w := by
  rw [← before.next]
  obtain rfl := before.holdings
  apply Ensures.step rfl
  cases w.os 0 with
  | done value name =>
      by_cases fits : length < 2 ^ 63
      · refine (if_pos fits).symm ▸ Ensures.step rfl ?_
        refine ⟨iff_of_true rfl ⟨rfl, fits⟩,
          (w.truncateFile w.self id length).files, ?_, before.more.put rfl rfl⟩
        rw [← before.self]
        exact resized_truncate
      · refine (if_neg fits).symm ▸ Ensures.step rfl ?_
        exact ⟨iff_of_false (by decide) fun both => fits both.2, _,
          ⟨rfl, rfl⟩, before.more.errno _⟩
  | failed error =>
      refine Ensures.step rfl ⟨iff_of_false (by decide) ?_, _, ⟨rfl, rfl⟩,
        before.more.errno _⟩
      exact fun both => Bool.false_ne_true both.1

/-- The address that `mmap` gives after `ftruncate`, if neither fails. -/
def backing (P : PageSize) (size : Nat) (maps : List Mapping) :
    Reply → Reply → Option Nat
  | .done _ _, .done addr _ =>
      if size < 2 ^ 63 ∧ Process.Admits P ⟨addr, size⟩ maps then some addr
      else none
  | _, _ => none

theorem map_leads {size : Nat} {id : String} (before : w₀.Leads count h w) :
    Ensures (Utils.map P size id)
      (fun result w' =>
        result = backing P size h.maps (w₀.os count) (w₀.os (count + 1)) ∧
        ∃ asked files, Resized w₀.self id h.files files ∧
          w₀.Leads asked
            { h with
              files := files
              maps := match result with
                | some addr => ⟨⟨addr, size⟩, w₀.self, id⟩ :: h.maps
                | none => h.maps } w' ∧
          (result ≠ none → asked = count + 2)) stop w := by
  refine (ftruncate_leads before).bind ?_
  rintro result w₁ ⟨made, files, resized, after⟩
  by_cases zero : result = 0
  · rw [if_pos zero]
    obtain ⟨done, fits⟩ := made.mp zero
    have maps : w₁.maps = h.maps := congrArg Holdings.maps after.holdings
    rw [← after.next]
    apply Ensures.step rfl
    cases first : w₀.os count with
    | failed error => rw [first] at done; cases done
    | done value name =>
        cases w₁.os 0 with
        | done addr name =>
            refine Ensures.step rfl ?_
            show Ensures (if Process.Admits P ⟨addr, size⟩ w₁.maps then _
              else _) _ _ _
            simp only [backing]
            rw [maps]
            by_cases admits : Process.Admits P ⟨addr, size⟩ h.maps
            · rw [if_pos admits, if_pos ⟨fits, admits⟩]
              refine Ensures.step rfl ⟨rfl, count + 2, files, resized, ?_,
                fun _ => rfl⟩
              have mapped : (w₁.mapBlock P ⟨addr, size⟩ w₁.self id).holdings =
                  { w₁.holdings with
                    maps := ⟨⟨addr, size⟩, w₁.self, id⟩ :: w₁.holdings.maps } :=
                rfl
              rw [after.holdings] at mapped
              rw [← after.self]
              exact after.more.put rfl mapped
            · rw [if_neg admits, if_neg fun both => admits both.2]
              exact Ensures.step rfl ⟨rfl, count + 2, files, resized,
                after.more.errno _, fun _ => rfl⟩
        | failed error =>
            exact Ensures.step rfl ⟨rfl, count + 2, files, resized,
              after.more.errno _, fun _ => rfl⟩
  · rw [if_neg zero]
    have none_eq : backing P size h.maps (w₀.os count) (w₀.os (count + 1)) =
        none := by
      unfold backing
      split
      · rename_i first _
        refine if_neg fun both => zero (made.mpr ⟨?_, both.1⟩)
        rw [first]
        rfl
      · rfl
    exact ⟨none_eq.symm, count + 1, files, resized, after,
      fun found => (found rfl).elim⟩

theorem setCube_leads {cube : Cube} (before : w₀.Leads count h w) :
    Ensures (Collection.setCube cube)
      (fun result w' =>
        (result = 0 ↔ (w₀.os count).isDone) ∧
        (result ≠ 0 → w₀.Leads (count + 1) h w')) stop w := by
  rw [← before.next]
  apply Ensures.step rfl
  cases w.os 0 with
  | done value name =>
      exact Ensures.step rfl ⟨iff_of_true rfl rfl,
        fun failed => (failed rfl).elim⟩
  | failed error =>
      exact Ensures.step rfl ⟨iff_of_false (by decide) Bool.false_ne_true,
        fun _ => before.more.errno _⟩

theorem World.Leads.locked (before : w₀.Leads count h w) (locks : List Lock) :
    (w₀.holding locks).Leads count h (w.holding locks) :=
  ⟨before.os, rfl, before.self, before.holdings⟩

theorem World.Leads.unlocked {locks locks' : List Lock}
    (before : (w₀.holding locks).Leads count h w) (held : locks' = w₀.held) :
    w₀.Leads count h (w.holding locks') :=
  ⟨before.os, held, before.self, before.holdings⟩

theorem registerCube_leads {cube : Cube} (free : w₀.held = [])
    (before : w₀.Leads count h w) :
    Ensures (registerCube cube)
      (fun result w' =>
        (result = none ↔ (w₀.os count).isDone) ∧
        (result ≠ none → w₀.Leads (count + 1) h w')) stop w := by
  have idle : w.held = [] := before.held.trans free
  apply Ensures.step (lock_run (by simp [idle]))
  rw [idle]
  refine (setCube_leads (before.locked [.cubes])).bind ?_
  rintro result w₁ ⟨made, after⟩
  split
  · rename_i refused
    have held : w₁.held = [.cubes] := (after refused).held
    apply Ensures.step rfl
    apply Ensures.step (unlock_run (by simp [held]))
    refine ⟨iff_of_false (by simp) fun done => refused (made.mpr done),
      fun _ => (after refused).unlocked ?_⟩
    rw [held, free]
    rfl
  · rename_i stored
    have stored := not_not.mp stored
    refine unlock_same.bind fun _ w₂ _ => ?_
    exact ⟨iff_of_true rfl (made.mp stored), fun failed => (failed rfl).elim⟩

theorem dropCube_leads {cube : Cube} {errsv : Nat}
    (before : w₀.Leads count h w) :
    Ensures (dropCube cube errsv)
      (fun _ => w₀.Leads (count + 3)
        { h with
          maps := if (w₀.os count).isDone then
              h.maps.filter fun mapping => mapping.block ≠ cube.page
            else h.maps
          files := if (w₀.os (count + 1)).isDone then
              otherFiles w₀.self cube.id h.files
            else h.files
          mutexes := h.mutexes.erase cube.ptr
          objects := if (w₀.os (count + 2)).isDone then
              h.objects.erase cube.ptr
            else h.objects }) stop w := by
  refine (unmap_leads before).bind fun _ w₁ unmapped => ?_
  refine (unlink_leads unmapped).bind fun _ w₂ unlinked => ?_
  refine (destroyMutex_leads unlinked).bind fun _ w₃ destroyed => ?_
  refine (free_leads destroyed).bind fun _ w₄ freed => ?_
  exact freed.errno errsv

end Calls

section Exits

variable {P : PageSize} {w w' : World} {ptr size : Nat}

/-- What is one longer is not given back. -/
theorem kept_iff {α : Type} {done : Bool} {items more : List α}
    (longer : more.length = items.length + 1) :
    (if done then items else more) = items ↔ done := by
  cases done with
  | true => simp
  | false =>
      refine iff_of_false (fun same => ?_) Bool.false_ne_true
      have same : more = items := same
      rw [same] at longer
      exact Nat.succ_ne_self _ longer.symm

/-- The exit of `inaccel_alloc` without a file. -/
theorem free_exit {count : Nat} {errsv : Nat}
    (before : w.Leads count { w.holdings with
      objects := ptr :: w.objects } w') :
    Ensures (do
        Utils.free ptr
        setErrno errsv
        return (none : Option Cube))
      (fun result w'' => result = none ∧
        (w''.holdings = w.holdings ↔ (w.os count).isDone))
      (fun _ _ => False) w' := by
  refine (free_leads before).bind fun _ w₁ freed => ?_
  have longer : (ptr :: w.objects).length = w.objects.length + 1 := rfl
  refine Ensures.step rfl ⟨rfl, Iff.trans ?_ (kept_iff longer)⟩
  show w₁.holdings = w.holdings ↔ _
  rw [freed.holdings, List.erase_cons_head]
  simp only [Process.holdings, Holdings.mk.injEq, true_and, and_true]

/-- No call that `inaccel_alloc` needs for a block fails. -/
def World.allocates (P : PageSize) (size : Nat) (w : World) : Bool :=
  (w.os 0).isDone && (w.os 1).isDone && (w.opens (w.os 2)).isSome &&
    (backing P (ceilPagesize P size) w.maps (w.os 3) (w.os 4)).isSome &&
    (w.os 6).isDone

/-- Whatever a failing `inaccel_alloc` has acquired it gives back: no call
maps a file in vain, and the calls of its exit that give back succeed. -/
def World.undoes (P : PageSize) (size : Nat) (w : World) : Bool :=
  if !(w.os 0).isDone then true
  else if !(w.os 1).isDone then (w.os 2).isDone
  else
    match w.opens (w.os 2) with
    | none => (w.os 3).isDone
    | some _ =>
        match backing P (ceilPagesize P size) w.maps (w.os 3) (w.os 4) with
        -- nothing on this exit unlinks the file
        | none => false
        | some _ => (w.os 6).isDone ||
            [5, 7, 8, 9].all fun index => (w.os index).isDone

/-- What `inaccel_alloc` holds when it comes to its lock. -/
structure World.Acquires (P : PageSize) (w : World) (size : Nat) (cube : Cube)
    (w' : World) : Prop where
  undoes : w.undoes P size = ((w.os 6).isDone ||
    [5, 7, 8, 9].all fun index => (w.os index).isDone)
  allocates : w.allocates P size = (w.os 6).isDone
  unused : w.hasFile w.self cube.id = false
  admits : Process.Admits P cube.page w.maps
  leads : ∃ files,
    Resized w.self cube.id (⟨w.self, cube.id, 0, fun _ => 0⟩ :: w.files)
      files ∧
    w.Leads 6
      { files := files
        fds := if (w.os 5).isDone then w.fds else cube.id :: w.fds
        maps := ⟨cube.page, w.self, cube.id⟩ :: w.maps
        objects := cube.ptr :: w.objects
        mutexes := cube.ptr :: w.mutexes
        cubes := w.cubes } w'

theorem opens_unused {reply : Reply} {id : String}
    (opened : w.opens reply = some id) : w.hasFile w.self id = false := by
  unfold Process.opens at opened
  split at opened
  · split at opened
    · cases opened
    · cases opened
      exact Bool.not_eq_true _ ▸ ‹_›
  · cases opened

theorem backing_admits {maps : List Mapping} {first second : Reply}
    {addr : Nat} (backed : backing P size maps first second = some addr) :
    Process.Admits P ⟨addr, size⟩ maps := by
  unfold backing at backed
  split at backed
  · split at backed
    · cases backed
      exact (‹_ ∧ _›).2
    · cases backed
  · cases backed

theorem makeCube_leads :
    Ensures (makeCube P size)
      (fun result w' =>
        match result with
        | none => (w'.holdings = w.holdings ↔ w.undoes P size) ∧
            w.allocates P size = false
        | some cube => w.Acquires P size cube w')
      (fun _ _ => False) w := by
  unfold makeCube
  refine (alloc_leads (.refl w)).bind ?_
  intro result w₁ allocated
  by_cases done₀ : (w.os 0).isDone
  · rw [if_pos done₀] at allocated
    obtain ⟨ptr, rfl, allocated⟩ := allocated
    apply Ensures.step rfl
    refine (initMutex_leads allocated).bind ?_
    intro error w₂ locked
    by_cases done₁ : (w.os 1).isDone
    · rw [if_pos done₁] at locked
      obtain ⟨rfl, locked⟩ := locked
      rw [if_neg (not_not.mpr rfl)]
      refine (linkOpen_leads locked rfl).bind ?_
      rintro _ w₃ ⟨rfl, opened⟩
      cases made : w.opens (w.os 2) with
      | none =>
          rw [made] at opened
          apply Ensures.step rfl
          refine (destroyMutex_leads opened).bind fun _ w₄ destroyed => ?_
          have destroyed : w.Leads 3 { w.holdings with
              objects := ptr :: w.objects } w₄ := by
            rw [List.erase_cons_head] at destroyed
            exact destroyed
          refine (free_exit destroyed).mono ?_ fun _ _ => id
          rintro _ w₅ ⟨rfl, restored⟩
          refine ⟨?_, by simp [World.allocates, made]⟩
          simpa [World.undoes, done₀, done₁, made] using restored
      | some id =>
          rw [made] at opened
          have opened : w.Leads 3
              { files := ⟨w.self, id, 0, fun _ => 0⟩ :: w.files
                fds := id :: w.fds
                maps := w.maps
                objects := ptr :: w.objects
                mutexes := ptr :: w.mutexes
                cubes := w.cubes } w₃ := opened
          refine (map_leads opened).bind ?_
          rintro result w₄ ⟨backed, asked, files, resized, mapped, counted⟩
          cases result with
          | none =>
              apply Ensures.step rfl
              refine (close_leads mapped).bind fun _ w₅ closed => ?_
              refine (destroyMutex_leads closed).bind fun _ w₆ destroyed => ?_
              refine (free_leads destroyed).bind fun _ w₇ freed => ?_
              refine Ensures.step rfl ⟨iff_of_false (fun same => ?_) ?_,
                by simp [World.allocates, made, ← backed]⟩
              · have same : files = w.files :=
                  congrArg Holdings.files (freed.holdings.symm.trans same)
                have longer := resized.length
                rw [same] at longer
                exact absurd longer.symm (Nat.succ_ne_self _)
              · simp [World.undoes, done₀, done₁, made, ← backed]
          | some addr =>
              obtain rfl := counted (by simp)
              refine (close_leads mapped).bind fun _ w₅ closed => ?_
              rw [List.erase_cons_head] at closed
              have unused := opens_unused made
              exact ⟨by simp [World.undoes, done₀, done₁, made, ← backed],
                by simp [World.allocates, done₀, done₁, made, ← backed],
                unused, backing_admits backed.symm, files, resized, closed⟩
    · rw [if_neg done₁] at locked
      obtain ⟨failed, locked⟩ := locked
      rw [if_pos failed]
      apply Ensures.step rfl
      refine (free_exit locked).mono ?_ fun _ _ => id
      rintro _ w₃ ⟨rfl, restored⟩
      refine ⟨?_, by simp [World.allocates, done₁]⟩
      simpa [World.undoes, done₀, done₁] using restored
  · rw [if_neg done₀] at allocated
    obtain ⟨rfl, allocated⟩ := allocated
    refine ⟨iff_of_true allocated.holdings ?_,
      by simp [World.allocates, done₀]⟩
    simp [World.undoes, done₀]

/-- The other files are the old ones. -/
theorem Resized.others_eq {dir id : String} {file : File}
    {files files' : List File} (resized : Resized dir id (file :: files) files')
    (named : file.dir = dir ∧ file.id = id)
    (unused : files.any (fun file => file.dir == dir && file.id == id) =
      false) : otherFiles dir id files' = files := by
  rw [resized.others]
  unfold otherFiles
  rw [List.filter_cons_of_neg (by simp [named]), List.filter_eq_self]
  intro other inside
  have different := List.any_eq_false.mp unused other inside
  rw [Bool.eq_false_of_not_eq_true different]
  rfl

theorem publishCube_leads {cube : Cube} (free : w.held = [])
    (acquires : w.Acquires P size cube w') :
    Ensures (publishCube cube)
      (fun result w'' =>
        ((result = none → w''.holdings = w.holdings) ↔ w.undoes P size) ∧
          (result.isSome ↔ w.allocates P size))
      (fun _ _ => False) w' := by
  obtain ⟨undoes, allocates, unused, admits, files, resized, leads⟩ := acquires
  unfold publishCube
  refine (registerCube_leads free leads).bind ?_
  rintro result w₁ ⟨registered, after⟩
  rw [undoes, allocates]
  cases result with
  | none =>
      refine ⟨iff_of_true (fun failed => by cases failed) ?_,
        iff_of_true rfl (registered.mp rfl)⟩
      simp [registered.mp rfl]
  | some errsv =>
      have refused : (w.os 6).isDone = false := by
        simpa using registered
      refine (dropCube_leads (after (by simp))).bind fun _ w₂ dropped => ?_
      have maps : (⟨cube.page, w.self, cube.id⟩ :: w.maps : List Mapping).filter
          (fun mapping => mapping.block ≠ cube.page) = w.maps := by
        rw [List.filter_cons_of_neg (by simp)]
        apply List.filter_eq_self.mpr
        intro mapping inside
        simpa using (admits.2.2.2.2 mapping inside).ne admits.2.1
      have holdings := dropped.holdings
      rw [maps, resized.others_eq ⟨rfl, rfl⟩ unused, List.erase_cons_head,
        List.erase_cons_head] at holdings
      have holdings : w₂.holdings =
          { files := if (w.os 8).isDone then w.files else files
            fds := if (w.os 5).isDone then w.fds else cube.id :: w.fds
            maps := if (w.os 7).isDone then w.maps
              else ⟨cube.page, w.self, cube.id⟩ :: w.maps
            objects := if (w.os 9).isDone then w.objects
              else cube.ptr :: w.objects
            mutexes := w.mutexes
            cubes := w.cubes } := holdings
      refine ⟨?_, iff_of_false Bool.false_ne_true (by simp [refused])⟩
      show (none = none → w₂.holdings = w.holdings) ↔ _
      rw [holdings, Process.holdings, Holdings.mk.injEq,
        kept_iff resized.length, kept_iff List.length_cons,
        kept_iff List.length_cons, kept_iff List.length_cons]
      simp only [refused, Bool.false_or, List.all_cons, List.all_nil,
        Bool.and_true, Bool.and_eq_true, forall_const, and_true]
      tauto

theorem inaccelAlloc_leads (free : w.held = []) :
    Ensures (inaccelAlloc P size)
      (fun result w' =>
        ((result = none → w'.holdings = w.holdings) ↔
          size = 0 ∨ w.undoes P size) ∧
        (result.isSome ↔ size ≠ 0 ∧ w.allocates P size))
      (fun _ _ => False) w := by
  rw [inaccelAlloc_eq]
  split
  · rename_i empty
    exact ⟨iff_of_true (fun _ => rfl) (.inl empty),
      iff_of_false Bool.false_ne_true fun both => both.1 empty⟩
  · rename_i asked
    refine makeCube_leads.bind fun result w₁ made => ?_
    rw [or_iff_right asked, and_iff_right asked]
    cases result with
    | none =>
        refine ⟨(forall_prop_of_true rfl).trans made.1, ?_⟩
        rw [made.2]
        exact iff_of_false Bool.false_ne_true Bool.false_ne_true
    | some cube => exact publishCube_leads free made

end Exits

/-- A call of `inaccel_alloc` that returns NULL leaves the process as it
found it. -/
def LeavesNothing (P : PageSize) (size errno : Nat) (p : Process)
    (os : Nat → Reply) : Prop :=
  Ensures (inaccelAlloc P size)
    (fun result w => result = none → w.holdings = p.holdings)
    (fun _ _ => False) (p.enter errno os)

theorem leavesNothing_iff (P : PageSize) (size errno : Nat) (p : Process)
    (os : Nat → Reply) :
    LeavesNothing P size errno p os ↔
      size = 0 ∨ (p.enter errno os).undoes P size :=
  (inaccelAlloc_leads rfl).iff (fun _ _ => And.left) fun _ _ => False.elim

/-- The file is made and sized, and `mmap` fails. -/
theorem not_leavesNothing : ¬∀ (P : PageSize) (size errno : Nat) (p : Process)
    (os : Nat → Reply), LeavesNothing P size errno p os := by
  intro claim
  have left := claim .small 1 0 (.loaded 1 "d") fun index =>
    if index = 4 then .failed ENOMEM else .done 0 "cube"
  have run : returned (inaccelAlloc .small 1
      ((Process.loaded 1 "d").enter 0 fun index =>
        if index = 4 then .failed ENOMEM else .done 0 "cube")) = some none := by
    decide +kernel
  have same := left.of_ok (eq_ok_final run) rfl
  have files := congrArg (fun h : Holdings => h.files.length) same
  exact absurd files (by decide +kernel)

end CoralApi
