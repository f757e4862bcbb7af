import CoralApi.Tame

/-!
# Every function keeps to the order

One lemma for each function: the mutexes that it takes while it holds others,
and what it holds at its end.
-/

namespace CoralApi

open Program

/-- A thread looks at the cubes. -/
theorem Grip.Meets.meeting {g : Grip} {p : Process} (meets : g.Meets p)
    {seen : Nat → Prop} (met : ∀ ptr, seen ptr → g.seen ptr ∨
      ∃ cube ∈ p.live, cube.ptr = ptr) :
    g.Moves p { g with seen := seen } p :=
  { (Process.Steady.refl p).moves meets with seen := met }

section Rules

variable {calm : Prop} {fail : Grip → Prop} {α β : Type} {g : Grip}
variable {post : β → Grip → Prop}

/-- Any mutex but the global lock of `cube.c`. -/
theorem safe_lock_other {mutex : Lock} {next : Unit → Script β}
    (other : mutex ≠ .cubes) (may : g.MayLock mutex)
    (rest : Safe calm fail (next ()) post (g.locked mutex)) :
    Safe calm fail (Stepwise.lock mutex >>= next) post g := by
  apply safe_lock may
  intro known
  rw [if_neg other]
  exact rest

theorem safe_lock_cubes {next : Unit → Script β} (free : g.held = ∅)
    (rest : ∀ known, Safe calm fail (next ()) post
      ((g.locked .cubes).knows known)) :
    Safe calm fail (Stepwise.lock .cubes >>= next) post g := by
  apply safe_lock ⟨.inl free, by simp⟩
  intro known
  rw [if_pos rfl]
  exact rest known

theorem safe_derefSlice {ptr : Nat} {next : Cube × Slice → Script β}
    (rest : ∀ cube slice, Safe calm fail (next (cube, slice)) post
      (g.sees cube.ptr)) :
    Safe calm fail ((derefSlice ptr : Script _) >>= next) post g := by
  apply safe_call
  intro w meets _
  simp only [derefSlice, Ensures]
  cases found : w.findSlice ptr with
  | none => simp
  | some pair =>
      obtain ⟨cube, slice⟩ := pair
      refine ⟨g.sees cube.ptr, meets.meeting ?_, rest cube slice⟩
      rintro other (rfl | seen)
      · exact .inr ⟨cube, (findSlice_mem found).1, rfl⟩
      · exact .inl seen

theorem safe_derefCube {ptr : Nat} {next : Cube → Script β}
    (rest : ∀ cube, cube.ptr = ptr → Safe calm fail (next cube) post g) :
    Safe calm fail ((derefCube ptr : Script _) >>= next) post g := by
  apply safe_call
  intro w meets _
  simp only [derefCube, Ensures]
  cases found : w.live.find? fun cube => cube.ptr == ptr with
  | none => simp
  | some cube =>
      refine ⟨g, meets.meeting fun _ => .inl, rest cube ?_⟩
      simpa using List.find?_some found

/-- The registry, read under the global lock. -/
theorem safe_pointers {next : List Nat → Script β} (held : .cubes ∈ g.held)
    (rest : g.known.Nodup → Safe calm fail (next g.known) post
      g.scans) :
    Safe calm fail ((pointers : Script _) >>= next) post g := by
  apply safe_call
  intro w meets _
  have same := meets.known held
  have distinct : g.known.Nodup := same ▸ meets.distinct
  refine ⟨g.scans, meets.meeting ?_, ?_⟩
  · rintro ptr (member | seen)
    · rw [← same, Process.pointers] at member
      obtain ⟨cube, inside, rfl⟩ := List.mem_map.mp member
      exact .inr ⟨cube, List.mem_append_left _ inside, rfl⟩
    · exact .inl seen
  · rw [same]
    exact rest distinct

/-- A scan of the registry, under the global lock. -/
def Grip.Scanned (g : Grip) (ptrs : List Nat) : Option Cube → Grip → Prop
  | none, g' => g' = g
  | some cube, g' => cube.ptr ∈ ptrs ∧ g' = g.locked (.cube cube.ptr)

theorem safe_scan {found : Cube → Bool} {ptrs : List Nat}
    (held : g.held = {.cubes}) (seen : ∀ ptr ∈ ptrs, g.seen ptr) :
    Safe calm fail (Stepwise.scan found ptrs) (g.Scanned ptrs) g := by
  induction ptrs with
  | nil => exact rfl
  | cons ptr ptrs induction =>
      have free : .cube ptr ∉ g.held := by simp [held]
      unfold Stepwise.scan
      apply safe_lock_other (by simp)
      · refine ⟨.inr ⟨ptr, rfl, free, .inl (by simp [held])⟩, ?_⟩
        rintro other ⟨⟩
        exact seen ptr List.mem_cons_self
      · apply safe_derefCube
        intro cube same
        split
        · refine ⟨?_, ?_⟩
          · rw [same]
            exact List.mem_cons_self
          · rw [same]
        · apply safe_unlock (by simp)
          rw [Grip.locked_unlocked free]
          have tail := induction fun other member =>
            seen other (List.mem_cons_of_mem _ member)
          refine tail.mono ?_
          intro result g' scanned
          cases result with
          | none => exact scanned
          | some cube =>
              exact ⟨List.mem_cons_of_mem _ scanned.1, scanned.2⟩

/-- The critical sections that start with a scan and hand over to the mutex of
the cube. -/
theorem safe_find {found : Cube → Bool} {next : Option Cube → Script β}
    (free : g.held = ∅)
    (missed : ∀ g', g'.held = {.cubes} → Safe calm fail (next none) post g')
    (hit : ∀ cube g', g'.held = {.cube cube.ptr, .cubes} →
      cube.ptr ∈ g'.known → g'.known.Nodup →
      Safe calm fail (next (some cube)) post g') :
    Safe calm fail (do
      Stepwise.lock .cubes
      let ptrs ← (pointers : Script _)
      let cube ← Stepwise.scan found ptrs
      next cube) post g := by
  apply safe_lock_cubes free
  intro known
  apply safe_pointers (by simp)
  intro distinct
  have held : ((g.locked .cubes).knows known).scans.held = {.cubes} := by
    simp [free]
  apply (safe_scan held fun ptr => .inl).bind
  intro result g' scanned
  cases result with
  | none =>
      apply missed
      rw [scanned, held]
  | some cube =>
      obtain ⟨member, rfl⟩ := scanned
      refine hit cube _ ?_ member distinct
      rw [Grip.locked_held, held]

end Rules

/-- A registered cube leaves the registry, under the global lock. -/
theorem safe_unsetCube {calm : Prop} {fail : Grip → Prop} {α : Type} {g : Grip}
    {cube : Cube} {next : Unit → Script α} {post : α → Grip → Prop}
    (held : .cubes ∈ g.held) (registered : cube.ptr ∈ g.known)
    (rest : ∀ g' : Grip, g'.held = g.held → Safe calm fail (next ()) post g') :
    Safe calm fail ((Collection.unsetCube cube : Script _) >>= next) post
      g := by
  apply safe_call
  intro w meets _
  have sublist : List.Sublist ((w.cubes.filter fun other =>
      other.ptr ≠ cube.ptr).map Cube.ptr) w.pointers :=
    List.filter_sublist.map _
  have live : ∀ other ∈ w.cubes.filter (fun other => other.ptr ≠ cube.ptr) ++
      cube :: w.orphans, ∃ old ∈ w.live, old.ptr = other.ptr := by
    intro other member
    rcases List.mem_append.mp member with stays | leaves
    · exact ⟨other, List.mem_append_left _ (List.mem_of_mem_filter stays), rfl⟩
    · rcases List.mem_cons.mp leaves with rfl | orphan
      · rw [← meets.known held, Process.pointers] at registered
        obtain ⟨old, member, same⟩ := List.mem_map.mp registered
        exact ⟨old, List.mem_append_left _ member, same⟩
      · exact ⟨other, List.mem_append_right _ orphan, rfl⟩
  refine ⟨g.knows ((w.cubes.filter fun other =>
    other.ptr ≠ cube.ptr).map Cube.ptr),
    ⟨rfl, fun _ => rfl, Nat.le_refl _, ?_, ?_, ?_, ?_⟩, rest _ rfl⟩
  · intro ptr own
    refine .inl ⟨own, fun other member same => ?_⟩
    obtain ⟨old, member', same'⟩ := live other member
    exact (meets.own ptr own).2 old member' (same'.trans same)
  · exact fun other member => .inl (live other member)
  · exact .inr ⟨held, meets.distinct.sublist sublist,
      fun ptr member => .inl (sublist.subset member)⟩
  · exact fun _ => .inl

/-- A new cube gets into the registry, under the global lock. -/
theorem safe_setCube {calm : Prop} {fail : Grip → Prop} {α : Type} {g : Grip}
    {cube : Cube} {next : Int → Script α} {post : α → Grip → Prop}
    (held : .cubes ∈ g.held) (own : g.own = some cube.ptr)
    (rest : ∀ result (g' : Grip), g'.held = g.held →
      Safe calm fail (next result) post g') :
    Safe calm fail ((Collection.setCube cube : Script _) >>= next) post g := by
  apply safe_call
  intro w meets _
  unfold Collection.setCube
  apply Ensures.step rfl
  cases w.os 0 with
  | failed error =>
      exact ⟨g, (Process.Steady.refl _).moves meets, rest _ g rfl⟩
  | done value name =>
      have new := (meets.own cube.ptr own).2
      have appended : w.asked.pointers ++ [cube.ptr] =
          (w.cubes ++ [cube]).map Cube.ptr := by simp [Process.pointers]
      refine ⟨(g.owns none).knows (w.asked.pointers ++ [cube.ptr]),
        ⟨rfl, fun _ => appended.symm, Nat.le_refl _, ?_, ?_, ?_, ?_⟩,
        rest _ _ rfl⟩
      · intro ptr own
        cases own
      · intro other member
        rcases List.mem_append.mp member with registered | orphan
        · rcases List.mem_append.mp registered with old | here
          · exact .inl ⟨other, List.mem_append_left _ old, rfl⟩
          · rw [List.mem_singleton.mp here]
            exact .inr own
        · exact .inl ⟨other, List.mem_append_right _ orphan, rfl⟩
      · refine .inr ⟨held, ?_, ?_⟩
        · have absent : cube.ptr ∉ w.asked.pointers := by
            intro member
            obtain ⟨old, inside, same⟩ := List.mem_map.mp member
            exact new old (List.mem_append_left _ inside) same
          have distinct : (w.asked.pointers ++ [cube.ptr]).Nodup := by
            refine List.nodup_append.mpr
              ⟨meets.distinct, List.nodup_singleton _, ?_⟩
            intro ptr member other here same
            rw [List.mem_singleton.mp here] at same
            exact absent (same ▸ member)
          rw [appended] at distinct
          exact distinct
        · have known : ∀ ptr, ptr ∈ (w.cubes ++ [cube]).map Cube.ptr →
              ptr ∈ w.asked.pointers ∨ g.own = some ptr := by
            intro ptr member
            rw [← appended] at member
            rcases List.mem_append.mp member with old | here
            · exact .inl old
            · rw [List.mem_singleton.mp here]
              exact .inr own
          exact known
      · exact fun _ => .inl

/-- The name of a new object, which the thread keeps. -/
theorem safe_alloc {calm : Prop} {fail : Grip → Prop} {α : Type} {g : Grip}
    {next : Option Nat → Script α} {post : α → Grip → Prop}
    (rest : ∀ result, Safe calm fail (next result) post (g.owns result)) :
    Safe calm fail ((Utils.alloc : Script _) >>= next) post g := by
  apply safe_call
  intro w meets _
  unfold Utils.alloc
  apply Ensures.step rfl
  cases w.os 0 with
  | failed error =>
      refine ⟨g.owns none, ?_, rest none⟩
      exact { (Process.Steady.refl _).moves meets with own := nofun }
  | done value name =>
      have steady : w.Steady { w.toProcess with
          nextPtr := w.nextPtr + 1, objects := w.nextPtr :: w.objects } :=
        .of_cubes rfl rfl (Nat.le_succ _)
      refine ⟨g.owns (some w.nextPtr), ?_, rest _⟩
      refine { steady.moves meets with own := ?_ }
      rintro ptr ⟨⟩
      exact .inr ⟨Nat.le_refl _, Nat.lt_succ_self _⟩

/-- In calm, a call succeeds. -/
theorem Tame.thenAnswered {calm : Prop} {fail : Grip → Prop} {α β : Type}
    {g : Grip} {action : Prog α} {next : α → Script β}
    {post : β → Grip → Prop} {good : α → Prop} (tame : Tame action)
    (succeeds : ∀ w : World, w.Answered →
      Ensures action (fun value _ => good value) (fun _ _ => True) w)
    (rest : ∀ value, (calm → good value) →
      Safe calm fail (next value) post g) :
    Safe calm fail ((action : Script α) >>= next) post g := by
  apply safe_call
  intro w meets answered
  have ends := tame w
  have good := fun holds => succeeds w (answered holds)
  unfold Ensures at *
  cases run : action w with
  | ok value w' =>
      rw [run] at ends
      simp only [run] at good
      exact ⟨g, ends.moves meets, rest value good⟩
  | error reason w' =>
      rw [run] at ends
      exact fun thrown => absurd thrown ends

theorem tame_alloc : Tame Utils.alloc := by
  apply tame_ask
  intro reply
  cases reply with
  | done value name =>
      apply tame_get.bind
      intro w
      exact Tame.bind (tame_rest fun _ => ⟨rfl, rfl, Nat.le_succ _⟩) fun _ =>
        tame_pure _
  | failed error => exact tame_fail

theorem alloc_answered (w : World) (answered : w.Answered) :
    Ensures Utils.alloc (fun result _ => result ≠ none) (fun _ _ => True)
      w := by
  have first := answered 0
  unfold Utils.alloc
  apply Ensures.step rfl
  cases reply : w.os 0 with
  | done value name => exact Option.some_ne_none w.nextPtr
  | failed error =>
      rw [reply] at first
      cases first

theorem initCond_answered (w : World) (answered : w.Answered) :
    Ensures Utils.initCond (fun error _ => error = 0) (fun _ _ => True)
      w := by
  have first := answered 0
  unfold Utils.initCond
  apply Ensures.step rfl
  cases reply : w.os 0 with
  | done value name => exact rfl
  | failed error =>
      rw [reply] at first
      cases first

/-- The thread holds nothing. -/
def Grip.Free (g : Grip) : Prop := g.held = ∅

section Functions

variable {calm : Prop} {fail : Grip → Prop} {g : Grip} {P : PageSize}

/-- The only mutex is given back. -/
theorem freed {g : Grip} {mutex : Lock} (held : g.held = {mutex}) :
    (g.unlocked mutex).Free :=
  Finset.erase_eq_empty_iff _ _ |>.mpr (.inr held)

/-- Give back the only mutex and return. -/
theorem safe_leave {α : Type} {mutex : Lock} {value : α}
    (held : g.held = {mutex}) :
    Safe calm fail (do
      Stepwise.unlock mutex
      return value) (fun _ g' => g'.Free) g := by
  apply safe_unlock (by simp [held])
  exact freed held

/-- Give back the only mutex and fail. -/
theorem safe_leave_failed {α : Type} {mutex : Lock} {value : α} {error : Nat}
    (held : g.held = {mutex}) :
    Safe calm fail (do
      Stepwise.unlock mutex
      (setErrno error : Script _)
      return value) (fun _ g' => g'.Free) g := by
  apply safe_unlock (by simp [held])
  apply (quiet_setErrno error).tame.then
  exact fun _ => freed held

theorem safe_accessCube {addr : Nat} {cube : Cube}
    (held : g.held = {.cube cube.ptr}) :
    Safe calm fail (Stepwise.accessCube P addr cube) (fun _ g' => g'.Free)
      g := by
  unfold Stepwise.accessCube
  apply tame_process.then
  intro pid
  split
  · exact safe_leave_failed held
  · split
    · exact safe_leave_failed held
    · split
      · exact held
      · apply (tame_unprotectSlices P cube addr cube.slices).then
        intro result
        cases result with
        | some errsv => exact safe_leave_failed held
        | none => exact safe_leave held

/-- The hand-over from the global lock to the mutex of the cube. -/
theorem erase_cubes {ptr : Nat} :
    ({.cube ptr, .cubes} : Finset Lock).erase .cubes = {.cube ptr} := by
  ext mutex
  simp only [Finset.mem_erase, Finset.mem_insert, Finset.mem_singleton]
  constructor
  · rintro ⟨other, here | global⟩
    · exact here
    · exact absurd global other
  · rintro rfl
    exact ⟨by simp, .inl rfl⟩

theorem safe_access {addr : Nat} (free : g.Free) :
    Safe calm fail (Stepwise.access P addr) (fun _ g' => g'.Free) g := by
  apply safe_find free
  · intro g' held
    exact safe_leave held
  · intro cube g' held _ _
    apply safe_unlock (by simp [held])
    apply safe_accessCube
    rw [Grip.unlocked_held, held, erase_cubes]

/-- Take the mutex of a cube first. -/
theorem safe_lock_cube {α : Type} {ptr : Nat} {next : Unit → Script α}
    {post : α → Grip → Prop}
    (order : g.held = ∅ ∨ ∃ response, g.held = {.response response})
    (rest : Safe calm fail (next ()) post ((g.sees ptr).locked (.cube ptr))) :
    Safe calm fail (Stepwise.lock (.cube ptr) >>= next) post (g.sees ptr) := by
  apply safe_lock_other (by simp) _ rest
  refine ⟨?_, ?_⟩
  · rcases order with free | ⟨response, held⟩
    · exact .inl free
    · exact .inr ⟨ptr, rfl, by simp [held], .inr ⟨response, held⟩⟩
  · rintro other same
    cases same
    exact .inl rfl

theorem safe_accessWoken {ptr : Nat} {error : Option Errno} (free : g.Free) :
    Safe calm fail (Stepwise.accessWoken ptr error) (fun _ g' => g'.Free)
      g := by
  apply safe_derefSlice
  intro cube slice
  apply safe_lock_cube (.inl free)
  have held : ((g.sees cube.ptr).locked (.cube cube.ptr)).held =
      {.cube cube.ptr} := by
    rw [Grip.locked_held, Grip.sees_held, free]
    rfl
  cases error with
  | some error =>
      apply quiet_getErrno.tame.then
      exact fun errsv => safe_leave_failed held
  | none =>
      apply (tame_derefSlice ptr).then
      intro found
      dsimp only
      split
      · exact held
      · exact safe_leave held

theorem safe_attach {ptr : Nat} (free : g.Free) :
    Safe calm fail (Stepwise.attach P ptr) (fun _ g' => g'.Free) g := by
  apply safe_derefSlice
  intro cube slice
  apply tame_process.then
  intro pid
  split
  · apply (quiet_setErrno _).tame.then
    exact fun _ => free
  · apply safe_lock_cube (.inl free)
    have held : ((g.sees cube.ptr).locked (.cube cube.ptr)).held =
        {.cube cube.ptr} := by
      rw [Grip.locked_held, Grip.sees_held, free]
      rfl
    apply safe_derefCube
    intro cube' same
    apply (tame_mprotect P _ _ _).then
    intro result
    rw [same]
    split
    · apply quiet_getErrno.tame.then
      exact fun errsv => safe_leave_failed held
    · refine Tame.then (tame_change fun p => ?_) fun _ => safe_leave held
      exact .of_modifyCube fun _ => rfl

theorem safe_releaseCube {cube : Cube} (held : .cube cube.ptr ∈ g.held) :
    Safe calm fail (Stepwise.releaseCube cube)
      (fun _ g' => g'.held = g.held.erase (.cube cube.ptr)) g := by
  unfold Stepwise.releaseCube
  apply (tame_freeSlices cube.slices).then
  intro _
  apply safe_unlock held
  apply (quiet_destroyMutex cube.ptr).tame.then
  intro _
  refine Tame.then (tame_change fun p => ⟨rfl, ?_, Nat.le_refl _⟩) fun _ => ?_
  · intro other member
    refine ⟨other, ?_, rfl⟩
    rcases List.mem_append.mp member with registered | orphan
    · exact List.mem_append_left _ registered
    · exact List.mem_append_right _ (List.mem_of_mem_filter orphan)
  · exact (quiet_free cube.ptr).tame.then fun _ => rfl

theorem safe_detach {ptr : Nat}
    (order : g.held = ∅ ∨ ∃ response, g.held = {.response response}) :
    Safe calm fail (Stepwise.detach ptr) (fun _ g' => g'.held = g.held) g := by
  apply safe_derefSlice
  intro cube slice
  apply tame_process.then
  intro pid
  split
  · apply (quiet_setErrno _).tame.then
    exact fun _ => rfl
  · apply safe_lock_cube order
    have free : .cube cube.ptr ∉ g.held := by
      rcases order with free | ⟨response, held⟩
      · simp [free]
      · simp [held]
    have back : ((g.sees cube.ptr).locked (.cube cube.ptr)).held.erase
        (.cube cube.ptr) = g.held := Finset.erase_insert free
    apply safe_derefCube
    intro cube' same
    rw [← same] at back ⊢
    refine Tame.then (tame_change fun p => ?_) fun _ => ?_
    · have modified : p.Steady (p.modifyCube cube'.ptr fun cube =>
          { cube.modifySlice ptr fun slice =>
              { slice with nlinks := slice.nlinks - 1 } with
            nlinks := cube.nlinks - 1 }) := .of_modifyCube fun _ => rfl
      exact modified.trans (.of_cubes rfl rfl (Nat.le_refl _))
    · apply (tame_broadcast (.slice ptr)).then
      intro _
      split
      · apply (tame_unlink cube'.id).then
        intro _
        apply (safe_releaseCube (by simp)).bind
        exact fun _ g' held => held.trans back
      · apply safe_unlock (by simp)
        exact back

theorem safe_detachArguments {arguments : List Argument}
    (order : g.held = ∅ ∨ ∃ response, g.held = {.response response}) :
    Safe calm fail (Stepwise.detachArguments arguments)
      (fun _ g' => g'.held = g.held) g := by
  induction arguments generalizing g with
  | nil => exact rfl
  | cons argument arguments induction =>
      cases argument with
      | empty => exact induction order
      | scalar bytes => exact induction order
      | array array =>
          apply (safe_detach order).bind
          intro _ g' held
          rw [← held] at order
          exact (induction order).mono fun _ g'' held' => held'.trans held

theorem safe_retireCube {cube : Cube} (held : g.held = {.cube cube.ptr}) :
    Safe calm fail (Stepwise.retireCube cube) (fun _ g' => g'.Free) g := by
  have inside : .cube cube.ptr ∈ g.held := by simp [held]
  have released : Safe calm fail (Stepwise.releaseCube cube)
      (fun _ g' => g'.Free) g := by
    refine (safe_releaseCube inside).mono fun _ g' same => ?_
    exact same.trans (freed held)
  unfold Stepwise.retireCube
  apply (tame_unmap _ _).then
  intro _
  apply tame_process.then
  intro pid
  split
  · exact released
  · split
    · exact (tame_unlink cube.id).then fun _ => released
    · refine Tame.then (tame_change fun p => ?_) fun _ => ?_
      · exact .of_modifyCube fun _ => rfl
      · exact ⟨inside, freed held⟩

theorem safe_inaccelFree {addr : Nat} (free : g.Free) :
    Safe calm fail (Stepwise.inaccelFree addr) (fun _ g' => g'.Free) g := by
  unfold Stepwise.inaccelFree
  split
  · exact free
  · apply safe_find free
    · intro g' held
      exact ⟨by simp [held], freed held⟩
    · intro cube g' held registered distinct
      have inside : .cubes ∈ g'.held := by simp [held]
      apply safe_unsetCube inside registered
      intro g'' held'
      apply safe_unlock (by simp [held', held])
      apply safe_retireCube
      rw [Grip.unlocked_held, held', held, erase_cubes]

theorem safe_sliceCube {addr size : Nat} {cube : Cube}
    (held : g.held = {.cube cube.ptr}) :
    Safe calm fail (Stepwise.sliceCube P addr size cube)
      (fun _ g' => calm → g'.Free) g := by
  have leaves {α : Type} {x : Script α}
      (safe : Safe calm fail x (fun _ g' => g'.Free) g) :
      Safe calm fail x (fun _ g' => calm → g'.Free) g :=
    safe.mono fun _ _ free _ => free
  unfold Stepwise.sliceCube
  apply tame_process.then
  intro pid
  split
  · exact leaves (safe_leave_failed held)
  · split
    · exact leaves (safe_leave held)
    · apply tame_alloc.thenAnswered alloc_answered
      intro result made
      cases result with
      | none => exact fun quiet => absurd rfl (made quiet)
      | some ptr =>
          apply tame_initCond.thenAnswered initCond_answered
          intro error succeeds
          split
          · rename_i failed
            apply quiet_getErrno.tame.then
            intro errsv
            apply (quiet_free ptr).tame.then
            intro _
            apply (quiet_setErrno errsv).tame.then
            exact fun _ quiet => absurd (succeeds quiet) failed
          · apply (tame_setSlice _ _).then
            intro result
            split
            · apply quiet_getErrno.tame.then
              intro errsv
              apply safe_unlock (by simp [held])
              apply (quiet_free ptr).tame.then
              intro _
              apply (quiet_setErrno errsv).tame.then
              intro _ _
              exact freed held
            · exact leaves (safe_leave held)

theorem safe_slice {addr size : Nat} (free : g.Free) :
    Safe calm fail (Stepwise.slice P addr size) (fun _ g' => calm → g'.Free)
      g := by
  apply safe_find free
  · intro g' held
    exact (safe_leave_failed held).mono fun _ _ free _ => free
  · intro cube g' held _ _
    apply safe_unlock (by simp [held])
    apply safe_sliceCube
    rw [Grip.unlocked_held, held, erase_cubes]

theorem safe_publishCube {cube : Cube} (free : g.Free)
    (own : g.own = some cube.ptr) :
    Safe calm fail (Stepwise.publishCube cube) (fun _ g' => g'.Free) g := by
  unfold Stepwise.publishCube
  apply safe_lock_cubes free
  intro known
  have held : ((g.locked .cubes).knows known).held = {.cubes} := by
    rw [Grip.knows_held, Grip.locked_held, free]
    rfl
  have own : ((g.locked .cubes).knows known).own = some cube.ptr := own
  apply safe_setCube (by simp) own
  intro result g' held'
  have held : g'.held = {.cubes} := held'.trans held
  have freed : (g'.unlocked .cubes).Free :=
    freed held
  split
  · apply quiet_getErrno.tame.then
    intro errsv
    apply safe_unlock (by simp [held])
    apply (tame_unmap _ _).then
    intro _
    apply (tame_unlink _).then
    intro _
    apply (quiet_destroyMutex _).tame.then
    intro _
    apply (quiet_free _).tame.then
    intro _
    apply (quiet_setErrno _).tame.then
    exact fun _ => freed
  · exact safe_leave held

theorem safe_inaccelAlloc {size : Nat} (free : g.Free) :
    Safe calm fail (Stepwise.inaccelAlloc P size) (fun _ g' => g'.Free) g := by
  unfold Stepwise.inaccelAlloc
  split
  · exact free
  · apply safe_alloc
    intro result
    cases result with
    | none => exact free
    | some ptr =>
        apply tame_process.then
        intro pid
        apply (quiet_initMutex ptr).tame.then
        intro error
        split
        · apply quiet_getErrno.tame.then
          intro errsv
          apply (quiet_free _).tame.then
          intro _
          apply (quiet_setErrno _).tame.then
          exact fun _ => free
        · apply quiet_linkOpen.tame.then
          intro result
          cases result with
          | none =>
              apply quiet_getErrno.tame.then
              intro errsv
              apply (quiet_destroyMutex _).tame.then
              intro _
              apply (quiet_free _).tame.then
              intro _
              apply (quiet_setErrno _).tame.then
              exact fun _ => free
          | some id =>
              apply (tame_map P _ id).then
              intro result
              cases result with
              | none =>
                  apply quiet_getErrno.tame.then
                  intro errsv
                  apply (quiet_close _).tame.then
                  intro _
                  apply (quiet_destroyMutex _).tame.then
                  intro _
                  apply (quiet_free _).tame.then
                  intro _
                  apply (quiet_setErrno _).tame.then
                  exact fun _ => free
              | some addr =>
                  apply (quiet_close _).tame.then
                  exact fun _ => safe_publishCube free rfl

theorem safe_stretchCube {cube : Cube} {newSize : Nat}
    (held : g.held = {.cube cube.ptr}) :
    Safe calm fail (Stepwise.stretchCube P cube newSize)
      (fun _ g' => g'.Free) g := by
  have failing {error : Nat} : Safe calm fail (do
      Stepwise.unlock (.cube cube.ptr)
      (setErrno error : Script _)
      return (none : Option Nat)) (fun _ g' => g'.Free) g :=
    safe_leave_failed held
  unfold Stepwise.stretchCube
  apply tame_process.then
  intro pid
  split
  · exact failing
  · split
    · exact safe_leave held
    · apply (tame_reopen _).then
      intro opened
      split
      · exact quiet_getErrno.tame.then fun errsv => failing
      · apply (tame_remap P _ _ _ _).then
        intro result
        cases result with
        | none =>
            apply quiet_getErrno.tame.then
            intro errsv
            exact (quiet_close _).tame.then fun _ => failing
        | some newAddr =>
            apply (quiet_close _).tame.then
            intro _
            refine Tame.then (tame_change fun p => ?_) fun _ => safe_leave held
            exact .of_modifyCube fun _ => rfl

theorem safe_inaccelRealloc {addr newSize : Nat} (free : g.Free) :
    Safe calm fail (Stepwise.inaccelRealloc P addr newSize)
      (fun _ g' => g'.Free) g := by
  unfold Stepwise.inaccelRealloc
  split
  · exact safe_inaccelAlloc free
  · split
    · apply (safe_inaccelFree free).bind
      intro _ g' free
      apply (quiet_setErrno _).tame.then
      exact fun _ => free
    · apply safe_find free
      · exact fun g' held => safe_leave_failed held
      · intro cube g' held _ _
        apply safe_unlock (by simp [held])
        apply safe_stretchCube
        rw [Grip.unlocked_held, held, erase_cubes]

theorem safe_inaccelRequestArgArray {request size value index : Nat}
    (failing : ∀ g, ¬calm → fail g) (free : g.Free) :
    Safe calm fail (Stepwise.inaccelRequestArgArray P request size value index)
      (fun _ g' => calm → g'.Free) g := by
  unfold Stepwise.inaccelRequestArgArray
  split
  · apply (quiet_setErrno _).tame.then
    exact fun _ _ => free
  · apply (safe_slice free).bind
    intro result g' free
    cases result with
    | none => exact free
    | some slice =>
        exact (throws_putArray slice).then (failing g') fun _ => free

theorem safe_attachArguments {request index : Nat} {arguments : List Argument}
    (failing : ∀ g, ¬calm → fail g) (free : g.Free) :
    Safe calm fail (Stepwise.attachArguments P request index arguments)
      (fun _ g' => g'.Free) g := by
  induction arguments generalizing g index with
  | nil => exact free
  | cons argument arguments induction =>
      cases argument with
      | empty => exact induction free
      | scalar bytes => exact induction free
      | array array =>
          apply (safe_attach free).bind
          intro result g' free
          split
          · exact free
          · apply throws_mayThrow.then (failing g')
            intro _
            apply (tame_derefSlice _).then
            intro found
            apply (tame_derefRequest request).then
            intro grpc
            refine Tame.then (tame_rest fun _ => ⟨rfl, rfl, Nat.le_refl _⟩) ?_
            exact fun _ => induction free

/-- Take the mutex of the queue or of a response first. -/
theorem safe_lock_first {α : Type} {mutex : Lock} {next : Unit → Script α}
    {post : α → Grip → Prop} (other : mutex ≠ .cubes)
    (noCube : ∀ ptr, mutex ≠ .cube ptr) (free : g.Free)
    (rest : ∀ g' : Grip, g'.held = {mutex} →
      Safe calm fail (next ()) post g') :
    Safe calm fail (Stepwise.lock mutex >>= next) post g := by
  apply safe_lock_other other
  · exact ⟨.inl free, fun ptr same => absurd same (noCube ptr)⟩
  · apply rest
    rw [Grip.locked_held, free]
    rfl

theorem safe_submitQueue (failing : ∀ g, ¬calm → fail g) (free : g.Free) :
    Safe calm fail Stepwise.submitQueue (fun _ g' => g'.Free) g := by
  apply safe_lock_first (by simp) (by simp) free
  intro g' held
  apply tame_get.then
  intro w
  split
  · exact safe_leave held
  · apply throws_openQueue.then (failing g')
    intro error
    split
    · apply quiet_getErrno.tame.then
      exact fun errsv => safe_leave_failed held
    · exact safe_leave held

theorem safe_stampRequest {request response : Nat}
    (failing : ∀ g, ¬calm → fail g) (free : g.Free) :
    Safe calm fail (Stepwise.stampRequest request response)
      (fun _ g' => g'.Free) g := by
  apply throws_mayThrow.then (failing g)
  intro _
  apply (tame_derefRequest request).then
  intro grpc
  apply (tame_derefResponse response).then
  intro r
  refine Tame.then (tame_rest fun _ => ⟨rfl, rfl, Nat.le_refl _⟩) fun _ => ?_
  apply throws_mayThrow.then (failing g)
  intro _
  refine Tame.last (tame_rest fun _ => ⟨rfl, rfl, Nat.le_refl _⟩) ?_
  exact fun _ => free

theorem safe_inaccelSubmit {request response : Nat}
    (failing : ∀ g, ¬calm → fail g) (free : g.Free) :
    Safe calm fail (Stepwise.inaccelSubmit P request response)
      (fun _ g' => g'.Free) g := by
  unfold Stepwise.inaccelSubmit
  split
  · apply (quiet_setErrno _).tame.then
    exact fun _ => free
  · apply throws_mayThrow.then (failing g)
    intro _
    apply (tame_derefRequest request).then
    intro grpc
    apply (safe_attachArguments failing free).bind
    intro attached g' free
    split
    · apply (safe_stampRequest failing free).bind
      intro _ g' free
      apply (safe_submitQueue failing free).bind
      intro ready g' free
      split
      · apply (throws_handOver request response).then (failing g')
        exact fun _ => free
      · exact free
    · exact free

/-- The end of `__waiter` and of `inaccel_response_release`: the object is
deleted if the other side has left its mark.  If not, it is marked, and the
waits are told. -/
theorem safe_delete {response : Nat} {last : Response → Bool}
    {mark : Response → Response} (held : g.held = {.response response}) :
    Safe calm fail (do
      let r ← derefResponse response
      if last r then do
        Stepwise.unlock (.response response)
        deleteResponse response
      else do
        change (Process.setResponse response (mark r))
        Utils.broadcast (.response response)
        Stepwise.unlock (.response response)) (fun _ g' => g'.Free) g := by
  apply (tame_derefResponse response).then
  intro r
  split
  · apply safe_unlock (by simp [held])
    exact (tame_deleteResponse response).last fun _ => freed held
  · refine Tame.then (tame_rest fun _ => ⟨rfl, rfl, Nat.le_refl _⟩) ?_
    intro _
    apply (tame_broadcast (.response response)).then
    exact fun _ => ⟨by simp [held], freed held⟩

theorem safe_waiter {response : Nat} (free : g.Free) :
    Safe calm fail (Stepwise.waiter response) (fun _ g' => g'.Free) g := by
  apply (tame_derefResponse response).then
  intro _
  apply safe_lock_first (by simp) (by simp) free
  intro g' held
  apply (tame_derefResponse response).then
  intro r
  apply (safe_detachArguments (.inr ⟨response, held⟩)).bind
  intro _ g'' held'
  exact safe_delete (held'.trans held)

theorem safe_inaccelResponseRelease {response : Nat} (free : g.Free) :
    Safe calm fail (Stepwise.inaccelResponseRelease response)
      (fun _ g' => g'.Free) g := by
  unfold Stepwise.inaccelResponseRelease
  split
  · exact free
  · apply (tame_derefResponse response).then
    intro _
    apply safe_lock_first (by simp) (by simp) free
    exact fun g' => safe_delete

theorem safe_waitLoop {response : Nat} (held : g.held = {.response response}) :
    Safe calm fail (Stepwise.waitLoop response) (fun _ g' => g'.Free) g := by
  apply (tame_derefResponse response).then
  intro r
  split
  · apply safe_unlock (by simp [held])
    exact (tame_waitStatus response).last fun _ => freed held
  · exact held

theorem safe_inaccelResponseWait {response : Nat} (free : g.Free) :
    Safe calm fail (Stepwise.inaccelResponseWait response)
      (fun _ g' => g'.Free) g := by
  unfold Stepwise.inaccelResponseWait
  split
  · apply (quiet_setErrno _).tame.then
    exact fun _ => free
  · apply (tame_derefResponse response).then
    intro _
    apply safe_lock_first (by simp) (by simp) free
    exact fun g' held => safe_waitLoop held

theorem safe_waitWoken {response : Nat} {error : Option Errno} (free : g.Free) :
    Safe calm fail (Stepwise.waitWoken response error) (fun _ g' => g'.Free)
      g := by
  apply (tame_derefResponse response).then
  intro _
  apply safe_lock_first (by simp) (by simp) free
  intro g' held
  cases error with
  | some error =>
      apply quiet_getErrno.tame.then
      exact fun errsv => safe_leave_failed held
  | none => exact safe_waitLoop held

/-- A call of the library, in calm or not. -/
theorem safe_job (job : Job) (failing : ∀ g, ¬calm → fail g) (free : g.Free) :
    Safe calm fail (job.script P) (fun _ g' => calm → g'.Free) g := by
  have ends {α : Type} {x : Script α}
      (safe : Safe calm fail x (fun _ g' => g'.Free) g) :
      Safe calm fail (x >>= fun _ => .done ()) (fun _ g' => calm → g'.Free)
        g :=
    safe.bind fun _ _ free _ => free
  cases job with
  | access addr => exact ends (safe_access free)
  | alloc size => exact ends (safe_inaccelAlloc free)
  | free addr => exact (safe_inaccelFree free).mono fun _ _ free _ => free
  | realloc addr newSize => exact ends (safe_inaccelRealloc free)
  | requestCreate accelerator =>
      exact ends ((tame_requestCreate accelerator).last fun _ => free)
  | argArray request size value index =>
      exact (safe_inaccelRequestArgArray failing free).bind
        fun _ _ free => free
  | argScalar request value index =>
      exact ends ((tame_argScalar request value index).last fun _ => free)
  | responseCreate => exact ends (tame_responseCreate.last fun _ => free)
  | submit request response => exact ends (safe_inaccelSubmit failing free)
  | wait response => exact ends (safe_inaccelResponseWait free)
  | release response =>
      exact (safe_inaccelResponseRelease free).mono fun _ _ free _ => free
  | next response status =>
      exact (tame_next response status).last fun _ _ => free
  | waiter response => exact (safe_waiter free).mono fun _ _ free _ => free

/-- What follows a wake-up. -/
theorem safe_bed (bed : Bed) (error : Option Errno) (free : g.Free) :
    Safe calm fail (bed.script error) (fun _ g' => g'.Free) g := by
  cases bed with
  | slice ptr =>
      exact (safe_accessWoken free).bind fun _ _ free => free
  | response ptr =>
      exact (safe_waitWoken free).bind fun _ _ free => free

end Functions

/-- The thread holds the global lock and the mutexes of the registry, as
`__prepare` leaves them. -/
def Grip.Prepared (g : Grip) : Prop :=
  ∀ mutex, mutex ∈ g.held ↔ mutex = .cubes ∨ ∃ ptr ∈ g.known, mutex = .cube ptr

section Forks

variable {calm : Prop} {fail : Grip → Prop} {g : Grip} {P : PageSize}

theorem safe_lockCubes {ptrs : List Nat} (held : .cubes ∈ g.held)
    (distinct : ptrs.Nodup) (seen : ∀ ptr ∈ ptrs, g.seen ptr)
    (free : ∀ ptr ∈ ptrs, .cube ptr ∉ g.held) :
    Safe calm fail (Stepwise.lockCubes ptrs) (fun _ g' =>
      g'.known = g.known ∧ ∀ mutex, mutex ∈ g'.held ↔
        mutex ∈ g.held ∨ ∃ ptr ∈ ptrs, mutex = .cube ptr) g := by
  induction ptrs generalizing g with
  | nil => exact ⟨rfl, by simp⟩
  | cons ptr ptrs induction =>
      obtain ⟨new, distinct⟩ := List.nodup_cons.mp distinct
      have here := free ptr List.mem_cons_self
      apply safe_lock_other (by simp)
      · refine ⟨.inr ⟨ptr, rfl, here, .inl held⟩, ?_⟩
        rintro other ⟨⟩
        exact seen ptr List.mem_cons_self
      · have tail := @induction (g.locked (.cube ptr)) (by simp [held])
          distinct (fun other member =>
            seen other (List.mem_cons_of_mem _ member)) (by
            intro other member
            have apart : other ≠ ptr := fun same => new (same ▸ member)
            simp [apart, free other (List.mem_cons_of_mem _ member)])
        refine tail.mono ?_
        rintro _ g' ⟨known, holds⟩
        refine ⟨known, fun mutex => ?_⟩
        rw [holds mutex, Grip.locked_held, Finset.mem_insert]
        simp only [List.mem_cons, exists_eq_or_imp]
        exact or_assoc.trans or_left_comm

/-- The loop of `__prepare`, behind the global lock. -/
theorem safe_lockRegistry (held : g.held = {.cubes}) (distinct : g.known.Nodup)
    (seen : ∀ ptr ∈ g.known, g.seen ptr) :
    Safe calm fail (Stepwise.lockCubes g.known) (fun _ g' => g'.Prepared)
      g := by
  refine (safe_lockCubes (by simp [held]) distinct seen
    (by simp [held])).mono ?_
  rintro _ g' ⟨same, holds⟩ mutex
  rw [holds mutex, held, Finset.mem_singleton, same]

theorem safe_prepare (free : g.Free) :
    Safe calm fail Stepwise.prepare (fun _ g' => g'.Prepared) g := by
  apply safe_lock_cubes free
  intro known
  apply safe_pointers (by simp)
  intro distinct
  have held : ((g.locked .cubes).knows known).scans.held = {.cubes} := by
    rw [Grip.scans_held, Grip.knows_held, Grip.locked_held, free]
    rfl
  exact safe_lockRegistry held distinct fun ptr => .inl

/-- The mutexes of these cubes are given back. -/
def Grip.Releases (g : Grip) (ptrs : List Nat) (g' : Grip) : Prop :=
  ∀ mutex, mutex ∈ g'.held ↔
    mutex ∈ g.held ∧ ∀ ptr ∈ ptrs, mutex ≠ .cube ptr

theorem Grip.Releases.cons {g' : Grip} {ptr : Nat} {ptrs : List Nat}
    (releases : (g.unlocked (.cube ptr)).Releases ptrs g') :
    g.Releases (ptr :: ptrs) g' := by
  intro mutex
  rw [releases mutex, Grip.unlocked_held, Finset.mem_erase]
  simp only [List.mem_cons, forall_eq_or_imp]
  exact and_assoc.trans and_left_comm

/-- The rest of the mutexes is still held. -/
theorem held_rest {ptr : Nat} {ptrs : List Nat} (distinct : (ptr :: ptrs).Nodup)
    (held : ∀ other ∈ ptr :: ptrs, .cube other ∈ g.held) :
    ∀ other ∈ ptrs, .cube other ∈ (g.unlocked (.cube ptr)).held := by
  intro other member
  have apart : other ≠ ptr := fun same =>
    (List.nodup_cons.mp distinct).1 (same ▸ member)
  simp [apart, held other (List.mem_cons_of_mem _ member)]

theorem safe_unlockCubes {ptrs : List Nat} (distinct : ptrs.Nodup)
    (held : ∀ ptr ∈ ptrs, .cube ptr ∈ g.held) :
    Safe calm fail (Stepwise.unlockCubes ptrs) (fun _ => g.Releases ptrs)
      g := by
  induction ptrs generalizing g with
  | nil => exact fun mutex => by simp
  | cons ptr ptrs induction =>
      apply safe_unlock (held ptr List.mem_cons_self)
      have tail := induction (List.nodup_cons.mp distinct).2
        (held_rest distinct held)
      exact tail.mono fun _ _ => .cons

theorem safe_protectCubes {ptrs : List Nat} (distinct : ptrs.Nodup)
    (held : ∀ ptr ∈ ptrs, .cube ptr ∈ g.held) :
    Safe calm fail (Stepwise.protectCubes P ptrs) (fun _ => g.Releases ptrs)
      g := by
  induction ptrs generalizing g with
  | nil => exact fun mutex => by simp
  | cons ptr ptrs induction =>
      apply safe_derefCube
      intro cube _
      refine Tame.then (tame_logged fun _ =>
        .of_cubes rfl rfl (Nat.le_refl _)) ?_
      intro _
      apply safe_unlock (held ptr List.mem_cons_self)
      have tail := induction (List.nodup_cons.mp distinct).2
        (held_rest distinct held)
      exact tail.mono fun _ _ => .cons

/-- Behind the loops over the registry, only the global lock is left. -/
theorem Grip.Prepared.left {g' : Grip} (prepared : g.Prepared)
    (releases : g.Releases g.known g') : g'.held = {.cubes} := by
  ext mutex
  rw [releases mutex, prepared mutex, Finset.mem_singleton]
  constructor
  · rintro ⟨global | ⟨ptr, member, same⟩, others⟩
    · exact global
    · exact absurd same (others ptr member)
  · rintro rfl
    exact ⟨.inl rfl, by simp⟩

theorem safe_parent (prepared : g.Prepared) :
    Safe calm fail Stepwise.parent (fun _ g' => g'.Free) g := by
  apply safe_pointers ((prepared _).mpr (.inl rfl))
  intro distinct
  have prepared : g.scans.Prepared := prepared
  have loop := @safe_unlockCubes calm fail g.scans g.known distinct
    fun ptr member => (prepared _).mpr (.inr ⟨ptr, member, rfl⟩)
  apply loop.bind
  intro _ g' releases
  have held := prepared.left releases
  exact ⟨by simp [held], freed held⟩

theorem safe_child (prepared : g.Prepared) :
    Safe calm fail (Stepwise.child P) (fun _ g' => g'.Free) g := by
  apply safe_pointers ((prepared _).mpr (.inl rfl))
  intro distinct
  have prepared : g.scans.Prepared := prepared
  have loop := @safe_protectCubes calm fail g.scans P g.known distinct
    fun ptr member => (prepared _).mpr (.inr ⟨ptr, member, rfl⟩)
  apply loop.bind
  intro _ g' releases
  have held := prepared.left releases
  apply safe_unlock (by simp [held])
  exact tame_init.last fun _ => freed held

end Forks

end CoralApi
