import CoralApi.Lookup

/-!
# Threads that allocate, move and free blocks

Any number of threads call `inaccel_alloc`, `inaccel_free` and
`inaccel_realloc` in one process.  A step is one section of a call, so a
critical section under the global lock is one step, and another thread may map
a block where the first one has just unmapped or moved one.
-/

namespace CoralApi

open Program

/-- Where a thread is in a call. -/
inductive Stage where
  | idle
  /-- `inaccel_alloc` has made a block that is not registered -/
  | made (cube : Cube)
  /-- `inaccel_alloc` gives up the block that it has made -/
  | dropping (cube : Cube) (errsv : Nat)
  /-- `inaccel_alloc` has registered its block and will return it -/
  | listed (cube : Cube)
  /-- `inaccel_free` has taken the cube out of the registry -/
  | taken (cube : Cube)
  /-- `inaccel_free` has unmapped the block, unless `munmap` failed -/
  | unmapped (cube : Cube)
  /-- `inaccel_realloc` has found the cube -/
  | found (cube : Cube) (newSize : Nat)
  /-- `inaccel_realloc` has moved the block, but not told the cube -/
  | moved (cube : Cube) (newSize newAddr : Nat)

namespace Stage

/-- The cube whose mutex the thread holds. -/
def locked : Stage → Option Nat
  | .taken cube => some cube.ptr
  | .unmapped cube => some cube.ptr
  | .found cube _ => some cube.ptr
  | .moved cube _ _ => some cube.ptr
  | _ => none

/-- The new cube that no other thread can find. -/
def fresh : Stage → Option Cube
  | .made cube => some cube
  | .dropping cube _ => some cube
  | _ => none

/-- The registered cube that the thread will return. -/
def returning : Stage → Option Nat
  | .listed cube => some cube.ptr
  | _ => none

/-- The cube that the thread is freeing. -/
def freeing : Stage → Option Nat
  | .taken cube => some cube.ptr
  | .unmapped cube => some cube.ptr
  | _ => none

/-- The cube whose block the thread has moved. -/
def moving : Stage → Option Nat
  | .moved cube _ _ => some cube.ptr
  | _ => none

/-- The registered cube that the thread works on. -/
def keeping : Stage → Option Cube
  | .found cube _ => some cube
  | .moved cube _ _ => some cube
  | _ => none

/-- The mapped block that the thread answers for, with its cube. -/
def spot (P : PageSize) : Stage → Option (Nat × Block)
  | .made cube => some (cube.ptr, cube.page)
  | .dropping cube _ => some (cube.ptr, cube.page)
  | .taken cube => some (cube.ptr, cube.page)
  | .moved cube newSize newAddr =>
      some (cube.ptr, ⟨newAddr, ceilPagesize P newSize⟩)
  | _ => none

/-- The locks of the thread. -/
def locks (stage : Stage) : List Lock :=
  match stage.locked with
  | some ptr => [.cube ptr]
  | none => []

end Stage

/-- The threads of a process, by their number.  Logs: the cubes whose block a
call has returned, and the cubes that a call has freed. -/
structure Crowd where
  process : Process
  stage : Nat → Stage
  returned : List Nat
  freed : List Nat

/-- The cubes that a scan visits: those up to the first match. -/
def scanned (found : Cube → Bool) : List Cube → List Cube
  | [] => []
  | cube :: cubes =>
      if found cube then [cube] else cube :: scanned found cubes

namespace Crowd

/-- No thread holds a mutex that the scan waits for. -/
def Open (s : Crowd) (found : Cube → Bool) (cubes : List Cube) : Prop :=
  ∀ cube ∈ scanned found cubes, ∀ thread,
    (s.stage thread).locked ≠ some cube.ptr

/-- The state in which a thread runs its next section. -/
def enter (s : Crowd) (thread errno : Nat) (os : Nat → Reply) : World :=
  (s.process.enter errno os).holding (s.stage thread).locks

/-- A thread has run a section. -/
def turn (s : Crowd) (thread : Nat) (w : World) (stage : Stage) : Crowd :=
  { s with
    process := w.toProcess
    stage := Function.update s.stage thread stage }

inductive Act where
  | make (thread size errno : Nat) (os : Nat → Reply)
  | register (thread errno : Nat) (os : Nat → Reply)
  | drop (thread errno : Nat) (os : Nat → Reply)
  | giveOut (thread : Nat)
  | take (thread addr errno : Nat) (os : Nat → Reply)
  | unmap (thread errno : Nat) (os : Nat → Reply)
  | retire (thread errno : Nat) (os : Nat → Reply)
  | find (thread addr newSize errno : Nat) (os : Nat → Reply)
  | stretch (thread errno : Nat) (os : Nat → Reply)
  | settle (thread errno : Nat) (os : Nat → Reply)

/-- The stage after the first section of `inaccel_alloc`. -/
def afterMake : Option Cube → Stage
  | none => .idle
  | some cube => .made cube

/-- The stage after the critical section of `inaccel_alloc`. -/
def afterRegister (cube : Cube) : Option Nat → Stage
  | none => .listed cube
  | some errsv => .dropping cube errsv

/-- The stage after the critical section of `inaccel_free`. -/
def afterTake : Option Cube → Stage
  | none => .idle
  | some cube => .taken cube

/-- The stage after the critical section of `inaccel_realloc`. -/
def afterFind (newSize : Nat) : Option Cube → Stage
  | none => .idle
  | some cube => .found cube newSize

/-- The stage after the section of `inaccel_realloc` that moves a block. -/
def afterStretch (cube : Cube) (newSize : Nat) :
    Except (Option Nat) Nat → Stage
  | .error _ => .idle
  | .ok newAddr => .moved cube newSize newAddr

/-- The steps of the threads.  `inaccel_realloc` of a null pointer takes the
steps of `inaccel_alloc`, and `inaccel_realloc` to size 0 those of
`inaccel_free`. -/
inductive Step (P : PageSize) (s : Crowd) : Act → Crowd → Prop where
  | make {thread size errno : Nat} {os : Nat → Reply} {result w}
      (here : s.stage thread = .idle) (asked : size ≠ 0)
      (ran : makeCube P size (s.enter thread errno os) = .ok result w) :
      Step P s (.make thread size errno os)
        (s.turn thread w (afterMake result))
  | register {thread errno : Nat} {os : Nat → Reply} {cube result w}
      (here : s.stage thread = .made cube)
      (ran : registerCube cube (s.enter thread errno os) = .ok result w) :
      Step P s (.register thread errno os)
        (s.turn thread w (afterRegister cube result))
  | drop {thread errno : Nat} {os : Nat → Reply} {cube errsv w}
      (here : s.stage thread = .dropping cube errsv)
      (ran : dropCube cube errsv (s.enter thread errno os) = .ok () w) :
      Step P s (.drop thread errno os) (s.turn thread w .idle)
  | giveOut {thread : Nat} {cube}
      (here : s.stage thread = .listed cube) :
      Step P s (.giveOut thread)
        { s with
          stage := Function.update s.stage thread .idle
          returned := cube.ptr :: s.returned }
  | take {thread addr errno : Nat} {os : Nat → Reply} {result w}
      (here : s.stage thread = .idle) (given : addr ≠ 0)
      (opened : s.Open (fun cube => cube.page.addr == addr) s.process.cubes)
      (ran : takeCube addr (s.enter thread errno os) = .ok result w) :
      Step P s (.take thread addr errno os)
        (s.turn thread w (afterTake result))
  | unmap {thread errno : Nat} {os : Nat → Reply} {cube w}
      (here : s.stage thread = .taken cube)
      (ran : Utils.unmap cube.page.addr cube.page.size
        (s.enter thread errno os) = .ok () w) :
      Step P s (.unmap thread errno os) (s.turn thread w (.unmapped cube))
  | retire {thread errno : Nat} {os : Nat → Reply} {cube w}
      (here : s.stage thread = .unmapped cube)
      (ran : retireCube cube (s.enter thread errno os) = .ok () w) :
      Step P s (.retire thread errno os)
        { s.turn thread w .idle with freed := cube.ptr :: s.freed }
  | find {thread addr newSize errno : Nat} {os : Nat → Reply} {result w}
      (here : s.stage thread = .idle) (given : addr ≠ 0)
      (asked : newSize ≠ 0)
      (opened : s.Open (fun cube => cube.page.addr == addr) s.process.cubes)
      (ran : findCube addr (s.enter thread errno os) = .ok result w) :
      Step P s (.find thread addr newSize errno os)
        (s.turn thread w (afterFind newSize result))
  | stretch {thread errno : Nat} {os : Nat → Reply} {cube newSize result w}
      (here : s.stage thread = .found cube newSize)
      (ran : stretchCube P cube newSize (s.enter thread errno os) =
        .ok result w) :
      Step P s (.stretch thread errno os)
        (s.turn thread w (afterStretch cube newSize result))
  | settle {thread errno : Nat} {os : Nat → Reply} {cube newSize newAddr}
      {result w} (here : s.stage thread = .moved cube newSize newAddr)
      (ran : settleCube P cube newSize newAddr (s.enter thread errno os) =
        .ok result w) :
      Step P s (.settle thread errno os) (s.turn thread w .idle)

/-- No call has been made yet. -/
def Fresh (s : Crowd) : Prop :=
  s.process.cubes = [] ∧ (∀ thread, s.stage thread = .idle) ∧
    s.returned = [] ∧ s.freed = []

/-- A thread is about to return the block. -/
def Returning (s : Crowd) (ptr : Nat) : Prop :=
  ∃ thread, (s.stage thread).returning = some ptr

/-- A thread is freeing the block. -/
def Freeing (s : Crowd) (ptr : Nat) : Prop :=
  ∃ thread, (s.stage thread).freeing = some ptr

/-- A thread has moved the block, and the cube has not been told. -/
def Moving (s : Crowd) (ptr : Nat) : Prop :=
  ∃ thread, (s.stage thread).moving = some ptr

/-- What a step does to the registry and to the mappings. -/
inductive Deal (P : PageSize) (s : Crowd) : Crowd → Prop where
  | wait {thread : Nat} {stage : Stage} {p' : Process}
      (fresh : stage.fresh = (s.stage thread).fresh)
      (spot : stage.spot P = (s.stage thread).spot P)
      (unlocked : stage.locked = none)
      (returning : stage.returning = (s.stage thread).returning)
      (freeing : stage.freeing = (s.stage thread).freeing)
      (moving : stage.moving = (s.stage thread).moving)
      (agrees : s.process.Agrees p') :
      Deal P s { s with
        process := p', stage := Function.update s.stage thread stage }
  | make {thread : Nat} {cube : Cube} {p' : Process}
      (here : s.stage thread = .idle) (whole : P.bytes ∣ cube.page.size)
      (admits : Process.Admits P cube.page s.process.maps)
      (unused : s.process.nextPtr ≤ cube.ptr) (taken : cube.ptr < p'.nextPtr)
      (agrees : (s.process.mapBlock P cube.page s.process.self cube.id).Agrees
        p') :
      Deal P s { s with
        process := p', stage := Function.update s.stage thread (.made cube) }
  | register {thread : Nat} {cube : Cube} {p' : Process}
      (here : s.stage thread = .made cube)
      (agrees : Process.Agrees
        { s.process with cubes := s.process.cubes ++ [cube] } p') :
      Deal P s { s with
        process := p', stage := Function.update s.stage thread (.listed cube) }
  | drop {thread errsv : Nat} {cube : Cube} {maps : List Mapping} {p' : Process}
      (here : s.stage thread = .dropping cube errsv)
      (unmapped : maps = s.process.maps ∨
        maps = s.process.maps.filter fun mapping => mapping.block ≠ cube.page)
      (agrees : Process.Agrees { s.process with maps := maps } p') :
      Deal P s { s with
        process := p', stage := Function.update s.stage thread .idle }
  | giveOut {thread : Nat} {cube : Cube}
      (here : s.stage thread = .listed cube) :
      Deal P s { s with
        stage := Function.update s.stage thread .idle
        returned := cube.ptr :: s.returned }
  | take {thread : Nat} {cube : Cube} {p' : Process}
      (here : s.stage thread = .idle) (member : cube ∈ s.process.cubes)
      (unheld : ∀ other, (s.stage other).locked ≠ some cube.ptr)
      (agrees : (s.process.takeOut cube).Agrees p') :
      Deal P s { s with
        process := p', stage := Function.update s.stage thread (.taken cube) }
  | unmap {thread : Nat} {cube : Cube} {maps : List Mapping} {p' : Process}
      (here : s.stage thread = .taken cube)
      (unmapped : maps = s.process.maps ∨
        maps = s.process.maps.filter fun mapping => mapping.block ≠ cube.page)
      (agrees : Process.Agrees { s.process with maps := maps } p') :
      Deal P s { s with
        process := p', stage := Function.update s.stage thread (.unmapped cube) }
  | retire {thread : Nat} {cube : Cube} {p' : Process}
      (here : s.stage thread = .unmapped cube)
      (agrees : (s.process.retire cube).Agrees p') :
      Deal P s { s with
        process := p'
        stage := Function.update s.stage thread .idle
        freed := cube.ptr :: s.freed }
  | find {thread newSize : Nat} {cube : Cube} {p' : Process}
      (here : s.stage thread = .idle) (member : cube ∈ s.process.cubes)
      (unheld : ∀ other, (s.stage other).locked ≠ some cube.ptr)
      (agrees : s.process.Agrees p') :
      Deal P s { s with
        process := p'
        stage := Function.update s.stage thread (.found cube newSize) }
  | stretch {thread newSize newAddr : Nat} {cube : Cube} {prot : Prot}
      {p' : Process} (here : s.stage thread = .found cube newSize)
      (admits : Process.Admits P ⟨newAddr, ceilPagesize P newSize⟩
        (s.process.maps.filter fun mapping => mapping.block ≠ cube.page))
      (agrees : (s.process.remapBlock P cube.page
        ⟨newAddr, ceilPagesize P newSize⟩ prot).Agrees p') :
      Deal P s { s with
        process := p'
        stage := Function.update s.stage thread (.moved cube newSize newAddr) }
  | settle {thread newSize newAddr : Nat} {cube : Cube} {p' : Process}
      (here : s.stage thread = .moved cube newSize newAddr)
      (agrees : (s.process.modifyCube cube.ptr fun cube =>
        { cube with page := ⟨newAddr, ceilPagesize P newSize⟩ }).Agrees p') :
      Deal P s { s with
        process := p', stage := Function.update s.stage thread .idle }

theorem find?_mem_scanned {found : Cube → Bool} {cubes : List Cube}
    {cube : Cube} (first : cubes.find? found = some cube) :
    cube ∈ scanned found cubes := by
  induction cubes with
  | nil => cases first
  | cons other cubes induction =>
      rw [List.find?_cons] at first
      unfold scanned
      cases hit : found other with
      | true =>
          rw [hit] at first
          cases first
          exact List.mem_cons_self
      | false =>
          rw [hit] at first
          exact List.mem_cons_of_mem _ (induction first)

/-- The cube that a scan finds is one that no thread holds. -/
theorem Open.unheld {s : Crowd} {found : Cube → Bool} {cubes : List Cube}
    {cube : Cube} (opened : s.Open found cubes)
    (first : cubes.find? found = some cube) :
    ∀ other, (s.stage other).locked ≠ some cube.ptr :=
  opened cube (find?_mem_scanned first)

theorem enter_held {s : Crowd} {thread errno : Nat} {os : Nat → Reply} :
    (s.enter thread errno os).held = (s.stage thread).locks := rfl

/-- A thread that works on a cube holds its mutex alone. -/
theorem enter_eq {s : Crowd} {thread errno ptr : Nat} {os : Nat → Reply}
    (locked : (s.stage thread).locked = some ptr) :
    s.enter thread errno os =
      (s.process.enter errno os).holding [.cube ptr] := by
  rw [enter, Stage.locks, locked]

theorem stretch_admits {P : PageSize} {cube : Cube} {newSize : Nat}
    {os : Nat → Reply} {p : Process} {page : Block} {prot : Prot}
    (stretches : p.stretch P cube newSize os = some (page, prot)) :
    Process.Admits P page
      (p.maps.filter fun mapping => mapping.block ≠ cube.page) := by
  unfold Process.stretch at stretches
  split at stretches
  · exact (remaps_eq stretches).2.2
  · cases stretches

theorem Step.deal {P : PageSize} {s s' : Crowd} {act : Act}
    (step : Step P s act s') : Deal P s s' := by
  cases step with
  | @make thread size errno os result w here asked ran =>
      have made := makeCube_spec.of_ok ran
      cases result with
      | none =>
          have quiet : (s.enter thread errno os).Quiet w := made
          refine .wait ?_ ?_ rfl ?_ ?_ ?_ quiet.agrees
          all_goals rw [here]; rfl
      | some cube =>
          obtain ⟨admits, unused, taken, fields, quiet⟩ := made
          refine .make here ?_ admits unused taken quiet.agrees
          rw [fields]
          exact dvd_ceilPagesize P size
  | @register thread errno os cube result w here ran =>
      have free : (s.enter thread errno os).held = [] := by
        rw [enter_held, here]
        rfl
      have effect := (registerCube_spec free).of_ok ran
      cases result with
      | none => exact .register here (World.Quiet.agrees effect)
      | some errsv =>
          have quiet : (s.enter thread errno os).Quiet w := effect
          refine .wait ?_ ?_ rfl ?_ ?_ ?_ quiet.agrees
          all_goals rw [here]; rfl
  | @drop thread errno os cube errsv w here ran =>
      have ends : Ensures (dropCube cube errsv) _ (fun _ _ => True)
          (s.enter thread errno os) := dropCube_spec (.refl _)
      obtain ⟨maps, unmapped, quiet⟩ := ends.of_ok ran
      exact .drop here unmapped ⟨quiet.pid, quiet.cubes, quiet.orphans,
        quiet.maps, quiet.prot, quiet.nextPtr⟩
  | giveOut here => exact .giveOut here
  | @take thread addr errno os result w here given opened ran =>
      have free : (s.enter thread errno os).held = [] := by
        rw [enter_held, here]
        rfl
      obtain ⟨first, effect⟩ := (takeCube_spec free).of_ok ran
      cases result with
      | none =>
          have quiet : (s.enter thread errno os).Quiet w := effect
          refine .wait ?_ ?_ rfl ?_ ?_ ?_ quiet.agrees
          all_goals rw [here]; rfl
      | some cube =>
          exact .take here (List.mem_of_find?_eq_some first.symm)
            (opened.unheld first.symm) (World.Quiet.agrees effect)
  | @unmap thread errno os cube w here ran =>
      have ends : Ensures (Utils.unmap cube.page.addr cube.page.size) _
          (fun _ _ => True) (s.enter thread errno os) := unmap_spec (.refl _)
      obtain ⟨maps, unmapped, quiet⟩ := ends.of_ok ran
      exact .unmap here unmapped quiet.agrees
  | @retire thread errno os cube w here ran =>
      have held : (s.stage thread).locked = some cube.ptr := by
        rw [here]
        rfl
      rw [enter_eq held] at ran
      have ends : Ensures (retireCube cube) _ (fun _ _ => False)
          ((s.process.enter errno os).holding [.cube cube.ptr]) :=
        @retireCube_spec cube s.process (s.process.enter errno os) _ rfl
          (.refl _)
      exact .retire here (ends.of_ok ran).agrees
  | @find thread addr newSize errno os result w here given asked opened ran =>
      have free : (s.enter thread errno os).held = [] := by
        rw [enter_held, here]
        rfl
      obtain ⟨first, effect⟩ := (findCube_spec free).of_ok ran
      cases result with
      | none =>
          have same : w = s.enter thread errno os := effect
          subst same
          refine .wait ?_ ?_ rfl ?_ ?_ ?_ (.refl _)
          all_goals rw [here]; rfl
      | some cube =>
          have same : w =
              (s.enter thread errno os).holding [.cube cube.ptr] := effect
          subst same
          exact .find here (List.mem_of_find?_eq_some first.symm)
            (opened.unheld first.symm) (.refl _)
  | @stretch thread errno os cube newSize result w here ran =>
      have held : (s.stage thread).locked = some cube.ptr := by
        rw [here]
        rfl
      rw [enter_eq held] at ran
      have effect := (@stretchCube_spec P cube newSize _ rfl).of_ok ran
      cases stretched : s.process.stretch P cube newSize os with
      | none =>
          rw [show (s.process.enter errno os).stretch P cube newSize
            (s.process.enter errno os).os = none from stretched] at effect
          obtain ⟨rfl, quiet⟩ := effect
          refine .wait ?_ ?_ rfl ?_ ?_ ?_ quiet.agrees
          all_goals rw [here]; rfl
      | some moved =>
          obtain ⟨page, prot⟩ := moved
          rw [show (s.process.enter errno os).stretch P cube newSize
            (s.process.enter errno os).os = some (page, prot) from
              stretched] at effect
          obtain ⟨rfl, whole, quiet⟩ := effect
          have admits := stretch_admits stretched
          rw [whole] at admits quiet
          exact .stretch here admits quiet.agrees
  | @settle thread errno os cube newSize newAddr result w here ran =>
      have held : (s.stage thread).locked = some cube.ptr := by
        rw [here]
        rfl
      rw [enter_eq held] at ran
      have ends : Ensures (settleCube P cube newSize newAddr) _
          (fun _ _ => False)
          ((s.process.enter errno os).holding [.cube cube.ptr]) :=
        @settleCube_spec P cube newSize newAddr s.process
          (s.process.enter errno os) _ rfl (.refl _)
      exact .settle here (ends.of_ok ran).2.agrees

end Crowd

end CoralApi
