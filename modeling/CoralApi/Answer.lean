import CoralApi.Shipment

/-!
# What a process reads of an answer

A turn of the waiter does to the memory and to the files of its process what
the detaches of the arrays do, one after the other.  So the process reads what
it has read before, and with it what the server has left in the arrays.
-/

namespace CoralApi

open Program Transition

/-- The file of a name, after a detach. -/
def World.fileAfter (ptr : Nat) (dir id : String) (w : World) : Option File :=
  match w.findSlice ptr with
  | none => w.file dir id
  | some (cube, _) =>
      if cube.pid = w.pid ∧ cube.nlinks = 0 ∧ (w.os 0).isDone = true ∧
        dir = w.self ∧ id = cube.id then none
      else w.file dir id

section Detach

variable {P : PageSize} {v v' w w' : World} {ptr : Nat}

/-- `__unlink` removes the file when its call succeeds. -/
theorem unlink_file (name : String) :
    Ensures (Self.unlink name)
      (fun _ w' => ∀ dir id, w'.file dir id =
        if (w.os 0).isDone = true ∧ dir = w.self ∧ id = name then none
        else w.file dir id)
      (fun _ _ => True) w := by
  unfold Self.unlink
  apply Ensures.step rfl
  let marked := w.put { w.toProcess with unlinked := name :: w.unlinked }
  have same : marked.os 0 = w.os 0 := rfl
  show Ensures (logged _) _ _ marked
  simp only [logged, Ensures, same]
  cases w.os 0 with
  | failed error =>
      intro dir id
      rw [if_neg fun removed => Bool.noConfusion removed.1]
      rfl
  | done value text =>
      intro dir id
      simp only [Reply.isDone, true_and]
      by_cases here : dir = w.self ∧ id = name
      · rw [if_pos here]
        refine List.find?_eq_none.mpr fun file kept => ?_
        have other : (!(file.dir == w.self && file.id == name)) = true :=
          (List.mem_filter.mp kept).2
        rw [here.1, here.2]
        simpa [imp_iff_not_or] using other
      · rw [if_neg here]
        exact file_filter here

theorem detach_file :
    Ensures (detach ptr)
      (fun _ w' => ∀ dir id, w'.file dir id = w.fileAfter ptr dir id)
      (fun _ _ => True) w := by
  unfold detach
  apply ensures_derefSlice
  · exact fun _ => trivial
  · intro cube slice found
    apply Ensures.step rfl
    split
    · rename_i foreign
      have writes := (@writesOnly_setErrno (fun _ => False) EACCES).bind
        fun _ => moves_pure (-1 : Int)
      refine (writes w).mono ?_ fun _ _ _ => trivial
      intro _ w' written dir id
      have foreign : ¬cube.pid = w.pid := foreign
      simp only [World.fileAfter, found, foreign, false_and, if_false]
      exact written.file dir id fun _ => not_false
    · rename_i own
      have own : cube.pid = w.pid := not_not.mp own
      by_cases taken : Lock.cube cube.ptr ∈ w.held
      · have blocked : lock (.cube cube.ptr) w = .error .blocked w := by
          simp [lock, taken]
        exact ensures_bind.mpr (Ensures.ends blocked trivial)
      · apply Ensures.step (lock_run taken)
        apply Ensures.step rfl
        apply Ensures.step rfl
        split
        · rename_i unused
          refine ensures_bind.mpr ((unlink_file cube.id).mono ?_ fun _ _ _ =>
            trivial)
          intro _ w₁ removed
          have writes := (@writesOnly_releaseCube (fun _ => False) cube).bind
            fun _ => moves_pure (0 : Int)
          refine (writes w₁).mono ?_ fun _ _ _ => trivial
          intro _ w₂ written dir id
          rw [written.file dir id fun _ => not_false, removed dir id]
          simp only [World.fileAfter, found, own, unused, true_and]
          rfl
        · rename_i used
          have writes := (@writesOnly_unlock (fun _ => False)
            (.cube cube.ptr)).bind fun _ => moves_pure (0 : Int)
          refine (writes _).mono ?_ fun _ _ _ => trivial
          intro _ w₁ written dir id
          simp only [World.fileAfter, found, used, false_and, and_false,
            if_false]
          exact written.file dir id fun _ => not_false

theorem Process.Mirrors.fileAfter (mirrors : v.toProcess.Mirrors w.toProcess)
    (same : v.os 0 = w.os 0) (dir id : String) :
    w.fileAfter ptr dir id = v.fileAfter ptr dir id := by
  unfold World.fileAfter
  rw [mirrors.findSlice, mirrors.pid, mirrors.self, mirrors.file, same]

/-- A slice that is detached in both. -/
theorem Process.Mirrors.detachSlice {p p' q q' : Process}
    (mirrors : p.Mirrors p') (left : p.detachSlice ptr = some q)
    (right : p'.detachSlice ptr = some q') :
    q'.pid = q.pid ∧ q'.cubes = q.cubes ∧ q'.orphans = q.orphans ∧
      q'.maps = q.maps ∧ q'.prot = q.prot := by
  obtain ⟨pid, -, cubes, orphans, maps, prot, -⟩ := id mirrors
  unfold Process.detachSlice at left right
  rw [mirrors.findSlice, pid] at right
  cases found : p.findSlice ptr with
  | none =>
      rw [found] at left
      cases left
  | some pair =>
      obtain ⟨cube, slice⟩ := pair
      rw [found] at left right
      have lowered : (p'.unlinkSlice cube.ptr ptr).cubes =
          (p.unlinkSlice cube.ptr ptr).cubes := congrArg (List.map _) cubes
      have shifted : (p'.unlinkSlice cube.ptr ptr).orphans =
          (p.unlinkSlice cube.ptr ptr).orphans := congrArg (List.map _) orphans
      by_cases own : cube.pid = p.pid
      · simp only [own, if_true] at left right
        by_cases unused : cube.nlinks = 0
        · rw [if_pos unused] at left right
          cases left
          cases right
          exact ⟨pid, lowered, congrArg (List.filter _) shifted, maps, prot⟩
        · rw [if_neg unused] at left right
          cases left
          cases right
          exact ⟨pid, lowered, shifted, maps, prot⟩
      · simp only [own, if_false] at left right
        cases left
        cases right
        exact ⟨pid, cubes, orphans, maps, prot⟩

/-- A detach that returns. -/
structure World.Detached (ptr : Nat) (w w' : World) : Prop where
  memory : ∃ q, w.detachSlice ptr = some q ∧ (w.put q).Quiet w'
  self : w'.self = w.self
  file : ∀ dir id, w'.file dir id = w.fileAfter ptr dir id

theorem detach_ends {locks : List Lock} (held : w.held = locks)
    (unheld : ∀ cube, Lock.cube cube ∉ locks) :
    Ensures (detach ptr) (fun _ w' => w.Detached ptr w')
      (fun _ _ => w.detachSlice ptr = none) w := by
  refine (((detach_detachSlice held unheld).and detach_file).and
    detach_writes).mono ?_ ?_
  · intro result w' ended
    exact ⟨ended.1.1, ended.2.self, ended.1.2⟩
  · intro reason w' ended
    exact ended.1.1.1

theorem Process.Mirrors.detached (mirrors : v.toProcess.Mirrors w.toProcess)
    (same : v.os 0 = w.os 0) (left : v.Detached ptr v')
    (right : w.Detached ptr w') : v'.toProcess.Mirrors w'.toProcess := by
  obtain ⟨q, detached, quiet⟩ := left.memory
  obtain ⟨q', detached', quiet'⟩ := right.memory
  obtain ⟨pid, cubes, orphans, maps, prot⟩ :=
    mirrors.detachSlice detached detached'
  have own := quiet.agrees
  have other := quiet'.agrees
  constructor
  · exact other.pid.trans (pid.trans own.pid.symm)
  · exact right.self.trans (mirrors.self.trans left.self.symm)
  · exact other.cubes.trans (cubes.trans own.cubes.symm)
  · exact other.orphans.trans (orphans.trans own.orphans.symm)
  · exact other.maps.trans (maps.trans own.maps.symm)
  · exact other.prot.trans (prot.trans own.prot.symm)
  · intro dir id
    rw [right.file, left.file, mirrors.fileAfter same]

/-- A detach does the same to the memory and to the files of both. -/
theorem detach_mirrors {p : Process} {locks : List Lock}
    (mirrors : p.Mirrors w.toProcess) (held : w.held = locks)
    (unheld : ∀ cube, Lock.cube cube ∉ locks) :
    Ensures (detach ptr)
      (fun _ w' => w'.held = w.held ∧
        (Event.outcome P p ⟨.detach ptr, w.errno, w.os⟩).Mirrors w'.toProcess)
      (fun _ _ => True) w := by
  refine (detach_ends held unheld).mono ?_ fun _ _ _ => trivial
  intro result w' right
  obtain ⟨q, detached, quiet⟩ := right.memory
  refine ⟨quiet.held, ?_⟩
  let v := p.enter w.errno w.os
  have mirrors : v.toProcess.Mirrors w.toProcess := mirrors
  refine final_of (fun p' => p'.Mirrors w'.toProcess)
    (@detach_ends v ptr [] rfl (by simp)) ?_ ?_
  · intro result' v' left
    exact mirrors.detached rfl left right
  · intro reason v' lost
    -- a pointer that dangles in one dangles in the other
    unfold Process.detachSlice at lost detached
    rw [mirrors.findSlice] at detached
    split at lost
    · rename_i gone
      rw [gone] at detached
      cases detached
    · split at lost
      · split at lost <;> cases lost
      · cases lost

end Detach

/-- As many links as the list has entries of the slice. -/
def Process.Supplies (ptrs : List Nat) (p : Process) : Prop :=
  ∀ ptr ∈ ptrs, ∀ cube slice, p.findSlice ptr = some (cube, slice) →
    (ptrs.count ptr : Int) ≤ slice.nlinks

section Supplies

variable {P : PageSize} {p : Process} {key ptr : Nat} {ptrs : List Nat}
  {cube' : Cube} {slice' : Slice}

/-- A slice after an unlink of one. -/
theorem mem_unlinkSlice (named : p.Named)
    (member : cube' ∈ (p.unlinkSlice key ptr).live)
    (inside : slice' ∈ cube'.slices) :
    ∃ cube slice, p.findSlice slice'.ptr = some (cube, slice) ∧
      slice.nlinks ≤ slice'.nlinks + if slice'.ptr = ptr then 1 else 0 := by
  have moved : (p.unlinkSlice key ptr).live = _ := Process.live_modifyCube _ _
  rw [moved] at member
  obtain ⟨cube, live, rfl⟩ := List.mem_map.mp member
  split at inside
  · obtain ⟨slice, within, rfl⟩ := List.mem_map.mp inside
    have found := named.findSlice_eq live within
    split
    · rename_i unlinked
      refine ⟨cube, slice, found, ?_⟩
      show slice.nlinks ≤ slice.nlinks - 1 + 1
      omega
    · rename_i kept
      refine ⟨cube, slice, found, ?_⟩
      omega
  · refine ⟨cube, slice', named.findSlice_eq live inside, ?_⟩
    split <;> omega

/-- The links that are left for the other entries. -/
theorem Process.Supplies.detach {errno : Nat} {os : Nat → Reply}
    (supplies : p.Supplies (ptr :: ptrs)) (named : p.Named) :
    (Event.outcome P p ⟨.detach ptr, errno, os⟩).Supplies ptrs := by
  have fewer : ∀ {other}, other ∈ ptrs → ∀ {cube slice},
      p.findSlice other = some (cube, slice) →
        (ptrs.count other : Int) + (if other = ptr then 1 else 0) ≤
          slice.nlinks := by
    intro other member cube slice found
    have enough := supplies other (List.mem_cons_of_mem ptr member) cube slice
      found
    rw [List.count_cons] at enough
    by_cases same : other = ptr
    · simpa [same] using enough
    · simpa [same, Ne.symm same] using enough
  refine final_of (Process.Supplies ptrs)
    (@detach_spec ptr (p.enter errno os) [] rfl (by simp)) ?_ ?_
  · rintro result w' (⟨-, -, quiet⟩ | ⟨-, target, unlinked, detaches⟩) other
      member cube' slice' found
    · have same : w'.findSlice other = p.findSlice other := by
        rw [Process.findSlice, quiet.agrees.live]
        rfl
      have enough := fewer member (same.symm.trans found)
      split at enough <;> omega
    · have agrees := detaches.effect.agrees
      obtain ⟨live, inside, rfl⟩ := findSlice_mem found
      have kept : cube' ∈ (p.unlinkSlice target.ptr ptr).live := by
        rw [agrees.live] at live
        split at live
        · rcases List.mem_append.mp live with registered | orphan
          · exact List.mem_append_left _ registered
          · exact List.mem_append_right _ (List.mem_filter.mp orphan).1
        · exact live
      obtain ⟨cube, slice, before, links⟩ := mem_unlinkSlice named kept inside
      have enough := fewer member before
      omega
  · rintro reason w' ⟨rfl, -⟩ other member cube' slice' found
    have enough := fewer member found
    split at enough <;> omega

end Supplies

def Family.Act.Detaches (owner : Nat) (act : Family.Act) : Prop :=
  ∃ ptr errno os, act = .event owner ⟨.detach ptr, errno, os⟩

/-- A process of a tree detaches slices, and keeps what it reads. -/
structure Family.Lands (P : PageSize) (owner : Nat) (f : Family)
    (f' : Family) (m' : Relative) : Prop where
  run : ∃ detaches, Run (Family.Step P) f detaches f' ∧
    ∀ point ∈ detaches, point.2.Detaches owner
  reckoned : f'.Reckoned P
  here : f'.members owner = some m'
  sees : ∀ id index byte, f.Sees owner id index byte →
    f'.Sees owner id index byte

section Answer

variable {P : PageSize} {owner response : Nat} {f f' f'' : Family}
  {m m' m'' : Relative} {w w' : World} {ptr : Nat} {ptrs : List Nat}

theorem Family.Lands.nil (reckoned : f.Reckoned P)
    (here : f.members owner = some m) : Family.Lands P owner f f m where
  run := ⟨[], .nil f, fun _ member => by cases member⟩
  reckoned := reckoned
  here := here
  sees := fun _ _ _ => id

theorem Family.Lands.trans (first : Family.Lands P owner f f' m')
    (rest : Family.Lands P owner f' f'' m'') :
    Family.Lands P owner f f'' m'' where
  run := by
    obtain ⟨detaches, run, only⟩ := first.run
    obtain ⟨later, run', only'⟩ := rest.run
    refine ⟨detaches ++ later, run.append run', ?_⟩
    intro point member
    rcases List.mem_append.mp member with early | late
    · exact only point early
    · exact only' point late
  reckoned := rest.reckoned
  here := rest.here
  sees := fun id index byte sees =>
    rest.sees id index byte (first.sees id index byte sees)

/-- One detach of a process of the tree. -/
theorem Family.lands_detach {errno : Nat} {os : Nat → Reply}
    (reckoned : f.Reckoned P) (here : f.members owner = some m)
    (supplies : m.Supplies (ptr :: ptrs)) :
    ∃ f' m', Family.Lands P owner f f' m' ∧ m'.Supplies ptrs ∧
      m'.on f'.files =
        Event.outcome P (m.on f.files) ⟨.detach ptr, errno, os⟩ := by
  let event : Event := ⟨.detach ptr, errno, os⟩
  obtain ⟨f', step, there, files⟩ : ∃ f', Family.Step P f (.event owner event)
      f' ∧ f'.members owner = some (m.after P event f.files) ∧
        f'.files = (m.after P event f.files).files :=
    ⟨_, .event here ⟨trivial, fun _ made => by cases made⟩,
      Function.update_self _ _ _, rfl⟩
  have paired : Family.Act.Paired f (.event owner event) := by
    intro m₀ here₀ cube slice found
    cases here.symm.trans here₀
    have enough := supplies ptr List.mem_cons_self cube slice found
    rw [List.count_cons_self] at enough
    omega
  have laid : (m.on f.files).Laid P :=
    (reckoned.sound.members owner m here).laid.on
  refine ⟨f', m.after P event f.files, ?_, ?_, ?_⟩
  · constructor
    · refine ⟨_, .cons step (.nil _), ?_⟩
      intro point member
      cases List.mem_singleton.mp member
      exact ⟨ptr, errno, os, rfl⟩
    · exact step.reckoned reckoned paired
    · exact there
    · intro id index byte sees
      exact sees.detached reckoned step paired
  · exact Process.Supplies.detach (p := m.on f.files) supplies laid.named
  · rw [files]
    rfl

/-- The loop over the arguments detaches the arrays, one after the other. -/
theorem detachArguments_lands {arguments : List Argument} {locks : List Lock}
    (held : w.held = locks) (unheld : ∀ cube, Lock.cube cube ∉ locks)
    (reckoned : f.Reckoned P) (here : f.members owner = some m)
    (supplies : m.Supplies (arrayContexts arguments))
    (mirrors : (m.on f.files).Mirrors w.toProcess) :
    Ensures (detachArguments arguments)
      (fun _ w' => ∃ f' m', Family.Lands P owner f f' m' ∧
        (m'.on f'.files).Mirrors w'.toProcess)
      (fun _ _ => True) w := by
  induction arguments generalizing w f m with
  | nil => exact ⟨f, m, .nil reckoned here, mirrors⟩
  | cons argument arguments induction =>
      cases argument with
      | empty => exact induction held reckoned here supplies mirrors
      | scalar bytes => exact induction held reckoned here supplies mirrors
      | array array =>
          refine ensures_bind.mpr ((@detach_mirrors P w array.context
            (m.on f.files) locks mirrors held unheld).mono ?_
              fun _ _ _ => trivial)
          intro result w₁ ended
          obtain ⟨held₁, mirrors₁⟩ := ended
          obtain ⟨f₁, m₁, first, supplies₁, same⟩ :=
            @Family.lands_detach P owner f m array.context
              (arrayContexts arguments) w.errno w.os reckoned here supplies
          rw [← same] at mirrors₁
          apply (induction (held₁.trans held) first.reckoned first.here
            supplies₁ mirrors₁).mono
          · intro _ w₂ ended
            obtain ⟨f', m', rest, mirrors₂⟩ := ended
            exact ⟨f', m', first.trans rest, mirrors₂⟩
          · exact fun _ _ _ => trivial

theorem unlock_process (mutex : Lock) (w : World) :
    Ensures (unlock mutex) (fun _ w' => w'.toProcess = w.toProcess)
      (fun _ _ => True) w := by
  unfold unlock Ensures
  dsimp only
  split
  · rename_i run
    split at run
    · cases run
      rfl
    · cases run
      rfl
  · trivial

/-- The end of the critical section touches no memory. -/
theorem settle_mirrors {p : Process} (mirrors : p.Mirrors w.toProcess) :
    Ensures (settle response) (fun _ w' => p.Mirrors w'.toProcess)
      (fun _ _ => True) w := by
  unfold settle
  apply ensures_derefResponse
  · exact fun _ _ _ _ => trivial
  · intro r found
    split
    · refine ensures_bind.mpr ((unlock_process _ w).mono ?_ fun _ _ _ =>
        trivial)
      intro _ w' same
      rw [ensures_pure, same]
      exact mirrors
    · refine Ensures.step rfl (Ensures.step rfl ?_)
      refine ensures_bind.mpr ((unlock_process _ _).mono ?_ fun _ _ _ =>
        trivial)
      intro _ w' same
      rw [ensures_pure, same]
      exact ⟨mirrors.pid, mirrors.self, mirrors.cubes, mirrors.orphans,
        mirrors.maps, mirrors.prot, mirrors.file⟩

theorem deleteResponse_mirrors {p : Process} (mirrors : p.Mirrors w.toProcess) :
    Ensures (deleteResponse response) (fun _ w' => p.Mirrors w'.toProcess)
      (fun _ _ => True) w := by
  unfold deleteResponse
  apply ensures_derefResponse
  · exact fun _ _ _ _ => trivial
  · intro r found
    refine ensures_bind.mpr ?_
    exact ⟨mirrors.pid, mirrors.self, mirrors.cubes, mirrors.orphans,
      mirrors.maps, mirrors.prot, mirrors.file⟩

theorem waiterSection_lands {r : Response} (free : w.held = [])
    (found : w.responses response = some r) (reckoned : f.Reckoned P)
    (here : f.members owner = some m)
    (supplies : m.Supplies (arrayContexts r.request.arguments))
    (mirrors : (m.on f.files).Mirrors w.toProcess) :
    Ensures (waiterSection response)
      (fun _ w' => ∃ f' m', Family.Lands P owner f f' m' ∧
        (m'.on f'.files).Mirrors w'.toProcess)
      (fun _ _ => True) w := by
  unfold waiterSection
  apply ensures_derefResponse
  · exact fun _ _ _ _ => trivial
  · intro r' found'
    cases found.symm.trans found'
    apply Ensures.step (lock_run (by simp [free]))
    rw [free]
    have mirrors : (m.on f.files).Mirrors
      (w.holding [.response response]).toProcess := mirrors
    refine ensures_bind.mpr ((detachArguments_lands rfl (by simp) reckoned here
      supplies mirrors).mono ?_ fun _ _ _ => trivial)
    intro _ w₁ ended
    obtain ⟨f', m', lands, mirrors₁⟩ := ended
    exact (settle_mirrors mirrors₁).mono
      (fun _ _ mirrors₂ => ⟨f', m', lands, mirrors₂⟩) fun _ _ _ => trivial

/-- A turn of the waiter is a run of detaches. -/
theorem waiter_lands {r : Response} (free : w.held = [])
    (found : w.responses response = some r) (reckoned : f.Reckoned P)
    (here : f.members owner = some m)
    (supplies : m.Supplies (arrayContexts r.request.arguments))
    (mirrors : (m.on f.files).Mirrors w.toProcess) :
    Ensures (waiter response)
      (fun _ w' => ∃ f' m', Family.Lands P owner f f' m' ∧
        (m'.on f'.files).Mirrors w'.toProcess)
      (fun _ _ => True) w := by
  unfold waiter
  refine ensures_bind.mpr ((waiterSection_lands free found reckoned here
    supplies mirrors).mono ?_ fun _ _ _ => trivial)
  intro gone w₁ ended
  obtain ⟨f', m', lands, mirrors₁⟩ := ended
  split
  · exact (deleteResponse_mirrors mirrors₁).mono
      (fun _ _ mirrors₂ => ⟨f', m', lands, mirrors₂⟩) fun _ _ _ => trivial
  · exact ⟨f', m', lands, mirrors₁⟩

/-- A turn of the waiter completes the response, or deletes it. -/
theorem waiter_answers {r : Response} (free : w.held = [])
    (found : w.responses response = some r) :
    Ensures (waiter response)
      (fun _ w' => w'.responses response =
        if r.cancelled then none else some { r with done := true })
      (fun _ _ => True) w := by
  unfold waiter
  refine ensures_bind.mpr ((waiterSection_spec free).mono ?_ fun _ _ _ =>
    trivial)
  intro gone w₁ ended
  obtain ⟨r', q, found', -, rfl, quiet⟩ := ended
  cases found.symm.trans found'
  split
  · refine deleteResponse_spec.mono ?_ fun _ _ _ => trivial
    intro _ w' ended
    have same := congrFun (congrArg (·.responses) ended.2.rpc) response
    exact same.trans (Function.update_self _ _ _)
  · rename_i awaited
    have same := congrFun (congrArg (·.responses) quiet.rpc) response
    rw [if_neg awaited] at same
    rw [ensures_pure]
    exact same.trans (Function.update_self _ _ _)

/-- When the waiter has completed a response, the process reads in its blocks
what it has read before. -/
theorem results_received {root errno : Nat} {self : String} {os : Nat → Reply}
    {past : List (Family × Exchange)} {rpc : Rpc} {r : Response}
    (run : Run (Exchange.Step P) (.loaded root self) past f)
    (paired : ∀ point ∈ past, point.2.Paired point.1)
    (here : f.members owner = some m)
    (asked : rpc.responses response = some r)
    (supplies : m.Supplies (arrayContexts r.request.arguments))
    (completed : waiter response ((m.serving rpc f.files).enter errno os) =
      .ok () w') :
    w'.responses response =
        (if r.cancelled then none else some { r with done := true }) ∧
      ∃ f' m', (∃ detaches, Run (Family.Step P) f detaches f' ∧
          ∀ point ∈ detaches, point.2.Detaches owner) ∧
        f'.members owner = some m' ∧ (m'.on f'.files).Mirrors w'.toProcess ∧
        ∀ id index byte, f.Sees owner id index byte →
          f'.Sees owner id index byte := by
  have reckoned := Family.reckoned_exchanges run paired
  have mirrors : (m.on f.files).Mirrors (m.serving rpc f.files) :=
    ⟨rfl, rfl, rfl, rfl, rfl, rfl, fun _ _ => rfl⟩
  obtain ⟨f', m', lands, mirrors'⟩ := (@waiter_lands P owner response f m
    ((m.serving rpc f.files).enter errno os) r rfl asked reckoned here supplies
    mirrors).of_ok completed
  exact ⟨(@waiter_answers response ((m.serving rpc f.files).enter errno os) r
    rfl asked).of_ok completed, f', m', lands.run, lands.here, mirrors',
    lands.sees⟩

end Answer

/-- The response of a request for the slice of `Relative.carrying`. -/
def Rpc.awaiting : Rpc :=
  { Rpc.asking with
    responses := fun _ => some ⟨⟨"k", [.array ⟨2, "a", 0, 1, 0⟩],
      some ⟨"d", 0⟩⟩, Status.ok, false, false⟩ }

/-- The files of `Relative.carrying` after a store of a server. -/
def Relative.results : List File :=
  Relative.carrying.files.map fun file =>
    if file.dir = "d" ∧ file.id = "a" then file.store 0 9 else file

/-- A process reads the byte that a server has stored. -/
theorem results_received_served :
    ∃ (f f' : Family) (past : List (Family × Exchange)) (w' : World),
      Run (Exchange.Step .small) (.loaded 1 "d") past f ∧
      waiter 4 ((Relative.carrying.serving .awaiting Relative.results).enter 0
        succeeds) = .ok () w' ∧
      (w'.responses 4).map Response.done = some true ∧
      f.Sees 1 "a" 0 9 ∧ f'.Sees 1 "a" 0 9 ∧
      ∃ m', f'.members 1 = some m' ∧ (m'.on f'.files).Mirrors w'.toProcess := by
  obtain ⟨f₂, past, run, paired, here₂, -, files₂⟩ := Relative.stocked_reached
  obtain ⟨f₃, attached, here₃, files₃⟩ : ∃ f, Family.Step .small f₂
      (.event 1 (.smooth (.attach 2) 0)) f ∧
        f.members 1 = some Relative.carrying ∧
        f.files = Relative.carrying.files := by
    refine ⟨_, .event here₂ ⟨trivial, by simp [Event.smooth, Event.made]⟩, ?_,
      ?_⟩
    · rw [files₂]
      rfl
    · rw [files₂]
      rfl
  have flight : f₃.InFlight "d" "a" 0 := by
    refine ⟨1, Relative.carrying, here₃, ?_⟩
    decide +kernel
  have here₄ : (f₃.served "d" "a" 0 9).members 1 = some Relative.carrying :=
    here₃
  have files₄ : (f₃.served "d" "a" 0 9).files = Relative.results := by
    show f₃.files.map _ = _
    rw [files₃]
    rfl
  have served : Exchange.Step .small f₃ (.serve "d" "a" 0 9)
      (f₃.served "d" "a" 0 9) := .serve flight
  have run := (run.snoc (.act attached)).snoc served
  have completed := Program.eq_ok_final (show returned (waiter 4
    ((Relative.carrying.serving .awaiting Relative.results).enter 0
      succeeds)) = some () by decide +kernel)
  have completed' := completed
  rw [← files₄] at completed'
  have supplies : Relative.carrying.Supplies [2] := by
    intro ptr member cube slice found
    cases List.mem_singleton.mp member
    obtain ⟨cube', -, slice', -, found', links⟩ :
        ∃ cube ∈ Relative.carrying.cubes, ∃ slice ∈ cube.slices,
          Relative.carrying.findSlice 2 = some (cube, slice) ∧
            1 ≤ slice.nlinks := by decide +kernel
    cases found.symm.trans found'
    exact links
  have sees : (f₃.served "d" "a" 0 9).Sees 1 "a" 0 9 := by
    intro m here
    cases here₄.symm.trans here
    rw [files₄]
    decide +kernel
  have asked : Rpc.awaiting.responses 4 =
      some ⟨⟨"k", [.array ⟨2, "a", 0, 1, 0⟩], some ⟨"d", 0⟩⟩, Status.ok, false,
        false⟩ := rfl
  have received := results_received run ?_ here₄ asked supplies completed'
  · obtain ⟨response, f', m', -, here', mirrors, kept⟩ := received
    rw [files₄] at response mirrors
    refine ⟨_, f', _, _, run, completed, ?_, sees, kept _ _ _ sees, m', here',
      mirrors⟩
    rw [response]
    rfl
  · intro point member
    rcases List.mem_append.mp member with early | late
    · rcases List.mem_append.mp early with early | late
      · exact paired point early
      · cases List.mem_singleton.mp late
        exact fun _ _ => trivial
    · cases List.mem_singleton.mp late
      trivial

end CoralApi
