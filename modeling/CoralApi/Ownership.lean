import CoralApi.ResponseSpec
import CoralApi.Rollback

/-!
# Who owns the slices of a response

Neither an attach nor a detach makes an object, or gives one to another
process.  A submission that returns 0 has attached slices of own cubes only,
so each of them can be detached.
-/

namespace CoralApi

open Program

/-- The slices of these names are in own cubes. -/
def Process.Own (ptrs : List Nat) (p : Process) : Prop :=
  ∀ cube ∈ p.live, ∀ slice ∈ cube.slices, slice.ptr ∈ ptrs → cube.pid = p.pid

instance (ptrs : List Nat) (p : Process) : Decidable (p.Own ptrs) :=
  inferInstanceAs (Decidable (∀ cube ∈ p.live, ∀ slice ∈ cube.slices,
    slice.ptr ∈ ptrs → cube.pid = p.pid))

/-- The slices that the snapshot in the response names. -/
def Process.contexts (response : Nat) (p : Process) : List Nat :=
  match p.responses response with
  | none => []
  | some r => arrayContexts r.request.arguments

theorem contexts_eq {response : Nat} {r : Response} {p : Process}
    (found : p.responses response = some r) :
    p.contexts response = arrayContexts r.request.arguments := by
  simp [Process.contexts, found]

/-- No cube or slice is new, and none has changed hands. -/
structure Process.Retains (p q : Process) : Prop where
  pid : q.pid = p.pid
  nextPtr : p.nextPtr ≤ q.nextPtr
  names : q.names.Sublist p.names
  hands : ∀ cube' ∈ q.live, ∃ cube ∈ p.live, cube'.pid = cube.pid ∧
    cube'.slices.map Slice.ptr = cube.slices.map Slice.ptr

namespace Process.Retains

variable {p q r : Process} {ptr : Nat}

theorem of_live (live : q.live = p.live) (pid : q.pid = p.pid)
    (nextPtr : p.nextPtr ≤ q.nextPtr) : p.Retains q := by
  refine ⟨pid, nextPtr, ?_, fun cube member => ⟨cube, live ▸ member, rfl, rfl⟩⟩
  rw [Process.names, Process.names, live]

theorem refl (p : Process) : p.Retains p := .of_live rfl rfl (Nat.le_refl _)

theorem trans (first : p.Retains q) (second : q.Retains r) : p.Retains r := by
  refine ⟨second.pid.trans first.pid,
    Nat.le_trans first.nextPtr second.nextPtr,
    second.names.trans first.names, fun cube'' member'' => ?_⟩
  obtain ⟨cube', member', pid', slices'⟩ := second.hands cube'' member''
  obtain ⟨cube, member, pid, slices⟩ := first.hands cube' member'
  exact ⟨cube, member, pid'.trans pid, slices'.trans slices⟩

theorem of_quiet {w w' : World} (quiet : w.Quiet w') :
    w.toProcess.Retains w'.toProcess := by
  refine of_live ?_ quiet.pid quiet.nextPtr
  rw [Process.live, Process.live, quiet.cubes, quiet.orphans]

theorem named (retains : p.Retains q) (named : p.Named) : q.Named :=
  named.of_subperm retains.names.subperm retains.nextPtr

theorem own {ptrs : List Nat} (retains : p.Retains q) (own : p.Own ptrs) :
    q.Own ptrs := by
  intro cube' member' slice' inside' named
  obtain ⟨cube, member, pid, slices⟩ := retains.hands cube' member'
  have inside : slice'.ptr ∈ cube.slices.map Slice.ptr :=
    slices ▸ List.mem_map_of_mem inside'
  obtain ⟨slice, inside, same⟩ := List.mem_map.mp inside
  rw [pid, retains.pid]
  exact own cube member slice inside (same ▸ named)

/-- A change of the counts of cubes and slices. -/
theorem modifyCube {change : Cube → Cube}
    (same : ∀ cube, (change cube).ptr = cube.ptr ∧
      (change cube).pid = cube.pid ∧
      (change cube).slices.map Slice.ptr = cube.slices.map Slice.ptr) :
    p.Retains (p.modifyCube ptr change) := by
  refine ⟨rfl, Nat.le_refl _, ?_, ?_⟩
  · rw [names_modifyCube fun cube => by
      rw [Cube.names, (same cube).1, (same cube).2.2, Cube.names]]
  · intro cube' member'
    rw [live_modifyCube] at member'
    obtain ⟨cube, member, rfl⟩ := List.mem_map.mp member'
    refine ⟨cube, member, ?_⟩
    split
    · exact (same cube).2
    · exact ⟨rfl, rfl⟩

end Process.Retains

theorem Cube.modifySlice_ptrs {cube : Cube} {ptr : Nat}
    {change : Slice → Slice} (same : ∀ slice, (change slice).ptr = slice.ptr) :
    (cube.modifySlice ptr change).slices.map Slice.ptr =
      cube.slices.map Slice.ptr := by
  simp only [Cube.modifySlice, List.map_map]
  congr 1
  funext slice
  simp only [Function.comp]
  split
  · exact same slice
  · rfl

section Kept

variable {p q : Process} {ptr : Nat} {ptrs : List Nat}

theorem retains_linkSlice : p.Retains (p.linkSlice ptr) := by
  unfold Process.linkSlice
  split
  · exact .refl p
  · exact .modifyCube fun cube =>
      ⟨rfl, rfl, Cube.modifySlice_ptrs fun _ => rfl⟩

theorem retains_linkSlices : p.Retains (p.linkSlices ptrs) := by
  induction ptrs generalizing p with
  | nil => exact .refl p
  | cons ptr ptrs induction => exact retains_linkSlice.trans induction

theorem retains_release : p.Retains (p.release ptr) := by
  refine ⟨rfl, Nat.le_refl _, Process.names_release ptr, ?_⟩
  intro cube member
  refine ⟨cube, ?_, rfl, rfl⟩
  rcases List.mem_append.mp member with registered | orphan
  · exact List.mem_append_left _ registered
  · exact List.mem_append_right _ (List.mem_of_mem_filter orphan)

theorem retains_unlinkSlice {cube : Nat} :
    p.Retains (p.unlinkSlice cube ptr) := by
  have lowered := @Process.Retains.modifyCube p cube (fun cube =>
      { cube.modifySlice ptr fun slice =>
          { slice with nlinks := slice.nlinks - 1 } with
        nlinks := cube.nlinks - 1 })
    fun cube => ⟨rfl, rfl, cube.modifySlice_ptrs fun _ => rfl⟩
  exact lowered.trans (.of_live rfl rfl (Nat.le_refl _))

/-- A slice of an own cube is detached. -/
theorem detachSlice_retains (detached : p.detachSlice ptr = some q) :
    p.Retains q ∧ (p.Own [ptr] → q.detached = ptr :: p.detached) := by
  unfold Process.detachSlice at detached
  split at detached
  · cases detached
  · rename_i cube slice found
    split at detached
    · split at detached
      · cases detached
        have removed : (p.unlinkSlice cube.ptr ptr).Retains
            ((p.unlinkSlice cube.ptr ptr).unlinkFile cube.id) :=
          .of_live rfl rfl (Nat.le_refl _)
        exact ⟨(retains_unlinkSlice.trans removed).trans retains_release,
          fun _ => rfl⟩
      · cases detached
        exact ⟨retains_unlinkSlice, fun _ => rfl⟩
    · rename_i foreign
      cases detached
      obtain ⟨member, inside, named⟩ := findSlice_mem found
      exact ⟨.refl _, fun own => absurd
        (own cube member slice inside (by simp [named])) foreign⟩

theorem detachSlices_retains (detached : p.detachSlices ptrs = some q) :
    p.Retains q ∧ (p.Own ptrs → q.detached = ptrs.reverse ++ p.detached) := by
  induction ptrs generalizing p with
  | nil =>
      cases detached
      exact ⟨.refl _, fun _ => rfl⟩
  | cons ptr ptrs induction =>
      obtain ⟨middle, first, rest⟩ := detachSlices_cons detached
      obtain ⟨retains, here⟩ := detachSlice_retains first
      obtain ⟨retains', later⟩ := induction rest
      refine ⟨retains.trans retains', fun own => ?_⟩
      have head : p.Own [ptr] := fun cube member slice inside named =>
        own cube member slice inside
          (List.mem_singleton.mp named ▸ List.mem_cons_self)
      have tail : p.Own ptrs := fun cube member slice inside named =>
        own cube member slice inside (List.mem_cons_of_mem _ named)
      rw [later (retains.own tail), here head]
      simp

theorem own_of_owner (named : p.Named)
    (owns : ∀ ptr ∈ ptrs, p.owner ptr = some p.pid) : p.Own ptrs := by
  intro cube member slice inside named'
  have owner := owns slice.ptr named'
  rw [Process.owner, named.findSlice_eq member inside] at owner
  exact Option.some.inj owner

end Kept

/-- The response is now this one, and no response was deleted. -/
structure Process.Tends (response : Nat) (r : Option Response)
    (p q : Process) : Prop where
  retains : p.Retains q
  here : q.responses response = r
  deleted : q.deleted = p.deleted

namespace Process.Tends

variable {response : Nat} {r r' : Option Response} {p q q' : Process}

theorem of_same (same : q.live = p.live ∧ q.pid = p.pid ∧
      q.nextPtr = p.nextPtr ∧ q.deleted = p.deleted)
    (here : q.responses response = r) : p.Tends response r q where
  retains := .of_live same.1 same.2.1 (Nat.le_of_eq same.2.2.1.symm)
  here := here
  deleted := same.2.2.2

theorem quiet {w w' : World} (tends : p.Tends response r q)
    (quiet : (w.put q).Quiet w') : p.Tends response r w'.toProcess where
  retains := tends.retains.trans (.of_quiet quiet)
  here := (congrFun (congrArg (·.responses) quiet.rpc) response).trans
    tends.here
  deleted := (congrArg (·.deleted) quiet.rpc).trans tends.deleted

theorem of_quiet {w w' : World} (found : w.responses response = r)
    (quiet : w.Quiet w') : w.Tends response r w'.toProcess :=
  Process.Tends.quiet (w := w)
    (.of_same ⟨rfl, rfl, rfl, rfl⟩ found) quiet

theorem trans (first : p.Tends response r q)
    (second : q.Tends response r' q') : p.Tends response r' q' where
  retains := first.retains.trans second.retains
  here := second.here
  deleted := second.deleted.trans first.deleted

theorem of_detached {ptrs : List Nat} (found : p.responses response = r)
    (detached : p.detachSlices ptrs = some q) : p.Tends response r q := by
  have rpc := (detachSlices_others detached).1
  exact ⟨(detachSlices_retains detached).1,
    (congrFun (congrArg (·.responses) rpc) response).trans found,
    congrArg (·.deleted) rpc⟩

end Process.Tends

section Submitted

variable {request response : Nat} {grpc : Request} {r : Response}
  {w w' : World}

theorem SendOutcome.tends {result : Except Stop Int}
    (outcome : SendOutcome request response grpc w result w')
    (found : w.responses response = some r) :
    ∃ grpc', w.Tends response (some { r with request := grpc' })
      w'.toProcess ∧ (result = .ok 0 → grpc' = grpc) := by
  have stamped : w.Tends response (some { r with request := grpc })
      (w.stamped request response grpc r) :=
    .of_same ⟨rfl, rfl, rfl, rfl⟩ (Function.update_self _ _ _)
  have withQueue : ∀ p : Process, p.Tends response (p.responses response)
      p.withQueue := fun p =>
    withQueue_ind (p.Tends response (p.responses response))
      (.of_same ⟨rfl, rfl, rfl, rfl⟩ rfl) (.of_same ⟨rfl, rfl, rfl, rfl⟩ rfl)
  have queued : w.Tends response (some { r with request := grpc })
      (w.stamped request response grpc r).withQueue :=
    stamped.trans (stamped.here ▸ withQueue _)
  have same : ∀ {r'}, w.responses response = some r' → r' = r :=
    fun found' => Option.some.inj (found'.symm.trans found)
  cases outcome with
  | early fails quiet => exact ⟨r.request, .of_quiet found quiet, by simp⟩
  | lost answered lost quiet => simp [found] at lost
  | unmarked first found' fails quiet =>
      cases same found'
      have written : w.Tends response (some { r with request := grpc })
          (w.setResponse response { r with request := grpc }) :=
        .of_same ⟨rfl, rfl, rfl, rfl⟩ (Function.update_self _ _ _)
      exact ⟨grpc, written.quiet quiet, fun _ => rfl⟩
  | starved answered found' closed fails quiet =>
      cases same found'
      exact ⟨grpc, stamped.quiet (w := w.holding [.queue]) quiet,
        fun _ => rfl⟩
  | short started found' closed fewer answered fails quiet =>
      cases same found'
      have opened : w.Tends response (some { r with request := grpc })
          ((w.stamped request response grpc r).openQueue started) :=
        .of_same ⟨rfl, rfl, rfl, rfl⟩ stamped.here
      exact ⟨grpc, opened.quiet quiet, fun _ => rfl⟩
  | unsent found' answered fails quiet =>
      cases same found'
      exact ⟨grpc, queued.quiet quiet, fun _ => rfl⟩
  | sent found' answered quiet =>
      cases same found'
      have sent : w.Tends response (some { r with request := grpc })
          ((w.stamped request response grpc r).withQueue.send response
            { grpc with metadata := some ⟨w.self, w.stamp⟩ }) :=
        queued.trans (.of_same ⟨rfl, rfl, rfl, rfl⟩ queued.here)
      exact ⟨grpc, sent.quiet quiet, fun _ => rfl⟩

theorem World.Links.tends {ptrs : List Nat} (links : w.Links request ptrs w')
    (found : w.responses response = some r) :
    w.Tends response (some r) w'.toProcess where
  retains := by
    refine retains_linkSlices.trans (.of_live links.live ?_ ?_)
    · exact links.pid.trans
        (congrArg (·.pid) (linkSlices_others ptrs)).symm
    · refine Nat.le_trans (Nat.le_of_eq ?_) links.nextPtr
      exact congrArg (·.nextPtr) (linkSlices_others ptrs)
  here := (congrFun (congrArg (·.responses) links.rpc) response).trans found
  deleted := congrArg (·.deleted) links.rpc

theorem caught_zero {result : Except Stop Int} :
    caught result = .ok 0 ↔ result = .ok 0 := by
  cases result with
  | ok value => rfl
  | error reason =>
      cases reason with
      | thrown => simp [caught]
      | blocked => simp [caught]
      | asleep ptr => simp [caught]
      | dangling ptr => simp [caught]

/-- A call that ends in the loop does not return 0. -/
theorem AttachOutcome.not_zero {ptrs : List Nat} {ended : Except Stop Bool}
    (outcome : AttachOutcome request w ptrs ended w')
    (short : ended ≠ .ok true) : caught (ended.map fun _ => -1) ≠ .ok 0 := by
  rw [Ne, caught_zero]
  cases outcome with
  | attached serves os links => exact absurd rfl short
  | refused before slots serves found fails links => simp [Except.map]
  | thrown before slots serves owns answered fails links => simp [Except.map]
  | dangling before slots serves lost links => simp [Except.map]

theorem arrayContexts_eq {arguments others : List Argument}
    (same : arguments.map Argument.context? =
      others.map Argument.context?) :
    arrayContexts arguments = arrayContexts others := by
  have slots : ∀ list : List Argument, arrayContexts list =
      (list.map Argument.context?).filterMap id := by
    intro list
    rw [List.filterMap_map]
    rfl
  rw [slots, slots, same]

/-- A submission writes at most the snapshot into the response.  It returns 0
with a snapshot whose slices are own. -/
theorem SubmitOutcome.tends {result : Except Stop Int}
    (outcome : SubmitOutcome request response w result w')
    (found : w.responses response = some r) :
    ∃ grpc, w.Tends response (some { r with request := grpc })
        w'.toProcess ∧
      (result = .ok 0 → w.Named → w'.Own (arrayContexts grpc.arguments)) := by
  cases outcome with
  | null missing quiet => exact ⟨r.request, .of_quiet found quiet, by simp⟩
  | unread given fails quiet =>
      exact ⟨r.request, .of_quiet found quiet, by simp⟩
  | lost given answered lost quiet =>
      exact ⟨r.request, .of_quiet found quiet, by simp⟩
  | stopped given answered found' loop short ends =>
      obtain ⟨attached, links⟩ := loop.links
      have tends := World.Links.tends (w := w.asked) links found
      refine ⟨r.request, tends, fun returned => ?_⟩
      exact absurd (ends.symm.trans returned) (loop.not_zero short)
  | @tried grpc grpc' w₁ _ ended _ past found' send ends =>
      obtain ⟨snapshot, tends, same⟩ := send.tends
        ((congrFun past.responses response).trans found)
      have attached := World.Links.tends (w := w.asked) past.links found
      refine ⟨snapshot, attached.trans tends, fun returned named => ?_⟩
      rw [same (caught_zero.mp (ends.symm.trans returned))]
      obtain ⟨grpc'', found'', slots⟩ := past.links.found past.found
      cases found'.symm.trans found''
      rw [arrayContexts_eq slots]
      have own : w.Own (arrayContexts grpc.arguments) :=
        own_of_owner named past.serves.owns
      exact (attached.trans tends).retains.own own

/-- A submission returns 0 when all that it needs is there. -/
theorem SubmitOutcome.through_iff {result : Except Stop Int}
    (outcome : SubmitOutcome request response w result w') :
    result = .ok 0 ↔ w.GetsThrough request response := by
  cases outcome with
  | null missing quiet =>
      refine iff_of_false (by simp) ?_
      rintro ⟨asked, ⟨given, given', -⟩, -⟩
      exact missing.elim given given'
  | unread given fails quiet =>
      refine iff_of_false (by simp) ?_
      rintro ⟨asked, ⟨-, -, -, answered, grpc, -, -, rfl⟩, -⟩
      exact absurd (answered 0 (by omega)) (by simp [fails])
  | lost given answered lost quiet =>
      refine iff_of_false (by simp) ?_
      rintro ⟨asked, ⟨-, -, -, -, grpc, found, -⟩, -⟩
      simp [lost] at found
  | stopped given answered found loop short ends =>
      refine iff_of_false (ends ▸ loop.not_zero short) ?_
      rintro ⟨asked, reaches, -⟩
      exact short (loop.attached_iff.mpr
        ((reaches_iff given found).mp reaches).2.1)
  | @tried grpc grpc' w₁ _ ended _ past found send ends =>
      rw [← send.through_iff past, ends, caught_zero]

end Submitted

end CoralApi
