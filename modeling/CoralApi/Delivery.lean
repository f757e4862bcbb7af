import CoralApi.Heaps
import CoralApi.Message

/-!
# From a request to the file that the server opens

The message of a submission names files of the directory of the process.  A
server that opens them finds at the offset of an array the bytes that the
process reads in its block, whatever the other processes of the tree have
done.
-/

namespace CoralApi

open Program Transition

section Submission

variable {P : PageSize} {ids : String → Prop} {request response : Nat}

theorem writesOnly_mayThrow : WritesOnly ids mayThrow := by
  intro w
  cases answered : (w.os 0).isDone with
  | true => exact (ensures_ok (mayThrow_done answered)).mpr (.of_same rfl)
  | false => exact Ensures.ends (mayThrow_failed answered) (.of_same rfl)

theorem writesOnly_derefRequest (ptr : Nat) :
    WritesOnly ids (derefRequest ptr) := by
  intro w
  cases found : w.requests ptr with
  | none =>
      have lost : derefRequest ptr w = .error (.dangling ptr) w := by
        simp only [derefRequest, found]
      exact Ensures.ends lost (.refl w)
  | some grpc =>
      have here : derefRequest ptr w = .ok grpc w := by
        simp only [derefRequest, found]
      exact (ensures_ok here).mpr (.refl w)

theorem writesOnly_derefResponse (ptr : Nat) :
    WritesOnly ids (derefResponse ptr) := by
  intro w
  cases found : w.responses ptr with
  | none =>
      have lost : derefResponse ptr w = .error (.dangling ptr) w := by
        simp only [derefResponse, found]
      exact Ensures.ends lost (.refl w)
  | some r =>
      have here : derefResponse ptr w = .ok r w := by
        simp only [derefResponse, found]
      exact (ensures_ok here).mpr (.refl w)

theorem writesOnly_daemon : WritesOnly ids Utils.daemon :=
  writesOnly_asked (fun _ _ => writesOnly_changed (fun _ => ⟨rfl, rfl, rfl⟩)
    (moves_pure _)) fun _ => moves_pure _

theorem writesOnly_catchThrown {α : Type} {body : Prog α} {value : α}
    (writes : WritesOnly ids body) :
    WritesOnly ids (catchThrown body value) := by
  intro w
  have kept := writes w
  unfold Ensures at kept ⊢
  unfold catchThrown
  split at kept
  · rename_i ran
    rw [ran]
    exact kept
  · rename_i reason w' ran
    rw [ran]
    cases reason with
    | thrown => exact kept
    | _ => exact kept

theorem writesOnly_startWaiters (count : Nat) :
    WritesOnly ids (startWaiters count) := by
  induction count with
  | zero => exact moves_pure _
  | succ count induction =>
      apply writesOnly_daemon.bind
      intro error
      split
      · exact moves_pure _
      · exact induction

theorem writesOnly_openQueue : WritesOnly ids openQueue := by
  apply writesOnly_mayThrow.bind
  intro _
  refine writesOnly_changed (fun _ => ⟨rfl, rfl, rfl⟩) (moves_get.bind ?_)
  intro w
  apply (writesOnly_startWaiters _).bind
  intro error
  split
  · exact moves_pure _
  · exact writesOnly_daemon

theorem writesOnly_submitQueue : WritesOnly ids submitQueue := by
  apply (writesOnly_lock _).bind
  intro _
  apply moves_get.bind
  intro w
  split
  · exact (writesOnly_unlock _).bind fun _ => moves_pure _
  · apply writesOnly_openQueue.bind
    intro error
    split
    · exact writesOnly_getErrno.bind fun _ => writesOnly_fail _ _ _
    · exact (writesOnly_unlock _).bind fun _ => moves_pure _

theorem writesOnly_submitAttached :
    WritesOnly ids (submitAttached request response) := by
  have stamps : WritesOnly ids (stampRequest request response) := by
    apply writesOnly_mayThrow.bind
    intro _
    apply (writesOnly_derefRequest _).bind
    intro grpc
    apply (writesOnly_derefResponse _).bind
    intro r
    refine writesOnly_changed (fun _ => ⟨rfl, rfl, rfl⟩)
      (writesOnly_mayThrow.bind ?_)
    intro _
    exact writesOnly_change fun _ => ⟨rfl, rfl, rfl⟩
  have hands : WritesOnly ids (handOver request response) := by
    apply writesOnly_mayThrow.bind
    intro _
    apply (writesOnly_derefRequest _).bind
    intro message
    exact writesOnly_change fun _ => ⟨rfl, rfl, rfl⟩
  apply stamps.bind
  intro _
  apply writesOnly_submitQueue.bind
  intro ready
  split
  · exact hands.bind fun _ => moves_pure _
  · exact moves_pure _

theorem writesOnly_attachArguments (index : Nat) (arguments : List Argument) :
    WritesOnly ids (attachArguments P request index arguments) := by
  induction arguments generalizing index with
  | nil => exact moves_pure _
  | cons argument arguments induction =>
      cases argument with
      | array array =>
          apply (writesOnly_attach _).bind
          intro result
          split
          · exact moves_pure _
          · apply writesOnly_mayThrow.bind
            intro _
            apply (writesOnly_derefSlice _).bind
            intro found
            apply (writesOnly_derefRequest _).bind
            intro grpc
            exact writesOnly_changed (fun _ => ⟨rfl, rfl, rfl⟩) (induction _)
      | empty => exact induction _
      | scalar value => exact induction _

/-- A submission writes no file. -/
theorem writesOnly_inaccelSubmit :
    WritesOnly ids (inaccelSubmit P request response) := by
  unfold inaccelSubmit
  split
  · exact (writesOnly_setErrno _).bind fun _ => moves_pure _
  · apply writesOnly_catchThrown
    apply writesOnly_mayThrow.bind
    intro _
    apply (writesOnly_derefRequest _).bind
    intro grpc
    apply (writesOnly_attachArguments _ _).bind
    intro attached
    split
    · exact writesOnly_submitAttached
    · exact moves_pure _

section Sent

variable {w w' : World}

/-- What a submission that succeeds has done. -/
theorem SubmitOutcome.sent {result : Int}
    (outcome : SubmitOutcome request response w (.ok result) w')
    (success : result = 0) :
    ∃ grpc message, w.requests request = some grpc ∧
      (∀ ptr ∈ arrayContexts grpc.arguments, w.owner ptr = some w.pid) ∧
      w'.pending = w.pending ++ [⟨response, message⟩] ∧
      message.metadata = some ⟨w.self, w.stamp⟩ := by
  subst success
  generalize ended : Except.ok (0 : Int) = final at outcome
  cases outcome with
  | null => simp at ended
  | unread => simp at ended
  | lost => cases ended
  | @stopped grpc last w' result given answered found loop short ends =>
      subst ended
      cases last with
      | ok value => simp [caught, Except.map] at ends
      | error reason => cases reason <;> simp [caught, Except.map] at ends
  | @tried grpc grpc' w₁ w' last result past found send ends =>
      subst ended
      have sent : last = .ok 0 := caught_zero.mp ends.symm
      subst sent
      cases send with
      | @sent r w' known answered' quiet =>
          have links := past.links
          have self : w₁.self = w.self :=
            (congrArg (·.self) links.same).trans
              (congrArg (·.self) (linkSlices_others _))
          have stamp : w₁.stamp = w.stamp := congrArg (·.stamp) links.rpc
          have pending : w₁.pending = w.pending :=
            congrArg (·.pending) links.rpc
          refine ⟨grpc, { grpc' with metadata := some ⟨w₁.self, w₁.stamp⟩ },
            past.found, past.serves.owns, ?_, ?_⟩
          · have queued : ∀ p : Process, p.withQueue.pending = p.pending :=
              fun p => withQueue_ind (·.pending = p.pending) rfl rfl
            rw [← pending]
            exact (congrArg (·.pending) quiet.rpc).trans (congrArg
              (· ++ [_]) (queued (w₁.stamped request response grpc' r)))
          · rw [self, stamp]

end Sent

end Submission

/-- A description that fits to a block of the process, and the file that a
server opens for it. -/
structure Process.Shows (array : ArrayArg) (cube : Cube) (file : File)
    (p : Process) : Prop where
  inside : array.offset + array.size ≤ cube.page.size
  bytes : ∀ index < array.size,
    p.loadByte (cube.page.addr + array.offset + index) =
      if array.offset + index < file.length then
        some (file.bytes (array.offset + index))
      else none

section Delivery

variable {P : PageSize} {names : List (String × String)} {p : Process}
  {request response errno : Nat} {os : Nat → Reply} {w' : World}

/-- The block of a slice that is described. -/
theorem Process.Housed.shows (housed : p.Housed P names) {array : ArrayArg}
    {ptr : Nat} {cube : Cube} {slice : Slice}
    (found : p.findSlice ptr = some (cube, slice))
    (same : array = ⟨ptr, cube.id, slice.offset, slice.size, slice.version⟩)
    (member : cube ∈ p.cubes) (own : cube.pid = p.pid) :
    ∃ file, p.file p.self array.id = some file ∧ p.Shows array cube file := by
  obtain ⟨file, here, -⟩ := housed.filed.here cube member own
  have fits := housed.laid.slices cube member slice (findSlice_mem found).2.1
  have start := fits.start
  have finish := fits.finish
  have within := fits.inside
  subst same
  refine ⟨file, here, ?_, ?_⟩
  · show slice.offset + slice.size ≤ cube.page.size
    omega
  · intro index bounded
    have bounded : index < slice.size := bounded
    have short : slice.offset + index < cube.page.size := by omega
    have region := housed.charted.region_eq member own here
    have load := congrFun (congrArg Region.load region) (slice.offset + index)
    have load : (if slice.offset + index < cube.page.size then
        p.loadByte (cube.page.addr + (slice.offset + index)) else none) =
      if slice.offset + index < cube.page.size ∧
          slice.offset + index < file.length then
        some (file.bytes (slice.offset + index)) else none := load
    rw [if_pos short] at load
    show p.loadByte (cube.page.addr + slice.offset + index) = _
    rw [Nat.add_assoc, load]
    simp [short]

/-- The message of a submission has the attached slices, as they are. -/
theorem inaccelSubmit_message
    (sent : inaccelSubmit P request response (p.enter errno os) = .ok 0 w') :
    ∃ grpc message, p.requests request = some grpc ∧
      w'.pending = p.pending ++ [⟨response, message⟩] ∧
      message.metadata = some ⟨p.self, p.stamp⟩ ∧
      ∀ array, Argument.array array ∈ message.arguments →
        array.context ∈ arrayContexts grpc.arguments ∧
        ∃ cube slice, p.findSlice array.context = some (cube, slice) ∧
          cube.pid = p.pid ∧ array = ⟨array.context, cube.id, slice.offset,
            slice.size, slice.version⟩ := by
  have outcome := (@inaccelSubmit_spec P request response (p.enter errno os)
    rfl).of_ok sent
  obtain ⟨grpc, message, found, owns, pending, metadata⟩ := outcome.sent rfl
  obtain ⟨-, handed⟩ := (inaccelSubmit_describes rfl found).of_ok sent
  obtain ⟨message', pending', described⟩ := handed rfl
  have same : message' = message := by
    have both := List.append_cancel_left (pending'.symm.trans pending)
    exact (PendingCall.mk.inj (List.cons.inj both).1).2
  subst same
  refine ⟨grpc, message', found, pending, metadata, ?_⟩
  intro array member
  have carried : some (Argument.array array) ∈ message'.arguments.map some :=
    List.mem_map_of_mem member
  rw [described] at carried
  obtain ⟨argument, listed, carried⟩ := List.mem_map.mp carried
  cases argument with
  | empty => simp [Argument.entry, Entry.carried] at carried
  | scalar bytes => simp [Argument.entry, Entry.carried] at carried
  | array slot =>
      have carried : (p.description slot.context).map Argument.array =
        some (.array array) := carried
      obtain ⟨array', first, equal⟩ := Option.map_eq_some_iff.mp carried
      cases equal
      obtain ⟨⟨cube, slice⟩, here, same⟩ := Option.map_eq_some_iff.mp first
      have context : array.context = slot.context := by rw [← same]
      have named : slot.context ∈ arrayContexts grpc.arguments :=
        List.mem_filterMap.mpr ⟨_, listed, rfl⟩
      have owner : (p.findSlice slot.context).map (fun found =>
        found.1.pid) = some p.pid := owns slot.context named
      rw [here] at owner
      rw [context]
      exact ⟨named, cube, slice, here, Option.some.inj owner, same.symm⟩

/-- The message of a submission describes the blocks of the process. -/
theorem Process.Housed.submits (housed : p.Housed P names)
    (sent : inaccelSubmit P request response (p.enter errno os) = .ok 0 w') :
    ∃ message, w'.pending = p.pending ++ [⟨response, message⟩] ∧
      message.metadata = some ⟨p.self, p.stamp⟩ ∧
      ∀ array, Argument.array array ∈ message.arguments →
        ∃ cube slice, p.findSlice array.context = some (cube, slice) ∧
          cube.pid = p.pid ∧ (cube ∈ p.cubes →
            ∃ file, w'.file p.self array.id = some file ∧
              p.Shows array cube file) := by
  obtain ⟨grpc, message, -, pending, metadata, arrays⟩ :=
    inaccelSubmit_message sent
  have writes := (@writesOnly_inaccelSubmit P (fun _ => False) request response
    (p.enter errno os)).of_ok sent
  refine ⟨message, pending, metadata, ?_⟩
  intro array member
  obtain ⟨-, cube, slice, found, own, same⟩ := arrays array member
  refine ⟨cube, slice, found, own, ?_⟩
  intro registered
  obtain ⟨file, backed, shows⟩ := housed.shows found same registered own
  exact ⟨file, (writes.file _ _ fun _ => id).trans backed, shows⟩

/-- The process of a tree with these requests and responses. -/
def Relative.serving (rpc : Rpc) (files : List File) (m : Relative) : Process :=
  { m.on files with toRpc := rpc }

theorem Process.Housed.serving {rpc : Rpc} {files : List File} {m : Relative}
    (housed : (m.on files).Housed P names) :
    (m.serving rpc files).Housed P names := by
  obtain ⟨laid, charted, filed⟩ := housed
  constructor
  · exact ⟨⟨⟨laid.named.distinct, laid.named.fresh⟩, laid.placed, laid.mapped,
      laid.apart⟩, laid.slices⟩
  · exact ⟨charted.apart, charted.sized, charted.aligned, charted.named,
      charted.mine, charted.single, charted.files⟩
  · exact ⟨filed.here, filed.unique⟩

/-- In every tree, whatever its processes have done, the message of a
submission leads to the bytes that the submitting process reads. -/
theorem submit_delivers {root pid : Nat} {self : String} {f : Family}
    {trace : List (Family × Family.Act)} {m : Relative} {rpc : Rpc}
    (run : Run (Family.Step P) (.loaded root self) trace f)
    (matched : ∀ point ∈ trace, point.2.Matched point.1)
    (here : f.members pid = some m)
    (sent : inaccelSubmit P request response
      ((m.serving rpc f.files).enter errno os) = .ok 0 w') :
    ∃ message, w'.pending = rpc.pending ++ [⟨response, message⟩] ∧
      message.metadata = some ⟨m.self, rpc.stamp⟩ ∧
      ∀ array, Argument.array array ∈ message.arguments →
        ∃ cube slice, m.findSlice array.context = some (cube, slice) ∧
          cube.pid = pid ∧ (cube ∈ m.cubes →
            ∃ file, w'.file m.self array.id = some file ∧
              (m.on f.files).Shows array cube file) := by
  have tended := run.invariant_under (Family.Tended P)
    (fun f act => act.Matched f)
    (fun _ _ _ tended matched step => (step.tended tended matched).1)
    (Family.tended_loaded root self) matched f (finish_mem_visited trace f)
  have known := (tended.sound.members pid m here).known
  obtain ⟨message, pending, metadata, arrays⟩ :=
    (tended.sound.housed here (tended.filed pid m here)).serving.submits sent
  refine ⟨message, pending, metadata, ?_⟩
  intro array member
  obtain ⟨cube, slice, found, own, backs⟩ := arrays array member
  refine ⟨cube, slice, found, own.trans known, ?_⟩
  intro registered
  obtain ⟨file, backed, shows⟩ := backs registered
  exact ⟨file, backed, shows.inside, shows.bytes⟩

end Delivery

/-- A request whose one argument is the slice at 2, and a response. -/
def Rpc.asking : Rpc :=
  { (Process.loaded 1 "d").toRpc with
    requests := fun _ => some ⟨"k", [.array ⟨2, "", 0, 0, 0⟩], none⟩
    responses := fun _ => some ⟨⟨"", [], none⟩, Status.ok, false, false⟩ }

/-- The process of `Relative.filled` with a slice of its block. -/
def Relative.sliced : Relative :=
  Relative.filled.after .small (.smooth (.slice 65536 1) 0)
    Relative.filled.files

theorem submit_delivers_slice :
    ∃ (f : Family) (trace : List (Family × Family.Act)) (w' : World),
      Run (Family.Step .small) (.loaded 1 "d") trace f ∧
      inaccelSubmit .small 3 4 ((Relative.sliced.serving .asking
        Relative.sliced.files).enter 0 succeeds) = .ok 0 w' ∧
      ∃ message, w'.pending = [⟨4, message⟩] ∧
        message.metadata = some ⟨"d", 0⟩ ∧
        ∀ array, Argument.array array ∈ message.arguments →
          ∃ cube slice,
            Relative.sliced.findSlice array.context = some (cube, slice) ∧
            cube.pid = 1 ∧ (cube ∈ Relative.sliced.cubes →
              ∃ file, w'.file "d" array.id = some file ∧
                (Relative.sliced.on Relative.sliced.files).Shows array cube
                  file) := by
  have here : Family.filled.members 1 = some Relative.filled := rfl
  obtain ⟨f, sliced, here', files⟩ : ∃ f, Family.Step .small .filled
      (.event 1 (.smooth (.slice 65536 1) 0)) f ∧
        f.members 1 = some Relative.sliced ∧
        f.files = Relative.sliced.files :=
    ⟨_, .event here ⟨show 65536 + 1 < wordSize by decide,
      by simp [Event.smooth, Event.made]⟩, rfl, rfl⟩
  have sent := Program.eq_ok_final (show returned (inaccelSubmit .small 3 4
    ((Relative.sliced.serving .asking Relative.sliced.files).enter 0
      succeeds)) = some 0 by decide +kernel)
  have run := Run.cons Family.step_filled (.cons sliced (.nil _))
  refine ⟨f, _, _, run, sent, ?_⟩
  rw [← files] at sent
  have delivered := submit_delivers run
    (by simp [Family.Act.Matched, Event.Matched, Event.smooth]) here' sent
  rw [files] at delivered
  exact delivered

end CoralApi
