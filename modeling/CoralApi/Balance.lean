import CoralApi.ArgumentSpec
import CoralApi.Traffic

/-!
# Counts in every run

`Traffic.Sound` carries the counts through every step.
-/

namespace CoralApi

open Program Transition

/-- The response and the request of a submission are as the submission has
left them. -/
structure Flight.Holds (p : Process) (flight : Flight) : Prop where
  response : ∃ r, p.responses flight.response = some r ∧ r.done = false ∧
    ∀ snapshot, flight.phase = .flying snapshot →
      arrayContexts r.request.arguments = snapshot
  request : ∀ index rest done, flight.phase = .attaching index rest done →
    ∃ grpc, p.requests flight.request = some grpc ∧
      (grpc.arguments.map Argument.context?).drop index =
        rest.map Argument.context? ∧
      done ++ arrayContexts rest = arrayContexts grpc.arguments

/-- Of the response and the request of a submission, only the flag `cancelled`
and the descriptions of the arrays have changed. -/
structure Flight.Kept (p q : Process) (flight : Flight) : Prop where
  response : ∀ r, p.responses flight.response = some r →
    ∃ r', q.responses flight.response = some r' ∧ r'.request = r.request ∧
      r'.done = r.done
  request : flight.Attaching → ∀ grpc,
    p.requests flight.request = some grpc →
    ∃ grpc', q.requests flight.request = some grpc' ∧
      grpc'.arguments.map Argument.context? =
        grpc.arguments.map Argument.context?

/-- The counts follow the slots in flight. -/
structure Traffic.Sound (s : Traffic) : Prop where
  ledger : s.p.Ledger s.slots s.freed
  distinct : (s.flights.map Flight.response).Nodup
  holds : ∀ flight ∈ s.flights, flight.Holds s.p

section Flights

variable {p q : Process} {flight : Flight}

theorem Flight.Holds.kept (holds : flight.Holds p) (kept : flight.Kept p q) :
    flight.Holds q := by
  constructor
  · obtain ⟨r, found, running, snapshot⟩ := holds.response
    obtain ⟨r', found', request, done⟩ := kept.response r found
    exact ⟨r', found', done.trans running, request ▸ snapshot⟩
  · intro index rest done phase
    obtain ⟨grpc, found, ahead, whole⟩ := holds.request index rest done phase
    obtain ⟨grpc', found', same⟩ :=
      kept.request ⟨index, rest, done, phase⟩ grpc found
    exact ⟨grpc', found', same ▸ ahead, whole.trans (arrayContexts_eq same.symm)⟩

theorem Flight.Kept.of_same
    (responses : q.responses flight.response = p.responses flight.response)
    (requests : flight.Attaching →
      q.requests flight.request = p.requests flight.request) :
    flight.Kept p q where
  response := fun r found => ⟨r, responses.trans found, rfl, rfl⟩
  request := fun attaching grpc found =>
    ⟨grpc, (requests attaching).trans found, rfl⟩

end Flights

namespace Traffic

variable {P : PageSize} {s s' : Traffic} {p : Process}
  {before after : List Flight} {flight flight' : Flight}

theorem slots_perm (here : s.flights = before ++ flight :: after) :
    s.slots.Perm (flight.slots ++ (before ++ after).flatMap Flight.slots) := by
  have middle : (before ++ flight :: after).Perm (flight :: (before ++ after)) :=
    List.perm_middle
  rw [slots, here]
  exact middle.flatMap_right Flight.slots

namespace Sound

/-- A step that leaves the submissions in flight as they are. -/
theorem of_kept (sound : s.Sound) {freed : List Cube}
    (ledger : p.Ledger s.slots freed)
    (kept : ∀ flight ∈ s.flights, flight.Kept s.p p) :
    Sound { s with p := p, freed := freed } where
  ledger := ledger
  distinct := sound.distinct
  holds := fun flight member =>
    (sound.holds flight member).kept (kept flight member)

/-- A step of one submission. -/
theorem of_move (sound : s.Sound)
    (here : s.flights = before ++ flight :: after)
    (same : flight'.response = flight.response)
    (ledger : p.Ledger (flight'.slots ++
      (before ++ after).flatMap Flight.slots) s.freed)
    (holds : flight'.Holds p)
    (kept : ∀ other ∈ before ++ after,
      other.response ≠ flight.response → other.Kept s.p p) :
    Sound { s with p := p, flights := before ++ flight' :: after } := by
  have distinct := sound.distinct
  rw [here, List.map_append, List.map_cons, List.nodup_middle] at distinct
  constructor
  · exact ledger.of_perm (slots_perm rfl)
  · rw [List.map_append, List.map_cons, List.nodup_middle, same]
    exact distinct
  · intro other member
    rcases List.mem_cons.mp (List.perm_middle.mem_iff.mp member) with now | also
    · rw [now]
      exact holds
    · have there : other ∈ s.flights := by
        rw [here]
        exact List.perm_middle.mem_iff.mpr (List.mem_cons_of_mem _ also)
      refine (sound.holds other there).kept (kept other also fun shared => ?_)
      apply (List.nodup_cons.mp distinct).1
      rw [← shared, ← List.map_append]
      exact List.mem_map_of_mem also

section Submit

variable {request response errno index : Nat} {os : Nat → Reply}
  {argument : Argument} {rest : List Argument} {done : List Nat} {w w' : World}

theorem begin_spec :
    Ensures (do mayThrow; derefRequest request)
      (fun grpc w' => w'.toProcess = w.toProcess ∧
        w.requests request = some grpc) (fun _ _ => True) w := by
  cases first : (w.os 0).isDone with
  | false => exact ensures_thrown first trivial
  | true =>
      apply Ensures.step (mayThrow_done first)
      rw [← bind_pure (derefRequest request)]
      apply ensures_derefRequest
      · exact fun _ => trivial
      · exact fun grpc found => ⟨rfl, found⟩

theorem step_begin (sound : s.Sound) {grpc : Request} {r : Response}
    (run : (do mayThrow; derefRequest request) (s.p.enter errno os) =
      .ok grpc w')
    (found : s.p.responses response = some r) (new : r.done = false)
    (unused : response ∉ s.flights.map Flight.response) :
    Sound
      { s with
        p := w'.toProcess
        flights :=
          ⟨response, request, .attaching 0 grpc.arguments []⟩ :: s.flights }
    := by
  obtain ⟨same, known⟩ := begin_spec.of_ok run
  rw [same]
  constructor
  · exact sound.ledger
  · exact List.nodup_cons.mpr ⟨unused, sound.distinct⟩
  · intro flight member
    rcases List.mem_cons.mp member with now | before
    · subst now
      refine ⟨⟨r, found, new, by simp⟩, ?_⟩
      intro index rest done phase
      cases phase
      exact ⟨grpc, known, rfl, rfl⟩
    · exact sound.holds flight before

theorem links_kept {ptrs : List Nat} (links : w.Links request ptrs w')
    (flight : Flight) : flight.Kept w.toProcess w'.toProcess where
  response := fun r found =>
    ⟨r, (congrFun (congrArg (·.responses) links.rpc) _).trans found, rfl, rfl⟩
  request := fun _ grpc found => by
    by_cases same : flight.request = request
    · rw [same] at found ⊢
      exact links.found found
    · exact ⟨grpc, (links.others _ same).trans found, rfl⟩

theorem arrayContexts_cons :
    arrayContexts (argument :: rest) =
      arrayContexts [argument] ++ arrayContexts rest :=
  List.filterMap_append (l := [argument])

theorem step_attach (sound : s.Sound)
    (here : s.flights = before ++
      ⟨response, request, .attaching index (argument :: rest) done⟩ :: after)
    (run : attachArguments P request index [argument]
      (s.p.enter errno os) = .ok true w') :
    Sound
      { s with
        p := w'.toProcess
        flights := before ++ ⟨response, request, .attaching (index + 1) rest
          (done ++ arrayContexts [argument])⟩ :: after } := by
  have member : ⟨response, request,
      .attaching index (argument :: rest) done⟩ ∈ s.flights := by
    simp [here]
  have holds := sound.holds _ member
  obtain ⟨grpc, found, ahead, whole⟩ := holds.request _ _ _ rfl
  have slot : (grpc.arguments.map Argument.context?).drop index =
      [argument].map Argument.context? ++ rest.map Argument.context? := ahead
  have outcome := (attachArguments_spec (w := s.p.enter errno os) rfl found
    slot).of_ok run
  obtain ⟨serves, links⟩ : (s.p.enter errno os).Serves
      (arrayContexts [argument]) ∧ (s.p.enter errno os).Links request
        (arrayContexts [argument]) w' := by
    cases outcome with
    | attached serves os links => exact ⟨serves, links⟩
  have ledger := Process.Ledger.links sound.ledger serves.owns links
  refine sound.of_move here rfl (ledger.of_perm ?_) ?_
    fun other _ _ => links_kept links other
  · have slots := (slots_perm here).append_left (arrayContexts [argument])
    have reversed := (List.reverse_perm (arrayContexts [argument])).append_right
      s.slots
    refine List.Perm.trans ?_ (reversed.trans slots).symm
    rw [← List.append_assoc]
    exact List.perm_append_comm.append_right _
  · have kept := holds.kept (links_kept links _)
    refine ⟨?_, ?_⟩
    · obtain ⟨r, known, running, -⟩ := kept.response
      exact ⟨r, known, running, by simp⟩
    · intro index rest done phase
      cases phase
      obtain ⟨grpc, found, ahead, whole⟩ := kept.request _ _ _ rfl
      refine ⟨grpc, found, ?_, ?_⟩
      · rw [← List.tail_drop, ahead]
        rfl
      · rw [List.append_assoc, ← arrayContexts_cons, whole]

/-- The queue and what was handed over are no part of the cubes. -/
theorem still_sent {grpc : Request} {r : Response} {message : Request}
    (p : Process) : p.Still ((p.stamped request response grpc
      r).withQueue.send response message) :=
  withQueue_ind (fun queued => p.Still (queued.send response message))
    ⟨rfl, rfl, rfl, rfl, Nat.le_refl _, List.Subset.refl _⟩
    ⟨rfl, rfl, rfl, rfl, Nat.le_refl _, List.Subset.refl _⟩

theorem withQueue_responses {p : Process} :
    p.withQueue.responses = p.responses :=
  withQueue_ind (·.responses = p.responses) rfl rfl

theorem step_finish (sound : s.Sound) {r : Response}
    (here : s.flights = before ++
      ⟨response, request, .attaching index [] done⟩ :: after)
    (run : submitAttached request response (s.p.enter errno os) = .ok 0 w')
    (found : w'.responses response = some r) :
    Sound
      { s with
        p := w'.toProcess
        flights := before ++ ⟨response, request,
          .flying (arrayContexts r.request.arguments)⟩ :: after } := by
  have member : ⟨response, request, .attaching index [] done⟩ ∈ s.flights := by
    simp [here]
  have holds := sound.holds _ member
  obtain ⟨grpc, known, -, whole⟩ := holds.request _ _ _ rfl
  obtain ⟨old, present, running, -⟩ := holds.response
  have outcome := (submitAttached_spec (w := s.p.enter errno os) rfl
    known).of_ok run
  obtain ⟨r', present', quiet⟩ : ∃ r', s.p.responses response = some r' ∧
      ((s.p.enter errno os).put ((s.p.stamped request response grpc
        r').withQueue.send response
          { grpc with metadata := some ⟨s.p.self, s.p.stamp⟩ })).Quiet w' := by
    cases outcome with
    | sent found answered quiet => exact ⟨_, found, quiet⟩
  cases present.symm.trans present'
  have responses : w'.responses = Function.update s.p.responses response
      (some { old with request := grpc }) :=
    (congrArg (·.responses) quiet.rpc).trans withQueue_responses
  have requests : w'.requests = Function.update s.p.requests request
      (some { grpc with metadata := some ⟨s.p.self, s.p.stamp⟩ }) :=
    (congrArg (·.requests) quiet.rpc).trans withQueue_requests
  have snapshot : r = { old with request := grpc } := by
    rw [responses, Function.update_self] at found
    exact (Option.some.inj found).symm
  have slots : arrayContexts r.request.arguments = done := by
    rw [snapshot, ← whole]
    exact List.append_nil done
  refine sound.of_move here rfl ?_ ⟨?_, by simp⟩ ?_
  · have ledger := sound.ledger.still
      (.of_effect quiet (still_sent s.p))
    refine ledger.of_perm (List.Perm.trans (.of_eq ?_) (slots_perm here).symm)
    simp only [Flight.slots, slots]
  · refine ⟨r, found, snapshot ▸ running, ?_⟩
    intro snapshot phase
    cases phase
    rfl
  · intro other also different
    refine ⟨fun r found => ⟨r, ?_, rfl, rfl⟩, fun _ grpc' found => ?_⟩
    · rw [responses, Function.update_of_ne different]
      exact found
    · by_cases same : other.request = request
      · rw [same] at found ⊢
        cases known.symm.trans found
        rw [requests, Function.update_self]
        exact ⟨_, rfl, rfl⟩
      · refine ⟨grpc', ?_, rfl⟩
        rw [requests, Function.update_of_ne same]
        exact found

end Submit

section Waiter

variable {request response errno : Nat} {os : Nat → Reply}
  {argument : Argument} {rest : List Argument} {snapshot : List Nat}
  {w' : World}

theorem step_next (sound : s.Sound) {status : Status} {r : Response}
    (here : s.flights = before ++
      ⟨response, request, .flying snapshot⟩ :: after)
    (run : CoralApi.next response status (s.p.enter errno os) = .ok () w')
    (found : w'.responses response = some r) :
    Sound
      { s with
        p := w'.toProcess
        flights := before ++
          ⟨response, request, .landing r.request.arguments⟩ :: after } := by
  have member : ⟨response, request, .flying snapshot⟩ ∈ s.flights := by
    simp [here]
  obtain ⟨old, present, running, named⟩ := (sound.holds _ member).response
  obtain ⟨old', present', quiet⟩ := (next_spec
    (w := s.p.enter errno os)).of_ok run
  cases present.symm.trans present'
  have responses : w'.responses = Function.update s.p.responses response
      (some { old with status := status }) :=
    congrArg (·.responses) quiet.rpc
  have requests : w'.requests = s.p.requests :=
    congrArg (·.requests) quiet.rpc
  have same : r = { old with status := status } := by
    rw [responses, Function.update_self] at found
    exact (Option.some.inj found).symm
  have slots : arrayContexts r.request.arguments = snapshot := by
    rw [same]
    exact named snapshot rfl
  refine sound.of_move here rfl ?_ ⟨?_, by simp⟩ ?_
  · have still : s.p.Still w'.toProcess := .of_effect quiet
      ⟨rfl, rfl, rfl, rfl, Nat.le_refl _, List.Subset.refl _⟩
    refine (sound.ledger.still still).of_perm
      (List.Perm.trans (.of_eq ?_) (slots_perm here).symm)
    simp only [Flight.slots, slots]
  · exact ⟨r, found, same ▸ running, by simp⟩
  · intro other also different
    refine .of_same ?_ (fun _ => congrFun requests _)
    rw [responses, Function.update_of_ne different]

theorem step_detach (sound : s.Sound)
    (here : s.flights = before ++
      ⟨response, request, .landing (argument :: rest)⟩ :: after)
    (run : detachArguments [argument]
      ((s.p.enter errno os).holding [.response response]) = .ok () w') :
    Sound
      { s with
        p := w'.toProcess
        flights := before ++ ⟨response, request, .landing rest⟩ :: after } := by
  have member : ⟨response, request, .landing (argument :: rest)⟩ ∈
      s.flights := by
    simp [here]
  obtain ⟨r, found, running, -⟩ := (sound.holds _ member).response
  obtain ⟨q, detached, quiet⟩ := (detachArguments_spec
    (w := (s.p.enter errno os).holding [.response response]) rfl
    (by simp)).of_ok run
  have rpc : w'.toRpc = s.p.toRpc :=
    quiet.rpc.trans (detachSlices_others detached).1
  have kept : ∀ flight : Flight, flight.Kept s.p w'.toProcess := fun flight =>
    .of_same (congrFun (congrArg (·.responses) rpc) _)
      fun _ => congrFun (congrArg (·.requests) rpc) _
  refine sound.of_move here rfl ?_ ⟨?_, by simp⟩ fun other _ _ => kept other
  · refine Process.Ledger.still ?_ (.of_quiet quiet)
    refine sound.ledger.detachSlices ?_ detached
    refine (slots_perm here).trans (.of_eq ?_)
    simp only [Flight.slots]
    rw [arrayContexts_cons, List.append_assoc]
  · obtain ⟨r', found', -, done⟩ := (kept _).response r found
    exact ⟨r', found', done.trans running, by simp⟩

theorem step_land (sound : s.Sound)
    (here : s.flights = before ++ ⟨response, request, .landing []⟩ :: after)
    (run : (do
        if ← settle response then deleteResponse response
        else return ())
      ((s.p.enter errno os).holding [.response response]) = .ok () w') :
    Sound { s with p := w'.toProcess, flights := before ++ after } := by
  have member : ⟨response, request, .landing []⟩ ∈ s.flights := by
    simp [here]
  obtain ⟨r, found, -, -⟩ := (sound.holds _ member).response
  have ended : Ensures (do
        if ← settle response then deleteResponse response
        else return ())
      (fun _ w' => s.p.Still w'.toProcess ∧ w'.requests = s.p.requests ∧
        ∀ other, other ≠ response →
          w'.responses other = s.p.responses other)
      (fun _ _ => True)
      ((s.p.enter errno os).holding [.response response]) := by
    refine ensures_bind.mpr ((settle_spec (w := s.p.enter errno os)
      (p := s.p) rfl found (.refl _)).mono ?_ (fun _ _ => id))
    rintro gone w₁ ⟨rfl, quiet⟩
    split
    · rename_i cancelled
      rw [if_pos cancelled] at quiet
      refine deleteResponse_spec.mono ?_ (fun _ _ _ => trivial)
      rintro _ w₂ ⟨-, quiet₂⟩
      refine ⟨.trans (.of_quiet quiet) (.of_effect quiet₂
        ⟨rfl, rfl, rfl, rfl, Nat.le_refl _, List.Subset.refl _⟩), ?_, ?_⟩
      · exact (congrArg (·.requests) quiet₂.rpc).trans
          (congrArg (·.requests) quiet.rpc)
      · intro other different
        refine (congrFun (congrArg (·.responses) quiet₂.rpc) other).trans ?_
        refine (Function.update_of_ne different _ _).trans ?_
        exact congrFun (congrArg (·.responses) quiet.rpc) other
    · rename_i awaited
      rw [if_neg awaited] at quiet
      refine ⟨.of_effect quiet
        ⟨rfl, rfl, rfl, rfl, Nat.le_refl _, List.Subset.refl _⟩,
        congrArg (·.requests) quiet.rpc, ?_⟩
      intro other different
      refine (congrFun (congrArg (·.responses) quiet.rpc) other).trans ?_
      exact Function.update_of_ne different _ _
  obtain ⟨still, requests, responses⟩ := ended.of_ok run
  have distinct := sound.distinct
  rw [here, List.map_append, List.map_cons, List.nodup_middle,
    ← List.map_append, List.nodup_cons] at distinct
  constructor
  · refine (sound.ledger.still still).of_perm
      (List.Perm.trans (.of_eq ?_) (slots_perm here).symm)
    simp [slots, Flight.slots, arrayContexts]
  · exact distinct.2
  · intro other also
    have also : other ∈ before ++ after := also
    have there : other ∈ s.flights := by
      rw [here]
      exact List.perm_middle.mem_iff.mpr (List.mem_cons_of_mem _ also)
    have listed : other.response ∈ (before ++ after).map Flight.response :=
      List.mem_map_of_mem also
    have different : other.response ≠ response := fun same =>
      distinct.1 (same ▸ listed)
    exact (sound.holds other there).kept
      (.of_same (responses _ different) fun _ => congrFun requests _)

end Waiter

section Calls

variable {errno : Nat} {os : Nat → Reply}

/-- The registry of requests, less one of them, and the responses. -/
theorem kept_of_request {request : Nat} {q : Process}
    (responses : q.responses = p.responses)
    (requests : ∀ other, other ≠ request →
      q.requests other = p.requests other)
    (idle : flight.Attaching → flight.request ≠ request) :
    flight.Kept p q :=
  .of_same (congrFun responses _) fun attaching =>
    requests _ (idle attaching)

theorem step_argArray (sound : s.Sound) {request size value index : Nat}
    (idle : ∀ flight ∈ s.flights, flight.Attaching →
      flight.request ≠ request) :
    Sound
      { s with
        p := (final (inaccelRequestArgArray P request size value index
          (s.p.enter errno os))).toProcess } := by
  let good : World → Prop := fun w' => w'.Ledger s.slots s.freed ∧
    w'.responses = s.p.responses ∧ ∀ other, other ≠ request →
      w'.requests other = s.p.requests other
  have same : ∀ {w' : World}, w'.toRpc = s.p.toRpc →
      w'.responses = s.p.responses ∧ ∀ other, other ≠ request →
        w'.requests other = s.p.requests other := fun rpc =>
    ⟨congrArg (·.responses) rpc,
      fun other _ => congrFun (congrArg (·.requests) rpc) other⟩
  have sliced : ∀ {result : Option Nat} {w' : World},
      slice P value size (s.p.enter errno os) = .ok result w' →
      w'.Ledger s.slots s.freed ∧ w'.toRpc = s.p.toRpc := fun run =>
    ((slice_spec rfl).of_ok run).ledger sound.ledger
  have written : ∀ {result : Option Nat} {grpc : Request}
      {arguments : List Argument} {w₁ w' : World},
      slice P value size (s.p.enter errno os) = .ok result w₁ →
      World.Tables request grpc arguments w₁ w' → good w' := by
    intro result grpc arguments w₁ w' run tables
    obtain ⟨ledger, rpc⟩ := sliced run
    refine ⟨ledger.still (.of_effect tables
      ⟨rfl, rfl, rfl, rfl, Nat.le_refl _, List.Subset.refl _⟩), ?_, ?_⟩
    · exact (congrArg (·.responses) tables.rpc).trans (same rpc).1
    · intro other different
      refine (congrFun (congrArg (·.requests) tables.rpc) other).trans ?_
      refine (Function.update_of_ne different _ _).trans ?_
      exact (same rpc).2 other different
  have ended : ∀ (result : Except Stop Int) (w' : World),
      ArgArrayOutcome P request size value index (s.p.enter errno os) result
        w' → good w' := by
    intro result w' outcome
    cases outcome with
    | null missing quiet =>
        exact ⟨sound.ledger.still (.of_quiet quiet), same quiet.rpc⟩
    | unsliced run =>
        obtain ⟨ledger, rpc⟩ := sliced run
        exact ⟨ledger, same rpc⟩
    | thrown given run found leaves tables => exact written run tables
    | lost run lost quiet =>
        obtain ⟨ledger, rpc⟩ := sliced run
        exact ⟨ledger.still (.of_quiet quiet), same (quiet.rpc.trans rpc)⟩
    | stored given run found tables => exact written run tables
  obtain ⟨ledger, responses, requests⟩ :=
    (inaccelRequestArgArray_spec (w := s.p.enter errno os) rfl).of_final good
      (fun _ => ended _) (fun _ => ended _)
  exact sound.of_kept ledger fun flight member =>
    kept_of_request responses requests (idle flight member)

theorem step_alloc (sound : s.Sound) {size : Nat} :
    Sound
      { s with
        p := (final (inaccelAlloc P size (s.p.enter errno os))).toProcess } := by
  let good : World → Prop := fun w' =>
    w'.Ledger s.slots s.freed ∧ w'.toRpc = s.p.toRpc
  have ended : good (final (inaccelAlloc P size (s.p.enter errno os))) := by
    refine (inaccelAlloc_spec (w := s.p.enter errno os) rfl).of_final good ?_
      (fun _ _ => False.elim)
    exact fun result w' outcome => outcome.ledger sound.ledger
  exact sound.of_kept ended.1 fun flight _ => .of_same
    (congrFun (congrArg (·.responses) ended.2) _)
    fun _ => congrFun (congrArg (·.requests) ended.2) _

theorem step_free (sound : s.Sound) {addr : Nat}
    (own : ∀ cube ∈ s.p.cubes, cube.page.addr = addr → cube.pid = s.p.pid) :
    Sound
      { s with
        p := (final (inaccelFree addr (s.p.enter errno os))).toProcess
        freed :=
          if addr = 0 then s.freed
          else (s.p.cubes.find? fun cube =>
            cube.page.addr == addr).toList ++ s.freed } := by
  let freed := if addr = 0 then s.freed
    else (s.p.cubes.find? fun cube =>
      cube.page.addr == addr).toList ++ s.freed
  let good : World → Prop := fun w' =>
    w'.Ledger s.slots freed ∧ w'.toRpc = s.p.toRpc
  have ended : good (final (inaccelFree addr (s.p.enter errno os))) := by
    refine (inaccelFree_spec (w := s.p.enter errno os) rfl).of_final good ?_
      (fun _ _ => False.elim)
    exact fun _ w' outcome => outcome.ledger sound.ledger own
  exact sound.of_kept ended.1 fun flight _ => .of_same
    (congrFun (congrArg (·.responses) ended.2) _)
    fun _ => congrFun (congrArg (·.requests) ended.2) _

theorem step_release (sound : s.Sound) {response : Nat} :
    Sound
      { s with
        p := (final (inaccelResponseRelease response
          (s.p.enter errno os))).toProcess } := by
  let good : World → Prop := fun w' => s.p.Still w'.toProcess ∧
    w'.requests = s.p.requests ∧ ∀ r, ∀ ptr, s.p.responses ptr = some r →
      r.done = false → ∃ r', w'.responses ptr = some r' ∧
        r'.request = r.request ∧ r'.done = r.done
  have same : ∀ {w' : World}, (s.p.enter errno os).Quiet w' → good w' :=
    fun quiet => ⟨.of_quiet quiet, congrArg (·.requests) quiet.rpc,
      fun r ptr found _ =>
        ⟨r, (congrFun (congrArg (·.responses) quiet.rpc) ptr).trans found,
          rfl, rfl⟩⟩
  have ended : Ensures (inaccelResponseRelease response) (fun _ => good)
      (fun _ => good) (s.p.enter errno os) := by
    unfold inaccelResponseRelease
    split
    · exact same (.refl _)
    · refine ensures_bind.mpr ((releaseSection_spec rfl).mono ?_ ?_)
      · rintro gone w₁ ⟨r, found, rfl, quiet⟩
        have found : s.p.responses response = some r := found
        split
        · rename_i done
          rw [if_pos done] at quiet
          have before := same quiet
          refine deleteResponse_spec.mono ?_ ?_
          · rintro _ w₂ ⟨-, quiet₂⟩
            refine ⟨before.1.trans (.of_effect quiet₂
              ⟨rfl, rfl, rfl, rfl, Nat.le_refl _, List.Subset.refl _⟩),
              (congrArg (·.requests) quiet₂.rpc).trans before.2.1, ?_⟩
            intro r' ptr found' running
            have different : ptr ≠ response := by
              rintro rfl
              cases found.symm.trans found'
              simp [done] at running
            obtain ⟨r'', found'', rest⟩ := before.2.2 r' ptr found' running
            refine ⟨r'', ?_, rest⟩
            refine (congrFun (congrArg (·.responses) quiet₂.rpc) ptr).trans ?_
            exact (Function.update_of_ne different _ _).trans found''
          · rintro reason w₂ ⟨rfl, -⟩
            exact before
        · rename_i running
          rw [if_neg running] at quiet
          refine ⟨.of_effect quiet
            ⟨rfl, rfl, rfl, rfl, Nat.le_refl _, List.Subset.refl _⟩,
            congrArg (·.requests) quiet.rpc, ?_⟩
          intro r' ptr found' _
          have responses : w₁.responses ptr = Function.update s.p.responses
              response (some { r with cancelled := true }) ptr :=
            congrFun (congrArg (·.responses) quiet.rpc) ptr
          rw [responses]
          by_cases here : ptr = response
          · subst here
            cases found.symm.trans found'
            exact ⟨_, Function.update_self _ _ _, rfl, rfl⟩
          · exact ⟨r', (Function.update_of_ne here _ _).trans found', rfl, rfl⟩
      · rintro reason w₁ ⟨rfl, -⟩
        exact same (.refl _)
  obtain ⟨still, requests, responses⟩ :=
    ended.of_final good (fun _ _ => id) (fun _ _ => id)
  refine sound.of_kept (sound.ledger.still still) fun flight member =>
    ⟨fun r found => ?_, fun _ grpc found =>
      ⟨grpc, (congrFun requests _).trans found, rfl⟩⟩
  obtain ⟨r', found', running, -⟩ := (sound.holds flight member).response
  cases found.symm.trans found'
  exact responses r _ found running

end Calls

theorem step_other (sound : s.Sound) (leaves : s.Leaves p) :
    Sound { s with p := p } :=
  sound.of_kept (sound.ledger.still leaves.cubes) fun flight member =>
    .of_same (leaves.responses flight member) (leaves.requests flight member)

theorem step (sound : s.Sound) {errand : Errand}
    (step : Traffic.Step P s errand s') : s'.Sound := by
  cases step with
  | begin given run found new unused unfreed =>
      exact sound.step_begin run found new unused
  | attach here run => exact sound.step_attach here run
  | finish here run found => exact sound.step_finish here run found
  | next here run found => exact sound.step_next here run found
  | detach here run => exact sound.step_detach here run
  | land here run => exact sound.step_land here run
  | argArray idle => exact sound.step_argArray idle
  | alloc => exact sound.step_alloc
  | free own => exact sound.step_free own
  | release free => exact sound.step_release
  | other leaves => exact sound.step_other leaves

theorem of_idle (idle : s.Idle) : s.Sound := by
  have none : s.slots = [] := by simp [slots, idle.flights]
  refine ⟨?_, by simp [idle.flights], by simp [idle.flights]⟩
  rw [none, idle.freed]
  exact .of_idle idle.named idle.unlinked idle.orphans idle.released

/-- A cube in the log was released as soon as no slot named it. -/
theorem released_iff (sound : s.Sound) {cube : Cube} (log : cube ∈ s.freed) :
    cube.ptr ∈ s.p.released ↔ ¬cube.InUse s.slots := by
  rcases sound.ledger.logged cube log with ⟨orphan, there, became⟩ | gone
  · refine iff_of_false (fun released => ?_) (not_not.mpr ?_)
    · apply (sound.ledger.gone _ released).2.1
      rw [← became.ptr]
      exact Process.Named.ptr_mem (List.mem_append_right _ there)
    · exact became.inUse_iff.mp (sound.ledger.used orphan there)
  · refine iff_of_true gone.1 ?_
    rintro ⟨slice, inside, named⟩
    obtain ⟨other, member, -, within⟩ := sound.ledger.known _ named
    have owned : slice.ptr ∈ cube.names :=
      List.mem_cons_of_mem _ (List.mem_map_of_mem inside)
    exact (gone.2.2 _ owned).1
      (List.mem_flatMap.mpr ⟨other, member, List.mem_cons_of_mem _ within⟩)

theorem snapshots (sound : s.Sound) (rest : s.AtRest) :
    s.slots = s.flights.flatMap fun flight =>
      s.p.contexts flight.response := by
  unfold slots
  rw [List.flatMap_def, List.flatMap_def]
  congr 1
  apply List.map_congr_left
  intro flight member
  obtain ⟨snapshot, phase⟩ := rest flight member
  obtain ⟨r, found, -, named⟩ := (sound.holds flight member).response
  rw [contexts_eq found, named snapshot phase, Flight.slots, phase]

theorem counted (sound : s.Sound) : s.Counted where
  slices := fun cube member slice inside => by
    rcases List.mem_append.mp member with registered | orphan
    · exact (sound.ledger.registered cube registered).1.slices slice inside
    · exact (sound.ledger.orphaned cube orphan).1.slices slice inside
  cubes := fun cube member => by
    rcases List.mem_append.mp member with registered | orphan
    · obtain ⟨balanced, unfreed⟩ := sound.ledger.registered cube registered
      rw [if_neg unfreed]
      exact balanced.nlinks
    · obtain ⟨balanced, old, log, became⟩ := sound.ledger.orphaned cube orphan
      have entry : cube.ptr ∈ s.freed.map Cube.ptr :=
        became.ptr ▸ List.mem_map_of_mem log
      rw [if_pos entry]
      exact balanced.nlinks
  snapshots := sound.snapshots
  safe := fun ptr named => by
    obtain ⟨cube, member, -, within⟩ := sound.ledger.known ptr named
    exact ⟨cube, member, within⟩
  destroyed := fun cube log => by
    rw [sound.released_iff log]
    simp [Cube.InUse]
  gone := fun cube log released => by
    rcases sound.ledger.logged cube log with ⟨orphan, there, became⟩ | gone
    · have used := became.inUse_iff.mp (sound.ledger.used orphan there)
      exact absurd used ((sound.released_iff log).mp released)
    · exact ⟨gone.2.1, fun name inside => (gone.2.2 name inside).1⟩
  once := sound.ledger.once
  only := fun ptr released => (sound.ledger.gone ptr released).1

end Sound

variable {start finish : Traffic} {trace : List (Traffic × Errand)}

/-- In every state of every run, the counts are those of the slots in flight,
and a freed cube is destroyed with its last slot. -/
theorem always_counted (run : Run (Step P) start trace finish)
    (idle : start.Idle) : ∀ s ∈ visited trace finish, s.Counted :=
  fun state member => Sound.counted
    (run.invariant Sound (fun _ _ _ sound step => sound.step step)
      (.of_idle idle) state member)

/-- A piece of code runs for the one submission, which is then here. -/
def turn {α : Type} (s : Traffic) (x : Prog α) (phase : Phase) : Traffic :=
  { s with
    p := (final (x (s.p.enter 0 succeeds))).toProcess
    flights := [⟨12, 10, phase⟩] }

/-- The block is freed while a submission names its slice twice; the second
detach destroys the cube. -/
theorem counted_freedInFlight :
    ∃ trace finish, Run (Step .small) ⟨.prepared, [], []⟩ trace finish ∧
      trace.map Prod.snd = [.begin 10 12, .attach 12, .attach 12, .finish 12,
        .free 65536, .next 12, .detach 12, .detach 12, .land 12] ∧
      finish.p.released = [1] ∧ ∀ s ∈ visited trace finish, s.Counted := by
  let named : Argument := .array ⟨2, "", 0, 0, 0⟩
  let sent : Argument := .array ⟨2, "a", 0, 4096, 0⟩
  let r : Response := ⟨⟨"a", [sent, sent], none⟩, .ok, false, false⟩
  let detachSent : Prog Unit := fun w =>
    detachArguments [sent] (w.holding [.response 12])
  let s₀ : Traffic := ⟨.prepared, [], []⟩
  let s₁ := s₀.turn (do mayThrow; derefRequest 10)
    (.attaching 0 [named, named] [])
  let s₂ := s₁.turn (attachArguments .small 10 0 [named])
    (.attaching 1 [named] [2])
  let s₃ := s₂.turn (attachArguments .small 10 1 [named])
    (.attaching 2 [] [2, 2])
  let s₄ := s₃.turn (submitAttached 10 12) (.flying [2, 2])
  let s₅ :=
    { s₄.turn (inaccelFree 65536) (.flying [2, 2]) with
      freed := (s₄.p.cubes.find? fun cube : Cube =>
        cube.page.addr == 65536).toList ++ [] }
  let s₆ := s₅.turn (CoralApi.next 12 .ok) (.landing [sent, sent])
  let s₇ := s₆.turn detachSent (.landing [sent])
  let s₈ := s₇.turn detachSent (.landing [])
  have step₁ : Step .small s₀ (.begin 10 12) s₁ :=
    @Step.begin .small s₀ 10 12 0 succeeds ⟨"a", [named, named], none⟩
      ⟨⟨"", [], none⟩, .ok, false, false⟩ _ (by decide)
      (eq_ok_final (by decide +kernel)) (by decide +kernel) rfl
      (by decide +kernel) (by decide +kernel)
  have step₂ : Step .small s₁ (.attach 12) s₂ :=
    @Step.attach .small s₁ [] [] 10 12 0 0 succeeds named [named] []
      _ rfl (eq_ok_final (by decide +kernel))
  have step₃ : Step .small s₂ (.attach 12) s₃ :=
    @Step.attach .small s₂ [] [] 10 12 1 0 succeeds named [] [2]
      _ rfl (eq_ok_final (by decide +kernel))
  have step₄ : Step .small s₃ (.finish 12) s₄ :=
    @Step.finish .small s₃ [] [] 10 12 2 0 succeeds [2, 2] r
      _ rfl (eq_ok_final (by decide +kernel)) (by decide +kernel)
  have step₅ : Step .small s₄ (.free 65536) s₅ :=
    @Step.free .small s₄ 65536 0 succeeds (by decide +kernel)
  have step₆ : Step .small s₅ (.next 12) s₆ :=
    @Step.next .small s₅ [] [] 10 12 0 succeeds [2, 2] .ok r
      _ rfl (eq_ok_final (by decide +kernel)) (by decide +kernel)
  have step₇ : Step .small s₆ (.detach 12) s₇ :=
    @Step.detach .small s₆ [] [] 10 12 0 succeeds sent [sent]
      _ rfl (eq_ok_final (by decide +kernel))
  have step₈ : Step .small s₇ (.detach 12) s₈ :=
    @Step.detach .small s₇ [] [] 10 12 0 succeeds sent []
      _ rfl (eq_ok_final (by decide +kernel))
  have step₉ := @Step.land .small s₈ [] [] 10 12 0 succeeds
    _ rfl (eq_ok_final (by decide +kernel))
  have run := Run.cons step₁ (.cons step₂ (.cons step₃ (.cons step₄
    (.cons step₅ (.cons step₆ (.cons step₇ (.cons step₈ (.cons step₉
    (.nil _)))))))))
  have idle : Traffic.Idle s₀ :=
    ⟨by decide +kernel, by decide +kernel, by decide +kernel,
      by decide +kernel, rfl, rfl⟩
  exact ⟨_, _, run, rfl, by decide +kernel, always_counted run idle⟩

end Traffic

end CoralApi
