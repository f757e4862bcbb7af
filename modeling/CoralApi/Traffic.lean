import CoralApi.Ledger
import CoralApi.Library.Transition

/-!
# Submissions, completions and frees at once

The threads of a process work on any number of blocks, requests and responses.
A submission attaches one slot a step and a waiter detaches one slot a step,
so anything else may come between; every other call is one critical section.
`Traffic.Step` has the steps of submissions that return 0, of the waiters, of
`inaccel_request_arg_array`, `inaccel_alloc`, `inaccel_free` and
`inaccel_response_release`, and of whatever leaves these alone.
-/

namespace CoralApi

open Program Transition

/-- The loop of `inaccel_submit` goes slot by slot. -/
theorem attachArguments_cons {P : PageSize} {request index : Nat}
    {argument : Argument} {rest : List Argument} :
    attachArguments P request index (argument :: rest) = (do
      if ← attachArguments P request index [argument] then
        attachArguments P request (index + 1) rest
      else return false) := by
  cases argument with
  | empty => simp [attachArguments]
  | scalar bytes => simp [attachArguments]
  | array array =>
      simp only [attachArguments, bind_assoc]
      congr 1
      funext result
      split
      · rfl
      · simp [bind_assoc]

/-- Where a submission is. -/
inductive Phase where
  /-- in its loop, with these arguments ahead and these slices attached -/
  | attaching (index : Nat) (rest : List Argument) (done : List Nat)
  /-- it has returned 0; its snapshot names these slices -/
  | flying (snapshot : List Nat)
  /-- a waiter is in its loop, with these arguments ahead -/
  | landing (rest : List Argument)

structure Flight where
  response : Nat
  request : Nat
  phase : Phase

namespace Flight

/-- The slots that are attached for the submission. -/
def slots (flight : Flight) : List Nat :=
  match flight.phase with
  | .attaching _ _ done => done
  | .flying snapshot => snapshot
  | .landing rest => arrayContexts rest

def Attaching (flight : Flight) : Prop :=
  ∃ index rest done, flight.phase = .attaching index rest done

def Landing (flight : Flight) : Prop :=
  ∃ rest, flight.phase = .landing rest

end Flight

structure Traffic where
  p : Process
  flights : List Flight
  /-- log: the cubes whose blocks were freed -/
  freed : List Cube

namespace Traffic

def slots (s : Traffic) : List Nat := s.flights.flatMap Flight.slots

/-- No submission and no waiter is half done. -/
def AtRest (s : Traffic) : Prop :=
  ∀ flight ∈ s.flights, ∃ snapshot, flight.phase = .flying snapshot

end Traffic

inductive Errand where
  | begin (request response : Nat)
  | attach (response : Nat)
  | finish (response : Nat)
  | next (response : Nat)
  | detach (response : Nat)
  | land (response : Nat)
  | argArray (request size value index : Nat)
  | alloc (size : Nat)
  | free (addr : Nat)
  | release (response : Nat)
  | other

/-- What else happens leaves the cubes alone, the requests that are being
submitted, and the snapshots. -/
structure Traffic.Leaves (s : Traffic) (p : Process) : Prop where
  cubes : s.p.Still p
  responses : ∀ flight ∈ s.flights,
    p.responses flight.response = s.p.responses flight.response
  requests : ∀ flight ∈ s.flights, flight.Attaching →
    p.requests flight.request = s.p.requests flight.request

/-- The steps of the threads.  A submission names a response that no other one
has, and no block that was freed. -/
inductive Traffic.Step (P : PageSize) (s : Traffic) :
    Errand → Traffic → Prop where
  | begin {request response errno : Nat} {os : Nat → Reply} {grpc : Request}
      {r : Response} {w' : World} (given : request ≠ 0 ∧ response ≠ 0)
      (run : (do mayThrow; derefRequest request) (s.p.enter errno os) =
        .ok grpc w')
      (found : s.p.responses response = some r) (new : r.done = false)
      (unused : response ∉ s.flights.map Flight.response)
      (unfreed : ∀ ptr ∈ arrayContexts grpc.arguments,
        ∃ cube ∈ s.p.cubes, ptr ∈ cube.slices.map Slice.ptr) :
      Step P s (.begin request response)
        { s with
          p := w'.toProcess
          flights :=
            ⟨response, request, .attaching 0 grpc.arguments []⟩ :: s.flights }
  | attach {before after : List Flight} {request response index errno : Nat}
      {os : Nat → Reply} {argument : Argument} {rest : List Argument}
      {done : List Nat} {w' : World}
      (here : s.flights = before ++ ⟨response, request,
        .attaching index (argument :: rest) done⟩ :: after)
      (run : attachArguments P request index [argument]
        (s.p.enter errno os) = .ok true w') :
      Step P s (.attach response)
        { s with
          p := w'.toProcess
          flights := before ++ ⟨response, request, .attaching (index + 1) rest
            (done ++ arrayContexts [argument])⟩ :: after }
  | finish {before after : List Flight} {request response index errno : Nat}
      {os : Nat → Reply} {done : List Nat} {r : Response} {w' : World}
      (here : s.flights = before ++
        ⟨response, request, .attaching index [] done⟩ :: after)
      (run : submitAttached request response (s.p.enter errno os) = .ok 0 w')
      (found : w'.responses response = some r) :
      Step P s (.finish response)
        { s with
          p := w'.toProcess
          flights := before ++ ⟨response, request,
            .flying (arrayContexts r.request.arguments)⟩ :: after }
  | next {before after : List Flight} {request response errno : Nat}
      {os : Nat → Reply} {snapshot : List Nat} {status : Status}
      {r : Response} {w' : World}
      (here : s.flights = before ++
        ⟨response, request, .flying snapshot⟩ :: after)
      (run : CoralApi.next response status (s.p.enter errno os) = .ok () w')
      (found : w'.responses response = some r) :
      Step P s (.next response)
        { s with
          p := w'.toProcess
          flights := before ++
            ⟨response, request, .landing r.request.arguments⟩ :: after }
  | detach {before after : List Flight} {request response errno : Nat}
      {os : Nat → Reply} {argument : Argument} {rest : List Argument}
      {w' : World}
      (here : s.flights = before ++
        ⟨response, request, .landing (argument :: rest)⟩ :: after)
      (run : detachArguments [argument]
        ((s.p.enter errno os).holding [.response response]) = .ok () w') :
      Step P s (.detach response)
        { s with
          p := w'.toProcess
          flights := before ++ ⟨response, request, .landing rest⟩ :: after }
  | land {before after : List Flight} {request response errno : Nat}
      {os : Nat → Reply} {w' : World}
      (here : s.flights = before ++
        ⟨response, request, .landing []⟩ :: after)
      (run : (do
          if ← settle response then deleteResponse response
          else return ())
        ((s.p.enter errno os).holding [.response response]) = .ok () w') :
      Step P s (.land response)
        { s with p := w'.toProcess, flights := before ++ after }
  | argArray {request size value index errno : Nat} {os : Nat → Reply}
      (idle : ∀ flight ∈ s.flights, flight.Attaching →
        flight.request ≠ request) :
      Step P s (.argArray request size value index)
        { s with
          p := (final (inaccelRequestArgArray P request size value index
            (s.p.enter errno os))).toProcess }
  | alloc {size errno : Nat} {os : Nat → Reply} :
      Step P s (.alloc size)
        { s with
          p := (final (inaccelAlloc P size (s.p.enter errno os))).toProcess }
  | free {addr errno : Nat} {os : Nat → Reply}
      (own : ∀ cube ∈ s.p.cubes, cube.page.addr = addr → cube.pid = s.p.pid) :
      Step P s (.free addr)
        { s with
          p := (final (inaccelFree addr (s.p.enter errno os))).toProcess
          freed :=
            if addr = 0 then s.freed
            else (s.p.cubes.find? fun cube =>
              cube.page.addr == addr).toList ++ s.freed }
  | release {response errno : Nat} {os : Nat → Reply}
      (free : ∀ flight ∈ s.flights, flight.Landing →
        flight.response ≠ response) :
      Step P s (.release response)
        { s with
          p := (final (inaccelResponseRelease response
            (s.p.enter errno os))).toProcess }
  | other {p : Process} (leaves : s.Leaves p) :
      Step P s .other { s with p := p }

/-- No block is in use. -/
structure Traffic.Idle (s : Traffic) : Prop where
  named : s.p.Named
  unlinked : ∀ cube ∈ s.p.cubes, cube.nlinks = 0 ∧
    ∀ slice ∈ cube.slices, slice.nlinks = 0
  orphans : s.p.orphans = []
  released : s.p.released = []
  flights : s.flights = []
  freed : s.freed = []

/-- The counts that the slots of the submissions in flight give. -/
structure Traffic.Counted (s : Traffic) : Prop where
  slices : ∀ cube ∈ s.p.live, ∀ slice ∈ cube.slices,
    slice.nlinks = s.slots.count slice.ptr
  cubes : ∀ cube ∈ s.p.live, cube.nlinks =
    (cube.slices.map Slice.nlinks).sum -
      if cube.ptr ∈ s.freed.map Cube.ptr then 1 else 0
  snapshots : s.AtRest → s.slots = s.flights.flatMap fun flight =>
    s.p.contexts flight.response
  safe : ∀ ptr ∈ s.slots, ∃ cube ∈ s.p.live, ptr ∈ cube.slices.map Slice.ptr
  destroyed : ∀ cube ∈ s.freed, cube.ptr ∈ s.p.released ↔
    ∀ slice ∈ cube.slices, slice.ptr ∉ s.slots
  gone : ∀ cube ∈ s.freed, cube.ptr ∈ s.p.released →
    cube.id ∈ s.p.unlinked ∧ ∀ name ∈ cube.names, name ∉ s.p.names
  once : s.p.released.Nodup
  only : ∀ ptr ∈ s.p.released, ptr ∈ s.freed.map Cube.ptr

end CoralApi
