import CoralApi.Kinship
import CoralApi.Mailing

/-!
# The submissions of a tree of processes

Every process of the tree submits requests on any number of threads.  A fork
copies the counter of the parent.  The messages are told apart by the `self`
of their process, as long as every child gets one of its own, and within a
process by the counter.
-/

namespace CoralApi

open Program Transition

/-- A process whose threads submit requests. -/
structure Sender extends Process where
  stage : Nat → Mailing

/-- A thread has gone on to this stage. -/
def Sender.pass (thread : Nat) (p : Process) (next : Mailing) (m : Sender) :
    Sender where
  toProcess := p
  stage := Function.update m.stage thread next

/-- The process after one stage of a thread.  A stage that fails ends the
submission. -/
def Sender.advance (P : PageSize) (thread errno : Nat) (os : Nat → Reply)
    (m : Sender) : Sender :=
  let result := (m.stage thread).run P (m.enter errno os)
  m.pass thread (final result).toProcess
    ((returned result).getD (.idle (-1)))

/-- A tree of processes. -/
structure Fleet where
  /-- the processes, by their ids -/
  members : Nat → Option Sender
  /-- log: every `self` -/
  names : List String
  /-- log: the messages handed to gRPC -/
  sent : List Request

namespace Fleet

inductive Act where
  | call (pid thread request response : Nat)
  | advance (pid thread errno : Nat) (os : Nat → Reply)
  | fork (pid child errno : Nat) (os : Nat → Reply)
  | other (pid : Nat) (p : Process)

/-- The steps of a tree.  A fork gives a new id and `mkdtemp` a new name.
Whatever else happens in a process leaves its `self`, its counter and the
requests that are being submitted alone. -/
inductive Step (P : PageSize) (f : Fleet) : Act → Fleet → Prop where
  | call {pid thread request response : Nat} {m : Sender} {result : Int}
      (here : f.members pid = some m) (idle : m.stage thread = .idle result)
      (given : request ≠ 0 ∧ response ≠ 0) :
      Step P f (.call pid thread request response)
        { f with
          members := Function.update f.members pid
            (some (m.pass thread m.toProcess (.called request response))) }
  | advance {pid thread errno : Nat} {os : Nat → Reply} {m : Sender}
      (here : f.members pid = some m) :
      Step P f (.advance pid thread errno os)
        { f with
          members := Function.update f.members pid
            (some (m.advance P thread errno os))
          sent := f.sent ++ ((m.advance P thread errno os).pending.drop
            m.pending.length).map PendingCall.message }
  | fork {pid child errno : Nat} {os : Nat → Reply} {m : Sender}
      {w w' : World} (here : f.members pid = some m)
      (new : f.members child = none)
      (forked : forkParent (m.enter errno os) = .ok () w)
      (born : forkChild P child (m.enter errno os) = .ok () w')
      (fresh : ∀ value name, os m.cubes.length = .done value name →
        name ∉ f.names) :
      Step P f (.fork pid child errno os)
        { f with
          members := Function.update (Function.update f.members pid
            (some { m with toProcess := w.toProcess })) child
            (some { toProcess := w'.toProcess, stage := fun _ => .idle 0 })
          names := w'.self :: f.names }
  | other {pid : Nat} {p : Process} {m : Sender}
      (here : f.members pid = some m) (self : p.self = m.self)
      (stamp : p.stamp = m.stamp)
      (marks : ∀ thread request, (m.stage thread).carried = some request →
        p.mark request = m.mark request) :
      Step P f (.other pid p)
        { f with
          members := Function.update f.members pid
            (some { m with toProcess := p }) }

/-- One process has loaded the library. -/
def Loaded (f : Fleet) : Prop :=
  ∃ pid m, f.members = Function.update (fun _ => none) pid (some m) ∧
    (∀ thread, ∃ result, m.stage thread = .idle result) ∧
    f.names = [m.self] ∧ f.sent = []

/-- The pairs of the messages. -/
def marks (f : Fleet) : List Metadata := f.sent.filterMap Request.metadata

/-- Every message carries a pair, and no two carry the same. -/
structure Distinct (f : Fleet) : Prop where
  marked : ∀ message ∈ f.sent, message.metadata.isSome = true
  once : f.marks.Nodup

/-- `mkdtemp` succeeds in the child, and no submission marks a request that
another one has marked and not handed over. -/
def Act.Clean (f : Fleet) : Act → Prop
  | advance pid thread _ _ => ∀ m, f.members pid = some m →
      ∀ request response index,
        m.stage thread = .attaching request response index [] →
          ∀ other, (m.stage other).carried ≠ some request
  | fork pid _ _ os => ∀ m, f.members pid = some m →
      (os m.cubes.length).isDone = true
  | _ => True

end Fleet

/-- The marks of a process and those that were sent. -/
structure Sender.Sound (names : List String) (marks : List Metadata)
    (m : Sender) : Prop where
  named : m.self ∈ names
  carried : ∀ thread request, (m.stage thread).carried = some request →
    ∃ stamp < m.stamp, m.mark request = some ⟨m.self, stamp⟩ ∧
      ⟨m.self, stamp⟩ ∉ marks
  apart : ∀ thread other request request', thread ≠ other →
    (m.stage thread).carried = some request →
    (m.stage other).carried = some request' →
    m.mark request ≠ m.mark request'
  used : ∀ mark ∈ marks, mark.self = m.self → mark.stamp < m.stamp

namespace Sender.Sound

variable {names : List String} {marks : List Metadata} {m : Sender}
  {thread : Nat}

theorem mono {more : List String} (sound : m.Sound names marks)
    (known : ∀ name ∈ names, name ∈ more) : m.Sound more marks :=
  { sound with named := known _ sound.named }

/-- Marks of other processes do not matter. -/
theorem append {more : List Metadata} (sound : m.Sound names marks)
    (foreign : ∀ mark ∈ more, mark.self ≠ m.self) :
    m.Sound names (marks ++ more) where
  named := sound.named
  carried := by
    intro thread request carries
    obtain ⟨stamp, below, mark, unsent⟩ :=
      sound.carried thread request carries
    refine ⟨stamp, below, mark, fun sent => ?_⟩
    rcases List.mem_append.mp sent with old | new
    · exact unsent old
    · exact foreign _ new rfl
  apart := sound.apart
  used := by
    intro mark sent self
    rcases List.mem_append.mp sent with old | new
    · exact sound.used mark old self
    · exact absurd self (foreign mark new)

/-- No mark changes that a thread carries, and no thread carries a new one. -/
theorem of_keeps {m' : Sender} (sound : m.Sound names marks)
    (self : m'.self = m.self) (stamp : m'.stamp = m.stamp)
    (carried : ∀ thread request, (m'.stage thread).carried = some request →
      (m.stage thread).carried = some request)
    (same : ∀ thread request, (m.stage thread).carried = some request →
      m'.mark request = m.mark request) : m'.Sound names marks where
  named := self ▸ sound.named
  carried := by
    intro thread request carries
    have before := carried thread request carries
    rw [self, stamp, same thread request before]
    exact sound.carried thread request before
  apart := by
    intro thread other request request' different left right
    have left := carried thread request left
    have right := carried other request' right
    rw [same thread request left, same other request' right]
    exact sound.apart thread other request request' different left right
  used := by
    rw [self, stamp]
    exact sound.used

theorem carried_pass {p : Process} {next : Mailing} {other request : Nat}
    (carries : ((m.pass thread p next).stage other).carried = some request) :
    other = thread ∧ next.carried = some request ∨
      other ≠ thread ∧ (m.stage other).carried = some request := by
  simp only [pass] at carries
  by_cases here : other = thread
  · subst here
    rw [Function.update_self] at carries
    exact .inl ⟨rfl, carries⟩
  · rw [Function.update_of_ne here] at carries
    exact .inr ⟨here, carries⟩

/-- A thread marks its request, which no other thread carries. -/
theorem stamps {request response : Nat} {grpc : Request} {r : Response}
    (sound : m.Sound names marks)
    (clean : ∀ other, (m.stage other).carried ≠ some request) :
    (m.pass thread (m.stamped request response grpc r)
      (.stamped request response)).Sound names marks := by
  let m' := m.pass thread (m.stamped request response grpc r)
    (.stamped request response)
  have new : m'.mark request = some ⟨m.self, m.stamp⟩ := by
    simp [m', pass, Process.mark, Process.stamped, Process.setRequest]
  have old : ∀ other request', (m.stage other).carried = some request' →
      ∃ stamp < m.stamp, m'.mark request' = some ⟨m.self, stamp⟩ ∧
        m'.mark request' = m.mark request' ∧ ⟨m.self, stamp⟩ ∉ marks := by
    intro other request' carries
    obtain ⟨stamp, below, mark, unsent⟩ := sound.carried other request' carries
    have different : request' ≠ request := by
      rintro rfl
      exact clean other carries
    have requests : m'.requests request' = m.requests request' :=
      Function.update_of_ne different _ _
    have same : m'.mark request' = m.mark request' := by
      rw [Process.mark, requests, Process.mark]
    exact ⟨stamp, below, same.trans mark, same, unsent⟩
  refine ⟨sound.named, ?_, ?_, ?_⟩
  · intro other request' carries
    rcases carried_pass carries with ⟨rfl, here⟩ | ⟨-, carries⟩
    · cases here
      refine ⟨m.stamp, Nat.lt_succ_self _, new, fun sent => ?_⟩
      exact Nat.lt_irrefl _ (sound.used _ sent rfl)
    · obtain ⟨stamp, below, mark, -, unsent⟩ := old other request' carries
      exact ⟨stamp, Nat.lt_succ_of_lt below, mark, unsent⟩
  · -- the new mark is not below the counter of before
    have differs : ∀ other request', (m.stage other).carried = some request' →
        m'.mark request ≠ m'.mark request' := by
      intro other request' carries same
      obtain ⟨stamp, below, mark, -, -⟩ := old other request' carries
      rw [new, mark] at same
      cases same
      exact Nat.lt_irrefl _ below
    intro left right first second different carries carries'
    rcases carried_pass carries with ⟨rfl, here⟩ | ⟨-, before⟩
    · cases here
      rcases carried_pass carries' with ⟨rfl, -⟩ | ⟨-, before'⟩
      · exact absurd rfl different
      · exact differs right second before'
    · rcases carried_pass carries' with ⟨rfl, here⟩ | ⟨-, before'⟩
      · cases here
        exact (differs left first before).symm
      · obtain ⟨-, -, -, same, -⟩ := old left first before
        obtain ⟨-, -, -, same', -⟩ := old right second before'
        show m'.mark first ≠ m'.mark second
        rw [same, same']
        exact sound.apart left right first second different before before'
  · exact fun mark sent self => Nat.lt_succ_of_lt (sound.used mark sent self)

/-- A thread hands its request over. -/
theorem sends {request response : Nat} {message : Request}
    (sound : m.Sound names marks)
    (here : m.stage thread = .queued request response)
    (found : m.requests request = some message) :
    ∃ mark, message.metadata = some mark ∧ mark.self = m.self ∧
      mark ∉ marks ∧ (m.pass thread (m.send response message)
        (.idle 0)).Sound names (marks ++ [mark]) := by
  have carries : (m.stage thread).carried = some request := by
    rw [here]
    rfl
  obtain ⟨stamp, below, mark, unsent⟩ := sound.carried thread request carries
  have metadata : message.metadata = some ⟨m.self, stamp⟩ := by
    simpa [Process.mark, found] using mark
  refine ⟨⟨m.self, stamp⟩, metadata, rfl, unsent, sound.named, ?_, ?_, ?_⟩
  · intro other request' carries'
    rcases carried_pass carries' with ⟨-, none⟩ | ⟨different, carries'⟩
    · cases none
    · obtain ⟨stamp', below', mark', unsent'⟩ :=
        sound.carried other request' carries'
      refine ⟨stamp', below', mark', fun sent => ?_⟩
      rcases List.mem_append.mp sent with old | new
      · exact unsent' old
      · have apart := sound.apart other thread request' request different
          carries' carries
        rw [List.mem_singleton] at new
        exact apart (mark'.trans ((congrArg some new).trans mark.symm))
  · intro left right first second different carries carries'
    rcases carried_pass carries with ⟨-, none⟩ | ⟨-, carries⟩
    · cases none
    · rcases carried_pass carries' with ⟨-, none⟩ | ⟨-, carries'⟩
      · cases none
      · exact sound.apart left right first second different carries carries'
  · intro mark' sent self
    rcases List.mem_append.mp sent with old | new
    · exact sound.used mark' old self
    · rw [List.mem_singleton] at new
      subst new
      exact below

/-- A thread goes on and no mark is written. -/
theorem keeps {p : Process} {next : Mailing} (sound : m.Sound names marks)
    (same : m.KeepsMarks p)
    (carried : ∀ request, next.carried = some request →
      (m.stage thread).carried = some request) :
    (m.pass thread p next).Sound names marks := by
  refine sound.of_keeps same.self same.stamp ?_ ?_
  · intro other request carries
    rcases carried_pass carries with ⟨rfl, after⟩ | ⟨-, before⟩
    · exact carried request after
    · exact before
  · exact fun _ request _ => congrFun same.marks request

/-- The child of a fork has marked nothing. -/
theorem born {w : World} (known : w.self ∈ names)
    (used : ∀ mark ∈ marks, mark.self ≠ w.self) :
    Sound names marks
      { toProcess := w.toProcess, stage := fun _ => .idle 0 } where
  named := known
  carried := by
    intro thread request none
    cases none
  apart := by
    intro thread other request request' _ none
    cases none
  used := fun mark sent self => absurd self (used mark sent)

end Sender.Sound

/-- A stage deals with the marks of the process. -/
theorem Sender.advance_deals {P : PageSize} {thread errno : Nat}
    {os : Nat → Reply} {m : Sender} :
    ∃ p next, m.advance P thread errno os = m.pass thread p next ∧
      (m.stage thread).Deals m.toProcess next p := by
  have free : (m.enter errno os).held = [] := rfl
  have spec := Mailing.run_spec (P := P) (m.stage thread) free
  refine ⟨_, _, rfl, ?_⟩
  cases run : (m.stage thread).run P (m.enter errno os) with
  | ok next w => exact spec.of_ok run
  | error reason w =>
      exact .keeps (spec.of_error run) fun _ none => by cases none

namespace Fleet

/-- Every process has a `self` of its own. -/
structure Sound (f : Fleet) : Prop where
  members : ∀ pid m, f.members pid = some m → m.Sound f.names f.marks
  alone : ∀ pid other m q, f.members pid = some m →
    f.members other = some q → m.self = q.self → pid = other
  known : ∀ mark ∈ f.marks, mark.self ∈ f.names
  distinct : f.Distinct

section Steps

variable {P : PageSize} {f f' : Fleet} {pid : Nat} {m : Sender}

/-- One process changes behind its `self`, and others may learn of a new
message. -/
theorem Sound.change {m' : Sender} {sent : List Request}
    (sound : f.Sound) (here : f.members pid = some m)
    (self : m'.self = m.self)
    (mine : m'.Sound f.names (f.marks ++ sent.filterMap Request.metadata))
    (own : ∀ mark ∈ sent.filterMap Request.metadata, mark.self = m.self)
    (distinct : Distinct { f with sent := f.sent ++ sent }) :
    Sound
      { f with
        members := Function.update f.members pid (some m')
        sent := f.sent ++ sent } := by
  have marks : ∀ members : Nat → Option Sender,
      ({ f with members := members, sent := f.sent ++ sent } : Fleet).marks =
        f.marks ++ sent.filterMap Request.metadata :=
    fun _ => List.filterMap_append
  refine ⟨?_, ?_, ?_, ⟨distinct.marked, distinct.once⟩⟩
  · intro other q found
    rw [marks]
    rcases some_update found with ⟨rfl, rfl⟩ | ⟨different, found⟩
    · exact mine
    · refine (sound.members other q found).append fun mark new same => ?_
      exact different
        (sound.alone other pid q m found here (same.symm.trans (own mark new)))
  · intro left right q q' found found' same
    rcases some_update found with ⟨rfl, rfl⟩ | ⟨-, old⟩
    · rcases some_update found' with ⟨rfl, -⟩ | ⟨-, old'⟩
      · rfl
      · exact sound.alone _ right m q' here old' (self.symm.trans same)
    · rcases some_update found' with ⟨rfl, rfl⟩ | ⟨-, old'⟩
      · exact sound.alone left _ q m old here (same.trans self)
      · exact sound.alone left right q q' old old' same
  · rw [marks]
    intro mark sent
    rcases List.mem_append.mp sent with old | new
    · exact sound.known mark old
    · rw [own mark new]
      exact (sound.members pid m here).named

/-- A change that sends nothing. -/
theorem Sound.quiet {m' : Sender} (sound : f.Sound)
    (here : f.members pid = some m) (self : m'.self = m.self)
    (mine : m'.Sound f.names f.marks) :
    Sound { f with members := Function.update f.members pid (some m') } := by
  have changed := @Sound.change f pid m m' [] sound here self
    (by simpa using mine) (by simp) (by simpa using sound.distinct)
  simpa using changed

theorem Sound.advance {thread errno : Nat} {os : Nat → Reply}
    (sound : f.Sound) (here : f.members pid = some m)
    (clean : (Act.advance pid thread errno os).Clean f) :
    Sound
      { f with
        members := Function.update f.members pid
          (some (m.advance P thread errno os))
        sent := f.sent ++ ((m.advance P thread errno os).pending.drop
          m.pending.length).map PendingCall.message } := by
  have mine := sound.members pid m here
  obtain ⟨p, next, advanced, deals⟩ :=
    @Sender.advance_deals P thread errno os m
  rw [advanced]
  cases deals with
  | keeps same carried =>
      have none : (m.pass thread p next).pending.drop m.pending.length = [] := by
        rw [List.drop_eq_nil_iff]
        exact Nat.le_of_eq (congrArg List.length same.pending)
      rw [none, List.map_nil, List.append_nil]
      exact sound.quiet here same.self (mine.keeps same carried)
  | @stamps request response index grpc r stage =>
      have none : (m.pass thread (m.stamped request response grpc r)
          (.stamped request response)).pending.drop m.pending.length = [] :=
        List.drop_length
      rw [none, List.map_nil, List.append_nil]
      exact sound.quiet here rfl
        (mine.stamps (clean m here request response index stage))
  | @sends request response message stage found =>
      obtain ⟨mark, metadata, self, unsent, kept⟩ := mine.sends stage found
      have one : ((m.pass thread (m.send response message)
          (.idle 0)).pending.drop m.pending.length).map PendingCall.message =
            [message] :=
        congrArg (List.map PendingCall.message) List.drop_left
      rw [one]
      have marks : [message].filterMap Request.metadata = [mark] := by
        simp [metadata]
      refine sound.change here rfl (by rwa [marks]) (by simpa [marks]) ⟨?_, ?_⟩
      · intro other inside
        rcases List.mem_append.mp inside with old | new
        · exact sound.distinct.marked other old
        · rw [List.mem_singleton] at new
          rw [new, metadata]
          rfl
      · show ((f.sent ++ [message]).filterMap Request.metadata).Nodup
        rw [List.filterMap_append, marks]
        have once : f.marks.Nodup := sound.distinct.once
        exact once.append (List.nodup_singleton mark)
          (List.disjoint_singleton.mpr unsent)

theorem Sound.fork {child errno : Nat} {os : Nat → Reply} {w w' : World}
    (sound : f.Sound) (here : f.members pid = some m)
    (new : f.members child = none)
    (forked : forkParent (m.enter errno os) = .ok () w)
    (born : forkChild P child (m.enter errno os) = .ok () w')
    (fresh : ∀ value name, os m.cubes.length = .done value name →
      name ∉ f.names)
    (clean : (Act.fork pid child errno os).Clean f) :
    Sound
      { f with
        members := Function.update (Function.update f.members pid
          (some { m with toProcess := w.toProcess })) child
          (some { toProcess := w'.toProcess, stage := fun _ => .idle 0 })
        names := w'.self :: f.names } := by
  have parent : w.toProcess = m.toProcess := forkParent_same.of_ok forked
  have same : ({ m with toProcess := w.toProcess } : Sender) = m := by
    rw [parent]
  have renamed : w'.self ∉ f.names := by
    obtain ⟨-, self⟩ := forkChild_marks.of_ok born
    have answered := clean m here
    simp only [Process.enter] at self
    cases reply : os m.cubes.length with
    | done value name =>
        rw [reply] at self
        rw [self]
        exact fresh value name reply
    | failed error =>
        rw [reply] at answered
        cases answered
  have other : ∀ pid q, f.members pid = some q → q.self ≠ w'.self := by
    intro pid q found same
    exact renamed (same ▸ (sound.members pid q found).named)
  rw [same]
  have members : ∀ {left : Nat} {q : Sender},
      Function.update (Function.update f.members pid (some m)) child
        (some { toProcess := w'.toProcess, stage := fun _ => .idle 0 }) left =
          some q →
      left = child ∧
        q = { toProcess := w'.toProcess, stage := fun _ => .idle 0 } ∨
      f.members left = some q := by
    intro left q found
    rcases some_update found with made | ⟨-, found⟩
    · exact .inl made
    · rcases some_update found with ⟨rfl, rfl⟩ | ⟨-, found⟩
      · exact .inr here
      · exact .inr found
  refine ⟨?_, ?_, ?_, ⟨sound.distinct.marked, sound.distinct.once⟩⟩
  · intro left q found
    rcases members found with ⟨rfl, rfl⟩ | old
    · refine Sender.Sound.born List.mem_cons_self fun mark sent same => ?_
      exact renamed (same ▸ sound.known mark sent)
    · exact (sound.members left q old).mono
        fun name known => List.mem_cons_of_mem _ known
  · intro left right q q' found found' same
    rcases members found with ⟨rfl, rfl⟩ | old
    · rcases members found' with ⟨rfl, -⟩ | old'
      · rfl
      · exact absurd same.symm (other right q' old')
    · rcases members found' with ⟨rfl, rfl⟩ | old'
      · exact absurd same (other left q old)
      · exact sound.alone left right q q' old old' same
  · exact fun mark sent => List.mem_cons_of_mem _ (sound.known mark sent)

theorem Sound.step {act : Act} (sound : f.Sound) (clean : act.Clean f)
    (step : Step P f act f') : f'.Sound := by
  cases step with
  | @call pid thread request response m result here idle given =>
      refine sound.quiet here rfl
        ((sound.members pid m here).keeps (.refl _) ?_)
      exact fun _ none => by cases none
  | advance here => exact sound.advance here clean
  | fork here new forked born fresh =>
      exact sound.fork here new forked born fresh clean
  | @other pid p m here self stamp marks =>
      refine sound.quiet here self ?_
      exact (sound.members pid m here).of_keeps self stamp
        (fun _ _ => id) marks

end Steps

theorem Loaded.sound {f : Fleet} (loaded : f.Loaded) : f.Sound := by
  obtain ⟨pid, m, members, idle, names, sent⟩ := loaded
  have none : f.marks = [] := by rw [marks, sent, List.filterMap_nil]
  have single : ∀ {other q}, f.members other = some q →
      other = pid ∧ q = m := by
    intro other q found
    rw [members] at found
    rcases some_update found with same | ⟨-, found⟩
    · exact same
    · cases found
  have free : ∀ thread, (m.stage thread).carried = Option.none := by
    intro thread
    obtain ⟨result, stage⟩ := idle thread
    rw [stage]
    rfl
  refine ⟨?_, ?_, ?_, ?_, ?_⟩
  · intro other q found
    obtain ⟨rfl, rfl⟩ := single found
    refine ⟨?_, ?_, ?_, ?_⟩
    · rw [names]
      exact List.mem_singleton_self _
    · intro thread request carries
      rw [free] at carries
      cases carries
    · intro thread _ request _ _ carries
      rw [free] at carries
      cases carries
    · simp [none]
  · intro other other' q q' found found' _
    exact (single found).1.trans (single found').1.symm
  · simp [none]
  · simp [sent]
  · simp [none]

/-- No two messages carry the same pair. -/
theorem always_distinct {P : PageSize} {start finish : Fleet}
    {trace : List (Fleet × Act)} (run : Run (Step P) start trace finish)
    (loaded : start.Loaded)
    (clean : ∀ point ∈ trace, point.2.Clean point.1) :
    ∀ f ∈ visited trace finish, f.Distinct := by
  intro f seen
  have sound := run.invariant_under Sound (fun f act => act.Clean f)
    (fun _ _ _ sound clean step => sound.step clean step) loaded.sound clean
  exact (sound f seen).distinct

/-- A process that has loaded the library, with a request and a response. -/
def alone : Fleet where
  members := Function.update (fun _ => none) 1 (some
    { toProcess :=
        ((Process.loaded 1 "a").setRequest 10 ⟨"vadd", [], none⟩).setResponse 12
          ⟨⟨"", [], none⟩, .ok, false, false⟩
      stage := fun _ => .idle 0 })
  names := ["a"]
  sent := []

theorem alone_loaded : alone.Loaded :=
  ⟨1, _, rfl, fun _ => ⟨0, rfl⟩, rfl, rfl⟩

theorem clean_of_single {f : Fleet} {pid thread errno : Nat}
    {os : Nat → Reply} {m : Sender} (here : f.members pid = some m)
    (single : ∀ other, other ≠ thread → m.stage other = .idle 0) :
    (Act.advance pid thread errno os).Clean f := by
  intro m' here' request response index stage other carries
  cases here.symm.trans here'
  by_cases same : other = thread
  · rw [same, stage] at carries
    cases carries
  · rw [single other same] at carries
    cases carries

/-- A process and its child submit once each. -/
theorem always_distinct_family : ∃ finish : Fleet, finish.sent.map
    Request.metadata = [some ⟨"a", 0⟩, some ⟨"b", 0⟩] ∧ finish.Distinct := by
  have run : Run (Step .small) alone
      [(_, .fork 1 2 0 fun _ => .done 0 "b"),
        (_, .call 1 0 10 12), (_, .advance 1 0 0 succeeds),
        (_, .advance 1 0 0 succeeds), (_, .advance 1 0 0 succeeds),
        (_, .advance 1 0 0 succeeds),
        (_, .call 2 0 10 12), (_, .advance 2 0 0 succeeds),
        (_, .advance 2 0 0 succeeds), (_, .advance 2 0 0 succeeds),
        (_, .advance 2 0 0 succeeds)] _ :=
    .cons (.fork rfl rfl (eq_ok_final (by decide +kernel))
      (eq_ok_final (by decide +kernel)) fun _ _ reply => by
        cases reply; decide) <|
    .cons (.call rfl rfl (by decide)) <| .cons (.advance rfl) <|
      .cons (.advance rfl) <| .cons (.advance rfl) <| .cons (.advance rfl) <|
    .cons (.call rfl rfl (by decide)) <| .cons (.advance rfl) <|
      .cons (.advance rfl) <| .cons (.advance rfl) <| .cons (.advance rfl) <|
        .nil _
  have clean : ∀ {f : Fleet} {pid : Nat} {m : Sender},
      f.members pid = some m →
      (∀ other, other ≠ 0 → m.stage other = .idle 0) →
        (Act.advance pid 0 0 succeeds).Clean f := clean_of_single
  refine ⟨_, by decide +kernel, always_distinct run alone_loaded ?_ _
    (finish_mem_visited _ _)⟩
  simp only [List.forall_mem_cons, List.not_mem_nil, false_implies,
    implies_true, and_true]
  refine ⟨fun _ _ => rfl, trivial, clean rfl ?_, clean rfl ?_, clean rfl ?_,
    clean rfl ?_, trivial, clean rfl ?_, clean rfl ?_, clean rfl ?_,
    clean rfl ?_⟩
  all_goals
    intro other different
    simp [Sender.pass, Sender.advance, different]

/-- A child without a `self` of its own counts on from its parent, and both
submit. -/
theorem not_always_distinct : ¬∀ {start finish : Fleet}
    {trace : List (Fleet × Act)}, Run (Step .small) start trace finish →
      start.Loaded → ∀ f ∈ visited trace finish, f.Distinct := by
  intro claim
  have run : Run (Step .small) alone
      [(_, .fork 1 2 0 fun _ => .failed EACCES),
        (_, .call 1 0 10 12), (_, .advance 1 0 0 succeeds),
        (_, .advance 1 0 0 succeeds), (_, .advance 1 0 0 succeeds),
        (_, .advance 1 0 0 succeeds),
        (_, .call 2 0 10 12), (_, .advance 2 0 0 succeeds),
        (_, .advance 2 0 0 succeeds), (_, .advance 2 0 0 succeeds),
        (_, .advance 2 0 0 succeeds)] _ :=
    .cons (.fork rfl rfl (eq_ok_final (by decide +kernel))
      (eq_ok_final (by decide +kernel)) fun _ _ reply => by cases reply) <|
    .cons (.call rfl rfl (by decide)) <| .cons (.advance rfl) <|
      .cons (.advance rfl) <| .cons (.advance rfl) <| .cons (.advance rfl) <|
    .cons (.call rfl rfl (by decide)) <| .cons (.advance rfl) <|
      .cons (.advance rfl) <| .cons (.advance rfl) <| .cons (.advance rfl) <|
        .nil _
  have distinct := claim run alone_loaded _ (finish_mem_visited _ _)
  exact absurd distinct.once (by decide +kernel)

end Fleet

end CoralApi
