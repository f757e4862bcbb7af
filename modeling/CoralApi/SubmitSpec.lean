import CoralApi.Names

/-!
# What `inaccel_submit` does

The loop over the arguments stops at the first slot that fails, with the slots
before it attached.  What follows the loop asks for a fixed sequence of
replies, so the first one that fails decides how the call ends.
-/

namespace CoralApi

open Program

/-- The slice that an argument names. -/
def Argument.context? : Argument → Option Nat
  | .array slot => some slot.context
  | _ => none

/-- The slices that the array slots name, in order. -/
def arrayContexts (arguments : List Argument) : List Nat :=
  arguments.filterMap Argument.context?

/-- `nlinks` of a slice and of its cube go up. -/
def Process.linkSlice (p : Process) (ptr : Nat) : Process :=
  match p.findSlice ptr with
  | none => p
  | some (cube, _) => p.link cube.ptr ptr

def Process.linkSlices (ptrs : List Nat) (p : Process) : Process :=
  ptrs.foldl Process.linkSlice p

section Links

variable {p : Process} {ptr other : Nat}

/-- A link changes nothing but counts. -/
theorem view_link {View : Type} {view : Cube × Slice → View}
    (blind : ∀ (cube : Cube) (slice : Slice) (slices : List Slice)
      (links links' : Int), view ({ cube with
        nlinks := links, slices := slices }, { slice with nlinks := links' }) =
          view (cube, slice)) (cube : Nat) :
    ((p.link cube ptr).findSlice other).map view =
      (p.findSlice other).map view := by
  have live : (p.link cube ptr).live = _ := Process.live_modifyCube _ _
  simp only [Process.findSlice, List.map_findSome?, live,
    List.findSome?_map]
  congr 1
  funext found
  simp only [Function.comp]
  have old := blind found
  split
  · simp only [Cube.modifySlice, List.find?_map, Option.map_map]
    have key : (fun slice : Slice => slice.ptr == other) ∘ (fun slice : Slice =>
        if slice.ptr = ptr then { slice with nlinks := slice.nlinks + 1 }
        else slice) = fun slice => slice.ptr == other := by
      funext slice
      simp only [Function.comp]
      split
      · rfl
      · rfl
    rw [key]
    congr 1
    funext slice
    simp only [Function.comp]
    split
    · exact old slice _ _ _
    · exact old slice _ _ slice.nlinks
  · rfl

theorem owner_link (cube : Nat) :
    (p.link cube ptr).owner other = p.owner other :=
  view_link (fun _ _ _ _ _ => rfl) cube

theorem owner_linkSlice : (p.linkSlice ptr).owner other = p.owner other := by
  unfold Process.linkSlice
  split
  · rfl
  · exact owner_link _

theorem owner_linkSlices (ptrs : List Nat) :
    (p.linkSlices ptrs).owner other = p.owner other := by
  induction ptrs generalizing p with
  | nil => rfl
  | cons ptr ptrs induction =>
      exact (@induction (p.linkSlice ptr)).trans owner_linkSlice

/-- Links are counted in the cubes and nowhere else. -/
theorem linkSlices_others (ptrs : List Nat) :
    { p.linkSlices ptrs with cubes := [], orphans := [] } =
      { p with cubes := [], orphans := [] } := by
  induction ptrs generalizing p with
  | nil => rfl
  | cons ptr ptrs induction =>
      refine (@induction (p.linkSlice ptr)).trans ?_
      unfold Process.linkSlice
      split
      · rfl
      · rfl

end Links

/-- The state without the descriptions in the requests and the protection of
the pages. -/
def World.plain (w : World) : World :=
  (w.put { w.toProcess with
    requests := fun _ => none
    prot := fun _ => .read }).visible

/-- The effect of a link shows, whatever is hidden. -/
theorem plain_linkSlice {w v : World} (same : w.plain = v.plain) (ptr : Nat) :
    (w.put (w.linkSlice ptr)).plain = (v.put (v.linkSlice ptr)).plain := by
  have natural : ∀ u : World, (u.put (u.linkSlice ptr)).plain =
      (u.plain.put (u.plain.linkSlice ptr)).plain := by
    intro u
    have found : u.plain.findSlice ptr = u.findSlice ptr := rfl
    simp only [Process.linkSlice, found]
    split
    · rfl
    · rfl
  rw [natural w, natural v, same]

theorem plain_linkSlices {w v : World} (same : w.plain = v.plain)
    (ptrs : List Nat) :
    (w.put (w.linkSlices ptrs)).plain = (v.put (v.linkSlices ptrs)).plain := by
  induction ptrs generalizing w v with
  | nil => exact same
  | cons ptr ptrs induction =>
      exact induction (plain_linkSlice same ptr)

/-- A stretch of the loop over the arguments of a request that attaches these
slices. -/
structure World.Links (request : Nat) (ptrs : List Nat) (w w' : World) :
    Prop where
  same : w'.plain = (w.put (w.linkSlices ptrs)).plain
  nextPtr : w.nextPtr ≤ w'.nextPtr
  others : ∀ other, other ≠ request → w'.requests other = w.requests other
  contexts : (w'.requests request).map (fun grpc =>
      grpc.arguments.map Argument.context?) =
    (w.requests request).map fun grpc => grpc.arguments.map Argument.context?

namespace World.Links

variable {request : Nat} {ptrs rest : List Nat} {w w' w'' : World}

theorem of_quiet (quiet : w.Quiet w') : w.Links request [] w' := by
  have requests : w'.requests = w.requests := congrArg (·.requests) quiet.rpc
  refine ⟨?_, quiet.nextPtr, by simp [requests], by simp [requests]⟩
  exact congrArg (fun w : World => w.put { w.toProcess with
    requests := fun _ => none
    prot := fun _ => .read }) quiet.same

theorem trans {rest : List Nat} (first : w.Links request ptrs w')
    (second : w'.Links request rest w'') :
    w.Links request (ptrs ++ rest) w'' := by
  refine ⟨?_, Nat.le_trans first.nextPtr second.nextPtr, ?_,
    second.contexts.trans first.contexts⟩
  · have linked : w.linkSlices (ptrs ++ rest) =
        (w.put (w.linkSlices ptrs)).linkSlices rest := List.foldl_append
    rw [second.same, plain_linkSlices first.same, linked]
    rfl
  · intro other different
    rw [second.others other different, first.others other different]

section Projections

variable (links : w.Links request ptrs w')

include links

theorem held : w'.held = w.held := congrArg (·.held) links.same

theorem misuse : w'.misuse = w.misuse := congrArg (·.misuse) links.same

theorem pid : w'.pid = w.pid :=
  Eq.trans (b := (w.linkSlices ptrs).pid) (congrArg (·.pid) links.same)
    (congrArg (·.pid) (linkSlices_others ptrs))

theorem rpc : { w'.toRpc with requests := w.requests } = w.toRpc :=
  Eq.trans (b := { (w.linkSlices ptrs).toRpc with requests := w.requests })
    (congrArg (fun w' : World => { w'.toRpc with requests := w.requests })
      links.same)
    (congrArg (fun p : Process => { p.toRpc with requests := w.requests })
      (linkSlices_others ptrs))

theorem live : w'.live = (w.linkSlices ptrs).live :=
  congrArg (·.live) links.same

theorem owner (ptr : Nat) : w'.owner ptr = w.owner ptr :=
  (congrArg (·.owner ptr) links.same).trans (owner_linkSlices ptrs)

theorem found {grpc : Request} (found : w.requests request = some grpc) :
    ∃ grpc', w'.requests request = some grpc' ∧
      grpc'.arguments.map Argument.context? =
        grpc.arguments.map Argument.context? := by
  have contexts := links.contexts
  rw [found, Option.map_some, Option.map_eq_some_iff] at contexts
  exact contexts

end Projections

end World.Links

/-- The slots of these slices can all be attached and described. -/
structure World.Serves (w : World) (ptrs : List Nat) : Prop where
  owns : ∀ ptr ∈ ptrs, w.owner ptr = some w.pid
  answered : ∀ index < 2 * ptrs.length, (w.os index).isDone = true

/-- How the loop over the arguments can end: behind the last slot, or at the
first slot that fails. -/
inductive AttachOutcome (request : Nat) (w : World) (ptrs : List Nat) :
    Except Stop Bool → World → Prop where
  | attached {w' : World} (serves : w.Serves ptrs)
      (os : w'.os = fun index => w.os (index + 2 * ptrs.length))
      (links : w.Links request ptrs w') :
      AttachOutcome request w ptrs (.ok true) w'
  | refused (before : List Nat) {after : List Nat} {ptr : Nat} {w' : World}
      (slots : ptrs = before ++ ptr :: after) (serves : w.Serves before)
      (found : w.owner ptr ≠ none)
      (fails : ¬(w.owner ptr = some w.pid ∧
        (w.os (2 * before.length)).isDone = true))
      (links : w.Links request before w') :
      AttachOutcome request w ptrs (.ok false) w'
  | thrown (before : List Nat) {after : List Nat} {ptr : Nat} {w' : World}
      (slots : ptrs = before ++ ptr :: after) (serves : w.Serves before)
      (owns : w.owner ptr = some w.pid)
      (answered : (w.os (2 * before.length)).isDone = true)
      (fails : (w.os (2 * before.length + 1)).isDone = false)
      (links : w.Links request (before ++ [ptr]) w') :
      AttachOutcome request w ptrs (.error .thrown) w'
  | dangling (before : List Nat) {after : List Nat} {ptr : Nat} {w' : World}
      (slots : ptrs = before ++ ptr :: after) (serves : w.Serves before)
      (lost : w.owner ptr = none) (links : w.Links request before w') :
      AttachOutcome request w ptrs (.error (.dangling ptr)) w'

/-- However the loop ends, some slots are attached. -/
theorem AttachOutcome.links {request : Nat} {ptrs : List Nat} {w w' : World}
    {result : Except Stop Bool}
    (outcome : AttachOutcome request w ptrs result w') :
    ∃ attached, w.Links request attached w' := by
  cases outcome with
  | attached serves os links => exact ⟨_, links⟩
  | refused before slots serves found fails links => exact ⟨_, links⟩
  | thrown before slots serves owns answered fails links => exact ⟨_, links⟩
  | dangling before slots serves lost links => exact ⟨_, links⟩

section Slot

variable {request ptr : Nat} {w w₁ : World}
  (owns : w.owner ptr = some w.pid) (protects : (w.os 0).isDone = true)
  (describes : (w.os 1).isDone = true)
  (os : w₁.os = fun index => w.os (index + 2))
  (links : w.Links request [ptr] w₁)

include owns protects describes os links

theorem World.Serves.cons {ptrs : List Nat} (serves : w₁.Serves ptrs) :
    w.Serves (ptr :: ptrs) := by
  constructor
  · intro other member
    rcases List.mem_cons.mp member with here | later
    · rw [here]
      exact owns
    · rw [← links.owner, ← links.pid]
      exact serves.owns other later
  · intro index bound
    match index with
    | 0 => exact protects
    | 1 => exact describes
    | index + 2 =>
        have answered := serves.answered index (by
          rw [List.length_cons] at bound
          omega)
        rwa [os] at answered

/-- The loop goes on after a slot. -/
theorem AttachOutcome.cons {ptrs : List Nat} {result : Except Stop Bool}
    {w' : World} (outcome : AttachOutcome request w₁ ptrs result w') :
    AttachOutcome request w (ptr :: ptrs) result w' := by
  have serving : ∀ {ptrs}, w₁.Serves ptrs → w.Serves (ptr :: ptrs) :=
    World.Serves.cons owns protects describes os links
  cases outcome with
  | attached serves shifted rest =>
      refine .attached (serving serves) ?_ (links.trans rest)
      rw [shifted, os]
      rfl
  | @refused before after next _ slots serves found fails rest =>
      refine .refused (ptr :: before) (congrArg (ptr :: ·) slots)
        (serving serves) ?_ ?_ (links.trans rest)
      · rwa [← links.owner]
      · rwa [← links.owner, ← links.pid, List.length_cons, Nat.mul_succ,
          ← congrFun os]
  | @thrown before after next _ slots serves own answered fails rest =>
      refine .thrown (ptr :: before) (congrArg (ptr :: ·) slots)
        (serving serves) ?_ ?_ ?_ (links.trans rest)
      · rwa [← links.owner, ← links.pid]
      · rwa [List.length_cons, Nat.mul_succ, ← congrFun os]
      · have shifted : 2 * (ptr :: before).length + 1 =
            2 * before.length + 1 + 2 := by
          rw [List.length_cons]
          omega
        rwa [shifted, ← congrFun os]
  | @dangling before after next _ slots serves lost rest =>
      refine .dangling (ptr :: before) (congrArg (ptr :: ·) slots)
        (serving serves) ?_ (links.trans rest)
      rwa [← links.owner]

end Slot

/-- The description of an array at its slot keeps the slices that the
arguments name. -/
theorem contexts_set {arguments : List Argument} {rest : List (Option Nat)}
    {array : ArrayArg} {index : Nat} {described : Argument}
    (aligned : (arguments.map Argument.context?).drop index =
      some array.context :: rest)
    (same : described.context? = some array.context) :
    (arguments.set index described).map Argument.context? =
      arguments.map Argument.context? := by
  have bound : index < (arguments.map Argument.context?).length := by
    have nonempty := congrArg List.length aligned
    simp only [List.length_drop, List.length_cons] at nonempty
    omega
  have here : (arguments.map Argument.context?)[index] =
      some array.context := by
    rw [List.drop_eq_getElem_cons bound] at aligned
    exact (List.cons.inj aligned).1
  rw [List.map_set, same, ← here]
  exact List.set_getElem_self bound

theorem Attached.links {P : PageSize} {request ptr : Nat} {w w' : World}
    {cube : Cube} {slice : Slice} (attached : Attached P w ptr cube slice w') :
    w.Links request [ptr] w' := by
  have requests : w'.requests = w.requests :=
    congrArg (·.requests) attached.effect.rpc
  have linked : w.linkSlices [ptr] = w.link cube.ptr ptr := by
    simp [Process.linkSlices, Process.linkSlice, attached.found]
  refine ⟨?_, attached.effect.nextPtr, by simp [requests], by simp [requests]⟩
  refine (congrArg (fun w : World => w.put { w.toProcess with
    requests := fun _ => none
    prot := fun _ => .read }) attached.effect.same).trans ?_
  rw [linked]
  rfl

/-- A slot gets another description of its array. -/
theorem World.Links.described {request : Nat} {ptrs : List Nat} {w w' : World}
    {grpc grpc' : Request} (links : w.Links request ptrs w')
    (found : w.requests request = some grpc)
    (kept : grpc'.arguments.map Argument.context? =
      grpc.arguments.map Argument.context?) :
    w.Links request ptrs (w'.asked.put (w'.asked.setRequest request grpc')) where
  same := links.same
  nextPtr := links.nextPtr
  others := fun other different =>
    (Function.update_of_ne different _ _).trans (links.others other different)
  contexts := by simp [Process.setRequest, found, kept]

theorem attachArguments_spec {P : PageSize} {request index : Nat}
    {arguments : List Argument} {more : List (Option Nat)} {grpc : Request}
    {w : World} (free : w.held = []) (found : w.requests request = some grpc)
    (aligned : (grpc.arguments.map Argument.context?).drop index =
      arguments.map Argument.context? ++ more) :
    Ensures (attachArguments P request index arguments)
      (fun result => AttachOutcome request w (arrayContexts arguments)
        (.ok result))
      (fun reason => AttachOutcome request w (arrayContexts arguments)
        (.error reason)) w := by
  induction arguments generalizing index grpc w with
  | nil =>
      exact .attached ⟨by simp [arrayContexts], by simp [arrayContexts]⟩ rfl
        (.of_quiet (.refl w))
  | cons argument arguments induction =>
      have later : (grpc.arguments.map Argument.context?).drop (index + 1) =
          arguments.map Argument.context? ++ more := by
        rw [← List.tail_drop, aligned]
        rfl
      have none : w.Serves [] := ⟨by simp, by simp⟩
      cases argument with
      | empty => exact induction free found later
      | scalar bytes => exact induction free found later
      | array array =>
          unfold attachArguments
          refine ensures_bind.mpr ((attach_spec free).mono ?_ ?_)
          · intro result w₁ ended
            split at ended
            · rename_i success
              obtain ⟨⟨owns, protects⟩, cube, slice, attached⟩ := ended
              simp only [success, ne_eq, not_true_eq_false, if_false]
              have links : w.Links request [array.context] w₁ := attached.links
              have os : w₁.asked.os = fun index => w.os (index + 2) := by
                funext index
                exact congrFun attached.os (index + 1)
              have second : w₁.os 0 = w.os 1 := congrFun attached.os 0
              cases reply : w₁.os 0 with
              | failed error =>
                  have fails : (w.os 1).isDone = false := by
                    rw [← second, reply]
                    rfl
                  apply Ensures.ends
                  · simp only [bind, EStateM.bind, mayThrow, reply]
                    rfl
                  · exact .thrown [] rfl none owns protects fails
                      (links.trans (.of_quiet ⟨rfl, Nat.le_refl _⟩))
              | done value name =>
                  have describes : (w.os 1).isDone = true := by
                    rw [← second, reply]
                    rfl
                  have owned : w₁.owner array.context = some w.pid :=
                    (links.owner _).trans owns
                  obtain ⟨⟨cube', slice'⟩, found', -⟩ :=
                    Option.map_eq_some_iff.mp owned
                  have requests : w₁.asked.requests request = some grpc :=
                    (congrFun (congrArg (·.requests) attached.effect.rpc)
                      request).trans found
                  apply Ensures.step (by simp only [mayThrow, reply]; rfl)
                  apply Ensures.step (derefSlice_run (w := w₁.asked) found')
                  apply Ensures.step (by
                    simp only [derefRequest, requests]
                    rfl)
                  apply Ensures.step rfl
                  let described : Argument := .array
                    { array with
                      id := cube'.id
                      offset := slice'.offset
                      size := slice'.size
                      version := slice'.version }
                  have kept := @contexts_set grpc.arguments _ array index
                    described aligned rfl
                  let w₂ := w₁.asked.put (w₁.asked.setRequest request
                    { grpc with
                      arguments := grpc.arguments.set index described })
                  have os : w₂.os = fun index => w.os (index + 2) := os
                  have links : w.Links request [array.context] w₂ :=
                    links.described found kept
                  have outcome := @induction (index + 1) _ w₂
                    (links.held.trans free) (Function.update_self _ _ _)
                    (by rw [kept, later])
                  exact outcome.mono
                    (fun _ _ => .cons owns protects describes os links)
                    (fun _ _ => .cons owns protects describes os links)
            · rename_i failure
              simp only [ne_eq, failure, not_false_eq_true, if_true]
              obtain ⟨present, fails, quiet⟩ := ended
              exact .refused [] rfl none
                (mt Process.owner_eq_none.mp present) fails (.of_quiet quiet)
          · rintro reason w' ⟨rfl, rfl, lost⟩
            exact .dangling [] rfl none
              (Process.owner_eq_none.mpr lost) (.of_quiet (.refl w'))

/-- The waiters that a new queue gets: the extra ones and one more. -/
def Process.threads (p : Process) : Nat := (p.extraWaiters.getD 0).toNat + 1

/-- The replies that the critical section of `inaccel_submit` asks for. -/
def Process.queueCalls (p : Process) : Nat :=
  if p.cq then 0 else p.threads + 1

/-- The process has a queue with this many new waiters. -/
def Process.openQueue (started : Nat) (p : Process) : Process :=
  { p with cq := true, waiters := p.waiters + started }

/-- The queue after a critical section without a failure. -/
def Process.withQueue (p : Process) : Process :=
  if p.cq then p else p.openQueue p.threads

/-- The queue is there, or it is opened. -/
theorem withQueue_ind {p : Process} (motive : Process → Prop)
    (there : motive p) (opened : motive (p.openQueue p.threads)) :
    motive p.withQueue := by
  unfold Process.withQueue
  split
  · exact there
  · exact opened

theorem withQueue_requests {p : Process} :
    p.withQueue.requests = p.requests :=
  withQueue_ind (·.requests = p.requests) rfl rfl

/-- How the critical section of `inaccel_submit` can end. -/
inductive QueueOutcome (w : World) : Except Stop Bool → World → Prop where
  | ready {w' : World}
      (answered : ∀ index < w.queueCalls, (w.os index).isDone = true)
      (os : w'.os = fun index => w.os (index + w.queueCalls))
      (quiet : (w.put w.withQueue).Quiet w') : QueueOutcome w (.ok true) w'
  | starved {w' : World} (closed : w.cq = false)
      (fails : (w.os 0).isDone = false)
      (quiet : (w.holding [.queue]).Quiet w') :
      QueueOutcome w (.error .thrown) w'
  | short (started : Nat) {w' : World} (closed : w.cq = false)
      (fewer : started < w.threads)
      (answered : ∀ index ≤ started, (w.os index).isDone = true)
      (fails : (w.os (started + 1)).isDone = false)
      (quiet : (w.put (w.openQueue started)).Quiet w') :
      QueueOutcome w (.ok false) w'

theorem daemon_run {w : World} :
    Utils.daemon w =
      match w.os 0 with
      | .done _ _ => .ok 0 (w.asked.put { w.toProcess with
          waiters := w.waiters + 1 })
      | .failed error => .ok error w.asked := by
  simp only [Utils.daemon, bind, EStateM.bind, ask]
  cases w.os 0 with
  | done => rfl
  | failed => rfl

/-- Waiters are started up to the first failure. -/
theorem startWaiters_spec (count : Nat) (w : World)
    {stop : Stop → World → Prop} :
    Ensures (startWaiters count)
      (fun error w' => ∃ started,
        (∀ index < started, (w.os index).isDone = true) ∧
        (w.put { w.toProcess with
          waiters := w.waiters + started }).Quiet w' ∧
        if error = 0 then started = count ∧
          w'.os = fun index => w.os (index + count)
        else started < count ∧ (w.os started).isDone = false) stop w := by
  induction count generalizing w with
  | zero => exact ⟨0, by simp, .refl w, by simp⟩
  | succ count induction =>
      unfold startWaiters
      rw [ensures_bind]
      cases reply : w.os 0 with
      | failed error =>
          have fails : error.val ≠ 0 := Nat.ne_of_gt error.property
          apply (ensures_ok (by rw [daemon_run, reply])).mpr
          rw [if_pos fails]
          refine ⟨0, by simp, ⟨rfl, Nat.le_refl _⟩, ?_⟩
          rw [if_neg fails, reply]
          exact ⟨Nat.succ_pos count, rfl⟩
      | done value name =>
          apply (ensures_ok (by rw [daemon_run, reply])).mpr
          simp only [ne_eq, not_true_eq_false, if_false]
          refine (induction _).mono ?_ (fun _ _ => id)
          rintro error w' ⟨started, answered, quiet, ended⟩
          refine ⟨started + 1, ?_, ?_, ?_⟩
          · intro index bound
            match index with
            | 0 => simp [reply, Reply.isDone]
            | index + 1 => exact answered index (by omega)
          · refine quiet.of_visible ?_ (Nat.le_refl _)
            simp only [World.put_toProcess, Nat.add_assoc, Nat.add_comm 1]
            rfl
          · by_cases success : error = 0
            · rw [if_pos success] at ended ⊢
              exact ⟨congrArg (· + 1) ended.1, ended.2⟩
            · rw [if_neg success] at ended ⊢
              exact ⟨Nat.succ_lt_succ ended.1, ended.2⟩

/-- One waiter after the extra ones is one more waiter. -/
theorem startWaiters_succ (count : Nat) :
    startWaiters (count + 1) = (do
      let error ← startWaiters count
      if error ≠ 0 then return error
      else Utils.daemon) := by
  induction count with
  | zero =>
      have last : ∀ error : Nat, (if error ≠ 0 then pure error
          else pure 0 : Prog Nat) = pure error := by
        intro error
        split
        · rfl
        · rename_i zero
          rw [not_not.mp zero]
      simp only [startWaiters, pure_bind, last, bind_pure]
      rfl
  | succ count induction =>
      conv_lhs => rw [startWaiters, induction]
      conv_rhs => rw [startWaiters, bind_assoc]
      congr 1
      funext error
      split
      · rename_i failed
        simp [failed]
      · rfl

theorem openQueue_eq : openQueue = (do
    mayThrow
    change fun p => { p with cq := true }
    let w ← get
    startWaiters w.threads) := by
  simp only [Process.threads, startWaiters_succ]
  rfl

theorem openQueue_spec (w : World) :
    Ensures openQueue
      (fun error w' =>
        if error = 0 then
          (∀ index < w.threads + 1, (w.os index).isDone = true) ∧
            w'.os = (fun index => w.os (index + (w.threads + 1))) ∧
            (w.put (w.openQueue w.threads)).Quiet w'
        else ∃ started < w.threads,
          (∀ index ≤ started, (w.os index).isDone = true) ∧
            (w.os (started + 1)).isDone = false ∧
            (w.put (w.openQueue started)).Quiet w')
      (fun reason w' => reason = .thrown ∧ (w.os 0).isDone = false ∧
        w.Quiet w') w := by
  rw [openQueue_eq]
  cases reply : w.os 0 with
  | failed error =>
      apply Ensures.ends
      · simp only [bind, EStateM.bind, mayThrow, reply]
        rfl
      · exact ⟨rfl, rfl, rfl, Nat.le_refl _⟩
  | done value name =>
      apply Ensures.step (by simp only [mayThrow, reply]; rfl)
      refine Ensures.step rfl (Ensures.step rfl ?_)
      refine (startWaiters_spec _ _).mono ?_ (fun _ _ => False.elim)
      rintro error w' ⟨started, answered, quiet, ended⟩
      have first : ∀ index < started + 1, (w.os index).isDone = true := by
        intro index bound
        match index with
        | 0 => simp [reply, Reply.isDone]
        | index + 1 => exact answered index (by omega)
      have quiet : (w.put (w.openQueue started)).Quiet w' :=
        quiet.of_visible rfl (Nat.le_refl _)
      by_cases success : error = 0
      · rw [if_pos success] at ended ⊢
        obtain ⟨rfl, os⟩ := ended
        exact ⟨first, os, quiet⟩
      · rw [if_neg success] at ended ⊢
        exact ⟨started, ended.1, fun index bound => first index (by omega),
          ended.2, quiet⟩

theorem submitQueue_spec {w : World} (free : w.held = []) :
    Ensures submitQueue (fun ready => QueueOutcome w (.ok ready))
      (fun reason => QueueOutcome w (.error reason)) w := by
  unfold submitQueue
  apply Ensures.step (lock_run (by simp [free]))
  rw [free]
  apply Ensures.step rfl
  split
  · rename_i opened
    have opened : w.cq = true := opened
    apply Ensures.step (unlock_run (by simp))
    have calls : w.queueCalls = 0 := by simp [Process.queueCalls, opened]
    have kept : w.withQueue = w.toProcess := by simp [Process.withQueue, opened]
    refine .ready (by simp [calls]) (by simp [calls]) ?_
    rw [kept]
    exact World.Quiet.unlocked free (.refl _)
  · rename_i closed
    have closed : w.cq = false := by simpa using closed
    have calls : w.queueCalls = w.threads + 1 := by
      simp [Process.queueCalls, closed]
    have started : w.withQueue = w.openQueue w.threads := by
      simp [Process.withQueue, closed]
    refine ensures_bind.mpr ((openQueue_spec _).mono ?_ ?_)
    · intro error w₁ ended
      split
      · rename_i failed
        rw [if_neg failed] at ended
        obtain ⟨started, fewer, answered, fails, quiet⟩ := ended
        apply Ensures.step rfl
        apply ensures_unlock (p := w.openQueue started) free quiet
        intro w₂ quiet₂
        apply (quiet_setErrno _).bind quiet₂
        exact fun _ w₃ quiet₃ =>
          .short started closed fewer answered fails quiet₃
      · rename_i succeeded
        rw [if_pos (not_not.mp succeeded)] at ended
        obtain ⟨answered, os, quiet⟩ := ended
        have held : w₁.held = [.queue] := quiet.held
        apply Ensures.step (unlock_run (by simp [held]))
        refine .ready (calls ▸ answered) (calls ▸ os) ?_
        rw [started]
        exact World.Quiet.unlocked free quiet
    · rintro reason w₁ ⟨rfl, fails, quiet⟩
      exact .starved closed fails quiet

/-- The snapshot of a request in its response and the metadata of the
request. -/
def Process.stamped (request response : Nat) (grpc : Request) (r : Response)
    (p : Process) : Process :=
  { (p.setResponse response { r with request := grpc }).setRequest request
      { grpc with metadata := some ⟨p.self, p.stamp⟩ } with
    stamp := p.stamp + 1 }

/-- A call is handed to gRPC. -/
def Process.send (response : Nat) (message : Request) (p : Process) :
    Process :=
  { p with pending := p.pending ++ [⟨response, message⟩] }

/-- How the rest of a submission can end, past the loop. -/
inductive SendOutcome (request response : Nat) (grpc : Request) (w : World) :
    Except Stop Int → World → Prop where
  | early {w' : World} (fails : (w.os 0).isDone = false)
      (quiet : w.Quiet w') :
      SendOutcome request response grpc w (.error .thrown) w'
  | lost {w' : World} (answered : (w.os 0).isDone = true)
      (lost : w.responses response = none) (quiet : w.Quiet w') :
      SendOutcome request response grpc w (.error (.dangling response)) w'
  | unmarked {r : Response} {w' : World} (answered : (w.os 0).isDone = true)
      (found : w.responses response = some r)
      (fails : (w.os 1).isDone = false)
      (quiet : (w.put (w.setResponse response
        { r with request := grpc })).Quiet w') :
      SendOutcome request response grpc w (.error .thrown) w'
  | starved {r : Response} {w' : World}
      (answered : ∀ index < 2, (w.os index).isDone = true)
      (found : w.responses response = some r) (closed : w.cq = false)
      (fails : (w.os 2).isDone = false)
      (quiet : ((w.put (w.stamped request response grpc r)).holding
        [.queue]).Quiet w') :
      SendOutcome request response grpc w (.error .thrown) w'
  | short {r : Response} (started : Nat) {w' : World}
      (found : w.responses response = some r) (closed : w.cq = false)
      (fewer : started < w.threads)
      (answered : ∀ index < started + 3, (w.os index).isDone = true)
      (fails : (w.os (started + 3)).isDone = false)
      (quiet : (w.put ((w.stamped request response grpc r).openQueue
        started)).Quiet w') :
      SendOutcome request response grpc w (.ok (-1)) w'
  | unsent {r : Response} {w' : World}
      (found : w.responses response = some r)
      (answered : ∀ index < w.queueCalls + 2, (w.os index).isDone = true)
      (fails : (w.os (w.queueCalls + 2)).isDone = false)
      (quiet : (w.put
        (w.stamped request response grpc r).withQueue).Quiet w') :
      SendOutcome request response grpc w (.error .thrown) w'
  | sent {r : Response} {w' : World}
      (found : w.responses response = some r)
      (answered : ∀ index < w.queueCalls + 3, (w.os index).isDone = true)
      (quiet : (w.put ((w.stamped request response grpc r).withQueue.send
        response { grpc with metadata := some ⟨w.self, w.stamp⟩ })).Quiet w') :
      SendOutcome request response grpc w (.ok 0) w'

theorem mayThrow_done {w : World} (answered : (w.os 0).isDone = true) :
    mayThrow w = .ok () w.asked := by
  unfold mayThrow
  cases reply : w.os 0 with
  | done => rfl
  | failed => simp [reply, Reply.isDone] at answered

theorem mayThrow_failed {w : World} (fails : (w.os 0).isDone = false) :
    mayThrow w = .error .thrown w.asked := by
  unfold mayThrow
  cases reply : w.os 0 with
  | done => simp [reply, Reply.isDone] at fails
  | failed => rfl

/-- A thrown exception ends a sequence. -/
theorem ensures_thrown {α : Type} {f : Unit → Prog α} {w : World}
    {post : α → World → Prop} {stop : Stop → World → Prop}
    (fails : (w.os 0).isDone = false) (ends : stop .thrown w.asked) :
    Ensures (mayThrow >>= f) post stop w :=
  Ensures.ends (by simp only [bind, EStateM.bind, mayThrow_failed fails]) ends

theorem submitAttached_spec {request response : Nat} {grpc : Request}
    {w : World} (free : w.held = []) (found : w.requests request = some grpc) :
    Ensures (submitAttached request response)
      (fun result => SendOutcome request response grpc w (.ok result))
      (fun reason => SendOutcome request response grpc w (.error reason)) w := by
  unfold submitAttached stampRequest
  simp only [bind_assoc]
  cases first : (w.os 0).isDone with
  | false =>
      exact ensures_thrown first (.early first ⟨rfl, Nat.le_refl _⟩)
  | true =>
      apply Ensures.step (mayThrow_done first)
      apply Ensures.step (by
        simp only [derefRequest, World.asked_toProcess, found]
        rfl)
      cases found' : w.responses response with
      | none =>
          apply Ensures.ends
          · simp only [bind, EStateM.bind, derefResponse,
              World.asked_toProcess, found']
            rfl
          · exact .lost first found' ⟨rfl, Nat.le_refl _⟩
      | some r =>
          apply Ensures.step (by
            simp only [derefResponse, World.asked_toProcess, found']
            rfl)
          apply Ensures.step rfl
          cases second : (w.os 1).isDone with
          | false =>
              exact ensures_thrown second
                (.unmarked first found' second ⟨rfl, Nat.le_refl _⟩)
          | true =>
              apply Ensures.step (mayThrow_done second)
              apply Ensures.step rfl
              let stamped := w.stamped request response grpc r
              let w₁ := (w.asked.asked.put stamped)
              have two : ∀ index < 2, (w.os index).isDone = true := by
                intro index bound
                match index with
                | 0 => exact first
                | 1 => exact second
              have more : ∀ count, (∀ index < count,
                  (w₁.os index).isDone = true) →
                  ∀ index < count + 2, (w.os index).isDone = true := by
                intro count answered index bound
                match index with
                | 0 => exact first
                | 1 => exact second
                | index + 2 => exact answered index (by omega)
              have free : w₁.held = [] := free
              refine ensures_bind.mpr
                ((submitQueue_spec free).mono ?_ ?_)
              · intro ready w₂ outcome
                cases outcome with
                | short started closed fewer answered fails quiet =>
                    exact .short started found' closed fewer
                      (more _ fun index bound => answered index (by omega))
                      fails (quiet.of_visible rfl (Nat.le_refl _))
                | ready answered os quiet =>
                    have answered : ∀ index < w.queueCalls + 2,
                        (w.os index).isDone = true := more _ answered
                    have last : w₂.os 0 = w.os (w.queueCalls + 2) :=
                      (congrFun os 0).trans
                        (congrArg w₁.os (Nat.zero_add w.queueCalls))
                    have quiet : (w.put stamped.withQueue).Quiet w₂ :=
                      quiet.of_visible rfl (Nat.le_refl _)
                    have message : w₂.requests request =
                        some { grpc with
                          metadata := some ⟨w.self, w.stamp⟩ } := by
                      have requests : w₂.requests = stamped.withQueue.requests :=
                        congrArg (·.requests) quiet.rpc
                      rw [requests, withQueue_requests]
                      exact Function.update_self _ _ _
                    rw [if_pos rfl]
                    simp only [handOver, bind_assoc]
                    cases third : (w₂.os 0).isDone with
                    | false =>
                        exact ensures_thrown third (.unsent found' answered
                          (last ▸ third) (quiet.trans ⟨rfl, Nat.le_refl _⟩))
                    | true =>
                        have answered : ∀ index < w.queueCalls + 3,
                            (w.os index).isDone = true := by
                          intro index bound
                          by_cases here : index = w.queueCalls + 2
                          · rw [here, ← last]
                            exact third
                          · exact answered index (by omega)
                        have sent := quiet.lift (Process.send response
                            { grpc with metadata := some ⟨w.self, w.stamp⟩ })
                          (fun _ => rfl) (fun _ _ => id)
                        apply Ensures.step (mayThrow_done third)
                        apply Ensures.step (by
                          simp only [derefRequest, World.asked_toProcess,
                            message]
                          rfl)
                        refine Ensures.step rfl ?_
                        exact .sent found' answered
                          (sent.trans ⟨rfl, Nat.le_refl _⟩)
              · intro reason w₂ outcome
                cases outcome with
                | starved closed fails quiet =>
                    have locked : ((w.put stamped).holding [.queue]).Quiet
                        (w₁.holding [.queue]) := ⟨rfl, Nat.le_refl _⟩
                    exact .starved two found' closed fails (locked.trans quiet)

/-- A submission gets to its critical section, and asks for this many replies
before. -/
def World.Reaches (request response asked : Nat) (w : World) : Prop :=
  request ≠ 0 ∧ response ≠ 0 ∧ (w.responses response).isSome = true ∧
    (∀ index < asked, (w.os index).isDone = true) ∧
    ∃ grpc ∈ w.requests request,
      (∀ ptr ∈ arrayContexts grpc.arguments, w.owner ptr = some w.pid) ∧
      asked = 2 * (arrayContexts grpc.arguments).length + 3

instance (request response asked : Nat) (w : World) :
    Decidable (w.Reaches request response asked) :=
  inferInstanceAs (Decidable (_ ∧ _ ∧ _ ∧ _ ∧ _))

theorem AttachOutcome.attached_iff {request : Nat} {ptrs : List Nat}
    {w w' : World} {result : Except Stop Bool}
    (outcome : AttachOutcome request w ptrs result w') :
    result = .ok true ↔ w.Serves ptrs := by
  cases outcome with
  | attached serves os links => simp [serves]
  | @refused before after ptr w' slots serves found fails links =>
      refine iff_of_false (by simp) fun serves => fails ⟨?_, ?_⟩
      · exact serves.owns ptr (by simp [slots])
      · exact serves.answered _ (by simp [slots])
  | @thrown before after ptr w' slots serves owns answered fails links =>
      refine iff_of_false (by simp) fun serves => ?_
      have answered := serves.answered (2 * before.length + 1) (by
        rw [slots, List.length_append, List.length_cons]
        omega)
      exact absurd answered (by simp [fails])
  | @dangling before after ptr w' slots serves lost links =>
      refine iff_of_false (by simp) fun serves => ?_
      have owns := serves.owns ptr (by simp [slots])
      exact absurd owns (by simp [lost])

/-- The slots of the request come behind the first reply, and two replies
come behind the slots. -/
theorem reaches_iff {request response asked : Nat} {grpc : Request} {w : World}
    (given : request ≠ 0 ∧ response ≠ 0)
    (found : w.requests request = some grpc) :
    w.Reaches request response asked ↔
      (asked = 2 * (arrayContexts grpc.arguments).length + 3 ∧
        (w.responses response).isSome = true ∧ (w.os 0).isDone = true) ∧
      w.asked.Serves (arrayContexts grpc.arguments) ∧
      ∀ index < 2, (w.os (index +
        (2 * (arrayContexts grpc.arguments).length + 1))).isDone = true := by
  constructor
  · rintro ⟨-, -, live, answered, grpc', found', owns, rfl⟩
    cases found.symm.trans found'
    refine ⟨⟨rfl, live, answered 0 (by omega)⟩, ⟨owns, ?_⟩, ?_⟩
    · exact fun index bound => answered (index + 1) (by omega)
    · exact fun index bound => answered _ (by omega)
  · rintro ⟨⟨rfl, live, first⟩, serves, last⟩
    refine ⟨given.1, given.2, live, ?_, grpc, found, serves.owns, rfl⟩
    intro index bound
    match index with
    | 0 => exact first
    | index + 1 =>
        by_cases inside : index < 2 * (arrayContexts grpc.arguments).length
        · exact serves.answered index inside
        · have answered := last
            (index - 2 * (arrayContexts grpc.arguments).length) (by omega)
          rw [← answered]
          congr 2
          omega

/-- The loop of a submission has attached every array. -/
structure World.PastLoop (request response : Nat) (grpc : Request)
    (w w₁ : World) : Prop where
  given : request ≠ 0 ∧ response ≠ 0
  answered : (w.os 0).isDone = true
  found : w.requests request = some grpc
  serves : w.asked.Serves (arrayContexts grpc.arguments)
  os : ∀ index, w₁.os index =
    w.os (index + 2 * (arrayContexts grpc.arguments).length + 1)
  links : w.asked.Links request (arrayContexts grpc.arguments) w₁

section PastLoop

variable {request response : Nat} {grpc : Request} {w w₁ : World}
  (past : w.PastLoop request response grpc w₁)

include past

theorem World.PastLoop.cq : w₁.cq = w.cq := congrArg (·.cq) past.links.rpc

theorem World.PastLoop.responses : w₁.responses = w.responses :=
  congrArg (·.responses) past.links.rpc

theorem World.PastLoop.queueCalls : w₁.queueCalls = w.queueCalls := by
  have extra : w₁.extraWaiters = w.extraWaiters :=
    congrArg (·.extraWaiters) past.links.rpc
  simp only [Process.queueCalls, Process.threads, past.cq, extra]

theorem World.PastLoop.reaches_iff {asked : Nat} :
    w.Reaches request response asked ↔
      asked = 2 * (arrayContexts grpc.arguments).length + 3 ∧
        (w₁.responses response).isSome = true ∧
        ∀ index < 2, (w₁.os index).isDone = true := by
  rw [CoralApi.reaches_iff past.given past.found, past.responses]
  simp only [past.os]
  constructor
  · rintro ⟨⟨here, live, -⟩, -, marks⟩
    exact ⟨here, live, marks⟩
  · rintro ⟨here, live, marks⟩
    exact ⟨⟨here, live, past.answered⟩, past.serves, marks⟩

end PastLoop

/-- `catch (...) { return -1; }` -/
def caught : Except Stop Int → Except Stop Int
  | .error .thrown => .ok (-1)
  | result => result

/-- How `inaccel_submit` can end. -/
inductive SubmitOutcome (request response : Nat) (w : World) :
    Except Stop Int → World → Prop where
  | null {w' : World} (missing : request = 0 ∨ response = 0)
      (quiet : w.Quiet w') : SubmitOutcome request response w (.ok (-1)) w'
  | unread {w' : World} (given : request ≠ 0 ∧ response ≠ 0)
      (fails : (w.os 0).isDone = false) (quiet : w.Quiet w') :
      SubmitOutcome request response w (.ok (-1)) w'
  | lost {w' : World} (given : request ≠ 0 ∧ response ≠ 0)
      (answered : (w.os 0).isDone = true)
      (lost : w.requests request = none) (quiet : w.Quiet w') :
      SubmitOutcome request response w (.error (.dangling request)) w'
  | stopped {grpc : Request} {ended : Except Stop Bool} {w' : World}
      {result : Except Stop Int} (given : request ≠ 0 ∧ response ≠ 0)
      (answered : (w.os 0).isDone = true)
      (found : w.requests request = some grpc)
      (loop : AttachOutcome request w.asked (arrayContexts grpc.arguments)
        ended w') (short : ended ≠ .ok true)
      (ends : result = caught (ended.map fun _ => -1)) :
      SubmitOutcome request response w result w'
  | tried {grpc grpc' : Request} {w₁ w' : World}
      {ended result : Except Stop Int}
      (past : w.PastLoop request response grpc w₁)
      (found : w₁.requests request = some grpc')
      (send : SendOutcome request response grpc' w₁ ended w')
      (ends : result = caught ended) :
      SubmitOutcome request response w result w'

/-- The rule of `catch (...) { return -1; }`. -/
theorem ensures_caught {body : Prog Int} {w : World}
    {outcome : Except Stop Int → World → Prop}
    (ensures : Ensures body (fun value w' => outcome (caught (.ok value)) w')
      (fun reason w' => outcome (caught (.error reason)) w') w) :
    Ensures (catchThrown body (-1)) (fun value w' => outcome (.ok value) w')
      (fun reason w' => outcome (.error reason) w') w := by
  unfold Ensures catchThrown at *
  cases run : body w with
  | ok value w' =>
      rw [run] at ensures
      exact ensures
  | error reason w' =>
      rw [run] at ensures
      cases reason with
      | thrown => exact ensures
      | blocked => exact ensures
      | asleep ptr => exact ensures
      | dangling ptr => exact ensures

theorem inaccelSubmit_spec {P : PageSize} {request response : Nat} {w : World}
    (free : w.held = []) :
    Ensures (inaccelSubmit P request response)
      (fun result => SubmitOutcome request response w (.ok result))
      (fun reason => SubmitOutcome request response w (.error reason)) w := by
  unfold inaccelSubmit
  split
  · rename_i missing
    exact .null missing ⟨rfl, Nat.le_refl _⟩
  · rename_i present
    have given : request ≠ 0 ∧ response ≠ 0 := not_or.mp present
    apply ensures_caught
    unfold submitBody
    cases first : (w.os 0).isDone with
    | false =>
        exact ensures_thrown first (.unread given first ⟨rfl, Nat.le_refl _⟩)
    | true =>
        apply Ensures.step (mayThrow_done first)
        cases found : w.requests request with
        | none =>
            apply Ensures.ends
            · simp only [bind, EStateM.bind, derefRequest,
                World.asked_toProcess, found]
              rfl
            · exact .lost given first found ⟨rfl, Nat.le_refl _⟩
        | some grpc =>
            apply Ensures.step (by
              simp only [derefRequest, World.asked_toProcess, found]
              rfl)
            have free : w.asked.held = [] := free
            refine ensures_bind.mpr
              ((attachArguments_spec free found
                (List.append_nil _).symm).mono ?_ ?_)
            · intro attached w₁ loop
              cases attached with
              | false => exact .stopped given first found loop (by simp) rfl
              | true =>
                  have past : w.PastLoop request response grpc w₁ := by
                    cases loop with
                    | attached serves os links =>
                        exact ⟨given, first, found, serves, congrFun os, links⟩
                  obtain ⟨grpc', found', -⟩ := past.links.found found
                  rw [if_pos rfl]
                  refine (submitAttached_spec (past.links.held.trans free)
                    found').mono ?_ ?_
                  · exact fun _ _ send => .tried past found' send rfl
                  · exact fun _ _ send => .tried past found' send rfl
            · intro reason w₁ loop
              exact .stopped given first found loop (by simp) rfl

end CoralApi
