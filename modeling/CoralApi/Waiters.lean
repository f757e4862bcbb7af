import CoralApi.Fork
import CoralApi.Rollback

/-!
# The waiters of the queue

A submission hands its call to the queue of its process.  The queue has a
waiter as long as the call that makes it starts the first one, and as long as
no forked process uses the queue of its parent.
-/

namespace CoralApi

open Program Transition

/-- A process of the system.  Log: its queue was there when it was forked. -/
structure Member extends Process where
  inherited : Bool

/-- The processes, by their number. -/
abbrev System := Nat → Option Member

inductive Activity where
  | submit (pid request response errno : Nat) (os : Nat → Reply)
  | fork (pid child errno : Nat) (os : Nat → Reply)
  /-- anything else that a process does -/
  | other (pid : Nat) (p : Process)

namespace Activity

/-- The steps of the system.  No call besides `inaccel_submit` makes a queue or
starts a waiter, and no waiter ends. -/
inductive Step (P : PageSize) (s : System) : Activity → System → Prop where
  | submit {pid request response errno : Nat} {os : Nat → Reply} {m : Member}
      (here : s pid = some m) :
      Step P s (.submit pid request response errno os)
        (Function.update s pid (some
          { toProcess := (final (inaccelSubmit P request response
              (m.enter errno os))).toProcess
            inherited := m.inherited }))
  | fork {pid child errno : Nat} {os : Nat → Reply} {m : Member}
      (here : s pid = some m) (new : s child = none) :
      Step P s (.fork pid child errno os)
        (Function.update (Function.update s pid (some
          { toProcess := (final (forkParent (m.enter errno os))).toProcess
            inherited := m.inherited }))
          child (some
          { toProcess := (final (forkChild P child
              (m.enter errno os))).toProcess
            inherited := m.cq }))
  | other {pid : Nat} {p : Process} {m : Member} (here : s pid = some m)
      (cq : p.cq = m.cq) (waiters : p.waiters = m.waiters) :
      Step P s (.other pid p)
        (Function.update s pid (some
          { toProcess := p, inherited := m.inherited }))

/-- A submission that returns 0 leaves its call to a waiter. -/
def Served (P : PageSize) (s : System) : Activity → Prop
  | .submit pid request response errno os => ∀ m ∈ s pid,
      Ensures (inaccelSubmit P request response)
        (fun result w' => result = 0 → 0 < w'.waiters) (fun _ _ => True)
        (m.enter errno os)
  | _ => True

/-- A submission uses no inherited queue, and starts the first waiter of a new
one. -/
def Staffs (s : System) : Activity → Prop
  | .submit pid request response errno os => ∀ m ∈ s pid,
      (m.cq = true → m.inherited = false) ∧
      (m.cq = false → ∀ asked,
        (m.enter errno os).Reaches request response asked →
          (os asked).isDone = true → (os (asked + 1)).isDone = true)
  | _ => True

end Activity

/-- Every process with a queue of its own runs a waiter. -/
def System.Staffed (s : System) : Prop :=
  ∀ pid, ∀ m ∈ s pid, m.cq = true → m.inherited = false → 0 < m.waiters

section Submit

variable {request response : Nat} {w w' : World} {result : Except Stop Int}

theorem waiters_withQueue {p : Process} (staffed : p.cq = true → 0 < p.waiters) :
    p.withQueue.cq = true ∧ 0 < p.withQueue.waiters := by
  unfold Process.withQueue
  split
  · rename_i opened
    exact ⟨opened, staffed opened⟩
  · exact ⟨rfl, Nat.lt_add_left _ (Nat.succ_pos _)⟩

/-- A call keeps a waiter at its queue, and leaves a queue behind when it
returns 0. -/
theorem SubmitOutcome.staffed
    (outcome : SubmitOutcome request response w result w')
    (staffed : w.cq = true → 0 < w.waiters)
    (starts : w.cq = false → ∀ asked, w.Reaches request response asked →
      (w.os asked).isDone = true → (w.os (asked + 1)).isDone = true) :
    (w'.cq = true → 0 < w'.waiters) ∧
      (result = .ok 0 → w'.cq = true ∧ 0 < w'.waiters) := by
  have kept : w'.cq = w.cq → w'.waiters = w.waiters → result ≠ .ok 0 →
      (w'.cq = true → 0 < w'.waiters) ∧
        (result = .ok 0 → w'.cq = true ∧ 0 < w'.waiters) := by
    intro cq waiters failed
    rw [cq, waiters]
    exact ⟨staffed, fun returns => (failed returns).elim⟩
  cases outcome with
  | null missing same =>
      exact kept (congrArg (·.cq) same.rpc) (congrArg (·.waiters) same.rpc)
        (by simp)
  | unread given fails same =>
      exact kept (congrArg (·.cq) same.rpc) (congrArg (·.waiters) same.rpc)
        (by simp)
  | lost given answered lost same =>
      exact kept (congrArg (·.cq) same.rpc) (congrArg (·.waiters) same.rpc)
        (by simp)
  | @stopped _ ended _ _ given answered found loop short ends =>
      obtain ⟨ptrs, links⟩ := loop.links
      refine kept (congrArg (·.cq) links.rpc) (congrArg (·.waiters) links.rpc) ?_
      rw [ends]
      cases ended with
      | ok attached => simp [caught, Except.map]
      | error reason => cases reason <;> simp [caught, Except.map]
  | @tried grpc grpc' w₁ _ ended _ past found send ends =>
      have waiters : w₁.waiters = w.waiters :=
        congrArg (·.waiters) past.links.rpc
      have unchanged : w'.cq = w₁.cq → w'.waiters = w₁.waiters →
          result ≠ .ok 0 → _ := fun same also =>
        kept (same.trans past.cq) (also.trans waiters)
      have ready : w₁.cq = true → 0 < w₁.waiters := by
        rwa [past.cq, waiters]
      have served : ∀ r : Response,
          w'.cq = (w₁.stamped request response grpc' r).withQueue.cq →
          w'.waiters =
            (w₁.stamped request response grpc' r).withQueue.waiters →
          (w'.cq = true → 0 < w'.waiters) ∧
            (result = .ok 0 → w'.cq = true ∧ 0 < w'.waiters) := by
        intro r cq waiters
        have queue := @waiters_withQueue
          (w₁.stamped request response grpc' r) ready
        have waiting : 0 < w'.waiters := queue.2.trans_eq waiters.symm
        exact ⟨fun _ => waiting, fun _ => ⟨cq.trans queue.1, waiting⟩⟩
      cases send with
      | early fails same =>
          exact unchanged (congrArg (·.cq) same.rpc)
            (congrArg (·.waiters) same.rpc) (by simp [ends, caught])
      | lost answered lost same =>
          exact unchanged (congrArg (·.cq) same.rpc)
            (congrArg (·.waiters) same.rpc) (by simp [ends, caught])
      | unmarked first live fails same =>
          exact unchanged (congrArg (·.cq) same.rpc)
            (congrArg (·.waiters) same.rpc) (by simp [ends, caught])
      | starved answered live closed fails same =>
          exact unchanged (congrArg (·.cq) same.rpc)
            (congrArg (·.waiters) same.rpc) (by simp [ends, caught])
      | short started live closed fewer answered fails same =>
          have here : ∀ index, w₁.os (index + 2) =
              w.os (2 * (arrayContexts grpc.arguments).length + 3 + index) :=
            fun index => (past.os _).trans (congrArg w.os (by omega))
          have opened : w.cq = false := past.cq.symm.trans closed
          have reaches : w.Reaches request response _ :=
            past.reaches_iff.mpr ⟨rfl, by simp [live], fun index bound =>
              answered index (by omega)⟩
          have first := starts opened _ reaches (here 0 ▸ answered 2 (by omega))
          have some : started ≠ 0 := by
            rintro rfl
            rw [← here 1, fails] at first
            cases first
          have more : w'.waiters = w₁.waiters + started :=
            congrArg (·.waiters) same.rpc
          refine ⟨fun _ => by omega, fun returns => ?_⟩
          rw [ends] at returns
          cases returns
      | @unsent r _ live answered fails same =>
          exact served r (congrArg (·.cq) same.rpc)
            (congrArg (·.waiters) same.rpc)
      | @sent r _ live answered same =>
          exact served r (congrArg (·.cq) same.rpc)
            (congrArg (·.waiters) same.rpc)

end Submit

section Fork

/-- The handlers of a fork leave the queue alone. -/
def KeepsQueue (x : Prog Unit) : Prop :=
  ∀ (cq : Bool) (waiters : Nat) (w : World), w.cq = cq ∧ w.waiters = waiters →
    Ensures x (fun _ w' => w'.cq = cq ∧ w'.waiters = waiters)
      (fun _ w' => w'.cq = cq ∧ w'.waiters = waiters) w

theorem KeepsQueue.bind {x y : Prog Unit} (first : KeepsQueue x)
    (second : KeepsQueue y) : KeepsQueue (do x; y) :=
  fun cq waiters w before =>
    (first cq waiters w before).bind fun _ w' => second cq waiters w'

theorem keepsQueue_lock (mutex : Lock) : KeepsQueue (lock mutex) := by
  intro cq waiters w before
  by_cases held : mutex ∈ w.held
  · have run : lock mutex w = .error .blocked w := by simp [lock, held]
    exact Ensures.ends run before
  · exact (ensures_ok (lock_run held)).mpr before

theorem keepsQueue_unlock (mutex : Lock) : KeepsQueue (unlock mutex) := by
  intro cq waiters w before
  by_cases held : mutex ∈ w.held
  · exact (ensures_ok (unlock_run held)).mpr before
  · have run : unlock mutex w = .ok () { w with misuse := true } := by
      simp [unlock, held]
    exact (ensures_ok run).mpr before

theorem keepsQueue_prepare : KeepsQueue prepare := by
  have loop : ∀ cubes, KeepsQueue (lockCubes cubes) := by
    intro cubes
    induction cubes with
    | nil => exact fun _ _ _ before => before
    | cons cube cubes induction => exact (keepsQueue_lock _).bind induction
  refine (keepsQueue_lock .cubes).bind ?_
  exact fun cq waiters w before => Ensures.step rfl (loop _ cq waiters w before)

theorem keepsQueue_parent : KeepsQueue parent := by
  have loop : ∀ cubes, KeepsQueue (unlockCubes cubes) := by
    intro cubes
    induction cubes with
    | nil => exact fun _ _ _ before => before
    | cons cube cubes induction => exact (keepsQueue_unlock _).bind induction
  exact fun cq waiters w before => Ensures.step rfl
    ((loop _).bind (keepsQueue_unlock .cubes) cq waiters w before)

theorem keepsQueue_child (P : PageSize) : KeepsQueue (child P) := by
  have loop : ∀ cubes, KeepsQueue (protectCubes P cubes) := by
    intro cubes
    induction cubes with
    | nil => exact fun _ _ _ before => before
    | cons cube cubes induction =>
        have protects : KeepsQueue (logged (Process.protectPages P
            cube.page.addr cube.page.size .read)) := by
          intro cq waiters w before
          simp only [logged, Ensures]
          cases w.os 0 with
          | done value name => exact before
          | failed error => exact before
        exact protects.bind ((keepsQueue_unlock _).bind induction)
  exact fun cq waiters w before => Ensures.step rfl
    ((loop _).bind (keepsQueue_unlock .cubes) cq waiters w before)

theorem keepsQueue_init : KeepsQueue Self.init := by
  intro cq waiters w before
  apply Ensures.step rfl
  cases w.os 0 with
  | done value name => exact before
  | failed error => exact before

theorem keepsQueue_forkParent : KeepsQueue forkParent :=
  keepsQueue_prepare.bind keepsQueue_parent

/-- The child has the queue of its parent. -/
theorem forkChild_cq {P : PageSize} {pid : Nat} (w : World) :
    Ensures (forkChild P pid) (fun _ w' => w'.cq = w.cq)
      (fun _ w' => w'.cq = w.cq) w := by
  have handlers := (keepsQueue_child P).bind keepsQueue_init
  refine ensures_bind.mpr ((keepsQueue_prepare w.cq w.waiters w ⟨rfl, rfl⟩).mono
    ?_ fun _ _ kept => kept.1)
  intro _ w₁ kept
  apply Ensures.step rfl
  exact (handlers w.cq 0 (w₁.put (w₁.copy pid)) ⟨kept.1, rfl⟩).mono
    (fun _ _ kept => kept.1) fun _ _ kept => kept.1

end Fork

section System

variable {P : PageSize} {s s' : System} {activity : Activity}

theorem System.staffed_update {pid : Nat} {m : Member} (staffed : s.Staffed)
    (here : m.cq = true → m.inherited = false → 0 < m.waiters) :
    System.Staffed (Function.update s pid (some m)) := by
  intro other m' found
  by_cases same : other = pid
  · subst same
    rw [Function.update_self] at found
    cases found
    exact here
  · rw [Function.update_of_ne same] at found
    exact staffed other m' found

/-- A call under the condition keeps a waiter at the queue, and returns 0 to no
empty queue. -/
theorem submit_staffed {pid request response errno : Nat} {os : Nat → Reply}
    {m : Member} (staffed : s.Staffed) (here : s pid = some m)
    (staffs : Activity.Staffs s (.submit pid request response errno os)) :
    Ensures (inaccelSubmit P request response)
      (fun result w' => (w'.cq = true → 0 < w'.waiters) ∧
        (result = 0 → 0 < w'.waiters))
      (fun _ w' => w'.cq = true → 0 < w'.waiters) (m.enter errno os) := by
  obtain ⟨own, starts⟩ := staffs m here
  have free : (m.enter errno os).held = [] := rfl
  have ready : m.cq = true → 0 < m.waiters := fun opened =>
    staffed pid m here opened (own opened)
  refine (inaccelSubmit_spec free).mono ?_ ?_
  · intro result w' outcome
    have after := outcome.staffed ready starts
    exact ⟨after.1, fun zero => (after.2 (congrArg _ zero)).2⟩
  · exact fun reason w' outcome => (outcome.staffed ready starts).1

theorem Activity.Step.staffed (staffed : s.Staffed) (staffs : activity.Staffs s)
    (step : Activity.Step P s activity s') : s'.Staffed := by
  cases step with
  | @submit pid request response errno os m here =>
      apply System.staffed_update staffed
      have kept := (submit_staffed (P := P) staffed here staffs).of_final
        (fun w' => w'.cq = true → 0 < w'.waiters) (fun _ _ after => after.1)
        (fun _ _ => id)
      exact fun opened _ => kept opened
  | @fork pid child errno os m here new =>
      have kept := keepsQueue_forkParent m.cq m.waiters (m.enter errno os)
        ⟨rfl, rfl⟩
      have parent := kept.of_final
        (fun w' => w'.cq = m.cq ∧ w'.waiters = m.waiters) (fun _ _ => id)
        (fun _ _ => id)
      have cq := (@forkChild_cq P child (m.enter errno os)).of_final
        (fun w' => w'.cq = m.cq) (fun _ _ => id) (fun _ _ => id)
      apply System.staffed_update
      · apply System.staffed_update staffed
        intro opened own
        exact parent.2 ▸ staffed _ _ here (parent.1 ▸ opened) own
      · intro opened own
        exact absurd (cq.symm.trans opened) (by simpa using own)
  | other here cq waiters =>
      apply System.staffed_update staffed
      intro opened own
      exact waiters ▸ staffed _ _ here (cq ▸ opened) own

end System

/-- In every run from processes without a queue whose steps all meet the
condition, each submission that returns 0 leaves its call to a waiter. -/
theorem submit_served {P : PageSize} {start finish : System}
    {trace : List (System × Activity)}
    (closed : ∀ pid, ∀ m ∈ start pid, m.cq = false)
    (run : Run (Activity.Step P) start trace finish)
    (met : ∀ point ∈ trace, point.2.Staffs point.1) :
    ∀ point ∈ trace, point.2.Served P point.1 := by
  have initial : start.Staffed := fun pid m here opened =>
    absurd opened (by simp [closed pid m here])
  have staffed := run.invariant_under System.Staffed
    (fun s activity => activity.Staffs s)
    (fun _ _ _ staffed staffs step => step.staffed staffed staffs) initial met
  rintro ⟨s, activity⟩ member
  have before : s.Staffed := staffed s
    (List.mem_append_left _ (List.mem_map_of_mem member))
  cases activity with
  | submit pid request response errno os =>
      intro m here
      exact (submit_staffed before here (met _ member)).mono
        (fun _ _ after => after.2) (fun _ _ _ => trivial)
  | fork pid child errno os => trivial
  | other pid p => trivial

def System.alone (p : Process) : System := fun pid =>
  if pid = 1 then some { toProcess := p, inherited := false } else none

theorem System.alone_eq {p : Process} {pid : Nat} {m : Member}
    (here : m ∈ System.alone p pid) :
    m = { toProcess := p, inherited := false } := by
  unfold System.alone at here
  split at here
  · cases here
    rfl
  · cases here

/-- Every call succeeds. -/
theorem submitServed_smooth :
    (∀ pid, ∀ m ∈ System.alone .prepared pid, m.cq = false) ∧ ∀ point ∈
    [(System.alone .prepared, Activity.submit 1 11 12 0 succeeds)],
      point.2.Served .small point.1 := by
  have closed : ∀ pid, ∀ m ∈ System.alone .prepared pid, m.cq = false := by
    intro pid m here
    rw [System.alone_eq here]
    decide +kernel
  refine ⟨closed, submit_served closed (.cons (.submit rfl) (.nil _)) ?_⟩
  intro point member
  rw [List.mem_singleton.mp member]
  intro m (here : m ∈ System.alone .prepared 1)
  rw [System.alone_eq here]
  refine ⟨?_, fun _ _ _ _ => rfl⟩
  decide +kernel

/-- The process after a submission of its request with a scalar. -/
def Member.submitted (os : Nat → Reply) : Member where
  toProcess :=
    (final (inaccelSubmit .small 11 12 (Process.prepared.enter 0 os))).toProcess
  inherited := false

/-- The child of such a process. -/
def Member.child (os : Nat → Reply) : Member where
  toProcess :=
    (final (forkChild .small 2 ((submitted os).enter 0 os))).toProcess
  inherited := (submitted os).cq

/-- The first waiter of the queue does not start, and the next submission
returns 0; or the child of a process with a queue submits. -/
theorem not_submitServed_noWaiter :
    (∃ start finish trace, (∀ pid, ∀ m ∈ start pid, m.cq = false) ∧
      Run (Activity.Step .small) start trace finish ∧
      (∀ point ∈ trace, ∀ pid child errno os,
        point.2 ≠ .fork pid child errno os) ∧
      ¬∀ point ∈ trace, point.2.Served .small point.1) ∧
    ∃ start finish trace, (∀ pid, ∀ m ∈ start pid, m.cq = false) ∧
      Run (Activity.Step .small) start trace finish ∧
      (∀ point ∈ trace, ∀ pid request response errno os,
        point.2 = .submit pid request response errno os →
          os = succeeds) ∧
      ¬∀ point ∈ trace, point.2.Served .small point.1 := by
  have closed : ∀ pid, ∀ m ∈ System.alone .prepared pid, m.cq = false := by
    intro pid m here
    rw [System.alone_eq here]
    decide +kernel
  constructor
  · let s := Function.update (System.alone .prepared) 1
      (some (.submitted (failsAfter 4)))
    have here : s 1 = some (.submitted (failsAfter 4)) :=
      Function.update_self _ _ _
    refine ⟨.alone .prepared, _,
      [(.alone .prepared, .submit 1 11 12 0 (failsAfter 4)),
        (s, .submit 1 11 13 0 succeeds)], closed,
      .cons (.submit rfl) (.cons (.submit here) (.nil _)), by simp, ?_⟩
    intro served
    have waits := served _ (List.mem_cons_of_mem _ List.mem_cons_self) _ here
    exact absurd waits (by decide +kernel)
  · let s := Function.update (System.alone .prepared) 1
      (some (.submitted succeeds))
    have here : s 1 = some (.submitted succeeds) := Function.update_self _ _ _
    have new : s 2 = none := rfl
    let s' := Function.update (Function.update s 1 (some
      { toProcess :=
          (final (forkParent
            ((Member.submitted succeeds).enter 0 succeeds))).toProcess
        inherited := false })) 2 (some (.child succeeds))
    have there : s' 2 = some (.child succeeds) := Function.update_self _ _ _
    refine ⟨.alone .prepared, _,
      [(.alone .prepared, .submit 1 11 12 0 succeeds),
        (s, .fork 1 2 0 succeeds), (s', .submit 2 11 13 0 succeeds)], closed,
      .cons (.submit rfl) (.cons (.fork here new) (.cons (.submit there)
        (.nil _))), ?_, ?_⟩
    · intro point member pid request response errno os same
      simp only [List.mem_cons, List.not_mem_nil, or_false] at member
      rcases member with rfl | rfl | rfl
      · cases same
        rfl
      · cases same
      · cases same
        rfl
    · intro served
      have waits := served (s', .submit 2 11 13 0 succeeds) (by simp) _ there
      exact absurd waits (by decide +kernel)

end CoralApi
