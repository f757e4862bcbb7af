import CoralApi.Rpc
import CoralApi.Library.Program

/-!
# What the calls below `cube.c` leave alone

`Quiet` relates two moments of a call between which the thread has only made
and released private objects: files, descriptors, mutexes and anonymous
mappings.  Every wrapper of `utils.c` and `self.c` that a cube function uses
besides the protection and mapping calls is quiet.
-/

namespace CoralApi

open Program

section Put

variable (w : World) (p q : Process)

@[simp] theorem World.put_toProcess : (w.put p).toProcess = p := rfl

@[simp] theorem Process.enter_toProcess (errno : Nat) (os : Nat → Reply) :
    (p.enter errno os).toProcess = p := rfl

@[simp] theorem World.put_self : w.put w.toProcess = w := rfl

@[simp] theorem World.put_put : (w.put p).put q = w.put q := rfl

@[simp] theorem World.put_held : (w.put p).held = w.held := rfl

@[simp] theorem World.put_misuse : (w.put p).misuse = w.misuse := rfl

@[simp] theorem World.put_os : (w.put p).os = w.os := rfl

@[simp] theorem World.holding_holding (locks others : List Lock) :
    (w.holding locks).holding others = w.holding others := rfl

@[simp] theorem World.holding_put (locks : List Lock) :
    (w.holding locks).put p = (w.put p).holding locks := rfl

@[simp] theorem World.holding_toProcess (locks : List Lock) :
    (w.holding locks).toProcess = w.toProcess := rfl

@[simp] theorem World.holding_held (locks : List Lock) :
    (w.holding locks).held = locks := rfl

@[simp] theorem World.holding_os (locks : List Lock) :
    (w.holding locks).os = w.os := rfl

@[simp] theorem World.holding_self : w.holding w.held = w := rfl

theorem World.holding_same {w : World} {locks : List Lock}
    (held : w.held = locks) : w.holding locks = w := by
  cases w
  cases held
  rfl

@[simp] theorem World.asked_put : (w.put p).asked = w.asked.put p := rfl

@[simp] theorem World.asked_toProcess : w.asked.toProcess = w.toProcess := rfl

@[simp] theorem World.asked_held : w.asked.held = w.held := rfl

@[simp] theorem World.asked_misuse : w.asked.misuse = w.misuse := rfl

end Put

/-- The state without what only the calling thread can reach. -/
def World.visible (w : World) : World :=
  { w with
    nextPtr := 0
    objects := []
    mutexes := []
    files := []
    fds := []
    errno := 0
    os := fun _ => .failed EPERM }

/-- Nothing that another function of the library can see has changed. -/
structure World.Quiet (w w' : World) : Prop where
  same : w'.visible = w.visible
  nextPtr : w.nextPtr ≤ w'.nextPtr

namespace World.Quiet

variable {w w' w'' : World}

theorem refl (w : World) : w.Quiet w := ⟨rfl, Nat.le_refl _⟩

theorem trans (left : w.Quiet w') (right : w'.Quiet w'') : w.Quiet w'' :=
  ⟨right.same.trans left.same, Nat.le_trans left.nextPtr right.nextPtr⟩

theorem holding (quiet : w.Quiet w') (locks : List Lock) :
    (w.holding locks).Quiet (w'.holding locks) :=
  ⟨congrArg (·.holding locks) quiet.same, quiet.nextPtr⟩

/-- The moment before a quiet stretch counts by what it shows. -/
theorem of_visible {p q : Process} (quiet : (w.put p).Quiet w')
    (same : (w''.put q).visible = (w.put p).visible)
    (nextPtr : q.nextPtr ≤ p.nextPtr) : (w''.put q).Quiet w' :=
  World.Quiet.trans ⟨same.symm, nextPtr⟩ quiet

/-- A quiet stretch may be moved behind an effect on what it leaves alone. -/
theorem lift (effect : Process → Process) (quiet : w.Quiet w')
    (natural : ∀ w : World, (w.put (effect w.toProcess)).visible =
      (w.visible.put (effect w.visible.toProcess)).visible)
    (monotone : ∀ p q : Process, p.nextPtr ≤ q.nextPtr →
      (effect p).nextPtr ≤ (effect q).nextPtr) :
    (w.put (effect w.toProcess)).Quiet (w'.put (effect w'.toProcess)) := by
  refine ⟨?_, monotone _ _ quiet.nextPtr⟩
  rw [natural w', natural w, quiet.same]

theorem held (quiet : w.Quiet w') : w'.held = w.held :=
  congrArg (·.held) quiet.same

theorem misuse (quiet : w.Quiet w') : w'.misuse = w.misuse :=
  congrArg (·.misuse) quiet.same

theorem rpc (quiet : w.Quiet w') : w'.toRpc = w.toRpc :=
  congrArg (·.toRpc) quiet.same

theorem pid (quiet : w.Quiet w') : w'.pid = w.pid :=
  congrArg (·.pid) quiet.same

theorem self (quiet : w.Quiet w') : w'.self = w.self :=
  congrArg (·.self) quiet.same

theorem cubes (quiet : w.Quiet w') : w'.cubes = w.cubes :=
  congrArg (·.cubes) quiet.same

theorem orphans (quiet : w.Quiet w') : w'.orphans = w.orphans :=
  congrArg (·.orphans) quiet.same

theorem maps (quiet : w.Quiet w') : w'.maps = w.maps :=
  congrArg (·.maps) quiet.same

theorem prot (quiet : w.Quiet w') : w'.prot = w.prot :=
  congrArg (·.prot) quiet.same

theorem detached (quiet : w.Quiet w') : w'.detached = w.detached :=
  congrArg (·.detached) quiet.same

theorem released (quiet : w.Quiet w') : w'.released = w.released :=
  congrArg (·.released) quiet.same

theorem unlinked (quiet : w.Quiet w') : w'.unlinked = w.unlinked :=
  congrArg (·.unlinked) quiet.same

end World.Quiet

/-- No run of the program ends early, and every run is quiet. -/
def QuietCall {α : Type} (x : Prog α) : Prop :=
  ∀ w : World, Ensures x (fun _ w' => w.Quiet w') (fun _ _ => False) w

theorem QuietCall.ensures {α : Type} {x : Prog α} (quiet : QuietCall x)
    {w₀ w : World} (before : w₀.Quiet w) {stop : Stop → World → Prop} :
    Ensures x (fun _ w' => w₀.Quiet w') stop w :=
  (quiet w).mono (fun _ _ after => before.trans after)
    fun _ _ impossible => impossible.elim

/-- Sequencing after a quiet call. -/
theorem QuietCall.bind {α β : Type} {x : Prog α} (quiet : QuietCall x)
    {f : α → Prog β} {w₀ w : World} (before : w₀.Quiet w)
    {post : β → World → Prop} {stop : Stop → World → Prop}
    (rest : ∀ value w', w₀.Quiet w' → Ensures (f value) post stop w') :
    Ensures (x >>= f) post stop w :=
  (quiet.ensures before).bind rest

theorem quiet_getErrno : QuietCall getErrno := fun w => .refl w

theorem quiet_setErrno (error : Nat) : QuietCall (setErrno error) :=
  fun _ => ⟨rfl, Nat.le_refl _⟩

theorem quiet_ask : QuietCall ask := fun _ => ⟨rfl, Nat.le_refl _⟩

theorem quiet_logged {effect : Process → Process}
    (quiet : ∀ w : World, w.Quiet (w.put (effect w.toProcess))) :
    QuietCall (logged effect) := by
  intro w
  simp only [logged, Ensures]
  cases w.os 0 with
  | done => exact (quiet w).trans ⟨rfl, Nat.le_refl _⟩
  | failed => exact ⟨rfl, Nat.le_refl _⟩

theorem quiet_free (ptr : Nat) : QuietCall (Utils.free ptr) :=
  quiet_logged fun _ => ⟨rfl, Nat.le_refl _⟩

theorem quiet_close (id : String) : QuietCall (Self.close id) :=
  quiet_logged fun _ => ⟨rfl, Nat.le_refl _⟩

/-- The log of the removed files after one more. -/
def Process.unlinkFile (id : String) (p : Process) : Process :=
  { p with unlinked := id :: p.unlinked }

/-- `__unlink` shows in its log alone. -/
theorem unlink_spec {id : String} {p : Process} {w w' : World}
    (before : (w.put p).Quiet w') {stop : Stop → World → Prop} :
    Ensures (Self.unlink id)
      (fun _ w'' => (w.put (p.unlinkFile id)).Quiet w'') stop w' := by
  have removed := before.lift (Process.unlinkFile id) (fun _ => rfl)
    (fun _ _ ordered => ordered)
  have quiet : QuietCall (logged fun p : Process =>
      { p with
        files := p.files.filter fun file =>
          !(file.dir == p.self && file.id == id) }) :=
    quiet_logged fun _ => ⟨rfl, Nat.le_refl _⟩
  exact Ensures.step rfl (quiet.ensures removed)

theorem quiet_destroyMutex (ptr : Nat) : QuietCall (Utils.destroyMutex ptr) :=
  fun _ => ⟨rfl, Nat.le_refl _⟩

theorem quiet_initMutex (ptr : Nat) : QuietCall (Utils.initMutex ptr) := by
  intro w
  unfold Utils.initMutex
  apply Ensures.step rfl
  cases w.os 0 with
  | done => exact ⟨rfl, Nat.le_refl _⟩
  | failed => exact ⟨rfl, Nat.le_refl _⟩

theorem quiet_linkOpen : QuietCall Self.linkOpen := by
  intro w
  unfold Self.linkOpen
  apply Ensures.step rfl
  cases w.os 0 with
  | done value id =>
      apply Ensures.step rfl
      split
      · exact ⟨rfl, Nat.le_refl _⟩
      · exact ⟨rfl, Nat.le_refl _⟩
  | failed => exact ⟨rfl, Nat.le_refl _⟩

end CoralApi
