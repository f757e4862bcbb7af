import Mathlib.Tactic.Basic

/-!
# Programs with state and early ends

Rules for `EStateM` programs.  `Ensures x post stop s` says how the program
`x` ends when it starts in `s`: with a value and a state in `post`, or early,
with a reason and a state in `stop`.  A proof follows the program: the rule of
its first part, then the rest from the state that this part leaves.
-/

namespace Program

universe u

variable {ε σ α β : Type u}

/-- How a program ends from a state. -/
def Ensures (x : EStateM ε σ α) (post : α → σ → Prop) (stop : ε → σ → Prop)
    (s : σ) : Prop :=
  match x s with
  | .ok value t => post value t
  | .error reason t => stop reason t

variable {x : EStateM ε σ α} {f : α → EStateM ε σ β}
variable {post : β → σ → Prop} {stop : ε → σ → Prop} {s t : σ}

theorem ensures_ok {post : α → σ → Prop} {value : α} (run : x s = .ok value t) :
    Ensures x post stop s ↔ post value t := by
  simp [Ensures, run]

theorem ensures_error {post : α → σ → Prop} {reason : ε}
    (run : x s = .error reason t) :
    Ensures x post stop s ↔ stop reason t := by
  simp [Ensures, run]

@[simp] theorem ensures_pure {post : α → σ → Prop} {value : α} :
    Ensures (pure value) post stop s ↔ post value s :=
  Iff.rfl

@[simp] theorem ensures_throw {post : α → σ → Prop} {reason : ε} :
    Ensures (throw reason) post stop s ↔ stop reason s :=
  Iff.rfl

@[simp] theorem ensures_get {post : σ → σ → Prop} :
    Ensures (get : EStateM ε σ σ) post stop s ↔ post s s :=
  Iff.rfl

instance {post : α → σ → Prop} [∀ value t, Decidable (post value t)]
    [∀ reason t, Decidable (stop reason t)] :
    Decidable (Ensures x post stop s) :=
  match run : x s with
  | .ok _ _ => decidable_of_iff _ (ensures_ok run).symm
  | .error _ _ => decidable_of_iff _ (ensures_error run).symm

/-- The rule of sequencing. -/
theorem ensures_bind :
    Ensures (x >>= f) post stop s ↔
      Ensures x (fun value => Ensures (f value) post stop) stop s := by
  simp only [Ensures, bind, EStateM.bind]
  cases x s with
  | ok value t => rfl
  | error reason t => rfl

/-- The rule of consequence. -/
theorem Ensures.mono {post post' : α → σ → Prop} {stop' : ε → σ → Prop}
    (ensures : Ensures x post stop s)
    (onReturn : ∀ value t, post value t → post' value t)
    (onStop : ∀ reason t, stop reason t → stop' reason t) :
    Ensures x post' stop' s := by
  unfold Ensures at ensures ⊢
  cases run : x s with
  | ok value t =>
      rw [run] at ensures
      exact onReturn value t ensures
  | error reason t =>
      rw [run] at ensures
      exact onStop reason t ensures

theorem Ensures.and {post post' : α → σ → Prop} {stop' : ε → σ → Prop}
    (left : Ensures x post stop s) (right : Ensures x post' stop' s) :
    Ensures x (fun value t => post value t ∧ post' value t)
      (fun reason t => stop reason t ∧ stop' reason t) s := by
  unfold Ensures at *
  cases run : x s with
  | ok value t =>
      rw [run] at left right
      exact ⟨left, right⟩
  | error reason t =>
      rw [run] at left right
      exact ⟨left, right⟩

/-- Sequencing after a known first part. -/
theorem Ensures.bind {middle : α → σ → Prop}
    (first : Ensures x middle stop s)
    (rest : ∀ value t, middle value t → Ensures (f value) post stop t) :
    Ensures (x >>= f) post stop s :=
  ensures_bind.mpr (first.mono rest fun _ _ => id)

/-- Sequencing after a first part whose run is known. -/
theorem Ensures.step {value : α} (run : x s = .ok value t)
    (rest : Ensures (f value) post stop t) :
    Ensures (x >>= f) post stop s :=
  ensures_bind.mpr ((ensures_ok run).mpr rest)

theorem Ensures.ends {post : α → σ → Prop} {reason : ε}
    (run : x s = .error reason t) (stopped : stop reason t) :
    Ensures x post stop s :=
  (ensures_error run).mpr stopped

/-- What is ensured holds of the run. -/
theorem Ensures.of_ok {post : α → σ → Prop} {value : α}
    (ensures : Ensures x post stop s) (run : x s = .ok value t) :
    post value t :=
  (ensures_ok run).mp ensures

theorem Ensures.of_error {post : α → σ → Prop} {reason : ε}
    (ensures : Ensures x post stop s) (run : x s = .error reason t) :
    stop reason t :=
  (ensures_error run).mp ensures

/-- The state in which a run ends. -/
def final : EStateM.Result ε σ α → σ
  | .ok _ t => t
  | .error _ t => t

/-- The value that a run returns, unless it ends early. -/
def returned : EStateM.Result ε σ α → Option α
  | .ok value _ => some value
  | .error _ _ => none

theorem eq_ok_final {value : α} (run : returned (x s) = some value) :
    x s = .ok value (final (x s)) := by
  cases ended : x s with
  | ok value' t =>
      rw [ended] at run
      cases run
      rfl
  | error reason t =>
      rw [ended] at run
      cases run

/-- The state is the one of the first part if the rest leaves it. -/
theorem final_bind_of (still : ∀ value t, final (f value t) = t) :
    final ((x >>= f) s) = final (x s) := by
  simp only [bind, EStateM.bind]
  cases x s with
  | ok value t => exact still value t
  | error reason t => rfl

/-- A program that never ends early returns. -/
theorem Ensures.exists_ok {post : α → σ → Prop}
    (ensures : Ensures x post (fun _ _ => False) s) :
    ∃ value t, x s = .ok value t ∧ post value t := by
  unfold Ensures at ensures
  cases run : x s with
  | ok value t =>
      rw [run] at ensures
      exact ⟨value, t, rfl, ensures⟩
  | error reason t =>
      rw [run] at ensures
      exact ensures.elim

/-- What every way to end says of the final state. -/
theorem Ensures.of_final {post : α → σ → Prop} (good : σ → Prop)
    (ensures : Ensures x post stop s)
    (onReturn : ∀ value t, post value t → good t)
    (onStop : ∀ reason t, stop reason t → good t) : good (final (x s)) := by
  unfold Ensures at ensures
  unfold final
  cases run : x s with
  | ok value t =>
      rw [run] at ensures
      exact onReturn value t ensures
  | error reason t =>
      rw [run] at ensures
      exact onStop reason t ensures

/-- Every way to end decides a specification alike. -/
theorem Ensures.iff {post post' : α → σ → Prop} {stop' : ε → σ → Prop}
    {condition : Prop} (ensures : Ensures x post stop s)
    (onReturn : ∀ value t, post value t → (post' value t ↔ condition))
    (onStop : ∀ reason t, stop reason t → (stop' reason t ↔ condition)) :
    Ensures x post' stop' s ↔ condition := by
  unfold Ensures at *
  cases run : x s with
  | ok value t =>
      rw [run] at ensures
      exact onReturn value t ensures
  | error reason t =>
      rw [run] at ensures
      exact onStop reason t ensures

section Relations

variable {R : σ → σ → Prop}

/-- Every run of the program moves the state along the relation. -/
def Moves (R : σ → σ → Prop) (x : EStateM ε σ α) : Prop :=
  ∀ s, Ensures x (fun _ t => R s t) (fun _ t => R s t) s

theorem moves_pure [Std.Refl R] (value : α) :
    Moves R (pure value : EStateM ε σ α) :=
  fun s => Std.Refl.refl s

theorem moves_throw [Std.Refl R] (reason : ε) :
    Moves R (throw reason : EStateM ε σ α) :=
  fun s => Std.Refl.refl s

theorem moves_get [Std.Refl R] : Moves R (get : EStateM ε σ σ) :=
  fun s => Std.Refl.refl s

theorem Moves.ensures [Trans R R R] (moves : Moves R x) (before : R s t) :
    Ensures x (fun _ t => R s t) (fun _ t => R s t) t :=
  (moves t).mono (fun _ _ after => Trans.trans before after)
    fun _ _ after => Trans.trans before after

/-- Sequencing after a part that moves along the relation. -/
theorem Moves.then [Trans R R R] (first : Moves R x) (before : R s t)
    (rest : ∀ value t, R s t → Ensures (f value) post stop t)
    (early : ∀ reason t, R s t → stop reason t) :
    Ensures (x >>= f) post stop t :=
  ensures_bind.mpr ((first.ensures before).mono rest early)

theorem Moves.bind [Trans R R R] (first : Moves R x)
    (rest : ∀ value, Moves R (f value)) : Moves R (x >>= f) := by
  intro s
  refine ensures_bind.mpr ((first s).mono ?_ fun _ _ => id)
  exact fun value t before => (rest value).ensures before

theorem Moves.mono {R' : σ → σ → Prop} (moves : Moves R x)
    (weaker : ∀ s t, R s t → R' s t) : Moves R' x :=
  fun s => (moves s).mono (fun _ => weaker s) fun _ => weaker s

end Relations

end Program
