import Mathlib.Logic.Relation

/-!
# Runs of labelled transition systems

A run carries its trace: the label of every step with the state in which the
step was taken.  A condition on steps is then a condition on the members of
the trace, and the states that a run visits are those of its trace and its
end.
-/

namespace Transition

variable {State Label : Type*}

/-- `Run Step start trace finish`: the steps of `trace` lead from `start` to
`finish`. -/
inductive Run (Step : State → Label → State → Prop) :
    State → List (State × Label) → State → Prop where
  | nil (state : State) : Run Step state [] state
  | cons {start middle finish : State} {label : Label}
      {trace : List (State × Label)} :
      Step start label middle → Run Step middle trace finish →
      Run Step start ((start, label) :: trace) finish

/-- The states that a run visits. -/
def visited (trace : List (State × Label)) (finish : State) : List State :=
  trace.map Prod.fst ++ [finish]

theorem finish_mem_visited (trace : List (State × Label)) (finish : State) :
    finish ∈ visited trace finish := by
  simp [visited]

namespace Run

variable {Step : State → Label → State → Prop}
variable {start middle finish : State}
variable {trace first second : List (State × Label)}

theorem append (left : Run Step start first middle)
    (right : Run Step middle second finish) :
    Run Step start (first ++ second) finish := by
  induction left with
  | nil => exact right
  | cons step _ induction => exact .cons step (induction right)

theorem snoc {label : Label} (run : Run Step start trace middle)
    (step : Step middle label finish) :
    Run Step start (trace ++ [(middle, label)]) finish :=
  run.append (.cons step (.nil finish))

theorem of_append (run : Run Step start (first ++ second) finish) :
    ∃ middle, Run Step start first middle ∧ Run Step middle second finish := by
  induction first generalizing start with
  | nil => exact ⟨start, .nil start, run⟩
  | cons point first induction =>
      cases run with
      | cons step rest =>
          obtain ⟨middle, left, right⟩ := induction rest
          exact ⟨middle, .cons step left, right⟩

theorem of_cons {point : State × Label}
    (run : Run Step start (point :: trace) finish) :
    point.1 = start ∧
      ∃ middle, Step start point.2 middle ∧ Run Step middle trace finish := by
  cases run with
  | cons step rest => exact ⟨rfl, _, step, rest⟩

/-- Every step of the trace was taken, and its outcome was visited. -/
theorem step_of_mem (run : Run Step start trace finish)
    {state : State} {label : Label} (member : (state, label) ∈ trace) :
    ∃ next, Step state label next ∧ next ∈ visited trace finish := by
  induction run with
  | nil => cases member
  | @cons start middle finish label' trace step tail induction =>
      rcases List.mem_cons.mp member with here | later
      · cases here
        refine ⟨middle, step, ?_⟩
        cases tail with
        | nil => simp [visited]
        | cons => simp [visited]
      · obtain ⟨next, taken, seen⟩ := induction later
        exact ⟨next, taken, List.mem_cons_of_mem _ seen⟩

/-- The steps of a run that all meet a condition. -/
theorem restrict {condition : State → Label → Prop}
    (run : Run Step start trace finish)
    (met : ∀ point ∈ trace, condition point.1 point.2) :
    Run (fun state label next => condition state label ∧ Step state label next)
      start trace finish := by
  induction run with
  | nil state => exact .nil state
  | cons step _ induction =>
      exact .cons ⟨met _ List.mem_cons_self, step⟩
        (induction fun point inside => met point (List.mem_cons_of_mem _ inside))

/-- What every step keeps under a condition holds in every visited state of a
run whose steps meet the condition. -/
theorem invariant_under (inv : State → Prop)
    (condition : State → Label → Prop)
    (keeps : ∀ state label next, inv state → condition state label →
      Step state label next → inv next)
    (run : Run Step start trace finish) (initial : inv start)
    (met : ∀ point ∈ trace, condition point.1 point.2) :
    ∀ state ∈ visited trace finish, inv state := by
  induction run with
  | nil => simpa [visited] using initial
  | cons step _ induction =>
      intro state member
      rcases List.mem_cons.mp member with here | later
      · simpa [here] using initial
      · have next := keeps _ _ _ initial (met _ List.mem_cons_self) step
        exact induction next
          (fun point inside => met point (List.mem_cons_of_mem _ inside))
          state later

/-- What every step keeps holds in every visited state. -/
theorem invariant (inv : State → Prop)
    (keeps : ∀ state label next, inv state → Step state label next → inv next)
    (run : Run Step start trace finish) (initial : inv start) :
    ∀ state ∈ visited trace finish, inv state :=
  run.invariant_under inv (fun _ _ => True)
    (fun state label next before _ => keeps state label next before) initial
    fun _ _ => trivial

/-- Suppose that an invariant makes states good, that the steps that meet a
condition keep it, and that every other step from it leads to a bad state.
Then the runs that only visit good states are exactly those whose steps meet
the condition. -/
theorem visits_iff_of_breaks (inv good : State → Prop)
    (condition : State → Label → Prop) (sound : ∀ state, inv state → good state)
    (keeps : ∀ state label next, inv state → condition state label →
      Step state label next → inv next)
    (breaks : ∀ state label next, inv state → ¬condition state label →
      Step state label next → ¬good next)
    (run : Run Step start trace finish) (initial : inv start) :
    (∀ state ∈ visited trace finish, good state) ↔
      ∀ point ∈ trace, condition point.1 point.2 := by
  constructor
  · intro visits
    induction run with
    | nil => simp
    | @cons start middle finish label trace step tail induction =>
        have seen : middle ∈ visited trace finish := by
          cases tail with
          | nil => simp [visited]
          | cons => simp [visited]
        have met : condition start label :=
          Classical.byContradiction fun missed =>
            breaks _ _ _ initial missed step
              (visits middle (List.mem_cons_of_mem _ seen))
        intro point member
        rcases List.mem_cons.mp member with rfl | later
        · exact met
        · exact induction (keeps _ _ _ initial met step)
            (fun state inside => visits state (List.mem_cons_of_mem _ inside))
            point later
  · intro met state member
    exact sound state (run.invariant_under inv condition keeps initial met
      state member)

/-- Suppose that the steps that break `good` are exactly those that miss a
condition.  Then the runs that only visit good states are exactly those whose
steps meet the condition. -/
theorem visits_iff (inv good : State → Prop)
    (condition : State → Label → Prop)
    (keeps : ∀ state label next, inv state → Step state label next → inv next)
    (decides : ∀ state label next, inv state → good state →
      Step state label next → (good next ↔ condition state label))
    (run : Run Step start trace finish) (initial : inv start)
    (initialGood : good start) :
    (∀ state ∈ visited trace finish, good state) ↔
      ∀ point ∈ trace, condition point.1 point.2 := by
  refine run.visits_iff_of_breaks (fun state => inv state ∧ good state) good
    condition (fun _ => And.right) ?_ ?_ ⟨initial, initialGood⟩
  · rintro state label next ⟨before, fine⟩ met step
    exact ⟨keeps _ _ _ before step, (decides _ _ _ before fine step).mpr met⟩
  · rintro state label next ⟨before, fine⟩ missed step
    exact mt (decides _ _ _ before fine step).mp missed

/-- What comes about at exactly the steps that meet a condition has come about
in a run exactly when one of its steps meets the condition. -/
theorem reached_iff (inv reached : State → Prop)
    (condition : State → Label → Prop)
    (keeps : ∀ state label next, inv state → Step state label next → inv next)
    (decides : ∀ state label next, inv state → Step state label next →
      (reached next ↔ reached state ∨ condition state label))
    (run : Run Step start trace finish) (initial : inv start) :
    reached finish ↔
      reached start ∨ ∃ point ∈ trace, condition point.1 point.2 := by
  induction run with
  | nil => simp
  | cons step _ induction =>
      rw [induction (keeps _ _ _ initial step), decides _ _ _ initial step]
      simp [or_assoc]

/-- Suppose that every step acts on those parts of the states that are good
behind it, and makes no part good.  Then the actions of a run lead to the parts
that are good at its end. -/
theorem follows_at {Index Value : Type*} (inv : State → Prop)
    (condition : State → Label → Prop) (good : State → Index → Prop)
    (view : State → Index → Value)
    (act : State → Label → Index → Value → Value)
    (keeps : ∀ state label next, inv state → condition state label →
      Step state label next → inv next)
    (narrows : ∀ state label next index, inv state → Step state label next →
      good next index → good state index)
    (acts : ∀ state label next index, inv state → condition state label →
      Step state label next → good next index →
        view next index = act state label index (view state index))
    (run : Run Step start trace finish) (initial : inv start)
    (met : ∀ point ∈ trace, condition point.1 point.2) (index : Index)
    (last : good finish index) :
    good start index ∧ view finish index = trace.foldl
      (fun seen point => act point.1 point.2 index seen) (view start index) := by
  induction run with
  | nil => exact ⟨last, rfl⟩
  | cons step _ induction =>
      have now := met _ List.mem_cons_self
      obtain ⟨next, seen⟩ := induction (keeps _ _ _ initial now step)
        (fun point inside => met point (List.mem_cons_of_mem _ inside)) last
      refine ⟨narrows _ _ _ _ initial step next, ?_⟩
      rw [List.foldl_cons, ← acts _ _ _ _ initial now step next]
      exact seen

/-- Suppose that every step acts on an abstraction of the states.  Then the
actions of a run lead from the abstraction of its start to that of its end. -/
theorem follows {Abstract : Type*} (inv : State → Prop)
    (condition : State → Label → Prop) (abstract : State → Abstract)
    (act : State → Label → Abstract → Abstract)
    (keeps : ∀ state label next, inv state → condition state label →
      Step state label next → inv next)
    (acts : ∀ state label next, inv state → condition state label →
      Step state label next →
        abstract next = act state label (abstract state))
    (run : Run Step start trace finish) (initial : inv start)
    (met : ∀ point ∈ trace, condition point.1 point.2) :
    abstract finish = trace.foldl (fun seen point => act point.1 point.2 seen)
      (abstract start) :=
  (run.follows_at inv condition (fun _ (_ : Unit) => True)
    (fun state _ => abstract state) (fun state label _ => act state label)
    keeps (fun _ _ _ _ _ _ => id)
    (fun state label next _ before now step _ =>
      acts state label next before now step) initial met () trivial).2

/-- Where every step lowers a rank, the rank bounds the runs. -/
theorem length_le_rank (inv : State → Prop) (condition : State → Label → Prop)
    (rank : State → Nat)
    (keeps : ∀ state label next, inv state → condition state label →
      Step state label next → inv next)
    (lowers : ∀ state label next, inv state → condition state label →
      Step state label next → rank next < rank state)
    (run : Run Step start trace finish) (initial : inv start)
    (met : ∀ point ∈ trace, condition point.1 point.2) :
    trace.length + rank finish ≤ rank start := by
  induction run with
  | nil => simp
  | cons step _ induction =>
      have now := met _ List.mem_cons_self
      have lower := lowers _ _ _ initial now step
      have rest := induction (keeps _ _ _ initial now step)
        fun point inside => met point (List.mem_cons_of_mem _ inside)
      rw [List.length_cons]
      omega

/-- Suppose that another system takes a step for every step.  Then it takes a
run for every run. -/
theorem simulated {State' Label' : Type*} {Step' : State' → Label' → State' → Prop}
    (inv : State → Prop) (view : State → State')
    (rename : State → Label → Label')
    (keeps : ∀ state label next, inv state → Step state label next → inv next)
    (steps : ∀ state label next, inv state → Step state label next →
      Step' (view state) (rename state label) (view next))
    (run : Run Step start trace finish) (initial : inv start) :
    Run Step' (view start)
      (trace.map fun point => (view point.1, rename point.1 point.2))
      (view finish) := by
  induction run with
  | nil state => exact .nil (view state)
  | cons step _ induction =>
      exact .cons (steps _ _ _ initial step)
        (induction (keeps _ _ _ initial step))

end Run

/-- A run whose steps meet a condition leads there. -/
def Reaches (Step : State → Label → State → Prop)
    (condition : State → Label → Prop) (start finish : State) : Prop :=
  ∃ trace, Run Step start trace finish ∧
    ∀ point ∈ trace, condition point.1 point.2

namespace Reaches

variable {Step : State → Label → State → Prop}
variable {condition : State → Label → Prop} {start middle finish : State}

theorem refl (state : State) : Reaches Step condition state state :=
  ⟨[], .nil state, by simp⟩

theorem snoc {label : Label} (reaches : Reaches Step condition start middle)
    (step : Step middle label finish) (met : condition middle label) :
    Reaches Step condition start finish := by
  obtain ⟨trace, run, before⟩ := reaches
  refine ⟨_, run.snoc step, ?_⟩
  intro point member
  rcases List.mem_append.mp member with early | last
  · exact before point early
  · rw [List.mem_singleton.mp last]
    exact met

end Reaches

end Transition
