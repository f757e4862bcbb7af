import CoralApi.Library.Loop
import CoralApi.Rpc

/-!
# The loop that adds empty slots

`argument_size()` counts modulo `2 ^ 32`, and so does the index.  The guard of
`while ((unsigned) argument_size() <= index)` fails at the size behind the
index, if there is one.
-/

namespace CoralApi

/-- `(unsigned) __arguments->argument_size()` -/
def argumentSize (arguments : List Argument) : Nat :=
  arguments.length % 2 ^ 32

/-- One turn of the loop of `inaccel_request_arg_array` and of
`inaccel_request_arg_scalar`. -/
def padTurn (index : UInt32) (arguments : List Argument) :
    Option (List Argument) :=
  if argumentSize arguments ≤ index.toNat then some (arguments ++ [.empty])
  else none

section Padding

variable {index : UInt32} {arguments next finish : List Argument}

/-- The size counts on, unless it wraps. -/
theorem argumentSize_append (fits : argumentSize arguments + 1 < 2 ^ 32) :
    argumentSize (arguments ++ [.empty]) = argumentSize arguments + 1 := by
  unfold argumentSize at *
  rw [List.length_append, List.length_singleton]
  omega

theorem padTurn_eq_some : padTurn index arguments = some next ↔
    argumentSize arguments ≤ index.toNat ∧ next = arguments ++ [.empty] := by
  unfold padTurn
  split
  · rename_i below
    simp [below, eq_comm]
  · rename_i above
    simp [above]

/-- Where the loop ends, the slot of the index is there. -/
theorem padded (ends : Loop.Ends (padTurn index) arguments finish) :
    index.toNat < argumentSize finish := by
  have exited := ends.exited
  unfold padTurn at exited
  split at exited
  · cases exited
  · rename_i above
    exact Nat.lt_of_not_le above

/-- Below the last index, the distance to the index shrinks. -/
theorem pad_ends (below : index.toNat + 1 < 2 ^ 32) :
    ∃ finish, Loop.Ends (padTurn index) arguments finish := by
  refine Loop.ends_of_measure (fun _ => True)
    (fun arguments => index.toNat + 1 - argumentSize arguments) ?_ trivial
  intro arguments next _ step
  obtain ⟨reached, rfl⟩ := padTurn_eq_some.mp step
  refine ⟨trivial, ?_⟩
  rw [argumentSize_append (by omega)]
  omega

/-- No size is above the last index. -/
theorem pad_not_ends (last : index.toNat + 1 = 2 ^ 32) :
    ¬Loop.Ends (padTurn index) arguments finish := by
  apply Loop.not_ends (fun _ => True) _ trivial
  intro arguments _
  refine ⟨arguments ++ [.empty], padTurn_eq_some.mpr ⟨?_, rfl⟩, trivial⟩
  have bound : argumentSize arguments < 2 ^ 32 := Nat.mod_lt _ (by decide)
  omega

/-- The loop ends, behind the index, for every index but the last one. -/
theorem pad_ends_iff (index : UInt32) (arguments : List Argument) :
    (∃ finish, Loop.Ends (padTurn index) arguments finish ∧
      index.toNat < argumentSize finish) ↔ index.toNat + 1 < 2 ^ 32 := by
  constructor
  · rintro ⟨finish, ends, -⟩
    by_contra above
    have bound := index.toNat_lt
    exact pad_not_ends (by omega) ends
  · intro below
    obtain ⟨finish, ends⟩ := @pad_ends index arguments below
    exact ⟨finish, ends, padded ends⟩

/-- The index `-1` of a binding. -/
theorem not_pad_ends_last : ¬∀ (index : UInt32) (arguments : List Argument),
    ∃ finish, Loop.Ends (padTurn index) arguments finish ∧
      index.toNat < argumentSize finish := by
  intro claim
  obtain ⟨finish, ends, -⟩ := claim 0xFFFFFFFF []
  exact pad_not_ends rfl ends

/-- While the size is a size of the list, the loop is `padArguments`. -/
theorem pad_ends_padArguments (below : index.toNat + 1 < 2 ^ 32)
    (small : arguments.length < 2 ^ 32) :
    Loop.Ends (padTurn index) arguments
      (padArguments index.toNat arguments) := by
  induction more : index.toNat + 1 - arguments.length
    generalizing arguments with
  | zero =>
      have done : padArguments index.toNat arguments = arguments := by
        simp [padArguments, more]
      rw [done]
      apply Loop.Ends.exit
      unfold padTurn argumentSize
      rw [if_neg (by rw [Nat.mod_eq_of_lt small]; omega)]
  | succ more induction =>
      have rest := @induction (arguments ++ [.empty])
        (by rw [List.length_append, List.length_singleton]; omega)
        (by rw [List.length_append, List.length_singleton]; omega)
      have same : padArguments index.toNat (arguments ++ [.empty]) =
          padArguments index.toNat arguments := by
        simp only [padArguments, List.length_append, List.length_singleton,
          List.append_assoc]
        rw [show index.toNat + 1 - arguments.length =
          index.toNat + 1 - (arguments.length + 1) + 1 by omega,
          List.replicate_succ]
        rfl
      rw [same] at rest
      refine .turn (padTurn_eq_some.mpr ⟨?_, rfl⟩) rest
      rw [argumentSize, Nat.mod_eq_of_lt small]
      omega

end Padding

end CoralApi
