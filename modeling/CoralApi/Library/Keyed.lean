import Mathlib.Data.List.Nodup
import Mathlib.Algebra.BigOperators.Group.List.Basic
import Mathlib.Algebra.Ring.Int.Defs

/-!
# Lists with distinct keys

A list whose members have distinct keys splits at each member, and an update
or a removal by key touches that member alone.
-/

namespace Keyed

variable {Item Key : Type*} [DecidableEq Key] {key : Item → Key}
  {items : List Item} {item other : Item}

theorem map_others {k : Key} (others : ∀ other ∈ items, key other ≠ k)
    (change : Item → Item) :
    items.map (fun other => if key other = k then change other else other) =
      items := by
  have same : ∀ other ∈ items,
      (if key other = k then change other else other) = other :=
    fun other inside => if_neg (others other inside)
  rw [List.map_congr_left same, List.map_id']

/-- An update by key changes one member, a removal by key drops it. -/
theorem exists_split (distinct : (items.map key).Nodup)
    (member : item ∈ items) :
    ∃ before after, items = before ++ item :: after ∧
      (∀ change : Item → Item,
        items.map (fun other =>
          if key other = key item then change other else other) =
            before ++ change item :: after) ∧
      items.filter (fun other => key other ≠ key item) = before ++ after := by
  obtain ⟨before, after, split⟩ := List.append_of_mem member
  rw [split, List.map_append, List.map_cons, List.nodup_middle,
    List.nodup_cons, ← List.map_append] at distinct
  have others : ∀ other ∈ before ++ after, key other ≠ key item := by
    intro other inside same
    apply distinct.1
    rw [← same]
    exact List.mem_map_of_mem inside
  have early : ∀ other ∈ before, key other ≠ key item := fun other inside =>
    others other (List.mem_append_left _ inside)
  have late : ∀ other ∈ after, key other ≠ key item := fun other inside =>
    others other (List.mem_append_right _ inside)
  refine ⟨before, after, split, ?_, ?_⟩
  · intro change
    rw [split, List.map_append, List.map_cons, if_pos rfl,
      map_others early, map_others late]
  · rw [split, List.filter_append, List.filter_cons_of_neg (by simp),
      ← List.filter_append, List.filter_eq_self]
    simpa using others

omit [DecidableEq Key] in
/-- Members with the same key are the same. -/
theorem eq_of_key (distinct : (items.map key).Nodup) (member : item ∈ items)
    (also : other ∈ items) (same : key item = key other) : item = other :=
  List.inj_on_of_nodup_map distinct member also same

omit [DecidableEq Key] in
/-- Members whose own keys meet are the same. -/
theorem eq_of_shared {keys : Item → List Key} {k : Key}
    (distinct : (items.flatMap keys).Nodup) (member : item ∈ items)
    (also : other ∈ items) (owned : k ∈ keys item) (shared : k ∈ keys other) :
    item = other := by
  obtain ⟨before, after, split⟩ := List.append_of_mem member
  rw [split] at distinct also
  have distinct : (keys item ++ (before ++ after).flatMap keys).Nodup := by
    apply distinct.perm
    simpa using (List.perm_middle (a := item)).flatMap_right keys
  rcases List.mem_cons.mp (List.perm_middle.mem_iff.mp also) with same | inside
  · exact same.symm
  · have elsewhere : k ∈ (before ++ after).flatMap keys :=
      List.mem_flatMap.mpr ⟨other, inside, shared⟩
    exact ((List.nodup_append.mp distinct).2.2 k owned k elsewhere rfl).elim

theorem find?_eq (distinct : (items.map key).Nodup) (member : item ∈ items) :
    items.find? (fun other => key other == key item) = some item := by
  cases found : items.find? (fun other => key other == key item) with
  | none => simpa using List.find?_eq_none.mp found item member
  | some other =>
      have same : key other = key item := by simpa using List.find?_some found
      rw [eq_of_key distinct (List.mem_of_find?_eq_some found) member same]

/-- An update by key moves a sum by what it moves the member. -/
theorem sum_update (distinct : (items.map key).Nodup) (member : item ∈ items)
    (change : Item → Item) (weight : Item → Int) :
    ((items.map fun other =>
      if key other = key item then change other else other).map weight).sum =
        (items.map weight).sum + (weight (change item) - weight item) := by
  obtain ⟨before, after, split, update, -⟩ := exists_split distinct member
  rw [update change, split]
  simp only [List.map_append, List.map_cons, List.sum_append, List.sum_cons]
  omega

end Keyed
