import Mathlib.Data.List.Basic

/-!
# Unambiguous texts

A text is read back from its parts: a stretch of one kind of letters ends
where another kind follows, a list of items ends where no item can follow, and
a name ends at the mark behind which the rest of the text can begin.
-/

namespace Text

variable {Letter Item : Type*}

section Stretches

variable {kind : Letter → Prop} {left right rest rest' : List Letter}

/-- The text does not go on with a letter of this kind. -/
def Stops (kind : Letter → Prop) (rest : List Letter) : Prop :=
  ∀ letter ∈ rest.head?, ¬kind letter

/-- A stretch of one kind of letters ends where another kind follows. -/
theorem stretch_unique (all : ∀ letter ∈ left, kind letter)
    (all' : ∀ letter ∈ right, kind letter) (stops : Stops kind rest)
    (stops' : Stops kind rest') (same : left ++ rest = right ++ rest') :
    left = right ∧ rest = rest' := by
  induction left generalizing right with
  | nil =>
      cases right with
      | nil => exact ⟨rfl, same⟩
      | cons letter right =>
          subst same
          exact absurd (all' letter List.mem_cons_self) (stops letter rfl)
  | cons letter left induction =>
      cases right with
      | nil =>
          subst same
          exact absurd (all letter List.mem_cons_self) (stops' letter rfl)
      | cons letter' right =>
          obtain ⟨head, tail⟩ := List.cons.inj same
          obtain ⟨equal, ends⟩ := induction
            (fun letter inside => all letter (List.mem_cons_of_mem _ inside))
            (fun letter inside => all' letter (List.mem_cons_of_mem _ inside))
            tail
          exact ⟨congrArg₂ List.cons head equal, ends⟩

end Stretches

section Items

variable {text : Item → List Letter} {items others : List Item}

/-- Items that are read back one by one make a list that is read back. -/
theorem items_unique (valid : Item → Prop) (follows : List Letter → Prop)
    (nonempty : ∀ item, text item ≠ [])
    (ends : follows []) (goes : ∀ item rest, follows (text item ++ rest))
    (unique : ∀ item other rest rest', valid item → valid other →
      follows rest → follows rest' → text item ++ rest = text other ++ rest' →
        item = other ∧ rest = rest')
    (all : ∀ item ∈ items, valid item) (all' : ∀ item ∈ others, valid item)
    (same : items.flatMap text = others.flatMap text) : items = others := by
  have follow : ∀ items : List Item, follows (items.flatMap text) := by
    intro items
    cases items with
    | nil => exact ends
    | cons item items =>
        rw [List.flatMap_cons]
        exact goes item _
  induction items generalizing others with
  | nil =>
      cases others with
      | nil => rfl
      | cons other others =>
          rw [List.flatMap_nil, List.flatMap_cons] at same
          exact absurd (List.append_eq_nil_iff.mp same.symm).1 (nonempty other)
  | cons item items induction =>
      cases others with
      | nil =>
          rw [List.flatMap_nil, List.flatMap_cons] at same
          exact absurd (List.append_eq_nil_iff.mp same).1 (nonempty item)
      | cons other others =>
          rw [List.flatMap_cons, List.flatMap_cons] at same
          obtain ⟨equal, rest⟩ := unique item other _ _
            (all item List.mem_cons_self) (all' other List.mem_cons_self)
            (follow items) (follow others) same
          exact congrArg₂ List.cons equal (induction
            (fun item inside => all item (List.mem_cons_of_mem _ inside))
            (fun item inside => all' item (List.mem_cons_of_mem _ inside))
            rest)

end Items

section Marks

variable {mark : Letter} {opens : List Letter → Prop}
  {first second name name' body body' : List Letter}

/-- Behind no mark of the text, whatever follows it, can the body begin. -/
def Shields (mark : Letter) (opens : List Letter → Prop)
    (text : List Letter) : Prop :=
  ∀ before after rest, text = before ++ mark :: after →
    ¬opens (after ++ rest)

theorem Shields.of_not_mem (absent : mark ∉ first) :
    Shields mark opens first := by
  intro before after rest split
  exact absurd (by simp [split]) absent

theorem Shields.of_mark (absent : mark ∉ first)
    (closed : ∀ rest, ¬opens (first ++ rest)) :
    Shields mark opens (mark :: first) := by
  intro before after rest split
  cases before with
  | nil =>
      obtain ⟨-, rfl⟩ := List.cons.inj split
      exact closed rest
  | cons letter before =>
      exact absurd (by simp [(List.cons.inj split).2]) absent

theorem Shields.append (left : Shields mark opens first)
    (right : Shields mark opens second) :
    Shields mark opens (first ++ second) := by
  intro before after rest split
  rcases List.append_eq_append_iff.mp split with
    ⟨middle, -, inside⟩ | ⟨middle, inside, tail⟩
  · exact right middle after rest inside
  · cases middle with
    | nil => exact right [] after rest tail.symm
    | cons letter middle =>
        obtain ⟨rfl, rfl⟩ := List.cons.inj tail
        change ¬opens (middle ++ second ++ rest)
        rw [List.append_assoc]
        exact left before middle _ inside

theorem Shields.flatMap {text : Item → List Letter} {items : List Item}
    (all : ∀ item ∈ items, Shields mark opens (text item)) :
    Shields mark opens (items.flatMap text) := by
  induction items with
  | nil => exact .of_not_mem (by simp)
  | cons item items induction =>
      rw [List.flatMap_cons]
      exact (all item List.mem_cons_self).append (induction
        fun item inside => all item (List.mem_cons_of_mem _ inside))

private theorem not_longer (shields : Shields mark opens body)
    (opened : opens body') {letter : Letter} {middle : List Letter}
    (same : mark :: body = letter :: middle ++ mark :: body') : False := by
  obtain ⟨-, split⟩ := List.cons.inj same
  exact shields middle body' [] split (by rwa [List.append_nil])

/-- A name may contain the mark when the bodies shield it. -/
theorem name_unique (shields : Shields mark opens body)
    (shields' : Shields mark opens body') (opened : opens body)
    (opened' : opens body')
    (same : name ++ mark :: body = name' ++ mark :: body') :
    name = name' ∧ body = body' := by
  rcases List.append_eq_append_iff.mp same with
    ⟨middle, longer, tail⟩ | ⟨middle, longer, tail⟩
  · cases middle with
    | nil =>
        rw [List.append_nil] at longer
        exact ⟨longer.symm, (List.cons.inj tail).2⟩
    | cons letter middle => exact (not_longer shields opened' tail).elim
  · cases middle with
    | nil =>
        rw [List.append_nil] at longer
        exact ⟨longer, (List.cons.inj tail).2.symm⟩
    | cons letter middle => exact (not_longer shields' opened tail).elim

end Marks

end Text
