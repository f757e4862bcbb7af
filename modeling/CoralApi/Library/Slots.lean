import Mathlib.Data.List.Basic

/-!
# Tables of slots

A table grows by empty slots up to the index that is written.  A write can be
cut short: then it may have added some of the slots, and its own slot may hold
something else.  After any history of writes, a slot holds the last value
written to it, or what the writes cut short after it can leave.
-/

namespace Slots

section Tables

variable {Slot Slot' : Type*} {empty : Slot} {partly : Slot → Prop}
  {slots torn : List Slot} {index other turns : Nat}

/-- Empty slots up to the index. -/
def pad (empty : Slot) (index : Nat) (slots : List Slot) : List Slot :=
  slots ++ List.replicate (index + 1 - slots.length) empty

/-- What a write to the slot of an index can leave when it is cut short. -/
structure Torn (empty : Slot) (partly : Slot → Prop) (index : Nat)
    (slots torn : List Slot) : Prop where
  longer : slots.length ≤ torn.length
  within : torn.length ≤ max slots.length (index + 1)
  kept : ∀ other slot, other ≠ index → torn[other]? = some slot →
    slot = slots[other]?.getD empty
  here : ∀ slot, torn[index]? = some slot →
    partly slot ∨ slot = slots[index]?.getD empty

theorem length_pad :
    (pad empty index slots).length = max slots.length (index + 1) := by
  simp only [pad, List.length_append, List.length_replicate]
  omega

theorem getElem?_append_replicate
    (bounded : other < slots.length + turns) :
    (slots ++ List.replicate turns empty)[other]? =
      some (slots[other]?.getD empty) := by
  by_cases old : other < slots.length
  · rw [List.getElem?_append_left old, List.getElem?_eq_getElem old]
    rfl
  · have fresh : other - slots.length < turns := by omega
    rw [List.getElem?_append_right (Nat.le_of_not_lt old),
      List.getElem?_replicate_of_lt fresh,
      List.getElem?_eq_none (Nat.le_of_not_lt old)]
    rfl

theorem getElem?_pad (bounded : other < max slots.length (index + 1)) :
    (pad empty index slots)[other]? = some (slots[other]?.getD empty) :=
  getElem?_append_replicate (by omega)

/-- Two writes that agree on the slot leave the same table. -/
theorem modify_congr {write write' : Slot → Slot}
    (same : ∀ slot, slots[index]? = some slot → write slot = write' slot) :
    slots.modify index write = slots.modify index write' := by
  apply List.ext_getElem?
  intro other
  rw [List.getElem?_modify, List.getElem?_modify]
  by_cases here : index = other
  · subst here
    cases slot : slots[index]? with
    | none => rfl
    | some value => simp [same value slot]
  · simp [here]

/-- Some of the empty slots. -/
theorem torn_append (few : turns ≤ index + 1 - slots.length) :
    Torn empty partly index slots (slots ++ List.replicate turns empty) := by
  have length : (slots ++ List.replicate turns empty).length =
      slots.length + turns := by simp
  have same : ∀ (other : Nat) (slot : Slot),
      (slots ++ List.replicate turns empty)[other]? = some slot →
        slot = slots[other]?.getD empty := by
    intro other slot found
    have bounded := (List.getElem?_eq_some_iff.mp found).1
    rw [length] at bounded
    exact (Option.some.inj
      ((getElem?_append_replicate bounded).symm.trans found)).symm
  constructor
  · omega
  · omega
  · exact fun other slot _ => same other slot
  · exact fun slot found => .inr (same index slot found)

theorem torn_pad : Torn empty partly index slots (pad empty index slots) :=
  torn_append (Nat.le_refl _)

theorem torn_refl : Torn empty partly index slots slots := by
  have whole := @torn_append _ empty partly slots index 0 (Nat.zero_le _)
  rwa [List.replicate_zero, List.append_nil] at whole

/-- The slot of the index changes to what a cut may leave there. -/
theorem Torn.modify (leaves : Torn empty partly index slots torn)
    {update : Slot → Slot} (cut : ∀ slot, partly (update slot) ∨
      update slot = slot) :
    Torn empty partly index slots (torn.modify index update) := by
  constructor
  · rw [List.length_modify]
    exact leaves.longer
  · rw [List.length_modify]
    exact leaves.within
  · intro other slot different found
    rw [List.getElem?_modify_ne _ _ (Ne.symm different)] at found
    exact leaves.kept other slot different found
  · intro slot found
    rw [List.getElem?_modify_eq, Option.map_eq_map,
      Option.map_eq_some_iff] at found
    obtain ⟨old, there, rfl⟩ := found
    rcases cut old with left | same
    · exact .inl left
    · rw [same]
      exact leaves.here old there

theorem Torn.map {partly' : Slot' → Prop}
    (leaves : Torn empty partly index slots torn) (view : Slot → Slot')
    (keeps : ∀ slot, partly slot → partly' (view slot)) :
    Torn (view empty) partly' index (slots.map view) (torn.map view) := by
  have old : ∀ other : Nat, (slots.map view)[other]?.getD (view empty) =
      view (slots[other]?.getD empty) := by
    intro other
    rw [List.getElem?_map]
    cases slots[other]? with
    | none => rfl
    | some slot => rfl
  constructor
  · rw [List.length_map, List.length_map]
    exact leaves.longer
  · rw [List.length_map, List.length_map]
    exact leaves.within
  · intro other slot different found
    rw [List.getElem?_map, Option.map_eq_some_iff] at found
    obtain ⟨before, there, rfl⟩ := found
    rw [old, ← leaves.kept other before different there]
  · intro slot found
    rw [List.getElem?_map, Option.map_eq_some_iff] at found
    obtain ⟨before, there, rfl⟩ := found
    rw [old]
    rcases leaves.here before there with left | same
    · exact .inl (keeps before left)
    · exact .inr (congrArg view same)

end Tables

section Histories

variable {Value : Type*} {value : Value} {index other : Nat}

/-- The first index that no write reaches. -/
def bound : List (Nat × Value) → Nat
  | [] => 0
  | (index, _) :: writes => max (bound writes) (index + 1)

/-- The last value written to a slot. -/
def last? (index : Nat) (writes : List (Nat × Value)) : Option Value :=
  (writes.find? fun write => write.1 == index).map Prod.snd

theorem last?_cons {writes : List (Nat × Value)} :
    last? other ((index, value) :: writes) =
      if other = index then some value else last? other writes := by
  by_cases here : other = index
  · simp [last?, here]
  · simp [last?, here, Ne.symm here]

/-- The writes that were not cut short. -/
def stored : List (Nat × Option Value) → List (Nat × Value)
  | [] => []
  | (index, some value) :: writes => (index, value) :: stored writes
  | (_, none) :: writes => stored writes

/-- What a slot can hold after some writes, the last one first.  `none` is a
write that was cut short. -/
def Holds (partly : Option Value → Prop) (index : Nat) :
    List (Nat × Option Value) → Option Value → Prop
  | [], held => held = none
  | (other, some value) :: writes, held =>
      if other = index then held = some value
      else Holds partly index writes held
  | (other, none) :: writes, held =>
      other = index ∧ partly held ∨ Holds partly index writes held

/-- A table that these writes can leave. -/
structure Fits (partly : Option Value → Prop)
    (writes : List (Nat × Option Value)) (slots : List (Option Value)) :
    Prop where
  lower : bound (stored writes) ≤ slots.length
  upper : slots.length ≤ bound writes
  holds : ∀ index held, slots[index]? = some held →
    Holds partly index writes held

variable {partly : Option Value → Prop} {writes : List (Nat × Option Value)}
  {slots torn : List (Option Value)} {held : Option Value}

theorem fits_nil : Fits partly [] [] :=
  ⟨Nat.le_refl 0, Nat.le_refl 0, fun _ _ found => nomatch found⟩

/-- A slot that no whole write reaches may be empty. -/
theorem holds_none (beyond : bound (stored writes) ≤ index) :
    Holds partly index writes none := by
  induction writes with
  | nil => rfl
  | cons first writes induction =>
      obtain ⟨other, value⟩ := first
      cases value with
      | none => exact .inr (induction beyond)
      | some value =>
          rw [stored, bound] at beyond
          rw [Holds, if_neg (by omega)]
          exact induction (by omega)

/-- An old slot, or a new one. -/
theorem Fits.old (fits : Fits partly writes slots) (index : Nat) :
    Holds partly index writes (slots[index]?.getD none) := by
  cases found : slots[index]? with
  | some held => exact fits.holds index held found
  | none =>
      apply holds_none
      exact Nat.le_trans fits.lower (List.getElem?_eq_none_iff.mp found)

/-- A whole write. -/
theorem Fits.write (fits : Fits partly writes slots) :
    Fits partly ((index, some value) :: writes)
      ((pad none index slots).modify index fun _ => some value) := by
  have length : ((pad none index slots).modify index
      fun _ => some value).length = max slots.length (index + 1) := by
    rw [List.length_modify, length_pad]
  constructor
  · have lower := fits.lower
    rw [length, stored, bound]
    omega
  · have upper := fits.upper
    rw [length, bound]
    omega
  · intro other held found
    have bounded := (List.getElem?_eq_some_iff.mp found).1
    rw [length] at bounded
    rw [List.getElem?_modify, getElem?_pad bounded, Option.map_eq_map,
      Option.map_some, Option.some.injEq] at found
    rw [Holds]
    by_cases here : index = other
    · rw [if_pos here] at found ⊢
      exact found.symm
    · rw [if_neg here] at found ⊢
      rw [← found]
      exact fits.old other

/-- A write that is cut short. -/
theorem Fits.tear (fits : Fits partly writes slots)
    (leaves : Torn none partly index slots torn) :
    Fits partly ((index, none) :: writes) torn := by
  constructor
  · exact Nat.le_trans fits.lower leaves.longer
  · have upper := fits.upper
    have within := leaves.within
    rw [bound]
    omega
  · intro other held found
    rw [Holds]
    by_cases here : other = index
    · subst here
      rcases leaves.here held found with cut | rfl
      · exact .inl ⟨rfl, cut⟩
      · exact .inr (fits.old other)
    · rw [leaves.kept other held here found]
      exact .inr (fits.old other)

theorem bound_stored (whole : ∀ write ∈ writes, write.2 ≠ none) :
    bound (stored writes) = bound writes := by
  induction writes with
  | nil => rfl
  | cons first writes induction =>
      obtain ⟨other, value⟩ := first
      cases value with
      | none => exact absurd rfl (whole _ List.mem_cons_self)
      | some value =>
          rw [stored, bound, bound, induction fun write member =>
            whole write (List.mem_cons_of_mem _ member)]

theorem Holds.eq_last? (holds : Holds partly index writes held)
    (whole : ∀ write ∈ writes, write.2 ≠ none) :
    held = last? index (stored writes) := by
  induction writes with
  | nil => exact holds
  | cons first writes induction =>
      obtain ⟨other, value⟩ := first
      cases value with
      | none => exact absurd rfl (whole _ List.mem_cons_self)
      | some value =>
          rw [stored, last?_cons]
          rw [Holds] at holds
          by_cases here : other = index
          · rw [if_pos here] at holds
            rw [if_pos here.symm]
            exact holds
          · rw [if_neg here] at holds
            rw [if_neg (Ne.symm here)]
            exact induction holds fun write member =>
              whole write (List.mem_cons_of_mem _ member)

end Histories

end Slots
