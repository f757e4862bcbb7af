import CoralApi.Library.Loop
import CoralApi.Library.Program
import CoralApi.Library.Transition
import CoralApi.Utils
import Mathlib.Data.Prod.Lex

/-!
# The arrays of `collection.c`

An array of pointers ends at its first NULL, and nothing says how many slots
are allocated.  `__unset` closes the gap in place: its inner loop shifts the
rest of the array, the terminator included, and its outer loop then looks at
the same slot again.
-/

namespace CoralApi

open Program Transition

namespace Collection

/-- A `void **`: NULL, or the slots that are allocated behind it.  A pointer
is a number, and NULL is 0. -/
abbrev Slots := Option (List Nat)

/-- Where a loop over an array stands.  Positions are counted from
`*collection`. -/
inductive Point where
  /-- at the test of `*__collection` -/
  | scan (position : Nat)
  /-- at the body of the inner loop -/
  | shift (position slot : Nat)
  | done (position : Nat)
  /-- an access outside of the allocated slots -/
  | outside

/-- The slots that the next turn reads or writes. -/
def Point.touches : Point → List Nat
  | .scan position => [position]
  | .shift _ slot => [slot, slot + 1]
  | .done _ => []
  | .outside => []

structure Walk where
  slots : List Nat
  point : Point

/-- The loop of `__set` that counts the items. -/
def countTurn (walk : Walk) : Option Walk :=
  match walk.point with
  | .scan position =>
      match walk.slots[position]? with
      | none => some { walk with point := .outside }
      | some value =>
          if value = 0 then some { walk with point := .done position }
          else some { walk with point := .scan (position + 1) }
  | _ => none

/-- The loops of `__unset`: a look at one slot, or one shift. -/
def unsetTurn (item : Nat) (walk : Walk) : Option Walk :=
  match walk.point with
  | .scan position =>
      match walk.slots[position]? with
      | none => some { walk with point := .outside }
      | some value =>
          if value = 0 then some { walk with point := .done position }
          else if value = item then
            some { walk with point := .shift position position }
          else some { walk with point := .scan (position + 1) }
  | .shift position slot =>
      match walk.slots[slot + 1]? with
      | none => some { walk with point := .outside }
      | some value =>
          let slots := walk.slots.set slot value
          -- `while (*shift++)` tests the slot that was just written
          if value = 0 then some ⟨slots, .scan position⟩
          else some ⟨slots, .shift position (slot + 1)⟩
  | _ => none

/-- `realloc`, where the reply says whether it succeeds and what new slots
hold.  No object is longer than `PTRDIFF_MAX`. -/
def realloc (collection : Slots) (bytes : Nat) (reply : Option (Nat → Nat)) :
    Slots :=
  match reply with
  | none => none
  | some stale =>
      if bytes < 2 ^ 63 then
        some ((List.range (bytes / 8)).map fun index =>
          ((collection.getD [])[index]?).getD (stale index))
      else none

/-- A write to a slot, if it is allocated. -/
def store (index value : Nat) (slots : List Nat) : Slots :=
  if index < slots.length then some (slots.set index value) else none

/-- `__set` behind its loop. -/
def set (collection : Slots) (size item : Nat) (reply : Option (Nat → Nat)) :
    Option (Int × Slots) :=
  match realloc collection ((size + 2) * 8 % wordSize) reply with
  | none => some (-1, collection)
  | some slots => do
      let slots ← store size item slots
      let slots ← store (size + 1) 0 slots
      return (0, some slots)

/-- The loop of `__set` counts so many items. -/
def Counts (collection : Slots) (size : Nat) : Prop :=
  match collection with
  | none => size = 0
  | some slots => ∃ walk : Walk, Loop.Ends countTurn ⟨slots, .scan 0⟩ walk ∧
      walk.point = .done size

/-- The calls, each with its result. -/
inductive Op where
  | set (item : Nat) (result : Int)
  | unset (item : Nat)
  | clear

/-- A call that returns. -/
inductive Step (collection : Slots) : Op → Slots → Prop where
  | set {item size : Nat} {reply : Option (Nat → Nat)} {result : Int}
      {next : Slots} (counts : Counts collection size)
      (call : Collection.set collection size item reply =
        some (result, next)) : Step collection (.set item result) next
  | unset {item position : Nat} {slots : List Nat} {walk : Walk}
      (given : collection = some slots)
      (ends : Loop.Ends (unsetTurn item) ⟨slots, .scan 0⟩ walk)
      (done : walk.point = .done position) :
      Step collection (.unset item) (some walk.slots)
  | absent {item : Nat} (null : collection = none) :
      Step collection (.unset item) none
  | clear : Step collection .clear none

/-- The items that are added are not NULL. -/
def Op.Proper : Op → Prop
  | .set item _ => item ≠ 0
  | .unset _ => True
  | .clear => True

/-- What a call means for the list of the items. -/
def Op.apply (items : List Nat) : Op → List Nat
  | .set item result => if result = 0 then items ++ [item] else items
  | .unset item => items.filter (· ≠ item)
  | .clear => []

/-- The list after some calls on a new collection. -/
def listed (trace : List (Slots × Op)) : List Nat :=
  trace.foldl (fun items point => point.2.apply items) []

/-- The position of the terminator, if there is one. -/
def terminator (slots : List Nat) : Nat :=
  (slots.takeWhile (· ≠ 0)).length

/-- The list that a collection denotes. -/
def items : Slots → List Nat
  | none => []
  | some slots => slots.takeWhile (· ≠ 0)

/-- The loops of `__unset` end, and touch no slot behind the terminator. -/
def Shifts (item : Nat) (slots : List Nat) : Prop :=
  (∃ (walk : Walk) (position : Nat),
    Loop.Ends (unsetTurn item) ⟨slots, .scan 0⟩ walk ∧
      walk.point = .done position) ∧
  ∀ walk : Walk, Loop.Passes (unsetTurn item) ⟨slots, .scan 0⟩ walk →
    terminator walk.slots < walk.slots.length ∧
      ∀ index ∈ walk.point.touches, index ≤ terminator walk.slots

/-- The collection implements the list. -/
structure Implements (collection : Slots) (list : List Nat) : Prop where
  denotes : items collection = list
  terminated : ∀ slots, collection = some slots →
    terminator slots < slots.length
  unset : ∀ item slots, collection = some slots → Shifts item slots
  set : ∀ item, item ≠ 0 → ∀ reply, ∃ size result next,
    Counts collection size ∧
      Collection.set collection size item reply = some (result, next)
  failed : ∀ item result next, Step collection (.set item result) next →
    result ≠ 0 → next = collection

section Arrays

variable {item position : Nat} {list left kept passed rest : List Nat}
  {walk next : Walk}

theorem takeWhile_items (clean : 0 ∉ list) :
    (list ++ 0 :: rest).takeWhile (· ≠ 0) = list := by
  rw [List.takeWhile_append_of_pos]
  · simp
  · intro value member
    have given : value ≠ 0 := by
      rintro rfl
      exact clean member
    simpa using given

theorem terminator_eq (clean : 0 ∉ list) :
    terminator (list ++ 0 :: rest) = list.length := by
  rw [terminator, takeWhile_items clean]

theorem read_next {front back : List Nat} {value other : Nat} :
    (front ++ value :: other :: back)[front.length + 1]? = some other := by
  simp

theorem write_here {front back : List Nat} {value other : Nat} :
    (front ++ value :: back).set front.length other = front ++ other :: back := by
  simp

/-- Where the loops of `__unset` can stand: `kept` is behind them, and `list`
is what they will leave. -/
inductive Midway (item : Nat) (list : List Nat) : Walk → Prop where
  | scan {kept left rest : List Nat} (clean : 0 ∉ kept ++ left)
      (leaves : kept ++ left.filter (· ≠ item) = list) :
      Midway item list ⟨kept ++ left ++ 0 :: rest, .scan kept.length⟩
  | shift {kept passed left rest : List Nat} {value : Nat}
      (clean : 0 ∉ kept ++ passed ++ value :: left)
      (leaves : kept ++ (passed ++ left).filter (· ≠ item) = list) :
      Midway item list ⟨kept ++ passed ++ value :: left ++ 0 :: rest,
        .shift kept.length (kept.length + passed.length)⟩
  | done {rest : List Nat} (clean : 0 ∉ list) :
      Midway item list ⟨list ++ 0 :: rest, .done list.length⟩

/-- The items that are left to scan, and behind that the slots that are left
to shift. -/
def rank (walk : Walk) : Nat ×ₗ Nat :=
  match walk.point with
  | .scan position =>
      toLex (terminator walk.slots - position, walk.slots.length)
  | .shift position slot =>
      toLex (terminator walk.slots - position, terminator walk.slots - slot)
  | _ => toLex (0, 0)

theorem Midway.inside (midway : Midway item list walk) :
    terminator walk.slots < walk.slots.length ∧
      ∀ index ∈ walk.point.touches, index ≤ terminator walk.slots := by
  cases midway with
  | scan clean leaves =>
      rw [terminator_eq clean]
      simp [Point.touches]
  | shift clean leaves =>
      rw [terminator_eq clean]
      simp [Point.touches, Nat.add_assoc]
  | done clean =>
      rw [terminator_eq clean]
      simp [Point.touches]

section Turns

variable {value other : Nat}

theorem scan_end :
    unsetTurn item ⟨kept ++ [] ++ 0 :: rest, .scan kept.length⟩ =
      some ⟨kept ++ [] ++ 0 :: rest, .done kept.length⟩ := by
  have found : (kept ++ [] ++ 0 :: rest)[kept.length]? = some 0 := by simp
  simp only [unsetTurn, found, if_true]

theorem scan_item (given : value ≠ 0) :
    unsetTurn item ⟨kept ++ value :: left ++ 0 :: rest, .scan kept.length⟩ =
      some ⟨kept ++ value :: left ++ 0 :: rest,
        if value = item then .shift kept.length kept.length
        else .scan (kept.length + 1)⟩ := by
  have found : (kept ++ value :: left ++ 0 :: rest)[kept.length]? =
      some value := by
    simp
  simp only [unsetTurn, found, if_neg given]
  split
  · rfl
  · rfl

/-- The last shift moves the terminator, and the outer loop goes on. -/
theorem shift_end :
    unsetTurn item ⟨kept ++ passed ++ [value] ++ 0 :: rest,
        .shift kept.length (kept.length + passed.length)⟩ =
      some ⟨kept ++ passed ++ 0 :: 0 :: rest, .scan kept.length⟩ := by
  have found : (kept ++ passed ++ [value] ++ 0 :: rest)[
      kept.length + passed.length + 1]? = some 0 := by
    rw [← List.length_append, List.append_assoc]
    exact read_next
  have written : (kept ++ passed ++ [value] ++ 0 :: rest).set
      (kept.length + passed.length) 0 = kept ++ passed ++ 0 :: 0 :: rest := by
    rw [← List.length_append, List.append_assoc]
    exact write_here
  simp only [unsetTurn, found, if_true, written]

theorem shift_item (given : other ≠ 0) :
    unsetTurn item ⟨kept ++ passed ++ value :: other :: left ++ 0 :: rest,
        .shift kept.length (kept.length + passed.length)⟩ =
      some ⟨kept ++ (passed ++ [other]) ++ other :: left ++ 0 :: rest,
        .shift kept.length (kept.length + passed.length + 1)⟩ := by
  have found : (kept ++ passed ++ value :: other :: left ++ 0 :: rest)[
      kept.length + passed.length + 1]? = some other := by
    rw [← List.length_append, List.append_assoc]
    exact read_next
  have written : (kept ++ passed ++ value :: other :: left ++ 0 :: rest).set
      (kept.length + passed.length) other =
        kept ++ (passed ++ [other]) ++ other :: left ++ 0 :: rest := by
    rw [← List.length_append, List.append_assoc]
    refine write_here.trans ?_
    simp
  simp only [unsetTurn, found, if_neg given, written]

end Turns

theorem Midway.turn (midway : Midway item list walk)
    (step : unsetTurn item walk = some next) :
    Midway item list next ∧ rank next < rank walk := by
  cases midway with
  | @scan kept left rest clean leaves =>
      cases left with
      | nil =>
          cases scan_end.symm.trans step
          rw [List.append_nil] at clean
          obtain rfl : kept = list := by simpa using leaves
          simp only [List.append_nil]
          refine ⟨.done clean, ?_⟩
          simp [rank, terminator_eq clean, Prod.Lex.toLex_lt_toLex]
      | cons value left =>
          have given : value ≠ 0 := by
            rintro rfl
            simp at clean
          cases (scan_item given).symm.trans step
          by_cases hit : value = item
          · rw [if_pos hit]
            have leaves' : kept ++ ([] ++ left).filter (· ≠ item) = list := by
              simpa [hit] using leaves
            have shift := @Midway.shift item list kept [] left rest value
              (by simpa using clean) leaves'
            refine ⟨by simpa using shift, ?_⟩
            simp only [rank, terminator_eq clean, Prod.Lex.toLex_lt_toLex]
            right
            simp
            omega
          · rw [if_neg hit]
            have leaves' : (kept ++ [value]) ++ left.filter (· ≠ item) =
                list := by
              simpa [hit] using leaves
            have scan := @Midway.scan item list (kept ++ [value]) left rest
              (by simpa using clean) leaves'
            refine ⟨by simpa using scan, ?_⟩
            simp only [rank, terminator_eq clean, Prod.Lex.toLex_lt_toLex]
            left
            simp
            omega
  | @shift kept passed left rest value clean leaves =>
      cases left with
      | nil =>
          cases shift_end.symm.trans step
          have clean' : 0 ∉ kept ++ passed := fun null =>
            clean (List.mem_append_left _ null)
          refine ⟨.scan clean' (by simpa using leaves), ?_⟩
          simp only [rank, terminator_eq clean, terminator_eq clean',
            Prod.Lex.toLex_lt_toLex]
          left
          simp
      | cons other left =>
          have given : other ≠ 0 := by
            rintro rfl
            simp at clean
          cases (shift_item given).symm.trans step
          have clean' : 0 ∉ kept ++ (passed ++ [other]) ++ other :: left := by
            simp at clean ⊢
            tauto
          have shift := @Midway.shift item list kept (passed ++ [other]) left
            rest other clean' (by simpa using leaves)
          refine ⟨by simpa [Nat.add_assoc] using shift, ?_⟩
          simp only [rank, terminator_eq clean, terminator_eq clean',
            Prod.Lex.toLex_lt_toLex]
          right
          simp
          omega
  | done clean => cases step

/-- The loops can only stop behind a look at the terminator. -/
theorem Midway.stopped (midway : Midway item list walk)
    (stops : unsetTurn item walk = none) :
    0 ∉ list ∧ walk.point = .done list.length ∧
      ∃ rest, walk.slots = list ++ 0 :: rest := by
  cases midway with
  | @scan kept left rest clean leaves =>
      cases left with
      | nil => cases scan_end.symm.trans stops
      | cons value left =>
          have given : value ≠ 0 := by
            rintro rfl
            simp at clean
          cases (scan_item given).symm.trans stops
  | @shift kept passed left rest value clean leaves =>
      cases left with
      | nil => cases shift_end.symm.trans stops
      | cons other left =>
          have given : other ≠ 0 := by
            rintro rfl
            simp at clean
          cases (shift_item given).symm.trans stops
  | @done rest clean => exact ⟨clean, rfl, rest, rfl⟩

theorem midway_start (clean : 0 ∉ list) :
    Midway item (list.filter (· ≠ item)) ⟨list ++ 0 :: rest, .scan 0⟩ :=
  @Midway.scan item _ [] list rest (by simpa using clean) rfl

/-- No slot comes or goes. -/
theorem unsetTurn_length (step : unsetTurn item walk = some next) :
    next.slots.length = walk.slots.length := by
  unfold unsetTurn at step
  split at step
  · split at step
    · cases step
      rfl
    · split at step
      · cases step
        rfl
      · split at step
        · cases step
          rfl
        · cases step
          rfl
  · split at step
    · cases step
      rfl
    · split at step
      · cases step
        exact List.length_set
      · cases step
        exact List.length_set
  · cases step

/-- The loops of `__unset` leave the other items in their order. -/
theorem unset_leaves (clean : 0 ∉ list)
    (ends : Loop.Ends (unsetTurn item) ⟨list ++ 0 :: rest, .scan 0⟩ walk) :
    ∃ rest', walk.slots = list.filter (· ≠ item) ++ 0 :: rest' ∧
      walk.slots.length = (list ++ 0 :: rest).length ∧
      walk.point = .done (list.filter (· ≠ item)).length := by
  have midway := ends.invariant (Midway item (list.filter (· ≠ item)))
    (fun _ _ before step => (before.turn step).1) (midway_start clean)
  have same := ends.invariant
    (fun walk => walk.slots.length = (list ++ 0 :: rest).length)
    (fun _ _ before step => (unsetTurn_length step).trans before) rfl
  obtain ⟨-, done, rest', slots⟩ := midway.stopped ends.exited
  exact ⟨rest', slots, same, done⟩

theorem unset_shifts (clean : 0 ∉ list) :
    Shifts item (list ++ 0 :: rest) := by
  refine ⟨?_, fun walk passes => ?_⟩
  · obtain ⟨walk, ends⟩ := Loop.ends_of_measure
      (Midway item (list.filter (· ≠ item))) rank
      (fun _ _ before step => before.turn step)
      (@midway_start item list rest clean)
    obtain ⟨-, -, -, done⟩ := unset_leaves clean ends
    exact ⟨walk, _, ends, done⟩
  · have midway := passes.invariant (Midway item (list.filter (· ≠ item)))
      (fun _ _ before step => (before.turn step).1) (midway_start clean)
    exact midway.inside

/-- The loop of `__set` ends at the terminator. -/
theorem count_ends (clean : 0 ∉ kept ++ left) :
    Loop.Ends countTurn ⟨kept ++ left ++ 0 :: rest, .scan kept.length⟩
      ⟨kept ++ left ++ 0 :: rest, .done (kept ++ left).length⟩ := by
  induction left generalizing kept with
  | nil =>
      have found : (kept ++ [] ++ 0 :: rest)[kept.length]? = some 0 := by simp
      have turn : countTurn ⟨kept ++ [] ++ 0 :: rest, .scan kept.length⟩ =
          some ⟨kept ++ [] ++ 0 :: rest, .done (kept ++ []).length⟩ := by
        simp only [countTurn, found, if_true]
        rw [List.append_nil]
      exact .turn turn (.exit rfl)
  | cons value left induction =>
      have found : (kept ++ value :: left ++ 0 :: rest)[kept.length]? =
          some value := by
        simp
      have given : value ≠ 0 := by
        rintro rfl
        simp at clean
      have shifted : kept ++ value :: left = (kept ++ [value]) ++ left := by
        simp
      have rest := @induction (kept ++ [value]) (shifted ▸ clean)
      rw [← shifted, List.length_append] at rest
      refine .turn ?_ rest
      simp only [countTurn, found, if_neg given, List.length_singleton]

theorem counts_iff {size : Nat} (clean : 0 ∉ list) :
    Counts (some (list ++ 0 :: rest)) size ↔ size = list.length := by
  have ends := @count_ends list [] rest (by simpa using clean)
  constructor
  · rintro ⟨walk, ends', done⟩
    cases ends'.unique ends
    injection done with same
    exact same.symm
  · rintro rfl
    exact ⟨_, ends, rfl⟩

/-- `realloc` keeps the slots that were there. -/
theorem map_range {back : List Nat} {stale : Nat → Nat} :
    (List.range list.length).map (fun index =>
      ((list ++ back)[index]?).getD (stale index)) = list := by
  apply List.ext_getElem (by simp)
  intro index _ inside
  simp [List.getElem?_append_left inside, List.getElem?_eq_getElem inside]

/-- The new array has the items and two more slots. -/
theorem realloc_eq {back slots : List Nat} {old : Slots}
    {reply : Option (Nat → Nat)} (known : old.getD [] = list ++ back)
    (given : realloc old ((list.length + 2) * 8) reply = some slots) :
    ∃ first second, slots = list ++ [first, second] ∧
      slots.length * 8 < 2 ^ 63 := by
  unfold realloc at given
  cases reply with
  | none => cases given
  | some stale =>
      simp only at given
      split at given
      · rename_i fits
        have count : (list.length + 2) * 8 / 8 = list.length + 2 :=
          Nat.mul_div_cancel _ (by decide)
        rw [count, known, List.range_add, List.map_append, map_range] at given
        cases given
        exact ⟨_, _, rfl, by simpa using fits⟩
      · cases given

theorem set_failed {collection next : Slots} {size : Nat}
    {reply : Option (Nat → Nat)} {result : Int}
    (call : set collection size item reply = some (result, next))
    (fails : result ≠ 0) : next = collection := by
  unfold set at call
  cases grown : realloc collection ((size + 2) * 8 % wordSize) reply with
  | none =>
      rw [grown] at call
      cases call
      rfl
  | some slots =>
      rw [grown] at call
      simp only [bind, Option.bind_eq_some_iff, pure] at call
      obtain ⟨_, -, _, -, done⟩ := call
      cases done
      exact absurd rfl fails

end Arrays

/-- The list that a collection denotes, with the bound on its array. -/
def Holds (collection : Slots) (list : List Nat) : Prop :=
  match collection with
  | none => list = []
  | some slots => 0 ∉ list ∧ slots.length * 8 < 2 ^ 63 ∧
      ∃ rest, slots = list ++ 0 :: rest

namespace Holds

variable {collection next : Slots} {list : List Nat} {item size : Nat}
  {op : Op} {reply : Option (Nat → Nat)} {result : Int}

theorem clean (holds : Holds collection list) : 0 ∉ list := by
  cases collection with
  | none =>
      rw [show list = [] from holds]
      exact List.not_mem_nil
  | some slots => exact holds.1

theorem known (holds : Holds collection list) :
    ∃ back, collection.getD [] = list ++ back := by
  cases collection with
  | none =>
      rw [show list = [] from holds]
      exact ⟨[], rfl⟩
  | some slots =>
      obtain ⟨-, -, rest, slots⟩ := holds
      exact ⟨_, slots⟩

/-- The array is too short for the size of the next one to wrap. -/
theorem room (holds : Holds collection list) :
    (list.length + 2) * 8 < wordSize := by
  cases collection with
  | none =>
      rw [show list = [] from holds]
      decide
  | some slots =>
      obtain ⟨-, fits, rest, rfl⟩ := holds
      rw [List.length_append, List.length_cons] at fits
      unfold wordSize
      omega

theorem counts_iff (holds : Holds collection list) :
    Counts collection size ↔ size = list.length := by
  cases collection with
  | none =>
      rw [show list = [] from holds]
      exact Iff.rfl
  | some slots =>
      obtain ⟨clean, -, rest, rfl⟩ := holds
      exact Collection.counts_iff clean

/-- A call of `__set` fails and leaves the collection as it is, or appends the
item. -/
theorem set_eq (holds : Holds collection list) (given : item ≠ 0) :
    Collection.set collection list.length item reply =
        some (-1, collection) ∨
      ∃ next, Collection.set collection list.length item reply =
        some (0, some next) ∧ Holds (some next) (list ++ [item]) := by
  unfold Collection.set
  rw [Nat.mod_eq_of_lt holds.room]
  cases grown : realloc collection ((list.length + 2) * 8) reply with
  | none => exact .inl rfl
  | some slots =>
      right
      obtain ⟨back, known⟩ := holds.known
      obtain ⟨first, second, rfl, fits⟩ := realloc_eq known grown
      have stored : store list.length item (list ++ [first, second]) =
          some (list ++ [item, second]) := by
        rw [store, if_pos (by simp), write_here]
      have ended : store (list.length + 1) 0 (list ++ [item, second]) =
          some (list ++ [item] ++ [0]) := by
        rw [store, if_pos (by simp)]
        simp
      refine ⟨list ++ [item] ++ [0], ?_, ?_, ?_, [], rfl⟩
      · simp only [stored, ended, bind, Option.bind_some, pure]
      · simp only [List.mem_append, List.mem_singleton, not_or]
        exact ⟨holds.clean, fun null => given null.symm⟩
      · simpa using fits

theorem step (holds : Holds collection list) (proper : op.Proper)
    (step : Step collection op next) : Holds next (op.apply list) := by
  cases step with
  | @set item size reply result next counts call =>
      obtain rfl := holds.counts_iff.mp counts
      rcases @set_eq collection list item reply holds proper
        with failed | ⟨slots, appended, after⟩
      · cases failed.symm.trans call
        exact holds
      · cases appended.symm.trans call
        exact after
  | @unset item position slots walk given ends done =>
      subst given
      obtain ⟨clean, fits, rest, rfl⟩ := holds
      obtain ⟨rest', slots, same, -⟩ := unset_leaves clean ends
      refine ⟨?_, same ▸ fits, rest', slots⟩
      exact fun null => clean (List.mem_filter.mp null).1
  | absent null =>
      subst null
      rw [show list = [] from holds]
      rfl
  | clear => rfl

theorem implements (holds : Holds collection list) :
    Implements collection list where
  denotes := by
    cases collection with
    | none => exact Eq.symm holds
    | some slots =>
        obtain ⟨clean, -, rest, rfl⟩ := holds
        exact takeWhile_items clean
  terminated := by
    rintro slots rfl
    obtain ⟨clean, -, rest, rfl⟩ := holds
    rw [terminator_eq clean]
    simp
  unset := by
    rintro item slots rfl
    obtain ⟨clean, -, rest, rfl⟩ := holds
    exact unset_shifts clean
  set := by
    intro item given reply
    have counts := holds.counts_iff.mpr rfl
    rcases @set_eq collection list item reply holds given
      with failed | ⟨next, appended, -⟩
    · exact ⟨_, -1, collection, counts, failed⟩
    · exact ⟨_, 0, some next, counts, appended⟩
  failed := by
    intro item result next step fails
    cases step with
    | set counts call => exact set_failed call fails

end Holds

theorem run_holds {start finish : Slots} {list : List Nat}
    {trace : List (Slots × Op)} (run : Run Step start trace finish)
    (proper : ∀ point ∈ trace, point.2.Proper) (holds : Holds start list) :
    Holds finish (trace.foldl (fun list point => point.2.apply list) list) := by
  induction run generalizing list with
  | nil => exact holds
  | cons step _ induction =>
      refine induction (fun point member =>
        proper point (List.mem_cons_of_mem _ member)) ?_
      exact holds.step (proper _ List.mem_cons_self) step

/-- In every history of a collection, its array is the list. -/
theorem implements_list {trace : List (Slots × Op)} {finish : Slots}
    (run : Run Step none trace finish)
    (proper : ∀ point ∈ trace, point.2.Proper) :
    Implements finish (listed trace) :=
  (run_holds run proper (show Holds none [] from rfl)).implements

/-- A new array of two slots, with another item between two equal ones, from
which these are removed. -/
theorem implements_list_removed : ∃ trace slots,
    Run Step none trace (some slots) ∧ slots = [7, 0, 0, 0] ∧
      Implements (some slots) [7] := by
  have first : Step none (.set 5 0) (some [5, 0]) :=
    @Step.set _ _ 0 (some fun _ => 9) _ _ rfl (by decide)
  have second : Step (some [5, 0]) (.set 7 0) (some [5, 7, 0]) :=
    @Step.set _ _ 1 (some fun _ => 9) _ _
      ⟨_, @Loop.ends_of_run _ _ _ _ 9 rfl, rfl⟩ (by decide)
  have third : Step (some [5, 7, 0]) (.set 5 0) (some [5, 7, 5, 0]) :=
    @Step.set _ _ 2 (some fun _ => 9) _ _
      ⟨_, @Loop.ends_of_run _ _ _ _ 9 rfl, rfl⟩ (by decide)
  have last : Step (some [5, 7, 5, 0]) (.unset 5) (some [7, 0, 0, 0]) :=
    @Step.unset _ 5 1 _ ⟨[7, 0, 0, 0], .done 1⟩ rfl
      (@Loop.ends_of_run _ _ _ _ 19 rfl) rfl
  have run := Run.cons first (.cons second (.cons third
    (.cons last (.nil (some [7, 0, 0, 0])))))
  refine ⟨_, _, run, rfl, ?_⟩
  exact implements_list run (by simp [Op.Proper])

end Collection

section Registry

variable {cube : Cube} {w : World} {stop : Stop → World → Prop}

/-- The registry of a process is a collection. -/
theorem setCube_applies :
    Ensures (Collection.setCube cube)
      (fun result w' => w'.cubes.map Cube.ptr =
        (Collection.Op.set cube.ptr result).apply (w.cubes.map Cube.ptr))
      stop w := by
  apply Ensures.step rfl
  cases w.os 0 with
  | done value name => exact List.map_append
  | failed error => exact rfl

theorem unsetCube_applies :
    Ensures (Collection.unsetCube cube)
      (fun _ w' => w'.cubes.map Cube.ptr =
        (Collection.Op.unset cube.ptr).apply (w.cubes.map Cube.ptr))
      stop w := by
  show (w.cubes.filter _).map Cube.ptr = (w.cubes.map Cube.ptr).filter _
  rw [List.filter_map]
  rfl

end Registry

end CoralApi
