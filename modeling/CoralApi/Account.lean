import CoralApi.Guard

/-!
# The account of a slice

What every event adds to the version and to the links of each slice.  A cube
that is not freed keeps its slices, each with its place in the block.
-/

namespace CoralApi

open Program

/-- The slice some events later, with what they have added. -/
structure Slice.Credited (bumps : Nat) (links : Int) (slice slice' : Slice) :
    Prop where
  ptr : slice'.ptr = slice.ptr
  offset : slice'.offset = slice.offset
  size : slice'.size = slice.size
  page : slice'.page = slice.page
  version : slice'.version = slice.version + bumps
  nlinks : slice'.nlinks = slice.nlinks + links

structure Cube.Credited (bumps : Nat → Nat) (links : Nat → Int)
    (cube cube' : Cube) : Prop where
  same : cube.Same cube'
  slices : ∀ slice ∈ cube.slices, ∃ slice' ∈ cube'.slices,
    slice.Credited (bumps slice.ptr) (links slice.ptr) slice'

/-- How often a slice is among those that a fault opens. -/
def Effect.bumps (effect : Effect) (ptr : Nat) : Nat :=
  match effect with
  | .opens _ slices => (slices.map Slice.ptr).count ptr
  | _ => 0

/-- What the event adds to the version of a slice. -/
def Event.bumps (P : PageSize) (p : Process) (event : Event) : Nat → Nat :=
  (event.effect P p).bumps

/-- What the event adds to the links of a slice. -/
def Event.links (P : PageSize) (p : Process) (event : Event) (ptr : Nat) :
    Int :=
  match event.op with
  | .attach other =>
      if other = ptr ∧ returned (attach P other
          (p.enter event.errno event.os)) = some 0 then 1 else 0
  | .detach other =>
      if other = ptr ∧ returned (detach other
          (p.enter event.errno event.os)) = some 0 then -1 else 0
  | _ => 0

section Credits

variable {bumps more : Nat → Nat} {links further : Nat → Int}
variable {slice slice' slice'' : Slice} {cube cube' cube'' : Cube}

theorem Slice.Credited.refl (slice : Slice) : slice.Credited 0 0 slice :=
  ⟨rfl, rfl, rfl, rfl, rfl, (Int.add_zero _).symm⟩

theorem Slice.Credited.trans {bumps more : Nat} {links further : Int}
    (left : slice.Credited bumps links slice')
    (right : slice'.Credited more further slice'') :
    slice.Credited (bumps + more) (links + further) slice'' where
  ptr := right.ptr.trans left.ptr
  offset := right.offset.trans left.offset
  size := right.size.trans left.size
  page := right.page.trans left.page
  version := by rw [right.version, left.version, Nat.add_assoc]
  nlinks := by rw [right.nlinks, left.nlinks, Int.add_assoc]

theorem Cube.Credited.trans (left : cube.Credited bumps links cube')
    (right : cube'.Credited more further cube'') :
    cube.Credited (fun ptr => bumps ptr + more ptr)
      (fun ptr => links ptr + further ptr) cube'' where
  same := left.same.trans right.same
  slices := by
    intro slice inside
    obtain ⟨slice', inside', credited⟩ := left.slices slice inside
    obtain ⟨slice'', inside'', later⟩ := right.slices slice' inside'
    rw [credited.ptr] at later
    exact ⟨slice'', inside'', credited.trans later⟩

/-- The cube stays as it is, and its slices have nothing on the account. -/
theorem Cube.Credited.of_silent
    (silent : ∀ slice ∈ cube.slices, bumps slice.ptr = 0 ∧ links slice.ptr = 0) :
    cube.Credited bumps links cube where
  same := .refl cube
  slices := by
    intro slice inside
    obtain ⟨unbumped, unlinked⟩ := silent slice inside
    rw [unbumped, unlinked]
    exact ⟨slice, inside, .refl slice⟩

/-- A change of one slice. -/
theorem credited_modifySlice {ptr bump : Nat} {link : Int}
    {change : Slice → Slice}
    (changed : ∀ slice : Slice, slice.Credited bump link (change slice))
    (cube : Cube) :
    cube.Credited (fun other => if other = ptr then bump else 0)
      (fun other => if other = ptr then link else 0)
      (cube.modifySlice ptr change) where
  same := ⟨rfl, rfl, rfl⟩
  slices := by
    intro slice inside
    refine ⟨_, List.mem_map_of_mem inside, ?_⟩
    by_cases here : slice.ptr = ptr
    · rw [if_pos here, if_pos here, if_pos here]
      exact changed slice
    · rw [if_neg here, if_neg here, if_neg here]
      exact .refl slice

theorem credited_bump (opened : List Slice) (cube : Cube) :
    cube.Credited (fun ptr => (opened.map Slice.ptr).count ptr) (fun _ => 0)
      (cube.bump opened) := by
  induction opened generalizing cube with
  | nil => exact .of_silent fun slice inside => ⟨rfl, rfl⟩
  | cons slice opened induction =>
      have first := @credited_modifySlice slice.ptr 1 0
        (fun slice => { slice with version := slice.version + 1 })
        (fun slice => ⟨rfl, rfl, rfl, rfl, rfl, (Int.add_zero _).symm⟩) cube
      have both := first.trans (induction _)
      have counts : (fun ptr => (if ptr = slice.ptr then 1 else 0) +
          (opened.map Slice.ptr).count ptr) =
            fun ptr => ((slice :: opened).map Slice.ptr).count ptr := by
        funext ptr
        rw [List.map_cons, List.count_cons, Nat.add_comm]
        refine congrArg _ (if_congr ?_ rfl rfl)
        rw [beq_iff_eq]
        exact eq_comm
      have nothing : (fun ptr => (if ptr = slice.ptr then (0 : Int) else 0) +
          0) = fun _ => 0 := by
        funext ptr
        simp
      rw [counts, nothing] at both
      exact both

end Credits

/-- Every cube of these is there later, credited. -/
def Process.Credits (bumps : Nat → Nat) (links : Nat → Int)
    (p p' : Process) : Prop :=
  ∀ cube ∈ p.cubes, ∃ cube' ∈ p'.cubes, cube.Credited bumps links cube'

section Credits

variable {P : PageSize} {p p' : Process} {event : Event}
variable {bumps : Nat → Nat} {links : Nat → Int} {cube : Cube}

theorem Process.Credits.agrees (credits : p.Credits bumps links p')
    {p'' : Process} (agrees : p'.Agrees p'') : p.Credits bumps links p'' := by
  intro cube member
  rw [agrees.cubes]
  exact credits cube member

theorem credits_of_subset (kept : p.cubes ⊆ p'.cubes) :
    p.Credits (fun _ => 0) (fun _ => 0) p' := fun cube member =>
  ⟨cube, kept member, .of_silent fun _ _ => ⟨rfl, rfl⟩⟩

/-- A change of one cube, when the account is about its slices. -/
theorem credits_modifyCube (named : p.Named) {change : Cube → Cube}
    (also : cube ∈ p.live) (changed : cube.Credited bumps links (change cube))
    (silent : ∀ ptr, ptr ∉ cube.slices.map Slice.ptr →
      bumps ptr = 0 ∧ links ptr = 0) :
    p.Credits bumps links (p.modifyCube cube.ptr change) := by
  intro other member
  refine ⟨_, List.mem_map_of_mem member, ?_⟩
  by_cases same : other.ptr = cube.ptr
  · rw [if_pos same]
    cases named.same_cube (List.mem_append_left _ member) also same
    exact changed
  · rw [if_neg same]
    refine .of_silent fun slice inside => silent slice.ptr fun shared => ?_
    have owned := List.mem_map_of_mem (f := Slice.ptr) inside
    exact same (congrArg Cube.ptr
      (named.same_owner (List.mem_append_left _ member) also owned shared))

/-- Only attaching and detaching change links. -/
theorem Deed.credits {effect : Effect} (deed : Deed P p event effect p')
    (laid : p.Laid P) (linkless : ∀ ptr, event.op ≠ .attach ptr ∧
      event.op ≠ .detach ptr) (member : cube ∈ p.cubes)
    (spared : event.frees cube.page.addr = false) :
    ∃ cube' ∈ p'.cubes,
      cube.Credited effect.bumps (fun _ => 0) cube' := by
  cases deed with
  | agrees agrees =>
      exact credits_of_subset (agrees.cubes ▸ List.Subset.refl _) cube member
  | beside pid cubes orphans nextPtr maps mapped prot =>
      exact credits_of_subset (cubes ▸ List.Subset.refl _) cube member
  | @alloc new p' empty own whole admits fresh made agrees =>
      have credits : p.Credits (fun _ => 0) (fun _ => 0) (p.addCube P new) :=
        credits_of_subset (List.subset_append_left _ _)
      exact credits.agrees agrees cube member
  | @free other addr maps p' frees also base unmapped agrees =>
      have different := Event.ptr_ne laid.named member also base frees
        (Event.frees_iff.mp spared)
      refine ⟨cube, ?_, .of_silent fun _ _ => ⟨rfl, rfl⟩⟩
      rw [agrees.cubes]
      exact Process.mem_freeCube_of_ne member different
  | @grow target page prot p' also own longer whole uniform admits agrees =>
      have moved : target.Credited (fun _ => 0) (fun _ => 0)
          { target with page := page } :=
        ⟨⟨rfl, rfl, rfl⟩, fun slice inside => ⟨slice, inside, .refl slice⟩⟩
      have credits : p.Credits (fun _ => 0) (fun _ => 0)
          (p.moveCube P target page prot) :=
        credits_modifyCube laid.named (List.mem_append_left _ also) moved
          fun _ _ => ⟨rfl, rfl⟩
      exact credits.agrees agrees cube member
  | @slice target addr size ptr p' slices also own contains fresh agrees =>
      let new := newSlice P target addr size ptr
      have added : target.Credited (fun _ => 0) (fun _ => 0)
          { target with slices := target.slices ++ [new] } :=
        ⟨⟨rfl, rfl, rfl⟩, fun slice inside =>
          ⟨slice, List.mem_append_left _ inside, .refl slice⟩⟩
      have credits : p.Credits (fun _ => 0) (fun _ => 0)
          (p.addSlice target.ptr new) :=
        credits_modifyCube laid.named (List.mem_append_left _ also) added
          fun _ _ => ⟨rfl, rfl⟩
      exact credits.agrees agrees cube member
  | attach attaches also own inside agrees =>
      exact absurd attaches (linkless _).1
  | detach detaches also own inside agrees =>
      exact absurd detaches (linkless _).2
  | @fault target addr opened p' also own contains idle known spans agrees =>
      have credits : p.Credits (fun ptr => (opened.map Slice.ptr).count ptr)
          (fun _ => 0) (p.modifyCube target.ptr (Cube.bump opened)) := by
        refine credits_modifyCube laid.named (List.mem_append_left _ also)
          (credited_bump opened target) fun ptr absent => ⟨?_, rfl⟩
        exact List.count_eq_zero_of_not_mem fun inside =>
          absent ((known.map Slice.ptr).subset inside)
      rw [agrees.cubes, openSlices_cubes]
      exact credits cube member

theorem credits_attach {ptr errno : Nat} {os : Nat → Reply}
    (named : p.Named) :
    p.Credits (fun _ => 0) (Event.links P p ⟨.attach ptr, errno, os⟩)
      (Event.outcome P p ⟨.attach ptr, errno, os⟩) := by
  have outcome : Event.outcome P p ⟨.attach ptr, errno, os⟩ =
      (final (attach P ptr (p.enter errno os))).toProcess :=
    congrArg World.toProcess final_void
  have spec := @attach_spec P ptr (p.enter errno os) rfl
  have links_eq : Event.links P p ⟨.attach ptr, errno, os⟩ = fun other =>
      if ptr = other ∧
        returned (attach P ptr (p.enter errno os)) = some 0 then 1 else 0 := rfl
  rw [outcome, links_eq]
  cases run : attach P ptr (p.enter errno os) with
  | error reason w' =>
      obtain ⟨same, -, -⟩ := spec.of_error run
      simp only [returned, reduceCtorEq, and_false, if_false, final, same]
      exact credits_of_subset (List.Subset.refl _)
  | ok result w' =>
      have ended := spec.of_ok run
      simp only [returned, Option.some.injEq, final]
      split at ended
      · rename_i success
        obtain ⟨-, cube, slice, attached⟩ := ended
        obtain ⟨member, inside, rfl⟩ := findSlice_mem attached.found
        simp only [success, and_true]
        refine Process.Credits.agrees ?_ attached.effect.agrees
        have linked := @credited_modifySlice slice.ptr 0 1
          (fun slice => { slice with nlinks := slice.nlinks + 1 })
          (fun slice => ⟨rfl, rfl, rfl, rfl, rfl, rfl⟩) cube
        have changed : cube.Credited (fun _ => 0)
            (fun other => if slice.ptr = other then 1 else 0)
            { cube.modifySlice slice.ptr fun slice =>
                { slice with nlinks := slice.nlinks + 1 } with
              nlinks := cube.nlinks + 1 } := by
          simp only [ite_self, @eq_comm Nat _ slice.ptr] at linked
          exact ⟨⟨rfl, rfl, rfl⟩, linked.slices⟩
        refine credits_modifyCube named member changed fun other absent =>
          ⟨rfl, if_neg ?_⟩
        rintro rfl
        exact absent (List.mem_map_of_mem inside)
      · rename_i failure
        simp only [failure, and_false, if_false]
        exact (credits_of_subset (List.Subset.refl _)).agrees ended.2.2.agrees

theorem credits_detach {ptr errno : Nat} {os : Nat → Reply}
    (named : p.Named) :
    p.Credits (fun _ => 0) (Event.links P p ⟨.detach ptr, errno, os⟩)
      (Event.outcome P p ⟨.detach ptr, errno, os⟩) := by
  have outcome : Event.outcome P p ⟨.detach ptr, errno, os⟩ =
      (final (detach ptr (p.enter errno os))).toProcess :=
    congrArg World.toProcess final_void
  have spec := @detach_spec ptr (p.enter errno os) [] rfl (by simp)
  have links_eq : Event.links P p ⟨.detach ptr, errno, os⟩ = fun other =>
      if ptr = other ∧
        returned (detach ptr (p.enter errno os)) = some 0 then -1 else 0 := rfl
  rw [outcome, links_eq]
  cases run : detach ptr (p.enter errno os) with
  | error reason w' =>
      obtain ⟨same, -, -⟩ := spec.of_error run
      simp only [returned, reduceCtorEq, and_false, if_false, final, same]
      exact credits_of_subset (List.Subset.refl _)
  | ok result w' =>
      simp only [returned, Option.some.injEq, final]
      rcases spec.of_ok run with ⟨failure, -, quiet⟩ |
        ⟨success, cube, slice, detaches⟩
      · simp only [failure, and_false, if_false]
        exact (credits_of_subset (List.Subset.refl _)).agrees quiet.agrees
      · obtain ⟨member, inside, rfl⟩ := findSlice_mem detaches.found
        simp only [success, and_true]
        have lowered := @credited_modifySlice slice.ptr 0 (-1)
          (fun slice => { slice with nlinks := slice.nlinks - 1 })
          (fun slice => ⟨rfl, rfl, rfl, rfl, rfl, rfl⟩) cube
        have changed : cube.Credited (fun _ => 0)
            (fun other => if slice.ptr = other then -1 else 0)
            { cube.modifySlice slice.ptr fun slice =>
                { slice with nlinks := slice.nlinks - 1 } with
              nlinks := cube.nlinks - 1 } := by
          simp only [ite_self, @eq_comm Nat _ slice.ptr] at lowered
          exact ⟨⟨rfl, rfl, rfl⟩, lowered.slices⟩
        have credits : p.Credits (fun _ => 0)
            (fun other => if slice.ptr = other then -1 else 0)
            (p.unlinkSlice cube.ptr slice.ptr) := by
          refine credits_modifyCube named member changed fun other absent =>
            ⟨rfl, if_neg ?_⟩
          rintro rfl
          exact absent (List.mem_map_of_mem inside)
        have effect := detaches.effect.agrees
        split at effect
        · refine Process.Credits.agrees ?_ effect
          exact credits
        · exact credits.agrees effect

/-- What an event adds to the slices of a cube that it does not free. -/
theorem Event.credits (words : event.op.Words) (laid : p.Laid P)
    (member : cube ∈ p.cubes) (spared : event.frees cube.page.addr = false) :
    ∃ cube' ∈ (event.outcome P p).cubes,
      cube.Credited (event.bumps P p) (event.links P p) cube' := by
  have linkless : (∀ ptr, event.op ≠ .attach ptr ∧ event.op ≠ .detach ptr) →
      event.links P p = fun _ => 0 := by
    intro other
    funext ptr
    unfold Event.links
    split
    · rename_i ptr' attaches
      exact absurd attaches (other ptr').1
    · rename_i ptr' detaches
      exact absurd detaches (other ptr').2
    · rfl
  by_cases attaches : ∃ ptr, event.op = .attach ptr
  · obtain ⟨op, errno, os⟩ := event
    obtain ⟨ptr, rfl⟩ := attaches
    exact credits_attach laid.named cube member
  by_cases detaches : ∃ ptr, event.op = .detach ptr
  · obtain ⟨op, errno, os⟩ := event
    obtain ⟨ptr, rfl⟩ := detaches
    exact credits_detach laid.named cube member
  have other : ∀ ptr, event.op ≠ .attach ptr ∧ event.op ≠ .detach ptr :=
    fun ptr => ⟨fun same => attaches ⟨ptr, same⟩, fun same => detaches ⟨ptr, same⟩⟩
  rw [linkless other]
  exact (event_deed words).credits laid other member spared

end Credits

end CoralApi
