import CoralApi.Registry

/-!
# What the registry holds

The registered cubes are those that a call has returned, or is about to, and
that no call has freed or is freeing.  A thread that has made a block or that
holds its mutex answers for it alone.
-/

namespace CoralApi

namespace Crowd

/-- The names of the registered cubes. -/
def registered (s : Crowd) : List Nat := s.process.cubes.map Cube.ptr

/-- The block was returned, or a call is about to return it. -/
def Given (s : Crowd) (ptr : Nat) : Prop := ptr ∈ s.returned ∨ s.Returning ptr

/-- The block was freed, or a call is freeing it. -/
def Gone (s : Crowd) (ptr : Nat) : Prop := ptr ∈ s.freed ∨ s.Freeing ptr

/-- Every cube is counted once. -/
structure Counted (s : Crowd) : Prop where
  once : s.registered.Nodup
  bound : ∀ ptr, s.Given ptr → ptr < s.process.nextPtr
  given : ∀ ptr, s.Gone ptr → s.Given ptr
  exact : ∀ ptr, ptr ∈ s.registered ↔ s.Given ptr ∧ ¬s.Gone ptr
  fresh : ∀ thread cube, (s.stage thread).fresh = some cube →
    cube.ptr < s.process.nextPtr ∧ ¬s.Given cube.ptr ∧
      ∀ other cube', (s.stage other).fresh = some cube' →
        cube'.ptr = cube.ptr → other = thread

section Threads

variable {α : Type} {stage : Nat → Stage} {thread : Nat} {new : Stage}
  {f : Stage → Option α} {x : α}

theorem some_update (found : f (Function.update stage thread new x') = some x) :
    x' = thread ∧ f new = some x ∨ x' ≠ thread ∧ f (stage x') = some x := by
  by_cases same : x' = thread
  · subst same
    rw [Function.update_self] at found
    exact .inl ⟨rfl, found⟩
  · rw [Function.update_of_ne same] at found
    exact .inr ⟨same, found⟩

/-- What a thread shows is the same as before. -/
theorem exists_same (same : f new = f (stage thread)) :
    (∃ other, f (Function.update stage thread new other) = some x) ↔
      ∃ other, f (stage other) = some x := by
  constructor
  · rintro ⟨other, found⟩
    rcases some_update found with ⟨-, found⟩ | ⟨-, found⟩
    · exact ⟨thread, same ▸ found⟩
    · exact ⟨other, found⟩
  · rintro ⟨other, found⟩
    refine ⟨other, ?_⟩
    by_cases here : other = thread
    · subst here
      rwa [Function.update_self, same]
    · rwa [Function.update_of_ne here]

/-- A thread shows something new. -/
theorem exists_more (silent : f (stage thread) = none) :
    (∃ other, f (Function.update stage thread new other) = some x) ↔
      f new = some x ∨ ∃ other, f (stage other) = some x := by
  constructor
  · rintro ⟨other, found⟩
    rcases some_update found with ⟨-, found⟩ | ⟨-, found⟩
    · exact .inl found
    · exact .inr ⟨other, found⟩
  · rintro (found | ⟨other, found⟩)
    · exact ⟨thread, by rwa [Function.update_self]⟩
    · refine ⟨other, ?_⟩
      rw [Function.update_of_ne]
      · exact found
      · rintro rfl
        rw [silent] at found
        cases found

/-- A thread shows nothing any more. -/
theorem exists_fewer (silent : f new = none) :
    (∃ other, f (stage other) = some x) ↔ f (stage thread) = some x ∨
      ∃ other, f (Function.update stage thread new other) = some x := by
  constructor
  · rintro ⟨other, found⟩
    by_cases here : other = thread
    · exact .inl (here ▸ found)
    · exact .inr ⟨other, by rwa [Function.update_of_ne here]⟩
  · rintro (found | ⟨other, found⟩)
    · exact ⟨thread, found⟩
    · rcases some_update found with ⟨-, found⟩ | ⟨-, found⟩
      · rw [silent] at found
        cases found
      · exact ⟨other, found⟩

end Threads

section Counted

variable {P : PageSize} {s s' : Crowd}

/-- A step that registers nothing, makes nothing and takes nothing out. -/
theorem Counted.keep (counted : s.Counted)
    (registered : s'.registered = s.registered)
    (nextPtr : s.process.nextPtr ≤ s'.process.nextPtr)
    (given : ∀ ptr, s'.Given ptr ↔ s.Given ptr)
    (gone : ∀ ptr, s'.Gone ptr ↔ s.Gone ptr)
    (fresh : ∀ thread cube, (s'.stage thread).fresh = some cube →
      (s.stage thread).fresh = some cube) : s'.Counted where
  once := registered ▸ counted.once
  bound := fun ptr known =>
    Nat.lt_of_lt_of_le (counted.bound ptr ((given ptr).mp known)) nextPtr
  given := fun ptr left =>
    (given ptr).mpr (counted.given ptr ((gone ptr).mp left))
  exact := fun ptr => by
    rw [registered, given, gone]
    exact counted.exact ptr
  fresh := by
    intro thread cube made
    obtain ⟨below, unknown, unique⟩ :=
      counted.fresh thread cube (fresh thread cube made)
    refine ⟨Nat.lt_of_lt_of_le below nextPtr,
      fun known => unknown ((given _).mp known), ?_⟩
    exact fun other cube' also => unique other cube' (fresh other cube' also)

theorem mem_registered {cube : Cube} (member : cube ∈ s.process.cubes) :
    cube.ptr ∈ s.registered :=
  List.mem_map_of_mem member

theorem registered_modifyCube {p : Process} {ptr : Nat} {change : Cube → Cube}
    (same : ∀ cube, (change cube).ptr = cube.ptr) :
    (p.modifyCube ptr change).cubes.map Cube.ptr = p.cubes.map Cube.ptr := by
  simp only [Process.modifyCube, List.map_map]
  apply List.map_congr_left
  intro cube _
  simp only [Function.comp_apply]
  split
  · exact same cube
  · rfl

theorem registered_retire {p : Process} {cube : Cube} :
    (p.retire cube).cubes.map Cube.ptr = p.cubes.map Cube.ptr := by
  unfold Process.retire
  split
  · rfl
  · exact registered_modifyCube fun _ => rfl

/-- What the threads show does not depend on the stage of one of them. -/
theorem given_same {thread : Nat} {new : Stage} {p : Process}
    (same : new.returning = (s.stage thread).returning) (ptr : Nat) :
    Given { s with
      process := p, stage := Function.update s.stage thread new } ptr ↔
        s.Given ptr :=
  or_congr Iff.rfl (exists_same same)

theorem gone_same {thread : Nat} {new : Stage} {p : Process}
    (same : new.freeing = (s.stage thread).freeing) (ptr : Nat) :
    Gone { s with
      process := p, stage := Function.update s.stage thread new } ptr ↔
        s.Gone ptr :=
  or_congr Iff.rfl (exists_same same)

theorem fresh_fewer {thread : Nat} {new : Stage}
    (fewer : new.fresh = none ∨ new.fresh = (s.stage thread).fresh) :
    ∀ other cube, (Function.update s.stage thread new other).fresh = some cube →
      (s.stage other).fresh = some cube := by
  intro other cube made
  rcases some_update made with ⟨rfl, shown⟩ | ⟨-, shown⟩
  · rcases fewer with silent | same
    · rw [silent] at shown
      cases shown
    · rwa [← same]
  · exact shown

section Events

variable {thread : Nat} {cube : Cube} {p' : Process}

/-- A thread has made a block that no call has given. -/
theorem Counted.make (counted : s.Counted) (here : s.stage thread = .idle)
    (unused : s.process.nextPtr ≤ cube.ptr) (taken : cube.ptr < p'.nextPtr)
    (agrees : (s.process.mapBlock P cube.page s.process.self cube.id).Agrees
      p') :
    Counted { s with
      process := p'
      stage := Function.update s.stage thread (.made cube) } := by
  have given := @given_same s thread (.made cube) p' (by rw [here]; rfl)
  have gone := @gone_same s thread (.made cube) p' (by rw [here]; rfl)
  have unknown : ¬s.Given cube.ptr := fun known =>
    Nat.not_lt.mpr unused (counted.bound _ known)
  refine ⟨?_, ?_, ?_, ?_, ?_⟩
  · show (p'.cubes.map Cube.ptr).Nodup
    rw [agrees.cubes]
    exact counted.once
  · intro ptr known
    exact Nat.lt_of_lt_of_le (counted.bound ptr ((given ptr).mp known))
      agrees.nextPtr
  · exact fun ptr left =>
      (given ptr).mpr (counted.given ptr ((gone ptr).mp left))
  · intro ptr
    rw [given, gone]
    show ptr ∈ p'.cubes.map Cube.ptr ↔ _
    rw [agrees.cubes]
    exact counted.exact ptr
  · intro other cube' made
    rcases some_update made with ⟨rfl, shown⟩ | ⟨-, shown⟩
    · cases shown
      refine ⟨taken, fun known => unknown ((given _).mp known), ?_⟩
      intro third cube' also same
      rcases some_update also with ⟨rfl, -⟩ | ⟨-, older⟩
      · rfl
      · have below := (counted.fresh third cube' older).1
        omega
    · obtain ⟨below, unknown', unique⟩ := counted.fresh other cube' shown
      refine ⟨Nat.lt_of_lt_of_le below agrees.nextPtr,
        fun known => unknown' ((given _).mp known), ?_⟩
      intro third cube'' also same
      rcases some_update also with ⟨rfl, newer⟩ | ⟨-, older⟩
      · cases newer
        omega
      · exact unique third cube'' older same

/-- The block is one that a call is about to return. -/
theorem Counted.register (counted : s.Counted)
    (here : s.stage thread = .made cube)
    (agrees : Process.Agrees
      { s.process with cubes := s.process.cubes ++ [cube] } p') :
    Counted { s with
      process := p'
      stage := Function.update s.stage thread (.listed cube) } := by
  have made : (s.stage thread).fresh = some cube := by rw [here]; rfl
  obtain ⟨below, unknown, unique⟩ := counted.fresh thread cube made
  have gone := @gone_same s thread (.listed cube) p' (by rw [here]; rfl)
  have given : ∀ ptr, Given { s with
      process := p',
      stage := Function.update s.stage thread (.listed cube) } ptr ↔
        ptr = cube.ptr ∨ s.Given ptr := by
    intro ptr
    have more := @exists_more _ s.stage thread (.listed cube)
      Stage.returning ptr (by rw [here]; rfl)
    refine (or_congr Iff.rfl more).trans ?_
    simp only [Stage.returning, Option.some.injEq, Given, Returning]
    rw [eq_comm (a := cube.ptr)]
    exact or_left_comm
  have registered : p'.cubes.map Cube.ptr =
      s.registered ++ [cube.ptr] := by
    rw [agrees.cubes, List.map_append]
    rfl
  refine ⟨?_, ?_, ?_, ?_, ?_⟩
  · show (p'.cubes.map Cube.ptr).Nodup
    rw [registered, List.nodup_append]
    refine ⟨counted.once, List.nodup_singleton _, ?_⟩
    intro ptr member other last same
    rw [List.mem_singleton.mp last] at same
    exact unknown ((counted.exact _).mp (same ▸ member)).1
  · intro ptr known
    rcases (given ptr).mp known with rfl | old
    · exact Nat.lt_of_lt_of_le below agrees.nextPtr
    · exact Nat.lt_of_lt_of_le (counted.bound ptr old) agrees.nextPtr
  · exact fun ptr left =>
      (given ptr).mpr (.inr (counted.given ptr ((gone ptr).mp left)))
  · intro ptr
    rw [given, gone]
    show ptr ∈ p'.cubes.map Cube.ptr ↔ _
    rw [registered, List.mem_append, List.mem_singleton, counted.exact]
    constructor
    · rintro (⟨known, stays⟩ | rfl)
      · exact ⟨.inr known, stays⟩
      · exact ⟨.inl rfl, fun left => unknown (counted.given _ left)⟩
    · rintro ⟨rfl | known, stays⟩
      · exact .inr rfl
      · exact .inl ⟨known, stays⟩
  · intro other cube' made'
    have different : other ≠ thread := by
      rintro rfl
      have impossible : (Function.update s.stage other (.listed cube)
        other).fresh = some cube' := made'
      rw [Function.update_self] at impossible
      cases impossible
    have old := fresh_fewer (.inl rfl) other cube' made'
    obtain ⟨below', unknown', unique'⟩ := counted.fresh other cube' old
    refine ⟨Nat.lt_of_lt_of_le below' agrees.nextPtr, ?_, ?_⟩
    · intro known
      rcases (given _).mp known with same | known
      · exact different (unique other cube' old same)
      · exact unknown' known
    · exact fun third cube'' also =>
        unique' third cube'' (fresh_fewer (.inl rfl) third cube'' also)

theorem Counted.giveOut (counted : s.Counted)
    (here : s.stage thread = .listed cube) :
    Counted { s with
      stage := Function.update s.stage thread .idle
      returned := cube.ptr :: s.returned } := by
  refine counted.keep rfl (Nat.le_refl _) ?_ ?_ (fresh_fewer (.inl rfl))
  · intro ptr
    have fewer := @exists_fewer _ s.stage thread .idle Stage.returning ptr
      rfl
    refine Iff.trans ?_ (or_congr Iff.rfl fewer).symm
    rw [here]
    simp only [Given, Returning, Stage.returning, List.mem_cons,
      Option.some.injEq]
    rw [eq_comm (a := ptr), or_assoc]
    exact or_left_comm
  · exact fun ptr => or_congr Iff.rfl (exists_same (by rw [here]; rfl))

/-- The block is one that a call is freeing. -/
theorem Counted.take (counted : s.Counted) (here : s.stage thread = .idle)
    (member : cube ∈ s.process.cubes)
    (agrees : (s.process.takeOut cube).Agrees p') :
    Counted { s with
      process := p'
      stage := Function.update s.stage thread (.taken cube) } := by
  have given := @given_same s thread (.taken cube) p' (by rw [here]; rfl)
  have gone : ∀ ptr, Gone { s with
      process := p',
      stage := Function.update s.stage thread (.taken cube) } ptr ↔
        ptr = cube.ptr ∨ s.Gone ptr := by
    intro ptr
    have more := @exists_more _ s.stage thread (.taken cube)
      Stage.freeing ptr (by rw [here]; rfl)
    refine (or_congr Iff.rfl more).trans ?_
    simp only [Stage.freeing, Option.some.injEq, Gone, Freeing]
    rw [eq_comm (a := cube.ptr)]
    exact or_left_comm
  have registered : p'.cubes.map Cube.ptr =
      s.registered.filter fun ptr => ptr ≠ cube.ptr := by
    rw [agrees.cubes, registered, List.filter_map]
    rfl
  refine ⟨?_, ?_, ?_, ?_, ?_⟩
  · show (p'.cubes.map Cube.ptr).Nodup
    rw [registered]
    exact counted.once.filter _
  · intro ptr known
    exact Nat.lt_of_lt_of_le (counted.bound ptr ((given ptr).mp known))
      agrees.nextPtr
  · intro ptr left
    apply (given ptr).mpr
    rcases (gone ptr).mp left with rfl | left
    · exact ((counted.exact _).mp (mem_registered member)).1
    · exact counted.given ptr left
  · intro ptr
    rw [given, gone]
    show ptr ∈ p'.cubes.map Cube.ptr ↔ _
    rw [registered, List.mem_filter, counted.exact]
    simp only [decide_eq_true_eq, not_or]
    tauto
  · intro other cube' made
    have old := fresh_fewer (.inl rfl) other cube' made
    obtain ⟨below, unknown, unique⟩ := counted.fresh other cube' old
    refine ⟨Nat.lt_of_lt_of_le below agrees.nextPtr,
      fun known => unknown ((given _).mp known), ?_⟩
    exact fun third cube'' also =>
      unique third cube'' (fresh_fewer (.inl rfl) third cube'' also)

theorem Counted.retire (counted : s.Counted)
    (here : s.stage thread = .unmapped cube)
    (agrees : (s.process.retire cube).Agrees p') :
    Counted { s with
      process := p'
      stage := Function.update s.stage thread .idle
      freed := cube.ptr :: s.freed } := by
  have registered : p'.cubes.map Cube.ptr = s.registered := by
    rw [agrees.cubes]
    exact registered_retire
  have nextPtr : (s.process.retire cube).nextPtr = s.process.nextPtr := by
    unfold Process.retire
    split
    · rfl
    · rfl
  refine counted.keep registered (nextPtr ▸ agrees.nextPtr) ?_ ?_
    (fresh_fewer (.inl rfl))
  · exact fun ptr => or_congr Iff.rfl (exists_same (by rw [here]; rfl))
  · intro ptr
    have fewer := @exists_fewer _ s.stage thread .idle Stage.freeing ptr rfl
    refine Iff.trans ?_ (or_congr Iff.rfl fewer).symm
    rw [here]
    simp only [Gone, Freeing, Stage.freeing, List.mem_cons,
      Option.some.injEq]
    rw [eq_comm (a := ptr), or_assoc]
    exact or_left_comm

end Events

theorem Deal.counted (deal : Deal P s s') (counted : s.Counted) :
    s'.Counted := by
  cases deal with
  | wait fresh spot unlocked returning freeing moving agrees =>
      exact counted.keep (congrArg (List.map Cube.ptr) agrees.cubes)
        agrees.nextPtr (given_same returning) (gone_same freeing)
        (fresh_fewer (.inr fresh))
  | make here whole admits unused taken agrees =>
      exact counted.make here unused taken agrees
  | register here agrees => exact counted.register here agrees
  | @drop thread errsv cube maps p' here unmapped agrees =>
      exact counted.keep (congrArg (List.map Cube.ptr) agrees.cubes)
        agrees.nextPtr (given_same (by rw [here]; rfl))
        (gone_same (by rw [here]; rfl)) (fresh_fewer (.inl rfl))
  | giveOut here => exact counted.giveOut here
  | take here member unheld agrees => exact counted.take here member agrees
  | @unmap thread cube maps p' here unmapped agrees =>
      exact counted.keep (congrArg (List.map Cube.ptr) agrees.cubes)
        agrees.nextPtr (given_same (by rw [here]; rfl))
        (gone_same (by rw [here]; rfl)) (fresh_fewer (.inl rfl))
  | retire here agrees => exact counted.retire here agrees
  | @find thread newSize cube p' here member unheld agrees =>
      exact counted.keep (congrArg (List.map Cube.ptr) agrees.cubes)
        agrees.nextPtr (given_same (by rw [here]; rfl))
        (gone_same (by rw [here]; rfl)) (fresh_fewer (.inl rfl))
  | @stretch thread newSize newAddr cube prot p' here admits agrees =>
      exact counted.keep (congrArg (List.map Cube.ptr) agrees.cubes)
        agrees.nextPtr (given_same (by rw [here]; rfl))
        (gone_same (by rw [here]; rfl)) (fresh_fewer (.inl rfl))
  | @settle thread newSize newAddr cube p' here agrees =>
      have registered : p'.cubes.map Cube.ptr = s.registered := by
        rw [agrees.cubes]
        exact registered_modifyCube fun _ => rfl
      exact counted.keep registered
        agrees.nextPtr (given_same (by rw [here]; rfl))
        (gone_same (by rw [here]; rfl)) (fresh_fewer (.inl rfl))

end Counted

/-- A mutex has one holder, and a cube that is worked on stays registered as
it is. -/
structure Guarded (s : Crowd) : Prop where
  alone : ∀ thread other ptr, (s.stage thread).locked = some ptr →
    (s.stage other).locked = some ptr → thread = other
  keeping : ∀ thread cube, (s.stage thread).keeping = some cube →
    cube ∈ s.process.cubes

section Guarded

variable {P : PageSize} {s s' : Crowd} {thread : Nat} {new : Stage}
  {p' : Process} {returned freed : List Nat}

theorem locked_of_keeping {stage : Stage} {cube : Cube}
    (keeping : stage.keeping = some cube) : stage.locked = some cube.ptr := by
  cases stage with
  | found other newSize =>
      cases keeping
      rfl
  | moved other newSize newAddr =>
      cases keeping
      rfl
  | idle => cases keeping
  | made => cases keeping
  | dropping => cases keeping
  | listed => cases keeping
  | taken => cases keeping
  | unmapped => cases keeping

/-- A thread takes no mutex, and no cube changes that another thread works
on. -/
theorem Guarded.keep (guarded : s.Guarded)
    (locked : new.locked = none ∨ new.locked = (s.stage thread).locked)
    (mine : ∀ cube, new.keeping = some cube → cube ∈ p'.cubes)
    (others : ∀ other cube, other ≠ thread →
      (s.stage other).keeping = some cube → cube ∈ p'.cubes) :
    Guarded ⟨p', Function.update s.stage thread new, returned, freed⟩ := by
  have before : ∀ other ptr,
      (Function.update s.stage thread new other).locked = some ptr →
        (s.stage other).locked = some ptr := by
    intro other ptr holds
    rcases some_update holds with ⟨rfl, shown⟩ | ⟨-, shown⟩
    · rcases locked with silent | same
      · rw [silent] at shown
        cases shown
      · rwa [← same]
    · exact shown
  refine ⟨?_, ?_⟩
  · exact fun first second ptr left right =>
      guarded.alone first second ptr (before first ptr left)
        (before second ptr right)
  · intro other cube keeps
    rcases some_update keeps with ⟨rfl, shown⟩ | ⟨different, shown⟩
    · exact mine cube shown
    · exact others other cube different shown

/-- A thread takes a mutex that no other thread holds. -/
theorem Guarded.lock (guarded : s.Guarded) {ptr : Nat}
    (locked : new.locked = some ptr)
    (unheld : ∀ other, (s.stage other).locked ≠ some ptr)
    (mine : ∀ cube, new.keeping = some cube → cube ∈ p'.cubes)
    (others : ∀ other cube, (s.stage other).keeping = some cube →
      cube.ptr ≠ ptr → cube ∈ p'.cubes) :
    Guarded ⟨p', Function.update s.stage thread new, returned, freed⟩ := by
  refine ⟨?_, ?_⟩
  · intro first second ptr' left right
    rcases some_update left with ⟨rfl, left'⟩ | ⟨-, left'⟩
    · rcases some_update right with ⟨rfl, -⟩ | ⟨-, right'⟩
      · rfl
      · rw [locked] at left'
        cases left'
        exact absurd right' (unheld second)
    · rcases some_update right with ⟨rfl, right'⟩ | ⟨-, right'⟩
      · rw [locked] at right'
        cases right'
        exact absurd left' (unheld first)
      · exact guarded.alone first second ptr' left' right'
  · intro other cube keeps
    rcases some_update keeps with ⟨rfl, shown⟩ | ⟨-, shown⟩
    · exact mine cube shown
    · refine others other cube shown fun same => ?_
      exact unheld other (same ▸ locked_of_keeping shown)

/-- A change at a pointer leaves the other cubes alone. -/
theorem mem_modifyCube_of_ne {p : Process} {cube : Cube} {ptr : Nat}
    {change : Cube → Cube} (member : cube ∈ p.cubes) (other : cube.ptr ≠ ptr) :
    cube ∈ (p.modifyCube ptr change).cubes :=
  List.mem_map.mpr ⟨cube, member, if_neg other⟩

theorem retire_cubes {p : Process} {cube : Cube}
    (absent : cube.ptr ∉ p.cubes.map Cube.ptr) :
    (p.retire cube).cubes = p.cubes := by
  unfold Process.retire
  split
  · rfl
  · refine (List.map_congr_left ?_).trans (List.map_id _)
    intro other member
    refine if_neg fun same => absent ?_
    exact same ▸ List.mem_map_of_mem member

/-- A cube that is being freed is not registered. -/
theorem Counted.absent (counted : s.Counted) {cube : Cube}
    (freeing : (s.stage thread).freeing = some cube.ptr) :
    cube.ptr ∉ s.process.cubes.map Cube.ptr := fun member =>
  ((counted.exact cube.ptr).mp member).2 (.inr ⟨thread, freeing⟩)

theorem Deal.guarded (deal : Deal P s s') (counted : s.Counted)
    (guarded : s.Guarded) : s'.Guarded := by
  have kept : ∀ {p' : Process}, p'.cubes = s.process.cubes →
      ∀ other cube, (s.stage other).keeping = some cube → cube ∈ p'.cubes :=
    fun cubes other cube keeps => cubes ▸ guarded.keeping other cube keeps
  cases deal with
  | @wait thread stage p' fresh spot unlocked returning freeing moving agrees =>
      refine guarded.keep (.inl unlocked) ?_
        fun other cube _ => kept agrees.cubes other cube
      intro cube keeps
      rw [locked_of_keeping keeps] at unlocked
      cases unlocked
  | make here whole admits unused taken agrees =>
      refine guarded.keep (.inl rfl) nofun fun other cube _ keeps => ?_
      exact kept agrees.cubes other cube keeps
  | register here agrees =>
      refine guarded.keep (.inl rfl) nofun fun other cube _ keeps => ?_
      rw [agrees.cubes]
      exact List.mem_append_left _ (guarded.keeping other cube keeps)
  | drop here unmapped agrees =>
      refine guarded.keep (.inl rfl) nofun fun other cube _ keeps => ?_
      exact kept agrees.cubes other cube keeps
  | giveOut here =>
      refine guarded.keep (.inl rfl) nofun fun other cube _ keeps => ?_
      exact guarded.keeping other cube keeps
  | @take thread cube p' here member unheld agrees =>
      refine guarded.lock rfl unheld nofun fun other cube' keeps different => ?_
      rw [agrees.cubes]
      exact List.mem_filter.mpr
        ⟨guarded.keeping other cube' keeps, by simpa using different⟩
  | @unmap thread cube maps p' here unmapped agrees =>
      exact guarded.keep (.inr (by rw [here]; rfl)) nofun
        fun other cube _ => kept agrees.cubes other cube
  | @retire thread cube p' here agrees =>
      have absent := @Counted.absent s thread counted cube (by rw [here]; rfl)
      exact guarded.keep (.inl rfl) nofun fun other cube _ =>
        kept (agrees.cubes.trans (retire_cubes absent)) other cube
  | @find thread newSize cube p' here member unheld agrees =>
      refine guarded.lock rfl unheld ?_
        fun other cube' keeps _ => kept agrees.cubes other cube' keeps
      intro cube' keeps
      cases keeps
      rw [agrees.cubes]
      exact member
  | @stretch thread newSize newAddr cube prot p' here admits agrees =>
      refine guarded.keep (.inr (by rw [here]; rfl)) ?_
        fun other cube _ => kept agrees.cubes other cube
      intro cube' keeps
      cases keeps
      exact kept agrees.cubes thread cube (by rw [here]; rfl)
  | @settle thread newSize newAddr cube p' here agrees =>
      refine guarded.keep (.inl rfl) nofun fun other cube' different keeps => ?_
      rw [agrees.cubes]
      refine mem_modifyCube_of_ne (guarded.keeping other cube' keeps) ?_
      intro same
      have mine : (s.stage thread).locked = some cube.ptr := by rw [here]; rfl
      exact different (guarded.alone other thread cube.ptr
        (same ▸ locked_of_keeping keeps) mine)

end Guarded

section Alone

variable {s : Crowd} {thread other ptr : Nat}

/-- The thread alone answers for the cube. -/
def Owns (s : Crowd) (thread ptr : Nat) : Prop :=
  (∃ cube, (s.stage thread).fresh = some cube ∧ cube.ptr = ptr) ∨
    (s.stage thread).locked = some ptr

/-- A cube with a locked mutex was given. -/
theorem Counted.given_of_locked (counted : s.Counted) (guarded : s.Guarded)
    (locked : (s.stage thread).locked = some ptr) : s.Given ptr := by
  have gone : (s.stage thread).freeing = some ptr → s.Given ptr :=
    fun freeing => counted.given ptr (.inr ⟨thread, freeing⟩)
  have registered : ∀ cube, (s.stage thread).keeping = some cube →
      cube.ptr = ptr → s.Given ptr := by
    rintro cube keeps rfl
    have member := guarded.keeping thread cube keeps
    exact ((counted.exact _).mp (mem_registered member)).1
  cases here : s.stage thread with
  | taken cube => exact gone (by rw [here] at locked ⊢; exact locked)
  | unmapped cube => exact gone (by rw [here] at locked ⊢; exact locked)
  | found cube newSize =>
      rw [here] at locked
      exact registered cube (by rw [here]; rfl) (Option.some.inj locked)
  | moved cube newSize newAddr =>
      rw [here] at locked
      exact registered cube (by rw [here]; rfl) (Option.some.inj locked)
  | idle =>
      rw [here] at locked
      cases locked
  | made cube =>
      rw [here] at locked
      cases locked
  | dropping cube errsv =>
      rw [here] at locked
      cases locked
  | listed cube =>
      rw [here] at locked
      cases locked

theorem Counted.owns_unique (counted : s.Counted) (guarded : s.Guarded)
    (mine : s.Owns thread ptr) (also : s.Owns other ptr) : thread = other := by
  rcases mine with ⟨cube, fresh, rfl⟩ | locked
  · obtain ⟨-, unknown, unique⟩ := counted.fresh thread cube fresh
    rcases also with ⟨cube', fresh', same⟩ | locked'
    · exact (unique other cube' fresh' same).symm
    · exact absurd (counted.given_of_locked guarded locked') unknown
  · rcases also with ⟨cube', fresh', rfl⟩ | locked'
    · have unknown := (counted.fresh other cube' fresh').2.1
      exact absurd (counted.given_of_locked guarded locked) unknown
    · exact guarded.alone thread other ptr locked locked'

theorem owns_of_spot {P : PageSize} {block : Block}
    (spot : (s.stage thread).spot P = some (ptr, block)) :
    s.Owns thread ptr := by
  cases here : s.stage thread with
  | made cube =>
      rw [here] at spot
      cases spot
      exact .inl ⟨cube, by rw [here]; rfl, rfl⟩
  | dropping cube errsv =>
      rw [here] at spot
      cases spot
      exact .inl ⟨cube, by rw [here]; rfl, rfl⟩
  | taken cube =>
      rw [here] at spot
      cases spot
      exact .inr (by rw [here]; rfl)
  | moved cube newSize newAddr =>
      rw [here] at spot
      cases spot
      exact .inr (by rw [here]; rfl)
  | idle =>
      rw [here] at spot
      cases spot
  | listed cube =>
      rw [here] at spot
      cases spot
  | unmapped cube =>
      rw [here] at spot
      cases spot
  | found cube newSize =>
      rw [here] at spot
      cases spot

end Alone

end Crowd

end CoralApi
