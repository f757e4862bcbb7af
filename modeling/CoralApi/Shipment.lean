import CoralApi.Consistency

/-!
# What a server reads of a submission

A submission does to the memory of its process what the attaches of its arrays
do, one after the other.  So a server that follows the message finds the bytes
of the submission, and what it makes of them is there for the process.
-/

namespace CoralApi

open Program Transition

/-- Two processes with one memory and one directory tree. -/
structure Process.Mirrors (p p' : Process) : Prop where
  pid : p'.pid = p.pid
  self : p'.self = p.self
  cubes : p'.cubes = p.cubes
  orphans : p'.orphans = p.orphans
  maps : p'.maps = p.maps
  prot : p'.prot = p.prot
  file : ∀ dir id, p'.file dir id = p.file dir id

def Family.Act.Attaches (owner : Nat) (act : Family.Act) : Prop :=
  ∃ ptr errno os, act = .event owner ⟨.attach ptr, errno, os⟩

/-- A process of a tree attaches these slices, one after the other. -/
structure Family.Boards (P : PageSize) (owner : Nat) (ptrs : List Nat)
    (f : Family) (m : Relative) (f' : Family) (m' : Relative) : Prop where
  run : ∃ attaches, Run (Family.Step P) f attaches f' ∧
    ∀ point ∈ attaches, point.2.Attaches owner
  reckoned : f'.Reckoned P
  here : f'.members owner = some m'
  self : m'.self = m.self
  file : ∀ dir id, f'.file dir id = f.file dir id
  ships : ∀ ptr ∈ ptrs, ∀ cube slice, m.findSlice ptr = some (cube, slice) →
    cube ∈ m.cubes → f'.Ships P ⟨owner, m.self, cube.id, slice⟩

section Mirrors

variable {P : PageSize} {p p' : Process} {q q' : World} {ptr : Nat}
  {cube : Cube} {slice : Slice}

theorem Process.Mirrors.live (mirrors : p.Mirrors p') : p'.live = p.live := by
  rw [Process.live, Process.live, mirrors.cubes, mirrors.orphans]

theorem Process.Mirrors.findSlice (mirrors : p.Mirrors p') (ptr : Nat) :
    p'.findSlice ptr = p.findSlice ptr := by
  rw [Process.findSlice, Process.findSlice, mirrors.live]

/-- A step that touches no memory and no file. -/
theorem Process.Mirrors.still (mirrors : p.Mirrors q.toProcess)
    (agrees : q.toProcess.Agrees q'.toProcess)
    (writes : q.Writes (fun _ => False) q') : p.Mirrors q'.toProcess where
  pid := agrees.pid.trans mirrors.pid
  self := writes.self.trans mirrors.self
  cubes := agrees.cubes.trans mirrors.cubes
  orphans := agrees.orphans.trans mirrors.orphans
  maps := agrees.maps.trans mirrors.maps
  prot := agrees.prot.trans mirrors.prot
  file := fun dir id =>
    (writes.file dir id fun _ => not_false).trans (mirrors.file dir id)

/-- The same slice is attached in both. -/
theorem Process.Mirrors.attached (mirrors : p.Mirrors q.toProcess)
    (left : (Process.link cube.ptr ptr
      (p.protectPages P (wadd cube.page.addr slice.page.offset)
        slice.page.size .read)).Agrees p')
    (right : (Process.link cube.ptr ptr
      (q.protectPages P (wadd cube.page.addr slice.page.offset)
        slice.page.size .read)).Agrees q'.toProcess)
    (self : p'.self = p.self)
    (file : ∀ dir id, p'.file dir id = p.file dir id)
    (writes : q.Writes (fun _ => False) q') : p'.Mirrors q'.toProcess where
  pid := by
    have same : q.pid = p.pid := mirrors.pid
    exact right.pid.trans (same.trans left.pid.symm)
  self := writes.self.trans (mirrors.self.trans self.symm)
  cubes := by
    rw [right.cubes, left.cubes]
    exact congrArg (List.map _) mirrors.cubes
  orphans := by
    rw [right.orphans, left.orphans]
    exact congrArg (List.map _) mirrors.orphans
  maps := by
    have same : q.maps = p.maps := mirrors.maps
    exact right.maps.trans (same.trans left.maps.symm)
  prot := by
    have same : q.prot = p.prot := mirrors.prot
    rw [right.prot, left.prot]
    simp only [Process.link, Process.modifyCube, Process.protectPages, same]
  file := fun dir id => (writes.file dir id fun _ => not_false).trans
    ((mirrors.file dir id).trans (file dir id).symm)

end Mirrors

section Boards

variable {P : PageSize} {owner : Nat} {ptrs : List Nat} {f f' f'' : Family}
  {m m' m'' : Relative} {cargo : Cargo}

theorem Family.Act.Attaches.paired {act : Family.Act}
    (attaches : act.Attaches owner) : act.Paired f := by
  obtain ⟨ptr, errno, os, rfl⟩ := attaches
  exact fun _ _ => trivial

theorem Family.Act.Attaches.carries {act : Family.Act} {ptr : Nat}
    (attaches : act.Attaches owner) : act.Carries P owner ptr f := by
  obtain ⟨other, errno, os, rfl⟩ := attaches
  intro _ m _
  constructor
  · trivial
  · trivial
  · exact fun _ _ => Op.noConfusion

/-- Later attaches leave a slice attached. -/
theorem Family.Ships.boards (ships : f.Ships P cargo) (reckoned : f.Reckoned P)
    (boards : Family.Boards P cargo.owner ptrs f m f' m') :
    f'.Ships P cargo := by
  obtain ⟨attaches, run, only⟩ := boards.run
  exact (ships.run reckoned run
    (fun point member => (only point member).paired)
    (fun point member => (only point member).carries)
    f' (finish_mem_visited _ _)).2.1

theorem Family.Ships.alike {dir id : String} {slice slice' : Slice}
    (ships : f.Ships P ⟨owner, dir, id, slice'⟩) (alike : slice.Alike slice') :
    f.Ships P ⟨owner, dir, id, slice⟩ := by
  constructor
  · obtain ⟨length, fits⟩ := ships.fits
    exact ⟨length, alike.fits fits⟩
  · exact ships.maker
  · obtain ⟨m, here, self, cube, live, own, same, slice'', inside, alike',
      linked⟩ := ships.bears
    exact ⟨m, here, self, cube, live, own, same, slice'', inside,
      alike.trans alike', linked⟩
  · intro pid q there mapping inside dir id page covered
    exact ships.closed pid q there mapping inside dir id page
      (alike.page ▸ covered)

theorem Family.Boards.nil (reckoned : f.Reckoned P)
    (here : f.members owner = some m) :
    Family.Boards P owner [] f m f m where
  run := ⟨[], .nil f, fun _ member => by cases member⟩
  reckoned := reckoned
  here := here
  self := rfl
  file := fun _ _ => rfl
  ships := fun _ member => by cases member

/-- A slice after a link of another one. -/
theorem findSlice_link {p : Process} {key ptr other : Nat} {cube : Cube}
    {slice : Slice} (named : p.Named)
    (found : p.findSlice other = some (cube, slice)) :
    ∃ cube' slice', (p.link key ptr).findSlice other = some (cube', slice') ∧
      cube'.id = cube.id ∧ slice.Alike slice' ∧
      (cube ∈ p.cubes → cube' ∈ (p.link key ptr).cubes) := by
  let view : Cube × Slice → (Nat × String) × Nat × Nat × Nat × Span :=
    fun pair => ((pair.1.ptr, pair.1.id), pair.2.ptr, pair.2.offset,
      pair.2.size, pair.2.page)
  have same := @view_link p ptr other _ view (fun _ _ _ _ _ => rfl) key
  rw [found] at same
  obtain ⟨⟨cube', slice'⟩, found', equal⟩ := Option.map_eq_some_iff.mp same
  simp only [view, Prod.mk.injEq] at equal
  obtain ⟨⟨name, id⟩, place, offset, size, page⟩ := equal
  refine ⟨cube', slice', found', id, ⟨place, offset, size, page⟩, ?_⟩
  intro registered
  rcases List.mem_append.mp (findSlice_mem found').1 with there | orphan
  · exact there
  · obtain ⟨old, within, moved⟩ := List.mem_map.mp orphan
    have kept : old.ptr = cube'.ptr := by
      rw [← moved]
      split
      · rfl
      · rfl
    exact absurd (kept.trans name).symm (named.not_both registered within)

/-- An attach that the process may make, and whose call is answered. -/
theorem attach_returned {p : Process} {ptr errno : Nat} {os : Nat → Reply}
    {cube : Cube} {slice : Slice} (found : p.findSlice ptr = some (cube, slice))
    (own : cube.pid = p.pid) (answered : (os 0).isDone = true) :
    returned (attach P ptr (p.enter errno os)) = some 0 := by
  have spec := @attach_spec P ptr (p.enter errno os) rfl
  have present : (p.enter errno os).findSlice ptr = some (cube, slice) := found
  have attaches : (p.enter errno os).Attaches ptr := by
    constructor
    · show (p.findSlice ptr).map (fun found => found.1.pid) = some p.pid
      rw [found, ← own]
      rfl
    · exact answered
  cases run : attach P ptr (p.enter errno os) with
  | ok result w' =>
      have ended := spec.of_ok run
      split at ended
      · rename_i zero
        rw [zero]
        rfl
      · exact absurd attaches ended.2.1
  | error reason w' =>
      have lost := (spec.of_error run).2.2
      rw [present] at lost
      cases lost

/-- One attach of a process of the tree. -/
theorem Family.boards_attach {ptr errno : Nat} {os : Nat → Reply} {cube : Cube}
    {slice : Slice} (reckoned : f.Reckoned P) (here : f.members owner = some m)
    (found : m.findSlice ptr = some (cube, slice)) (own : cube.pid = m.pid)
    (answered : (os 0).isDone = true) :
    ∃ f' m', Family.Boards P owner [ptr] f m f' m' ∧
      (Process.link cube.ptr ptr
        ((m.on f.files).protectPages P
          (wadd cube.page.addr slice.page.offset) slice.page.size
          .read)).Agrees m'.toProcess := by
  have attached := @attach_returned P (m.on f.files) ptr errno os cube slice
    found own answered
  have agrees := (attach_agrees (p := m.on f.files) found attached).2
  obtain ⟨f', step, there, files⟩ : ∃ f', Family.Step P f
      (.event owner ⟨.attach ptr, errno, os⟩) f' ∧
        f'.members owner =
          some (m.after P ⟨.attach ptr, errno, os⟩ f.files) ∧
        f'.files = (m.after P ⟨.attach ptr, errno, os⟩ f.files).files :=
    ⟨_, .event here ⟨trivial, fun _ made => by cases made⟩,
      Function.update_self _ _ _, rfl⟩
  refine ⟨f', m.after P ⟨.attach ptr, errno, os⟩ f.files, ?_, agrees⟩
  constructor
  · refine ⟨_, .cons step (.nil _), ?_⟩
    intro point member
    cases List.mem_singleton.mp member
    exact ⟨ptr, errno, os, rfl⟩
  · exact step.reckoned reckoned fun _ _ => trivial
  · exact there
  · exact (event_files (P := P) (p := m.on f.files) _).self
  · intro dir id
    unfold Family.file
    rw [files]
    exact Event.outcome_file (p := m.on f.files)
      (fun _ _ => Op.noConfusion)
      fun _ rewrites => rewrites.elim (fun made => by cases made) False.elim
  · intro other member cube' slice' found' registered
    cases List.mem_singleton.mp member
    exact (Family.ships_attach reckoned here found' registered attached step).1

/-- The next attach. -/
theorem Family.Boards.cons {ptr : Nat} {cube : Cube} {slice : Slice}
    (first : Family.Boards P owner [ptr] f m f' m') (named : m.Named)
    (agrees : (Process.link cube.ptr ptr
      ((m.on f.files).protectPages P (wadd cube.page.addr slice.page.offset)
        slice.page.size .read)).Agrees m'.toProcess)
    (rest : Family.Boards P owner ptrs f' m' f'' m'') :
    Family.Boards P owner (ptr :: ptrs) f m f'' m'' := by
  obtain ⟨attaches, run, only⟩ := first.run
  obtain ⟨later, run', only'⟩ := rest.run
  constructor
  · refine ⟨attaches ++ later, run.append run', ?_⟩
    intro point member
    rcases List.mem_append.mp member with early | late
    · exact only point early
    · exact only' point late
  · exact rest.reckoned
  · exact rest.here
  · exact rest.self.trans first.self
  · exact fun dir id => (rest.file dir id).trans (first.file dir id)
  · intro other member found slice' there registered
    rcases List.mem_cons.mp member with rfl | late
    · have ships := first.ships other List.mem_cons_self found slice' there
        registered
      exact Family.Ships.boards ships first.reckoned rest
    · let shut := (m.on f.files).protectPages P
        (wadd cube.page.addr slice.page.offset) slice.page.size .read
      have names : shut.Named := ⟨named.distinct, named.fresh⟩
      obtain ⟨found', slice'', there', same, alike, kept⟩ :=
        @findSlice_link shut cube.ptr ptr other found slice' names there
      have live : m'.live = (shut.link cube.ptr ptr).live := agrees.live
      have there' : m'.findSlice other = some (found', slice'') := by
        rw [Process.findSlice, live]
        exact there'
      have ships := rest.ships other late found' slice'' there'
        (agrees.cubes ▸ kept registered)
      rw [first.self, same] at ships
      exact Family.Ships.alike ships alike

end Boards

section Submission

variable {P : PageSize} {owner request response : Nat} {f : Family}
  {m : Relative} {w w' : World}

/-- One array of the loop over the arguments. -/
theorem attachSlot_boards {index : Nat} {array : ArrayArg} (free : w.held = [])
    (reckoned : f.Reckoned P) (here : f.members owner = some m)
    (mirrors : (m.on f.files).Mirrors w.toProcess) :
    Ensures (attachArguments P request index [.array array])
      (fun result w' => result = true → w'.held = [] ∧
        ∃ f' m', ∃ cube : Cube, ∃ slice : Slice,
          Family.Boards P owner [array.context] f m f' m' ∧
          (Process.link cube.ptr array.context
            ((m.on f.files).protectPages P
              (wadd cube.page.addr slice.page.offset) slice.page.size
              .read)).Agrees m'.toProcess ∧
          (m'.on f'.files).Mirrors w'.toProcess)
      (fun _ _ => True) w := by
  unfold attachArguments
  have writes := @writesOnly_attach P (fun _ => False) array.context w
  refine ensures_bind.mpr (((attach_spec free).and writes).mono ?_
    fun _ _ _ => trivial)
  intro result w₁ both
  obtain ⟨ended, writes⟩ := both
  split at ended
  · rename_i zero
    obtain ⟨attaches, cube, slice, attached⟩ := ended
    have found : m.findSlice array.context = some (cube, slice) :=
      (mirrors.findSlice array.context).symm.trans attached.found
    have own : cube.pid = m.pid := attached.own.trans mirrors.pid
    obtain ⟨f', m', boards, agrees⟩ := @Family.boards_attach P owner f m
      array.context w.errno w.os cube slice reckoned here found own attaches.2
    have mirrors₁ : (m'.on f'.files).Mirrors w₁.toProcess := by
      have onto : (Process.link cube.ptr array.context
          ((m.on f.files).protectPages P
            (wadd cube.page.addr slice.page.offset) slice.page.size
            .read)).Agrees (m'.on f'.files) :=
        ⟨agrees.pid, agrees.cubes, agrees.orphans, agrees.maps, agrees.prot,
          agrees.nextPtr⟩
      exact mirrors.attached onto attached.effect.agrees boards.self boards.file
        writes
    simp only [zero, ne_eq, not_true_eq_false, if_false]
    cases first : (w₁.os 0).isDone with
    | false => exact ensures_thrown first trivial
    | true =>
        apply Ensures.step (mayThrow_done first)
        apply ensures_derefSlice
        · exact fun _ => trivial
        · intro cube' slice' _
          apply ensures_derefRequest
          · exact fun _ => trivial
          · intro grpc _
            refine Ensures.step rfl ?_
            rw [attachArguments, ensures_pure]
            intro _
            refine ⟨attached.effect.held.trans free, f', m', cube, slice,
              boards, agrees, ?_⟩
            exact ⟨mirrors₁.pid, mirrors₁.self, mirrors₁.cubes,
              mirrors₁.orphans, mirrors₁.maps, mirrors₁.prot, mirrors₁.file⟩
  · rename_i failure
    simp only [ne_eq, failure, not_false_eq_true, if_true]
    rw [ensures_pure]
    exact fun success => by cases success

/-- The loop over the arguments attaches the arrays, one after the other. -/
theorem attachArguments_boards {index : Nat} {arguments : List Argument}
    (free : w.held = []) (reckoned : f.Reckoned P)
    (here : f.members owner = some m)
    (mirrors : (m.on f.files).Mirrors w.toProcess) :
    Ensures (attachArguments P request index arguments)
      (fun result w' => result = true → ∃ f' m',
        Family.Boards P owner (arrayContexts arguments) f m f' m' ∧
          (m'.on f'.files).Mirrors w'.toProcess)
      (fun _ _ => True) w := by
  induction arguments generalizing index w f m with
  | nil => exact fun _ => ⟨f, m, .nil reckoned here, mirrors⟩
  | cons argument arguments induction =>
      cases argument with
      | empty => exact induction free reckoned here mirrors
      | scalar bytes => exact induction free reckoned here mirrors
      | array array =>
          rw [attachArguments_cons]
          refine ensures_bind.mpr ((attachSlot_boards free reckoned here
            mirrors).mono ?_ fun _ _ _ => trivial)
          intro result w₁ ended
          cases result with
          | false =>
              rw [if_neg (by simp), ensures_pure]
              exact fun success => by cases success
          | true =>
              obtain ⟨free₁, f₁, m₁, cube, slice, first, agrees, mirrors₁⟩ :=
                ended rfl
              rw [if_pos rfl]
              apply (induction free₁ first.reckoned first.here mirrors₁).mono
              · intro result w₂ later success
                obtain ⟨f', m', rest, mirrors₂⟩ := later success
                have named := (reckoned.sound.members owner m here).laid.named
                exact ⟨f', m', first.cons named agrees rest, mirrors₂⟩
              · exact fun _ _ _ => trivial

/-- The queue and the message are no memory. -/
theorem agrees_send {p : Process} {grpc message : Request} {r : Response} :
    p.Agrees ((p.stamped request response grpc r).withQueue.send response
      message) :=
  withQueue_ind (fun queued => p.Agrees (queued.send response message))
    ⟨rfl, rfl, rfl, rfl, rfl, Nat.le_refl _⟩
    ⟨rfl, rfl, rfl, rfl, rfl, Nat.le_refl _⟩

/-- What follows the loop touches no memory. -/
theorem submitAttached_mirrors {p : Process} {grpc : Request}
    (free : w.held = []) (found : w.requests request = some grpc)
    (mirrors : p.Mirrors w.toProcess) :
    Ensures (submitAttached request response)
      (fun result w' => result = 0 → p.Mirrors w'.toProcess)
      (fun _ _ => True) w := by
  have writes := @writesOnly_submitAttached (fun _ => False) request response w
  refine ((submitAttached_spec free found).and writes).mono ?_
    fun _ _ _ => trivial
  intro result w' both zero
  obtain ⟨outcome, writes⟩ := both
  subst zero
  generalize ended : Except.ok (0 : Int) = last at outcome
  cases outcome with
  | @sent r w' known answered quiet =>
      have agrees := quiet.agrees
      have sends := @agrees_send request response w.toProcess grpc
        { grpc with metadata := some ⟨w.self, w.stamp⟩ } r
      apply mirrors.still _ writes
      exact ⟨agrees.pid.trans sends.pid, agrees.cubes.trans sends.cubes,
        agrees.orphans.trans sends.orphans, agrees.maps.trans sends.maps,
        agrees.prot.trans sends.prot, Nat.le_trans sends.nextPtr agrees.nextPtr⟩
  | short => cases ended
  | early => cases ended
  | lost => cases ended
  | unmarked => cases ended
  | starved => cases ended
  | unsent => cases ended

/-- A submission attaches the arrays of its request, and touches no other
memory. -/
theorem inaccelSubmit_boards {grpc : Request} (free : w.held = [])
    (found : w.requests request = some grpc) (reckoned : f.Reckoned P)
    (here : f.members owner = some m)
    (mirrors : (m.on f.files).Mirrors w.toProcess) :
    Ensures (inaccelSubmit P request response)
      (fun result w' => result = 0 → ∃ f' m',
        Family.Boards P owner (arrayContexts grpc.arguments) f m f' m' ∧
          (m'.on f'.files).Mirrors w'.toProcess)
      (fun _ _ => True) w := by
  have thrown : ∀ {reason : Stop} {w' : World},
      caught (.error reason) = .ok 0 → ∃ f' m',
        Family.Boards P owner (arrayContexts grpc.arguments) f m f' m' ∧
          (m'.on f'.files).Mirrors w'.toProcess := by
    intro reason w' zero
    cases caught_zero.mp zero
  unfold inaccelSubmit
  split
  · exact Ensures.step rfl fun zero => by cases zero
  · let outcome (result : Except Stop Int) (w' : World) : Prop :=
      result = .ok 0 → ∃ f' m',
        Family.Boards P owner (arrayContexts grpc.arguments) f m f' m' ∧
          (m'.on f'.files).Mirrors w'.toProcess
    refine (@ensures_caught _ w outcome ?_).mono
      (fun _ _ ended zero => ended (congrArg Except.ok zero))
      fun _ _ _ => trivial
    unfold submitBody
    cases first : (w.os 0).isDone with
    | false => exact ensures_thrown first thrown
    | true =>
        apply Ensures.step (mayThrow_done first)
        apply ensures_derefRequest
        · exact fun _ => thrown
        · intro grpc' found'
          cases found.symm.trans found'
          have free : w.asked.held = [] := free
          have mirrors : (m.on f.files).Mirrors w.asked.toProcess := mirrors
          refine ensures_bind.mpr (((attachArguments_boards free reckoned here
            mirrors).and (attachArguments_spec free found'
              (List.append_nil _).symm)).mono ?_ fun _ _ _ => thrown)
          intro attached w₁ both
          obtain ⟨ended, loop⟩ := both
          cases attached with
          | false =>
              rw [if_neg (by simp), ensures_pure]
              exact fun zero => by cases zero
          | true =>
              obtain ⟨f', m', boards, mirrors₁⟩ := ended rfl
              obtain ⟨ptrs, links⟩ := loop.links
              obtain ⟨grpc₁, found₁, -⟩ := links.found found'
              rw [if_pos rfl]
              refine (submitAttached_mirrors (links.held.trans free) found₁
                mirrors₁).mono ?_ fun _ _ _ => thrown
              intro result w₂ kept zero
              have zero : result = 0 := Except.ok.inj (caught_zero.mp zero)
              exact ⟨f', m', boards, kept zero⟩

/-- Until the detach of an array, a server that follows the message reads in it
what the submitting process saw there, but for what the server itself has
stored.  The process then sees the same, and still does after the detach. -/
theorem submission_returned {root errno : Nat} {self : String}
    {os : Nat → Reply} {past : List (Family × Exchange)} {rpc : Rpc}
    (run : Run (Exchange.Step P) (.loaded root self) past f)
    (paired : ∀ point ∈ past, point.2.Paired point.1)
    (here : f.members owner = some m)
    (sent : inaccelSubmit P request response
      ((m.serving rpc f.files).enter errno os) = .ok 0 w') :
    ∃ message f' m',
      w'.pending = rpc.pending ++ [⟨response, message⟩] ∧
      message.metadata = some ⟨m.self, rpc.stamp⟩ ∧
      (∃ attaches, Run (Family.Step P) f attaches f' ∧
        ∀ point ∈ attaches, point.2.Attaches owner) ∧
      f'.members owner = some m' ∧ (m'.on f'.files).Mirrors w'.toProcess ∧
      ∀ array, Argument.array array ∈ message.arguments →
        ∃ cube slice, m.findSlice array.context = some (cube, slice) ∧
          (cube ∈ m.cubes → ∀ future finish,
            Run (Exchange.Step P) f' future finish →
            (∀ point ∈ future, point.2.Paired point.1) →
            (∀ point ∈ future,
              point.2.Carries P owner array.context point.1) →
            ∀ index < array.size, ∀ byte,
              (m.on f.files).loadByte
                  (cube.page.addr + array.offset + index) = some byte →
                finish.Returns P owner array.context m.self array.id
                  (array.offset + index)
                  (Exchange.left m.self array.id (array.offset + index) future
                    byte)) := by
  have reckoned := Family.reckoned_exchanges run paired
  obtain ⟨grpc, message, found, pending, metadata, arrays⟩ :=
    inaccelSubmit_message sent
  have mirrors : (m.on f.files).Mirrors (m.serving rpc f.files) :=
    ⟨rfl, rfl, rfl, rfl, rfl, rfl, fun _ _ => rfl⟩
  obtain ⟨f', m', boards, mirrors'⟩ := (@inaccelSubmit_boards P owner request
    response f m ((m.serving rpc f.files).enter errno os) grpc rfl found
    reckoned here mirrors).of_ok sent rfl
  refine ⟨message, f', m', pending, metadata, boards.run, boards.here, mirrors',
    ?_⟩
  intro array member
  obtain ⟨listed, cube, slice, there, own, same⟩ := arrays array member
  refine ⟨cube, slice, there, ?_⟩
  intro registered future finish rest paired' carries index below byte read
  have there : m.findSlice array.context = some (cube, slice) := there
  have ships := boards.ships array.context listed cube slice there registered
  obtain ⟨-, inside, name⟩ := findSlice_mem there
  have offset : array.offset = slice.offset := by rw [same]
  have size : array.size = slice.size := by rw [same]
  have id : array.id = cube.id := by rw [same]
  rw [size] at below
  rw [offset, reckoned.load here there registered own below] at read
  rw [← name] at carries ⊢
  rw [offset, id]
  apply ships.returns boards.reckoned rest paired' carries
  · exact ⟨Nat.le_add_right _ _, Nat.add_lt_add_left below _⟩
  · unfold Family.loadFile at read ⊢
    rw [boards.file]
    exact read

end Submission

/-- A server stores to the argument of a request for the slice of
`Relative.stocked`, whose block then grows and is freed. -/
theorem submission_returned_freed :
    ∃ (f f' finish : Family) (past future : List (Family × Exchange))
      (w' : World) (message : Request) (array : ArrayArg),
      Run (Exchange.Step .small) (.loaded 1 "d") past f ∧
      inaccelSubmit .small 3 4 ((Relative.stocked.serving .asking
        Relative.stocked.files).enter 0 succeeds) = .ok 0 w' ∧
      w'.pending = [⟨4, message⟩] ∧ Argument.array array ∈ message.arguments ∧
      (Relative.stocked.on Relative.stocked.files).loadByte 65536 = some 7 ∧
      Run (Exchange.Step .small) f' future finish ∧ future.length = 3 ∧
      finish.Returns .small 1 array.context "d" array.id array.offset 9 := by
  obtain ⟨f₂, past, run, paired, here₂, -, files₂⟩ := Relative.stocked_reached
  have sent := Program.eq_ok_final (show returned (inaccelSubmit .small 3 4
    ((Relative.stocked.serving .asking Relative.stocked.files).enter 0
      succeeds)) = some 0 by decide +kernel)
  obtain ⟨calls, flies⟩ : (final (inaccelSubmit .small 3 4
      ((Relative.stocked.serving .asking Relative.stocked.files).enter 0
        succeeds))).pending =
        [⟨4, ⟨"k", [.array ⟨2, "a", 0, 1, 0⟩], some ⟨"d", 0⟩⟩⟩] ∧
      ∃ cube ∈ (final (inaccelSubmit .small 3 4
        ((Relative.stocked.serving .asking Relative.stocked.files).enter 0
          succeeds))).live, cube.pid = 1 ∧ cube.id = "a" ∧
        ∃ slice ∈ cube.slices, 0 < slice.nlinks ∧ slice.offset ≤ 0 ∧
          0 < slice.offset + slice.size := by
    decide +kernel
  have sent' := sent
  rw [← files₂] at sent'
  obtain ⟨message, f', m', pending, -, -, here', mirrors, returns⟩ :=
    submission_returned run paired here₂ sent'
  rw [files₂] at returns pending mirrors
  have sends : message =
      ⟨"k", [.array ⟨2, "a", 0, 1, 0⟩], some ⟨"d", 0⟩⟩ := by
    have same : [PendingCall.mk 4 message] = _ := pending.symm.trans calls
    simpa using same
  have flight : f'.InFlight "d" "a" 0 := by
    obtain ⟨cube, live, own, rest⟩ := flies
    refine ⟨1, m', here', mirrors.self.symm, cube, ?_, ?_, rest⟩
    · rw [mirrors.live] at live
      exact live
    · exact own.trans mirrors.pid
  obtain ⟨f₃, m₃, grown, here₃⟩ : ∃ f m, Family.Step .small
      (f'.served "d" "a" 0 9) (.event 1 (.smooth (.realloc 65536 8192) 131072))
        f ∧ f.members 1 = some m :=
    ⟨_, _, .event here' ⟨show 8192 < wordSize by decide,
      by simp [Event.smooth, Event.made]⟩, rfl⟩
  obtain ⟨f₄, freed⟩ : ∃ f, Family.Step .small f₃
      (.event 1 (.smooth (.free 131072) 0)) f :=
    ⟨_, .event here₃ ⟨trivial, by simp [Event.smooth, Event.made]⟩⟩
  have rest : Run (Exchange.Step .small) f' _ f₄ :=
    .cons (.serve flight) (.cons (.act grown) (.cons (.act freed) (.nil _)))
  subst sends
  obtain ⟨cube, registered, slice, -, found, base⟩ :
      ∃ cube ∈ Relative.stocked.cubes, ∃ slice ∈ cube.slices,
        Relative.stocked.findSlice 2 = some (cube, slice) ∧
          cube.page.addr = 65536 := by decide +kernel
  have read : (Relative.stocked.on Relative.stocked.files).loadByte 65536 =
      some 7 := by decide +kernel
  refine ⟨f₂, f', f₄, _, _, _, _, ⟨2, "a", 0, 1, 0⟩, run, sent, calls,
    List.mem_cons_self, read, rest, rfl, ?_⟩
  obtain ⟨cube', slice', found', reads⟩ := returns ⟨2, "a", 0, 1, 0⟩
    List.mem_cons_self
  cases found.symm.trans found'
  have left := reads registered _ _ rest ?_ ?_ 0 (by decide) 7
    (by rw [base]; exact read)
  · exact left
  · intro point later
    rcases List.mem_cons.mp later with rfl | later
    · trivial
    rcases List.mem_cons.mp later with rfl | later
    · exact fun _ _ => trivial
    rcases List.mem_cons.mp later with rfl | later
    · exact fun _ _ => trivial
    · cases later
  · intro point later
    rcases List.mem_cons.mp later with rfl | later
    · trivial
    rcases List.mem_cons.mp later with rfl | later
    · intro _ m _
      constructor
      · trivial
      · simp only [Event.effect, Event.smooth]
        split
        · trivial
        · trivial
      · intro addr newSize same
        cases same
        decide
    rcases List.mem_cons.mp later with rfl | later
    · intro _ m _
      exact ⟨trivial, trivial, fun _ _ => Op.noConfusion⟩
    · cases later

end CoralApi
