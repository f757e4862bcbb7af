import CoralApi.World
import Mathlib.Data.List.Nodup
import Mathlib.Logic.Function.Basic

/-!
# Directories and their janitors

`__init` of `self.c` makes a directory for the files of its process and forks
a janitor, which waits for the end of the process and removes the directory.
A process whose `mkdtemp` fails goes on with the directory that its parent
uses, or with `INACCEL_SHM` itself, whose name is empty here.
-/

namespace CoralApi

def ESRCH : Errno := ⟨3, by decide⟩

/-- Where a janitor is. -/
inductive Chore where
  /-- before `__session` -/
  | starting
  /-- in the loop that sleeps and looks for the process -/
  | watching
  /-- in `__remove`, with these entries of the directory still to remove -/
  | removing (entries : List String)
  /-- has removed the directory, the last step of `__remove` -/
  | leaving
  /-- has called `__exit` -/
  | exited (status : Nat)
  /-- ended by a signal -/
  | killed
  deriving DecidableEq

/-- The janitor has not ended. -/
def Chore.Busy : Chore → Prop
  | exited _ | killed => False
  | _ => True

/-- The janitor has seen the end of the process. -/
def Chore.Late : Chore → Prop
  | removing _ | leaving | exited 0 => True
  | _ => False

/-- The janitor may still remove the directory. -/
def Chore.Early : Chore → Prop
  | starting | watching | removing _ => True
  | _ => False

/-- The janitor has removed the directory. -/
def Chore.Done : Chore → Prop
  | leaving | exited 0 => True
  | _ => False

structure Janitor where
  /-- the process that has forked it -/
  pid : Nat
  path : String
  chore : Chore
  /-- log: it has removed the directory -/
  cleared : Bool

/-- The log of a janitor agrees with where it is. -/
structure Janitor.Logged (janitor : Janitor) : Prop where
  early : janitor.chore.Early → janitor.cleared = false
  done : janitor.chore.Done → janitor.cleared = true

/-- The directories in `INACCEL_SHM`, with the processes that use them. -/
structure Estate where
  dirs : List String
  janitors : List Janitor
  /-- the process is behind `__mkself` and before the fork of its janitor -/
  entering : Nat → Bool
  ended : Nat → Bool
  /-- log: the process that made the directory that a process uses -/
  host : Nat → Option Nat

namespace Estate

/-- No process has loaded the library yet. -/
def bare : Estate :=
  ⟨[""], [], fun _ => false, fun _ => false, fun _ => none⟩

/-- `__mkself`, in a process whose memory names the directory of a host. -/
def makeSelf (pid : Nat) (host : Option Nat) (reply : Reply) (e : Estate) :
    Estate :=
  match reply with
  | .done _ name =>
      { e with
        dirs := name :: e.dirs
        entering := Function.update e.entering pid true
        host := Function.update e.host pid (some pid) }
  | .failed _ => { e with host := Function.update e.host pid host }

/-- `__fork` in `__init` -/
def hire (pid : Nat) (path : String) (reply : Reply) (e : Estate) : Estate :=
  { e with
    entering := Function.update e.entering pid false
    janitors := if reply.isDone then e.janitors ++ [⟨pid, path, .starting, false⟩]
      else e.janitors }

def exit (pid : Nat) (e : Estate) : Estate :=
  { e with ended := Function.update e.ended pid true }

def modifyJanitor (pid : Nat) (change : Janitor → Janitor) (e : Estate) :
    Estate :=
  { e with
    janitors := e.janitors.map fun janitor =>
      if janitor.pid = pid then change janitor else janitor }

/-- The janitor of a process goes on. -/
def turn (pid : Nat) (chore : Chore) (e : Estate) : Estate :=
  e.modifyJanitor pid fun janitor => { janitor with chore := chore }

/-- The janitor of a process removes the directory, behind its entries. -/
def rmdir (pid : Nat) (path : String) (e : Estate) : Estate :=
  { e.modifyJanitor pid fun janitor =>
      { janitor with chore := .leaving, cleared := true } with
    dirs := e.dirs.filter fun dir => dir ≠ path }

/-- The process has made this directory. -/
def Owns (selves : Nat → Option String) (e : Estate) (owner : Nat)
    (dir : String) : Prop :=
  e.host owner = some owner ∧ selves owner = some dir

/-- The janitor of the process has removed the directory. -/
def Cleared (e : Estate) (owner : Nat) : Prop :=
  ∃ janitor ∈ e.janitors, janitor.pid = owner ∧ janitor.cleared = true

/-- Neither the process nor its host has ended. -/
def Safe (e : Estate) (pid : Nat) : Prop :=
  e.ended pid = false ∧ ∀ owner, e.host pid = some owner →
    e.ended owner = false

/-- The directory that a process uses has this host. -/
def Hosts (selves : Nat → Option String) (e : Estate) (host : Option Nat)
    (dir : String) : Prop :=
  host = none ∧ dir = "" ∨ ∃ owner, host = some owner ∧ e.Owns selves owner dir

/-- The directories are those that were made and that no janitor has removed
yet. -/
structure Accounted (selves : Nat → Option String) (e : Estate) : Prop where
  named : ∀ owner dir, e.Owns selves owner dir → dir ≠ ""
  there : ∀ dir, dir ∈ e.dirs ↔
    dir = "" ∨ ∃ owner, e.Owns selves owner dir ∧ ¬e.Cleared owner
  apart : ∀ owner other dir, e.Owns selves owner dir →
    e.Owns selves other dir → ¬e.Cleared owner → ¬e.Cleared other →
      owner = other

/-- Directories, processes and janitors belong together. -/
structure Kept (selves : Nat → Option String) (e : Estate) : Prop
    extends e.Accounted selves where
  absent : ∀ pid, selves pid = none →
    e.host pid = none ∧ e.ended pid = false ∧ e.entering pid = false
  hosted : ∀ pid dir, selves pid = some dir → e.Hosts selves (e.host pid) dir
  entering : ∀ pid, e.entering pid = true → e.host pid = some pid
  janitors : ∀ janitor ∈ e.janitors,
    e.Owns selves janitor.pid janitor.path ∧ e.entering janitor.pid = false
  late : ∀ janitor ∈ e.janitors, janitor.chore.Late ∨ janitor.cleared = true →
    e.ended janitor.pid = true
  logged : ∀ janitor ∈ e.janitors, janitor.Logged
  once : (e.janitors.map Janitor.pid).Nodup

section Kept

variable {selves : Nat → Option String} {e e' : Estate} {pid owner other : Nat}
  {dir path name : String} {janitor : Janitor} {chore : Chore} {reply : Reply}

theorem kept_bare : bare.Kept fun _ => none := by
  refine ⟨⟨?_, ?_, ?_⟩, fun _ _ => ⟨rfl, rfl, rfl⟩, ?_, ?_, ?_, ?_, ?_, ?_⟩
  · simp [Owns]
  · simp [Owns, bare]
  · simp [Owns]
  · simp
  · simp [bare]
  · simp [bare]
  · simp [bare]
  · simp [bare]
  · simp [bare]

theorem Kept.not_cleared (kept : e.Kept selves) (new : selves pid = none) :
    ¬e.Cleared pid := by
  intro cleared
  obtain ⟨janitor, member, same, -⟩ := cleared
  have owns := (kept.janitors janitor member).1
  rw [same, Owns, new] at owns
  cases owns.2

/-- A janitor is alone with its process. -/
theorem Kept.janitor_eq (kept : e.Kept selves) {janitor' : Janitor}
    (member : janitor ∈ e.janitors) (member' : janitor' ∈ e.janitors)
    (same : janitor'.pid = janitor.pid) : janitor' = janitor :=
  List.inj_on_of_nodup_map kept.once member' member same

theorem Kept.early (kept : e.Kept selves) (member : janitor ∈ e.janitors)
    (early : janitor.chore.Early) : ¬e.Cleared janitor.pid := by
  intro cleared
  obtain ⟨janitor', member', same, cleared⟩ := cleared
  rw [kept.janitor_eq member member' same,
    (kept.logged janitor member).early early] at cleared
  cases cleared

/-- A process that has not ended has its directory. -/
theorem Kept.home (kept : e.Kept selves) (host : e.Owns selves owner dir)
    (alive : e.ended owner = false) : ¬e.Cleared owner ∧ dir ∈ e.dirs := by
  have open' : ¬e.Cleared owner := by
    intro cleared
    obtain ⟨janitor, member, same, cleared⟩ := cleared
    have late := kept.late janitor member (.inr cleared)
    rw [same, alive] at late
    cases late
  exact ⟨open', (kept.there dir).mpr (.inr ⟨owner, host, open'⟩)⟩

/-- The directory of a safe process is there. -/
theorem Kept.safe (kept : e.Kept selves) (here : selves pid = some dir)
    (safe : e.Safe pid) : dir ∈ e.dirs := by
  rcases kept.hosted pid dir here with ⟨-, rfl⟩ | ⟨owner, host, owns⟩
  · exact (kept.there "").mpr (.inl rfl)
  · exact (kept.home owns (safe.2 owner host)).2

/-- A directory that a janitor removes is not that of a safe process. -/
theorem Kept.elsewhere (kept : e.Kept selves) (here : selves pid = some dir)
    (safe : e.Safe pid) (member : janitor ∈ e.janitors)
    (early : janitor.chore.Early) (late : janitor.chore.Late) :
    dir ≠ janitor.path := by
  intro same
  obtain ⟨owns, -⟩ := kept.janitors janitor member
  rcases kept.hosted pid dir here with ⟨-, root⟩ | ⟨owner, host, owns'⟩
  · exact kept.named janitor.pid janitor.path owns (same.symm.trans root)
  · have alive := safe.2 owner host
    have one := kept.apart owner janitor.pid dir owns' (same ▸ owns)
      (kept.home owns' alive).1 (kept.early member early)
    have ended := kept.late janitor member (.inl late)
    rw [← one, alive] at ended
    cases ended

theorem owns_new (new : selves pid = none) (owns : e.Owns selves owner dir) :
    owner ≠ pid := by
  intro same
  rw [same, Owns, new] at owns
  cases owns.2

/-- The owners when a new process has got its name. -/
theorem owns_update (new : selves pid = none)
    (host : ∀ other, other ≠ pid → e'.host other = e.host other) :
    e'.Owns (Function.update selves pid (some name)) owner dir ↔
      e.Owns selves owner dir ∨
        owner = pid ∧ dir = name ∧ e'.host pid = some pid := by
  by_cases same : owner = pid
  · subst same
    constructor
    · intro owns
      have named := owns.2
      rw [Function.update_self] at named
      exact .inr ⟨rfl, (Option.some.inj named).symm, owns.1⟩
    · intro owns
      rcases owns with old | ⟨-, rfl, made⟩
      · exact absurd rfl (owns_new new old)
      · exact ⟨made, Function.update_self ..⟩
  · simp [Owns, same, host owner same]

theorem none_update
    (absent : Function.update selves pid (some name) other = none) :
    other ≠ pid ∧ selves other = none := by
  by_cases same : other = pid
  · rw [same, Function.update_self] at absent
    cases absent
  · rw [Function.update_of_ne same] at absent
    exact ⟨same, absent⟩

/-- The account hangs on the owners, on the directories and on the janitors
that have ended well. -/
theorem Accounted.of_same {selves' : Nat → Option String}
    (accounted : e.Accounted selves) (dirs : e'.dirs = e.dirs)
    (owns : ∀ owner dir, e'.Owns selves' owner dir ↔ e.Owns selves owner dir)
    (cleared : ∀ owner, e'.Cleared owner ↔ e.Cleared owner) :
    e'.Accounted selves' := by
  constructor
  · intro owner dir now
    exact accounted.named owner dir ((owns owner dir).mp now)
  · intro dir
    rw [dirs, accounted.there dir]
    simp only [owns, cleared]
  · intro owner other dir left right
    rw [cleared, cleared]
    exact accounted.apart owner other dir ((owns owner dir).mp left)
      ((owns other dir).mp right)

theorem Hosts.mono {selves' : Nat → Option String} {host : Option Nat}
    (hosts : e.Hosts selves host dir)
    (owns : ∀ owner dir, e.Owns selves owner dir → e'.Owns selves' owner dir) :
    e'.Hosts selves' host dir := by
  rcases hosts with root | ⟨owner, known, old⟩
  · exact .inl root
  · exact .inr ⟨owner, known, owns owner dir old⟩

/-- A directory is made for a new process. -/
theorem Kept.makeSelf_done (kept : e.Kept selves) (new : selves pid = none)
    (fresh : name ∉ e.dirs) (host : Option Nat) (value : Nat) :
    (e.makeSelf pid host (.done value name)).Kept
      (Function.update selves pid (some name)) := by
  have self : (e.makeSelf pid host (.done value name)).host pid = some pid :=
    Function.update_self ..
  have hosts : ∀ other, other ≠ pid →
      (e.makeSelf pid host (.done value name)).host other = e.host other :=
    fun other different => Function.update_of_ne different ..
  have owns : ∀ owner dir, (e.makeSelf pid host (.done value name)).Owns
      (Function.update selves pid (some name)) owner dir ↔
        e.Owns selves owner dir ∨ owner = pid ∧ dir = name := by
    intro owner dir
    simp [owns_update new hosts, self]
  have unused : ∀ owner, e.Owns selves owner name → e.Cleared owner := by
    intro owner old
    by_contra open'
    exact fresh ((kept.there name).mpr (.inr ⟨owner, old, open'⟩))
  have free := kept.not_cleared new
  refine ⟨⟨?_, ?_, ?_⟩, ?_, ?_, ?_, ?_, kept.late, kept.logged,
    kept.once⟩
  · intro owner dir now
    rcases (owns owner dir).mp now with old | ⟨-, rfl⟩
    · exact kept.named owner dir old
    · intro root
      exact fresh ((kept.there dir).mpr (.inl root))
  · intro dir
    have listed : dir ∈ (e.makeSelf pid host (.done value name)).dirs ↔
        dir = name ∨ dir ∈ e.dirs := List.mem_cons
    rw [listed, kept.there dir]
    constructor
    · intro known
      rcases known with rfl | root | ⟨owner, old, open'⟩
      · exact .inr ⟨pid, (owns pid dir).mpr (.inr ⟨rfl, rfl⟩), free⟩
      · exact .inl root
      · exact .inr ⟨owner, (owns owner dir).mpr (.inl old), open'⟩
    · intro known
      rcases known with root | ⟨owner, now, open'⟩
      · exact .inr (.inl root)
      · rcases (owns owner dir).mp now with old | ⟨-, rfl⟩
        · exact .inr (.inr ⟨owner, old, open'⟩)
        · exact .inl rfl
  · intro owner other dir left right open₁ open₂
    rcases (owns owner dir).mp left with old | ⟨rfl, rfl⟩
    · rcases (owns other dir).mp right with old' | ⟨rfl, rfl⟩
      · exact kept.apart owner other dir old old' open₁ open₂
      · exact absurd (unused owner old) open₁
    · rcases (owns other dir).mp right with old' | ⟨rfl, -⟩
      · exact absurd (unused other old') open₂
      · rfl
  · intro other absent
    obtain ⟨different, absent⟩ := none_update absent
    obtain ⟨host, ended, entering⟩ := kept.absent other absent
    exact ⟨(hosts other different).trans host, ended,
      (Function.update_of_ne different ..).trans entering⟩
  · intro other dir here
    by_cases same : other = pid
    · subst same
      rw [Function.update_self] at here
      exact .inr ⟨other, self, (owns other dir).mpr
        (.inr ⟨rfl, (Option.some.inj here).symm⟩)⟩
    · rw [Function.update_of_ne same] at here
      rw [hosts other same]
      exact (kept.hosted other dir here).mono fun owner dir old =>
        (owns owner dir).mpr (.inl old)
  · intro other entering
    by_cases same : other = pid
    · rw [same]
      exact self
    · rw [hosts other same]
      exact kept.entering other
        ((Function.update_of_ne same ..).symm.trans entering)
  · intro janitor member
    obtain ⟨old, entering⟩ := kept.janitors janitor member
    exact ⟨(owns _ _).mpr (.inl old),
      (Function.update_of_ne (owns_new new old) ..).trans entering⟩

/-- A new process goes on with a directory that is in use. -/
theorem Kept.makeSelf_failed (kept : e.Kept selves) (new : selves pid = none)
    {host : Option Nat} (hosts : e.Hosts selves host dir) (error : Errno) :
    (e.makeSelf pid host (.failed error)).Kept
      (Function.update selves pid (some dir)) := by
  have given : (e.makeSelf pid host (.failed error)).host pid = host :=
    Function.update_self ..
  have others : ∀ other, other ≠ pid →
      (e.makeSelf pid host (.failed error)).host other = e.host other :=
    fun other different => Function.update_of_ne different ..
  have foreign : host ≠ some pid := by
    intro same
    rcases hosts with ⟨none', -⟩ | ⟨owner, known, owns⟩
    · rw [none'] at same
      cases same
    · rw [known] at same
      exact owns_new new owns (Option.some.inj same)
  have owns : ∀ owner dir', (e.makeSelf pid host (.failed error)).Owns
      (Function.update selves pid (some dir)) owner dir' ↔
        e.Owns selves owner dir' := by
    intro owner dir'
    simp [owns_update new others, given, foreign]
  refine ⟨kept.of_same rfl owns fun _ => Iff.rfl, ?_, ?_, ?_, ?_, kept.late,
    kept.logged, kept.once⟩
  · intro other absent
    obtain ⟨different, absent⟩ := none_update absent
    obtain ⟨host, rest⟩ := kept.absent other absent
    exact ⟨(others other different).trans host, rest⟩
  · intro other dir' here
    have keeps := fun owner dir' => (owns owner dir').mpr
    by_cases same : other = pid
    · subst same
      rw [Function.update_self] at here
      rw [given, ← Option.some.inj here]
      exact hosts.mono keeps
    · rw [Function.update_of_ne same] at here
      rw [others other same]
      exact (kept.hosted other dir' here).mono keeps
  · intro other entering
    have different : other ≠ pid := by
      intro same
      have waits := (kept.absent pid new).2.2
      rw [← same] at waits
      exact absurd (entering.symm.trans waits) (by decide)
    exact (others other different).trans (kept.entering other entering)
  · intro janitor member
    obtain ⟨old, entering⟩ := kept.janitors janitor member
    exact ⟨(owns _ _).mpr old, entering⟩

/-- `__init` forks the janitor, or fails to. -/
theorem Kept.hire (kept : e.Kept selves) (entering : e.entering pid = true)
    (here : selves pid = some path) (reply : Reply) :
    (e.hire pid path reply).Kept selves := by
  have listed : ∀ janitor, janitor ∈ (e.hire pid path reply).janitors →
      janitor ∈ e.janitors ∨ janitor = ⟨pid, path, .starting, false⟩ := by
    intro janitor member
    simp only [Estate.hire] at member
    split at member
    · simpa using member
    · exact .inl member
  have old : ∀ janitor ∈ e.janitors,
      janitor ∈ (e.hire pid path reply).janitors := by
    intro janitor member
    simp only [Estate.hire]
    split
    · exact List.mem_append_left _ member
    · exact member
  have served : ∀ janitor ∈ e.janitors, janitor.pid ≠ pid := by
    intro janitor member same
    have done := (kept.janitors janitor member).2
    rw [same, entering] at done
    cases done
  have cleared : ∀ owner, (e.hire pid path reply).Cleared owner ↔
      e.Cleared owner := by
    intro owner
    constructor
    · intro now
      obtain ⟨janitor, member, same, cleared⟩ := now
      rcases listed janitor member with member | rfl
      · exact ⟨janitor, member, same, cleared⟩
      · cases cleared
    · intro before
      obtain ⟨janitor, member, rest⟩ := before
      exact ⟨janitor, old janitor member, rest⟩
  refine ⟨kept.of_same rfl (fun _ _ => Iff.rfl) cleared, ?_, kept.hosted, ?_,
    ?_, ?_, ?_, ?_⟩
  · intro other absent
    have different : other ≠ pid := by
      intro same
      rw [same, here] at absent
      cases absent
    obtain ⟨host, ended, waits⟩ := kept.absent other absent
    exact ⟨host, ended, (Function.update_of_ne different ..).trans waits⟩
  · intro other waits
    have different : other ≠ pid := by
      intro same
      rw [same] at waits
      exact absurd ((Function.update_self ..).symm.trans waits) (by decide)
    exact kept.entering other
      ((Function.update_of_ne different ..).symm.trans waits)
  · intro janitor member
    rcases listed janitor member with member | rfl
    · obtain ⟨owns, waits⟩ := kept.janitors janitor member
      exact ⟨owns, (Function.update_of_ne (served janitor member) ..).trans
        waits⟩
    · exact ⟨⟨kept.entering pid entering, here⟩, Function.update_self ..⟩
  · intro janitor member late
    rcases listed janitor member with member | rfl
    · exact kept.late janitor member late
    · rcases late with late | cleared
      · exact late.elim
      · cases cleared
  · intro janitor member
    rcases listed janitor member with member | rfl
    · exact kept.logged janitor member
    · exact ⟨fun _ => rfl, False.elim⟩
  · simp only [Estate.hire]
    split
    · rw [List.map_append]
      refine List.nodup_append.mpr ⟨kept.once, List.nodup_singleton _, ?_⟩
      intro left known right new
      obtain ⟨janitor, member, rfl⟩ := List.mem_map.mp known
      rw [List.mem_singleton.mp new]
      exact served janitor member
    · exact kept.once

theorem Kept.exit (kept : e.Kept selves) (here : selves pid = some dir) :
    (e.exit pid).Kept selves := by
  refine ⟨kept.of_same rfl (fun _ _ => Iff.rfl) fun _ => Iff.rfl, ?_,
    kept.hosted, kept.entering, kept.janitors, ?_, kept.logged, kept.once⟩
  · intro other absent
    have different : other ≠ pid := by
      intro same
      rw [same, here] at absent
      cases absent
    obtain ⟨host, ended, entering⟩ := kept.absent other absent
    exact ⟨host, (Function.update_of_ne different ..).trans ended, entering⟩
  · intro janitor member late
    have ended := kept.late janitor member late
    by_cases same : janitor.pid = pid
    · rw [same]
      exact Function.update_self ..
    · exact (Function.update_of_ne same ..).trans ended

theorem mem_modifyJanitor {change : Janitor → Janitor} :
    janitor ∈ (e.modifyJanitor pid change).janitors ↔
      (janitor ∈ e.janitors ∧ janitor.pid ≠ pid) ∨
        ∃ before ∈ e.janitors, before.pid = pid ∧ janitor = change before := by
  simp only [modifyJanitor, List.mem_map]
  constructor
  · intro turned
    obtain ⟨before, member, same⟩ := turned
    by_cases mine : before.pid = pid
    · rw [if_pos mine] at same
      exact .inr ⟨before, member, mine, same.symm⟩
    · rw [if_neg mine] at same
      exact .inl ⟨same ▸ member, same ▸ mine⟩
  · intro turned
    rcases turned with ⟨member, other⟩ | ⟨before, member, mine, same⟩
    · exact ⟨janitor, member, if_neg other⟩
    · exact ⟨before, member, (if_pos mine).trans same.symm⟩

theorem map_pid_modifyJanitor {change : Janitor → Janitor}
    (same : ∀ janitor, (change janitor).pid = janitor.pid) :
    (e.modifyJanitor pid change).janitors.map Janitor.pid =
      e.janitors.map Janitor.pid := by
  simp only [modifyJanitor, List.map_map]
  apply List.map_congr_left
  intro janitor member
  simp only [Function.comp]
  split
  · exact same janitor
  · rfl

/-- One janitor changes, and what the account says of it. -/
theorem Kept.modifyJanitor (kept : e.Kept selves) (member : janitor ∈ e.janitors)
    (change : Janitor → Janitor)
    (pid : ∀ janitor, (change janitor).pid = janitor.pid)
    (path : ∀ janitor, (change janitor).path = janitor.path)
    {dirs : List String}
    (late : (change janitor).chore.Late ∨ (change janitor).cleared = true →
      e.ended janitor.pid = true)
    (logged : (change janitor).Logged)
    (accounted : ({ e.modifyJanitor janitor.pid change with
      dirs := dirs }).Accounted selves) :
    ({ e.modifyJanitor janitor.pid change with dirs := dirs }).Kept selves := by
  refine ⟨accounted, kept.absent, kept.hosted, kept.entering, ?_, ?_, ?_, ?_⟩
  · intro other turned
    rcases mem_modifyJanitor.mp turned with ⟨old, -⟩ | ⟨before, old, -, rfl⟩
    · exact kept.janitors other old
    · rw [pid, path]
      exact kept.janitors before old
  · intro other turned past
    rcases mem_modifyJanitor.mp turned with ⟨old, -⟩ | ⟨before, old, mine, rfl⟩
    · exact kept.late other old past
    · rw [kept.janitor_eq member old mine] at past ⊢
      rw [pid]
      exact late past
  · intro other turned
    rcases mem_modifyJanitor.mp turned with ⟨old, -⟩ | ⟨before, old, mine, rfl⟩
    · exact kept.logged other old
    · rw [kept.janitor_eq member old mine]
      exact logged
  · rw [map_pid_modifyJanitor pid]
    exact kept.once

/-- A janitor that goes on removes nothing. -/
theorem cleared_turn :
    (e.turn pid chore).Cleared owner ↔ e.Cleared owner := by
  constructor
  · intro now
    obtain ⟨janitor, turned, same, cleared⟩ := now
    rcases mem_modifyJanitor.mp turned with ⟨old, -⟩ | ⟨before, old, -, rfl⟩
    · exact ⟨janitor, old, same, cleared⟩
    · exact ⟨before, old, same, cleared⟩
  · intro now
    obtain ⟨janitor, old, same, cleared⟩ := now
    by_cases mine : janitor.pid = pid
    · exact ⟨{ janitor with chore := chore },
        mem_modifyJanitor.mpr (.inr ⟨janitor, old, mine, rfl⟩), same, cleared⟩
    · exact ⟨janitor, mem_modifyJanitor.mpr (.inl ⟨old, mine⟩), same, cleared⟩

theorem cleared_rmdir (member : janitor ∈ e.janitors) :
    (e.rmdir janitor.pid path).Cleared owner ↔
      e.Cleared owner ∨ owner = janitor.pid := by
  constructor
  · intro now
    obtain ⟨other, turned, same, cleared⟩ := now
    rcases mem_modifyJanitor.mp turned with ⟨old, -⟩ | ⟨before, -, mine, rfl⟩
    · exact .inl ⟨other, old, same, cleared⟩
    · exact .inr (same.symm.trans mine)
  · intro now
    have gone : (e.rmdir janitor.pid path).Cleared janitor.pid :=
      ⟨{ janitor with chore := .leaving, cleared := true },
        mem_modifyJanitor.mpr (.inr ⟨janitor, member, rfl, rfl⟩), rfl, rfl⟩
    rcases now with ⟨other, old, same, cleared⟩ | rfl
    · by_cases mine : other.pid = janitor.pid
      · rwa [← same, mine]
      · exact ⟨other, mem_modifyJanitor.mpr (.inl ⟨old, mine⟩), same, cleared⟩
    · exact gone

/-- A janitor goes on, and has not removed its directory. -/
theorem Kept.turn (kept : e.Kept selves) (member : janitor ∈ e.janitors)
    (early : chore.Early → janitor.chore.Early)
    (done : chore.Done → janitor.chore.Done)
    (late : chore.Late → e.ended janitor.pid = true) :
    (e.turn janitor.pid chore).Kept selves := by
  have logged := kept.logged janitor member
  refine kept.modifyJanitor member
    (fun janitor => { janitor with chore := chore })
    (fun _ => rfl) (fun _ => rfl) ?_
    ⟨fun now => logged.early (early now), fun now => logged.done (done now)⟩
    (kept.of_same rfl (fun _ _ => Iff.rfl) fun _ => cleared_turn)
  intro past
  rcases past with now | cleared
  · exact late now
  · exact kept.late janitor member (.inr cleared)

/-- A janitor has removed its directory. -/
theorem Kept.rmdir (kept : e.Kept selves) (member : janitor ∈ e.janitors)
    (early : janitor.chore.Early) (late : janitor.chore.Late) :
    (e.rmdir janitor.pid janitor.path).Kept selves := by
  have owns := (kept.janitors janitor member).1
  have open' := kept.early member early
  have cleared : ∀ owner, (e.rmdir janitor.pid janitor.path).Cleared owner ↔
      e.Cleared owner ∨ owner = janitor.pid := fun _ => cleared_rmdir member
  have account : (e.rmdir janitor.pid janitor.path).Accounted selves := by
    constructor
    · exact kept.named
    · intro dir
      have left : dir ∈ (e.rmdir janitor.pid janitor.path).dirs ↔
          dir ∈ e.dirs ∧ dir ≠ janitor.path := by
        simp [Estate.rmdir]
      rw [left, kept.there dir]
      constructor
      · intro now
        rcases now with ⟨root | ⟨owner, old, early⟩, other⟩
        · exact .inl root
        · refine .inr ⟨owner, old, ?_⟩
          rw [cleared]
          intro now
          rcases now with now | rfl
          · exact early now
          · exact other (Option.some.inj (old.2.symm.trans owns.2))
      · intro now
        rcases now with root | ⟨owner, old, early⟩
        · exact ⟨.inl root, fun same =>
            kept.named _ _ owns (same.symm.trans root)⟩
        · rw [cleared, not_or] at early
          refine ⟨.inr ⟨owner, old, early.1⟩, ?_⟩
          intro same
          exact early.2 (kept.apart owner janitor.pid dir old (same ▸ owns)
            early.1 open')
    · intro owner other dir left right early₁ early₂
      rw [cleared, not_or] at early₁ early₂
      exact kept.apart owner other dir left right early₁.1 early₂.1
  exact kept.modifyJanitor member
    (fun janitor => { janitor with chore := .leaving, cleared := true })
    (fun _ => rfl) (fun _ => rfl)
    (fun _ => kept.late janitor member (.inl late)) ⟨False.elim, fun _ => rfl⟩
    account

end Kept

end Estate

end CoralApi
