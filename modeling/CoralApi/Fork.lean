import CoralApi.Rpc

/-!
# Forks

The handlers that `cube.c` and `self.c` register with `pthread_atfork`.  The
child starts with a copy of the memory, taken behind `__prepare`, and with the
forking thread alone.
-/

namespace CoralApi

/-- The loop of `__prepare`. -/
def lockCubes : List Cube → Prog Unit
  | [] => return ()
  | cube :: cubes => do
      lock (.cube cube.ptr)
      lockCubes cubes

/-- `__prepare` -/
def prepare : Prog Unit := do
  lock .cubes
  lockCubes (← get).cubes

/-- The loop of `__parent`. -/
def unlockCubes : List Cube → Prog Unit
  | [] => return ()
  | cube :: cubes => do
      unlock (.cube cube.ptr)
      unlockCubes cubes

/-- `__parent` -/
def parent : Prog Unit := do
  unlockCubes (← get).cubes
  unlock .cubes

/-- The loop of `__child`. -/
def protectCubes (P : PageSize) : List Cube → Prog Unit
  | [] => return ()
  | cube :: cubes => do
      logged (Process.protectPages P cube.page.addr cube.page.size .read)
      unlock (.cube cube.ptr)
      protectCubes P cubes

/-- `__child` -/
def child (P : PageSize) : Prog Unit := do
  protectCubes P (← get).cubes
  unlock .cubes

/-- `__init` of `self.c`, in the process that uses the library: `mkdtemp` names
its directory. -/
def Self.init : Prog Unit := do
  match ← ask with
  | .done _ self => change fun p => { p with self := self }
  | .failed error => setErrno error

/-- `fork` copies the memory of a process, and no thread but the calling one.
No thread of the copy completes the calls that were handed to gRPC. -/
def Process.copy (pid : Nat) (p : Process) : Process :=
  { p with pid := pid, waiters := 0, pending := [] }

/-- The parent across a fork. -/
def forkParent : Prog Unit := do
  prepare
  parent

/-- The child across a fork, from the memory of its parent. -/
def forkChild (P : PageSize) (pid : Nat) : Prog Unit := do
  prepare
  change (Process.copy pid)
  child P
  Self.init

end CoralApi
