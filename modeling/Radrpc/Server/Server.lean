import Radrpc.Lib.Threads

/-!
# Starting and stopping a server

A server runs one io context, on worker threads and, after `start()`, also on the thread of the caller. Any number of
threads may start it, stop it and bind handlers.

* `Server` : the members of `server` that these calls use, the state of the io context, its threads and its signals;
* `ServerOp`, `ServerOp.exec` : the steps of a call that other threads can see;
* `runAsyncWorkers`, `start`, `asyncStart`, `stop`, `bind` : the calls, as the source has them;
* `ServerEnv`, `Server.step` : what the workers, the handlers and the signals do;
* `hostMachine` : any number of calls, interleaved with all of this.
-/

namespace Radrpc
open Conc

/-- A worker thread: created, inside `m_io_ctx.run()`, after it, counted in `m_workers_done`, at its end. -/
inductive WorkerState where
  | created
  | running
  | left
  | counted
  | finished
  deriving DecidableEq, Repr

/-- What a `bind*` call sets. -/
inductive Binding where
  | func (id : UInt32)
  | listen
  | accept
  | disconnect
  deriving DecidableEq, Repr

/-- A server. The fields up to `workers` are members of the source (`bound` are the handlers that the manager knows,
`mtx` is the holder of `m_mtx`); `connections` is what the manager answers; the next ones describe the io context: whether
it is stopped, the calls of `start()` that are inside its `run()`, the wait for a signal and whether a signal has come.
The last three are histories: the calls of `stop()` that have stopped the io context and wait for `m_mtx`, the calls of
`start()` that are to run the io context and have not come back from it, and how often `on_signal` has run. -/
structure Server where
  bound : List Binding := []
  mtx : Option Nat := none
  running : Bool := false
  asyncStart : Bool := false
  workersDone : Nat := 0
  workers : List WorkerState := []
  connections : Nat := 0
  stopped : Bool := false
  runners : List Nat := []
  signalWait : Bool := true
  signalled : Bool := false
  stopping : List Nat := []
  blocking : List Nat := []
  signals : Nat := 0
  deriving DecidableEq, Repr

namespace Server

/-- The workers that `run_async_workers()` starts, with the arithmetic of `unsigned int`. -/
def workerCount (cfgWorkers : UInt32) (asyncStart : Bool) : Nat :=
  (if asyncStart then cfgWorkers else cfgWorkers - 1).toNat

def inRun (s : Server) : Bool := decide (.running ∈ s.workers) || !s.runners.isEmpty

end Server

/-! ## Steps of a call -/

inductive ServerOp where
  | lock
  | unlock
  | beginStart (async : Bool)
  | restart
  | resetWorkers
  | spawn
  | enterRun
  | leaveRun
  | stopIo
  | readRunning
  | waitWorkers
  | joinWorkers
  | clearRunning
  | testBind
  | writeBind (b : Binding)
  deriving DecidableEq, Repr

abbrev ServerOp.Res : ServerOp → Type
  | .beginStart _ => Bool
  | .readRunning => Bool
  | .testBind => Bool
  | .writeBind _ => Bool
  | _ => Unit

def ServerOp.exec (cfgWorkers : UInt32) (t : Nat) : (o : ServerOp) → Unit → Server → Option (o.Res × Server)
  | .lock, _, s =>
    if s.mtx = none then some ((), { s with mtx := some t, stopping := s.stopping.erase t }) else none
  | .unlock, _, s => some ((), { s with mtx := none })
  | .beginStart async, _, s =>
    if s.running then some (true, s)
    else some (false, { s with
      running := true
      asyncStart := async
      blocking := if async then s.blocking else t :: s.blocking })
  | .restart, _, s => some ((), if s.stopped then { s with stopped := false } else s)
  | .resetWorkers, _, s => some ((), { s with workers := [], workersDone := 0 })
  | .spawn, _, s => some ((), { s with workers := s.workers ++ [.created] })
  | .enterRun, _, s => some ((), { s with runners := t :: s.runners })
  -- `run()` returns when the io context is stopped
  | .leaveRun, _, s =>
    if s.stopped then some ((), { s with runners := s.runners.erase t, blocking := s.blocking.erase t }) else none
  | .stopIo, _, s => some ((), { s with stopped := true, stopping := t :: s.stopping })
  | .readRunning, _, s => some (s.running, s)
  | .waitWorkers, _, s =>
    if Server.workerCount cfgWorkers s.asyncStart = s.workersDone then some ((), s) else none
  | .joinWorkers, _, s => if ∀ w ∈ s.workers, w = .finished then some ((), s) else none
  | .clearRunning, _, s => some ((), { s with running := false })
  | .testBind, _, s => some (!s.running && decide (s.connections = 0), s)
  | .writeBind b, _, s =>
    match b with
    | .func _ => if b ∈ s.bound then some (false, s) else some (true, { s with bound := b :: s.bound })
    | _ => some (true, { s with bound := b :: s.bound })

abbrev ServerProg := Prog ServerOp ServerOp.Res

abbrev ServerOp.run (o : ServerOp) : ServerProg o.Res := Prog.perform o

/-! ## Calls -/

namespace Server

def spawnWorkers : Nat → ServerProg Unit
  | 0 => return ()
  | n + 1 => do
    ServerOp.run .spawn
    spawnWorkers n

def runAsyncWorkers (cfgWorkers : UInt32) (async : Bool) : ServerProg Unit := do
  ServerOp.run .restart
  ServerOp.run .resetWorkers
  spawnWorkers (workerCount cfgWorkers async)

def start (cfgWorkers : UInt32) : ServerProg Bool := do
  ServerOp.run .lock
  let running : Bool ← ServerOp.run (.beginStart false)
  if running then
    ServerOp.run .unlock
    return false
  else
    runAsyncWorkers cfgWorkers false
    ServerOp.run .unlock
    ServerOp.run .enterRun
    ServerOp.run .leaveRun
    return true

def startAsync (cfgWorkers : UInt32) : ServerProg Bool := do
  ServerOp.run .lock
  let running : Bool ← ServerOp.run (.beginStart true)
  if running then
    ServerOp.run .unlock
    return false
  else
    runAsyncWorkers cfgWorkers true
    ServerOp.run .unlock
    return true

/-- Stops the server, from a thread outside the io context: true if it was running. -/
def stop : ServerProg Bool := do
  ServerOp.run .stopIo
  ServerOp.run .lock
  let running : Bool ← ServerOp.run .readRunning
  if running then
    ServerOp.run .waitWorkers
    ServerOp.run .joinWorkers
    ServerOp.run .clearRunning
    ServerOp.run .unlock
    return true
  else
    ServerOp.run .unlock
    return false

def bind (b : Binding) : ServerProg (Option Bool) := do
  ServerOp.run .lock
  let free : Bool ← ServerOp.run .testBind
  if free then
    let written : Bool ← ServerOp.run (.writeBind b)
    ServerOp.run .unlock
    return if written then some true else none
  else
    ServerOp.run .unlock
    return some false

end Server

/-- The public calls. -/
inductive ServerCall where
  | start
  | startAsync
  | stop
  | bind (b : Binding)
  deriving DecidableEq, Repr

/-- What they return: whether the server was started, whether it was found running, and the result of `bind*`. -/
inductive ServerRet where
  | started (fresh : Bool)
  | stopped (running : Bool)
  | bound (result : Option Bool)
  deriving DecidableEq, Repr

def ServerCall.body (cfgWorkers : UInt32) : ServerCall → ServerProg ServerRet
  | .start => do
    let fresh ← Server.start cfgWorkers
    return .started fresh
  | .startAsync => do
    let fresh ← Server.startAsync cfgWorkers
    return .started fresh
  | .stop => do
    let running ← Server.stop
    return .stopped running
  | .bind b => do
    let result ← Server.bind b
    return .bound result

/-! ## Workers, handlers and signals -/

/-- What happens besides the calls: a worker enters `run()`, comes back from it, counts itself, ends; a handler stops the
io context; a signal comes; `on_signal` runs; sessions come and go. -/
inductive ServerEnv where
  | workerEnter (i : Nat)
  | workerLeave (i : Nat)
  | workerCount (i : Nat)
  | workerFinish (i : Nat)
  | ioStop
  | signal
  | onSignal
  | sessions (n : Nat)
  deriving DecidableEq, Repr

namespace Server

def worker (s : Server) (i : Nat) (before after : WorkerState) : Option Server :=
  if s.workers[i]? = some before then some { s with workers := s.workers.set i after } else none

def step (s : Server) : ServerEnv → Option Server
  | .workerEnter i => s.worker i .created .running
  -- `run()` returns when the io context is stopped
  | .workerLeave i => if s.stopped then s.worker i .running .left else none
  | .workerCount i => (s.worker i .left .counted).map fun s => { s with workersDone := s.workersDone + 1 }
  | .workerFinish i => s.worker i .counted .finished
  | .ioStop => if s.inRun then some { s with stopped := true } else none
  | .signal => if s.signalWait then some { s with signalled := true } else none
  -- a handler runs on a thread that is inside `run()`
  | .onSignal =>
    if s.signalled ∧ s.inRun ∧ s.stopped = false then
      some { s with signalWait := false, signalled := false, stopped := true, signals := s.signals + 1 }
    else none
  | .sessions n => some { s with connections := n }

end Server

/-- Calls on a server, in any interleaving with its workers, handlers and signals. -/
def hostMachine (cfgWorkers : UInt32) : Machine Server ServerCall ServerOp ServerOp.Res ServerRet Unit ServerEnv where
  body := ServerCall.body cfgWorkers
  exec := ServerOp.exec cfgWorkers
  env := fun e s => s.step e

abbrev HostPool := Pool Server ServerCall ServerOp ServerOp.Res ServerRet

/-! ## What the steps besides the calls do -/

/-- A worker goes on, or the io context is stopped, or a signal has come, or sessions have come and gone. -/
inductive Server.Moves (s : Server) : Server → Prop where
  | worker (workers : List WorkerState) (done : Nat) : ((∀ w ∈ s.workers, w = .finished) → workers = s.workers) →
      Moves s { s with workers := workers, workersDone := done }
  | ioStop : Moves s { s with stopped := true }
  | signal : Moves s { s with signalled := true }
  | onSignal (n : Nat) : 0 < n → Moves s { s with signalWait := false, signalled := false, stopped := true, signals := n }
  | sessions (n : Nat) : Moves s { s with connections := n }

theorem Server.moves_of_worker {s s' : Server} {i : Nat} {before after : WorkerState} (hb : before ≠ .finished)
    (done : Nat) (h : s.worker i before after = some s') : s.Moves { s' with workersDone := done } := by
  unfold worker at h
  split at h
  · rename_i hi
    cases h
    exact .worker _ done fun hall => absurd (hall before (List.mem_of_getElem? hi)) hb
  · cases h

theorem Server.moves_of_step {s s' : Server} {e : ServerEnv} (h : s.step e = some s') : s.Moves s' := by
  have hdone : ∀ {i before after s₁}, s.worker i before after = some s₁ → s₁ = { s₁ with workersDone := s.workersDone } := by
    intro i before after s₁ h
    unfold worker at h
    split at h
    · cases h
      rfl
    · cases h
  cases e with
  | workerEnter i =>
    rw [hdone h]
    exact moves_of_worker (by simp) _ h
  | workerLeave i =>
    simp only [step] at h
    split at h
    · rw [hdone h]
      exact moves_of_worker (by simp) _ h
    · cases h
  | workerCount i =>
    obtain ⟨s₁, h₁, rfl⟩ := Option.map_eq_some_iff.mp h
    exact moves_of_worker (by simp) _ h₁
  | workerFinish i =>
    rw [hdone h]
    exact moves_of_worker (by simp) _ h
  | ioStop =>
    simp only [step] at h
    split at h
    · cases h
      exact .ioStop
    · cases h
  | signal =>
    simp only [step] at h
    split at h
    · cases h
      exact .signal
    · cases h
  | onSignal =>
    simp only [step] at h
    split at h
    · cases h
      exact .onSignal _ (Nat.succ_pos _)
    · cases h
  | sessions n =>
    cases h
    exact .sessions n

end Radrpc
