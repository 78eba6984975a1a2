import Radrpc.Server.StartStop
import Radrpc.Lib.Marks

/-!
# The workers of a server

Every start that finds the server stopped begins a cycle: `run_async_workers` creates threads that run the io context,
and tells each of them how many they are. A worker that comes back from `run()` counts itself in `m_workers_done`, in a
critical section of `m_stop_mtx`; the one that sees its count complete notifies `m_cv_stop` and calls `io_stopped_handler`.

* `WorkerStage`, `Cycle`, `Cycle.move` : the workers of a cycle and what each of them does;
* `Cycle.Valid` : what holds of a cycle, and `Cycle.Complete` : of one whose workers have all come to their end;
* `Crew` : a server with the workers of all its cycles; `crewMachine` : the calls on it.

The threads of an earlier cycle stay in the model when `m_workers` is assigned anew, and can go on.
-/

namespace Radrpc
open Conc

/-- How far a worker has come: it is created, inside `m_io_ctx.run()`, after it; it has counted itself, with the value of
its local `notify`; it has notified `m_cv_stop`, called the handler, come to its end. -/
inductive WorkerStage where
  | created
  | running
  | left
  | counted (notify : Bool)
  | notified
  | called
  | finished
  deriving DecidableEq, Repr

namespace WorkerStage

def state : WorkerStage → WorkerState
  | .created => .created
  | .running => .running
  | .left => .left
  | .counted _ | .notified | .called => .counted
  | .finished => .finished

def hasEntered : WorkerStage → Bool
  | .created => false
  | _ => true

def hasLeft : WorkerStage → Bool
  | .created | .running => false
  | _ => true

def hasCounted : WorkerStage → Bool
  | .created | .running | .left => false
  | _ => true

/-- The stages of the worker that completes the count, from its critical section to its end. -/
def announces : WorkerStage → Bool
  | .counted true | .notified | .called | .finished => true
  | _ => false

def staysQuiet : WorkerStage → Bool
  | .counted true | .notified | .called => false
  | _ => true

def hasNotified : WorkerStage → Bool
  | .notified | .called | .finished => true
  | _ => false

def hasCalled (handler : Bool) : WorkerStage → Bool
  | .called | .finished => handler
  | _ => false

end WorkerStage

/-- The workers of a cycle. `workers` and `handler` are what `run_async_workers` has computed and been given; `handler`
is false for the empty function. The last four are histories: the workers in the order in which they came back from
`run()`, counted themselves, notified `m_cv_stop` and called the handler. -/
structure Cycle where
  workers : Nat
  handler : Bool
  threads : List WorkerStage := []
  leaves : List Nat := []
  counts : List Nat := []
  notifies : List Nat := []
  handlerCalls : List Nat := []
  deriving DecidableEq, Repr

/-- What a worker can do next. -/
inductive WorkerMove where
  | enter
  | leave
  | count
  | notify
  | callHandler
  | finish
  deriving DecidableEq, Repr

namespace Cycle

def goes (c : Cycle) (i : Nat) (stage : WorkerStage) : Cycle := { c with threads := c.threads.set i stage }

/-- The worker `i` moves, where the io context is stopped or not and `m_workers_done` is `done`. -/
def move (c : Cycle) (stopped : Bool) (done i : Nat) (m : WorkerMove) : Option (Cycle × Nat) :=
  match m, c.threads[i]? with
  | .enter, some .created => some (c.goes i .running, done)
  | .leave, some .running => if stopped then some ({ c.goes i .left with leaves := c.leaves ++ [i] }, done) else none
  | .count, some .left =>
    some ({ c.goes i (.counted (done + 1 = c.workers)) with counts := c.counts ++ [i] }, done + 1)
  | .notify, some (.counted true) => some ({ c.goes i .notified with notifies := c.notifies ++ [i] }, done)
  | .callHandler, some .notified =>
    if c.handler then some ({ c.goes i .called with handlerCalls := c.handlerCalls ++ [i] }, done) else none
  | .finish, some (.counted false) => some (c.goes i .finished, done)
  | .finish, some .notified => if c.handler then none else some (c.goes i .finished, done)
  | .finish, some .called => some (c.goes i .finished, done)
  | _, _ => none

/-- What a move does. -/
inductive Moves (c : Cycle) (stopped : Bool) (done i : Nat) : Cycle → Nat → Prop where
  | enter : c.threads[i]? = some .created → Moves c stopped done i (c.goes i .running) done
  | leave : c.threads[i]? = some .running → stopped = true →
      Moves c stopped done i { c.goes i .left with leaves := c.leaves ++ [i] } done
  | count : c.threads[i]? = some .left →
      Moves c stopped done i { c.goes i (.counted (done + 1 = c.workers)) with counts := c.counts ++ [i] } (done + 1)
  | notify : c.threads[i]? = some (.counted true) →
      Moves c stopped done i { c.goes i .notified with notifies := c.notifies ++ [i] } done
  | callHandler : c.threads[i]? = some .notified → c.handler = true →
      Moves c stopped done i { c.goes i .called with handlerCalls := c.handlerCalls ++ [i] } done
  | finishQuiet : c.threads[i]? = some (.counted false) → Moves c stopped done i (c.goes i .finished) done
  | finishNotified : c.threads[i]? = some .notified → c.handler = false →
      Moves c stopped done i (c.goes i .finished) done
  | finishCalled : c.threads[i]? = some .called → Moves c stopped done i (c.goes i .finished) done

theorem moves_of_move {c c' : Cycle} {stopped : Bool} {done done' i : Nat} {m : WorkerMove}
    (h : c.move stopped done i m = some (c', done')) : c.Moves stopped done i c' done' := by
  unfold move at h
  split at h
  · rename_i hi
    cases h
    exact .enter hi
  · rename_i hi
    split at h
    · rename_i hs
      cases h
      exact .leave hi hs
    · cases h
  · rename_i hi
    cases h
    exact .count hi
  · rename_i hi
    cases h
    exact .notify hi
  · rename_i hi
    split at h
    · rename_i hh
      cases h
      exact .callHandler hi hh
    · cases h
  · rename_i hi
    cases h
    exact .finishQuiet hi
  · rename_i hi
    split at h
    · cases h
    · rename_i hh
      cases h
      exact .finishNotified hi (Bool.eq_false_iff.mpr hh)
  · rename_i hi
    cases h
    exact .finishCalled hi
  · cases h

theorem Moves.unfinished {c c' : Cycle} {stopped : Bool} {done done' i : Nat} (h : c.Moves stopped done i c' done') :
    ∃ stage, c.threads[i]? = some stage ∧ stage ≠ .finished := by
  cases h with
  | enter hi => exact ⟨_, hi, by simp⟩
  | leave hi _ => exact ⟨_, hi, by simp⟩
  | count hi => exact ⟨_, hi, by simp⟩
  | notify hi => exact ⟨_, hi, by simp⟩
  | callHandler hi _ => exact ⟨_, hi, by simp⟩
  | finishQuiet hi => exact ⟨_, hi, by simp⟩
  | finishNotified hi _ => exact ⟨_, hi, by simp⟩
  | finishCalled hi => exact ⟨_, hi, by simp⟩

theorem Moves.workers {c c' : Cycle} {stopped : Bool} {done done' i : Nat} (h : c.Moves stopped done i c' done') :
    c'.workers = c.workers ∧ c'.threads.length = c.threads.length := by
  cases h <;> exact ⟨rfl, List.length_set⟩

/-- The worker that completes the count: the last one to count itself, once all have. -/
def last (c : Cycle) : Option Nat := if c.counts.length = c.workers then c.counts.getLast? else none

/-- What holds of a cycle: the histories are those of the stages, and the worker that completes the count, and no other
one, notifies `m_cv_stop` and calls the handler. -/
structure Valid (c : Cycle) : Prop where
  fits : c.threads.length ≤ c.workers
  leaves : Marks WorkerStage.hasLeft c.threads c.leaves
  counts : Marks WorkerStage.hasCounted c.threads c.counts
  announces : ∀ i stage, c.threads[i]? = some stage → c.last = some i → stage.announces = true
  quiet : ∀ i stage, c.threads[i]? = some stage → c.last ≠ some i → stage.staysQuiet = true
  unsaid : c.last = none → c.notifies = [] ∧ c.handlerCalls = []
  notifies : ∀ i stage, c.threads[i]? = some stage → c.last = some i →
    c.notifies = if stage.hasNotified then [i] else []
  handlerCalls : ∀ i stage, c.threads[i]? = some stage → c.last = some i →
    c.handlerCalls = if stage.hasCalled c.handler then [i] else []

/-- All workers of the cycle have been created and have come to their end. -/
structure Complete (c : Cycle) : Prop where
  full : c.threads.length = c.workers
  finished : ∀ stage ∈ c.threads, stage = .finished

theorem Complete.not_moves {c c' : Cycle} {stopped : Bool} {done done' i : Nat} (h : c.Complete) :
    ¬ c.Moves stopped done i c' done' := by
  intro hm
  obtain ⟨stage, hi, hne⟩ := hm.unfinished
  exact hne (h.finished stage (List.mem_of_getElem? hi))

namespace Valid

variable {c c' : Cycle}

theorem new (workers : Nat) (handler : Bool) : Valid { workers := workers, handler := handler } :=
  ⟨Nat.zero_le _, .nil, .nil, fun i stage hi => (by simp at hi), fun i stage hi => (by simp at hi),
    fun _ => ⟨rfl, rfl⟩, fun i stage hi => (by simp at hi), fun i stage hi => (by simp at hi)⟩

theorem last_eq_none (hlt : c.counts.length < c.workers) : c.last = none :=
  if_neg (Nat.ne_of_lt hlt)

theorem spawn (h : c.Valid) (hroom : c.threads.length < c.workers) :
    Valid { c with threads := c.threads ++ [.created] } := by
  have hnone : c.last = none := last_eq_none (Nat.lt_of_le_of_lt h.counts.length_le hroom)
  refine ⟨?_, h.leaves.push rfl, h.counts.push rfl, fun i stage _ hl => ?_, fun i stage hi _ => ?_, h.unsaid,
    fun i stage _ hl => ?_, fun i stage _ hl => ?_⟩
  · rw [List.length_append]
    exact hroom
  · cases hnone.symm.trans hl
  · rw [List.getElem?_append] at hi
    split at hi
    · exact h.quiet i stage hi (by simp [hnone])
    · obtain rfl := List.mem_singleton.mp (List.mem_of_getElem? hi)
      rfl
  · cases hnone.symm.trans hl
  · cases hnone.symm.trans hl

theorem goQuiet (h : c.Valid) {i : Nat} {before after : WorkerStage} (hi : c.threads[i]? = some before)
    (hthreads : c'.threads = c.threads.set i after) (hworkers : c'.workers = c.workers)
    (hhandler : c'.handler = c.handler) (hleaves : Marks WorkerStage.hasLeft c'.threads c'.leaves)
    (hcounts : Marks WorkerStage.hasCounted c'.threads c'.counts) (hlast : c'.last = c.last) (hne : c.last ≠ some i)
    (hquiet : after.staysQuiet = true) (hnotifies : c'.notifies = c.notifies)
    (hcalls : c'.handlerCalls = c.handlerCalls) : c'.Valid := by
  have hother : ∀ {j stage}, c'.threads[j]? = some stage → c'.last = some j → c.threads[j]? = some stage := by
    intro j stage hj hl
    rw [hthreads, Marks.getElem?_set_of hi, if_neg] at hj
    · exact hj
    · rintro rfl
      exact hne (hlast.symm.trans hl)
  refine ⟨?_, hleaves, hcounts, fun j stage hj hl => ?_, fun j stage hj hl => ?_, fun hl => ?_, fun j stage hj hl => ?_,
    fun j stage hj hl => ?_⟩
  · rw [hthreads, List.length_set, hworkers]
    exact h.fits
  · exact h.announces j stage (hother hj hl) (hlast.symm.trans hl)
  · rw [hthreads, Marks.getElem?_set_of hi] at hj
    split at hj
    · cases hj
      exact hquiet
    · exact h.quiet j stage hj (hlast ▸ hl)
  · rw [hnotifies, hcalls]
    exact h.unsaid (hlast.symm.trans hl)
  · rw [hnotifies]
    exact h.notifies j stage (hother hj hl) (hlast.symm.trans hl)
  · rw [hcalls, hhandler]
    exact h.handlerCalls j stage (hother hj hl) (hlast.symm.trans hl)

theorem goAnnouncing (h : c.Valid) {i : Nat} {before after : WorkerStage} (hi : c.threads[i]? = some before)
    (hthreads : c'.threads = c.threads.set i after) (hworkers : c'.workers = c.workers)
    (hhandler : c'.handler = c.handler) (hleaves : Marks WorkerStage.hasLeft c'.threads c'.leaves)
    (hcounts : Marks WorkerStage.hasCounted c'.threads c'.counts) (hlast : ∀ j, c.last = some j → j = i)
    (hlast' : c'.last = some i) (hann : after.announces = true)
    (hnotifies : c'.notifies = if after.hasNotified then [i] else [])
    (hcalls : c'.handlerCalls = if after.hasCalled c.handler then [i] else []) : c'.Valid := by
  have hself : ∀ {j stage}, c'.threads[j]? = some stage → c'.last = some j → j = i ∧ stage = after := by
    intro j stage hj hl
    obtain rfl := Option.some.inj (hl.symm.trans hlast')
    rw [hthreads, Marks.getElem?_set_of hi, if_pos rfl] at hj
    exact ⟨rfl, (Option.some.inj hj).symm⟩
  refine ⟨?_, hleaves, hcounts, fun j stage hj hl => ?_, fun j stage hj hl => ?_, fun hl => ?_, fun j stage hj hl => ?_,
    fun j stage hj hl => ?_⟩
  · rw [hthreads, List.length_set, hworkers]
    exact h.fits
  · obtain ⟨-, rfl⟩ := hself hj hl
    exact hann
  · rw [hthreads, Marks.getElem?_set_of hi, if_neg] at hj
    · exact h.quiet j stage hj fun hf => hl (hlast j hf ▸ hlast')
    · rintro rfl
      exact hl hlast'
  · cases hl.symm.trans hlast'
  · obtain ⟨rfl, rfl⟩ := hself hj hl
    exact hnotifies
  · obtain ⟨rfl, rfl⟩ := hself hj hl
    rw [hhandler]
    exact hcalls

theorem ne_last (h : c.Valid) {i : Nat} {stage : WorkerStage} (hi : c.threads[i]? = some stage)
    (hann : stage.announces = false) : c.last ≠ some i := by
  intro hl
  rw [h.announces i stage hi hl] at hann
  cases hann

theorem last_of_loud (h : c.Valid) {i : Nat} {stage : WorkerStage} (hi : c.threads[i]? = some stage)
    (hloud : stage.staysQuiet = false) : c.last = some i := by
  by_contra hne
  rw [h.quiet i stage hi hne] at hloud
  cases hloud

theorem complete (h : c.Valid) {i : Nat} (hi : c.threads[i]? = some .left) (hfull : c.counts.length + 1 = c.workers) :
    Valid { c.goes i (.counted true) with counts := c.counts ++ [i] } := by
  have hnone : c.last = none := last_eq_none (Nat.lt_of_succ_le (Nat.le_of_eq hfull))
  have hlast : last { c.goes i (.counted true) with counts := c.counts ++ [i] } = some i := by
    rw [last, if_pos (by rw [List.length_append]; exact hfull), List.getLast?_append, List.getLast?_singleton,
      Option.some_or]
  obtain ⟨hnotifies, hcalls⟩ := h.unsaid hnone
  exact h.goAnnouncing hi rfl rfl rfl (h.leaves.keep hi rfl) (h.counts.pass hi rfl rfl)
    (fun j hj => by cases hnone.symm.trans hj) hlast rfl hnotifies hcalls

theorem goOn (h : c.Valid) {i : Nat} {before after : WorkerStage} (hi : c.threads[i]? = some before)
    (hloud : before.staysQuiet = false) (hthreads : c'.threads = c.threads.set i after) (hworkers : c'.workers = c.workers)
    (hhandler : c'.handler = c.handler) (hleaves : c'.leaves = c.leaves) (hcounts : c'.counts = c.counts)
    (hleft : after.hasLeft = before.hasLeft) (hcounted : after.hasCounted = before.hasCounted)
    (hann : after.announces = true)
    (hnotifies : c.notifies = (if before.hasNotified then [i] else []) →
      c'.notifies = if after.hasNotified then [i] else [])
    (hcalls : c.handlerCalls = (if before.hasCalled c.handler then [i] else []) →
      c'.handlerCalls = if after.hasCalled c.handler then [i] else []) : c'.Valid := by
  have hlast := h.last_of_loud hi hloud
  have hlast' : c'.last = some i := by rwa [last, hcounts, hworkers]
  refine h.goAnnouncing hi hthreads hworkers hhandler ?_ ?_ (fun j hj => Option.some.inj (hj.symm.trans hlast)) hlast' hann
    (hnotifies (h.notifies i before hi hlast)) (hcalls (h.handlerCalls i before hi hlast))
  · rw [hthreads, hleaves]
    exact h.leaves.keep hi hleft
  · rw [hthreads, hcounts]
    exact h.counts.keep hi hcounted

theorem moves (h : c.Valid) {stopped : Bool} {done' i : Nat} (hm : c.Moves stopped c.counts.length i c' done') :
    c'.Valid ∧ done' = c'.counts.length := by
  cases hm with
  | enter hi =>
    exact ⟨h.goQuiet hi rfl rfl rfl (h.leaves.keep hi rfl) (h.counts.keep hi rfl) rfl (h.ne_last hi rfl) rfl rfl rfl, rfl⟩
  | leave hi _ =>
    exact ⟨h.goQuiet hi rfl rfl rfl (h.leaves.pass hi rfl rfl) (h.counts.keep hi rfl) rfl (h.ne_last hi rfl) rfl rfl rfl,
      rfl⟩
  | count hi =>
    refine ⟨?_, (List.length_append : (c.counts ++ [i]).length = c.counts.length + 1).symm⟩
    by_cases hfull : c.counts.length + 1 = c.workers
    · rw [decide_eq_true hfull]
      exact h.complete hi hfull
    · rw [decide_eq_false hfull]
      have hnone : c.last = none := last_eq_none (Nat.lt_of_lt_of_le (h.counts.lt_length hi rfl) h.fits)
      refine h.goQuiet hi rfl rfl rfl (h.leaves.keep hi rfl) (h.counts.pass hi rfl rfl) ?_ (h.ne_last hi rfl) rfl rfl rfl
      rw [hnone]
      exact if_neg (by rw [List.length_append]; exact hfull)
  | notify hi =>
    refine ⟨h.goOn hi rfl rfl rfl rfl rfl rfl rfl rfl rfl (fun hn => ?_) id, rfl⟩
    show c.notifies ++ [i] = [i]
    rw [hn]
    rfl
  | callHandler hi hh =>
    refine ⟨h.goOn hi rfl rfl rfl rfl rfl rfl rfl rfl rfl id (fun hc => ?_), rfl⟩
    show c.handlerCalls ++ [i] = if c.handler then [i] else []
    rw [hc, hh]
    rfl
  | finishQuiet hi =>
    exact ⟨h.goQuiet hi rfl rfl rfl (h.leaves.keep hi rfl) (h.counts.keep hi rfl) rfl (h.ne_last hi rfl) rfl rfl rfl, rfl⟩
  | finishNotified hi hh =>
    refine ⟨h.goOn hi rfl rfl rfl rfl rfl rfl rfl rfl rfl id (fun hc => ?_), rfl⟩
    show c.handlerCalls = if c.handler then [i] else []
    rw [hc, hh]
    rfl
  | finishCalled hi => exact ⟨h.goOn hi rfl rfl rfl rfl rfl rfl rfl rfl rfl id id, rfl⟩

/-- Nobody notifies `m_cv_stop` or calls the handler before the count is complete, and only the worker that completes it
does, once. -/
theorem said (h : c.Valid) : (c.notifies = [] ∨ ∃ i, c.last = some i ∧ c.notifies = [i]) ∧
    (c.handlerCalls = [] ∨ c.handler = true ∧ c.handlerCalls = c.notifies) := by
  cases hl : c.last with
  | none =>
    obtain ⟨h1, h2⟩ := h.unsaid hl
    exact ⟨.inl h1, .inl h2⟩
  | some i =>
    have hmem : i ∈ c.counts := by
      unfold last at hl
      split at hl
      · exact List.mem_of_getLast? hl
      · cases hl
    obtain ⟨stage, hi, -⟩ := (h.counts.mem i).mp hmem
    rw [h.notifies i stage hi hl, h.handlerCalls i stage hi hl]
    cases stage with
    | notified => exact ⟨.inr ⟨i, rfl, rfl⟩, .inl rfl⟩
    | called | finished =>
      refine ⟨.inr ⟨i, rfl, rfl⟩, ?_⟩
      cases hh : c.handler with
      | true => exact .inr ⟨rfl, rfl⟩
      | false => exact .inl rfl
    | _ => exact ⟨.inl rfl, .inl rfl⟩

theorem said_of_complete (h : c.Valid) (hc : c.Complete) (hpos : 0 < c.workers) :
    ∃ i, c.last = some i ∧ c.notifies = [i] ∧ c.handlerCalls = if c.handler then [i] else [] := by
  have hfull : c.counts.length = c.workers := by
    rw [h.counts.length, ← hc.full, List.countP_eq_length]
    intro stage hmem
    rw [hc.finished stage hmem]
    rfl
  have hne : c.counts ≠ [] := by
    intro hnil
    rw [hnil] at hfull
    exact absurd hfull (Nat.ne_of_lt hpos)
  have hl : c.last = some (c.counts.getLast hne) := (if_pos hfull).trans (List.getLast?_eq_some_getLast hne)
  obtain ⟨stage, hi, -⟩ := (h.counts.mem _).mp (List.getLast_mem hne)
  obtain rfl := hc.finished stage (List.mem_of_getElem? hi)
  exact ⟨_, hl, h.notifies _ _ hi hl, h.handlerCalls _ _ hi hl⟩

end Valid
end Cycle

/-! ## A server with its workers -/

/-- A server, the workers of its cycle, and those of the cycles before. Before the first start the cycle is empty. The
last two are histories: the call that has begun the cycle, and how often that call has entered `run()`. -/
structure Crew where
  server : Server := {}
  current : Cycle := { workers := 0, handler := false }
  former : List Cycle := []
  starter : Option Nat := none
  runs : Nat := 0
  deriving DecidableEq, Repr

/-- The public calls; `async_start` is given a handler or the empty function. -/
inductive CrewCall where
  | start
  | asyncStart (handler : Bool)
  | stop
  | bind (b : Binding)
  deriving DecidableEq, Repr

def CrewCall.call : CrewCall → ServerCall
  | .start => .start
  | .asyncStart _ => .startAsync
  | .stop => .stop
  | .bind b => .bind b

/-- The handler that the call gives to `run_async_workers`. -/
def CrewCall.handler : CrewCall → Bool
  | .asyncStart handler => handler
  | _ => false

/-- A step of a call, with the handler of the call. -/
structure CrewOp where
  handler : Bool
  op : ServerOp
  deriving DecidableEq, Repr

abbrev CrewOp.Res (o : CrewOp) : Type := o.op.Res

/-- What happens besides the calls: a worker of the cycle moves, or one of an earlier cycle, or something that has nothing
to do with workers. -/
inductive CrewEnv where
  | worker (i : Nat) (m : WorkerMove)
  | former (k i : Nat) (m : WorkerMove)
  | server (e : ServerEnv)
  deriving DecidableEq, Repr

def ServerEnv.ofWorker : ServerEnv → Bool
  | .workerEnter _ | .workerLeave _ | .workerCount _ | .workerFinish _ => true
  | _ => false

namespace Crew

/-- The workers after a step of the call `t` : `run_async_workers` begins a cycle when it resets `m_workers`, and computes
the number of its workers; it creates one of them. -/
def after (cfgWorkers : UInt32) (t : Nat) (s : Crew) (o : CrewOp) (server : Server) : Crew :=
  match o.op with
  | .resetWorkers =>
    { server := server
      current := { workers := Server.workerCount cfgWorkers s.server.asyncStart, handler := o.handler }
      former := s.former ++ [s.current]
      starter := some t }
  | .spawn => { s with server := server, current := { s.current with threads := s.current.threads ++ [.created] } }
  | .enterRun => { s with server := server, runs := if s.starter = some t then s.runs + 1 else s.runs }
  | _ => { s with server := server }

def exec (cfgWorkers : UInt32) (t : Nat) (o : CrewOp) (i : Unit) (s : Crew) : Option (o.Res × Crew) :=
  (o.op.exec cfgWorkers t i s.server).map fun r => (r.1, s.after cfgWorkers t o r.2)

def step (s : Crew) : CrewEnv → Option Crew
  | .worker i m =>
    (s.current.move s.server.stopped s.server.workersDone i m).map fun r =>
      { s with
        server := { s.server with workers := r.1.threads.map WorkerStage.state, workersDone := r.2 }
        current := r.1 }
  | .former k i m =>
    s.former[k]?.bind fun c =>
      (c.move s.server.stopped s.server.workersDone i m).map fun r =>
        { s with server := { s.server with workersDone := r.2 }, former := s.former.set k r.1 }
  | .server e => if e.ofWorker then none else (s.server.step e).map fun server => { s with server := server }

/-- The threads of the cycle that have come to `run()` : its workers, and the call that has begun it. -/
def ioThreads (s : Crew) : Nat := s.current.threads.countP WorkerStage.hasEntered + s.runs

end Crew

/-- Calls on a server, in any interleaving with its workers, handlers and signals. -/
def crewMachine (cfgWorkers : UInt32) : Machine Crew CrewCall CrewOp CrewOp.Res ServerRet Unit CrewEnv where
  body := fun c => (c.call.body cfgWorkers).lift (CrewOp.mk c.handler) fun _ r => r
  exec := Crew.exec cfgWorkers
  env := fun e s => s.step e

abbrev CrewPool := Pool Crew CrewCall CrewOp CrewOp.Res ServerRet

end Radrpc
