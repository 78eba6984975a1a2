import Radrpc.Server.Server

/-!
# Runs of a server

* `ServerPhase` : how far a call has come; `hostDiscipline`, `serverCall_ok` : the programs of all calls follow it;
  `serverCall_enters` : no `start()` that has begun a cycle returns without entering `run()`;
* `Guarded` : the holder of `m_mtx`, and what a server that is not running looks like;
* `stop_not_lost` : a `stop()` that waits for the workers waits on a stopped io context, when no start comes between
  its two halves; `stop_lost` : when one does;
* `stop_quiescent` : after `stop()` nobody is inside `run()`, when no `start()` is; `stop_overtaken` : when one is;
* `signal_awaited` : a running server waits for signals, until the first one has been handled and it is started again;
  `signal_missed` : after that.
-/

namespace Radrpc
open Conc

/-! ## The calls, phase by phase -/

/-- How far a call has come: before `m_mtx`; in `stop()` with the io context stopped, then with `m_mtx`; with `m_mtx`;
in `start()` when `m_running` is set, the io context restarted, the workers being created; after that, before and inside
`run()`; in `stop()` when the server was running, the wait is over, the workers are joined, `m_running` is cleared; in
`bind*` before the tables change; and at the end. -/
inductive ServerPhase where
  | outside
  | stopping
  | stopLocked
  | locked
  | opening (async : Bool)
  | restarted (async : Bool)
  | opened (async : Bool)
  | blocking
  | inRun
  | found
  | counted
  | joined
  | settled
  | binding
  | finished
  | done
  deriving DecidableEq, Repr

namespace ServerPhase

def holds : ServerPhase → Bool
  | .stopLocked | .locked | .opening _ | .restarted _ | .opened _ | .found | .counted | .joined | .settled
  | .binding => true
  | _ => false

/-- The steps a call can make next. -/
inductive Allows : ServerPhase → ServerOp → Prop where
  | lock : Allows .outside .lock
  | stopIo : Allows .outside .stopIo
  | lockStop : Allows .stopping .lock
  | beginStart (async : Bool) : Allows .locked (.beginStart async)
  | restart (async : Bool) : Allows (.opening async) .restart
  | resetWorkers (async : Bool) : Allows (.restarted async) .resetWorkers
  | spawn (async : Bool) : Allows (.opened async) .spawn
  | unlockStart (async : Bool) : Allows (.opened async) .unlock
  | enterRun : Allows .blocking .enterRun
  | leaveRun : Allows .inRun .leaveRun
  | readRunning : Allows .stopLocked .readRunning
  | waitWorkers : Allows .found .waitWorkers
  | joinWorkers : Allows .counted .joinWorkers
  | clearRunning : Allows .joined .clearRunning
  | unlockStop : Allows .settled .unlock
  | testBind : Allows .locked .testBind
  | writeBind (b : Binding) : Allows .binding (.writeBind b)
  | unlock : Allows .locked .unlock

def next : ServerPhase → (o : ServerOp) → o.Res → ServerPhase
  | .outside, .lock, _ => .locked
  | .outside, .stopIo, _ => .stopping
  | .stopping, .lock, _ => .stopLocked
  | .locked, .beginStart async, false => .opening async
  | .opening async, .restart, _ => .restarted async
  | .restarted async, .resetWorkers, _ => .opened async
  | .opened async, .unlock, _ => if async then .done else .blocking
  | .blocking, .enterRun, _ => .inRun
  | .inRun, .leaveRun, _ => .done
  | .stopLocked, .readRunning, true => .found
  | .stopLocked, .readRunning, false => .locked
  | .found, .waitWorkers, _ => .counted
  | .counted, .joinWorkers, _ => .joined
  | .joined, .clearRunning, _ => .settled
  | .settled, .unlock, _ => .finished
  | .locked, .testBind, true => .binding
  | .binding, .writeBind _, _ => .locked
  | .locked, .unlock, _ => .done
  | phase, _, _ => phase

end ServerPhase

def hostDiscipline : Discipline ServerOp ServerOp.Res ServerPhase where
  pre := ServerPhase.Allows
  post := ServerPhase.next

theorem spawnWorkers_ok (async : Bool) (n : Nat) :
    hostDiscipline.Ok (fun _ v => v = .opened async) (.opened async) (Server.spawnWorkers n) := by
  induction n with
  | zero => exact rfl
  | succ n ih => exact ⟨.spawn async, fun _ => ih⟩

theorem runAsyncWorkers_ok (cfgWorkers : UInt32) (async : Bool) :
    hostDiscipline.Ok (fun _ v => v = .opened async) (.opening async) (Server.runAsyncWorkers cfgWorkers async) :=
  ⟨.restart async, fun _ => ⟨.resetWorkers async, fun _ => spawnWorkers_ok async _⟩⟩

/-- What a call may rely on when it returns. -/
def ServerPhase.Returns (v : ServerPhase) : ServerRet → Prop
  | .stopped running => running = true → v = .finished
  | _ => True

/-- Every call follows the discipline, and no `start()` returns when it has begun a cycle and not entered `run()`. -/
theorem serverCall_enters (cfgWorkers : UInt32) (c : ServerCall) :
    hostDiscipline.Ok (fun r v => v.Returns r ∧ v ≠ .blocking) .outside (c.body cfgWorkers) := by
  cases c with
  | start =>
    refine ⟨.lock, fun _ => ⟨.beginStart false, fun running => ?_⟩⟩
    cases running with
    | true => exact ⟨.unlock, fun _ => ⟨trivial, fun hf => by cases hf⟩⟩
    | false =>
      show hostDiscipline.Ok _ _ ((Server.runAsyncWorkers cfgWorkers false >>= _) >>= _)
      refine Discipline.Ok.bind (Discipline.Ok.bind (runAsyncWorkers_ok cfgWorkers false) (fun _ w hw => ?_))
        (R := fun _ v => v ≠ .blocking) ?_
      · subst hw
        exact ⟨.unlockStart false, fun _ => ⟨.enterRun, fun _ => ⟨.leaveRun, fun _ => fun hf => by cases hf⟩⟩⟩
      · exact fun _ _ hv => ⟨trivial, hv⟩
  | startAsync =>
    refine ⟨.lock, fun _ => ⟨.beginStart true, fun running => ?_⟩⟩
    cases running with
    | true => exact ⟨.unlock, fun _ => ⟨trivial, fun hf => by cases hf⟩⟩
    | false =>
      show hostDiscipline.Ok _ _ ((Server.runAsyncWorkers cfgWorkers true >>= _) >>= _)
      refine Discipline.Ok.bind (Discipline.Ok.bind (runAsyncWorkers_ok cfgWorkers true) (fun _ w hw => ?_))
        (R := fun _ v => v ≠ .blocking) ?_
      · subst hw
        exact ⟨.unlockStart true, fun _ => fun hf => by cases hf⟩
      · exact fun _ _ hv => ⟨trivial, hv⟩
  | stop =>
    refine ⟨.stopIo, fun _ => ⟨.lockStop, fun _ => ⟨.readRunning, fun running => ?_⟩⟩⟩
    cases running with
    | true =>
      exact ⟨.waitWorkers, fun _ => ⟨.joinWorkers, fun _ => ⟨.clearRunning, fun _ => ⟨.unlockStop,
        fun _ => ⟨fun _ => rfl, fun hf => by cases hf⟩⟩⟩⟩⟩
    | false => exact ⟨.unlock, fun _ => ⟨fun h => (by cases h), fun hf => by cases hf⟩⟩
  | bind b =>
    refine ⟨.lock, fun _ => ⟨.testBind, fun free => ?_⟩⟩
    cases free with
    | true => exact ⟨.writeBind b, fun _ => ⟨.unlock, fun _ => ⟨trivial, fun hf => by cases hf⟩⟩⟩
    | false => exact ⟨.unlock, fun _ => ⟨trivial, fun hf => by cases hf⟩⟩

theorem serverCall_ok (cfgWorkers : UInt32) (c : ServerCall) :
    hostDiscipline.Ok (fun r v => v.Returns r) .outside (c.body cfgWorkers) :=
  (serverCall_enters cfgWorkers c).mono fun _ _ => And.left

/-! ## The holder of `m_mtx` -/

/-- The views of the calls agree with the holder of `m_mtx`. -/
def Holding (s : Server) (views : Nat → Option ServerPhase) : Prop :=
  ∀ t v, views t = some v → v.holds = true → s.mtx = some t

namespace Holding

variable {s s' : Server} {views : Nat → Option ServerPhase}

theorem unique (h : Holding s views) {t t' : Nat} {v v' : ServerPhase} (hv : views t = some v) (hh : v.holds = true)
    (hv' : views t' = some v') (hh' : v'.holds = true) : t' = t :=
  Option.some.inj ((h t' v' hv' hh').symm.trans (h t v hv hh))

theorem keep (h : Holding s views) {t : Nat} {v w : ServerPhase} (hv : views t = some v) (hm : s'.mtx = s.mtx)
    (hw : w.holds = true → v.holds = true) : Holding s' (Function.update views t (some w)) := by
  intro t' v' hv' hh
  rw [hm]
  rcases view_of_update hv' with ⟨rfl, rfl⟩ | ⟨-, hv'⟩
  · exact h t' v hv (hw hh)
  · exact h t' v' hv' hh

theorem release (h : Holding s views) {t : Nat} {v w : ServerPhase} (hv : views t = some v) (hh : v.holds = true)
    (hw : w.holds = false) : Holding s' (Function.update views t (some w)) := by
  intro t' v' hv' hh'
  rcases view_of_update hv' with ⟨rfl, rfl⟩ | ⟨hne, hv'⟩
  · rw [hw] at hh'
    cases hh'
  · exact absurd (h.unique hv hh hv' hh') hne

theorem acquire (h : Holding s views) {t : Nat} {w : ServerPhase} (hm : s.mtx = none) (hm' : s'.mtx = some t) :
    Holding s' (Function.update views t (some w)) := by
  intro t' v' hv' hh'
  rcases view_of_update hv' with ⟨rfl, rfl⟩ | ⟨-, hv'⟩
  · exact hm'
  · have hf := h t' v' hv' hh'
    rw [hm] at hf
    cases hf

theorem exec (h : Holding s views) {n : UInt32} {t : Nat} {o : ServerOp} {i : Unit} {r : o.Res} {v : ServerPhase}
    (hv : views t = some v) (hpre : v.Allows o) (hs : o.exec n t i s = some (r, s')) :
    Holding s' (Function.update views t (some (v.next o r))) := by
  cases hpre with
  | lock | lockStop =>
    simp only [ServerOp.exec] at hs
    split at hs
    · rename_i hm
      cases hs
      exact h.acquire hm rfl
    · cases hs
  | stopIo =>
    cases hs
    exact h.keep hv rfl fun hf => by cases hf
  | beginStart async =>
    simp only [ServerOp.exec] at hs
    split at hs
    · cases hs
      exact h.keep hv rfl fun _ => rfl
    · cases hs
      exact h.keep hv rfl fun _ => rfl
  | restart async =>
    cases hs
    refine h.keep hv ?_ fun _ => rfl
    split
    · rfl
    · rfl
  | resetWorkers async =>
    cases hs
    exact h.keep hv rfl fun _ => rfl
  | spawn async =>
    cases hs
    exact h.keep hv rfl fun _ => rfl
  | unlockStart async =>
    cases hs
    cases async with
    | true => exact h.release hv rfl rfl
    | false => exact h.release hv rfl rfl
  | enterRun =>
    cases hs
    exact h.keep hv rfl fun hf => by cases hf
  | leaveRun =>
    simp only [ServerOp.exec] at hs
    split at hs
    · cases hs
      exact h.keep hv rfl fun hf => by cases hf
    · cases hs
  | readRunning =>
    cases hs
    exact h.keep hv rfl fun _ => rfl
  | waitWorkers | joinWorkers =>
    simp only [ServerOp.exec] at hs
    split at hs
    · cases hs
      exact h.keep hv rfl fun _ => rfl
    · cases hs
  | clearRunning =>
    cases hs
    exact h.keep hv rfl fun _ => rfl
  | unlockStop =>
    cases hs
    exact h.release hv rfl rfl
  | testBind =>
    cases hs
    exact h.keep hv rfl fun _ => rfl
  | writeBind b =>
    have hm : s'.mtx = s.mtx := by
      simp only [ServerOp.exec] at hs
      split at hs
      · split at hs
        · cases hs
          rfl
        · cases hs
          rfl
      · cases hs
        rfl
    exact h.keep hv hm fun _ => rfl
  | unlock =>
    cases hs
    exact h.release hv rfl rfl

theorem moves (h : Holding s views) (hs : s.Moves s') : Holding s' views := by
  cases hs with
  | worker workers done _ => exact h
  | ioStop => exact h
  | signal => exact h
  | onSignal n _ => exact h
  | sessions n => exact h

end Holding

/-! ## A stop request -/

/-- No start restarts the io context between the two halves of a `stop()`. -/
def Uninterrupted (p : HostPool) : Act ServerCall Unit ServerEnv → Prop
  | .op t _ => p.next t = some .restart → p.shared.stopping = []
  | _ => True

/-- A `stop()` that has stopped the io context can rely on it until its wait is over. -/
structure Halting (s : Server) (views : Nat → Option ServerPhase) : Prop where
  holding : Holding s views
  pending : ∀ t, views t = some .stopping → t ∈ s.stopping
  stops : s.stopping ≠ [] → s.stopped = true
  waiting : ∀ t v, views t = some v → v = .stopLocked ∨ v = .found → s.stopped = true

namespace Halting

variable {s s' : Server} {views : Nat → Option ServerPhase}

theorem keep (h : Halting s views) {t : Nat} {v w : ServerPhase} (hv : views t = some v)
    (hh : Holding s' (Function.update views t (some w))) (h1 : s'.stopping = s.stopping) (h2 : s'.stopped = s.stopped)
    (hw : w ≠ .stopping) (hww : w = .stopLocked ∨ w = .found → v = .stopLocked ∨ v = .found) :
    Halting s' (Function.update views t (some w)) := by
  refine ⟨hh, fun t' hv' => ?_, fun hne => h2 ▸ h.stops (h1 ▸ hne), fun t' v' hv' hp => ?_⟩
  · rcases view_of_update hv' with ⟨-, hf⟩ | ⟨-, hv'⟩
    · exact absurd hf.symm hw
    · rw [h1]
      exact h.pending t' hv'
  · rw [h2]
    rcases view_of_update hv' with ⟨rfl, rfl⟩ | ⟨-, hv'⟩
    · exact h.waiting t' v hv (hww hp)
    · exact h.waiting t' v' hv' hp

theorem call (h : Halting s views) (t : Nat) : Halting s (Function.update views t (some .outside)) := by
  refine ⟨fun t' v' hv' hh => ?_, fun t' hv' => ?_, h.stops, fun t' v' hv' hp => ?_⟩
  · rcases view_of_update hv' with ⟨-, rfl⟩ | ⟨-, hv'⟩
    · cases hh
    · exact h.holding t' v' hv' hh
  · rcases view_of_update hv' with ⟨-, hf⟩ | ⟨-, hv'⟩
    · cases hf
    · exact h.pending t' hv'
  · rcases view_of_update hv' with ⟨-, rfl⟩ | ⟨-, hv'⟩
    · rcases hp with hp | hp <;> cases hp
    · exact h.waiting t' v' hv' hp

theorem lock (h : Halting s views) {t : Nat} {w : ServerPhase}
    (hh : Holding { s with mtx := some t, stopping := s.stopping.erase t } (Function.update views t (some w)))
    (hw : w ≠ .stopping) (hww : w = .stopLocked ∨ w = .found → s.stopped = true) :
    Halting { s with mtx := some t, stopping := s.stopping.erase t } (Function.update views t (some w)) := by
  refine ⟨hh, fun t' hv' => ?_, fun hne => h.stops fun hnil => hne ?_, fun t' v' hv' hp => ?_⟩
  · rcases view_of_update hv' with ⟨-, hf⟩ | ⟨hne, hv'⟩
    · exact absurd hf.symm hw
    · exact (List.mem_erase_of_ne hne).mpr (h.pending t' hv')
  · dsimp only
    rw [hnil]
    rfl
  · rcases view_of_update hv' with ⟨rfl, rfl⟩ | ⟨-, hv'⟩
    · exact hww hp
    · exact h.waiting t' v' hv' hp

theorem restart (h : Halting s views) {t : Nat} {v w : ServerPhase} (hv : views t = some v) (hl : v.holds = true)
    (hh : Holding s' (Function.update views t (some w))) (hnil : s.stopping = []) (h1 : s'.stopping = s.stopping)
    (hw : w ≠ .stopping) (hww : ¬ (w = .stopLocked ∨ w = .found)) :
    Halting s' (Function.update views t (some w)) := by
  refine ⟨hh, fun t' hv' => ?_, fun hne => absurd (h1.trans hnil) hne, fun t' v' hv' hp => ?_⟩
  · rcases view_of_update hv' with ⟨-, hf⟩ | ⟨-, hv'⟩
    · exact absurd hf.symm hw
    · rw [h1]
      exact h.pending t' hv'
  · rcases view_of_update hv' with ⟨rfl, rfl⟩ | ⟨hne, hv'⟩
    · exact absurd hp hww
    · have hl' : v'.holds = true := by
        rcases hp with rfl | rfl
        · rfl
        · rfl
      exact absurd (h.holding.unique hv hl hv' hl') hne

theorem exec (h : Halting s views) {n : UInt32} {t : Nat} {o : ServerOp} {i : Unit} {r : o.Res} {v : ServerPhase}
    (hv : views t = some v) (hpre : v.Allows o) (hG : o = .restart → s.stopping = [])
    (hs : o.exec n t i s = some (r, s')) : Halting s' (Function.update views t (some (v.next o r))) := by
  have hh := h.holding.exec hv hpre hs
  cases hpre with
  | lock =>
    simp only [ServerOp.exec] at hs
    split at hs
    · cases hs
      exact h.lock hh (by simp [ServerPhase.next]) (by simp [ServerPhase.next])
    · cases hs
  | lockStop =>
    simp only [ServerOp.exec] at hs
    split at hs
    · cases hs
      exact h.lock hh (by simp [ServerPhase.next]) fun _ => h.stops (List.ne_nil_of_mem (h.pending t hv))
    · cases hs
  | stopIo =>
    cases hs
    refine ⟨hh, fun t' hv' => ?_, fun _ => rfl, fun _ _ _ _ => rfl⟩
    rcases view_of_update hv' with ⟨rfl, -⟩ | ⟨-, hv'⟩
    · exact List.mem_cons_self
    · exact List.mem_cons_of_mem _ (h.pending t' hv')
  | beginStart async =>
    simp only [ServerOp.exec] at hs
    split at hs
    · cases hs
      exact h.keep hv hh rfl rfl (by simp [ServerPhase.next]) (by simp [ServerPhase.next])
    · cases hs
      exact h.keep hv hh rfl rfl (by simp [ServerPhase.next]) (by simp [ServerPhase.next])
  | restart async =>
    cases hs
    refine h.restart hv rfl hh (hG rfl) ?_ (by simp [ServerPhase.next]) (by simp [ServerPhase.next])
    split
    · rfl
    · rfl
  | resetWorkers async =>
    cases hs
    exact h.keep hv hh rfl rfl (by simp [ServerPhase.next]) (by simp [ServerPhase.next])
  | spawn async =>
    cases hs
    exact h.keep hv hh rfl rfl (by simp [ServerPhase.next]) (by simp [ServerPhase.next])
  | unlockStart async =>
    cases hs
    cases async with
    | true => exact h.keep hv hh rfl rfl (by simp [ServerPhase.next]) (by simp [ServerPhase.next])
    | false => exact h.keep hv hh rfl rfl (by simp [ServerPhase.next]) (by simp [ServerPhase.next])
  | enterRun =>
    cases hs
    exact h.keep hv hh rfl rfl (by simp [ServerPhase.next]) (by simp [ServerPhase.next])
  | leaveRun =>
    simp only [ServerOp.exec] at hs
    split at hs
    · cases hs
      exact h.keep hv hh rfl rfl (by simp [ServerPhase.next]) (by simp [ServerPhase.next])
    · cases hs
  | readRunning =>
    cases hs
    refine h.keep hv hh rfl rfl ?_ fun _ => .inl rfl
    cases s.running with
    | true => simp [ServerPhase.next]
    | false => simp [ServerPhase.next]
  | waitWorkers | joinWorkers =>
    simp only [ServerOp.exec] at hs
    split at hs
    · cases hs
      exact h.keep hv hh rfl rfl (by simp [ServerPhase.next]) (by simp [ServerPhase.next])
    · cases hs
  | clearRunning =>
    cases hs
    exact h.keep hv hh rfl rfl (by simp [ServerPhase.next]) (by simp [ServerPhase.next])
  | unlockStop =>
    cases hs
    exact h.keep hv hh rfl rfl (by simp [ServerPhase.next]) (by simp [ServerPhase.next])
  | testBind =>
    have hs' : s' = s := by
      cases hs
      rfl
    subst hs'
    cases r with
    | true => exact h.keep hv hh rfl rfl (by simp [ServerPhase.next]) (by simp [ServerPhase.next])
    | false => exact h.keep hv hh rfl rfl (by simp [ServerPhase.next]) (by simp [ServerPhase.next])
  | writeBind b =>
    have hm : s'.stopping = s.stopping ∧ s'.stopped = s.stopped := by
      simp only [ServerOp.exec] at hs
      split at hs
      · split at hs
        · cases hs
          exact ⟨rfl, rfl⟩
        · cases hs
          exact ⟨rfl, rfl⟩
      · cases hs
        exact ⟨rfl, rfl⟩
    exact h.keep hv hh hm.1 hm.2 (by simp [ServerPhase.next]) (by simp [ServerPhase.next])
  | unlock =>
    cases hs
    exact h.keep hv hh rfl rfl (by simp [ServerPhase.next]) (by simp [ServerPhase.next])

theorem moves (h : Halting s views) (hs : s.Moves s') : Halting s' views := by
  have hh := h.holding.moves hs
  cases hs with
  | worker workers done _ => exact ⟨hh, h.pending, h.stops, h.waiting⟩
  | ioStop => exact ⟨hh, h.pending, fun _ => rfl, fun _ _ _ _ => rfl⟩
  | signal => exact ⟨hh, h.pending, h.stops, h.waiting⟩
  | onSignal n _ => exact ⟨hh, h.pending, fun _ => rfl, fun _ _ _ _ => rfl⟩
  | sessions n => exact ⟨hh, h.pending, h.stops, h.waiting⟩

end Halting

theorem halting_of_reach {n : UInt32} {p : HostPool} (hp : (hostMachine n).Reach Uninterrupted {} p) :
    ∃ views, Halting p.shared views ∧ Machine.Linked hostDiscipline (fun _ _ r v => v.Returns r) p views := by
  refine Machine.sound (fun _ _ => .outside) ?_ (fun _ c => serverCall_ok n c) ?_ ?_ ?_ hp
  · exact ⟨fun _ _ h => (by cases h), fun _ h => (by cases h), fun h => absurd rfl h, fun _ _ h => (by cases h)⟩
  · exact fun p views t c _ _ hinv _ _ => hinv.call t
  · intro p views t i o v r s' _ _ hinv hG hthread hv hpre hex
    obtain ⟨c, k, hthread⟩ := hthread
    refine hinv.exec hv hpre (fun ho => ?_) hex
    subst ho
    exact hG (Machine.next_of_thread hthread)
  · exact fun p views e s' _ _ hinv _ he => hinv.moves (Server.moves_of_step he)

/-- **A stop request is not lost.** While a `stop()` waits for the workers, with `m_mtx` in its hands, the io context is
stopped: in every run in which no start restarts it between the first statement of a `stop()` and its lock. -/
theorem stop_not_lost {n : UInt32} {p : HostPool} (hp : (hostMachine n).Reach Uninterrupted {} p) {t : Nat}
    (ht : p.next t = some .waitWorkers) : p.shared.stopped = true ∧ p.shared.mtx = some t := by
  obtain ⟨views, hinv, hl⟩ := halting_of_reach hp
  obtain ⟨c, k, hth⟩ := Machine.next_eq_some ht
  obtain ⟨v, hv, hok⟩ := hl.ok hth
  have hfound : v = .found := by
    cases hok.1 with
    | waitWorkers => rfl
  exact ⟨hinv.waiting t v hv (.inr hfound), hinv.holding t v hv (by rw [hfound]; rfl)⟩

def uninterrupted (p : HostPool) : Act ServerCall Unit ServerEnv → Bool
  | .op t _ => decide (p.next t = some .restart → p.shared.stopping = [])
  | _ => true

theorem uninterrupted_sound (p : HostPool) (a : Act ServerCall Unit ServerEnv) (h : uninterrupted p a = true) :
    Uninterrupted p a := by
  cases a with
  | call t c => trivial
  | op t i =>
    simp only [uninterrupted, decide_eq_true_eq] at h
    exact h
  | env e => trivial

/-- The call `t` starts a server with one worker. -/
def asyncRun (t : Nat) : List (Act ServerCall Unit ServerEnv) :=
  [.call t .startAsync, .op t (), .op t (), .op t (), .op t (), .op t (), .op t ()]

/-- One call starts the server, another one stops it and is about to wait. -/
def startStop : List (Act ServerCall Unit ServerEnv) :=
  asyncRun 0 ++ [.call 1 .stop, .op 1 (), .op 1 (), .op 1 ()]

theorem stop_not_lost_startStop : ∃ p : HostPool, (hostMachine 1).Reach Uninterrupted {} p ∧
    p.next 1 = some .waitWorkers ∧ p.shared.stopped = true ∧ p.shared.mtx = some 1 := by
  have hrun : ((hostMachine 1).run uninterrupted (.initial {}) startStop).any
      (fun p => decide (p.next 1 = some .waitWorkers)) = true := by
    decide +kernel
  obtain ⟨p, hp, hf⟩ := Machine.Reach.exists_of_run uninterrupted_sound startStop hrun
  have hnext := of_decide_eq_true hf
  exact ⟨p, hp, hnext, stop_not_lost hp hnext⟩

/-- A `stop()` has stopped the io context when a start comes before it to `m_mtx`. -/
def stopStart : List (Act ServerCall Unit ServerEnv) :=
  [.call 1 .stop, .op 1 ()] ++ asyncRun 0 ++ [.op 1 (), .op 1 ()]

/-- The `stop()` waits for workers that nobody has told to stop. -/
theorem stop_lost : ∃ p : HostPool, (hostMachine 1).Reach Machine.Free {} p ∧
    p.next 1 = some .waitWorkers ∧ p.shared.stopped = false := by
  have hrun : ((hostMachine 1).run (fun _ _ => true) (.initial {}) stopStart).any
      (fun p => decide (p.next 1 = some .waitWorkers) && !p.shared.stopped) = true := by
    decide +kernel
  obtain ⟨p, hp, hf⟩ := Machine.Reach.exists_of_run (fun _ _ _ => trivial) stopStart hrun
  simp only [Bool.and_eq_true, decide_eq_true_eq, Bool.not_eq_true'] at hf
  exact ⟨p, hp, hf.1, hf.2⟩

/-! ## After a stop -/

namespace ServerPhase

/-- A `start()` that is to run the io context, or does. -/
def starts : ServerPhase → Bool
  | .opening false | .restarted false | .opened false | .blocking | .inRun => true
  | _ => false

/-- A start that has set `m_running` and holds `m_mtx`. -/
def active : ServerPhase → Bool
  | .opening _ | .restarted _ | .opened _ => true
  | _ => false

/-- A start that has not created its workers. -/
def opens : ServerPhase → Bool
  | .opening _ | .restarted _ => true
  | _ => false

/-- A `stop()` that holds `m_mtx` and has not found the server stopped. -/
def stops : ServerPhase → Bool
  | .stopLocked | .found | .counted | .joined | .settled => true
  | _ => false

/-- A `stop()` that has joined the workers. -/
def joins : ServerPhase → Bool
  | .joined | .settled => true
  | _ => false

theorem holds_of_active {v : ServerPhase} (h : v.active = true) : v.holds = true := by
  cases v with
  | opening async => rfl
  | restarted async => rfl
  | opened async => rfl
  | _ => cases h

theorem active_of_opens {v : ServerPhase} (h : v.opens = true) : v.active = true := by
  cases v with
  | opening async => rfl
  | restarted async => rfl
  | _ => cases h

theorem holds_of_stops {v : ServerPhase} (h : v.stops = true) : v.holds = true := by
  cases v with
  | stopLocked => rfl
  | found => rfl
  | counted => rfl
  | joined => rfl
  | settled => rfl
  | _ => cases h

theorem stops_of_joins {v : ServerPhase} (h : v.joins = true) : v.stops = true := by
  cases v with
  | joined => rfl
  | settled => rfl
  | _ => cases h

end ServerPhase

/-- No `start()` is to run the io context or runs it when a `stop()` takes `m_mtx`. -/
def Unblocked (p : HostPool) : Act ServerCall Unit ServerEnv → Prop
  | .op t _ => p.next t = some .lock → t ∈ p.shared.stopping → p.shared.blocking = []
  | _ => True

def Server.AllFinished (s : Server) : Prop := ∀ w ∈ s.workers, w = .finished

/-- What a call relies on in the phase `v`. -/
structure Relies (s : Server) (t : Nat) (v : ServerPhase) : Prop where
  starts : v.starts = true → t ∈ s.blocking
  active : v.active = true → s.running = true
  opens : v.opens = true → s.AllFinished ∧ ∀ x ∈ s.blocking, x = t
  stops : v.stops = true → s.blocking = []
  joins : v.joins = true → s.AllFinished
  binding : v = .binding → s.running = false

theorem Server.allFinished_congr {s s' : Server} (h : s'.workers = s.workers) : s'.AllFinished ↔ s.AllFinished := by
  unfold AllFinished
  rw [h]

namespace Relies

variable {s s' : Server} {t : Nat} {v : ServerPhase}

theorem unlocked (hl : v.holds = false) (hst : v.starts = true → t ∈ s.blocking) : Relies s t v := by
  have hactive : v.active ≠ true := fun hf => by
    rw [ServerPhase.holds_of_active hf] at hl
    cases hl
  have hstops : v.stops ≠ true := fun hf => by
    rw [ServerPhase.holds_of_stops hf] at hl
    cases hl
  refine ⟨hst, fun hf => absurd hf hactive, fun hf => absurd (ServerPhase.active_of_opens hf) hactive,
    fun hf => absurd hf hstops, fun hf => absurd (ServerPhase.stops_of_joins hf) hstops, fun hf => ?_⟩
  subst hf
  cases hl

theorem nothing (hst : v.starts = false) (ha : v.active = false) (hp : v.stops = false) (hb : v ≠ .binding) :
    Relies s t v := by
  have hactive : v.active ≠ true := Bool.eq_false_iff.mp ha
  have hstops : v.stops ≠ true := Bool.eq_false_iff.mp hp
  exact ⟨fun hf => absurd hf (Bool.eq_false_iff.mp hst), fun hf => absurd hf hactive,
    fun hf => absurd (ServerPhase.active_of_opens hf) hactive, fun hf => absurd hf hstops,
    fun hf => absurd (ServerPhase.stops_of_joins hf) hstops, fun hf => absurd hf hb⟩

/-- A `stop()` relies on there being no start that runs the io context, and on the workers it has joined. -/
theorem stopping (hp : v.stops = true) (hb : s.blocking = []) (hj : v.joins = true → s.AllFinished) : Relies s t v := by
  refine ⟨fun hf => ?_, fun hf => ?_, fun hf => ?_, fun _ => hb, hj, fun hf => ?_⟩
  all_goals
    cases v with
    | stopLocked | found | counted | joined | settled => cases hf
    | _ => cases hp

theorem opened {async : Bool} (hr : s.running = true) (hst : async = false → t ∈ s.blocking) :
    Relies s t (.opened async) := by
  refine ⟨fun hf => ?_, fun _ => hr, fun hf => (by cases hf), fun hf => (by cases hf), fun hf => (by cases hf),
    fun hf => (by cases hf)⟩
  cases async with
  | true => cases hf
  | false => exact hst rfl

theorem congr (h : Relies s t v) (h1 : s'.running = s.running) (h2 : s'.workers = s.workers)
    (h3 : s'.blocking = s.blocking) : Relies s' t v := by
  have hall := Server.allFinished_congr h2
  refine ⟨fun hf => ?_, fun hf => ?_, fun hf => ?_, fun hf => ?_, fun hf => hall.mpr (h.joins hf), fun hf => ?_⟩
  · rw [h3]
    exact h.starts hf
  · rw [h1]
    exact h.active hf
  · rw [hall, h3]
    exact h.opens hf
  · rw [h3]
    exact h.stops hf
  · rw [h1]
    exact h.binding hf

end Relies

/-- Who may be inside `run()`. -/
structure Quiescent (s : Server) (views : Nat → Option ServerPhase) : Prop where
  holding : Holding s views
  pending : ∀ t, views t = some .stopping → t ∈ s.stopping
  nodup : s.runners.Nodup
  runners : ∀ t ∈ s.runners, views t = some .inRun
  starts : ∀ t v, views t = some v → v.starts = true → t ∈ s.blocking
  idle : s.running = false → s.AllFinished ∧ s.blocking = []
  active : ∀ t v, views t = some v → v.active = true → s.running = true
  opens : ∀ t v, views t = some v → v.opens = true → s.AllFinished ∧ ∀ x ∈ s.blocking, x = t
  stops : ∀ t v, views t = some v → v.stops = true → s.blocking = []
  joins : ∀ t v, views t = some v → v.joins = true → s.AllFinished
  binding : ∀ t, views t = some .binding → s.running = false

namespace Quiescent

variable {s s' : Server} {views : Nat → Option ServerPhase}

theorem new : Quiescent {} fun _ => none :=
  ⟨fun _ _ h => (by cases h), fun _ h => (by cases h), .nil, fun _ h => (by cases h), fun _ _ h => (by cases h),
    fun _ => ⟨fun _ h => (by cases h), rfl⟩, fun _ _ h => (by cases h), fun _ _ h => (by cases h),
    fun _ _ h => (by cases h), fun _ _ h => (by cases h), fun _ h => (by cases h)⟩

theorem runners_nil (h : Quiescent s views) (hb : s.blocking = []) : s.runners = [] := by
  apply List.eq_nil_iff_forall_not_mem.mpr
  intro x hx
  have hmem := h.starts x _ (h.runners x hx) rfl
  rw [hb] at hmem
  cases hmem

theorem inRun_eq_false (hw : s.AllFinished) (hr : s.runners = []) : s.inRun = false := by
  have hnot : .running ∉ s.workers := fun hmem => by cases hw _ hmem
  simp [Server.inRun, hnot, hr]

theorem inRun_of_opens (h : Quiescent s views) {t : Nat} {v : ServerPhase} (hv : views t = some v)
    (ho : v.opens = true) : s.inRun = false := by
  obtain ⟨hw, hb⟩ := h.opens t v hv ho
  refine inRun_eq_false hw (List.eq_nil_iff_forall_not_mem.mpr fun x hx => ?_)
  have hview := h.runners x hx
  rw [hb x (h.starts x _ hview rfl), hv] at hview
  cases hview
  cases ho

theorem relies (h : Quiescent s views) {t : Nat} {v : ServerPhase} (hv : views t = some v) : Relies s t v :=
  ⟨h.starts t v hv, h.active t v hv, h.opens t v hv, h.stops t v hv, h.joins t v hv, fun hb => h.binding t (hb ▸ hv)⟩

theorem runners_update (h : Quiescent s views) {t : Nat} {w : ServerPhase} (ht : views t ≠ some .inRun) :
    ∀ x ∈ s.runners, Function.update views t (some w) x = some .inRun := by
  intro x hx
  have hx' := h.runners x hx
  rw [Function.update_of_ne]
  · exact hx'
  · rintro rfl
    exact ht hx'

theorem update {t : Nat} {w : ServerPhase} (hh : Holding s' (Function.update views t (some w)))
    (hw : w = .stopping → t ∈ s'.stopping) (hpend : ∀ t', t' ≠ t → views t' = some .stopping → t' ∈ s'.stopping)
    (hnodup : s'.runners.Nodup) (hrun : ∀ x ∈ s'.runners, Function.update views t (some w) x = some .inRun)
    (hidle : s'.running = false → s'.AllFinished ∧ s'.blocking = []) (hrel : Relies s' t w)
    (hothers : ∀ t' v', t' ≠ t → views t' = some v' → Relies s' t' v') :
    Quiescent s' (Function.update views t (some w)) := by
  have hall : ∀ t' v', Function.update views t (some w) t' = some v' → Relies s' t' v' := by
    intro t' v' hv'
    rcases view_of_update hv' with ⟨rfl, rfl⟩ | ⟨hne, hv'⟩
    · exact hrel
    · exact hothers t' v' hne hv'
  refine ⟨hh, fun t' hv' => ?_, hnodup, hrun, fun t' v' hv' => (hall t' v' hv').starts, hidle,
    fun t' v' hv' => (hall t' v' hv').active, fun t' v' hv' => (hall t' v' hv').opens,
    fun t' v' hv' => (hall t' v' hv').stops, fun t' v' hv' => (hall t' v' hv').joins,
    fun t' hv' => (hall t' _ hv').binding rfl⟩
  rcases view_of_update hv' with ⟨rfl, hf⟩ | ⟨hne, hv'⟩
  · exact hw hf.symm
  · exact hpend t' hne hv'

theorem keep (h : Quiescent s views) {t : Nat} {v w : ServerPhase} (hv : views t = some v)
    (hh : Holding s' (Function.update views t (some w))) (h1 : s'.running = s.running) (h2 : s'.workers = s.workers)
    (h3 : s'.blocking = s.blocking) (h4 : s'.runners = s.runners)
    (h5 : ∀ t', t' ≠ t → views t' = some .stopping → t' ∈ s'.stopping) (hw : w = .stopping → t ∈ s'.stopping)
    (hr : v ≠ .inRun) (hrel : Relies s t w) : Quiescent s' (Function.update views t (some w)) := by
  have hrun : views t ≠ some .inRun := fun hf => hr (Option.some.inj (hv.symm.trans hf))
  refine update hh hw h5 (h4 ▸ h.nodup) (h4 ▸ h.runners_update hrun) (fun hf => ?_) (hrel.congr h1 h2 h3)
    fun t' v' _ hv' => (h.relies hv').congr h1 h2 h3
  obtain ⟨hfin, hb⟩ := h.idle (h1 ▸ hf)
  exact ⟨(Server.allFinished_congr h2).mpr hfin, h3.trans hb⟩

theorem call (h : Quiescent s views) {t : Nat} (ht : views t = none) :
    Quiescent s (Function.update views t (some .outside)) := by
  have hrun : views t ≠ some .inRun := by
    rw [ht]
    simp
  refine update (fun t' v' hv' hp => ?_) (fun hf => by cases hf) (fun t' _ hv' => h.pending t' hv') h.nodup
    (h.runners_update hrun) h.idle (.nothing rfl rfl rfl (by simp)) fun t' v' _ hv' => h.relies hv'
  rcases view_of_update hv' with ⟨-, rfl⟩ | ⟨-, hv'⟩
  · cases hp
  · exact h.holding t' v' hv' hp

/-- The holder of `m_mtx` changes the server: nobody else is in a phase that relies on it, but for those that are to run
the io context. -/
theorem change (h : Quiescent s views) {t : Nat} {v w : ServerPhase} (hv : views t = some v) (hl : v.holds = true)
    (hh : Holding s' (Function.update views t (some w))) (hstop : s'.stopping = s.stopping) (hw : w ≠ .stopping)
    (hrun : s'.runners = s.runners) (hst : ∀ t' ∈ s.blocking, t' ∈ s'.blocking) (hrel : Relies s' t w)
    (hidle : s'.running = false → s'.AllFinished ∧ s'.blocking = []) :
    Quiescent s' (Function.update views t (some w)) := by
  have hfree : ∀ t' v', t' ≠ t → views t' = some v' → v'.holds = false := by
    intro t' v' hne hv'
    rw [Bool.eq_false_iff]
    exact fun hl' => hne (h.holding.unique hv hl hv' hl')
  have hout : views t ≠ some .inRun := by
    rw [hv]
    rintro ⟨⟩
    cases hl
  refine update hh (fun hf => absurd hf hw) (fun t' _ hv' => hstop ▸ h.pending t' hv') (hrun ▸ h.nodup)
    (hrun ▸ h.runners_update hout) hidle hrel fun t' v' hne hv' => ?_
  exact .unlocked (hfree t' v' hne hv') fun hf => hst t' (h.starts t' v' hv' hf)

theorem enterRun (h : Quiescent s views) {t : Nat} (hv : views t = some .blocking)
    (hh : Holding { s with runners := t :: s.runners } (Function.update views t (some .inRun))) :
    Quiescent { s with runners := t :: s.runners } (Function.update views t (some .inRun)) := by
  have hfresh : t ∉ s.runners := fun hmem => by
    have hf := h.runners t hmem
    rw [hv] at hf
    cases hf
  have hkeep : ∀ {t' v'}, Relies s t' v' → Relies { s with runners := t :: s.runners } t' v' := fun hr =>
    hr.congr rfl rfl rfl
  refine update hh (fun hf => by cases hf) (fun t' _ hv' => h.pending t' hv') (List.nodup_cons.mpr ⟨hfresh, h.nodup⟩)
    (fun x hx => ?_) h.idle (.unlocked rfl fun _ => h.starts t _ hv rfl) fun t' v' _ hv' => hkeep (h.relies hv')
  by_cases hxt : x = t
  · rw [hxt, Function.update_self]
  · rw [Function.update_of_ne hxt]
    exact h.runners x ((List.mem_cons.mp hx).resolve_left hxt)

theorem leaveRun (h : Quiescent s views) {t : Nat}
    (hh : Holding { s with runners := s.runners.erase t, blocking := s.blocking.erase t }
      (Function.update views t (some .done))) :
    Quiescent { s with runners := s.runners.erase t, blocking := s.blocking.erase t }
      (Function.update views t (some .done)) := by
  have hnil : s.blocking = [] → s.blocking.erase t = [] := fun hb => by rw [hb]; rfl
  refine update hh (fun hf => by cases hf) (fun t' _ hv' => h.pending t' hv') (h.nodup.erase t) (fun x hx => ?_)
    (fun hf => ⟨(h.idle hf).1, hnil (h.idle hf).2⟩) (.nothing rfl rfl rfl (by simp)) fun t' v' hne hv' => ?_
  · obtain ⟨hne, hmem⟩ := (List.Nodup.mem_erase_iff h.nodup).mp hx
    rw [Function.update_of_ne hne]
    exact h.runners x hmem
  · have hr := h.relies hv'
    refine ⟨fun hf => (List.mem_erase_of_ne hne).mpr (hr.starts hf), hr.active, fun hf => ?_, fun hf => hnil (hr.stops hf),
      hr.joins, hr.binding⟩
    exact ⟨(hr.opens hf).1, fun x hx => (hr.opens hf).2 x (List.mem_of_mem_erase hx)⟩

theorem beginStart (h : Quiescent s views) {t : Nat} {async : Bool} (hv : views t = some .locked)
    (hr : s.running = false) (hh : Holding { s with
      running := true, asyncStart := async, blocking := if async then s.blocking else t :: s.blocking }
      (Function.update views t (some (.opening async)))) :
    Quiescent { s with
      running := true, asyncStart := async, blocking := if async then s.blocking else t :: s.blocking }
      (Function.update views t (some (.opening async))) := by
  obtain ⟨hw, hb⟩ := h.idle hr
  refine h.change hv rfl hh rfl (by simp) rfl (fun x hx => ?_)
    ⟨fun hf => ?_, fun _ => rfl, fun _ => ⟨hw, fun x hx => ?_⟩, fun hf => (by cases hf), fun hf => (by cases hf),
      fun hf => (by cases hf)⟩ fun hf => (by cases hf)
  · rw [hb] at hx
    cases hx
  · cases async with
    | true => cases hf
    | false => exact List.mem_cons_self
  · cases async with
    | true =>
      dsimp only at hx
      rw [if_pos rfl, hb] at hx
      cases hx
    | false =>
      dsimp only at hx
      rw [if_neg Bool.false_ne_true, hb] at hx
      exact List.mem_singleton.mp hx

theorem still (h : Quiescent s views) {t : Nat} {v w : ServerPhase} (hv : views t = some v)
    (hh : Holding s' (Function.update views t (some w))) (h1 : s'.running = s.running) (h2 : s'.workers = s.workers)
    (h3 : s'.blocking = s.blocking) (h4 : s'.runners = s.runners) (h5 : s'.stopping = s.stopping) (hw : w ≠ .stopping)
    (hr : v ≠ .inRun) (hrel : Relies s t w) : Quiescent s' (Function.update views t (some w)) :=
  h.keep hv hh h1 h2 h3 h4 (fun t' _ hv' => h5 ▸ h.pending t' hv') (fun hf => absurd hf hw) hr hrel

theorem exec (h : Quiescent s views) {n : UInt32} {t : Nat} {o : ServerOp} {i : Unit} {r : o.Res} {v : ServerPhase}
    (hv : views t = some v) (hpre : v.Allows o) (hG : o = .lock → t ∈ s.stopping → s.blocking = [])
    (hs : o.exec n t i s = some (r, s')) : Quiescent s' (Function.update views t (some (v.next o r))) := by
  have hh := h.holding.exec hv hpre hs
  cases hpre with
  | lock =>
    simp only [ServerOp.exec] at hs
    split at hs
    · cases hs
      refine h.keep hv hh rfl rfl rfl rfl (fun t' hne hv' => ?_) (fun hf => by cases hf) (by simp)
        (.nothing rfl rfl rfl (by simp [ServerPhase.next]))
      exact (List.mem_erase_of_ne hne).mpr (h.pending t' hv')
    · cases hs
  | lockStop =>
    simp only [ServerOp.exec] at hs
    split at hs
    · cases hs
      refine h.keep hv hh rfl rfl rfl rfl (fun t' hne hv' => ?_) (fun hf => by cases hf) (by simp)
        (.stopping rfl (hG rfl (h.pending t hv)) fun hf => (by cases hf))
      exact (List.mem_erase_of_ne hne).mpr (h.pending t' hv')
    · cases hs
  | stopIo =>
    cases hs
    exact h.keep hv hh rfl rfl rfl rfl (fun t' _ hv' => List.mem_cons_of_mem _ (h.pending t' hv'))
      (fun _ => List.mem_cons_self) (by simp) (.nothing rfl rfl rfl (by simp [ServerPhase.next]))
  | beginStart async =>
    simp only [ServerOp.exec] at hs
    split at hs
    · cases hs
      exact h.still hv hh rfl rfl rfl rfl rfl (by simp [ServerPhase.next]) (by simp)
        (.nothing rfl rfl rfl (by simp [ServerPhase.next]))
    · rename_i hr
      cases hs
      exact h.beginStart hv (Bool.eq_false_iff.mpr hr) hh
  | restart async =>
    cases hs
    have hs' : ∀ s₁ : Server, s₁ = (if s.stopped = true then { s with stopped := false } else s) →
        s₁.running = s.running ∧ s₁.workers = s.workers ∧ s₁.blocking = s.blocking ∧ s₁.runners = s.runners ∧
          s₁.stopping = s.stopping := by
      intro s₁ hs₁
      rw [hs₁]
      split
      · exact ⟨rfl, rfl, rfl, rfl, rfl⟩
      · exact ⟨rfl, rfl, rfl, rfl, rfl⟩
    obtain ⟨h1, h2, h3, h4, h5⟩ := hs' _ rfl
    have hrel := h.relies hv
    refine h.still hv hh h1 h2 h3 h4 h5 (by simp [ServerPhase.next]) (by simp)
      ⟨fun hf => ?_, fun _ => hrel.active rfl, fun _ => hrel.opens rfl, fun hf => (by cases hf), fun hf => (by cases hf),
        fun hf => (by cases hf)⟩
    cases async with
    | true => cases hf
    | false => exact hrel.starts rfl
  | resetWorkers async =>
    cases hs
    have hrun := h.active t _ hv rfl
    refine h.change hv rfl hh rfl (by simp [ServerPhase.next]) rfl (fun _ hx => hx) (.opened hrun fun hf => ?_) fun hf => ?_
    · subst hf
      exact h.starts t _ hv rfl
    · exact absurd (hf.symm.trans hrun) Bool.false_ne_true
  | spawn async =>
    cases hs
    have hrun := h.active t _ hv rfl
    refine h.change hv rfl hh rfl (by simp [ServerPhase.next]) rfl (fun _ hx => hx) (.opened hrun fun hf => ?_) fun hf => ?_
    · subst hf
      exact h.starts t _ hv rfl
    · exact absurd (hf.symm.trans hrun) Bool.false_ne_true
  | unlockStart async =>
    cases hs
    cases async with
    | true =>
      exact h.still hv hh rfl rfl rfl rfl rfl (by simp [ServerPhase.next]) (by simp)
        (.nothing rfl rfl rfl (by simp [ServerPhase.next]))
    | false =>
      exact h.still hv hh rfl rfl rfl rfl rfl (by simp [ServerPhase.next]) (by simp)
        (.unlocked rfl fun _ => h.starts t _ hv rfl)
  | enterRun =>
    cases hs
    exact h.enterRun hv hh
  | leaveRun =>
    simp only [ServerOp.exec] at hs
    split at hs
    · cases hs
      exact h.leaveRun hh
    · cases hs
  | readRunning =>
    have hs' : s' = s := by
      cases hs
      rfl
    subst hs'
    cases r with
    | true =>
      exact h.still hv hh rfl rfl rfl rfl rfl (by simp [ServerPhase.next]) (by simp)
        (.stopping rfl (h.stops t _ hv rfl) fun hf => by cases hf)
    | false =>
      exact h.still hv hh rfl rfl rfl rfl rfl (by simp [ServerPhase.next]) (by simp)
        (.nothing rfl rfl rfl (by simp [ServerPhase.next]))
  | waitWorkers =>
    simp only [ServerOp.exec] at hs
    split at hs
    · cases hs
      exact h.still hv hh rfl rfl rfl rfl rfl (by simp [ServerPhase.next]) (by simp)
        (.stopping rfl (h.stops t _ hv rfl) fun hf => (by cases hf))
    · cases hs
  | joinWorkers =>
    simp only [ServerOp.exec] at hs
    split at hs
    · rename_i hall
      cases hs
      exact h.still hv hh rfl rfl rfl rfl rfl (by simp [ServerPhase.next]) (by simp)
        (.stopping rfl (h.stops t _ hv rfl) fun _ => hall)
    · cases hs
  | clearRunning =>
    cases hs
    have hall := h.joins t _ hv rfl
    have hb := h.stops t _ hv rfl
    exact h.change hv rfl hh rfl (by simp [ServerPhase.next]) rfl (fun _ hx => hx) (.stopping rfl hb fun _ => hall)
      fun _ => ⟨hall, hb⟩
  | unlockStop =>
    cases hs
    exact h.still hv hh rfl rfl rfl rfl rfl (by simp [ServerPhase.next]) (by simp)
      (.nothing rfl rfl rfl (by simp [ServerPhase.next]))
  | testBind =>
    have hs' : r = (!s.running && decide (s.connections = 0)) ∧ s' = s := by
      cases hs
      exact ⟨rfl, rfl⟩
    obtain ⟨hr, rfl⟩ := hs'
    cases r with
    | true =>
      have hr' := Bool.and_eq_true_iff.mp hr.symm
      have hidle : s'.running = false := by simpa using hr'.1
      exact h.still hv hh rfl rfl rfl rfl rfl (by simp [ServerPhase.next]) (by simp)
        ⟨fun hf => (by cases hf), fun hf => (by cases hf), fun hf => (by cases hf), fun hf => (by cases hf),
          fun hf => (by cases hf), fun _ => hidle⟩
    | false =>
      exact h.still hv hh rfl rfl rfl rfl rfl (by simp [ServerPhase.next]) (by simp)
        (.nothing rfl rfl rfl (by simp [ServerPhase.next]))
  | writeBind b =>
    have hs' : ∃ bound, s' = { s with bound := bound } := by
      simp only [ServerOp.exec] at hs
      split at hs
      · split at hs
        · cases hs
          exact ⟨_, rfl⟩
        · cases hs
          exact ⟨_, rfl⟩
      · cases hs
        exact ⟨_, rfl⟩
    obtain ⟨bound, rfl⟩ := hs'
    exact h.still hv hh rfl rfl rfl rfl rfl (by simp [ServerPhase.next]) (by simp)
      (.nothing rfl rfl rfl (by simp [ServerPhase.next]))
  | unlock =>
    cases hs
    exact h.still hv hh rfl rfl rfl rfl rfl (by simp [ServerPhase.next]) (by simp)
      (.nothing rfl rfl rfl (by simp [ServerPhase.next]))

theorem moves (h : Quiescent s views) (hs : s.Moves s') : Quiescent s' views := by
  have hh := h.holding.moves hs
  cases hs with
  | worker workers done hall =>
    have hfin : s.AllFinished → Server.AllFinished { s with workers := workers, workersDone := done } := fun hw => by
      have hw' : workers = s.workers := hall hw
      rw [Server.AllFinished, hw']
      exact hw
    exact ⟨hh, h.pending, h.nodup, h.runners, h.starts, fun hf => ⟨hfin (h.idle hf).1, (h.idle hf).2⟩, h.active,
      fun t v hv hp => ⟨hfin (h.opens t v hv hp).1, (h.opens t v hv hp).2⟩, h.stops,
      fun t v hv hp => hfin (h.joins t v hv hp), h.binding⟩
  | ioStop => exact ⟨hh, h.pending, h.nodup, h.runners, h.starts, h.idle, h.active, h.opens, h.stops, h.joins, h.binding⟩
  | signal => exact ⟨hh, h.pending, h.nodup, h.runners, h.starts, h.idle, h.active, h.opens, h.stops, h.joins, h.binding⟩
  | onSignal n _ =>
    exact ⟨hh, h.pending, h.nodup, h.runners, h.starts, h.idle, h.active, h.opens, h.stops, h.joins, h.binding⟩
  | sessions n =>
    exact ⟨hh, h.pending, h.nodup, h.runners, h.starts, h.idle, h.active, h.opens, h.stops, h.joins, h.binding⟩

end Quiescent

theorem quiescent_of_reach {n : UInt32} {p : HostPool} (hp : (hostMachine n).Reach Unblocked {} p) :
    ∃ views, Quiescent p.shared views ∧ Machine.Linked hostDiscipline (fun _ _ r v => v.Returns r) p views := by
  refine Machine.sound (fun _ _ => .outside) .new (fun _ c => serverCall_ok n c) ?_ ?_ ?_ hp
  · exact fun p views t c _ _ hinv _ ht => hinv.call ht
  · intro p views t i o v r s' _ _ hinv hG hthread hv hpre hex
    obtain ⟨c, k, hthread⟩ := hthread
    refine hinv.exec hv hpre (fun ho => ?_) hex
    subst ho
    exact hG (Machine.next_of_thread hthread)
  · exact fun p views e s' _ _ hinv _ he => hinv.moves (Server.moves_of_step he)

/-- **Quiescence.** When a `stop()` that found the server running returns, nobody is inside `run()`; and nobody is there
when the io context is restarted or a `bind*` changes the handlers: in every run in which each `stop()` finds no `start()`
on its way into `run()` or inside it when it takes `m_mtx`. -/
theorem stop_quiescent {n : UInt32} {p : HostPool} (hp : (hostMachine n).Reach Unblocked {} p) :
    (∀ t i p', (hostMachine n).step p (.op t i) = some p' → p'.result t = some (.stop, .stopped true) →
      p'.shared.inRun = false ∧ p'.shared.AllFinished) ∧
    (∀ t, p.next t = some .restart → p.shared.inRun = false) ∧
    (∀ t b, p.next t = some (.writeBind b) → p.shared.inRun = false) := by
  obtain ⟨views, hinv, hl⟩ := quiescent_of_reach hp
  refine ⟨fun t i p' hs hr => ?_, fun t ht => ?_, fun t b ht => ?_⟩
  · obtain ⟨c, o, k, r, s, hth, hex, rfl⟩ := Machine.step_op hs
    obtain ⟨v, hv, hok⟩ := hl.ok hth
    have hret := Machine.result_eq_some hr
    dsimp only at hret
    rw [Function.update_self, Option.some.injEq, Prod.mk.injEq] at hret
    have hok' := hok.2 r
    rw [hret.2] at hok'
    have hfin : v.next o r = .finished := hok' rfl
    obtain ⟨rfl, rfl⟩ : v = .settled ∧ o = .unlock := by
      cases hok.1 with
      | unlockStop => exact ⟨rfl, rfl⟩
      | unlockStart async => cases async <;> cases hfin
      | beginStart async => cases r <;> cases hfin
      | readRunning => cases r <;> cases hfin
      | testBind => cases r <;> cases hfin
      | _ => cases hfin
    cases hex
    have hall := hinv.joins t _ hv rfl
    exact ⟨Quiescent.inRun_eq_false hall (hinv.runners_nil (hinv.stops t _ hv rfl)), hall⟩
  · obtain ⟨c, k, hth⟩ := Machine.next_eq_some ht
    obtain ⟨v, hv, hok⟩ := hl.ok hth
    apply hinv.inRun_of_opens hv
    cases hok.1 with
    | restart async => rfl
  · obtain ⟨c, k, hth⟩ := Machine.next_eq_some ht
    obtain ⟨v, hv, hok⟩ := hl.ok hth
    have hbind : v = .binding := by
      cases hok.1 with
      | writeBind b => rfl
    obtain ⟨hall, hb⟩ := hinv.idle (hinv.binding t (hbind ▸ hv))
    exact Quiescent.inRun_eq_false hall (hinv.runners_nil hb)

def unblocked (p : HostPool) : Act ServerCall Unit ServerEnv → Bool
  | .op t _ => decide (p.next t = some .lock → t ∈ p.shared.stopping → p.shared.blocking = [])
  | _ => true

theorem unblocked_sound (p : HostPool) (a : Act ServerCall Unit ServerEnv) (h : unblocked p a = true) :
    Unblocked p a := by
  cases a with
  | call t c => trivial
  | op t i =>
    simp only [unblocked, decide_eq_true_eq] at h
    exact h
  | env e => trivial

/-- A worker runs; the server is stopped by the call `t`, and the worker comes to its end. The call has not let go of
the lock. -/
def workerRun (t : Nat) : List (Act ServerCall Unit ServerEnv) :=
  [.call t .stop, .op t (), .op t (), .op t (), .env (.workerLeave 0), .env (.workerCount 0), .op t (),
    .env (.workerFinish 0), .op t (), .op t ()]

theorem stop_quiescent_worker : ∃ p p' : HostPool, (hostMachine 1).Reach Unblocked {} p ∧
    (hostMachine 1).step p (.op 1 ()) = some p' ∧ p'.result 1 = some (.stop, .stopped true) ∧
    p'.shared.inRun = false ∧ p'.shared.AllFinished := by
  have hrun : ((hostMachine 1).run unblocked (.initial {}) (asyncRun 0 ++ [.env (.workerEnter 0)] ++ workerRun 1)).any
      (fun p => ((hostMachine 1).step p (.op 1 ())).any fun p' =>
        decide (p'.result 1 = some (.stop, .stopped true))) = true := by
    decide +kernel
  obtain ⟨p, hp, hf⟩ := Machine.Reach.exists_of_run unblocked_sound _ hrun
  obtain ⟨p', hs, hr⟩ := (Option.any_eq_true _ _).mp hf
  have hret := of_decide_eq_true hr
  exact ⟨p, p', hp, hs, hret, (stop_quiescent hp).1 1 () p' hs hret⟩

/-- A server with one worker is started by `start()`, which runs the io context itself; another call stops it and then
starts it again. -/
def overtaken : List (Act ServerCall Unit ServerEnv) :=
  [.call 0 .start, .op 0 (), .op 0 (), .op 0 (), .op 0 (), .op 0 (), .op 0 (),
    .call 1 .stop, .op 1 (), .op 1 (), .op 1 (), .op 1 (), .op 1 (), .op 1 (), .op 1 (),
    .call 2 .startAsync, .op 2 (), .op 2 ()]

/-- `stop()` has returned, and the io context is about to be restarted, while the `start()` is still inside `run()`. -/
theorem stop_overtaken : ∃ p : HostPool, (hostMachine 1).Reach Machine.Free {} p ∧
    p.result 1 = some (.stop, .stopped true) ∧ p.next 2 = some .restart ∧ p.next 0 = some .leaveRun ∧
    p.shared.inRun = true := by
  have hrun : ((hostMachine 1).run (fun _ _ => true) (.initial {}) overtaken).any
      (fun p => decide (p.result 1 = some (.stop, .stopped true)) && decide (p.next 2 = some .restart) &&
        decide (p.next 0 = some .leaveRun) && p.shared.inRun) = true := by
    decide +kernel
  obtain ⟨p, hp, hf⟩ := Machine.Reach.exists_of_run (fun _ _ _ => trivial) overtaken hrun
  simp only [Bool.and_eq_true, decide_eq_true_eq] at hf
  exact ⟨p, hp, hf.1.1.1, hf.1.1.2, hf.1.2, hf.2⟩

/-! ## Signals -/

/-- The io context is not restarted after `on_signal` has run. -/
def Unsignalled (p : HostPool) : Act ServerCall Unit ServerEnv → Prop
  | .op t _ => p.next t = some .restart → p.shared.signals = 0
  | _ => True

/-- The wait for a signal is outstanding until `on_signal` runs, which stops the io context. -/
structure Attentive (s : Server) : Prop where
  waits : s.signals = 0 → s.signalWait = true
  stopped : s.signals ≠ 0 → s.stopped = true

namespace Attentive

variable {s s' : Server}

theorem same (h : Attentive s) (h1 : s'.signals = s.signals) (h2 : s'.signalWait = s.signalWait)
    (h3 : s.stopped = true → s'.stopped = true) : Attentive s' :=
  ⟨fun h0 => h2.trans (h.waits (h1 ▸ h0)), fun h0 => h3 (h.stopped (h1 ▸ h0))⟩

theorem exec (h : Attentive s) {n : UInt32} {t : Nat} {o : ServerOp} {i : Unit} {r : o.Res}
    (hG : o = .restart → s.signals = 0) (hs : o.exec n t i s = some (r, s')) : Attentive s' := by
  cases o with
  | restart =>
    cases hs
    have h0 := hG rfl
    split
    · exact ⟨h.waits, fun hne => absurd h0 hne⟩
    · exact h
  | lock =>
    simp only [ServerOp.exec] at hs
    split at hs
    · cases hs
      exact h.same rfl rfl id
    · cases hs
  | beginStart async =>
    simp only [ServerOp.exec] at hs
    split at hs
    · cases hs
      exact h
    · cases hs
      exact h.same rfl rfl id
  | leaveRun =>
    simp only [ServerOp.exec] at hs
    split at hs
    · cases hs
      exact h.same rfl rfl id
    · cases hs
  | waitWorkers | joinWorkers =>
    simp only [ServerOp.exec] at hs
    split at hs
    · cases hs
      exact h
    · cases hs
  | writeBind b =>
    simp only [ServerOp.exec] at hs
    split at hs
    · split at hs
      · cases hs
        exact h
      · cases hs
        exact h.same rfl rfl id
    · cases hs
      exact h.same rfl rfl id
  | stopIo =>
    cases hs
    exact h.same rfl rfl fun _ => rfl
  | readRunning =>
    cases hs
    exact h
  | testBind =>
    cases hs
    exact h
  | _ =>
    cases hs
    exact h.same rfl rfl id

theorem moves (h : Attentive s) (hs : s.Moves s') : Attentive s' := by
  cases hs with
  | worker workers done _ => exact h.same rfl rfl id
  | ioStop => exact h.same rfl rfl fun _ => rfl
  | signal => exact h.same rfl rfl id
  | onSignal n hn => exact ⟨fun h0 => absurd h0 (Nat.ne_of_gt hn), fun _ => rfl⟩
  | sessions n => exact h.same rfl rfl id

end Attentive

theorem attentive_of_reach {n : UInt32} {p : HostPool} (hp : (hostMachine n).Reach Unsignalled {} p) :
    Attentive p.shared := by
  induction hp with
  | start => exact ⟨fun _ => rfl, fun h => absurd rfl h⟩
  | @step p p' a _ hG hs ih =>
    cases a with
    | call t c =>
      obtain ⟨-, rfl⟩ := Machine.step_call hs
      exact ih
    | op t i =>
      obtain ⟨c, o, k, r, s, hth, hex, rfl⟩ := Machine.step_op hs
      refine ih.exec (fun ho => ?_) hex
      subst ho
      exact hG (Machine.next_of_thread hth)
    | env e =>
      obtain ⟨s, he, rfl⟩ := Machine.step_env hs
      exact ih.moves (Server.moves_of_step he)

/-- **A running server waits for signals.** Whenever the server is running and its io context is not stopped, the wait
for a signal is outstanding: in every run in which the io context is not restarted after a signal has been handled. -/
theorem signal_awaited {n : UInt32} {p : HostPool} (hp : (hostMachine n).Reach Unsignalled {} p)
    (_ : p.shared.running = true) (hs : p.shared.stopped = false) : p.shared.signalWait = true := by
  have h := attentive_of_reach hp
  apply h.waits
  by_contra hne
  exact absurd (hs.symm.trans (h.stopped hne)) Bool.false_ne_true

def unsignalled (p : HostPool) : Act ServerCall Unit ServerEnv → Bool
  | .op t _ => decide (p.next t = some .restart → p.shared.signals = 0)
  | _ => true

theorem unsignalled_sound (p : HostPool) (a : Act ServerCall Unit ServerEnv) (h : unsignalled p a = true) :
    Unsignalled p a := by
  cases a with
  | call t c => trivial
  | op t i =>
    simp only [unsignalled, decide_eq_true_eq] at h
    exact h
  | env e => trivial

/-- The server is started, stopped and started again. -/
def restartRun (signals : List (Act ServerCall Unit ServerEnv)) : List (Act ServerCall Unit ServerEnv) :=
  asyncRun 0 ++ [.env (.workerEnter 0)] ++ signals ++ workerRun 1 ++ [.op 1 ()] ++ asyncRun 2

theorem signal_awaited_restart : ∃ p : HostPool, (hostMachine 1).Reach Unsignalled {} p ∧ p.shared.running = true ∧
    p.shared.stopped = false ∧ p.shared.signalWait = true := by
  have hrun : ((hostMachine 1).run unsignalled (.initial {}) (restartRun [])).any
      (fun p => p.shared.running && !p.shared.stopped) = true := by
    decide +kernel
  obtain ⟨p, hp, hf⟩ := Machine.Reach.exists_of_run unsignalled_sound _ hrun
  simp only [Bool.and_eq_true, Bool.not_eq_true'] at hf
  exact ⟨p, hp, hf.1, hf.2, signal_awaited hp hf.1 hf.2⟩

/-- The first signal uses the wait up; the restarted server does not wait for the next one. -/
theorem signal_missed : ∃ p : HostPool, (hostMachine 1).Reach Machine.Free {} p ∧ p.shared.running = true ∧
    p.shared.stopped = false ∧ p.shared.signalWait = false := by
  have hrun : ((hostMachine 1).run (fun _ _ => true) (.initial {}) (restartRun [.env .signal, .env .onSignal])).any
      (fun p => p.shared.running && !p.shared.stopped && !p.shared.signalWait) = true := by
    decide +kernel
  obtain ⟨p, hp, hf⟩ := Machine.Reach.exists_of_run (fun _ _ _ => trivial) _ hrun
  simp only [Bool.and_eq_true, Bool.not_eq_true'] at hf
  exact ⟨p, hp, hf.1.1, hf.1.2, hf.2⟩

end Radrpc
