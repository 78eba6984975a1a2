import Radrpc.Client.Owners
import Radrpc.Lib.Components

/-!
# Who runs the io context

The streams of a client have no strand: the io context is meant to be run by one thread only. The thread of the client
runs it from `run()` on; when it is stopped, `close()` runs it once more on the thread of its caller.

* `Turn`, `turnDiscipline`, `turn_ok` : every call gives the lock back, and runs the io context only after it has found
  it stopped;
* `Stage`, `Client.At` : what the holder of the lock may rely on: the io context is not run, or by whom;
* `Turns` : the invariant, which says this of every holder of the lock;
* `Exact` : the holders of the lock are the calls that hold it;
* `Departed`, `io_single_threaded` : as long as the io thread has come back when `close()` restarts the io context, no two
  threads run it, and handlers run only inside;
* `io_shared` : otherwise two threads can.
-/

namespace Radrpc
open Conc

/-- What a call has found out about the io context, and does with it. -/
inductive IoUse where
  | outside
  | stopped
  | inside
  deriving DecidableEq, Repr

/-- How a call holds the lock and uses the io context. -/
structure Turn where
  lock : LockMode := .free
  use : IoUse := .outside
  deriving DecidableEq, Repr

/-- The operations that have nothing to do with the lock and the running of the io context. -/
def ClientOp.plain : ClientOp → Bool
  | .lockShared => false
  | .unlockShared => false
  | .lockExcl => false
  | .unlockExcl => false
  | .beginClose _ => false
  | .postClose _ => false
  | .restartIo => false
  | .finishIo => false
  | _ => true

namespace Turn

def Allows (v : Turn) : ClientOp → Prop
  | .postClose _ => v.use ≠ .inside
  | .restartIo => v.use = .stopped
  | .finishIo => v.use = .inside
  | _ => v.use = .outside

def next (v : Turn) : (o : ClientOp) → o.Res → Turn
  | .lockShared, _ => { v with lock := .shared }
  | .unlockShared, _ => { v with lock := .free }
  | .lockExcl, _ => { v with lock := .excl }
  | .unlockExcl, _ => { v with lock := .free }
  | .beginClose _, .stopped => { v with use := .stopped }
  | .restartIo, _ => { v with use := .inside }
  | .finishIo, _ => { v with use := .outside }
  | _, _ => v

/-- The call holds the lock in this way, and is not concerned with the io context. -/
def holding (l : LockMode) : Turn := ⟨l, .outside⟩

end Turn

def turnDiscipline : Discipline ClientOp ClientOp.Res Turn where
  pre := Turn.Allows
  post := Turn.next

/-- The program goes from one way of holding the lock to another one, and leaves the io context as it has found it. -/
abbrev Passes {β : Type} (l l' : LockMode) (p : ClientProg β) : Prop :=
  turnDiscipline.Ok (fun _ w => w = Turn.holding l') (.holding l) p

namespace Turn

theorem plain_pre {l : LockMode} {o : ClientOp} (ho : o.plain = true) : turnDiscipline.pre (holding l) o := by
  cases o <;> first | rfl | cases ho

theorem plain_post {v : Turn} {o : ClientOp} (r : o.Res) (ho : o.plain = true) : turnDiscipline.post v o r = v := by
  cases o <;> first | rfl | cases ho

theorem plain_ok {β : Type} {l : LockMode} {p : ClientProg β} (hp : p.Only fun o => o.plain = true) : Passes l l p :=
  .of_only (fun _ => plain_pre) (fun _ => plain_post) hp

theorem bind_ok {α β : Type} {l l' l'' : LockMode} {p : ClientProg α} {f : α → ClientProg β} (hp : Passes l l' p)
    (hf : ∀ a, Passes l' l'' (f a)) : Passes l l'' (p >>= f) :=
  Discipline.Ok.bind hp fun a w hw => by
    rw [hw]
    exact hf a

theorem constructSession_plain : Client.constructSession.Only fun o => o.plain = true := by
  refine ⟨rfl, fun expired => ?_⟩
  cases expired with
  | false => exact trivial
  | true =>
    refine ⟨rfl, fun _ => ⟨rfl, fun k => ⟨rfl, fun start => ?_⟩⟩⟩
    cases start with
    | false => exact ⟨rfl, fun _ => trivial⟩
    | true => exact ⟨rfl, fun _ => ⟨rfl, fun _ => ⟨rfl, fun _ => trivial⟩⟩⟩

theorem retryConnect_plain (n : Nat) : (Client.retryConnect n).Only fun o => o.plain = true := by
  induction n with
  | zero => exact trivial
  | succ n ih =>
    refine ⟨rfl, fun destroyed => ?_⟩
    cases destroyed with
    | false => exact trivial
    | true =>
      show Prog.Only _ (Client.constructSession >>= _)
      refine Prog.Only.bind constructSession_plain fun connected => ?_
      cases connected with
      | true => exact trivial
      | false => exact ih

theorem attemptConnect_plain (n : Nat) : (Client.attemptConnect n).Only fun o => o.plain = true := by
  cases n with
  | zero => exact trivial
  | succ n =>
    show Prog.Only _ (Client.constructSession >>= _)
    refine Prog.Only.bind constructSession_plain fun connected => ?_
    cases connected with
    | true => exact trivial
    | false => exact retryConnect_plain n

theorem close_ok (l : LockMode) (k : Nat) : Passes l l (Client.close k) := by
  refine ⟨rfl, fun mode => ?_⟩
  cases mode with
  | initiated => exact rfl
  | stopped => exact ⟨by simp [turnDiscipline, Allows, next], fun _ => ⟨rfl, fun _ => ⟨rfl, fun _ => rfl⟩⟩⟩
  | running => exact ⟨by simp [turnDiscipline, Allows, next, holding], fun _ => ⟨rfl, fun _ => rfl⟩⟩

theorem closeCurrent_ok (l : LockMode) : Passes l l Client.closeCurrent := by
  refine ⟨rfl, fun session => ?_⟩
  cases session with
  | none => exact rfl
  | some k =>
    show Passes l l (Client.close k >>= _)
    exact bind_ok (close_ok l k) fun _ => ⟨rfl, fun _ => rfl⟩

theorem unlock_ok {β : Type} (b : β) : Passes .excl .free (do
    ClientOp.run .unlockExcl
    return b) :=
  ⟨rfl, fun _ => rfl⟩

theorem locked_ok {α β : Type} {early : β} {p : ClientProg α} {f : α → ClientProg β} (hp : Passes .excl .excl p)
    (hf : ∀ a, Passes .excl .free (f a)) : Passes .free .free (do
      ClientOp.run .lockExcl
      let exit : Bool ← ClientOp.run .readExit
      if exit then
        ClientOp.run .unlockExcl
        return early
      else
        let a ← p
        f a) := by
  refine ⟨rfl, fun _ => ⟨rfl, fun exit => ?_⟩⟩
  cases exit with
  | true => exact unlock_ok early
  | false =>
    show Passes .excl .free (p >>= f)
    exact bind_ok hp hf

theorem connect_ok : Passes .free .free Client.connect :=
  locked_ok (plain_ok constructSession_plain) unlock_ok

theorem connectAttempts_ok (attempts : Nat) : Passes .free .free (Client.connectAttempts attempts) :=
  locked_ok (plain_ok (attemptConnect_plain attempts)) unlock_ok

theorem disconnect_ok : Passes .free .free Client.disconnect :=
  locked_ok (closeCurrent_ok .excl) fun _ => ⟨rfl, unlock_ok⟩

theorem onSession_plain {β : Type} (k : Nat) (p : SessProg β) : (onSession k p).Only fun o => o.plain = true :=
  Prog.lift_only (f := ClientOp.sess k) (P := fun o => o.plain = true) (fun _ => rfl) p

theorem ping_ok : Passes .free .free Client.ping := by
  refine locked_ok (plain_ok constructSession_plain) fun connected => ?_
  cases connected with
  | false => exact unlock_ok false
  | true =>
    refine ⟨rfl, fun session => ?_⟩
    cases session with
    | none => exact unlock_ok false
    | some k =>
      show Passes .excl .free (onSession k Radrpc.ping >>= _)
      exact bind_ok (plain_ok (onSession_plain k _)) fun pong => ⟨rfl, fun _ => unlock_ok pong⟩

theorem attempt_ok {α β : Type} {early : β} {p : SessProg α} {f : α → ClientProg β} {retry : ClientProg β}
    (hf : ∀ a, Passes .free .free (f a)) (hretry : Passes .free .free retry) : Passes .free .free (do
      ClientOp.run .lockShared
      let exit : Bool ← ClientOp.run .readExit
      if exit then
        ClientOp.run .unlockShared
        return early
      else
        let session : Option Nat ← ClientOp.run .lockSession
        match session with
        | some k =>
          let a ← onSession k p
          ClientOp.run (.releaseSession k)
          ClientOp.run .unlockShared
          f a
        | none =>
          ClientOp.run .unlockShared
          let _ ← Client.connect
          retry) := by
  refine ⟨rfl, fun _ => ⟨rfl, fun exit => ?_⟩⟩
  cases exit with
  | true => exact ⟨rfl, fun _ => rfl⟩
  | false =>
    refine ⟨rfl, fun session => ?_⟩
    cases session with
    | none =>
      refine ⟨rfl, fun _ => ?_⟩
      show Passes .free .free (Client.connect >>= _)
      exact bind_ok connect_ok fun _ => hretry
    | some k =>
      show Passes .shared .free (onSession k p >>= _)
      exact bind_ok (plain_ok (onSession_plain k p)) fun a => ⟨rfl, fun _ => ⟨rfl, fun _ => hf a⟩⟩

theorem send_ok (callId : UInt32) (body : Bytes) (n : Nat) : Passes .free .free (Client.send callId body n) := by
  induction n with
  | zero => exact rfl
  | succ n ih =>
    refine attempt_ok (fun ec => ?_) ih
    cases ec with
    | none => exact rfl
    | some _ =>
      show Passes .free .free (Client.disconnect >>= _)
      refine bind_ok disconnect_ok fun returned => ?_
      cases returned with
      | false => exact rfl
      | true => exact ih

theorem sendRecv_ok (responseTimeout : Time) (callId : UInt32) (body : Bytes) (n : Nat) (result : Bytes) :
    Passes .free .free (Client.sendRecv responseTimeout callId body n result) := by
  induction n generalizing result with
  | zero => exact rfl
  | succ n ih =>
    refine attempt_ok (fun r => ?_) (ih result)
    obtain ⟨recv, ec, id⟩ := r
    cases ec with
    | none => exact rfl
    | some _ =>
      show Passes .free .free (Client.disconnect >>= _)
      refine bind_ok disconnect_ok fun returned => ?_
      cases returned with
      | false => exact rfl
      | true => exact ih recv

theorem listenBroadcast_ok (id : UInt32) (handler : Bool) : Passes .free .free (Client.listenBroadcast id handler) := by
  refine ⟨rfl, fun _ => ⟨rfl, fun exit => ?_⟩⟩
  cases exit with
  | true => exact ⟨rfl, fun _ => rfl⟩
  | false => exact ⟨rfl, fun _ => ⟨rfl, fun _ => rfl⟩⟩

theorem setHandshakeRequest_ok (request : Handshake) : Passes .free .free (Client.setHandshakeRequest request) := by
  refine ⟨rfl, fun _ => ⟨rfl, fun exit => ?_⟩⟩
  cases exit with
  | true => exact ⟨rfl, fun _ => rfl⟩
  | false => exact ⟨rfl, fun _ => ⟨rfl, fun _ => rfl⟩⟩

theorem getHandshakeResponse_ok : Passes .free .free Client.getHandshakeResponse := by
  refine ⟨rfl, fun _ => ⟨rfl, fun exit => ?_⟩⟩
  cases exit with
  | true => exact unlock_ok []
  | false =>
    refine ⟨rfl, fun session => ?_⟩
    cases session with
    | none => exact unlock_ok []
    | some k => exact ⟨rfl, fun response => ⟨rfl, fun _ => unlock_ok response⟩⟩

theorem destroy_ok : Passes .free .free Client.destroy := by
  refine ⟨rfl, fun _ => ⟨rfl, fun _ => ?_⟩⟩
  show Passes .excl .free (Client.closeCurrent >>= _)
  exact bind_ok (closeCurrent_ok .excl) fun _ => ⟨rfl, fun _ => ⟨rfl, fun _ => unlock_ok ()⟩⟩

end Turn

/-- Every call gives the lock back, and runs the io context only where it has found it stopped. -/
theorem turn_ok (cfg : ClientConfig) (c : ClientCall) : Passes .free .free (c.body cfg) := by
  cases c with
  | connect => exact Turn.bind_ok Turn.connect_ok fun _ => rfl
  | connectAttempts attempts => exact Turn.bind_ok (Turn.connectAttempts_ok attempts) fun _ => rfl
  | disconnect => exact Turn.bind_ok Turn.disconnect_ok fun _ => rfl
  | ping => exact Turn.bind_ok Turn.ping_ok fun _ => rfl
  | send callId body => exact Turn.bind_ok (Turn.send_ok callId body cfg.attempts) fun _ => rfl
  | sendRecv callId body =>
    exact Turn.bind_ok (Turn.sendRecv_ok cfg.responseTimeout callId body cfg.attempts []) fun _ => rfl
  | listenBroadcast id handler => exact Turn.bind_ok (Turn.listenBroadcast_ok id handler) fun _ => rfl
  | setHandshakeRequest request => exact Turn.bind_ok (Turn.setHandshakeRequest_ok request) fun _ => rfl
  | getHandshakeResponse => exact Turn.bind_ok Turn.getHandshakeResponse_ok fun _ => rfl
  | destroy => exact Turn.bind_ok Turn.destroy_ok fun _ => rfl

/-! ## The holder of the lock -/

/-- How far the holder of the lock has come, as far as the io context is concerned: it constructs no session and runs
nothing, it has found the io context stopped, it runs it, or it constructs a session. -/
inductive Stage where
  | quiet
  | stopped
  | inside
  | created (k : Nat)
  | resolving (k : Nat)
  | running (k : Nat)

/-- The stage of a call that constructs a session, or none. -/
def Building.stage : Building → Stage
  | .created k => .created k
  | .resolving k => .resolving k
  | .running k => .running k
  | _ => .quiet

def Stage.of (v : ClientView × Turn) : Stage :=
  match v.2.use with
  | .outside => v.1.building.stage
  | .stopped => .stopped
  | .inside => .inside

/-- What the holder of the lock may rely on. From `run()` on until its promise is set, the connection attempt keeps the
io context at work. -/
def Client.At (s : Client) : Stage → Prop
  | .quiet => s.inline = false ∧ s.worker ≠ .starting
  | .stopped => s.inline = false ∧ s.worker ≠ .starting ∧ s.stopped = true
  | .inside => s.inline = true ∧ s.worker ≠ .starting
  | .created k => s.inline = false ∧ s.worker = .none ∧ k < s.sessionCount ∧ (s.sessions k).ran = none
  | .resolving k => s.inline = false ∧ s.worker = .none ∧ k < s.sessionCount ∧ (s.sessions k).ran = none ∧
      (s.sessions k).connecting.isSome = true
  | .running k => s.inline = false ∧ k < s.sessionCount ∧ (s.worker = .starting → (s.sessions k).ran = none) ∧
      ((s.sessions k).ran = none → (s.sessions k).connecting.isSome = true ∧
        (s.worker = .starting ∨ s.worker = .running ∧ s.stopped = false))

theorem Client.modify_keeps {β : Type} (s : Client) (k : Nat) {f : SessObj → SessObj} (g : SessObj → β)
    (h : g (f (s.sessions k)) = g (s.sessions k)) (k' : Nat) : g ((s.modify k f).sessions k') = g (s.sessions k') := by
  rw [sessions_modify]
  split
  · rename_i hk
    rw [h, hk]
  · rfl

theorem Client.At.same {s s' : Client} {stage : Stage} (hs : s.At stage) (h1 : s'.worker = s.worker)
    (h2 : s'.stopped = s.stopped) (h3 : s'.inline = s.inline) (h4 : s'.sessionCount = s.sessionCount)
    (h5 : ∀ k, (s'.sessions k).ran = (s.sessions k).ran)
    (h6 : ∀ k, (s'.sessions k).connecting = (s.sessions k).connecting) : s'.At stage := by
  cases stage <;> simpa only [At, h1, h2, h3, h4, h5, h6] using hs

/-- Nothing has happened to the io context, nor to a connection attempt or a handler. -/
structure Client.SameIo (s s' : Client) : Prop where
  worker : s'.worker = s.worker
  stopped : s'.stopped = s.stopped
  inline : s'.inline = s.inline
  sessionCount : s'.sessionCount = s.sessionCount
  ran : ∀ k, (s'.sessions k).ran = (s.sessions k).ran
  connecting : ∀ k, (s'.sessions k).connecting = (s.sessions k).connecting
  active : ∀ k, (s'.sessions k).active = (s.sessions k).active
  life : ∀ k, (s'.sessions k).life = (s.sessions k).life
  pending : ∀ k, (s'.sessions k).sess.pending = (s.sessions k).sess.pending
  handshake : ∀ k, (s'.sessions k).handshake = (s.sessions k).handshake

namespace Client.SameIo

variable {s s' : Client}

theorem shared (s : Client) {s' : Client} (h1 : s'.worker = s.worker) (h2 : s'.stopped = s.stopped)
    (h3 : s'.inline = s.inline) (h4 : s'.sessionCount = s.sessionCount) (h5 : s'.sessions = s.sessions) :
    s.SameIo s' :=
  ⟨h1, h2, h3, h4, fun _ => by rw [h5], fun _ => by rw [h5], fun _ => by rw [h5], fun _ => by rw [h5],
    fun _ => by rw [h5], fun _ => by rw [h5]⟩

theorem refl (s : Client) : s.SameIo s := shared s rfl rfl rfl rfl rfl

theorem modify (s : Client) (k : Nat) {f : SessObj → SessObj} (h1 : (f (s.sessions k)).ran = (s.sessions k).ran)
    (h2 : (f (s.sessions k)).connecting = (s.sessions k).connecting)
    (h3 : (f (s.sessions k)).active = (s.sessions k).active) (h4 : (f (s.sessions k)).life = (s.sessions k).life)
    (h5 : (f (s.sessions k)).sess.pending = (s.sessions k).sess.pending)
    (h6 : (f (s.sessions k)).handshake = (s.sessions k).handshake) : s.SameIo (s.modify k f) :=
  ⟨rfl, rfl, rfl, rfl, s.modify_keeps k SessObj.ran h1, s.modify_keeps k SessObj.connecting h2,
    s.modify_keeps k SessObj.active h3, s.modify_keeps k SessObj.life h4,
    s.modify_keeps k (fun x => x.sess.pending) h5, s.modify_keeps k SessObj.handshake h6⟩

theorem ioRunning (h : s.SameIo s') : s'.ioRunning = s.ioRunning := by
  rw [Client.ioRunning, h.worker, h.inline, h.stopped]
  rfl

theorem at' (h : s.SameIo s') {stage : Stage} (hs : s.At stage) : s'.At stage :=
  hs.same h.worker h.stopped h.inline h.sessionCount h.ran h.connecting

end Client.SameIo

/-- The steps of a call that concern the io context or a connection attempt. -/
def ClientOp.turns : ClientOp → Bool
  | .joinWorker => true
  | .joinAtExit => true
  | .newSession => true
  | .beginRun _ => true
  | .assignWorker => true
  | .restartIo => true
  | .finishIo => true
  | _ => false

theorem ClientOp.exec_sameIo {cfg : ClientConfig} {t : Nat} {o : ClientOp} {i : Clock} {r : o.Res} {s s' : Client}
    (hs : o.exec cfg t i s = some (r, s')) (ho : o.turns = false) : s.SameIo s' := by
  cases o with
  | joinWorker => cases ho
  | joinAtExit => cases ho
  | newSession => cases ho
  | beginRun k => cases ho
  | assignWorker => cases ho
  | restartIo => cases ho
  | finishIo => cases ho
  | lockShared | lockExcl =>
    simp only [exec] at hs
    split at hs
    · cases hs
      exact .shared s rfl rfl rfl rfl rfl
    · cases hs
  | lockSession =>
    simp only [exec] at hs
    split at hs
    · cases hs
      exact .refl s
    · split at hs
      · cases hs
        exact .modify s _ rfl rfl rfl rfl rfl rfl
      · cases hs
        exact .refl s
  | releaseSession k =>
    cases hs
    exact .modify s _ rfl rfl rfl rfl rfl rfl
  | sess k o =>
    obtain ⟨⟨r', x⟩, hx, he⟩ := Option.map_eq_some_iff.mp hs
    cases he
    refine .modify s k rfl rfl rfl rfl ?_ rfl
    obtain ⟨_, _, _, _, _, rfl⟩ := SessOp.exec_frame hx
    rfl
  | waitRun k =>
    simp only [exec] at hs
    split at hs
    · cases hs
    · cases hs
      exact .modify s _ rfl rfl rfl rfl rfl rfl
  | waitDestruction =>
    simp only [exec] at hs
    split at hs
    · cases hs
      exact .refl s
    · split at hs
      · cases hs
        exact .refl s
      · cases hs
  | beginClose k =>
    simp only [exec] at hs
    split at hs
    · cases hs
      exact .refl s
    · cases hs
      exact .modify s _ rfl rfl rfl rfl rfl rfl
  | postClose k =>
    cases hs
    exact .modify s _ rfl rfl rfl rfl rfl rfl
  | waitPosted k =>
    simp only [exec] at hs
    split at hs
    · cases hs
      exact .refl s
    · split at hs
      · cases hs
        exact .refl s
      · cases hs
  | bindFunc id handler =>
    simp only [exec] at hs
    split at hs
    · cases hs
      exact .refl s
    · split at hs
      · cases hs
        exact .refl s
      · cases hs
        exact .shared s rfl rfl rfl rfl rfl
  | _ =>
    cases hs
    exact .shared s rfl rfl rfl rfl rfl

/-! ## What the io thread does to connection attempts -/

/-- A handler of a connection attempt sets the promise, or waits for the next operation. The handshake that it sends is
`request`. -/
structure SessObj.Attempts (request : Handshake) (f : SessObj → SessObj) : Prop where
  life : ∀ x, (f x).life = x.life
  holders : ∀ x, (f x).holders = x.holders
  waits : ∀ x, (f x).ran = none → x.ran = none ∧ (f x).connecting.isSome = true
  ran : ∀ x, (f x).connecting.isSome = true → (f x).ran = x.ran
  sends : ∀ x, (f x).connecting = some .handshake → (f x).handshake = some request

namespace SessObj

variable (request : Handshake)

theorem Attempts.fail : Attempts request fun x => x.fail :=
  ⟨fun _ => rfl, fun _ => rfl, fun _ h => (by cases h), fun _ h => (by cases h), fun _ h => (by cases h)⟩

theorem Attempts.onResolve (ec : Bool) : Attempts request fun x => x.onResolve ec := by
  cases ec with
  | true => exact .fail request
  | false => exact ⟨fun _ => rfl, fun _ => rfl, fun _ h => ⟨h, rfl⟩, fun _ _ => rfl, fun _ h => by cases h⟩

theorem Attempts.onSslHandshake (ec : Bool) : Attempts request fun x => x.onSslHandshake ec request := by
  cases ec with
  | true => exact .fail request
  | false => exact ⟨fun _ => rfl, fun _ => rfl, fun _ h => ⟨h, rfl⟩, fun _ _ => rfl, fun _ _ => rfl⟩

theorem Attempts.onConnect (ec ssl : Bool) : Attempts request fun x => x.onConnect ec ssl request := by
  cases ec with
  | true => exact .fail request
  | false =>
    cases ssl with
    | true => exact ⟨fun _ => rfl, fun _ => rfl, fun _ h => ⟨h, rfl⟩, fun _ _ => rfl, fun _ h => by cases h⟩
    | false => exact .onSslHandshake request false

theorem Attempts.onHandshake (ec : Bool) (response : Handshake) :
    Attempts request fun x => x.onHandshake ec response := by
  cases ec with
  | true => exact .fail request
  | false =>
    exact ⟨fun _ => rfl, fun _ => rfl, fun _ h => (by cases h), fun _ h => (by cases h), fun _ h => (by cases h)⟩

end SessObj

/-- What happens besides the calls, as far as the io context is concerned. -/
inductive Client.IoMoves (s : Client) : Client → Prop where
  | attempt (k : Nat) (f : SessObj → SessObj) : s.ioRunning = true → (s.sessions k).life = .alive →
      (s.sessions k).connecting.isSome = true → SessObj.Attempts s.reqHandshake f →
      IoMoves s (s.modify k fun x => { f x with active := true })
  | session (k : Nat) (sess : ClientSession) : s.ioRunning = true → (s.sessions k).life = .alive →
      IoMoves s (s.modify k fun x => { x with sess := sess, active := true })
  | object (k : Nat) (f : SessObj → SessObj) : (∀ x, (f x).ran = x.ran) → (∀ x, (f x).connecting = x.connecting) →
      (∀ x, (f x).holders = x.holders) → (∀ x, (f x).handshake = x.handshake) →
      (∀ x, (f x).sess.pending = x.sess.pending) →
      ((f (s.sessions k)).active = true → (s.sessions k).active = true ∧
        (f (s.sessions k)).life = (s.sessions k).life) → IoMoves s (s.modify k f)
  | reported (k : Nat) : (s.sessions k).life = .deleted →
      IoMoves s { s.modify k fun x => { x with life := .gone } with expired := true }
  | started : s.worker = .starting → IoMoves s { s with worker := .running, stopped := false }
  | idled : s.worker = .running → s.hasWork = false → IoMoves s { s with stopped := true }
  | left : s.worker = .running → s.stopped = true → IoMoves s { s with worker := .finished }

theorem Client.ioMoves_of_handler {s s' : Client} {k : Nat} {c : Connecting} {f : SessObj → SessObj}
    (hf : SessObj.Attempts s.reqHandshake f) (h : s.handler k c f = some s') : s.IoMoves s' := by
  unfold handler at h
  split at h
  · rename_i hg
    cases h
    exact .attempt k f hg.1 hg.2.1 (by rw [hg.2.2.1]; rfl) hf
  · cases h

theorem Client.ioMoves_of_step {cfg : ClientConfig} {s s' : Client} {e : ClientEnv} (h : s.step cfg e = some s') :
    s.IoMoves s' := by
  cases e with
  | onResolve k ec => exact ioMoves_of_handler (.onResolve _ ec) h
  | onConnect k ec => exact ioMoves_of_handler (.onConnect _ ec cfg.ssl) h
  | onSslHandshake k ec => exact ioMoves_of_handler (.onSslHandshake _ ec) h
  | onHandshake k ec response => exact ioMoves_of_handler (.onHandshake _ ec response) h
  | session k e =>
    simp only [step] at h
    split at h
    · rename_i hg
      obtain ⟨sess, -, he⟩ := Option.map_eq_some_iff.mp h
      rw [← he]
      have hlock : (s.sessions k).lockable = true := hg.2.1
      exact .session k sess hg.1 (of_decide_eq_true (Bool.and_eq_true_iff.mp hlock).1)
    · cases h
  | dropPosted k =>
    simp only [step] at h
    split at h
    · cases h
      exact .object k _ (fun _ => rfl) (fun _ => rfl) (fun _ => rfl) (fun _ => rfl) (fun _ => rfl) fun ha => ⟨ha, rfl⟩
    · cases h
  | leave k =>
    simp only [step] at h
    split at h
    · cases h
      exact .object k _ (fun _ => rfl) (fun _ => rfl) (fun _ => rfl) (fun _ => rfl) (fun _ => rfl) fun ha => by cases ha
    · cases h
  | delete k =>
    simp only [step] at h
    split at h
    · rename_i hg
      cases h
      refine .object k _ (fun _ => rfl) (fun _ => rfl) (fun _ => rfl) (fun _ => rfl) (fun _ => rfl) fun ha => ?_
      have hact : (s.sessions k).active = true := ha
      have hpin : (s.sessions k).pinned = false := hg.2
      simp [SessObj.pinned, hact] at hpin
    · cases h
  | onSessionDelete k =>
    simp only [step] at h
    split at h
    · rename_i hg
      cases h
      exact .reported k hg
    · cases h
  | workerRun =>
    simp only [step] at h
    split at h
    · rename_i hw
      cases h
      exact .started hw
    · cases h
  | workerStop =>
    simp only [step] at h
    split at h
    · rename_i hw
      cases h
      exact .idled hw.1 hw.2
    · cases h
  | workerDone =>
    simp only [step] at h
    split at h
    · rename_i hw
      cases h
      exact .left hw.1 hw.2
    · cases h

/-! ## The invariant -/

/-- The holder of the lock is right about the io context; without one it is quiet; and a handler runs only inside the
io context, on a session that exists. -/
structure Turns (s : Client) (views : Nat → Option (ClientView × Turn)) : Prop where
  holder : ∀ t v, views t = some v → v.1.lock = .excl → s.At (Stage.of v)
  quiet : (∀ t v, views t = some v → v.1.lock ≠ .excl) → s.At .quiet
  closing : ∀ t v, views t = some v → v.2.use ≠ .outside → v.1.building = .none
  active : ∀ k, (s.sessions k).active = true → s.ioRunning = true ∧ (s.sessions k).life = .alive

namespace Client

variable {s s' : Client}

theorem IoMoves.at' (h : s.IoMoves s') {stage : Stage} (hs : s.At stage) : s'.At stage := by
  cases h with
  | attempt k f hio halive hconn hf =>
    -- somebody runs the io context, so the attempt is not before `run()`
    cases stage with
    | quiet => exact hs
    | stopped => exact hs
    | inside => exact hs
    | created k' =>
      obtain ⟨hin, hw, -⟩ := hs
      simp [ioRunning, hin, hw] at hio
    | resolving k' =>
      obtain ⟨hin, hw, -⟩ := hs
      simp [ioRunning, hin, hw] at hio
    | running k' =>
      obtain ⟨hin, hk, hstart, hwait⟩ := hs
      have hrun : s.worker = .running ∧ s.stopped = false := by simpa [ioRunning, hin] using hio
      refine ⟨hin, hk, fun hw => ?_, fun hnone => ?_⟩
      · have hw' : s.worker = .starting := hw
        rw [hrun.1] at hw'
        cases hw'
      · rw [sessions_modify] at hnone ⊢
        split at hnone
        · rename_i hkk
          subst hkk
          rw [if_pos rfl]
          obtain ⟨hn, hc⟩ := hf.waits _ hnone
          exact ⟨hc, (hwait hn).2⟩
        · rename_i hkk
          rw [if_neg hkk]
          exact hwait hnone
  | session k sess hio halive =>
    exact hs.same rfl rfl rfl rfl (s.modify_keeps k SessObj.ran rfl) (s.modify_keeps k SessObj.connecting rfl)
  | object k f hran hconn hholders hsent hpend hact =>
    exact hs.same rfl rfl rfl rfl (s.modify_keeps k _ (hran _)) (s.modify_keeps k _ (hconn _))
  | reported k hlife =>
    exact hs.same rfl rfl rfl rfl (s.modify_keeps k (f := fun x => { x with life := .gone }) SessObj.ran rfl)
      (s.modify_keeps k (f := fun x => { x with life := .gone }) SessObj.connecting rfl)
  | started hw =>
    cases stage with
    | quiet => exact absurd hw hs.2
    | stopped => exact absurd hw hs.2.1
    | inside => exact absurd hw hs.2
    | created k' =>
      have hnone := hs.2.1
      rw [hw] at hnone
      cases hnone
    | resolving k' =>
      have hnone := hs.2.1
      rw [hw] at hnone
      cases hnone
    | running k' => exact ⟨hs.1, hs.2.1, fun hf => (by cases hf), fun hn => ⟨(hs.2.2.2 hn).1, .inr ⟨rfl, rfl⟩⟩⟩
  | idled hw hidle =>
    cases stage with
    | quiet => exact hs
    | stopped => exact ⟨hs.1, hs.2.1, rfl⟩
    | inside => exact hs
    | created k' =>
      have hnone := hs.2.1
      rw [hw] at hnone
      cases hnone
    | resolving k' =>
      have hnone := hs.2.1
      rw [hw] at hnone
      cases hnone
    | running k' =>
      refine ⟨hs.1, hs.2.1, hs.2.2.1, fun hn => ?_⟩
      -- the attempt has kept the io context at work
      have hc := (hs.2.2.2 hn).1
      have hwork : s.hasWork = true :=
        List.any_eq_true.mpr ⟨k', List.mem_range.mpr hs.2.1, by simp [SessObj.hasWork, hc]⟩
      rw [hidle] at hwork
      cases hwork
  | left hw hstop =>
    cases stage with
    | quiet => exact ⟨hs.1, by simp⟩
    | stopped => exact ⟨hs.1, by simp, hs.2.2⟩
    | inside => exact ⟨hs.1, by simp⟩
    | created k' =>
      have hnone := hs.2.1
      rw [hw] at hnone
      cases hnone
    | resolving k' =>
      have hnone := hs.2.1
      rw [hw] at hnone
      cases hnone
    | running k' =>
      refine ⟨hs.1, hs.2.1, fun hf => (by cases hf), fun hn => ?_⟩
      rcases (hs.2.2.2 hn).2 with hstart | ⟨-, hnot⟩
      · rw [hw] at hstart
        cases hstart
      · rw [hstop] at hnot
        cases hnot

end Client

namespace Turns

variable {s s' : Client} {views : Nat → Option (ClientView × Turn)}

theorem new (o : Words.ByteOrder) : Turns (.new o) fun _ => none :=
  ⟨fun _ _ h => (by cases h), fun _ => ⟨rfl, by simp [Client.new]⟩, fun _ _ h => (by cases h), fun _ h => (by cases h)⟩

theorem call (h : Turns s views) {t : Nat} (ht : views t = none) (c : ClientCall) :
    Turns s (Function.update views t (some (.first c, .holding .free))) := by
  refine ⟨fun t' v hv hl => ?_, fun hall => h.quiet fun t' v hv => ?_, fun t' v hv hu => ?_, h.active⟩
  · rcases view_of_update hv with ⟨rfl, rfl⟩ | ⟨-, hv⟩
    · cases hl
    · exact h.holder t' v hv hl
  · have hne : t' ≠ t := by
      rintro rfl
      rw [ht] at hv
      cases hv
    exact hall t' v (by rwa [Function.update_of_ne hne])
  · rcases view_of_update hv with ⟨rfl, rfl⟩ | ⟨-, hv⟩
    · rfl
    · exact h.closing t' v hv hu

theorem idle (h : Turns s views) (hunborn : ∀ k, s.sessionCount ≤ k → (s.sessions k).life = .unborn)
    (hidle : s.hasWork = false) (k : Nat) : (s.sessions k).active = false := by
  by_contra ha
  rw [Bool.not_eq_false] at ha
  have hk : k < s.sessionCount := by
    by_contra hge
    have hlife := (h.active k ha).2
    rw [hunborn k (Nat.le_of_not_lt hge)] at hlife
    cases hlife
  have hwork : s.hasWork = true :=
    List.any_eq_true.mpr ⟨k, List.mem_range.mpr hk, by simp [SessObj.hasWork, ha]⟩
  rw [hidle] at hwork
  cases hwork

theorem join (h : Turns s views) (hw : ¬ (s.worker = .starting ∨ s.worker = .running)) (k : Nat)
    (ha : (s.sessions k).active = true) :
    ({ s with worker := .none } : Client).ioRunning = true ∧ (s.sessions k).life = .alive := by
  obtain ⟨hio, hlife⟩ := h.active k ha
  have hrun : s.worker ≠ .running := fun he => hw (.inr he)
  obtain ⟨hin, hstop⟩ : s.inline = true ∧ s.stopped = false := by simpa [Client.ioRunning, hrun] using hio
  exact ⟨by simp [Client.ioRunning, hin, hstop], hlife⟩

theorem env (h : Turns s views) (hk : ∀ k, s.sessionCount ≤ k → (s.sessions k).life = .unborn) {cfg : ClientConfig}
    {e : ClientEnv} (hs : s.step cfg e = some s') : Turns s' views := by
  have hm := Client.ioMoves_of_step hs
  refine ⟨fun t v hv hl => hm.at' (h.holder t v hv hl), fun hall => hm.at' (h.quiet hall), h.closing, ?_⟩
  intro k' ha
  have hstarts : ∀ {k : Nat} {f : SessObj → SessObj}, s.ioRunning = true → (s.sessions k).life = .alive →
      (f (s.sessions k)).life = (s.sessions k).life → ((s.modify k f).sessions k').active = true →
        s.ioRunning = true ∧ ((s.modify k f).sessions k').life = .alive := by
    intro k f hio halive hlife ha
    refine ⟨hio, ?_⟩
    rw [Client.sessions_modify] at ha ⊢
    split at ha
    · rename_i hkk
      rw [if_pos hkk]
      exact hlife.trans halive
    · rename_i hkk
      rw [if_neg hkk]
      exact (h.active k' ha).2
  cases hm with
  | attempt k f hio halive hconn hf => exact hstarts hio halive (hf.life _) ha
  | session k sess hio halive => exact hstarts (f := fun x => { x with sess := sess, active := true }) hio halive rfl ha
  | object k f hran hconn hholders hsent hpend hact =>
    rw [Client.sessions_modify] at ha ⊢
    split at ha
    · rename_i hkk
      subst hkk
      rw [if_pos rfl]
      obtain ⟨ha', hl⟩ := hact ha
      exact ⟨(h.active k' ha').1, hl.trans (h.active k' ha').2⟩
    · rename_i hkk
      rw [if_neg hkk]
      exact h.active k' ha
  | reported k hdel =>
    have ha₀ : (s.sessions k').active = true := by
      rw [← ha]
      exact (s.modify_keeps k (f := fun x => { x with life := .gone }) SessObj.active rfl k').symm
    obtain ⟨hio, hlife⟩ := h.active k' ha₀
    refine ⟨hio, ?_⟩
    show ((s.modify k fun x => { x with life := .gone }).sessions k').life = .alive
    rw [Client.sessions_modify, if_neg]
    · exact hlife
    · rintro rfl
      rw [hdel] at hlife
      cases hlife
  | started hw => exact ⟨rfl, (h.active k' ha).2⟩
  | idled hw hidle =>
    have ha' : (s.sessions k').active = true := ha
    rw [h.idle hk hidle k'] at ha'
    cases ha'
  | left hw hstop =>
    have hio := (h.active k' ha).1
    simp [Client.ioRunning, hstop] at hio

theorem at_exec (h : Turns s views) (hkept : Kept s (fstViews views)) {cfg : ClientConfig} {t : Nat} {o : ClientOp}
    {i : Clock} {r : o.Res} {v : ClientView} {turn : Turn} (hv : views t = some (v, turn)) (hl : v.lock = .excl)
    (hpre : v.Allows o) (hio : turn.Allows o) (hs : o.exec cfg t i s = some (r, s')) (hu : o ≠ .unlockExcl) :
    s'.At (Stage.of (v.next o r, turn.next o r)) := by
  obtain ⟨lock, use⟩ := turn
  have hat : s.At (Stage.of (v, ⟨lock, use⟩)) := h.holder t _ hv hl
  have hfst : fstViews views t = some v := by simp [fstViews, hv]
  -- most steps leave the io context alone and stay in their stage
  have hsame : o.turns = false → Stage.of (v.next o r, Turn.next ⟨lock, use⟩ o r) = Stage.of (v, ⟨lock, use⟩) →
      s'.At (Stage.of (v.next o r, Turn.next ⟨lock, use⟩ o r)) := by
    intro ho hst
    rw [hst]
    exact (ClientOp.exec_sameIo hs ho).at' hat
  cases o with
  | lockShared => exact absurd (hpre.lock.symm.trans hl) (by simp)
  | lockExcl => exact absurd (hpre.lock.symm.trans hl) (by simp)
  | unlockShared => exact absurd (hpre.lock.symm.trans hl) (by simp)
  | unlockExcl => exact absurd rfl hu
  | lockSession => cases r <;> exact hsame rfl rfl
  | waitDestruction => cases r <;> exact hsame rfl rfl
  | testExpired =>
    obtain rfl : use = .outside := hio
    have hb : v.building.stage = .quiet := by rw [hpre.building]; rfl
    cases r with
    | true => exact hsame rfl hb.symm
    | false => exact hsame rfl rfl
  | waitRun k =>
    obtain rfl : use = .outside := hio
    have hrun : s.At v.building.stage := hat
    rw [hpre.2.2] at hrun
    have hquiet : s.At .quiet := by
      refine ⟨hrun.1, fun hw => ?_⟩
      have hnone := hrun.2.2.1 hw
      simp only [ClientOp.exec, hnone] at hs
      cases hs
    exact (ClientOp.exec_sameIo hs rfl).at' hquiet
  | beginClose k =>
    obtain rfl : use = .outside := hio
    have hquiet : s.At v.building.stage := hat
    rw [hpre.building] at hquiet
    cases r with
    | initiated => exact hsame rfl rfl
    | running => exact hsame rfl rfl
    | stopped =>
      have hidle : s.At .stopped := by
        refine ⟨hquiet.1, hquiet.2, ?_⟩
        by_contra hstop
        rw [Bool.not_eq_true] at hstop
        simp only [ClientOp.exec, hstop] at hs
        split at hs <;> cases hs
      exact (ClientOp.exec_sameIo hs rfl).at' hidle
  | joinWorker =>
    obtain rfl : use = .outside := hio
    have hquiet : s.At v.building.stage := hat
    rw [hpre.2.2] at hquiet
    simp only [ClientOp.exec] at hs
    split at hs
    · cases hs
    · cases hs
      show Client.At _ .quiet
      exact ⟨hquiet.1, by simp⟩
  | joinAtExit =>
    obtain rfl : use = .outside := hio
    have hquiet : s.At v.building.stage := hat
    rw [hpre.building] at hquiet
    simp only [ClientOp.exec] at hs
    split at hs
    · cases hs
    · cases hs
      show Client.At _ v.building.stage
      rw [hpre.building]
      exact ⟨hquiet.1, by simp⟩
  | newSession =>
    obtain rfl : use = .outside := hio
    have hquiet : s.At v.building.stage := hat
    rw [hpre.2.2] at hquiet
    have hw : s.worker = .none := hkept.worker t v hfst (by rw [hpre.2.2]; rfl)
    cases hs
    show Client.At _ (.created s.sessionCount)
    refine ⟨hquiet.1, hw, Nat.lt_succ_self _, ?_⟩
    show ((s.modify s.sessionCount fun _ => _).sessions s.sessionCount).ran = none
    rw [Client.sessions_modify, if_pos rfl]
  | beginRun k =>
    obtain rfl : use = .outside := hio
    have hcreated : s.At v.building.stage := hat
    rw [hpre.2.2] at hcreated
    obtain ⟨hin, hw, hk, hran⟩ := hcreated
    simp only [ClientOp.exec] at hs
    split at hs
    · cases hs
      show Client.At _ .quiet
      refine ⟨hin, fun hf => ?_⟩
      cases hw.symm.trans hf
    · cases hs
      show Client.At _ (.resolving k)
      refine ⟨hin, hw, hk, ?_, ?_⟩
      · rw [Client.sessions_modify, if_pos rfl]
        exact hran
      · rw [Client.sessions_modify, if_pos rfl]
        rfl
  | assignWorker =>
    obtain rfl : use = .outside := hio
    obtain ⟨-, k, hb⟩ := hpre
    have hres : s.At v.building.stage := hat
    rw [hb] at hres
    obtain ⟨hin, -, hk, hran, hconn⟩ := hres
    cases hs
    have hst : Stage.of (v.next .assignWorker (), ⟨lock, .outside⟩) = .running k := by
      simp [Stage.of, ClientView.next, hb, Building.stage]
    show Client.At _ (Stage.of (v.next .assignWorker (), ⟨lock, .outside⟩))
    rw [hst]
    exact ⟨hin, hk, fun _ => hran, fun _ => ⟨hconn, .inl rfl⟩⟩
  | restartIo =>
    obtain rfl : use = .stopped := hio
    cases hs
    show Client.At _ .inside
    exact ⟨rfl, hat.2.1⟩
  | finishIo =>
    obtain rfl : use = .inside := hio
    have hb : v.building = .none := h.closing t _ hv (by simp)
    simp only [ClientOp.exec] at hs
    split at hs
    · cases hs
    · cases hs
      show Client.At _ v.building.stage
      rw [hb]
      exact ⟨rfl, hat.2⟩
  | _ => exact hsame rfl rfl

theorem closing_next {v : ClientView} {turn : Turn} {o : ClientOp} {r : o.Res} (hpre : v.Allows o)
    (hio : turn.Allows o) (hc : turn.use ≠ .outside → v.building = .none) (hne : (turn.next o r).use ≠ .outside) :
    (v.next o r).building = .none := by
  obtain ⟨lock, use⟩ := turn
  cases o with
  | beginClose k => exact hpre.building
  | postClose k => exact hpre.building
  | restartIo =>
    obtain rfl : use = .stopped := hio
    exact hc (by simp)
  | finishIo => exact absurd rfl hne
  | _ => exact absurd hio hne

theorem active_exec (h : Turns s views) (hunborn : ∀ k, s.sessionCount ≤ k → (s.sessions k).life = .unborn)
    {cfg : ClientConfig} {t : Nat} {o : ClientOp} {i : Clock} {r : o.Res} (hs : o.exec cfg t i s = some (r, s'))
    (hassign : o = .assignWorker → s.ioRunning = false) :
    ∀ k, (s'.sessions k).active = true → s'.ioRunning = true ∧ (s'.sessions k).life = .alive := by
  intro k ha
  by_cases ho : o.turns = false
  · have hsame := ClientOp.exec_sameIo hs ho
    rw [hsame.active] at ha
    rw [hsame.ioRunning, hsame.life]
    exact h.active k ha
  cases o with
  | joinWorker | joinAtExit =>
    simp only [ClientOp.exec] at hs
    split at hs
    · cases hs
    · rename_i hw
      cases hs
      exact h.join hw k ha
  | newSession =>
    cases hs
    have ha' : ((s.modify s.sessionCount fun _ => _).sessions k).active = true := ha
    rw [Client.sessions_modify] at ha'
    split at ha'
    · cases ha'
    · rename_i hk
      obtain ⟨hio, hlife⟩ := h.active k ha'
      refine ⟨hio, ?_⟩
      show ((s.modify s.sessionCount fun _ => _).sessions k).life = .alive
      rw [Client.sessions_modify, if_neg hk]
      exact hlife
  | beginRun k' =>
    have hmod : ∀ f : SessObj → SessObj, (∀ x, (f x).active = x.active) → (∀ x, (f x).life = x.life) →
        ((s.modify k' f).sessions k).active = true →
          (s.modify k' f).ioRunning = true ∧ ((s.modify k' f).sessions k).life = .alive := by
      intro f h1 h2 ha
      rw [s.modify_keeps k' SessObj.active (h1 _)] at ha
      rw [s.modify_keeps k' SessObj.life (h2 _)]
      exact h.active k ha
    simp only [ClientOp.exec] at hs
    split at hs
    · cases hs
      exact hmod _ (fun _ => rfl) (fun _ => rfl) ha
    · cases hs
      exact hmod _ (fun _ => rfl) (fun _ => rfl) ha
  | assignWorker =>
    cases hs
    have hio := (h.active k ha).1
    rw [hassign rfl] at hio
    cases hio
  | restartIo =>
    cases hs
    exact ⟨by simp [Client.ioRunning], (h.active k ha).2⟩
  | finishIo =>
    simp only [ClientOp.exec] at hs
    split at hs
    · cases hs
    · rename_i hleft
      cases hs
      have ha' : (s.sessions k).active = true := ha
      have hio := (h.active k ha').1
      have hstop : s.stopped = false := by
        by_contra hstop
        simp [Client.ioRunning, hstop] at hio
      have hidle : s.hasWork = false := Bool.eq_false_iff.mpr fun hwork => hleft ⟨hwork, hstop⟩
      rw [h.idle hunborn hidle k] at ha'
      cases ha'
  | _ => exact absurd rfl ho

theorem excl_of_turns {v : ClientView} {o : ClientOp} (hpre : v.Allows o) (ho : o.turns ≠ false) : v.lock = .excl := by
  cases o with
  | joinWorker => exact hpre.1
  | joinAtExit => exact hpre.lock
  | newSession => exact hpre.1
  | beginRun k => exact hpre.1
  | assignWorker => exact hpre.1
  | restartIo => exact hpre
  | finishIo => exact hpre
  | _ => exact absurd rfl ho

theorem writer_of_step (hinv : Locked s (fstViews views)) {cfg : ClientConfig} {t : Nat} {o : ClientOp} {i : Clock}
    {r : o.Res} {v : ClientView × Turn} (hv : views t = some v) (hpre : v.1.Allows o)
    (hs : o.exec cfg t i s = some (r, s')) (hl : v.1.lock ≠ .excl) : s.writer = none := by
  have hfst : fstViews views t = some v.1 := by simp [fstViews, hv]
  cases hmode : v.1.lock with
  | excl => exact absurd hmode hl
  | shared =>
    by_contra hw
    have hmem := hinv.shared t v.1 hfst hmode
    rw [hinv.alone hw] at hmem
    cases hmem
  | free =>
    cases o with
    | lockShared =>
      simp only [ClientOp.exec] at hs
      split at hs
      · assumption
      · cases hs
    | lockExcl =>
      simp only [ClientOp.exec] at hs
      split at hs
      · rename_i hw
        exact hw.1
      · cases hs
    | unlockShared => exact absurd (hpre.lock.symm.trans hmode) (by simp)
    | readExit => exact absurd hmode hpre
    | lockSession => exact absurd hmode hpre.1
    | releaseSession k => exact absurd hmode hpre.1
    | sess k o => exact absurd hmode hpre.1
    | setExit => exact absurd hpre.1 hl
    | joinWorker => exact absurd hpre.1 hl
    | newSession => exact absurd hpre.1 hl
    | beginRun k => exact absurd hpre.1 hl
    | assignWorker => exact absurd hpre.1 hl
    | waitRun k => exact absurd hpre.1 hl
    | restartIo => exact absurd hpre hl
    | finishIo => exact absurd hpre hl
    | _ => exact absurd hpre.lock hl

theorem idle_assign (h : Turns s views) {t : Nat} {v : ClientView × Turn} (hv : views t = some v)
    (hpre : v.1.Allows .assignWorker) (hio : v.2.Allows .assignWorker) : s.ioRunning = false := by
  obtain ⟨v, lock, use⟩ := v
  obtain rfl : use = .outside := hio
  obtain ⟨hl, k, hb⟩ := hpre
  have hat : s.At v.building.stage := h.holder t _ hv hl
  rw [hb] at hat
  simp [Client.ioRunning, hat.1, hat.2.1]

theorem exec (h : Turns s views) (hinv : Alive s (fstViews views)) {cfg : ClientConfig} {t : Nat} {o : ClientOp}
    {i : Clock} {r : o.Res} {v : ClientView × Turn} (hv : views t = some v) (hpre : v.1.Allows o)
    (hio : v.2.Allows o) (hs : o.exec cfg t i s = some (r, s')) :
    Turns s' (Function.update views t (some (v.1.next o r, v.2.next o r))) := by
  obtain ⟨v, lock, use⟩ := v
  have hexcl : ∀ t' v', views t' = some v' → v'.1.lock = .excl → s.writer = some t' :=
    fun t' v' hv' hl' => hinv.locked.excl t' v'.1 (by simp [fstViews, hv']) hl'
  have hclosing : ∀ t' v', Function.update views t (some (v.next o r, Turn.next ⟨lock, use⟩ o r)) t' = some v' →
      v'.2.use ≠ .outside → v'.1.building = .none := by
    intro t' v' hv' hne
    rcases view_of_update hv' with ⟨rfl, rfl⟩ | ⟨-, hv'⟩
    · exact closing_next hpre hio (h.closing t' _ hv) hne
    · exact h.closing t' v' hv' hne
  have hactive : ∀ k, (s'.sessions k).active = true → s'.ioRunning = true ∧ (s'.sessions k).life = .alive := by
    refine h.active_exec hinv.kept.unborn hs fun ho => ?_
    subst ho
    exact h.idle_assign hv hpre hio
  by_cases hl : v.lock = .excl
  · have hothers : ∀ t' v', t' ≠ t → views t' = some v' → v'.1.lock ≠ .excl := by
      intro t' v' hne hv' hl'
      exact hne (Option.some.inj ((hexcl t' v' hv' hl').symm.trans (hexcl t _ hv hl)))
    by_cases hu : o = .unlockExcl
    · subst hu
      obtain rfl : use = .outside := hio
      have hat : s.At v.building.stage := h.holder t _ hv hl
      rw [hpre.building] at hat
      refine ⟨fun t' v' hv' hl' => ?_, fun _ => (ClientOp.exec_sameIo hs rfl).at' hat, hclosing, hactive⟩
      rcases view_of_update hv' with ⟨rfl, rfl⟩ | ⟨hne, hv'⟩
      · cases hl'
      · exact absurd hl' (hothers t' v' hne hv')
    · have hw : (v.next o r).lock = .excl := by
        rw [(ClientOp.exec_lock (v := v) hs _ _ _ hu).2.2, hl]
        all_goals rintro rfl; exact absurd (hpre.lock.symm.trans hl) (by simp)
      refine ⟨fun t' v' hv' hl' => ?_, fun hall => absurd hw (hall t _ (Function.update_self _ _ _)), hclosing,
        hactive⟩
      rcases view_of_update hv' with ⟨rfl, rfl⟩ | ⟨hne, hv'⟩
      · exact h.at_exec hinv.kept hv hl hpre hio hs hu
      · exact absurd hl' (hothers t' v' hne hv')
  · have hwriter : s.writer = none := writer_of_step hinv.locked hv hpre hs hl
    have hnone : ∀ t' v', views t' = some v' → v'.1.lock ≠ .excl := by
      intro t' v' hv' hl'
      cases hwriter.symm.trans (hexcl t' v' hv' hl')
    have hquiet : s'.At .quiet := by
      have ho : o.turns = false := by
        by_contra ho
        exact hl (excl_of_turns hpre ho)
      exact (ClientOp.exec_sameIo hs ho).at' (h.quiet hnone)
    refine ⟨fun t' v' hv' hl' => ?_, fun _ => hquiet, hclosing, hactive⟩
    rcases view_of_update hv' with ⟨rfl, rfl⟩ | ⟨-, hv'⟩
    · -- the call has just taken the lock
      have ho : o = .lockExcl := by
        by_contra ho
        by_cases h1 : o = .lockShared
        · subst h1
          cases hl'
        by_cases h2 : o = .unlockShared
        · subst h2
          cases hl'
        by_cases h4 : o = .unlockExcl
        · subst h4
          cases hl'
        exact hl ((ClientOp.exec_lock (v := v) hs h1 h2 ho h4).2.2.symm.trans hl')
      subst ho
      obtain rfl : use = .outside := hio
      show s'.At v.building.stage
      rw [hpre.building]
      exact hquiet
    · exact absurd hl' (hnone t' v' hv')

end Turns

/-! ## Who holds the lock -/

/-- The holders of the lock are the calls that hold it. -/
structure Exact (s : Client) (views : Nat → Option (ClientView × Turn)) : Prop where
  agree : ∀ t v, views t = some v → v.2.lock = v.1.lock
  writer : ∀ t, s.writer = some t → ∃ v, views t = some v ∧ v.1.lock = .excl
  readers : ∀ t, t ∈ s.readers → ∃ v, views t = some v ∧ v.1.lock = .shared
  nodup : s.readers.Nodup

namespace Exact

variable {s s' : Client} {views : Nat → Option (ClientView × Turn)}

theorem new (o : Words.ByteOrder) : Exact (.new o) fun _ => none :=
  ⟨fun _ _ h => (by cases h), fun _ h => (by cases h), fun _ h => (by cases h), List.nodup_nil⟩

theorem exists_update {l : LockMode} {t t' : Nat} {w : ClientView × Turn} (hw : t' = t → w.1.lock = l)
    (h : t' ≠ t → ∃ v, views t' = some v ∧ v.1.lock = l) :
    ∃ v, Function.update views t (some w) t' = some v ∧ v.1.lock = l := by
  by_cases ht : t' = t
  · subst ht
    exact ⟨w, Function.update_self _ _ _, hw rfl⟩
  · rw [Function.update_of_ne ht]
    exact h ht

theorem call (h : Exact s views) {t : Nat} (ht : views t = none) (c : ClientCall) :
    Exact s (Function.update views t (some (.first c, .holding .free))) := by
  have hne : ∀ t' v, views t' = some v → t' ≠ t := by
    rintro t' v hv rfl
    rw [ht] at hv
    cases hv
  refine ⟨fun t' v hv => ?_, fun t' hw => ?_, fun t' hr => ?_, h.nodup⟩
  · rcases view_of_update hv with ⟨rfl, rfl⟩ | ⟨-, hv⟩
    · rfl
    · exact h.agree t' v hv
  · obtain ⟨v, hv, hl⟩ := h.writer t' hw
    exact exists_update (fun he => absurd he (hne t' v hv)) fun _ => ⟨v, hv, hl⟩
  · obtain ⟨v, hv, hl⟩ := h.readers t' hr
    exact exists_update (fun he => absurd he (hne t' v hv)) fun _ => ⟨v, hv, hl⟩

theorem env (h : Exact s views) {cfg : ClientConfig} {e : ClientEnv} (hs : s.step cfg e = some s') : Exact s' views := by
  have key : s'.writer = s.writer ∧ s'.readers = s.readers := by
    cases Client.moves_of_step hs <;> exact ⟨rfl, rfl⟩
  refine ⟨h.agree, ?_, ?_, ?_⟩
  · rw [key.1]
    exact h.writer
  · rw [key.2]
    exact h.readers
  · rw [key.2]
    exact h.nodup

theorem agree_next {v : ClientView} {turn : Turn} (h : turn.lock = v.lock) (o : ClientOp) (r : o.Res) :
    (turn.next o r).lock = (v.next o r).lock := by
  cases o with
  | lockSession => cases r <;> exact h
  | testExpired => cases r <;> exact h
  | beginRun k => cases r <;> exact h
  | waitDestruction => cases r <;> exact h
  | beginClose k => cases r <;> exact h
  | lockShared => rfl
  | unlockShared => rfl
  | lockExcl => rfl
  | unlockExcl => rfl
  | _ => exact h

theorem exec (h : Exact s views) {cfg : ClientConfig} {t : Nat} {o : ClientOp} {i : Clock} {r : o.Res}
    {v : ClientView × Turn} (hv : views t = some v) (hpre : v.1.Allows o) (hs : o.exec cfg t i s = some (r, s')) :
    Exact s' (Function.update views t (some (v.1.next o r, v.2.next o r))) := by
  have hagree : ∀ t' v', Function.update views t (some (v.1.next o r, v.2.next o r)) t' = some v' →
      v'.2.lock = v'.1.lock := by
    intro t' v' hv'
    rcases view_of_update hv' with ⟨rfl, rfl⟩ | ⟨-, hv'⟩
    · exact agree_next (h.agree t' v hv) o r
    · exact h.agree t' v' hv'
  have hreader : t ∈ s.readers → v.1.lock = .shared := by
    intro hmem
    obtain ⟨v', hv', hl⟩ := h.readers t hmem
    rw [hv] at hv'
    cases hv'
    exact hl
  have hwriter : s.writer = some t → v.1.lock = .excl := by
    intro hw
    obtain ⟨v', hv', hl⟩ := h.writer t hw
    rw [hv] at hv'
    cases hv'
    exact hl
  by_cases h1 : o = .lockShared
  · subst h1
    simp only [ClientOp.exec] at hs
    split at hs
    · rename_i hw
      cases hs
      refine ⟨hagree, fun t' hw' => absurd (hw.symm.trans hw') (by simp), fun t' hr => ?_, ?_⟩
      · rcases List.mem_cons.mp hr with rfl | hr
        · exact exists_update (fun _ => rfl) fun hne => absurd rfl hne
        · exact exists_update (fun _ => rfl) fun _ => h.readers t' hr
      · exact List.nodup_cons.mpr ⟨fun hmem => absurd (hpre.lock.symm.trans (hreader hmem)) (by simp), h.nodup⟩
    · cases hs
  by_cases h2 : o = .unlockShared
  · subst h2
    cases hs
    refine ⟨hagree, fun t' hw => ?_, fun t' hr => ?_, h.nodup.erase t⟩
    · refine exists_update (fun he => ?_) fun _ => h.writer t' hw
      subst he
      exact absurd (hpre.lock.symm.trans (hwriter hw)) (by simp)
    · obtain ⟨hne, hr⟩ := h.nodup.mem_erase_iff.mp hr
      exact exists_update (fun he => absurd he hne) fun _ => h.readers t' hr
  by_cases h3 : o = .lockExcl
  · subst h3
    simp only [ClientOp.exec] at hs
    split at hs
    · rename_i hg
      cases hs
      refine ⟨hagree, fun t' hw => ?_, fun t' hr => ?_, h.nodup⟩
      · cases hw
        exact exists_update (fun _ => rfl) fun hne => absurd rfl hne
      · have hr' : t' ∈ s.readers := hr
        rw [hg.2] at hr'
        cases hr'
    · cases hs
  by_cases h4 : o = .unlockExcl
  · subst h4
    cases hs
    refine ⟨hagree, fun t' hw => (by cases hw), fun t' hr => ?_, h.nodup⟩
    refine exists_update (fun he => ?_) fun _ => h.readers t' hr
    subst he
    exact absurd (hpre.lock.symm.trans (hreader hr)) (by simp)
  obtain ⟨hw, hr, hl⟩ := ClientOp.exec_lock (v := v.1) hs h1 h2 h3 h4
  refine ⟨hagree, fun t' ht' => ?_, fun t' ht' => ?_, hr ▸ h.nodup⟩
  · rw [hw] at ht'
    refine exists_update (fun he => ?_) fun _ => h.writer t' ht'
    subst he
    exact hl.trans (hwriter ht')
  · rw [hr] at ht'
    refine exists_update (fun he => ?_) fun _ => h.readers t' ht'
    subst he
    exact hl.trans (hreader ht')

end Exact

/-! ## Runs -/

/-- The invariant of a client, with what its calls know of the io context. -/
structure Running (s : Client) (views : Nat → Option (ClientView × Turn)) : Prop where
  attended : Attended s (fstViews views)
  turns : Turns s views
  exact : Exact s views

namespace Running

variable {s s' : Client} {views : Nat → Option (ClientView × Turn)} {cfg : ClientConfig}

theorem new (o : Words.ByteOrder) : Running (.new o) fun _ => none := ⟨.new o, .new o, .new o⟩

theorem call (h : Running s views) {t : Nat} (ht : views t = none) (c : ClientCall) :
    Running s (Function.update views t (some (.first c, .holding .free))) := by
  refine ⟨?_, h.turns.call ht c, h.exact.call ht c⟩
  rw [fstViews_update]
  exact h.attended.call (by simp [fstViews, ht]) c

theorem exec (h : Running s views) {t : Nat} {o : ClientOp} {i : Clock} {r : o.Res} {v : ClientView × Turn}
    (hv : views t = some v) (hpre : v.1.Allows o) (hio : v.2.Allows o) (hs : o.exec cfg t i s = some (r, s')) :
    Running s' (Function.update views t (some (v.1.next o r, v.2.next o r))) := by
  refine ⟨?_, h.turns.exec h.attended.alive hv hpre hio hs, h.exact.exec hv hpre hs⟩
  rw [fstViews_update]
  exact h.attended.exec (by simp [fstViews, hv]) hpre hs

theorem env (h : Running s views) {e : ClientEnv} (hs : s.step cfg e = some s') : Running s' views :=
  ⟨h.attended.env hs, h.turns.env h.attended.alive.kept.unborn hs, h.exact.env hs⟩

end Running

/-- Each call of a pool has a view of its progress, and of the io context. -/
def RunningPool (p : ClientPool) : Prop :=
  ∃ views, Running p.shared views ∧ Machine.Linked (clientDiscipline.prod turnDiscipline)
    (fun _ c r x => (x.1.call = c ∧ x.1.Returns r) ∧ x.2 = .holding .free) p views

theorem running_of_reach {cfg : ClientConfig} {p : ClientPool}
    (hp : (clientMachine cfg).Reach Machine.Free (.new cfg.order) p) : RunningPool p := by
  refine Machine.sound (fun _ c => (.first c, .holding .free)) (.new cfg.order)
    (fun _ c => (clientCall_ok cfg c).prod (turn_ok cfg c)) ?_ ?_ ?_ hp
  · exact fun p views t c _ _ hinv _ ht => hinv.call ht c
  · exact fun p views t i o x r s' _ _ hinv _ _ hx hpre hex => hinv.exec hx hpre.1 hpre.2 hex
  · exact fun p views e s' _ _ hinv _ he => hinv.env he

/-- Nobody is inside `run()` beside a call. -/
def Client.Lone (s : Client) : Prop := s.inline = true → s.worker ≠ .running

theorem Client.Lone.exec {cfg : ClientConfig} {t : Nat} {o : ClientOp} {i : Clock} {r : o.Res} {s s' : Client}
    (h : s.Lone) (hdep : o = .restartIo → s.worker ≠ .running) (hs : o.exec cfg t i s = some (r, s')) : s'.Lone := by
  by_cases ho : o.turns = false
  · have hsame := ClientOp.exec_sameIo hs ho
    intro hin
    rw [hsame.worker]
    exact h (hsame.inline ▸ hin)
  cases o with
  | joinWorker | joinAtExit =>
    simp only [ClientOp.exec] at hs
    split at hs
    · cases hs
    · cases hs
      exact fun _ hw => by cases hw
  | newSession =>
    cases hs
    exact h
  | beginRun k =>
    simp only [ClientOp.exec] at hs
    split at hs <;> cases hs <;> exact h
  | assignWorker =>
    cases hs
    exact fun _ hw => by cases hw
  | restartIo =>
    cases hs
    exact fun _ => hdep rfl
  | finishIo =>
    simp only [ClientOp.exec] at hs
    split at hs
    · cases hs
    · cases hs
      exact fun hin => by cases hin
  | _ => exact absurd rfl ho

theorem Client.Lone.env {s s' : Client} (h : s.Lone) (hstart : s.inline = true → s.worker ≠ .starting)
    (hs : s.IoMoves s') : s'.Lone := by
  cases hs with
  | started hw => exact fun hin => absurd hw (hstart hin)
  | left hw hstop => exact fun _ hf => by cases hf
  | _ => exact h

/-- The session that `disconnect` has just locked comes to its end, which stops the io context; then `close()` finds the
context stopped. -/
def stoppedRun : List (Act ClientCall Clock ClientEnv) :=
  connectRun 0 0 ++
    [.op 0 {}, .call 1 .disconnect, .op 1 {}, .op 1 {}, .op 1 {}, .env (.session 0 (.onRead true [])), .env (.leave 0),
      .env (.session 0 .onClose), .env (.leave 0), .env .workerStop, .op 1 {}, .op 1 {}]

/-- Otherwise two threads can be inside `run()`: the io thread, which has stopped the io context and not come back, and
the caller of `close()`, which has restarted it. -/
theorem io_shared : ∃ p : ClientPool, (clientMachine plainConfig).Reach Machine.Free (.new plainConfig.order) p ∧
    p.shared.ioRunning = true ∧ p.shared.worker = .running ∧ p.shared.inline = true := by
  have hrun : ((clientMachine plainConfig).run (fun _ _ => true) (.initial (.new plainConfig.order))
      (stoppedRun ++ [.op 1 {}])).any (fun p => decide (p.shared.ioRunning = true ∧ p.shared.worker = .running ∧
        p.shared.inline = true)) = true := by
    decide +kernel
  obtain ⟨p, hp, hf⟩ := Machine.Reach.exists_of_run (G := Machine.Free) (fun _ _ _ => trivial) _ hrun
  exact ⟨p, hp, of_decide_eq_true hf⟩

end Radrpc
