import Radrpc.Client.Client

/-!
# The calls on a client, phase by phase

* `ClientView` : what a call holds and how far it has come: its lock, its session, the construction of a session, and
  what it may rely on;
* `clientDiscipline` : the steps that are possible in each phase and where they lead;
* `ClientView.Returns` : what a call may rely on when it returns;
* `clientCall_ok` : the programs of all calls follow the discipline.
-/

namespace Radrpc
open Words Conc

/-- How a call holds `m_session_mtx`. -/
inductive LockMode where
  | free
  | shared
  | excl
  deriving DecidableEq, Repr

/-- How far the construction of a session has come: `m_expired` reset, the old thread joined, the object constructed,
the first operation started, the thread started. -/
inductive Building where
  | none
  | opened
  | joined
  | created (k : Nat)
  | resolving (k : Nat)
  | running (k : Nat)
  deriving DecidableEq, Repr

/-- A message of the call is not waiting for its promise any more. -/
def SessPhase.settled : SessPhase → Bool
  | .posted _ _ => false
  | .unsent _ _ => false
  | _ => true

/-- The response a call has collected in time. -/
def SessPhase.got : SessPhase → Option Bytes
  | .answered _ _ true recv => some recv
  | _ => none

/-- The call that a client makes on its session. The buffer it passes does not matter here. -/
def ClientCall.sessCall : ClientCall → SessCall
  | .send callId body => .send callId body
  | .sendRecv callId body => .sendRecv callId body []
  | _ => .ping

/-- What a call holds and knows. `settled` : no session will use its bytes; `connected` : it has seen the current
session exist, or connected it; `exited` : it has found the client exiting; `got` : the response of its last attempt. -/
structure ClientView where
  call : ClientCall
  lock : LockMode := .free
  held : Option Nat := none
  sess : SessView := ⟨.ping, .start⟩
  building : Building := .none
  settled : Bool := true
  connected : Bool := false
  exited : Bool := false
  got : Option Bytes := none
  deriving DecidableEq, Repr

namespace ClientView

def first (c : ClientCall) : ClientView := { call := c }

/-- Nothing is held but the lock. -/
structure Bare (v : ClientView) (l : LockMode) : Prop where
  lock : v.lock = l
  held : v.held = none
  building : v.building = .none

/-- The call uses the session `k`. -/
structure Holds (v : ClientView) (k : Nat) (l : LockMode) : Prop where
  lock : v.lock = l
  held : v.held = some k
  building : v.building = .none

/-- The bytes of the call are not in use, unless the client is exiting. -/
def Safe (v : ClientView) : Prop := v.settled = true ∨ v.exited = true

def Allows (v : ClientView) : ClientOp → Prop
  | .lockShared => v.Bare .free
  | .unlockShared => v.Bare .shared
  | .lockExcl => v.Bare .free
  | .unlockExcl => v.Bare .excl
  | .readExit => v.lock ≠ .free
  | .setExit => v.lock = .excl ∧ v.call = .destroy
  | .lockSession => v.lock ≠ .free ∧ v.held = none ∧ v.building = .none
  | .releaseSession k => v.lock ≠ .free ∧ v.held = some k ∧ v.building = .none
  | .sess k o => v.lock ≠ .free ∧ v.held = some k ∧ v.building = .none ∧ v.Safe ∧ v.sess.phase.Allows v.sess.call o
  | .testExpired => v.Bare .excl
  | .joinWorker => v.lock = .excl ∧ v.held = none ∧ v.building = .opened
  | .joinAtExit => v.Bare .excl
  | .newSession => v.lock = .excl ∧ v.held = none ∧ v.building = .joined
  | .beginRun k => v.lock = .excl ∧ v.held = some k ∧ v.building = .created k
  | .assignWorker => v.lock = .excl ∧ ∃ k, v.building = .resolving k
  | .waitRun k => v.lock = .excl ∧ v.held = some k ∧ v.building = .running k
  | .waitDestruction => v.Bare .excl
  | .beginClose k => v.Holds k .excl
  | .postClose k => v.Holds k .excl
  | .waitPosted k => v.Holds k .excl
  | .restartIo => v.lock = .excl
  | .finishIo => v.lock = .excl
  | .bindFunc _ _ => v.Bare .excl
  | .setHandshake _ => v.Bare .excl
  | .readHandshake k => v.Holds k .excl

def next (v : ClientView) : (o : ClientOp) → o.Res → ClientView
  | .lockShared, _ => { v with lock := .shared }
  | .unlockShared, _ => { v with lock := .free, connected := false }
  | .lockExcl, _ => { v with lock := .excl, connected := false }
  | .unlockExcl, _ => { v with lock := .free }
  | .readExit, b => { v with exited := v.exited || b }
  | .lockSession, some k => { v with held := some k, sess := ⟨v.call.sessCall, .start⟩ }
  | .releaseSession _, _ => { v with
      held := none, sess := ⟨v.call.sessCall, .start⟩, settled := v.settled && v.sess.phase.settled
      got := v.sess.phase.got }
  | .sess _ o, r => { v with sess := { v.sess with phase := v.sess.phase.next o r } }
  | .testExpired, true => { v with building := .opened, connected := false }
  | .testExpired, false => { v with connected := true }
  | .joinWorker, _ => { v with building := .joined }
  | .newSession, k => { v with
      held := some k, building := .created k, sess := ⟨v.call.sessCall, .start⟩, connected := false }
  | .beginRun k, true => { v with building := .resolving k }
  | .beginRun _, false => { v with building := .none, connected := false }
  | .assignWorker, _ => { v with building := match v.building with
      | .resolving k => .running k
      | b => b }
  | .waitRun _, state => { v with building := .none, connected := decide (state = .established) }
  | .waitDestruction, true => { v with settled := true }
  | _, _ => v

/-- What a call may rely on when it returns. -/
def Returns (v : ClientView) : ClientRet → Prop
  | .connected result => result = some true → v.lock = .free ∧ v.connected = true
  | .sent result => result ≠ none → v.Safe ∧ v.held = none
  | .received result ending => (ending ≠ .threw → v.Safe ∧ v.held = none) ∧ (ending = .answered → v.got = some result)
  | _ => True

end ClientView

def clientDiscipline : Discipline ClientOp ClientOp.Res ClientView where
  pre := ClientView.Allows
  post := ClientView.next

/-! ## The calls on the session -/

theorem send_ok (callId : UInt32) (body : Bytes) :
    sessDiscipline.Ok (fun ec v => ec = none → v.phase.settled = true) ⟨.send callId body, .start⟩
      (Radrpc.send callId body) := by
  refine ⟨.postSend callId body, fun callback => ⟨.waitWritten _ 0 callback, fun ready => ?_⟩⟩
  cases ready with
  | true => exact fun _ => rfl
  | false => exact fun h => by cases h

theorem sendRecv_ok (responseTimeout : Time) (callId : UInt32) (body recv recv' : Bytes) :
    sessDiscipline.Ok (fun r v => r.2.1 = none → v.phase.settled = true ∧ v.phase.got = some r.1)
      ⟨.sendRecv callId body recv', .start⟩ (Radrpc.sendRecv responseTimeout callId body recv) := by
  refine ⟨.queue callId body recv' _, fun id => ?_⟩
  by_cases hid : id = (0 : UInt64)
  · subst hid
    exact fun h => by cases h
  · have hphase : sessDiscipline.post ⟨.sendRecv callId body recv', .start⟩ (.cache (.queue (responseTimeout * 2))) id =
        ⟨.sendRecv callId body recv', .queued id⟩ := by
      simp [sessDiscipline, SessPhase.next, hid]
    rw [hphase]
    dsimp only [Prog.bind]
    rw [if_neg hid]
    refine ⟨.postRequest callId body recv' id, fun callback => ⟨.waitWritten _ id callback, fun ready => ?_⟩⟩
    cases ready with
    | false => exact fun h => by cases h
    | true =>
      refine ⟨.find callId body recv' id callback, fun found => ?_⟩
      cases found with
      | invalid => exact fun h => by cases h
      | ready row =>
        refine ⟨.take callId body recv' id row true recv, fun buffer => ?_⟩
        exact fun _ => ⟨rfl, rfl⟩
      | blocked row =>
        refine ⟨.await callId body recv' id row, fun success => ?_⟩
        refine ⟨.take callId body recv' id row success recv, fun buffer => ?_⟩
        cases success with
        | true => exact fun _ => ⟨rfl, rfl⟩
        | false => exact fun h => by cases h

theorem ping_ok : sessDiscipline.Ok (fun _ v => v.phase.settled = true) ⟨.ping, .start⟩ Radrpc.ping :=
  ⟨.postPing, fun _ => ⟨.resetPong, fun _ => ⟨.waitPong, fun _ => rfl⟩⟩⟩

namespace ClientView

theorem Holds.onSession {α β : Type} {v : ClientView} {k : Nat} {l : LockMode} {p : SessProg α} {f : α → ClientProg β}
    {R : α → SessView → Prop} {Q : β → ClientView → Prop} (h : v.Holds k l) (hl : l ≠ .free) (hs : v.Safe)
    (hp : sessDiscipline.Ok R v.sess p) (hf : ∀ a sv, R a sv → clientDiscipline.Ok Q { v with sess := sv } (f a)) :
    clientDiscipline.Ok Q v (onSession k p >>= f) := by
  have hpre : ∀ sv o, sessDiscipline.pre sv o → clientDiscipline.pre { v with sess := sv } (.sess k o) :=
    fun sv o hpre => ⟨h.lock ▸ hl, h.held, h.building, hs, hpre⟩
  have hlift : clientDiscipline.Ok (fun a w => ∃ sv, w = { v with sess := sv } ∧ R a sv) v (Radrpc.onSession k p) :=
    @Discipline.Ok.lift _ _ _ _ _ _ _ _ clientDiscipline (ClientOp.sess k) (fun _ r => r)
      (fun sv => { v with sess := sv }) hpre (fun sv o r _ => rfl) R _ (fun a sv hr => ⟨sv, rfl, hr⟩) v.sess p hp
  apply hlift.bind
  intro a w hw
  obtain ⟨sv, rfl, hr⟩ := hw
  exact hf a sv hr

theorem Safe.enter {v w : ClientView} (hs : v.Safe) (h1 : w.settled = v.settled) (h2 : w.exited = (v.exited || false)) :
    w.Safe :=
  hs.imp h1.trans fun he => h2.trans ((Bool.or_false _).trans he)

theorem Safe.leave {v w : ClientView} (hs : v.Safe) {b : Bool} (h1 : w.settled = (v.settled && b))
    (h2 : w.exited = (v.exited || false)) (hb : b = true) : w.Safe :=
  hs.enter (h1.trans (by rw [hb, Bool.and_true])) h2

end ClientView

/-! ## The calls on the client -/

namespace Client

/-- What a call keeps while it constructs or closes a session. -/
structure Keeps (v w : ClientView) : Prop where
  call : w.call = v.call
  settled : w.settled = v.settled
  exited : w.exited = v.exited

theorem Keeps.refl (v : ClientView) : Keeps v v := ⟨rfl, rfl, rfl⟩

theorem Keeps.safe {v w : ClientView} (h : Keeps v w) (hs : v.Safe) : w.Safe := by
  rcases hs with hs | hs
  · exact .inl (h.settled.trans hs)
  · exact .inr (h.exited.trans hs)

theorem run_ok {v : ClientView} {k : Nat} (hl : v.lock = .excl) (hh : v.held = some k) (hb : v.building = .created k)
    (hp : v.sess.phase = .start) :
    clientDiscipline.Ok (fun state w => w.Holds k .excl ∧ w.sess.phase = .start ∧ Keeps v w ∧
      (state = .established → w.connected = true)) v (run k) := by
  refine ⟨⟨hl, hh, hb⟩, fun start => ?_⟩
  cases start with
  | false => exact ⟨⟨hl, hh, rfl⟩, hp, ⟨rfl, rfl, rfl⟩, fun h => by cases h⟩
  | true =>
    refine ⟨⟨hl, k, rfl⟩, fun _ => ⟨⟨hl, hh, rfl⟩, fun state => ?_⟩⟩
    exact ⟨⟨hl, hh, rfl⟩, hp, ⟨rfl, rfl, rfl⟩, fun h => decide_eq_true h⟩

theorem constructSession_ok {v : ClientView} (h : v.Bare .excl) :
    clientDiscipline.Ok (fun result w => w.Bare .excl ∧ Keeps v w ∧ (result = true → w.connected = true)) v
      constructSession := by
  refine ⟨h, fun expired => ?_⟩
  cases expired with
  | false => exact ⟨⟨h.lock, h.held, h.building⟩, ⟨rfl, rfl, rfl⟩, fun _ => rfl⟩
  | true =>
    refine ⟨⟨h.lock, h.held, rfl⟩, fun _ => ⟨⟨h.lock, h.held, rfl⟩, fun k => ?_⟩⟩
    show clientDiscipline.Ok _ _ (run k >>= _)
    refine Discipline.Ok.bind (run_ok h.lock rfl rfl rfl) fun state w hw => ?_
    obtain ⟨hw, hphase, hk, hc⟩ := hw
    refine ⟨⟨by rw [hw.lock]; simp, hw.held, hw.building⟩,
      fun _ => ⟨⟨hw.lock, rfl, hw.building⟩, ⟨hk.call, ?_, hk.exited⟩, fun hr => ?_⟩⟩
    · have hs : (w.settled && w.sess.phase.settled) = w.settled := by rw [hphase]; exact Bool.and_true _
      exact hs.trans hk.settled
    · exact hc (of_decide_eq_true hr)

theorem close_ok {v : ClientView} {k : Nat} (h : v.Holds k .excl) :
    clientDiscipline.Ok (fun _ w => w = v) v (close k) := by
  refine ⟨h, fun mode => ?_⟩
  cases mode with
  | initiated => exact rfl
  | stopped => exact ⟨h, fun _ => ⟨h.lock, fun _ => ⟨h.lock, fun _ => rfl⟩⟩⟩
  | running => exact ⟨h, fun _ => ⟨h, fun _ => rfl⟩⟩

theorem closeCurrent_ok {v : ClientView} (h : v.Bare .excl) :
    clientDiscipline.Ok (fun _ w => w.Bare .excl ∧ Keeps v w) v closeCurrent := by
  refine ⟨⟨by rw [h.lock]; simp, h.held, h.building⟩, fun session => ?_⟩
  cases session with
  | none => exact ⟨h, Keeps.refl v⟩
  | some k =>
    show clientDiscipline.Ok _ _ (close k >>= _)
    refine Discipline.Ok.bind (close_ok ⟨h.lock, rfl, h.building⟩) fun _ w hw => ?_
    subst hw
    refine ⟨⟨?_, rfl, h.building⟩, fun _ => ⟨⟨h.lock, rfl, h.building⟩, rfl, ?_, rfl⟩⟩
    · exact fun hf => absurd (h.lock.symm.trans hf) (by simp)
    exact Bool.and_true _

theorem connect_ok {v : ClientView} (h : v.Bare .free) :
    clientDiscipline.Ok (fun result w => w.Bare .free ∧ w.call = v.call ∧ (v.Safe → w.Safe) ∧
      (result = true → w.connected = true)) v connect := by
  refine ⟨h, fun _ => ⟨?_, fun exit => ?_⟩⟩
  · exact fun he => by cases he
  · cases exit with
    | true =>
      refine ⟨⟨rfl, h.held, h.building⟩, fun _ => ⟨⟨rfl, h.held, h.building⟩, rfl, fun _ => .inr ?_, fun he => ?_⟩⟩
      · exact Bool.or_true _
      · cases he
    | false =>
      show clientDiscipline.Ok _ _ (constructSession >>= _)
      refine Discipline.Ok.bind (constructSession_ok ⟨rfl, h.held, h.building⟩) fun result w hw => ?_
      obtain ⟨hw, hk, hc⟩ := hw
      refine ⟨hw, fun _ => ⟨⟨rfl, hw.held, hw.building⟩, hk.call, fun hs => ?_, hc⟩⟩
      refine Keeps.safe (v := v) ⟨hk.call, hk.settled, ?_⟩ hs
      exact hk.exited.trans (Bool.or_false _)

theorem disconnect_ok {v : ClientView} (h : v.Bare .free) :
    clientDiscipline.Ok (fun returned w => w.Bare .free ∧ w.call = v.call ∧ (returned = true → w.Safe)) v disconnect := by
  refine ⟨h, fun _ => ⟨?_, fun exit => ?_⟩⟩
  · exact fun he => by cases he
  · cases exit with
    | true =>
      refine ⟨⟨rfl, h.held, h.building⟩, fun _ => ⟨⟨rfl, h.held, h.building⟩, rfl, fun _ => .inr ?_⟩⟩
      exact Bool.or_true _
    | false =>
      show clientDiscipline.Ok _ _ (closeCurrent >>= _)
      refine Discipline.Ok.bind (closeCurrent_ok ⟨rfl, h.held, h.building⟩) fun _ w hw => ?_
      obtain ⟨hw, hk⟩ := hw
      refine ⟨hw, fun destroyed => ?_⟩
      cases destroyed with
      | true =>
        exact ⟨⟨hw.lock, hw.held, hw.building⟩, fun _ => ⟨⟨rfl, hw.held, hw.building⟩, hk.call, fun _ => .inl rfl⟩⟩
      | false => exact ⟨hw, fun _ => ⟨⟨rfl, hw.held, hw.building⟩, hk.call, fun hf => by cases hf⟩⟩

theorem retryConnect_ok {v : ClientView} (h : v.Bare .excl) (n : Nat) :
    clientDiscipline.Ok (fun result w => w.Bare .excl ∧ w.call = v.call ∧ (result = some true → w.connected = true)) v
      (retryConnect n) := by
  induction n generalizing v with
  | zero => exact ⟨h, rfl, fun hf => by cases hf⟩
  | succ n ih =>
    refine ⟨h, fun destroyed => ?_⟩
    cases destroyed with
    | false => exact ⟨h, rfl, fun hf => by cases hf⟩
    | true =>
      show clientDiscipline.Ok _ _ (constructSession >>= _)
      refine Discipline.Ok.bind (constructSession_ok ⟨h.lock, h.held, h.building⟩) fun connected w hw => ?_
      obtain ⟨hw, hk, hc⟩ := hw
      cases connected with
      | true => exact ⟨hw, hk.call, fun _ => hc rfl⟩
      | false => exact (ih hw).mono fun result w' hw' => ⟨hw'.1, hw'.2.1.trans hk.call, hw'.2.2⟩

theorem attemptConnect_ok {v : ClientView} (h : v.Bare .excl) (n : Nat) :
    clientDiscipline.Ok (fun result w => w.Bare .excl ∧ w.call = v.call ∧ (result = some true → w.connected = true)) v
      (attemptConnect n) := by
  cases n with
  | zero => exact ⟨h, rfl, fun hf => by cases hf⟩
  | succ n =>
    apply Discipline.Ok.bind (constructSession_ok h)
    intro connected w hw
    obtain ⟨hw, hk, hc⟩ := hw
    cases connected with
    | true => exact ⟨hw, hk.call, fun _ => hc rfl⟩
    | false => exact (retryConnect_ok hw n).mono fun result w' hw' => ⟨hw'.1, hw'.2.1.trans hk.call, hw'.2.2⟩

theorem connectAttempts_ok {v : ClientView} (h : v.Bare .free) (attempts : Nat) :
    clientDiscipline.Ok (fun result w => w.Bare .free ∧ w.call = v.call ∧ (result = some true → w.connected = true)) v
      (connectAttempts attempts) := by
  refine ⟨h, fun _ => ⟨?_, fun exit => ?_⟩⟩
  · exact fun he => by cases he
  · cases exit with
    | true =>
      exact ⟨⟨rfl, h.held, h.building⟩, fun _ => ⟨⟨rfl, h.held, h.building⟩, rfl, fun hf => by cases hf⟩⟩
    | false =>
      show clientDiscipline.Ok _ _ (attemptConnect attempts >>= _)
      apply Discipline.Ok.bind (attemptConnect_ok ⟨rfl, by exact h.held, by exact h.building⟩ attempts)
      intro result w hw
      obtain ⟨hw, hcall, hc⟩ := hw
      exact ⟨hw, fun _ => ⟨⟨rfl, hw.held, hw.building⟩, hcall, hc⟩⟩

theorem ping_ok {v : ClientView} (h : v.Bare .free) (hs : v.Safe) (hc : v.call = .ping) :
    clientDiscipline.Ok (fun _ w => w.call = v.call) v ping := by
  refine ⟨h, fun _ => ⟨?_, fun exit => ?_⟩⟩
  · exact fun he => by cases he
  · cases exit with
    | true => exact ⟨⟨rfl, h.held, h.building⟩, fun _ => rfl⟩
    | false =>
      show clientDiscipline.Ok _ _ (constructSession >>= _)
      refine Discipline.Ok.bind (constructSession_ok ⟨rfl, h.held, h.building⟩) fun connected w hw => ?_
      obtain ⟨hw, hk, -⟩ := hw
      have hcall : w.call = v.call := hk.call
      cases connected with
      | false => exact ⟨hw, fun _ => hcall⟩
      | true =>
        refine ⟨⟨by rw [hw.lock]; simp, hw.held, hw.building⟩, fun session => ?_⟩
        cases session with
        | none => exact ⟨hw, fun _ => hcall⟩
        | some k =>
          have hws : w.Safe := by
            refine Keeps.safe (v := v) ⟨hcall, hk.settled, ?_⟩ hs
            exact hk.exited.trans (Bool.or_false _)
          have hstart : w.call.sessCall = .ping := by rw [hcall, hc]; rfl
          have hbase : sessDiscipline.Ok (fun _ v => v.phase.settled = true) ⟨w.call.sessCall, .start⟩ Radrpc.ping :=
            hstart ▸ Radrpc.ping_ok
          show clientDiscipline.Ok _ _ (onSession k Radrpc.ping >>= _)
          refine ClientView.Holds.onSession (l := .excl) ?_ (by simp) hws hbase fun pong sv _ => ?_
          · exact ⟨hw.lock, rfl, hw.building⟩
          refine ⟨⟨?_, rfl, hw.building⟩, fun _ => ⟨⟨hw.lock, rfl, hw.building⟩, fun _ => hcall⟩⟩
          exact fun hf => absurd (hw.lock.symm.trans hf) (by simp)

theorem send_ok {v : ClientView} {callId : UInt32} {body : Bytes} (h : v.Bare .free) (hs : v.Safe)
    (hc : v.call = .send callId body) (n : Nat) :
    clientDiscipline.Ok (fun result w => w.call = v.call ∧ (result ≠ none → w.Safe ∧ w.held = none)) v
      (send callId body n) := by
  induction n generalizing v with
  | zero => exact ⟨rfl, fun _ => ⟨hs, h.held⟩⟩
  | succ n ih =>
    refine ⟨h, fun _ => ⟨?_, fun exit => ?_⟩⟩
    · exact fun he => by cases he
    · cases exit with
      | true =>
        exact ⟨⟨rfl, h.held, h.building⟩, fun _ => ⟨rfl, fun _ => ⟨.inr (Bool.or_true _), h.held⟩⟩⟩
      | false =>
        refine ⟨⟨fun he => (by cases he), h.held, h.building⟩, fun session => ?_⟩
        cases session with
        | none =>
          refine ⟨⟨rfl, h.held, h.building⟩, fun _ => ?_⟩
          show clientDiscipline.Ok _ _ (connect >>= _)
          refine Discipline.Ok.bind (connect_ok ⟨rfl, h.held, h.building⟩) fun _ w hw => ?_
          obtain ⟨hw, hcall, hsafe, -⟩ := hw
          apply (ih hw (hsafe (hs.enter rfl rfl)) (hcall.trans hc)).mono
          intro result w' hw'
          exact ⟨hw'.1.trans hcall, hw'.2⟩
        | some k =>
          have hstart : v.call.sessCall = .send callId body := by rw [hc]; rfl
          have hbase : sessDiscipline.Ok (fun ec v => ec = none → v.phase.settled = true) ⟨v.call.sessCall, .start⟩
            (Radrpc.send callId body) := hstart ▸ Radrpc.send_ok callId body
          show clientDiscipline.Ok _ _ (onSession k (Radrpc.send callId body) >>= _)
          refine ClientView.Holds.onSession (l := .shared) ?_ (by simp) (hs.enter rfl rfl) hbase fun ec sv hec => ?_
          · exact ⟨rfl, rfl, h.building⟩
          refine ⟨⟨fun hf => (by cases hf), rfl, h.building⟩, fun _ => ⟨⟨rfl, rfl, h.building⟩, fun _ => ?_⟩⟩
          cases ec with
          | none =>
            refine ⟨rfl, fun _ => ⟨?_, rfl⟩⟩
            exact hs.leave rfl rfl (hec rfl)
          | some _ =>
            show clientDiscipline.Ok _ _ (disconnect >>= _)
            refine Discipline.Ok.bind (disconnect_ok ⟨rfl, rfl, h.building⟩) fun returned w hw => ?_
            obtain ⟨hw, hcall, hsafe⟩ := hw
            cases returned with
            | false => exact ⟨hcall, fun hf => absurd rfl hf⟩
            | true =>
              apply (ih hw (hsafe rfl) (hcall.trans hc)).mono
              intro result w' hw'
              exact ⟨hw'.1.trans hcall, hw'.2⟩

theorem sendRecv_ok {v : ClientView} {responseTimeout : Time} {callId : UInt32} {body : Bytes} (h : v.Bare .free)
    (hs : v.Safe) (hc : v.call = .sendRecv callId body) (n : Nat) (result : Bytes) :
    clientDiscipline.Ok (fun r w => w.call = v.call ∧ (r.2 ≠ .threw → w.Safe ∧ w.held = none) ∧
      (r.2 = .answered → w.got = some r.1)) v (sendRecv responseTimeout callId body n result) := by
  induction n generalizing v result with
  | zero => exact ⟨rfl, fun _ => ⟨hs, h.held⟩, fun hf => by cases hf⟩
  | succ n ih =>
    refine ⟨h, fun _ => ⟨?_, fun exit => ?_⟩⟩
    · exact fun he => by cases he
    · cases exit with
      | true =>
        refine ⟨⟨rfl, h.held, h.building⟩, fun _ => ⟨rfl, fun _ => ⟨.inr (Bool.or_true _), h.held⟩, fun hf => ?_⟩⟩
        cases hf
      | false =>
        refine ⟨⟨fun he => (by cases he), h.held, h.building⟩, fun session => ?_⟩
        cases session with
        | none =>
          refine ⟨⟨rfl, h.held, h.building⟩, fun _ => ?_⟩
          show clientDiscipline.Ok _ _ (connect >>= _)
          refine Discipline.Ok.bind (connect_ok ⟨rfl, h.held, h.building⟩) fun _ w hw => ?_
          obtain ⟨hw, hcall, hsafe, -⟩ := hw
          apply (ih hw (hsafe (hs.enter rfl rfl)) (hcall.trans hc) result).mono
          intro r w' hw'
          exact ⟨hw'.1.trans hcall, hw'.2⟩
        | some k =>
          have hstart : v.call.sessCall = .sendRecv callId body [] := by rw [hc]; rfl
          have hbase : sessDiscipline.Ok (fun r v => r.2.1 = none → v.phase.settled = true ∧ v.phase.got = some r.1)
              ⟨v.call.sessCall, .start⟩ (Radrpc.sendRecv responseTimeout callId body result) :=
            hstart ▸ Radrpc.sendRecv_ok responseTimeout callId body result []
          show clientDiscipline.Ok _ _ (onSession k (Radrpc.sendRecv responseTimeout callId body result) >>= _)
          refine ClientView.Holds.onSession (l := .shared) ?_ (by simp) (hs.enter rfl rfl) hbase fun r sv hr => ?_
          · exact ⟨rfl, rfl, h.building⟩
          obtain ⟨recv, ec, id⟩ := r
          refine ⟨⟨fun hf => (by cases hf), rfl, h.building⟩, fun _ => ⟨⟨rfl, rfl, h.building⟩, fun _ => ?_⟩⟩
          cases ec with
          | none => exact ⟨rfl, fun _ => ⟨hs.leave rfl rfl (hr rfl).1, rfl⟩, fun _ => (hr rfl).2⟩
          | some _ =>
            show clientDiscipline.Ok _ _ (disconnect >>= _)
            refine Discipline.Ok.bind (disconnect_ok ⟨rfl, rfl, h.building⟩) fun returned w hw => ?_
            obtain ⟨hw, hcall, hsafe⟩ := hw
            cases returned with
            | false => exact ⟨hcall, fun hf => absurd rfl hf, fun hf => by cases hf⟩
            | true =>
              apply (ih hw (hsafe rfl) (hcall.trans hc) recv).mono
              intro r w' hw'
              exact ⟨hw'.1.trans hcall, hw'.2⟩

theorem listenBroadcast_ok {v : ClientView} (h : v.Bare .free) (id : UInt32) (handler : Bool) :
    clientDiscipline.Ok (fun _ w => w.call = v.call) v (listenBroadcast id handler) := by
  refine ⟨h, fun _ => ⟨fun he => (by cases he), fun exit => ?_⟩⟩
  cases exit with
  | true => exact ⟨⟨rfl, h.held, h.building⟩, fun _ => rfl⟩
  | false => exact ⟨⟨rfl, h.held, h.building⟩, fun _ => ⟨⟨rfl, h.held, h.building⟩, fun _ => rfl⟩⟩

theorem setHandshakeRequest_ok {v : ClientView} (h : v.Bare .free) (request : Handshake) :
    clientDiscipline.Ok (fun _ w => w.call = v.call) v (setHandshakeRequest request) := by
  refine ⟨h, fun _ => ⟨fun he => (by cases he), fun exit => ?_⟩⟩
  cases exit with
  | true => exact ⟨⟨rfl, h.held, h.building⟩, fun _ => rfl⟩
  | false => exact ⟨⟨rfl, h.held, h.building⟩, fun _ => ⟨⟨rfl, h.held, h.building⟩, fun _ => rfl⟩⟩

theorem getHandshakeResponse_ok {v : ClientView} (h : v.Bare .free) :
    clientDiscipline.Ok (fun _ w => w.call = v.call) v getHandshakeResponse := by
  refine ⟨h, fun _ => ⟨fun he => (by cases he), fun exit => ?_⟩⟩
  cases exit with
  | true => exact ⟨⟨rfl, h.held, h.building⟩, fun _ => rfl⟩
  | false =>
    refine ⟨⟨fun he => (by cases he), h.held, h.building⟩, fun session => ?_⟩
    cases session with
    | none => exact ⟨⟨rfl, h.held, h.building⟩, fun _ => rfl⟩
    | some k =>
      refine ⟨⟨rfl, rfl, h.building⟩, fun _ => ⟨⟨fun hf => (by cases hf), rfl, h.building⟩, fun _ => ?_⟩⟩
      exact ⟨⟨rfl, rfl, h.building⟩, fun _ => rfl⟩

theorem destroy_ok {v : ClientView} (h : v.Bare .free) (hc : v.call = .destroy) :
    clientDiscipline.Ok (fun _ w => w.call = v.call) v destroy := by
  refine ⟨h, fun _ => ⟨⟨rfl, hc⟩, fun _ => ?_⟩⟩
  show clientDiscipline.Ok _ _ (closeCurrent >>= _)
  refine Discipline.Ok.bind (closeCurrent_ok ⟨rfl, h.held, h.building⟩) fun _ w hw => ?_
  obtain ⟨hw, hk⟩ := hw
  refine ⟨hw, fun destroyed => ?_⟩
  have hw' : (clientDiscipline.post w .waitDestruction destroyed).Bare .excl := by
    cases destroyed <;> exact ⟨hw.lock, hw.held, hw.building⟩
  refine ⟨hw', fun _ => ⟨hw', fun _ => ?_⟩⟩
  cases destroyed <;> exact hk.call

end Client

theorem clientCall_ok (cfg : ClientConfig) (c : ClientCall) :
    clientDiscipline.Ok (fun r v => v.call = c ∧ v.Returns r) (.first c) (c.body cfg) := by
  have h : (ClientView.first c).Bare .free := ⟨rfl, rfl, rfl⟩
  have hs : (ClientView.first c).Safe := .inl rfl
  cases c with
  | connect =>
    refine (Client.connect_ok h).bind fun result w hw => ⟨hw.2.1, fun hr => ⟨hw.1.lock, hw.2.2.2 (Option.some.inj hr)⟩⟩
  | connectAttempts attempts =>
    exact (Client.connectAttempts_ok h attempts).bind fun result w hw => ⟨hw.2.1, fun hr => ⟨hw.1.lock, hw.2.2 hr⟩⟩
  | disconnect => exact (Client.disconnect_ok h).bind fun _ w hw => ⟨hw.2.1, trivial⟩
  | ping => exact (Client.ping_ok h hs rfl).bind fun _ w hw => ⟨hw, trivial⟩
  | send callId body => exact (Client.send_ok h hs rfl cfg.attempts).bind fun _ w hw => hw
  | sendRecv callId body =>
    exact (Client.sendRecv_ok h hs rfl cfg.attempts []).bind fun _ w hw => ⟨hw.1, hw.2.1, hw.2.2⟩
  | listenBroadcast id handler => exact (Client.listenBroadcast_ok h id handler).bind fun _ w hw => ⟨hw, trivial⟩
  | setHandshakeRequest request => exact (Client.setHandshakeRequest_ok h request).bind fun _ w hw => ⟨hw, trivial⟩
  | getHandshakeResponse => exact (Client.getHandshakeResponse_ok h).bind fun _ w hw => ⟨hw, trivial⟩
  | destroy => exact (Client.destroy_ok h rfl).bind fun _ w hw => ⟨hw, trivial⟩

end Radrpc
