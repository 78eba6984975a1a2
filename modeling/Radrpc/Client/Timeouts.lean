import Radrpc.Client.Client
import Radrpc.Client.Validity

/-!
# Timeouts of a thread

A thread can override the send timeout and the response timeout for its next call. The overrides are two thread-local
variables that all clients share; zero is no override, and the functions that set them take the largest duration for the
request to read them.

* `setOrGet` : `detail::send_timeout` and `detail::response_timeout`;
* `Timed.sessionPing`, `sessionSend`, `sessionSendRecv`, `ping`, `send`, `sendRecv` : the calls of `client_session` and
  `client` with their timeouts; `erase`, `erase_ping`, `erase_send`, `erase_sendRecv` : without them these are the programs
  of `Client`;
* `Timeouts` : the variables of a thread, and what has been set on which client; `threadMachine` : threads that make any
  calls on any clients, where the other steps of a call have any result;
* `overrides_apply` : when the waits of all calls use the timeouts that were meant for them; `override_leaks` : a wait that
  does not.
-/

namespace Radrpc
open Conc

def Duration.zero : Duration := ⟨0, by decide, by decide⟩

/-- The two timeouts of a call. -/
inductive TimeoutKind where
  | send
  | response
  deriving DecidableEq, Repr

/-- `send_timeout` and `response_timeout` of `client_timeout`. -/
abbrev ClientTimeout := TimeoutKind → Duration

/-- The variables of a thread, `tls_send_timeout` and `tls_response_timeout`. -/
abbrev ThreadLocal := TimeoutKind → Duration

/-- The functions `detail::send_timeout` and `detail::response_timeout` : they return the variable when they are called with
the default argument, and set it otherwise. -/
def setOrGet (kind : TimeoutKind) (timeout : Duration) (tls : ThreadLocal) : Duration × ThreadLocal :=
  if timeout = .max then (tls kind, tls) else (.zero, Function.update tls kind timeout)

/-! ## Calls of a thread -/

/-- The calls of a thread, each on one of its clients. -/
inductive ThreadCall where
  | setTimeout (kind : TimeoutKind) (client : Nat) (timeout : Duration)
  | send (client : Nat) (callId : UInt32) (body : Bytes)
  | sendRecv (client : Nat) (callId : UInt32) (body : Bytes)
  | ping (client : Nat)
  deriving DecidableEq

/-- The steps of a thread: `enter` and `leave` mark the begin and the end of a call, `wait` the begin of a wait with a
timeout. -/
inductive ThreadOp where
  | enter (c : ThreadCall)
  | leave
  | timeout (kind : TimeoutKind) (timeout : Duration)
  | wait (kind : TimeoutKind) (timeout : Duration)
  | shared (o : ClientOp)

abbrev ThreadOp.Res : ThreadOp → Type
  | .timeout _ _ => Duration
  | .shared o => o.Res
  | _ => Unit

abbrev ThreadProg := Prog ThreadOp ThreadOp.Res

abbrev ThreadOp.run (o : ThreadOp) : ThreadProg o.Res := Prog.perform o

/-- The steps of a call that other threads can see. -/
abbrev shared {β : Type} (p : ClientProg β) : ThreadProg β := p.lift ThreadOp.shared fun _ r => r

namespace Timed

def sendTimeout (timeout : Duration) : ThreadProg Duration := ThreadOp.run (.timeout .send timeout)

def responseTimeout (timeout : Duration) : ThreadProg Duration := ThreadOp.run (.timeout .response timeout)

/-- The override, or the timeout of the constructor where there is none. -/
def orDefault (default timeout : Duration) : Duration := if timeout = .zero then default else timeout

def sessionPing (cfg : ClientTimeout) (k : Nat) : ThreadProg Bool := do
  shared (ClientOp.run (.sess k .postPing))
  let timeout ← responseTimeout .max
  shared (ClientOp.run (.sess k .resetPong))
  ThreadOp.run (.wait .response (orDefault (cfg .response) timeout))
  let pong : Bool ← shared (ClientOp.run (.sess k .waitPong))
  let _ ← responseTimeout .zero
  return pong

/-- Wait until the message is written: false when the time has run out. -/
def waitWritten (cfg : ClientTimeout) (k : Nat) (callback : PromiseRef) : ThreadProg Bool := do
  let timeout ← sendTimeout .max
  ThreadOp.run (.wait .send (orDefault (cfg .send) timeout))
  let ready : Bool ← shared (ClientOp.run (.sess k (.waitWritten callback)))
  let _ ← sendTimeout .zero
  return ready

/-- Send bytes to the server with a call id. -/
def sessionSend (cfg : ClientTimeout) (k : Nat) (callId : UInt32) (body : Bytes) : ThreadProg (Option ErrorCode) := do
  let callback : PromiseRef ← shared (ClientOp.run (.sess k (.post callId 0 body)))
  let ready ← waitWritten cfg k callback
  if ready then return none else return some .timedOut

def waitResponse (cfg : ClientTimeout) (k : Nat) (resultId : UInt64) (recv : Bytes) : ThreadProg (Bool × Bytes) := do
  let timeout ← responseTimeout .max
  ThreadOp.run (.wait .response (orDefault (cfg .response) timeout))
  let result ← shared (onSession k ((wait resultId recv).lift SessOp.cache fun _ r => r))
  let _ ← responseTimeout .zero
  return result

/-- Send bytes to the server with a call id & wait for a response. -/
def sessionSendRecv (cfg : ClientTimeout) (k : Nat) (callId : UInt32) (body recv : Bytes) :
    ThreadProg (Bytes × Option ErrorCode × UInt64) := do
  let resultId : UInt64 ← shared (ClientOp.run (.sess k (.cache (.queue ((cfg .response).count * 2)))))
  if resultId = 0 then return (recv, some .operationAborted, 0)
  else
    let callback : PromiseRef ← shared (ClientOp.run (.sess k (.post callId resultId body)))
    let ready ← waitWritten cfg k callback
    if ready then
      let (success, recv) ← waitResponse cfg k resultId recv
      return (recv, if success then none else some .timedOut, resultId)
    else return (recv, some .timedOut, resultId)

def ping (cfg : ClientTimeout) : ThreadProg Bool := do
  shared (ClientOp.run .lockExcl)
  let exit : Bool ← shared (ClientOp.run .readExit)
  if exit then
    shared (ClientOp.run .unlockExcl)
    return false
  else
    let connected ← shared Client.constructSession
    if connected then
      let session : Option Nat ← shared (ClientOp.run .lockSession)
      match session with
      | some k =>
        let pong ← sessionPing cfg k
        shared (ClientOp.run (.releaseSession k))
        shared (ClientOp.run .unlockExcl)
        return pong
      | none =>
        shared (ClientOp.run .unlockExcl)
        return false
    else
      shared (ClientOp.run .unlockExcl)
      return false

/-- Send bytes with a call id, with so many attempts. -/
def send (cfg : ClientTimeout) (callId : UInt32) (body : Bytes) : Nat → ThreadProg (Option Bool)
  | 0 => return some false
  | n + 1 => do
    shared (ClientOp.run .lockShared)
    let exit : Bool ← shared (ClientOp.run .readExit)
    if exit then
      shared (ClientOp.run .unlockShared)
      return some false
    else
      let session : Option Nat ← shared (ClientOp.run .lockSession)
      match session with
      | some k =>
        let ec ← sessionSend cfg k callId body
        shared (ClientOp.run (.releaseSession k))
        shared (ClientOp.run .unlockShared)
        match ec with
        | none => return some true
        | some _ =>
          let returned ← shared Client.disconnect
          if returned then send cfg callId body n else return none
      | none =>
        shared (ClientOp.run .unlockShared)
        let _ ← shared Client.connect
        send cfg callId body n

/-- Send bytes with a call id & wait for a response, with so many attempts. -/
def sendRecv (cfg : ClientTimeout) (callId : UInt32) (body : Bytes) : Nat → Bytes → ThreadProg (Bytes × Client.Ending)
  | 0, result => return (result, .exhausted)
  | n + 1, result => do
    shared (ClientOp.run .lockShared)
    let exit : Bool ← shared (ClientOp.run .readExit)
    if exit then
      shared (ClientOp.run .unlockShared)
      return (result, .exiting)
    else
      let session : Option Nat ← shared (ClientOp.run .lockSession)
      match session with
      | some k =>
        let (result, ec, _) ← sessionSendRecv cfg k callId body result
        shared (ClientOp.run (.releaseSession k))
        shared (ClientOp.run .unlockShared)
        match ec with
        | none => return (result, .answered)
        | some _ =>
          let returned ← shared Client.disconnect
          if returned then sendRecv cfg callId body n result else return (result, .threw)
      | none =>
        shared (ClientOp.run .unlockShared)
        let _ ← shared Client.connect
        sendRecv cfg callId body n result

end Timed

/-! ## Without the timeouts -/

/-- The program without the steps that only its thread can see. -/
def erase {β : Type} : ThreadLocal → ThreadProg β → ClientProg β
  | _, .ret b => .ret b
  | tls, .op (.enter _) k => erase tls (k ())
  | tls, .op .leave k => erase tls (k ())
  | tls, .op (.timeout kind timeout) k =>
    erase (setOrGet kind timeout tls).2 (k (setOrGet kind timeout tls).1)
  | tls, .op (.wait _ _) k => erase tls (k ())
  | tls, .op (.shared o) k => .op o fun r => erase tls (k r)

section
variable {α β : Type} {tls : ThreadLocal}

theorem erase_bind {p : ThreadProg α} {q : ClientProg α} {f : α → ThreadProg β} {g : α → ClientProg β}
    (hp : erase tls p = q) (hf : ∀ tls a, erase tls (f a) = g a) : erase tls (p >>= f) = q >>= g := by
  subst hp
  induction p generalizing tls with
  | ret a => exact hf tls a
  | op o k ih =>
    cases o with
    | enter c => exact ih ()
    | leave => exact ih ()
    | timeout kind timeout => exact ih _
    | wait kind timeout => exact ih ()
    | shared o => exact congrArg (Prog.op o) (funext fun r => ih r)

theorem erase_shared (p : ClientProg α) (tls : ThreadLocal) : erase tls (shared p) = p := by
  induction p with
  | ret a => rfl
  | op o k ih => exact congrArg (Prog.op o) (funext fun r => ih r)

theorem erase_shared_bind {p : ClientProg α} {f : α → ThreadProg β} {g : α → ClientProg β}
    (hf : ∀ tls a, erase tls (f a) = g a) : erase tls (shared p >>= f) = p >>= g :=
  erase_bind (erase_shared p tls) hf

end

theorem erase_waitResponse (cfg : ClientTimeout) (k : Nat) (resultId : UInt64) (recv : Bytes) (tls : ThreadLocal) :
    erase tls (Timed.waitResponse cfg k resultId recv) =
      onSession k ((wait resultId recv).lift SessOp.cache fun _ r => r) :=
  (erase_shared_bind fun _ _ => rfl).trans (Prog.bind_ret _)

theorem erase_sessionPing (cfg : ClientTimeout) (k : Nat) (tls : ThreadLocal) :
    erase tls (Timed.sessionPing cfg k) = onSession k Radrpc.ping := rfl

theorem erase_sessionSend (cfg : ClientTimeout) (k : Nat) (callId : UInt32) (body : Bytes) (tls : ThreadLocal) :
    erase tls (Timed.sessionSend cfg k callId body) = onSession k (Radrpc.send callId body) := by
  refine congrArg (Prog.op _) (funext fun callback => congrArg (Prog.op _) (funext fun ready => ?_))
  cases ready <;> rfl

theorem erase_sessionSendRecv (cfg : ClientTimeout) (k : Nat) (callId : UInt32) (body recv : Bytes) (tls : ThreadLocal) :
    erase tls (Timed.sessionSendRecv cfg k callId body recv) =
      onSession k (Radrpc.sendRecv (cfg .response).count callId body recv) := by
  refine congrArg (Prog.op _) (funext fun resultId => ?_)
  show erase tls (if resultId = 0 then _ else _) = Prog.lift _ _ (if resultId = 0 then _ else _)
  split
  · rfl
  · refine congrArg (Prog.op _) (funext fun callback => congrArg (Prog.op _) (funext fun ready => ?_))
    cases ready with
    | true =>
      refine (erase_bind (erase_waitResponse cfg k resultId recv _) fun tls x => ?_).trans (Prog.lift_bind _ _ _ _).symm
      rfl
    | false => rfl

theorem erase_ping (cfg : ClientTimeout) (tls : ThreadLocal) : erase tls (Timed.ping cfg) = Client.ping := by
  refine erase_shared_bind fun tls _ => erase_shared_bind fun tls exit => ?_
  cases exit with
  | true => rfl
  | false =>
    refine erase_shared_bind fun tls connected => ?_
    cases connected with
    | true =>
      refine erase_shared_bind fun tls session => ?_
      cases session with
      | some k => exact erase_bind (erase_sessionPing cfg k tls) fun tls pong => rfl
      | none => rfl
    | false => rfl

theorem erase_send (cfg : ClientTimeout) (callId : UInt32) (body : Bytes) (n : Nat) (tls : ThreadLocal) :
    erase tls (Timed.send cfg callId body n) = Client.send callId body n := by
  induction n generalizing tls with
  | zero => rfl
  | succ n ih =>
    refine erase_shared_bind fun tls _ => erase_shared_bind fun tls exit => ?_
    cases exit with
    | true => rfl
    | false =>
      refine erase_shared_bind fun tls session => ?_
      cases session with
      | some k =>
        refine erase_bind (erase_sessionSend cfg k callId body tls) fun tls ec => ?_
        refine erase_shared_bind fun tls _ => erase_shared_bind fun tls _ => ?_
        cases ec with
        | none => rfl
        | some e =>
          refine erase_shared_bind fun tls returned => ?_
          cases returned with
          | true => exact ih tls
          | false => rfl
      | none => exact erase_shared_bind fun tls _ => erase_shared_bind fun tls _ => ih tls

theorem erase_sendRecv (cfg : ClientTimeout) (callId : UInt32) (body : Bytes) (n : Nat) (result : Bytes)
    (tls : ThreadLocal) : erase tls (Timed.sendRecv cfg callId body n result) =
      Client.sendRecv (cfg .response).count callId body n result := by
  induction n generalizing tls result with
  | zero => rfl
  | succ n ih =>
    refine erase_shared_bind fun tls _ => erase_shared_bind fun tls exit => ?_
    cases exit with
    | true => rfl
    | false =>
      refine erase_shared_bind fun tls session => ?_
      cases session with
      | some k =>
        refine erase_bind (erase_sessionSendRecv cfg k callId body result tls) fun tls x => ?_
        obtain ⟨result, ec, resultId⟩ := x
        refine erase_shared_bind fun tls _ => erase_shared_bind fun tls _ => ?_
        cases ec with
        | none => rfl
        | some e =>
          refine erase_shared_bind fun tls returned => ?_
          cases returned with
          | true => exact ih result tls
          | false => rfl
      | none => exact erase_shared_bind fun tls _ => erase_shared_bind fun tls _ => ih result tls

/-! ## Threads -/

namespace ThreadCall

def client : ThreadCall → Nat
  | .setTimeout _ client _ | .send client _ _ | .sendRecv client _ _ | .ping client => client

def uses : ThreadCall → TimeoutKind → Bool
  | .setTimeout _ _ _, _ => false
  | .send _ _ _, kind => kind = .send
  | .sendRecv _ _ _, _ => true
  | .ping _, kind => kind = .response

end ThreadCall

/-- The client, the timeout that was set for the call, if any, and the timeout of the wait. -/
structure TimeoutUse where
  kind : TimeoutKind
  client : Nat
  due : Option Duration
  timeout : Duration
  deriving DecidableEq

/-- The variables of a thread, and histories: the timeouts set on clients since their last calls that use them; the client
of the current call, the timeouts set for it, and how often it has waited with each of them; and all waits. -/
structure Timeouts where
  tls : ThreadLocal := fun _ => .zero
  set : TimeoutKind → List (Nat × Duration) := fun _ => []
  client : Nat := 0
  due : TimeoutKind → Option Duration := fun _ => none
  waits : TimeoutKind → Nat := fun _ => 0
  uses : List TimeoutUse := []

namespace Timeouts

/-- A call begins: a timeout is set on its client, or those that are set there are for this call. -/
def enter (s : Timeouts) (c : ThreadCall) : Timeouts :=
  match c with
  | .setTimeout kind client timeout =>
    { s with
      set := Function.update s.set kind ((client, timeout) :: (s.set kind).filter (·.1 ≠ client))
      due := fun _ => none }
  | _ =>
    { s with
      set := fun kind => if c.uses kind then (s.set kind).filter (·.1 ≠ c.client) else s.set kind
      client := c.client
      due := fun kind => if c.uses kind then (s.set kind).lookup c.client else none
      waits := fun _ => 0 }

def wait (s : Timeouts) (kind : TimeoutKind) (timeout : Duration) : Timeouts :=
  { s with
    waits := Function.update s.waits kind (s.waits kind + 1)
    uses := s.uses ++ [⟨kind, s.client, s.due kind, timeout⟩] }

end Timeouts

/-- What the steps of a call that other threads can see return. -/
abbrev OpReplies := (o : ClientOp) → o.Res

def ThreadOp.exec : (o : ThreadOp) → OpReplies → Timeouts → o.Res × Timeouts
  | .enter c, _, s => ((), s.enter c)
  | .leave, _, s => ((), s)
  | .timeout kind d, _, s => ((setOrGet kind d s.tls).1, { s with tls := (setOrGet kind d s.tls).2 })
  | .wait kind d, _, s => ((), s.wait kind d)
  | .shared o, replies, s => (replies o, s)

/-- The configuration of a client. -/
structure TimeoutConfig where
  timeout : ClientTimeout
  sendAttempts : Nat

/-- The constructor makes at least one attempt. -/
def TimeoutConfig.attempts (cfg : TimeoutConfig) : Nat := max cfg.sendAttempts 1

def ThreadCall.body (cfg : Nat → TimeoutConfig) : ThreadCall → ThreadProg Unit
  | .setTimeout kind client timeout => do
    ThreadOp.run (.enter (.setTimeout kind client timeout))
    let _ : Duration ← ThreadOp.run (.timeout kind timeout)
    ThreadOp.run .leave
  | .send client callId body => do
    ThreadOp.run (.enter (.send client callId body))
    let _ ← Timed.send (cfg client).timeout callId body (cfg client).attempts
    ThreadOp.run .leave
  | .sendRecv client callId body => do
    ThreadOp.run (.enter (.sendRecv client callId body))
    let _ ← Timed.sendRecv (cfg client).timeout callId body (cfg client).attempts []
    ThreadOp.run .leave
  | .ping client => do
    ThreadOp.run (.enter (.ping client))
    let _ ← Timed.ping (cfg client).timeout
    ThreadOp.run .leave

/-- The calls of a thread, one after the other. -/
def script (cfg : Nat → TimeoutConfig) : List ThreadCall → ThreadProg Unit
  | [] => return ()
  | c :: cs => do
    c.body cfg
    script cfg cs

/-- Any number of threads, each with its own variables, make any calls on any clients. -/
def threadMachine (cfg : Nat → TimeoutConfig) :
    Machine (Nat → Timeouts) (List ThreadCall) ThreadOp ThreadOp.Res Unit OpReplies Empty where
  body := script cfg
  exec := fun t o replies s => some ((o.exec replies (s t)).1, Function.update s t (o.exec replies (s t)).2)
  env := fun e => e.elim

abbrev ThreadPool := Pool (Nat → Timeouts) (List ThreadCall) ThreadOp ThreadOp.Res Unit

/-! ## The steps of a call -/

/-- How far a call of a thread has come: outside; a timeout is to be set, is set; inside, when it has read an override,
when it has waited and is to clear it. -/
inductive ThreadPhase where
  | outside
  | setting (kind : TimeoutKind) (timeout : Duration)
  | set
  | inside (c : ThreadCall)
  | read (c : ThreadCall) (kind : TimeoutKind) (timeout : Duration)
  | waited (c : ThreadCall) (kind : TimeoutKind)

namespace ThreadPhase

/-- The steps a thread can make next. -/
inductive Allows (cfg : Nat → TimeoutConfig) : ThreadPhase → ThreadOp → Prop where
  | enter (c : ThreadCall) : Allows cfg .outside (.enter c)
  | setTimeout (kind : TimeoutKind) (timeout : Duration) : Allows cfg (.setting kind timeout) (.timeout kind timeout)
  | leaveSet : Allows cfg .set .leave
  | inside (c : ThreadCall) (o : ClientOp) : Allows cfg (.inside c) (.shared o)
  | read (c : ThreadCall) (kind : TimeoutKind) (timeout : Duration) (o : ClientOp) :
      Allows cfg (.read c kind timeout) (.shared o)
  | waited (c : ThreadCall) (kind : TimeoutKind) (o : ClientOp) : Allows cfg (.waited c kind) (.shared o)
  | get (c : ThreadCall) (kind : TimeoutKind) : Allows cfg (.inside c) (.timeout kind .max)
  | wait (c : ThreadCall) (kind : TimeoutKind) (timeout : Duration) : Allows cfg (.read c kind timeout)
      (.wait kind (Timed.orDefault ((cfg c.client).timeout kind) timeout))
  | clear (c : ThreadCall) (kind : TimeoutKind) : Allows cfg (.waited c kind) (.timeout kind .zero)
  | leave (c : ThreadCall) : Allows cfg (.inside c) .leave

def next : ThreadPhase → (o : ThreadOp) → o.Res → ThreadPhase
  | .outside, .enter (.setTimeout kind _ timeout), _ => .setting kind timeout
  | .outside, .enter c, _ => .inside c
  | .setting _ _, .timeout _ _, _ => .set
  | .set, .leave, _ => .outside
  | .inside c, .timeout kind _, timeout => .read c kind timeout
  | .read c kind _, .wait _ _, _ => .waited c kind
  | .waited c _, .timeout _ _, _ => .inside c
  | .inside _, .leave, _ => .outside
  | phase, _, _ => phase

end ThreadPhase

def threadDiscipline (cfg : Nat → TimeoutConfig) : Discipline ThreadOp ThreadOp.Res ThreadPhase where
  pre := ThreadPhase.Allows cfg
  post := ThreadPhase.next

namespace Timed
variable {cfg : Nat → TimeoutConfig} {c : ThreadCall}

theorem inside_ok {β : Type} (p : ClientProg β) :
    (threadDiscipline cfg).Ok (fun _ v => v = .inside c) (.inside c) (shared p) := by
  induction p with
  | ret b => exact rfl
  | op o k ih => exact ⟨.inside c o, ih⟩

theorem waited_ok {β : Type} (kind : TimeoutKind) (p : ClientProg β) :
    (threadDiscipline cfg).Ok (fun _ v => v = .waited c kind) (.waited c kind) (shared p) := by
  induction p with
  | ret b => exact rfl
  | op o k ih => exact ⟨.waited c kind o, ih⟩

theorem inside_bind_ok {α β : Type} {p : ClientProg α} {f : α → ThreadProg β} {Q : β → ThreadPhase → Prop}
    (hf : ∀ a, (threadDiscipline cfg).Ok Q (.inside c) (f a)) :
    (threadDiscipline cfg).Ok Q (.inside c) (shared p >>= f) :=
  (inside_ok p).bind fun a _ hv => hv ▸ hf a

theorem waitWritten_ok (k : Nat) (callback : PromiseRef) :
    (threadDiscipline cfg).Ok (fun _ v => v = .inside c) (.inside c)
      (Timed.waitWritten (cfg c.client).timeout k callback) :=
  ⟨.get c .send, fun timeout => ⟨.wait c .send timeout, fun _ => ⟨.waited c .send _, fun _ =>
    ⟨.clear c .send, fun _ => rfl⟩⟩⟩⟩

theorem waitResponse_ok (k : Nat) (resultId : UInt64) (recv : Bytes) :
    (threadDiscipline cfg).Ok (fun _ v => v = .inside c) (.inside c)
      (Timed.waitResponse (cfg c.client).timeout k resultId recv) := by
  refine ⟨.get c .response, fun timeout => ⟨.wait c .response timeout, fun _ => ?_⟩⟩
  refine (waited_ok .response _).bind fun result v hv => ?_
  subst hv
  exact ⟨.clear c .response, fun _ => rfl⟩

theorem sessionPing_ok (k : Nat) :
    (threadDiscipline cfg).Ok (fun _ v => v = .inside c) (.inside c) (Timed.sessionPing (cfg c.client).timeout k) :=
  ⟨.inside c _, fun _ => ⟨.get c .response, fun timeout => ⟨.read c .response timeout _, fun _ =>
    ⟨.wait c .response timeout, fun _ => ⟨.waited c .response _, fun _ => ⟨.clear c .response, fun _ => rfl⟩⟩⟩⟩⟩⟩

theorem sessionSend_ok (k : Nat) (callId : UInt32) (body : Bytes) :
    (threadDiscipline cfg).Ok (fun _ v => v = .inside c) (.inside c)
      (Timed.sessionSend (cfg c.client).timeout k callId body) := by
  refine inside_bind_ok fun callback => (waitWritten_ok k callback).bind fun ready v hv => ?_
  subst hv
  cases ready <;> exact rfl

theorem sessionSendRecv_ok (k : Nat) (callId : UInt32) (body recv : Bytes) :
    (threadDiscipline cfg).Ok (fun _ v => v = .inside c) (.inside c)
      (Timed.sessionSendRecv (cfg c.client).timeout k callId body recv) := by
  refine inside_bind_ok fun resultId => ?_
  by_cases hid : resultId = 0
  · rw [if_pos hid]
    exact rfl
  · rw [if_neg hid]
    refine inside_bind_ok fun callback => (waitWritten_ok k callback).bind fun ready v hv => ?_
    subst hv
    cases ready with
    | true =>
      refine (waitResponse_ok k resultId recv).bind fun x v hv => ?_
      subst hv
      exact rfl
    | false => exact rfl

theorem ping_ok : (threadDiscipline cfg).Ok (fun _ v => v = .inside c) (.inside c) (Timed.ping (cfg c.client).timeout) := by
  refine inside_bind_ok fun _ => inside_bind_ok fun exit => ?_
  cases exit with
  | true => exact inside_bind_ok fun _ => rfl
  | false =>
    refine inside_bind_ok fun connected => ?_
    cases connected with
    | true =>
      refine inside_bind_ok fun session => ?_
      cases session with
      | some k =>
        refine (sessionPing_ok k).bind fun pong v hv => ?_
        subst hv
        exact inside_bind_ok fun _ => inside_bind_ok fun _ => rfl
      | none => exact inside_bind_ok fun _ => rfl
    | false => exact inside_bind_ok fun _ => rfl

theorem send_ok (callId : UInt32) (body : Bytes) (n : Nat) :
    (threadDiscipline cfg).Ok (fun _ v => v = .inside c) (.inside c)
      (Timed.send (cfg c.client).timeout callId body n) := by
  induction n with
  | zero => exact rfl
  | succ n ih =>
    refine inside_bind_ok fun _ => inside_bind_ok fun exit => ?_
    cases exit with
    | true => exact inside_bind_ok fun _ => rfl
    | false =>
      refine inside_bind_ok fun session => ?_
      cases session with
      | some k =>
        refine (sessionSend_ok k callId body).bind fun ec v hv => ?_
        subst hv
        refine inside_bind_ok fun _ => inside_bind_ok fun _ => ?_
        cases ec with
        | none => exact rfl
        | some e =>
          refine inside_bind_ok fun returned => ?_
          cases returned with
          | true => exact ih
          | false => exact rfl
      | none => exact inside_bind_ok fun _ => inside_bind_ok fun _ => ih

theorem sendRecv_ok (callId : UInt32) (body : Bytes) (n : Nat) (result : Bytes) :
    (threadDiscipline cfg).Ok (fun _ v => v = .inside c) (.inside c)
      (Timed.sendRecv (cfg c.client).timeout callId body n result) := by
  induction n generalizing result with
  | zero => exact rfl
  | succ n ih =>
    refine inside_bind_ok fun _ => inside_bind_ok fun exit => ?_
    cases exit with
    | true => exact inside_bind_ok fun _ => rfl
    | false =>
      refine inside_bind_ok fun session => ?_
      cases session with
      | some k =>
        refine (sessionSendRecv_ok k callId body result).bind fun x v hv => ?_
        subst hv
        obtain ⟨result, ec, resultId⟩ := x
        refine inside_bind_ok fun _ => inside_bind_ok fun _ => ?_
        cases ec with
        | none => exact rfl
        | some e =>
          refine inside_bind_ok fun returned => ?_
          cases returned with
          | true => exact ih result
          | false => exact rfl
      | none => exact inside_bind_ok fun _ => inside_bind_ok fun _ => ih result

theorem leave_ok {β : Type} {p : ThreadProg β}
    (hp : (threadDiscipline cfg).Ok (fun _ v => v = .inside c) (.inside c) p) :
    (threadDiscipline cfg).Ok (fun _ v => v = .outside) (.inside c) (p >>= fun _ => ThreadOp.run .leave) :=
  hp.bind fun _ _ hv => hv ▸ ⟨.leave c, fun _ => rfl⟩

theorem threadCall_ok (c : ThreadCall) :
    (threadDiscipline cfg).Ok (fun _ v => v = .outside) .outside (c.body cfg) := by
  cases c with
  | setTimeout kind client timeout =>
    exact ⟨.enter _, fun _ => ⟨.setTimeout kind timeout, fun _ => ⟨.leaveSet, fun _ => rfl⟩⟩⟩
  | send client callId body => exact ⟨.enter _, fun _ => leave_ok (send_ok (c := .send client callId body) callId body _)⟩
  | sendRecv client callId body =>
    exact ⟨.enter _, fun _ => leave_ok (sendRecv_ok (c := .sendRecv client callId body) callId body _ [])⟩
  | ping client => exact ⟨.enter _, fun _ => leave_ok (ping_ok (c := .ping client))⟩

theorem script_ok (cfg : Nat → TimeoutConfig) (cs : List ThreadCall) :
    (threadDiscipline cfg).Ok (fun _ v => v = .outside) .outside (script cfg cs) := by
  induction cs with
  | nil => exact rfl
  | cons c cs ih => exact (threadCall_ok c).bind fun _ _ hv => hv ▸ ih

end Timed
end Radrpc
