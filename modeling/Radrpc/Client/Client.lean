import Radrpc.Client.Calls

/-!
# A client

A client has at most a weak pointer to its session. The session belongs to the operations that are pending on it, to
the callers that use it, and to the call that constructs it; whoever lets go of it last destroys it.

* `SessObj` : a session object: `session_connect`, its `client_session`, and who keeps it alive;
* `Client` : the members of `client`, the state of its io context, and all session objects it has constructed;
* `ClientOp`, `ClientOp.exec` : the steps of a call that other threads can see;
* `constructSession`, `run`, `close`, `connect`, `connectAttempts`, `disconnect`, `ping`, `send`, `sendRecv`,
  `listenBroadcast`, `setHandshakeRequest`, `getHandshakeResponse`, `destroy` : the calls, as the source has them;
* `ClientEnv`, `Client.step` : the handlers of the io thread, and the destruction of sessions;
* `clientMachine` : any number of calls, interleaved with the io thread.
-/

namespace Radrpc
open Words Conc

/-- `connection_state`. -/
inductive ConnectionState where
  | none
  | accept
  | resolve
  | connect
  | sslHandshake
  | readHandshake
  | handshake
  | established
  deriving DecidableEq, Repr

abbrev Handshake := List (String × String)

/-- The configuration of a client that its calls read. -/
structure ClientConfig where
  order : ByteOrder
  ssl : Bool
  sendAttempts : Nat
  responseTimeout : Time
  deriving DecidableEq, Repr

def ClientConfig.attempts (cfg : ClientConfig) : Nat := max cfg.sendAttempts 1

/-- The operation that a connection attempt is waiting for. -/
inductive Connecting where
  | resolve
  | connect
  | sslHandshake
  | handshake
  deriving DecidableEq, Repr

/-- A session object that has not been constructed, that exists, whose destructor has run, and whose deletion has been
reported to the client. -/
inductive Life where
  | unborn
  | alive
  | deleted
  | gone
  deriving DecidableEq, Repr

/-- A session object. `ran` is the value of `m_run_callback`; `active` says that the io thread is in a handler of the
session, `holders` are the calls that hold a shared pointer. The last two fields are histories: what `run()` has
returned, and the broadcast handlers at the time of the construction. -/
structure SessObj where
  sess : ClientSession
  state : ConnectionState := .none
  connecting : Option Connecting := none
  ran : Option Bool := none
  closeInitiated : Bool := false
  handshake : Option Handshake := none
  resHandshake : Handshake := []
  life : Life := .unborn
  active : Bool := false
  holders : List Nat := []
  returned : Option ConnectionState := none
  table : BroadcastFuncs := fun _ => none

/-- An operation on the stream has been started and its handler, which shares the session, has not run. -/
def ClientSession.pending (s : ClientSession) : Bool :=
  !s.writing.isEmpty || s.reading || decide (0 < s.pings) || decide (0 < s.closing) || decide (s.io ≠ .idle)

namespace SessObj

def pinned (x : SessObj) : Bool := x.connecting.isSome || x.sess.pending || x.active || !x.holders.isEmpty

def lockable (x : SessObj) : Bool := decide (x.life = .alive) && x.pinned

def hasWork (x : SessObj) : Bool := x.connecting.isSome || x.sess.pending || x.active || !x.sess.posted.isEmpty

def fail (x : SessObj) : SessObj := { x with connecting := none, ran := some false }

def onSslHandshake (x : SessObj) (ec : Bool) (request : Handshake) : SessObj :=
  if ec then x.fail
  else { x with state := .handshake, handshake := some request, connecting := some .handshake }

/-- On a plain stream there is no ssl handshake to wait for. -/
def startSslHandshake (x : SessObj) (ssl : Bool) (request : Handshake) : SessObj :=
  if ssl then { x with connecting := some .sslHandshake } else x.onSslHandshake false request

def onResolve (x : SessObj) (ec : Bool) : SessObj :=
  if ec then x.fail else { x with state := .connect, connecting := some .connect }

def onConnect (x : SessObj) (ec : Bool) (ssl : Bool) (request : Handshake) : SessObj :=
  if ec then x.fail else x.startSslHandshake ssl request

def onHandshake (x : SessObj) (ec : Bool) (response : Handshake) : SessObj :=
  if ec then x.fail
  else { x with
    sess := x.sess.read, state := .established, ran := some true, connecting := none, resHandshake := response }

end SessObj

/-- `m_io_worker` : no thread, a thread that has not entered `run()` yet, one that runs the io context, and one that
has left it and can be joined. -/
inductive Worker where
  | none
  | starting
  | running
  | finished
  deriving DecidableEq, Repr

/-- A client. The fields up to `reqHandshake` are members of the source; `writer` and `readers` are the holders of
`m_session_mtx`; `stopped` and `inline` describe the io context (`inline` : a call runs it in `close()`); `sessions`
are all session objects, of which the first `sessionCount` have been constructed. -/
structure Client where
  boundFuncs : BroadcastFuncs := fun _ => none
  expired : Bool := true
  session : Option Nat := none
  exit : Bool := false
  worker : Worker := .none
  reqHandshake : Handshake := []
  writer : Option Nat := none
  readers : List Nat := []
  stopped : Bool := false
  inline : Bool := false
  sessions : Nat → SessObj
  sessionCount : Nat := 0

namespace Client

def new (o : ByteOrder) : Client := { sessions := fun _ => { sess := { order := o } } }

def modify (s : Client) (k : Nat) (f : SessObj → SessObj) : Client :=
  { s with sessions := Function.update s.sessions k (f (s.sessions k)) }

/-- Some thread is inside `run()`, and the io context is not stopped. -/
def ioRunning (s : Client) : Bool := (decide (s.worker = .running) || s.inline) && !s.stopped

def hasWork (s : Client) : Bool := (List.range s.sessionCount).any fun k => (s.sessions k).hasWork

end Client

/-! ## Steps of a call -/

/-- What `close()` finds. -/
inductive CloseMode where
  | initiated
  | stopped
  | running
  deriving DecidableEq, Repr

/-- What `listen_broadcast()` finds under the lock. -/
inductive Bound where
  | bound
  | connected
  | duplicate
  deriving DecidableEq, Repr

/-- The steps of a call that other threads can see: the critical sections of `m_session_mtx` and `m_expired_mtx`, the
shared pointers to sessions, the io context and its thread. -/
inductive ClientOp where
  | lockShared
  | unlockShared
  | lockExcl
  | unlockExcl
  | readExit
  | setExit
  | lockSession
  | releaseSession (k : Nat)
  | sess (k : Nat) (o : SessOp)
  | testExpired
  | joinWorker
  | joinAtExit
  | newSession
  | beginRun (k : Nat)
  | assignWorker
  | waitRun (k : Nat)
  | waitDestruction
  | beginClose (k : Nat)
  | postClose (k : Nat)
  | waitPosted (k : Nat)
  | restartIo
  | finishIo
  | bindFunc (id : UInt32) (handler : Bool)
  | setHandshake (request : Handshake)
  | readHandshake (k : Nat)
  deriving DecidableEq, Repr

abbrev ClientOp.Res : ClientOp → Type
  | .readExit => Bool
  | .lockSession => Option Nat
  | .sess _ o => o.Res
  | .testExpired => Bool
  | .newSession => Nat
  | .beginRun _ => Bool
  | .waitRun _ => ConnectionState
  | .waitDestruction => Bool
  | .beginClose _ => CloseMode
  | .waitPosted _ => Bool
  | .bindFunc _ _ => Bound
  | .readHandshake _ => Handshake
  | _ => Unit

def ClientOp.exec (cfg : ClientConfig) (t : Nat) : (o : ClientOp) → Clock → Client → Option (o.Res × Client)
  | .lockShared, _, s => if s.writer = none then some ((), { s with readers := t :: s.readers }) else none
  | .unlockShared, _, s => some ((), { s with readers := s.readers.erase t })
  | .lockExcl, _, s => if s.writer = none ∧ s.readers = [] then some ((), { s with writer := some t }) else none
  | .unlockExcl, _, s => some ((), { s with writer := none })
  | .readExit, _, s => some (s.exit, s)
  | .setExit, _, s => some ((), { s with exit := true })
  | .lockSession, _, s =>
    match s.session with
    | none => some (none, s)
    | some k =>
      if (s.sessions k).lockable then some (some k, s.modify k fun x => { x with holders := t :: x.holders })
      else some (none, s)
  | .releaseSession k, _, s => some ((), s.modify k fun x => { x with holders := x.holders.erase t })
  | .sess k o, i, s =>
    (o.exec t i (s.sessions k).sess).map fun r => (r.1, s.modify k fun x => { x with sess := r.2 })
  | .testExpired, _, s => some (s.expired, { s with expired := false })
  | .joinWorker, _, s =>
    if s.worker = .starting ∨ s.worker = .running then none else some ((), { s with worker := .none })
  | .joinAtExit, _, s =>
    if s.worker = .starting ∨ s.worker = .running then none else some ((), { s with worker := .none })
  | .newSession, _, s =>
    some (s.sessionCount, { s.modify s.sessionCount fun _ =>
        { sess := { order := cfg.order }, life := .alive, holders := [t], table := s.boundFuncs } with
      session := some s.sessionCount
      sessionCount := s.sessionCount + 1 })
  | .beginRun k, _, s =>
    let x := s.sessions k
    if x.closeInitiated ∨ x.state ≠ .none then some (false, s.modify k fun x => { x with returned := some .none })
    else some (true, s.modify k fun x => { x with connecting := some .resolve })
  | .assignWorker, _, s => some ((), { s with worker := .starting })
  | .waitRun k, _, s =>
    match (s.sessions k).ran with
    | none => none
    | some _ => some ((s.sessions k).state, s.modify k fun x => { x with returned := some x.state })
  | .waitDestruction, i, s => if s.expired then some (true, s) else if i.timeout then some (false, s) else none
  | .beginClose k, _, s =>
    if (s.sessions k).closeInitiated then some (.initiated, s)
    else some (if s.stopped then .stopped else .running, s.modify k fun x => { x with closeInitiated := true })
  | .postClose k, _, s =>
    some ((), s.modify k fun x => { x with sess := { x.sess with posted := x.sess.posted ++ [.closeSession] } })
  | .waitPosted k, i, s =>
    if .closeSession ∉ (s.sessions k).sess.posted then some (true, s)
    else if i.timeout then some (false, s) else none
  | .restartIo, _, s => some ((), { s with stopped := false, inline := true })
  -- `run()` returns when the io context has run out of work, which stops it, or is stopped
  | .finishIo, _, s =>
    if s.hasWork ∧ s.stopped = false then none else some ((), { s with stopped := true, inline := false })
  | .bindFunc id handler, _, s =>
    if !s.expired then some (.connected, s)
    else if (s.boundFuncs id).isSome then some (.duplicate, s)
    else some (.bound, { s with boundFuncs := Function.update s.boundFuncs id (some handler) })
  | .setHandshake request, _, s => some ((), { s with reqHandshake := request })
  | .readHandshake k, _, s => some ((s.sessions k).resHandshake, s)

abbrev ClientProg := Prog ClientOp ClientOp.Res

abbrev ClientOp.run (o : ClientOp) : ClientProg o.Res := Prog.perform o

abbrev onSession {β : Type} (k : Nat) (p : SessProg β) : ClientProg β := p.lift (ClientOp.sess k) fun _ r => r

/-! ## Calls -/

namespace Client

def run (k : Nat) : ClientProg ConnectionState := do
  let start : Bool ← ClientOp.run (.beginRun k)
  if start then
    ClientOp.run .assignWorker
    let state : ConnectionState ← ClientOp.run (.waitRun k)
    return state
  else return .none

/-- Constructs a session if expired: true if it was not, or if the new session is connected. -/
def constructSession : ClientProg Bool := do
  let expired : Bool ← ClientOp.run .testExpired
  if expired then
    ClientOp.run .joinWorker
    let k : Nat ← ClientOp.run .newSession
    let state ← run k
    ClientOp.run (.releaseSession k)
    return decide (state = .established)
  else return true

/-- Closes a session: by a handler of the io context, which is run here if it has stopped. -/
def close (k : Nat) : ClientProg Unit := do
  let mode : CloseMode ← ClientOp.run (.beginClose k)
  match mode with
  | .initiated => return ()
  | .stopped =>
    ClientOp.run (.postClose k)
    ClientOp.run .restartIo
    ClientOp.run .finishIo
  | .running =>
    ClientOp.run (.postClose k)
    let _ : Bool ← ClientOp.run (.waitPosted k)
    return ()

def closeCurrent : ClientProg Unit := do
  let session : Option Nat ← ClientOp.run .lockSession
  match session with
  | some k =>
    close k
    ClientOp.run (.releaseSession k)
  | none => return ()

def connect : ClientProg Bool := do
  ClientOp.run .lockExcl
  let exit : Bool ← ClientOp.run .readExit
  if exit then
    ClientOp.run .unlockExcl
    return false
  else
    let result ← constructSession
    ClientOp.run .unlockExcl
    return result

/-- The attempts after the first; `none` when the call throws. -/
def retryConnect : Nat → ClientProg (Option Bool)
  | 0 => return some false
  | n + 1 => do
    let destroyed : Bool ← ClientOp.run .waitDestruction
    if destroyed then
      let connected ← constructSession
      if connected then return some true else retryConnect n
    else return none

def attemptConnect : Nat → ClientProg (Option Bool)
  | 0 => return some false
  | n + 1 => do
    let connected ← constructSession
    if connected then return some true else retryConnect n

def connectAttempts (attempts : Nat) : ClientProg (Option Bool) := do
  ClientOp.run .lockExcl
  let exit : Bool ← ClientOp.run .readExit
  if exit then
    ClientOp.run .unlockExcl
    return some false
  else
    let result ← attemptConnect attempts
    ClientOp.run .unlockExcl
    return result

/-- Disconnects from the server; false when the call throws. -/
def disconnect : ClientProg Bool := do
  ClientOp.run .lockExcl
  let exit : Bool ← ClientOp.run .readExit
  if exit then
    ClientOp.run .unlockExcl
    return true
  else
    closeCurrent
    let destroyed : Bool ← ClientOp.run .waitDestruction
    ClientOp.run .unlockExcl
    return destroyed

def ping : ClientProg Bool := do
  ClientOp.run .lockExcl
  let exit : Bool ← ClientOp.run .readExit
  if exit then
    ClientOp.run .unlockExcl
    return false
  else
    let connected ← constructSession
    if connected then
      let session : Option Nat ← ClientOp.run .lockSession
      match session with
      | some k =>
        let pong ← onSession k Radrpc.ping
        ClientOp.run (.releaseSession k)
        ClientOp.run .unlockExcl
        return pong
      | none =>
        ClientOp.run .unlockExcl
        return false
    else
      ClientOp.run .unlockExcl
      return false

/-- Send bytes with a call id, with so many attempts; `none` when the call throws. -/
def send (callId : UInt32) (body : Bytes) : Nat → ClientProg (Option Bool)
  | 0 => return some false
  | n + 1 => do
    ClientOp.run .lockShared
    let exit : Bool ← ClientOp.run .readExit
    if exit then
      ClientOp.run .unlockShared
      return some false
    else
      let session : Option Nat ← ClientOp.run .lockSession
      match session with
      | some k =>
        let ec ← onSession k (Radrpc.send callId body)
        ClientOp.run (.releaseSession k)
        ClientOp.run .unlockShared
        match ec with
        | none => return some true
        | some _ =>
          let returned ← disconnect
          if returned then send callId body n else return none
      | none =>
        ClientOp.run .unlockShared
        let _ ← connect
        send callId body n

/-- How `send_recv` came to its end: an attempt succeeded, none is left, the client is going to exit, or it threw. -/
inductive Ending where
  | answered
  | exhausted
  | exiting
  | threw
  deriving DecidableEq, Repr

/-- Send bytes with a call id & wait for a response, with so many attempts. -/
def sendRecv (responseTimeout : Time) (callId : UInt32) (body : Bytes) : Nat → Bytes → ClientProg (Bytes × Ending)
  | 0, result => return (result, .exhausted)
  | n + 1, result => do
    ClientOp.run .lockShared
    let exit : Bool ← ClientOp.run .readExit
    if exit then
      ClientOp.run .unlockShared
      return (result, .exiting)
    else
      let session : Option Nat ← ClientOp.run .lockSession
      match session with
      | some k =>
        let (result, ec, _) ← onSession k (Radrpc.sendRecv responseTimeout callId body result)
        ClientOp.run (.releaseSession k)
        ClientOp.run .unlockShared
        match ec with
        | none => return (result, .answered)
        | some _ =>
          let returned ← disconnect
          if returned then sendRecv responseTimeout callId body n result else return (result, .threw)
      | none =>
        ClientOp.run .unlockShared
        let _ ← connect
        sendRecv responseTimeout callId body n result

/-- Assign a handler to listen for the server broadcasts; `none` when the call throws. -/
def listenBroadcast (id : UInt32) (handler : Bool) : ClientProg (Option Bool) := do
  ClientOp.run .lockExcl
  let exit : Bool ← ClientOp.run .readExit
  if exit then
    ClientOp.run .unlockExcl
    return some false
  else
    let outcome : Bound ← ClientOp.run (.bindFunc id handler)
    ClientOp.run .unlockExcl
    return if outcome = .bound then some true else none

def setHandshakeRequest (request : Handshake) : ClientProg Unit := do
  ClientOp.run .lockExcl
  let exit : Bool ← ClientOp.run .readExit
  if exit then ClientOp.run .unlockExcl
  else
    ClientOp.run (.setHandshake request)
    ClientOp.run .unlockExcl

def getHandshakeResponse : ClientProg Handshake := do
  ClientOp.run .lockExcl
  let exit : Bool ← ClientOp.run .readExit
  if exit then
    ClientOp.run .unlockExcl
    return []
  else
    let session : Option Nat ← ClientOp.run .lockSession
    match session with
    | some k =>
      let response : Handshake ← ClientOp.run (.readHandshake k)
      ClientOp.run (.releaseSession k)
      ClientOp.run .unlockExcl
      return response
    | none =>
      ClientOp.run .unlockExcl
      return []

def destroy : ClientProg Unit := do
  ClientOp.run .lockExcl
  ClientOp.run .setExit
  closeCurrent
  let _ : Bool ← ClientOp.run .waitDestruction
  ClientOp.run .joinAtExit
  ClientOp.run .unlockExcl

end Client

/-- The public calls. -/
inductive ClientCall where
  | connect
  | connectAttempts (attempts : Nat)
  | disconnect
  | ping
  | send (callId : UInt32) (body : Bytes)
  | sendRecv (callId : UInt32) (body : Bytes)
  | listenBroadcast (id : UInt32) (handler : Bool)
  | setHandshakeRequest (request : Handshake)
  | getHandshakeResponse
  | destroy
  deriving DecidableEq, Repr

/-- What they return; a call that can throw returns `none`, or `false` from `disconnect`. -/
inductive ClientRet where
  | connected (result : Option Bool)
  | disconnected (returned : Bool)
  | pinged (pong : Bool)
  | sent (result : Option Bool)
  | received (result : Bytes) (ending : Client.Ending)
  | listening (result : Option Bool)
  | handshake (response : Handshake)
  | done
  deriving DecidableEq, Repr

def ClientCall.body (cfg : ClientConfig) : ClientCall → ClientProg ClientRet
  | .connect => do
    let result ← Client.connect
    return .connected (some result)
  | .connectAttempts attempts => do
    let result ← Client.connectAttempts attempts
    return .connected result
  | .disconnect => do
    let returned ← Client.disconnect
    return .disconnected returned
  | .ping => do
    let pong ← Client.ping
    return .pinged pong
  | .send callId body => do
    let result ← Client.send callId body cfg.attempts
    return .sent result
  | .sendRecv callId body => do
    let (result, ending) ← Client.sendRecv cfg.responseTimeout callId body cfg.attempts []
    return .received result ending
  | .listenBroadcast id handler => do
    let result ← Client.listenBroadcast id handler
    return .listening result
  | .setHandshakeRequest request => do
    Client.setHandshakeRequest request
    return .done
  | .getHandshakeResponse => do
    let response ← Client.getHandshakeResponse
    return .handshake response
  | .destroy => do
    Client.destroy
    return .done

/-! ## The io thread -/

/-- What happens besides the calls: a step of a connection attempt or of a session completes, a posted handler finds
its session gone, a handler returns, a session is destroyed and this is reported, the io thread enters `run()`, stops the
io context when it has run out of work, and comes back from `run()`. -/
inductive ClientEnv where
  | onResolve (k : Nat) (ec : Bool)
  | onConnect (k : Nat) (ec : Bool)
  | onSslHandshake (k : Nat) (ec : Bool)
  | onHandshake (k : Nat) (ec : Bool) (response : Handshake)
  | session (k : Nat) (e : ClientEvent)
  | dropPosted (k : Nat)
  | leave (k : Nat)
  | delete (k : Nat)
  | onSessionDelete (k : Nat)
  | workerRun
  | workerStop
  | workerDone

/-- An event starts a handler; the others go on inside one. -/
def ClientEvent.starts : ClientEvent → Bool
  | .ioStep _ => false
  | _ => true

def ClientEvent.isPost : ClientEvent → Bool
  | .postClose => true
  | _ => false

namespace Client

/-- A handler of the connection attempt `c` of session `k` runs. -/
def handler (s : Client) (k : Nat) (c : Connecting) (f : SessObj → SessObj) : Option Client :=
  if s.ioRunning ∧ (s.sessions k).life = .alive ∧ (s.sessions k).connecting = some c ∧ (s.sessions k).active = false then
    some (s.modify k fun x => { f x with active := true })
  else none

def step (cfg : ClientConfig) (s : Client) : ClientEnv → Option Client
  | .onResolve k ec => s.handler k .resolve fun x => x.onResolve ec
  | .onConnect k ec => s.handler k .connect fun x => x.onConnect ec cfg.ssl s.reqHandshake
  | .onSslHandshake k ec => s.handler k .sslHandshake fun x => x.onSslHandshake ec s.reqHandshake
  | .onHandshake k ec response => s.handler k .handshake fun x => x.onHandshake ec response
  | .session k e =>
    if s.ioRunning ∧ (s.sessions k).lockable ∧ e.isPost = false ∧ (e.starts → (s.sessions k).active = false) then
      ((s.sessions k).sess.step s.boundFuncs e).map fun sess =>
        s.modify k fun x => { x with sess := sess, active := true }
    else none
  | .dropPosted k =>
    if s.ioRunning ∧ (s.sessions k).lockable = false ∧ (s.sessions k).sess.posted ≠ [] then
      some (s.modify k fun x => { x with sess := { x.sess with posted := x.sess.posted.tail } })
    else none
  | .leave k =>
    if (s.sessions k).active ∧ (s.sessions k).sess.io = .idle then
      some (s.modify k fun x => { x with active := false })
    else none
  | .delete k =>
    if (s.sessions k).life = .alive ∧ (s.sessions k).pinned = false then
      some (s.modify k fun x => { x with life := .deleted })
    else none
  | .onSessionDelete k =>
    if (s.sessions k).life = .deleted then
      some { s.modify k fun x => { x with life := .gone } with expired := true }
    else none
  | .workerRun => if s.worker = .starting then some { s with worker := .running, stopped := false } else none
  | .workerStop => if s.worker = .running ∧ s.hasWork = false then some { s with stopped := true } else none
  | .workerDone => if s.worker = .running ∧ s.stopped then some { s with worker := .finished } else none

end Client

/-- Calls on a client, in any interleaving with the io thread. -/
def clientMachine (cfg : ClientConfig) :
    Machine Client ClientCall ClientOp ClientOp.Res ClientRet Clock ClientEnv where
  body := ClientCall.body cfg
  exec := ClientOp.exec cfg
  env := fun e s => s.step cfg e

abbrev ClientPool := Pool Client ClientCall ClientOp ClientOp.Res ClientRet

/-! ## What the io thread does -/

/-- A change of a session object that has nothing to do with its life, and at most starts a read. -/
structure SessObj.Handled (f : SessObj → SessObj) : Prop where
  life : ∀ x, (f x).life = x.life
  table : ∀ x, (f x).table = x.table
  returned : ∀ x, (f x).returned = x.returned
  holders : ∀ x, (f x).holders = x.holders
  sess : ∀ x, (f x).sess = x.sess ∨ (f x).sess = x.sess.read

theorem SessObj.Handled.onSslHandshake (ec : Bool) (request : Handshake) :
    Handled fun x => { x.onSslHandshake ec request with active := true } := by
  cases ec <;> exact ⟨fun _ => rfl, fun _ => rfl, fun _ => rfl, fun _ => rfl, fun _ => .inl rfl⟩

theorem SessObj.Handled.onConnect (ec ssl : Bool) (request : Handshake) :
    Handled fun x => { x.onConnect ec ssl request with active := true } := by
  cases ec <;> cases ssl <;> exact ⟨fun _ => rfl, fun _ => rfl, fun _ => rfl, fun _ => rfl, fun _ => .inl rfl⟩

theorem SessObj.Handled.onResolve (ec : Bool) : Handled fun x => { x.onResolve ec with active := true } := by
  cases ec <;> exact ⟨fun _ => rfl, fun _ => rfl, fun _ => rfl, fun _ => rfl, fun _ => .inl rfl⟩

theorem SessObj.Handled.onHandshake (ec : Bool) (response : Handshake) :
    Handled fun x => { x.onHandshake ec response with active := true } := by
  cases ec with
  | true => exact ⟨fun _ => rfl, fun _ => rfl, fun _ => rfl, fun _ => rfl, fun _ => .inl rfl⟩
  | false => exact ⟨fun _ => rfl, fun _ => rfl, fun _ => rfl, fun _ => rfl, fun _ => .inr rfl⟩

/-- Everything that can happen besides the calls. -/
inductive Client.Moves (s : Client) : ClientEnv → Client → Prop where
  | handled (e : ClientEnv) (k : Nat) (f : SessObj → SessObj) : SessObj.Handled f → Moves s e (s.modify k f)
  | session (k : Nat) (e : ClientEvent) (sess : ClientSession) : (s.sessions k).life = .alive →
      (s.sessions k).sess.step s.boundFuncs e = some sess →
      Moves s (.session k e) (s.modify k fun x => { x with sess := sess, active := true })
  | dropPosted (k : Nat) : (s.sessions k).lockable = false →
      Moves s (.dropPosted k) (s.modify k fun x => { x with sess := { x.sess with posted := x.sess.posted.tail } })
  | delete (k : Nat) : (s.sessions k).life = .alive → (s.sessions k).pinned = false →
      Moves s (.delete k) (s.modify k fun x => { x with life := .deleted })
  | onSessionDelete (k : Nat) : (s.sessions k).life = .deleted →
      Moves s (.onSessionDelete k) { s.modify k fun x => { x with life := .gone } with expired := true }
  | worker (e : ClientEnv) (worker : Worker) (stopped : Bool) : s.worker ≠ .none →
      Moves s e { s with worker := worker, stopped := stopped }

theorem Client.moves_of_handler {s s' : Client} {e : ClientEnv} {k : Nat} {c : Connecting} {f : SessObj → SessObj}
    (hf : SessObj.Handled fun x => { f x with active := true }) (h : s.handler k c f = some s') : s.Moves e s' := by
  unfold handler at h
  split at h
  · cases h
    exact .handled e k _ hf
  · cases h

theorem Client.moves_of_step {cfg : ClientConfig} {s s' : Client} {e : ClientEnv} (h : s.step cfg e = some s') :
    s.Moves e s' := by
  cases e with
  | onResolve k ec => exact moves_of_handler (.onResolve ec) h
  | onConnect k ec => exact moves_of_handler (.onConnect ec cfg.ssl s.reqHandshake) h
  | onSslHandshake k ec => exact moves_of_handler (.onSslHandshake ec s.reqHandshake) h
  | onHandshake k ec response => exact moves_of_handler (.onHandshake ec response) h
  | session k e =>
    simp only [step] at h
    split at h
    · rename_i hg
      obtain ⟨sess, hs, he⟩ := Option.map_eq_some_iff.mp h
      rw [← he]
      have hlock : (s.sessions k).lockable = true := hg.2.1
      exact .session k e sess (of_decide_eq_true (Bool.and_eq_true_iff.mp hlock).1) hs
    · cases h
  | dropPosted k =>
    simp only [step] at h
    split at h
    · rename_i hg
      cases h
      exact .dropPosted k hg.2.1
    · cases h
  | leave k =>
    simp only [step] at h
    split at h
    · cases h
      exact .handled _ k _ ⟨fun _ => rfl, fun _ => rfl, fun _ => rfl, fun _ => rfl, fun _ => .inl rfl⟩
    · cases h
  | delete k =>
    simp only [step] at h
    split at h
    · rename_i hg
      cases h
      exact .delete k hg.1 hg.2
    · cases h
  | onSessionDelete k =>
    simp only [step] at h
    split at h
    · rename_i hg
      cases h
      exact .onSessionDelete k hg
    · cases h
  | workerRun =>
    simp only [step] at h
    split at h
    · rename_i hw
      cases h
      exact .worker _ _ _ (by rw [hw]; simp)
    · cases h
  | workerStop | workerDone =>
    simp only [step] at h
    split at h
    · rename_i hw
      cases h
      exact .worker _ _ _ (by rw [hw.1]; simp)
    · cases h

end Radrpc
