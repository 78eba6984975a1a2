import Radrpc.Data.Queue
import Radrpc.Lib.Threads

/-!
# A server session

One object is reused for all messages of a client: the header, the receive buffer, the reference into it and the
response are members that every handler of the session sees.

* `BoundFunc` : a bound handler, as what it leaves behind in its `session_context`;
* `ServerSession` : `session_context`, `server_session` and `session_accept` of one established session, with the
  operations it has started on its stream and its timer;
* `ServerSession.callFunction`, `handleSend`, `write`, `onWrite`, `onRead`, `closeSession`, `shutdown`, `onTimer`,
  `onControlCallback` : the handlers, as the source has them;
* `ServerEvent`, `ServerSession.step` : the completions and posts that run them, one at a time (the strand);
* `serverMachine` : the runs of a session.
-/

namespace Radrpc
open Words Conc

/-- What a bound handler leaves in the context: the response, and whether it called `clear_buffer()` and `close()`. -/
structure HandlerEffect where
  response : Bytes
  clearBuffer : Bool := false
  close : Bool := false
  deriving DecidableEq, Repr

/-- A bound handler, given the bytes that `data()` and `size()` show and the `response` it finds. -/
abbrev BoundFunc := Bytes → Bytes → HandlerEffect

/-- `bound_funcs` : no entry, an entry without a function, or a function. -/
abbrev BoundFuncs := UInt32 → Option (Option BoundFunc)

inductive PingState where
  | pingNext
  | pingSend
  | pingClose
  deriving DecidableEq, Repr

inductive TimerError where
  | expired
  | aborted
  | other
  deriving DecidableEq, Repr

/-- An established server session. The fields up to `pingState` are members of the source; the next ones are the
operations that have been started and not completed, and the handlers that are ready to run; the last four are
histories: the messages taken and written, the calls of handlers, and the number of calls of `shutdown`. -/
structure ServerSession where
  boundFuncs : BoundFuncs
  order : ByteOrder
  pingDelay : Time
  boundClose : Bool := false
  header : IoHeader := .new 0 0
  receiveBuffer : Bytes := []
  receiveBufferRef : Bytes := []
  response : Bytes := []
  writeError : Bool := false
  readError : Bool := false
  queue : List DataPush := []
  close : Bool := false
  closeReceived : Bool := false
  pingState : PingState := .pingNext
  timerExpiry : Time := 0
  timerWaits : Nat := 0
  timerReady : List TimerError := []
  reading : Bool := true
  writing : List DataPush := []
  pings : Nat := 0
  closing : Nat := 0
  posted : List DataPush := []
  accepted : List DataPush := []
  started : List DataPush := []
  invoked : List (IoHeader × Bytes) := []
  shutdowns : Nat := 0

namespace ServerSession

/-- `m_timer.expires_after` : move the deadline; the waits that have not expired are cancelled. -/
def expiresAfter (s : ServerSession) (now delay : Time) : ServerSession :=
  { s with
    timerExpiry := now + delay
    timerReady := s.timerReady ++ List.replicate s.timerWaits .aborted
    timerWaits := 0 }

def asyncWait (s : ServerSession) : ServerSession := { s with timerWaits := s.timerWaits + 1 }

/-- The end of `on_accept` : start the keep-alive timer if there is one. -/
def established (boundFuncs : BoundFuncs) (order : ByteOrder) (pingDelay now : Time) : ServerSession :=
  let s : ServerSession := { boundFuncs, order, pingDelay }
  if pingDelay ≠ 0 then (s.expiresAfter now pingDelay).asyncWait else s

def shutdown (s : ServerSession) : ServerSession :=
  let s := { s with shutdowns := s.shutdowns + 1 }
  if s.close || s.closeReceived then s else { s with close := true, closing := s.closing + 1 }

def closeSession (s : ServerSession) (now : Time) : ServerSession :=
  if s.pingDelay ≠ 0 then { s with pingState := .pingClose }.expiresAfter now 0 else s.shutdown

def write (s : ServerSession) : ServerSession :=
  match s.queue with
  | [] => s
  | m :: _ => { s with writing := s.writing ++ [m], started := s.started ++ [m] }

def handleSend (s : ServerSession) (data : DataPush) : ServerSession :=
  if s.close || s.closeReceived || s.writeError || s.readError then s
  else if queueSendMax ≤ s.queue.length then s
  else
    let s := { s with queue := s.queue ++ [data], accepted := s.accepted ++ [data] }
    if 1 < s.queue.length then s else s.write

def invoke (s : ServerSession) (f : BoundFunc) : ServerSession :=
  let e := f s.receiveBufferRef s.response
  { s with
    response := e.response
    receiveBuffer := if e.clearBuffer then [] else s.receiveBuffer
    boundClose := s.boundClose || e.close
    invoked := s.invoked ++ [(s.header, s.receiveBufferRef)] }

def callFunction (s : ServerSession) (now : Time) : ServerSession :=
  let s := { s with receiveBufferRef := s.receiveBuffer }
  if IoHeader.size ≤ s.receiveBufferRef.length then
    let s := { s with header := IoHeader.read s.order s.receiveBufferRef }
    let func := s.boundFuncs s.header.callId
    let s := { s with receiveBuffer := s.receiveBuffer.drop IoHeader.size }
    let s := { s with receiveBufferRef := s.receiveBuffer }
    match func with
    | some (some f) =>
      let s := s.invoke f
      if s.boundClose then s.closeSession now
      else if s.response ≠ [] then { s with response := [] }.handleSend ⟨s.header, s.response⟩
      else s
    | some none => s
    | none => s
  else s

def onWrite (s : ServerSession) (ec : Bool) (now : Time) : ServerSession :=
  if ec || s.close || s.closeReceived || s.readError then
    { s with writeError := true, queue := [] }.closeSession now
  else
    let s := { s with queue := s.queue.tail }
    if s.queue = [] then s else s.write

def onRead (s : ServerSession) (ec : Bool) (now : Time) : ServerSession :=
  if ec || s.closeReceived then { s with readError := true }.closeSession now
  else
    let s := if !s.close && !s.writeError then s.callFunction now else s
    { s with receiveBuffer := [], response := [], reading := true }

/-- The completion of a wait on the timer; `isOpen` is what the stream answers. -/
def onTimer (s : ServerSession) (ec : TimerError) (now : Time) (isOpen : Bool) : ServerSession :=
  if ec = .other then s
  else if s.timerExpiry ≤ now then
    if isOpen && s.pingState = .pingNext then
      ({ s with pingState := .pingSend, pings := s.pings + 1 }.expiresAfter now s.pingDelay).asyncWait
    else s.shutdown
  else (s.expiresAfter now s.pingDelay).asyncWait

def onControlCallback (s : ServerSession) (kind : FrameKind) (now : Time) : ServerSession :=
  if kind = .close then { s with closeReceived := true }
  else { s with pingState := .pingNext }.expiresAfter now s.pingDelay

end ServerSession

/-- What can happen to a session: a message is posted by `send()`, a posted `handle_send` runs, an operation completes
(a write is named by its place among those outstanding), the timer runs out, a control frame arrives. -/
inductive ServerEvent where
  | send (data : DataPush)
  | handleSend
  | onWrite (i : Nat) (ec : Bool) (now : Time)
  | onRead (ec : Bool) (bytes : Bytes) (now : Time)
  | timerExpires (now : Time)
  | onTimer (now : Time) (isOpen : Bool)
  | control (kind : FrameKind) (now : Time)
  | onPing
  | onShutdown

def ServerSession.step (s : ServerSession) : ServerEvent → Option ServerSession
  | .send data => some { s with posted := s.posted ++ [data] }
  | .handleSend =>
    match s.posted with
    | [] => none
    | data :: rest => some ({ s with posted := rest }.handleSend data)
  | .onWrite i ec now =>
    if i < s.writing.length then some ({ s with writing := s.writing.eraseIdx i }.onWrite ec now) else none
  | .onRead ec bytes now =>
    if s.reading then
      -- `async_read` appends to the receive buffer
      some ({ s with reading := false, receiveBuffer := s.receiveBuffer ++ bytes }.onRead ec now)
    else none
  | .timerExpires now =>
    if 0 < s.timerWaits ∧ s.timerExpiry ≤ now then
      some { s with timerWaits := s.timerWaits - 1, timerReady := s.timerReady ++ [.expired] }
    else none
  | .onTimer now isOpen =>
    match s.timerReady with
    | [] => none
    | ec :: rest => some ({ s with timerReady := rest }.onTimer ec now isOpen)
  | .control kind now => some (s.onControlCallback kind now)
  | .onPing => if 0 < s.pings then some { s with pings := s.pings - 1 } else none
  | .onShutdown => if 0 < s.closing then some { s with closing := s.closing - 1 } else none

def serverMachine : Machine ServerSession Empty Empty (fun _ => Unit) Empty Unit ServerEvent where
  body := fun c => nomatch c
  exec := fun _ o => nomatch o
  env := fun e s => s.step e

end Radrpc
