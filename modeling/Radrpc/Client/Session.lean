import Radrpc.Data.CacheThreads
import Radrpc.Data.Queue

/-!
# A client session

Any number of caller threads and one io thread work on a session: the callers post their messages and wait on a
promise and on the cache, the io thread runs the handlers one after the other.

* `ClientSession` : the members of `client_session`, the operations it has started on its stream, and histories;
* `ClientSession.handleSend`, `write`, `onWrite`, `onRead`, `onControlCallback`, `closeSession` : the handlers. A
  handler that resolves promises or touches the cache more than once takes several steps (`IoState`), because the
  callers can go on in between;
* `SessOp`, `send`, `sendRecv`, `ping` : the public calls, as programs of the steps that other threads can see;
* `ClientEvent`, `ClientSession.step` : the completions and posts that run the handlers;
* `sessionMachine` : any number of calls, interleaved with the io thread.
-/

namespace Radrpc
open Std Words Conc

/-- The errors of a call. -/
inductive ErrorCode where
  | timedOut
  | operationAborted
  deriving DecidableEq, Repr

/-- The broadcast handlers of a client: no entry, an entry without a function (`false`), or a function. -/
abbrev BroadcastFuncs := UInt32 → Option Bool

/-- A handler in the queue of the io context, with its bound arguments. -/
inductive Posted where
  | handleSend (m : DataSend)
  | handlePing
  | closeSession
  deriving DecidableEq, Repr

/-- Where the io thread stands: between two handlers; in `write_next()` or `data_queue::clear()` with the promises of
`rest` still to resolve; in `on_read` before `remove_obsolete()`. -/
inductive IoState where
  | idle
  | popping
  | clearing (rest : List DataSend)
  | sweeping
  deriving DecidableEq, Repr

/-- A client session. The fields up to `closeReceived` are members of the source; the next ones are the promises of
the callers, the handlers posted, the operations that have been started and not completed, and the io thread; the last
ones are histories: of the messages accepted by `handle_send`, handed to `async_write` and written without error, of
the result ids for which `swap_notify` found a row, and of the calls of broadcast handlers. -/
structure ClientSession where
  order : ByteOrder
  readBuffer : Bytes := []
  cache : DataCache := .new queueRecvMax
  queue : DataQueue := ⟨queueSendMax, []⟩
  ping : Bool := false
  pong : Bool := false
  readError : Bool := false
  writeError : Bool := false
  close : Bool := false
  closeReceived : Bool := false
  promises : PromiseRef → Promise := fun _ => .expired
  promiseCount : Nat := 0
  posted : List Posted := []
  writing : List DataSend := []
  reading : Bool := false
  pings : Nat := 0
  closing : Nat := 0
  io : IoState := .idle
  accepted : List DataSend := []
  started : List DataSend := []
  completed : List DataSend := []
  delivered : List UInt64 := []
  handled : List (UInt32 × Bytes) := []

namespace ClientSession

/-! ## Handlers -/

def handlePing (s : ClientSession) : ClientSession :=
  if s.ping then s else { s with ping := true, pings := s.pings + 1 }

/-- Write the message queued by `handle_send()`. -/
def write (s : ClientSession) : ClientSession :=
  match s.queue.front with
  | none => s
  | some m => { s with writing := s.writing ++ [m], started := s.started ++ [m] }

def handleSend (s : ClientSession) (m : DataSend) : ClientSession :=
  if s.close || s.closeReceived || s.writeError || s.readError then s
  else
    match s.queue.queue m with
    | (false, _) => s
    | (true, q) =>
      let s := { s with queue := q, accepted := s.accepted ++ [m] }
      if s.queue.isWriting then s else s.write

def closeSession (s : ClientSession) : ClientSession :=
  if s.close || s.closeReceived then s else { s with close := true, closing := s.closing + 1 }

/-- The completion of a write, up to its first promise. -/
def onWrite (s : ClientSession) (ec : Bool) : ClientSession :=
  if ec || s.close || s.closeReceived || s.readError then { s with io := .clearing s.queue.entries }
  else
    match s.queue.front with
    | none => { s with io := .popping }
    | some m => { s with promises := resolve s.promises m true, io := .popping }

def read (s : ClientSession) : ClientSession := { s with reading := true }

/-- The completion of a read, up to `remove_obsolete()`. -/
def onRead (s : ClientSession) (funcs : BroadcastFuncs) (ec : Bool) : ClientSession :=
  if ec || s.closeReceived then { s with cache := s.cache.clear, readError := true }.closeSession
  else if IoHeader.size ≤ s.readBuffer.length then
    let header := IoHeader.read s.order s.readBuffer
    let s := { s with readBuffer := s.readBuffer.drop IoHeader.size }
    match funcs header.callId with
    | some true => { s with handled := s.handled ++ [(header.callId, s.readBuffer)], io := .sweeping }
    | some false => { s with io := .sweeping }
    | none =>
      let (rest, cache) := s.cache.swapNotify header.resultId s.readBuffer
      { s with
        readBuffer := rest
        cache := cache
        delivered := if s.cache.entries[header.resultId]?.isSome then s.delivered ++ [header.resultId] else s.delivered
        io := .sweeping }
  else { s with io := .sweeping }

def onControlCallback (s : ClientSession) (kind : FrameKind) : ClientSession :=
  match kind with
  | .pong => { s with pong := true }
  | .close => { s with closeReceived := true }
  | .ping => s

/-- The io thread goes on inside a handler. -/
def ioStep (s : ClientSession) (clock : Clock) : Option ClientSession :=
  match s.io with
  | .idle => none
  | .popping =>
    let (more, q) := s.queue.popFront
    let s := { s with queue := q, io := .idle }
    some (if more then s.write else s)
  | .clearing (m :: rest) => some { s with promises := resolve s.promises m false, io := .clearing rest }
  | .clearing [] => some { s with queue := s.queue.clearEntries, writeError := true, io := .idle }.closeSession
  | .sweeping =>
    some { s with cache := s.cache.removeObsolete clock.visit, readBuffer := [], io := .idle }.read

def runPosted (s : ClientSession) : Posted → ClientSession
  | .handleSend m => s.handleSend m
  | .handlePing => s.handlePing
  | .closeSession => s.closeSession

end ClientSession

/-- What can happen to a session on the io thread: a posted handler runs, an operation completes (a write is named by
its place among those outstanding), a control frame arrives, `close()` posts its request, a handler goes on. -/
inductive ClientEvent where
  | runPosted
  | onWrite (i : Nat) (ec : Bool)
  | onRead (ec : Bool) (bytes : Bytes)
  | control (kind : FrameKind)
  | onPing
  | onClose
  | postClose
  | ioStep (clock : Clock)

/-- One step of the io thread. A handler starts only when none is running. -/
def ClientSession.step (funcs : BroadcastFuncs) (s : ClientSession) : ClientEvent → Option ClientSession
  | .runPosted =>
    match s.io, s.posted with
    | .idle, h :: rest => some ({ s with posted := rest }.runPosted h)
    | _, _ => none
  | .onWrite i ec =>
    match s.io, s.writing[i]? with
    | .idle, some m =>
      let s := { s with writing := s.writing.eraseIdx i }
      let s := if ec then s else { s with completed := s.completed ++ [m] }
      some (s.onWrite ec)
    | _, _ => none
  | .onRead ec bytes =>
    if s.io = .idle ∧ s.reading then
      -- `async_read` appends to the read buffer
      some ({ s with reading := false, readBuffer := s.readBuffer ++ bytes }.onRead funcs ec)
    else none
  | .control kind => if s.io = .idle then some (s.onControlCallback kind) else none
  | .onPing => if s.io = .idle ∧ 0 < s.pings then some { s with ping := false, pings := s.pings - 1 } else none
  | .onClose => if s.io = .idle ∧ 0 < s.closing then some { s with closing := s.closing - 1 } else none
  | .postClose => some { s with posted := s.posted ++ [.closeSession] }
  | .ioStep clock => s.ioStep clock

/-! ## Calls -/

/-- The steps of a caller that other threads can see. `post` makes the promise and posts the message: nobody else
knows of the promise before. `waitWritten` ends with the promise destroyed when the time has run out. -/
inductive SessOp where
  | cache (o : CacheOp)
  | post (callId : UInt32) (resultId : UInt64) (body : Bytes)
  | waitWritten (callback : PromiseRef)
  | postPing
  | resetPong
  | waitPong
  deriving DecidableEq, Repr

abbrev SessOp.Res : SessOp → Type
  | .cache o => o.Res
  | .post _ _ _ => PromiseRef
  | .waitWritten _ => Bool
  | .postPing => Unit
  | .resetPong => Unit
  | .waitPong => Bool

def SessOp.exec (t : Nat) : (o : SessOp) → Clock → ClientSession → Option (o.Res × ClientSession)
  | .cache o, i, s => (o.exec i s.cache).map fun r => (r.1, { s with cache := r.2 })
  | .post callId resultId body, _, s =>
    some (s.promiseCount, { s with
      promises := Function.update s.promises s.promiseCount .pending
      promiseCount := s.promiseCount + 1
      posted := s.posted ++ [.handleSend ⟨s.promiseCount, t, body, .new callId resultId⟩] })
  | .waitWritten callback, i, s =>
    match s.promises callback with
    | .ready _ => some (true, s)
    | _ => if i.timeout then some (false, { s with promises := Function.update s.promises callback .expired }) else none
  | .postPing, _, s => some ((), { s with posted := s.posted ++ [.handlePing] })
  | .resetPong, _, s => some ((), { s with pong := false })
  | .waitPong, i, s => if s.pong then some (true, s) else if i.timeout then some (false, s) else none

abbrev SessProg := Prog SessOp SessOp.Res

abbrev SessOp.run (o : SessOp) : SessProg o.Res := Prog.perform o

/-- Send bytes to the server with a call id. -/
def send (callId : UInt32) (body : Bytes) : SessProg (Option ErrorCode) := do
  let callback : PromiseRef ← SessOp.run (.post callId 0 body)
  let ready : Bool ← SessOp.run (.waitWritten callback)
  if ready then return none else return some .timedOut

/-- Send bytes to the server with a call id & wait for a response: the receive buffer, the error code, and the result
id under which the request was sent (0 if it was not). -/
def sendRecv (responseTimeout : Time) (callId : UInt32) (body recv : Bytes) :
    SessProg (Bytes × Option ErrorCode × UInt64) := do
  let resultId : UInt64 ← SessOp.run (.cache (.queue (responseTimeout * 2)))
  if resultId = 0 then return (recv, some .operationAborted, 0)
  else
    let callback : PromiseRef ← SessOp.run (.post callId resultId body)
    let ready : Bool ← SessOp.run (.waitWritten callback)
    if ready then
      let (success, recv) ← (wait resultId recv).lift SessOp.cache fun _ r => r
      return (recv, if success then none else some .timedOut, resultId)
    else return (recv, some .timedOut, resultId)

def ping : SessProg Bool := do
  SessOp.run .postPing
  SessOp.run .resetPong
  let pong : Bool ← SessOp.run .waitPong
  return pong

/-- The public calls. -/
inductive SessCall where
  | send (callId : UInt32) (body : Bytes)
  | sendRecv (callId : UInt32) (body recv : Bytes)
  | ping
  deriving DecidableEq, Repr

/-- What they return. -/
inductive SessRet where
  | sent (ec : Option ErrorCode)
  | received (recv : Bytes) (ec : Option ErrorCode) (resultId : UInt64)
  | pinged (pong : Bool)
  deriving DecidableEq, Repr

def SessCall.body (responseTimeout : Time) : SessCall → SessProg SessRet
  | .send callId body => do
    let ec ← Radrpc.send callId body
    return .sent ec
  | .sendRecv callId body recv => do
    let (recv, ec, resultId) ← Radrpc.sendRecv responseTimeout callId body recv
    return .received recv ec resultId
  | .ping => do
    let pong ← Radrpc.ping
    return .pinged pong

/-- Calls on one session, in any interleaving with the io thread. -/
def sessionMachine (funcs : BroadcastFuncs) (responseTimeout : Time) :
    Machine ClientSession SessCall SessOp SessOp.Res SessRet Clock ClientEvent where
  body := SessCall.body responseTimeout
  exec := SessOp.exec
  env := fun e s => s.step funcs e

abbrev SessPool := Pool ClientSession SessCall SessOp SessOp.Res SessRet

/-- An established session: `on_handshake` has started the first read. -/
def ClientSession.established (order : ByteOrder) : ClientSession := ClientSession.read { order }

/-! ## What the operations change -/

namespace ClientSession

theorem closeSession_frame (s : ClientSession) : ∃ close closing,
    s.closeSession = { s with close := close, closing := closing } := by
  unfold closeSession
  split
  · exact ⟨s.close, s.closing, rfl⟩
  · exact ⟨_, _, rfl⟩

theorem write_frame (s : ClientSession) : ∃ writing started,
    s.write = { s with writing := writing, started := started } := by
  unfold write
  split
  · exact ⟨s.writing, s.started, rfl⟩
  · exact ⟨_, _, rfl⟩

theorem handlePing_frame (s : ClientSession) : ∃ ping pings,
    s.handlePing = { s with ping := ping, pings := pings } := by
  unfold handlePing
  split
  · exact ⟨s.ping, s.pings, rfl⟩
  · exact ⟨_, _, rfl⟩

theorem handleSend_frame (s : ClientSession) (m : DataSend) : ∃ queue writing accepted started,
    s.handleSend m = { s with queue := queue, writing := writing, accepted := accepted, started := started } := by
  unfold handleSend
  split
  · exact ⟨s.queue, s.writing, s.accepted, s.started, rfl⟩
  · split
    · exact ⟨s.queue, s.writing, s.accepted, s.started, rfl⟩
    · rename_i q _
      dsimp only
      split
      · exact ⟨q, s.writing, _, s.started, rfl⟩
      · obtain ⟨w, st, he⟩ := write_frame { s with queue := q, accepted := s.accepted ++ [m] }
        exact ⟨q, w, _, st, he⟩

theorem onWrite_frame (s : ClientSession) (ec : Bool) : ∃ promises io,
    s.onWrite ec = { s with promises := promises, io := io } := by
  unfold onWrite
  split
  · exact ⟨s.promises, _, rfl⟩
  · split
    · exact ⟨s.promises, _, rfl⟩
    · exact ⟨_, _, rfl⟩

theorem onRead_frame (s : ClientSession) (funcs : BroadcastFuncs) (ec : Bool) :
    ∃ readBuffer cache delivered handled readError close closing io, s.onRead funcs ec = { s with
      readBuffer := readBuffer, cache := cache, delivered := delivered, handled := handled, readError := readError
      close := close, closing := closing, io := io } ∧ (io = s.io ∨ io = .sweeping) := by
  unfold onRead
  split
  · obtain ⟨c, k, he⟩ := closeSession_frame { s with cache := s.cache.clear, readError := true }
    exact ⟨s.readBuffer, s.cache.clear, s.delivered, s.handled, true, c, k, s.io, he, .inl rfl⟩
  · split
    · dsimp only
      split
      · exact ⟨_, s.cache, s.delivered, _, s.readError, s.close, s.closing, .sweeping, rfl, .inr rfl⟩
      · exact ⟨_, s.cache, s.delivered, s.handled, s.readError, s.close, s.closing, .sweeping, rfl, .inr rfl⟩
      · exact ⟨_, _, _, s.handled, s.readError, s.close, s.closing, .sweeping, rfl, .inr rfl⟩
    · exact ⟨s.readBuffer, s.cache, s.delivered, s.handled, s.readError, s.close, s.closing, .sweeping, rfl, .inr rfl⟩

/-- What an event does to a session. A handler starts when none is running; where it calls a function, the equation says
what the function has done. -/
inductive Moves (funcs : BroadcastFuncs) (s : ClientSession) : ClientEvent → ClientSession → Prop where
  | handleSend (m : DataSend) (rest : List Posted) (queue : DataQueue) (writing accepted started : List DataSend) :
      s.io = .idle → s.posted = .handleSend m :: rest →
      { s with posted := rest }.handleSend m = { s with
        posted := rest, queue := queue, writing := writing, accepted := accepted, started := started } →
      Moves funcs s .runPosted { s with
        posted := rest, queue := queue, writing := writing, accepted := accepted, started := started }
  | handlePing (rest : List Posted) (ping : Bool) (pings : Nat) : s.io = .idle → s.posted = .handlePing :: rest →
      { s with posted := rest }.handlePing = { s with posted := rest, ping := ping, pings := pings } →
      Moves funcs s .runPosted { s with posted := rest, ping := ping, pings := pings }
  | closeSession (rest : List Posted) (close : Bool) (closing : Nat) : s.io = .idle →
      s.posted = .closeSession :: rest →
      Moves funcs s .runPosted { s with posted := rest, close := close, closing := closing }
  | onWrite (i : Nat) (ec : Bool) (m : DataSend) (completed : List DataSend) (promises : PromiseRef → Promise)
      (io : IoState) : s.io = .idle → s.writing[i]? = some m →
      completed = (if ec then s.completed else s.completed ++ [m]) →
      { s with writing := s.writing.eraseIdx i, completed := completed }.onWrite ec = { s with
        writing := s.writing.eraseIdx i, completed := completed, promises := promises, io := io } →
      Moves funcs s (.onWrite i ec) { s with
        writing := s.writing.eraseIdx i, completed := completed, promises := promises, io := io }
  | onRead (ec : Bool) (bytes readBuffer : Bytes) (cache : DataCache) (delivered : List UInt64)
      (handled : List (UInt32 × Bytes)) (readError close : Bool) (closing : Nat) (io : IoState) : s.io = .idle →
      s.reading = true → io = .idle ∨ io = .sweeping →
      { s with reading := false, readBuffer := s.readBuffer ++ bytes }.onRead funcs ec = { s with
        reading := false, readBuffer := readBuffer, cache := cache, delivered := delivered, handled := handled
        readError := readError, close := close, closing := closing, io := io } →
      Moves funcs s (.onRead ec bytes) { s with
        reading := false, readBuffer := readBuffer, cache := cache, delivered := delivered, handled := handled
        readError := readError, close := close, closing := closing, io := io }
  | pong : s.io = .idle → Moves funcs s (.control .pong) { s with pong := true }
  | closeReceived : s.io = .idle → Moves funcs s (.control .close) { s with closeReceived := true }
  | ping : s.io = .idle → Moves funcs s (.control .ping) s
  | onPing : s.io = .idle → 0 < s.pings → Moves funcs s .onPing { s with ping := false, pings := s.pings - 1 }
  | onClose : s.io = .idle → 0 < s.closing → Moves funcs s .onClose { s with closing := s.closing - 1 }
  | postClose : Moves funcs s .postClose { s with posted := s.posted ++ [.closeSession] }
  | popping (clock : Clock) (writing started : List DataSend) : s.io = .popping →
      (if s.queue.popFront.1 then { s with queue := s.queue.popFront.2, io := .idle }.write
        else { s with queue := s.queue.popFront.2, io := .idle }) = { s with
        queue := s.queue.popFront.2, io := .idle, writing := writing, started := started } →
      Moves funcs s (.ioStep clock) { s with
        queue := s.queue.popFront.2, io := .idle, writing := writing, started := started }
  | clearing (clock : Clock) (m : DataSend) (rest : List DataSend) : s.io = .clearing (m :: rest) →
      Moves funcs s (.ioStep clock) { s with promises := resolve s.promises m false, io := .clearing rest }
  | cleared (clock : Clock) (close : Bool) (closing : Nat) : s.io = .clearing [] →
      Moves funcs s (.ioStep clock) { s with
        queue := s.queue.clearEntries, writeError := true, io := .idle, close := close, closing := closing }
  | sweeping (clock : Clock) : s.io = .sweeping →
      Moves funcs s (.ioStep clock) { s with
        cache := s.cache.removeObsolete clock.visit, readBuffer := [], io := .idle, reading := true }

variable {funcs : BroadcastFuncs} {s s' : ClientSession}

theorem moves_of_runPosted {h : Posted} {rest : List Posted} (hio : s.io = .idle) (hp : s.posted = h :: rest) :
    Moves funcs s .runPosted ({ s with posted := rest }.runPosted h) := by
  cases h with
  | handleSend m =>
    obtain ⟨_, _, _, _, he⟩ := handleSend_frame { s with posted := rest } m
    rw [runPosted, he]
    exact .handleSend m rest _ _ _ _ hio hp he
  | handlePing =>
    obtain ⟨_, _, he⟩ := handlePing_frame { s with posted := rest }
    rw [runPosted, he]
    exact .handlePing rest _ _ hio hp he
  | closeSession =>
    obtain ⟨_, _, he⟩ := closeSession_frame { s with posted := rest }
    rw [runPosted, he]
    exact .closeSession rest _ _ hio hp

theorem moves_of_ioStep {clock : Clock} (hs : s.ioStep clock = some s') : Moves funcs s (.ioStep clock) s' := by
  unfold ioStep at hs
  split at hs
  · cases hs
  · rename_i hio
    have hframe : ∃ writing started,
        (if s.queue.popFront.1 then { s with queue := s.queue.popFront.2, io := .idle }.write
          else { s with queue := s.queue.popFront.2, io := .idle }) = { s with
          queue := s.queue.popFront.2, io := .idle, writing := writing, started := started } := by
      split
      · exact write_frame { s with queue := s.queue.popFront.2, io := .idle }
      · exact ⟨s.writing, s.started, rfl⟩
    obtain ⟨writing, started, he⟩ := hframe
    rw [← Option.some.inj hs]
    exact he ▸ .popping clock writing started hio he
  · rename_i m rest hio
    cases hs
    exact .clearing clock m rest hio
  · rename_i hio
    cases hs
    obtain ⟨_, _, he⟩ := closeSession_frame { s with queue := s.queue.clearEntries, writeError := true, io := .idle }
    rw [he]
    exact .cleared clock _ _ hio
  · rename_i hio
    cases hs
    exact .sweeping clock hio

theorem moves_of_step {e : ClientEvent} (hs : s.step funcs e = some s') : Moves funcs s e s' := by
  cases e with
  | runPosted =>
    simp only [step] at hs
    split at hs
    · rename_i hio hp
      cases hs
      exact moves_of_runPosted hio hp
    · cases hs
  | onWrite i ec =>
    simp only [step] at hs
    split at hs
    · rename_i m hio hi
      cases hs
      have hcompleted : (if ec = true then { s with writing := s.writing.eraseIdx i }
          else { s with writing := s.writing.eraseIdx i, completed := s.completed ++ [m] }) = { s with
          writing := s.writing.eraseIdx i, completed := if ec then s.completed else s.completed ++ [m] } := by
        cases ec <;> rfl
      rw [hcompleted]
      obtain ⟨_, _, he⟩ := onWrite_frame { s with
        writing := s.writing.eraseIdx i, completed := if ec then s.completed else s.completed ++ [m] } ec
      rw [he]
      exact .onWrite i ec m _ _ _ hio hi rfl he
    · cases hs
  | onRead ec bytes =>
    simp only [step] at hs
    split at hs
    · rename_i hg
      cases hs
      obtain ⟨_, _, _, _, _, _, _, _, he, hio⟩ :=
        onRead_frame { s with reading := false, readBuffer := s.readBuffer ++ bytes } funcs ec
      rw [he]
      exact .onRead ec bytes _ _ _ _ _ _ _ _ hg.1 hg.2 (hio.imp_left fun h => h.trans hg.1) he
    · cases hs
  | control kind =>
    simp only [step] at hs
    split at hs
    · rename_i hio
      cases hs
      cases kind with
      | pong => exact .pong hio
      | close => exact .closeReceived hio
      | ping => exact .ping hio
    · cases hs
  | onPing =>
    simp only [step] at hs
    split at hs
    · rename_i hg
      cases hs
      exact .onPing hg.1 hg.2
    · cases hs
  | onClose =>
    simp only [step] at hs
    split at hs
    · rename_i hg
      cases hs
      exact .onClose hg.1 hg.2
    · cases hs
  | postClose =>
    cases hs
    exact .postClose
  | ioStep clock => exact moves_of_ioStep hs

theorem readBuffer_of_step {e : ClientEvent} (h : s.reading = true → s.readBuffer = []) (hs : s.step funcs e = some s') :
    s'.order = s.order ∧ (s'.reading = true → s'.readBuffer = []) := by
  cases moves_of_step hs with
  | onRead => exact ⟨rfl, fun hr => by cases hr⟩
  | sweeping => exact ⟨rfl, fun _ => rfl⟩
  | _ => exact ⟨rfl, h⟩

end ClientSession

/-- What a caller's step does to the session: it touches the cache, or posts a message under a new promise, or gives
a promise up that has no value, or has to do with pings. -/
theorem SessOp.exec_cases {t : Nat} {o : SessOp} {i : Clock} {s s' : ClientSession} {r : o.Res}
    (h : o.exec t i s = some (r, s')) :
    (∃ cache, s' = { s with cache := cache }) ∨
    (∃ callId resultId body, o = .post callId resultId body ∧ s' = { s with
      promises := Function.update s.promises s.promiseCount .pending
      promiseCount := s.promiseCount + 1
      posted := s.posted ++ [.handleSend ⟨s.promiseCount, t, body, .new callId resultId⟩] }) ∨
    (∃ callback, o = .waitWritten callback ∧ (∀ b, s.promises callback ≠ .ready b) ∧
      s' = { s with promises := Function.update s.promises callback .expired }) ∨
    (∃ pong posted, s' = { s with pong := pong, posted := s.posted ++ posted } ∧
      ∀ m, .handleSend m ∉ posted) := by
  cases o with
  | cache o =>
    obtain ⟨⟨r', c⟩, -, he⟩ := Option.map_eq_some_iff.mp h
    cases he
    exact .inl ⟨c, rfl⟩
  | post callId resultId body =>
    cases h
    exact .inr (.inl ⟨callId, resultId, body, rfl, rfl⟩)
  | waitWritten callback =>
    simp only [SessOp.exec] at h
    split at h
    · cases h
      exact .inl ⟨s.cache, rfl⟩
    · rename_i hne
      split at h
      · cases h
        exact .inr (.inr (.inl ⟨callback, rfl, hne, rfl⟩))
      · cases h
  | postPing =>
    cases h
    exact .inr (.inr (.inr ⟨s.pong, [.handlePing], rfl, fun m => by simp⟩))
  | resetPong =>
    cases h
    exact .inr (.inr (.inr ⟨false, [], by simp, fun m => by simp⟩))
  | waitPong =>
    simp only [SessOp.exec] at h
    split at h
    · cases h
      exact .inl ⟨s.cache, rfl⟩
    · split at h
      · cases h
        exact .inl ⟨s.cache, rfl⟩
      · cases h

theorem SessOp.exec_frame {t : Nat} {o : SessOp} {i : Clock} {s s' : ClientSession} {r : o.Res}
    (h : o.exec t i s = some (r, s')) : ∃ cache promises promiseCount posted pong,
    s' = { s with
      cache := cache, promises := promises, promiseCount := promiseCount, posted := posted, pong := pong } := by
  rcases exec_cases h with ⟨c, rfl⟩ | ⟨_, _, _, -, rfl⟩ | ⟨_, -, -, rfl⟩ | ⟨_, _, rfl, -⟩
  · exact ⟨c, s.promises, s.promiseCount, s.posted, s.pong, rfl⟩
  · exact ⟨s.cache, _, _, _, s.pong, rfl⟩
  · exact ⟨s.cache, _, s.promiseCount, s.posted, s.pong, rfl⟩
  · exact ⟨s.cache, s.promises, s.promiseCount, _, _, rfl⟩

end Radrpc
