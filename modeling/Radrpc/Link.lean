import Radrpc.Client.Session
import Radrpc.Server.Dispatch

/-!
# A client session and its server session

* `Link` : the two sessions of a connection, and the messages that the websocket stream holds in each direction. The
  stream delivers whole messages, in order;
* `Link.admits` : what the stream allows: a read completes with the next message, a write has succeeded when its
  message is in the stream, and `send()` on the server is a broadcast;
* `Link.step` : the handlers of both ends, and the moments at which the bytes of a write enter the stream;
* `linkMachine` : any number of calls on the client session, interleaved with all of this.
-/

namespace Radrpc
open Words Conc

/-- The sessions of a connection and the messages on their way; `clientSent` and `serverSent` count the writes whose
bytes have entered the stream. -/
structure Link where
  client : ClientSession
  server : ServerSession
  up : List Bytes := []
  down : List Bytes := []
  clientSent : Nat := 0
  serverSent : Nat := 0

/-- A step of a session, or the bytes of its write enter the stream. -/
inductive LinkEvent where
  | client (e : ClientEvent)
  | server (e : ServerEvent)
  | clientFlush (body : Bytes)
  | serverFlush

/-- The messages that a client's handler takes from the stream. -/
def ClientEvent.reads : ClientEvent → Nat
  | .onRead false _ => 1
  | _ => 0

/-- The messages that a server's handler takes from the stream. -/
def ServerEvent.reads : ServerEvent → Nat
  | .onRead false _ _ => 1
  | _ => 0

namespace Link

def admits (l : Link) : LinkEvent → Bool
  | .client (.onRead false bytes) => l.down.head? = some bytes
  | .client (.onWrite _ false) => l.clientSent = l.client.started.length
  | .server (.onRead false bytes _) => l.up.head? = some bytes
  | .server (.onWrite _ false _) => l.serverSent = l.server.started.length
  -- `session_manager::broadcast` is the only caller of `send()`
  | .server (.send data) => data.header = .new data.header.callId 0
  | _ => true

/-- The bytes of the client's write enter the stream: the header, and what then stands where `body_ptr` points. These
are the bytes of the call, as long as its promise is pending. -/
def clientFlush (l : Link) (body : Bytes) : Option Link :=
  match l.client.started[l.clientSent]? with
  | none => none
  | some m =>
    if m ∈ l.client.writing ∧ (l.client.promises m.callback = .pending → body = m.body) then
      some { l with up := l.up ++ [m.header.encode l.client.order ++ body], clientSent := l.clientSent + 1 }
    else none

/-- The bytes of the server's write enter the stream. -/
def serverFlush (l : Link) : Option Link :=
  match l.server.started[l.serverSent]? with
  | none => none
  | some m =>
    if m ∈ l.server.writing then
      some { l with down := l.down ++ [m.wire l.server.order], serverSent := l.serverSent + 1 }
    else none

def step (funcs : BroadcastFuncs) (l : Link) (e : LinkEvent) : Option Link :=
  if l.admits e then
    match e with
    | .client e => (l.client.step funcs e).map fun s => { l with client := s, down := l.down.drop e.reads }
    | .server e => (l.server.step e).map fun s => { l with server := s, up := l.up.drop e.reads }
    | .clientFlush body => l.clientFlush body
    | .serverFlush => l.serverFlush
  else none

/-- Both ends have just finished the handshake; they share the byte order. -/
def established (boundFuncs : BoundFuncs) (o : ByteOrder) (pingDelay now : Time) : Link :=
  { client := .established o, server := .established boundFuncs o pingDelay now }

end Link

def SessOp.execLink (t : Nat) (o : SessOp) (i : Clock) (l : Link) : Option (o.Res × Link) :=
  (o.exec t i l.client).map fun r => (r.1, { l with client := r.2 })

/-- Calls on the client session, in any interleaving with both io threads and the stream. -/
def linkMachine (funcs : BroadcastFuncs) (responseTimeout : Time) :
    Machine Link SessCall SessOp SessOp.Res SessRet Clock LinkEvent where
  body := SessCall.body responseTimeout
  exec := SessOp.execLink
  env := fun e l => l.step funcs e

abbrev LinkPool := Pool Link SessCall SessOp SessOp.Res SessRet

/-! ## What a step does -/

theorem SessOp.execLink_eq_some {t : Nat} {o : SessOp} {i : Clock} {l l' : Link} {r : o.Res}
    (h : o.execLink t i l = some (r, l')) : ∃ s, o.exec t i l.client = some (r, s) ∧ l' = { l with client := s } := by
  obtain ⟨⟨r', s⟩, hs, he⟩ := Option.map_eq_some_iff.mp h
  cases he
  exact ⟨s, hs, rfl⟩

namespace Link

theorem step_client {funcs : BroadcastFuncs} {l l' : Link} {e : ClientEvent} (h : l.step funcs (.client e) = some l') :
    l.admits (.client e) = true ∧ ∃ s, l.client.step funcs e = some s ∧
      l' = { l with client := s, down := l.down.drop e.reads } := by
  unfold step at h
  split at h
  · rename_i ha
    obtain ⟨s, hs, he⟩ := Option.map_eq_some_iff.mp h
    exact ⟨ha, s, hs, he.symm⟩
  · cases h

theorem step_server {funcs : BroadcastFuncs} {l l' : Link} {e : ServerEvent} (h : l.step funcs (.server e) = some l') :
    l.admits (.server e) = true ∧ ∃ s, l.server.step e = some s ∧
      l' = { l with server := s, up := l.up.drop e.reads } := by
  unfold step at h
  split at h
  · rename_i ha
    obtain ⟨s, hs, he⟩ := Option.map_eq_some_iff.mp h
    exact ⟨ha, s, hs, he.symm⟩
  · cases h

theorem resultId_of_admits {l : Link} {e : ServerEvent} (ha : l.admits (.server e) = true) (m : DataPush)
    (he : e = .send m) : m.header.resultId = 0 := by
  subst he
  have hm : m.header = .new m.header.callId 0 := of_decide_eq_true ha
  rw [hm]
  rfl

theorem step_clientFlush {funcs : BroadcastFuncs} {l l' : Link} {body : Bytes}
    (h : l.step funcs (.clientFlush body) = some l') : ∃ m ∈ l.client.writing,
      (l.client.promises m.callback = .pending → body = m.body) ∧
      l' = { l with up := l.up ++ [m.header.encode l.client.order ++ body], clientSent := l.clientSent + 1 } := by
  simp only [step, admits, if_true, clientFlush] at h
  split at h
  · cases h
  · rename_i m _
    split at h
    · rename_i hm
      cases h
      exact ⟨m, hm.1, hm.2, rfl⟩
    · cases h

theorem step_serverFlush {funcs : BroadcastFuncs} {l l' : Link} (h : l.step funcs .serverFlush = some l') :
    ∃ m ∈ l.server.writing, l.server.started[l.serverSent]? = some m ∧
      l' = { l with down := l.down ++ [m.wire l.server.order], serverSent := l.serverSent + 1 } := by
  simp only [step, admits, if_true, serverFlush] at h
  split at h
  · cases h
  · rename_i m hst
    split at h
    · rename_i hm
      cases h
      exact ⟨m, hm, hst, rfl⟩
    · cases h

end Link

end Radrpc
