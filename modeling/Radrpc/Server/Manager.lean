import Radrpc.Data.Queue
import Radrpc.Lib.Threads

/-!
# The session manager

The sessions of a server come from the listener, register with the manager when their websocket is established, and
take themselves off its lists in their destructors. The manager sends the broadcasts, and counts the sessions by the
shared pointers to itself.

* `ManagedSession` : a session object as the manager sees it: its address, its life, and the broadcast messages it holds;
* `Manager` : the members of `session_manager`, the shared pointers to it, the listener, and all session objects;
* `ManagerOp`, `ManagerOp.exec` : the steps of a call that other threads can see;
* `connections`, `broadcast`, `getSessionIds`, `onAccept` : the calls, as the source has them;
* `ManagerEnv`, `Manager.step` : what happens to detections, sessions and queued messages;
* `managerMachine` : any number of calls, interleaved with all of this.
-/

namespace Radrpc
open Conc

/-- The stream of a session. -/
inductive StreamKind where
  | plain
  | ssl
  deriving DecidableEq, Repr

/-- The life of a session object: not constructed; owned by somebody; owned by nobody, its destructor about to run; after
`~session_accept` has taken it off the list; after `~server_session` has called `on_disconnect`; after its members are
destroyed; its memory returned. -/
inductive ObjPhase where
  | unborn
  | alive
  | dying
  | removed
  | disconnected
  | released
  | freed
  deriving DecidableEq, Repr

/-- The object exists: its members, the shared pointer to the manager among them, have not been destroyed. -/
def ObjPhase.live : ObjPhase → Bool
  | .alive | .dying | .removed | .disconnected => true
  | _ => false

def ObjPhase.allocated : ObjPhase → Bool
  | .unborn | .freed => false
  | _ => true

/-- A session object. The id of a session is the address of its stream. `holders` are the calls that hold a shared
pointer to it, `posted` and `queue` the broadcast messages of its posted handlers and of its queue. -/
structure ManagedSession where
  kind : StreamKind := .plain
  id : UInt64 := 0
  phase : ObjPhase := .unborn
  established : Bool := false
  holders : List Nat := []
  posted : List Nat := []
  queue : List Nat := []
  deriving DecidableEq, Repr

abbrev Registry := List (UInt64 × Nat)

namespace Registry

def set (r : Registry) (id : UInt64) (k : Nat) : Registry := (id, k) :: r.filter fun e => decide (e.1 ≠ id)

def remove (r : Registry) (id : UInt64) : Registry := r.filter fun e => decide (e.1 ≠ id)

def emplace (r : Registry) (id : UInt64) (k : Nat) : Registry :=
  if id ∈ r.map Prod.fst then r else r ++ [(id, k)]

def select (r : Registry) : Option (List UInt64) → Registry
  | none => r
  | some ids => ids.foldl (fun tmp id => match r.lookup id with
    | some k => emplace tmp id k
    | none => tmp) []

end Registry

/-- A broadcast. -/
structure BroadcastMsg where
  callId : UInt32
  bytes : Bytes
  ids : Option (List UInt64)
  deriving DecidableEq, Repr

/-- The configuration that the listener reads; `sslCtx` says that an ssl context was given. -/
structure ListenerConfig where
  maxSessions : UInt32
  sslCtx : Bool
  plainMode : Bool
  sslMode : Bool
  deriving DecidableEq, Repr

/-- The session manager. `useCount` counts the shared pointers to it. The fields up to `ssl` are members of the source,
`accepting` says that the listener is in `on_accept`, `detecting` counts the objects of `detect_session`; `messages` are
all messages made for broadcasts, `locals` those that a running broadcast still points to, and `temps` the calls that
hold a temporary pointer to the manager. The last field is a history: which message was posted to which session. -/
structure Manager where
  subRefs : Nat
  useCount : Nat
  msgQueued : Int := 0
  plain : Registry := []
  ssl : Registry := []
  accepting : Bool := false
  detecting : Nat := 0
  sessions : Nat → ManagedSession := fun _ => {}
  sessionCount : Nat := 0
  messages : List BroadcastMsg := []
  locals : List Nat := []
  temps : List Nat := []
  posts : List (Nat × Nat) := []

namespace Manager

/-- The manager when the server is constructed: the server and the listener point to it, and `set_subtract_refs()` has
counted these two and its own pointer. -/
def new : Manager :=
  let useCount := 1 + 1
  { useCount, subRefs := useCount + 1 }

def modify (s : Manager) (k : Nat) (f : ManagedSession → ManagedSession) : Manager :=
  { s with sessions := Function.update s.sessions k (f (s.sessions k)) }

def registry (s : Manager) : StreamKind → Registry
  | .plain => s.plain
  | .ssl => s.ssl

def setRegistry (s : Manager) (kind : StreamKind) (r : Registry) : Manager :=
  match kind with
  | .plain => { s with plain := r }
  | .ssl => { s with ssl := r }

def sessionIds (s : Manager) : List UInt64 := s.plain.map Prod.fst ++ s.ssl.map Prod.fst

/-- What `connections()` answers to a call that makes its pointer now. -/
def connections (s : Manager) : Nat := s.useCount + 1 - s.subRefs

def liveCount (s : Manager) : Nat := (List.range s.sessionCount).countP fun k => (s.sessions k).phase.live

def referenced (s : Manager) (m : Nat) : Bool :=
  decide (m ∈ s.locals) ||
    (List.range s.sessionCount).any fun k => decide (m ∈ (s.sessions k).posted) || decide (m ∈ (s.sessions k).queue)

/-- A pointer to the message has gone: with the last one the message goes, and its deleter with the pointer to the
manager. -/
def release (s : Manager) (m : Nat) : Manager :=
  if s.referenced m then s else { s with msgQueued := s.msgQueued - 1, useCount := s.useCount - 1 }

def freshAddress (s : Manager) (addr : UInt64) : Bool :=
  (List.range s.sessionCount).all fun k => !(s.sessions k).phase.allocated || decide ((s.sessions k).id ≠ addr)

def construct (s : Manager) (kind : StreamKind) (addr : UInt64) : Option Manager :=
  if s.freshAddress addr then
    some { s with
      sessions := Function.update s.sessions s.sessionCount { kind, id := addr, phase := .alive }
      sessionCount := s.sessionCount + 1
      useCount := s.useCount + 1 }
  else none

end Manager

/-! ## Steps of a call -/

/-- What the environment decides during a step: the address of a new object, and whether the listener has to reject the
socket before it asks for the number of sessions. -/
structure ManagerInput where
  addr : UInt64 := 0
  reject : Bool := false
  deriving DecidableEq, Repr

/-- The steps of a call that other threads can see. -/
inductive ManagerOp where
  | beginCount
  | endCount
  | testQueue
  | makePush (msg : BroadcastMsg)
  | countPush
  | copy (kind : StreamKind) (ids : Option (List UInt64))
  | lockWeak (k : Nat)
  | send (k m : Nat)
  | releaseSession (k : Nat)
  | dropPush (m : Nat)
  | sessionIds
  | beginAccept
  | newDetect
  | newSession
  | endAccept
  deriving DecidableEq, Repr

abbrev ManagerOp.Res : ManagerOp → Type
  | .beginCount => Nat
  | .testQueue => Bool
  | .makePush _ => Nat
  | .copy _ _ => Registry
  | .lockWeak _ => Bool
  | .sessionIds => List UInt64
  | .beginAccept => Bool
  | _ => Unit

def ManagerOp.exec (t : Nat) : (o : ManagerOp) → ManagerInput → Manager → Option (o.Res × Manager)
  -- `shared_from_this()` makes a pointer that `use_count()` counts
  | .beginCount, _, s => some (s.connections, { s with useCount := s.useCount + 1, temps := t :: s.temps })
  | .endCount, _, s => some ((), { s with useCount := s.useCount - 1, temps := s.temps.erase t })
  | .testQueue, _, s => some (decide ((queueSendMax : Int) ≤ s.msgQueued), s)
  -- the deleter of the message points to the manager
  | .makePush msg, _, s => some (s.messages.length, { s with
      messages := s.messages ++ [msg], locals := s.locals ++ [s.messages.length], useCount := s.useCount + 1 })
  | .countPush, _, s => some ((), { s with msgQueued := s.msgQueued + 1 })
  | .copy kind ids, _, s => some ((s.registry kind).select ids, s)
  | .lockWeak k, _, s =>
    if (s.sessions k).phase = .alive then some (true, s.modify k fun x => { x with holders := t :: x.holders })
    else some (false, s)
  | .send k m, _, s => some ((), { s.modify k fun x => { x with posted := x.posted ++ [m] } with
      posts := s.posts ++ [(m, k)] })
  | .releaseSession k, _, s => some ((), s.modify k fun x => { x with holders := x.holders.erase t })
  | .dropPush m, _, s => some ((), { s with locals := s.locals.erase m }.release m)
  | .sessionIds, _, s => some (s.sessionIds, s)
  | .beginAccept, i, s => if s.accepting then none else some (i.reject, { s with accepting := true })
  | .newDetect, _, s => some ((), { s with detecting := s.detecting + 1 })
  | .newSession, i, s => (s.construct .plain i.addr).map fun s => ((), s)
  | .endAccept, _, s => some ((), { s with accepting := false })

abbrev ManagerProg := Prog ManagerOp ManagerOp.Res

abbrev ManagerOp.run (o : ManagerOp) : ManagerProg o.Res := Prog.perform o

/-! ## Calls -/

namespace Manager

def countConnections : ManagerProg Nat := do
  let n : Nat ← ManagerOp.run .beginCount
  ManagerOp.run .endCount
  return n

/-- Send the message to every session of a copied list that still has an owner. -/
def sendAll (m : Nat) : Registry → ManagerProg Unit
  | [] => return ()
  | (_, k) :: rest => do
    let locked : Bool ← ManagerOp.run (.lockWeak k)
    if locked then
      ManagerOp.run (.send k m)
      ManagerOp.run (.releaseSession k)
      sendAll m rest
    else sendAll m rest

/-- Broadcasts data to all sessions, or to the sessions with the given ids. -/
def broadcast (msg : BroadcastMsg) : ManagerProg Unit := do
  let full : Bool ← ManagerOp.run .testQueue
  if full then return ()
  else
    let n ← countConnections
    if n = 0 then return ()
    else
      let m : Nat ← ManagerOp.run (.makePush msg)
      ManagerOp.run .countPush
      let plain : Registry ← ManagerOp.run (.copy .plain msg.ids)
      sendAll m plain
      let ssl : Registry ← ManagerOp.run (.copy .ssl msg.ids)
      sendAll m ssl
      ManagerOp.run (.dropPush m)

/-- The listener has a new socket: true if it goes on with it. -/
def onAccept (cfg : ListenerConfig) : ManagerProg Bool := do
  let reject : Bool ← ManagerOp.run .beginAccept
  if reject then
    ManagerOp.run .endAccept
    return false
  else
    let n ← countConnections
    if cfg.maxSessions.toNat ≤ n then
      ManagerOp.run .endAccept
      return false
    else if cfg.sslCtx then
      ManagerOp.run .newDetect
      ManagerOp.run .endAccept
      return true
    else
      ManagerOp.run .newSession
      ManagerOp.run .endAccept
      return true

end Manager

/-- The calls. -/
inductive ManagerCall where
  | connections
  | broadcast (msg : BroadcastMsg)
  | getSessionIds
  | onAccept
  deriving DecidableEq, Repr

/-- What they return. -/
inductive ManagerRet where
  | count (n : Nat)
  | sent
  | ids (ids : List UInt64)
  | accepted (created : Bool)
  deriving DecidableEq, Repr

def ManagerCall.body (cfg : ListenerConfig) : ManagerCall → ManagerProg ManagerRet
  | .connections => do
    let n ← Manager.countConnections
    return .count n
  | .broadcast msg => do
    Manager.broadcast msg
    return .sent
  | .getSessionIds => do
    let ids : List UInt64 ← ManagerOp.run .sessionIds
    return .ids ids
  | .onAccept => do
    let created ← Manager.onAccept cfg
    return .accepted created

/-! ## Sessions -/

/-- What happens besides the calls: the detection of a stream ends, a websocket is established, a posted `handle_send`
takes its message into the queue or drops it, a message leaves the queue, the last owner of a session lets go of it, and
the steps of its destruction. -/
inductive ManagerEnv where
  | onDetect (result : Option StreamKind) (addr : UInt64)
  | onAccept (k : Nat)
  | handleSend (k : Nat) (accept : Bool)
  | dequeue (k i : Nat)
  | expire (k : Nat)
  | removeSession (k : Nat)
  | onDisconnect (k : Nat)
  | destroyMembers (k : Nat)
  | free (k : Nat)
  deriving DecidableEq, Repr

namespace Manager

/-- The end of a detection: no session after an error, or when the server does not serve this stream. -/
def onDetect (cfg : ListenerConfig) (s : Manager) (result : Option StreamKind) (addr : UInt64) : Option Manager :=
  if s.detecting = 0 then none
  else
    let s := { s with detecting := s.detecting - 1 }
    match result with
    | some .ssl => if cfg.sslMode then s.construct .ssl addr else some s
    | some .plain => if cfg.plainMode then s.construct .plain addr else some s
    | none => some s

def advance (s : Manager) (k : Nat) (before after : ObjPhase) : Option Manager :=
  if k < s.sessionCount ∧ (s.sessions k).phase = before then some (s.modify k fun x => { x with phase := after })
  else none

def step (cfg : ListenerConfig) (s : Manager) : ManagerEnv → Option Manager
  | .onDetect result addr => s.onDetect cfg result addr
  | .onAccept k =>
    let x := s.sessions k
    if k < s.sessionCount ∧ x.phase = .alive ∧ x.established = false then
      some ((s.modify k fun x => { x with established := true }).setRegistry x.kind ((s.registry x.kind).set x.id k))
    else none
  | .handleSend k accept =>
    match (s.sessions k).posted with
    | [] => none
    | m :: rest =>
      if k < s.sessionCount ∧ (s.sessions k).phase = .alive then
        if accept then some (s.modify k fun x => { x with posted := rest, queue := x.queue ++ [m] })
        else some ((s.modify k fun x => { x with posted := rest }).release m)
      else none
  | .dequeue k i =>
    match (s.sessions k).queue[i]? with
    | none => none
    | some m =>
      if k < s.sessionCount then some ((s.modify k fun x => { x with queue := x.queue.eraseIdx i }).release m) else none
  | .expire k =>
    if (s.sessions k).posted = [] ∧ (s.sessions k).holders = [] then s.advance k .alive .dying else none
  | .removeSession k =>
    let x := s.sessions k
    (s.advance k .dying .removed).map fun s =>
      if x.established then s.setRegistry x.kind ((s.registry x.kind).remove x.id) else s
  | .onDisconnect k => s.advance k .removed .disconnected
  | .destroyMembers k =>
    if (s.sessions k).queue = [] then
      (s.advance k .disconnected .released).map fun s => { s with useCount := s.useCount - 1 }
    else none
  | .free k => s.advance k .released .freed

end Manager

/-- Calls on a manager, in any interleaving with its sessions. -/
def managerMachine (cfg : ListenerConfig) :
    Machine Manager ManagerCall ManagerOp ManagerOp.Res ManagerRet ManagerInput ManagerEnv where
  body := ManagerCall.body cfg
  exec := ManagerOp.exec
  env := fun e s => s.step cfg e

abbrev ManagerPool := Pool Manager ManagerCall ManagerOp ManagerOp.Res ManagerRet

end Radrpc
