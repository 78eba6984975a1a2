import Radrpc.Server.Manager

/-!
# The accept loop

The listener keeps one `async_accept` outstanding: the last statement of `on_accept` starts the next one. What runs
between may throw. `on_accept` asks for the remote endpoint with an error code, and only for `on_listen`; the
constructor of `session_accept` asks for it again, and throws when the peer has gone.

* `Handler` : a completion handler, which may end with an exception;
* `Listener.handleAccept`, `newSession`, `onAccept`, `onDetect` : the handlers;
* `Listener.runHandler` : what a worker does with a handler: an exception leaves `io_context::run()`;
* `listenerMachine` : the completions, in any order;
* `PeerStays` : the constructor of a session gets the remote endpoint;
* `accept_loop_survives` : the runs in which peers stay are the runs in which no exception escapes and every `on_accept`
  leaves one `async_accept` outstanding;
* `accept_loop_dies` : a peer that has gone before its session is made.
-/

namespace Radrpc
open Conc

/-- Error codes, and what a throwing function throws. -/
inductive SystemError where
  | operationAborted
  | notConnected
  | other (code : Nat)
  deriving DecidableEq, Repr

/-- The listener: its acceptor, the operations that have been started and not completed, the sockets it has closed, the
sessions that have been made, with the kind of their stream and their remote host, and the exceptions that have left
`io_context::run()`. -/
structure Listener where
  acceptorOpen : Bool
  accepts : Nat := 0
  detects : Nat := 0
  rejected : Nat := 0
  sessions : List (StreamKind × String) := []
  escaped : List SystemError := []
  deriving DecidableEq, Repr

abbrev Handler := ExceptT SystemError (StateM Listener)

/-- What the completion of an `async_accept` brings: its error code, and around the socket the bound `on_listen`, the
number of connections, and the answers of `remote_endpoint(ec)` and of the later `remote_endpoint()`, which are missing
when the peer has gone. -/
structure Accepted where
  ec : Option SystemError := none
  onListen : Option (String → Bool) := none
  connections : Nat := 0
  endpointEc : Option String
  endpoint : Option String

/-- `remote_endpoint(ec).address().to_string()` : the address of an empty endpoint, and an error code, after a failure. -/
def remoteEndpointEc : Option String → String × Option SystemError
  | some host => (host, none)
  | none => ("0.0.0.0", some .notConnected)

/-- `remote_endpoint().address().to_string()` : a failure throws. -/
def remoteEndpoint : Option String → Handler String
  | some host => return host
  | none => throw .notConnected

/-- What `on_listen` says about a socket: whether it refuses, and the error code of the question for its endpoint. -/
def Accepted.listen (a : Accepted) : Bool × Option SystemError :=
  match a.onListen with
  | some allows =>
    let (host, ec) := remoteEndpointEc a.endpointEc
    (!allows host, ec)
  | none => (false, none)

def Accepted.rejects (cfg : ListenerConfig) (a : Accepted) : Bool :=
  a.listen.1 || a.listen.2.isSome || decide (cfg.maxSessions.toNat ≤ a.connections)

namespace Listener

def handleAccept : Handler Unit := do
  if (← get).acceptorOpen then modify fun l => { l with accepts := l.accepts + 1 }

def newSession (kind : StreamKind) (endpoint : Option String) : Handler Unit := do
  let host ← remoteEndpoint endpoint
  modify fun l => { l with sessions := l.sessions ++ [(kind, host)] }

def onAccept (cfg : ListenerConfig) (a : Accepted) : Handler Unit := do
  if a.ec = some .operationAborted then return
  if a.ec.isNone then
    if a.rejects cfg then modify fun l => { l with rejected := l.rejected + 1 }
    else if cfg.sslCtx then modify fun l => { l with detects := l.detects + 1 }
    else newSession .plain a.endpoint
  handleAccept

/-- The completion of a detection: its error code, and whether the client uses ssl. -/
def onDetect (cfg : ListenerConfig) (ec : Bool) (result : Option Bool) (endpoint : Option String) : Handler Unit := do
  if ec then return
  if result = some true && cfg.sslMode then newSession .ssl endpoint
  else if result = some false && cfg.plainMode then newSession .plain endpoint

/-- A worker runs a handler. Its thread has nothing that catches an exception. -/
def runHandler (l : Listener) (h : Handler Unit) : Listener :=
  match h.run l with
  | (.ok _, l) => l
  | (.error e, l) => { l with escaped := l.escaped ++ [e] }

/-- `run()` : the listener when the server has been constructed. -/
def started (acceptorOpen : Bool) : Listener := runHandler { acceptorOpen } handleAccept

end Listener

/-- The completions of the listener's operations. -/
inductive ListenerEvent where
  | onAccept (a : Accepted)
  | onDetect (ec : Bool) (result : Option Bool) (endpoint : Option String)

def Listener.step (cfg : ListenerConfig) (l : Listener) : ListenerEvent → Option Listener
  | .onAccept a => if 0 < l.accepts then some ({ l with accepts := l.accepts - 1 }.runHandler (onAccept cfg a)) else none
  | .onDetect ec result endpoint =>
    if 0 < l.detects then some ({ l with detects := l.detects - 1 }.runHandler (onDetect cfg ec result endpoint))
    else none

def listenerMachine (cfg : ListenerConfig) :
    Machine Listener Empty Empty (fun _ => Unit) Unit Unit ListenerEvent where
  body := Empty.elim
  exec := fun _ o => o.elim
  env := fun e l => l.step cfg e

abbrev ListenerPool := Pool Listener Empty Empty (fun _ => Unit) Unit

/-! ## Sessions that are made -/

def Accepted.serves (cfg : ListenerConfig) (a : Accepted) : Bool := a.ec.isNone && !a.rejects cfg && !cfg.sslCtx

/-- A session is made from the socket after its detection. -/
def ListenerConfig.detected (cfg : ListenerConfig) (ec : Bool) (result : Option Bool) : Bool :=
  !ec && (result = some true && cfg.sslMode || result = some false && cfg.plainMode)

/-- Whenever a session is made, its constructor gets the remote endpoint. -/
def PeerStays (cfg : ListenerConfig) (_ : ListenerPool) : Act Empty Unit ListenerEvent → Prop
  | .env (.onAccept a) => a.serves cfg = true → a.endpoint.isSome = true
  | .env (.onDetect ec result endpoint) => cfg.detected ec result = true → endpoint.isSome = true
  | _ => True

/-- No exception escapes, and after an `on_accept` that was not aborted one `async_accept` is outstanding while the
acceptor is open. -/
def Survives (cfg : ListenerConfig) (p : ListenerPool) : Act Empty Unit ListenerEvent → Prop
  | .env e => ∀ l, p.shared.step cfg e = some l → l.escaped = p.shared.escaped ∧
      ∀ a, e = .onAccept a → a.ec ≠ some .operationAborted → l.acceptorOpen = true → l.accepts = 1
  | _ => True

/-! ## What the handlers do -/

namespace Listener

def rearmed (l : Listener) : Listener := if l.acceptorOpen then { l with accepts := l.accepts + 1 } else l

@[simp] theorem rearmed_escaped (l : Listener) : l.rearmed.escaped = l.escaped := by
  unfold rearmed
  split <;> rfl

@[simp] theorem rearmed_acceptorOpen (l : Listener) : l.rearmed.acceptorOpen = l.acceptorOpen := by
  unfold rearmed
  split <;> rfl

theorem rearmed_accepts {l : Listener} (h : l.acceptorOpen = true) : l.rearmed.accepts = l.accepts + 1 := by
  rw [rearmed, if_pos h]

theorem handleAccept_run (l : Listener) : handleAccept l = (.ok (), l.rearmed) := by
  obtain ⟨acceptorOpen, accepts, detects, rejected, sessions, escaped⟩ := l
  cases acceptorOpen <;> rfl

theorem newSession_run (kind : StreamKind) (host : String) (l : Listener) :
    newSession kind (some host) l = (.ok (), { l with sessions := l.sessions ++ [(kind, host)] }) := rfl

theorem newSession_throws (kind : StreamKind) (l : Listener) : newSession kind none l = (.error .notConnected, l) := rfl

/-- What a completed `async_accept` does to the listener. -/
inductive AcceptStep (cfg : ListenerConfig) (a : Accepted) (l : Listener) : Listener → Prop where
  | aborted : a.ec = some .operationAborted → AcceptStep cfg a l l
  | goesOn (l' : Listener) : a.ec ≠ some .operationAborted → l'.escaped = l.escaped →
      l'.acceptorOpen = l.acceptorOpen → l'.accepts = l.accepts →
      (a.serves cfg = true → a.endpoint.isSome = true) → AcceptStep cfg a l l'.rearmed
  | throws : a.ec ≠ some .operationAborted → a.serves cfg = true → a.endpoint = none →
      AcceptStep cfg a l { l with escaped := l.escaped ++ [.notConnected] }

theorem runHandler_onAccept (cfg : ListenerConfig) (a : Accepted) (l : Listener) :
    AcceptStep cfg a l (l.runHandler (onAccept cfg a)) := by
  have hrearm : ∀ l : Listener, l.runHandler handleAccept = l.rearmed := by
    intro l
    rw [runHandler, ExceptT.run, handleAccept_run]
  by_cases hab : a.ec = some .operationAborted
  · have hrun : l.runHandler (onAccept cfg a) = l := by
      rw [onAccept, if_pos hab]
      rfl
    rw [hrun]
    exact .aborted hab
  · by_cases hec : a.ec.isNone = true
    · by_cases hr : a.rejects cfg = true
      · have hrun : l.runHandler (onAccept cfg a) = { l with rejected := l.rejected + 1 }.rearmed := by
          rw [onAccept, if_neg hab, if_pos hec, if_pos hr]
          exact hrearm _
        rw [hrun]
        refine .goesOn _ hab rfl rfl rfl fun hs => ?_
        simp [Accepted.serves, hr] at hs
      · by_cases hssl : cfg.sslCtx = true
        · have hrun : l.runHandler (onAccept cfg a) = { l with detects := l.detects + 1 }.rearmed := by
            rw [onAccept, if_neg hab, if_pos hec, if_neg hr, if_pos hssl]
            exact hrearm _
          rw [hrun]
          refine .goesOn _ hab rfl rfl rfl fun hs => ?_
          simp [Accepted.serves, hssl] at hs
        · have hs : a.serves cfg = true := by simp [Accepted.serves, hec, hr, hssl]
          cases he : a.endpoint with
          | some host =>
            have hrun : l.runHandler (onAccept cfg a) =
                { l with sessions := l.sessions ++ [(StreamKind.plain, host)] }.rearmed := by
              rw [onAccept, if_neg hab, if_pos hec, if_neg hr, if_neg hssl, he]
              exact hrearm _
            rw [hrun]
            exact .goesOn _ hab rfl rfl rfl fun _ => by rw [he]; rfl
          | none =>
            have hrun : l.runHandler (onAccept cfg a) = { l with escaped := l.escaped ++ [.notConnected] } := by
              rw [onAccept, if_neg hab, if_pos hec, if_neg hr, if_neg hssl, he]
              rfl
            rw [hrun]
            exact .throws hab hs he
    · have hrun : l.runHandler (onAccept cfg a) = l.rearmed := by
        rw [onAccept, if_neg hab, if_neg hec]
        exact hrearm _
      rw [hrun]
      refine .goesOn _ hab rfl rfl rfl fun hs => ?_
      simp [Accepted.serves, hec] at hs

/-- What a completed detection does to the listener. -/
inductive DetectStep (cfg : ListenerConfig) (ec : Bool) (result : Option Bool) (endpoint : Option String)
    (l : Listener) : Listener → Prop where
  | goesOn (l' : Listener) : l'.escaped = l.escaped → l'.accepts = l.accepts →
      (cfg.detected ec result = true → endpoint.isSome = true) → DetectStep cfg ec result endpoint l l'
  | throws : cfg.detected ec result = true → endpoint = none →
      DetectStep cfg ec result endpoint l { l with escaped := l.escaped ++ [.notConnected] }

theorem runHandler_newSession (kind : StreamKind) {cfg : ListenerConfig} {ec : Bool} {result : Option Bool}
    (endpoint : Option String) (l : Listener) (hd : cfg.detected ec result = true) :
    DetectStep cfg ec result endpoint l (l.runHandler (newSession kind endpoint)) := by
  cases endpoint with
  | some host =>
    rw [runHandler, ExceptT.run, newSession_run]
    exact .goesOn _ rfl rfl fun _ => rfl
  | none =>
    rw [runHandler, ExceptT.run, newSession_throws]
    exact .throws hd rfl

theorem runHandler_onDetect (cfg : ListenerConfig) (ec : Bool) (result : Option Bool) (endpoint : Option String)
    (l : Listener) : DetectStep cfg ec result endpoint l (l.runHandler (onDetect cfg ec result endpoint)) := by
  cases ec with
  | true => exact .goesOn l rfl rfl fun hd => by simp [ListenerConfig.detected] at hd
  | false =>
    by_cases hssl : (result = some true && cfg.sslMode) = true
    · rw [onDetect, if_neg Bool.false_ne_true, if_pos hssl]
      exact runHandler_newSession .ssl endpoint l (by simpa [ListenerConfig.detected] using .inl (by simpa using hssl))
    · by_cases hplain : (result = some false && cfg.plainMode) = true
      · rw [onDetect, if_neg Bool.false_ne_true, if_neg hssl, if_pos hplain]
        exact runHandler_newSession .plain endpoint l
          (by simpa [ListenerConfig.detected] using .inr (by simpa using hplain))
      · rw [onDetect, if_neg Bool.false_ne_true, if_neg hssl, if_neg hplain]
        refine .goesOn l rfl rfl fun hd => ?_
        simp only [ListenerConfig.detected, Bool.not_false, Bool.true_and, Bool.or_eq_true] at hd
        exact absurd hd (not_or.mpr ⟨hssl, hplain⟩)

end Listener

/-! ## Runs -/

theorem Listener.step_onAccept {cfg : ListenerConfig} {l l' : Listener} {a : Accepted}
    (h : l.step cfg (.onAccept a) = some l') :
    0 < l.accepts ∧ Listener.AcceptStep cfg a { l with accepts := l.accepts - 1 } l' := by
  simp only [Listener.step] at h
  split at h
  · rename_i hpos
    cases h
    exact ⟨hpos, Listener.runHandler_onAccept cfg a _⟩
  · cases h

theorem Listener.step_onDetect {cfg : ListenerConfig} {l l' : Listener} {ec : Bool} {result : Option Bool}
    {endpoint : Option String} (h : l.step cfg (.onDetect ec result endpoint) = some l') :
    Listener.DetectStep cfg ec result endpoint { l with detects := l.detects - 1 } l' := by
  simp only [Listener.step] at h
  split at h
  · cases h
    exact Listener.runHandler_onDetect cfg ec result endpoint _
  · cases h

theorem Listener.accepts_le {cfg : ListenerConfig} {l l' : Listener} {e : ListenerEvent} (hl : l.accepts ≤ 1)
    (h : l.step cfg e = some l') : l'.accepts ≤ 1 := by
  cases e with
  | onAccept a =>
    obtain ⟨hpos, hstep⟩ := Listener.step_onAccept h
    cases hstep with
    | aborted _ =>
      show l.accepts - 1 ≤ 1
      omega
    | goesOn l₁ _ _ _ hacc _ =>
      unfold rearmed
      split
      · show l₁.accepts + 1 ≤ 1
        change l₁.accepts = l.accepts - 1 at hacc
        omega
      · rw [hacc]
        show l.accepts - 1 ≤ 1
        omega
    | throws _ _ _ =>
      show l.accepts - 1 ≤ 1
      omega
  | onDetect ec result endpoint =>
    cases Listener.step_onDetect h with
    | goesOn l₁ _ hacc _ => exact hacc.le.trans hl
    | throws _ _ => exact hl

theorem survives_iff {cfg : ListenerConfig} {p p' : ListenerPool} {a : Act Empty Unit ListenerEvent}
    (hone : p.shared.accepts ≤ 1) (hs : (listenerMachine cfg).step p a = some p') :
    PeerStays cfg p a ↔ Survives cfg p a := by
  cases a with
  | call t c => exact Iff.rfl
  | op t i => exact Iff.rfl
  | env e =>
    obtain ⟨l', hstep, rfl⟩ := Machine.step_env hs
    cases e with
    | onAccept a =>
      constructor
      · intro hstay l hl
        obtain ⟨hpos, hcase⟩ := Listener.step_onAccept hl
        cases hcase with
        | aborted hab => exact ⟨rfl, fun a' he hne => by cases he; exact absurd hab hne⟩
        | goesOn l₁ hab hesc hopen hacc _ =>
          refine ⟨by rw [Listener.rearmed_escaped, hesc], fun a' _ _ ho => ?_⟩
          rw [Listener.rearmed_acceptorOpen] at ho
          rw [Listener.rearmed_accepts ho, hacc]
          show p.shared.accepts - 1 + 1 = 1
          omega
        | throws hab hserves hnone =>
          have := hstay hserves
          rw [hnone] at this
          cases this
      · intro hsurv hserves
        obtain ⟨hpos, hcase⟩ := Listener.step_onAccept hstep
        have hesc := (hsurv l' hstep).1
        cases hcase with
        | aborted hab => simp [Accepted.serves, hab] at hserves
        | goesOn l₁ _ _ _ _ hpeer => exact hpeer hserves
        | throws _ _ _ => simp at hesc
    | onDetect ec result endpoint =>
      constructor
      · intro hstay l hl
        refine ⟨?_, fun a' he => by cases he⟩
        cases Listener.step_onDetect hl with
        | goesOn l₁ hesc _ _ => exact hesc
        | throws hd hnone =>
          have := hstay hd
          rw [hnone] at this
          cases this
      · intro hsurv hd
        have hesc := (hsurv l' hstep).1
        cases Listener.step_onDetect hstep with
        | goesOn l₁ _ _ hpeer => exact hpeer hd
        | throws _ _ => simp at hesc

/-- **The accept loop survives while the peers stay.** From the start of the listener, the runs in which every
constructor of a session gets the remote endpoint are the runs in which no exception escapes and every `on_accept` that
was not aborted leaves one `async_accept` outstanding. -/
theorem accept_loop_survives (cfg : ListenerConfig) (acceptorOpen : Bool) (q : ListenerPool)
    (as : List (Act Empty Unit ListenerEvent)) :
    (listenerMachine cfg).Steps (PeerStays cfg) (.initial (.started acceptorOpen)) as q ↔
      (listenerMachine cfg).Steps (Survives cfg) (.initial (.started acceptorOpen)) as q := by
  have hstart : (Pool.initial (.started acceptorOpen) : ListenerPool).shared.accepts ≤ 1 := by
    cases acceptorOpen <;> decide
  have hkeeps : ∀ (p : ListenerPool) a p', p.shared.accepts ≤ 1 → (listenerMachine cfg).step p a = some p' →
      p'.shared.accepts ≤ 1 := fun p a p' hp hs =>
    Machine.step_shared (I := fun l => l.accepts ≤ 1) (fun _ o => o.elim) (fun _ _ _ hl h => Listener.accepts_le hl h) hp hs
  constructor
  · exact fun h => h.mono_of_keeps (fun p a p' hp _ hs => hkeeps p a p' hp hs)
      (fun _ _ _ hp hs => (survives_iff hp hs).mp) hstart
  · exact fun h => h.mono_of_keeps (fun p a p' hp _ hs => hkeeps p a p' hp hs)
      (fun _ _ _ hp hs => (survives_iff hp hs).mpr) hstart

/-- A server for plain streams, and one for ssl streams, both without `on_listen`. -/
def plainAcceptor : ListenerConfig := { maxSessions := 8, sslCtx := false, plainMode := true, sslMode := false }

def sslAcceptor : ListenerConfig := { maxSessions := 8, sslCtx := true, plainMode := false, sslMode := true }

def resetPeer : Accepted := { endpointEc := none, endpoint := none }

/-- The exception escapes from `on_accept`, and no `async_accept` is outstanding any more; with ssl it escapes from
`on_detect`. -/
theorem accept_loop_dies :
    (Listener.started true).step plainAcceptor (.onAccept resetPeer) =
        some { acceptorOpen := true, accepts := 0, escaped := [.notConnected] } ∧
      (((Listener.started true).step sslAcceptor (.onAccept resetPeer)).bind fun l =>
          l.step sslAcceptor (.onDetect false (some true) none)) =
        some { acceptorOpen := true, accepts := 1, escaped := [.notConnected] } := by
  decide

end Radrpc
