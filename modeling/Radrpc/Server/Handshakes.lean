import Radrpc.Server.Answers
import Radrpc.Server.Registry

/-!
# From the handshake to `on_disconnect`

A session goes through an ssl handshake, the http request, `on_accept` and the websocket handshake, each of which can be
its last. It is owned by the operation that is outstanding; when there is none the object is destroyed, at any stage:
`~session_accept` asks whether it was established, `~server_session` calls `on_disconnect` without asking.

* `HandshakeStage`, `Handshakes` : the sessions of a server with their handshakes, their contexts and the calls of
  bound handlers and of `on_disconnect`;
* `Handshakes.onSslHandshake`, `onReadHandshake`, `onAccept` : the handlers, as the source has them;
* `Handshakes.step_objects` : every step is a step of the session objects, or none;
* `Paired` : `on_disconnect` is called once for each destroyed session that was established, for no other one, and after
  its bound handlers;
* `disconnects_paired` : the runs that destroy established sessions only are the runs that keep the calls paired;
* `disconnect_rejected` : `on_disconnect` is called for a session that `on_accept` has rejected.
-/

namespace Radrpc
open Words Conc

/-- The operation of its handshake that a session waits for. -/
inductive HandshakeStage where
  | ssl
  | http
  | websocket
  | done
  deriving DecidableEq, Repr

/-- A call of a handler of the user: of a bound function by a session, or of `on_disconnect` for it. -/
inductive HandlerCall where
  | bound (k : Nat) (header : IoHeader) (bytes : Bytes)
  | disconnect (k : Nat)
  deriving DecidableEq, Repr

/-- What the handlers of the server are: the bound functions, and whether `on_disconnect` is bound. -/
structure HandlerConfig where
  boundFuncs : BoundFuncs
  order : ByteOrder
  onDisconnect : Bool

/-- The sessions of a server: the objects and the lists of the manager, the stages of the handshakes, the contexts of the
established ones, the other owners of a session, and a history of the calls of handlers. -/
structure Handshakes where
  objects : Objects
  stage : Nat → HandshakeStage
  context : Nat → ServerSession
  holders : Nat → Nat
  calls : List HandlerCall

/-- An operation of an established session is outstanding, or one of its handlers is posted. -/
def ServerSession.outstanding (x : ServerSession) : Bool :=
  x.reading || decide (x.writing ≠ []) || decide (0 < x.timerWaits) || decide (x.timerReady ≠ []) || decide (0 < x.pings) ||
    decide (0 < x.closing) || decide (x.posted ≠ [])

/-- The operations are destroyed, and none of their handlers runs. -/
def ServerSession.abandoned (x : ServerSession) : ServerSession :=
  { x with reading := false, writing := [], timerWaits := 0, timerReady := [], pings := 0, closing := 0, posted := [] }

namespace Handshakes

def none (cfg : HandlerConfig) : Handshakes where
  objects := Manager.new.objects
  stage := fun _ => .done
  context := fun _ => { boundFuncs := cfg.boundFuncs, order := cfg.order, pingDelay := 0, reading := false }
  holders := fun _ => 0
  calls := []

def setStage (s : Handshakes) (k : Nat) (stage : HandshakeStage) : Handshakes :=
  { s with stage := Function.update s.stage k stage }

/-! ## Handlers -/

def onSslHandshake (s : Handshakes) (k : Nat) (ec : Bool) : Handshakes := if ec then s else s.setStage k .http

/-- Start to accept the connection: there is no ssl handshake on a plain stream. -/
def accept (s : Handshakes) (kind : StreamKind) (k : Nat) : Handshakes :=
  match kind with
  | .plain => s.onSslHandshake k false
  | .ssl => s.setStage k .ssl

/-- The request has been read: `size` is what is left in the handshake buffer, `allows` what `on_accept` answers when it
is bound. -/
def onReadHandshake (s : Handshakes) (k : Nat) (ec : Bool) (size : Nat) (allows : Option Bool) : Handshakes :=
  if ec || decide (size ≠ 0) then s
  else if allows = some false then s
  else s.setStage k .websocket

/-- The websocket has been accepted: the session is established, and on the list of the manager. -/
def onAccept (cfg : HandlerConfig) (s : Handshakes) (k : Nat) (ec : Bool) (pingDelay now : Time) : Option Handshakes :=
  if ec then some s
  else (s.objects.step (.establish k)).map fun o => { s with
    objects := o
    context := Function.update s.context k (.established cfg.boundFuncs cfg.order pingDelay now) }

def runSession (s : Handshakes) (k : Nat) (e : ServerEvent) : Option Handshakes :=
  ((s.context k).step e).map fun x => { s with
    context := Function.update s.context k x
    calls := s.calls ++ (x.invoked.drop (s.context k).invoked.length).map fun c => .bound k c.1 c.2 }

def owned (s : Handshakes) (k : Nat) : Bool :=
  decide (s.stage k ≠ .done) || decide (0 < s.holders k) ||
    ((s.objects.object k).established && (s.context k).outstanding)

end Handshakes

/-- What can happen to the sessions: one is constructed; an operation of a handshake completes; a handler of an
established session runs; a broadcast owns a session for a while; the io context is destroyed with the operations of a
session; the last owner lets go, and the session is destroyed. -/
inductive HandshakeEvent where
  | born (kind : StreamKind) (addr : UInt64)
  | onSslHandshake (k : Nat) (ec : Bool)
  | onReadHandshake (k : Nat) (ec : Bool) (size : Nat) (allows : Option Bool)
  | onAccept (k : Nat) (ec : Bool) (pingDelay now : Time)
  | session (k : Nat) (e : ServerEvent)
  | hold (k : Nat)
  | letGo (k : Nat)
  | abandon (k : Nat)
  | expire (k : Nat)
  | remove (k : Nat)
  | disconnect (k : Nat)
  | release (k : Nat)
  | free (k : Nat)

/-- One step. An operation is outstanding no more when its handler runs. -/
def Handshakes.step (cfg : HandlerConfig) (s : Handshakes) : HandshakeEvent → Option Handshakes
  | .born kind addr => (s.objects.step (.born kind addr)).map fun o => { s with objects := o }.accept kind s.objects.count
  | .onSslHandshake k ec => if s.stage k = .ssl then some ((s.setStage k .done).onSslHandshake k ec) else .none
  | .onReadHandshake k ec size allows =>
    if s.stage k = .http then some ((s.setStage k .done).onReadHandshake k ec size allows) else .none
  | .onAccept k ec pingDelay now =>
    if s.stage k = .websocket then (s.setStage k .done).onAccept cfg k ec pingDelay now else .none
  | .session k e =>
    if (s.objects.object k).phase = .alive ∧ (s.objects.object k).established = true then s.runSession k e else .none
  | .hold k =>
    if (s.objects.object k).phase = .alive ∧ (s.objects.object k).established = true then
      some { s with holders := Function.update s.holders k (s.holders k + 1) }
    else .none
  | .letGo k => if 0 < s.holders k then some { s with holders := Function.update s.holders k (s.holders k - 1) } else .none
  | .abandon k => some { s.setStage k .done with context := Function.update s.context k (s.context k).abandoned }
  | .expire k => if s.owned k then .none else (s.objects.step (.expire k)).map fun o => { s with objects := o }
  | .remove k => (s.objects.step (.remove k)).map fun o => { s with objects := o }
  | .disconnect k => (s.objects.step (.disconnect k)).map fun o => { s with
      objects := o, calls := s.calls ++ if cfg.onDisconnect then [.disconnect k] else [] }
  | .release k => (s.objects.step (.release k)).map fun o => { s with objects := o }
  | .free k => (s.objects.step (.free k)).map fun o => { s with objects := o }

def handshakeMachine (cfg : HandlerConfig) : Machine Handshakes Empty Empty (fun _ => Unit) Empty Unit HandshakeEvent where
  body := fun c => nomatch c
  exec := fun _ o => nomatch o
  env := fun e s => s.step cfg e

abbrev HandshakePool := Pool Handshakes Empty Empty (fun _ => Unit) Empty

def ObjPhase.notified : ObjPhase → Bool
  | .disconnected | .released | .freed => true
  | _ => false

/-- `on_disconnect` has been called once for every destroyed session that was established, for no other session, and
after all calls of bound handlers by this session. -/
structure Paired (cfg : HandlerConfig) (s : Handshakes) : Prop where
  once : ∀ k, s.calls.count (.disconnect k) =
    if cfg.onDisconnect && (s.objects.object k).established && (s.objects.object k).phase.notified then 1 else 0
  after : s.calls.Pairwise fun c c' => ∀ k header bytes, c = .disconnect k → c' ≠ .bound k header bytes

def KeepsPaired (cfg : HandlerConfig) (p : HandshakePool) (a : Act Empty Unit HandshakeEvent) : Prop :=
  ∀ p', (handshakeMachine cfg).step p a = some p' → Paired cfg p'.shared

/-- A session that is destroyed has been established, if `on_disconnect` is bound. -/
def OnlyEstablished (cfg : HandlerConfig) (p : HandshakePool) : Act Empty Unit HandshakeEvent → Prop
  | .env (.disconnect k) => cfg.onDisconnect = true → (p.shared.objects.object k).established = true
  | _ => True

/-! ## What a step does -/

theorem ServerSession.invoked_of_step {x x' : ServerSession} {e : ServerEvent} (hs : x.step e = some x') :
    ∃ cs, x'.invoked = x.invoked ++ cs := by
  by_cases he : ∃ ec bytes now, e = .onRead ec bytes now
  · obtain ⟨ec, bytes, now, rfl⟩ := he
    simp only [step] at hs
    split at hs
    · cases hs
      unfold onRead
      split
      · obtain ⟨_, _, _, _, _, _, _, he⟩ := closeSession_frame { x with
          reading := false, receiveBuffer := x.receiveBuffer ++ bytes, readError := true } now
        exact ⟨[], by rw [he, List.append_nil]⟩
      · dsimp only
        split
        · cases hh : handlerFor x.boundFuncs x.order (x.receiveBuffer ++ bytes) with
          | none => exact ⟨[], by rw [(callFunction_unbound hh now).1, List.append_nil]⟩
          | some f => exact ⟨_, (callFunction_bound hh now).1⟩
        · exact ⟨[], by rw [List.append_nil]⟩
    · cases hs
  · have he' : ∀ ec bytes now, e ≠ .onRead ec bytes now := fun ec bytes now h => he ⟨ec, bytes, now, h⟩
    obtain ⟨-, -, -, -, -, hi, -⟩ := step_other he' hs
    exact ⟨[], by rw [hi, List.append_nil]⟩

namespace Handshakes

variable {cfg : HandlerConfig} {s s' : Handshakes}

theorem onSslHandshake_frame (s : Handshakes) (k : Nat) (ec : Bool) : ∃ stage,
    s.onSslHandshake k ec = { s with stage := stage } := by
  unfold onSslHandshake
  split
  · exact ⟨s.stage, rfl⟩
  · exact ⟨_, rfl⟩

theorem accept_frame (s : Handshakes) (kind : StreamKind) (k : Nat) : ∃ stage,
    s.accept kind k = { s with stage := stage } := by
  cases kind with
  | plain => exact s.onSslHandshake_frame k false
  | ssl => exact ⟨_, rfl⟩

theorem onReadHandshake_frame (s : Handshakes) (k : Nat) (ec : Bool) (size : Nat) (allows : Option Bool) : ∃ stage,
    s.onReadHandshake k ec size allows = { s with stage := stage } := by
  unfold onReadHandshake
  split
  · exact ⟨s.stage, rfl⟩
  · split
    · exact ⟨s.stage, rfl⟩
    · exact ⟨_, rfl⟩

/-- What a step does to the objects, to the calls and to the histories of the sessions: nothing; or one step of the
objects other than `~server_session`, where an established session starts with an empty history; or a handler of a living
session calls bound functions; or `~server_session` calls `on_disconnect`. -/
inductive Effect (cfg : HandlerConfig) (s : Handshakes) : HandshakeEvent → Handshakes → Prop where
  | quiet {e : HandshakeEvent} {s' : Handshakes} : s'.objects = s.objects → s'.calls = s.calls →
      (∀ k, e ≠ .disconnect k) → (∀ k, (s'.context k).invoked = (s.context k).invoked) → Effect cfg s e s'
  | moves {e : HandshakeEvent} {s' : Handshakes} (ev : ObjectEvent) : s.objects.step ev = some s'.objects →
      (∀ k, ev ≠ .disconnect k) → s'.calls = s.calls → (∀ k, e ≠ .disconnect k) →
      (∀ k, (s'.context k).invoked = (s.context k).invoked ∨ ((s'.context k).invoked = [] ∧ ev = .establish k)) →
      Effect cfg s e s'
  | calls {s' : Handshakes} (k : Nat) (e : ServerEvent) (cs : List (IoHeader × Bytes)) : s'.objects = s.objects →
      (s.objects.object k).phase = .alive → (s.objects.object k).established = true →
      s'.calls = s.calls ++ cs.map (fun c => .bound k c.1 c.2) → (s'.context k).invoked = (s.context k).invoked ++ cs →
      (∀ j, j ≠ k → s'.context j = s.context j) → Effect cfg s (.session k e) s'
  | disconnects {s' : Handshakes} (k : Nat) : s.objects.step (.disconnect k) = some s'.objects →
      s'.calls = s.calls ++ (if cfg.onDisconnect then [.disconnect k] else []) → s'.context = s.context →
      Effect cfg s (.disconnect k) s'

theorem Effect.of_objects {e : HandshakeEvent} (ev : ObjectEvent) {o : Objects} (ho : s.objects.step ev = some o)
    (hev : ∀ k, ev ≠ .disconnect k) (he : ∀ k, e ≠ .disconnect k) : Effect cfg s e { s with objects := o } :=
  .moves ev ho hev rfl he fun _ => .inl rfl

theorem effect_of_step {e : HandshakeEvent} (hs : s.step cfg e = some s') : Effect cfg s e s' := by
  cases e with
  | born kind addr =>
    obtain ⟨o, ho, rfl⟩ := Option.map_eq_some_iff.mp hs
    obtain ⟨_, he⟩ := accept_frame { s with objects := o } kind s.objects.count
    rw [he]
    exact .moves _ ho (fun _ h => by cases h) rfl (fun _ h => by cases h) fun _ => .inl rfl
  | onSslHandshake k ec =>
    simp only [step] at hs
    split at hs
    · cases hs
      obtain ⟨_, he⟩ := (s.setStage k .done).onSslHandshake_frame k ec
      rw [he]
      exact .quiet rfl rfl (fun _ h => by cases h) fun _ => rfl
    · cases hs
  | onReadHandshake k ec size allows =>
    simp only [step] at hs
    split at hs
    · cases hs
      obtain ⟨_, he⟩ := (s.setStage k .done).onReadHandshake_frame k ec size allows
      rw [he]
      exact .quiet rfl rfl (fun _ h => by cases h) fun _ => rfl
    · cases hs
  | onAccept k ec pingDelay now =>
    simp only [step] at hs
    split at hs
    · unfold onAccept at hs
      split at hs
      · cases hs
        exact .quiet rfl rfl (fun _ h => by cases h) fun _ => rfl
      · obtain ⟨o, ho, rfl⟩ := Option.map_eq_some_iff.mp hs
        refine .moves _ ho (fun _ h => by cases h) rfl (fun _ h => by cases h) fun j => ?_
        by_cases hj : j = k
        · subst hj
          refine .inr ⟨?_, rfl⟩
          dsimp only
          rw [Function.update_self]
          unfold ServerSession.established
          dsimp only
          split <;> rfl
        · left
          dsimp only
          rw [Function.update_of_ne hj]
          rfl
    · cases hs
  | session k e =>
    simp only [step] at hs
    split at hs
    · rename_i halive
      obtain ⟨x, hx, rfl⟩ := Option.map_eq_some_iff.mp hs
      obtain ⟨cs, hcs⟩ := ServerSession.invoked_of_step hx
      refine .calls k e cs rfl halive.1 halive.2 ?_ ?_ fun j hj => ?_
      · rw [hcs, List.drop_left]
      · dsimp only
        rw [Function.update_self, hcs]
      · exact Function.update_of_ne hj ..
    · cases hs
  | hold k =>
    simp only [step] at hs
    split at hs
    · cases hs
      exact .quiet rfl rfl (fun _ h => by cases h) fun _ => rfl
    · cases hs
  | letGo k =>
    simp only [step] at hs
    split at hs
    · cases hs
      exact .quiet rfl rfl (fun _ h => by cases h) fun _ => rfl
    · cases hs
  | abandon k =>
    cases hs
    refine .quiet rfl rfl (fun _ h => by cases h) fun j => ?_
    by_cases hj : j = k
    · subst hj
      dsimp only
      rw [Function.update_self]
      rfl
    · dsimp only
      rw [Function.update_of_ne hj]
  | expire k =>
    simp only [step] at hs
    split at hs
    · cases hs
    · obtain ⟨o, ho, rfl⟩ := Option.map_eq_some_iff.mp hs
      exact .of_objects _ ho (fun _ h => by cases h) fun _ h => by cases h
  | remove k =>
    obtain ⟨o, ho, rfl⟩ := Option.map_eq_some_iff.mp hs
    exact .of_objects _ ho (fun _ h => by cases h) fun _ h => by cases h
  | disconnect k =>
    obtain ⟨o, ho, rfl⟩ := Option.map_eq_some_iff.mp hs
    exact .disconnects k ho rfl rfl
  | release k =>
    obtain ⟨o, ho, rfl⟩ := Option.map_eq_some_iff.mp hs
    exact .of_objects _ ho (fun _ h => by cases h) fun _ h => by cases h
  | free k =>
    obtain ⟨o, ho, rfl⟩ := Option.map_eq_some_iff.mp hs
    exact .of_objects _ ho (fun _ h => by cases h) fun _ h => by cases h

theorem step_objects {e : HandshakeEvent} (hs : s.step cfg e = some s') :
    s'.objects = s.objects ∨ ∃ ev, s.objects.step ev = some s'.objects := by
  cases effect_of_step hs with
  | quiet ho => exact .inl ho
  | moves ev ho => exact .inr ⟨ev, ho⟩
  | calls k e cs ho => exact .inl ho
  | disconnects k ho => exact .inr ⟨_, ho⟩

end Handshakes

/-! ## Destroyed sessions -/

theorem Objects.notified_advance {o o' : Objects} {k : Nat} {before after : ObjPhase}
    (h : o.advance k before after = some o') (hn : after.notified = before.notified) (j : Nat) :
    (o'.object j).phase.notified = (o.object j).phase.notified ∧ (o'.object j).established = (o.object j).established := by
  obtain ⟨-, hb, rfl⟩ := Objects.advance_eq_some h
  by_cases hj : j = k
  · rw [hj, Objects.put_self, hb]
    exact ⟨hn, rfl⟩
  · rw [Objects.put_of_ne o _ hj]
    exact ⟨rfl, rfl⟩

/-- No step but `~server_session` destroys a session, and a destroyed one is not established any more. -/
theorem Objects.notified_step {o o' : Objects} {ev : ObjectEvent} (ht : Tidy o) (h : o.step ev = some o')
    (hev : ∀ k, ev ≠ .disconnect k) (j : Nat) :
    (o'.object j).phase.notified = (o.object j).phase.notified ∧
      ((o'.object j).phase.notified = true → (o'.object j).established = (o.object j).established) := by
  cases ev with
  | born kind addr =>
    have hb := Objects.born_eq_some h
    by_cases hj : j = o.count
    · rw [hj, hb.new, ht.unborn o.count le_rfl]
      exact ⟨rfl, fun hn => by cases hn⟩
    · rw [hb.old j hj]
      exact ⟨rfl, fun _ => rfl⟩
  | establish k =>
    obtain ⟨-, halive, -, rfl⟩ := Objects.establish_eq_some h
    rw [Objects.setRegistry_object]
    by_cases hj : j = k
    · rw [hj, Objects.put_self]
      refine ⟨rfl, fun hn => ?_⟩
      change (o.object k).phase.notified = true at hn
      rw [halive] at hn
      cases hn
    · rw [Objects.put_of_ne o _ hj]
      exact ⟨rfl, fun _ => rfl⟩
  | remove k =>
    obtain ⟨o₁, hadv, rfl⟩ := Objects.remove_eq_some h
    have hn := Objects.notified_advance hadv rfl j
    split
    · rw [Objects.setRegistry_object]
      exact ⟨hn.1, fun _ => hn.2⟩
    · exact ⟨hn.1, fun _ => hn.2⟩
  | expire k => exact (Objects.notified_advance h rfl j).imp_right fun he _ => he
  | disconnect k => exact absurd rfl (hev k)
  | release k => exact (Objects.notified_advance h rfl j).imp_right fun he _ => he
  | free k => exact (Objects.notified_advance h rfl j).imp_right fun he _ => he

theorem Objects.notified_disconnect {o o' : Objects} {k : Nat} (h : o.step (.disconnect k) = some o') (j : Nat) :
    (o'.object j).phase.notified = ((o.object j).phase.notified || decide (j = k)) ∧
      (o'.object j).established = (o.object j).established ∧ (o.object k).phase.notified = false := by
  obtain ⟨-, hb, rfl⟩ := Objects.advance_eq_some h
  have hk : (o.object k).phase.notified = false := by
    rw [hb]
    rfl
  by_cases hj : j = k
  · rw [hj, Objects.put_self]
    refine ⟨?_, rfl, hk⟩
    simp [ObjPhase.notified]
  · rw [Objects.put_of_ne o _ hj]
    exact ⟨by simp [hj], rfl, hk⟩

/-! ## Runs -/

/-- `on_disconnect` has been called once for every destroyed session, after its bound handlers. -/
structure Notified (cfg : HandlerConfig) (s : Handshakes) : Prop where
  tidy : Tidy s.objects
  once : ∀ k, s.calls.count (.disconnect k) =
    if cfg.onDisconnect && (s.objects.object k).phase.notified then 1 else 0
  after : s.calls.Pairwise fun c c' => ∀ k header bytes, c = .disconnect k → c' ≠ .bound k header bytes

namespace Notified

variable {cfg : HandlerConfig} {s s' : Handshakes}

theorem none (cfg : HandlerConfig) : Notified cfg (.none cfg) :=
  ⟨Tidy.start, fun k => by simp [Handshakes.none, Manager.new, Manager.objects, ManagedSession.object, ObjPhase.notified],
    .nil⟩

theorem not_mem (h : Notified cfg s) {k : Nat} (hk : (s.objects.object k).phase.notified = false) :
    .disconnect k ∉ s.calls := by
  intro hmem
  have hpos := List.count_pos_iff.mpr hmem
  rw [h.once k, hk, Bool.and_false] at hpos
  exact absurd hpos (by decide)

theorem step (h : Notified cfg s) {e : HandshakeEvent} (hs : s.step cfg e = some s') : Notified cfg s' := by
  cases Handshakes.effect_of_step hs with
  | quiet ho hc => exact ⟨ho ▸ h.tidy, fun k => by rw [hc, ho, h.once k], hc ▸ h.after⟩
  | moves ev ho hev hc =>
    refine ⟨Objects.step_tidy h.tidy ho, fun k => ?_, hc ▸ h.after⟩
    rw [hc, h.once k, (Objects.notified_step h.tidy ho hev k).1]
  | calls k e cs ho halive _ hc =>
    have hk : (s.objects.object k).phase.notified = false := by
      rw [halive]
      rfl
    refine ⟨ho ▸ h.tidy, fun j => ?_, ?_⟩
    · have hnone : (cs.map fun c => HandlerCall.bound k c.1 c.2).count (.disconnect j) = 0 := by
        apply List.count_eq_zero.mpr
        intro hmem
        obtain ⟨c, -, hc⟩ := List.mem_map.mp hmem
        cases hc
      rw [hc, List.count_append, hnone, ho, h.once j]
      rfl
    · rw [hc]
      refine List.pairwise_append.mpr ⟨h.after, ?_, fun c hcmem c' hc'mem j header bytes hcj hcb => ?_⟩
      · refine List.pairwise_map.mpr (List.pairwise_of_forall fun _ _ _ _ _ hcj => ?_)
        cases hcj
      · -- the session that calls its handler is alive
        obtain ⟨d, -, rfl⟩ := List.mem_map.mp hc'mem
        cases hcb
        exact h.not_mem hk (hcj ▸ hcmem)
  | disconnects k ho hc =>
    refine ⟨Objects.step_tidy h.tidy ho, fun j => ?_, ?_⟩
    · obtain ⟨hn, -, hk⟩ := Objects.notified_disconnect ho j
      rw [hc, List.count_append, hn, h.once j]
      cases hb : cfg.onDisconnect with
      | false => simp
      | true =>
        by_cases hj : j = k
        · subst hj
          simp [hk]
        · have hne : k ≠ j := fun he => hj he.symm
          simp [hj, hne]
    · rw [hc]
      refine List.pairwise_append.mpr ⟨h.after, ?_, fun c _ c' hc'mem j header bytes _ hcb => ?_⟩
      · split
        · exact List.pairwise_singleton _ _
        · exact .nil
      · split at hc'mem
        · rw [List.mem_singleton.mp hc'mem] at hcb
          cases hcb
        · cases hc'mem

theorem paired_iff (h : Notified cfg s) : Paired cfg s ↔
    ∀ k, cfg.onDisconnect = true → (s.objects.object k).phase.notified = true →
      (s.objects.object k).established = true := by
  constructor
  · intro hp k hb hn
    have hcount := hp.once k
    rw [h.once k, hb, hn] at hcount
    by_contra he
    simp [Bool.eq_false_iff.mpr he] at hcount
  · intro hall
    refine ⟨fun k => ?_, h.after⟩
    rw [h.once k]
    cases hb : cfg.onDisconnect with
    | false => rfl
    | true =>
      cases hn : (s.objects.object k).phase.notified with
      | false => simp
      | true => simp [hall k hb hn]

theorem paired_step (h : Notified cfg s) (hp : Paired cfg s) {e : HandshakeEvent} (hs : s.step cfg e = some s')
    (he : ∀ k, e = .disconnect k → cfg.onDisconnect = true → (s.objects.object k).established = true) :
    Paired cfg s' := by
  have hest := h.paired_iff.mp hp
  apply (h.step hs).paired_iff.mpr
  intro j hb hn
  cases Handshakes.effect_of_step hs with
  | quiet ho =>
    rw [ho] at hn ⊢
    exact hest j hb hn
  | moves ev ho hev =>
    obtain ⟨hsame, hkept⟩ := Objects.notified_step h.tidy ho hev j
    rw [hkept hn]
    exact hest j hb (hsame ▸ hn)
  | calls k e cs ho =>
    rw [ho] at hn ⊢
    exact hest j hb hn
  | disconnects k ho =>
    obtain ⟨hsame, hkept, -⟩ := Objects.notified_disconnect ho j
    rw [hkept]
    rw [hsame, Bool.or_eq_true, decide_eq_true_eq] at hn
    rcases hn with hn | rfl
    · exact hest j hb hn
    · exact he j rfl hb

end Notified

/-- What a bound function was called with by the session `k`. -/
def HandlerCall.madeBy (k : Nat) : HandlerCall → Option (IoHeader × Bytes)
  | .bound j header bytes => if j = k then some (header, bytes) else none
  | .disconnect _ => none

/-- The calls of bound functions are those of the sessions, and a session that is not established has called none. -/
structure Recorded (s : Handshakes) : Prop where
  bound : ∀ k, s.calls.filterMap (HandlerCall.madeBy k) = (s.context k).invoked
  fresh : ∀ k, (k < s.objects.count → (s.objects.object k).established = false) → (s.context k).invoked = []

namespace Recorded

variable {cfg : HandlerConfig} {s s' : Handshakes}

theorem none (cfg : HandlerConfig) : Recorded (.none cfg) := ⟨fun _ => rfl, fun _ _ => rfl⟩

theorem fresh_of_grows {o o' : Objects} (hg : Objects.Grows o o') {k : Nat}
    (h : k < o'.count → (o'.object k).established = false) : k < o.count → (o.object k).established = false := by
  intro hk
  by_contra he
  have := hg.established k hk (by simpa using he)
  rw [h (hk.trans_le hg.count)] at this
  cases this

theorem step (h : Recorded s) (ht : Tidy s.objects) {e : HandshakeEvent} (hs : s.step cfg e = some s') :
    Recorded s' := by
  cases Handshakes.effect_of_step hs with
  | quiet ho hc _ hi => exact ⟨fun k => by rw [hc, hi, h.bound k], fun k hk => by rw [hi, h.fresh k (ho ▸ hk)]⟩
  | moves ev ho _ hc _ hi =>
    have hg := Objects.step_grows ho
    refine ⟨fun j => ?_, fun j hj => ?_⟩
    · rw [hc, h.bound j]
      rcases hi j with hsame | ⟨hnil, rfl⟩
      · exact hsame.symm
      · obtain ⟨-, -, hest, -⟩ := Objects.establish_eq_some ho
        rw [hnil, h.fresh j fun _ => hest]
    · rcases hi j with hsame | ⟨hnil, -⟩
      · rw [hsame, h.fresh j (fresh_of_grows hg hj)]
      · exact hnil
  | calls k e cs ho halive hest hc hi hother =>
    refine ⟨fun j => ?_, fun j hj => ?_⟩
    · rw [hc, List.filterMap_append, h.bound j, List.filterMap_map]
      by_cases hj : j = k
      · subst hj
        have hall : (HandlerCall.madeBy j ∘ fun c : IoHeader × Bytes => .bound j c.1 c.2) = some := by
          funext c
          simp [HandlerCall.madeBy]
        rw [hall, List.filterMap_some, hi]
      · have hnone : (HandlerCall.madeBy j ∘ fun c : IoHeader × Bytes => .bound k c.1 c.2) = fun _ => Option.none := by
          funext c
          simp [HandlerCall.madeBy, Ne.symm hj]
        rw [hnone, hother j hj]
        simp
    · rw [ho] at hj
      have hjk : j ≠ k := by
        rintro rfl
        rw [hj (ht.lt_of_alive halive)] at hest
        cases hest
      rw [hother j hjk]
      exact h.fresh j hj
  | disconnects k ho hc hctx =>
    refine ⟨fun j => ?_, fun j hj => ?_⟩
    · rw [hc, List.filterMap_append, h.bound j, hctx]
      split <;> simp [HandlerCall.madeBy]
    · rw [hctx]
      exact h.fresh j (fresh_of_grows (Objects.step_grows ho) hj)

end Recorded

/-- In every run the calls of bound functions are those that the sessions have in their histories. -/
theorem calls_recorded {cfg : HandlerConfig} {G : HandshakePool → Act Empty Unit HandshakeEvent → Prop}
    {p : HandshakePool} (hp : (handshakeMachine cfg).Reach G (.none cfg) p) (k : Nat) :
    p.shared.calls.filterMap (HandlerCall.madeBy k) = (p.shared.context k).invoked := by
  have key : Notified cfg p.shared ∧ Recorded p.shared :=
    Machine.invariant (I := fun s => Notified cfg s ∧ Recorded s) ⟨.none cfg, .none cfg⟩ (fun _ o => o.elim)
      (fun _ _ _ h hs => ⟨h.1.step hs, h.2.step h.1.tidy hs⟩) hp
  exact key.2.bound k

/-- From paired calls, a step that destroys no session but an established one keeps the calls paired. -/
theorem keepsPaired_of_established {cfg : HandlerConfig} {p : HandshakePool} {a : Act Empty Unit HandshakeEvent}
    (hn : Notified cfg p.shared) (hp : Paired cfg p.shared) (ha : OnlyEstablished cfg p a) : KeepsPaired cfg p a := by
  intro p' hs
  cases a with
  | call t c => exact c.elim
  | op t i =>
    obtain ⟨c, -⟩ := Machine.step_op hs
    exact c.elim
  | env e =>
    obtain ⟨s, hstep, rfl⟩ := Machine.step_env hs
    apply hn.paired_step hp hstep
    intro k hk
    subst hk
    exact ha

theorem established_of_keepsPaired {cfg : HandlerConfig} {p p' : HandshakePool} {a : Act Empty Unit HandshakeEvent}
    (hn : Notified cfg p.shared) (hs : (handshakeMachine cfg).step p a = some p') (hk : KeepsPaired cfg p a) :
    OnlyEstablished cfg p a := by
  have hp' := hk p' hs
  unfold OnlyEstablished
  split
  · rename_i k
    intro hb
    obtain ⟨s, hstep, rfl⟩ := Machine.step_env hs
    have hdis : p.shared.step cfg (.disconnect k) = some s := hstep
    obtain ⟨o, ho, he⟩ := Option.map_eq_some_iff.mp hdis
    obtain ⟨hgone, hkept, -⟩ := Objects.notified_disconnect ho k
    have hobj : s.objects = o := by rw [← he]
    rw [← hkept, ← hobj]
    apply (hn.step hdis).paired_iff.mp hp' k hb
    simp [hobj, hgone]
  · trivial

/-- **`on_disconnect` is paired with established sessions as long as only these are destroyed.** From the start of a
server, the runs in which every session that is destroyed has been established are the runs in which `on_disconnect` is
called once for every destroyed session that was established, after its bound handlers, and for no other session. -/
theorem disconnects_paired (cfg : HandlerConfig) (q : HandshakePool) (as : List (Act Empty Unit HandshakeEvent)) :
    (handshakeMachine cfg).Steps (OnlyEstablished cfg) (.initial (.none cfg)) as q ↔
      (handshakeMachine cfg).Steps (KeepsPaired cfg) (.initial (.none cfg)) as q := by
  have hstart : Notified cfg (Pool.initial (.none cfg) : HandshakePool).shared := .none cfg
  have hstep : ∀ (p : HandshakePool) a p', Notified cfg p.shared → (handshakeMachine cfg).step p a = some p' →
      Notified cfg p'.shared := fun p a p' hp hs =>
    Machine.step_shared (I := Notified cfg) (fun _ o => o.elim) (fun _ _ _ hp hs => hp.step hs) hp hs
  constructor
  · intro h
    refine h.mono_of_keeps (P := fun p => Notified cfg p.shared ∧ Paired cfg p.shared) ?_ ?_ ⟨hstart, ?_⟩
    · rintro p a p' ⟨hn, hp⟩ ha hs
      exact ⟨hstep p a p' hn hs, keepsPaired_of_established hn hp ha p' hs⟩
    · rintro p a p' ⟨hn, hp⟩ - ha
      exact keepsPaired_of_established hn hp ha
    · exact hstart.paired_iff.mpr fun k _ hgone => by cases hgone
  · intro h
    exact h.mono_of_keeps (P := fun p => Notified cfg p.shared) (fun p a p' hn _ hs => hstep p a p' hn hs)
      (fun p a p' hn hs hk => established_of_keepsPaired hn hs hk) hstart

/-- A server with a bound `on_disconnect` and no bound functions. -/
def notifyingConfig : HandlerConfig := { boundFuncs := fun _ => none, order := .little, onDisconnect := true }

/-- `on_accept` rejects the first session, and the session is destroyed. -/
def rejectedRun : List (Act Empty Unit HandshakeEvent) :=
  [.env (.born .plain 100), .env (.onReadHandshake 0 false 0 (some false)), .env (.expire 0), .env (.remove 0),
    .env (.disconnect 0)]

/-- `on_disconnect` is called for the session that `on_accept` has rejected. -/
theorem disconnect_rejected : ∃ p : HandshakePool,
    (handshakeMachine notifyingConfig).Reach Machine.Free (.none notifyingConfig) p ∧
      p.shared.calls = [.disconnect 0] ∧ (p.shared.objects.object 0).established = false ∧
      ¬ Paired notifyingConfig p.shared := by
  have hrun : ((handshakeMachine notifyingConfig).run (fun _ _ => true) (.initial (.none notifyingConfig))
      rejectedRun).any (fun p => decide (p.shared.calls = [.disconnect 0]) &&
        decide ((p.shared.objects.object 0).established = false)) = true := by
    decide +kernel
  obtain ⟨p, hp, hf⟩ := Machine.Reach.exists_of_run (fun _ _ _ => trivial) rejectedRun hrun
  simp only [Bool.and_eq_true, decide_eq_true_eq] at hf
  refine ⟨p, hp, hf.1, hf.2, fun hpaired => ?_⟩
  have honce := hpaired.once 0
  rw [hf.1, hf.2] at honce
  simp at honce

end Radrpc
