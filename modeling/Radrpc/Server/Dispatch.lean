import Radrpc.Server.Session
import Radrpc.Lib.Pump

/-!
# Dispatch of the incoming messages

What a session is for: each message is looked at on its own, and a response is what the handler makes of the body.

* `handlerFor`, `invocations`, `responses` : that specification, as maps over the messages received;
* `closeSession_frame`, `handleSend_frame`, `callFunction_none`, `callFunction_some` : what the members of a session
  hold after each operation;
* `dispatch_refines` : along every undisturbed run the session invokes and answers as specified, in order, whatever
  the handlers leave in the members.
-/

namespace Radrpc
open Words Conc

def DataPush.wire (o : ByteOrder) (d : DataPush) : Bytes := d.header.encode o ++ d.body

/-! ## The specification -/

def handlerFor (funcs : BoundFuncs) (o : ByteOrder) (msg : Bytes) : Option BoundFunc :=
  if IoHeader.size ≤ msg.length then (funcs (IoHeader.read o msg).callId).join else none

/-- The handler invocations that a message causes: the header, and the bytes the handler sees. -/
def invocation (funcs : BoundFuncs) (o : ByteOrder) (msg : Bytes) : Option (IoHeader × Bytes) :=
  (handlerFor funcs o msg).map fun _ => (IoHeader.read o msg, msg.drop IoHeader.size)

/-- The bytes sent back for a message: its own 16 header bytes and the response, if there is one. -/
def responseTo (funcs : BoundFuncs) (o : ByteOrder) (msg : Bytes) : Option Bytes :=
  (handlerFor funcs o msg).bind fun f =>
    let response := (f (msg.drop IoHeader.size) []).response
    if response = [] then none else some (msg.take IoHeader.size ++ response)

def invocations (funcs : BoundFuncs) (o : ByteOrder) (msgs : List Bytes) : List (IoHeader × Bytes) :=
  msgs.filterMap (invocation funcs o)

def responses (funcs : BoundFuncs) (o : ByteOrder) (msgs : List Bytes) : List Bytes :=
  msgs.filterMap (responseTo funcs o)

/-! ## What the operations change -/

namespace ServerSession

theorem shutdown_frame (s : ServerSession) : ∃ close closing shutdowns,
    s.shutdown = { s with close := close, closing := closing, shutdowns := shutdowns } := by
  unfold shutdown
  dsimp only
  split
  · exact ⟨s.close, s.closing, _, rfl⟩
  · exact ⟨_, _, _, rfl⟩

theorem closeSession_frame (s : ServerSession) (now : Time) : ∃ close closing pingState expiry ready waits shutdowns,
    s.closeSession now = { s with
      close := close, closing := closing, pingState := pingState, timerExpiry := expiry, timerReady := ready
      timerWaits := waits, shutdowns := shutdowns } := by
  unfold closeSession
  split
  · exact ⟨_, _, _, _, _, _, s.shutdowns, rfl⟩
  · obtain ⟨c, k, n, he⟩ := s.shutdown_frame
    exact ⟨c, k, s.pingState, s.timerExpiry, s.timerReady, s.timerWaits, n, he⟩

theorem write_frame (s : ServerSession) : ∃ writing started,
    s.write = { s with writing := writing, started := started } := by
  unfold write
  split
  · exact ⟨s.writing, s.started, rfl⟩
  · exact ⟨_, _, rfl⟩

theorem handleSend_frame (s : ServerSession) (data : DataPush) : ∃ queue writing accepted started,
    s.handleSend data = { s with
      queue := queue, writing := writing, accepted := accepted, started := started } := by
  unfold handleSend
  split
  · exact ⟨s.queue, s.writing, s.accepted, s.started, rfl⟩
  split
  · exact ⟨s.queue, s.writing, s.accepted, s.started, rfl⟩
  dsimp only
  split
  · exact ⟨_, s.writing, _, s.started, rfl⟩
  · obtain ⟨w, st, h⟩ := write_frame { s with queue := s.queue ++ [data], accepted := s.accepted ++ [data] }
    exact ⟨_, w, _, st, h⟩

theorem onWrite_frame (s : ServerSession) (ec : Bool) (now : Time) :
    ∃ writeError queue writing started close closing pingState expiry ready waits shutdowns, s.onWrite ec now = { s with
      writeError := writeError, queue := queue, writing := writing, started := started, close := close
      closing := closing, pingState := pingState, timerExpiry := expiry, timerReady := ready, timerWaits := waits
      shutdowns := shutdowns } := by
  unfold onWrite
  split
  · obtain ⟨c, k, ps, te, tr, tw, n, he⟩ := closeSession_frame { s with writeError := true, queue := [] } now
    exact ⟨true, [], s.writing, s.started, c, k, ps, te, tr, tw, n, he⟩
  · dsimp only
    split
    · exact ⟨s.writeError, s.queue.tail, s.writing, s.started, s.close, s.closing, s.pingState, s.timerExpiry,
        s.timerReady, s.timerWaits, s.shutdowns, rfl⟩
    · obtain ⟨w, st, he⟩ := write_frame { s with queue := s.queue.tail }
      exact ⟨s.writeError, s.queue.tail, w, st, s.close, s.closing, s.pingState, s.timerExpiry, s.timerReady,
        s.timerWaits, s.shutdowns, he⟩

theorem onTimer_frame (s : ServerSession) (ec : TimerError) (now : Time) (isOpen : Bool) :
    ∃ close closing pingState pings expiry ready waits shutdowns, s.onTimer ec now isOpen = { s with
      close := close, closing := closing, pingState := pingState, pings := pings, timerExpiry := expiry
      timerReady := ready, timerWaits := waits, shutdowns := shutdowns } := by
  unfold onTimer
  split
  · exact ⟨s.close, s.closing, s.pingState, s.pings, s.timerExpiry, s.timerReady, s.timerWaits, s.shutdowns, rfl⟩
  split
  · split
    · exact ⟨s.close, s.closing, _, _, _, _, _, s.shutdowns, rfl⟩
    · obtain ⟨c, k, n, he⟩ := s.shutdown_frame
      exact ⟨c, k, s.pingState, s.pings, s.timerExpiry, s.timerReady, s.timerWaits, n, he⟩
  · exact ⟨s.close, s.closing, s.pingState, s.pings, _, _, _, s.shutdowns, rfl⟩

theorem callFunction_none {s : ServerSession} (h : handlerFor s.boundFuncs s.order s.receiveBuffer = none)
    (now : Time) : ∃ header buffer ref,
    s.callFunction now = { s with header := header, receiveBuffer := buffer, receiveBufferRef := ref } := by
  unfold callFunction
  dsimp only
  split
  · rename_i hlen
    simp only [handlerFor, if_pos hlen] at h
    split
    · rename_i hf
      simp [hf] at h
    · exact ⟨_, _, _, rfl⟩
    · exact ⟨_, _, _, rfl⟩
  · exact ⟨s.header, s.receiveBuffer, s.receiveBuffer, rfl⟩

/-- The session as its handler finds it and leaves it. -/
def called (s : ServerSession) (f : BoundFunc) : ServerSession :=
  { s with
    header := IoHeader.read s.order s.receiveBuffer
    receiveBuffer := s.receiveBuffer.drop IoHeader.size
    receiveBufferRef := s.receiveBuffer.drop IoHeader.size }.invoke f

theorem callFunction_some {s : ServerSession} {f : BoundFunc}
    (h : handlerFor s.boundFuncs s.order s.receiveBuffer = some f) (now : Time) :
    s.callFunction now =
      if (s.called f).boundClose then (s.called f).closeSession now
      else if (s.called f).response ≠ [] then
        { s.called f with response := [] }.handleSend ⟨(s.called f).header, (s.called f).response⟩
      else s.called f := by
  have hlen : IoHeader.size ≤ s.receiveBuffer.length := by
    by_contra hlen
    rw [handlerFor, if_neg hlen] at h
    cases h
  rw [handlerFor, if_pos hlen] at h
  have hf : s.boundFuncs (IoHeader.read s.order s.receiveBuffer).callId = some (some f) := Option.join_eq_some_iff.mp h
  unfold callFunction
  simp only [if_pos hlen, hf]
  rfl

/-- No error, no close request, and room in the send queue. -/
def undisturbed (s : ServerSession) : Bool :=
  !s.close && !s.closeReceived && !s.writeError && !s.readError && !s.boundClose &&
    decide (s.queue.length < queueSendMax)

theorem undisturbed_iff {s : ServerSession} : s.undisturbed = true ↔
    s.close = false ∧ s.closeReceived = false ∧ s.writeError = false ∧ s.readError = false ∧ s.boundClose = false ∧
      s.queue.length < queueSendMax := by
  simp [undisturbed, and_assoc]

theorem handleSend_accepted {s : ServerSession} (h : s.close = false ∧ s.closeReceived = false ∧
    s.writeError = false ∧ s.readError = false ∧ s.queue.length < queueSendMax) (data : DataPush) :
    (s.handleSend data).accepted = s.accepted ++ [data] := by
  obtain ⟨h1, h2, h3, h4, h5⟩ := h
  have hlen : ¬ queueSendMax ≤ s.queue.length := Nat.not_le.mpr h5
  unfold handleSend
  rw [if_neg (by simp [h1, h2, h3, h4]), if_neg hlen]
  dsimp only
  split
  · rfl
  · obtain ⟨w, st, h⟩ := write_frame { s with queue := s.queue ++ [data], accepted := s.accepted ++ [data] }
    rw [h]

end ServerSession

/-! ## One handler -/

/-- What a session has done after the messages `msgs` were received and `sends` were posted. -/
structure Dispatched (funcs : BoundFuncs) (o : ByteOrder) (msgs : List Bytes) (sends : List DataPush)
    (s : ServerSession) : Prop where
  boundFuncs : s.boundFuncs = funcs
  order : s.order = o
  invoked : s.invoked = invocations funcs o msgs
  accepted : ∃ rs bs, rs.map (DataPush.wire o) = responses funcs o msgs ∧ bs ++ s.posted = sends ∧
    Pump.Merge rs bs s.accepted

namespace Dispatched

variable {funcs : BoundFuncs} {o : ByteOrder} {msgs : List Bytes} {sends : List DataPush} {s s' : ServerSession}

theorem congr (h : Dispatched funcs o msgs sends s) (h1 : s'.boundFuncs = s.boundFuncs) (h2 : s'.order = s.order)
    (h3 : s'.invoked = s.invoked) (h4 : s'.posted = s.posted) (h5 : s'.accepted = s.accepted) :
    Dispatched funcs o msgs sends s' :=
  ⟨h1.trans h.boundFuncs, h2.trans h.order, h3.trans h.invoked, by rw [h4, h5]; exact h.accepted⟩

theorem handleSend (h : Dispatched funcs o msgs (sends) s) (hs : s.undisturbed = true) {data : DataPush}
    {rest : List DataPush} (hp : s.posted = data :: rest) :
    Dispatched funcs o msgs sends ({ s with posted := rest }.handleSend data) := by
  obtain ⟨h1, h2, h3, h4, -, h5⟩ := ServerSession.undisturbed_iff.mp hs
  have hacc := ServerSession.handleSend_accepted (s := { s with posted := rest }) ⟨h1, h2, h3, h4, h5⟩ data
  obtain ⟨_, _, _, _, he⟩ := ServerSession.handleSend_frame { s with posted := rest } data
  rw [he] at hacc ⊢
  obtain ⟨rs, bs, hrs, hbs, hm⟩ := h.accepted
  refine ⟨h.boundFuncs, h.order, h.invoked, rs, bs ++ [data], hrs, ?_, ?_⟩
  · rw [← hbs, hp, List.append_assoc, List.singleton_append]
  · dsimp only at hacc ⊢
    rw [hacc]
    exact .right data hm

theorem callFunction (h : Dispatched funcs o msgs sends s) (hs : s.undisturbed = true) (hres : s.response = [])
    (now : Time) (hclose : (s.callFunction now).boundClose = false) :
    Dispatched funcs o (msgs ++ [s.receiveBuffer]) sends (s.callFunction now) := by
  obtain ⟨h1, h2, h3, h4, hbc, h5⟩ := ServerSession.undisturbed_iff.mp hs
  obtain ⟨rs, bs, hrs, hbs, hm⟩ := h.accepted
  cases hf : handlerFor funcs o s.receiveBuffer with
  | none =>
    obtain ⟨_, _, _, he⟩ := ServerSession.callFunction_none (s := s) (by rw [h.boundFuncs, h.order, hf]) now
    have hi : invocations funcs o (msgs ++ [s.receiveBuffer]) = invocations funcs o msgs := by
      simp [invocations, invocation, hf]
    have hr : responses funcs o (msgs ++ [s.receiveBuffer]) = responses funcs o msgs := by
      simp [responses, responseTo, hf]
    rw [he]
    exact ⟨h.boundFuncs, h.order, hi ▸ h.invoked, rs, bs, hr ▸ hrs, hbs, hm⟩
  | some f =>
    have he := ServerSession.callFunction_some (s := s) (f := f) (by rw [h.boundFuncs, h.order, hf]) now
    have hi : (s.called f).invoked = invocations funcs o (msgs ++ [s.receiveBuffer]) := by
      simp [invocations, invocation, hf, ServerSession.called, ServerSession.invoke, h.invoked, h.order]
    have hb : (s.called f).boundClose = false := by
      by_contra hb
      rw [Bool.not_eq_false] at hb
      obtain ⟨_, _, _, _, _, _, _, hc⟩ := (s.called f).closeSession_frame now
      rw [he, if_pos hb, hc] at hclose
      exact Bool.noConfusion (hb.symm.trans hclose)
    have hresp : (s.called f).response = (f (s.receiveBuffer.drop IoHeader.size) []).response := by
      simp [ServerSession.called, ServerSession.invoke, hres]
    rw [he, if_neg (by simp [hb])]
    by_cases hempty : (f (s.receiveBuffer.drop IoHeader.size) []).response = []
    · have hr : responses funcs o (msgs ++ [s.receiveBuffer]) = responses funcs o msgs := by
        simp [responses, responseTo, hf, hempty]
      rw [if_neg (by simp [hresp, hempty])]
      exact ⟨h.boundFuncs, h.order, hi, rs, bs, hr ▸ hrs, hbs, hm⟩
    · have hr : responses funcs o (msgs ++ [s.receiveBuffer]) = responses funcs o msgs ++
          [s.receiveBuffer.take IoHeader.size ++ (f (s.receiveBuffer.drop IoHeader.size) []).response] := by
        simp [responses, responseTo, hf, hempty]
      have hlen : IoHeader.size ≤ s.receiveBuffer.length := by
        by_contra hlen
        simp [handlerFor, hlen] at hf
      rw [if_pos (by simp [hresp, hempty])]
      have hacc := ServerSession.handleSend_accepted (s := { s.called f with response := [] }) ⟨h1, h2, h3, h4, h5⟩
        ⟨(s.called f).header, (s.called f).response⟩
      obtain ⟨_, _, _, _, hsend⟩ := ServerSession.handleSend_frame { s.called f with response := [] }
        ⟨(s.called f).header, (s.called f).response⟩
      rw [hsend] at hacc ⊢
      refine ⟨h.boundFuncs, h.order, hi, rs ++ [⟨(s.called f).header, (s.called f).response⟩], bs, ?_, hbs, ?_⟩
      · rw [List.map_append, hrs, hr, List.map_singleton, hresp]
        simp only [DataPush.wire, ServerSession.called, ServerSession.invoke, h.order]
        rw [IoHeader.encode_read o hlen]
      · dsimp only at hacc ⊢
        rw [hacc]
        exact .left _ hm

end Dispatched

/-! ## Runs -/

def ServerEvent.received : ServerEvent → List Bytes
  | .onRead _ bytes _ => [bytes]
  | _ => []

def ServerEvent.sent : ServerEvent → List DataPush
  | .send data => [data]
  | _ => []

/-- Between two handlers of an undisturbed session. -/
structure Idle (funcs : BoundFuncs) (o : ByteOrder) (msgs : List Bytes) (sends : List DataPush)
    (s : ServerSession) : Prop extends Dispatched funcs o msgs sends s where
  receiveBuffer : s.receiveBuffer = []
  response : s.response = []
  undisturbed : s.undisturbed = true

theorem Idle.established (funcs : BoundFuncs) (o : ByteOrder) (pingDelay now : Time) :
    Idle funcs o [] [] (.established funcs o pingDelay now) := by
  unfold ServerSession.established
  dsimp only
  split
  · exact ⟨⟨rfl, rfl, rfl, [], [], rfl, rfl, .nil⟩, rfl, rfl, rfl⟩
  · exact ⟨⟨rfl, rfl, rfl, [], [], rfl, rfl, .nil⟩, rfl, rfl, rfl⟩

theorem Idle.onRead {funcs : BoundFuncs} {o : ByteOrder} {msgs : List Bytes} {sends : List DataPush}
    {s : ServerSession} (h : Idle funcs o msgs sends s) (ec : Bool) (bytes : Bytes) (now : Time)
    (hs' : ({ s with reading := false, receiveBuffer := s.receiveBuffer ++ bytes }.onRead ec now).undisturbed = true) :
    Idle funcs o (msgs ++ [bytes]) sends
      ({ s with reading := false, receiveBuffer := s.receiveBuffer ++ bytes }.onRead ec now) := by
  obtain ⟨s₁, hs₁⟩ : ∃ s₁, s₁ = { s with reading := false, receiveBuffer := s.receiveBuffer ++ bytes } := ⟨_, rfl⟩
  rw [← hs₁] at hs' ⊢
  have h₁ : Dispatched funcs o msgs sends s₁ := by
    rw [hs₁]
    exact h.toDispatched.congr rfl rfl rfl rfl rfl
  have hbuf : s₁.receiveBuffer = bytes := by rw [hs₁, h.receiveBuffer, List.nil_append]
  have hres : s₁.response = [] := by rw [hs₁, h.response]
  have hu : s₁.undisturbed = true := by rw [hs₁]; exact h.undisturbed
  obtain ⟨h1, h2, h3, h4, -, -⟩ := ServerSession.undisturbed_iff.mp hu
  have hec : ec = false := by
    cases ec with
    | false => rfl
    | true =>
      obtain ⟨_, _, _, _, _, _, _, he⟩ := ServerSession.closeSession_frame { s₁ with readError := true } now
      simp [ServerSession.onRead, he, ServerSession.undisturbed] at hs'
  have he : s₁.onRead ec now = { s₁.callFunction now with receiveBuffer := [], response := [], reading := true } := by
    simp [ServerSession.onRead, hec, h1, h2, h3]
  rw [he] at hs' ⊢
  have hclose : (s₁.callFunction now).boundClose = false := (ServerSession.undisturbed_iff.mp hs').2.2.2.2.1
  have hd := h₁.callFunction hu hres now hclose
  rw [hbuf] at hd
  exact ⟨hd.congr rfl rfl rfl rfl rfl, rfl, rfl, hs'⟩

theorem Idle.step {funcs : BoundFuncs} {o : ByteOrder} {msgs : List Bytes} {sends : List DataPush}
    {s s' : ServerSession} (h : Idle funcs o msgs sends s) {e : ServerEvent} (he : s.step e = some s')
    (hs' : s'.undisturbed = true) : Idle funcs o (msgs ++ e.received) (sends ++ e.sent) s' := by
  cases e with
  | send data =>
    obtain rfl := Option.some.inj he
    obtain ⟨rs, bs, hrs, hbs, hm⟩ := h.accepted
    refine ⟨⟨h.boundFuncs, h.order, ?_, rs, bs, ?_, ?_, hm⟩, h.receiveBuffer, h.response, hs'⟩
    · simpa [ServerEvent.received] using h.invoked
    · simpa [ServerEvent.received] using hrs
    · simp [ServerEvent.sent, ← hbs]
  | onRead ec bytes now =>
    simp only [ServerSession.step] at he
    split at he
    · obtain rfl := Option.some.inj he
      have hd := h.onRead ec bytes now hs'
      rwa [← List.append_nil sends] at hd
    · cases he
  | handleSend =>
    simp only [ServerEvent.received, ServerEvent.sent, List.append_nil]
    simp only [ServerSession.step] at he
    split at he
    · cases he
    · rename_i data rest hp
      obtain rfl := Option.some.inj he
      have hd := h.toDispatched.handleSend h.undisturbed hp
      obtain ⟨_, _, _, _, hf⟩ := ServerSession.handleSend_frame { s with posted := rest } data
      rw [hf] at hd hs' ⊢
      exact ⟨hd, h.receiveBuffer, h.response, hs'⟩
  | onWrite i ec now =>
    simp only [ServerEvent.received, ServerEvent.sent, List.append_nil]
    simp only [ServerSession.step] at he
    split at he
    · obtain rfl := Option.some.inj he
      obtain ⟨_, _, _, _, _, _, _, _, _, _, _, hf⟩ :=
        ServerSession.onWrite_frame { s with writing := s.writing.eraseIdx i } ec now
      rw [hf] at hs' ⊢
      exact ⟨h.toDispatched.congr rfl rfl rfl rfl rfl, h.receiveBuffer, h.response, hs'⟩
    · cases he
  | timerExpires now =>
    simp only [ServerEvent.received, ServerEvent.sent, List.append_nil]
    simp only [ServerSession.step] at he
    split at he
    · obtain rfl := Option.some.inj he
      exact ⟨h.toDispatched.congr rfl rfl rfl rfl rfl, h.receiveBuffer, h.response, hs'⟩
    · cases he
  | onTimer now isOpen =>
    simp only [ServerEvent.received, ServerEvent.sent, List.append_nil]
    simp only [ServerSession.step] at he
    split at he
    · cases he
    · rename_i ec rest _
      obtain rfl := Option.some.inj he
      obtain ⟨_, _, _, _, _, _, _, _, hf⟩ := ServerSession.onTimer_frame { s with timerReady := rest } ec now isOpen
      rw [hf] at hs' ⊢
      exact ⟨h.toDispatched.congr rfl rfl rfl rfl rfl, h.receiveBuffer, h.response, hs'⟩
  | control kind now =>
    simp only [ServerEvent.received, ServerEvent.sent, List.append_nil]
    simp only [ServerSession.step, ServerSession.onControlCallback] at he
    split at he
    · obtain rfl := Option.some.inj he
      exact ⟨h.toDispatched.congr rfl rfl rfl rfl rfl, h.receiveBuffer, h.response, hs'⟩
    · obtain rfl := Option.some.inj he
      exact ⟨h.toDispatched.congr rfl rfl rfl rfl rfl, h.receiveBuffer, h.response, hs'⟩
  | onPing | onShutdown =>
    simp only [ServerEvent.received, ServerEvent.sent, List.append_nil]
    simp only [ServerSession.step] at he
    split at he
    · obtain rfl := Option.some.inj he
      exact ⟨h.toDispatched.congr rfl rfl rfl rfl rfl, h.receiveBuffer, h.response, hs'⟩
    · cases he

/-- The steps of an undisturbed run: none leaves an error, a close request or a full queue. -/
def quiet (p : Pool ServerSession Empty Empty (fun _ => Unit) Empty) (a : Act Empty Unit ServerEvent) : Bool :=
  (serverMachine.step p a).any fun p' => p'.shared.undisturbed

/-- The messages received, and the messages posted, along a list of steps. -/
def receivedIn (as : List (Act Empty Unit ServerEvent)) : List Bytes :=
  as.flatMap fun | .env e => e.received | _ => []

def sentIn (as : List (Act Empty Unit ServerEvent)) : List DataPush :=
  as.flatMap fun | .env e => e.sent | _ => []

theorem Idle.run {funcs : BoundFuncs} {o : ByteOrder} {as : List (Act Empty Unit ServerEvent)} {msgs : List Bytes}
    {sends : List DataPush} {p q : Pool ServerSession Empty Empty (fun _ => Unit) Empty}
    (h : Idle funcs o msgs sends p.shared) (hrun : serverMachine.run quiet p as = some q) :
    Idle funcs o (msgs ++ receivedIn as) (sends ++ sentIn as) q.shared := by
  induction as generalizing p msgs sends with
  | nil =>
    obtain rfl : p = q := by simpa [Machine.run] using hrun
    simpa [receivedIn, sentIn] using h
  | cons a as ih =>
    simp only [Machine.run] at hrun
    split at hrun
    · rename_i hq
      obtain ⟨p', hstep, hrest⟩ := Option.bind_eq_some_iff.mp hrun
      simp only [quiet, hstep, Option.any_some] at hq
      cases a with
      | call t c => exact c.elim
      | op t i =>
        obtain ⟨c, -⟩ := Machine.step_op hstep
        exact c.elim
      | env e =>
        obtain ⟨s, he, rfl⟩ := Machine.step_env hstep
        have hidle : Idle funcs o (msgs ++ e.received) (sends ++ e.sent) s := h.step he hq
        have hd := ih hidle hrest
        simpa [receivedIn, sentIn, List.append_assoc] using hd
    · cases hrun

/-- **Dispatch is a map over the messages.** Along every run without errors, close requests and full queues: the
handler invocations are those specified for the messages received, and the messages accepted for sending are the
responses specified for them, in order, between the messages that were posted. -/
theorem dispatch_refines {funcs : BoundFuncs} {o : ByteOrder} {pingDelay now : Time}
    {as : List (Act Empty Unit ServerEvent)} {p : Pool ServerSession Empty Empty (fun _ => Unit) Empty}
    (h : serverMachine.run quiet (.initial (.established funcs o pingDelay now)) as = some p) :
    p.shared.invoked = invocations funcs o (receivedIn as) ∧
    ∃ rs bs, rs.map (DataPush.wire o) = responses funcs o (receivedIn as) ∧
      bs ++ p.shared.posted = sentIn as ∧ Pump.Merge rs bs p.shared.accepted := by
  have hd := (Idle.established funcs o pingDelay now).run h
  exact ⟨hd.invoked, hd.accepted⟩

/-- A short message, one for an unbound id, and two requests to a handler that appends to what it finds in the
response and clears the buffer; the first answer has been written. -/
def twoRequests : List (Act Empty Unit ServerEvent) :=
  [.env (.onRead false [1, 2, 3] 0), .env (.onRead false ((IoHeader.new 9 5).encode .little ++ [7]) 0),
    .env (.onRead false ((IoHeader.new 1 6).encode .little ++ [8]) 0), .env (.onWrite 0 false 0),
    .env (.onRead false ((IoHeader.new 1 7).encode .little ++ [9]) 0)]

def appending : BoundFuncs
  | 1 => some (some fun data response => { response := response ++ data ++ [42], clearBuffer := true })
  | _ => none

theorem dispatch_refines_twoRequests : ∃ p,
    serverMachine.run quiet (.initial (.established appending .little 0 0)) twoRequests = some p ∧
    p.shared.invoked = [(IoHeader.new 1 6, [8]), (IoHeader.new 1 7, [9])] ∧
    p.shared.accepted.map (DataPush.wire .little) = responses appending .little (receivedIn twoRequests) := by
  have hrun : (serverMachine.run quiet (.initial (.established appending .little 0 0)) twoRequests).isSome = true := by
    decide +kernel
  obtain ⟨p, hp⟩ := Option.isSome_iff_exists.mp hrun
  obtain ⟨hi, rs, bs, hrs, hbs, hm⟩ := dispatch_refines hp
  have hinv : invocations appending .little (receivedIn twoRequests) =
      [(IoHeader.new 1 6, [8]), (IoHeader.new 1 7, [9])] := by decide +kernel
  exact ⟨p, hp, hi.trans hinv, by rw [← hrs, hm.eq_left (List.append_eq_nil_iff.mp hbs).1]⟩

end Radrpc
