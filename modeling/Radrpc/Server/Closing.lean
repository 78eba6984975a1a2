import Radrpc.Server.Dispatch

/-!
# Closing a server session

With keep-alive pings a session is not closed by `close_session` itself: it sets the ping state to `ping_close` and
moves the deadline of the timer to now, and the next `on_timer` is to call `shutdown`.

* `ServerSession.closesOn` : the steps in which `close_session` is called;
* `ServerSession.step_keepAlive` : what a step does to the ping state and to the timer;
* `Watched`, `watchMachine` : a session next to a steady clock, with the history of the close request;
* `close_request_kept` : while no ping or pong frame arrives, a close request stays, and `on_timer` calls `shutdown`;
* `close_request_undone` : a pong takes the request back;
* `no_handler_after_close` : no handler is invoked after one has called `close()`, as long as no message is read before
  the timer has run;
* `handler_after_close` : what happens otherwise.
-/

namespace Radrpc
open Words Conc

def ServerEvent.time : ServerEvent → Option Time
  | .onWrite _ _ now => some now
  | .onRead _ _ now => some now
  | .timerExpires now => some now
  | .onTimer now _ => some now
  | .control _ now => some now
  | _ => none

namespace ServerSession

/-- Dispatching the message in the receive buffer ends in a close request. -/
def requests (s : ServerSession) : Bool :=
  match handlerFor s.boundFuncs s.order s.receiveBuffer with
  | none => false
  | some f => (s.called f).boundClose

/-- The step calls `close_session` : after a failed write or read, or for a handler that asked for it. -/
def closesOn (s : ServerSession) : ServerEvent → Bool
  | .onWrite _ ec _ => ec || s.close || s.closeReceived || s.readError
  | .onRead ec bytes _ =>
    if ec || s.closeReceived then true
    else !s.close && !s.writeError && requests { s with receiveBuffer := s.receiveBuffer ++ bytes }
  | _ => false

/-! ## The keep-alive -/

/-- The ping state and the timer are as they were. -/
structure SameTimer (s s' : ServerSession) : Prop where
  pingDelay : s'.pingDelay = s.pingDelay
  pingState : s'.pingState = s.pingState
  timerExpiry : s'.timerExpiry = s.timerExpiry
  timerWaits : s'.timerWaits = s.timerWaits
  timerReady : s'.timerReady = s.timerReady
  pings : s'.pings = s.pings

theorem SameTimer.refl (s : ServerSession) : SameTimer s s := ⟨rfl, rfl, rfl, rfl, rfl, rfl⟩

/-- A close request at `now` is in the ping state and in the timer. -/
structure AsksToClose (s s' : ServerSession) (now : Time) : Prop where
  pingDelay : s'.pingDelay = s.pingDelay
  pingState : s'.pingState = .pingClose
  timerExpiry : s'.timerExpiry = now
  timerWaits : s'.timerWaits = 0
  timerReady : ∀ ec ∈ s'.timerReady, ec ∈ s.timerReady ∨ ec = .aborted
  pings : s'.pings = s.pings

variable {s s' : ServerSession}

theorem AsksToClose.of_closeSession {s₁ : ServerSession} (h : SameTimer s s₁) (hd : s.pingDelay ≠ 0) (now : Time) :
    AsksToClose s (s₁.closeSession now) now := by
  rw [closeSession, if_pos (h.pingDelay ▸ hd)]
  refine ⟨h.pingDelay, rfl, add_zero now, rfl, fun ec hec => ?_, h.pings⟩
  rcases List.mem_append.mp hec with hec | hec
  · exact .inl (h.timerReady ▸ hec)
  · exact .inr (List.eq_of_mem_replicate hec)

theorem AsksToClose.trans {s₁ : ServerSession} {now : Time} (h : SameTimer s s₁) (h' : AsksToClose s₁ s' now) :
    AsksToClose s s' now :=
  ⟨h'.pingDelay.trans h.pingDelay, h'.pingState, h'.timerExpiry, h'.timerWaits, h.timerReady ▸ h'.timerReady,
    h'.pings.trans h.pings⟩

theorem callFunction_keepAlive (hd : s.pingDelay ≠ 0) (now : Time) :
    (s.requests = true ∧ AsksToClose s (s.callFunction now) now) ∨
      (s.requests = false ∧ SameTimer s (s.callFunction now)) := by
  unfold requests
  cases h : handlerFor s.boundFuncs s.order s.receiveBuffer with
  | none =>
    obtain ⟨_, _, _, he⟩ := callFunction_none h now
    rw [he]
    exact .inr ⟨rfl, rfl, rfl, rfl, rfl, rfl, rfl⟩
  | some f =>
    dsimp only
    rw [callFunction_some h now]
    cases hc : (s.called f).boundClose with
    | true =>
      rw [if_pos rfl]
      have hsame : SameTimer s (s.called f) := ⟨rfl, rfl, rfl, rfl, rfl, rfl⟩
      exact .inl ⟨rfl, .of_closeSession hsame hd now⟩
    | false =>
      rw [if_neg Bool.false_ne_true]
      refine .inr ⟨rfl, ?_⟩
      split
      · obtain ⟨_, _, _, _, he⟩ := handleSend_frame { s.called f with response := [] }
          ⟨(s.called f).header, (s.called f).response⟩
        rw [he]
        exact ⟨rfl, rfl, rfl, rfl, rfl, rfl⟩
      · exact ⟨rfl, rfl, rfl, rfl, rfl, rfl⟩

/-- What a step does to the keep-alive: it asks to close, or leaves the request and the deadline alone and starts
nothing, or runs `on_timer`, or handles a control frame. -/
inductive KeepAlive (s : ServerSession) : ServerEvent → ServerSession → Prop where
  | asks {e : ServerEvent} {s' : ServerSession} (now : Time) :
      s.closesOn e = true → e.time = some now → AsksToClose s s' now → KeepAlive s e s'
  | keeps {e : ServerEvent} {s' : ServerSession} : s.closesOn e = false → s'.pingDelay = s.pingDelay →
      s'.pingState = s.pingState → s'.timerExpiry = s.timerExpiry → s'.timerWaits ≤ s.timerWaits →
      (∀ ec ∈ s'.timerReady, ec ∈ s.timerReady ∨ ec = .expired) → s'.pings ≤ s.pings →
      (∀ now isOpen, e ≠ .onTimer now isOpen) → KeepAlive s e s'
  | timer (now : Time) (isOpen : Bool) (ec : TimerError) (rest : List TimerError) : s.timerReady = ec :: rest →
      KeepAlive s (.onTimer now isOpen) ({ s with timerReady := rest }.onTimer ec now isOpen)
  | control (kind : FrameKind) (now : Time) : KeepAlive s (.control kind now) (s.onControlCallback kind now)

theorem KeepAlive.of_same {e : ServerEvent} (hc : s.closesOn e = false) (h : SameTimer s s')
    (he : ∀ now isOpen, e ≠ .onTimer now isOpen) : KeepAlive s e s' :=
  .keeps hc h.pingDelay h.pingState h.timerExpiry h.timerWaits.le (fun _ hec => .inl (h.timerReady ▸ hec)) h.pings.le he

theorem step_keepAlive (hd : s.pingDelay ≠ 0) {e : ServerEvent} (hs : s.step e = some s') : KeepAlive s e s' := by
  cases e with
  | send data =>
    cases hs
    exact .of_same rfl ⟨rfl, rfl, rfl, rfl, rfl, rfl⟩ fun _ _ h => by cases h
  | handleSend =>
    simp only [step] at hs
    split at hs
    · cases hs
    · rename_i data rest _
      cases hs
      obtain ⟨_, _, _, _, he⟩ := handleSend_frame { s with posted := rest } data
      rw [he]
      exact .of_same rfl ⟨rfl, rfl, rfl, rfl, rfl, rfl⟩ fun _ _ h => by cases h
  | onWrite i ec now =>
    simp only [step] at hs
    split at hs
    · cases hs
      unfold onWrite
      split
      · rename_i hc
        have hsame : SameTimer s { s with writing := s.writing.eraseIdx i, writeError := true, queue := [] } :=
          ⟨rfl, rfl, rfl, rfl, rfl, rfl⟩
        exact .asks now hc rfl (.of_closeSession hsame hd now)
      · rename_i hc
        have hc' : s.closesOn (.onWrite i ec now) = false := Bool.eq_false_iff.mpr hc
        dsimp only
        split
        · exact .of_same hc' ⟨rfl, rfl, rfl, rfl, rfl, rfl⟩ fun _ _ h => by cases h
        · obtain ⟨_, _, he⟩ := write_frame { s with writing := s.writing.eraseIdx i, queue := s.queue.tail }
          rw [he]
          exact .of_same hc' ⟨rfl, rfl, rfl, rfl, rfl, rfl⟩ fun _ _ h => by cases h
    · cases hs
  | onRead ec bytes now =>
    simp only [step] at hs
    split at hs
    · cases hs
      unfold onRead
      split
      · rename_i hc
        have hc' : s.closesOn (.onRead ec bytes now) = true := by
          rw [closesOn, if_pos hc]
        have hsame : SameTimer s { s with
            reading := false, receiveBuffer := s.receiveBuffer ++ bytes, readError := true } :=
          ⟨rfl, rfl, rfl, rfl, rfl, rfl⟩
        exact .asks now hc' rfl (.of_closeSession hsame hd now)
      · rename_i hc
        have hcl : s.closesOn (.onRead ec bytes now) = (!s.close && !s.writeError &&
            requests { s with receiveBuffer := s.receiveBuffer ++ bytes }) := by
          rw [closesOn, if_neg hc]
        dsimp only
        split
        · rename_i hok
          have hsame : SameTimer s { s with reading := false, receiveBuffer := s.receiveBuffer ++ bytes } :=
            ⟨rfl, rfl, rfl, rfl, rfl, rfl⟩
          rcases callFunction_keepAlive (s := { s with reading := false, receiveBuffer := s.receiveBuffer ++ bytes }) hd now
            with ⟨hr, h⟩ | ⟨hr, h⟩
          · have h' : AsksToClose s _ now := .trans hsame h
            refine .asks now ?_ rfl ⟨h'.pingDelay, h'.pingState, h'.timerExpiry, h'.timerWaits, h'.timerReady, h'.pings⟩
            rw [hcl, hok]
            exact hr
          · refine .of_same ?_ ⟨h.pingDelay, h.pingState, h.timerExpiry, h.timerWaits, h.timerReady, h.pings⟩
              fun _ _ h => by cases h
            rw [hcl, hok]
            exact hr
        · rename_i hok
          refine .of_same ?_ ⟨rfl, rfl, rfl, rfl, rfl, rfl⟩ fun _ _ h => by cases h
          rw [hcl, Bool.eq_false_iff.mpr hok, Bool.false_and]
    · cases hs
  | timerExpires now =>
    simp only [step] at hs
    split at hs
    · cases hs
      refine .keeps rfl rfl rfl rfl (Nat.sub_le _ _) (fun ec hec => ?_) le_rfl fun _ _ h => by cases h
      exact (List.mem_append.mp hec).imp id List.mem_singleton.mp
    · cases hs
  | onTimer now isOpen =>
    simp only [step] at hs
    split at hs
    · cases hs
    · rename_i ec rest hr
      cases hs
      exact .timer now isOpen ec rest hr
  | control kind now =>
    cases hs
    exact .control kind now
  | onPing =>
    simp only [step] at hs
    split at hs
    · cases hs
      exact .keeps rfl rfl rfl rfl le_rfl (fun _ h => .inl h) (Nat.sub_le _ _) fun _ _ h => by cases h
    · cases hs
  | onShutdown =>
    simp only [step] at hs
    split at hs
    · cases hs
      exact .of_same rfl ⟨rfl, rfl, rfl, rfl, rfl, rfl⟩ fun _ _ h => by cases h
    · cases hs

/-- Once the close request stands and its deadline is over, `on_timer` calls `shutdown` and nothing else. -/
theorem onTimer_shutdown {ec : TimerError} {now : Time} (hec : ec ≠ .other) (hp : s.pingState = .pingClose)
    (ht : s.timerExpiry ≤ now) (isOpen : Bool) : s.onTimer ec now isOpen = s.shutdown := by
  have hping : ¬ (isOpen && decide (s.pingState = .pingNext)) = true := by simp [hp]
  rw [onTimer, if_neg hec, if_pos ht, if_neg hping]

theorem sameTimer_shutdown (s : ServerSession) : SameTimer s s.shutdown := by
  obtain ⟨_, _, _, he⟩ := s.shutdown_frame
  rw [he]
  exact ⟨rfl, rfl, rfl, rfl, rfl, rfl⟩

theorem onTimer_ready {ec : TimerError} {now : Time} {isOpen : Bool} {ec' : TimerError}
    (h : ec' ∈ (s.onTimer ec now isOpen).timerReady) : ec' ∈ s.timerReady ∨ ec' = .aborted := by
  have hmoved : ∀ s₁ : ServerSession, s₁.timerReady = s.timerReady → ∀ delay,
      ec' ∈ (s₁.expiresAfter now delay).asyncWait.timerReady → ec' ∈ s.timerReady ∨ ec' = .aborted := by
    intro s₁ hs₁ delay h
    rcases List.mem_append.mp h with h | h
    · exact .inl (hs₁ ▸ h)
    · exact .inr (List.eq_of_mem_replicate h)
  unfold onTimer at h
  split at h
  · exact .inl h
  · split at h
    · split at h
      · exact hmoved { s with pingState := .pingSend, pings := s.pings + 1 } rfl _ h
      · exact .inl (s.sameTimer_shutdown.timerReady ▸ h)
    · exact hmoved s rfl _ h

theorem onTimer_pingDelay (s : ServerSession) (ec : TimerError) (now : Time) (isOpen : Bool) :
    (s.onTimer ec now isOpen).pingDelay = s.pingDelay := by
  obtain ⟨_, _, _, _, _, _, _, _, he⟩ := s.onTimer_frame ec now isOpen
  rw [he]

end ServerSession

/-! ## Runs with a steady clock -/

/-- A session, the time, and whether `close_session` has been called. -/
structure Watched where
  session : ServerSession
  now : Time
  requested : Bool := false

namespace Watched

/-- One handler runs, at a time that is not before the last one. -/
def step (w : Watched) (e : ServerEvent) : Option Watched :=
  let now := e.time.getD w.now
  if w.now ≤ now then
    (w.session.step e).map fun s => ⟨s, now, w.requested || w.session.closesOn e⟩
  else none

def established (boundFuncs : BoundFuncs) (order : ByteOrder) (pingDelay now : Time) : Watched :=
  ⟨.established boundFuncs order pingDelay now, now, false⟩

theorem step_eq_some {w w' : Watched} {e : ServerEvent} (h : w.step e = some w') :
    w.now ≤ w'.now ∧ w'.now = e.time.getD w.now ∧ w'.requested = (w.requested || w.session.closesOn e) ∧
      w.session.step e = some w'.session := by
  simp only [step] at h
  split at h
  · rename_i hnow
    obtain ⟨s, hs, rfl⟩ := Option.map_eq_some_iff.mp h
    exact ⟨hnow, rfl, rfl, hs⟩
  · cases h

end Watched

/-- The runs of a session next to a steady clock. -/
def watchMachine : Machine Watched Empty Empty (fun _ => Unit) Empty Unit ServerEvent where
  body := fun c => nomatch c
  exec := fun _ o => nomatch o
  env := fun e w => w.step e

abbrev WatchPool := Pool Watched Empty Empty (fun _ => Unit) Empty

/-- After a close request the client sends no ping and no pong. -/
def Silent (p : WatchPool) : Act Empty Unit ServerEvent → Prop
  | .env (.control kind _) => p.shared.requested = true → kind = .close
  | _ => True

/-- A close request is in the ping state, and its deadline is over. -/
structure Standing (w : Watched) : Prop where
  pingDelay : w.session.pingDelay ≠ 0
  ready : ∀ ec ∈ w.session.timerReady, ec ≠ .other
  asked : w.requested = true → w.session.pingState = .pingClose ∧ w.session.timerExpiry ≤ w.now

theorem Standing.established (boundFuncs : BoundFuncs) (order : ByteOrder) {pingDelay : Time} (hd : pingDelay ≠ 0)
    (now : Time) : Standing (.established boundFuncs order pingDelay now) := by
  unfold Watched.established ServerSession.established
  dsimp only
  rw [if_pos hd]
  exact ⟨hd, fun _ h => (by cases h), fun h => (by cases h)⟩

/-- What may follow a close request. -/
structure Closes (w : Watched) (e : ServerEvent) (w' : Watched) : Prop where
  pingState : w'.session.pingState ≠ .pingNext
  pings : w'.session.pings ≤ w.session.pings
  timerWaits : w'.session.timerWaits ≤ w.session.timerWaits
  onTimer : ∀ now isOpen, e = .onTimer now isOpen → ∃ ec rest, w.session.timerReady = ec :: rest ∧
    w'.session = { w.session with timerReady := rest }.shutdown

theorem Standing.step {w w' : Watched} (h : Standing w) {e : ServerEvent}
    (hG : ∀ kind now, e = .control kind now → w.requested = true → kind = .close) (hs : w.step e = some w') :
    Standing w' ∧ (w.requested = true → Closes w e w') := by
  obtain ⟨hnow, hnow', hreq, hstep⟩ := Watched.step_eq_some hs
  obtain ⟨session, now', requested⟩ := w'
  dsimp only at hnow hnow' hreq hstep ⊢
  cases ServerSession.step_keepAlive h.pingDelay hstep with
  | asks now hc ht ha =>
    have hn : now' = now := by rw [hnow', ht]; rfl
    refine ⟨⟨fun hd => h.pingDelay (ha.pingDelay ▸ hd), fun ec hec => ?_, fun _ => ⟨ha.pingState, ?_⟩⟩,
      fun _ => ⟨?_, ha.pings.le, ?_, fun now isOpen he => ?_⟩⟩
    · rcases ha.timerReady ec hec with hec | rfl
      · exact h.ready ec hec
      · exact fun hf => by cases hf
    · rw [hn]
      exact ha.timerExpiry.le
    · dsimp only
      rw [ha.pingState]
      exact fun hf => by cases hf
    · dsimp only
      rw [ha.timerWaits]
      exact Nat.zero_le _
    · rw [he] at hc
      cases hc
  | keeps hc hpd hps hte htw htr hp he =>
    have hreq' : requested = w.requested := by rw [hreq, hc, Bool.or_false]
    refine ⟨⟨fun hd => h.pingDelay (hpd ▸ hd), fun ec hec => ?_, fun hr => ?_⟩, fun hr => ⟨?_, hp, htw, ?_⟩⟩
    · rcases htr ec hec with hec | rfl
      · exact h.ready ec hec
      · exact fun hf => by cases hf
    · obtain ⟨h1, h2⟩ := h.asked (hreq' ▸ hr)
      exact ⟨hps.trans h1, hte.le.trans (h2.trans hnow)⟩
    · dsimp only
      rw [hps, (h.asked hr).1]
      exact fun hf => by cases hf
    · exact fun now isOpen heq => absurd heq (he now isOpen)
  | timer now isOpen ec rest hr =>
    have hec : ec ≠ .other := h.ready ec (by rw [hr]; exact List.mem_cons_self)
    have hn : now' = now := by rw [hnow']; rfl
    have hreq' : requested = w.requested := by rw [hreq]; exact Bool.or_false _
    have hshut : w.requested = true → ServerSession.onTimer { w.session with timerReady := rest } ec now isOpen =
        ServerSession.shutdown { w.session with timerReady := rest } := fun hq =>
      ServerSession.onTimer_shutdown (s := { w.session with timerReady := rest }) hec (h.asked hq).1
        ((h.asked hq).2.trans (hn ▸ hnow)) isOpen
    refine ⟨⟨?_, fun ec' hec' => ?_, fun hq => ?_⟩, fun hq => ?_⟩
    · rw [ServerSession.onTimer_pingDelay]
      exact h.pingDelay
    · rcases ServerSession.onTimer_ready hec' with hec' | rfl
      · exact h.ready ec' (by rw [hr]; exact List.mem_cons_of_mem _ hec')
      · exact fun hf => by cases hf
    · have hq' : w.requested = true := hreq' ▸ hq
      have hsame := ServerSession.sameTimer_shutdown { w.session with timerReady := rest }
      dsimp only
      rw [hshut hq', hsame.pingState, hsame.timerExpiry]
      exact ⟨(h.asked hq').1, (h.asked hq').2.trans hnow⟩
    · have hsame := ServerSession.sameTimer_shutdown { w.session with timerReady := rest }
      refine ⟨?_, ?_, ?_, fun now isOpen _ => ⟨ec, rest, hr, hshut hq⟩⟩
      · dsimp only
        rw [hshut hq, hsame.pingState]
        exact fun hf => by rw [(h.asked hq).1] at hf; cases hf
      · dsimp only
        rw [hshut hq, hsame.pings]
      · dsimp only
        rw [hshut hq, hsame.timerWaits]
  | control kind now =>
    have hreq' : requested = w.requested := by rw [hreq]; exact Bool.or_false _
    have hclose : w.requested = true → w.session.onControlCallback kind now = { w.session with closeReceived := true } :=
      fun hq => by rw [ServerSession.onControlCallback, if_pos (hG kind now rfl hq)]
    refine ⟨⟨?_, fun ec hec => ?_, fun hq => ?_⟩, fun hq => ⟨?_, ?_, ?_, fun now isOpen he => by cases he⟩⟩
    · unfold ServerSession.onControlCallback
      split
      · exact h.pingDelay
      · exact h.pingDelay
    · unfold ServerSession.onControlCallback at hec
      dsimp only at hec
      split at hec
      · exact h.ready ec hec
      · rcases List.mem_append.mp hec with hec | hec
        · exact h.ready ec hec
        · rw [List.eq_of_mem_replicate hec]
          exact fun hf => by cases hf
    · have hq' : w.requested = true := hreq' ▸ hq
      dsimp only
      rw [hclose hq']
      exact ⟨(h.asked hq').1, (h.asked hq').2.trans hnow⟩
    · dsimp only
      rw [hclose hq]
      exact fun hf => by rw [(h.asked hq).1] at hf; cases hf
    · dsimp only
      rw [hclose hq]
    · dsimp only
      rw [hclose hq]

theorem standing_of_reach {boundFuncs : BoundFuncs} {order : ByteOrder} {pingDelay now : Time} (hd : pingDelay ≠ 0)
    {p : WatchPool} (hp : watchMachine.Reach Silent (.established boundFuncs order pingDelay now) p) :
    Standing p.shared := by
  induction hp with
  | start => exact .established boundFuncs order hd now
  | @step p p' a _ hG hs ih =>
    cases a with
    | call t c => exact c.elim
    | op t i =>
      obtain ⟨c, o, -⟩ := Machine.step_op hs
      exact o.elim
    | env e =>
      obtain ⟨w, hw, rfl⟩ := Machine.step_env hs
      refine (ih.step (fun kind now he => ?_) hw).1
      subst he
      exact hG

/-- **A close request is kept.** In every run of a session with keep-alive in which the client sends no ping and no
pong after the request: the ping state never returns to `ping_next`, no ping is sent, the timer is not armed again, and
every `on_timer` calls `shutdown`. -/
theorem close_request_kept {boundFuncs : BoundFuncs} {order : ByteOrder} {pingDelay now : Time} (hd : pingDelay ≠ 0)
    {p : WatchPool} (hp : watchMachine.Reach Silent (.established boundFuncs order pingDelay now) p)
    (hr : p.shared.requested = true) {e : ServerEvent} (hG : Silent p (.env e)) {w : Watched}
    (hs : p.shared.step e = some w) : p.shared.session.pingState ≠ .pingNext ∧ Closes p.shared e w := by
  have h := standing_of_reach hd hp
  refine ⟨fun hf => ?_, (h.step (fun kind now he => ?_) hs).2 hr⟩
  · rw [(h.asked hr).1] at hf
    cases hf
  · subst he
    exact hG

def silent (p : WatchPool) : Act Empty Unit ServerEvent → Bool
  | .env (.control kind _) => !p.shared.requested || decide (kind = .close)
  | _ => true

theorem silent_sound (p : WatchPool) (a : Act Empty Unit ServerEvent) (h : silent p a = true) : Silent p a := by
  cases a with
  | call t c => trivial
  | op t i => trivial
  | env e =>
    cases e with
    | control kind now =>
      intro hr
      simpa [silent, hr] using h
    | _ => trivial

/-- The handler with id 1 closes its session; so does every other message. -/
def closingFuncs : BoundFuncs := fun _ => some (some fun _ _ => { response := [], close := true })

/-- A message that is only a header, with call id 1. -/
def bareMessage : Bytes := (IoHeader.new 1 0).encode .little

/-- A message arrives whose handler asks to close. -/
def requestRun : List (Act Empty Unit ServerEvent) := [.env (.onRead false bareMessage 1)]

theorem close_request_kept_timer : ∃ p w, watchMachine.Reach Silent (.established closingFuncs .little 10 0) p ∧
    p.shared.requested = true ∧ p.shared.step (.onTimer 1 true) = some w ∧ w.session.close = true ∧
    Closes p.shared (.onTimer 1 true) w := by
  have hrun : (watchMachine.run silent (.initial (.established closingFuncs .little 10 0)) requestRun).any
      (fun p => p.shared.requested && (p.shared.step (.onTimer 1 true)).any fun w => w.session.close) = true := by
    decide +kernel
  obtain ⟨p, hp, hf⟩ := Machine.Reach.exists_of_run silent_sound requestRun hrun
  simp only [Bool.and_eq_true] at hf
  obtain ⟨w, hs, hc⟩ := (Option.any_eq_true _ _).mp hf.2
  have hG : Silent p (.env (.onTimer 1 true)) := trivial
  exact ⟨p, w, hp, hf.1, hs, hc, (close_request_kept (by decide) hp hf.1 hG hs).2⟩

/-- The handler asks to close; a pong comes in before the timer's handler; ten seconds later the timer runs out. -/
def pongRun : List (Act Empty Unit ServerEvent) :=
  requestRun ++ [.env (.control .pong 2), .env (.onTimer 2 true), .env (.timerExpires 12), .env (.onTimer 12 true)]

/-- The pong takes the request back: the session is not closed, and the next ping is sent. -/
theorem close_request_undone : ∃ p, watchMachine.Reach Machine.Free (.established closingFuncs .little 10 0) p ∧
    p.shared.requested = true ∧ p.shared.session.pings = 1 ∧ p.shared.session.close = false ∧
    p.shared.session.timerWaits = 1 := by
  have hrun : (watchMachine.run (fun _ _ => true) (.initial (.established closingFuncs .little 10 0)) pongRun).any
      (fun p => p.shared.requested && decide (p.shared.session.pings = 1) && !p.shared.session.close &&
        decide (p.shared.session.timerWaits = 1)) = true := by
    decide +kernel
  obtain ⟨p, hp, hf⟩ := Machine.Reach.exists_of_run (fun _ _ _ => trivial) pongRun hrun
  simp only [Bool.and_eq_true, decide_eq_true_eq, Bool.not_eq_true'] at hf
  exact ⟨p, hp, hf.1.1.1, hf.1.1.2, hf.1.2, hf.2⟩

/-! ## Handlers after `close()` -/

abbrev ServerPool := Pool ServerSession Empty Empty (fun _ => Unit) Empty

/-- With keep-alive no message is read between a handler's `close()` and the `shutdown` of the timer. -/
def Unhurried (p : ServerPool) : Act Empty Unit ServerEvent → Prop
  | .env (.onRead false _ _) => p.shared.boundClose = true → p.shared.pingDelay ≠ 0 →
      p.shared.close = true ∨ p.shared.closeReceived = true ∨ p.shared.writeError = true
  | _ => True

/-- Without keep-alive the session is closed as soon as a handler has asked for it. -/
def ServerSession.Shut (s : ServerSession) : Prop :=
  s.boundClose = true → s.pingDelay = 0 → s.close = true ∨ s.closeReceived = true

namespace ServerSession

variable {s s' : ServerSession}

theorem shutdown_shut (s : ServerSession) : s.shutdown.close = true ∨ s.shutdown.closeReceived = true := by
  unfold shutdown
  dsimp only
  split
  · rename_i h
    exact (Bool.or_eq_true _ _ ▸ h : s.close = true ∨ s.closeReceived = true)
  · exact .inl rfl

/-- What a step leaves of a close: the flags stay set, the delay stays, and a handler's request is new only if a
handler was invoked. -/
structure Stays (s s' : ServerSession) : Prop where
  pingDelay : s'.pingDelay = s.pingDelay
  close : s.close = true → s'.close = true
  closeReceived : s.closeReceived = true → s'.closeReceived = true
  boundClose : s'.boundClose = s.boundClose
  invoked : s'.invoked = s.invoked

theorem Stays.refl (s : ServerSession) : Stays s s := ⟨rfl, id, id, rfl, rfl⟩

theorem Stays.trans {s₁ : ServerSession} (h : Stays s s₁) (h' : Stays s₁ s') : Stays s s' :=
  ⟨h'.pingDelay.trans h.pingDelay, fun hc => h'.close (h.close hc), fun hc => h'.closeReceived (h.closeReceived hc),
    h'.boundClose.trans h.boundClose, h'.invoked.trans h.invoked⟩

theorem Stays.shut (h : Stays s s') (hs : s.Shut) : s'.Shut := fun hb hd =>
  (hs (h.boundClose ▸ hb) (h.pingDelay ▸ hd)).imp h.close h.closeReceived

theorem stays_shutdown (s : ServerSession) : Stays s s.shutdown := by
  unfold shutdown
  dsimp only
  split
  · exact ⟨rfl, id, id, rfl, rfl⟩
  · exact ⟨rfl, fun _ => rfl, id, rfl, rfl⟩

theorem stays_closeSession (s : ServerSession) (now : Time) : Stays s (s.closeSession now) := by
  unfold closeSession
  split
  · exact ⟨rfl, id, id, rfl, rfl⟩
  · exact s.stays_shutdown

theorem stays_handleSend (s : ServerSession) (data : DataPush) : Stays s (s.handleSend data) := by
  obtain ⟨_, _, _, _, he⟩ := s.handleSend_frame data
  rw [he]
  exact ⟨rfl, id, id, rfl, rfl⟩

theorem stays_onWrite (s : ServerSession) (ec : Bool) (now : Time) : Stays s (s.onWrite ec now) := by
  unfold onWrite
  split
  · have h : Stays s { s with writeError := true, queue := [] } := ⟨rfl, id, id, rfl, rfl⟩
    exact h.trans (stays_closeSession _ now)
  · dsimp only
    split
    · exact ⟨rfl, id, id, rfl, rfl⟩
    · obtain ⟨_, _, he⟩ := write_frame { s with queue := s.queue.tail }
      rw [he]
      exact ⟨rfl, id, id, rfl, rfl⟩

theorem stays_onTimer (s : ServerSession) (ec : TimerError) (now : Time) (isOpen : Bool) :
    Stays s (s.onTimer ec now isOpen) := by
  unfold onTimer
  split
  · exact .refl s
  · split
    · split
      · exact ⟨rfl, id, id, rfl, rfl⟩
      · exact s.stays_shutdown
    · exact ⟨rfl, id, id, rfl, rfl⟩

theorem stays_onControlCallback (s : ServerSession) (kind : FrameKind) (now : Time) :
    Stays s (s.onControlCallback kind now) := by
  unfold onControlCallback
  split
  · exact ⟨rfl, id, fun _ => rfl, rfl, rfl⟩
  · exact ⟨rfl, id, id, rfl, rfl⟩

theorem callFunction_shut (h : s.Shut) (now : Time) : (s.callFunction now).Shut := by
  cases hf : handlerFor s.boundFuncs s.order s.receiveBuffer with
  | none =>
    obtain ⟨_, _, _, he⟩ := callFunction_none hf now
    rw [he]
    exact h
  | some f =>
    rw [callFunction_some hf now]
    split
    · intro _ hd
      have hd' : ¬ (s.called f).pingDelay ≠ 0 := by
        rw [(stays_closeSession _ now).pingDelay] at hd
        exact fun hne => hne hd
      rw [closeSession, if_neg hd']
      exact shutdown_shut _
    · rename_i hb
      have hopen : (s.called f).Shut := fun hb' => absurd hb' hb
      split
      · exact (stays_handleSend { s.called f with response := [] } _).shut hopen
      · exact hopen

theorem callFunction_boundClose (h : s.boundClose = true) (now : Time) : (s.callFunction now).boundClose = true := by
  cases hf : handlerFor s.boundFuncs s.order s.receiveBuffer with
  | none =>
    obtain ⟨_, _, _, he⟩ := callFunction_none hf now
    rw [he]
    exact h
  | some f =>
    have hb : (s.called f).boundClose = true := by simp [called, invoke, h]
    rw [callFunction_some hf now, if_pos hb, (stays_closeSession _ now).boundClose]
    exact hb

/-- Every step keeps a session without keep-alive closed; a handler is invoked only by a read of an open session. -/
theorem step_shut (h : s.Shut) {e : ServerEvent} (hs : s.step e = some s') :
    s'.Shut ∧ (s'.invoked = s.invoked ∨ ((∃ bytes now, e = .onRead false bytes now) ∧
      s.close = false ∧ s.closeReceived = false ∧ s.writeError = false)) ∧ (s.boundClose = true → s'.boundClose = true) := by
  have hstays : Stays s s' → s'.Shut ∧ (s'.invoked = s.invoked ∨ ((∃ bytes now, e = .onRead false bytes now) ∧
      s.close = false ∧ s.closeReceived = false ∧ s.writeError = false)) ∧ (s.boundClose = true → s'.boundClose = true) :=
    fun hst => ⟨hst.shut h, .inl hst.invoked, fun hb => hst.boundClose.trans hb⟩
  cases e with
  | send data =>
    cases hs
    exact hstays ⟨rfl, id, id, rfl, rfl⟩
  | handleSend =>
    simp only [step] at hs
    split at hs
    · cases hs
    · rename_i data rest _
      cases hs
      have h₁ : Stays s { s with posted := rest } := ⟨rfl, id, id, rfl, rfl⟩
      exact hstays (h₁.trans (stays_handleSend _ data))
  | onWrite i ec now =>
    simp only [step] at hs
    split at hs
    · cases hs
      have h₁ : Stays s { s with writing := s.writing.eraseIdx i } := ⟨rfl, id, id, rfl, rfl⟩
      exact hstays (h₁.trans (stays_onWrite _ ec now))
    · cases hs
  | onRead ec bytes now =>
    simp only [step] at hs
    split at hs
    · cases hs
      have h₁ : Stays s { s with reading := false, receiveBuffer := s.receiveBuffer ++ bytes } :=
        ⟨rfl, id, id, rfl, rfl⟩
      unfold onRead at hstays ⊢
      split
      · rename_i hc
        rw [if_pos hc] at hstays
        have h₂ : Stays s { s with reading := false, receiveBuffer := s.receiveBuffer ++ bytes, readError := true } :=
          ⟨rfl, id, id, rfl, rfl⟩
        exact hstays (h₂.trans (stays_closeSession _ now))
      · rename_i hc
        rw [if_neg hc] at hstays
        dsimp only at hstays ⊢
        split
        · rename_i hok
          simp only [Bool.or_eq_true, not_or, Bool.not_eq_true] at hc
          simp only [Bool.and_eq_true, Bool.not_eq_true'] at hok
          refine ⟨callFunction_shut (h₁.shut h) now, .inr ⟨⟨bytes, now, by rw [hc.1]⟩, hok.1, hc.2, hok.2⟩, fun hb => ?_⟩
          exact callFunction_boundClose (s := { s with reading := false, receiveBuffer := s.receiveBuffer ++ bytes }) hb now
        · rename_i hok
          rw [if_neg hok] at hstays
          exact hstays ⟨rfl, id, id, rfl, rfl⟩
    · cases hs
  | timerExpires now =>
    simp only [step] at hs
    split at hs
    · cases hs
      exact hstays ⟨rfl, id, id, rfl, rfl⟩
    · cases hs
  | onTimer now isOpen =>
    simp only [step] at hs
    split at hs
    · cases hs
    · rename_i ec rest _
      cases hs
      have h₁ : Stays s { s with timerReady := rest } := ⟨rfl, id, id, rfl, rfl⟩
      exact hstays (h₁.trans (stays_onTimer _ ec now isOpen))
  | control kind now =>
    cases hs
    exact hstays (s.stays_onControlCallback kind now)
  | onPing | onShutdown =>
    simp only [step] at hs
    split at hs
    · cases hs
      exact hstays ⟨rfl, id, id, rfl, rfl⟩
    · cases hs

end ServerSession

theorem shut_of_reach {boundFuncs : BoundFuncs} {order : ByteOrder} {pingDelay now : Time} {p : ServerPool}
    (hp : serverMachine.Reach Unhurried (.established boundFuncs order pingDelay now) p) : p.shared.Shut := by
  refine Machine.invariant (I := ServerSession.Shut) ?_ (fun _ o => o.elim) (fun e s s' h he => ?_) hp
  · unfold ServerSession.established
    dsimp only
    split
    · exact fun h => by cases h
    · exact fun h => by cases h
  · exact (ServerSession.step_shut h he).1

/-- **No handler after `close()`.** After a handler has called `close()` no handler is invoked any more: always without
keep-alive, and with keep-alive when no message is read before the timer has run. -/
theorem no_handler_after_close {boundFuncs : BoundFuncs} {order : ByteOrder} {pingDelay now : Time} {p q : ServerPool}
    (hp : serverMachine.Reach Unhurried (.established boundFuncs order pingDelay now) p)
    (hb : p.shared.boundClose = true) (hq : serverMachine.Reach Unhurried p.shared q) :
    q.shared.invoked = p.shared.invoked := by
  have hshut₀ : p.shared.Shut := shut_of_reach hp
  have key : q.shared.Shut ∧ q.shared.boundClose = true ∧ q.shared.invoked = p.shared.invoked := by
    induction hq with
    | start => exact ⟨hshut₀, hb, rfl⟩
    | @step q q' a _ hG hs ih =>
      obtain ⟨hshut, hbound, hinv⟩ := ih
      cases a with
      | call t c => exact c.elim
      | op t i =>
        obtain ⟨c, o, -⟩ := Machine.step_op hs
        exact o.elim
      | env e =>
        obtain ⟨s, he, rfl⟩ := Machine.step_env hs
        obtain ⟨hshut', hinv', hbound'⟩ := ServerSession.step_shut hshut he
        refine ⟨hshut', hbound' hbound, ?_⟩
        rcases hinv' with hinv' | ⟨⟨bytes, now, rfl⟩, hc, hcr, hw⟩
        · exact hinv'.trans hinv
        · -- the session is open and yet asked to close
          by_cases hd : q.shared.pingDelay = 0
          · rcases hshut hbound hd with h | h
            · exact absurd (hc.symm.trans h) Bool.false_ne_true
            · exact absurd (hcr.symm.trans h) Bool.false_ne_true
          · rcases hG hbound hd with h | h | h
            · exact absurd (hc.symm.trans h) Bool.false_ne_true
            · exact absurd (hcr.symm.trans h) Bool.false_ne_true
            · exact absurd (hw.symm.trans h) Bool.false_ne_true
  exact key.2.2

def unhurried (p : ServerPool) : Act Empty Unit ServerEvent → Bool
  | .env (.onRead false _ _) => decide (p.shared.boundClose = true → p.shared.pingDelay ≠ 0 →
      p.shared.close = true ∨ p.shared.closeReceived = true ∨ p.shared.writeError = true)
  | _ => true

theorem unhurried_sound (p : ServerPool) (a : Act Empty Unit ServerEvent) (h : unhurried p a = true) :
    Unhurried p a := by
  cases a with
  | call t c => trivial
  | op t i => trivial
  | env e =>
    cases e with
    | onRead ec bytes now =>
      cases ec with
      | false =>
        simp only [unhurried, decide_eq_true_eq] at h
        exact h
      | true => trivial
    | _ => trivial

/-- The timer's handler runs before the next message is read. -/
theorem no_handler_after_close_timer : ∃ p q : ServerPool,
    serverMachine.Reach Unhurried (.established closingFuncs .little 10 0) p ∧ p.shared.boundClose = true ∧
    serverMachine.Reach Unhurried p.shared q ∧ q.shared.invoked = p.shared.invoked := by
  have hrun : (serverMachine.run unhurried (.initial (.established closingFuncs .little 10 0)) requestRun).any
      (fun p => p.shared.boundClose && (serverMachine.run unhurried (.initial p.shared)
        [.env (.onTimer 1 true), .env (.onRead false bareMessage 2)]).isSome) = true := by
    decide +kernel
  obtain ⟨p, hp, hf⟩ := Machine.Reach.exists_of_run unhurried_sound requestRun hrun
  simp only [Bool.and_eq_true] at hf
  obtain ⟨q, hq⟩ := Option.isSome_iff_exists.mp hf.2
  have hreach := Machine.Reach.of_run unhurried_sound hq
  exact ⟨p, q, hp, hf.1, hreach, no_handler_after_close hp hf.1 hreach⟩

/-- With keep-alive, a second message that is read before the timer's handler runs still finds its handler. -/
theorem handler_after_close : ∃ p p' : ServerPool,
    serverMachine.Reach Machine.Free (.established closingFuncs .little 10 0) p ∧ p.shared.boundClose = true ∧
    serverMachine.step p (.env (.onRead false bareMessage 1)) = some p' ∧
    p.shared.invoked.length = 1 ∧ p'.shared.invoked.length = 2 := by
  have hrun : (serverMachine.run (fun _ _ => true) (.initial (.established closingFuncs .little 10 0)) requestRun).any
      (fun p => p.shared.boundClose && decide (p.shared.invoked.length = 1) &&
        (serverMachine.step p (.env (.onRead false bareMessage 1))).any fun p' =>
          decide (p'.shared.invoked.length = 2)) = true := by
    decide +kernel
  obtain ⟨p, hp, hf⟩ := Machine.Reach.exists_of_run (fun _ _ _ => trivial) requestRun hrun
  simp only [Bool.and_eq_true, decide_eq_true_eq] at hf
  obtain ⟨p', hs, hi⟩ := (Option.any_eq_true _ _).mp hf.2
  exact ⟨p, p', hp, hf.1.1, hs, hf.1.2, of_decide_eq_true hi⟩

end Radrpc
