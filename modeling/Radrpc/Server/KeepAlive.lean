import Radrpc.Server.Closing

/-!
# The keep-alive timer of a server session

Every move of the deadline cancels the pending wait, and so causes another `on_timer`, which tells the end of the wait
from a cancellation by reading the deadline again.

* `ServerSession.handlers` : the waits on the timer and the `on_timer` handlers that are ready;
* `OnTimer` : the three ways in which `on_timer` ends;
* `Monitored`, `monitorMachine` : a session next to a steady clock, with its last ping while it is unanswered;
* `keep_alive_closes_silent` : there is one timer handler until `shutdown` is called, and only `on_timer` calls it, for a
  session that was asked to close, whose stream is closed or whose client has left a ping unanswered.
-/

namespace Radrpc
open Words Conc

namespace ServerSession

/-- The waits on the timer, and the handlers of those that are over. -/
def handlers (s : ServerSession) : Nat := s.timerWaits + s.timerReady.length

/-- The step runs `on_timer` after the deadline. -/
def timedOut (s : ServerSession) : ServerEvent → Bool
  | .onTimer now _ => s.timerReady.head?.any (· ≠ .other) && decide (s.timerExpiry ≤ now)
  | _ => false

/-- The stream is open as `on_timer` sees it. -/
def seesOpen : ServerEvent → Bool
  | .onTimer _ isOpen => isOpen
  | _ => false

variable {s s' : ServerSession}

/-! ## The number of handlers -/

theorem handlers_expiresAfter (s : ServerSession) (now delay : Time) :
    (s.expiresAfter now delay).handlers = s.handlers := by
  show 0 + (s.timerReady ++ List.replicate s.timerWaits TimerError.aborted).length = s.timerWaits + s.timerReady.length
  rw [List.length_append, List.length_replicate]
  omega

theorem handlers_asyncWait (s : ServerSession) : s.asyncWait.handlers = s.handlers + 1 := by
  show s.timerWaits + 1 + s.timerReady.length = s.timerWaits + s.timerReady.length + 1
  omega

/-- As many handlers, as many pings that have not completed, and no call of `shutdown`. -/
structure SameHandlers (s s' : ServerSession) : Prop where
  handlers : s'.handlers = s.handlers
  pings : s'.pings = s.pings
  shutdowns : s'.shutdowns = s.shutdowns

theorem SameHandlers.trans {s₁ : ServerSession} (h : SameHandlers s s₁) (h' : SameHandlers s₁ s') : SameHandlers s s' :=
  ⟨h'.handlers.trans h.handlers, h'.pings.trans h.pings, h'.shutdowns.trans h.shutdowns⟩

theorem sameHandlers_closeSession (hd : s.pingDelay ≠ 0) (now : Time) : SameHandlers s (s.closeSession now) := by
  rw [closeSession, if_pos hd]
  exact ⟨handlers_expiresAfter { s with pingState := .pingClose } now 0, rfl, rfl⟩

theorem sameHandlers_handleSend (s : ServerSession) (data : DataPush) : SameHandlers s (s.handleSend data) := by
  obtain ⟨_, _, _, _, he⟩ := s.handleSend_frame data
  rw [he]
  exact ⟨rfl, rfl, rfl⟩

theorem sameHandlers_callFunction (hd : s.pingDelay ≠ 0) (now : Time) : SameHandlers s (s.callFunction now) := by
  cases h : handlerFor s.boundFuncs s.order s.receiveBuffer with
  | none =>
    obtain ⟨_, _, _, he⟩ := callFunction_none h now
    rw [he]
    exact ⟨rfl, rfl, rfl⟩
  | some f =>
    have hcalled : SameHandlers s (s.called f) := ⟨rfl, rfl, rfl⟩
    rw [callFunction_some h now]
    split
    · exact hcalled.trans (sameHandlers_closeSession (s := s.called f) hd now)
    · split
      · have hempty : SameHandlers s { s.called f with response := [] } := ⟨rfl, rfl, rfl⟩
        exact hempty.trans (sameHandlers_handleSend _ _)
      · exact hcalled

theorem sameHandlers_onWrite (hd : s.pingDelay ≠ 0) (ec : Bool) (now : Time) : SameHandlers s (s.onWrite ec now) := by
  unfold onWrite
  split
  · have hcleared : SameHandlers s { s with writeError := true, queue := [] } := ⟨rfl, rfl, rfl⟩
    exact hcleared.trans (sameHandlers_closeSession (s := { s with writeError := true, queue := [] }) hd now)
  · dsimp only
    split
    · exact ⟨rfl, rfl, rfl⟩
    · obtain ⟨_, _, he⟩ := write_frame { s with queue := s.queue.tail }
      rw [he]
      exact ⟨rfl, rfl, rfl⟩

theorem sameHandlers_onRead (hd : s.pingDelay ≠ 0) (ec : Bool) (now : Time) : SameHandlers s (s.onRead ec now) := by
  unfold onRead
  split
  · have hfailed : SameHandlers s { s with readError := true } := ⟨rfl, rfl, rfl⟩
    exact hfailed.trans (sameHandlers_closeSession (s := { s with readError := true }) hd now)
  · dsimp only
    split
    · have hcalled := sameHandlers_callFunction hd now
      exact ⟨hcalled.handlers, hcalled.pings, hcalled.shutdowns⟩
    · exact ⟨rfl, rfl, rfl⟩

theorem sameHandlers_onControlCallback (s : ServerSession) (kind : FrameKind) (now : Time) :
    SameHandlers s (s.onControlCallback kind now) := by
  unfold onControlCallback
  split
  · exact ⟨rfl, rfl, rfl⟩
  · exact ⟨handlers_expiresAfter { s with pingState := .pingNext } now s.pingDelay, rfl, rfl⟩

theorem step_sameHandlers (hd : s.pingDelay ≠ 0) {e : ServerEvent} (ht : ∀ now isOpen, e ≠ .onTimer now isOpen)
    (hp : e ≠ .onPing) (hs : s.step e = some s') : SameHandlers s s' := by
  cases e with
  | send data =>
    cases hs
    exact ⟨rfl, rfl, rfl⟩
  | handleSend =>
    simp only [step] at hs
    split at hs
    · cases hs
    · rename_i data rest _
      cases hs
      have hrest : SameHandlers s { s with posted := rest } := ⟨rfl, rfl, rfl⟩
      exact hrest.trans (sameHandlers_handleSend _ data)
  | onWrite i ec now =>
    simp only [step] at hs
    split at hs
    · cases hs
      have hwritten : SameHandlers s { s with writing := s.writing.eraseIdx i } := ⟨rfl, rfl, rfl⟩
      exact hwritten.trans (sameHandlers_onWrite (s := { s with writing := s.writing.eraseIdx i }) hd ec now)
    · cases hs
  | onRead ec bytes now =>
    simp only [step] at hs
    split at hs
    · cases hs
      have hread : SameHandlers s { s with reading := false, receiveBuffer := s.receiveBuffer ++ bytes } :=
        ⟨rfl, rfl, rfl⟩
      exact hread.trans (sameHandlers_onRead
        (s := { s with reading := false, receiveBuffer := s.receiveBuffer ++ bytes }) hd ec now)
    · cases hs
  | timerExpires now =>
    simp only [step] at hs
    split at hs
    · cases hs
      refine ⟨?_, rfl, rfl⟩
      show s.timerWaits - 1 + (s.timerReady ++ [TimerError.expired]).length = s.timerWaits + s.timerReady.length
      rw [List.length_append, List.length_singleton]
      omega
    · cases hs
  | onTimer now isOpen => exact absurd rfl (ht now isOpen)
  | control kind now =>
    cases hs
    exact sameHandlers_onControlCallback s kind now
  | onPing => exact absurd rfl hp
  | onShutdown =>
    simp only [step] at hs
    split at hs
    · cases hs
      exact ⟨rfl, rfl, rfl⟩
    · cases hs

theorem step_onPing (hs : s.step .onPing = some s') : 0 < s.pings ∧ s' = { s with pings := s.pings - 1 } := by
  simp only [step] at hs
  split at hs
  · rename_i hpos
    exact ⟨hpos, (Option.some.inj hs).symm⟩
  · cases hs

theorem step_handlers (hd : s.pingDelay ≠ 0) {e : ServerEvent} (ht : ∀ now isOpen, e ≠ .onTimer now isOpen)
    (hs : s.step e = some s') : s'.handlers = s.handlers ∧ s'.shutdowns = s.shutdowns := by
  by_cases hp : e = .onPing
  · subst hp
    obtain ⟨-, rfl⟩ := step_onPing hs
    exact ⟨rfl, rfl⟩
  · have hsame := step_sameHandlers hd ht hp hs
    exact ⟨hsame.handlers, hsame.shutdowns⟩

theorem handlers_shutdown (s : ServerSession) : s.shutdown.handlers = s.handlers := by
  obtain ⟨_, _, _, he⟩ := s.shutdown_frame
  rw [he]
  rfl

theorem shutdowns_shutdown (s : ServerSession) : s.shutdown.shutdowns = s.shutdowns + 1 := by
  unfold shutdown
  dsimp only
  split
  · rfl
  · rfl

/-! ## `on_timer` -/

/-- A run of `on_timer` with the handlers `rest` still to run: it sends a ping and starts the next wait, or calls
`shutdown`, or only starts the next wait. -/
inductive OnTimer (s : ServerSession) (now : Time) (isOpen : Bool) (rest : List TimerError) : ServerSession → Prop where
  | pings : s.timedOut (.onTimer now isOpen) = true → isOpen = true → s.pingState = .pingNext →
      OnTimer s now isOpen rest
        ({ s with timerReady := rest, pingState := .pingSend, pings := s.pings + 1 }.expiresAfter now s.pingDelay).asyncWait
  | stops : s.timerExpiry ≤ now → (isOpen = true → s.pingState ≠ .pingNext) →
      OnTimer s now isOpen rest { s with timerReady := rest }.shutdown
  | waits : s.timedOut (.onTimer now isOpen) = false →
      OnTimer s now isOpen rest ({ s with timerReady := rest }.expiresAfter now s.pingDelay).asyncWait

/-- Without an error other than a cancellation, `on_timer` does one of the three, with one handler less. -/
theorem step_onTimer {now : Time} {isOpen : Bool} (hready : ∀ ec ∈ s.timerReady, ec ≠ .other)
    (hs : s.step (.onTimer now isOpen) = some s') :
    ∃ ec rest, s.timerReady = ec :: rest ∧ OnTimer s now isOpen rest s' := by
  simp only [step] at hs
  split at hs
  · cases hs
  · rename_i ec rest hr
    cases hs
    have hec : ec ≠ .other := hready ec (by rw [hr]; exact List.mem_cons_self)
    refine ⟨ec, rest, hr, ?_⟩
    have hout : s.timedOut (.onTimer now isOpen) = decide (s.timerExpiry ≤ now) := by
      simp [timedOut, hr, hec]
    rw [onTimer, if_neg hec]
    by_cases ht : s.timerExpiry ≤ now
    · rw [if_pos ht]
      by_cases hping : (isOpen && decide (s.pingState = .pingNext)) = true
      · obtain ⟨hopen, hnext⟩ := (Bool.and_eq_true _ _).mp hping
        rw [if_pos hping]
        exact .pings (hout.trans (decide_eq_true ht)) hopen (of_decide_eq_true hnext)
      · rw [if_neg hping]
        exact .stops ht fun ho hn => hping (by rw [ho, hn]; rfl)
    · rw [if_neg ht]
      exact .waits (hout.trans (decide_eq_false ht))

end ServerSession

/-! ## Runs with a steady clock -/

/-- A session next to a steady clock, and the time of its last ping, as long as no ping or pong frame has come in
since. -/
structure Monitored where
  watched : Watched
  unanswered : Option Time := none

namespace Monitored

/-- The last ping that no ping or pong frame has followed, when a step leads to the session `s`. -/
def pingAfter (m : Monitored) (s : ServerSession) (e : ServerEvent) : Option Time :=
  match e with
  | .onTimer now _ => if m.watched.session.pings < s.pings then some now else m.unanswered
  | .control kind _ => if kind = .close then m.unanswered else none
  | _ => m.unanswered

def step (m : Monitored) (e : ServerEvent) : Option Monitored :=
  (m.watched.step e).map fun w => ⟨w, m.pingAfter w.session e⟩

def established (boundFuncs : BoundFuncs) (order : ByteOrder) (pingDelay now : Time) : Monitored :=
  { watched := .established boundFuncs order pingDelay now }

end Monitored

/-- The runs of a session next to a steady clock, with its last ping. -/
def monitorMachine : Machine Monitored Empty Empty (fun _ => Unit) Empty Unit ServerEvent where
  body := fun c => nomatch c
  exec := fun _ o => nomatch o
  env := fun e m => m.step e

abbrev MonitorPool := Pool Monitored Empty Empty (fun _ => Unit) Empty

/-- One handler until `shutdown`; a close request and a ping leave their mark in the ping state; and the deadline after a
ping is not before the end of its delay. -/
structure KeptAlive (pingDelay : Time) (m : Monitored) : Prop where
  delay : m.watched.session.pingDelay = pingDelay
  ready : ∀ ec ∈ m.watched.session.timerReady, ec ≠ .other
  handlers : m.watched.session.handlers = if m.watched.session.shutdowns = 0 then 1 else 0
  asked : m.watched.session.pingState = .pingClose → m.watched.requested = true
  pinged : m.watched.session.pingState = .pingSend → ∃ sent, m.unanswered = some sent ∧ sent ≤ m.watched.now ∧
    sent + pingDelay ≤ m.watched.session.timerExpiry

def Excused (pingDelay : Time) (m : Monitored) (e : ServerEvent) : Prop :=
  m.watched.requested = true ∨ (∃ now, e = .onTimer now false) ∨
    ∃ now isOpen sent, e = .onTimer now isOpen ∧ m.unanswered = some sent ∧ sent + pingDelay ≤ now

namespace KeptAlive

variable {pingDelay : Time} {m m' : Monitored}

theorem established (boundFuncs : BoundFuncs) (order : ByteOrder) (hd : 0 < pingDelay) (now : Time) :
    KeptAlive pingDelay (.established boundFuncs order pingDelay now) := by
  unfold Monitored.established Watched.established ServerSession.established
  dsimp only
  rw [if_pos hd.ne']
  exact ⟨rfl, fun _ h => (by cases h), rfl, fun h => (by cases h), fun h => (by cases h)⟩

theorem quiet (h : KeptAlive pingDelay m) (hd : 0 < pingDelay) {e : ServerEvent}
    (ht : ∀ now isOpen, e ≠ .onTimer now isOpen) (hc : ∀ kind now, e ≠ .control kind now) (hs : m.step e = some m') :
    KeptAlive pingDelay m' := by
  obtain ⟨w, hw, rfl⟩ := Option.map_eq_some_iff.mp hs
  obtain ⟨hnow, hnow', hreq, hstep⟩ := Watched.step_eq_some hw
  have hping : m.pingAfter w.session e = m.unanswered := by
    cases e with
    | onTimer now isOpen => exact absurd rfl (ht now isOpen)
    | control kind now => exact absurd rfl (hc kind now)
    | _ => rfl
  have hne : m.watched.session.pingDelay ≠ 0 := h.delay ▸ hd.ne'
  have hhandlers : w.session.handlers = if w.session.shutdowns = 0 then 1 else 0 := by
    obtain ⟨hsame, hshut⟩ := ServerSession.step_handlers hne ht hstep
    rw [hsame, hshut]
    exact h.handlers
  rw [hping]
  obtain ⟨session, now', requested⟩ := w
  dsimp only at hnow hreq hstep hhandlers ⊢
  cases ServerSession.step_keepAlive hne hstep with
  | asks now hc _ ha =>
    refine ⟨ha.pingDelay.trans h.delay, fun ec hec => ?_, hhandlers, fun _ => ?_, fun hp => ?_⟩
    · rcases ha.timerReady ec hec with hec | rfl
      · exact h.ready ec hec
      · exact fun hf => by cases hf
    · rw [hreq, hc, Bool.or_true]
    · rw [ha.pingState] at hp
      cases hp
  | keeps hc hpd hps hte _ htr _ _ =>
    refine ⟨hpd.trans h.delay, fun ec hec => ?_, hhandlers, fun hp => ?_, fun hp => ?_⟩
    · rcases htr ec hec with hec | rfl
      · exact h.ready ec hec
      · exact fun hf => by cases hf
    · rw [hreq, h.asked (hps ▸ hp), Bool.true_or]
    · obtain ⟨sent, hsent, hle, hexp⟩ := h.pinged (hps ▸ hp)
      exact ⟨sent, hsent, hle.trans hnow, hexp.trans hte.ge⟩
  | timer now isOpen => exact absurd rfl (ht now isOpen)
  | control kind now => exact absurd rfl (hc kind now)

theorem control (h : KeptAlive pingDelay m) (hd : 0 < pingDelay) {kind : FrameKind} {now : Time}
    (hs : m.step (.control kind now) = some m') : KeptAlive pingDelay m' := by
  obtain ⟨w, hw, rfl⟩ := Option.map_eq_some_iff.mp hs
  obtain ⟨hnow, -, hreq, hstep⟩ := Watched.step_eq_some hw
  have hhandlers : w.session.handlers = if w.session.shutdowns = 0 then 1 else 0 := by
    obtain ⟨hsame, hshut⟩ := ServerSession.step_handlers (h.delay ▸ hd.ne') (fun _ _ he => by cases he) hstep
    rw [hsame, hshut]
    exact h.handlers
  have hreq' : w.requested = m.watched.requested := hreq.trans (Bool.or_false _)
  have hsess : w.session = m.watched.session.onControlCallback kind now := (Option.some.inj hstep).symm
  by_cases hk : kind = .close
  · have hping : m.pingAfter w.session (.control kind now) = m.unanswered := if_pos hk
    rw [ServerSession.onControlCallback, if_pos hk] at hsess
    rw [hping]
    refine ⟨?_, ?_, hhandlers, fun hp => ?_, fun hp => ?_⟩
    · rw [hsess]
      exact h.delay
    · rw [hsess]
      exact h.ready
    · rw [hsess] at hp
      exact hreq'.trans (h.asked hp)
    · rw [hsess] at hp ⊢
      obtain ⟨sent, hsent, hle, hexp⟩ := h.pinged hp
      exact ⟨sent, hsent, hle.trans hnow, hexp⟩
  · rw [ServerSession.onControlCallback, if_neg hk] at hsess
    have hnext : w.session.pingState = .pingNext := by rw [hsess]; rfl
    refine ⟨?_, fun ec hec => ?_, hhandlers, fun hp => ?_, fun hp => ?_⟩
    · rw [hsess]
      exact h.delay
    · rw [hsess] at hec
      rcases List.mem_append.mp hec with hec | hec
      · exact h.ready ec hec
      · rw [List.eq_of_mem_replicate hec]
        exact fun hf => by cases hf
    · rw [hnext] at hp
      cases hp
    · rw [hnext] at hp
      cases hp

/-- A handler of the timer runs. If it calls `shutdown`, there is a reason for it, and it was the only handler. -/
theorem timer (h : KeptAlive pingDelay m) {now : Time} {isOpen : Bool}
    (hs : m.step (.onTimer now isOpen) = some m') :
    KeptAlive pingDelay m' ∧ (m'.watched.session.shutdowns ≠ m.watched.session.shutdowns →
      Excused pingDelay m (.onTimer now isOpen)) := by
  obtain ⟨w, hw, rfl⟩ := Option.map_eq_some_iff.mp hs
  obtain ⟨hnow, hnow', hreq, hstep⟩ := Watched.step_eq_some hw
  have hreq' : w.requested = m.watched.requested := hreq.trans (Bool.or_false _)
  have hn : w.now = now := hnow'
  obtain ⟨ec, rest, hr, hon⟩ := ServerSession.step_onTimer h.ready hstep
  have hcount := h.handlers
  have hrest : m.watched.session.shutdowns = 0 ∧
      ServerSession.handlers { m.watched.session with timerReady := rest } = 0 := by
    unfold ServerSession.handlers at hcount ⊢
    rw [hr, List.length_cons] at hcount
    dsimp only
    split at hcount
    · rename_i hstop
      exact ⟨hstop, by omega⟩
    · omega
  obtain ⟨hstop, hzero⟩ := hrest
  have hready : ∀ ec ∈ rest, ec ≠ .other := fun ec hec => h.ready ec (by rw [hr]; exact List.mem_cons_of_mem _ hec)
  have hmoved : ∀ s : ServerSession, s.timerReady = rest → ∀ ec ∈ (s.expiresAfter now pingDelay).asyncWait.timerReady,
      ec ≠ .other := by
    intro s hs ec hec
    rcases List.mem_append.mp hec with hec | hec
    · exact hready ec (hs ▸ hec)
    · rw [List.eq_of_mem_replicate hec]
      exact fun hf => by cases hf
  obtain ⟨session, now', requested⟩ := w
  dsimp only at hnow hreq' hn hon ⊢
  subst hn
  cases hon with
  | pings _ _ hnext =>
    refine ⟨⟨h.delay, ?_, ?_, fun hp => (by cases hp), fun _ => ⟨now', if_pos (Nat.lt_succ_self _), le_rfl, ?_⟩⟩,
      fun hf => absurd rfl hf⟩
    · dsimp only
      rw [h.delay]
      exact hmoved _ rfl
    · dsimp only
      rw [ServerSession.handlers_asyncWait, ServerSession.handlers_expiresAfter]
      exact (congrArg (· + 1) hzero).trans (if_pos hstop).symm
    · exact h.delay ▸ le_rfl
  | stops htime hopen =>
    have hsame := ServerSession.sameTimer_shutdown { m.watched.session with timerReady := rest }
    have hafter : m.pingAfter (ServerSession.shutdown { m.watched.session with timerReady := rest })
        (.onTimer now' isOpen) = m.unanswered := if_neg hsame.pings.le.not_gt
    rw [hafter]
    refine ⟨⟨hsame.pingDelay.trans h.delay, ?_, ?_, fun hp => ?_, fun hp => ?_⟩, fun _ => ?_⟩
    · dsimp only
      rw [hsame.timerReady]
      exact hready
    · dsimp only
      rw [ServerSession.handlers_shutdown, ServerSession.shutdowns_shutdown, if_neg (Nat.succ_ne_zero _)]
      exact hzero
    · exact hreq'.trans (h.asked (hsame.pingState.symm.trans hp))
    · obtain ⟨sent, hsent, hle, hexp⟩ := h.pinged (hsame.pingState.symm.trans hp)
      exact ⟨sent, hsent, hle.trans hnow, hexp.trans hsame.timerExpiry.ge⟩
    · cases isOpen with
      | false => exact .inr (.inl ⟨now', rfl⟩)
      | true =>
        cases hstate : m.watched.session.pingState with
        | pingNext => exact absurd hstate (hopen rfl)
        | pingSend =>
          obtain ⟨sent, hsent, -, hexp⟩ := h.pinged hstate
          exact .inr (.inr ⟨now', true, sent, rfl, hsent, hexp.trans htime⟩)
        | pingClose => exact .inl (h.asked hstate)
  | waits =>
    refine ⟨⟨h.delay, ?_, ?_, fun hp => hreq'.trans (h.asked hp), fun hp => ?_⟩, fun hf => absurd rfl hf⟩
    · dsimp only
      rw [h.delay]
      exact hmoved _ rfl
    · dsimp only
      rw [ServerSession.handlers_asyncWait, ServerSession.handlers_expiresAfter]
      exact (congrArg (· + 1) hzero).trans (if_pos hstop).symm
    · obtain ⟨sent, hsent, hle, -⟩ := h.pinged hp
      refine ⟨sent, (if_neg (lt_irrefl _)).trans hsent, hle.trans hnow, ?_⟩
      show sent + pingDelay ≤ now' + m.watched.session.pingDelay
      rw [h.delay]
      exact Int.add_le_add_right (hle.trans hnow) pingDelay

theorem step (h : KeptAlive pingDelay m) (hd : 0 < pingDelay) {e : ServerEvent} (hs : m.step e = some m') :
    KeptAlive pingDelay m' ∧ (m'.watched.session.shutdowns ≠ m.watched.session.shutdowns →
      (∃ now isOpen, e = .onTimer now isOpen) ∧ Excused pingDelay m e) := by
  have hquiet : (∀ now isOpen, e ≠ .onTimer now isOpen) →
      m'.watched.session.shutdowns = m.watched.session.shutdowns := by
    intro ht
    obtain ⟨w, hw, rfl⟩ := Option.map_eq_some_iff.mp hs
    obtain ⟨-, -, -, hstep⟩ := Watched.step_eq_some hw
    exact (ServerSession.step_handlers (h.delay ▸ hd.ne') ht hstep).2
  cases e with
  | onTimer now isOpen =>
    obtain ⟨h', hexc⟩ := h.timer hs
    exact ⟨h', fun hne => ⟨⟨now, isOpen, rfl⟩, hexc hne⟩⟩
  | control kind now => exact ⟨h.control hd hs, fun hne => absurd (hquiet fun _ _ hf => by cases hf) hne⟩
  | _ =>
    exact ⟨h.quiet hd (fun _ _ hf => by cases hf) (fun _ _ hf => by cases hf) hs,
      fun hne => absurd (hquiet fun _ _ hf => by cases hf) hne⟩

end KeptAlive

theorem keptAlive_of_reach {boundFuncs : BoundFuncs} {order : ByteOrder} {pingDelay now : Time} (hd : 0 < pingDelay)
    {G : MonitorPool → Act Empty Unit ServerEvent → Prop} {p : MonitorPool}
    (hp : monitorMachine.Reach G (.established boundFuncs order pingDelay now) p) : KeptAlive pingDelay p.shared :=
  Machine.invariant (KeptAlive.established boundFuncs order hd now) (fun _ o => o.elim)
    (fun _ _ _ h he => (h.step hd he).1) hp

/-- **Keep-alive only closes silent sessions.** In every run of a session with a positive ping delay there is exactly one
wait on the timer or handler of it until `shutdown` is called, and none afterwards; and a step that calls `shutdown` is
one of `on_timer`, when `close_session` has been called, or the stream is not open, or a ping was sent at least the delay
before and no ping or pong frame has come in since. -/
theorem keep_alive_closes_silent {boundFuncs : BoundFuncs} {order : ByteOrder} {pingDelay now : Time} (hd : 0 < pingDelay)
    {p : MonitorPool} (hp : monitorMachine.Reach Machine.Free (.established boundFuncs order pingDelay now) p) :
    p.shared.watched.session.timerWaits + p.shared.watched.session.timerReady.length =
        (if p.shared.watched.session.shutdowns = 0 then 1 else 0) ∧
      ∀ e m, p.shared.step e = some m → m.watched.session.shutdowns ≠ p.shared.watched.session.shutdowns →
        (∃ now isOpen, e = .onTimer now isOpen) ∧ Excused pingDelay p.shared e := by
  have h := keptAlive_of_reach hd hp
  exact ⟨h.handlers, fun e m hs => (h.step hd hs).2⟩

/-- A ping is sent at 10, and at 20 the timer runs out again. -/
def unansweredRun : List (Act Empty Unit ServerEvent) :=
  [.env (.timerExpires 10), .env (.onTimer 10 true), .env (.timerExpires 20)]

/-- The client has not answered the ping of time 10: the only handler is that of time 20, which calls `shutdown` and
closes the session. -/
theorem keep_alive_closes_unanswered : ∃ (p : MonitorPool) (m : Monitored),
    monitorMachine.Reach Machine.Free (.established closingFuncs .little 10 0) p ∧ p.shared.watched.requested = false ∧
    p.shared.watched.session.close = false ∧
    p.shared.watched.session.timerWaits + p.shared.watched.session.timerReady.length = 1 ∧
    p.shared.step (.onTimer 20 true) = some m ∧ m.watched.session.shutdowns = 1 ∧ m.watched.session.close = true ∧
    Excused 10 p.shared (.onTimer 20 true) := by
  have hrun : (monitorMachine.run (fun _ _ => true) (.initial (.established closingFuncs .little 10 0)) unansweredRun).any
      (fun p => decide (p.shared.watched.session.shutdowns = 0) && !p.shared.watched.requested &&
        !p.shared.watched.session.close && (p.shared.step (.onTimer 20 true)).any fun m =>
          decide (m.watched.session.shutdowns = 1) && m.watched.session.close) = true := by
    decide +kernel
  obtain ⟨p, hp, hf⟩ := Machine.Reach.exists_of_run (fun _ _ _ => trivial) unansweredRun hrun
  simp only [Bool.and_eq_true, Bool.not_eq_true', decide_eq_true_eq] at hf
  obtain ⟨⟨⟨hnone, hreq⟩, hopen⟩, hany⟩ := hf
  obtain ⟨m, hs, hm⟩ := (Option.any_eq_true _ _).mp hany
  simp only [Bool.and_eq_true, decide_eq_true_eq] at hm
  obtain ⟨hone, hclose⟩ := hm
  obtain ⟨hcount, hexc⟩ := keep_alive_closes_silent (by decide : (0 : Time) < 10) hp
  rw [if_pos hnone] at hcount
  have hne : m.watched.session.shutdowns ≠ p.shared.watched.session.shutdowns := by
    rw [hone, hnone]
    exact Nat.one_ne_zero
  exact ⟨p, m, hp, hreq, hopen, hcount, hs, hone, hclose, (hexc _ m hs hne).2⟩

end Radrpc
