import Radrpc.Ordering

/-!
# A healthy connection

Errors and close requests stay, so a connection without them has never had any.

* `ClientSession.Healthy`, `ServerSession.Healthy`, `Link.Healthy` : nothing has failed and nobody has asked to close;
  `Healthy.of_step`, `Link.Healthy.of_step` : so it was before;
* `Link.Paced` : both ends listen, and the bytes of a write that is over have entered the stream;
* `Link.paced_of_reach` : in every healthy state of a run.
-/

namespace Radrpc
open Words Conc

/-! ## The client session -/

namespace ClientSession

/-- Nothing has failed, and nobody has asked to close. -/
structure Healthy (s : ClientSession) : Prop where
  unblocked : s.blocked = false
  unclosed : .closeSession ∉ s.posted
  uncleared : ∀ rest, s.io ≠ .clearing rest

theorem blocked_iff {s : ClientSession} : s.blocked = false ↔
    s.close = false ∧ s.closeReceived = false ∧ s.writeError = false ∧ s.readError = false := by
  simp [blocked, and_assoc]

theorem closeSession_blocked (s : ClientSession) : s.closeSession.blocked = true := by
  unfold closeSession
  split
  · rename_i h
    simp only [blocked]
    simp [h]
  · rfl

variable {s s' : ClientSession} {funcs : BroadcastFuncs}

theorem onRead_frame_ok (h : s.closeReceived = false) (funcs : BroadcastFuncs) : ∃ readBuffer cache delivered handled,
    s.onRead funcs false = { s with
      readBuffer := readBuffer, cache := cache, delivered := delivered, handled := handled, io := .sweeping } := by
  unfold onRead
  rw [if_neg (by simp [h])]
  split
  · dsimp only
    split
    · exact ⟨_, s.cache, s.delivered, _, rfl⟩
    · exact ⟨_, s.cache, s.delivered, s.handled, rfl⟩
    · exact ⟨_, _, _, s.handled, rfl⟩
  · exact ⟨s.readBuffer, s.cache, s.delivered, s.handled, rfl⟩

theorem Healthy.of_onRead {ec : Bool} (h : (s.onRead funcs ec).Healthy) : ec = false ∧ s.closeReceived = false := by
  by_cases hc : (ec || s.closeReceived) = true
  · have hb := h.unblocked
    unfold onRead at hb
    rw [if_pos hc, closeSession_blocked] at hb
    cases hb
  · simpa using hc

theorem Healthy.of_step {e : ClientEvent} (hs : s.step funcs e = some s') (h : s'.Healthy) : s.Healthy := by
  have hidle : s.io = .idle → ∀ rest, s.io ≠ .clearing rest := fun hio rest hc => by cases hio.symm.trans hc
  cases moves_of_step hs with
  | handleSend m rest queue writing accepted started hio hp =>
    exact ⟨h.unblocked, by rw [hp]; simpa using h.unclosed, hidle hio⟩
  | handlePing rest ping pings hio hp => exact ⟨h.unblocked, by rw [hp]; simpa using h.unclosed, hidle hio⟩
  | closeSession rest close closing hio hp =>
    simp only [step] at hs
    split at hs
    · rename_i hp'
      cases hp.symm.trans hp'
      have hb := h.unblocked
      rw [← Option.some.inj hs, runPosted, closeSession_blocked] at hb
      cases hb
    · cases hs
  | onWrite i ec m completed promises io hio => exact ⟨h.unblocked, h.unclosed, hidle hio⟩
  | onRead ec bytes readBuffer cache delivered handled readError close closing io hio hr _ he =>
    rw [← he] at h
    obtain ⟨rfl, hc⟩ := Healthy.of_onRead h
    obtain ⟨_, _, _, _, he⟩ := onRead_frame_ok hc funcs
    rw [he] at h
    exact ⟨h.unblocked, h.unclosed, hidle hio⟩
  | pong hio => exact ⟨h.unblocked, h.unclosed, hidle hio⟩
  | closeReceived hio =>
    have hb := h.unblocked
    simp [blocked] at hb
  | ping hio => exact h
  | onPing hio => exact ⟨h.unblocked, h.unclosed, hidle hio⟩
  | onClose hio => exact ⟨h.unblocked, h.unclosed, hidle hio⟩
  | postClose => exact absurd (by simp) h.unclosed
  | popping clock writing started hio =>
    exact ⟨h.unblocked, h.unclosed, fun rest hc => by cases hio.symm.trans hc⟩
  | clearing clock m rest hio => exact absurd rfl (h.uncleared rest)
  | cleared clock close closing hio =>
    have hb := h.unblocked
    simp [blocked] at hb
  | sweeping clock hio => exact ⟨h.unblocked, h.unclosed, fun rest hc => by cases hio.symm.trans hc⟩

theorem Healthy.of_exec {t : Nat} {o : SessOp} {i : Clock} {r : o.Res} (hs : o.exec t i s = some (r, s'))
    (h : s'.Healthy) : s.Healthy := by
  rcases SessOp.exec_cases hs with ⟨c, rfl⟩ | ⟨_, _, _, -, rfl⟩ | ⟨_, -, -, rfl⟩ | ⟨_, ps, rfl, -⟩
  · exact ⟨h.unblocked, h.unclosed, h.uncleared⟩
  · exact ⟨h.unblocked, fun hm => h.unclosed (List.mem_append_left _ hm), h.uncleared⟩
  · exact ⟨h.unblocked, h.unclosed, h.uncleared⟩
  · exact ⟨h.unblocked, fun hm => h.unclosed (List.mem_append_left _ hm), h.uncleared⟩

theorem write_pace (s : ClientSession) :
    ∃ ms, s.write.started = s.started ++ ms ∧ s.write.writing = s.writing ++ ms := by
  unfold write
  split
  · exact ⟨[], by simp⟩
  · exact ⟨_, rfl, rfl⟩

theorem handleSend_pace (s : ClientSession) (m : DataSend) :
    ∃ ms, (s.handleSend m).started = s.started ++ ms ∧ (s.handleSend m).writing = s.writing ++ ms := by
  unfold handleSend
  split
  · exact ⟨[], by simp⟩
  · split
    · exact ⟨[], by simp⟩
    · dsimp only
      split
      · exact ⟨[], by simp⟩
      · exact write_pace { s with queue := _, accepted := s.accepted ++ [m] }

theorem pace_of_step {e : ClientEvent} (hs : s.step funcs e = some s') (he : ∀ i ec, e ≠ .onWrite i ec) :
    ∃ ms, s'.started = s.started ++ ms ∧ s'.writing = s.writing ++ ms := by
  cases moves_of_step hs with
  | handleSend m rest queue writing accepted started _ _ heq =>
    have hpace := handleSend_pace { s with posted := rest } m
    rw [heq] at hpace
    exact hpace
  | onWrite i ec => exact absurd rfl (he i ec)
  | popping clock writing started _ heq =>
    split at heq
    · have hpace := write_pace { s with queue := s.queue.popFront.2, io := .idle }
      rw [heq] at hpace
      exact hpace
    · cases heq
      exact ⟨[], by simp⟩
  | _ => exact ⟨[], by simp⟩

theorem Healthy.of_onWrite {i : Nat} {ec : Bool} (hs : s.step funcs (.onWrite i ec) = some s') (h : s'.Healthy) :
    ec = false ∧ s'.started = s.started := by
  cases moves_of_step hs with
  | onWrite _ _ m completed promises io _ _ _ he =>
    refine ⟨?_, rfl⟩
    rw [← he] at h
    cases ec with
    | true => exact absurd rfl (h.uncleared s.queue.entries)
    | false => rfl

theorem reading_of_step {e : ClientEvent} (hs : s.step funcs e = some s') (h : s'.Healthy)
    (hr : s.reading = true ∨ s.io = .sweeping) : s'.reading = true ∨ s'.io = .sweeping := by
  have hread : s.io ≠ .sweeping → s.reading = true := fun hne => hr.resolve_right hne
  cases moves_of_step hs with
  | onRead ec bytes readBuffer cache delivered handled readError close closing io hio _ _ he =>
    rw [← he] at h ⊢
    obtain ⟨rfl, hc⟩ := Healthy.of_onRead h
    obtain ⟨_, _, _, _, he⟩ := onRead_frame_ok hc funcs
    rw [he]
    exact .inr rfl
  | onWrite i ec m completed promises io hio => exact .inl (hread (by rw [hio]; exact fun hc => by cases hc))
  | popping clock writing started hio => exact .inl (hread (by rw [hio]; exact fun hc => by cases hc))
  | clearing clock m rest hio => exact absurd rfl (h.uncleared rest)
  | cleared clock close closing hio => exact .inl (hread (by rw [hio]; exact fun hc => by cases hc))
  | sweeping => exact .inl rfl
  | _ => exact hr

end ClientSession

/-! ## The server session -/

namespace ServerSession

/-- Nothing has failed, and nobody has asked to close. -/
structure Healthy (s : ServerSession) : Prop where
  unblocked : s.blocked = false
  willing : s.boundClose = false

theorem shutdown_blocked (s : ServerSession) : s.shutdown.blocked = true := by
  unfold shutdown
  dsimp only
  split
  · rename_i h
    simp only [blocked]
    simp [h]
  · rfl

variable {s s' : ServerSession}

theorem Healthy.of_callFunction {now : Time} (h : (s.callFunction now).Healthy) :
    s.Healthy ∧ ∃ header receiveBuffer receiveBufferRef response queue writing accepted started invoked,
      s.callFunction now = { s with
        header := header, receiveBuffer := receiveBuffer, receiveBufferRef := receiveBufferRef, response := response
        queue := queue, writing := writing, accepted := accepted, started := started, invoked := invoked } := by
  cases hf : handlerFor s.boundFuncs s.order s.receiveBuffer with
  | none =>
    obtain ⟨_, _, _, he⟩ := callFunction_none hf now
    rw [he] at h ⊢
    exact ⟨⟨h.unblocked, h.willing⟩, _, _, _, s.response, s.queue, s.writing, s.accepted, s.started, s.invoked, rfl⟩
  | some f =>
    rw [callFunction_some hf] at h ⊢
    have hwilling : (s.called f).boundClose = false := by
      by_contra hb
      rw [Bool.not_eq_false] at hb
      rw [if_pos hb] at h
      obtain ⟨_, _, _, _, _, _, _, he⟩ := (s.called f).closeSession_frame now
      have hw := h.willing
      rw [he] at hw
      exact Bool.noConfusion (hb.symm.trans hw)
    have hboth : s.boundClose = false ∧ (f (s.receiveBuffer.drop IoHeader.size) s.response).close = false :=
      Bool.or_eq_false_iff.mp hwilling
    rw [if_neg (by simp [hwilling])] at h ⊢
    have hcalled : ∃ header receiveBuffer receiveBufferRef response invoked, s.called f = { s with
        header := header, receiveBuffer := receiveBuffer, receiveBufferRef := receiveBufferRef, response := response
        invoked := invoked } := by
      refine ⟨(s.called f).header, (s.called f).receiveBuffer, (s.called f).receiveBufferRef, (s.called f).response,
        (s.called f).invoked, ?_⟩
      simp only [called, invoke, hboth.1, hboth.2, Bool.or_false]
    obtain ⟨header, receiveBuffer, receiveBufferRef, response, invoked, hc⟩ := hcalled
    split at h
    · rename_i hne
      rw [if_pos hne]
      obtain ⟨_, _, _, _, he⟩ := handleSend_frame { s.called f with response := [] }
        ⟨(s.called f).header, (s.called f).response⟩
      rw [he, hc] at h ⊢
      exact ⟨⟨h.unblocked, h.willing⟩, _, _, _, _, _, _, _, _, _, rfl⟩
    · rename_i hne
      rw [if_neg hne]
      rw [hc] at h ⊢
      exact ⟨⟨h.unblocked, h.willing⟩, _, _, _, _, s.queue, s.writing, s.accepted, s.started, _, rfl⟩

theorem Healthy.of_onRead {ec : Bool} {now : Time} (h : (s.onRead ec now).Healthy) :
    s.Healthy ∧ ec = false ∧ ∃ header receiveBufferRef queue writing accepted started invoked, s.onRead ec now = { s with
      header := header, receiveBuffer := [], receiveBufferRef := receiveBufferRef, response := [], queue := queue
      writing := writing, accepted := accepted, started := started, invoked := invoked, reading := true } := by
  by_cases hc : (ec || s.closeReceived) = true
  · have hb := h.unblocked
    obtain ⟨_, _, _, _, _, _, _, he⟩ := closeSession_frame { s with readError := true } now
    unfold onRead at hb
    rw [if_pos hc, he] at hb
    simp [blocked] at hb
  · unfold onRead at h ⊢
    rw [if_neg hc] at h ⊢
    simp only [Bool.or_eq_true, not_or, Bool.not_eq_true] at hc
    by_cases hopen : (!s.close && !s.writeError) = true
    · rw [if_pos hopen] at h ⊢
      have hcalled : (s.callFunction now).Healthy := ⟨h.unblocked, h.willing⟩
      obtain ⟨hs, _, _, _, _, _, _, _, _, _, he⟩ := Healthy.of_callFunction hcalled
      rw [he]
      exact ⟨hs, hc.1, _, _, _, _, _, _, _, rfl⟩
    · rw [if_neg hopen] at h
      obtain ⟨hclose, -, hwrite, -⟩ := blocked_eq_false.mp h.unblocked
      have hclose : s.close = false := hclose
      have hwrite : s.writeError = false := hwrite
      exact absurd (by simp [hclose, hwrite]) hopen

theorem onWrite_ok (h : s.blocked = false) (now : Time) :
    s.onWrite false now = if s.queue.tail = [] then { s with queue := s.queue.tail }
      else { s with queue := s.queue.tail }.write := by
  obtain ⟨hc, hr, -, he⟩ := blocked_eq_false.mp h
  unfold onWrite
  rw [if_neg (by simp [hc, hr, he])]

theorem Healthy.of_onWrite {ec : Bool} {now : Time} (h : (s.onWrite ec now).Healthy) : ec = false ∧ s.Healthy := by
  by_cases hc : (ec || s.close || s.closeReceived || s.readError) = true
  · have hb := h.unblocked
    obtain ⟨_, _, _, _, _, _, _, he⟩ := closeSession_frame { s with writeError := true, queue := [] } now
    unfold onWrite at hb
    rw [if_pos hc, he] at hb
    simp [blocked] at hb
  · have hsame : (s.onWrite ec now).writeError = s.writeError ∧ (s.onWrite ec now).boundClose = s.boundClose := by
      unfold onWrite
      rw [if_neg hc]
      dsimp only
      split
      · exact ⟨rfl, rfl⟩
      · obtain ⟨_, _, he⟩ := write_frame { s with queue := s.queue.tail }
        rw [he]
        exact ⟨rfl, rfl⟩
    have hwrite := (blocked_eq_false.mp h.unblocked).2.2.1
    simp only [Bool.or_eq_true, not_or, Bool.not_eq_true] at hc
    exact ⟨hc.1.1.1, blocked_eq_false.mpr ⟨hc.1.1.2, hc.1.2, hsame.1 ▸ hwrite, hc.2⟩, hsame.2 ▸ h.willing⟩

theorem Healthy.of_step {e : ServerEvent} (hs : s.step e = some s') (h : s'.Healthy) : s.Healthy := by
  cases e with
  | send data =>
    cases hs
    exact ⟨h.unblocked, h.willing⟩
  | handleSend =>
    simp only [step] at hs
    split at hs
    · cases hs
    · rename_i data rest _
      cases hs
      obtain ⟨_, _, _, _, he⟩ := handleSend_frame { s with posted := rest } data
      rw [he] at h
      exact ⟨h.unblocked, h.willing⟩
  | onWrite i ec now =>
    simp only [step] at hs
    split at hs
    · cases hs
      obtain ⟨-, hs⟩ := Healthy.of_onWrite h
      exact ⟨hs.unblocked, hs.willing⟩
    · cases hs
  | onRead ec bytes now =>
    simp only [step] at hs
    split at hs
    · cases hs
      obtain ⟨hs, -⟩ := Healthy.of_onRead h
      exact ⟨hs.unblocked, hs.willing⟩
    · cases hs
  | timerExpires now =>
    simp only [step] at hs
    split at hs
    · cases hs
      exact ⟨h.unblocked, h.willing⟩
    · cases hs
  | onTimer now isOpen =>
    simp only [step] at hs
    split at hs
    · cases hs
    · cases hs
      unfold onTimer at h
      split at h
      · exact ⟨h.unblocked, h.willing⟩
      · split at h
        · split at h
          · exact ⟨h.unblocked, h.willing⟩
          · have hb := h.unblocked
            rw [shutdown_blocked] at hb
            cases hb
        · exact ⟨h.unblocked, h.willing⟩
  | control kind now =>
    cases hs
    unfold onControlCallback at h
    split at h
    · have hb := h.unblocked
      simp [blocked] at hb
    · exact ⟨h.unblocked, h.willing⟩
  | onPing | onShutdown =>
    simp only [step] at hs
    split at hs
    · cases hs
      exact ⟨h.unblocked, h.willing⟩
    · cases hs

theorem write_pace (s : ServerSession) :
    ∃ ms, s.write.started = s.started ++ ms ∧ s.write.writing = s.writing ++ ms := by
  unfold write
  split
  · exact ⟨[], by simp⟩
  · exact ⟨_, rfl, rfl⟩

theorem handleSend_pace (s : ServerSession) (data : DataPush) :
    ∃ ms, (s.handleSend data).started = s.started ++ ms ∧ (s.handleSend data).writing = s.writing ++ ms := by
  unfold handleSend
  split
  · exact ⟨[], by simp⟩
  · split
    · exact ⟨[], by simp⟩
    · dsimp only
      split
      · exact ⟨[], by simp⟩
      · exact write_pace { s with queue := s.queue ++ [data], accepted := s.accepted ++ [data] }

theorem callFunction_pace (s : ServerSession) (now : Time) :
    ∃ ms, (s.callFunction now).started = s.started ++ ms ∧ (s.callFunction now).writing = s.writing ++ ms := by
  cases hf : handlerFor s.boundFuncs s.order s.receiveBuffer with
  | none =>
    obtain ⟨_, _, _, he⟩ := callFunction_none hf now
    rw [he]
    exact ⟨[], by simp⟩
  | some f =>
    have hsame : (s.called f).started = s.started ++ [] ∧ (s.called f).writing = s.writing ++ [] := by
      simp [called, invoke]
    rw [callFunction_some hf]
    split
    · obtain ⟨_, _, _, _, _, _, _, he⟩ := (s.called f).closeSession_frame now
      rw [he]
      exact ⟨[], hsame⟩
    · split
      · exact handleSend_pace { s.called f with response := [] } _
      · exact ⟨[], hsame⟩

theorem pace_of_step {e : ServerEvent} (hs : s.step e = some s') (hw : ∀ i ec now, e ≠ .onWrite i ec now) :
    ∃ ms, s'.started = s.started ++ ms ∧ s'.writing = s.writing ++ ms := by
  cases e with
  | send data =>
    cases hs
    exact ⟨[], by simp⟩
  | handleSend =>
    simp only [step] at hs
    split at hs
    · cases hs
    · rename_i data rest _
      cases hs
      exact handleSend_pace { s with posted := rest } data
  | onWrite i ec now => exact absurd rfl (hw i ec now)
  | onRead ec bytes now =>
    simp only [step] at hs
    split at hs
    · cases hs
      unfold onRead
      split
      · obtain ⟨_, _, _, _, _, _, _, he⟩ := closeSession_frame
          { s with reading := false, receiveBuffer := s.receiveBuffer ++ bytes, readError := true } now
        rw [he]
        exact ⟨[], by simp⟩
      · dsimp only
        split
        · exact callFunction_pace { s with reading := false, receiveBuffer := s.receiveBuffer ++ bytes } now
        · exact ⟨[], by simp⟩
    · cases hs
  | timerExpires now =>
    simp only [step] at hs
    split at hs
    · cases hs
      exact ⟨[], by simp⟩
    · cases hs
  | onTimer now isOpen =>
    simp only [step] at hs
    split at hs
    · cases hs
    · rename_i ec rest _
      cases hs
      obtain ⟨_, _, _, _, _, _, _, _, he⟩ := onTimer_frame { s with timerReady := rest } ec now isOpen
      rw [he]
      exact ⟨[], by simp⟩
  | control kind now =>
    cases hs
    unfold onControlCallback
    split
    · exact ⟨[], by simp⟩
    · exact ⟨[], by simp [expiresAfter]⟩
  | onPing | onShutdown =>
    simp only [step] at hs
    split at hs
    · cases hs
      exact ⟨[], by simp⟩
    · cases hs

theorem reading_of_step {e : ServerEvent} (hs : s.step e = some s') (h : s'.Healthy) (hr : s.reading = true) :
    s'.reading = true := by
  by_cases he : ∃ ec bytes now, e = .onRead ec bytes now
  · obtain ⟨ec, bytes, now, rfl⟩ := he
    simp only [step] at hs
    rw [if_pos hr] at hs
    cases hs
    obtain ⟨-, -, _, _, _, _, _, _, _, he⟩ := Healthy.of_onRead h
    rw [he]
  · obtain ⟨-, -, hsame, -⟩ := step_other (fun ec bytes now h => he ⟨ec, bytes, now, h⟩) hs
    exact hsame.trans hr

end ServerSession

/-! ## The connection -/

namespace Link

/-- Nothing has failed at either end, and nobody has asked to close. -/
structure Healthy (l : Link) : Prop where
  client : l.client.Healthy
  server : l.server.Healthy

/-- Both ends listen, and the writes whose bytes have not entered the stream are the last of those outstanding. -/
structure Paced (l : Link) : Prop where
  reading : l.client.reading = true ∨ l.client.io = .sweeping
  serverReading : l.server.reading = true
  clientPace : l.client.started.drop l.clientSent <:+ l.client.writing
  serverPace : l.server.started.drop l.serverSent <:+ l.server.writing

variable {o : ByteOrder} {l l' : Link} {bfuncs : BroadcastFuncs}

theorem pace_append {μ : Type} {started writing : List μ} {n : Nat} (h : started.drop n <:+ writing) (ms : List μ) :
    (started ++ ms).drop n <:+ writing ++ ms := by
  rw [List.drop_append]
  rcases Nat.le_total n started.length with hle | hle
  · rw [Nat.sub_eq_zero_of_le hle, List.drop_zero]
    obtain ⟨rest, hrest⟩ := h
    exact ⟨rest, by rw [← hrest, List.append_assoc]⟩
  · rw [List.drop_eq_nil_of_le hle, List.nil_append]
    exact (List.drop_suffix _ _).trans (List.suffix_append _ _)

theorem Healthy.of_step {e : LinkEvent} (hs : l.step bfuncs e = some l') (h : l'.Healthy) : l.Healthy := by
  cases e with
  | client e =>
    obtain ⟨-, s, hstep, rfl⟩ := Link.step_client hs
    exact ⟨h.client.of_step hstep, h.server⟩
  | server e =>
    obtain ⟨-, s, hstep, rfl⟩ := Link.step_server hs
    exact ⟨h.client, h.server.of_step hstep⟩
  | clientFlush body =>
    obtain ⟨m, -, -, rfl⟩ := Link.step_clientFlush hs
    exact ⟨h.client, h.server⟩
  | serverFlush =>
    obtain ⟨m, -, -, rfl⟩ := Link.step_serverFlush hs
    exact ⟨h.client, h.server⟩

namespace Paced

theorem established (funcs : BoundFuncs) (o : ByteOrder) (pingDelay now : Time) :
    Paced (.established funcs o pingDelay now) := by
  have hs : (ServerSession.established funcs o pingDelay now).reading = true ∧
      (ServerSession.established funcs o pingDelay now).started = [] := by
    unfold ServerSession.established
    dsimp only
    split
    · exact ⟨rfl, rfl⟩
    · exact ⟨rfl, rfl⟩
  refine ⟨.inl rfl, hs.1, List.nil_suffix, ?_⟩
  show (ServerSession.established funcs o pingDelay now).started.drop 0 <:+ _
  rw [hs.2]
  exact List.nil_suffix

theorem client (h : Paced l) {e : ClientEvent} {s : ClientSession} (hadm : l.admits (.client e) = true)
    (hs : l.client.step bfuncs e = some s) (hh : s.Healthy) :
    Paced { l with client := s, down := l.down.drop e.reads } := by
  refine ⟨ClientSession.reading_of_step hs hh h.reading, h.serverReading, ?_, h.serverPace⟩
  show s.started.drop l.clientSent <:+ s.writing
  by_cases he : ∃ i ec, e = .onWrite i ec
  · obtain ⟨i, ec, rfl⟩ := he
    obtain ⟨rfl, hst⟩ := ClientSession.Healthy.of_onWrite hs hh
    have hsent : l.clientSent = l.client.started.length := of_decide_eq_true hadm
    rw [hst, hsent, List.drop_length]
    exact List.nil_suffix
  · obtain ⟨ms, hst, hw⟩ := ClientSession.pace_of_step hs fun i ec h => he ⟨i, ec, h⟩
    rw [hst, hw]
    exact pace_append h.clientPace ms

theorem server (h : Paced l) {e : ServerEvent} {s : ServerSession} (hadm : l.admits (.server e) = true)
    (hs : l.server.step e = some s) (hh : s.Healthy) : Paced { l with server := s, up := l.up.drop e.reads } := by
  refine ⟨h.reading, ServerSession.reading_of_step hs hh h.serverReading, h.clientPace, ?_⟩
  show s.started.drop l.serverSent <:+ s.writing
  by_cases he : ∃ i ec now, e = .onWrite i ec now
  · obtain ⟨i, ec, now, rfl⟩ := he
    simp only [ServerSession.step] at hs
    split at hs
    · cases hs
      obtain ⟨rfl, hw⟩ := ServerSession.Healthy.of_onWrite hh
      have hsent : l.serverSent = l.server.started.length := of_decide_eq_true hadm
      have hnone : l.server.started.drop l.serverSent <:+ l.server.writing.eraseIdx i := by
        rw [hsent, List.drop_length]
        exact List.nil_suffix
      rw [ServerSession.onWrite_ok hw.unblocked]
      split
      · exact hnone
      · obtain ⟨ms, hst, hw⟩ := ServerSession.write_pace
          { l.server with writing := l.server.writing.eraseIdx i, queue := l.server.queue.tail }
        rw [hst, hw]
        exact pace_append hnone ms
    · cases hs
  · obtain ⟨ms, hst, hw⟩ := ServerSession.pace_of_step hs fun i ec now h => he ⟨i, ec, now, h⟩
    rw [hst, hw]
    exact pace_append h.serverPace ms

theorem step (h : Paced l) {e : LinkEvent} (hs : l.step bfuncs e = some l') (hh : l'.Healthy) : Paced l' := by
  cases e with
  | client e =>
    obtain ⟨hadm, s, hstep, rfl⟩ := Link.step_client hs
    exact h.client hadm hstep hh.client
  | server e =>
    obtain ⟨hadm, s, hstep, rfl⟩ := Link.step_server hs
    exact h.server hadm hstep hh.server
  | clientFlush body =>
    obtain ⟨m, -, -, rfl⟩ := Link.step_clientFlush hs
    exact ⟨h.reading, h.serverReading, (List.drop_suffix_drop_left _ (Nat.le_succ _)).trans h.clientPace, h.serverPace⟩
  | serverFlush =>
    obtain ⟨m, -, -, rfl⟩ := Link.step_serverFlush hs
    exact ⟨h.reading, h.serverReading, h.clientPace, (List.drop_suffix_drop_left _ (Nat.le_succ _)).trans h.serverPace⟩

theorem exec (h : Paced l) {t : Nat} {op : SessOp} {i : Clock} {r : op.Res} {s : ClientSession}
    (hs : op.exec t i l.client = some (r, s)) : Paced { l with client := s } := by
  obtain ⟨_, _, _, _, _, rfl⟩ := SessOp.exec_frame hs
  exact ⟨h.reading, h.serverReading, h.clientPace, h.serverPace⟩

end Paced

theorem paced_of_reach {responseTimeout : Time} {funcs : BoundFuncs} {pingDelay now : Time} {p : LinkPool}
    (hp : (linkMachine bfuncs responseTimeout).Reach Machine.Free (.established funcs o pingDelay now) p)
    (hh : p.shared.Healthy) : p.shared.Paced := by
  revert hh
  refine Machine.invariant (I := fun l : Link => l.Healthy → l.Paced) ?_ ?_ ?_ hp
  · exact fun _ => .established funcs o pingDelay now
  · intro t op i l r l' hl hex hh
    obtain ⟨s, hs, rfl⟩ := SessOp.execLink_eq_some hex
    exact (hl ⟨hh.client.of_exec hs, hh.server⟩).exec hs
  · intro e l l' hl hs hh
    exact (hl (hh.of_step hs)).step hs hh

end Link

end Radrpc
