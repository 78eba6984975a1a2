import Radrpc.Correlation
import Radrpc.Lib.Fifo
import Radrpc.Tracking

/-!
# Requests and responses keep their order

A connection is two pumps and two streams, and every hop keeps the order of the messages.

* `ServerSession.Replying` : the responses that a server session has accepted were made for the messages it has read,
  in the same order, and at most one for each;
* `ClientSession.sent`, `ClientSession.Posting` : the messages of a client session, in the order of their posts;
* `LinkOrdered` : the invariant of a connection;
* `requests_in_order` : the handlers of the server are called for the messages in the order in which the client posted
  them, at most once for each;
* `replies_in_order` : the responses reach the rows of the client in the order of their requests, at most one for each.
-/

namespace Radrpc
open Words Conc Fifo

/-! ## The server session -/

namespace ServerSession

/-- The responses among the messages that were accepted. -/
def replies (s : ServerSession) : List IoHeader :=
  (s.accepted.filter fun d => d.header.resultId ≠ 0).map DataPush.header

/-- A message is dispatched: a handler is invoked at most once, and its response is accepted at most once. -/
theorem callFunction_replies (s : ServerSession) (now : Time) :
    ((s.callFunction now).invoked = s.invoked ∧ (s.callFunction now).accepted = s.accepted) ∨
    ∃ q, (s.callFunction now).invoked = s.invoked ++ [q] ∧
      ((s.callFunction now).accepted = s.accepted ∨
        ∃ b, (s.callFunction now).accepted = s.accepted ++ [⟨q.1, b⟩]) := by
  cases hf : handlerFor s.boundFuncs s.order s.receiveBuffer with
  | none =>
    obtain ⟨_, _, _, he⟩ := callFunction_none hf now
    rw [he]
    exact .inl ⟨rfl, rfl⟩
  | some f =>
    refine .inr ⟨((s.called f).header, s.receiveBuffer.drop IoHeader.size), ?_⟩
    rw [callFunction_some hf]
    split
    · obtain ⟨_, _, _, _, _, _, _, he⟩ := (s.called f).closeSession_frame now
      rw [he]
      exact ⟨rfl, .inl rfl⟩
    · split
      · have ha := handleSend_accepts { s.called f with response := [] } ⟨(s.called f).header, (s.called f).response⟩
        obtain ⟨_, _, _, _, he⟩ := handleSend_frame { s.called f with response := [] }
          ⟨(s.called f).header, (s.called f).response⟩
        rw [he] at ha ⊢
        exact ⟨rfl, ha.imp_right fun ha => ⟨_, ha⟩⟩
      · exact ⟨rfl, .inl rfl⟩

theorem accepted_of_step {s s' : ServerSession} {e : ServerEvent} (hs : s.step e = some s') (hsend : e ≠ .handleSend)
    (hread : ∀ ec bytes now, e ≠ .onRead ec bytes now) : s'.accepted = s.accepted := by
  cases e with
  | handleSend => exact absurd rfl hsend
  | onRead ec bytes now => exact absurd rfl (hread ec bytes now)
  | send data =>
    cases hs
    rfl
  | onWrite i ec now =>
    simp only [step] at hs
    split at hs
    · cases hs
      obtain ⟨_, _, _, _, _, _, _, _, _, _, _, he⟩ := onWrite_frame { s with writing := s.writing.eraseIdx i } ec now
      rw [he]
    · cases hs
  | timerExpires now =>
    simp only [step] at hs
    split at hs
    · cases hs
      rfl
    · cases hs
  | onTimer now isOpen =>
    simp only [step] at hs
    split at hs
    · cases hs
    · rename_i ec rest _
      cases hs
      obtain ⟨_, _, _, _, _, _, _, _, he⟩ := onTimer_frame { s with timerReady := rest } ec now isOpen
      rw [he]
  | control kind now =>
    cases hs
    unfold onControlCallback
    split <;> rfl
  | onPing | onShutdown =>
    simp only [step] at hs
    split at hs
    · cases hs
      rfl
    · cases hs

theorem onRead_replies (s : ServerSession) (ec : Bool) (now : Time) :
    ((s.onRead ec now).invoked = s.invoked ∧ (s.onRead ec now).accepted = s.accepted) ∨
    ∃ q, (s.onRead ec now).invoked = s.invoked ++ [q] ∧
      ((s.onRead ec now).accepted = s.accepted ∨ ∃ b, (s.onRead ec now).accepted = s.accepted ++ [⟨q.1, b⟩]) := by
  unfold onRead
  split
  · obtain ⟨_, _, _, _, _, _, _, he⟩ := closeSession_frame { s with readError := true } now
    rw [he]
    exact .inl ⟨rfl, rfl⟩
  · dsimp only
    split
    · exact s.callFunction_replies now
    · exact .inl ⟨rfl, rfl⟩

/-- What waits to be sent are broadcasts, and the responses are those of invocations, in their order. -/
structure Replying (s : ServerSession) : Prop where
  broadcasts : ∀ d ∈ s.posted, d.header.resultId = 0
  replies : s.replies.Sublist (s.invoked.map Prod.fst)

namespace Replying

variable {s s' : ServerSession}

theorem established (funcs : BoundFuncs) (o : ByteOrder) (pingDelay now : Time) :
    Replying (.established funcs o pingDelay now) := by
  unfold ServerSession.established
  dsimp only
  split
  · exact ⟨fun _ h => (by cases h), .slnil⟩
  · exact ⟨fun _ h => (by cases h), .slnil⟩

theorem replies_append (s : ServerSession) {accepted : List DataPush} {d : DataPush} (ha : accepted = s.accepted ++ [d]) :
    ((accepted.filter fun d => d.header.resultId ≠ 0).map DataPush.header).Sublist (s.replies ++ [d.header]) := by
  rw [ha, List.filter_append, List.map_append]
  refine List.Sublist.append (.refl _) ?_
  exact (List.filter_sublist (l := [d])).map DataPush.header

theorem step (h : Replying s) {e : ServerEvent} (hs : s.step e = some s')
    (hsend : ∀ m, e = .send m → m.header.resultId = 0) : Replying s' := by
  by_cases he : e = .handleSend
  · subst he
    simp only [ServerSession.step] at hs
    split at hs
    · cases hs
    · rename_i data rest hp
      cases hs
      have hzero : data.header.resultId = 0 := h.broadcasts data (by rw [hp]; exact List.mem_cons_self)
      have hrest : ∀ d ∈ rest, d.header.resultId = 0 := fun d hd =>
        h.broadcasts d (by rw [hp]; exact List.mem_cons_of_mem _ hd)
      have ha := handleSend_accepts { s with posted := rest } data
      obtain ⟨queue, writing, accepted, started, hframe⟩ := handleSend_frame { s with posted := rest } data
      rw [hframe] at ha ⊢
      refine ⟨hrest, ?_⟩
      have hsame : (accepted.filter fun d => d.header.resultId ≠ 0) =
          s.accepted.filter fun d => d.header.resultId ≠ 0 := by
        rcases ha with ha | ha
        · rw [show accepted = s.accepted from ha]
        · rw [show accepted = s.accepted ++ [data] from ha, List.filter_append]
          simp [hzero]
      show ((accepted.filter fun d => d.header.resultId ≠ 0).map DataPush.header).Sublist _
      rw [hsame]
      exact h.replies
  by_cases hr : ∃ ec bytes now, e = .onRead ec bytes now
  · obtain ⟨ec, bytes, now, rfl⟩ := hr
    have hposted := posted_of_step hs (fun _ h => by cases h) (fun h => by cases h)
    simp only [ServerSession.step] at hs
    split at hs
    · obtain rfl := Option.some.inj hs
      refine ⟨by rw [hposted]; exact h.broadcasts, ?_⟩
      have hrep := onRead_replies { s with reading := false, receiveBuffer := s.receiveBuffer ++ bytes } ec now
      rcases hrep with ⟨hi, ha⟩ | ⟨q, hi, ha | ⟨b, ha⟩⟩
      · rw [ServerSession.replies, hi, ha]
        exact h.replies
      · rw [ServerSession.replies, hi, ha, List.map_append]
        exact h.replies.trans (List.sublist_append_left _ _)
      · rw [hi, List.map_append]
        exact (replies_append s ha).trans (h.replies.append (.refl _))
    · cases hs
  · have hread : ∀ ec bytes now, e ≠ .onRead ec bytes now := fun ec bytes now h => hr ⟨ec, bytes, now, h⟩
    have ha := accepted_of_step hs he hread
    obtain ⟨-, -, -, -, -, hi, -⟩ := step_other hread hs
    refine ⟨?_, by rw [ServerSession.replies, ha, hi]; exact h.replies⟩
    by_cases hdata : ∃ data, e = .send data
    · obtain ⟨data, rfl⟩ := hdata
      have hzero := hsend data rfl
      cases hs
      intro d hd
      rcases List.mem_append.mp hd with hd | hd
      · exact h.broadcasts d hd
      · rw [List.mem_singleton.mp hd]
        exact hzero
    · rw [posted_of_step hs (fun data h => hdata ⟨data, h⟩) he]
      exact h.broadcasts

end Replying

end ServerSession

/-! ## The client session -/

namespace ClientSession

/-- The messages that were accepted and those that wait for their `handle_send`: all that have been posted, in the order
of their posts, but the refused ones. -/
def sent (s : ClientSession) : List DataSend := s.accepted ++ s.posted.filterMap Posted.message

variable {s s' : ClientSession}

theorem handleSend_accepts (s : ClientSession) (m : DataSend) :
    (s.handleSend m).accepted = s.accepted ∨ (s.handleSend m).accepted = s.accepted ++ [m] := by
  unfold handleSend
  split
  · exact .inl rfl
  · split
    · exact .inl rfl
    · rename_i q _
      dsimp only
      split
      · exact .inr rfl
      · obtain ⟨_, _, he⟩ := write_frame { s with queue := q, accepted := s.accepted ++ [m] }
        rw [he]
        exact .inr rfl

theorem sent_of_step {funcs : BroadcastFuncs} {e : ClientEvent} (hs : s.step funcs e = some s') :
    s'.sent.Sublist s.sent := by
  have hskip : ∀ {h : Posted} {rest : List Posted}, s.posted = h :: rest →
      (s.accepted ++ rest.filterMap Posted.message).Sublist s.sent := by
    intro h rest hp
    rw [sent, hp]
    exact (List.Sublist.refl _).append ((List.sublist_cons_self h rest).filterMap _)
  cases moves_of_step hs with
  | handleSend m rest queue writing accepted started _ hp he =>
    have ha := handleSend_accepts { s with posted := rest } m
    rw [he] at ha
    rcases ha with ha | ha
    · rw [sent, show accepted = s.accepted from ha]
      exact hskip hp
    · rw [sent, sent, show accepted = s.accepted ++ [m] from ha, hp, List.append_assoc]
      exact .refl _
  | handlePing rest ping pings _ hp => exact hskip hp
  | closeSession rest close closing _ hp => exact hskip hp
  | postClose =>
    rw [sent, List.filterMap_append]
    simp [sent, Posted.message]
  | _ => exact .refl _

theorem sent_of_exec {t : Nat} {o : SessOp} {i : Clock} {r : o.Res} (hs : o.exec t i s = some (r, s')) :
    s'.sent = s.sent ∨ ∃ callId resultId body, o = .post callId resultId body ∧
      s'.promiseCount = s.promiseCount + 1 ∧ s'.sent = s.sent ++ [⟨s.promiseCount, t, body, .new callId resultId⟩] := by
  rcases SessOp.exec_cases hs with ⟨c, rfl⟩ | ⟨callId, resultId, body, ho, rfl⟩ | ⟨_, -, -, rfl⟩ | ⟨_, ps, rfl, hps⟩
  · exact .inl rfl
  · refine .inr ⟨callId, resultId, body, ho, rfl, ?_⟩
    rw [sent, List.filterMap_append, ← List.append_assoc]
    rfl
  · exact .inl rfl
  · have hnil : ps.filterMap Posted.message = [] := by
      apply List.filterMap_eq_nil_iff.mpr
      intro x hx
      cases hmsg : x.message with
      | none => rfl
      | some m => exact absurd (Posted.message_eq_some hmsg ▸ hx) (hps m)
    rw [sent, List.filterMap_append, hnil, List.append_nil]
    exact .inl rfl

/-- The promises of the messages are made in the order of the posts. -/
structure Posting (s : ClientSession) : Prop where
  ordered : (s.sent.map DataSend.callback).Pairwise (· < ·)
  fresh : ∀ m ∈ s.sent, m.callback < s.promiseCount

namespace Posting

theorem step (h : Posting s) {funcs : BroadcastFuncs} {e : ClientEvent} (hs : s.step funcs e = some s') : Posting s' := by
  have hsub := sent_of_step hs
  have hcount := (promises_of_step hs).1
  exact ⟨h.ordered.sublist (hsub.map _), fun m hm => hcount ▸ h.fresh m (hsub.subset hm)⟩

theorem exec (h : Posting s) {t : Nat} {o : SessOp} {i : Clock} {r : o.Res} (hs : o.exec t i s = some (r, s')) :
    Posting s' := by
  have hle : s.promiseCount ≤ s'.promiseCount := by
    rcases promiseCount_of_exec hs with hc | ⟨_, _, _, _, hc⟩ <;> omega
  rcases sent_of_exec hs with he | ⟨callId, id, body, -, hc, he⟩
  · exact ⟨he ▸ h.ordered, fun m hm => (h.fresh m (he ▸ hm)).trans_le hle⟩
  · refine ⟨?_, fun m hm => ?_⟩
    · rw [he, List.map_append, List.pairwise_append]
      refine ⟨h.ordered, List.pairwise_singleton _ _, fun cb hcb cb' hcb' => ?_⟩
      obtain ⟨m, hm, rfl⟩ := List.mem_map.mp hcb
      rw [List.map_singleton, List.mem_singleton] at hcb'
      rw [hcb']
      exact h.fresh m hm
    · rw [he] at hm
      rcases List.mem_append.mp hm with hm | hm
      · exact (h.fresh m hm).trans_le hle
      · rw [List.mem_singleton.mp hm, hc]
        exact Nat.lt_succ_self _

end Posting

theorem expired_step {funcs : BroadcastFuncs} {e : ClientEvent} (hs : s.step funcs e = some s') {cb : PromiseRef}
    (h : s.promises cb = .expired) : s'.promises cb = .expired := by
  have key : ∀ m b, resolve s.promises m b cb = .expired := by
    intro m b
    by_cases hcb : cb = m.callback
    · subst hcb
      rw [resolve, Function.update_self, h]
      rfl
    · rwa [resolve, Function.update_of_ne hcb]
  obtain ⟨-, -, hp | ⟨_, _, m', -, -, -, -, -, hp⟩ | ⟨_, m, _, -, -, hp⟩⟩ := promises_of_step hs
  · rwa [hp]
  · rw [hp]
    exact key m' true
  · rw [hp]
    exact key m false

theorem expired_exec {t : Nat} {o : SessOp} {i : Clock} {r : o.Res} (hs : o.exec t i s = some (r, s')) {cb : PromiseRef}
    (hlt : cb < s.promiseCount) (h : s.promises cb = .expired) : s'.promises cb = .expired := by
  rcases SessOp.exec_cases hs with ⟨c, rfl⟩ | ⟨_, _, _, -, rfl⟩ | ⟨callback, -, -, rfl⟩ | ⟨_, ps, rfl, -⟩
  · exact h
  · dsimp only
    rwa [Function.update_of_ne (Nat.ne_of_lt hlt)]
  · dsimp only
    by_cases hcb : cb = callback
    · rw [hcb, Function.update_self]
    · rwa [Function.update_of_ne hcb]
  · exact h

end ClientSession

/-! ## The connection -/

/-- What the stream holds of a message: its header, and its body as long as the caller waits for the write. -/
def Flushed (o : ByteOrder) (s : ClientSession) (m : DataSend) (msg : Bytes) : Prop :=
  ∃ body, msg = m.header.encode o ++ body ∧ (body = m.body ∨ s.promises m.callback = .expired)

def Invoked (s : ClientSession) (m : DataSend) (q : IoHeader × Bytes) : Prop :=
  q.1 = m.header ∧ (q.2 = m.body ∨ s.promises m.callback = .expired)

/-- Both directions of a connection keep the order. -/
structure LinkOrdered (o : ByteOrder) (l : Link) : Prop where
  clientOrder : l.client.order = o
  serverOrder : l.server.order = o
  readBuffer : l.client.reading = true → l.client.readBuffer = []
  resolved : Resolved l.client
  posting : l.client.Posting
  answering : l.server.Answering
  replying : l.server.Replying
  pump : l.server.pump.Inv queueSendMax
  up : InOrder (Flushed o l.client) (Invoked l.client) l.client.started l.clientSent l.up l.server.invoked
  down : InOrder (fun d msg => msg = d.wire o) (fun d id => id = d.header.resultId) l.server.started l.serverSent l.down
    l.client.delivered

namespace LinkOrdered

variable {o : ByteOrder} {l l' : Link}

theorem established (funcs : BoundFuncs) (o : ByteOrder) (pingDelay now : Time) :
    LinkOrdered o (.established funcs o pingDelay now) := by
  have hs : ∀ s : ServerSession, s = .established funcs o pingDelay now → s.order = o ∧ s.invoked = [] ∧
      s.started = [] ∧ s.pump.Inv queueSendMax := by
    rintro s rfl
    unfold ServerSession.established
    dsimp only
    split
    · exact ⟨rfl, rfl, rfl, Pump.State.Inv.empty _⟩
    · exact ⟨rfl, rfl, rfl, Pump.State.Inv.empty _⟩
  obtain ⟨ho, hi, hst, hinv⟩ := hs _ rfl
  refine ⟨rfl, ho, fun _ => rfl, .established o, ⟨.nil, fun m hm => (by cases hm)⟩, .established funcs o pingDelay now,
    .established funcs o pingDelay now, hinv, ?_, ?_⟩
  · show InOrder _ _ [] 0 [] (ServerSession.established funcs o pingDelay now).invoked
    rw [hi]
    exact .start
  · show InOrder _ _ (ServerSession.established funcs o pingDelay now).started 0 [] []
    rw [hst]
    exact .start

theorem started_fresh (h : LinkOrdered o l) {m : DataSend} (hm : m ∈ l.client.started) :
    m.callback < l.client.promiseCount :=
  h.posting.fresh m (List.mem_append_left _ (h.resolved.pump.inv.started_isPrefix.subset hm))

theorem up_of_client (h : LinkOrdered o l) {c : ClientSession} (hst : l.client.started <+: c.started)
    (hexp : ∀ m ∈ l.client.started, l.client.promises m.callback = .expired → c.promises m.callback = .expired) :
    InOrder (Flushed o c) (Invoked c) c.started l.clientSent l.up l.server.invoked := by
  refine (h.up.mono (fun m hm msg hf => ?_) fun m hm q hq => ?_).grow hst
  · obtain ⟨body, he, hb⟩ := hf
    exact ⟨body, he, hb.imp_right (hexp m hm)⟩
  · exact ⟨hq.1, hq.2.imp_right (hexp m hm)⟩

theorem exec (h : LinkOrdered o l) {t : Nat} {op : SessOp} {i : Clock} {r : op.Res} {s : ClientSession}
    (hs : op.exec t i l.client = some (r, s)) : LinkOrdered o { l with client := s } := by
  have hup : InOrder (Flushed o s) (Invoked s) s.started l.clientSent l.up l.server.invoked := by
    refine h.up_of_client ?_ fun m hm => ClientSession.expired_exec hs (h.started_fresh hm)
    obtain ⟨_, _, _, _, _, rfl⟩ := SessOp.exec_frame hs
    exact List.prefix_refl _
  have hres := h.resolved.exec hs
  have hpost := h.posting.exec hs
  obtain ⟨_, _, _, _, _, rfl⟩ := SessOp.exec_frame hs
  exact ⟨h.clientOrder, h.serverOrder, h.readBuffer, hres, hpost, h.answering, h.replying, h.pump, hup, h.down⟩

theorem client (h : LinkOrdered o l) {bfuncs : BroadcastFuncs} {e : ClientEvent} {s : ClientSession}
    (hadm : l.admits (.client e) = true) (hs : l.client.step bfuncs e = some s) :
    LinkOrdered o { l with client := s, down := l.down.drop e.reads } := by
  obtain ⟨ho, hbuf⟩ := ClientSession.readBuffer_of_step h.readBuffer hs
  obtain ⟨-, hstep⟩ := ClientSession.step_pump h.resolved.pump hs
  have hup := h.up_of_client hstep.started fun m _ => ClientSession.expired_step hs
  refine ⟨ho.trans h.clientOrder, h.serverOrder, hbuf, h.resolved.step hs, h.posting.step hs, h.answering, h.replying,
    h.pump, hup, ?_⟩
  by_cases hr : ∃ bytes, e = .onRead false bytes
  · obtain ⟨bytes, rfl⟩ := hr
    obtain ⟨d, rfl, hskip, hhear⟩ := h.down.pop (of_decide_eq_true hadm)
    show InOrder _ _ l.server.started l.serverSent (l.down.drop 1) s.delivered
    rcases ClientSession.cache_of_step hs with ⟨-, hd⟩ | ⟨bytes, header, he, hrd, -, hh, -, -, hd⟩ | ⟨_, _, -, -, -, hd⟩ |
      ⟨clock, he, -⟩
    · rw [hd]
      exact hskip
    · cases he
      rw [h.readBuffer hrd, List.nil_append, h.clientOrder, DataPush.wire, IoHeader.read_encode] at hh
      rw [hd]
      split
      · exact hhear _ (by rw [hh])
      · exact hskip
    · rw [hd]
      exact hskip
    · cases he
  · have hreads : e.reads = 0 := by
      unfold ClientEvent.reads
      split
      · exact absurd ⟨_, rfl⟩ hr
      · rfl
    have hd : s.delivered = l.client.delivered := by
      rcases ClientSession.cache_of_step hs with ⟨-, hd⟩ | ⟨bytes, _, he, -⟩ | ⟨_, _, -, -, -, hd⟩ | ⟨_, -, -, hd⟩
      · exact hd
      · exact absurd ⟨bytes, he⟩ hr
      · exact hd
      · exact hd
    show InOrder _ _ l.server.started l.serverSent (l.down.drop e.reads) s.delivered
    rw [hreads, List.drop_zero, hd]
    exact h.down

theorem server (h : LinkOrdered o l) {e : ServerEvent} {s : ServerSession} (hadm : l.admits (.server e) = true)
    (hs : l.server.step e = some s) : LinkOrdered o { l with server := s, up := l.up.drop e.reads } := by
  have hsend := Link.resultId_of_admits hadm
  obtain ⟨hans, -, ho, hinv⟩ := h.answering.step hs hsend
  have hstep := ServerSession.step_pump h.pump hs
  refine ⟨h.clientOrder, ho.trans h.serverOrder, h.readBuffer, h.resolved, h.posting, hans, h.replying.step hs hsend,
    hstep.inv h.pump, ?_, h.down.grow hstep.started⟩
  show InOrder _ _ l.client.started l.clientSent (l.up.drop e.reads) s.invoked
  by_cases hr : ∃ bytes now, e = .onRead false bytes now
  · obtain ⟨bytes, now, rfl⟩ := hr
    obtain ⟨m, ⟨body, rfl, hbody⟩, hskip, hhear⟩ := h.up.pop (of_decide_eq_true hadm)
    rcases hinv with hi | ⟨_, _, he, -, hi⟩
    · rw [hi]
      exact hskip
    · cases he
      rw [hi, h.serverOrder, IoHeader.read_encode, IoHeader.drop_encode]
      exact hhear _ ⟨rfl, hbody⟩
  · have hreads : e.reads = 0 := by
      unfold ServerEvent.reads
      split
      · exact absurd ⟨_, _, rfl⟩ hr
      · rfl
    rcases hinv with hi | ⟨bytes, now, he, -⟩
    · rw [hreads, List.drop_zero, hi]
      exact h.up
    · exact absurd ⟨bytes, now, he⟩ hr

theorem clientFlush (h : LinkOrdered o l) {body : Bytes} (hs : l.clientFlush body = some l') : LinkOrdered o l' := by
  unfold Link.clientFlush at hs
  split at hs
  · cases hs
  · rename_i m hget
    split at hs
    · rename_i hm
      cases hs
      refine ⟨h.clientOrder, h.serverOrder, h.readBuffer, h.resolved, h.posting, h.answering, h.replying, h.pump, ?_,
        h.down⟩
      refine h.up.write hget ⟨body, by rw [h.clientOrder], ?_⟩
      cases hp : l.client.promises m.callback with
      | pending => exact .inl (hm.2 hp)
      | ready b => exact absurd hp (h.resolved.not_ready_of_writing hm.1 b)
      | expired => exact .inr rfl
    · cases hs

theorem step (h : LinkOrdered o l) {bfuncs : BroadcastFuncs} {e : LinkEvent} (hs : l.step bfuncs e = some l') :
    LinkOrdered o l' := by
  cases e with
  | client e =>
    obtain ⟨hadm, s, hstep, rfl⟩ := Link.step_client hs
    exact h.client hadm hstep
  | server e =>
    obtain ⟨hadm, s, hstep, rfl⟩ := Link.step_server hs
    exact h.server hadm hstep
  | clientFlush body => exact h.clientFlush hs
  | serverFlush =>
    obtain ⟨m, -, hget, rfl⟩ := Link.step_serverFlush hs
    exact ⟨h.clientOrder, h.serverOrder, h.readBuffer, h.resolved, h.posting, h.answering, h.replying, h.pump, h.up,
      h.down.write hget (by rw [h.serverOrder])⟩

/-! ## What the order says -/

theorem started_sublist (h : LinkOrdered o l) : l.client.started.Sublist l.client.sent :=
  h.resolved.pump.inv.started_isPrefix.sublist.trans (List.sublist_append_left _ _)

theorem posts (h : LinkOrdered o l) : (l.client.started.map DataSend.callback).Pairwise (· < ·) :=
  h.posting.ordered.sublist (h.started_sublist.map _)

theorem served (h : LinkOrdered o l) : ∃ served, served.Sublist (l.client.started.take l.clientSent) ∧
    List.Forall₂ (Invoked l.client) served l.server.invoked :=
  h.up.heard_sublist

theorem delivered (h : LinkOrdered o l) :
    (l.client.delivered.filter (· ≠ 0)).Sublist (l.server.invoked.map fun q => q.1.resultId) := by
  obtain ⟨picked, hpick, hheard⟩ := h.down.heard_sublist
  have hids : l.client.delivered = picked.map fun d => d.header.resultId := by
    rw [← List.forall₂_eq_eq_eq, List.forall₂_map_right_iff]
    exact hheard.flip
  have hacc : picked.Sublist l.server.accepted :=
    hpick.trans ((List.take_sublist _ _).trans h.pump.started_isPrefix.sublist)
  have hreplies := h.replying.replies.map IoHeader.resultId
  rw [ServerSession.replies, List.map_map, List.map_map] at hreplies
  rw [hids, List.filter_map]
  exact ((hacc.filter _).map _).trans hreplies

theorem invoked (h : LinkOrdered o l) : (l.server.invoked.map fun q => q.1.resultId).Sublist
    (l.client.started.map fun m => m.header.resultId) := by
  obtain ⟨served, hserved, hheard⟩ := h.served
  have hids : (l.server.invoked.map fun q => q.1.resultId) = served.map fun m => m.header.resultId := by
    rw [← List.forall₂_eq_eq_eq, List.forall₂_map_left_iff, List.forall₂_map_right_iff]
    exact hheard.flip.imp fun q m hq => congrArg IoHeader.resultId hq.1
  rw [hids]
  exact (hserved.trans (List.take_sublist _ _)).map _

end LinkOrdered

/-! ## The result ids -/

/-- The call has an id, and has not posted its message yet. -/
def SessPhase.unposted : SessPhase → Bool
  | .queued _ => true
  | _ => false

theorem SessPhase.id_kept {call : SessCall} {phase : SessPhase} {o : SessOp} {r : o.Res} {id : UInt64}
    (hpre : Allows call phase o) (hid : phase.id = some id) (hu : phase.unposted = false) :
    (phase.next o r).id = some id ∧ (phase.next o r).unposted = false := by
  cases hpre with
  | queue callId body recv valid => cases hid
  | postSend callId body => cases hid
  | postRequest callId body recv id' => cases hu
  | waitWritten id' callback => cases r <;> exact ⟨hid, rfl⟩
  | find callId body recv id' callback => cases r <;> exact ⟨hid, rfl⟩
  | await callId body recv id' row => exact ⟨hid, rfl⟩
  | take callId body recv id' row success buffer => exact ⟨hid, rfl⟩
  | postPing => cases hid
  | resetPong => cases hid
  | waitPong => cases hid

/-- The result ids of the requests in a list of messages. -/
def requestIds (ms : List DataSend) : List UInt64 := (ms.map fun m => m.header.resultId).filter (· ≠ 0)

/-- Each request was posted by the call that has its id, and by this call once. -/
structure Booked (s : ClientSession) (views : Nat → Option SessView) : Prop where
  nodup : (requestIds s.sent).Nodup
  owner : ∀ m ∈ s.sent, m.header.resultId ≠ 0 →
    ∃ v, views m.owner = some v ∧ v.phase.id = some m.header.resultId ∧ v.phase.unposted = false

namespace Booked

variable {s s' : ClientSession} {views : Nat → Option SessView}

theorem call (h : Booked s views) {t : Nat} (ht : views t = none) (c : SessCall) :
    Booked s (Function.update views t (some ⟨c, .start⟩)) := by
  refine ⟨h.nodup, fun m hm h0 => ?_⟩
  obtain ⟨v, hv, hid, hu⟩ := h.owner m hm h0
  have hne : m.owner ≠ t := by
    intro he
    rw [he, ht] at hv
    cases hv
  exact ⟨v, by rwa [Function.update_of_ne hne], hid, hu⟩

theorem env (h : Booked s views) (hsub : s'.sent.Sublist s.sent) : Booked s' views :=
  ⟨((hsub.map _).filter _).nodup h.nodup, fun m hm => h.owner m (hsub.subset hm)⟩

theorem exec (h : Booked s views) (hn : Numbered s views) {t : Nat} {o : SessOp} {i : Clock} {r : o.Res} {v : SessView}
    (hv : views t = some v) (hpre : v.phase.Allows v.call o) (hs : o.exec t i s = some (r, s')) :
    Booked s' (Function.update views t (some { v with phase := v.phase.next o r })) := by
  have hkeep : ∀ m ∈ s.sent, m.header.resultId ≠ 0 →
      ∃ w, Function.update views t (some { v with phase := v.phase.next o r }) m.owner = some w ∧
        w.phase.id = some m.header.resultId ∧ w.phase.unposted = false := by
    intro m hm h0
    obtain ⟨w, hw, hid, hu⟩ := h.owner m hm h0
    by_cases ht : m.owner = t
    · rw [ht] at hw ⊢
      rw [hv] at hw
      cases hw
      obtain ⟨hid', hu'⟩ := SessPhase.id_kept (r := r) hpre hid hu
      exact ⟨_, Function.update_self _ _ _, hid', hu'⟩
    · exact ⟨w, by rwa [Function.update_of_ne ht], hid, hu⟩
  rcases ClientSession.sent_of_exec hs with he | ⟨callId, id, body, rfl, -, he⟩
  · exact ⟨he ▸ h.nodup, fun m hm => hkeep m (he ▸ hm)⟩
  · have hids : requestIds s'.sent = requestIds s.sent ++ [id].filter (· ≠ 0) := by
      rw [he, requestIds, requestIds, List.map_append, List.filter_append]
      rfl
    obtain ⟨call, phase⟩ := v
    cases hpre with
    | postSend =>
      refine ⟨by rw [hids]; simpa using h.nodup, fun m hm h0 => ?_⟩
      rw [he] at hm
      rcases List.mem_append.mp hm with hm | hm
      · exact hkeep m hm h0
      · rw [List.mem_singleton.mp hm] at h0
        exact absurd rfl h0
    | postRequest _ _ recv =>
      refine ⟨?_, fun m hm h0 => ?_⟩
      · rw [hids, List.nodup_append]
        refine ⟨h.nodup, (List.nodup_singleton id).filter _, fun a ha b hb hab => ?_⟩
        obtain ⟨hb, hb0⟩ := List.mem_filter.mp hb
        have hne : id ≠ 0 := by
          rw [List.mem_singleton.mp hb] at hb0
          exact of_decide_eq_true hb0
        rw [hab, List.mem_singleton.mp hb] at ha
        obtain ⟨m, hm, hid⟩ := List.mem_map.mp (List.mem_of_mem_filter ha)
        obtain ⟨w, hw, hwid, hu⟩ := h.owner m hm (by rw [hid]; exact hne)
        have ht : m.owner = t := hn.distinct m.owner t w _ id hw hv (hid ▸ hwid) rfl hne
        rw [ht, hv] at hw
        cases hw
        cases hu
      · rw [he] at hm
        rcases List.mem_append.mp hm with hm | hm
        · exact hkeep m hm h0
        · rw [List.mem_singleton.mp hm]
          exact ⟨_, Function.update_self _ _ _, rfl, rfl⟩

end Booked

/-! ## Runs -/

/-- The invariant of a connection; the ids are told apart as long as the id counter has not gone round. -/
structure LinkOrderedRun (o : ByteOrder) (l : Link) (views : Nat → Option SessView) : Prop where
  ordered : LinkOrdered o l
  booked : l.client.cache.allocated < 2 ^ 64 → Numbered l.client views ∧ Booked l.client views

theorem linkOrdered_of_reach {bfuncs : BroadcastFuncs} {responseTimeout : Time} {funcs : BoundFuncs} {o : ByteOrder}
    {pingDelay now : Time} {p : LinkPool}
    (hp : (linkMachine bfuncs responseTimeout).Reach Machine.Free (.established funcs o pingDelay now) p) :
    ∃ views, LinkOrderedRun o p.shared views ∧
      Machine.Linked sessDiscipline (fun _ c r v => v.call = c ∧ v.Returns r) p views := by
  refine Machine.sound (fun _ c => ⟨c, .start⟩) ?_ (fun _ c => sessCall_ok responseTimeout c) ?_ ?_ ?_ hp
  · refine ⟨.established funcs o pingDelay now, fun _ => ⟨.start (.new _), .nil, fun m hm => (by cases hm)⟩⟩
  · intro p views t c _ _ hinv _ ht
    exact ⟨hinv.ordered, fun hlt => ⟨(hinv.booked hlt).1.call t c, (hinv.booked hlt).2.call ht c⟩⟩
  · intro p views t i op v r l' _ _ hinv _ _ hv hpre hex
    obtain ⟨s, hs, rfl⟩ := SessOp.execLink_eq_some hex
    refine ⟨hinv.ordered.exec hs, fun hlt => ?_⟩
    obtain ⟨hn, hb⟩ := hinv.booked ((SessOp.exec_allocated_le hs).trans_lt hlt)
    exact ⟨hn.exec hv hpre hs hlt, hb.exec hn hv hpre hs⟩
  · intro p views e l' _ _ hinv _ he
    have he : p.shared.step bfuncs e = some l' := he
    refine ⟨hinv.ordered.step he, fun hlt => ?_⟩
    rw [Link.allocated_of_step he] at hlt
    obtain ⟨hn, hb⟩ := hinv.booked hlt
    cases e with
    | client e =>
      obtain ⟨-, s, hs, rfl⟩ := Link.step_client he
      exact ⟨hn.step hs hlt, hb.env (ClientSession.sent_of_step hs)⟩
    | server e =>
      obtain ⟨-, s, -, rfl⟩ := Link.step_server he
      exact ⟨hn, hb⟩
    | clientFlush body =>
      obtain ⟨m, -, -, rfl⟩ := Link.step_clientFlush he
      exact ⟨hn, hb⟩
    | serverFlush =>
      obtain ⟨m, -, -, rfl⟩ := Link.step_serverFlush he
      exact ⟨hn, hb⟩

/-- **Requests are served in order, and at most once.** Whatever the callers, both io threads and the stream do, the
messages reach `async_write` in the order in which they were posted, and the handlers of the server have been called
for some of them, once for each and in this order: with the header that was sent, and with the bytes of the call unless
the caller has stopped waiting for the write. -/
theorem requests_in_order {bfuncs : BroadcastFuncs} {responseTimeout : Time} {funcs : BoundFuncs} {o : ByteOrder}
    {pingDelay now : Time} {p : LinkPool}
    (hp : (linkMachine bfuncs responseTimeout).Reach Machine.Free (.established funcs o pingDelay now) p) :
    (p.shared.client.started.map DataSend.callback).Pairwise (· < ·) ∧
      ∃ served, served.Sublist (p.shared.client.started.take p.shared.clientSent) ∧
        List.Forall₂ (Invoked p.shared.client) served p.shared.server.invoked := by
  obtain ⟨views, hinv, -⟩ := linkOrdered_of_reach hp
  exact ⟨hinv.ordered.posts, hinv.ordered.served⟩

/-- Two requests; the one with the larger id is posted first. -/
def crossedRun : List (Act SessCall Clock LinkEvent) :=
  let first := (IoHeader.new 7 2).encode .little
  let second := (IoHeader.new 7 1).encode .little
  [.call 0 (.sendRecv 7 [5] []), .call 1 (.sendRecv 7 [6] []), .op 0 {}, .op 1 {}, .op 1 {}, .op 0 {},
    .env (.client .runPosted), .env (.client .runPosted), .env (.clientFlush [6]),
    .env (.client (.onWrite 0 false)), .env (.client (.ioStep {})), .env (.clientFlush [5]),
    .env (.server (.onRead false (first ++ [6]) 0)), .env .serverFlush, .env (.server (.onWrite 0 false 0)),
    .env (.server (.onRead false (second ++ [5]) 0)), .env .serverFlush,
    .env (.client (.onRead false (first ++ [6, 1]))), .env (.client (.ioStep {})),
    .env (.client (.onRead false (second ++ [5, 1]))), .env (.client (.ioStep {}))]

theorem requests_in_order_crossed : ∃ p : LinkPool,
    (linkMachine (fun _ => none) 1000000000).Reach Machine.Free (.established appendOne .little 0 0) p ∧
      p.shared.server.invoked = [(.new 7 2, [6]), (.new 7 1, [5])] ∧
      (p.shared.client.started.map DataSend.callback).Pairwise (· < ·) := by
  have hrun : ((linkMachine (fun _ => none) 1000000000).run (fun _ _ => true) (.initial (.established appendOne .little 0 0))
      crossedRun).any (fun p => decide (p.shared.server.invoked = [(.new 7 2, [6]), (.new 7 1, [5])])) = true := by
    decide +kernel
  obtain ⟨p, hp, hf⟩ := Machine.Reach.exists_of_run (G := Machine.Free) (fun _ _ _ => trivial) crossedRun hrun
  exact ⟨p, hp, of_decide_eq_true hf, (requests_in_order hp).1⟩

/-- **Responses come back in order, and at most once.** The ids for which a response has reached a row are those of
invocations of handlers, in the order of the invocations, which is the order in which the requests were written; and
no id comes back twice as long as the id counter has not gone round. -/
theorem replies_in_order {bfuncs : BroadcastFuncs} {responseTimeout : Time} {funcs : BoundFuncs} {o : ByteOrder}
    {pingDelay now : Time} {p : LinkPool}
    (hp : (linkMachine bfuncs responseTimeout).Reach Machine.Free (.established funcs o pingDelay now) p) :
    (p.shared.client.delivered.filter (· ≠ 0)).Sublist (p.shared.server.invoked.map fun q => q.1.resultId) ∧
      (p.shared.server.invoked.map fun q => q.1.resultId).Sublist
        (p.shared.client.started.map fun m => m.header.resultId) ∧
      (p.shared.client.cache.allocated < 2 ^ 64 → (p.shared.client.delivered.filter (· ≠ 0)).Nodup) := by
  obtain ⟨views, hinv, -⟩ := linkOrdered_of_reach hp
  have h := hinv.ordered
  refine ⟨h.delivered, h.invoked, fun hlt => ?_⟩
  have hall := (h.delivered.trans (h.invoked.trans (h.started_sublist.map _))).filter (· ≠ 0)
  rw [List.filter_filter] at hall
  simpa using hall.nodup (hinv.booked hlt).2.nodup

theorem replies_in_order_crossed : ∃ p : LinkPool,
    (linkMachine (fun _ => none) 1000000000).Reach Machine.Free (.established appendOne .little 0 0) p ∧
      p.shared.client.delivered = [2, 1] ∧ (p.shared.client.delivered.filter (· ≠ 0)).Nodup := by
  have hrun : ((linkMachine (fun _ => none) 1000000000).run (fun _ _ => true) (.initial (.established appendOne .little 0 0))
      crossedRun).any (fun p => decide (p.shared.client.delivered = [2, 1]) &&
        decide (p.shared.client.cache.allocated < 2 ^ 64)) = true := by
    decide +kernel
  obtain ⟨p, hp, hf⟩ := Machine.Reach.exists_of_run (G := Machine.Free) (fun _ _ _ => trivial) crossedRun hrun
  simp only [Bool.and_eq_true, decide_eq_true_eq] at hf
  exact ⟨p, hp, hf.1, (replies_in_order hp).2.2 hf.2⟩

end Radrpc
