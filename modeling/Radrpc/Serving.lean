import Radrpc.Healthy
import Radrpc.System
import Radrpc.Lib.Progress

/-!
# A healthy connection serves its calls

Whatever is queued, posted or in the streams, a healthy connection can work it off, and then it can serve a request. The
rest of the system need not do anything for it.

* `Link.load` : a measure of what is still to be done; `Flowing` : what every healthy state of a run satisfies;
* `Flowing.ease` : as long as there is something to do, some handler can do it, and stays healthy;
* `Flowing.drain` : the environment alone can go on until there is nothing to do;
* `Link.upload`, `Link.download`, `Flowing.exchange` : a request goes up and its answer comes down;
* `Flowing.answers` : so from every healthy state a new call can get the response of its handler;
* `Hub.acts`, `request_can_be_answered` : also in a system with other clients and calls, which need not move.
-/

namespace Radrpc
open Std Words Conc Relation

/-- A connection, while nobody makes a broadcast: the steps that its ends and the stream make by themselves. -/
def calmMachine (funcs : BroadcastFuncs) (responseTimeout : Time) :
    Machine Link SessCall SessOp SessOp.Res SessRet Clock LinkEvent :=
  { linkMachine funcs responseTimeout with env := fun e l => if e.isSend then none else l.step funcs e }

theorem calm_env {funcs : BroadcastFuncs} {responseTimeout : Time} {l l' : Link} {e : LinkEvent} :
    (calmMachine funcs responseTimeout).env e l = some l' ↔ e.isSend = false ∧ l.step funcs e = some l' := by
  simp only [calmMachine]
  cases e.isSend <;> simp

def Polite (funcs : BoundFuncs) : Prop := ∀ callId f, funcs callId = some (some f) → ∀ b r, (f b r).close = false

/-! ## What the handlers add -/

namespace ClientSession

theorem write_grows (s : ClientSession) : ∃ writing started,
    s.write = { s with writing := writing, started := started } ∧
    writing.length ≤ s.writing.length + 1 ∧ started.length ≤ s.started.length + 1 := by
  unfold write
  split
  · exact ⟨s.writing, s.started, rfl, Nat.le_succ _, Nat.le_succ _⟩
  · exact ⟨_, _, rfl, by simp, by simp⟩

theorem handleSend_grows (s : ClientSession) (m : DataSend) : ∃ queue writing accepted started,
    s.handleSend m = { s with queue := queue, writing := writing, accepted := accepted, started := started } ∧
      queue.entries.length ≤ s.queue.entries.length + 1 ∧ writing.length ≤ s.writing.length + 1 ∧
      started.length ≤ s.started.length + 1 := by
  unfold handleSend DataQueue.queue
  split
  · exact ⟨s.queue, s.writing, s.accepted, s.started, rfl, Nat.le_succ _, Nat.le_succ _, Nat.le_succ _⟩
  · split
    · exact ⟨s.queue, s.writing, s.accepted, s.started, rfl, Nat.le_succ _, Nat.le_succ _, Nat.le_succ _⟩
    · rename_i q hq
      have hlen : q.entries.length ≤ s.queue.entries.length + 1 := by
        split at hq
        · cases hq
        · cases hq
          simp
      dsimp only
      split
      · exact ⟨q, s.writing, _, s.started, rfl, hlen, Nat.le_succ _, Nat.le_succ _⟩
      · obtain ⟨w, st, he, hw, hst⟩ := write_grows { s with queue := q, accepted := s.accepted ++ [m] }
        exact ⟨q, w, _, st, he, hlen, hw, hst⟩

theorem read_ok {s : ClientSession} (h : s.blocked = false) (hio : s.io = .idle) (hr : s.reading = true)
    (funcs : BroadcastFuncs) (bytes : Bytes) : ∃ readBuffer cache delivered handled,
    s.step funcs (.onRead false bytes) = some { s with
      reading := false, readBuffer := readBuffer, cache := cache, delivered := delivered, handled := handled
      io := .sweeping } := by
  obtain ⟨b, c, d, hd, he⟩ := onRead_frame_ok
    (s := { s with reading := false, readBuffer := s.readBuffer ++ bytes }) (blocked_iff.mp h).2.1 funcs
  simp only [step]
  rw [if_pos ⟨hio, hr⟩, he]
  exact ⟨b, c, d, hd, rfl⟩

theorem write_ok {s : ClientSession} (h : s.blocked = false) (hio : s.io = .idle) {m : DataSend} {rest : List DataSend}
    (hw : s.writing = m :: rest) (hq : s.queue.front = some m) (funcs : BroadcastFuncs) :
    s.step funcs (.onWrite 0 false) = some { s with
      writing := rest, completed := s.completed ++ [m], promises := resolve s.promises m true, io := .popping } := by
  obtain ⟨hc, hr, -, he⟩ := blocked_iff.mp h
  simp only [step, hio, hw, List.getElem?_cons_zero, List.eraseIdx_zero, List.tail_cons, onWrite]
  simp [hc, hr, he, hq]

theorem post_ok {s : ClientSession} (h : s.blocked = false) (hio : s.io = .idle) {m : DataSend}
    (hp : s.posted = [.handleSend m]) (hmax : s.queue.maxEntries = queueSendMax) (hq : s.queue.entries = [])
    (hw : s.writing = []) (funcs : BroadcastFuncs) : s.step funcs .runPosted = some { s with
      posted := [], queue := { s.queue with entries := [m] }, accepted := s.accepted ++ [m], writing := [m]
      started := s.started ++ [m] } := by
  obtain ⟨hc, hr, hwe, hre⟩ := blocked_iff.mp h
  have hcap : ¬ queueSendMax ≤ 0 := by decide
  simp [step, hio, hp, runPosted, handleSend, hc, hr, hwe, hre, DataQueue.queue, hmax, hq, hcap, DataQueue.isWriting,
    write, DataQueue.front, hw]

theorem pop_ok {s : ClientSession} (hio : s.io = .popping) {m : DataSend} (hq : s.queue.entries = [m])
    (funcs : BroadcastFuncs) : s.step funcs (.ioStep {}) = some { s with
      queue := { s.queue with entries := [] }, io := .idle } := by
  simp [step, ioStep, hio, DataQueue.popFront, hq]

end ClientSession

namespace ServerSession

theorem write_grows (s : ServerSession) : ∃ writing started,
    s.write = { s with writing := writing, started := started } ∧
    started.length ≤ s.started.length + 1 := by
  unfold write
  split
  · exact ⟨s.writing, s.started, rfl, Nat.le_succ _⟩
  · exact ⟨_, _, rfl, by simp⟩

theorem handleSend_grows (s : ServerSession) (data : DataPush) : ∃ queue writing accepted started,
    s.handleSend data = { s with queue := queue, writing := writing, accepted := accepted, started := started } ∧
      queue.length ≤ s.queue.length + 1 ∧ started.length ≤ s.started.length + 1 := by
  unfold handleSend
  split
  · exact ⟨s.queue, s.writing, s.accepted, s.started, rfl, Nat.le_succ _, Nat.le_succ _⟩
  · split
    · exact ⟨s.queue, s.writing, s.accepted, s.started, rfl, Nat.le_succ _, Nat.le_succ _⟩
    · dsimp only
      split
      · exact ⟨_, s.writing, _, s.started, rfl, by simp, Nat.le_succ _⟩
      · obtain ⟨w, st, he, hst⟩ := write_grows { s with queue := s.queue ++ [data], accepted := s.accepted ++ [data] }
        exact ⟨_, w, _, st, he, by simp, hst⟩

theorem callFunction_grows {s : ServerSession} (hpol : Polite s.boundFuncs) (hw : s.boundClose = false) (now : Time) :
    ∃ header receiveBuffer receiveBufferRef response queue writing accepted started invoked,
      s.callFunction now = { s with
        header := header, receiveBuffer := receiveBuffer, receiveBufferRef := receiveBufferRef, response := response
        queue := queue, writing := writing, accepted := accepted, started := started, invoked := invoked } ∧
      queue.length ≤ s.queue.length + 1 ∧ started.length ≤ s.started.length + 1 := by
  cases hf : handlerFor s.boundFuncs s.order s.receiveBuffer with
  | none =>
    obtain ⟨_, _, _, he⟩ := callFunction_none hf now
    exact ⟨_, _, _, s.response, s.queue, s.writing, s.accepted, s.started, s.invoked, he, Nat.le_succ _, Nat.le_succ _⟩
  | some f =>
    have hbound : s.boundFuncs (IoHeader.read s.order s.receiveBuffer).callId = some (some f) := by
      unfold handlerFor at hf
      split at hf
      · exact Option.join_eq_some_iff.mp hf
      · cases hf
    have hclose := hpol _ f hbound (s.receiveBuffer.drop IoHeader.size) s.response
    have hcalled : s.called f = { s with
        header := (s.called f).header, receiveBuffer := (s.called f).receiveBuffer
        receiveBufferRef := (s.called f).receiveBufferRef, response := (s.called f).response
        invoked := (s.called f).invoked } := by
      simp only [called, invoke, hclose, hw, Bool.or_false]
    have hwilling : (s.called f).boundClose = false := by
      rw [hcalled]
      exact hw
    rw [callFunction_some hf, if_neg (by simp [hwilling])]
    split
    · obtain ⟨q, w, a, st, he, hq, hst⟩ := handleSend_grows { s.called f with response := [] }
        ⟨(s.called f).header, (s.called f).response⟩
      rw [he]
      rw [hcalled] at hq hst ⊢
      exact ⟨_, _, _, _, q, w, a, st, _, rfl, hq, hst⟩
    · exact ⟨_, _, _, _, s.queue, s.writing, s.accepted, s.started, _, hcalled, Nat.le_succ _, Nat.le_succ _⟩

theorem read_ok {s : ServerSession} (hpol : Polite s.boundFuncs) (h : s.Healthy) (hr : s.reading = true) (bytes : Bytes)
    (now : Time) : ∃ header receiveBufferRef queue writing accepted started invoked,
      s.step (.onRead false bytes now) = some { s with
        header := header, receiveBuffer := [], receiveBufferRef := receiveBufferRef, response := [], queue := queue
        writing := writing, accepted := accepted, started := started, invoked := invoked, reading := true } ∧
      queue.length ≤ s.queue.length + 1 ∧ started.length ≤ s.started.length + 1 := by
  obtain ⟨hc, hcr, hw, -⟩ := blocked_eq_false.mp h.unblocked
  obtain ⟨_, _, _, _, _, _, _, _, _, he, hq, hst⟩ := callFunction_grows
    (s := { s with reading := false, receiveBuffer := s.receiveBuffer ++ bytes }) hpol h.willing now
  simp only [step]
  rw [if_pos hr]
  unfold onRead
  rw [if_neg (by simp [hcr]), if_pos (by simp [hc, hw]), he]
  exact ⟨_, _, _, _, _, _, _, rfl, hq, hst⟩

theorem send_ok {s : ServerSession} {data : DataPush} {rest : List DataPush} (hp : s.posted = data :: rest) :
    ∃ queue writing accepted started, s.step .handleSend = some { s with
      posted := rest, queue := queue, writing := writing, accepted := accepted, started := started } ∧
      queue.length ≤ s.queue.length + 1 ∧ started.length ≤ s.started.length + 1 := by
  obtain ⟨q, w, a, st, he, hq, hst⟩ := handleSend_grows { s with posted := rest } data
  simp only [step, hp]
  rw [he]
  exact ⟨q, w, a, st, rfl, hq, hst⟩

theorem write_ok {s : ServerSession} (h : s.blocked = false) (hw : s.writing ≠ []) (now : Time) :
    ∃ writing started, s.step (.onWrite 0 false now) = some { s with
      queue := s.queue.tail, writing := writing, started := started } ∧ started.length ≤ s.started.length + 1 := by
  simp only [step]
  rw [if_pos (List.length_pos_iff.mpr hw), onWrite_ok (s := { s with writing := s.writing.eraseIdx 0 }) h]
  split
  · exact ⟨_, s.started, rfl, Nat.le_succ _⟩
  · obtain ⟨w, st, he, hst⟩ := write_grows { s with writing := s.writing.eraseIdx 0, queue := s.queue.tail }
    rw [he]
    exact ⟨w, st, rfl, hst⟩

end ServerSession

/-! ## Something to do -/

namespace Link

/-- What is still to be done on a connection: each message lowers it on its way. -/
def load (l : Link) : Nat :=
  24 * l.client.posted.length + 12 * l.client.queue.entries.length + 10 * (l.client.started.length - l.clientSent) +
    l.client.writing.length + (if l.client.io = .sweeping then 1 else 0) + 8 * l.up.length +
    8 * l.server.posted.length + 4 * l.server.queue.length + 3 * (l.server.started.length - l.serverSent) +
    2 * l.down.length

theorem step_of_client {l : Link} {funcs : BroadcastFuncs} {e : ClientEvent} {s : ClientSession}
    (ha : l.admits (.client e) = true) (hs : l.client.step funcs e = some s) :
    l.step funcs (.client e) = some { l with client := s, down := l.down.drop e.reads } := by
  simp only [step, ha, if_true, hs, Option.map_some]

theorem step_of_server {l : Link} {funcs : BroadcastFuncs} {e : ServerEvent} {s : ServerSession}
    (ha : l.admits (.server e) = true) (hs : l.server.step e = some s) :
    l.step funcs (.server e) = some { l with server := s, up := l.up.drop e.reads } := by
  simp only [step, ha, if_true, hs, Option.map_some]

end Link

/-- A healthy state of a run, with handlers that do not ask to close. -/
structure Flowing (o : ByteOrder) (funcs : BoundFuncs) (l : Link) : Prop where
  ordered : LinkOrdered o l
  healthy : l.Healthy
  paced : l.Paced
  boundFuncs : l.server.boundFuncs = funcs

namespace Flowing

variable {o : ByteOrder} {funcs : BoundFuncs} {l l' : Link} {bfuncs : BroadcastFuncs}

theorem step (h : Flowing o funcs l) {e : LinkEvent} (hs : l.step bfuncs e = some l') (hh : l'.Healthy) :
    Flowing o funcs l' := by
  refine ⟨h.ordered.step hs, hh, h.paced.step hs hh, ?_⟩
  cases e with
  | client e =>
    obtain ⟨-, s, -, rfl⟩ := Link.step_client hs
    exact h.boundFuncs
  | server e =>
    obtain ⟨hadm, s, hstep, rfl⟩ := Link.step_server hs
    exact (h.ordered.answering.step hstep (Link.resultId_of_admits hadm)).2.1.trans h.boundFuncs
  | clientFlush body =>
    obtain ⟨m, -, -, rfl⟩ := Link.step_clientFlush hs
    exact h.boundFuncs
  | serverFlush =>
    obtain ⟨m, -, -, rfl⟩ := Link.step_serverFlush hs
    exact h.boundFuncs

/-- Some step leads to a healthy connection with less to do. -/
def Eased (bfuncs : BroadcastFuncs) (l : Link) : Prop :=
  ∃ e l', l.step bfuncs e = some l' ∧ e.isSend = false ∧ l'.Healthy ∧ l'.load < l.load

theorem ease_io (h : Flowing o funcs l) (hio : l.client.io ≠ .idle) : Eased bfuncs l := by
  have hc := h.healthy.client
  cases hio' : l.client.io with
  | idle => exact absurd hio' hio
  | clearing rest => exact absurd hio' (hc.uncleared rest)
  | sweeping =>
    have hs : l.client.step bfuncs (.ioStep {}) = some { l.client with
        cache := l.client.cache.removeObsolete ({} : Clock).visit, readBuffer := [], io := .idle, reading := true } := by
      simp only [ClientSession.step, ClientSession.ioStep, hio', ClientSession.read]
    refine ⟨_, _, Link.step_of_client rfl hs, rfl,
      ⟨⟨hc.unblocked, hc.unclosed, fun _ hx => (by cases hx)⟩, h.healthy.server⟩, ?_⟩
    simp [Link.load, hio', ClientEvent.reads]
  | popping =>
    obtain ⟨hw, hq⟩ := h.ordered.resolved.pump.busy (by rw [hio']; rfl)
    have hframe : ∃ writing started, l.client.ioStep {} = some { l.client with
        queue := l.client.queue.popFront.2, io := .idle, writing := writing, started := started } ∧
        writing.length ≤ l.client.writing.length + 1 ∧ started.length ≤ l.client.started.length + 1 := by
      simp only [ClientSession.ioStep, hio']
      split
      · obtain ⟨w, st, he, hwl, hst⟩ :=
          ClientSession.write_grows { l.client with queue := l.client.queue.popFront.2, io := .idle }
        exact ⟨w, st, congrArg some he, hwl, hst⟩
      · exact ⟨l.client.writing, l.client.started, rfl, Nat.le_succ _, Nat.le_succ _⟩
    obtain ⟨writing, started, hs, hwl, hst⟩ := hframe
    refine ⟨_, _, Link.step_of_client (e := .ioStep {}) rfl hs, rfl,
      ⟨⟨hc.unblocked, hc.unclosed, fun _ hx => (by cases hx)⟩, h.healthy.server⟩, ?_⟩
    have hlen : l.client.queue.entries.tail.length + 1 = l.client.queue.entries.length := by
      have hpos := List.length_pos_iff.mpr hq
      rw [List.length_tail]
      omega
    simp only [Link.load, DataQueue.popFront, ClientEvent.reads, List.drop_zero, hio']
    simp only [reduceCtorEq, if_false]
    omega

theorem ease_posted (h : Flowing o funcs l) (hio : l.client.io = .idle) (hp : l.client.posted ≠ []) :
    Eased bfuncs l := by
  have hc := h.healthy.client
  obtain ⟨head, rest, hp⟩ := List.exists_cons_of_ne_nil hp
  have hs : l.client.step bfuncs .runPosted = some ({ l.client with posted := rest }.runPosted head) := by
    simp only [ClientSession.step]
    split
    · rename_i hp'
      cases hp.symm.trans hp'
      rfl
    · rename_i hne
      exact absurd hp (hne head rest hio)
  have hidle : ∀ r, l.client.io ≠ .clearing r := hc.uncleared
  have hunclosed : .closeSession ∉ rest := fun hm => hc.unclosed (hp ▸ List.mem_cons_of_mem _ hm)
  refine ⟨_, _, Link.step_of_client rfl hs, rfl, ?_⟩
  cases head with
  | closeSession => exact absurd (hp ▸ List.mem_cons_self) hc.unclosed
  | handleSend m =>
    obtain ⟨q, w, a, st, he, hq, hw, hst⟩ := ClientSession.handleSend_grows { l.client with posted := rest } m
    have hrun : ({ l.client with posted := rest } : ClientSession).runPosted (.handleSend m) = _ := he
    rw [hrun]
    refine ⟨⟨⟨hc.unblocked, hunclosed, hidle⟩, h.healthy.server⟩, ?_⟩
    simp only [Link.load, hp, List.length_cons, ClientEvent.reads, List.drop_zero] at hq hw hst ⊢
    omega
  | handlePing =>
    obtain ⟨ping, pings, he⟩ := ClientSession.handlePing_frame { l.client with posted := rest }
    have hrun : ({ l.client with posted := rest } : ClientSession).runPosted .handlePing = _ := he
    rw [hrun]
    refine ⟨⟨⟨hc.unblocked, hunclosed, hidle⟩, h.healthy.server⟩, ?_⟩
    simp only [Link.load, hp, List.length_cons, ClientEvent.reads, List.drop_zero]
    omega

theorem unflushed {μ : Type} {started writing : List μ} {n : Nat} (h : started.drop n <:+ writing)
    (hlt : n < started.length) : ∃ m ∈ writing, started[n]? = some m := by
  refine ⟨started[n], h.subset ?_, List.getElem?_eq_getElem hlt⟩
  rw [List.drop_eq_getElem_cons hlt]
  exact List.mem_cons_self

theorem queue_of_writing {μ : Type} {queue writing : List μ} (h : writing = queue.head?.toList) (hw : writing = []) :
    queue = [] := by
  cases queue with
  | nil => rfl
  | cons m rest =>
    rw [hw] at h
    cases h

theorem sent_of_writing {μ : Type} {started writing : List μ} {n : Nat} (h : started.drop n <:+ writing)
    (hw : writing = []) : started.length ≤ n := by
  rw [hw] at h
  exact List.drop_eq_nil_iff.mp (List.suffix_nil.mp h)

theorem ease_write (h : Flowing o funcs l) (hio : l.client.io = .idle) (hw : l.client.writing ≠ []) :
    Eased bfuncs l := by
  have hc := h.healthy.client
  obtain ⟨_, _, hread, hlen, -⟩ := h.ordered.up
  by_cases hlt : l.clientSent < l.client.started.length
  · obtain ⟨m, hm, hget⟩ := unflushed h.paced.clientPace hlt
    have hs : l.step bfuncs (.clientFlush m.body) = some { l with
        up := l.up ++ [m.header.encode l.client.order ++ m.body], clientSent := l.clientSent + 1 } := by
      simp only [Link.step, Link.admits, if_true, Link.clientFlush, hget]
      rw [if_pos ⟨hm, fun _ => trivial⟩]
    refine ⟨_, _, hs, rfl, ⟨hc, h.healthy.server⟩, ?_⟩
    simp only [Link.load, List.length_append, List.length_singleton]
    omega
  · have hsent : l.clientSent = l.client.started.length := by omega
    obtain ⟨m, rest, hw⟩ := List.exists_cons_of_ne_nil hw
    have hinv := h.ordered.resolved.pump.inv
    rw [ClientSession.pump_of_idle (by rw [hio]; rfl)] at hinv
    have hhead : l.client.writing = l.client.queue.entries.head?.toList := hinv.writing_eq
    have hfront : l.client.queue.front = some m := by
      rw [hw] at hhead
      cases hq : l.client.queue.entries.head? with
      | none =>
        rw [hq] at hhead
        cases hhead
      | some m' =>
        rw [hq] at hhead
        cases hhead
        exact hq
    have hs := ClientSession.write_ok hc.unblocked hio hw hfront bfuncs
    refine ⟨_, _, Link.step_of_client (e := .onWrite 0 false) (decide_eq_true hsent) hs, rfl,
      ⟨⟨hc.unblocked, hc.unclosed, fun _ hx => (by cases hx)⟩, h.healthy.server⟩, ?_⟩
    simp only [Link.load, ClientEvent.reads, List.drop_zero, hio, hw, List.length_cons]
    simp only [reduceCtorEq, if_false]
    omega

theorem ease_read (h : Flowing o funcs l) (hpol : Polite funcs) (hup : l.up ≠ []) : Eased bfuncs l := by
  have hv := h.healthy.server
  obtain ⟨msg, rest, hup⟩ := List.exists_cons_of_ne_nil hup
  obtain ⟨header, ref, q, w, a, st, inv, hs, hq, hst⟩ :=
    ServerSession.read_ok (h.boundFuncs.symm ▸ hpol) hv h.paced.serverReading msg 0
  have hadm : l.admits (.server (.onRead false msg 0)) = true := by
    simp only [Link.admits, hup, List.head?_cons, decide_true]
  refine ⟨_, _, Link.step_of_server hadm hs, rfl, ⟨h.healthy.client, ⟨hv.unblocked, hv.willing⟩⟩, ?_⟩
  simp only [Link.load, ServerEvent.reads, hup, List.drop_succ_cons, List.drop_zero, List.length_cons]
  omega

theorem ease_broadcast (h : Flowing o funcs l) (hp : l.server.posted ≠ []) : Eased bfuncs l := by
  have hv := h.healthy.server
  obtain ⟨data, rest, hp⟩ := List.exists_cons_of_ne_nil hp
  obtain ⟨q, w, a, st, hs, hq, hst⟩ := ServerSession.send_ok hp
  refine ⟨_, _, Link.step_of_server (e := .handleSend) rfl hs, rfl, ⟨h.healthy.client, ⟨hv.unblocked, hv.willing⟩⟩, ?_⟩
  simp only [Link.load, ServerEvent.reads, hp, List.drop_zero, List.length_cons]
  omega

theorem ease_reply (h : Flowing o funcs l) (hw : l.server.writing ≠ []) : Eased bfuncs l := by
  have hv := h.healthy.server
  obtain ⟨_, _, hread, hlen, -⟩ := h.ordered.down
  by_cases hlt : l.serverSent < l.server.started.length
  · obtain ⟨m, hm, hget⟩ := unflushed h.paced.serverPace hlt
    have hs : l.step bfuncs .serverFlush = some { l with
        down := l.down ++ [m.wire l.server.order], serverSent := l.serverSent + 1 } := by
      simp only [Link.step, Link.admits, if_true, Link.serverFlush, hget]
      rw [if_pos hm]
    refine ⟨_, _, hs, rfl, ⟨h.healthy.client, hv⟩, ?_⟩
    simp only [Link.load, List.length_append, List.length_singleton]
    omega
  · have hsent : l.serverSent = l.server.started.length := by omega
    have hq : l.server.queue ≠ [] := h.ordered.pump.queue_ne_nil hw
    obtain ⟨w, st, hs, hst⟩ := ServerSession.write_ok hv.unblocked hw 0
    refine ⟨_, _, Link.step_of_server (e := .onWrite 0 false 0) (decide_eq_true hsent) hs, rfl,
      ⟨h.healthy.client, ⟨hv.unblocked, hv.willing⟩⟩, ?_⟩
    have hpos := List.length_pos_iff.mpr hq
    simp only [Link.load, ServerEvent.reads, List.drop_zero, List.length_tail]
    omega

theorem ease_deliver (h : Flowing o funcs l) (hio : l.client.io = .idle) (hdown : l.down ≠ []) : Eased bfuncs l := by
  have hc := h.healthy.client
  obtain ⟨msg, rest, hdown⟩ := List.exists_cons_of_ne_nil hdown
  have hr : l.client.reading = true := h.paced.reading.resolve_right (by rw [hio]; exact fun hx => by cases hx)
  obtain ⟨b, c, d, hd, hs⟩ := ClientSession.read_ok hc.unblocked hio hr bfuncs msg
  have hadm : l.admits (.client (.onRead false msg)) = true := by
    simp only [Link.admits, hdown, List.head?_cons, decide_true]
  refine ⟨_, _, Link.step_of_client hadm hs, rfl,
    ⟨⟨hc.unblocked, hc.unclosed, fun _ hx => (by cases hx)⟩, h.healthy.server⟩, ?_⟩
  simp only [Link.load, ClientEvent.reads, hdown, hio, List.drop_succ_cons, List.drop_zero, List.length_cons]
  simp only [reduceCtorEq, if_false, if_true]
  omega

/-- **As long as there is something to do, some handler can do it.** -/
theorem ease (h : Flowing o funcs l) (hpol : Polite funcs) (hload : l.load ≠ 0) : Eased bfuncs l := by
  by_cases hio : l.client.io = .idle
  · by_cases hposted : l.client.posted = []
    · by_cases hw : l.client.writing = []
      · by_cases hup : l.up = []
        · by_cases hp : l.server.posted = []
          · by_cases hsw : l.server.writing = []
            · by_cases hdown : l.down = []
              · refine absurd ?_ hload
                have hinv := h.ordered.resolved.pump.inv
                rw [ClientSession.pump_of_idle (by rw [hio]; rfl)] at hinv
                have hq : l.client.queue.entries = [] := queue_of_writing hinv.writing_eq hw
                have hsq : l.server.queue = [] := queue_of_writing h.ordered.pump.writing_eq hsw
                have hsent : l.client.started.length ≤ l.clientSent := sent_of_writing h.paced.clientPace hw
                have hssent : l.server.started.length ≤ l.serverSent := sent_of_writing h.paced.serverPace hsw
                simp [Link.load, hio, hposted, hw, hup, hp, hdown, hq, hsq, hsent, hssent]
              · exact h.ease_deliver hio hdown
            · exact h.ease_reply hsw
          · exact h.ease_broadcast hp
        · exact h.ease_read hpol hup
      · exact h.ease_write hio hw
    · exact h.ease_posted hio hposted
  · exact h.ease_io hio

end Flowing

/-! ## Nothing to do -/

/-- The io thread hands out no id, and makes no row. -/
structure DataCache.Shrinks (c c' : DataCache) : Prop where
  idCounter : c'.idCounter = c.idCounter
  maxEntries : c'.maxEntries = c.maxEntries
  size : c'.entries.size ≤ c.entries.size

namespace DataCache.Shrinks

theorem refl (c : DataCache) : Shrinks c c := ⟨rfl, rfl, le_rfl⟩

theorem trans {c c' c'' : DataCache} (h : Shrinks c c') (h' : Shrinks c' c'') : Shrinks c c'' :=
  ⟨h'.idCounter.trans h.idCounter, h'.maxEntries.trans h.maxEntries, h'.size.trans h.size⟩

theorem swapNotify (c : DataCache) (id : UInt64) (buffer : Bytes) : Shrinks c (c.swapNotify id buffer).2 := by
  refine ⟨c.swapNotify_idCounter id buffer, CacheOp.maxEntries_after (.swapNotify id buffer) {} c, ?_⟩
  cases he : c.entries[id]? with
  | none => rw [DataCache.swapNotify_none he]
  | some r =>
    rw [DataCache.swapNotify_entries he]
    split
    · exact ExtTreeMap.size_erase_le
    · exact le_rfl

theorem clear (c : DataCache) : Shrinks c c.clear := by
  refine ⟨c.clear_idCounter, CacheOp.maxEntries_after .clear {} c, ?_⟩
  rw [DataCache.clear, DataCache.foldl_release_entries]
  exact Maps.size_sweep_le _ c.entries c.entries.toList

theorem removeObsolete (c : DataCache) (clock : UInt64 → Time) : Shrinks c (c.removeObsolete clock) :=
  ⟨rfl, rfl, Maps.size_sweep_le _ c.entries c.entries.toList⟩

theorem of_step {bfuncs : BroadcastFuncs} {l l' : Link} {e : LinkEvent} (hs : l.step bfuncs e = some l') :
    Shrinks l.client.cache l'.client.cache := by
  cases e with
  | client e =>
    obtain ⟨-, s, hstep, rfl⟩ := Link.step_client hs
    rcases ClientSession.cache_of_step hstep with ⟨hc, -⟩ | ⟨_, _, -, -, -, -, -, hc, -⟩ | ⟨_, _, -, -, hc, -⟩ |
      ⟨_, -, hc, -⟩
    · exact hc ▸ refl _
    · exact hc ▸ swapNotify _ _ _
    · exact hc ▸ clear _
    · exact hc ▸ removeObsolete _ _
  | server e =>
    obtain ⟨-, s, -, rfl⟩ := Link.step_server hs
    exact refl _
  | clientFlush body =>
    obtain ⟨m, -, -, rfl⟩ := Link.step_clientFlush hs
    exact refl _
  | serverFlush =>
    obtain ⟨m, -, -, rfl⟩ := Link.step_serverFlush hs
    exact refl _

end DataCache.Shrinks

/-- Nothing is queued, outstanding or in the streams. -/
structure Link.Idle (l : Link) : Prop where
  io : l.client.io = .idle
  queue : l.client.queue.entries = []
  writing : l.client.writing = []
  sent : l.clientSent = l.client.started.length
  up : l.up = []
  serverQueue : l.server.queue = []
  serverWriting : l.server.writing = []
  serverSent : l.serverSent = l.server.started.length
  down : l.down = []

namespace Flowing

variable {o : ByteOrder} {funcs : BoundFuncs} {l l' : Link} {bfuncs : BroadcastFuncs} {responseTimeout : Time}

/-- **A healthy connection can be drained.** The environment can go on until there is nothing to do. -/
theorem drain (h : Flowing o funcs l) (hpol : Polite funcs) (bfuncs : BroadcastFuncs) (responseTimeout : Time) :
    ∃ l', (calmMachine bfuncs responseTimeout).Drift l l' ∧ Flowing o funcs l' ∧
      l.client.cache.Shrinks l'.client.cache ∧ l'.load = 0 := by
  have hstep : ∀ l₁ : Link, (Flowing o funcs l₁ ∧ l.client.cache.Shrinks l₁.client.cache) → ¬ l₁.load = 0 →
      ∃ l₂, (∃ e, (calmMachine bfuncs responseTimeout).env e l₁ = some l₂) ∧
        (Flowing o funcs l₂ ∧ l.client.cache.Shrinks l₂.client.cache) ∧
        WellFoundedRelation.rel l₂.load l₁.load := by
    rintro l₁ ⟨h₁, hsh⟩ hload
    have heased : Eased bfuncs l₁ := h₁.ease hpol hload
    obtain ⟨e, l₂, hs, hsend, hh, hlt⟩ := heased
    exact ⟨l₂, ⟨e, calm_env.mpr ⟨hsend, hs⟩⟩, ⟨h₁.step hs hh, hsh.trans (.of_step hs)⟩, hlt⟩
  obtain ⟨l', hd, ⟨h', hsh⟩, hload⟩ := reaches_of_measure
    (I := fun l₁ : Link => Flowing o funcs l₁ ∧ l.client.cache.Shrinks l₁.client.cache) Link.load hstep ⟨h, .refl _⟩
  exact ⟨l', hd, h', hsh, hload⟩

theorem idle (h : Flowing o funcs l) (hload : l.load = 0) : l.Idle ∧ l.client.posted = [] := by
  obtain ⟨_, _, -, hlen, -⟩ := h.ordered.up
  obtain ⟨_, _, -, hslen, -⟩ := h.ordered.down
  have hnil : ∀ {μ : Type} (xs : List μ), xs.length = 0 → xs = [] := fun xs hx => List.length_eq_zero_iff.mp hx
  unfold Link.load at hload
  have hq : l.client.queue.entries = [] := hnil _ (by omega)
  have hw : l.client.writing = [] := hnil _ (by omega)
  have hsq : l.server.queue = [] := hnil _ (by omega)
  have hio : l.client.io = .idle := by
    cases hio : l.client.io with
    | idle => rfl
    | popping => exact absurd hq (h.ordered.resolved.pump.busy (by rw [hio]; rfl)).2
    | clearing rest => exact absurd hio (h.healthy.client.uncleared rest)
    | sweeping =>
      rw [if_pos hio] at hload
      omega
  have hsw : l.server.writing = [] := by
    have hhead : l.server.writing = l.server.queue.head?.toList := h.ordered.pump.writing_eq
    rw [hhead, hsq]
    rfl
  exact ⟨⟨hio, hq, hw, by omega, hnil _ (by omega), hsq, hsw, by omega, hnil _ (by omega)⟩, hnil _ (by omega)⟩

end Flowing

/-! ## One request -/

theorem ServerSession.handleSend_idle {s : ServerSession} (h : s.blocked = false) (hq : s.queue = [])
    (hw : s.writing = []) (d : DataPush) : s.handleSend d = { s with
      queue := [d], accepted := s.accepted ++ [d], writing := [d], started := s.started ++ [d] } := by
  obtain ⟨hc, hcr, hwe, hre⟩ := blocked_eq_false.mp h
  have hcap : ¬ queueSendMax ≤ 0 := by decide
  simp [handleSend, hc, hcr, hwe, hre, hq, hcap, write, hw]

theorem ServerSession.answer_ok {s : ServerSession} (h : s.Healthy) (hclean : s.Clean) (hr : s.reading = true)
    (hq : s.queue = []) (hw : s.writing = []) {header : IoHeader} {body : Bytes} {f : BoundFunc}
    (hf : s.boundFuncs header.callId = some (some f)) (hclose : (f body []).close = false)
    (hne : (f body []).response ≠ []) (now : Time) :
    ∃ s', s.step (.onRead false (header.encode s.order ++ body) now) = some s' ∧ s'.Healthy ∧ s'.order = s.order ∧
      s'.started = s.started ++ [⟨header, (f body []).response⟩] ∧ s'.writing = [⟨header, (f body []).response⟩] := by
  obtain ⟨hc, hcr, hwe, -⟩ := blocked_eq_false.mp h.unblocked
  obtain ⟨s₁, hs₁⟩ : ∃ s₁, s₁ = { s with
    reading := false, receiveBuffer := s.receiveBuffer ++ (header.encode s.order ++ body) } := ⟨_, rfl⟩
  have hbuf : s₁.receiveBuffer = header.encode s.order ++ body := by
    rw [hs₁]
    simp only [hclean.receiveBuffer hr, List.nil_append]
  have horder : s₁.order = s.order := by rw [hs₁]
  have hhandler : handlerFor s₁.boundFuncs s₁.order s₁.receiveBuffer = some f := by
    rw [handlerFor, if_pos (by simp [hbuf]), hbuf, horder, IoHeader.read_encode, hs₁, hf]
    rfl
  have hcalled : (s₁.called f).response = (f body []).response ∧ (s₁.called f).boundClose = false ∧
      (s₁.called f).header = header := by
    simp only [called, invoke, hbuf, horder, IoHeader.drop_encode, IoHeader.read_encode]
    rw [hs₁]
    simp only [hclean.response, h.willing, hclose, Bool.or_self, and_self]
  obtain ⟨hres, hwilling, hheader⟩ := hcalled
  have hrest : { s₁.called f with response := [] }.handleSend ⟨header, (f body []).response⟩ = _ :=
    handleSend_idle (by rw [hs₁]; exact h.unblocked) (by rw [hs₁]; exact hq) (by rw [hs₁]; exact hw) _
  have hread : s₁.onRead false now = { { s₁.called f with response := [] }.handleSend ⟨header, (f body []).response⟩ with
      receiveBuffer := [], response := [], reading := true } := by
    unfold onRead
    rw [if_neg (by rw [hs₁]; simp [hcr]), if_pos (by rw [hs₁]; simp [hc, hwe]), callFunction_some hhandler,
      if_neg (by simp [hwilling]), if_pos (by rw [hres]; exact hne), hheader, hres]
  have hstep : s.step (.onRead false (header.encode s.order ++ body) now) = some (s₁.onRead false now) := by
    simp only [step]
    rw [if_pos hr, hs₁]
  rw [hrest] at hread
  refine ⟨_, hstep, ?_⟩
  rw [hread]
  refine ⟨⟨?_, ?_⟩, ?_, ?_, ?_⟩
  · rw [hs₁]
    exact h.unblocked
  · exact hwilling
  · rw [hs₁]
    rfl
  · rw [hs₁]
    rfl
  · rfl

theorem ClientSession.deliver_ok {s : ClientSession} (h : s.Healthy) (hio : s.io = .idle) (hr : s.reading = true)
    (hbuf : s.readBuffer = []) {bfuncs : BroadcastFuncs} {d : DataPush} (hb : bfuncs d.header.callId = none) :
    ∃ s', s.step bfuncs (.onRead false (d.wire s.order)) = some s' ∧ s'.Healthy ∧
      s'.cache = (s.cache.swapNotify d.header.resultId d.body).2 := by
  obtain ⟨hc, hcr, hwe, hre⟩ := blocked_iff.mp h.unblocked
  have hlen : IoHeader.size ≤ (d.wire s.order).length := by simp [DataPush.wire]
  have hread : IoHeader.read s.order (d.wire s.order) = d.header := IoHeader.read_encode _ _ _
  have hdrop : (d.wire s.order).drop IoHeader.size = d.body := IoHeader.drop_encode _ _ _
  simp only [step]
  rw [if_pos ⟨hio, hr⟩]
  refine ⟨_, rfl, ?_⟩
  rw [onRead, if_neg (by simp [hcr])]
  simp only [hbuf, List.nil_append]
  rw [if_pos hlen, hread, hdrop]
  simp only [hb]
  exact ⟨⟨h.unblocked, h.unclosed, fun _ hx => (by cases hx)⟩, trivial⟩

namespace Link

variable {l : Link} {bfuncs : BroadcastFuncs} {responseTimeout : Time}

theorem drift_tail {l' l'' : Link} {e : LinkEvent} (hd : (calmMachine bfuncs responseTimeout).Drift l l')
    (hs : l'.step bfuncs e = some l'') (hsend : e.isSend = false) : (calmMachine bfuncs responseTimeout).Drift l l'' :=
  ReflTransGen.tail hd ⟨e, calm_env.mpr ⟨hsend, hs⟩⟩

theorem upload (bfuncs : BroadcastFuncs) (responseTimeout : Time) (hh : l.client.Healthy) (hidle : l.Idle)
    (hmax : l.client.queue.maxEntries = queueSendMax) {m : DataSend}
    (hposted : l.client.posted = [.handleSend m]) (hp : l.client.promises m.callback = .pending) :
    ∃ c, (calmMachine bfuncs responseTimeout).Drift l { l with
        client := c, up := [m.header.encode l.client.order ++ m.body], clientSent := l.clientSent + 1 } ∧
      c.Healthy ∧ c.io = .idle ∧ c.cache = l.client.cache ∧ c.order = l.client.order ∧ c.reading = l.client.reading ∧
      c.readBuffer = l.client.readBuffer ∧ c.promises m.callback = .ready true := by
  have h1 := step_of_client (l := l) (e := .runPosted) rfl
    (ClientSession.post_ok hh.unblocked hidle.io hposted hmax hidle.queue hidle.writing bfuncs)
  obtain ⟨c₁, hc₁⟩ : ∃ c₁, c₁ = { l.client with
      posted := [], queue := { l.client.queue with entries := [m] }, accepted := l.client.accepted ++ [m], writing := [m]
      started := l.client.started ++ [m] } := ⟨_, rfl⟩
  rw [← hc₁] at h1
  have hstarted : c₁.started = l.client.started ++ [m] := by rw [hc₁]
  have hwriting : c₁.writing = [m] := by rw [hc₁]
  have h2 : ({ l with client := c₁ } : Link).step bfuncs (.clientFlush m.body) = some { l with
      client := c₁, up := [m.header.encode l.client.order ++ m.body], clientSent := l.clientSent + 1 } := by
    have hget : c₁.started[l.clientSent]? = some m := by
      rw [hstarted, hidle.sent]
      exact List.getElem?_concat_length
    have horder : c₁.order = l.client.order := by rw [hc₁]
    simp only [step, admits, if_true, clientFlush, hget]
    rw [if_pos ⟨by rw [hwriting]; exact List.mem_singleton_self m, fun _ => trivial⟩, horder, hidle.up, List.nil_append]
  obtain ⟨l₂, hl₂⟩ : ∃ l₂ : Link, l₂ = { l with
      client := c₁, up := [m.header.encode l.client.order ++ m.body], clientSent := l.clientSent + 1 } := ⟨_, rfl⟩
  have hclient : l₂.client = c₁ := by rw [hl₂]
  rw [← hl₂] at h2
  have hadm : l₂.admits (.client (.onWrite 0 false)) = true := by
    rw [hl₂]
    exact decide_eq_true (by simp [hstarted, hidle.sent])
  obtain ⟨c₂, hc₂⟩ : ∃ c₂, c₂ = { c₁ with
      writing := [], completed := c₁.completed ++ [m], promises := resolve c₁.promises m true, io := .popping } :=
    ⟨_, rfl⟩
  have hs3 : l₂.client.step bfuncs (.onWrite 0 false) = some c₂ := by
    rw [hc₂, hclient]
    exact ClientSession.write_ok (by rw [hc₁]; exact hh.unblocked) (by rw [hc₁]; exact hidle.io) hwriting
      (by rw [hc₁]; rfl) bfuncs
  have h3 := step_of_client hadm hs3
  have hs4 : c₂.step bfuncs (.ioStep {}) = some _ :=
    ClientSession.pop_ok (by rw [hc₂]) (m := m) (by rw [hc₂, hc₁]) bfuncs
  have h4 := step_of_client (e := .ioStep {}) (l := { l₂ with client := c₂, down := l₂.down.drop 0 }) rfl hs4
  have hdrift : (calmMachine bfuncs responseTimeout).Drift l _ :=
    drift_tail (drift_tail (drift_tail (drift_tail .refl h1 rfl) h2 rfl) h3 rfl) h4 rfl
  rw [hl₂] at hdrift
  refine ⟨_, hdrift, ?_⟩
  rw [hc₂, hc₁]
  refine ⟨⟨hh.unblocked, by simp, fun _ hx => (by cases hx)⟩, rfl, rfl, rfl, rfl, rfl, ?_⟩
  simp [resolve, hp, Promise.setValue]

theorem download (bfuncs : BroadcastFuncs) (responseTimeout : Time) (hh : l.server.Healthy) (hclean : l.server.Clean)
    (hr : l.server.reading = true) (hq : l.server.queue = []) (hw : l.server.writing = [])
    (hsent : l.serverSent = l.server.started.length) (hdown : l.down = []) {header : IoHeader} {body : Bytes}
    {f : BoundFunc} (hup : l.up = [header.encode l.server.order ++ body])
    (hf : l.server.boundFuncs header.callId = some (some f)) (hclose : (f body []).close = false)
    (hne : (f body []).response ≠ []) :
    ∃ l', (calmMachine bfuncs responseTimeout).Drift l l' ∧ l'.client = l.client ∧ l'.server.Healthy ∧
      l'.down = [DataPush.wire l.server.order ⟨header, (f body []).response⟩] := by
  obtain ⟨s, hs, hsh, horder, hstarted, hwriting⟩ := ServerSession.answer_ok hh hclean hr hq hw hf hclose hne 0
  have h1 : l.step bfuncs (.server (.onRead false (header.encode l.server.order ++ body) 0)) = some _ :=
    step_of_server (decide_eq_true (by rw [hup]; rfl)) hs
  have h2 : ({ l with server := s, up := l.up.drop 1 } : Link).step bfuncs .serverFlush = some { l with
      server := s, up := l.up.drop 1, down := [DataPush.wire l.server.order ⟨header, (f body []).response⟩]
      serverSent := l.serverSent + 1 } := by
    have hget : s.started[l.serverSent]? = some ⟨header, (f body []).response⟩ := by
      rw [hstarted, hsent]
      exact List.getElem?_concat_length
    simp only [step, admits, if_true, serverFlush, hget]
    rw [if_pos (by rw [hwriting]; exact List.mem_singleton_self _), horder, hdown, List.nil_append]
  exact ⟨_, drift_tail (drift_tail .refl h1 rfl) h2 rfl, rfl, hsh, rfl⟩

end Link

/-- The message `m` has been written, and the answer `d` is on its way. -/
structure Link.Replied (l : Link) (m : DataSend) (d : DataPush) : Prop where
  healthy : l.Healthy
  io : l.client.io = .idle
  reading : l.client.reading = true
  readBuffer : l.client.readBuffer = []
  written : l.client.promises m.callback = .ready true
  down : l.down = [d.wire l.client.order]

theorem Flowing.exchange {o : ByteOrder} {funcs : BoundFuncs} {l l' : Link} (hl : Flowing o funcs l)
    (bfuncs : BroadcastFuncs) (responseTimeout : Time) (hidle : l.Idle) {m : DataSend} {f : BoundFunc}
    (hf : funcs m.header.callId = some (some f)) (hclose : (f m.body []).close = false)
    (hne : (f m.body []).response ≠ []) {cache : DataCache} {promises : PromiseRef → Promise} {count : Nat}
    (hp : promises m.callback = .pending)
    (hl' : l' = { l with client := { l.client with
      cache := cache, promises := promises, promiseCount := count, posted := [.handleSend m] } }) :
    ∃ l'', (calmMachine bfuncs responseTimeout).Drift l' l'' ∧
      l''.Replied m ⟨m.header, (f m.body []).response⟩ ∧ l''.client.cache = cache := by
  have hreading : l.client.reading = true :=
    hl.paced.reading.resolve_right fun hx => by cases hidle.io.symm.trans hx
  have hidle' : l'.Idle := by
    rw [hl']
    exact ⟨hidle.io, hidle.queue, hidle.writing, hidle.sent, hidle.up, hidle.serverQueue, hidle.serverWriting,
      hidle.serverSent, hidle.down⟩
  have hhealthy : l'.client.Healthy := by
    rw [hl']
    exact ⟨hl.healthy.client.unblocked, by simp, hl.healthy.client.uncleared⟩
  have hmax : l'.client.queue.maxEntries = queueSendMax := by
    rw [hl']
    exact hl.ordered.resolved.pump.maxEntries
  obtain ⟨s, hup, hs, hio, hcache, horder, hsreading, hbuffer, hready⟩ :=
    Link.upload bfuncs responseTimeout hhealthy hidle' hmax (m := m) (by rw [hl']) (by rw [hl']; exact hp)
  have hserver : l'.server = l.server := by rw [hl']
  have horders : l'.client.order = l.server.order := by
    rw [hl', hl.ordered.serverOrder]
    exact hl.ordered.clientOrder
  obtain ⟨l₁, hl₁⟩ : ∃ l₁ : Link, l₁ = { l' with
      client := s, up := [m.header.encode l'.client.order ++ m.body], clientSent := l'.clientSent + 1 } := ⟨_, rfl⟩
  rw [← hl₁] at hup
  have hserver₁ : l₁.server = l.server := by rw [hl₁, ← hserver]
  have hmessage : l₁.up = [m.header.encode l₁.server.order ++ m.body] := by rw [hserver₁, hl₁, horders]
  obtain ⟨l₂, hdown, hclient, hsh, hwire⟩ := Link.download bfuncs responseTimeout (hserver₁ ▸ hl.healthy.server)
    (hserver₁ ▸ hl.ordered.answering.toClean) (hserver₁ ▸ hl.paced.serverReading) (hserver₁ ▸ hidle.serverQueue)
    (hserver₁ ▸ hidle.serverWriting) (by rw [hl₁]; exact hidle'.serverSent) (by rw [hl₁]; exact hidle'.down) hmessage
    (by rw [hserver₁, hl.boundFuncs]; exact hf) hclose hne
  have hclient : l₂.client = s := by rw [hclient, hl₁]
  refine ⟨l₂, hup.trans hdown, ⟨⟨hclient ▸ hs, hsh⟩, hclient ▸ hio, ?_, ?_, hclient ▸ hready, ?_⟩, ?_⟩
  · rw [hclient, hsreading, hl']
    exact hreading
  · rw [hclient, hbuffer, hl']
    exact hl.ordered.readBuffer hreading
  · rw [hwire, hserver₁, ← horders, ← horder, hclient]
  · rw [hclient, hcache, hl']

theorem Link.Replied.deliver {l l' : Link} {m : DataSend} {d : DataPush} (h : l.Replied m d) {bfuncs : BroadcastFuncs}
    (responseTimeout : Time) (hb : bfuncs d.header.callId = none) {cache : DataCache}
    (hl' : l' = { l with client := { l.client with cache := cache } }) :
    ∃ l'', (calmMachine bfuncs responseTimeout).Drift l' l'' ∧ l''.Healthy ∧
      l''.client.cache = (cache.swapNotify d.header.resultId d.body).2 := by
  have hc := h.healthy.client
  have hclient : l'.client = { l.client with cache := cache } := by rw [hl']
  obtain ⟨s, hread, hs, hcache⟩ := ClientSession.deliver_ok (s := l'.client) (d := d)
    (by rw [hclient]; exact ⟨hc.unblocked, hc.unclosed, hc.uncleared⟩) (by rw [hclient]; exact h.io)
    (by rw [hclient]; exact h.reading) (by rw [hclient]; exact h.readBuffer) hb
  have hadm : l'.admits (.client (.onRead false (d.wire l'.client.order))) = true := by
    refine decide_eq_true ?_
    rw [hl', h.down]
    rfl
  refine ⟨_, Link.drift_tail .refl (Link.step_of_client hadm hread) rfl, ⟨hs, ?_⟩, ?_⟩
  · rw [hl']
    exact h.healthy.server
  · rw [hcache, hclient]

theorem DataCache.queue_row {c : DataCache} (h : ¬ c.maxEntries ≤ c.entries.size) (now valid : Time) : ∃ id c' row,
    c.queue now valid = (id, c') ∧ c.idCounter + 1 = id ∧ c'.entries[id]? = some row ∧
      (c'.rows row).state ≠ .swapped := by
  rw [queue_open h]
  refine ⟨_, _, c.allocated, rfl, rfl, ExtTreeMap.getElem?_insert_self, ?_⟩
  simp [DataRead.new]

/-- A call that finds no response blocks on its row, and the response that comes next is what it gets. -/
theorem DataCache.row_served {c : DataCache} {id : UInt64} {row : RowRef} (he : c.entries[id]? = some row)
    (hs : (c.rows row).state ≠ .swapped) (response recv : Bytes) : ∃ c', c.find id = (.blocked row, c') ∧
      (c'.swapNotify id response).2.awaited row = true ∧
      ((c'.swapNotify id response).2.take row recv).1 = response := by
  have he' : (c.setState row .waiting).entries[id]? = some row := he
  refine ⟨_, find_waits he hs, ?_, ?_⟩
  · simp [awaited, swapNotify_rows he']
  · simp [take, swapNotify_rows he']

theorem sendRecv_body (responseTimeout : Time) (callId : UInt32) (body recv : Bytes) :
    ∃ k₀, SessCall.body responseTimeout (.sendRecv callId body recv) = .op (.cache (.queue (responseTimeout * 2))) k₀ ∧
      ∀ id : UInt64, id ≠ 0 → ∃ k₁, k₀ id = .op (.post callId id body) k₁ ∧
      ∀ callback, ∃ k₂, k₁ callback = .op (.waitWritten callback) k₂ ∧
      ∃ k₃, k₂ true = .op (.cache (.find id)) k₃ ∧
      ∀ row, ∃ k₄, k₃ (.blocked row) = .op (.cache (.await id row)) k₄ ∧
      ∃ k₅, k₄ true = .op (.cache (.take row recv)) k₅ ∧ ∀ buffer, k₅ buffer = .ret (.received buffer none id) := by
  refine ⟨_, rfl, fun id hid => ?_⟩
  dsimp only [Prog.bind]
  rw [if_neg hid]
  exact ⟨_, rfl, fun callback => ⟨_, rfl, _, rfl, fun row => ⟨_, rfl, _, rfl, fun buffer => rfl⟩⟩⟩


def SessOp.Patient (_ : SessOp) (i : Clock) : Prop := i.timeout = false

section Runs

variable {bfuncs : BroadcastFuncs} {responseTimeout : Time} {funcs : BoundFuncs} {o : ByteOrder} {pingDelay now : Time}
  {p : LinkPool} {t : Nat} {callId : UInt32} {f : BoundFunc}

theorem Flowing.serve {l : Link} (hl : Flowing o funcs l) (hidle : l.Idle) (hposted : l.client.posted = [])
    (hpol : Polite funcs) (hopen : ¬ l.client.cache.maxEntries ≤ l.client.cache.entries.size)
    (hid : l.client.cache.idCounter + 1 ≠ 0) (hf : funcs callId = some (some f)) (hb : bfuncs callId = none)
    {body : Bytes} (hne : (f body []).response ≠ []) (recv₀ : Bytes) (th : Nat → Option (SessCall × SessProg SessRet)) :
    (calmMachine bfuncs responseTimeout).Leads SessOp.Patient
      ⟨l, Function.update th t (some (.sendRecv callId body recv₀,
        SessCall.body responseTimeout (.sendRecv callId body recv₀)))⟩ fun q =>
      (∃ id, q.result t = some (.sendRecv callId body recv₀, .received (f body []).response none id)) ∧
        q.shared.Healthy := by
  obtain ⟨id, c, row, hqueue, rfl, hentry, hqueued⟩ := DataCache.queue_row hopen 0 (responseTimeout * 2)
  obtain ⟨c', hfind, hawaited, htaken⟩ := DataCache.row_served hentry hqueued (f body []).response recv₀
  obtain ⟨k₀, hk₀, hk⟩ := sendRecv_body responseTimeout callId body recv₀
  obtain ⟨k₁, hk₁, hk⟩ := hk _ hid
  obtain ⟨k₂, hk₂, k₃, hk₃, hk⟩ := hk l.client.promiseCount
  obtain ⟨k₄, hk₄, k₅, hk₅, hret⟩ := hk row
  -- the call gets an id and posts its message
  have hex₀ : (SessOp.cache (.queue (responseTimeout * 2))).execLink t {} l =
      some (l.client.cache.idCounter + 1, { l with client := { l.client with cache := c } }) := by
    simp only [SessOp.execLink, SessOp.exec, CacheOp.exec, hqueue, Option.map_some]
  obtain ⟨m, hm⟩ : ∃ m : DataSend, m =
    ⟨l.client.promiseCount, t, body, .new callId (l.client.cache.idCounter + 1)⟩ := ⟨_, rfl⟩
  obtain ⟨l₁, hl₁⟩ : ∃ l₁ : Link, l₁ = { l with client := { l.client with
      cache := c, promises := Function.update l.client.promises l.client.promiseCount .pending
      promiseCount := l.client.promiseCount + 1, posted := [.handleSend m] } } := ⟨_, rfl⟩
  have hex₁ : (SessOp.post callId (l.client.cache.idCounter + 1) body).execLink t {}
      { l with client := { l.client with cache := c } } = some (l.client.promiseCount, l₁) := by
    simp only [SessOp.execLink, SessOp.exec, hposted, List.nil_append, Option.map_some, hl₁, hm]
  obtain ⟨l₂, hexchange, hreplied, hcache⟩ := hl.exchange bfuncs responseTimeout hidle (m := m) (f := f)
    (by rw [hm]; exact hf) (by rw [hm]; exact hpol callId f hf body []) (by rw [hm]; exact hne)
    (by rw [hm]; exact Function.update_self ..) hl₁
  -- the message has been written, and the call blocks on its row
  have hready : l₂.client.promises l.client.promiseCount = .ready true := by simpa [hm] using hreplied.written
  have hex₂ : (SessOp.waitWritten l.client.promiseCount).execLink t {} l₂ = some (true, l₂) := by
    simp only [SessOp.execLink, SessOp.exec, hready, Option.map_some]
  obtain ⟨l₃, hl₃⟩ : ∃ l₃ : Link, l₃ = { l₂ with client := { l₂.client with cache := c' } } := ⟨_, rfl⟩
  have hex₃ : (SessOp.cache (.find (l.client.cache.idCounter + 1))).execLink t {} l₂ = some (.blocked row, l₃) := by
    simp only [SessOp.execLink, SessOp.exec, CacheOp.exec, hcache, hfind, Option.map_some, hl₃]
  -- the response is delivered, and wakes it
  have hforeign : bfuncs m.header.callId = none := by rw [hm]; exact hb
  obtain ⟨l₄, hdeliver, hhealthy, hcache'⟩ := hreplied.deliver responseTimeout hforeign hl₃
  have hcache' : l₄.client.cache = (c'.swapNotify (l.client.cache.idCounter + 1) (f body []).response).2 := by
    rw [hcache', hm]
    rfl
  rw [← hcache'] at hawaited htaken
  have hex₄ : (SessOp.cache (.await (l.client.cache.idCounter + 1) row)).execLink t {} l₄ = some (true, l₄) := by
    simp only [SessOp.execLink, SessOp.exec, CacheOp.exec, hawaited, if_true, Option.map_some]
  have hex₅ : (SessOp.cache (.take row recv₀)).execLink t {} l₄ = some ((f body []).response,
      { l₄ with client := { l₄.client with cache := (l₄.client.cache.take row recv₀).2 } }) := by
    simp only [SessOp.execLink, SessOp.exec, CacheOp.exec, Option.map_some, htaken]
  have hfine : ∀ op : SessOp, op.Patient {} := fun _ => rfl
  refine .of_prog hk₀ (hfine _) hex₀ (.of_prog hk₁ (hfine _) hex₁ (.of_drift hexchange ?_))
  refine .of_prog hk₂ (hfine _) hex₂ (.of_prog hk₃ (hfine _) hex₃ (.of_drift hdeliver ?_))
  refine .of_prog hk₄ (hfine _) hex₄ (.of_prog hk₅ (hfine _) hex₅ (.now ⟨⟨l.client.cache.idCounter + 1, ?_⟩, ?_⟩))
  · simp [Pool.result, hret, Prog.result]
  · exact ⟨⟨hhealthy.client.unblocked, hhealthy.client.unclosed, hhealthy.client.uncleared⟩, hhealthy.server⟩

theorem Flowing.answers {l : Link} (h : Flowing o funcs l) (responseTimeout : Time) (t : Nat) (hpol : Polite funcs)
    (hroom : l.client.cache.entries.size < l.client.cache.maxEntries) (hid : l.client.cache.idCounter + 1 ≠ 0)
    (hf : funcs callId = some (some f)) (hb : bfuncs callId = none) {body : Bytes} (hne : (f body []).response ≠ [])
    (recv₀ : Bytes) (th : Nat → Option (SessCall × SessProg SessRet)) :
    (calmMachine bfuncs responseTimeout).Leads SessOp.Patient
      ⟨l, Function.update th t (some (.sendRecv callId body recv₀,
        SessCall.body responseTimeout (.sendRecv callId body recv₀)))⟩ fun q =>
      (∃ id, q.result t = some (.sendRecv callId body recv₀, .received (f body []).response none id)) ∧
        q.shared.Healthy := by
  obtain ⟨l', hdrain, hl', hshrinks, hload⟩ := h.drain hpol bfuncs responseTimeout
  obtain ⟨hidle, hposted⟩ := hl'.idle hload
  have hopen : ¬ l'.client.cache.maxEntries ≤ l'.client.cache.entries.size :=
    Nat.not_le.mpr (hshrinks.maxEntries.symm ▸ hshrinks.size.trans_lt hroom)
  exact .of_drift hdrain (hl'.serve hidle hposted hpol hopen (hshrinks.idCounter.symm ▸ hid) hf hb hne recv₀ th)

theorem flowing_of_reach
    (hp : (linkMachine bfuncs responseTimeout).Reach Machine.Free (.established funcs o pingDelay now) p)
    (hlt : p.shared.client.cache.allocated < 2 ^ 64) (hh : p.shared.Healthy) : Flowing o funcs p.shared := by
  obtain ⟨_, hrun, -⟩ := linkOrdered_of_reach hp
  obtain ⟨_, hinv, -⟩ := correlated_of_reach hp
  exact ⟨hrun.ordered, hh, Link.paced_of_reach hp hh, (hinv hlt).boundFuncs⟩

end Runs

/-! ## Inside the system -/

/-- No wait of a call on a client times out. -/
def SystemOp.Patient (_ : SystemOp) (i : SystemInput) : Prop := i.clock.timeout = false

/-- What lies beside the connection of client `k` is the same. -/
structure Hub.Beside (k : Nat) (h h' : Hub) : Prop where
  manager : h'.manager = h.manager
  links : ∀ k', k' ≠ k → h'.links k' = h.links k'

/-- The calls on a client, its session and its connection can go on without the rest of the system. -/
theorem Hub.acts {cfg : HubConfig} {h : Hub} {k : Nat} (hest : (h.manager.sessions k).established = true)
    (responseTimeout : Time) : Acts (calmMachine (cfg.funcs k) responseTimeout) (systemMachine cfg responseTimeout)
      (fun h => (h.links k).link) (.client k) (fun _ r => r) SessOp.Patient SystemOp.Patient (h.Beside k) where
  exec := by
    intro t o i h' r l hbeside hfine hex
    refine ⟨{ clock := i }, r, { h' with links := Function.update h'.links k { h'.links k with link := l } }, hfine, ?_,
      rfl, ?_, hbeside.manager, fun k' hk => ?_⟩
    · have hex : o.execLink t i (h'.links k).link = some (r, l) := hex
      show (o.execLink t i (h'.links k).link).map _ = _
      rw [hex]
      rfl
    · simp only [Function.update_self]
    · simp only [Function.update_of_ne hk]
      exact hbeside.links k' hk
  env := by
    intro e h' l hbeside he
    obtain ⟨hsend, hs⟩ := calm_env.mp he
    have hopen : ((h'.manager.sessions k).established && !e.isSend) = true := by
      rw [hbeside.manager, hest, hsend]
      rfl
    obtain ⟨x, hx, hxl⟩ : ∃ x, (h'.links k).step (cfg.funcs k) e = some x ∧ x.link = l :=
      ⟨_, by simp only [TaggedLink.step, hs, Option.map_some]; rfl, rfl⟩
    refine ⟨.link k e, { h' with links := Function.update h'.links k x }, ?_, ?_, hbeside.manager, fun k' hk => ?_⟩
    · simp only [systemMachine, Hub.systemStep, Hub.step, hopen, if_true, hx, Option.map_some]
    · simp only [Function.update_self, hxl]
    · simp only [Function.update_of_ne hk]
      exact hbeside.links k' hk

/-- **A healthy connection serves every request.** In every reachable state of a server with any number of clients, and
for each connection on which nothing has failed and nobody has asked to close, whatever is queued or on its way: when a
call of `send_recv` is made on the client whose id the server has a handler for, some run in which no wait times out
leads to its return, with the response of the handler to its body. The connection is healthy then, and everything beside
it, the other calls included, is where it was. -/
theorem request_can_be_answered {cfg : HubConfig} {responseTimeout : Time} {p : SystemPool} {k t : Nat}
    {callId : UInt32} {f : BoundFunc} (body recv₀ : Bytes)
    (hp : (systemMachine cfg responseTimeout).Reach Machine.Free (.new cfg) p)
    (hest : (p.shared.manager.sessions k).established = true) (hh : (p.shared.links k).link.Healthy)
    (hpol : Polite cfg.boundFuncs)
    (hroom : (p.shared.links k).link.client.cache.entries.size < (p.shared.links k).link.client.cache.maxEntries)
    (hlt : (p.shared.links k).link.client.cache.allocated + 1 < 2 ^ 64) (hf : cfg.boundFuncs callId = some (some f))
    (hb : cfg.funcs k callId = none) (hne : (f body []).response ≠ []) (ht : p.thread t = none) :
    ∃ p' as q id,
      (systemMachine cfg responseTimeout).step p (.call t (.client k (.sendRecv callId body recv₀))) = some p' ∧
      (systemMachine cfg responseTimeout).Steps (Machine.Quiet SystemOp.Patient) p' as q ∧
      q.result t = some (.client k (.sendRecv callId body recv₀), .client (.received (f body []).response none id)) ∧
      (q.shared.links k).link.Healthy ∧ p.shared.Beside k q.shared ∧ ∀ t', t' ≠ t → q.thread t' = p.thread t' := by
  obtain ⟨q, hq, hsees⟩ := reach_client hp k
  have hshared : q.shared = (p.shared.links k).link := hsees.shared
  rw [← hshared] at hh hroom hlt
  obtain ⟨_, hinv, -⟩ := correlated_of_reach hq
  have hnumbered := (hinv (Nat.lt_of_succ_lt hlt)).numbered.cache
  have hflow := flowing_of_reach hq (Nat.lt_of_succ_lt hlt) hh
  have hleads := hflow.answers responseTimeout t hpol hroom (ne_zero_of_toNat (hnumbered.toNat_succ hlt)) hf hb hne recv₀
    fun _ => none
  rw [hshared] at hleads
  have hsystem : (systemMachine cfg responseTimeout).Leads SystemOp.Patient ⟨p.shared, Function.update p.thread t
      (some (.client k (.sendRecv callId body recv₀), (systemMachine cfg responseTimeout).body
        (.client k (.sendRecv callId body recv₀))))⟩ _ :=
    (Hub.acts hest responseTimeout).leads (j := SystemRet.client) ⟨rfl, fun _ _ => rfl⟩ hleads
  obtain ⟨as, q', hsteps, hbeside, prog, ⟨⟨id, hres⟩, hhealthy⟩, hthread⟩ := hsystem
  have hprog : prog = .ret (.received (f body []).response none id) := by
    simpa using Machine.result_eq_some hres
  refine ⟨_, as, q', id, ?_, hsteps, ?_, hhealthy, hbeside, fun t' hne => ?_⟩
  · simp only [Machine.step, ht]
  · simp [Pool.result, hthread, hprog, Prog.embed, Prog.result]
  · rw [hthread, Function.update_of_ne hne]

theorem polite_appendOne : Polite appendOne := by
  intro callId f hf b r
  unfold appendOne at hf
  split at hf
  · cases hf
    rfl
  · cases hf

/-- A call on client 0 that is made while a request is in the stream, and a call on client 1 waits for its turn. -/
theorem request_can_be_answered_behind : ∃ (p p' q : SystemPool) (as : List (Act SystemCall SystemInput SystemEnv))
    (id : UInt64), (systemMachine appendingConfig 1000000000).Reach Machine.Free (.new appendingConfig) p ∧
      (p.shared.links 0).link.up ≠ [] ∧ (p.shared.links 1).link.client.posted ≠ [] ∧
      (systemMachine appendingConfig 1000000000).step p (.call 4 (.client 0 (.sendRecv 7 [4] []))) = some p' ∧
      (systemMachine appendingConfig 1000000000).Steps (Machine.Quiet SystemOp.Patient) p' as q ∧
      q.result 4 = some (.client 0 (.sendRecv 7 [4] []), .client (.received [4, 1] none id)) ∧
      (q.shared.links 1).link.client.posted ≠ [] := by
  have hrun : ((systemMachine appendingConfig 1000000000).run (fun _ _ => true) (.initial (.new appendingConfig))
      (joinRun 0 0 100 ++ joinRun 1 1 200 ++ (exchangeRun 0 2 5).take 5 ++ (exchangeRun 1 3 6).take 3)).any (fun p =>
        decide ((p.shared.manager.sessions 0).established = true) &&
        decide ((p.shared.links 0).link.client.blocked = false) &&
        decide ((p.shared.links 0).link.client.posted = []) && decide ((p.shared.links 0).link.client.io = .idle) &&
        decide ((p.shared.links 0).link.server.blocked = false) &&
        decide ((p.shared.links 0).link.server.boundClose = false) &&
        decide ((p.shared.links 0).link.client.cache.entries.size < (p.shared.links 0).link.client.cache.maxEntries) &&
        decide ((p.shared.links 0).link.client.cache.allocated + 1 < 2 ^ 64) && (p.thread 4).isNone &&
        decide ((p.shared.links 0).link.up ≠ []) && decide ((p.shared.links 1).link.client.posted ≠ [])) = true := by
    decide +kernel
  obtain ⟨p, hp, hf⟩ := Machine.Reach.exists_of_run (G := Machine.Free) (fun _ _ _ => trivial) _ hrun
  simp only [Bool.and_eq_true, decide_eq_true_eq, Option.isNone_iff_eq_none] at hf
  obtain ⟨⟨⟨⟨⟨⟨⟨⟨⟨⟨hest, hunblocked⟩, hposted⟩, hio⟩, hserver⟩, hwilling⟩, hroom⟩, hlt⟩, ht⟩, hup⟩, hwaits⟩ := hf
  have hh : (p.shared.links 0).link.Healthy :=
    ⟨⟨hunblocked, by simp [hposted], fun rest hx => by cases hio.symm.trans hx⟩, ⟨hserver, hwilling⟩⟩
  have hbound : appendingConfig.boundFuncs 7 = some (some fun body _ => { response := body ++ [1] }) := rfl
  obtain ⟨p', as, q, id, hcall, hsteps, hres, -, hbeside, -⟩ :=
    request_can_be_answered [4] [] hp hest hh polite_appendOne hroom hlt hbound rfl (by decide) ht
  refine ⟨p, p', q, as, id, hp, hup, hwaits, hcall, hsteps, hres, ?_⟩
  rw [hbeside.links 1 (by decide)]
  exact hwaits

end Radrpc
