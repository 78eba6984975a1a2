import Radrpc.Lib.Slots
import Radrpc.Link
import Radrpc.Server.Answers
import Radrpc.Server.Manager
import Radrpc.WritePump

/-!
# Broadcasts on their way through a connection

The messages of a server session are broadcasts and responses. A tag beside each message says which broadcast it is, from
the moment it is posted to the call of a handler of the client; nothing that a session does depends on the tags.

* `TaggedLink` : a connection with its tags;
* `TaggedLink.post`, `TaggedLink.step` : a broadcast is posted, and every step of the connection moves the tags with the
  messages;
* `Tracked` : the tags are right, and they keep their order at every hop;
* `TaggedLink.Tracked.calls` : the calls of handlers for broadcasts are a part of the broadcasts that were posted.
-/

namespace Radrpc
open Words Conc Pump

def BroadcastMsg.push (b : BroadcastMsg) : DataPush := ⟨.new b.callId 0, b.bytes⟩

/-- The number of a broadcast, and what was broadcast. -/
abbrev Tag := Nat × BroadcastMsg

/-- A connection with tags: of the posted messages, of those that `handle_send` has accepted, and of the calls of
handlers; `reads` counts the messages that the client has read, and `history` has all broadcasts posted so far. -/
structure TaggedLink where
  link : Link
  posted : List Tag := []
  accepted : List (Option Tag) := []
  reads : Nat := 0
  handled : List (Option Tag) := []
  history : List Tag := []

/-- The tags that a posted `handle_send` leaves. -/
def LinkEvent.postedTags : LinkEvent → List Tag → List Tag
  | .server .handleSend, tags => tags.tail
  | _, tags => tags

def LinkEvent.acceptedTag : LinkEvent → List Tag → Option Tag
  | .server .handleSend, tags => tags.head?
  | _, _ => none

/-- The messages that the client takes from the stream. -/
def LinkEvent.clientReads : LinkEvent → Nat
  | .client e => e.reads
  | _ => 0

namespace TaggedLink

/-- `send()` posts the message of a broadcast. -/
def post (x : TaggedLink) (tag : Tag) : TaggedLink :=
  { x with
    link := { x.link with server := { x.link.server with posted := x.link.server.posted ++ [tag.2.push] } }
    posted := x.posted ++ [tag]
    history := x.history ++ [tag] }

def step (funcs : BroadcastFuncs) (x : TaggedLink) (e : LinkEvent) : Option TaggedLink :=
  (x.link.step funcs e).map fun l => { x with
    link := l
    posted := e.postedTags x.posted
    accepted := if x.link.server.accepted.length < l.server.accepted.length then x.accepted ++ [e.acceptedTag x.posted]
      else x.accepted
    reads := x.reads + e.clientReads
    handled := if x.link.client.handled.length < l.client.handled.length then x.handled ++ [x.accepted[x.reads]?.join]
      else x.handled }

/-- The calls of the client's handlers that are for a broadcast, with the number of the broadcast. -/
def calls (x : TaggedLink) : List (Nat × UInt32 × Bytes) :=
  (x.handled.zip x.link.client.handled).filterMap fun c => c.1.map fun tag => (tag.1, c.2)

theorem post_link (funcs : BroadcastFuncs) (x : TaggedLink) (tag : Tag) :
    x.link.step funcs (.server (.send tag.2.push)) = some (x.post tag).link := by
  have hadmits : x.link.admits (.server (.send tag.2.push)) = true := decide_eq_true rfl
  unfold Link.step
  rw [if_pos hadmits]
  rfl

end TaggedLink

/-! ## What the sessions do -/

theorem ServerSession.callFunction_posted (s : ServerSession) (now : Time) : (s.callFunction now).posted = s.posted := by
  cases hf : handlerFor s.boundFuncs s.order s.receiveBuffer with
  | none =>
    obtain ⟨_, _, _, he⟩ := callFunction_none hf now
    rw [he]
  | some f =>
    rw [callFunction_some hf]
    split
    · obtain ⟨_, _, _, _, _, _, _, he⟩ := (s.called f).closeSession_frame now
      rw [he]
      rfl
    · split
      · obtain ⟨_, _, _, _, he⟩ := handleSend_frame { s.called f with response := [] }
          ⟨(s.called f).header, (s.called f).response⟩
        rw [he]
        rfl
      · rfl

theorem ServerSession.posted_of_step {s s' : ServerSession} {e : ServerEvent} (hs : s.step e = some s')
    (hsend : ∀ data, e ≠ .send data) (hne : e ≠ .handleSend) : s'.posted = s.posted := by
  cases e with
  | send data => exact absurd rfl (hsend data)
  | handleSend => exact absurd rfl hne
  | onWrite i ec now =>
    simp only [step] at hs
    split at hs
    · cases hs
      obtain ⟨_, _, _, _, _, _, _, _, _, _, _, he⟩ := onWrite_frame { s with writing := s.writing.eraseIdx i } ec now
      rw [he]
    · cases hs
  | onRead ec bytes now =>
    simp only [step] at hs
    split at hs
    · cases hs
      unfold onRead
      split
      · obtain ⟨_, _, _, _, _, _, _, he⟩ := closeSession_frame
          { s with reading := false, receiveBuffer := s.receiveBuffer ++ bytes, readError := true } now
        rw [he]
      · dsimp only
        split
        · exact callFunction_posted { s with reading := false, receiveBuffer := s.receiveBuffer ++ bytes } now
        · rfl
    · cases hs
  | timerExpires now =>
    simp only [step] at hs
    split at hs
    · cases hs
      rfl
    · cases hs
  | onTimer now isOpen =>
    simp only [step] at hs
    split at hs
    · cases hs
    · rename_i ec rest _
      cases hs
      obtain ⟨_, _, _, _, _, _, _, _, he⟩ := onTimer_frame { s with timerReady := rest } ec now isOpen
      rw [he]
  | control kind now =>
    cases hs
    unfold onControlCallback
    split <;> rfl
  | onPing | onShutdown =>
    simp only [step] at hs
    split at hs
    · cases hs
      rfl
    · cases hs

theorem ServerSession.handleSend_accepts (s : ServerSession) (data : DataPush) :
    (s.handleSend data).accepted = s.accepted ∨ (s.handleSend data).accepted = s.accepted ++ [data] := by
  unfold handleSend
  split
  · exact .inl rfl
  split
  · exact .inl rfl
  dsimp only
  split
  · exact .inr rfl
  · obtain ⟨_, _, he⟩ := write_frame { s with queue := s.queue ++ [data], accepted := s.accepted ++ [data] }
    rw [he]
    exact .inr rfl

theorem ClientSession.handled_of_step {funcs : BroadcastFuncs} {s s' : ClientSession} {e : ClientEvent}
    (hs : s.step funcs e = some s') : s'.handled = s.handled ∨ ∃ bytes, e = .onRead false bytes ∧ s.reading = true ∧
      s'.handled = s.handled ++ [((IoHeader.read s.order (s.readBuffer ++ bytes)).callId,
        (s.readBuffer ++ bytes).drop IoHeader.size)] := by
  cases moves_of_step hs with
  | onRead ec bytes readBuffer cache delivered handled readError close closing io _ hr _ he =>
    rw [← he]
    unfold onRead
    split
    · obtain ⟨_, _, he⟩ := closeSession_frame
        { s with reading := false, readBuffer := s.readBuffer ++ bytes, cache := s.cache.clear, readError := true }
      rw [he]
      exact .inl rfl
    · rename_i hec
      have hec' : ec = false := by
        cases ec with
        | false => rfl
        | true => exact absurd rfl hec
      split
      · dsimp only
        split
        · exact .inr ⟨bytes, by rw [hec'], hr, rfl⟩
        · exact .inl rfl
        · exact .inl rfl
      · exact .inl rfl
  | _ => exact .inl rfl

/-! ## The tags are right -/

namespace TaggedLink

/-- The stream holds the messages that were started and not read, the tags are those of the messages, and the broadcasts
keep their order. -/
structure Tracked (x : TaggedLink) : Prop where
  order : x.link.server.order = x.link.client.order
  clean : x.link.server.Clean
  pump : x.link.server.pump.Inv queueSendMax
  buffer : x.link.client.reading = true → x.link.client.readBuffer = []
  sent : x.link.serverSent ≤ x.link.server.started.length
  read : x.reads ≤ x.link.serverSent
  down : x.link.down =
    ((x.link.server.started.take x.link.serverSent).drop x.reads).map (DataPush.wire x.link.client.order)
  posted : x.link.server.posted = x.posted.map fun tag => tag.2.push
  acceptedLength : x.accepted.length = x.link.server.accepted.length
  accepted : ∀ (i : Nat) (tag : Tag), x.accepted[i]? = some (some tag) → x.link.server.accepted[i]? = some tag.2.push
  handledLength : x.handled.length = x.link.client.handled.length
  handled : ∀ (i : Nat) (tag : Tag), x.handled[i]? = some (some tag) →
    x.link.client.handled[i]? = some (tag.2.callId, tag.2.bytes)
  heard : (x.handled.filterMap id).Sublist ((x.accepted.take x.reads).filterMap id)
  fifo : (x.accepted.filterMap id ++ x.posted).Sublist x.history

namespace Tracked

variable {x x' : TaggedLink} {funcs : BroadcastFuncs}

theorem started_isPrefix (h : Tracked x) : x.link.server.started <+: x.link.server.accepted := h.pump.started_isPrefix

theorem reads_le (h : Tracked x) : x.reads ≤ x.accepted.length := by
  have hle := h.started_isPrefix.length_le
  have h1 := h.sent
  have h2 := h.read
  have h3 := h.acceptedLength
  omega

theorem head (h : Tracked x) {bytes : Bytes} (hd : x.link.down.head? = some bytes) :
    x.reads < x.link.serverSent ∧ ∃ d, x.link.server.accepted[x.reads]? = some d ∧
      bytes = d.wire x.link.client.order := by
  rw [h.down, List.head?_map, List.head?_drop, List.getElem?_take] at hd
  obtain ⟨d, hget, rfl⟩ := Option.map_eq_some_iff.mp hd
  split at hget
  · rename_i hlt
    refine ⟨hlt, d, ?_, rfl⟩
    obtain ⟨rest, hrest⟩ := h.started_isPrefix
    rw [← hrest, List.getElem?_append_left (List.getElem?_eq_some_iff.mp hget).1, hget]
  · cases hget

theorem client_of (h : Tracked x) {c : ClientSession} {up : List Bytes} {n : Nat} (ho : c.order = x.link.client.order)
    (hb : c.reading = true → c.readBuffer = []) (hh : c.handled = x.link.client.handled) :
    Tracked { x with link := { x.link with client := c, up := up, clientSent := n } } := by
  refine ⟨h.order.trans ho.symm, h.clean, h.pump, hb, h.sent, h.read, ?_, h.posted, h.acceptedLength, h.accepted, ?_, ?_,
    h.heard, h.fifo⟩
  · show x.link.down = _
    rw [h.down, ho]
  · show x.handled.length = c.handled.length
    rw [hh]
    exact h.handledLength
  · intro i tag hi
    show c.handled[i]? = _
    rw [hh]
    exact h.handled i tag hi

theorem exec (h : Tracked x) {t : Nat} {o : SessOp} {i : Clock} {r : o.Res} {l : Link}
    (hs : o.execLink t i x.link = some (r, l)) : Tracked { x with link := l } := by
  obtain ⟨c, hc, rfl⟩ := SessOp.execLink_eq_some hs
  obtain ⟨_, _, _, _, _, rfl⟩ := SessOp.exec_frame hc
  exact h.client_of rfl h.buffer rfl

theorem post (h : Tracked x) (tag : Tag) : Tracked (x.post tag) := by
  refine ⟨h.order, ⟨h.clean.receiveBuffer, h.clean.response⟩, h.pump, h.buffer, h.sent, h.read, h.down, ?_,
    h.acceptedLength, h.accepted, h.handledLength, h.handled, h.heard, ?_⟩
  · show x.link.server.posted ++ [tag.2.push] = (x.posted ++ [tag]).map _
    rw [h.posted, List.map_append]
    rfl
  · show (x.accepted.filterMap id ++ (x.posted ++ [tag])).Sublist (x.history ++ [tag])
    rw [← List.append_assoc]
    exact h.fifo.append (.refl _)

theorem server_of (h : Tracked x) {s : ServerSession} {e : ServerEvent} (hs : x.link.server.step e = some s)
    {up : List Bytes} {tags : List Tag} {accepted : List (Option Tag)} (hposted : s.posted = tags.map fun tag => tag.2.push)
    (hacc : (s.accepted = x.link.server.accepted ∧ accepted = x.accepted) ∨
      ∃ d tag, s.accepted = x.link.server.accepted ++ [d] ∧ accepted = x.accepted ++ [tag] ∧
        ∀ g, tag = some g → d = g.2.push)
    (hfifo : (accepted.filterMap id ++ tags).Sublist x.history) :
    Tracked { x with
      link := { x.link with server := s, up := up }, posted := tags, accepted := accepted } := by
  have hstep := ServerSession.step_pump h.pump hs
  have hst : x.link.server.started <+: s.started := hstep.started
  have hle := hst.length_le
  have hclean : s.Clean ∧ s.order = x.link.server.order := by
    by_cases hr : ∃ ec bytes now, e = .onRead ec bytes now
    · obtain ⟨ec, bytes, now, rfl⟩ := hr
      obtain ⟨hc, -, ho, -⟩ := ServerSession.step_onRead h.clean hs
      exact ⟨hc, ho⟩
    · obtain ⟨-, ho, hrd, hrb, hrs, -, -⟩ :=
        ServerSession.step_other (fun ec bytes now he => hr ⟨ec, bytes, now, he⟩) hs
      refine ⟨⟨fun hr => ?_, hrs.trans h.clean.response⟩, ho⟩
      rw [hrb]
      exact h.clean.receiveBuffer (hrd ▸ hr)
  have htake : s.started.take x.link.serverSent = x.link.server.started.take x.link.serverSent := by
    obtain ⟨rest, hrest⟩ := hst
    rw [← hrest, List.take_append_of_le_length h.sent]
  have hreads : accepted.take x.reads = x.accepted.take x.reads := by
    rcases hacc with ⟨-, rfl⟩ | ⟨d, tag, -, rfl, -⟩
    · rfl
    · rw [List.take_append_of_le_length h.reads_le]
  refine ⟨hclean.2.trans h.order, hclean.1, hstep.inv h.pump, h.buffer, h.sent.trans hle, h.read, ?_, hposted, ?_, ?_,
    h.handledLength, h.handled, ?_, hfifo⟩
  · show x.link.down = ((s.started.take x.link.serverSent).drop x.reads).map _
    rw [htake]
    exact h.down
  · show accepted.length = s.accepted.length
    rcases hacc with ⟨hs', rfl⟩ | ⟨d, tag, hs', rfl, -⟩
    · rw [hs']
      exact h.acceptedLength
    · rw [hs', List.length_append, List.length_append, h.acceptedLength]
      rfl
  · intro i g hi
    show s.accepted[i]? = _
    change accepted[i]? = _ at hi
    rcases hacc with ⟨hs', rfl⟩ | ⟨d, tag, hs', rfl, htag⟩
    · rw [hs']
      exact h.accepted i g hi
    · rw [hs']
      by_cases hlt : i < x.accepted.length
      · rw [List.getElem?_append_left hlt] at hi
        rw [List.getElem?_append_left (h.acceptedLength ▸ hlt)]
        exact h.accepted i g hi
      · -- the message that has just been accepted
        rw [List.getElem?_append_right (Nat.le_of_not_lt hlt), List.getElem?_singleton] at hi
        split at hi
        · rename_i hzero
          rw [List.getElem?_append_right (h.acceptedLength ▸ Nat.le_of_not_lt hlt), ← h.acceptedLength, hzero,
            htag g (Option.some.inj hi)]
          rfl
        · cases hi
  · show (x.handled.filterMap id).Sublist ((accepted.take x.reads).filterMap id)
    rw [hreads]
    exact h.heard

theorem handleSend (h : Tracked x) (hs : x.step funcs (.server .handleSend) = some x') : Tracked x' := by
  obtain ⟨l, hl, rfl⟩ := Option.map_eq_some_iff.mp hs
  obtain ⟨-, s, hstep, rfl⟩ := Link.step_server hl
  have hstep' := hstep
  simp only [ServerSession.step] at hstep
  split at hstep
  · cases hstep
  · rename_i data rest hp
    obtain rfl := Option.some.inj hstep
    have htags := h.posted
    have hfifo := h.fifo
    rw [hp] at htags
    rw [if_neg (Nat.lt_irrefl _)]
    cases hx : x.posted with
    | nil =>
      rw [hx] at htags
      cases htags
    | cons tag tags =>
      rw [hx] at htags hfifo
      obtain ⟨rfl, rfl⟩ := List.cons.inj htags
      have hposted : (ServerSession.handleSend { x.link.server with posted := tags.map fun tag => tag.2.push }
          tag.2.push).posted = tags.map fun tag => tag.2.push := by
        obtain ⟨_, _, _, _, hf⟩ := ServerSession.handleSend_frame
          { x.link.server with posted := tags.map fun tag => tag.2.push } tag.2.push
        rw [hf]
      refine h.server_of hstep' hposted ?_ ?_
      · rcases ServerSession.handleSend_accepts
          { x.link.server with posted := tags.map fun tag => tag.2.push } tag.2.push with ha | ha
        · refine .inl ⟨ha, if_neg ?_⟩
          rw [ha]
          exact Nat.lt_irrefl _
        · refine .inr ⟨tag.2.push, some tag, ha, if_pos ?_, fun g hg => by cases hg; rfl⟩
          rw [ha, List.length_append]
          exact Nat.lt_succ_self _
      · split
        · rw [List.filterMap_append, List.append_assoc]
          exact hfifo
        · exact ((List.Sublist.refl _).append (List.sublist_cons_self tag tags)).trans hfifo

theorem server (h : Tracked x) {e : ServerEvent} (hne : ∀ data, e ≠ .send data) (hsend : e ≠ .handleSend)
    (hs : x.step funcs (.server e) = some x') : Tracked x' := by
  obtain ⟨l, hl, rfl⟩ := Option.map_eq_some_iff.mp hs
  obtain ⟨-, s, hstep, rfl⟩ := Link.step_server hl
  have htag : LinkEvent.acceptedTag (.server e) x.posted = none := by
    cases e <;> first | rfl | exact absurd rfl hsend
  have htags : LinkEvent.postedTags (.server e) x.posted = x.posted := by
    cases e <;> first | rfl | exact absurd rfl hsend
  rw [htag, htags, if_neg (Nat.lt_irrefl _)]
  refine h.server_of hstep ((ServerSession.posted_of_step hstep hne hsend).trans h.posted) ?_ ?_
  · rcases (ServerSession.step_pump h.pump hstep).accepted with ha | ⟨d, ha⟩
    · have ha : s.accepted = x.link.server.accepted := ha
      refine .inl ⟨ha, if_neg ?_⟩
      rw [ha]
      exact Nat.lt_irrefl _
    · have ha : s.accepted = x.link.server.accepted ++ [d] := ha
      refine .inr ⟨d, none, ha, if_pos ?_, fun _ hd => by cases hd⟩
      rw [ha, List.length_append]
      exact Nat.lt_succ_self _
  · split
    · rw [List.filterMap_append]
      simpa using h.fifo
    · exact h.fifo

theorem serverFlush (h : Tracked x) (hs : x.step funcs .serverFlush = some x') : Tracked x' := by
  obtain ⟨l, hl, rfl⟩ := Option.map_eq_some_iff.mp hs
  obtain ⟨d, -, hst, rfl⟩ := Link.step_serverFlush hl
  rw [if_neg (Nat.lt_irrefl _), if_neg (Nat.lt_irrefl _)]
  have hlt : x.link.serverSent < x.link.server.started.length := (List.getElem?_eq_some_iff.mp hst).1
  refine ⟨h.order, h.clean, h.pump, h.buffer, hlt, h.read.trans (Nat.le_succ _), ?_, h.posted, h.acceptedLength,
    h.accepted, h.handledLength, h.handled, h.heard, h.fifo⟩
  show x.link.down ++ [d.wire x.link.server.order] =
    ((x.link.server.started.take (x.link.serverSent + 1)).drop x.reads).map (DataPush.wire x.link.client.order)
  rw [List.take_add_one, hst, List.drop_append_of_le_length (by rw [List.length_take]; have := h.read; omega),
    List.map_append, ← h.down, h.order]
  rfl

theorem onRead (h : Tracked x) {bytes : Bytes} (hs : x.step funcs (.client (.onRead false bytes)) = some x') :
    Tracked x' := by
  obtain ⟨l, hl, rfl⟩ := Option.map_eq_some_iff.mp hs
  obtain ⟨hadmits, c, hstep, rfl⟩ := Link.step_client hl
  rw [if_neg (Nat.lt_irrefl _)]
  have hhead : x.link.down.head? = some bytes := of_decide_eq_true hadmits
  obtain ⟨hlt, d, hd, rfl⟩ := h.head hhead
  obtain ⟨ho, hb⟩ := ClientSession.readBuffer_of_step h.buffer hstep
  have hreads : x.reads < x.accepted.length := by
    have h1 := h.sent
    have h2 := h.started_isPrefix.length_le
    have h3 := h.acceptedLength
    omega
  have htag : x.accepted[x.reads]? = some (x.accepted[x.reads]?.join) := by
    rw [List.getElem?_eq_getElem hreads]
    rfl
  have htake : (x.accepted.take (x.reads + 1)).filterMap id =
      (x.accepted.take x.reads).filterMap id ++ [x.accepted[x.reads]?.join].filterMap id := by
    rw [List.take_add_one, List.filterMap_append, htag]
    rfl
  have hdown : x.link.down.drop 1 =
      ((x.link.server.started.take x.link.serverSent).drop (x.reads + 1)).map (DataPush.wire c.order) := by
    rw [h.down, ← List.map_drop, List.drop_drop, ho]
  rcases ClientSession.handled_of_step hstep with hh | ⟨bytes, he, hr, hh⟩
  · rw [if_neg (by rw [hh]; exact Nat.lt_irrefl _)]
    refine ⟨h.order.trans ho.symm, h.clean, h.pump, hb, h.sent, hlt, hdown, h.posted, h.acceptedLength, h.accepted,
      h.handledLength.trans (by rw [hh]), fun i tag hi => ?_, ?_, h.fifo⟩
    · rw [hh]
      exact h.handled i tag hi
    · show (x.handled.filterMap id).Sublist ((x.accepted.take (x.reads + 1)).filterMap id)
      rw [htake]
      exact h.heard.trans (List.sublist_append_left _ _)
  · cases he
    rw [h.buffer hr, List.nil_append] at hh
    rw [if_pos (by rw [hh, List.length_append]; exact Nat.lt_succ_self _)]
    refine ⟨h.order.trans ho.symm, h.clean, h.pump, hb, h.sent, hlt, hdown, h.posted, h.acceptedLength, h.accepted, ?_,
      fun i tag hi => ?_, ?_, h.fifo⟩
    · show (x.handled ++ [_]).length = c.handled.length
      rw [hh, List.length_append, List.length_append, h.handledLength]
      rfl
    · show c.handled[i]? = _
      change (x.handled ++ [_])[i]? = _ at hi
      rw [hh]
      by_cases hi' : i < x.handled.length
      · rw [List.getElem?_append_left hi'] at hi
        rw [List.getElem?_append_left (h.handledLength ▸ hi')]
        exact h.handled i tag hi
      · rw [List.getElem?_append_right (Nat.le_of_not_lt hi'), List.getElem?_singleton] at hi
        split at hi
        · rename_i hzero
          rw [Option.some.inj hi] at htag
          have hpush := h.accepted x.reads tag htag
          rw [hd] at hpush
          rw [List.getElem?_append_right (h.handledLength ▸ Nat.le_of_not_lt hi'), ← h.handledLength, hzero,
            Option.some.inj hpush, DataPush.wire, IoHeader.read_encode, IoHeader.drop_encode]
          rfl
        · cases hi
    · show ((x.handled ++ [_]).filterMap id).Sublist ((x.accepted.take (x.reads + 1)).filterMap id)
      rw [htake, List.filterMap_append]
      exact h.heard.append (.refl _)

theorem client (h : Tracked x) {e : ClientEvent} (hne : ∀ bytes, e ≠ .onRead false bytes)
    (hs : x.step funcs (.client e) = some x') : Tracked x' := by
  obtain ⟨l, hl, rfl⟩ := Option.map_eq_some_iff.mp hs
  obtain ⟨-, c, hstep, rfl⟩ := Link.step_client hl
  obtain ⟨ho, hb⟩ := ClientSession.readBuffer_of_step h.buffer hstep
  have hh : c.handled = x.link.client.handled := by
    rcases ClientSession.handled_of_step hstep with hh | ⟨bytes, he, -⟩
    · exact hh
    · exact absurd he (hne bytes)
  have hreads : e.reads = 0 := by
    unfold ClientEvent.reads
    split
    · exact absurd rfl (hne _)
    · rfl
  rw [if_neg (Nat.lt_irrefl _), if_neg (by rw [hh]; exact Nat.lt_irrefl _)]
  have h' : Tracked { x with link := { x.link with client := c } } :=
    h.client_of (n := x.link.clientSent) ho hb hh
  simpa only [LinkEvent.postedTags, LinkEvent.clientReads, hreads, Nat.add_zero, List.drop_zero] using h'

theorem step (h : Tracked x) {e : LinkEvent} (hne : ∀ data, e ≠ .server (.send data))
    (hs : x.step funcs e = some x') : Tracked x' := by
  cases e with
  | client e =>
    by_cases hr : ∃ bytes, e = .onRead false bytes
    · obtain ⟨bytes, rfl⟩ := hr
      exact h.onRead hs
    · exact h.client (fun bytes he => hr ⟨bytes, he⟩) hs
  | server e =>
    by_cases hsend : e = .handleSend
    · subst hsend
      exact h.handleSend hs
    · exact h.server (fun data he => hne data (by rw [he])) hsend hs
  | clientFlush body =>
    obtain ⟨l, hl, rfl⟩ := Option.map_eq_some_iff.mp hs
    obtain ⟨m, -, -, rfl⟩ := Link.step_clientFlush hl
    rw [if_neg (Nat.lt_irrefl _), if_neg (Nat.lt_irrefl _)]
    exact h.client_of rfl h.buffer rfl
  | serverFlush => exact h.serverFlush hs

theorem established (boundFuncs : BoundFuncs) (o : ByteOrder) (pingDelay now : Time) :
    Tracked { link := .established boundFuncs o pingDelay now } := by
  have hs : ∀ s : ServerSession, s = .established boundFuncs o pingDelay now → s.order = o ∧ s.posted = [] ∧
      s.accepted = [] ∧ s.started = [] ∧ s.pump.Inv queueSendMax := by
    rintro s rfl
    unfold ServerSession.established
    dsimp only
    split
    · exact ⟨rfl, rfl, rfl, rfl, State.Inv.empty _⟩
    · exact ⟨rfl, rfl, rfl, rfl, State.Inv.empty _⟩
  obtain ⟨ho, hp, ha, hst, hinv⟩ := hs _ rfl
  refine ⟨ho, ServerSession.Clean.established boundFuncs o pingDelay now, hinv, fun _ => rfl, Nat.zero_le _, le_rfl, ?_, hp,
    ?_, fun i tag hi => (by cases hi), rfl, fun i tag hi => (by cases hi), .refl _, .refl _⟩
  · show [] = ((List.take 0 (ServerSession.established boundFuncs o pingDelay now).started).drop 0).map _
    rw [List.take_zero]
    rfl
  · show 0 = List.length _
    rw [show (Link.established boundFuncs o pingDelay now).server.accepted = [] from ha]
    rfl

/-! ## The calls of handlers -/

/-- The calls of handlers for broadcasts are a part of the broadcasts that were posted, with their ids and their bytes. -/
theorem calls (h : Tracked x) :
    x.calls.Sublist (x.history.map fun tag => (tag.1, tag.2.callId, tag.2.bytes)) := by
  have hcalls : x.calls = (x.handled.filterMap id).map fun tag => (tag.1, tag.2.callId, tag.2.bytes) :=
    Slots.filterMap_zip (g := fun (tag : Tag) c => (tag.1, c)) h.handledLength h.handled
  rw [hcalls]
  refine List.Sublist.map _ (h.heard.trans ?_)
  refine ((List.take_sublist _ _).filterMap _).trans ((List.sublist_append_left _ _).trans h.fifo)

end Tracked

end TaggedLink

end Radrpc
