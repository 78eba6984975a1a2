import Radrpc.Client.Requests

/-!
# Incoming messages of a client session

`on_read` looks a message up by its call id first, among the ids bound with `listen_broadcast`, and only then by its
result id, among the requests that wait for a response. The server sends a response under the call id of its request.

* `Pending` : a `send_recv` that is in progress under a result id; `pending_of_await` : one that waits is;
* `Stored` : `swap_notify` has put a message into the row of its result id;
* `Separated` : a response to a pending request has been stored, and what a broadcast handler was called for is no
  response;
* `Unbound` : the messages for which this is so;
* `responses_not_broadcast` : the runs that read such messages only are the runs that keep responses from broadcasts;
* `response_broadcast` : a response whose call id is bound goes to the broadcast handler.
-/

namespace Radrpc
open Std Words Conc

def ClientSession.headerOf (s : ClientSession) (bytes : Bytes) : IoHeader := IoHeader.read s.order (s.readBuffer ++ bytes)

def ClientSession.bodyOf (s : ClientSession) (bytes : Bytes) : Bytes := (s.readBuffer ++ bytes).drop IoHeader.size

/-- The call of thread `t` is a `send_recv` in progress under the result id `id` : whatever it returns, it is for this
id. -/
def Pending (p : SessPool) (t : Nat) (id : UInt64) : Prop :=
  ∃ c q, p.thread t = some (c, q) ∧ q.result = none ∧ ∀ ret, q.Returns ret → ∃ recv ec, ret = .received recv ec id

/-- The message has been stored in the row of its result id, and no broadcast handler has been called. -/
structure Stored (s s' : ClientSession) (id : UInt64) (body : Bytes) : Prop where
  row : ∃ r, s.cache.entries[id]? = some r ∧
    s'.cache.rows r = { s.cache.rows r with readBuffer := body, state := .swapped }
  delivered : s'.delivered = s.delivered ++ [id]
  handled : s'.handled = s.handled

/-- A response to a pending request has been stored, and a broadcast handler has been called for a message with the
result id 0 only. -/
def Separated (p : SessPool) (bytes : Bytes) (s' : ClientSession) : Prop :=
  ((p.shared.headerOf bytes).resultId ≠ 0 → ∀ t, Pending p t (p.shared.headerOf bytes).resultId →
    Stored p.shared s' (p.shared.headerOf bytes).resultId (p.shared.bodyOf bytes)) ∧
  (s'.handled ≠ p.shared.handled → (p.shared.headerOf bytes).resultId = 0)

/-- The step does not read a message with a header, or keeps responses and broadcasts apart. -/
def Separates (funcs : BroadcastFuncs) (p : SessPool) : Act SessCall Clock ClientEvent → Prop
  | .env (.onRead false bytes) => IoHeader.size ≤ (p.shared.readBuffer ++ bytes).length →
      ∀ s', p.shared.step funcs (.onRead false bytes) = some s' → Separated p bytes s'
  | _ => True

/-- The step does not read a message with a header, or the message has the result id 0, or no handler is bound to its call
id, and if a request is pending under its result id then the call id is not bound at all, the entry of the request is in
the cache and no close frame has been received. -/
def Unbound (funcs : BroadcastFuncs) (p : SessPool) : Act SessCall Clock ClientEvent → Prop
  | .env (.onRead false bytes) => IoHeader.size ≤ (p.shared.readBuffer ++ bytes).length →
      (p.shared.headerOf bytes).resultId = 0 ∨
        ((p.shared.closeReceived = false → funcs (p.shared.headerOf bytes).callId ≠ some true) ∧
          ∀ t, Pending p t (p.shared.headerOf bytes).resultId → p.shared.closeReceived = false ∧
            funcs (p.shared.headerOf bytes).callId = none ∧
            (p.shared.cache.entries[(p.shared.headerOf bytes).resultId]?).isSome = true)
  | _ => True

/-- What `on_read` does with a message: nothing after a close frame; otherwise the handler of its call id is called, or
an entry without a function swallows it, or `swap_notify` looks for its result id. -/
inductive Incoming (funcs : BroadcastFuncs) (s : ClientSession) (bytes : Bytes) (s' : ClientSession) : Prop where
  | closed : s.closeReceived = true → s'.handled = s.handled → s'.delivered = s.delivered → Incoming funcs s bytes s'
  | broadcast : s.closeReceived = false → funcs (s.headerOf bytes).callId = some true →
      s'.handled = s.handled ++ [((s.headerOf bytes).callId, s.bodyOf bytes)] → Incoming funcs s bytes s'
  | swallowed : s.closeReceived = false → funcs (s.headerOf bytes).callId = some false → s'.handled = s.handled →
      s'.delivered = s.delivered → Incoming funcs s bytes s'
  | response : s.closeReceived = false → funcs (s.headerOf bytes).callId = none → s'.handled = s.handled →
      s'.cache = (s.cache.swapNotify (s.headerOf bytes).resultId (s.bodyOf bytes)).2 →
      s'.delivered = (if (s.cache.entries[(s.headerOf bytes).resultId]?).isSome then
        s.delivered ++ [(s.headerOf bytes).resultId] else s.delivered) → Incoming funcs s bytes s'

theorem incoming_of_step {funcs : BroadcastFuncs} {s s' : ClientSession} {bytes : Bytes}
    (hlen : IoHeader.size ≤ (s.readBuffer ++ bytes).length) (hs : s.step funcs (.onRead false bytes) = some s') :
    Incoming funcs s bytes s' := by
  simp only [ClientSession.step] at hs
  split at hs
  · cases hs
    unfold ClientSession.onRead
    dsimp only
    by_cases hcl : s.closeReceived = true
    · rw [if_pos (by simp [hcl])]
      obtain ⟨_, _, he⟩ := ClientSession.closeSession_frame { s with
        reading := false, readBuffer := s.readBuffer ++ bytes, cache := s.cache.clear, readError := true }
      rw [he]
      exact .closed hcl rfl rfl
    · rw [if_neg (by simp [hcl]), if_pos hlen]
      have hcl := Bool.eq_false_iff.mpr hcl
      cases hf : funcs (s.headerOf bytes).callId with
      | none =>
        have hf' := hf
        unfold ClientSession.headerOf at hf'
        rw [hf']
        exact .response hcl hf rfl rfl rfl
      | some bound =>
        have hf' := hf
        unfold ClientSession.headerOf at hf'
        rw [hf']
        cases bound with
        | true => exact .broadcast hcl hf rfl
        | false => exact .swallowed hcl hf rfl rfl
  · cases hs

theorem Stored.of_swapNotify {s s' : ClientSession} {id : UInt64} {body : Bytes}
    (he : (s.cache.entries[id]?).isSome = true) (hc : s'.cache = (s.cache.swapNotify id body).2)
    (hd : s'.delivered = s.delivered ++ [id]) (hh : s'.handled = s.handled) : Stored s s' id body := by
  obtain ⟨r, hr⟩ := Option.isSome_iff_exists.mp he
  refine ⟨⟨r, hr, ?_⟩, hd, hh⟩
  rw [hc, DataCache.swapNotify_rows hr, Function.update_self]

theorem Incoming.of_stored {funcs : BroadcastFuncs} {s s' : ClientSession} {bytes : Bytes} {id : UInt64} {body : Bytes}
    (h : Incoming funcs s bytes s') (hst : Stored s s' id body) :
    s.closeReceived = false ∧ funcs (s.headerOf bytes).callId = none ∧
      (s.cache.entries[(s.headerOf bytes).resultId]?).isSome = true := by
  have hgrown : s'.delivered ≠ s.delivered := by
    rw [hst.delivered]
    simp
  cases h with
  | closed _ _ hd => exact absurd hd hgrown
  | broadcast _ _ hh =>
    rw [hst.handled] at hh
    simp at hh
  | swallowed _ _ _ hd => exact absurd hd hgrown
  | response hcl hf _ _ hd =>
    refine ⟨hcl, hf, ?_⟩
    by_contra hnone
    rw [if_neg hnone] at hd
    exact hgrown hd

theorem separates_iff {funcs : BroadcastFuncs} {responseTimeout : Time} {p p' : SessPool}
    {a : Act SessCall Clock ClientEvent} (hs : (sessionMachine funcs responseTimeout).step p a = some p') :
    Unbound funcs p a ↔ Separates funcs p a := by
  unfold Unbound Separates
  split
  · rename_i bytes
    obtain ⟨s', hstep, rfl⟩ := Machine.step_env hs
    constructor
    · intro hcond hlen s₁ hs₁
      rcases hcond hlen with hzero | ⟨hunbound, hpend⟩
      · exact ⟨fun hne => absurd hzero hne, fun _ => hzero⟩
      · have hin := incoming_of_step hlen hs₁
        have hsame : s₁.handled = p.shared.handled := by
          cases hin with
          | closed _ hh _ => exact hh
          | broadcast hcl hf _ => exact absurd hf (hunbound hcl)
          | swallowed _ _ hh _ => exact hh
          | response _ _ hh _ _ => exact hh
        refine ⟨fun _ t ht => ?_, fun hne => absurd hsame hne⟩
        obtain ⟨hcl, hnone, hentry⟩ := hpend t ht
        cases hin with
        | closed hcl' _ _ =>
          rw [hcl] at hcl'
          cases hcl'
        | broadcast _ hf _ =>
          rw [hnone] at hf
          cases hf
        | swallowed _ hf _ _ =>
          rw [hnone] at hf
          cases hf
        | response _ _ hh hc hd =>
          rw [if_pos hentry] at hd
          exact .of_swapNotify hentry hc hd hh
    · intro hsep hlen
      obtain ⟨hstored, honly⟩ := hsep hlen s' hstep
      have hin := incoming_of_step hlen hstep
      by_cases hzero : (p.shared.headerOf bytes).resultId = 0
      · exact .inl hzero
      · refine .inr ⟨fun hcl hf => ?_, fun t ht => hin.of_stored (hstored hzero t ht)⟩
        refine hzero (honly ?_)
        cases hin with
        | closed hcl' _ _ =>
          rw [hcl] at hcl'
          cases hcl'
        | broadcast _ _ hh =>
          rw [hh]
          simp
        | swallowed _ hf' _ _ =>
          rw [hf] at hf'
          cases hf'
        | response _ hf' _ _ _ =>
          rw [hf] at hf'
          cases hf'
  · exact Iff.rfl

/-- **Responses are kept apart from broadcasts in the runs that read unbound messages only.** From any pool, the runs
whose steps all meet `Unbound` are the runs in which every response to a pending request is stored in its row, and a
broadcast handler is called only for messages with the result id 0. -/
theorem responses_not_broadcast (funcs : BroadcastFuncs) (responseTimeout : Time) (p q : SessPool)
    (as : List (Act SessCall Clock ClientEvent)) :
    (sessionMachine funcs responseTimeout).Steps (Unbound funcs) p as q ↔
      (sessionMachine funcs responseTimeout).Steps (Separates funcs) p as q :=
  ⟨fun h => h.mono fun _ _ _ hs => (separates_iff hs).mp, fun h => h.mono fun _ _ _ hs => (separates_iff hs).mpr⟩

/-! ## Pending requests -/

theorem SessPhase.id_stays {phase : SessPhase} {id : UInt64} (h : phase.id = some id) (o : SessOp) (r : o.Res) :
    (phase.next o r).id = some id := by
  cases phase with
  | queued id' => cases o with
    | cache o => cases o <;> exact h
    | _ => exact h
  | posted id' callback => cases o with
    | waitWritten callback' => cases r <;> exact h
    | _ => exact h
  | written id' callback => cases o with
    | cache o => cases o with
      | find k => cases r <;> exact h
      | _ => exact h
    | _ => exact h
  | blocked id' row => cases o with
    | cache o => cases o <;> exact h
    | _ => exact h
  | holding id' row success => cases o with
    | cache o => cases o <;> exact h
    | _ => exact h
  | start => cases h
  | refused => cases h
  | _ => exact h

theorem SessView.received_of_id {v : SessView} {id : UInt64} {ret : SessRet} (h : v.phase.id = some id) (hne : id ≠ 0)
    (hr : v.Returns ret) : ∃ recv ec, ret = .received recv ec id := by
  cases ret with
  | sent ec =>
    have hzero : v.phase.id = some 0 := by
      rcases hr.2 with ⟨-, callback, hph⟩ | ⟨-, callback, hph⟩ <;> rw [hph] <;> rfl
    rw [h] at hzero
    exact absurd (Option.some.inj hzero) hne
  | received recv ec id' =>
    refine ⟨recv, ec, ?_⟩
    obtain ⟨callId, body, recv₀, -, ⟨hph, -⟩ | ⟨⟨callback, hph⟩, -⟩ | ⟨hph, -⟩ | ⟨row, success, hph, -⟩⟩ := hr
    · rw [hph] at h
      cases h
    · rw [hph] at h
      cases h
      rfl
    · rw [hph] at h
      cases h
      rfl
    · rw [hph] at h
      cases h
      rfl
  | pinged pong =>
    rw [hr.2] at h
    cases h

theorem pending_of_view {p : SessPool} {views : Nat → Option SessView}
    (hl : Machine.Linked sessDiscipline (fun _ c r v => v.call = c ∧ v.Returns r) p views) {t : Nat} {c : SessCall}
    {q : SessProg SessRet} {v : SessView} {id : UInt64} (ht : p.thread t = some (c, q)) (hq : q.result = none)
    (hv : views t = some v) (hid : v.phase.id = some id) (hne : id ≠ 0) : Pending p t id := by
  obtain ⟨v', hv', hok⟩ := hl.ok ht
  obtain rfl : v' = v := Option.some.inj (hv'.symm.trans hv)
  refine ⟨c, q, ht, hq, fun ret hret => ?_⟩
  obtain ⟨w, ⟨-, hw⟩, hid'⟩ := hok.returns (I := fun v => v.phase.id = some id)
    (fun _ o r h => SessPhase.id_stays h o r) hid hret
  exact SessView.received_of_id hid' hne hw

theorem pending_of_await {funcs : BroadcastFuncs} {responseTimeout : Time} {s₀ : ClientSession} {p : SessPool}
    {G : SessPool → Act SessCall Clock ClientEvent → Prop} (hp : (sessionMachine funcs responseTimeout).Reach G s₀ p)
    {t : Nat} {id : UInt64} {row : RowRef} (ht : p.next t = some (.cache (.await id row))) (hne : id ≠ 0) :
    Pending p t id := by
  have hbody : ∀ (_ : Nat) (c : SessCall), sessDiscipline.Ok (fun r v => v.call = c ∧ v.Returns r)
      ⟨c, .start⟩ ((sessionMachine funcs responseTimeout).body c) := fun _ c => sessCall_ok responseTimeout c
  obtain ⟨views, hl⟩ := Machine.linked _ hbody hp
  obtain ⟨c, k, hthread⟩ := Machine.next_eq_some ht
  obtain ⟨v, hv, hok⟩ := hl.ok hthread
  refine pending_of_view hl hthread rfl hv ?_ hne
  obtain ⟨call, phase⟩ := v
  cases hok.1
  rfl

def listening : BroadcastFuncs := fun id => if id = 7 then some true else none

/-- The call 1 sends a request with the call id 7 and waits for its response. -/
def listenedRun : List (Act SessCall Clock ClientEvent) :=
  [.call 1 (.sendRecv 7 [1] []), .op 1 {}, .op 1 {}, .env .runPosted, .env (.onWrite 0 false), .env (.ioStep {}),
    .op 1 {}, .op 1 {}]

/-- The response to this request, as the server sends it: under the call id of the request. -/
def echoed : Bytes := (IoHeader.new 7 1).encode .little ++ [42]

/-- The response goes to the broadcast handler. -/
theorem response_broadcast : ∃ p s',
    (sessionMachine listening 1000).Reach Machine.Free (.established .little) p ∧ Pending p 1 1 ∧
      p.shared.headerOf echoed = .new 7 1 ∧ p.shared.step listening (.onRead false echoed) = some s' ∧
      s'.handled = [(7, [42])] ∧ ¬ Separated p echoed s' := by
  have hrun : ((sessionMachine listening 1000).run (fun _ _ => true) (.initial (.established .little))
      listenedRun).any (fun p => decide (p.next 1 = some (.cache (.await 1 0))) &&
        decide (p.shared.headerOf echoed = .new 7 1) && decide (p.shared.handled = []) &&
        ((p.shared.step listening (.onRead false echoed)).any fun s' => decide (s'.handled = [(7, [42])]))) = true := by
    decide +kernel
  obtain ⟨p, hp, hf⟩ := Machine.Reach.exists_of_run (fun _ _ _ => trivial) listenedRun hrun
  simp only [Bool.and_eq_true, decide_eq_true_eq] at hf
  obtain ⟨⟨⟨hnext, hheader⟩, hnil⟩, hstep⟩ := hf
  obtain ⟨s', hs', hhandled⟩ := (Option.any_eq_true _ _).mp hstep
  rw [decide_eq_true_eq] at hhandled
  refine ⟨p, s', hp, pending_of_await hp hnext (by decide), hheader, hs', hhandled, fun hsep => ?_⟩
  have hzero := hsep.2 (by rw [hhandled, hnil]; simp)
  rw [hheader] at hzero
  cases hzero

end Radrpc
