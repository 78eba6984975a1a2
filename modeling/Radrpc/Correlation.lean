import Radrpc.Client.Requests
import Radrpc.Client.Resolved
import Radrpc.Link
import Radrpc.Server.Answers

/-!
# Requests and their responses

A result id is given out once, travels with the request in the header, comes back with the response, and names the row
that the caller collects.

* `Requested`, `Owned` : a message with a result id is the request of the call that has the id, on its way to the
  server and inside the client session;
* `Filled` : what stands in a row, and what a call has collected from it;
* `Correlated` : the invariant of a connection, along any run;
* `response_correlates` : a non-empty buffer that `send_recv` hands back is the handler's response to that request.
-/

namespace Radrpc
open Std Words Conc

/-! ## The request of a call -/

/-- The call has given up waiting for its write. -/
def SessPhase.gaveUp : SessPhase → Bool
  | .unsent _ _ => true
  | _ => false

theorem SessPhase.not_gaveUp_of_allows {call : SessCall} {phase : SessPhase} {o : SessOp}
    (h : Allows call phase o) : phase.gaveUp = false := by
  cases h <;> rfl

/-- A header and a body that travel under a result id are the request of the call that has the id, unless that call
has given up: its bytes may then be anything. -/
structure Requested (s : ClientSession) (views : Nat → Option SessView) (h : IoHeader) (body : Bytes) : Prop where
  issued : h.resultId.toNat ≤ s.cache.allocated
  own : ∀ t v, views t = some v → v.phase.id = some h.resultId → h.resultId ≠ 0 →
    v.phase.gaveUp = true ∨ (h = .new v.call.callId h.resultId ∧ body = v.call.bytes)

/-- A message of the session under a result id is the request of the call that has the id, and its promise is there as
long as the call has not given up. -/
structure Owned (s : ClientSession) (views : Nat → Option SessView) (m : DataSend) : Prop where
  issued : m.header.resultId.toNat ≤ s.cache.allocated
  own : ∀ t v, views t = some v → v.phase.id = some m.header.resultId → m.header.resultId ≠ 0 →
    (m.header = .new v.call.callId m.header.resultId ∧ m.body = v.call.bytes) ∧
      (s.promises m.callback = .expired → v.phase.gaveUp = true)

theorem id_of_call {views : Nat → Option SessView} {t t' : Nat} {c : SessCall} {v : SessView} {id : UInt64}
    (hv : Function.update views t (some ⟨c, .start⟩) t' = some v) (hid : v.phase.id = some id) : views t' = some v := by
  by_cases ht : t' = t
  · rw [ht, Function.update_self] at hv
    cases hv
    cases hid
  · rwa [Function.update_of_ne ht] at hv

theorem id_of_exec {s s' : ClientSession} {views : Nat → Option SessView} (hn : Numbered s views) {t : Nat} {o : SessOp}
    {i : Clock} {r : o.Res} {v : SessView} (hv : views t = some v) (hpre : v.phase.Allows v.call o)
    (hs : o.exec t i s = some (r, s')) (hlt : s'.cache.allocated < 2 ^ 64) {t' : Nat} {w : SessView} {id : UInt64}
    (hw : Function.update views t (some { v with phase := v.phase.next o r }) t' = some w)
    (hid : w.phase.id = some id) (h0 : id ≠ 0) (hold : id.toNat ≤ s.cache.allocated) :
    ∃ w', views t' = some w' ∧ w'.phase.id = some id ∧ w'.call = w.call ∧
      (w'.phase.gaveUp = true → w.phase.gaveUp = true) := by
  by_cases ht : t' = t
  · subst ht
    rw [Function.update_self] at hw
    cases hw
    refine ⟨v, hv, ?_, rfl, ?_⟩
    · rcases SessPhase.id_next hpre hs hid with hid | hid | ⟨rfl, ha⟩
      · exact hid
      · exact absurd hid h0
      · rw [hn.cache.toNat_succ (by omega)] at hold
        omega
    · rw [SessPhase.not_gaveUp_of_allows hpre]
      exact fun h => absurd h Bool.false_ne_true
  · rw [Function.update_of_ne ht] at hw
    exact ⟨w, hw, hid, rfl, fun h => h⟩

namespace Requested

variable {s s' : ClientSession} {views : Nat → Option SessView} {h : IoHeader} {body : Bytes}

theorem call (hr : Requested s views h body) (t : Nat) (c : SessCall) :
    Requested s (Function.update views t (some ⟨c, .start⟩)) h body :=
  ⟨hr.issued, fun t' v hv hid h0 => hr.own t' v (id_of_call hv hid) hid h0⟩

theorem env (hr : Requested s views h body) (ha : s'.cache.allocated = s.cache.allocated) : Requested s' views h body :=
  ⟨ha ▸ hr.issued, hr.own⟩

theorem exec (hr : Requested s views h body) (hn : Numbered s views) {t : Nat} {o : SessOp} {i : Clock} {r : o.Res}
    {v : SessView} (hv : views t = some v) (hpre : v.phase.Allows v.call o) (hs : o.exec t i s = some (r, s'))
    (hlt : s'.cache.allocated < 2 ^ 64) :
    Requested s' (Function.update views t (some { v with phase := v.phase.next o r })) h body := by
  refine ⟨hr.issued.trans (SessOp.exec_allocated_le hs), fun t' w hw hid h0 => ?_⟩
  obtain ⟨w', hw', hid', hcall, hgave⟩ := id_of_exec hn hv hpre hs hlt hw hid h0 hr.issued
  rw [← hcall]
  exact (hr.own t' w' hw' hid' h0).imp_left hgave

end Requested

/-! ## The messages of the session -/

theorem expired_of_exec {t : Nat} {o : SessOp} {i : Clock} {r : o.Res} {s s' : ClientSession} {call : SessCall}
    {phase : SessPhase} (hpre : SessPhase.Allows call phase o) (hs : o.exec t i s = some (r, s')) {cb : PromiseRef}
    (h : s'.promises cb = .expired) :
    s.promises cb = .expired ∨ ∃ id, phase = .posted id cb ∧ (phase.next o r).gaveUp = true := by
  cases hpre with
  | waitWritten _ id cb' =>
    simp only [SessOp.exec] at hs
    split at hs
    · cases hs
      exact .inl h
    · split at hs
      · cases hs
        dsimp only at h
        by_cases hcb : cb = cb'
        · subst hcb
          exact .inr ⟨id, rfl, rfl⟩
        · rw [Function.update_of_ne hcb] at h
          exact .inl h
      · cases hs
  | postSend callId body =>
    cases hs
    dsimp only at h
    by_cases hcb : cb = s.promiseCount
    · rw [hcb, Function.update_self] at h
      cases h
    · rw [Function.update_of_ne hcb] at h
      exact .inl h
  | postRequest callId body recv id =>
    cases hs
    dsimp only at h
    by_cases hcb : cb = s.promiseCount
    · rw [hcb, Function.update_self] at h
      cases h
    · rw [Function.update_of_ne hcb] at h
      exact .inl h
  | postPing =>
    cases hs
    exact .inl h
  | resetPong =>
    cases hs
    exact .inl h
  | waitPong =>
    simp only [SessOp.exec] at hs
    split at hs
    · cases hs
      exact .inl h
    · split at hs
      · cases hs
        exact .inl h
      · cases hs
  | queue callId body recv valid =>
    rw [(SessOp.exec_cache hs).2] at h
    exact .inl h
  | find callId body recv id cb' =>
    rw [(SessOp.exec_cache hs).2] at h
    exact .inl h
  | await callId body recv id row =>
    rw [(SessOp.exec_cache hs).2] at h
    exact .inl h
  | take callId body recv id row success buffer =>
    rw [(SessOp.exec_cache hs).2] at h
    exact .inl h

namespace Owned

variable {s s' : ClientSession} {views : Nat → Option SessView} {m : DataSend}

theorem call (hm : Owned s views m) (t : Nat) (c : SessCall) :
    Owned s (Function.update views t (some ⟨c, .start⟩)) m :=
  ⟨hm.issued, fun t' v hv hid h0 => hm.own t' v (id_of_call hv hid) hid h0⟩

theorem env (hm : Owned s views m) (ha : s'.cache.allocated = s.cache.allocated)
    (hp : ∀ cb, s'.promises cb = .expired → s.promises cb = .expired) : Owned s' views m :=
  ⟨ha ▸ hm.issued, fun t v hv hid h0 =>
    ⟨(hm.own t v hv hid h0).1, fun he => (hm.own t v hv hid h0).2 (hp _ he)⟩⟩

theorem exec (hm : Owned s views m) (hn : Numbered s views) (ha : Attributed s views) (hk : s.Known m) {t : Nat}
    {o : SessOp} {i : Clock} {r : o.Res} {v : SessView} (hv : views t = some v) (hpre : v.phase.Allows v.call o)
    (hs : o.exec t i s = some (r, s')) (hlt : s'.cache.allocated < 2 ^ 64) :
    Owned s' (Function.update views t (some { v with phase := v.phase.next o r })) m := by
  refine ⟨hm.issued.trans (SessOp.exec_allocated_le hs), fun t' w hw hid h0 => ?_⟩
  obtain ⟨w', hw', hid', hcall, hgave⟩ := id_of_exec hn hv hpre hs hlt hw hid h0 hm.issued
  obtain ⟨hreq, hexp⟩ := hm.own t' w' hw' hid' h0
  refine ⟨hcall ▸ hreq, fun he => ?_⟩
  rcases expired_of_exec hpre hs he with he | ⟨id, hphase, hg⟩
  · exact hgave (hexp he)
  · -- the promise is the one of call `t`, so the message and its id are those of `t`
    have hown : m = v.message t id m.callback := ha.own t v id m.callback m hv (by rw [hphase]; rfl) hk rfl
    have hidv : v.phase.id = some m.header.resultId := by
      rw [hown, hphase]
      rfl
    have ht : t' = t := hn.distinct t' t w' v m.header.resultId hw' hv hid' hidv h0
    subst ht
    rw [Function.update_self] at hw
    cases hw
    exact hg

theorem post {s s' : ClientSession} {views : Nat → Option SessView} (hn : Numbered s views) {t : Nat} {callId : UInt32}
    {id : UInt64} {body : Bytes} {i : Clock} {r : PromiseRef} {v : SessView} (hv : views t = some v)
    (hpre : v.phase.Allows v.call (.post callId id body)) (hs : SessOp.exec t (.post callId id body) i s = some (r, s'))
    (hlt : s'.cache.allocated < 2 ^ 64) :
    Owned s' (Function.update views t (some { v with phase := v.phase.next (.post callId id body) r }))
      ⟨s.promiseCount, t, body, .new callId id⟩ := by
  have hn' := hn.exec hv hpre hs hlt
  have hpend : s'.promises s.promiseCount = .pending := by
    cases hs
    exact Function.update_self _ _ _
  obtain ⟨call, phase⟩ := v
  cases hpre with
  | postSend =>
    refine ⟨?_, fun t' w hw hid h0 => absurd rfl h0⟩
    exact Nat.zero_le _
  | postRequest _ _ recv =>
    have hself : Function.update views t
        (some ⟨.sendRecv callId body recv, (SessPhase.queued id).next (.post callId id body) r⟩) t =
        some ⟨.sendRecv callId body recv, .posted id r⟩ := Function.update_self _ _ _
    refine ⟨hn'.issued t _ id hself rfl, fun t' w hw hid h0 => ?_⟩
    have ht : t' = t := hn'.distinct t' t w _ id hw hself hid rfl h0
    subst ht
    rw [hself] at hw
    cases hw
    refine ⟨⟨rfl, rfl⟩, fun he => ?_⟩
    rw [hpend] at he
    cases he

end Owned

/-! ## The rows -/

/-- What stands in a row until its call has collected it, and what the call has collected, satisfies `P`. -/
structure Filled (P : RowRef → Bytes → Prop) (c : DataCache) (views : Nat → Option SessView) : Prop where
  rows : ∀ r, (∀ t v id success recv, views t = some v → v.phase ≠ .answered id r success recv) →
    P r (c.rows r).readBuffer
  answered : ∀ t v id r success recv, views t = some v → v.phase = .answered id r success recv → P r recv

namespace Filled

variable {P : RowRef → Bytes → Prop} {c c' : DataCache} {s s' : ClientSession} {views : Nat → Option SessView}

theorem mono {P' : RowRef → Bytes → Prop} (h : Filled P c views) (hP : ∀ r b, P r b → P' r b) : Filled P' c views :=
  ⟨fun r hr => hP r _ (h.rows r hr), fun t v id r success recv hv hp => hP r _ (h.answered t v id r success recv hv hp)⟩

theorem refill (h : Filled P c views)
    (hr : ∀ r, (c'.rows r).readBuffer = (c.rows r).readBuffer ∨ P r (c'.rows r).readBuffer) : Filled P c' views := by
  refine ⟨fun r hfree => ?_, h.answered⟩
  rcases hr r with he | hp
  · rw [he]
    exact h.rows r hfree
  · exact hp

theorem update (h : Filled P c views) {t : Nat} {v v' : SessView} (hv : views t = some v)
    (h1 : ∀ id r success recv, v.phase ≠ .answered id r success recv)
    (h2 : ∀ id r success recv, v'.phase ≠ .answered id r success recv) :
    Filled P c (Function.update views t (some v')) := by
  refine ⟨fun r hfree => h.rows r fun t' w id success recv hw => ?_, fun t' w id r success recv hw hp => ?_⟩
  · by_cases ht : t' = t
    · rw [ht, hv] at hw
      cases hw
      exact h1 id r success recv
    · exact hfree t' w id success recv (by rwa [Function.update_of_ne ht])
  · by_cases ht : t' = t
    · rw [ht, Function.update_self] at hw
      cases hw
      exact absurd hp (h2 id r success recv)
    · rw [Function.update_of_ne ht] at hw
      exact h.answered t' w id r success recv hw hp

theorem call (h : Filled P c views) {t : Nat} (hv : views t = none) (call : SessCall) :
    Filled P c (Function.update views t (some ⟨call, .start⟩)) := by
  refine ⟨fun r hfree => h.rows r fun t' w id success recv hw => ?_, fun t' w id r success recv hw hp => ?_⟩
  · by_cases ht : t' = t
    · rw [ht, hv] at hw
      cases hw
    · exact hfree t' w id success recv (by rwa [Function.update_of_ne ht])
  · by_cases ht : t' = t
    · rw [ht, Function.update_self] at hw
      cases hw
      cases hp
    · rw [Function.update_of_ne ht] at hw
      exact h.answered t' w id r success recv hw hp

theorem take (h : Filled P s.cache views) (hn : Numbered s views) {t : Nat} {call : SessCall} {id : UInt64} {r : RowRef}
    {success : Bool} {buffer recv : Bytes} (hv : views t = some ⟨call, .holding id r success⟩)
    (hc : s.cache.take r buffer = (recv, c')) :
    Filled P c' (Function.update views t (some ⟨call, .answered id r success recv⟩)) := by
  obtain ⟨hrecv, hc⟩ := Prod.mk.inj hc
  have hself : Function.update views t (some ⟨call, .answered id r success recv⟩) t =
      some ⟨call, .answered id r success recv⟩ := Function.update_self _ _ _
  refine ⟨fun r' hfree => ?_, fun t' w id' r' success' recv' hw hp => ?_⟩
  · have hr : r' ≠ r := by
      rintro rfl
      exact hfree t _ id success recv hself rfl
    rw [← hc]
    dsimp only
    rw [Function.update_of_ne hr]
    apply h.rows r'
    intro t' w id' success' recv' hw
    by_cases ht : t' = t
    · rw [ht, hv] at hw
      cases hw
      exact fun hp => (by cases hp)
    · exact hfree t' w id' success' recv' (by rwa [Function.update_of_ne ht])
  · by_cases ht : t' = t
    · rw [ht, hself] at hw
      cases hw
      cases hp
      rw [← hrecv]
      apply h.rows r
      intro t₂ w₂ id₂ success₂ recv₂ hw₂ hp₂
      -- nobody else can have collected this row
      have ht₂ : t₂ = t := (hn.row_distinct hw₂ hv (by rw [hp₂]; rfl) rfl).1
      rw [ht₂, hv] at hw₂
      cases hw₂
      cases hp₂
    · rw [Function.update_of_ne ht] at hw
      exact h.answered t' w id' r' success' recv' hw hp

theorem exec (h : Filled P s.cache views) (hn : Numbered s views) (hnil : ∀ r, P r []) {t : Nat} {o : SessOp} {i : Clock}
    {r : o.Res} {v : SessView} (hv : views t = some v) (hpre : v.phase.Allows v.call o)
    (hs : o.exec t i s = some (r, s')) :
    Filled P s'.cache (Function.update views t (some { v with phase := v.phase.next o r })) := by
  obtain ⟨call, phase⟩ := v
  cases hpre with
  | take callId body recv id row success buffer =>
    obtain ⟨hc, -⟩ := SessOp.exec_cache hs
    exact h.take hn hv (Option.some.inj hc)
  | queue callId body recv valid =>
    obtain ⟨hc, -⟩ := SessOp.exec_cache hs
    have hq : s'.cache = (s.cache.queue i.now valid).2 := (congrArg Prod.snd (Option.some.inj hc)).symm
    refine (h.refill fun r' => ?_).update hv (fun _ _ _ _ hp => by cases hp) fun _ _ _ _ hp => ?_
    · rw [hq]
      by_cases hfull : s.cache.maxEntries ≤ s.cache.entries.size
      · rw [DataCache.queue_full hfull]
        exact .inl rfl
      · rw [DataCache.queue_open hfull]
        dsimp only
        by_cases hr : r' = s.cache.allocated
        · rw [hr, Function.update_self]
          exact .inr (hnil _)
        · rw [Function.update_of_ne hr]
          exact .inl rfl
    · simp only [SessPhase.next] at hp
      split at hp <;> cases hp
  | find callId body recv id callback =>
    obtain ⟨hc, -⟩ := SessOp.exec_cache hs
    have hf : s'.cache = (s.cache.find id).2 := (congrArg Prod.snd (Option.some.inj hc)).symm
    refine (h.refill fun r' => .inl ?_).update hv (fun _ _ _ _ hp => by cases hp) fun _ _ _ _ hp => by cases r <;> cases hp
    rw [hf]
    unfold DataCache.find
    split
    · rfl
    · split
      · rfl
      · rename_i row _ _
        by_cases hr : r' = row
        · simp [DataCache.setState, hr]
        · simp [DataCache.setState, hr]
  | await callId body recv id row =>
    obtain ⟨hc, -⟩ := SessOp.exec_cache hs
    have hsame : s'.cache = s.cache := CacheOp.eq_after hc
    exact (hsame ▸ h).update hv (fun _ _ _ _ hp => by cases hp) fun _ _ _ _ hp => by cases hp
  | waitWritten _ id callback =>
    exact ((SessOp.exec_other (fun o' ho => by cases ho) hs) ▸ h).update hv (fun _ _ _ _ hp => by cases hp)
      fun _ _ _ _ hp => by cases r <;> cases hp
  | postSend callId body =>
    exact ((SessOp.exec_other (fun o' ho => by cases ho) hs) ▸ h).update hv (fun _ _ _ _ hp => by cases hp)
      fun _ _ _ _ hp => by cases hp
  | postRequest callId body recv id =>
    exact ((SessOp.exec_other (fun o' ho => by cases ho) hs) ▸ h).update hv (fun _ _ _ _ hp => by cases hp)
      fun _ _ _ _ hp => by cases hp
  | postPing =>
    exact ((SessOp.exec_other (fun o' ho => by cases ho) hs) ▸ h).update hv (fun _ _ _ _ hp => by cases hp)
      fun _ _ _ _ hp => by cases hp
  | resetPong =>
    exact ((SessOp.exec_other (fun o' ho => by cases ho) hs) ▸ h).update hv (fun _ _ _ _ hp => by cases hp)
      fun _ _ _ _ hp => by cases hp
  | waitPong =>
    exact ((SessOp.exec_other (fun o' ho => by cases ho) hs) ▸ h).update hv (fun _ _ _ _ hp => by cases hp)
      fun _ _ _ _ hp => by cases hp

theorem step (h : Filled P s.cache views) {funcs : BroadcastFuncs} {e : ClientEvent} (hs : s.step funcs e = some s')
    (hdeliver : ∀ bytes r, e = .onRead false bytes → s.reading = true → IoHeader.size ≤ (s.readBuffer ++ bytes).length →
      s.cache.entries[(IoHeader.read s.order (s.readBuffer ++ bytes)).resultId]? = some r →
      P r ((s.readBuffer ++ bytes).drop IoHeader.size)) : Filled P s'.cache views := by
  rcases ClientSession.cache_of_step hs with ⟨hc, -⟩ | ⟨bytes, header, he, hr, hlen, rfl, -, hc, -⟩ |
    ⟨_, _, -, -, hc, -⟩ | ⟨clock, -, hc, -⟩
  · exact hc ▸ h
  · rw [hc]
    apply h.refill
    intro r'
    cases hk : s.cache.entries[(IoHeader.read s.order (s.readBuffer ++ bytes)).resultId]? with
    | none =>
      rw [DataCache.swapNotify_none hk]
      exact .inl rfl
    | some row =>
      rw [DataCache.swapNotify_rows hk]
      by_cases hrow : r' = row
      · subst hrow
        rw [Function.update_self]
        exact .inr (hdeliver bytes r' he hr hlen hk)
      · rw [Function.update_of_ne hrow]
        exact .inl rfl
  · rw [hc]
    exact h.refill fun r' => .inl (DataCache.clear_readBuffer s.cache r')
  · rw [hc]
    exact h.refill fun r' => .inl rfl

end Filled

/-! ## The connection -/

theorem ClientSession.expired_of_step {funcs : BroadcastFuncs} {s s' : ClientSession} {e : ClientEvent}
    (hs : s.step funcs e = some s') {cb : PromiseRef} (h : s'.promises cb = .expired) : s.promises cb = .expired := by
  have key : ∀ m b, resolve s.promises m b cb = .expired → s.promises cb = .expired := by
    intro m b hr
    by_cases hcb : cb = m.callback
    · subst hcb
      rw [resolve, Function.update_self] at hr
      cases hp : s.promises m.callback with
      | pending =>
        rw [hp] at hr
        cases hr
      | ready b' =>
        rw [hp] at hr
        cases hr
      | expired => rfl
    · rwa [resolve, Function.update_of_ne hcb] at hr
  obtain ⟨-, -, hp | ⟨_, _, m', -, -, -, -, -, hp⟩ | ⟨_, m, _, -, -, hp⟩⟩ := promises_of_step hs
  · rwa [hp] at h
  · rw [hp] at h
    exact key m' true h
  · rw [hp] at h
    exact key m false h

/-- A row is empty, or holds a handler's response to a body that came with the row's id. -/
def Response (s : ServerSession) (r : RowRef) (b : Bytes) : Prop :=
  b = [] ∨ ∃ h body f, (h, body) ∈ s.invoked ∧ h.resultId.toNat = r + 1 ∧ s.boundFuncs h.callId = some (some f) ∧
    b = (f body []).response

theorem Response.mono {s s' : ServerSession} {r : RowRef} {b : Bytes} (h : Response s r b)
    (hf : s'.boundFuncs = s.boundFuncs) (hi : s.invoked ⊆ s'.invoked) : Response s' r b := by
  rcases h with h0 | ⟨h, body, f, hmem, hid, hb, he⟩
  · exact .inl h0
  · exact .inr ⟨h, body, f, hi hmem, hid, hf ▸ hb, he⟩

/-- What is known of a connection and of the calls in progress. -/
structure Correlated (o : ByteOrder) (funcs : BoundFuncs) (l : Link) (views : Nat → Option SessView) : Prop where
  clientOrder : l.client.order = o
  serverOrder : l.server.order = o
  boundFuncs : l.server.boundFuncs = funcs
  readBuffer : l.client.reading = true → l.client.readBuffer = []
  resolved : Resolved l.client
  attributed : Attributed l.client views
  numbered : Numbered l.client views
  owned : ∀ m, l.client.Known m → Owned l.client views m
  up : ∀ msg ∈ l.up, ∃ h body, msg = h.encode o ++ body ∧ Requested l.client views h body
  invoked : ∀ q ∈ l.server.invoked, Requested l.client views q.1 q.2
  answering : l.server.Answering
  down : ∀ msg ∈ l.down, ∃ m : DataPush, msg = m.wire o ∧ l.server.Answers m
  filled : Filled (Response l.server) l.client.cache views

namespace Correlated

variable {o : ByteOrder} {funcs : BoundFuncs} {l l' : Link} {views : Nat → Option SessView}

theorem established (funcs : BoundFuncs) (o : ByteOrder) (pingDelay now : Time) :
    Correlated o funcs (.established funcs o pingDelay now) fun _ => none := by
  have hserver : (ServerSession.established funcs o pingDelay now).order = o ∧
      (ServerSession.established funcs o pingDelay now).boundFuncs = funcs ∧
      (ServerSession.established funcs o pingDelay now).invoked = [] := by
    unfold ServerSession.established
    dsimp only
    split
    · exact ⟨rfl, rfl, rfl⟩
    · exact ⟨rfl, rfl, rfl⟩
  have hknown : ∀ m, ¬ (ClientSession.established o).Known m := by
    intro m hm
    cases hm with
    | clearing rest h _ => cases h
    | posted h => cases h
    | queued h => cases h
    | writing h => cases h
    | completed h => cases h
  refine ⟨rfl, hserver.1, hserver.2.1, fun _ => rfl, .established o, .start _ hknown, .start (.new _),
    fun m hm => absurd hm (hknown m), fun _ h => (by cases h), fun q hq => ?_, .established funcs o pingDelay now,
    fun _ h => (by cases h), fun r _ => .inl rfl, fun _ _ _ _ _ _ h => (by cases h)⟩
  rw [Link.established, hserver.2.2] at hq
  cases hq

theorem call (h : Correlated o funcs l views) {t : Nat} (ht : views t = none) (c : SessCall) :
    Correlated o funcs l (Function.update views t (some ⟨c, .start⟩)) := by
  refine { h with
    attributed := h.attributed.call t c
    numbered := h.numbered.call t c
    owned := fun m hm => (h.owned m hm).call t c
    up := fun msg hmsg => ?_
    invoked := fun q hq => (h.invoked q hq).call t c
    filled := h.filled.call ht c }
  obtain ⟨hd, body, he, hr⟩ := h.up msg hmsg
  exact ⟨hd, body, he, hr.call t c⟩

theorem exec (h : Correlated o funcs l views) {t : Nat} {op : SessOp} {i : Clock} {r : op.Res} {v : SessView}
    {s : ClientSession} (hv : views t = some v) (hpre : v.phase.Allows v.call op)
    (hs : op.exec t i l.client = some (r, s)) (hlt : s.cache.allocated < 2 ^ 64) :
    Correlated o funcs { l with client := s }
      (Function.update views t (some { v with phase := v.phase.next op r })) := by
  have hframe : s.order = l.client.order ∧ s.reading = l.client.reading ∧ s.readBuffer = l.client.readBuffer := by
    obtain ⟨_, _, _, _, _, rfl⟩ := SessOp.exec_frame hs
    exact ⟨rfl, rfl, rfl⟩
  have hnil : ∀ r, Response l.server r [] := fun r => .inl rfl
  refine ⟨hframe.1.trans h.clientOrder, h.serverOrder, h.boundFuncs, ?_, h.resolved.exec hs,
    h.attributed.exec hv hpre hs, h.numbered.exec hv hpre hs hlt, fun m hm => ?_, fun msg hmsg => ?_,
    fun q hq => (h.invoked q hq).exec h.numbered hv hpre hs hlt, h.answering, h.down,
    h.filled.exec h.numbered hnil hv hpre hs⟩
  · intro hr
    exact hframe.2.2.trans (h.readBuffer (hframe.2.1 ▸ hr))
  · rcases ClientSession.known_of_exec hs hm with hm | ⟨callId, id, body, rfl, rfl⟩
    · exact (h.owned m hm).exec h.numbered h.attributed hm hv hpre hs hlt
    · exact Owned.post h.numbered hv hpre hs hlt
  · obtain ⟨hd, body, he, hr⟩ := h.up msg hmsg
    exact ⟨hd, body, he, hr.exec h.numbered hv hpre hs hlt⟩

theorem client (h : Correlated o funcs l views) {bfuncs : BroadcastFuncs} {e : ClientEvent} {s : ClientSession}
    (hadm : l.admits (.client e) = true) (hs : l.client.step bfuncs e = some s)
    (hlt : l.client.cache.allocated < 2 ^ 64) :
    Correlated o funcs { l with client := s, down := l.down.drop e.reads } views := by
  obtain ⟨ho, hbuf⟩ := ClientSession.readBuffer_of_step h.readBuffer hs
  have ha := (ClientSession.allocated_of_step hs).1
  have hcount := (ClientSession.promises_of_step hs).1
  refine ⟨ho.trans h.clientOrder, h.serverOrder, h.boundFuncs, hbuf, h.resolved.step hs,
    h.attributed.env (fun m hm => ClientSession.known_of_step hs hm) hcount, h.numbered.step hs hlt,
    fun m hm => ?_, fun msg hmsg => ?_, fun q hq => (h.invoked q hq).env ha, h.answering,
    fun msg hmsg => h.down msg (List.mem_of_mem_drop hmsg), h.filled.step hs ?_⟩
  · exact (h.owned m (ClientSession.known_of_step hs hm)).env ha fun cb hcb => ClientSession.expired_of_step hs hcb
  · obtain ⟨hd, body, he, hr⟩ := h.up msg hmsg
    exact ⟨hd, body, he, hr.env ha⟩
  · intro bytes r he hr hlen hk
    subst he
    have hmem : bytes ∈ l.down := List.mem_of_head? (of_decide_eq_true hadm)
    obtain ⟨m, rfl, hans⟩ := h.down bytes hmem
    rw [h.readBuffer hr, List.nil_append, h.clientOrder, DataPush.wire, IoHeader.read_encode] at hk
    rw [h.readBuffer hr, List.nil_append, DataPush.wire, IoHeader.drop_encode]
    have hid := (h.numbered.cache.keys _ r hk).1
    rcases hans with h0 | ⟨f, body, hf, hinv, he⟩
    · exact absurd h0 (ne_zero_of_toNat hid)
    · exact .inr ⟨m.header, body, f, hinv, hid, hf, he⟩

theorem server (h : Correlated o funcs l views) {e : ServerEvent} {s : ServerSession}
    (hadm : l.admits (.server e) = true) (hs : l.server.step e = some s) :
    Correlated o funcs { l with server := s, up := l.up.drop e.reads } views := by
  obtain ⟨hans, hf, ho, hinv⟩ := h.answering.step hs (Link.resultId_of_admits hadm)
  have hsub : l.server.invoked ⊆ s.invoked := by
    rcases hinv with hi | ⟨_, _, -, -, hi⟩
    · rw [hi]
      exact List.Subset.refl _
    · rw [hi]
      exact List.subset_append_left _ _
  refine ⟨h.clientOrder, ho.trans h.serverOrder, hf.trans h.boundFuncs, h.readBuffer, h.resolved, h.attributed,
    h.numbered, h.owned, fun msg hmsg => h.up msg (List.mem_of_mem_drop hmsg), fun q hq => ?_, hans, fun msg hmsg => ?_,
    h.filled.mono fun r b hr => hr.mono hf hsub⟩
  · rcases hinv with hi | ⟨bytes, now, rfl, -, hi⟩
    · exact h.invoked q (hi ▸ hq)
    · have hq' : q ∈ l.server.invoked ++ [(IoHeader.read l.server.order bytes, bytes.drop IoHeader.size)] := hi ▸ hq
      rcases List.mem_append.mp hq' with hq' | hq'
      · exact h.invoked q hq'
      · obtain ⟨hd, body, rfl, hr⟩ := h.up bytes (List.mem_of_head? (of_decide_eq_true hadm))
        rw [List.mem_singleton.mp hq', h.serverOrder, IoHeader.read_encode, IoHeader.drop_encode]
        exact hr
  · obtain ⟨m, he, hm⟩ := h.down msg hmsg
    exact ⟨m, he, hm.mono hf hsub⟩

theorem clientFlush (h : Correlated o funcs l views) {m : DataSend} {body : Bytes} {n : Nat} (hm : m ∈ l.client.writing)
    (hbody : l.client.promises m.callback = .pending → body = m.body) :
    Correlated o funcs { l with up := l.up ++ [m.header.encode l.client.order ++ body], clientSent := n } views := by
  refine { h with up := fun msg hmsg => ?_ }
  rcases List.mem_append.mp hmsg with hmsg | hmsg
  · exact h.up msg hmsg
  · rw [List.mem_singleton.mp hmsg, h.clientOrder]
    have how := h.owned m (.writing hm)
    refine ⟨m.header, body, rfl, how.issued, fun t v hv hid h0 => ?_⟩
    obtain ⟨⟨hhd, hb⟩, hexp⟩ := how.own t v hv hid h0
    cases hp : l.client.promises m.callback with
    | pending => exact .inr ⟨hhd, (hbody hp).trans hb⟩
    | ready b => exact absurd hp (h.resolved.not_ready_of_writing hm b)
    | expired => exact .inl (hexp hp)

theorem serverFlush (h : Correlated o funcs l views) {m : DataPush} {n : Nat} (hm : m ∈ l.server.writing) :
    Correlated o funcs { l with down := l.down ++ [m.wire l.server.order], serverSent := n } views := by
  refine { h with down := fun msg hmsg => ?_ }
  rcases List.mem_append.mp hmsg with hmsg | hmsg
  · exact h.down msg hmsg
  · rw [List.mem_singleton.mp hmsg, h.serverOrder]
    exact ⟨m, rfl, h.answering.pushes m (.writing hm)⟩

theorem step (h : Correlated o funcs l views) {bfuncs : BroadcastFuncs} {e : LinkEvent}
    (hs : l.step bfuncs e = some l') (hlt : l.client.cache.allocated < 2 ^ 64) : Correlated o funcs l' views := by
  cases e with
  | client e =>
    obtain ⟨hadm, s, hstep, rfl⟩ := Link.step_client hs
    exact h.client hadm hstep hlt
  | server e =>
    obtain ⟨hadm, s, hstep, rfl⟩ := Link.step_server hs
    exact h.server hadm hstep
  | clientFlush body =>
    obtain ⟨m, hm, hbody, rfl⟩ := Link.step_clientFlush hs
    exact h.clientFlush hm hbody
  | serverFlush =>
    obtain ⟨m, hm, -, rfl⟩ := Link.step_serverFlush hs
    exact h.serverFlush hm

end Correlated

/-! ## Runs -/

theorem Link.allocated_of_step {funcs : BroadcastFuncs} {l l' : Link} {e : LinkEvent} (hs : l.step funcs e = some l') :
    l'.client.cache.allocated = l.client.cache.allocated := by
  cases e with
  | client e =>
    obtain ⟨-, s, hstep, rfl⟩ := Link.step_client hs
    exact (ClientSession.allocated_of_step hstep).1
  | server e =>
    obtain ⟨-, s, -, rfl⟩ := Link.step_server hs
    rfl
  | clientFlush body =>
    obtain ⟨m, -, -, rfl⟩ := Link.step_clientFlush hs
    rfl
  | serverFlush =>
    obtain ⟨m, -, -, rfl⟩ := Link.step_serverFlush hs
    rfl

/-- The invariant, as long as the id counter has not gone round. -/
def Issuing (o : ByteOrder) (funcs : BoundFuncs) (l : Link) (views : Nat → Option SessView) : Prop :=
  l.client.cache.allocated < 2 ^ 64 → Correlated o funcs l views

theorem correlated_of_reach {bfuncs : BroadcastFuncs} {responseTimeout : Time} {funcs : BoundFuncs} {o : ByteOrder}
    {pingDelay now : Time} {p : LinkPool}
    (hp : (linkMachine bfuncs responseTimeout).Reach Machine.Free (.established funcs o pingDelay now) p) :
    ∃ views, Issuing o funcs p.shared views ∧
      Machine.Linked sessDiscipline (fun _ c r v => v.call = c ∧ v.Returns r) p views := by
  refine Machine.sound (fun _ c => ⟨c, .start⟩) ?_ (fun _ c => sessCall_ok responseTimeout c) ?_ ?_ ?_ hp
  · exact fun _ => .established funcs o pingDelay now
  · intro p views t c _ _ hinv _ ht hlt
    exact (hinv hlt).call ht c
  · intro p views t i op v r l' _ _ hinv _ _ hv hpre hex hlt
    obtain ⟨s, hs, rfl⟩ := SessOp.execLink_eq_some hex
    exact (hinv ((SessOp.exec_allocated_le hs).trans_lt hlt)).exec hv hpre hs hlt
  · intro p views e l' _ _ hinv _ he hlt
    have ha := Link.allocated_of_step he
    exact (hinv (ha ▸ hlt)).step he (ha ▸ hlt)

/-- **Requests and responses correspond.** A `send_recv` that was called with an empty buffer and hands back a
non-empty one hands back what the handler bound to its call id made of its body, and the handler was invoked with the
result id of this very request. -/
theorem response_correlates {bfuncs : BroadcastFuncs} {responseTimeout : Time} {funcs : BoundFuncs} {o : ByteOrder}
    {pingDelay now : Time} {p : LinkPool}
    (hp : (linkMachine bfuncs responseTimeout).Reach Machine.Free (.established funcs o pingDelay now) p)
    (hlt : p.shared.client.cache.allocated < 2 ^ 64) {t : Nat} {callId : UInt32} {body recv : Bytes}
    {ec : Option ErrorCode} {id : UInt64} (h : p.result t = some (.sendRecv callId body [], .received recv ec id))
    (hne : recv ≠ []) :
    ∃ f, funcs callId = some (some f) ∧ recv = (f body []).response ∧ (.new callId id, body) ∈ p.shared.server.invoked := by
  obtain ⟨views, hinv, hl⟩ := correlated_of_reach hp
  have hc := hinv hlt
  obtain ⟨v, hv, hcall, hret⟩ := hl.ok (Machine.result_eq_some h)
  obtain ⟨callId', body', recv₀, hcall', hret⟩ := hret
  rw [hcall] at hcall'
  cases hcall'
  rcases hret with ⟨-, rfl, -⟩ | ⟨-, rfl, -⟩ | ⟨-, rfl, -⟩ | ⟨row, success, hphase, -⟩
  · exact absurd rfl hne
  · exact absurd rfl hne
  · exact absurd rfl hne
  · -- the collected row holds a response that came under the id of this call
    rcases hc.filled.answered t v id row success recv hv hphase with h0 | ⟨hd, b, f, hmem, hid, hf, he⟩
    · exact absurd h0 hne
    · have hrow := hc.numbered.row t v id row hv (by rw [hphase]; rfl)
      have hid' : hd.resultId = id := UInt64.toNat_inj.mp (hid.trans hrow.symm)
      have h0 : hd.resultId ≠ 0 := ne_zero_of_toNat hid
      rcases (hc.invoked (hd, b) hmem).own t v hv (by rw [hphase, hid']; rfl) h0 with hg | ⟨hhd, hb⟩
      · rw [hphase] at hg
        cases hg
      · simp only [hcall, SessCall.callId, SessCall.bytes, hid'] at hhd hb
        subst hhd hb
        rw [hc.boundFuncs] at hf
        exact ⟨f, hf, he, hmem⟩

/-- A server that sends the body of call 7 back, with a byte added. -/
def appendOne : BoundFuncs
  | 7 => some (some fun body _ => { response := body ++ [1] })
  | _ => none

/-- A request is written and answered, and a plain send and a broadcast go through the same connection. -/
def answeredRun : List (Act SessCall Clock LinkEvent) :=
  let request := (IoHeader.new 7 1).encode .little ++ [5, 6]
  let plain := (IoHeader.new 7 0).encode .little ++ [9]
  [.call 0 (.sendRecv 7 [5, 6] []), .call 1 (.send 7 [9]), .op 0 {}, .op 1 {}, .op 0 {},
    .env (.client .runPosted), .env (.client .runPosted), .env (.clientFlush [9]),
    .env (.server (.onRead false plain 0)), .env .serverFlush,
    .env (.client (.onWrite 0 false)), .env (.client (.ioStep {})), .env (.clientFlush [5, 6]),
    .env (.server (.onWrite 0 false 0)), .env (.server (.send ⟨.new 3 0, [8]⟩)), .env (.server .handleSend),
    .env .serverFlush, .env (.server (.onWrite 0 false 0)), .env (.server (.onRead false request 0)), .env .serverFlush,
    .env (.client (.onRead false ((IoHeader.new 7 0).encode .little ++ [9, 1]))), .env (.client (.ioStep {})),
    .env (.client (.onRead false ((IoHeader.new 3 0).encode .little ++ [8]))), .env (.client (.ioStep {})),
    .env (.client (.onRead false ((IoHeader.new 7 1).encode .little ++ [5, 6, 1]))), .env (.client (.ioStep {})),
    .env (.client (.onWrite 0 false)), .env (.client (.ioStep {})), .op 0 {}, .op 0 {}, .op 0 {}]

theorem response_correlates_appendOne : ∃ p : LinkPool,
    (linkMachine (fun _ => none) 1000000000).Reach Machine.Free (.established appendOne .little 0 0) p ∧
      p.result 0 = some (.sendRecv 7 [5, 6] [], .received [5, 6, 1] none 1) ∧
      (.new 7 1, [5, 6]) ∈ p.shared.server.invoked := by
  have hrun : ((linkMachine (fun _ => none) 1000000000).run (fun _ _ => true) (.initial (.established appendOne .little 0 0))
      answeredRun).any (fun p => decide (p.result 0 = some (.sendRecv 7 [5, 6] [], .received [5, 6, 1] none 1)) &&
        decide (p.shared.client.cache.allocated < 2 ^ 64)) = true := by
    decide +kernel
  obtain ⟨p, hp, hf⟩ := Machine.Reach.exists_of_run (G := Machine.Free) (fun _ _ _ => trivial) answeredRun hrun
  simp only [Bool.and_eq_true, decide_eq_true_eq] at hf
  obtain ⟨-, -, -, hmem⟩ := response_correlates hp hf.2 hf.1 (by decide)
  exact ⟨p, hp, hf.1, hmem⟩

end Radrpc
