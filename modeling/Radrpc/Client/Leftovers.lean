import Radrpc.Client.Incoming

/-!
# Entries that outlive their request

`send_recv` creates the entry of its request before the write. `wait()` erases it when the response is there,
`swap_notify` when the response finds it waited for, and `remove_obsolete` and `clear()` erase what they find. A call
whose time runs out leaves its entry to the last three.

* `SessPhase.entry` : the result id whose entry a call may have left in the table;
* `EntriesOwned` : every entry is that of such a call, and the row of a blocked call is in the table only while it is
  waited for;
* `entries_accounted` : every entry belongs to a call that is in progress or has timed out, so the cache refuses a
  request only when there are `queue_recv_max` of these;
* `entries_left` : after a timeout on the send, and after one on the response, the entry is still there.
-/

namespace Radrpc
open Std Conc

/-! ## The cache -/

theorem CacheOp.waiting_after {o : CacheOp} {i : Clock} {c : DataCache} {id : UInt64} {r : RowRef}
    (hn : CacheNumbered c) (he : c.entries[id]? = some r) (hw : (c.rows r).state = .waiting)
    (he' : (o.after i c).entries[id]? = some r) : ((o.after i c).rows r).state = .waiting := by
  cases o with
  | queue valid =>
    by_cases hfull : c.maxEntries ≤ c.entries.size
    · rwa [CacheOp.after, DataCache.queue_full hfull]
    · simpa [CacheOp.after, DataCache.queue_open hfull, Nat.ne_of_lt (hn.keys id r he).2] using hw
  | find k =>
    cases hk : c.entries[k]? with
    | none => rwa [CacheOp.after, DataCache.find_none hk]
    | some r₀ =>
      by_cases hs : (c.rows r₀).state = .swapped
      · rwa [CacheOp.after, DataCache.find_swapped hk hs]
      · by_cases hr : r = r₀
        · simp [CacheOp.after, DataCache.find_waits hk hs, DataCache.setState, hr]
        · simpa [CacheOp.after, DataCache.find_waits hk hs, DataCache.setState, hr] using hw
  | await k row => exact hw
  | take row buffer =>
    by_cases hr : r = row
    · subst hr
      simpa [CacheOp.after, DataCache.take] using hw
    · simpa [CacheOp.after, DataCache.take, hr] using hw
  | swapNotify k buffer =>
    cases hk : c.entries[k]? with
    | none => rwa [CacheOp.after, DataCache.swapNotify_none hk]
    | some r₀ =>
      by_cases hr : r = r₀
      · -- a delivery erases the entry of a row that is waited for
        subst hr
        obtain rfl : k = id := UInt64.toNat_inj.mp ((hn.keys k r hk).1.trans (hn.keys id r he).1.symm)
        rw [CacheOp.after, DataCache.swapNotify_entries hk, if_pos hw, ExtTreeMap.getElem?_erase, if_pos (by simp)] at he'
        cases he'
      · simpa [CacheOp.after, DataCache.swapNotify_rows hk, hr] using hw
  | removeObsolete => exact hw
  | clear =>
    rw [CacheOp.after, DataCache.getElem?_clear] at he'
    cases he'

theorem ClientSession.after_of_step {funcs : BroadcastFuncs} {s s' : ClientSession} {e : ClientEvent}
    (hs : s.step funcs e = some s') :
    ∃ (o : CacheOp) (i : Clock), (∀ valid, o ≠ .queue valid) ∧ s'.cache = o.after i s.cache := by
  rcases cache_of_step hs with ⟨hc, -⟩ | ⟨bytes, header, -, -, -, -, -, hc, -⟩ | ⟨_, _, -, -, hc, -⟩ | ⟨clock, -, hc, -⟩
  · exact ⟨.await 0 0, {}, fun _ ho => (by cases ho), hc⟩
  · exact ⟨.swapNotify header.resultId _, {}, fun _ ho => (by cases ho), hc⟩
  · exact ⟨.clear, {}, fun _ ho => (by cases ho), hc⟩
  · exact ⟨.removeObsolete, clock, fun _ ho => (by cases ho), hc⟩

/-! ## The calls -/

/-- The result id whose entry a call may have left in the table. -/
def SessPhase.entry : SessPhase → Option UInt64
  | .queued id => some id
  | .posted id _ => some id
  | .unsent id _ => some id
  | .written id _ => some id
  | .blocked id _ => some id
  | .holding id _ false => some id
  | .answered id _ false _ => some id
  | _ => none

theorem SessPhase.id_of_entry {phase : SessPhase} {id : UInt64} (h : phase.entry = some id) : phase.id = some id := by
  cases phase with
  | holding id' row success => cases success <;> cases h; rfl
  | answered id' row success recv => cases success <;> cases h; rfl
  | start => cases h
  | refused => cases h
  | missed id' => cases h
  | _ => exact h

/-- Every entry is that of a call, and the row of a blocked call is in the table only while it is waited for. -/
structure EntriesOwned (s : ClientSession) (views : Nat → Option SessView) : Prop where
  numbered : Numbered s views
  room : s.cache.maxEntries = queueRecvMax
  waiting : ∀ t v id r, views t = some v → v.phase = .blocked id r → s.cache.entries[id]? = some r →
    (s.cache.rows r).state = .waiting
  owner : ∀ (id : UInt64) r, s.cache.entries[id]? = some r → ∃ t v, views t = some v ∧ v.phase.entry = some id

namespace EntriesOwned

variable {s s' : ClientSession} {views : Nat → Option SessView}

theorem established (o : Words.ByteOrder) : EntriesOwned (.established o) fun _ => none := by
  refine ⟨.start (.new queueRecvMax), rfl, fun _ _ _ _ h => (by cases h), fun id r he => ?_⟩
  simp [ClientSession.established, ClientSession.read, DataCache.new] at he

theorem call (h : EntriesOwned s views) {t : Nat} (ht : views t = none) (c : SessCall) :
    EntriesOwned s (Function.update views t (some ⟨c, .start⟩)) := by
  refine ⟨h.numbered.call t c, h.room, fun t' v id r hv hb => ?_, fun id r he => ?_⟩
  · rcases view_of_update hv with ⟨-, rfl⟩ | ⟨-, hv⟩
    · cases hb
    · exact h.waiting t' v id r hv hb
  · obtain ⟨t', v, hv, hid⟩ := h.owner id r he
    have hne : t' ≠ t := by
      rintro rfl
      rw [ht] at hv
      cases hv
    exact ⟨t', v, by rw [Function.update_of_ne hne]; exact hv, hid⟩

theorem env (h : EntriesOwned s views) {funcs : BroadcastFuncs} {e : ClientEvent} (hs : s.step funcs e = some s')
    (hlt : s.cache.allocated < 2 ^ 64) : EntriesOwned s' views := by
  have hn := h.numbered.step hs hlt
  obtain ⟨o, i, ho, hc⟩ := ClientSession.after_of_step hs
  have hold : ∀ (id : UInt64) r, (o.after i s.cache).entries[id]? = some r → s.cache.entries[id]? = some r := by
    intro id r he
    rcases CacheOp.getElem?_of_after he with he | ⟨⟨valid, hq⟩, -⟩
    · exact he
    · exact absurd hq (ho valid)
  refine ⟨hn, by rw [hc, CacheOp.maxEntries_after, h.room], ?_, ?_⟩
  · rw [hc]
    intro t v id r hv hb he
    exact CacheOp.waiting_after h.numbered.cache (hold id r he) (h.waiting t v id r hv hb (hold id r he)) he
  · rw [hc]
    exact fun id r he => h.owner id r (hold id r he)

theorem entry_stays (h : EntriesOwned s views) {t : Nat} {o : SessOp} {i : Clock} {r : o.Res} {v : SessView}
    (hv : views t = some v) (hpre : v.phase.Allows v.call o) (hs : o.exec t i s = some (r, s')) {id : UInt64} {row : RowRef}
    (hid : v.phase.entry = some id) (he : s'.cache.entries[id]? = some row) :
    (v.phase.next o r).entry = some id := by
  obtain ⟨call, phase⟩ := v
  cases hpre with
  | queue callId body recv valid => cases hid
  | postSend callId body => cases hid
  | postPing => cases hid
  | resetPong => cases hid
  | waitPong => cases hid
  | postRequest callId body recv id' => exact hid
  | waitWritten id' callback => cases r <;> exact hid
  | find callId body recv id' callback =>
    obtain ⟨hc, -⟩ := SessOp.exec_cache hs
    have hf : s.cache.find id' = (r, s'.cache) := Option.some.inj hc
    obtain rfl : id' = id := Option.some.inj hid
    cases hk : s.cache.entries[id']? with
    | none =>
      rw [DataCache.find_none hk] at hf
      rw [← (Prod.mk.inj hf).2, hk] at he
      cases he
    | some row' =>
      by_cases hst : (s.cache.rows row').state = .swapped
      · rw [DataCache.find_swapped hk hst] at hf
        rw [← (Prod.mk.inj hf).2, ExtTreeMap.getElem?_erase, if_pos (by simp)] at he
        cases he
      · rw [DataCache.find_waits hk hst] at hf
        obtain rfl : Found.blocked row' = r := (Prod.mk.inj hf).1
        rfl
  | await callId body recv id' row' =>
    obtain ⟨hc, -⟩ := SessOp.exec_cache hs
    have hsame : s'.cache = s.cache := CacheOp.eq_after hc
    obtain rfl : id' = id := Option.some.inj hid
    rw [hsame] at he
    have hrow : row = row' := by
      have h1 := (h.numbered.cache.keys id' row he).1
      have h2 := h.numbered.row t _ id' row' hv rfl
      exact Nat.succ.inj (h1.symm.trans h2)
    subst hrow
    have hw := h.waiting t _ id' row hv rfl he
    simp only [CacheOp.exec, DataCache.awaited, hw] at hc
    split at hc
    · rename_i hsw
      cases hsw
    · split at hc
      · obtain rfl : false = r := (Prod.mk.inj (Option.some.inj hc)).1
        rfl
      · cases hc
  | take callId body recv id' row' success buffer =>
    cases success with
    | true => cases hid
    | false => exact hid

theorem blocked_marked {t : Nat} {o : SessOp} {i : Clock} {r : o.Res} {v : SessView}
    (hpre : v.phase.Allows v.call o) (hs : o.exec t i s = some (r, s')) {id : UInt64} {row : RowRef}
    (hb : v.phase.next o r = .blocked id row) : (s'.cache.rows row).state = .waiting := by
  obtain ⟨call, phase⟩ := v
  cases hpre with
  | queue callId body recv valid =>
    simp only [SessPhase.next] at hb
    split at hb <;> cases hb
  | postSend callId body => cases hb
  | postPing => cases hb
  | resetPong => cases hb
  | waitPong => cases hb
  | postRequest callId body recv id' => cases hb
  | waitWritten id' callback => cases r <;> cases hb
  | find callId body recv id' callback =>
    obtain ⟨hc, -⟩ := SessOp.exec_cache hs
    have hf : s.cache.find id' = (r, s'.cache) := Option.some.inj hc
    cases r with
    | invalid => cases hb
    | ready row' => cases hb
    | blocked row' =>
      cases hb
      cases hk : s.cache.entries[id]? with
      | none =>
        rw [DataCache.find_none hk] at hf
        cases (Prod.mk.inj hf).1
      | some row' =>
        by_cases hst : (s.cache.rows row').state = .swapped
        · rw [DataCache.find_swapped hk hst] at hf
          cases (Prod.mk.inj hf).1
        · rw [DataCache.find_waits hk hst] at hf
          cases (Prod.mk.inj hf).1
          rw [← (Prod.mk.inj hf).2]
          simp [DataCache.setState]
  | await callId body recv id' row' => cases hb
  | take callId body recv id' row' success buffer => cases hb

theorem exec (h : EntriesOwned s views) {t : Nat} {o : SessOp} {i : Clock} {r : o.Res} {v : SessView}
    (hv : views t = some v) (hpre : v.phase.Allows v.call o) (hs : o.exec t i s = some (r, s'))
    (hlt : s'.cache.allocated < 2 ^ 64) :
    EntriesOwned s' (Function.update views t (some { v with phase := v.phase.next o r })) := by
  have hn := h.numbered.exec hv hpre hs hlt
  have hafter : ∃ o' : CacheOp, s'.cache = o'.after i s.cache ∧ ∀ valid, o' = .queue valid → o = .cache (.queue valid) := by
    cases o with
    | cache o => exact ⟨o, CacheOp.eq_after (SessOp.exec_cache hs).1, fun valid ho => by rw [ho]⟩
    | _ => exact ⟨.await 0 0, SessOp.exec_other (fun o' ho => by cases ho) hs, fun _ ho => (by cases ho)⟩
  obtain ⟨o', hc, hq⟩ := hafter
  refine ⟨hn, by rw [hc, CacheOp.maxEntries_after, h.room], fun t' w id row hw hb he => ?_, fun id row he => ?_⟩
  · rcases view_of_update hw with ⟨-, rfl⟩ | ⟨-, hw⟩
    · exact blocked_marked hpre hs hb
    · rw [hc] at he ⊢
      rcases CacheOp.getElem?_of_after he with hold | ⟨-, -, hrow⟩
      · exact CacheOp.waiting_after h.numbered.cache hold (h.waiting t' w id row hw hb hold) he
      · have h1 := h.numbered.row t' w id row hw (by rw [hb]; rfl)
        have h2 := h.numbered.issued t' w id hw (by rw [hb]; rfl)
        rw [h1, hrow] at h2
        exact absurd h2 (Nat.not_succ_le_self _)
  · have key : s.cache.entries[id]? = some row →
        ∃ t₁ w, Function.update views t (some { v with phase := v.phase.next o r }) t₁ = some w ∧
          w.phase.entry = some id := by
      intro hold
      obtain ⟨t', w, hw, hk⟩ := h.owner id row hold
      by_cases ht : t' = t
      · subst ht
        obtain rfl : v = w := Option.some.inj (hv.symm.trans hw)
        exact ⟨t', _, Function.update_self _ _ _, h.entry_stays hv hpre hs hk he⟩
      · exact ⟨t', w, by rw [Function.update_of_ne ht]; exact hw, hk⟩
    rcases CacheOp.getElem?_of_after (hc ▸ he) with hold | ⟨⟨valid, ho'⟩, hid, -⟩
    · exact key hold
    · -- the entry that this call has created
      obtain rfl := hq valid ho'
      have hqueue : s.cache.queue i.now valid = (r, s'.cache) := Option.some.inj (SessOp.exec_cache hs).1
      by_cases hfull : s.cache.maxEntries ≤ s.cache.entries.size
      · rw [DataCache.queue_full hfull] at hqueue
        rw [← (Prod.mk.inj hqueue).2] at he
        exact key he
      · rw [DataCache.queue_open hfull] at hqueue
        have hr : r = id := (Prod.mk.inj hqueue).1.symm.trans hid.symm
        have hne : id ≠ 0 := ne_zero_of_toNat (hn.cache.keys id row he).1
        refine ⟨t, _, Function.update_self _ _ _, ?_⟩
        obtain ⟨call, phase⟩ := v
        cases hpre
        subst hr
        simp only [SessPhase.next]
        rw [if_neg hne]
        rfl

end EntriesOwned

/-! ## Runs -/

/-- The call of thread `t` has returned for the result id `id`, and has timed out. -/
def TimedOut (p : SessPool) (t : Nat) (id : UInt64) : Prop :=
  ∃ c recv, p.result t = some (c, .received recv (some .timedOut) id)

theorem responsible_of_entry {p : SessPool} {views : Nat → Option SessView}
    (hl : Machine.Linked sessDiscipline (fun _ c r v => v.call = c ∧ v.Returns r) p views) {t : Nat} {v : SessView}
    {id : UInt64} (hv : views t = some v) (hid : v.phase.entry = some id) (hne : id ≠ 0) :
    Pending p t id ∨ TimedOut p t id := by
  rcases hl t with ⟨-, hn⟩ | ⟨c, q, v', ht, hv', hok⟩
  · rw [hn] at hv
    cases hv
  · obtain rfl : v' = v := Option.some.inj (hv'.symm.trans hv)
    cases q with
    | op o k => exact .inl (pending_of_view hl ht rfl hv (SessPhase.id_of_entry hid) hne)
    | ret b =>
      right
      obtain ⟨recv, ec, rfl⟩ := SessView.received_of_id (SessPhase.id_of_entry hid) hne hok.2
      have hresult : p.result t = some (c, .received recv ec id) := by simp [Pool.result, ht, Prog.result]
      obtain ⟨-, callId, body, recv₀, -, ⟨hph, -⟩ | ⟨-, -, hec⟩ | ⟨hph, -⟩ | ⟨row, success, hph, hec⟩⟩ := hok
      · rw [hph] at hid
        cases hid
      · exact ⟨c, recv, hec ▸ hresult⟩
      · rw [hph] at hid
        cases hid
      · cases success with
        | true =>
          rw [hph] at hid
          cases hid
        | false => exact ⟨c, recv, by rw [hresult, hec]; rfl⟩

/-- The invariant, as long as the id counter has not gone round. -/
def Tallied (s : ClientSession) (views : Nat → Option SessView) : Prop :=
  s.cache.allocated < 2 ^ 64 → EntriesOwned s views

theorem owned_of_reach {funcs : BroadcastFuncs} {responseTimeout : Time} {o : Words.ByteOrder} {p : SessPool}
    (hp : (sessionMachine funcs responseTimeout).Reach Machine.Free (.established o) p) :
    ∃ views, Tallied p.shared views ∧
      Machine.Linked sessDiscipline (fun _ c r v => v.call = c ∧ v.Returns r) p views := by
  refine Machine.sound (fun _ c => ⟨c, .start⟩) ?_ (fun _ c => sessCall_ok responseTimeout c) ?_ ?_ ?_ hp
  · exact fun _ => .established o
  · intro p views t c _ _ hinv _ ht hlt
    exact (hinv hlt).call ht c
  · intro p views t i o v r s' _ _ hinv _ _ hv hpre hex hlt
    exact (hinv ((SessOp.exec_allocated_le hex).trans_lt hlt)).exec hv hpre hex hlt
  · intro p views e s' _ _ hinv _ he hlt
    have ha := (ClientSession.allocated_of_step he).1
    exact (hinv (ha ▸ hlt)).env he (ha ▸ hlt)

theorem EntriesOwned.exists_owners {s : ClientSession} {views : Nat → Option SessView} (h : EntriesOwned s views) {n : Nat}
    (hn : n ≤ s.cache.entries.size) : ∃ ts : Finset Nat, ts.card = n ∧
      ∀ t ∈ ts, ∃ v id, views t = some v ∧ v.phase.entry = some id ∧ id ≠ 0 := by
  have hown : ∀ id : UInt64, s.cache.entries[id]?.isSome = true → ∃ t v, views t = some v ∧ v.phase.entry = some id := by
    intro id he
    obtain ⟨r, he⟩ := Option.isSome_iff_exists.mp he
    exact h.owner id r he
  have hone : ∀ t (id id' : UInt64), (∃ v, views t = some v ∧ v.phase.entry = some id) →
      (∃ v, views t = some v ∧ v.phase.entry = some id') → id = id' := by
    rintro t id id' ⟨v, hv, hid⟩ ⟨v', hv', hid'⟩
    obtain rfl : v = v' := Option.some.inj (hv.symm.trans hv')
    exact Option.some.inj (hid.symm.trans hid')
  obtain ⟨ts, hcard, hts⟩ := Maps.exists_owners hown hone hn
  refine ⟨ts, hcard, fun t ht => ?_⟩
  obtain ⟨id, he, v, hv, hid⟩ := hts t ht
  obtain ⟨r, he⟩ := Option.isSome_iff_exists.mp he
  exact ⟨v, id, hv, hid, ne_zero_of_toNat (h.numbered.cache.keys id r he).1⟩

/-- **Every entry belongs to a call that is in progress or has timed out.** On a session that has handed out fewer than
`2 ^ 64` ids, every entry is that of such a `send_recv`, and `queue` refuses a request only when there are
`queue_recv_max` of these besides the call it refuses. -/
theorem entries_accounted {funcs : BroadcastFuncs} {responseTimeout : Time} {o : Words.ByteOrder} {p : SessPool}
    (hp : (sessionMachine funcs responseTimeout).Reach Machine.Free (.established o) p)
    (hlt : p.shared.cache.allocated + 1 < 2 ^ 64) :
    (∀ (id : UInt64) r, p.shared.cache.entries[id]? = some r → ∃ t, Pending p t id ∨ TimedOut p t id) ∧
    ∀ t valid now, p.next t = some (.cache (.queue valid)) → (p.shared.cache.queue now valid).1 = 0 →
      ∃ ts : Finset Nat, ts.card = queueRecvMax ∧ t ∉ ts ∧ ∀ t' ∈ ts, ∃ id, Pending p t' id ∨ TimedOut p t' id := by
  obtain ⟨views, hinv, hl⟩ := owned_of_reach hp
  have h := hinv (Nat.lt_of_succ_lt hlt)
  refine ⟨fun id r he => ?_, fun t valid now ht hzero => ?_⟩
  · obtain ⟨t, v, hv, hid⟩ := h.owner id r he
    exact ⟨t, responsible_of_entry hl hv hid (ne_zero_of_toNat (h.numbered.cache.keys id r he).1)⟩
  · have hfull : p.shared.cache.maxEntries ≤ p.shared.cache.entries.size := by
      by_contra hopen
      rw [DataCache.queue_open hopen] at hzero
      exact ne_zero_of_toNat (h.numbered.cache.toNat_succ hlt) hzero
    obtain ⟨ts, hcard, hts⟩ := h.exists_owners (h.room ▸ hfull)
    refine ⟨ts, hcard, fun hmem => ?_, fun t' ht' => ?_⟩
    · -- the call that is refused has no id yet
      obtain ⟨v, id, hv, hid, -⟩ := hts t hmem
      obtain ⟨c, k, hthread⟩ := Machine.next_eq_some ht
      obtain ⟨v', hv', hok⟩ := hl.ok hthread
      obtain rfl : v' = v := Option.some.inj (hv'.symm.trans hv)
      obtain ⟨call, phase⟩ := v'
      cases hok.1
      cases hid
    · obtain ⟨v, id, hv, hid, hne⟩ := hts t' ht'
      exact ⟨id, responsible_of_entry hl hv hid hne⟩

/-- The call 1 times out before its message is written, the call 2 while it waits for its response. -/
def leftRun : List (Act SessCall Clock ClientEvent) :=
  [.call 1 (.sendRecv 7 [1] []), .op 1 {}, .op 1 {}, .op 1 { timeout := true }, .call 2 (.sendRecv 7 [2] []), .op 2 {},
    .op 2 {}, .env .runPosted, .env .runPosted, .env (.onWrite 0 false), .env (.ioStep {}), .env (.onWrite 0 false),
    .env (.ioStep {}), .op 2 {}, .op 2 {}, .op 2 { timeout := true }, .op 2 {}]

/-- Both calls have returned, and both entries are still there. -/
theorem entries_left : ∃ p, (sessionMachine (fun _ => none) 1000).Reach Machine.Free (.established .little) p ∧
    (∀ t c q, p.thread t = some (c, q) → q.result.isSome = true) ∧
    p.shared.cache.entries[(1 : UInt64)]? = some 0 ∧ p.shared.cache.entries[(2 : UInt64)]? = some 1 := by
  have hrun : ((sessionMachine (fun _ => none) 1000).run (fun _ _ => true) (.initial (.established .little))
      leftRun).any (fun p => decide (p.result 1 = some (.sendRecv 7 [1] [], .received [] (some .timedOut) 1)) &&
        decide (p.result 2 = some (.sendRecv 7 [2] [], .received [] (some .timedOut) 2)) &&
        decide (p.shared.cache.entries[(1 : UInt64)]? = some 0) &&
        decide (p.shared.cache.entries[(2 : UInt64)]? = some 1)) = true := by
    decide +kernel
  obtain ⟨p, hp, hf⟩ := (Option.any_eq_true _ _).mp hrun
  simp only [Bool.and_eq_true, decide_eq_true_eq] at hf
  obtain ⟨⟨⟨h1, h2⟩, he1⟩, he2⟩ := hf
  refine ⟨p, Machine.Reach.of_run (fun _ _ _ => trivial) hp, fun t c q ht => ?_, he1, he2⟩
  by_cases ht1 : t = 1
  · rw [ht1, Machine.result_eq_some h1] at ht
    cases ht
    rfl
  · by_cases ht2 : t = 2
    · rw [ht2, Machine.result_eq_some h2] at ht
      cases ht
      rfl
    · have hnone : p.thread t = none := by
        refine (Machine.Steps.of_run (G := Machine.Free) (fun _ _ _ => trivial) hp).unstarted rfl ?_
        have hstarts : leftRun.filterMap Act.starts = [1, 2] := rfl
        rw [hstarts]
        simp [ht1, ht2]
      rw [hnone] at ht
      cases ht

/-- The call 1 has timed out, and the call 2 is in progress. -/
theorem entries_accounted_left : ∃ p, (sessionMachine (fun _ => none) 1000).Reach Machine.Free (.established .little) p ∧
    p.shared.cache.entries[(2 : UInt64)]? = some 1 ∧ ∃ t, Pending p t 2 ∨ TimedOut p t 2 := by
  have hrun : ((sessionMachine (fun _ => none) 1000).run (fun _ _ => true) (.initial (.established .little))
      (leftRun.take 6)).any (fun p => decide (p.shared.cache.allocated + 1 < 2 ^ 64) &&
        decide (p.shared.cache.entries[(2 : UInt64)]? = some 1)) = true := by
    decide +kernel
  obtain ⟨p, hp, hf⟩ := Machine.Reach.exists_of_run (fun _ _ _ => trivial) (leftRun.take 6) hrun
  simp only [Bool.and_eq_true, decide_eq_true_eq] at hf
  exact ⟨p, hp, hf.2, (entries_accounted hp hf.1).1 2 1 hf.2⟩

end Radrpc
