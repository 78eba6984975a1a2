import Radrpc.Client.Calls
import Radrpc.Data.CacheRuns

/-!
# Requests, their ids and their rows

As long as the id counter has not gone round, the request with the id `n` is the one that created row `n - 1`.

* `cache_of_step`, `SessOp.exec_cache`, `SessOp.exec_other` : what the io thread and the callers do to the cache;
* `Numbered` : ids, rows and calls in progress belong together one to one;
* `Rows P` : whatever a call can collect as a response satisfies `P`, when every delivery does.
-/

namespace Radrpc
open Std Conc

/-! ## What happens to the cache -/

theorem ClientSession.cache_of_step {funcs : BroadcastFuncs} {s s' : ClientSession} {e : ClientEvent}
    (hs : s.step funcs e = some s') :
    (s'.cache = s.cache ∧ s'.delivered = s.delivered) ∨
    (∃ bytes header, e = .onRead false bytes ∧ s.reading = true ∧
      IoHeader.size ≤ (s.readBuffer ++ bytes).length ∧ header = IoHeader.read s.order (s.readBuffer ++ bytes) ∧
      funcs header.callId = none ∧
      s'.cache = (s.cache.swapNotify header.resultId ((s.readBuffer ++ bytes).drop IoHeader.size)).2 ∧
      s'.delivered = if s.cache.entries[header.resultId]?.isSome then s.delivered ++ [header.resultId]
        else s.delivered) ∨
    (∃ ec bytes, e = .onRead ec bytes ∧ (ec || s.closeReceived) = true ∧ s'.cache = s.cache.clear ∧
      s'.delivered = s.delivered) ∨
    (∃ clock, e = .ioStep clock ∧ s'.cache = s.cache.removeObsolete clock.visit ∧ s'.delivered = s.delivered) := by
  cases moves_of_step hs with
  | onRead ec bytes readBuffer cache delivered handled readError close closing io _ hr _ he =>
    rw [← he]
    unfold onRead
    split
    · rename_i hec
      obtain ⟨_, _, he⟩ := closeSession_frame { s with
        reading := false, readBuffer := s.readBuffer ++ bytes, cache := s.cache.clear, readError := true }
      rw [he]
      exact .inr (.inr (.inl ⟨ec, bytes, rfl, hec, rfl, rfl⟩))
    · rename_i hec
      split
      · rename_i hlen
        dsimp only
        split
        · exact .inl ⟨rfl, rfl⟩
        · exact .inl ⟨rfl, rfl⟩
        · rename_i hf
          have hec' : ec = false := by
            cases ec with
            | false => rfl
            | true => exact absurd rfl hec
          subst hec'
          exact .inr (.inl ⟨bytes, _, rfl, hr, hlen, rfl, hf, rfl, rfl⟩)
      · exact .inl ⟨rfl, rfl⟩
  | sweeping clock => exact .inr (.inr (.inr ⟨clock, rfl, rfl, rfl⟩))
  | _ => exact .inl ⟨rfl, rfl⟩

theorem ClientSession.allocated_of_step {funcs : BroadcastFuncs} {s s' : ClientSession} {e : ClientEvent}
    (hs : s.step funcs e = some s') :
    s'.cache.allocated = s.cache.allocated ∧ ∀ id ∈ s.delivered, id ∈ s'.delivered := by
  rcases cache_of_step hs with ⟨hc, hd⟩ | ⟨bytes, header, -, -, -, -, -, hc, hd⟩ | ⟨_, _, -, -, hc, hd⟩ |
    ⟨clock, -, hc, hd⟩
  · exact ⟨by rw [hc], fun id h => hd ▸ h⟩
  · refine ⟨by rw [hc, DataCache.swapNotify_allocated], fun id h => ?_⟩
    rw [hd]
    split
    · exact List.mem_append_left _ h
    · exact h
  · exact ⟨by rw [hc, DataCache.clear_allocated], fun id h => hd ▸ h⟩
  · exact ⟨by rw [hc]; rfl, fun id h => hd ▸ h⟩

theorem SessOp.exec_cache {t : Nat} {o : CacheOp} {i : Clock} {r : o.Res} {s s' : ClientSession}
    (h : SessOp.exec t (.cache o) i s = some (r, s')) :
    o.exec i s.cache = some (r, s'.cache) ∧ s' = { s with cache := s'.cache } := by
  obtain ⟨⟨r', c⟩, hc, he⟩ := Option.map_eq_some_iff.mp h
  cases he
  exact ⟨hc, rfl⟩

theorem SessOp.exec_other {t : Nat} {o : SessOp} {i : Clock} {r : o.Res} {s s' : ClientSession}
    (ho : ∀ o', o ≠ .cache o') (h : o.exec t i s = some (r, s')) : s'.cache = s.cache := by
  cases o with
  | cache o => exact absurd rfl (ho o)
  | post callId resultId body =>
    cases h
    rfl
  | waitWritten callback =>
    simp only [SessOp.exec] at h
    split at h
    · cases h
      rfl
    · split at h
      · cases h
        rfl
      · cases h
  | postPing =>
    cases h
    rfl
  | resetPong =>
    cases h
    rfl
  | waitPong =>
    simp only [SessOp.exec] at h
    split at h
    · cases h
      rfl
    · split at h
      · cases h
        rfl
      · cases h

/-! ## Numbers -/

/-- The result id of a call: 0 for a plain `send`. -/
def SessPhase.id : SessPhase → Option UInt64
  | .queued id => some id
  | .posted id _ => some id
  | .unsent id _ => some id
  | .written id _ => some id
  | .missed id => some id
  | .blocked id _ => some id
  | .holding id _ _ => some id
  | .answered id _ _ _ => some id
  | _ => none

def SessPhase.row : SessPhase → Option (UInt64 × RowRef)
  | .blocked id row => some (id, row)
  | .holding id row _ => some (id, row)
  | .answered id row _ _ => some (id, row)
  | _ => none

theorem SessPhase.id_next {call : SessCall} {phase : SessPhase} {t : Nat} {o : SessOp} {i : Clock} {r : o.Res}
    {s s' : ClientSession} {id : UInt64} (hpre : Allows call phase o) (hs : o.exec t i s = some (r, s'))
    (h : (phase.next o r).id = some id) : phase.id = some id ∨ id = 0 ∨
      (id = s.cache.idCounter + 1 ∧ s'.cache.allocated = s.cache.allocated + 1) := by
  cases hpre with
  | queue callId body recv valid =>
    obtain ⟨hc, -⟩ := SessOp.exec_cache hs
    have hq : s.cache.queue i.now valid = (r, s'.cache) := Option.some.inj hc
    by_cases hfull : s.cache.maxEntries ≤ s.cache.entries.size
    · rw [DataCache.queue_full hfull] at hq
      have hr : r = (0 : UInt64) := (congrArg Prod.fst hq).symm
      simp only [next, hr, if_true] at h
      cases h
    · rw [DataCache.queue_open hfull] at hq
      have hr : r = s.cache.idCounter + 1 := (congrArg Prod.fst hq).symm
      have hc' : s'.cache.allocated = s.cache.allocated + 1 := congrArg (fun x => x.2.allocated) hq.symm
      simp only [next] at h
      split at h
      · cases h
      · refine .inr (.inr ⟨?_, hc'⟩)
        exact (Option.some.inj h).symm.trans hr
  | postSend callId body => exact .inr (.inl (Option.some.inj h).symm)
  | postRequest callId body recv id' => exact .inl h
  | waitWritten id' callback => cases r <;> exact .inl h
  | find callId body recv id' callback => cases r <;> exact .inl h
  | await callId body recv id' row => exact .inl h
  | take callId body recv id' row success buffer => exact .inl h
  | postPing => cases h
  | resetPong => cases h
  | waitPong => cases h

theorem SessPhase.row_next {call : SessCall} {phase : SessPhase} {t : Nat} {o : SessOp} {i : Clock} {r : o.Res}
    {s s' : ClientSession} {id : UInt64} {row : RowRef} (hpre : Allows call phase o)
    (hs : o.exec t i s = some (r, s')) (h : (phase.next o r).row = some (id, row)) :
    phase.row = some (id, row) ∨ s.cache.entries[id]? = some row := by
  cases hpre with
  | queue callId body recv valid =>
    simp only [next] at h
    split at h <;> cases h
  | find callId body recv id' callback =>
    obtain ⟨hc, -⟩ := SessOp.exec_cache hs
    have hf : s.cache.find id' = (r, s'.cache) := Option.some.inj hc
    cases he : s.cache.entries[id']? with
    | none =>
      rw [DataCache.find_none he] at hf
      have hr : r = Found.invalid := (congrArg Prod.fst hf).symm
      subst hr
      cases h
    | some row' =>
      by_cases hst : (s.cache.rows row').state = .swapped
      · rw [DataCache.find_swapped he hst] at hf
        have hr : r = Found.ready row' := (congrArg Prod.fst hf).symm
        subst hr
        cases h
        exact .inr he
      · rw [DataCache.find_waits he hst] at hf
        have hr : r = Found.blocked row' := (congrArg Prod.fst hf).symm
        subst hr
        cases h
        exact .inr he
  | await callId body recv id' row' => exact .inl h
  | take callId body recv id' row' success buffer => exact .inl h
  | waitWritten id' callback => cases r <;> cases h
  | postSend callId body => cases h
  | postRequest callId body recv id' => cases h
  | postPing => cases h
  | resetPong => cases h
  | waitPong => cases h

/-- Ids, rows and calls in progress belong together one to one. -/
structure Numbered (s : ClientSession) (views : Nat → Option SessView) : Prop where
  cache : CacheNumbered s.cache
  issued : ∀ t v id, views t = some v → v.phase.id = some id → id.toNat ≤ s.cache.allocated
  distinct : ∀ t t' v v' id, views t = some v → views t' = some v' → v.phase.id = some id → v'.phase.id = some id →
    id ≠ 0 → t = t'
  row : ∀ t v id r, views t = some v → v.phase.row = some (id, r) → id.toNat = r + 1

theorem SessPhase.id_of_row {phase : SessPhase} {id : UInt64} {r : RowRef} (h : phase.row = some (id, r)) :
    phase.id = some id := by
  cases phase <;> cases h <;> rfl

theorem ne_zero_of_toNat {id : UInt64} {n : Nat} (h : id.toNat = n + 1) : id ≠ 0 := by
  intro h0
  rw [h0] at h
  cases h

theorem SessOp.exec_allocated_le {t : Nat} {o : SessOp} {i : Clock} {r : o.Res} {s s' : ClientSession}
    (hs : o.exec t i s = some (r, s')) : s.cache.allocated ≤ s'.cache.allocated := by
  cases o with
  | cache o =>
    obtain ⟨hc, -⟩ := exec_cache hs
    rw [CacheOp.eq_after hc]
    exact o.allocated_le i s.cache
  | _ =>
    rw [exec_other (fun o' h => by cases h) hs]

namespace Numbered

variable {s s' : ClientSession} {views : Nat → Option SessView}

theorem row_distinct (h : Numbered s views) {t t' : Nat} {v v' : SessView} {id id' : UInt64} {r : RowRef}
    (hv : views t = some v) (hv' : views t' = some v') (hr : v.phase.row = some (id, r))
    (hr' : v'.phase.row = some (id', r)) : t = t' ∧ id = id' := by
  have h1 := h.row t v id r hv hr
  have h2 := h.row t' v' id' r hv' hr'
  have hid : id = id' := UInt64.toNat_inj.mp (h1.trans h2.symm)
  subst hid
  exact ⟨h.distinct t t' v v' id hv hv' (SessPhase.id_of_row hr) (SessPhase.id_of_row hr') (ne_zero_of_toNat h1), rfl⟩

theorem start {s : ClientSession} (hc : CacheNumbered s.cache) : Numbered s fun _ => none :=
  ⟨hc, fun _ _ _ h => (by cases h), fun _ _ _ _ _ h => (by cases h), fun _ _ _ _ h => (by cases h)⟩

theorem views_congr {views' : Nat → Option SessView} (h : Numbered s views)
    (hv : ∀ t v, views' t = some v → views t = some v ∨ v.phase.id = none) : Numbered s views' := by
  refine ⟨h.cache, fun t v id hv' hid => ?_, fun t₁ t₂ v₁ v₂ id hv₁ hv₂ h₁ h₂ hne => ?_, fun t v id r hv' hr => ?_⟩
  · rcases hv t v hv' with hv' | hn
    · exact h.issued t v id hv' hid
    · rw [hn] at hid
      cases hid
  · rcases hv t₁ v₁ hv₁ with hv₁ | hn
    · rcases hv t₂ v₂ hv₂ with hv₂ | hn
      · exact h.distinct t₁ t₂ v₁ v₂ id hv₁ hv₂ h₁ h₂ hne
      · rw [hn] at h₂
        cases h₂
    · rw [hn] at h₁
      cases h₁
  · rcases hv t v hv' with hv' | hn
    · exact h.row t v id r hv' hr
    · rw [SessPhase.id_of_row hr] at hn
      cases hn

theorem call (h : Numbered s views) (t : Nat) (c : SessCall) :
    Numbered s (Function.update views t (some ⟨c, .start⟩)) := by
  apply h.views_congr
  intro t' v hv
  by_cases ht : t' = t
  · rw [ht, Function.update_self] at hv
    cases hv
    exact .inr rfl
  · rw [Function.update_of_ne ht] at hv
    exact .inl hv

theorem env (h : Numbered s views) (hc : CacheNumbered s'.cache) (ha : s'.cache.allocated = s.cache.allocated) :
    Numbered s' views :=
  ⟨hc, fun t v id hv hid => ha ▸ h.issued t v id hv hid, h.distinct, h.row⟩

theorem exec (h : Numbered s views) {t : Nat} {o : SessOp} {i : Clock} {r : o.Res} {v : SessView}
    (hv : views t = some v) (hpre : v.phase.Allows v.call o) (hs : o.exec t i s = some (r, s'))
    (hlt : s'.cache.allocated < 2 ^ 64) :
    Numbered s' (Function.update views t (some { v with phase := v.phase.next o r })) := by
  have hle := SessOp.exec_allocated_le hs
  have hcache : CacheNumbered s'.cache := by
    cases o with
    | cache o =>
      obtain ⟨hc, -⟩ := SessOp.exec_cache hs
      have he := CacheOp.eq_after hc
      rw [he] at hlt ⊢
      exact h.cache.after o i hlt
    | _ =>
      rw [SessOp.exec_other (fun o' ho => by cases ho) hs]
      exact h.cache
  -- the id of a view after the step is the old one, 0, or one above all others
  have key : ∀ t' w id, Function.update views t (some { v with phase := v.phase.next o r }) t' = some w →
      w.phase.id = some id → (∃ w', views t' = some w' ∧ w'.phase.id = some id) ∨ id = 0 ∨
        (t' = t ∧ id.toNat = s.cache.allocated + 1 ∧ s'.cache.allocated = s.cache.allocated + 1) := by
    intro t' w id hw hid
    by_cases ht : t' = t
    · subst ht
      rw [Function.update_self] at hw
      cases hw
      rcases SessPhase.id_next hpre hs hid with hid | h0 | ⟨hid, ha⟩
      · exact .inl ⟨v, hv, hid⟩
      · exact .inr (.inl h0)
      · refine .inr (.inr ⟨rfl, ?_, ha⟩)
        rw [hid, h.cache.toNat_succ (by omega)]
    · rw [Function.update_of_ne ht] at hw
      exact .inl ⟨w, hw, hid⟩
  refine ⟨hcache, fun t' w id hw hid => ?_, fun t₁ t₂ w₁ w₂ id hw₁ hw₂ h₁ h₂ hne => ?_, fun t' w id row hw hr => ?_⟩
  · rcases key t' w id hw hid with ⟨w', hw', hid'⟩ | rfl | ⟨-, hid', ha⟩
    · exact (h.issued t' w' id hw' hid').trans hle
    · exact Nat.zero_le _
    · exact (hid'.trans ha.symm).le
  · rcases key t₁ w₁ id hw₁ h₁ with ⟨w₁', hw₁', h₁'⟩ | h0 | ⟨ht₁, hid₁, -⟩
    · rcases key t₂ w₂ id hw₂ h₂ with ⟨w₂', hw₂', h₂'⟩ | h0 | ⟨ht₂, hid₂, -⟩
      · exact h.distinct t₁ t₂ w₁' w₂' id hw₁' hw₂' h₁' h₂' hne
      · exact absurd h0 hne
      · have := h.issued t₁ w₁' id hw₁' h₁'
        omega
    · exact absurd h0 hne
    · rcases key t₂ w₂ id hw₂ h₂ with ⟨w₂', hw₂', h₂'⟩ | h0 | ⟨ht₂, -, -⟩
      · have := h.issued t₂ w₂' id hw₂' h₂'
        omega
      · exact absurd h0 hne
      · rw [ht₁, ht₂]
  · by_cases ht : t' = t
    · subst ht
      rw [Function.update_self] at hw
      cases hw
      rcases SessPhase.row_next hpre hs hr with hr | he
      · exact h.row t' v id row hv hr
      · exact (h.cache.keys id row he).1
    · rw [Function.update_of_ne ht] at hw
      exact h.row t' w id row hw hr

theorem step (h : Numbered s views) {funcs : BroadcastFuncs} {e : ClientEvent} (hs : s.step funcs e = some s')
    (hlt : s.cache.allocated < 2 ^ 64) : Numbered s' views := by
  have ha := (ClientSession.allocated_of_step hs).1
  have key : ∀ (o : CacheOp) (i : Clock), s'.cache = o.after i s.cache → Numbered s' views := by
    intro o i hc
    rw [hc] at ha
    exact h.env (hc ▸ h.cache.after o i (ha ▸ hlt)) (hc ▸ ha)
  rcases ClientSession.cache_of_step hs with ⟨hc, -⟩ | ⟨bytes, header, -, -, -, -, -, hc, -⟩ | ⟨_, _, -, -, hc, -⟩ |
    ⟨clock, -, hc, -⟩
  · exact h.env (hc ▸ h.cache) ha
  · exact key (.swapNotify header.resultId ((s.readBuffer ++ bytes).drop IoHeader.size)) {} hc
  · exact key .clear {} hc
  · exact key .removeObsolete clock hc

end Numbered

/-! ## Responses -/

/-- Whatever a call can collect satisfies `P`: a swapped row in the table, the swapped row of a blocked call, the row of
a call that has been woken, and what it has taken from it. A row that a call has found is in the table only while it
is waited for. -/
structure Rows (P : UInt64 → Bytes → Prop) (s : ClientSession) (views : Nat → Option SessView) : Prop where
  table : ∀ (id : UInt64) r, s.cache.entries[id]? = some r → (s.cache.rows r).state = .swapped →
    P id (s.cache.rows r).readBuffer
  held : ∀ t v id r, views t = some v → v.phase.row = some (id, r) → s.cache.entries[id]? = some r →
    (s.cache.rows r).state = .waiting
  blocked : ∀ t v id r, views t = some v → v.phase = .blocked id r → (s.cache.rows r).state = .swapped →
    P id (s.cache.rows r).readBuffer
  holding : ∀ t v id r, views t = some v → v.phase = .holding id r true → P id (s.cache.rows r).readBuffer
  answered : ∀ t v id r recv, views t = some v → v.phase = .answered id r true recv → P id recv

namespace Rows

variable {P P' : UInt64 → Bytes → Prop} {s s' : ClientSession} {views : Nat → Option SessView}

theorem start {s : ClientSession} (hc : ∀ id : UInt64, s.cache.entries[id]? = none) : Rows P s fun _ => none :=
  ⟨fun id r h => (by rw [hc id] at h; cases h), fun _ _ _ _ h => (by cases h), fun _ _ _ _ h => (by cases h),
    fun _ _ _ _ h => (by cases h), fun _ _ _ _ _ h => (by cases h)⟩

theorem views_congr {views' : Nat → Option SessView} (h : Rows P s views)
    (hv : ∀ t v, views' t = some v → views t = some v ∨ v.phase.row = none) : Rows P s views' := by
  refine ⟨h.table, fun t v id r hv' hr => ?_, fun t v id r hv' hp => ?_, fun t v id r hv' hp => ?_,
    fun t v id r recv hv' hp => ?_⟩
  · rcases hv t v hv' with hv' | hn
    · exact h.held t v id r hv' hr
    · rw [hn] at hr
      cases hr
  · rcases hv t v hv' with hv' | hn
    · exact h.blocked t v id r hv' hp
    · rw [hp] at hn
      cases hn
  · rcases hv t v hv' with hv' | hn
    · exact h.holding t v id r hv' hp
    · rw [hp] at hn
      cases hn
  · rcases hv t v hv' with hv' | hn
    · exact h.answered t v id r recv hv' hp
    · rw [hp] at hn
      cases hn

theorem same (h : Rows P s views) (hc : s'.cache = s.cache) (hP : ∀ id b, P id b → P' id b) : Rows P' s' views :=
  ⟨by rw [hc]; exact fun id r he hs => hP _ _ (h.table id r he hs), by rw [hc]; exact h.held,
    by rw [hc]; exact fun t v id r hv hp hs => hP _ _ (h.blocked t v id r hv hp hs),
    by rw [hc]; exact fun t v id r hv hp => hP _ _ (h.holding t v id r hv hp),
    fun t v id r recv hv hp => hP _ _ (h.answered t v id r recv hv hp)⟩

theorem swapNotify (h : Rows P s views) (hn : Numbered s views) {id : UInt64} {buffer : Bytes}
    (hc : s'.cache = (s.cache.swapNotify id buffer).2) (hP : ∀ id b, P id b → P' id b)
    (hnew : s.cache.entries[id]?.isSome = true → P' id buffer) : Rows P' s' views := by
  cases he : s.cache.entries[id]? with
  | none =>
    rw [DataCache.swapNotify_none he] at hc
    exact h.same hc hP
  | some r₀ =>
    have hP₀ : P' id buffer := hnew (by rw [he]; rfl)
    have hrows := DataCache.swapNotify_rows he buffer
    have hentries := DataCache.swapNotify_entries he buffer
    have hkey := (hn.cache.keys id r₀ he).1
    have hself : s'.cache.rows r₀ = { s.cache.rows r₀ with readBuffer := buffer, state := .swapped } := by
      rw [hc, hrows, Function.update_self]
    have hother : ∀ r, r ≠ r₀ → s'.cache.rows r = s.cache.rows r := fun r hr => by
      rw [hc, hrows, Function.update_of_ne hr]
    have hold : ∀ (id' : UInt64) r, s'.cache.entries[id']? = some r → s.cache.entries[id']? = some r := by
      rw [hc]
      exact fun id' r h => DataCache.getElem?_of_swapNotify h
    have hid : ∀ id' : UInt64, id'.toNat = r₀ + 1 → id' = id := fun id' h => UInt64.toNat_inj.mp (h.trans hkey.symm)
    refine ⟨fun id' r hr hst => ?_, fun t v id' r hv hrow hr => ?_, fun t v id' r hv hp hst => ?_,
      fun t v id' r hv hp => ?_, fun t v id' r recv hv hp => hP _ _ (h.answered t v id' r recv hv hp)⟩
    · by_cases hr₀ : r = r₀
      · subst hr₀
        rw [hid id' (hn.cache.keys id' r (hold id' r hr)).1, hself]
        exact hP₀
      · rw [hother r hr₀] at hst ⊢
        exact hP _ _ (h.table id' r (hold id' r hr) hst)
    · by_cases hr₀ : r = r₀
      · -- the row was waited for, so its entry is gone
        subst hr₀
        have hst := h.held t v id' r hv hrow (hold id' r hr)
        have hid' := hid id' (hn.row t v id' r hv hrow)
        subst hid'
        rw [hc, hentries, if_pos hst, ExtTreeMap.getElem?_erase] at hr
        simp at hr
      · rw [hother r hr₀]
        exact h.held t v id' r hv hrow (hold id' r hr)
    · by_cases hr₀ : r = r₀
      · subst hr₀
        rw [hid id' (hn.row t v id' r hv (by rw [hp]; rfl)), hself]
        exact hP₀
      · rw [hother r hr₀] at hst ⊢
        exact hP _ _ (h.blocked t v id' r hv hp hst)
    · by_cases hr₀ : r = r₀
      · subst hr₀
        rw [hid id' (hn.row t v id' r hv (by rw [hp]; rfl)), hself]
        exact hP₀
      · rw [hother r hr₀]
        exact hP _ _ (h.holding t v id' r hv hp)

theorem shrink (h : Rows P s views) (hrows : s'.cache.rows = s.cache.rows)
    (hold : ∀ (id : UInt64) r, s'.cache.entries[id]? = some r → s.cache.entries[id]? = some r)
    (hP : ∀ id b, P id b → P' id b) : Rows P' s' views :=
  ⟨fun id r he hs => by rw [hrows] at hs ⊢; exact hP _ _ (h.table id r (hold id r he) hs),
    fun t v id r hv hr he => by rw [hrows]; exact h.held t v id r hv hr (hold id r he),
    fun t v id r hv hp hs => by rw [hrows] at hs ⊢; exact hP _ _ (h.blocked t v id r hv hp hs),
    fun t v id r hv hp => by rw [hrows]; exact hP _ _ (h.holding t v id r hv hp),
    fun t v id r recv hv hp => hP _ _ (h.answered t v id r recv hv hp)⟩

theorem clear (h : Rows P s views) (hn : Numbered s views) (hc : s'.cache = s.cache.clear)
    (hP : ∀ id b, P id b → P' id b)
    (hfree : ∀ t v id r, views t = some v → v.phase = .blocked id r → (s.cache.rows r).state = .swapped ∨
      s.cache.entries[id]? ≠ some r) : Rows P' s' views := by
  have hbuf : ∀ r, (s'.cache.rows r).readBuffer = (s.cache.rows r).readBuffer := fun r => by
    rw [hc]
    exact DataCache.clear_readBuffer s.cache r
  refine ⟨fun id r he => ?_, fun t v id r hv hr he => ?_, fun t v id r hv hp hs => ?_, fun t v id r hv hp => ?_,
    fun t v id r recv hv hp => hP _ _ (h.answered t v id r recv hv hp)⟩
  · rw [hc, DataCache.getElem?_clear] at he
    cases he
  · rw [hc, DataCache.getElem?_clear] at he
    cases he
  · rw [hbuf]
    rcases hfree t v id r hv hp with hs' | hne
    · exact hP _ _ (h.blocked t v id r hv hp hs')
    · -- a row that no entry refers to is left alone
      have habs : ∀ id' : UInt64, s.cache.entries[id']? ≠ some r := fun id' he => by
        have h1 := (hn.cache.keys id' r he).1
        have h2 := hn.row t v id r hv (by rw [hp]; rfl)
        rw [UInt64.toNat_inj.mp (h1.trans h2.symm)] at he
        exact hne he
      rw [hc, DataCache.clear_rows_of_absent habs] at hs
      exact hP _ _ (h.blocked t v id r hv hp hs)
  · rw [hbuf]
    exact hP _ _ (h.holding t v id r hv hp)

theorem update (h : Rows P s views) {t : Nat} {v : SessView}
    (hheld : ∀ id r, v.phase.row = some (id, r) → s.cache.entries[id]? = some r → (s.cache.rows r).state = .waiting)
    (hb : ∀ id r, v.phase = .blocked id r → (s.cache.rows r).state = .swapped → P id (s.cache.rows r).readBuffer)
    (hh : ∀ id r, v.phase = .holding id r true → P id (s.cache.rows r).readBuffer)
    (ha : ∀ id r recv, v.phase = .answered id r true recv → P id recv) :
    Rows P s (Function.update views t (some v)) := by
  refine ⟨h.table, fun t' w id r hw => ?_, fun t' w id r hw => ?_, fun t' w id r hw => ?_,
    fun t' w id r recv hw => ?_⟩
  · by_cases ht : t' = t
    · rw [ht, Function.update_self] at hw
      cases hw
      exact hheld id r
    · rw [Function.update_of_ne ht] at hw
      exact h.held t' w id r hw
  · by_cases ht : t' = t
    · rw [ht, Function.update_self] at hw
      cases hw
      exact hb id r
    · rw [Function.update_of_ne ht] at hw
      exact h.blocked t' w id r hw
  · by_cases ht : t' = t
    · rw [ht, Function.update_self] at hw
      cases hw
      exact hh id r
    · rw [Function.update_of_ne ht] at hw
      exact h.holding t' w id r hw
  · by_cases ht : t' = t
    · rw [ht, Function.update_self] at hw
      cases hw
      exact ha id r recv
    · rw [Function.update_of_ne ht] at hw
      exact h.answered t' w id r recv hw

theorem exec_same (h : Rows P s views) {t : Nat} {v : SessView} (hc : s'.cache = s.cache)
    (hrow : v.phase.row = none) : Rows P s' (Function.update views t (some v)) := by
  refine (h.same hc fun _ _ h => h).update (fun id r hr => ?_) (fun id r hp => ?_) (fun id r hp => ?_)
    (fun id r recv hp => ?_)
  · rw [hrow] at hr
    cases hr
  all_goals
    rw [hp] at hrow
    cases hrow

theorem exec_queue (h : Rows P s views) (hn : Numbered s views) {now valid : Time} {t : Nat} {v : SessView}
    (hc : s'.cache = (s.cache.queue now valid).2) (hrow : v.phase.row = none)
    (hlt : s'.cache.allocated < 2 ^ 64) : Rows P s' (Function.update views t (some v)) := by
  by_cases hfull : s.cache.maxEntries ≤ s.cache.entries.size
  · rw [DataCache.queue_full hfull] at hc
    exact h.exec_same hc hrow
  · rw [DataCache.queue_open hfull] at hc
    have hid : (s.cache.idCounter + 1).toNat = s.cache.allocated + 1 :=
      hn.cache.toNat_succ (by rw [hc] at hlt; exact hlt)
    have hrows : ∀ r, r ≠ s.cache.allocated → s'.cache.rows r = s.cache.rows r := fun r hr => by
      rw [hc]
      exact Function.update_of_ne hr _ _
    have hnew : (s'.cache.rows s.cache.allocated).state = .queued := by
      rw [hc]
      dsimp only
      rw [Function.update_self]
      rfl
    have hentries : ∀ (id : UInt64) r, s'.cache.entries[id]? = some r →
        (id = s.cache.idCounter + 1 ∧ r = s.cache.allocated) ∨ s.cache.entries[id]? = some r := by
      intro id r he
      rw [hc, ExtTreeMap.getElem?_insert] at he
      split at he
      · rename_i heq
        have hid' : s.cache.idCounter + 1 = id := by simpa using heq
        exact .inl ⟨hid'.symm, by simpa using he.symm⟩
      · exact .inr he
    have hold : ∀ t' w id r, views t' = some w → w.phase.row = some (id, r) → r ≠ s.cache.allocated := by
      intro t' w id r hw hr hra
      have h1 := hn.row t' w id r hw hr
      have h2 := hn.issued t' w id hw (SessPhase.id_of_row hr)
      rw [hra] at h1
      omega
    have hbase : Rows P s' views := by
      refine ⟨fun id r he hst => ?_, fun t' w id r hw hr he => ?_, fun t' w id r hw hp hst => ?_,
        fun t' w id r hw hp => ?_, h.answered⟩
      · rcases hentries id r he with ⟨-, rfl⟩ | he
        · rw [hnew] at hst
          cases hst
        · have hr : r ≠ s.cache.allocated := Nat.ne_of_lt (hn.cache.keys id r he).2
          rw [hrows r hr] at hst ⊢
          exact h.table id r he hst
      · have hra := hold t' w id r hw hr
        rcases hentries id r he with ⟨-, hr'⟩ | he
        · exact absurd hr' hra
        · rw [hrows r hra]
          exact h.held t' w id r hw hr he
      · have hra := hold t' w id r hw (by rw [hp]; rfl)
        rw [hrows r hra] at hst ⊢
        exact h.blocked t' w id r hw hp hst
      · rw [hrows r (hold t' w id r hw (by rw [hp]; rfl))]
        exact h.holding t' w id r hw hp
    exact hbase.exec_same rfl hrow

theorem setWaiting (h : Rows P s views) {r : RowRef} (hc : s'.cache = s.cache.setState r .waiting) :
    Rows P s' views := by
  have hbuf : ∀ r', (s'.cache.rows r').readBuffer = (s.cache.rows r').readBuffer := fun r' => by
    rw [hc]
    by_cases hr : r' = r
    · simp [DataCache.setState, hr]
    · simp [DataCache.setState, hr]
  have hstate : ∀ r', (s'.cache.rows r').state = .swapped → (s.cache.rows r').state = .swapped := fun r' hst => by
    by_cases hr : r' = r
    · simp [hc, DataCache.setState, hr] at hst
    · simpa [hc, DataCache.setState, hr] using hst
  have hwait : ∀ r', (s.cache.rows r').state = .waiting → (s'.cache.rows r').state = .waiting := fun r' hst => by
    by_cases hr : r' = r
    · simp [hc, DataCache.setState, hr]
    · simpa [hc, DataCache.setState, hr] using hst
  have hentries : s'.cache.entries = s.cache.entries := by rw [hc]; rfl
  refine ⟨fun id r' he hst => ?_, fun t v id r' hv hr he => ?_, fun t v id r' hv hp hst => ?_,
    fun t v id r' hv hp => ?_, h.answered⟩
  · rw [hbuf]
    exact h.table id r' (hentries ▸ he) (hstate r' hst)
  · exact hwait r' (h.held t v id r' hv hr (hentries ▸ he))
  · rw [hbuf]
    exact h.blocked t v id r' hv hp (hstate r' hst)
  · rw [hbuf]
    exact h.holding t v id r' hv hp

theorem exec_find (h : Rows P s views) {t : Nat} {call : SessCall} {id : UInt64} {callback : PromiseRef}
    {found : Found} (hf : s.cache.find id = (found, s'.cache)) :
    Rows P s' (Function.update views t
      (some ⟨call, (SessPhase.written id callback).next (.cache (.find id)) found⟩)) := by
  cases he : s.cache.entries[id]? with
  | none =>
    rw [DataCache.find_none he] at hf
    obtain ⟨rfl, hc⟩ := Prod.mk.inj hf
    exact h.exec_same hc.symm rfl
  | some r =>
    by_cases hst : (s.cache.rows r).state = .swapped
    · rw [DataCache.find_swapped he hst] at hf
      obtain ⟨rfl, hc⟩ := Prod.mk.inj hf
      have hrows : s'.cache.rows = s.cache.rows := by rw [← hc]
      have hentries : ∀ (k : UInt64) r', s'.cache.entries[k]? = some r' → s.cache.entries[k]? = some r' ∧ k ≠ id := by
        intro k r' hk
        rw [← hc, ExtTreeMap.getElem?_erase] at hk
        split at hk
        · cases hk
        · rename_i hne
          exact ⟨hk, fun e => hne (by simp [e])⟩
      have hbase : Rows P s' views := h.shrink hrows (fun k r' hk => (hentries k r' hk).1) fun _ _ h => h
      refine hbase.update (fun id' r' hr hk => ?_) (fun id' r' hp => ?_) (fun id' r' hp => ?_) (fun id' r' recv hp => ?_)
      · cases hr
        exact absurd rfl (hentries id r hk).2
      · cases hp
      · cases hp
        rw [hrows]
        exact h.table id r he hst
      · cases hp
    · rw [DataCache.find_waits he hst] at hf
      obtain ⟨rfl, hc⟩ := Prod.mk.inj hf
      have hw : (s'.cache.rows r).state = .waiting := by
        rw [← hc]
        simp [DataCache.setState]
      refine (h.setWaiting hc.symm).update (fun id' r' hr hk => ?_) (fun id' r' hp hs => ?_) (fun id' r' hp => ?_)
        (fun id' r' recv hp => ?_)
      · cases hr
        exact hw
      · cases hp
        rw [hw] at hs
        cases hs
      · cases hp
      · cases hp

theorem exec_await (h : Rows P s views) {t : Nat} {call : SessCall} {id : UInt64} {r : RowRef} {success : Bool}
    (hv : views t = some ⟨call, .blocked id r⟩) (hc : s'.cache = s.cache)
    (hs : success = true → s.cache.awaited r = true) :
    Rows P s' (Function.update views t (some ⟨call, .holding id r success⟩)) := by
  refine (h.same hc fun _ _ h => h).update (fun id' r' hr hk => ?_) (fun id' r' hp => ?_) (fun id' r' hp => ?_)
    (fun id' r' recv hp => ?_)
  · cases hr
    rw [hc] at hk ⊢
    exact h.held t _ id r hv rfl hk
  · cases hp
  · cases hp
    rw [hc]
    exact h.blocked t _ id r hv rfl (of_decide_eq_true (hs rfl))
  · cases hp

theorem exec_take (h : Rows P s views) (hn : Numbered s views) {t : Nat} {call : SessCall} {id : UInt64} {r : RowRef}
    {success : Bool} {buffer recv : Bytes} (hv : views t = some ⟨call, .holding id r success⟩)
    (hc : s.cache.take r buffer = (recv, s'.cache)) :
    Rows P s' (Function.update views t (some ⟨call, .answered id r success recv⟩)) := by
  obtain ⟨hrecv, hc⟩ := Prod.mk.inj hc
  have hentries : s'.cache.entries = s.cache.entries := by rw [← hc]
  have hstate : ∀ r', (s'.cache.rows r').state = (s.cache.rows r').state := fun r' => by
    rw [← hc]
    by_cases hr : r' = r
    · simp [hr]
    · simp [hr]
  have hbuf : ∀ r', r' ≠ r → s'.cache.rows r' = s.cache.rows r' := fun r' hr => by
    rw [← hc]
    exact Function.update_of_ne hr _ _
  have hrow : ∀ t' w id' r', t' ≠ t → views t' = some w → w.phase.row = some (id', r') → r' ≠ r := by
    rintro t' w id' r' ht hw hr rfl
    exact ht (hn.row_distinct hw hv hr rfl).1
  have hbase : Rows P s' (Function.update views t (some ⟨call, .start⟩)) := by
    have key : ∀ t' w, Function.update views t (some ⟨call, .start⟩) t' = some w → w.phase ≠ .start →
        t' ≠ t ∧ views t' = some w := by
      intro t' w hw hne
      by_cases ht : t' = t
      · rw [ht, Function.update_self] at hw
        cases hw
        exact absurd rfl hne
      · rw [Function.update_of_ne ht] at hw
        exact ⟨ht, hw⟩
    refine ⟨fun id' r' he hst => ?_, fun t' w id' r' hw hr he => ?_, fun t' w id' r' hw hp hst => ?_,
      fun t' w id' r' hw hp => ?_, fun t' w id' r' recv' hw hp => ?_⟩
    · rw [hentries] at he
      rw [hstate] at hst
      by_cases hr : r' = r
      · -- the row of a call that has found it is not swapped while it is in the table
        subst hr
        have h1 := (hn.cache.keys id' r' he).1
        have h2 := hn.row t _ id r' hv rfl
        rw [UInt64.toNat_inj.mp (h1.trans h2.symm)] at he
        have hw := h.held t _ id r' hv rfl he
        rw [hst] at hw
        cases hw
      · rw [hbuf r' hr]
        exact h.table id' r' he hst
    · have hne : w.phase ≠ .start := fun e => by rw [e] at hr; cases hr
      obtain ⟨-, hw⟩ := key t' w hw hne
      rw [hstate]
      exact h.held t' w id' r' hw hr (hentries ▸ he)
    · obtain ⟨ht, hw⟩ := key t' w hw (by rw [hp]; simp)
      rw [hstate] at hst
      rw [hbuf r' (hrow t' w id' r' ht hw (by rw [hp]; rfl))]
      exact h.blocked t' w id' r' hw hp hst
    · obtain ⟨ht, hw⟩ := key t' w hw (by rw [hp]; simp)
      rw [hbuf r' (hrow t' w id' r' ht hw (by rw [hp]; rfl))]
      exact h.holding t' w id' r' hw hp
    · obtain ⟨-, hw⟩ := key t' w hw (by rw [hp]; simp)
      exact h.answered t' w id' r' recv' hw hp
  have hnew : Rows P s' (Function.update (Function.update views t (some ⟨call, .start⟩)) t
      (some ⟨call, .answered id r success recv⟩)) := by
    refine hbase.update (fun id' r' hr hk => ?_) (fun id' r' hp => ?_) (fun id' r' hp => ?_) (fun id' r' recv' hp => ?_)
    · cases hr
      rw [hstate]
      exact h.held t _ id r hv rfl (hentries ▸ hk)
    · cases hp
    · cases hp
    · cases hp
      rw [← hrecv]
      exact h.holding t _ id r hv rfl
  rwa [Function.update_idem] at hnew

theorem exec (h : Rows P s views) (hn : Numbered s views) {t : Nat} {o : SessOp} {i : Clock} {r : o.Res}
    {v : SessView} (hv : views t = some v) (hpre : v.phase.Allows v.call o) (hs : o.exec t i s = some (r, s'))
    (hlt : s'.cache.allocated < 2 ^ 64) :
    Rows P s' (Function.update views t (some { v with phase := v.phase.next o r })) := by
  obtain ⟨call, phase⟩ := v
  cases hpre with
  | queue callId body recv valid =>
    obtain ⟨hc, -⟩ := SessOp.exec_cache hs
    refine h.exec_queue hn (congrArg Prod.snd (Option.some.inj hc)).symm ?_ hlt
    simp only [SessPhase.next]
    split <;> rfl
  | find callId body recv id callback =>
    obtain ⟨hc, -⟩ := SessOp.exec_cache hs
    exact h.exec_find (Option.some.inj hc)
  | await callId body recv id row =>
    obtain ⟨hc, -⟩ := SessOp.exec_cache hs
    have hsame : s'.cache = s.cache := CacheOp.eq_after hc
    apply h.exec_await hv hsame
    intro hr
    simp only [CacheOp.exec] at hc
    split at hc
    · assumption
    · split at hc
      · have hf : (false : Bool) = r := (Prod.mk.inj (Option.some.inj hc)).1
        rw [hr] at hf
        cases hf
      · cases hc
  | take callId body recv id row success buffer =>
    obtain ⟨hc, -⟩ := SessOp.exec_cache hs
    exact h.exec_take hn hv (Option.some.inj hc)
  | postSend callId body => exact h.exec_same (SessOp.exec_other (fun o' ho => by cases ho) hs) rfl
  | postRequest callId body recv id => exact h.exec_same (SessOp.exec_other (fun o' ho => by cases ho) hs) rfl
  | waitWritten id callback =>
    refine h.exec_same (SessOp.exec_other (fun o' ho => by cases ho) hs) ?_
    cases r <;> rfl
  | postPing => exact h.exec_same (SessOp.exec_other (fun o' ho => by cases ho) hs) rfl
  | resetPong => exact h.exec_same (SessOp.exec_other (fun o' ho => by cases ho) hs) rfl
  | waitPong => exact h.exec_same (SessOp.exec_other (fun o' ho => by cases ho) hs) rfl

/-- A step of the io thread: every delivery satisfies `P'`, and the table is cleared only while nobody is blocked on
one of its rows. -/
theorem step (h : Rows P s views) (hn : Numbered s views) {funcs : BroadcastFuncs} {e : ClientEvent}
    (hs : s.step funcs e = some s') (hP : ∀ id b, P id b → P' id b)
    (hdeliver : ∀ bytes, e = .onRead false bytes → s.reading = true → IoHeader.size ≤ (s.readBuffer ++ bytes).length →
      funcs (IoHeader.read s.order (s.readBuffer ++ bytes)).callId = none →
      s.cache.entries[(IoHeader.read s.order (s.readBuffer ++ bytes)).resultId]?.isSome = true →
      s'.delivered = s.delivered ++ [(IoHeader.read s.order (s.readBuffer ++ bytes)).resultId] →
      P' (IoHeader.read s.order (s.readBuffer ++ bytes)).resultId ((s.readBuffer ++ bytes).drop IoHeader.size))
    (hclear : ∀ ec bytes, e = .onRead ec bytes → (ec || s.closeReceived) = true → ∀ t v id r, views t = some v →
      v.phase = .blocked id r → (s.cache.rows r).state = .swapped ∨ s.cache.entries[id]? ≠ some r) :
    Rows P' s' views := by
  rcases ClientSession.cache_of_step hs with ⟨hc, -⟩ | ⟨bytes, header, he, hr, hlen, rfl, hf, hc, hd⟩ |
    ⟨ec, bytes, he, hec, hc, -⟩ | ⟨clock, -, hc, -⟩
  · exact h.same hc hP
  · exact h.swapNotify hn hc hP fun hsome => hdeliver bytes he hr hlen hf hsome (by rw [hd, if_pos hsome])
  · exact h.clear hn hc hP (hclear ec bytes he hec)
  · exact h.shrink (by rw [hc]; rfl)
      (fun id r hk => ((DataCache.getElem?_removeObsolete s.cache clock.visit id r).mp (hc ▸ hk)).1) hP

end Rows

end Radrpc
