import Radrpc.Client.Requests

/-!
# A response that was not delivered

`data_cache::clear()` wakes the blocked callers by marking their rows as swapped, which is also what a delivered
response looks like.

* `Unwaited` : the runs in which a lost connection finds nobody blocked on a row of the table;
* `Hears`, `Heard` : a row that a caller can take for swapped has been filled by `swap_notify` for the caller's id;
* `received_of_reach` : along these runs a `send_recv` that returns without an error code has had a response delivered.
-/

namespace Radrpc
open Std Conc

theorem blocked_next {p : SessPool} {views : Nat → Option SessView}
    (hl : Machine.Linked sessDiscipline (fun _ c r v => v.call = c ∧ v.Returns r) p views) {t : Nat} {v : SessView}
    {id : UInt64} {r : RowRef} (hv : views t = some v) (hp : v.phase = .blocked id r) :
    p.next t = some (.cache (.await id r)) := by
  obtain ⟨call, phase⟩ := v
  cases hp
  have hret : ∀ c b, ¬ ((⟨call, .blocked id r⟩ : SessView).call = c ∧ SessView.Returns ⟨call, .blocked id r⟩ b) := by
    rintro c b ⟨hc, hb⟩
    cases b with
    | sent ec => obtain ⟨-, ⟨-, _, h⟩ | ⟨-, _, h⟩⟩ := hb <;> cases h
    | received recv ec id' =>
      obtain ⟨_, _, _, -, ⟨h, -⟩ | ⟨⟨_, h⟩, -⟩ | ⟨h, -⟩ | ⟨_, _, h, -⟩⟩ := hb <;> cases h
    | pinged b => cases hb.2
  obtain ⟨o, ho, hpre⟩ := hl.pending hv hret
  cases hpre
  exact ho

/-- When the connection is lost, nobody is blocked on a row that is still in the table. -/
def Unwaited (p : SessPool) : Act SessCall Clock ClientEvent → Prop
  | .env (.onRead ec _) => (ec || p.shared.closeReceived) = true → ∀ t id r,
      p.next t = some (.cache (.await id r)) → (p.shared.cache.rows r).state = .swapped ∨
        p.shared.cache.entries[id]? ≠ some r
  | _ => True

/-! ## What a call has heard -/

/-- The row of a call is in the table under its own id only, and looks swapped only after a delivery for that id. -/
structure Hears (s : ClientSession) (v : SessView) : Prop where
  row : ∀ id r, v.phase.row = some (id, r) → r < s.cache.allocated ∧
    ∀ id' : UInt64, s.cache.entries[id']? = some r → id' = id
  blocked : ∀ id r, v.phase = .blocked id r → (s.cache.rows r).state = .swapped → id ∈ s.delivered
  holding : ∀ id r, v.phase = .holding id r true → id ∈ s.delivered
  answered : ∀ id r recv, v.phase = .answered id r true recv → id ∈ s.delivered

/-- A row is in the table once, and looks swapped only after a delivery for its id; every call hears of deliveries. -/
structure Heard (s : ClientSession) (views : Nat → Option SessView) : Prop where
  fresh : ∀ (id : UInt64) r, s.cache.entries[id]? = some r → r < s.cache.allocated
  single : ∀ (id id' : UInt64) r, s.cache.entries[id]? = some r → s.cache.entries[id']? = some r → id = id'
  table : ∀ (id : UInt64) r, s.cache.entries[id]? = some r → (s.cache.rows r).state = .swapped → id ∈ s.delivered
  views : ∀ t v, views t = some v → Hears s v

namespace Hears

variable {s s' : ClientSession} {v : SessView}

theorem of_no_row (h : v.phase.row = none) : Hears s v := by
  refine ⟨fun id r hr => ?_, fun id r hp => ?_, fun id r hp => ?_, fun id r recv hp => ?_⟩
  · rw [h] at hr
    cases hr
  all_goals
    rw [hp] at h
    cases h

theorem fade (h : Hears s v) (ha : s.cache.allocated ≤ s'.cache.allocated)
    (he : ∀ (id : UInt64) r, r < s.cache.allocated → s'.cache.entries[id]? = some r → s.cache.entries[id]? = some r)
    (hr : ∀ r, r < s.cache.allocated → (s'.cache.rows r).state = .swapped → (s.cache.rows r).state = .swapped)
    (hd : ∀ id ∈ s.delivered, id ∈ s'.delivered) : Hears s' v := by
  refine ⟨fun id r hrow => ?_, fun id r hp hs => ?_, fun id r hp => hd id (h.holding id r hp),
    fun id r recv hp => hd id (h.answered id r recv hp)⟩
  · obtain ⟨hlt, huniq⟩ := h.row id r hrow
    exact ⟨hlt.trans_le ha, fun id' he' => huniq id' (he id' r hlt he')⟩
  · have hlt := (h.row id r (by rw [hp]; rfl)).1
    exact hd id (h.blocked id r hp (hr r hlt hs))

end Hears

namespace Heard

variable {s s' : ClientSession} {views : Nat → Option SessView}

theorem start {s : ClientSession} (hc : ∀ id : UInt64, s.cache.entries[id]? = none) : Heard s fun _ => none :=
  ⟨fun id r h => (by rw [hc id] at h; cases h), fun id _ r h => (by rw [hc id] at h; cases h),
    fun id r h => (by rw [hc id] at h; cases h), fun _ _ h => (by cases h)⟩

theorem update (h : Heard s views) {t : Nat} {w : SessView} (hw : Hears s w) :
    Heard s (Function.update views t (some w)) := by
  refine ⟨h.fresh, h.single, h.table, fun t' v hv => ?_⟩
  rcases view_of_update hv with ⟨-, rfl⟩ | ⟨-, hv⟩
  · exact hw
  · exact h.views t' v hv

theorem shrink (h : Heard s views) (ha : s'.cache.allocated = s.cache.allocated)
    (he : ∀ (id : UInt64) r, s'.cache.entries[id]? = some r → s.cache.entries[id]? = some r)
    (hr : ∀ r, (s'.cache.rows r).state = .swapped → (s.cache.rows r).state = .swapped)
    (hd : s'.delivered = s.delivered) : Heard s' views := by
  refine ⟨fun id r h1 => ha ▸ h.fresh id r (he id r h1), fun id id' r h1 h2 => h.single id id' r (he id r h1) (he id' r h2),
    fun id r h1 h2 => hd ▸ h.table id r (he id r h1) (hr r h2), fun t v hv => ?_⟩
  exact (h.views t v hv).fade ha.ge (fun id r _ => he id r) (fun r _ => hr r) fun id hm => hd ▸ hm

theorem same (h : Heard s views) (hc : s'.cache = s.cache) (hd : s'.delivered = s.delivered) : Heard s' views := by
  refine h.shrink ?_ ?_ ?_ hd
  · rw [hc]
  · rw [hc]
    exact fun _ _ h => h
  · rw [hc]
    exact fun _ h => h

theorem queue (h : Heard s views) {now valid : Time} (hc : s'.cache = (s.cache.queue now valid).2)
    (hd : s'.delivered = s.delivered) : Heard s' views := by
  by_cases hfull : s.cache.maxEntries ≤ s.cache.entries.size
  · rw [DataCache.queue_full hfull] at hc
    exact h.same hc hd
  rw [DataCache.queue_open hfull] at hc
  have hentry : ∀ (id : UInt64) r, s'.cache.entries[id]? = some r →
      (s.cache.idCounter + 1 = id ∧ r = s.cache.allocated) ∨ s.cache.entries[id]? = some r := by
    intro id r he
    rw [hc, ExtTreeMap.getElem?_insert] at he
    split at he
    · rename_i heq
      exact .inl ⟨by simpa using heq, (Option.some.inj he).symm⟩
    · exact .inr he
  have hnew : (s'.cache.rows s.cache.allocated).state ≠ .swapped := by
    rw [hc]
    dsimp only
    rw [Function.update_self]
    simp [DataRead.new]
  have hold : ∀ r, r < s.cache.allocated → s'.cache.rows r = s.cache.rows r := by
    intro r hlt
    rw [hc]
    exact Function.update_of_ne (Nat.ne_of_lt hlt) _ _
  have ha : s'.cache.allocated = s.cache.allocated + 1 := by rw [hc]
  refine ⟨fun id r he => ?_, fun id id' r h1 h2 => ?_, fun id r he hs => ?_, fun t v hv => ?_⟩
  · rw [ha]
    rcases hentry id r he with ⟨-, rfl⟩ | he
    · exact Nat.lt_succ_self _
    · exact Nat.lt_succ_of_lt (h.fresh id r he)
  · rcases hentry id r h1 with ⟨hid, rfl⟩ | h1
    · rcases hentry id' _ h2 with ⟨hid', -⟩ | h2
      · exact hid.symm.trans hid'
      · exact absurd (h.fresh id' _ h2) (Nat.lt_irrefl _)
    · rcases hentry id' r h2 with ⟨-, rfl⟩ | h2
      · exact absurd (h.fresh id _ h1) (Nat.lt_irrefl _)
      · exact h.single id id' r h1 h2
  · rcases hentry id r he with ⟨-, rfl⟩ | he
    · exact absurd hs hnew
    · rw [hold r (h.fresh id r he)] at hs
      exact hd ▸ h.table id r he hs
  · refine (h.views t v hv).fade (ha ▸ Nat.le_succ _) (fun id r hlt he => ?_) (fun r hlt hs => ?_) fun id hm => hd ▸ hm
    · rcases hentry id r he with ⟨-, rfl⟩ | he
      · exact absurd hlt (Nat.lt_irrefl _)
      · exact he
    · rwa [hold r hlt] at hs

theorem swapNotify (h : Heard s views) {id : UInt64} {buffer : Bytes}
    (hc : s'.cache = (s.cache.swapNotify id buffer).2)
    (hd : s'.delivered = if s.cache.entries[id]?.isSome then s.delivered ++ [id] else s.delivered) :
    Heard s' views := by
  cases he : s.cache.entries[id]? with
  | none =>
    rw [DataCache.swapNotify_none he] at hc
    rw [he] at hd
    exact h.same hc hd
  | some r₀ =>
    rw [he] at hd
    have hnew : id ∈ s'.delivered := by
      rw [hd]
      exact List.mem_append_right _ (List.mem_singleton_self _)
    have hmore : ∀ id ∈ s.delivered, id ∈ s'.delivered := by
      rw [hd]
      exact fun id hm => List.mem_append_left _ hm
    have ha : s'.cache.allocated = s.cache.allocated := by rw [hc, DataCache.swapNotify_allocated]
    have hold : ∀ (id' : UInt64) r, s'.cache.entries[id']? = some r → s.cache.entries[id']? = some r := by
      rw [hc]
      exact fun id' r h => DataCache.getElem?_of_swapNotify h
    have hother : ∀ r, r ≠ r₀ → s'.cache.rows r = s.cache.rows r := fun r hr => by
      rw [hc, DataCache.swapNotify_rows he, Function.update_of_ne hr]
    refine ⟨fun id' r h1 => ha ▸ h.fresh id' r (hold id' r h1),
      fun id₁ id₂ r h1 h2 => h.single id₁ id₂ r (hold id₁ r h1) (hold id₂ r h2), fun id' r h1 hs => ?_,
      fun t v hv => ?_⟩
    · by_cases hr : r = r₀
      · subst hr
        rw [h.single id' id r (hold id' r h1) he]
        exact hnew
      · rw [hother r hr] at hs
        exact hmore id' (h.table id' r (hold id' r h1) hs)
    · have hv' := h.views t v hv
      refine ⟨fun id' r hrow => ?_, fun id' r hp hs => ?_, fun id' r hp => hmore id' (hv'.holding id' r hp),
        fun id' r recv hp => hmore id' (hv'.answered id' r recv hp)⟩
      · obtain ⟨hlt, huniq⟩ := hv'.row id' r hrow
        exact ⟨ha ▸ hlt, fun id'' h1 => huniq id'' (hold id'' r h1)⟩
      · by_cases hr : r = r₀
        · subst hr
          rw [← (hv'.row id' r (by rw [hp]; rfl)).2 id he]
          exact hnew
        · rw [hother r hr] at hs
          exact hmore id' (hv'.blocked id' r hp hs)

theorem clear (h : Heard s views) (hc : s'.cache = s.cache.clear) (hd : s'.delivered = s.delivered)
    (hfree : ∀ t v id r, views t = some v → v.phase = .blocked id r → (s.cache.rows r).state = .swapped ∨
      s.cache.entries[id]? ≠ some r) : Heard s' views := by
  have hnone : ∀ (id : UInt64) r, s'.cache.entries[id]? ≠ some r := by
    intro id r he
    rw [hc, DataCache.getElem?_clear] at he
    cases he
  refine ⟨fun id r he => absurd he (hnone id r), fun id _ r he => absurd he (hnone id r),
    fun id r he => absurd he (hnone id r), fun t v hv => ?_⟩
  have hv' := h.views t v hv
  refine ⟨fun id r hrow => ⟨?_, fun id' he => absurd he (hnone id' r)⟩, fun id r hp hs => ?_, hd ▸ hv'.holding,
    hd ▸ hv'.answered⟩
  · rw [hc, DataCache.clear_allocated]
    exact (hv'.row id r hrow).1
  · rw [hd]
    rcases hfree t v id r hv hp with hs' | hne
    · exact hv'.blocked id r hp hs'
    · -- a row that no entry refers to is left alone
      have habs : ∀ id' : UInt64, s.cache.entries[id']? ≠ some r := fun id' he => by
        rw [(hv'.row id r (by rw [hp]; rfl)).2 id' he] at he
        exact hne he
      rw [hc, DataCache.clear_rows_of_absent habs] at hs
      exact hv'.blocked id r hp hs

theorem exec (h : Heard s views) {t : Nat} {o : SessOp} {i : Clock} {r : o.Res} {v : SessView}
    (hv : views t = some v) (hpre : v.phase.Allows v.call o) (hs : o.exec t i s = some (r, s')) :
    Heard s' (Function.update views t (some { v with phase := v.phase.next o r })) := by
  have hd : s'.delivered = s.delivered := by
    obtain ⟨_, _, _, _, _, rfl⟩ := SessOp.exec_frame hs
    rfl
  have hv' := h.views t v hv
  obtain ⟨call, phase⟩ := v
  dsimp only at hpre hv' ⊢
  cases hpre with
  | queue callId body recv valid =>
    obtain ⟨hc, -⟩ := SessOp.exec_cache hs
    have hq : s.cache.queue i.now valid = (r, s'.cache) := Option.some.inj hc
    refine (h.queue (congrArg Prod.snd hq).symm hd).update (.of_no_row ?_)
    simp only [SessPhase.next]
    split <;> rfl
  | find callId body recv id callback =>
    obtain ⟨hc, -⟩ := SessOp.exec_cache hs
    have hf : s.cache.find id = (r, s'.cache) := Option.some.inj hc
    cases he : s.cache.entries[id]? with
    | none =>
      rw [DataCache.find_none he] at hf
      obtain ⟨hr, hc'⟩ := Prod.mk.inj hf
      subst hr
      exact (h.same hc'.symm hd).update (.of_no_row rfl)
    | some row =>
      by_cases hst : (s.cache.rows row).state = .swapped
      · rw [DataCache.find_swapped he hst] at hf
        obtain ⟨hr, hc'⟩ := Prod.mk.inj hf
        subst hr
        have herase : ∀ (id' : UInt64) r, s'.cache.entries[id']? = some r → s.cache.entries[id']? = some r := by
          intro id' r he'
          rw [← hc', ExtTreeMap.getElem?_erase] at he'
          split at he'
          · cases he'
          · exact he'
        have h' : Heard s' views := h.shrink (by rw [← hc']) herase (by rw [← hc']; exact fun _ h => h) hd
        have hid : id ∈ s'.delivered := hd ▸ h.table id row he hst
        refine h'.update ⟨fun id' r hrow => ?_, fun id' r hp => (by cases hp), fun id' r hp => ?_,
          fun id' r recv hp => (by cases hp)⟩
        · cases hrow
          exact ⟨by rw [← hc']; exact h.fresh id row he, fun id' he' => h.single id' id row (herase id' row he') he⟩
        · cases hp
          exact hid
      · rw [DataCache.find_waits he hst] at hf
        obtain ⟨hr, hc'⟩ := Prod.mk.inj hf
        subst hr
        have hself : (s'.cache.rows row).state = .waiting := by
          rw [← hc', DataCache.setState]
          dsimp only
          rw [Function.update_self]
        have hrows : ∀ r, (s'.cache.rows r).state = .swapped → (s.cache.rows r).state = .swapped := by
          intro r hs'
          by_cases hr : r = row
          · rw [hr, hself] at hs'
            cases hs'
          · rw [← hc', DataCache.setState] at hs'
            dsimp only at hs'
            rwa [Function.update_of_ne hr] at hs'
        have hentries : s'.cache.entries = s.cache.entries := by rw [← hc']; rfl
        have h' : Heard s' views := h.shrink (by rw [← hc']; rfl) (by rw [hentries]; exact fun _ _ h => h) hrows hd
        refine h'.update ⟨fun id' r hrow => ?_, fun id' r hp hs' => ?_, fun id' r hp => (by cases hp),
          fun id' r recv hp => (by cases hp)⟩
        · cases hrow
          rw [hentries]
          exact ⟨by rw [← hc']; exact h.fresh id row he, fun id' he' => h.single id' id row he' he⟩
        · cases hp
          rw [hself] at hs'
          cases hs'
  | await callId body recv id row =>
    obtain ⟨hc, -⟩ := SessOp.exec_cache hs
    have hc' : s'.cache = s.cache := CacheOp.eq_after hc
    refine (h.same hc' hd).update ⟨fun id' r' hrow => ?_, fun id' r' hp => (by cases hp), fun id' r' hp => ?_,
      fun id' r' recv hp => (by cases hp)⟩
    · cases hrow
      rw [hc']
      exact hv'.row id row rfl
    · cases hp
      rw [hd]
      apply hv'.blocked id row rfl
      simp only [CacheOp.exec] at hc
      split at hc
      · rename_i haw
        exact of_decide_eq_true haw
      · split at hc
        · cases hc
        · cases hc
  | take callId body recv id row success buffer =>
    obtain ⟨hc, -⟩ := SessOp.exec_cache hs
    have hc' : s'.cache = (s.cache.take row buffer).2 := CacheOp.eq_after hc
    have hrows : ∀ r, (s'.cache.rows r).state = .swapped → (s.cache.rows r).state = .swapped := by
      intro r hs'
      rw [hc', DataCache.take] at hs'
      dsimp only at hs'
      by_cases hr : r = row
      · rw [hr, Function.update_self] at hs'
        rw [hr]
        exact hs'
      · rwa [Function.update_of_ne hr] at hs'
    have hentries : s'.cache.entries = s.cache.entries := by rw [hc']; rfl
    have ha : s'.cache.allocated = s.cache.allocated := by rw [hc']; rfl
    have h' : Heard s' views := h.shrink ha (by rw [hentries]; exact fun _ _ h => h) hrows hd
    refine h'.update ⟨fun id' r' hrow => ?_, fun id' r' hp => (by cases hp), fun id' r' hp => (by cases hp),
      fun id' r' recv' hp => ?_⟩
    · cases hrow
      rw [hentries, ha]
      exact hv'.row id row rfl
    · cases hp
      rw [hd]
      exact hv'.holding id row rfl
  | waitWritten id callback =>
    refine (h.same (SessOp.exec_other (fun o' ho => (by cases ho)) hs) hd).update (.of_no_row ?_)
    cases r <;> rfl
  | postSend callId body =>
    exact (h.same (SessOp.exec_other (fun o' ho => (by cases ho)) hs) hd).update (.of_no_row rfl)
  | postRequest callId body recv id =>
    exact (h.same (SessOp.exec_other (fun o' ho => (by cases ho)) hs) hd).update (.of_no_row rfl)
  | postPing => exact (h.same (SessOp.exec_other (fun o' ho => (by cases ho)) hs) hd).update (.of_no_row rfl)
  | resetPong => exact (h.same (SessOp.exec_other (fun o' ho => (by cases ho)) hs) hd).update (.of_no_row rfl)
  | waitPong => exact (h.same (SessOp.exec_other (fun o' ho => (by cases ho)) hs) hd).update (.of_no_row rfl)

theorem step (h : Heard s views) {funcs : BroadcastFuncs} {e : ClientEvent} (hs : s.step funcs e = some s')
    (hfree : ∀ ec bytes, e = .onRead ec bytes → (ec || s.closeReceived) = true → ∀ t v id r, views t = some v →
      v.phase = .blocked id r → (s.cache.rows r).state = .swapped ∨ s.cache.entries[id]? ≠ some r) : Heard s' views := by
  rcases ClientSession.cache_of_step hs with ⟨hc, hd⟩ | ⟨bytes, header, -, -, -, -, -, hc, hd⟩ |
    ⟨ec, bytes, he, hec, hc, hd⟩ | ⟨clock, -, hc, hd⟩
  · exact h.same hc hd
  · exact h.swapNotify hc hd
  · exact h.clear hc hd (hfree ec bytes he hec)
  · refine h.shrink ?_ (fun id r he => ?_) ?_ hd
    · rw [hc]
      rfl
    · rw [hc] at he
      exact ((DataCache.getElem?_removeObsolete s.cache clock.visit id r).mp he).1
    · rw [hc]
      exact fun _ h => h

end Heard

theorem heard_of_reach {funcs : BroadcastFuncs} {responseTimeout : Time} {o : Words.ByteOrder} {p : SessPool}
    (hp : (sessionMachine funcs responseTimeout).Reach Unwaited (.established o) p) :
    ∃ views, Heard p.shared views ∧
      Machine.Linked sessDiscipline (fun _ c r v => v.call = c ∧ v.Returns r) p views := by
  refine Machine.sound (fun _ c => ⟨c, .start⟩) ?_ (fun _ c => sessCall_ok responseTimeout c) ?_ ?_ ?_ hp
  · exact .start fun id => by simp [ClientSession.established, ClientSession.read, DataCache.new]
  · exact fun p views t c _ _ hinv _ _ => hinv.update (.of_no_row rfl)
  · exact fun p views t i o v r s' _ _ hinv _ _ hv hpre hex => hinv.exec hv hpre hex
  · intro p views e s' _ hl hinv hG he
    apply hinv.step he
    intro ec bytes hev hec t v id r hv hb
    subst hev
    exact hG hec t id r (blocked_next hl hv hb)

theorem received_of_reach {funcs : BroadcastFuncs} {responseTimeout : Time} {o : Words.ByteOrder} {p : SessPool}
    (hp : (sessionMachine funcs responseTimeout).Reach Unwaited (.established o) p) {t : Nat} {callId : UInt32}
    {body recv recv' : Bytes} {id : UInt64}
    (h : p.result t = some (.sendRecv callId body recv, .received recv' none id)) : id ∈ p.shared.delivered := by
  obtain ⟨views, hinv, hl⟩ := heard_of_reach hp
  obtain ⟨v, hv, hcall, hret⟩ := hl.ok (Machine.result_eq_some h)
  obtain ⟨_, _, _, -, ⟨-, -, hec, -⟩ | ⟨-, -, hec⟩ | ⟨-, -, hec⟩ | ⟨row, success, hphase, hec⟩⟩ := hret
  · cases hec
  · cases hec
  · cases hec
  · cases success with
    | false => cases hec
    | true => exact (hinv.views t v hv).answered id row recv' hphase

end Radrpc
