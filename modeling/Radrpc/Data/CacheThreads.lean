import Radrpc.Data.Cache
import Radrpc.Lib.Threads

/-!
# Threads on the cache

`wait()` is a program of three critical sections: it looks its row up under the table lock, blocks on the condition
variable of the row, and swaps the buffers. `cacheMachine` runs any number of such calls against `queue`,
`swap_notify`, `remove_obsolete` and `clear`.

* `waiter_stays_reachable` : as long as `remove_obsolete` only meets waited-on and swapped rows that are still valid,
  and no id is handed out while it is still in the table, a blocked waiter's row stays in the table, and a
  `swap_notify` of its id or a `clear` wakes it;
* `waiter_lost` : a waiter whose timeout is longer than the validity of its row loses the row to `remove_obsolete`.
-/

namespace Radrpc
open Std Conc

/-- The critical sections of `data_cache`. -/
inductive CacheOp where
  | queue (valid : Time)
  | find (id : UInt64)
  | await (id : UInt64) (row : RowRef)
  | take (row : RowRef) (buffer : Bytes)
  | swapNotify (id : UInt64) (buffer : Bytes)
  | removeObsolete
  | clear
  deriving DecidableEq, Repr

namespace CacheOp

abbrev Res : CacheOp → Type
  | .queue _ => UInt64
  | .find _ => Found
  | .await _ _ => Bool
  | .take _ _ => Bytes
  | .swapNotify _ _ => Bytes
  | .removeObsolete => Unit
  | .clear => Unit

end CacheOp

instance (o : CacheOp) : Nonempty o.Res := by
  cases o with
  | find id => exact ⟨Found.invalid⟩
  | await id row => exact ⟨false⟩
  | queue valid => exact ⟨(0 : UInt64)⟩
  | take row buffer => exact ⟨([] : Bytes)⟩
  | swapNotify id buffer => exact ⟨([] : Bytes)⟩
  | removeObsolete => exact ⟨()⟩
  | clear => exact ⟨()⟩

/-- What the clock decides during a step: the time, whether a timed wait has run out, and the time at which
`remove_obsolete` visits each row. -/
structure Clock where
  now : Time := 0
  timeout : Bool := false
  visit : UInt64 → Time := fun _ => 0

/-- One critical section. A blocked wait goes on when its predicate holds or its time has run out. -/
def CacheOp.exec : (o : CacheOp) → Clock → DataCache → Option (o.Res × DataCache)
  | .queue valid, i, c => some (c.queue i.now valid)
  | .find id, _, c => some (c.find id)
  | .await _ r, i, c => if c.awaited r then some (true, c) else if i.timeout then some (false, c) else none
  | .take r buffer, _, c => some (c.take r buffer)
  | .swapNotify id buffer, _, c => some (c.swapNotify id buffer)
  | .removeObsolete, i, c => some ((), c.removeObsolete i.visit)
  | .clear, _, c => some ((), c.clear)

/-- The cache that a critical section leaves. -/
def CacheOp.after : CacheOp → Clock → DataCache → DataCache
  | .queue valid, i, c => (c.queue i.now valid).2
  | .find id, _, c => (c.find id).2
  | .await _ _, _, c => c
  | .take r buffer, _, c => (c.take r buffer).2
  | .swapNotify id buffer, _, c => (c.swapNotify id buffer).2
  | .removeObsolete, i, c => c.removeObsolete i.visit
  | .clear, _, c => c.clear

theorem CacheOp.eq_after {o : CacheOp} {i : Clock} {c c' : DataCache} {r : o.Res} (h : o.exec i c = some (r, c')) :
    c' = o.after i c := by
  cases o with
  | await id row =>
    simp only [CacheOp.exec] at h
    split at h
    · exact (Prod.mk.inj (Option.some.inj h)).2.symm
    · split at h
      · exact (Prod.mk.inj (Option.some.inj h)).2.symm
      · cases h
  | _ => exact (congrArg Prod.snd (Option.some.inj h)).symm

abbrev CacheProg := Prog CacheOp CacheOp.Res

abbrev CacheOp.run (o : CacheOp) : CacheProg o.Res := Prog.perform o

/-- `wait(id, timeout, row)` : whether the data was received, and the row if there is one. -/
def waitRow (id : UInt64) : CacheProg (Bool × Option RowRef) := do
  let found : Found ← CacheOp.run (.find id)
  match found with
  | .invalid => return (false, none)
  | .ready row => return (true, some row)
  | .blocked row =>
    let success : Bool ← CacheOp.run (.await id row)
    return (success, some row)

/-- `wait(id, timeout, buffer)` : whether the data was received, and what the caller's buffer holds. -/
def wait (id : UInt64) (buffer : Bytes) : CacheProg (Bool × Bytes) := do
  let (success, row) ← waitRow id
  match row with
  | some r =>
    let buffer : Bytes ← CacheOp.run (.take r buffer)
    return (success, buffer)
  | none => return (success, buffer)

/-- The public calls. -/
inductive CacheCall where
  | queue (valid : Time)
  | wait (id : UInt64) (buffer : Bytes)
  | waitRow (id : UInt64)
  | swapNotify (id : UInt64) (buffer : Bytes)
  | removeObsolete
  | clear

/-- What they return. -/
inductive CacheRet where
  | id (id : UInt64)
  | waited (success : Bool) (buffer : Bytes)
  | waitedRow (success : Bool) (row : Option RowRef)
  | buffer (buffer : Bytes)
  | done
  deriving DecidableEq, Repr

def CacheCall.body : CacheCall → CacheProg CacheRet
  | .queue valid => do
    let id : UInt64 ← CacheOp.run (.queue valid)
    return .id id
  | .wait id buffer => do
    let (success, buffer) ← Radrpc.wait id buffer
    return .waited success buffer
  | .waitRow id => do
    let (success, row) ← Radrpc.waitRow id
    return .waitedRow success row
  | .swapNotify id buffer => do
    let rest : Bytes ← CacheOp.run (.swapNotify id buffer)
    return .buffer rest
  | .removeObsolete => do
    CacheOp.run .removeObsolete
    return .done
  | .clear => do
    CacheOp.run .clear
    return .done

/-- Calls on one cache, in any interleaving of their critical sections. -/
def cacheMachine : Machine DataCache CacheCall CacheOp CacheOp.Res CacheRet Clock Empty where
  body := CacheCall.body
  exec := fun _ => CacheOp.exec
  env := fun e _ => nomatch e

abbrev CachePool := Pool DataCache CacheCall CacheOp CacheOp.Res CacheRet

/-- Thread `t` is blocked in `wait(id)` on the row `r`. -/
def BlockedOn (p : CachePool) (t : Nat) (id : UInt64) (r : RowRef) : Prop := p.next t = some (.await id r)

/-- The steps that respect the rows somebody needs: `remove_obsolete` finds every row that is waited on or swapped
still valid, and `queue` does not hand out an id that is still in the table. -/
def Timely (p : CachePool) : Act CacheCall Clock Empty → Prop
  | .op t i =>
    (p.next t = some .removeObsolete → ∀ (id : UInt64) r, p.shared.entries[id]? = some r →
      ((p.shared.rows r).state = .swapped ∨ ∃ t', BlockedOn p t' id r) →
      (p.shared.rows r).valid (i.visit id) = true) ∧
    (∀ valid, p.next t = some (.queue valid) → p.shared.entries[p.shared.idCounter + 1]? = none)
  | _ => True

/-! ## The discipline of a waiter -/

/-- Whether a thread is blocked, and on which row. -/
inductive WaitView where
  | free
  | blocked (id : UInt64) (row : RowRef)

/-- A thread awaits the row that the lookup gave it, and nothing else meanwhile. -/
def waitDiscipline : Discipline CacheOp CacheOp.Res WaitView where
  pre
    | .blocked id r, o => o = .await id r
    | .free, o => ∀ id r, o ≠ .await id r
  post
    | _, .find id, .blocked r => .blocked id r
    | _, _, _ => .free

theorem waitRow_ok (id : UInt64) :
    waitDiscipline.Ok (fun _ v => v = .free) .free (waitRow id) := by
  refine ⟨fun _ _ h => (by cases h), fun found => ?_⟩
  cases found with
  | invalid => rfl
  | ready row => rfl
  | blocked row => exact ⟨rfl, fun _ => rfl⟩

theorem wait_ok (id : UInt64) (buffer : Bytes) :
    waitDiscipline.Ok (fun _ v => v = .free) .free (wait id buffer) := by
  apply (waitRow_ok id).bind
  intro x w hw
  subst hw
  obtain ⟨success, row⟩ := x
  cases row with
  | none => rfl
  | some r => exact ⟨fun _ _ h => (by cases h), fun _ => rfl⟩

theorem cacheCall_ok (c : CacheCall) : waitDiscipline.Ok (fun _ v => v = .free) .free c.body := by
  cases c with
  | wait id buffer => exact (wait_ok id buffer).bind fun _ _ hw => hw
  | waitRow id => exact (waitRow_ok id).bind fun _ _ hw => hw
  | queue valid => exact ⟨fun _ _ h => (by cases h), fun _ => rfl⟩
  | swapNotify id buffer => exact ⟨fun _ _ h => (by cases h), fun _ => rfl⟩
  | removeObsolete => exact ⟨fun _ _ h => (by cases h), fun _ => rfl⟩
  | clear => exact ⟨fun _ _ h => (by cases h), fun _ => rfl⟩

/-! ## The rows of blocked waiters -/

/-- A waiter on row `r` under `id` can still be reached. -/
def Reachable (c : DataCache) (id : UInt64) (r : RowRef) : Prop :=
  r < c.allocated ∧ ((c.rows r).state = .swapped ∨ c.entries[id]? = some r)

def Allocated (c : DataCache) : Prop := ∀ (id : UInt64) r, c.entries[id]? = some r → r < c.allocated

theorem Allocated.new (n : Nat) : Allocated (.new n) := by
  intro id r h
  simp [DataCache.new] at h

theorem Allocated.queue {c : DataCache} (hc : Allocated c) (now valid : Time) : Allocated (c.queue now valid).2 := by
  by_cases hfull : c.maxEntries ≤ c.entries.size
  · rwa [DataCache.queue_full hfull]
  · rw [DataCache.queue_open hfull]
    intro id r h
    rw [ExtTreeMap.getElem?_insert] at h
    split at h
    · obtain rfl : c.allocated = r := by simpa using h
      exact Nat.lt_succ_self _
    · exact Nat.lt_succ_of_lt (hc id r h)

theorem Allocated.find {c : DataCache} (hc : Allocated c) (id : UInt64) : Allocated (c.find id).2 := by
  cases h : c.entries[id]? with
  | none => rwa [DataCache.find_none h]
  | some r =>
    by_cases hs : (c.rows r).state = .swapped
    · rw [DataCache.find_swapped h hs]
      intro id' r' h'
      rw [ExtTreeMap.getElem?_erase] at h'
      split at h'
      · cases h'
      · exact hc id' r' h'
    · rw [DataCache.find_waits h hs]
      exact hc

theorem Allocated.after {c : DataCache} (hc : Allocated c) (o : CacheOp) (i : Clock) : Allocated (o.after i c) := by
  cases o with
  | queue valid => exact hc.queue i.now valid
  | find id => exact hc.find id
  | await id row => exact hc
  | take row buffer => exact hc
  | swapNotify id buffer =>
    intro id' r' h'
    simp only [CacheOp.after, DataCache.swapNotify_allocated]
    exact hc id' r' (DataCache.getElem?_of_swapNotify h')
  | removeObsolete =>
    intro id' r' h'
    exact hc id' r' ((DataCache.getElem?_removeObsolete c i.visit id' r').mp h').1
  | clear =>
    intro id' r' h'
    simp only [CacheOp.after, DataCache.getElem?_clear] at h'
    cases h'

theorem CacheOp.getElem?_of_after {o : CacheOp} {i : Clock} {c : DataCache} {k : UInt64} {r : RowRef}
    (h : (o.after i c).entries[k]? = some r) :
    c.entries[k]? = some r ∨ ((∃ valid, o = .queue valid) ∧ k = c.idCounter + 1 ∧ r = c.allocated) := by
  cases o with
  | queue valid =>
    by_cases hfull : c.maxEntries ≤ c.entries.size
    · rw [CacheOp.after, DataCache.queue_full hfull] at h
      exact .inl h
    · simp only [CacheOp.after, DataCache.queue_open hfull, ExtTreeMap.getElem?_insert] at h
      split at h
      · rename_i hk
        exact .inr ⟨⟨valid, rfl⟩, (compare_eq_iff_eq.mp hk).symm, (Option.some.inj h).symm⟩
      · exact .inl h
  | find id =>
    left
    cases he : c.entries[id]? with
    | none => rwa [CacheOp.after, DataCache.find_none he] at h
    | some r₀ =>
      by_cases hs : (c.rows r₀).state = .swapped
      · simp only [CacheOp.after, DataCache.find_swapped he hs, ExtTreeMap.getElem?_erase] at h
        split at h
        · cases h
        · exact h
      · rwa [CacheOp.after, DataCache.find_waits he hs] at h
  | await id row => exact .inl h
  | take row buffer => exact .inl h
  | swapNotify id buffer => exact .inl (DataCache.getElem?_of_swapNotify h)
  | removeObsolete => exact .inl ((DataCache.getElem?_removeObsolete c i.visit k r).mp h).1
  | clear =>
    rw [CacheOp.after, DataCache.getElem?_clear] at h
    cases h

theorem CacheOp.allocated_le (o : CacheOp) (i : Clock) (c : DataCache) : c.allocated ≤ (o.after i c).allocated := by
  cases o with
  | queue valid =>
    by_cases hfull : c.maxEntries ≤ c.entries.size
    · simp [CacheOp.after, DataCache.queue_full hfull]
    · simp [CacheOp.after, DataCache.queue_open hfull]
  | find id =>
    simp only [CacheOp.after, DataCache.find]
    split
    · rfl
    · split <;> exact Nat.le_refl _
  | swapNotify id buffer => simp [CacheOp.after]
  | clear => simp [CacheOp.after]
  | _ => exact Nat.le_refl _

theorem CacheOp.swapped_after (o : CacheOp) (i : Clock) {c : DataCache} {r : RowRef} (hr : r < c.allocated)
    (hs : (c.rows r).state = .swapped) : ((o.after i c).rows r).state = .swapped := by
  cases o with
  | queue valid =>
    by_cases hfull : c.maxEntries ≤ c.entries.size
    · simpa [CacheOp.after, DataCache.queue_full hfull] using hs
    · simpa [CacheOp.after, DataCache.queue_open hfull, Nat.ne_of_lt hr] using hs
  | find id =>
    cases h : c.entries[id]? with
    | none => simpa [CacheOp.after, DataCache.find_none h] using hs
    | some r₀ =>
      by_cases hs₀ : (c.rows r₀).state = .swapped
      · simpa [CacheOp.after, DataCache.find_swapped h hs₀] using hs
      · have hne : r ≠ r₀ := fun e => hs₀ (e ▸ hs)
        simpa [CacheOp.after, DataCache.find_waits h hs₀, DataCache.setState, hne] using hs
  | await id row => exact hs
  | take row buffer =>
    by_cases hrow : r = row
    · subst hrow
      simpa [CacheOp.after, DataCache.take] using hs
    · simpa [CacheOp.after, DataCache.take, hrow] using hs
  | swapNotify id buffer =>
    cases h : c.entries[id]? with
    | none => simpa [CacheOp.after, DataCache.swapNotify_none h] using hs
    | some r₀ =>
      simp only [CacheOp.after, DataCache.swapNotify_rows h]
      by_cases hrow : r = r₀
      · simp [hrow]
      · simpa [hrow] using hs
  | removeObsolete => exact hs
  | clear =>
    by_cases h : ∃ id : UInt64, c.entries[id]? = some r
    · obtain ⟨id, h⟩ := h
      simp [CacheOp.after, DataCache.clear_rows_of_entry h]
    · rw [CacheOp.after, DataCache.clear_rows_of_absent fun id he => h ⟨id, he⟩]
      exact hs

/-- A critical section keeps a waiter reachable, when it is no `remove_obsolete` that meets the waiter's row out of
date and no `queue` that hands its id out again. -/
theorem Reachable.after {c : DataCache} {id : UInt64} {r : RowRef} (h : Reachable c id r) (o : CacheOp) (i : Clock)
    (hold : o = .removeObsolete → (c.rows r).valid (i.visit id) = true)
    (hnew : ∀ valid, o = .queue valid → c.entries[c.idCounter + 1]? = none) : Reachable (o.after i c) id r := by
  obtain ⟨hr, hs⟩ := h
  refine ⟨hr.trans_le (o.allocated_le i c), ?_⟩
  rcases hs with hs | he
  · exact .inl (o.swapped_after i hr hs)
  cases o with
  | queue valid =>
    right
    by_cases hfull : c.maxEntries ≤ c.entries.size
    · simpa [CacheOp.after, DataCache.queue_full hfull] using he
    · have hne : c.idCounter + 1 ≠ id := by
        intro e
        rw [← e, hnew valid rfl] at he
        cases he
      simpa [CacheOp.after, DataCache.queue_open hfull, ExtTreeMap.getElem?_insert, hne] using he
  | find id' =>
    cases h' : c.entries[id']? with
    | none => exact .inr (by simpa [CacheOp.after, DataCache.find_none h'] using he)
    | some r' =>
      by_cases hs : (c.rows r').state = .swapped
      · -- only the entry of a swapped row is erased
        by_cases hid : id' = id
        · subst hid
          obtain rfl : r' = r := Option.some.inj (h'.symm.trans he)
          exact .inl (by simpa [CacheOp.after, DataCache.find_swapped h' hs] using hs)
        · exact .inr (by simpa [CacheOp.after, DataCache.find_swapped h' hs, ExtTreeMap.getElem?_erase, hid] using he)
      · exact .inr (by simpa [CacheOp.after, DataCache.find_waits h' hs, DataCache.setState] using he)
  | await id' row => exact .inr he
  | take row buffer => exact .inr he
  | swapNotify id' buffer =>
    cases h' : c.entries[id']? with
    | none => exact .inr (by simpa [CacheOp.after, DataCache.swapNotify_none h'] using he)
    | some r' =>
      by_cases hid : id' = id
      · subst hid
        obtain rfl : r' = r := Option.some.inj (h'.symm.trans he)
        exact .inl (by simp [CacheOp.after, DataCache.swapNotify_rows h'])
      · right
        simp only [CacheOp.after, DataCache.swapNotify_entries h']
        split
        · simpa [ExtTreeMap.getElem?_erase, hid] using he
        · exact he
  | removeObsolete => exact .inr ((DataCache.getElem?_removeObsolete c i.visit id r).mpr ⟨he, hold rfl⟩)
  | clear => exact .inl (by simp [CacheOp.after, DataCache.clear_rows_of_entry he])

theorem Reachable.swapNotify_awaited {c : DataCache} {id : UInt64} {r : RowRef} (h : Reachable c id r)
    (buffer : Bytes) : (c.swapNotify id buffer).2.awaited r = true := by
  rcases h with ⟨hr, hs | he⟩
  · exact decide_eq_true (CacheOp.swapped_after (.swapNotify id buffer) {} hr hs)
  · simp [DataCache.awaited, DataCache.swapNotify_rows he]

theorem Reachable.clear_awaited {c : DataCache} {id : UInt64} {r : RowRef} (h : Reachable c id r) :
    c.clear.awaited r = true := by
  rcases h with ⟨hr, hs | he⟩
  · exact decide_eq_true (CacheOp.swapped_after .clear {} hr hs)
  · simp [DataCache.awaited, DataCache.clear_rows_of_entry he]

/-! ## Runs -/

/-- The table holds existing rows, and every blocked waiter can be reached. -/
structure WaitersInv (c : DataCache) (views : Nat → Option WaitView) : Prop where
  allocated : Allocated c
  reachable : ∀ t id r, views t = some (.blocked id r) → Reachable c id r

theorem Reachable.of_find {c : DataCache} (hc : Allocated c) {id : UInt64} {r : RowRef}
    (h : (c.find id).1 = .blocked r) : Reachable (c.find id).2 id r := by
  cases he : c.entries[id]? with
  | none =>
    rw [DataCache.find_none he] at h
    cases h
  | some r' =>
    by_cases hs : (c.rows r').state = .swapped
    · rw [DataCache.find_swapped he hs] at h
      cases h
    · rw [DataCache.find_waits he hs] at h ⊢
      cases h
      exact ⟨hc id r he, .inr he⟩

theorem WaitersInv.of_after {c : DataCache} {views : Nat → Option WaitView} (h : WaitersInv c views) {t : Nat}
    {o : CacheOp} {i : Clock} {res : o.Res} {c' : DataCache} {v : WaitView} (hex : o.exec i c = some (res, c'))
    (hold : ∀ t' id r, views t' = some (.blocked id r) → o = .removeObsolete → (c.rows r).state ≠ .swapped →
      (c.rows r).valid (i.visit id) = true)
    (hnew : ∀ valid, o = .queue valid → c.entries[c.idCounter + 1]? = none) :
    WaitersInv c' (Function.update views t (some (waitDiscipline.post v o res))) := by
  refine ⟨(CacheOp.eq_after hex) ▸ h.allocated.after o i, ?_⟩
  intro t' id r hv
  by_cases ht : t' = t
  · subst ht
    rw [Function.update_self] at hv
    cases o with
    | find id' =>
      cases res with
      | blocked r' =>
        cases hv
        have hf := Option.some.inj hex
        rw [show c' = (c.find id).2 from congrArg Prod.snd hf.symm]
        exact Reachable.of_find h.allocated (congrArg Prod.fst hf)
      | _ => cases hv
    | _ => cases hv
  · rw [Function.update_of_ne ht] at hv
    rw [CacheOp.eq_after hex]
    have hr := h.reachable t' id r hv
    by_cases hs : (c.rows r).state = .swapped
    · exact ⟨hr.1.trans_le (o.allocated_le i c), .inl (o.swapped_after i hr.1 hs)⟩
    · exact hr.after o i (fun ho => hold t' id r hv ho hs) hnew

theorem waitersInv_of_reach {n : Nat} {p : CachePool} (hp : cacheMachine.Reach Timely (.new n) p) :
    ∃ views, WaitersInv p.shared views ∧
      Machine.Linked waitDiscipline (fun _ _ _ v => v = .free) p views := by
  refine Machine.sound (fun _ _ => .free) ?_ (fun _ c => cacheCall_ok c) ?_ ?_ ?_ hp
  · exact ⟨Allocated.new n, fun _ _ _ h => by cases h⟩
  · intro p views t c _ _ hinv _ _
    refine ⟨hinv.allocated, fun t' id r hv => ?_⟩
    by_cases ht : t' = t
    · subst ht
      simp at hv
    · rw [Function.update_of_ne ht] at hv
      exact hinv.reachable t' id r hv
  · intro p views t i o v res c' _ hl hinv hG hth hv hpre hex
    obtain ⟨c, k, hth⟩ := hth
    have hnext : p.next t = some o := Machine.next_of_thread hth
    refine hinv.of_after hex ?_ ?_
    · intro t' id r hv' ho hs
      have hr := hinv.reachable t' id r hv'
      obtain ⟨o', hn', hpre'⟩ := hl.pending hv' (by simp)
      have hblock : BlockedOn p t' id r := hn'.trans (congrArg some hpre')
      exact hG.1 (ho ▸ hnext) id r (hr.2.resolve_left hs) (.inr ⟨t', hblock⟩)
    · intro valid ho
      exact hG.2 valid (ho ▸ hnext)
  · intro p views e
    exact e.elim

theorem BlockedOn.reachable {p : CachePool} {views : Nat → Option WaitView} (hinv : WaitersInv p.shared views)
    (hl : Machine.Linked waitDiscipline (fun _ _ _ v => v = .free) p views) {t : Nat} {id : UInt64} {r : RowRef}
    (h : BlockedOn p t id r) : Reachable p.shared id r := by
  obtain ⟨c, k, hth⟩ := Machine.next_eq_some h
  obtain ⟨v, hv, hok⟩ := hl.ok hth
  cases v with
  | free => exact absurd rfl (hok.1 id r)
  | blocked id' r' =>
    have hpre : CacheOp.await id r = .await id' r' := hok.1
    cases hpre
    exact hinv.reachable t id r hv

/-- Once the predicate of a waiter holds it goes on holding, so the waiter is not lost between the notification and
its wake-up. -/
theorem awaited_of_run {g : CachePool → Act CacheCall Clock Empty → Bool} {as : List (Act CacheCall Clock Empty)}
    {p q : CachePool} {r : RowRef} (hr : r < p.shared.allocated) (hs : p.shared.awaited r = true)
    (h : cacheMachine.run g p as = some q) : q.shared.awaited r = true := by
  refine decide_eq_true (Machine.run_invariant (M := cacheMachine)
    (I := fun c => r < c.allocated ∧ (c.rows r).state = .swapped) ?_ (fun e => e.elim) ⟨hr, of_decide_eq_true hs⟩ h).2
  intro t o i c res c' hc hex
  rw [CacheOp.eq_after hex]
  exact ⟨hc.1.trans_le (o.allocated_le i c), o.swapped_after i hc.1 hc.2⟩

/-- **A blocked waiter stays reachable.** In every state reached by timely steps a thread that is blocked in
`wait(id)` on a row not yet swapped finds that row in the table; the next timely `remove_obsolete` keeps every entry
that is waited on or swapped; and a `swap_notify(id)` or a `clear` makes the waiter's predicate true for the rest of
the run. -/
theorem waiter_stays_reachable {n : Nat} {p : CachePool} (hp : cacheMachine.Reach Timely (.new n) p) :
    (∀ t id r, BlockedOn p t id r → (p.shared.rows r).state ≠ .swapped → p.shared.entries[id]? = some r) ∧
    (∀ t i (id : UInt64) r p', p.next t = some .removeObsolete → Timely p (.op t i) →
      cacheMachine.step p (.op t i) = some p' → p.shared.entries[id]? = some r →
      ((p.shared.rows r).state = .swapped ∨ ∃ t', BlockedOn p t' id r) → p'.shared.entries[id]? = some r) ∧
    (∀ t id r t' i p', BlockedOn p t id r →
      (∃ buffer, p.next t' = some (.swapNotify id buffer)) ∨ p.next t' = some .clear →
      cacheMachine.step p (.op t' i) = some p' →
      ∀ as q, cacheMachine.run (fun _ _ => true) p' as = some q → q.shared.awaited r = true) := by
  obtain ⟨views, hinv, hl⟩ := waitersInv_of_reach hp
  refine ⟨?_, ?_, ?_⟩
  · intro t id r hb hs
    exact (hb.reachable hinv hl).2.resolve_left hs
  · intro t i id r p' hnext hG hstep he hneed
    obtain ⟨c, o, k, res, c', hth, hex, rfl⟩ := Machine.step_op hstep
    obtain rfl : o = .removeObsolete := Option.some.inj ((Machine.next_of_thread hth).symm.trans hnext)
    rw [show c' = p.shared.removeObsolete i.visit from CacheOp.eq_after (o := .removeObsolete) hex]
    exact (DataCache.getElem?_removeObsolete p.shared i.visit id r).mpr ⟨he, hG.1 hnext id r he hneed⟩
  · intro t id r t' i p' hb hwake hstep as q hrun
    have hr := hb.reachable hinv hl
    obtain ⟨c, o, k, res, c', hth, hex, rfl⟩ := Machine.step_op hstep
    have hnext := Machine.next_of_thread hth
    have hc' := CacheOp.eq_after hex
    have hlt : r < c'.allocated := hc' ▸ hr.1.trans_le (o.allocated_le i p.shared)
    refine awaited_of_run hlt ?_ hrun
    rcases hwake with ⟨buffer, hn⟩ | hn
    · obtain rfl : o = .swapNotify id buffer := Option.some.inj (hnext.symm.trans hn)
      exact hc' ▸ hr.swapNotify_awaited buffer
    · obtain rfl : o = .clear := Option.some.inj (hnext.symm.trans hn)
      exact hc' ▸ hr.clear_awaited

def timely (p : CachePool) : Act CacheCall Clock Empty → Bool
  | .op t i =>
    match p.next t with
    | some .removeObsolete => p.shared.entries.toList.all fun e => (p.shared.rows e.2).valid (i.visit e.1)
    | some (.queue _) => p.shared.entries[p.shared.idCounter + 1]?.isNone
    | _ => true
  | _ => true

theorem timely_sound (p : CachePool) (a : Act CacheCall Clock Empty) (h : timely p a = true) : Timely p a := by
  cases a with
  | call t c => trivial
  | env e => exact e.elim
  | op t i =>
    refine ⟨fun hn id r he _ => ?_, fun valid hn => ?_⟩
    · simp only [timely, hn, List.all_eq_true] at h
      exact h (id, r) (ExtTreeMap.mem_toList_iff_getElem?_eq_some.mpr he)
    · simpa [timely, hn] using h

/-- A request is queued at time 0 with a validity of two seconds and waited for; `remove_obsolete` runs at three
seconds. -/
def lateSweep : List (Act CacheCall Clock Empty) :=
  [.call 0 (.queue 2000000000), .op 0 {}, .call 1 (.wait 1 []), .op 1 {},
    .call 2 .removeObsolete, .op 2 { visit := fun _ => 3000000000 }]

/-- The waiter is still blocked, and its row is gone. -/
theorem waiter_lost : ∃ p, cacheMachine.Reach Machine.Free (.new 4) p ∧ BlockedOn p 1 1 0 ∧
    (p.shared.rows 0).state ≠ .swapped ∧ p.shared.entries[(1 : UInt64)]? = none := by
  have hrun : (cacheMachine.run (fun _ _ => true) (.initial (.new 4)) lateSweep).any (fun p =>
      decide (p.next 1 = some (.await 1 0)) && decide ((p.shared.rows 0).state ≠ .swapped) &&
        p.shared.entries[(1 : UInt64)]?.isNone) = true := by decide +kernel
  obtain ⟨p, hp, hf⟩ := Machine.Reach.exists_of_run (fun _ _ _ => trivial) lateSweep hrun
  simp only [Bool.and_eq_true, decide_eq_true_eq, Option.isNone_iff_eq_none] at hf
  exact ⟨p, hp, hf.1.1, hf.1.2, hf.2⟩

def earlySweep : List (Act CacheCall Clock Empty) :=
  [.call 0 (.queue 2000000000), .op 0 {}, .call 1 (.wait 1 []), .op 1 {},
    .call 2 .removeObsolete, .op 2 { visit := fun _ => 1000000000 }]

theorem waiter_stays_reachable_earlySweep : ∃ p, cacheMachine.Reach Timely (.new 4) p ∧ BlockedOn p 1 1 0 ∧
    p.shared.entries[(1 : UInt64)]? = some 0 := by
  have hrun : (cacheMachine.run timely (.initial (.new 4)) earlySweep).any (fun p =>
      decide (p.next 1 = some (.await 1 0)) && decide ((p.shared.rows 0).state ≠ .swapped)) = true := by
    decide +kernel
  obtain ⟨p, hp, hf⟩ := Machine.Reach.exists_of_run timely_sound earlySweep hrun
  simp only [Bool.and_eq_true, decide_eq_true_eq] at hf
  exact ⟨p, hp, hf.1, (waiter_stays_reachable hp).1 1 1 0 hf.1 hf.2⟩

end Radrpc
