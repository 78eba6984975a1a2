import Radrpc.Data.Waits
import Radrpc.Data.CacheRuns

/-!
# The order of a reply and its wait

For an id that `queue` has just handed out, `wait` and `swap_notify` are called once each, in either order and from
different threads. If `swap_notify` comes first, `wait` finds the bytes and erases the entry; if `wait` blocks first,
`swap_notify` erases the entry and wakes it.

* `CacheOp.Apart` : a critical section that leaves the id and its row alone;
* `Scheduled` : the schedules of the two calls next to any calls that stay apart from them;
* `Meeting` : how far the two calls have come, and what the row holds then;
* `AlikeBut` : two caches that differ in one entry and its row; `CacheOp.Apart.alike` : what stays apart does the same
  in both;
* `reply_order` : the wait returns the bytes, the entry is gone, and all other threads and entries are as in the run
  without the two calls.
-/

namespace Radrpc
open Std Conc

/-! ## Critical sections that stay apart -/

/-- A critical section on other ids and other rows. -/
structure CacheOp.Apart (o : CacheOp) (c : DataCache) (id : UInt64) (r : RowRef) : Prop where
  find : o ≠ .find id
  await : ∀ id', o ≠ .await id' r
  take : ∀ buffer, o ≠ .take r buffer
  swapNotify : ∀ buffer, o ≠ .swapNotify id buffer
  queue : ∀ valid, o = .queue valid → c.idCounter + 1 ≠ id
  clear : o ≠ .clear

/-- The only entry of the row `r` is that of `id`. -/
structure Sole (c : DataCache) (id : UInt64) (r : RowRef) : Prop where
  allocated : Allocated c
  lt : r < c.allocated
  sole : ∀ k : UInt64, c.entries[k]? = some r → k = id

theorem Sole.after {c : DataCache} {id : UInt64} {r : RowRef} (h : Sole c id r) (o : CacheOp) (i : Clock) :
    Sole (o.after i c) id r :=
  ⟨h.allocated.after o i, h.lt.trans_le (o.allocated_le i c), fun k hk => (CacheOp.getElem?_of_after hk).elim (h.sole k)
    fun hn => absurd hn.2.2 h.lt.ne⟩

namespace CacheOp.Apart

variable {o : CacheOp} {i : Clock} {c : DataCache} {id : UInt64} {r : RowRef}

theorem of_entry (h : o.Apart c id r) {r' : RowRef} (he : (o.after i c).entries[id]? = some r') :
    c.entries[id]? = some r' := by
  rcases CacheOp.getElem?_of_after he with he | ⟨⟨valid, ho⟩, hid, -⟩
  · exact he
  · exact absurd hid.symm (h.queue valid ho)

theorem entry (h : o.Apart c id r)
    (hv : o = .removeObsolete → ∀ r', c.entries[id]? = some r' → (c.rows r').valid (i.visit id) = true) :
    (o.after i c).entries[id]? = c.entries[id]? := by
  cases o with
  | queue valid =>
    by_cases hfull : c.maxEntries ≤ c.entries.size
    · rw [CacheOp.after, DataCache.queue_full hfull]
    · simp [CacheOp.after, DataCache.queue_open hfull, ExtTreeMap.getElem?_insert, h.queue valid rfl]
  | find k =>
    have hk : k ≠ id := fun he => h.find (he ▸ rfl)
    cases he : c.entries[k]? with
    | none => rw [CacheOp.after, DataCache.find_none he]
    | some r₀ =>
      by_cases hs : (c.rows r₀).state = .swapped
      · simp [CacheOp.after, DataCache.find_swapped he hs, ExtTreeMap.getElem?_erase, hk]
      · rw [CacheOp.after, DataCache.find_waits he hs]
        rfl
  | await k row => rfl
  | take row buffer => rfl
  | swapNotify k buffer =>
    have hk : k ≠ id := fun he => h.swapNotify buffer (he ▸ rfl)
    cases he : c.entries[k]? with
    | none => rw [CacheOp.after, DataCache.swapNotify_none he]
    | some r₀ =>
      rw [CacheOp.after, DataCache.swapNotify_entries he]
      split
      · simp [ExtTreeMap.getElem?_erase, hk]
      · rfl
  | removeObsolete =>
    cases he : c.entries[id]? with
    | none =>
      apply Option.eq_none_iff_forall_ne_some.mpr
      intro r' hr'
      have hold := ((DataCache.getElem?_removeObsolete c i.visit id r').mp hr').1
      rw [he] at hold
      cases hold
    | some r' => exact (DataCache.getElem?_removeObsolete c i.visit id r').mpr ⟨he, hv rfl r' he⟩
  | clear => exact absurd rfl h.clear

theorem row (h : o.Apart c id r) (hs : Sole c id r) : (o.after i c).rows r = c.rows r := by
  cases o with
  | queue valid =>
    by_cases hfull : c.maxEntries ≤ c.entries.size
    · rw [CacheOp.after, DataCache.queue_full hfull]
    · simp [CacheOp.after, DataCache.queue_open hfull, Nat.ne_of_lt hs.lt]
  | find k =>
    have hk : k ≠ id := fun he => h.find (he ▸ rfl)
    cases he : c.entries[k]? with
    | none => rw [CacheOp.after, DataCache.find_none he]
    | some r₀ =>
      have hr₀ : r ≠ r₀ := fun hf => hk (hs.sole k (hf ▸ he))
      by_cases hsw : (c.rows r₀).state = .swapped
      · rw [CacheOp.after, DataCache.find_swapped he hsw]
      · simp [CacheOp.after, DataCache.find_waits he hsw, DataCache.setState, hr₀]
  | await k row => rfl
  | take row buffer =>
    have hr : r ≠ row := fun hf => h.take buffer (hf ▸ rfl)
    simp [CacheOp.after, DataCache.take, hr]
  | swapNotify k buffer =>
    have hk : k ≠ id := fun he => h.swapNotify buffer (he ▸ rfl)
    cases he : c.entries[k]? with
    | none => rw [CacheOp.after, DataCache.swapNotify_none he]
    | some r₀ =>
      have hr₀ : r ≠ r₀ := fun hf => hk (hs.sole k (hf ▸ he))
      simp [CacheOp.after, DataCache.swapNotify_rows he, hr₀]
  | removeObsolete => rfl
  | clear => exact absurd rfl h.clear

end CacheOp.Apart

/-! ## The two calls -/

/-- `wait(id)` with an empty buffer, blocked on its row. -/
def awaiting (id : UInt64) (r : RowRef) : CacheProg CacheRet :=
  .op (.await id r) fun success => .op (.take r []) fun out => .ret (.waited success out)

/-- `wait(id)` with an empty buffer, about to swap the buffers. -/
def taking (r : RowRef) (success : Bool) : CacheProg CacheRet := .op (.take r []) fun out => .ret (.waited success out)

/-- The call of thread `t` has not run yet. -/
def Unstarted (p : CachePool) (t : Nat) (c : CacheCall) : Prop := p.thread t = none ∨ p.thread t = some (c, c.body)

/-- The schedules of one `wait(id)` with an empty buffer on the thread `w` and one `swap_notify(id, b)` on the thread
`s` : nobody else works on `id`, `queue` does not hand it out again, it does not expire and there is no `clear`, and
`wait` does not time out before `swap_notify` has run. -/
def Scheduled (w s : Nat) (id : UInt64) (b : Bytes) (p : CachePool) : Act CacheCall Clock Empty → Prop
  | .call t c => (t = w → c = .wait id []) ∧ (t = s → c = .swapNotify id b)
  | .op t i =>
    (p.next t = some (.find id) → t = w) ∧
    (∀ buffer, p.next t = some (.swapNotify id buffer) → t = s) ∧
    (∀ valid, p.next t = some (.queue valid) → p.shared.idCounter + 1 ≠ id) ∧
    (p.next t = some .removeObsolete → ∀ r, p.shared.entries[id]? = some r →
      (p.shared.rows r).valid (i.visit id) = true) ∧
    p.next t ≠ some .clear ∧
    (∀ id' r, p.next t = some (.await id' r) → t = w → i.timeout = true → (p.result s).isSome = true)
  | .env _ => True

/-- How far the two calls have come: neither has run; the wait is blocked; the reply came first; the reply has woken the
wait; the wait is about to swap; both have returned. -/
inductive Meeting (w s : Nat) (id : UInt64) (r : RowRef) (b : Bytes) (p : CachePool) : Prop where
  | queued : Unstarted p w (.wait id []) → Unstarted p s (.swapNotify id b) → p.shared.entries[id]? = some r →
      (p.shared.rows r).state = .queued → Meeting w s id r b p
  | waiting : p.thread w = some (.wait id [], awaiting id r) → Unstarted p s (.swapNotify id b) →
      p.shared.entries[id]? = some r → (p.shared.rows r).state = .waiting → Meeting w s id r b p
  | early : Unstarted p w (.wait id []) → p.thread s = some (.swapNotify id b, .ret (.buffer [])) →
      p.shared.entries[id]? = some r → (p.shared.rows r).state = .swapped → (p.shared.rows r).readBuffer = b →
      Meeting w s id r b p
  | woken : p.thread w = some (.wait id [], awaiting id r) → p.thread s = some (.swapNotify id b, .ret (.buffer [])) →
      p.shared.entries[id]? = none → (p.shared.rows r).state = .swapped → (p.shared.rows r).readBuffer = b →
      Meeting w s id r b p
  | taking : p.thread w = some (.wait id [], taking r true) → p.thread s = some (.swapNotify id b, .ret (.buffer [])) →
      p.shared.entries[id]? = none → (p.shared.rows r).readBuffer = b → Meeting w s id r b p
  | done : p.thread w = some (.wait id [], .ret (.waited true b)) →
      p.thread s = some (.swapNotify id b, .ret (.buffer [])) → p.shared.entries[id]? = none → Meeting w s id r b p

/-- The threads that do not work on the row `r`. -/
def Elsewhere (p : CachePool) (w : Nat) (r : RowRef) : Prop :=
  ∀ t ≠ w, ∀ c q, p.thread t = some (c, q) →
    ∃ v, stageDiscipline.Ok (fun ret v => v.call = c ∧ v.Returns ret) v q ∧ v.stage.row ≠ some r

/-! ## Caches that differ in one entry -/

/-- The same cache but for the entry of `id` and the row `r`. -/
structure AlikeBut (id : UInt64) (r : RowRef) (c c' : DataCache) : Prop where
  maxEntries : c'.maxEntries = c.maxEntries
  idCounter : c'.idCounter = c.idCounter
  allocated : c'.allocated = c.allocated
  entries : ∀ k ≠ id, c'.entries[k]? = c.entries[k]?
  rows : ∀ r' ≠ r, c'.rows r' = c.rows r'

namespace AlikeBut

variable {id : UInt64} {r : RowRef} {c c' c'' : DataCache}

theorem refl (id : UInt64) (r : RowRef) (c : DataCache) : AlikeBut id r c c :=
  ⟨rfl, rfl, rfl, fun _ _ => rfl, fun _ _ => rfl⟩

theorem symm (h : AlikeBut id r c c') : AlikeBut id r c' c :=
  ⟨h.maxEntries.symm, h.idCounter.symm, h.allocated.symm, fun k hk => (h.entries k hk).symm,
    fun r' hr => (h.rows r' hr).symm⟩

theorem trans (h : AlikeBut id r c c') (h' : AlikeBut id r c' c'') : AlikeBut id r c c'' :=
  ⟨h'.maxEntries.trans h.maxEntries, h'.idCounter.trans h.idCounter, h'.allocated.trans h.allocated,
    fun k hk => (h'.entries k hk).trans (h.entries k hk), fun r' hr => (h'.rows r' hr).trans (h.rows r' hr)⟩

/-! ### The steps of the two calls -/

theorem of_find (h : c.entries[id]? = some r) : AlikeBut id r c (c.find id).2 := by
  by_cases hs : (c.rows r).state = .swapped
  · rw [DataCache.find_swapped h hs]
    refine ⟨rfl, rfl, rfl, fun k hk => ?_, fun _ _ => rfl⟩
    rw [ExtTreeMap.getElem?_erase, if_neg (by simpa using hk.symm)]
  · rw [DataCache.find_waits h hs]
    exact ⟨rfl, rfl, rfl, fun _ _ => rfl, fun r' hr => Function.update_of_ne hr _ _⟩

theorem of_take (buffer : Bytes) : AlikeBut id r c (c.take r buffer).2 :=
  ⟨rfl, rfl, rfl, fun _ _ => rfl, fun _ hr => Function.update_of_ne hr _ _⟩

theorem of_swapNotify (h : c.entries[id]? = some r) (buffer : Bytes) : AlikeBut id r c (c.swapNotify id buffer).2 := by
  refine ⟨?_, DataCache.swapNotify_idCounter c id buffer, DataCache.swapNotify_allocated c id buffer, fun k hk => ?_,
    fun _ hr => ?_⟩
  · simp only [DataCache.swapNotify, h]
    split <;> rfl
  · rw [DataCache.swapNotify_entries h]
    split
    · rw [ExtTreeMap.getElem?_erase, if_neg (by simpa using hk.symm)]
    · rfl
  · rw [DataCache.swapNotify_rows h, Function.update_of_ne hr]

/-! ### The steps of the other calls -/

theorem size_le (h : AlikeBut id r c c') (he : c.entries[id]?.isSome = true → c'.entries[id]?.isSome = true) :
    c.entries.size ≤ c'.entries.size :=
  Maps.size_le_of_agree (fun k hk => (h.entries k hk).symm) he

/-- A critical section that stays apart gives the same result in both caches, and leaves them alike, unless it is a
`queue` that the larger one refuses. -/
theorem exec {o : CacheOp} {i : Clock} {x : o.Res} {d : DataCache} (h : AlikeBut id r c c') (ha : o.Apart c id r)
    (hs : Sole c id r) (he : c.entries[id]?.isSome = true → c'.entries[id]?.isSome = true)
    (hopen : ∀ valid, o = .queue valid → c'.entries.size < c'.maxEntries) (hex : o.exec i c = some (x, d)) :
    o.exec i c' = some (x, o.after i c') ∧ AlikeBut id r d (o.after i c') := by
  cases o with
  | queue valid =>
    have hfull' : ¬ c'.maxEntries ≤ c'.entries.size := Nat.not_le_of_lt (hopen valid rfl)
    have hfull : ¬ c.maxEntries ≤ c.entries.size := fun hf =>
      hfull' (h.maxEntries.le.trans (hf.trans (h.size_le he)))
    have hx : c.queue i.now valid = (x, d) := Option.some.inj hex
    rw [DataCache.queue_open hfull] at hx
    cases hx
    simp only [CacheOp.exec, CacheOp.after, DataCache.queue_open hfull', h.idCounter, h.allocated]
    refine ⟨trivial, h.maxEntries, rfl, rfl, fun k hk => ?_, fun r' hr => ?_⟩
    · dsimp only
      rw [ExtTreeMap.getElem?_insert, ExtTreeMap.getElem?_insert, h.entries k hk]
    · dsimp only
      by_cases hnew : r' = c.allocated
      · rw [hnew, Function.update_self, Function.update_self]
      · rw [Function.update_of_ne hnew, Function.update_of_ne hnew, h.rows r' hr]
  | find k =>
    have hk : k ≠ id := fun hf => ha.find (hf ▸ rfl)
    have hx : c.find k = (x, d) := Option.some.inj hex
    have hent := h.entries k hk
    cases hek : c.entries[k]? with
    | none =>
      rw [DataCache.find_none hek] at hx
      cases hx
      simp only [CacheOp.exec, CacheOp.after, DataCache.find_none (hent.trans hek)]
      exact ⟨trivial, h⟩
    | some r₀ =>
      have hr₀ : r₀ ≠ r := fun hf => hk (hs.sole k (hf ▸ hek))
      have hrow := h.rows r₀ hr₀
      by_cases hsw : (c.rows r₀).state = .swapped
      · have hsw' : (c'.rows r₀).state = .swapped := by rw [hrow]; exact hsw
        rw [DataCache.find_swapped hek hsw] at hx
        cases hx
        simp only [CacheOp.exec, CacheOp.after, DataCache.find_swapped (hent.trans hek) hsw']
        refine ⟨trivial, h.maxEntries, h.idCounter, h.allocated, fun j hj => ?_, h.rows⟩
        dsimp only
        rw [ExtTreeMap.getElem?_erase, ExtTreeMap.getElem?_erase, h.entries j hj]
      · have hsw' : (c'.rows r₀).state ≠ .swapped := by rw [hrow]; exact hsw
        rw [DataCache.find_waits hek hsw] at hx
        cases hx
        simp only [CacheOp.exec, CacheOp.after, DataCache.find_waits (hent.trans hek) hsw']
        refine ⟨trivial, h.maxEntries, h.idCounter, h.allocated, h.entries, fun r' hr => ?_⟩
        simp only [DataCache.setState]
        by_cases hr' : r' = r₀
        · rw [hr', Function.update_self, Function.update_self, hrow]
        · rw [Function.update_of_ne hr', Function.update_of_ne hr', h.rows r' hr]
  | await k row =>
    have hr : row ≠ r := fun hf => ha.await k (hf ▸ rfl)
    have haw : c'.awaited row = c.awaited row := by
      unfold DataCache.awaited
      rw [h.rows row hr]
    simp only [CacheOp.exec] at hex ⊢
    rw [haw]
    split at hex
    · rename_i hc
      cases hex
      rw [if_pos hc]
      exact ⟨rfl, h⟩
    · rename_i hc
      split at hex
      · rename_i ht
        cases hex
        rw [if_neg hc, if_pos ht]
        exact ⟨rfl, h⟩
      · cases hex
  | take row buffer =>
    have hr : row ≠ r := fun hf => ha.take buffer (hf ▸ rfl)
    cases hex
    simp only [CacheOp.exec, CacheOp.after, DataCache.take, h.rows row hr]
    refine ⟨trivial, h.maxEntries, h.idCounter, h.allocated, h.entries, fun r' hr' => ?_⟩
    dsimp only
    by_cases hrr : r' = row
    · rw [hrr, Function.update_self, Function.update_self]
    · rw [Function.update_of_ne hrr, Function.update_of_ne hrr, h.rows r' hr']
  | swapNotify k buffer =>
    have hk : k ≠ id := fun hf => ha.swapNotify buffer (hf ▸ rfl)
    have hent := h.entries k hk
    have hx : c.swapNotify k buffer = (x, d) := Option.some.inj hex
    cases hek : c.entries[k]? with
    | none =>
      rw [DataCache.swapNotify_none hek] at hx
      cases hx
      simp only [CacheOp.exec, CacheOp.after, DataCache.swapNotify_none (hent.trans hek)]
      exact ⟨trivial, h⟩
    | some r₀ =>
      have hr₀ : r₀ ≠ r := fun hf => hk (hs.sole k (hf ▸ hek))
      have hrow := h.rows r₀ hr₀
      have hek' := hent.trans hek
      have hd : d = (c.swapNotify k buffer).2 := (congrArg Prod.snd hx).symm
      have hx₁ : x = [] := (congrArg Prod.fst hx).symm.trans (by simp only [DataCache.swapNotify, hek])
      have hx₂ : (c'.swapNotify k buffer).1 = [] := by
        simp only [DataCache.swapNotify, hek']
      have hmax : ∀ e : DataCache, (e.swapNotify k buffer).2.maxEntries = e.maxEntries := fun e => by
        unfold DataCache.swapNotify
        split
        · rfl
        · dsimp only
          split <;> rfl
      refine ⟨?_, ?_, ?_, ?_, fun j hj => ?_, fun r' hr => ?_⟩
      · rw [CacheOp.exec, CacheOp.after, hx₁, ← hx₂]
      · rw [hd, CacheOp.after, hmax, hmax, h.maxEntries]
      · rw [hd, CacheOp.after, DataCache.swapNotify_idCounter, DataCache.swapNotify_idCounter, h.idCounter]
      · rw [hd, CacheOp.after, DataCache.swapNotify_allocated, DataCache.swapNotify_allocated, h.allocated]
      · rw [hd, CacheOp.after, DataCache.swapNotify_entries hek, DataCache.swapNotify_entries hek', hrow]
        split
        · rw [ExtTreeMap.getElem?_erase, ExtTreeMap.getElem?_erase, h.entries j hj]
        · exact h.entries j hj
      · rw [hd, CacheOp.after, DataCache.swapNotify_rows hek, DataCache.swapNotify_rows hek', hrow]
        by_cases hrr : r' = r₀
        · rw [hrr, Function.update_self, Function.update_self]
        · rw [Function.update_of_ne hrr, Function.update_of_ne hrr, h.rows r' hr]
  | removeObsolete =>
    cases hex
    refine ⟨rfl, h.maxEntries, h.idCounter, h.allocated, fun k hk => ?_, h.rows⟩
    apply Option.ext
    intro r₀
    rw [CacheOp.after, DataCache.getElem?_removeObsolete, DataCache.getElem?_removeObsolete, h.entries k hk]
    apply and_congr_right
    intro hek
    rw [h.rows r₀ fun hf => hk (hs.sole k (hf ▸ hek))]
  | clear => exact absurd rfl ha.clear

end AlikeBut

/-! ## The steps of the two calls -/

/-- What is left of a wait with an empty buffer after its lookup. -/
def waitFound (id : UInt64) : Found → CacheProg CacheRet
  | .invalid => .ret (.waited false [])
  | .ready r => taking r true
  | .blocked r => awaiting id r

theorem wait_body (id : UInt64) : (CacheCall.wait id []).body = .op (.find id) (waitFound id) := by
  refine congrArg (Prog.op (CacheOp.find id)) (funext fun found => ?_)
  cases found <;> rfl

theorem swapNotify_body (id : UInt64) (b : Bytes) :
    (CacheCall.swapNotify id b).body = .op (.swapNotify id b) fun rest => .ret (.buffer rest) := rfl

theorem Unstarted.eq_body {p : CachePool} {t : Nat} {c c' : CacheCall} {q : CacheProg CacheRet} (h : Unstarted p t c)
    (ht : p.thread t = some (c', q)) : c' = c ∧ q = c.body := by
  rcases h with h | h
  · rw [h] at ht
    cases ht
  · rw [h] at ht
    cases ht
    exact ⟨rfl, rfl⟩

theorem Unstarted.result_eq_none {p : CachePool} {t : Nat} {c : CacheCall} (h : Unstarted p t c)
    (hc : c.body.result = none) : p.result t = none := by
  rcases h with h | h
  · rw [Pool.result, h]
    rfl
  · simp [Pool.result, h, hc]

theorem Unstarted.update {p : CachePool} {t t' : Nat} {c : CacheCall} (h : Unstarted p t c) (ht : t ≠ t') (d : DataCache)
    (x : CacheCall × CacheProg CacheRet) : Unstarted ⟨d, Function.update p.thread t' (some x)⟩ t c := by
  unfold Unstarted
  dsimp only
  rw [Function.update_of_ne ht]
  exact h

namespace Meeting

variable {w s : Nat} {id : UInt64} {r : RowRef} {b : Bytes} {p p' : CachePool}

theorem eq_row (h : Meeting w s id r b p) {r' : RowRef} (he : p.shared.entries[id]? = some r') : r' = r := by
  cases h with
  | queued _ _ hr => exact Option.some.inj (he.symm.trans hr)
  | waiting _ _ hr => exact Option.some.inj (he.symm.trans hr)
  | early _ _ hr => exact Option.some.inj (he.symm.trans hr)
  | woken _ _ hr => rw [hr] at he; cases he
  | taking _ _ hr => rw [hr] at he; cases he
  | done _ _ hr => rw [hr] at he; cases he

theorem congr (h : Meeting w s id r b p) (hcache : p'.shared.entries[id]? = p.shared.entries[id]?)
    (hrow : p'.shared.rows r = p.shared.rows r) (hw : ∀ x, p.thread w = some x → p'.thread w = some x)
    (hs : ∀ x, p.thread s = some x → p'.thread s = some x)
    (huw : Unstarted p w (.wait id []) → Unstarted p' w (.wait id []))
    (hus : Unstarted p s (.swapNotify id b) → Unstarted p' s (.swapNotify id b)) : Meeting w s id r b p' := by
  cases h with
  | queued h₁ h₂ h₃ h₄ => exact .queued (huw h₁) (hus h₂) (hcache.trans h₃) (hrow ▸ h₄)
  | waiting h₁ h₂ h₃ h₄ => exact .waiting (hw _ h₁) (hus h₂) (hcache.trans h₃) (hrow ▸ h₄)
  | early h₁ h₂ h₃ h₄ h₅ => exact .early (huw h₁) (hs _ h₂) (hcache.trans h₃) (hrow ▸ h₄) (hrow ▸ h₅)
  | woken h₁ h₂ h₃ h₄ h₅ => exact .woken (hw _ h₁) (hs _ h₂) (hcache.trans h₃) (hrow ▸ h₄) (hrow ▸ h₅)
  | taking h₁ h₂ h₃ h₄ => exact .taking (hw _ h₁) (hs _ h₂) (hcache.trans h₃) (hrow ▸ h₄)
  | done h₁ h₂ h₃ => exact .done (hw _ h₁) (hs _ h₂) (hcache.trans h₃)

theorem wait_step (h : Meeting w s id r b p) (hws : w ≠ s) {c : CacheCall} {o : CacheOp}
    {k : o.Res → CacheProg CacheRet} {i : Clock} {x : o.Res} {d : DataCache} (ht : p.thread w = some (c, .op o k))
    (hex : o.exec i p.shared = some (x, d))
    (htime : ∀ id' r', o = .await id' r' → i.timeout = true → (p.result s).isSome = true) :
    Meeting w s id r b ⟨d, Function.update p.thread w (some (c, k x))⟩ ∧ AlikeBut id r p.shared d := by
  have hother : ∀ y, p.thread s = some y → Function.update p.thread w (some (c, k x)) s = some y := fun y hy =>
    (Function.update_of_ne hws.symm _ _).trans hy
  have hself : Function.update p.thread w (some (c, k x)) w = some (c, k x) := Function.update_self _ _ _
  cases h with
  | queued hw hs he hst =>
    obtain ⟨rfl, hq⟩ := hw.eq_body ht
    rw [wait_body] at hq
    cases hq
    have hne : (p.shared.rows r).state ≠ .swapped := by rw [hst]; exact fun hf => by cases hf
    have hx : p.shared.find id = (x, d) := Option.some.inj hex
    have halike := AlikeBut.of_find he
    rw [hx] at halike
    rw [DataCache.find_waits he hne] at hx
    cases hx
    refine ⟨.waiting hself (hs.update hws.symm _ _) he ?_, halike⟩
    simp [DataCache.setState]
  | waiting hw hs he hst =>
    rw [hw] at ht
    cases ht
    have haw : p.shared.awaited r = false := by rw [DataCache.awaited, hst]; rfl
    simp only [CacheOp.exec, haw, Bool.false_eq_true, if_false] at hex
    split at hex
    · rename_i hto
      have hdone := htime id r rfl hto
      rw [hs.result_eq_none rfl] at hdone
      cases hdone
    · cases hex
  | early hw hs he hst hb =>
    obtain ⟨rfl, hq⟩ := hw.eq_body ht
    rw [wait_body] at hq
    cases hq
    have hx : p.shared.find id = (x, d) := Option.some.inj hex
    have halike := AlikeBut.of_find he
    rw [hx] at halike
    rw [DataCache.find_swapped he hst] at hx
    cases hx
    exact ⟨.taking hself (hother _ hs) (by simp) hb, halike⟩
  | woken hw hs he hst hb =>
    rw [hw] at ht
    cases ht
    have haw : p.shared.awaited r = true := decide_eq_true hst
    simp only [CacheOp.exec, haw, if_true] at hex
    cases hex
    exact ⟨.taking hself (hother _ hs) he hb, .refl id r _⟩
  | taking hw hs he hb =>
    rw [hw] at ht
    cases ht
    cases hex
    refine ⟨.done ?_ (hother _ hs) he, AlikeBut.of_take []⟩
    rw [← hb]
    exact hself
  | done hw hs he =>
    rw [hw] at ht
    cases ht

theorem wait_result (h : Meeting w s id r b p) {x : CacheCall × CacheRet} (hx : p.result w = some x) :
    x = (.wait id [], .waited true b) ∧ p.shared.entries[id]? = none := by
  have hrun : ∀ q : CacheProg CacheRet, q.result = none → p.thread w ≠ some (.wait id [], q) := fun q hq hf => by
    simp [Pool.result, hf, hq] at hx
  have hnew : ¬ Unstarted p w (.wait id []) := fun hf => by
    rw [hf.result_eq_none (by rw [wait_body]; rfl)] at hx
    cases hx
  cases h with
  | queued hw => exact absurd hw hnew
  | waiting hw => exact absurd hw (hrun _ rfl)
  | early hw => exact absurd hw hnew
  | woken hw => exact absurd hw (hrun _ rfl)
  | taking hw => exact absurd hw (hrun _ rfl)
  | done hw _ he =>
    rw [Pool.result, hw] at hx
    exact ⟨(Option.some.inj hx).symm, he⟩

theorem reply_result (h : Meeting w s id r b p) {x : CacheCall × CacheRet} (hx : p.result s = some x) :
    x = (.swapNotify id b, .buffer []) := by
  have hnew : ¬ Unstarted p s (.swapNotify id b) := fun hf => by
    rw [hf.result_eq_none rfl] at hx
    cases hx
  have hold : p.thread s = some (.swapNotify id b, .ret (.buffer [])) → x = (.swapNotify id b, .buffer []) := fun hs => by
    rw [Pool.result, hs] at hx
    exact (Option.some.inj hx).symm
  cases h with
  | queued _ hs => exact absurd hs hnew
  | waiting _ hs => exact absurd hs hnew
  | early _ hs => exact hold hs
  | woken _ hs => exact hold hs
  | taking _ hs => exact hold hs
  | done _ hs => exact hold hs

theorem wait_enabled (h : Meeting w s id r b p) (hx : (p.result s).isSome = true) {o : CacheOp} (j : Clock)
    (ho : p.next w = some o) : (o.exec j p.shared).isSome = true := by
  have hnew : ¬ Unstarted p s (.swapNotify id b) := fun hf => by
    rw [hf.result_eq_none rfl] at hx
    cases hx
  cases h with
  | queued _ hs => exact absurd hs hnew
  | waiting _ hs => exact absurd hs hnew
  | early hw =>
    rcases hw with hw | hw
    · rw [Pool.next, hw] at ho
      cases ho
    · rw [Machine.next_of_thread (hw.trans (by rw [wait_body]))] at ho
      cases ho
      rfl
  | woken hw _ _ hst =>
    rw [Machine.next_of_thread hw] at ho
    cases ho
    have haw : p.shared.awaited r = true := decide_eq_true hst
    rw [CacheOp.exec, if_pos haw]
    rfl
  | taking hw =>
    rw [Machine.next_of_thread hw] at ho
    cases ho
    rfl
  | done hw =>
    rw [Pool.next, hw] at ho
    cases ho

theorem reply_step (h : Meeting w s id r b p) (hws : w ≠ s) {c : CacheCall} {o : CacheOp}
    {k : o.Res → CacheProg CacheRet} {i : Clock} {x : o.Res} {d : DataCache} (ht : p.thread s = some (c, .op o k))
    (hex : o.exec i p.shared = some (x, d)) :
    Meeting w s id r b ⟨d, Function.update p.thread s (some (c, k x))⟩ ∧ AlikeBut id r p.shared d := by
  have hother : ∀ y, p.thread w = some y → Function.update p.thread s (some (c, k x)) w = some y := fun y hy =>
    (Function.update_of_ne hws _ _).trans hy
  have hswap : Unstarted p s (.swapNotify id b) → p.shared.entries[id]? = some r →
      Function.update p.thread s (some (c, k x)) s = some (.swapNotify id b, .ret (.buffer [])) ∧
        d = (p.shared.swapNotify id b).2 := by
    intro hs he
    obtain ⟨rfl, hq⟩ := hs.eq_body ht
    rw [swapNotify_body] at hq
    cases hq
    have hx : p.shared.swapNotify id b = (x, d) := Option.some.inj hex
    have hempty : x = [] := (congrArg Prod.fst hx).symm.trans (by simp only [DataCache.swapNotify, he])
    refine ⟨?_, (congrArg Prod.snd hx).symm⟩
    rw [Function.update_self, hempty]
  have hrow : p.shared.entries[id]? = some r →
      ((p.shared.swapNotify id b).2.rows r).state = .swapped ∧ ((p.shared.swapNotify id b).2.rows r).readBuffer = b := by
    intro he
    rw [DataCache.swapNotify_rows he, Function.update_self]
    exact ⟨rfl, rfl⟩
  cases h with
  | queued hw hs he hst =>
    obtain ⟨hdone, rfl⟩ := hswap hs he
    refine ⟨.early (hw.update hws _ _) hdone ?_ (hrow he).1 (hrow he).2, AlikeBut.of_swapNotify he b⟩
    have hne : (p.shared.rows r).state ≠ .waiting := by rw [hst]; exact fun hf => by cases hf
    dsimp only
    rw [DataCache.swapNotify_entries he, if_neg hne]
    exact he
  | waiting hw hs he hst =>
    obtain ⟨hdone, rfl⟩ := hswap hs he
    refine ⟨.woken (hother _ hw) hdone ?_ (hrow he).1 (hrow he).2, AlikeBut.of_swapNotify he b⟩
    dsimp only
    rw [DataCache.swapNotify_entries he, if_pos hst, ExtTreeMap.getElem?_erase_self]
  | early _ hs => rw [hs] at ht; cases ht
  | woken _ hs => rw [hs] at ht; cases ht
  | taking _ hs => rw [hs] at ht; cases ht
  | done _ hs => rw [hs] at ht; cases ht

end Meeting

/-! ## Runs -/

/-- The two calls, their row, and the threads that stay away from it. -/
structure Amid (w s : Nat) (id : UInt64) (r : RowRef) (b : Bytes) (p : CachePool) : Prop where
  meeting : Meeting w s id r b p
  sole : Sole p.shared id r
  elsewhere : Elsewhere p w r

namespace Amid

variable {w s : Nat} {id : UInt64} {r : RowRef} {b : Bytes} {p p' : CachePool}

theorem apart (h : Amid w s id r b p) {t : Nat} {i : Clock} (hG : Scheduled w s id b p (.op t i)) (hw : t ≠ w)
    (hs : t ≠ s) {c : CacheCall} {o : CacheOp} {k : o.Res → CacheProg CacheRet} (ht : p.thread t = some (c, .op o k)) :
    o.Apart p.shared id r := by
  obtain ⟨hfind, hswap, hqueue, -, hclear, -⟩ := hG
  rw [Machine.next_of_thread ht] at hfind hswap hqueue hclear
  obtain ⟨⟨call, stage⟩, ⟨hpre, -⟩, hrow⟩ := h.elsewhere t hw c _ ht
  have hno : (∀ id', o ≠ .await id' r) ∧ ∀ buffer, o ≠ .take r buffer := by
    cases stage with
    | start => exact ⟨fun id' => hpre.1 id' r, hpre.2 r⟩
    | blocked id' r' =>
      obtain rfl : o = .await id' r' := hpre
      refine ⟨fun id'' he => ?_, fun buffer he => by cases he⟩
      cases he
      exact hrow rfl
    | holding r' success =>
      obtain rfl : o = .take r' call.buffer := hpre
      refine ⟨fun id' he => (by cases he), fun buffer he => ?_⟩
      cases he
      exact hrow rfl
    | answered success out => exact hpre.elim
  exact ⟨fun he => hw (hfind (congrArg some he)), hno.1, hno.2, fun buffer he => hs (hswap buffer (congrArg some he)),
    fun valid he => hqueue valid (congrArg some he), fun he => hclear (congrArg some he)⟩

theorem elsewhere_op (h : Amid w s id r b p) {t : Nat} {i : Clock} (hG : Scheduled w s id b p (.op t i)) {c : CacheCall}
    {o : CacheOp} {k : o.Res → CacheProg CacheRet} {x : o.Res} {d : DataCache} (ht : p.thread t = some (c, .op o k))
    (hex : o.exec i p.shared = some (x, d)) : Elsewhere ⟨d, Function.update p.thread t (some (c, k x))⟩ w r := by
  intro t' hw' c' q' ht'
  by_cases htt : t' = t
  · subst htt
    dsimp only at ht'
    rw [Function.update_self] at ht'
    cases ht'
    obtain ⟨v, hok, hrow⟩ := h.elsewhere t' hw' c _ ht
    refine ⟨stageDiscipline.post v o x, hok.2 x, fun hr => ?_⟩
    rcases row_after hex hr with hr | ⟨id', rfl, he⟩
    · exact hrow hr
    · obtain rfl := h.sole.sole id' he
      exact hw' (hG.1 (Machine.next_of_thread ht))
  · dsimp only at ht'
    rw [Function.update_of_ne htt] at ht'
    exact h.elsewhere t' hw' c' q' ht'

theorem elsewhere_call (h : Amid w s id r b p) (t : Nat) (c : CacheCall) :
    Elsewhere { p with thread := Function.update p.thread t (some (c, c.body)) } w r := by
  intro t' hw' c' q' ht'
  by_cases htt : t' = t
  · subst htt
    dsimp only at ht'
    rw [Function.update_self] at ht'
    cases ht'
    exact ⟨⟨c, .start⟩, cacheCall_staged c, fun hr => by cases hr⟩
  · dsimp only at ht'
    rw [Function.update_of_ne htt] at ht'
    exact h.elsewhere t' hw' c' q' ht'

theorem call (h : Amid w s id r b p) {t : Nat} {c : CacheCall} (hG : Scheduled w s id b p (.call t c))
    (hs : cacheMachine.step p (.call t c) = some p') : Amid w s id r b p' := by
  obtain ⟨ht, rfl⟩ := Machine.step_call hs
  have hkeep : ∀ u x, p.thread u = some x → Function.update p.thread t (some (c, c.body)) u = some x := by
    intro u x hx
    have hne : u ≠ t := fun he => by
      rw [he, ht] at hx
      cases hx
    rw [Function.update_of_ne hne]
    exact hx
  have hmake : ∀ u c₀, (t = u → c = c₀) → Unstarted p u c₀ →
      Unstarted { p with thread := Function.update p.thread t (some (c, c.body)) } u c₀ := by
    intro u c₀ hc hu
    by_cases hut : u = t
    · subst hut
      obtain rfl := hc rfl
      exact .inr (Function.update_self _ _ _)
    · exact hu.update hut _ _
  exact ⟨h.meeting.congr rfl rfl (hkeep w) (hkeep s) (hmake w _ hG.1) (hmake s _ hG.2), h.sole, h.elsewhere_call t c⟩

theorem op (h : Amid w s id r b p) (hws : w ≠ s) {t : Nat} {i : Clock} (hG : Scheduled w s id b p (.op t i))
    (hs : cacheMachine.step p (.op t i) = some p') :
    Amid w s id r b p' ∧ (t = w ∨ t = s → AlikeBut id r p.shared p'.shared) := by
  obtain ⟨c, o, k, x, d, ht, hex, rfl⟩ := Machine.step_op hs
  have hnext := Machine.next_of_thread ht
  have hafter : d = o.after i p.shared := CacheOp.eq_after hex
  have hsole : Sole d id r := hafter ▸ h.sole.after o i
  have helse := h.elsewhere_op hG ht hex
  by_cases hw : t = w
  · subst hw
    obtain ⟨hm, ha⟩ := h.meeting.wait_step hws ht hex fun id' r' ho =>
      hG.2.2.2.2.2 id' r' (hnext.trans (congrArg some ho)) rfl
    exact ⟨⟨hm, hsole, helse⟩, fun _ => ha⟩
  · by_cases hts : t = s
    · subst hts
      obtain ⟨hm, ha⟩ := h.meeting.reply_step hws ht hex
      exact ⟨⟨hm, hsole, helse⟩, fun _ => ha⟩
    · have hap := h.apart hG hw hts ht
      refine ⟨⟨h.meeting.congr ?_ ?_ (fun x hx => ?_) (fun x hx => ?_) (fun hu => hu.update (Ne.symm hw) _ _)
        (fun hu => hu.update (Ne.symm hts) _ _), hsole, helse⟩, fun hf => (hf.elim hw hts).elim⟩
      · dsimp only
        rw [hafter]
        exact hap.entry fun ho => hG.2.2.2.1 (hnext.trans (congrArg some ho))
      · dsimp only
        rw [hafter]
        exact hap.row h.sole
      · exact (Function.update_of_ne (Ne.symm hw) _ _).trans hx
      · exact (Function.update_of_ne (Ne.symm hts) _ _).trans hx

theorem of_steps (hws : w ≠ s) {q : CachePool} {as : List (Act CacheCall Clock Empty)} (h : Amid w s id r b p)
    (hrun : cacheMachine.Steps (Scheduled w s id b) p as q) : Amid w s id r b q := by
  refine hrun.keeps (P := Amid w s id r b) (fun p a p' h hG hs => ?_) h
  cases a with
  | call t c => exact h.call hG hs
  | op t i => exact (h.op hws hG hs).1
  | env e => exact e.elim

end Amid

/-! ## The run without the two calls -/

/-- The step belongs to one of the two threads. -/
def ownStep (w s : Nat) : Act CacheCall Clock Empty → Bool
  | .call t _ => t = w || t = s
  | .op t _ => t = w || t = s
  | .env _ => false

def others (w s : Nat) (as : List (Act CacheCall Clock Empty)) : List (Act CacheCall Clock Empty) :=
  as.filter fun a => !ownStep w s a

/-- A step that is no `queue` on a full cache. -/
def Accepts (p : CachePool) : Act CacheCall Clock Empty → Prop
  | .op t _ => ∀ valid, p.next t = some (.queue valid) → p.shared.entries.size < p.shared.maxEntries
  | _ => True

/-- A pool `p` next to the pool `u` in which the two calls have not been made. -/
structure Beside (w s : Nat) (id : UInt64) (r : RowRef) (p u : CachePool) : Prop where
  alike : AlikeBut id r p.shared u.shared
  entry : p.shared.entries[id]? = some r → u.shared.entries[id]? = some r
  only : ∀ r', u.shared.entries[id]? = some r' → r' = r
  valid : ∀ now, (u.shared.rows r).valid now = (p.shared.rows r).valid now
  threads : ∀ t, t ≠ w → t ≠ s → u.thread t = p.thread t

namespace Beside

variable {w s : Nat} {id : UInt64} {r : RowRef} {b : Bytes} {p p' u : CachePool}

theorem isSome (h : Beside w s id r p u) (hA : Amid w s id r b p) (he : p.shared.entries[id]?.isSome = true) :
    u.shared.entries[id]?.isSome = true := by
  obtain ⟨r', hr'⟩ := Option.isSome_iff_exists.mp he
  rw [hA.meeting.eq_row hr'] at hr'
  rw [h.entry hr']
  rfl

theorem call (h : Beside w s id r p u) {t : Nat} {c : CacheCall} (hw : t ≠ w) (hts : t ≠ s)
    (hs : cacheMachine.step p (.call t c) = some p') :
    ∃ u', cacheMachine.step u (.call t c) = some u' ∧ Beside w s id r p' u' := by
  obtain ⟨ht, rfl⟩ := Machine.step_call hs
  have ht' : u.thread t = none := (h.threads t hw hts).trans ht
  refine ⟨{ u with thread := Function.update u.thread t (some (c, c.body)) }, ?_, h.alike, h.entry, h.only, h.valid,
    fun t' hw' hts' => ?_⟩
  · simp only [Machine.step, ht']
    rfl
  · dsimp only
    by_cases htt : t' = t
    · rw [htt, Function.update_self, Function.update_self]
      rfl
    · rw [Function.update_of_ne htt, Function.update_of_ne htt]
      exact h.threads t' hw' hts'

theorem own_call (h : Beside w s id r p u) {t : Nat} {c : CacheCall} (ht : t = w ∨ t = s)
    (hs : cacheMachine.step p (.call t c) = some p') : Beside w s id r p' u := by
  obtain ⟨-, rfl⟩ := Machine.step_call hs
  refine ⟨h.alike, h.entry, h.only, h.valid, fun t' hw hts => (h.threads t' hw hts).trans ?_⟩
  have hne : t' ≠ t := fun he => ht.elim (fun hf => hw (he.trans hf)) fun hf => hts (he.trans hf)
  exact (Function.update_of_ne hne _ _).symm

theorem own_op (h : Beside w s id r p u) (hA : Amid w s id r b p) {t : Nat} {i : Clock} (ht : t = w ∨ t = s)
    (hs : cacheMachine.step p (.op t i) = some p') (ha : AlikeBut id r p.shared p'.shared) : Beside w s id r p' u := by
  obtain ⟨c, o, k, x, d, -, hex, rfl⟩ := Machine.step_op hs
  obtain rfl : d = o.after i p.shared := CacheOp.eq_after hex
  refine ⟨ha.symm.trans h.alike, fun he => ?_, h.only, fun now => ?_, fun t' hw hts => (h.threads t' hw hts).trans ?_⟩
  · rcases CacheOp.getElem?_of_after he with he | ⟨-, -, hr⟩
    · exact h.entry he
    · exact absurd hr hA.sole.lt.ne
  · exact (h.valid now).trans (o.valid_after i hA.sole.lt now).symm
  · have hne : t' ≠ t := fun he => ht.elim (fun hf => hw (he.trans hf)) fun hf => hts (he.trans hf)
    exact (Function.update_of_ne hne _ _).symm

/-- A critical section of another thread is the same in both, unless it is a `queue` that is refused. -/
theorem op (h : Beside w s id r p u) (hA : Amid w s id r b p) {t : Nat} {i : Clock}
    (hG : Scheduled w s id b p (.op t i)) (hw : t ≠ w) (hts : t ≠ s) (hs : cacheMachine.step p (.op t i) = some p')
    (hacc : Accepts u (.op t i)) : ∃ u', cacheMachine.step u (.op t i) = some u' ∧ Beside w s id r p' u' := by
  obtain ⟨c, o, k, x, d, ht, hex, rfl⟩ := Machine.step_op hs
  have ht' : u.thread t = some (c, .op o k) := (h.threads t hw hts).trans ht
  have hap := hA.apart hG hw hts ht
  have hap' : o.Apart u.shared id r := ⟨hap.find, hap.await, hap.take, hap.swapNotify, fun valid ho => by
    rw [h.alike.idCounter]
    exact hap.queue valid ho, hap.clear⟩
  obtain ⟨hex', halike⟩ := h.alike.exec hap hA.sole (h.isSome hA)
    (fun valid ho => hacc valid ((Machine.next_of_thread ht').trans (congrArg some ho))) hex
  obtain rfl : d = o.after i p.shared := CacheOp.eq_after hex
  have hlt : r < u.shared.allocated := h.alike.allocated.symm ▸ hA.sole.lt
  refine ⟨⟨o.after i u.shared, Function.update u.thread t (some (c, k x))⟩, ?_, halike, fun he => ?_, fun r' he => ?_,
    fun now => ?_, fun t' hw' hts' => ?_⟩
  · simp only [Machine.step, ht', cacheMachine, hex', Option.map_some]
  · dsimp only at he ⊢
    have hold : p.shared.entries[id]? = some r := hap.of_entry he
    rw [hap'.entry fun ho r' hr' => ?_]
    · exact h.entry hold
    · obtain rfl := h.only r' hr'
      rw [h.valid]
      exact hG.2.2.2.1 ((Machine.next_of_thread ht).trans (congrArg some ho)) r' hold
  · exact h.only r' (hap'.of_entry he)
  · exact (o.valid_after i hlt now).trans ((h.valid now).trans (o.valid_after i hA.sole.lt now).symm)
  · dsimp only
    by_cases htt : t' = t
    · rw [htt, Function.update_self, Function.update_self]
    · rw [Function.update_of_ne htt, Function.update_of_ne htt]
      exact h.threads t' hw' hts'

end Beside

/-- The run without the two calls ends beside the run with them, or comes to a `queue` that it has no room for. -/
theorem beside_run {w s : Nat} {id : UInt64} {r : RowRef} {b : Bytes} (hws : w ≠ s) {p q u : CachePool}
    {as : List (Act CacheCall Clock Empty)} (hA : Amid w s id r b p) (hB : Beside w s id r p u)
    (h : cacheMachine.Steps (Scheduled w s id b) p as q) :
    (∃ v, cacheMachine.Steps Accepts u (others w s as) v ∧ Beside w s id r q v) ∨
      ∃ before a after v, others w s as = before ++ a :: after ∧ cacheMachine.Steps Accepts u before v ∧ ¬ Accepts v a := by
  induction h generalizing u with
  | nil p => exact .inl ⟨u, .nil u, hB⟩
  | @cons p p' q a as hG hs _ ih =>
    have hA' : Amid w s id r b p' := hA.of_steps hws (.cons hG hs (.nil p'))
    -- a step of the two threads is left out
    have hskip : ownStep w s a = true → others w s (a :: as) = others w s as := fun ho => by
      rw [others, List.filter_cons_of_neg (by simp [ho])]
      rfl
    -- another one is made in both runs
    have hboth : ∀ u', ownStep w s a = false → Accepts u a → cacheMachine.step u a = some u' → Beside w s id r p' u' →
        (∃ v, cacheMachine.Steps Accepts u (others w s (a :: as)) v ∧ Beside w s id r q v) ∨
          ∃ before a' after v, others w s (a :: as) = before ++ a' :: after ∧ cacheMachine.Steps Accepts u before v ∧
            ¬ Accepts v a' := by
      intro u' ho hacc hu hB'
      have hkeep : others w s (a :: as) = a :: others w s as := by
        rw [others, List.filter_cons_of_pos (by simp [ho])]
        rfl
      rw [hkeep]
      rcases ih hA' hB' with ⟨v, hv, hBq⟩ | ⟨before, a', after, v, he, hv, hna⟩
      · exact .inl ⟨v, .cons hacc hu hv, hBq⟩
      · exact .inr ⟨a :: before, a', after, v, congrArg (a :: ·) he, .cons hacc hu hv, hna⟩
    cases a with
    | call t c =>
      by_cases ht : t = w ∨ t = s
      · rw [hskip (by simpa [ownStep] using ht)]
        exact ih hA' (hB.own_call ht hs)
      · obtain ⟨hw, hts⟩ := not_or.mp ht
        obtain ⟨u', hu, hB'⟩ := hB.call hw hts hs
        exact hboth u' (by simpa [ownStep] using ht) trivial hu hB'
    | op t i =>
      by_cases ht : t = w ∨ t = s
      · rw [hskip (by simpa [ownStep] using ht)]
        exact ih hA' (hB.own_op hA ht hs ((hA.op hws hG hs).2 ht))
      · have ho : ownStep w s (.op t i) = false := by simpa [ownStep] using ht
        obtain ⟨hw, hts⟩ := not_or.mp ht
        by_cases hacc : Accepts u (.op t i)
        · obtain ⟨u', hu, hB'⟩ := hB.op hA hG hw hts hs hacc
          exact hboth u' ho hacc hu hB'
        · refine .inr ⟨[], .op t i, others w s as, u, ?_, .nil u, hacc⟩
          rw [others, List.filter_cons_of_pos (by simp [ho])]
          rfl
    | env e => exact e.elim

/-! ## An id just handed out -/

theorem amid_of_queue {n : Nat} {p p₁ : CachePool} {t : Nat} {i : Clock} {valid : Time} {id : UInt64}
    (hp : cacheMachine.Reach Machine.Free (.new n) p)
    (ht : p.thread t = some (.queue valid, (CacheCall.queue valid).body))
    (hs : cacheMachine.step p (.op t i) = some p₁) (hid : p₁.result t = some (.queue valid, .id id)) (hne : id ≠ 0)
    {w s : Nat} (hw : p₁.thread w = none) (hts : p₁.thread s = none) (b : Bytes) :
    ∃ r, p₁.shared.entries[id]? = some r ∧ Amid w s id r b p₁ ∧ Beside w s id r p₁ p₁ := by
  obtain ⟨views, hheld, hl⟩ := rowsHeld_of_reach hp
  obtain ⟨c, o, k, x, d, ht', hex, rfl⟩ := Machine.step_op hs
  rw [ht] at ht'
  cases ht'
  have hx : p.shared.queue i.now valid = (x, d) := Option.some.inj hex
  have hres := Machine.result_eq_some hid
  dsimp only at hres
  rw [Function.update_self] at hres
  obtain rfl : x = id := by
    cases hres
    rfl
  by_cases hfull : p.shared.maxEntries ≤ p.shared.entries.size
  · rw [DataCache.queue_full hfull] at hx
    cases hx
    exact absurd rfl hne
  · rw [DataCache.queue_open hfull] at hx
    cases hx
    have hentry : (p.shared.entries.insert (p.shared.idCounter + 1) p.shared.allocated)[p.shared.idCounter + 1]? =
        some p.shared.allocated := ExtTreeMap.getElem?_insert_self
    refine ⟨p.shared.allocated, hentry, ⟨.queued (.inl hw) (.inl hts) hentry ?_, ⟨?_, Nat.lt_succ_self _, ?_⟩, ?_⟩,
      .refl _ _ _, id, fun r' hr' => (Option.some.inj (hentry.symm.trans hr')).symm, fun _ => rfl, fun _ _ _ => rfl⟩
    · simp [DataRead.new]
    · have hall := hheld.allocated.queue i.now valid
      rwa [DataCache.queue_open hfull] at hall
    · intro j hj
      by_contra hji
      dsimp only at hj
      rw [ExtTreeMap.getElem?_insert, if_neg (by simpa using fun hf => hji hf.symm)] at hj
      exact absurd (hheld.allocated j _ hj) (lt_irrefl _)
    · intro t' _ c q hq
      dsimp only at hq
      by_cases htt : t' = t
      · rw [htt, Function.update_self] at hq
        cases hq
        refine ⟨⟨.queue valid, .start⟩, ⟨rfl, fun _ _ hf => by cases hf⟩, fun hf => by cases hf⟩
      · rw [Function.update_of_ne htt] at hq
        obtain ⟨v, hv, hok⟩ := hl.ok hq
        exact ⟨v, hok, fun hf => absurd (hheld.held t' v _ hv hf) (lt_irrefl _)⟩

/-- **The order of reply and wait does not matter.** `queue` has just handed out an id; one `wait` with an empty buffer
and one `swap_notify` with the bytes `b` are called on it, in any schedule in which `wait` does not time out before
`swap_notify` has run. Then `wait` returns true with `b`, `swap_notify` leaves its caller an empty buffer, and the id is
gone once `wait` has returned; once `swap_notify` has run the wait is never stuck. All other threads, entries and rows
are as in the run without the two calls, as long as that run has room for what the others queue. -/
theorem reply_order {n : Nat} {p p₁ q : CachePool} {t w s : Nat} {i : Clock} {valid : Time} {id : UInt64} {b : Bytes}
    {as : List (Act CacheCall Clock Empty)} (hp : cacheMachine.Reach Machine.Free (.new n) p)
    (ht : p.thread t = some (.queue valid, (CacheCall.queue valid).body))
    (hs : cacheMachine.step p (.op t i) = some p₁) (hid : p₁.result t = some (.queue valid, .id id)) (hne : id ≠ 0)
    (hws : w ≠ s) (hw : p₁.thread w = none) (hts : p₁.thread s = none)
    (hrun : cacheMachine.Steps (Scheduled w s id b) p₁ as q) :
    (∀ x, q.result w = some x → x = (.wait id [], .waited true b) ∧ q.shared.entries[id]? = none) ∧
    (∀ x, q.result s = some x → x = (.swapNotify id b, .buffer [])) ∧
    ((q.result s).isSome = true → ∀ o j, q.next w = some o → (o.exec j q.shared).isSome = true) ∧
    ∃ r, p₁.shared.entries[id]? = some r ∧
      ((∃ v, cacheMachine.Steps Accepts p₁ (others w s as) v ∧ AlikeBut id r v.shared q.shared ∧
          ∀ t', t' ≠ w → t' ≠ s → v.thread t' = q.thread t') ∨
        ∃ before a after v, others w s as = before ++ a :: after ∧ cacheMachine.Steps Accepts p₁ before v ∧
          ¬ Accepts v a) := by
  obtain ⟨r, hr, hA, hB⟩ := amid_of_queue hp ht hs hid hne hw hts b
  have hAq := (hA.of_steps hws hrun).meeting
  refine ⟨fun x => hAq.wait_result, fun x => hAq.reply_result, fun hres o j => hAq.wait_enabled hres j, r, hr, ?_⟩
  rcases beside_run hws hA hB hrun with ⟨v, hv, hBq⟩ | hfull
  · exact .inl ⟨v, hv, hBq.alike.symm, hBq.threads⟩
  · exact .inr hfull

def scheduled (w s : Nat) (id : UInt64) (b : Bytes) (p : CachePool) : Act CacheCall Clock Empty → Bool
  | .call t c => decide (t = w → c = .wait id []) && decide (t = s → c = .swapNotify id b)
  | .op t i =>
    match p.next t with
    | some (.find id') => decide (id' = id → t = w)
    | some (.swapNotify id' _) => decide (id' = id → t = s)
    | some (.queue _) => decide (p.shared.idCounter + 1 ≠ id)
    | some .removeObsolete => p.shared.entries[id]?.all fun r => (p.shared.rows r).valid (i.visit id)
    | some .clear => false
    | some (.await _ _) => decide (t = w → i.timeout = true → (p.result s).isSome = true)
    | _ => true
  | .env _ => true

theorem scheduled_sound {w s : Nat} {id : UInt64} {b : Bytes} (p : CachePool) (a : Act CacheCall Clock Empty)
    (h : scheduled w s id b p a = true) : Scheduled w s id b p a := by
  cases a with
  | call t c =>
    simp only [scheduled, Bool.and_eq_true, decide_eq_true_eq] at h
    exact h
  | op t i =>
    refine ⟨fun hn => ?_, fun buffer hn => ?_, fun valid hn => ?_, fun hn r hr => ?_, fun hn => ?_, fun id' r hn => ?_⟩
    · simpa [scheduled, hn] using h
    · simpa [scheduled, hn] using h
    · simpa [scheduled, hn] using h
    · simpa [scheduled, hn, hr] using h
    · simp [scheduled, hn] at h
    · rw [scheduled, hn] at h
      exact of_decide_eq_true h
  | env e => exact e.elim

/-- A `queue` that is about to run on an empty cache. -/
def queueing : CachePool :=
  ⟨.new 4, Function.update (fun _ => none) 0 (some (.queue 2000000000, (CacheCall.queue 2000000000).body))⟩

/-- The wait blocks, the reply comes in, and the wait goes on when its time has run out. -/
def repliedRun : List (Act CacheCall Clock Empty) :=
  [.call 1 (.wait 1 []), .op 1 {}, .call 2 (.swapNotify 1 [7]), .op 2 {}, .op 1 { timeout := true }, .op 1 {}]

theorem reply_order_blocked : ∃ p₁ q : CachePool, cacheMachine.step queueing (.op 0 {}) = some p₁ ∧
    cacheMachine.Steps (Scheduled 1 2 1 [7]) p₁ repliedRun q ∧ (q.result 1).isSome = true ∧
    q.result 1 = some (.wait 1 [], .waited true [7]) := by
  have hp : cacheMachine.Reach Machine.Free (.new 4) queueing :=
    .step (a := .call 0 (.queue 2000000000)) .start trivial rfl
  have hrun : (cacheMachine.step queueing (.op 0 {})).any (fun p₁ =>
      decide (p₁.result 0 = some (.queue 2000000000, .id 1)) && (p₁.thread 1).isNone && (p₁.thread 2).isNone &&
        (cacheMachine.run (scheduled 1 2 1 [7]) p₁ repliedRun).any fun q => (q.result 1).isSome) = true := by
    decide +kernel
  obtain ⟨p₁, hs, hf⟩ := (Option.any_eq_true _ _).mp hrun
  simp only [Bool.and_eq_true, decide_eq_true_eq, Option.isNone_iff_eq_none] at hf
  obtain ⟨⟨⟨hid, hw⟩, hts⟩, hf⟩ := hf
  obtain ⟨q, hq, hres⟩ := (Option.any_eq_true _ _).mp hf
  have hsteps := Machine.Steps.of_run scheduled_sound hq
  obtain ⟨hwait, -⟩ := reply_order hp rfl hs hid (by decide) (by decide) hw hts hsteps
  obtain ⟨x, hx⟩ := Option.isSome_iff_exists.mp hres
  exact ⟨p₁, q, hs, hsteps, hres, hx.trans (congrArg some (hwait x hx).1)⟩

end Radrpc
