import Radrpc.Data.CacheThreads

/-!
# The representation of the cache, over whole runs

* `CacheNumbered` : as long as the id counter has not gone round, the entry under the id `n` is the row `n - 1`;
* `DataCache.queueCallback` : the second overload of `queue`; `callbackMachine` : any number of calls with either one;
* `Represents`, `Continues`, `OnlyRow` : what every state satisfies, what later states keep, and what a call on one id
  leaves alone;
* `SectionView`, `sectionDiscipline` : the id and the row that a call works on, and the id that it has been given;
* `RunInv` : the invariant of a run; every row belongs to a call of its own, so the calls bound the counter;
* `cache_representation` : all of it, in every run of fewer than `2 ^ 64` calls.
-/

namespace Radrpc
open Std Maps Conc

/-! ## What the critical sections keep -/

theorem CacheOp.maxEntries_after (o : CacheOp) (i : Clock) (c : DataCache) :
    (o.after i c).maxEntries = c.maxEntries := by
  cases o with
  | queue valid =>
    by_cases hfull : c.maxEntries ≤ c.entries.size
    · rw [CacheOp.after, DataCache.queue_full hfull]
    · rw [CacheOp.after, DataCache.queue_open hfull]
  | find id =>
    simp only [CacheOp.after, DataCache.find]
    split
    · rfl
    · split <;> rfl
  | swapNotify id buffer =>
    simp only [CacheOp.after, DataCache.swapNotify]
    split
    · rfl
    · dsimp only
      split <;> rfl
  | clear => exact (DataCache.foldl_release_frame _ c).2.2
  | _ => rfl

theorem CacheOp.size_after (o : CacheOp) (i : Clock) {c : DataCache} (h : c.entries.size ≤ c.maxEntries) :
    (o.after i c).entries.size ≤ c.maxEntries := by
  cases o with
  | queue valid =>
    by_cases hfull : c.maxEntries ≤ c.entries.size
    · rwa [CacheOp.after, DataCache.queue_full hfull]
    · simp only [CacheOp.after, DataCache.queue_open hfull]
      exact ExtTreeMap.size_insert_le.trans (Nat.lt_of_not_le hfull)
  | find id =>
    cases he : c.entries[id]? with
    | none => rwa [CacheOp.after, DataCache.find_none he]
    | some r =>
      by_cases hs : (c.rows r).state = .swapped
      · rw [CacheOp.after, DataCache.find_swapped he hs]
        exact ExtTreeMap.size_erase_le.trans h
      · rwa [CacheOp.after, DataCache.find_waits he hs]
  | swapNotify id buffer =>
    cases he : c.entries[id]? with
    | none => rwa [CacheOp.after, DataCache.swapNotify_none he]
    | some r =>
      rw [CacheOp.after, DataCache.swapNotify_entries he]
      split
      · exact ExtTreeMap.size_erase_le.trans h
      · exact h
  | removeObsolete => exact (size_sweep_le _ c.entries c.entries.toList).trans h
  | clear =>
    rw [CacheOp.after, DataCache.clear, DataCache.foldl_release_entries]
    exact (size_sweep_le _ c.entries c.entries.toList).trans h
  | await id row => exact h
  | take row buffer => exact h

theorem CacheOp.counters_after {o : CacheOp} (ho : ∀ valid, o ≠ .queue valid) (i : Clock) (c : DataCache) :
    (o.after i c).allocated = c.allocated ∧ (o.after i c).idCounter = c.idCounter := by
  cases o with
  | queue valid => exact absurd rfl (ho valid)
  | find id =>
    simp only [CacheOp.after, DataCache.find]
    split
    · exact ⟨rfl, rfl⟩
    · split
      · exact ⟨rfl, rfl⟩
      · exact ⟨rfl, rfl⟩
  | swapNotify id buffer => simp [CacheOp.after]
  | clear => simp [CacheOp.after]
  | _ => exact ⟨rfl, rfl⟩

theorem CacheOp.valid_after (o : CacheOp) (i : Clock) {c : DataCache} {r : RowRef} (hr : r < c.allocated) (now : Time) :
    ((o.after i c).rows r).valid now = (c.rows r).valid now := by
  cases o with
  | queue valid =>
    by_cases hfull : c.maxEntries ≤ c.entries.size
    · rw [CacheOp.after, DataCache.queue_full hfull]
    · simp [CacheOp.after, DataCache.queue_open hfull, Nat.ne_of_lt hr]
  | find id =>
    cases h : c.entries[id]? with
    | none => rw [CacheOp.after, DataCache.find_none h]
    | some r₀ =>
      by_cases hs : (c.rows r₀).state = .swapped
      · rw [CacheOp.after, DataCache.find_swapped h hs]
      · by_cases hrow : r = r₀
        · simp [CacheOp.after, DataCache.find_waits h hs, DataCache.setState, hrow, DataRead.valid]
        · simp [CacheOp.after, DataCache.find_waits h hs, DataCache.setState, hrow]
  | await id row => rfl
  | take row buffer =>
    by_cases hrow : r = row
    · simp [CacheOp.after, DataCache.take, hrow, DataRead.valid]
    · simp [CacheOp.after, DataCache.take, hrow]
  | swapNotify id buffer =>
    cases h : c.entries[id]? with
    | none => rw [CacheOp.after, DataCache.swapNotify_none h]
    | some r₀ =>
      by_cases hrow : r = r₀
      · simp [CacheOp.after, DataCache.swapNotify_rows h, hrow, DataRead.valid]
      · simp [CacheOp.after, DataCache.swapNotify_rows h, hrow]
  | removeObsolete => rfl
  | clear =>
    rw [CacheOp.after, DataCache.clear, DataCache.foldl_release_rows]
    split <;> rfl

/-! ## Numbers -/

/-- The entry under `id` is the row that was created with it. -/
structure CacheNumbered (c : DataCache) : Prop where
  counter : c.idCounter.toNat = c.allocated
  keys : ∀ (id : UInt64) r, c.entries[id]? = some r → id.toNat = r + 1 ∧ r < c.allocated

namespace CacheNumbered

variable {c c' : DataCache}

theorem new (n : Nat) : CacheNumbered (.new n) := by
  refine ⟨rfl, fun id r h => ?_⟩
  simp [DataCache.new] at h

theorem toNat_succ (h : CacheNumbered c) (hlt : c.allocated + 1 < 2 ^ 64) :
    (c.idCounter + 1).toNat = c.allocated + 1 := by
  rw [UInt64.toNat_add, h.counter]
  exact Nat.mod_eq_of_lt hlt

theorem shrink (h : CacheNumbered c) (h1 : c'.idCounter = c.idCounter) (h2 : c'.allocated = c.allocated)
    (h3 : ∀ (id : UInt64) r, c'.entries[id]? = some r → c.entries[id]? = some r) : CacheNumbered c' :=
  ⟨by rw [h1, h2, h.counter], fun id r he => h2 ▸ h.keys id r (h3 id r he)⟩

theorem queue (h : CacheNumbered c) (now valid : Time) (hlt : (c.queue now valid).2.allocated < 2 ^ 64) :
    CacheNumbered (c.queue now valid).2 := by
  by_cases hfull : c.maxEntries ≤ c.entries.size
  · rwa [DataCache.queue_full hfull]
  · rw [DataCache.queue_open hfull] at hlt ⊢
    have hid := h.toNat_succ hlt
    refine ⟨hid, fun id r he => ?_⟩
    rw [ExtTreeMap.getElem?_insert] at he
    split at he
    · rename_i heq
      obtain rfl : c.idCounter + 1 = id := by simpa using heq
      obtain rfl : c.allocated = r := by simpa using he
      exact ⟨hid, Nat.lt_succ_self _⟩
    · obtain ⟨h1, h2⟩ := h.keys id r he
      exact ⟨h1, Nat.lt_succ_of_lt h2⟩

theorem after (h : CacheNumbered c) (o : CacheOp) (i : Clock) (hlt : (o.after i c).allocated < 2 ^ 64) :
    CacheNumbered (o.after i c) := by
  by_cases hq : ∃ valid, o = .queue valid
  · obtain ⟨valid, rfl⟩ := hq
    exact h.queue i.now valid hlt
  · obtain ⟨h1, h2⟩ := CacheOp.counters_after (fun valid he => hq ⟨valid, he⟩) i c
    refine h.shrink h2 h1 fun id r he => ?_
    rcases CacheOp.getElem?_of_after he with he | ⟨hf, -⟩
    · exact he
    · exact absurd hf hq

end CacheNumbered

/-! ## Both overloads of `queue` -/

/-- `queue` with a delete callback, which the deleter of the row owns. -/
def DataCache.queueCallback (c : DataCache) (now valid : Time) : UInt64 × DataCache :=
  if c.maxEntries ≤ c.entries.size then (0, c)
  else
    let c' := { c with idCounter := c.idCounter + 1 }
    (c'.idCounter, { c' with
      entries := c'.entries.insert c'.idCounter c.allocated
      rows := Function.update c.rows c.allocated (.new now valid)
      allocated := c.allocated + 1 })

theorem DataCache.queueCallback_eq (c : DataCache) (now valid : Time) :
    c.queueCallback now valid = c.queue now valid := rfl

/-- The critical sections of a cache, with either `queue`. -/
inductive CacheSection where
  | op (o : CacheOp)
  | queueCallback (valid : Time)

namespace CacheSection

abbrev Res : CacheSection → Type
  | .op o => o.Res
  | .queueCallback _ => UInt64

def exec : (o : CacheSection) → Clock → DataCache → Option (o.Res × DataCache)
  | .op o, i, c => o.exec i c
  | .queueCallback valid, i, c => some (c.queueCallback i.now valid)

/-- The critical section without its callback. -/
def plain : CacheSection → CacheOp
  | .op o => o
  | .queueCallback valid => .queue valid

instance (o : CacheSection) : Nonempty o.Res := by
  cases o with
  | op o => exact inferInstanceAs (Nonempty o.Res)
  | queueCallback valid => exact ⟨(0 : UInt64)⟩

theorem eq_after {o : CacheSection} {i : Clock} {c c' : DataCache} {x : o.Res} (h : o.exec i c = some (x, c')) :
    c' = o.plain.after i c := by
  cases o with
  | op o => exact CacheOp.eq_after h
  | queueCallback valid => exact (congrArg Prod.snd (Option.some.inj h)).symm

end CacheSection

/-- The public calls, with either `queue`. -/
inductive CallbackCall where
  | plain (c : CacheCall)
  | queueCallback (valid : Time)

namespace CallbackCall

def body : CallbackCall → Prog CacheSection CacheSection.Res CacheRet
  | .plain c => c.body.lift .op fun _ r => r
  | .queueCallback valid => do
    let id : UInt64 ← Prog.perform (CacheSection.queueCallback valid)
    return .id id

/-- The id that a `wait` or a `swap_notify` is about. -/
def target : CallbackCall → Option UInt64
  | .plain (.wait id _) | .plain (.waitRow id) | .plain (.swapNotify id _) => some id
  | _ => none

end CallbackCall

/-- Calls on one cache, with either `queue`, in any interleaving of their critical sections. -/
def callbackMachine : Machine DataCache CallbackCall CacheSection CacheSection.Res CacheRet Clock Empty where
  body := CallbackCall.body
  exec := fun _ => CacheSection.exec
  env := fun e _ => nomatch e

abbrev CallbackPool := Pool DataCache CallbackCall CacheSection CacheSection.Res CacheRet

/-- The id that a successful `queue` returns. -/
def CacheRet.issued : CacheRet → Option UInt64
  | .id k => if k = 0 then none else some k
  | _ => none

/-- The ids that the successful calls of `queue` return in a run, in their order. -/
def issuedIds (p : CallbackPool) (as : List (Act CallbackCall Clock Empty)) : List UInt64 :=
  (callbackMachine.returns p as).filterMap fun x => x.2.issued

/-! ## What a call works on -/

/-- A call, the row that its lookup has given it, and the id that its `queue` has given it. -/
structure SectionView where
  call : CallbackCall
  row : Option RowRef := none
  queued : Option UInt64 := none

/-- The critical sections of a call: those of a `wait` or a `swap_notify` are about its id and the row it has found, and
a `queue` is the last one. -/
def sectionDiscipline : Discipline CacheSection CacheSection.Res SectionView where
  pre := fun v o => v.queued = none ∧
    match o with
    | .op (.find id) | .op (.swapNotify id _) => v.call.target = some id
    | .op (.await id r) => v.call.target = some id ∧ v.row = some r
    | .op (.take r _) => v.row = some r
    | _ => v.call.target = none
  post := fun v o x =>
    match o, x with
    | .op (.find _), .ready r => { v with row := some r }
    | .op (.find _), .blocked r => { v with row := some r }
    | .op (.queue _), k => { v with queued := some k }
    | .queueCallback _, k => { v with queued := some k }
    | _, _ => v

/-- What a call may rely on when it returns. -/
def SectionView.Returns (v : SectionView) (ret : CacheRet) : Prop := ∀ id, ret = .id id → v.queued = some id

theorem callbackCall_ok (c : CallbackCall) :
    sectionDiscipline.Ok (fun ret v => v.call = c ∧ v.Returns ret) { call := c } c.body := by
  have hnone : ∀ v : SectionView, ∀ success buffer, v.Returns (.waited success buffer) :=
    fun v success buffer id he => by cases he
  cases c with
  | queueCallback valid => exact ⟨⟨rfl, rfl⟩, fun id => ⟨rfl, fun id' he => (by cases he; rfl)⟩⟩
  | plain c =>
    cases c with
    | queue valid => exact ⟨⟨rfl, rfl⟩, fun id => ⟨rfl, fun id' he => (by cases he; rfl)⟩⟩
    | swapNotify id buffer => exact ⟨⟨rfl, rfl⟩, fun rest => ⟨rfl, fun id' he => (by cases he)⟩⟩
    | removeObsolete => exact ⟨⟨rfl, rfl⟩, fun _ => ⟨rfl, fun id' he => (by cases he)⟩⟩
    | clear => exact ⟨⟨rfl, rfl⟩, fun _ => ⟨rfl, fun id' he => (by cases he)⟩⟩
    | waitRow id =>
      refine ⟨⟨rfl, rfl⟩, fun found => ?_⟩
      cases found with
      | invalid => exact ⟨rfl, fun id' he => (by cases he)⟩
      | ready row => exact ⟨rfl, fun id' he => (by cases he)⟩
      | blocked row => exact ⟨⟨rfl, rfl, rfl⟩, fun success => ⟨rfl, fun id' he => (by cases he)⟩⟩
    | wait id buffer =>
      refine ⟨⟨rfl, rfl⟩, fun found => ?_⟩
      cases found with
      | invalid => exact ⟨rfl, hnone _ _ _⟩
      | ready row => exact ⟨⟨rfl, rfl⟩, fun out => ⟨rfl, hnone _ _ _⟩⟩
      | blocked row => exact ⟨⟨rfl, rfl, rfl⟩, fun success => ⟨⟨rfl, rfl⟩, fun out => ⟨rfl, hnone _ _ _⟩⟩⟩

theorem queued_post {v : SectionView} {o : CacheSection} {i : Clock} {c c' : DataCache} {x : o.Res} {id : UInt64}
    (hex : o.exec i c = some (x, c')) (hq : (sectionDiscipline.post v o x).queued = some id) :
    v.queued = some id ∨ ∃ valid, o.plain = .queue valid ∧ c.queue i.now valid = (id, c') := by
  cases o with
  | queueCallback valid =>
    obtain rfl : x = id := Option.some.inj hq
    exact .inr ⟨valid, rfl, (c.queueCallback_eq i.now valid).symm.trans (Option.some.inj hex)⟩
  | op o =>
    cases o with
    | queue valid =>
      obtain rfl : x = id := Option.some.inj hq
      exact .inr ⟨valid, rfl, Option.some.inj hex⟩
    | find id' => cases x <;> exact .inl hq
    | _ => exact .inl hq

theorem queued_of_queue {v : SectionView} {o : CacheSection} {valid : Time} (ho : o.plain = .queue valid) (x : o.Res) :
    (sectionDiscipline.post v o x).queued ≠ none := by
  cases o with
  | queueCallback valid' => simp [sectionDiscipline]
  | op o =>
    cases (ho : o = .queue valid)
    simp [sectionDiscipline]

theorem row_post {v : SectionView} {o : CacheSection} {i : Clock} {c c' : DataCache} {x : o.Res} {r : RowRef}
    (hex : o.exec i c = some (x, c')) (hr : (sectionDiscipline.post v o x).row = some r) :
    v.row = some r ∨ ∃ id, o = .op (.find id) ∧ c.entries[id]? = some r := by
  cases o with
  | queueCallback valid => exact .inl hr
  | op o =>
    cases o with
    | find id =>
      have hf : c.find id = (x, c') := Option.some.inj hex
      cases he : c.entries[id]? with
      | none =>
        rw [DataCache.find_none he] at hf
        cases hf
        exact .inl hr
      | some r₀ =>
        right
        refine ⟨id, rfl, ?_⟩
        by_cases hs : (c.rows r₀).state = .swapped
        · rw [DataCache.find_swapped he hs] at hf
          cases hf
          exact he.trans hr
        · rw [DataCache.find_waits he hs] at hf
          cases hf
          exact he.trans hr
    | _ => exact .inl hr

@[simp] theorem sectionDiscipline_call (v : SectionView) (o : CacheSection) (x : o.Res) :
    (sectionDiscipline.post v o x).call = v.call := by
  cases o with
  | queueCallback valid => rfl
  | op o =>
    cases o with
    | find id => cases x <;> rfl
    | _ => rfl

/-! ## The invariant of a run -/

/-- The representation invariant of a cache for at most `n` rows: a key has been handed out, so it is not 0, and leads to
the row that was made with it. -/
structure Represents (n : Nat) (c : DataCache) : Prop where
  size : c.entries.size ≤ n
  keys : ∀ (id : UInt64) r, c.entries[id]? = some r → 1 ≤ id ∧ id ≤ c.idCounter ∧ id.toNat = r + 1

/-- What the later state `c'` keeps of `c`. -/
structure Continues (c c' : DataCache) : Prop where
  idCounter : c.idCounter ≤ c'.idCounter
  allocated : c.allocated ≤ c'.allocated
  swapped : ∀ r < c.allocated, (c.rows r).state = .swapped → (c'.rows r).state = .swapped
  removed : ∀ id : UInt64, 1 ≤ id → id ≤ c.idCounter → c.entries[id]? = none → c'.entries[id]? = none

/-- From `c` to `c'` at most the entry and the row of `id` have changed. -/
structure OnlyRow (id : UInt64) (c c' : DataCache) : Prop where
  idCounter : c'.idCounter = c.idCounter
  allocated : c'.allocated = c.allocated
  entries : ∀ k ≠ id, c'.entries[k]? = c.entries[k]?
  rows : ∀ r, id.toNat ≠ r + 1 → c'.rows r = c.rows r

namespace Continues

variable {c c' c'' : DataCache}

theorem refl (c : DataCache) : Continues c c :=
  ⟨UInt64.le_refl _, Nat.le_refl _, fun _ _ hs => hs, fun _ _ _ hn => hn⟩

theorem trans (h : Continues c c') (h' : Continues c' c'') : Continues c c'' where
  idCounter := UInt64.le_trans h.idCounter h'.idCounter
  allocated := h.allocated.trans h'.allocated
  swapped := fun r hr hs => h'.swapped r (hr.trans_le h.allocated) (h.swapped r hr hs)
  removed := fun id h1 hid hn => h'.removed id h1 (UInt64.le_trans hid h.idCounter) (h.removed id h1 hid hn)

theorem after (hn : CacheNumbered c) (o : CacheOp) (i : Clock) (hlt : (o.after i c).allocated < 2 ^ 64) :
    Continues c (o.after i c) := by
  have hle := o.allocated_le i c
  have hn' := hn.after o i hlt
  refine ⟨?_, hle, fun r hr hs => o.swapped_after i hr hs, fun id _ hid hnone => ?_⟩
  · rw [UInt64.le_iff_toNat_le, hn.counter, hn'.counter]
    exact hle
  · cases he : (o.after i c).entries[id]? with
    | none => rfl
    | some r =>
      rcases CacheOp.getElem?_of_after he with he' | ⟨-, -, hr⟩
      · rw [hnone] at he'
        cases he'
      · -- a new entry has an id beyond the counter
        have hkey := (hn'.keys id r he).1
        rw [UInt64.le_iff_toNat_le, hkey, hn.counter, hr] at hid
        exact absurd hid (Nat.not_succ_le_self _)

end Continues

theorem CacheNumbered.represents {c : DataCache} (hn : CacheNumbered c) {n : Nat} (hs : c.entries.size ≤ n) :
    Represents n c := by
  refine ⟨hs, fun id r he => ?_⟩
  obtain ⟨hid, hr⟩ := hn.keys id r he
  refine ⟨?_, ?_, hid⟩
  · rw [UInt64.le_iff_toNat_le, hid]
    exact Nat.le_add_left 1 r
  · rw [UInt64.le_iff_toNat_le, hid, hn.counter]
    exact hr

theorem DataCache.queue_cases {c c' : DataCache} {now valid : Time} {id : UInt64} (h : c.queue now valid = (id, c')) :
    (c.maxEntries ≤ c.entries.size ∧ id = 0 ∧ c' = c) ∨
    (c.entries.size < c.maxEntries ∧ id = c.idCounter + 1 ∧ c'.allocated = c.allocated + 1) := by
  by_cases hfull : c.maxEntries ≤ c.entries.size
  · rw [DataCache.queue_full hfull] at h
    cases h
    exact .inl ⟨hfull, rfl, rfl⟩
  · rw [DataCache.queue_open hfull] at h
    cases h
    exact .inr ⟨Nat.lt_of_not_le hfull, rfl, rfl⟩

/-- The invariant of a run. The rows belong to different calls of `queue`. -/
structure RunInv (n : Nat) (c : DataCache) (views : Nat → Option SectionView) : Prop where
  room : c.maxEntries = n
  size : c.entries.size ≤ n
  numbered : c.allocated < 2 ^ 64 → CacheNumbered c
  rows : c.allocated < 2 ^ 64 → ∀ t v r, views t = some v → v.row = some r →
    ∃ id, v.call.target = some id ∧ id.toNat = r + 1
  queuers : ∃ Q : Finset Nat, c.allocated ≤ Q.card ∧ ∀ t ∈ Q, ∃ v, views t = some v ∧ v.queued ≠ none

namespace RunInv

variable {n : Nat} {c c' : DataCache} {views : Nat → Option SectionView}

theorem new (n : Nat) : RunInv n (.new n) fun _ => none :=
  ⟨rfl, Nat.zero_le n, fun _ => CacheNumbered.new n, fun _ _ _ _ hv => (by cases hv), ∅, Nat.le_refl 0, by simp⟩

theorem call (h : RunInv n c views) {t : Nat} (ht : views t = none) (call : CallbackCall) :
    RunInv n c (Function.update views t (some { call := call })) := by
  obtain ⟨Q, hcard, hQ⟩ := h.queuers
  refine ⟨h.room, h.size, h.numbered, fun hlt t' v r hv hr => ?_, Q, hcard, fun t' ht' => ?_⟩
  · rcases view_of_update hv with ⟨-, rfl⟩ | ⟨-, hv⟩
    · cases hr
    · exact h.rows hlt t' v r hv hr
  · obtain ⟨v, hv, hq⟩ := hQ t' ht'
    have hne : t' ≠ t := by
      rintro rfl
      rw [ht] at hv
      cases hv
    exact ⟨v, by rwa [Function.update_of_ne hne], hq⟩

theorem queuers_exec (h : RunInv n c views) {t : Nat} {v : SectionView} {o : CacheSection} {i : Clock} {x : o.Res}
    (hv : views t = some v) (hpre : sectionDiscipline.pre v o) (hex : o.exec i c = some (x, c')) :
    ∃ Q : Finset Nat, c'.allocated ≤ Q.card ∧
      ∀ t' ∈ Q, ∃ w, Function.update views t (some (sectionDiscipline.post v o x)) t' = some w ∧ w.queued ≠ none := by
  obtain ⟨Q, hcard, hQ⟩ := h.queuers
  have hfresh : t ∉ Q := by
    intro ht
    obtain ⟨v', hv', hq⟩ := hQ t ht
    rw [hv] at hv'
    cases hv'
    exact hq hpre.1
  have hother : ∀ t' ∈ Q, ∃ w,
      Function.update views t (some (sectionDiscipline.post v o x)) t' = some w ∧ w.queued ≠ none := by
    intro t' ht'
    have hne : t' ≠ t := fun he => hfresh (he ▸ ht')
    rw [Function.update_of_ne hne]
    exact hQ t' ht'
  by_cases ho : ∃ valid, o.plain = .queue valid
  · obtain ⟨valid, ho⟩ := ho
    refine ⟨insert t Q, ?_, fun t' ht' => ?_⟩
    · have hle : c'.allocated ≤ c.allocated + 1 := by
        rcases hq : c.queue i.now valid with ⟨id, d⟩
        rw [CacheSection.eq_after hex, ho, CacheOp.after, hq]
        rcases DataCache.queue_cases hq with ⟨-, -, rfl⟩ | ⟨-, -, he⟩
        · exact Nat.le_succ _
        · exact Nat.le_of_eq he
      rw [Finset.card_insert_of_notMem hfresh]
      exact hle.trans (Nat.succ_le_succ hcard)
    · rcases Finset.mem_insert.mp ht' with rfl | ht'
      · exact ⟨_, Function.update_self t' _ views, queued_of_queue ho x⟩
      · exact hother t' ht'
  · refine ⟨Q, ?_, hother⟩
    rw [CacheSection.eq_after hex, (CacheOp.counters_after (fun valid hv => ho ⟨valid, hv⟩) i c).1]
    exact hcard

theorem exec (h : RunInv n c views) {t : Nat} {v : SectionView} {o : CacheSection} {i : Clock} {x : o.Res}
    (hv : views t = some v) (hpre : sectionDiscipline.pre v o) (hex : o.exec i c = some (x, c')) :
    RunInv n c' (Function.update views t (some (sectionDiscipline.post v o x))) := by
  have hc := CacheSection.eq_after hex
  have hle : c.allocated ≤ c'.allocated := hc ▸ o.plain.allocated_le i c
  refine ⟨?_, ?_, fun hlt => ?_, fun hlt t' w r hw hr => ?_, h.queuers_exec hv hpre hex⟩
  · rw [hc, CacheOp.maxEntries_after, h.room]
  · rw [hc, ← h.room]
    exact o.plain.size_after i (h.room.symm ▸ h.size)
  · rw [hc] at hlt ⊢
    exact (h.numbered ((o.plain.allocated_le i c).trans_lt hlt)).after o.plain i hlt
  · have hlt' := hle.trans_lt hlt
    rcases view_of_update hw with ⟨-, rfl⟩ | ⟨-, hw⟩
    · rw [sectionDiscipline_call]
      rcases row_post hex hr with hr | ⟨id, rfl, he⟩
      · exact h.rows hlt' t v r hv hr
      · exact ⟨id, hpre.2, ((h.numbered hlt').keys id r he).1⟩
    · exact h.rows hlt' t' w r hw hr

end RunInv

theorem runInv_of_reach {n : Nat} {p : CallbackPool} (hp : callbackMachine.Reach Machine.Free (.new n) p) :
    ∃ views, RunInv n p.shared views ∧
      Machine.Linked sectionDiscipline (fun _ c ret v => v.call = c ∧ v.Returns ret) p views := by
  refine Machine.sound (fun _ c => { call := c }) (RunInv.new n) (fun _ c => callbackCall_ok c) ?_ ?_ ?_ hp
  · exact fun p views t c _ _ hinv _ ht => hinv.call ht c
  · exact fun p views t i o v x c' _ _ hinv _ _ hv hpre hex => hinv.exec hv hpre hex
  · exact fun p views e => e.elim

/-! ## A call on one id -/

namespace OnlyRow

variable {c : DataCache} {id : UInt64}

theorem refl (id : UInt64) (c : DataCache) : OnlyRow id c c := ⟨rfl, rfl, fun _ _ => rfl, fun _ _ => rfl⟩

theorem find (hn : CacheNumbered c) (id : UInt64) : OnlyRow id c (c.find id).2 := by
  cases he : c.entries[id]? with
  | none =>
    rw [DataCache.find_none he]
    exact refl id c
  | some r =>
    by_cases hs : (c.rows r).state = .swapped
    · rw [DataCache.find_swapped he hs]
      refine ⟨rfl, rfl, fun k hk => ?_, fun _ _ => rfl⟩
      rw [ExtTreeMap.getElem?_erase, if_neg (by simpa using hk.symm)]
    · rw [DataCache.find_waits he hs]
      refine ⟨rfl, rfl, fun _ _ => rfl, fun r' hr' => ?_⟩
      have hne : r' ≠ r := by
        rintro rfl
        exact hr' (hn.keys id r' he).1
      simp [DataCache.setState, hne]

theorem take {r : RowRef} (hr : id.toNat = r + 1) (buffer : Bytes) : OnlyRow id c (c.take r buffer).2 := by
  refine ⟨rfl, rfl, fun _ _ => rfl, fun r' hr' => ?_⟩
  have hne : r' ≠ r := by
    rintro rfl
    exact hr' hr
  simp [DataCache.take, hne]

theorem swapNotify (hn : CacheNumbered c) (id : UInt64) (buffer : Bytes) :
    OnlyRow id c (c.swapNotify id buffer).2 := by
  cases he : c.entries[id]? with
  | none =>
    rw [DataCache.swapNotify_none he]
    exact refl id c
  | some r =>
    refine ⟨by simp, by simp, fun k hk => ?_, fun r' hr' => ?_⟩
    · rw [DataCache.swapNotify_entries he]
      split
      · rw [ExtTreeMap.getElem?_erase, if_neg (by simpa using hk.symm)]
      · rfl
    · have hne : r' ≠ r := by
        rintro rfl
        exact hr' (hn.keys id r' he).1
      rw [DataCache.swapNotify_rows he, Function.update_of_ne hne]

theorem exec (hn : CacheNumbered c) {c' : DataCache} {v : SectionView} {o : CacheSection} {i : Clock} {x : o.Res}
    (hpre : sectionDiscipline.pre v o) (hid : v.call.target = some id)
    (hrow : ∀ r, v.row = some r → ∃ k, v.call.target = some k ∧ k.toNat = r + 1)
    (hex : o.exec i c = some (x, c')) : OnlyRow id c c' := by
  have hc := CacheSection.eq_after hex
  have hnone : v.call.target ≠ none := by simp [hid]
  cases o with
  | queueCallback valid => exact absurd hpre.2 hnone
  | op o =>
    cases o with
    | find k =>
      obtain rfl : k = id := Option.some.inj (hpre.2.symm.trans hid)
      exact hc ▸ find hn k
    | swapNotify k buffer =>
      obtain rfl : k = id := Option.some.inj (hpre.2.symm.trans hid)
      exact hc ▸ swapNotify hn k buffer
    | await k r => exact hc ▸ refl id c
    | take r buffer =>
      obtain ⟨k, hk, hr⟩ := hrow r hpre.2
      obtain rfl : k = id := Option.some.inj (hk.symm.trans hid)
      exact hc ▸ take hr buffer
    | queue valid => exact absurd hpre.2 hnone
    | removeObsolete => exact absurd hpre.2 hnone
    | clear => exact absurd hpre.2 hnone

end OnlyRow

/-! ## Whole runs -/

section Runs

variable {n : Nat} {as bs : List (Act CallbackCall Clock Empty)} {p p' q : CallbackPool}

theorem allocated_le_calls (hp : callbackMachine.Steps Machine.Free (.initial (.new n)) as p) :
    p.shared.allocated ≤ (as.filterMap Act.starts).length := by
  obtain ⟨views, hinv, hl⟩ := runInv_of_reach (Machine.Reach.start.of_steps hp)
  obtain ⟨Q, hcard, hQ⟩ := hinv.queuers
  have hsub : Q ⊆ (as.filterMap Act.starts).toFinset := by
    intro t ht
    obtain ⟨v, hv, -⟩ := hQ t ht
    refine List.mem_toFinset.mpr (hp.started fun hn => ?_)
    rcases hl t with ⟨-, hnone⟩ | ⟨c, prog, v', hth, -⟩
    · rw [hnone] at hv
      cases hv
    · rw [hn] at hth
      cases hth
  exact hcard.trans ((Finset.card_le_card hsub).trans (List.toFinset_card_le _))

theorem allocated_le_of_steps (h : callbackMachine.Steps Machine.Free p bs q) :
    p.shared.allocated ≤ q.shared.allocated := by
  refine h.keeps (P := fun p' => p.shared.allocated ≤ p'.shared.allocated) (fun p' a p'' hle _ hs => ?_) (Nat.le_refl _)
  refine Machine.step_shared (I := fun c => p.shared.allocated ≤ c.allocated) ?_ (fun e => e.elim) hle hs
  intro t o i c x c' hc hex
  rw [CacheSection.eq_after hex]
  exact hc.trans (o.plain.allocated_le i c)

theorem continues_of_step (hp : callbackMachine.Reach Machine.Free (.new n) p) {a : Act CallbackCall Clock Empty}
    (hs : callbackMachine.step p a = some p') (hlt : p'.shared.allocated < 2 ^ 64) :
    Continues p.shared p'.shared := by
  obtain ⟨views, hinv, -⟩ := runInv_of_reach hp
  cases a with
  | call t c =>
    obtain ⟨-, rfl⟩ := Machine.step_call hs
    exact Continues.refl _
  | env e => exact e.elim
  | op t i =>
    obtain ⟨c, o, k, x, c', -, hex, rfl⟩ := Machine.step_op hs
    have hc' := CacheSection.eq_after hex
    dsimp only at hlt ⊢
    rw [hc'] at hlt ⊢
    exact Continues.after (hinv.numbered ((o.plain.allocated_le i p.shared).trans_lt hlt)) o.plain i hlt

theorem continues_of_steps (hp : callbackMachine.Reach Machine.Free (.new n) p)
    (h : callbackMachine.Steps Machine.Free p bs q) (hlt : q.shared.allocated < 2 ^ 64) :
    Continues p.shared q.shared := by
  induction h with
  | nil p => exact Continues.refl _
  | cons hG hs hrest ih =>
    exact (continues_of_step hp hs ((allocated_le_of_steps hrest).trans_lt hlt)).trans (ih (hp.step hG hs) hlt)

theorem call_of_section {c : CallbackCall} {prog : Prog CacheSection CacheSection.Res CacheRet} {v : SectionView}
    (h : sectionDiscipline.Ok (fun ret w => w.call = c ∧ w.Returns ret) v prog) : v.call = c := by
  obtain ⟨_, w, hw, hvw⟩ := h.exists_return (I := fun w => w.call = v.call)
    (fun w o x hw => (sectionDiscipline_call w o x).trans hw) rfl
  exact hvw.symm.trans hw.1

theorem queue_of_step (hp : callbackMachine.Reach Machine.Free (.new n) p) {t : Nat} {i : Clock}
    (hs : callbackMachine.step p (.op t i) = some p') {c : CallbackCall} {id : UInt64}
    (hr : p'.result t = some (c, .id id)) : ∃ now valid, p.shared.queue now valid = (id, p'.shared) := by
  obtain ⟨views, -, hl⟩ := runInv_of_reach hp
  obtain ⟨c', o, k, x, d, hth, hex, rfl⟩ := Machine.step_op hs
  obtain ⟨v, -, hok⟩ := hl.ok hth
  have hret := Machine.result_eq_some hr
  dsimp only at hret
  rw [Function.update_self, Option.some.injEq, Prod.mk.injEq] at hret
  have hreturns := hok.2 x
  rw [hret.2] at hreturns
  rcases queued_post hex (hreturns.2 id rfl) with hq | ⟨valid, -, hq⟩
  · rw [hok.1.1] at hq
    cases hq
  · exact ⟨i.now, valid, hq⟩

theorem issuedIds_cons {a : Act CallbackCall Clock Empty} (hs : callbackMachine.step p a = some p') :
    issuedIds p (a :: as) = ((Machine.returned p' a).bind fun x => x.2.issued).toList ++ issuedIds p' as := by
  rw [issuedIds, Machine.returns_cons hs, List.filterMap_append]
  congr 1
  cases Machine.returned p' a with
  | none => rfl
  | some x =>
    rw [Option.toList_some, Option.bind_some]
    cases hx : x.2.issued with
    | none => simp [hx]
    | some id => simp [hx]

theorem issued_of_step (hp : callbackMachine.Reach Machine.Free (.new n) p) {a : Act CallbackCall Clock Empty}
    (hs : callbackMachine.step p a = some p') (hlt : p'.shared.allocated < 2 ^ 64) {id : UInt64}
    (hid : ((Machine.returned p' a).bind fun x => x.2.issued) = some id) :
    id.toNat = p.shared.allocated + 1 ∧ p'.shared.allocated = p.shared.allocated + 1 := by
  obtain ⟨⟨c, ret⟩, hret, hid⟩ := Option.bind_eq_some_iff.mp hid
  cases a with
  | call t c => cases hret
  | env e => exact e.elim
  | op t i =>
    cases ret with
    | id k =>
      simp only [CacheRet.issued] at hid
      split at hid
      · cases hid
      · rename_i hk
        obtain rfl : k = id := Option.some.inj hid
        obtain ⟨now, valid, hq⟩ := queue_of_step hp hs hret
        rcases DataCache.queue_cases hq with ⟨-, h0, -⟩ | ⟨-, rfl, halloc⟩
        · exact absurd h0 hk
        · obtain ⟨views, hinv, -⟩ := runInv_of_reach hp
          rw [halloc] at hlt
          exact ⟨(hinv.numbered (Nat.lt_of_succ_lt hlt)).toNat_succ hlt, halloc⟩
    | _ => cases hid

theorem issuedIds_increasing (hp : callbackMachine.Reach Machine.Free (.new n) p)
    (h : callbackMachine.Steps Machine.Free p bs q) (hlt : q.shared.allocated < 2 ^ 64) :
    (issuedIds p bs).Pairwise (· < ·) ∧ ∀ id ∈ issuedIds p bs, p.shared.allocated < id.toNat := by
  induction h with
  | nil p => exact ⟨List.Pairwise.nil, fun id hid => (by cases hid)⟩
  | @cons p p' q a bs hG hs hrest ih =>
    have hlt' := (allocated_le_of_steps hrest).trans_lt hlt
    obtain ⟨hpair, hall⟩ := ih (hp.step hG hs) hlt
    rw [issuedIds_cons hs]
    cases hissued : (Machine.returned p' a).bind fun x => x.2.issued with
    | none =>
      have hle := (continues_of_step hp hs hlt').allocated
      exact ⟨hpair, fun id hid => hle.trans_lt (hall id hid)⟩
    | some id =>
      obtain ⟨hid, halloc⟩ := issued_of_step hp hs hlt' hissued
      refine ⟨List.pairwise_cons.mpr ⟨fun k hk => ?_, hpair⟩, fun k hk => ?_⟩
      · rw [UInt64.lt_iff_toNat_lt, hid, ← halloc]
        exact hall k hk
      · rcases List.mem_cons.mp hk with rfl | hk
        · rw [hid]
          exact Nat.lt_succ_self _
        · exact (Nat.lt_of_succ_le (Nat.le_of_eq halloc.symm)).trans (hall k hk)

/-- **The representation invariant of the cache.** In every run of fewer than `2 ^ 64` calls, whatever their order and
interleaving, and for every state `p` of the run: the table holds at most `n` rows and its keys lie between 1 and the id
counter; in every later state `q` a swapped row is still swapped and an id that has left the table is not in it; the ids
that successful calls of `queue` return in the run are strictly increasing; a `queue` returns 0 exactly when the table is
full, and then changes nothing; and a step of a `wait` or a `swap_notify` changes at most the entry and the row of its
id. -/
theorem cache_representation (hp : callbackMachine.Steps Machine.Free (.initial (.new n)) as p)
    (hq : callbackMachine.Steps Machine.Free p bs q) (hcalls : ((as ++ bs).filterMap Act.starts).length < 2 ^ 64) :
    Represents n p.shared ∧ Continues p.shared q.shared ∧
    (issuedIds (.initial (.new n)) (as ++ bs)).Pairwise (· < ·) ∧
    ∀ t i p', callbackMachine.step p (.op t i) = some p' →
      (∀ c id, p'.result t = some (c, .id id) →
        (id = 0 ↔ n ≤ p.shared.entries.size) ∧ (id = 0 → p'.shared = p.shared)) ∧
      ∀ c prog id, p.thread t = some (c, prog) → c.target = some id → OnlyRow id p.shared p'.shared := by
  have hreach := Machine.Reach.start.of_steps hp
  obtain ⟨views, hinv, hl⟩ := runInv_of_reach hreach
  have hltq := (allocated_le_calls (hp.trans hq)).trans_lt hcalls
  have hltp := (allocated_le_of_steps hq).trans_lt hltq
  have hn := hinv.numbered hltp
  refine ⟨hn.represents hinv.size, continues_of_steps hreach hq hltq,
    (issuedIds_increasing .start (hp.trans hq) hltq).1, fun t i p' hs => ⟨fun c id hr => ?_, fun c prog id hth hid => ?_⟩⟩
  · obtain ⟨now, valid, hqueue⟩ := queue_of_step hreach hs hr
    rcases DataCache.queue_cases hqueue with ⟨hfull, h0, hsame⟩ | ⟨hopen, hnext, halloc⟩
    · exact ⟨⟨fun _ => hinv.room ▸ hfull, fun _ => h0⟩, fun _ => hsame⟩
    · have hcount : p'.shared.allocated < 2 ^ 64 := by
        refine (allocated_le_calls (hp.trans (.cons trivial hs (.nil p')))).trans_lt (Nat.lt_of_le_of_lt ?_ hcalls)
        simp only [List.filterMap_append, List.length_append]
        exact Nat.add_le_add_left (Nat.zero_le _) _
      have hne : id ≠ 0 := by
        intro h0
        have hsucc := hn.toNat_succ (halloc ▸ hcount)
        rw [← hnext, h0] at hsucc
        cases hsucc
      exact ⟨⟨fun h0 => absurd h0 hne, fun hle => absurd (hinv.room ▸ hopen) (Nat.not_lt.mpr hle)⟩,
        fun h0 => absurd h0 hne⟩
  · obtain ⟨c', o, k, x, d, hth', hex, rfl⟩ := Machine.step_op hs
    obtain ⟨v, hv, hok⟩ := hl.ok hth'
    obtain rfl : c = c' := congrArg Prod.fst (Option.some.inj (hth.symm.trans hth'))
    have hcall : v.call = c := call_of_section hok
    exact OnlyRow.exec hn hok.1 (hcall.symm ▸ hid) (fun r hr => hinv.rows hltp t v r hv hr) hex

end Runs

/-- Both rows of a cache are taken, one by either `queue`; a third request is refused; the response to the first one
comes and is collected. -/
def collected : List (Act CallbackCall Clock Empty) :=
  [.call 0 (.plain (.queue 5)), .op 0 {}, .call 1 (.queueCallback 5), .op 1 {}, .call 2 (.queueCallback 5), .op 2 {},
    .call 3 (.plain (.swapNotify 1 [7])), .op 3 {}, .call 4 (.plain (.wait 1 [])), .op 4 {}, .op 4 {}]

/-- The next request takes the free place, under an id of its own. -/
def requeued : List (Act CallbackCall Clock Empty) := [.call 5 (.plain (.queue 5)), .op 5 {}]

theorem cache_representation_requeued : ∃ p q : CallbackPool,
    callbackMachine.Steps Machine.Free (.initial (.new 2)) collected p ∧
    callbackMachine.Steps Machine.Free p requeued q ∧ q.shared.entries[(1 : UInt64)]? = none ∧
    q.shared.entries[(3 : UInt64)]? = some 2 ∧ Represents 2 p.shared ∧ Continues p.shared q.shared ∧
    (issuedIds (.initial (.new 2)) (collected ++ requeued)).Pairwise (· < ·) := by
  have hrun : ((callbackMachine.run (fun _ _ => true) (.initial (.new 2)) collected).any fun p =>
      (callbackMachine.run (fun _ _ => true) p requeued).any fun q =>
        q.shared.entries[(1 : UInt64)]?.isNone && decide (q.shared.entries[(3 : UInt64)]? = some 2)) = true := by
    decide +kernel
  obtain ⟨p, hp, hrun⟩ := (Option.any_eq_true _ _).mp hrun
  obtain ⟨q, hq, hf⟩ := (Option.any_eq_true _ _).mp hrun
  simp only [Bool.and_eq_true, Option.isNone_iff_eq_none, decide_eq_true_eq] at hf
  have hp' := Machine.Steps.of_run (G := Machine.Free) (fun _ _ _ => trivial) hp
  have hq' := Machine.Steps.of_run (G := Machine.Free) (fun _ _ _ => trivial) hq
  have h := cache_representation hp' hq' (by decide)
  exact ⟨p, q, hp', hq', hf.1, hf.2, h.1, h.2.1, h.2.2.1⟩

/-- The ids of this run. -/
example : issuedIds (.initial (.new 2)) (collected ++ requeued) = [1, 2, 3] := by decide +kernel

end Radrpc
