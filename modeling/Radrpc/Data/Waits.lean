import Radrpc.Data.CacheThreads

/-!
# What `wait()` hands out

The inner `wait` decides under the row lock whether the data was received; the outer one locks the row again and swaps
the buffers, whatever the answer was.

* `WaitStage`, `Waiter` : how far a call has come; `stageDiscipline` : the critical sections of each stage;
* `InGap` : a wait has timed out and has not swapped the buffers yet;
* `EmptyHanded` : the steps that leave a timed-out wait with nothing to swap;
* `timed_out_delivers_nothing` : then a wait that returns false leaves the caller's buffer as it was;
* `timed_out_delivers` : a reply that comes in between is handed out with the failure.
-/

namespace Radrpc
open Std Conc

/-- How far a wait has come. -/
inductive WaitStage where
  | start
  | blocked (id : UInt64) (row : RowRef)
  | holding (row : RowRef) (success : Bool)
  | answered (success : Bool) (out : Bytes)
  deriving DecidableEq, Repr

def WaitStage.row : WaitStage → Option RowRef
  | .blocked _ r => some r
  | .holding r _ => some r
  | _ => none

def CacheCall.buffer : CacheCall → Bytes
  | .wait _ buffer => buffer
  | _ => []

deriving instance DecidableEq for CacheCall

/-- A call and how far it has come. -/
structure Waiter where
  call : CacheCall
  stage : WaitStage := .start

/-- The critical sections of each stage, and where they lead. -/
def stageDiscipline : Discipline CacheOp CacheOp.Res Waiter where
  pre := fun v o =>
    match v.stage with
    | .start => (∀ id r, o ≠ .await id r) ∧ ∀ r buffer, o ≠ .take r buffer
    | .blocked id r => o = .await id r
    | .holding r _ => o = .take r v.call.buffer
    | .answered _ _ => False
  post := fun v o x =>
    match v.stage, o, x with
    | .start, .find _, .ready r => { v with stage := .holding r true }
    | .start, .find id, .blocked r => { v with stage := .blocked id r }
    | .blocked _ r, .await _ _, success => { v with stage := .holding r success }
    | .holding _ success, .take _ _, out => { v with stage := .answered success out }
    | _, _, _ => v

@[simp] theorem stageDiscipline_call (v : Waiter) (o : CacheOp) (x : o.Res) :
    (stageDiscipline.post v o x).call = v.call := by
  unfold stageDiscipline
  dsimp only
  split <;> rfl

/-- What a `wait` with a buffer returns: what it has taken, or the caller's buffer if there was no row. -/
def Waiter.Returns (v : Waiter) (ret : CacheRet) : Prop :=
  ∀ id buffer, v.call = .wait id buffer → ∃ success out, ret = .waited success out ∧
    (v.stage = .answered success out ∨ (v.stage = .start ∧ success = false ∧ out = buffer))

theorem cacheCall_staged (c : CacheCall) :
    stageDiscipline.Ok (fun ret v => v.call = c ∧ v.Returns ret) ⟨c, .start⟩ c.body := by
  have hstart : ∀ o : CacheOp, (∀ id r, o ≠ .await id r) → (∀ r buffer, o ≠ .take r buffer) →
      stageDiscipline.pre ⟨c, .start⟩ o := fun _ ha ht => ⟨ha, ht⟩
  have hother : (∀ id buffer, c ≠ .wait id buffer) → ∀ stage ret, Waiter.Returns ⟨c, stage⟩ ret :=
    fun hc _ _ id buffer he => absurd he (hc id buffer)
  cases c with
  | queue valid => exact ⟨hstart _ (by simp) (by simp), fun id => ⟨rfl, hother (by simp) _ _⟩⟩
  | swapNotify id buffer => exact ⟨hstart _ (by simp) (by simp), fun rest => ⟨rfl, hother (by simp) _ _⟩⟩
  | removeObsolete => exact ⟨hstart _ (by simp) (by simp), fun _ => ⟨rfl, hother (by simp) _ _⟩⟩
  | clear => exact ⟨hstart _ (by simp) (by simp), fun _ => ⟨rfl, hother (by simp) _ _⟩⟩
  | waitRow id =>
    refine ⟨hstart _ (by simp) (by simp), fun found => ?_⟩
    cases found with
    | invalid => exact ⟨rfl, hother (by simp) _ _⟩
    | ready row => exact ⟨rfl, hother (by simp) _ _⟩
    | blocked row => exact ⟨rfl, fun success => ⟨rfl, hother (by simp) _ _⟩⟩
  | wait id buffer =>
    refine ⟨hstart _ (by simp) (by simp), fun found => ?_⟩
    have hanswered : ∀ success out, Waiter.Returns ⟨.wait id buffer, .answered success out⟩ (.waited success out) :=
      fun success out _ _ _ => ⟨success, out, rfl, .inl rfl⟩
    cases found with
    | invalid =>
      refine ⟨rfl, fun id' buffer' he => ⟨false, buffer, rfl, .inr ⟨rfl, rfl, ?_⟩⟩⟩
      cases he
      rfl
    | ready row => exact ⟨rfl, fun out => ⟨rfl, hanswered true out⟩⟩
    | blocked row => exact ⟨rfl, fun success => ⟨rfl, fun out => ⟨rfl, hanswered success out⟩⟩⟩

/-! ## What the critical sections store -/

theorem CacheOp.readBuffer_after (o : CacheOp) (i : Clock) {c : DataCache} {r : RowRef} (hr : r < c.allocated) :
    ((o.after i c).rows r).readBuffer = (c.rows r).readBuffer ∨
    (∃ id bytes, o = .swapNotify id bytes ∧ c.entries[id]? = some r ∧ ((o.after i c).rows r).readBuffer = bytes) ∨
    ∃ buffer, o = .take r buffer ∧ ((o.after i c).rows r).readBuffer = buffer := by
  cases o with
  | queue valid =>
    left
    by_cases hfull : c.maxEntries ≤ c.entries.size
    · rw [CacheOp.after, DataCache.queue_full hfull]
    · simp [CacheOp.after, DataCache.queue_open hfull, Nat.ne_of_lt hr]
  | find id =>
    left
    cases h : c.entries[id]? with
    | none => rw [CacheOp.after, DataCache.find_none h]
    | some r₀ =>
      by_cases hs : (c.rows r₀).state = .swapped
      · rw [CacheOp.after, DataCache.find_swapped h hs]
      · rw [CacheOp.after, DataCache.find_waits h hs]
        by_cases hrow : r = r₀
        · simp [DataCache.setState, hrow]
        · simp [DataCache.setState, hrow]
  | await id row => exact .inl rfl
  | take row buffer =>
    by_cases hrow : r = row
    · subst hrow
      exact .inr (.inr ⟨buffer, rfl, by simp [CacheOp.after, DataCache.take]⟩)
    · exact .inl (by simp [CacheOp.after, DataCache.take, hrow])
  | swapNotify id buffer =>
    cases h : c.entries[id]? with
    | none => exact .inl (by rw [CacheOp.after, DataCache.swapNotify_none h])
    | some r₀ =>
      by_cases hrow : r = r₀
      · subst hrow
        exact .inr (.inl ⟨id, buffer, rfl, h, by simp [CacheOp.after, DataCache.swapNotify_rows h]⟩)
      · exact .inl (by simp [CacheOp.after, DataCache.swapNotify_rows h, hrow])
  | removeObsolete => exact .inl rfl
  | clear => exact .inl (c.clear_readBuffer r)

theorem CacheOp.readBuffer_new {o : CacheOp} {i : Clock} {c : DataCache} {r : RowRef} (hr : ¬ r < c.allocated)
    (hr' : r < (o.after i c).allocated) : ((o.after i c).rows r).readBuffer = [] := by
  cases o with
  | queue valid =>
    by_cases hfull : c.maxEntries ≤ c.entries.size
    · rw [CacheOp.after, DataCache.queue_full hfull] at hr'
      exact absurd hr' hr
    · simp only [CacheOp.after, DataCache.queue_open hfull] at hr' ⊢
      obtain rfl : r = c.allocated := Nat.le_antisymm (Nat.lt_succ_iff.mp hr') (Nat.le_of_not_lt hr)
      rw [Function.update_self]
      rfl
  | find id =>
    refine absurd ?_ hr
    cases h : c.entries[id]? with
    | none => rwa [CacheOp.after, DataCache.find_none h] at hr'
    | some r₀ =>
      by_cases hs : (c.rows r₀).state = .swapped
      · rwa [CacheOp.after, DataCache.find_swapped h hs] at hr'
      · rwa [CacheOp.after, DataCache.find_waits h hs] at hr'
  | swapNotify id buffer =>
    rw [CacheOp.after, DataCache.swapNotify_allocated] at hr'
    exact absurd hr' hr
  | clear =>
    rw [CacheOp.after, DataCache.clear_allocated] at hr'
    exact absurd hr' hr
  | _ => exact absurd hr' hr

/-! ## The rows that the waits work on -/

/-- The rows of the table and of the waits exist. -/
structure RowsHeld (c : DataCache) (views : Nat → Option Waiter) : Prop where
  allocated : Allocated c
  held : ∀ t v r, views t = some v → v.stage.row = some r → r < c.allocated

theorem row_after {c c' : DataCache} {v : Waiter} {o : CacheOp} {i : Clock} {x : o.Res} {r : RowRef}
    (hex : o.exec i c = some (x, c')) (hr : (stageDiscipline.post v o x).stage.row = some r) :
    v.stage.row = some r ∨ ∃ id, o = .find id ∧ c.entries[id]? = some r := by
  obtain ⟨call, stage⟩ := v
  cases stage with
  | start =>
    cases o with
    | find id =>
      right
      refine ⟨id, rfl, ?_⟩
      have hf : c.find id = (x, c') := Option.some.inj hex
      cases he : c.entries[id]? with
      | none =>
        rw [DataCache.find_none he] at hf
        cases hf
        cases hr
      | some r₀ =>
        by_cases hs : (c.rows r₀).state = .swapped
        · rw [DataCache.find_swapped he hs] at hf
          cases hf
          exact hr
        · rw [DataCache.find_waits he hs] at hf
          cases hf
          exact hr
    | _ => exact .inl hr
  | blocked id r₀ =>
    cases o with
    | await id' r' => exact .inl hr
    | _ => exact .inl hr
  | holding r₀ success =>
    cases o with
    | take r' buffer => cases hr
    | _ => exact .inl hr
  | answered success out => exact .inl hr

theorem RowsHeld.exec {c c' : DataCache} {views : Nat → Option Waiter} (h : RowsHeld c views) {t : Nat} {v : Waiter}
    {o : CacheOp} {i : Clock} {x : o.Res} (hv : views t = some v) (hex : o.exec i c = some (x, c')) :
    RowsHeld c' (Function.update views t (some (stageDiscipline.post v o x))) := by
  rw [CacheOp.eq_after hex]
  refine ⟨h.allocated.after o i, fun t' v' r hv' hr => Nat.lt_of_lt_of_le ?_ (o.allocated_le i c)⟩
  rcases view_of_update hv' with ⟨-, rfl⟩ | ⟨-, hv'⟩
  · rcases row_after hex hr with hr | ⟨id, -, he⟩
    · exact h.held t v r hv hr
    · exact h.allocated id r he
  · exact h.held t' v' r hv' hr

theorem RowsHeld.call {c : DataCache} {views : Nat → Option Waiter} (h : RowsHeld c views) (t : Nat) (call : CacheCall) :
    RowsHeld c (Function.update views t (some ⟨call, .start⟩)) := by
  refine ⟨h.allocated, fun t' v r hv hr => ?_⟩
  rcases view_of_update hv with ⟨-, rfl⟩ | ⟨-, hv⟩
  · cases hr
  · exact h.held t' v r hv hr

theorem rowsHeld_of_reach {n : Nat} {G : CachePool → Act CacheCall Clock Empty → Prop} {p : CachePool}
    (hp : cacheMachine.Reach G (.new n) p) : ∃ views, RowsHeld p.shared views ∧
      Machine.Linked stageDiscipline (fun _ c ret v => v.call = c ∧ v.Returns ret) p views := by
  refine Machine.sound (fun _ c => (⟨c, .start⟩ : Waiter)) ?_ (fun _ c => cacheCall_staged c) ?_ ?_ (fun _ _ e => e.elim) hp
  · exact ⟨Allocated.new n, fun _ _ _ hv => by cases hv⟩
  · intro p views t c _ _ h _ _
    exact h.call t c
  · intro p views t i o v x c' _ _ h _ _ hv _ hex
    exact h.exec hv hex

/-! ## Runs in which a timed-out wait has nothing to swap -/

/-- Some `wait` has timed out and is about to swap the buffers of the row `r` : it will return false. -/
def InGap (p : CachePool) (r : RowRef) : Prop :=
  ∃ t id buffer k, p.thread t = some (.wait id buffer, .op (.take r buffer) k) ∧
    ∀ out, (k out).result = some (.waited false out)

/-- A wait that times out was given an empty buffer; and while a timed-out wait has not swapped the buffers, no bytes are
stored in its row, be it by a `swap_notify` or by another wait on the same id. -/
def EmptyHanded (p : CachePool) : Act CacheCall Clock Empty → Prop
  | .op t _ =>
    (∀ id id' buffer r k, p.thread t = some (.wait id buffer, .op (.await id' r) k) → p.shared.awaited r = false →
      buffer = []) ∧
    (∀ id bytes r, p.next t = some (.swapNotify id bytes) → p.shared.entries[id]? = some r → InGap p r → bytes = []) ∧
    ∀ r bytes, p.next t = some (.take r bytes) → InGap p r → bytes = []
  | _ => True

/-- A row without a response is empty, and so is the row of a timed-out wait and the buffer of its caller. -/
structure NothingHeld (c : DataCache) (views : Nat → Option Waiter) : Prop where
  rows : RowsHeld c views
  empty : ∀ r < c.allocated, (c.rows r).state ≠ .swapped → (c.rows r).readBuffer = []
  ready : ∀ t v r, views t = some v → v.stage = .holding r true → (c.rows r).state = .swapped
  gap : ∀ t v id buffer r, views t = some v → v.call = .wait id buffer → v.stage = .holding r false →
    buffer = [] ∧ (c.rows r).readBuffer = []
  answered : ∀ t v id buffer out, views t = some v → v.call = .wait id buffer → v.stage = .answered false out → out = buffer

/-- The critical section `o` stores no bytes in the row `r`. -/
def CacheOp.StoresNothing (o : CacheOp) (c : DataCache) (r : RowRef) : Prop :=
  (∀ id bytes, o = .swapNotify id bytes → c.entries[id]? = some r → bytes = []) ∧ ∀ bytes, o = .take r bytes → bytes = []

theorem CacheOp.readBuffer_kept {o : CacheOp} {i : Clock} {c : DataCache} {r : RowRef} (hr : r < c.allocated)
    (ho : o.StoresNothing c r) (he : (c.rows r).readBuffer = []) : ((o.after i c).rows r).readBuffer = [] := by
  rcases o.readBuffer_after i hr with h | ⟨id, bytes, rfl, hid, h⟩ | ⟨buffer, rfl, h⟩
  · exact h.trans he
  · rw [h, ho.1 id bytes rfl hid]
  · rw [h, ho.2 buffer rfl]

namespace NothingHeld

variable {c c' : DataCache} {views : Nat → Option Waiter} {t : Nat} {v : Waiter} {o : CacheOp} {i : Clock} {x : o.Res}

theorem storesNothing (h : NothingHeld c views) (hv : views t = some v) (hpre : stageDiscipline.pre v o) {r : RowRef}
    (hs : (c.rows r).state ≠ .swapped) {buffer : Bytes} (ho : o = .take r buffer) : buffer = [] := by
  obtain ⟨call, stage⟩ := v
  subst ho
  cases stage with
  | start => exact absurd rfl (hpre.2 r buffer)
  | blocked id row => cases hpre
  | holding row success =>
    obtain ⟨rfl, rfl⟩ : r = row ∧ buffer = call.buffer := CacheOp.take.inj hpre
    cases success with
    | true => exact absurd (h.ready t _ r hv rfl) hs
    | false =>
      cases call with
      | wait id buffer => exact (h.gap t _ id buffer r hv rfl rfl).1
      | _ => rfl
  | answered success out => cases hpre

theorem others (h : NothingHeld c views) (hv : views t = some v) (hpre : stageDiscipline.pre v o)
    (hstore : ∀ t' v' id buffer r, views t' = some v' → v'.call = .wait id buffer → v'.stage = .holding r false →
      o.StoresNothing c r) : NothingHeld (o.after i c) views := by
  refine ⟨⟨h.rows.allocated.after o i,
      fun t' v' r hv' hrow => (h.rows.held t' v' r hv' hrow).trans_le (o.allocated_le i c)⟩,
    fun r hr hs => ?_, fun t' v' r hv' hst => ?_, fun t' v' id buffer r hv' hc hst => ?_, h.answered⟩
  · by_cases hold : r < c.allocated
    · have hs' : (c.rows r).state ≠ .swapped := fun hf => hs (o.swapped_after i hold hf)
      have he := h.empty r hold hs'
      rcases o.readBuffer_after i hold with hb | ⟨id, bytes, rfl, hid, -⟩ | ⟨buffer, ho, hb⟩
      · exact hb.trans he
      · exact absurd (by simp [CacheOp.after, DataCache.swapNotify_rows hid]) hs
      · exact hb.trans (h.storesNothing hv hpre hs' ho)
    · exact CacheOp.readBuffer_new hold hr
  · exact o.swapped_after i (h.rows.held t' v' r hv' (by rw [hst]; rfl)) (h.ready t' v' r hv' hst)
  · obtain ⟨hb, he⟩ := h.gap t' v' id buffer r hv' hc hst
    have hr := h.rows.held t' v' r hv' (by rw [hst]; rfl)
    exact ⟨hb, CacheOp.readBuffer_kept hr (hstore t' v' id buffer r hv' hc hst) he⟩

theorem update (h : NothingHeld c' views) {w : Waiter}
    (hrows : RowsHeld c' (Function.update views t (some w)))
    (hready : ∀ r, w.stage = .holding r true → (c'.rows r).state = .swapped)
    (hgap : ∀ id buffer r, w.call = .wait id buffer → w.stage = .holding r false →
      buffer = [] ∧ (c'.rows r).readBuffer = [])
    (hanswered : ∀ id buffer out, w.call = .wait id buffer → w.stage = .answered false out → out = buffer) :
    NothingHeld c' (Function.update views t (some w)) := by
  refine ⟨hrows, h.empty, fun t' v' r hv' => ?_, fun t' v' id buffer r hv' => ?_,
    fun t' v' id buffer out hv' => ?_⟩
  · rcases view_of_update hv' with ⟨-, rfl⟩ | ⟨-, hv'⟩
    · exact hready r
    · exact h.ready t' v' r hv'
  · rcases view_of_update hv' with ⟨-, rfl⟩ | ⟨-, hv'⟩
    · exact hgap id buffer r
    · exact h.gap t' v' id buffer r hv'
  · rcases view_of_update hv' with ⟨-, rfl⟩ | ⟨-, hv'⟩
    · exact hanswered id buffer out
    · exact h.answered t' v' id buffer out hv'

theorem same (h : NothingHeld c' views) (hv : views t = some v)
    (hrows : RowsHeld c' (Function.update views t (some v))) : NothingHeld c' (Function.update views t (some v)) :=
  h.update hrows (fun r => h.ready t v r hv) (fun id buffer r => h.gap t v id buffer r hv)
    fun id buffer out => h.answered t v id buffer out hv

theorem exec (h : NothingHeld c views) (hv : views t = some v) (hpre : stageDiscipline.pre v o)
    (hex : o.exec i c = some (x, c'))
    (hawait : ∀ id id' buffer r, v.call = .wait id buffer → v.stage = .blocked id' r → c.awaited r = false → buffer = [])
    (hstore : ∀ t' v' id buffer r, views t' = some v' → v'.call = .wait id buffer → v'.stage = .holding r false →
      o.StoresNothing c r) : NothingHeld c' (Function.update views t (some (stageDiscipline.post v o x))) := by
  have hrows := h.rows.exec hv hex
  have h' : NothingHeld c' views := by
    rw [CacheOp.eq_after hex]
    exact h.others hv hpre hstore
  obtain ⟨call, stage⟩ := v
  cases stage with
  | start =>
    cases o with
    | find id =>
      have hf : c.find id = (x, c') := Option.some.inj hex
      cases he : c.entries[id]? with
      | none =>
        rw [DataCache.find_none he] at hf
        cases hf
        exact h'.same hv hrows
      | some r₀ =>
        by_cases hs : (c.rows r₀).state = .swapped
        · rw [DataCache.find_swapped he hs] at hf
          cases hf
          refine h'.update hrows (fun r hr => ?_) (fun _ _ _ _ hr => by cases hr) fun _ _ _ _ hr => by cases hr
          cases hr
          exact hs
        · rw [DataCache.find_waits he hs] at hf
          cases hf
          exact h'.update hrows (fun _ hr => by cases hr) (fun _ _ _ _ hr => by cases hr) fun _ _ _ _ hr => by cases hr
    | await id row => exact absurd rfl (hpre.1 id row)
    | take row buffer => exact absurd rfl (hpre.2 row buffer)
    | _ => exact h'.same hv hrows
  | blocked id r₀ =>
    obtain rfl : o = .await id r₀ := hpre
    have hr₀ : r₀ < c'.allocated := h'.rows.held t _ r₀ hv rfl
    simp only [CacheOp.exec] at hex
    split at hex
    · rename_i haw
      cases hex
      refine h'.update hrows (fun r hr => ?_) (fun _ _ _ _ hr => by cases hr) fun _ _ _ _ hr => by cases hr
      cases hr
      exact of_decide_eq_true haw
    · rename_i haw
      split at hex
      · cases hex
        have hs : (c.rows r₀).state ≠ .swapped := fun hf => haw (decide_eq_true hf)
        refine h'.update hrows (fun _ hr => by cases hr) (fun id' buffer r hcall hr => ?_) fun _ _ _ _ hr => by cases hr
        cases hr
        exact ⟨hawait id' id buffer r₀ hcall rfl (Bool.eq_false_iff.mpr haw), h'.empty r₀ hr₀ hs⟩
      · cases hex
  | holding r₀ success =>
    obtain rfl : o = .take r₀ call.buffer := hpre
    cases hex
    refine h'.update hrows (fun _ hr => by cases hr) (fun _ _ _ _ hr => by cases hr) fun id buffer out hcall hr => ?_
    cases hr
    cases hcall
    obtain ⟨rfl, he⟩ := h.gap t _ id buffer r₀ hv rfl rfl
    exact he
  | answered success out => exact hpre.elim

end NothingHeld

theorem call_of_staged {c c' : CacheCall} {q : CacheProg CacheRet} {stage : WaitStage}
    (h : stageDiscipline.Ok (fun ret v => v.call = c ∧ v.Returns ret) ⟨c', stage⟩ q) : c' = c := by
  obtain ⟨_, w, hw, hvw⟩ := h.exists_return (I := fun w => w.call = c')
    (fun w o x hw => (stageDiscipline_call w o x).trans hw) rfl
  exact hvw.symm.trans hw.1

theorem inGap_of_holding {p : CachePool} {views : Nat → Option Waiter}
    (hl : Machine.Linked stageDiscipline (fun _ c ret v => v.call = c ∧ v.Returns ret) p views) {t : Nat} {v : Waiter}
    (hv : views t = some v) {id : UInt64} {buffer : Bytes} {r : RowRef} (hc : v.call = .wait id buffer)
    (hs : v.stage = .holding r false) : InGap p r := by
  obtain ⟨call, stage⟩ := v
  subst hc hs
  rcases hl t with ⟨-, hn⟩ | ⟨c, q, v', ht, hv', hok⟩
  · rw [hn] at hv
    cases hv
  · rw [hv] at hv'
    cases hv'
    obtain rfl := call_of_staged hok
    cases q with
    | ret ret =>
      obtain ⟨_, _, -, hst | ⟨hst, -⟩⟩ := hok.2 id buffer rfl
      · cases hst
      · cases hst
    | op o k =>
      obtain rfl : o = .take r buffer := hok.1
      refine ⟨t, id, buffer, k, ht, fun out => ?_⟩
      have hout := hok.2 out
      cases hk : k out with
      | ret ret =>
        rw [hk] at hout
        obtain ⟨success, out', rfl, hst | ⟨hst, -⟩⟩ := hout.2 id buffer rfl
        · cases hst
          rfl
        · cases hst
      | op o k' =>
        rw [hk] at hout
        exact hout.1.elim

theorem nothingHeld_of_reach {n : Nat} {p : CachePool} (hp : cacheMachine.Reach EmptyHanded (.new n) p) :
    ∃ views, NothingHeld p.shared views ∧
      Machine.Linked stageDiscipline (fun _ c ret v => v.call = c ∧ v.Returns ret) p views := by
  refine Machine.sound (fun _ c => (⟨c, .start⟩ : Waiter)) ?_ (fun _ c => cacheCall_staged c) ?_ ?_ (fun _ _ e => e.elim) hp
  · refine ⟨⟨Allocated.new n, fun _ _ _ hv => by cases hv⟩, fun _ _ _ => rfl, ?_, ?_, ?_⟩
    · exact fun _ _ _ hv => by cases hv
    · exact fun _ _ _ _ _ hv => by cases hv
    · exact fun _ _ _ _ _ hv => by cases hv
  · intro p views t c _ _ h _ _
    refine h.update (h.rows.call t c) ?_ ?_ ?_
    · exact fun _ hr => by cases hr
    · exact fun _ _ _ _ hr => by cases hr
    · exact fun _ _ _ _ hr => by cases hr
  · intro p views t i o v x c' _ hl h hG hth hv hpre hex
    obtain ⟨c, k, hth⟩ := hth
    have hnext : p.next t = some o := Machine.next_of_thread hth
    refine h.exec hv hpre hex ?_ ?_
    · intro id id' buffer r hcall hst haw
      obtain ⟨call, stage⟩ := v
      subst hcall hst
      obtain ⟨v', hv', hok⟩ := hl.ok hth
      rw [hv] at hv'
      cases hv'
      obtain rfl := call_of_staged hok
      obtain rfl : o = .await id' r := hpre
      exact hG.1 id id' buffer r k hth haw
    · intro t' v' id buffer r hv' hcall hst
      have hgap := inGap_of_holding hl hv' hcall hst
      exact ⟨fun id bytes ho he => hG.2.1 id bytes r (hnext.trans (congrArg some ho)) he hgap,
        fun bytes ho => hG.2.2 r bytes (hnext.trans (congrArg some ho)) hgap⟩

/-- **A timed-out wait delivers nothing.** In every run whose steps leave a timed-out wait with nothing to swap: a `wait`
that has returned false has left the caller's buffer as it was. -/
theorem timed_out_delivers_nothing {n : Nat} {p : CachePool} (hp : cacheMachine.Reach EmptyHanded (.new n) p) {t : Nat}
    {id : UInt64} {buffer out : Bytes} (h : p.result t = some (.wait id buffer, .waited false out)) : out = buffer := by
  obtain ⟨views, hinv, hl⟩ := nothingHeld_of_reach hp
  obtain ⟨⟨call, stage⟩, hv, rfl, hret⟩ := hl.ok (Machine.result_eq_some h)
  obtain ⟨_, _, hr, hst | ⟨-, -, ho⟩⟩ := hret id buffer rfl
  · cases hr
    exact hinv.answered t _ id buffer out hv rfl hst
  · cases hr
    exact ho

/-- `EmptyHanded`, as a test for six threads: whoever times out has an empty buffer, and whoever stores something finds no
thread about to swap the row. -/
def emptyHanded (p : CachePool) : Act CacheCall Clock Empty → Bool
  | .op t _ =>
    match p.thread t with
    | some (.wait _ buffer, .op (.await _ r) _) => p.shared.awaited r || decide (buffer = [])
    | some (_, .op (.swapNotify id bytes) _) =>
      decide (bytes = []) || (List.range 6).all fun t' =>
        match p.next t' with
        | some (.take r _) => decide (p.shared.entries[id]? ≠ some r)
        | _ => true
    | some (_, .op (.take _ bytes) _) => decide (bytes = [])
    | _ => true
  | _ => true

theorem emptyHanded_sound (p : CachePool) (a : Act CacheCall Clock Empty) (hidle : ∀ t, 6 ≤ t → p.thread t = none)
    (h : emptyHanded p a = true) : EmptyHanded p a := by
  cases a with
  | call t c => trivial
  | env e => exact e.elim
  | op t i =>
    refine ⟨fun id id' buffer r k ht haw => ?_, fun id bytes r hn he hgap => ?_, fun r bytes hn _ => ?_⟩
    · simpa [emptyHanded, ht, haw] using h
    · obtain ⟨c, k, ht⟩ := Machine.next_eq_some hn
      obtain ⟨t', id', buffer, k', ht', -⟩ := hgap
      have hlt : t' < 6 := by
        by_contra hge
        rw [hidle t' (Nat.le_of_not_lt hge)] at ht'
        cases ht'
      have hnext : p.next t' = some (.take r buffer) := by simp [Pool.next, ht', Prog.next]
      simp only [emptyHanded, ht, Bool.or_eq_true, decide_eq_true_eq, List.all_eq_true, List.mem_range] at h
      refine h.resolve_right fun hall => ?_
      have hother := hall t' hlt
      simp only [hnext, decide_eq_true_eq] at hother
      exact hother he
    · obtain ⟨c, k, ht⟩ := Machine.next_eq_some hn
      simpa [emptyHanded, ht] using h

def timedOutRun : List (Act CacheCall Clock Empty) :=
  [.call 0 (.queue 2000000000), .op 0 {}, .call 1 (.wait 1 []), .op 1 {}, .op 1 { timeout := true }]

/-- A reply to another request comes in after a wait has timed out and before it has swapped the buffers, a sweep removes
both rows, and a wait on an id that is not in the table is given a buffer with a byte. -/
def besideRun : List (Act CacheCall Clock Empty) :=
  [.call 2 (.queue 2000000000), .op 2 {}, .call 3 (.swapNotify 2 [9]), .op 3 {}, .call 4 .removeObsolete,
    .op 4 { visit := fun _ => 3000000000 }, .op 1 {}, .call 5 (.wait 5 [8]), .op 5 {}]

theorem timed_out_delivers_nothing_empty : ∃ p : CachePool, cacheMachine.Reach EmptyHanded (.new 4) p ∧
    (∃ out, p.result 1 = some (.wait 1 [], .waited false out) ∧ out = []) ∧
    (∃ out, p.result 5 = some (.wait 5 [8], .waited false out) ∧ out = [8]) ∧
    p.result 3 = some (.swapNotify 2 [9], .buffer []) ∧ p.shared.entries.size = 0 := by
  have hrun : (cacheMachine.run emptyHanded (.initial (.new 4)) (timedOutRun ++ besideRun)).any (fun p =>
      decide (p.result 1 = some (.wait 1 [], .waited false []) ∧ p.result 5 = some (.wait 5 [8], .waited false [8]) ∧
        p.result 3 = some (.swapNotify 2 [9], .buffer []) ∧ p.shared.entries.size = 0)) = true := by
    decide +kernel
  obtain ⟨p, hp, hf⟩ := Machine.Reach.exists_of_run_within emptyHanded_sound _ (by decide) hrun
  obtain ⟨h1, h5, h3, hsize⟩ := of_decide_eq_true hf
  exact ⟨p, hp, ⟨[], h1, timed_out_delivers_nothing hp h1⟩, ⟨[8], h5, timed_out_delivers_nothing hp h5⟩, h3, hsize⟩

/-- The reply comes in after the wait has timed out and before it has swapped the buffers: it is handed out, and the wait
returns false. -/
theorem timed_out_delivers : ∃ p : CachePool, cacheMachine.Reach Machine.Free (.new 4) p ∧
    p.result 1 = some (.wait 1 [], .waited false [7]) := by
  have hrun : (cacheMachine.run (fun _ _ => true) (.initial (.new 4))
      (timedOutRun ++ [.call 2 (.swapNotify 1 [7]), .op 2 {}, .op 1 {}])).any (fun p =>
      decide (p.result 1 = some (.wait 1 [], .waited false [7]))) = true := by
    decide +kernel
  obtain ⟨p, hp, hf⟩ := Machine.Reach.exists_of_run (fun _ _ _ => trivial) _ hrun
  exact ⟨p, hp, of_decide_eq_true hf⟩

end Radrpc
