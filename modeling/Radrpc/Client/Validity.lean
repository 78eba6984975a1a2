import Radrpc.Client.Requests

/-!
# How long the entry of a request is valid

`send_recv` queues its entry with twice the configured response timeout, waits until the message is written, and only then
begins to wait for the response. The entry keeps the product in whole milliseconds, and `remove_obsolete` compares it with
the age of the entry, in whole milliseconds too.

* `Duration` : nanoseconds in 64 bits; `Duration.mul` : the product, if it fits; `requestValidity` : what `send_recv`
  passes to `queue`;
* `StaysValid` : nothing overflows, and the entry is valid, and survives `remove_obsolete`, until its caller can no longer
  wait with the default timeout;
* `request_stays_valid` : when that is so, by the timeout and the time that passes before the wait begins;
* `request_expires` : not for the default timeout, not below half a millisecond, and not after a slow write.
-/

namespace Radrpc
open Std Conc

/-- A `duration` : nanoseconds in a signed integer of 64 bits. -/
structure Duration where
  count : Int
  lower : -2 ^ 63 ≤ count
  upper : count < 2 ^ 63
  deriving DecidableEq

namespace Duration

/-- The duration of a result. A result that does not fit is undefined. -/
def ofCount (n : Int) : Option Duration :=
  if h : -2 ^ 63 ≤ n ∧ n < 2 ^ 63 then some ⟨n, h.1, h.2⟩ else none

def max : Duration := ⟨2 ^ 63 - 1, by decide, by decide⟩

def mul (d : Duration) (n : Int) : Option Duration := ofCount (d.count * n)

theorem ofCount_eq_some {n : Int} {d : Duration} : ofCount n = some d ↔ n = d.count := by
  unfold ofCount
  constructor
  · intro h
    split at h
    · cases h
      rfl
    · cases h
  · rintro rfl
    exact dif_pos ⟨d.lower, d.upper⟩

theorem ofCount_isSome {n : Int} : (ofCount n).isSome = true ↔ -2 ^ 63 ≤ n ∧ n < 2 ^ 63 := by
  unfold ofCount
  split
  · rename_i h
    exact ⟨fun _ => h, fun _ => rfl⟩
  · rename_i h
    exact ⟨fun hf => (by cases hf), fun hf => absurd hf h⟩

end Duration

/-- The validity of the entry of a request: `response_timeout * 2` in `send_recv`. -/
def requestValidity (responseTimeout : Duration) : Option Duration := responseTimeout.mul 2

theorem sendRecv_queue {responseTimeout valid : Duration} (h : requestValidity responseTimeout = some valid)
    (callId : UInt32) (body recv : Bytes) :
    (sendRecv responseTimeout.count callId body recv).next = some (.cache (.queue valid.count)) :=
  congrArg (fun t => some (SessOp.cache (.queue t))) (Duration.ofCount_eq_some.mp h)

/-- The call `t` begins its wait for the response at the time `began`. -/
def BeginsAt (t : Nat) (began : Time) (p : SessPool) : Act SessCall Clock ClientEvent → Prop
  | .op t' i => t' = t → ∀ id, p.next t = some (.cache (.find id)) → i.now = began
  | _ => True

/-- In every run, the entry that a call queues at the time `created` with the validity `valid` is kept by each
`remove_obsolete` of the io thread that visits it before the wait of the call, begun at the time `began`, can be over. -/
def KeptFor (responseTimeout : Duration) (created began valid : Time) : Prop :=
  ∀ funcs order (p p' q q' : SessPool) t i clock (id : UInt64) as,
    (sessionMachine funcs responseTimeout.count).Reach Machine.Free (.established order) p →
    p.next t = some (.cache (.queue valid)) → i.now = created →
    (sessionMachine funcs responseTimeout.count).step p (.op t i) = some p' →
    p'.shared.cache.allocated = p.shared.cache.allocated + 1 →
    (sessionMachine funcs responseTimeout.count).Steps (BeginsAt t began) p' as q → q.shared.io = .sweeping →
    (sessionMachine funcs responseTimeout.count).step q (.env (.ioStep clock)) = some q' →
    q.shared.cache.entries[id]? = some p.shared.cache.allocated → created ≤ clock.visit id →
    clock.visit id < began + responseTimeout.count → q'.shared.cache.entries[id]? = some p.shared.cache.allocated

/-- The entry of a request that is queued at the time `created`, and on which its caller begins to wait at the time
`began`, stays valid until a wait with the default timeout is over. -/
def StaysValid (responseTimeout : Duration) (created began : Time) : Prop :=
  ∃ valid, requestValidity responseTimeout = some valid ∧ (Duration.ofCount (toMs valid.count)).isSome = true ∧
    (∀ now, created ≤ now → now < began + responseTimeout.count →
      (DataRead.new created valid.count).valid now = true) ∧
    KeptFor responseTimeout created began valid.count

theorem valid_new {created valid now : Time} (hnow : created ≤ now) (hvalid : 0 ≤ valid) :
    (DataRead.new created valid).valid now = true ↔ (now - created) / 1000000 < valid / 1000000 := by
  have hage : 0 ≤ now - created := Int.sub_nonneg_of_le hnow
  simp only [DataRead.valid, DataRead.new, toMs, decide_eq_true_eq, Int.tdiv_eq_ediv_of_nonneg hage,
    Int.tdiv_eq_ediv_of_nonneg hvalid]

theorem valid_of_steps {funcs : BroadcastFuncs} {responseTimeout : Time}
    {G : SessPool → Act SessCall Clock ClientEvent → Prop} {p q : SessPool} {as : List (Act SessCall Clock ClientEvent)}
    {r : RowRef} (h : (sessionMachine funcs responseTimeout).Steps G p as q) (hr : r < p.shared.cache.allocated)
    (now : Time) : (q.shared.cache.rows r).valid now = (p.shared.cache.rows r).valid now := by
  let I : ClientSession → Prop := fun s => r < s.cache.allocated ∧
    (s.cache.rows r).valid now = (p.shared.cache.rows r).valid now
  have hafter : ∀ (o : CacheOp) i (s s' : ClientSession), I s → s'.cache = o.after i s.cache → I s' := by
    rintro o i s s' ⟨hlt, hsame⟩ hc
    show r < s'.cache.allocated ∧ _
    rw [hc]
    exact ⟨hlt.trans_le (o.allocated_le i s.cache), (o.valid_after i hlt now).trans hsame⟩
  have hop : ∀ t (o : SessOp) i (s : ClientSession) (x : o.Res) s', I s → o.exec t i s = some (x, s') → I s' := by
    intro t o i s x s' hI hex
    by_cases ho : ∃ o', o = .cache o'
    · obtain ⟨o', rfl⟩ := ho
      exact hafter o' i s s' hI (CacheOp.eq_after (SessOp.exec_cache hex).1)
    · have hc : s'.cache = s.cache := SessOp.exec_other (fun o' he => ho ⟨o', he⟩) hex
      exact ⟨hc ▸ hI.1, hc ▸ hI.2⟩
  have henv : ∀ e (s s' : ClientSession), I s → s.step funcs e = some s' → I s' := by
    intro e s s' hI hs
    rcases ClientSession.cache_of_step hs with ⟨hc, -⟩ | ⟨bytes, header, -, -, -, -, -, hc, -⟩ | ⟨_, _, -, -, hc, -⟩ |
      ⟨clock, -, hc, -⟩
    · exact ⟨hc ▸ hI.1, hc ▸ hI.2⟩
    · exact hafter (.swapNotify header.resultId ((s.readBuffer ++ bytes).drop IoHeader.size)) {} s s' hI hc
    · exact hafter .clear {} s s' hI hc
    · exact hafter .removeObsolete clock s s' hI hc
  have hend : I q.shared := h.keeps (P := fun p' => I p'.shared)
    (fun p' a p'' hp _ hs => Machine.step_shared hop henv hp hs) ⟨hr, rfl⟩
  exact hend.2

theorem keptFor_of_valid {responseTimeout : Duration} {created began valid : Time}
    (h : ∀ now, created ≤ now → now < began + responseTimeout.count → (DataRead.new created valid).valid now = true) :
    KeptFor responseTimeout created began valid := by
  intro funcs order p p' q q' t i clock id as _ hnext hnow hstep halloc hrun hio hsweep he hle hlt
  obtain ⟨c, o, k, x, s, hth, hex, rfl⟩ := Machine.step_op hstep
  obtain rfl : o = .cache (.queue valid) := Option.some.inj ((Machine.next_of_thread hth).symm.trans hnext)
  have hqueue : SessOp.exec t (.cache (.queue valid)) i p.shared = some (x, s) := hex
  have hcache : s.cache = (p.shared.cache.queue i.now valid).2 :=
    CacheOp.eq_after (o := .queue valid) (SessOp.exec_cache hqueue).1
  have hrow : s.cache.rows p.shared.cache.allocated = .new created valid := by
    by_cases hfull : p.shared.cache.maxEntries ≤ p.shared.cache.entries.size
    · rw [DataCache.queue_full hfull] at hcache
      dsimp only at halloc
      rw [hcache] at halloc
      exact absurd halloc (Nat.ne_of_lt (Nat.lt_succ_self _))
    · rw [hcache, DataCache.queue_open hfull, ← hnow]
      exact Function.update_self _ _ _
  have hvalid := valid_of_steps hrun (Nat.lt_of_succ_le (Nat.le_of_eq halloc.symm)) (clock.visit id)
  obtain ⟨s', hs', rfl⟩ := Machine.step_env hsweep
  have hswept : s'.cache = q.shared.cache.removeObsolete clock.visit := by
    have hs'' : q.shared.ioStep clock = some s' := hs'
    rw [ClientSession.ioStep, hio] at hs''
    rw [← Option.some.inj hs'']
    rfl
  dsimp only
  rw [hswept]
  refine (DataCache.getElem?_removeObsolete q.shared.cache clock.visit id _).mpr ⟨he, ?_⟩
  rw [hvalid]
  exact hrow ▸ h (clock.visit id) hle hlt

/-- All ages before the end of a wait that begins at the age `gap`, against twice the timeout, in whole milliseconds. -/
theorem ages_lt_iff {t gap : Int} (ht : 0 < t) (hgap : 0 ≤ gap) :
    (∀ age, 0 ≤ age → age < gap + t → age / 1000000 < t * 2 / 1000000) ↔ gap + t ≤ t * 2 / 1000000 * 1000000 := by
  constructor
  · intro h
    have hlast := h (gap + t - 1) (by omega) (by omega)
    omega
  · intro h age h0 hage
    omega

/-- **A request stays valid.** For every positive response timeout, every time of creation and every later time at which the
wait begins: the entry of the request stays valid for as long as its caller can wait with the default timeout if and only
if twice the timeout is a duration and, cut off to whole milliseconds, not less than the time until the wait begins
together with the timeout. -/
theorem request_stays_valid (responseTimeout : Duration) (hpos : 0 < responseTimeout.count) {created began : Time}
    (hle : created ≤ began) :
    StaysValid responseTimeout created began ↔ responseTimeout.count ≤ 4611686018427387903 ∧
      began - created + responseTimeout.count ≤ responseTimeout.count * 2 / 1000000 * 1000000 := by
  obtain ⟨t, lower, upper⟩ := responseTimeout
  have hpos : 0 < t := hpos
  have hages := ages_lt_iff hpos (Int.sub_nonneg_of_le hle)
  constructor
  · rintro ⟨valid, hvalid, -, hnow, -⟩
    have hcount : t * 2 = valid.count := Duration.ofCount_eq_some.mp hvalid
    have hupper := valid.upper
    have hnonneg : 0 ≤ valid.count := by omega
    refine ⟨show t ≤ 4611686018427387903 by omega, hages.mp fun age h0 hage => ?_⟩
    have hafter : created ≤ created + age := Int.le_add_of_nonneg_right h0
    have hend : created + age < began + t := by
      have hlt := Int.add_lt_add_left hage created
      rwa [← add_assoc, add_sub_cancel] at hlt
    have hlt := (valid_new hafter hnonneg).mp (hnow _ hafter hend)
    rwa [add_sub_cancel_left, ← hcount] at hlt
  · rintro ⟨hge, hwait⟩
    have hge : t ≤ 4611686018427387903 := hge
    have hnonneg : 0 ≤ t * 2 := by omega
    have hvalid : ∀ now, created ≤ now → now < began + t → (DataRead.new created (t * 2)).valid now = true := by
      intro now h1 h2
      rw [valid_new h1 hnonneg]
      refine hages.mpr hwait _ (Int.sub_nonneg_of_le h1) ?_
      rw [sub_add_eq_add_sub]
      exact Int.sub_lt_sub_right h2 created
    refine ⟨⟨t * 2, by omega, by omega⟩, Duration.ofCount_eq_some.mpr rfl, ?_, hvalid, keptFor_of_valid hvalid⟩
    rw [Duration.ofCount_isSome, toMs, Int.tdiv_eq_ediv_of_nonneg hnonneg]
    exact ⟨show -2 ^ 63 ≤ t * 2 / 1000000 by omega, show t * 2 / 1000000 < 2 ^ 63 by omega⟩

/-- A response timeout of a second, when the message is written within another second. -/
theorem request_stays_valid_second : StaysValid ⟨1000000000, by decide, by decide⟩ 0 1000000000 :=
  (request_stays_valid ⟨1000000000, by decide, by decide⟩ (by decide) (by decide)).mpr (by decide)

theorem wrapped_not_valid {responseTimeout : Duration} (h : 4611686018427387903 < responseTimeout.count)
    {created now : Time} (hnow : created ≤ now) :
    (DataRead.new created ((responseTimeout.count * 2).bmod (2 ^ 64))).valid now = false := by
  obtain ⟨t, lower, upper⟩ := responseTimeout
  have hlarge : 4611686018427387903 < t := h
  have hneg : 0 ≤ -(t * 2).bmod (2 ^ 64) := by
    rw [Int.bmod_def]
    omega
  have hms := Int.tdiv_nonneg hneg (show (0 : Int) ≤ 1000000 by decide)
  rw [Int.neg_tdiv] at hms
  have hage : 0 ≤ (now - created).tdiv 1000000 := Int.tdiv_nonneg (Int.sub_nonneg_of_le hnow) (by decide)
  rw [DataRead.valid, decide_eq_false_iff_not]
  exact Int.not_lt.mpr ((Int.nonpos_of_neg_nonneg hms).trans hage)

def beginsAt (t : Nat) (began : Time) (p : SessPool) : Act SessCall Clock ClientEvent → Bool
  | .op t' i =>
    match p.next t with
    | some (.cache (.find _)) => decide (t' = t → i.now = began)
    | _ => true
  | _ => true

theorem beginsAt_iff {t : Nat} {began : Time} {p : SessPool} {a : Act SessCall Clock ClientEvent}
    (h : beginsAt t began p a = true) : BeginsAt t began p a := by
  cases a with
  | op t' i =>
    intro ht id hnext
    simp only [beginsAt, hnext, decide_eq_true_eq] at h
    exact h ht
  | call t c => trivial
  | env e => trivial

/-- A request is queued at 0 and posted, its message is written, the caller begins to wait at 1.5 seconds, and then a frame
without a header comes in. -/
def slowWriteRun : List (Act SessCall Clock ClientEvent) :=
  [.op 1 {}, .env .runPosted, .env (.onWrite 0 false), .env (.ioStep {}), .op 1 {}, .op 1 { now := 1500000000 },
    .env (.onRead false [])]

/-- With a timeout of a second the caller can wait until 2.5 seconds, but the sweep at 2.2 seconds erases its entry. -/
theorem not_keptFor_slowWrite : ¬ KeptFor ⟨1000000000, by decide, by decide⟩ 0 1500000000 2000000000 := by
  let M := sessionMachine (fun _ => none) 1000000000
  let clock : Clock := { visit := fun _ => 2200000000 }
  intro h
  have hrun : (M.run (fun _ _ => true) (.initial (.established .little)) [.call 1 (.sendRecv 7 [1] [])]).any (fun p =>
      (M.step p (.op 1 {})).any fun p' => (M.run (beginsAt 1 1500000000) p' slowWriteRun).any fun q =>
        (M.step q (.env (.ioStep clock))).any fun q' =>
          decide (p.next 1 = some (.cache (.queue 2000000000))) &&
          decide (p'.shared.cache.allocated = p.shared.cache.allocated + 1) && decide (q.shared.io = .sweeping) &&
          decide (q.shared.cache.entries[(1 : UInt64)]? = some p.shared.cache.allocated) &&
          decide (q'.shared.cache.entries[(1 : UInt64)]? = none)) = true := by
    decide +kernel
  obtain ⟨p, hp, hrun⟩ := Machine.Reach.exists_of_run (fun _ _ _ => trivial) _ hrun
  obtain ⟨p', hstep, hrun⟩ := (Option.any_eq_true _ _).mp hrun
  obtain ⟨q, hq, hrun⟩ := (Option.any_eq_true _ _).mp hrun
  obtain ⟨q', hsweep, hf⟩ := (Option.any_eq_true _ _).mp hrun
  simp only [Bool.and_eq_true, decide_eq_true_eq] at hf
  obtain ⟨⟨⟨⟨hnext, halloc⟩, hio⟩, he⟩, hgone⟩ := hf
  have hkept := h (fun _ => none) .little p p' q q' 1 {} clock 1 slowWriteRun hp hnext rfl hstep halloc
    (Machine.Steps.of_run (fun _ _ => beginsAt_iff) hq) hio hsweep he (by decide) (by decide)
  rw [hgone] at hkept
  cases hkept

/-- The default response timeout, one of less than half a millisecond, and one of a second with a write that takes longer
than that. -/
theorem request_expires : ¬ StaysValid .max 0 0 ∧ ¬ StaysValid ⟨400000, by decide, by decide⟩ 0 0 ∧
    ¬ StaysValid ⟨1000000000, by decide, by decide⟩ 0 1500000000 := by
  refine ⟨?_, ?_, ?_⟩
  · rintro ⟨valid, hvalid, -⟩
    have hcount : Duration.max.count * 2 = valid.count := Duration.ofCount_eq_some.mp hvalid
    have hupper := valid.upper
    rw [← hcount] at hupper
    exact absurd hupper (by decide)
  · rintro ⟨valid, hvalid, -, hnow, -⟩
    have hcount : (400000 : Time) * 2 = valid.count := Duration.ofCount_eq_some.mp hvalid
    have hfirst := hnow 0 (Int.le_refl 0) (by decide)
    rw [← hcount] at hfirst
    exact absurd hfirst (by decide)
  · rintro ⟨valid, hvalid, -, -, hkept⟩
    have hcount : (1000000000 : Time) * 2 = valid.count := Duration.ofCount_eq_some.mp hvalid
    rw [← hcount] at hkept
    exact not_keptFor_slowWrite hkept

end Radrpc
