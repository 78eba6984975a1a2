import Radrpc.Client.Owners

/-!
# Which session a failed call closes

A call of `send` or `send_recv` that got an error code lets go of the shared lock, and then calls `disconnect`, which
takes the exclusive lock and closes the session that is current by then.

* `SessOp.fails` : the step of a session call that decides on its error code;
* `Traced`, `tracedMachine` : a client with the calls that have got an error code and have not finished their
  `disconnect`, each with the session it failed on;
* `teardownDiscipline` : a call of `send` or `send_recv` closes a session only while it has an error code;
* `teardown_own` : it closes the session it failed on, as long as no session is constructed while such a call waits;
* `teardown_foreign` : otherwise it can close the session of another call.
-/

namespace Radrpc
open Std Conc

/-- The step that gives a session call its error code. -/
def SessOp.fails : (o : SessOp) → o.Res → Bool
  | .cache (.queue _), id => decide (id = (0 : UInt64))
  | .cache (.find _), found => decide (found = Found.invalid)
  | .cache (.await _ _), success => !success
  | .waitWritten _, ready => !ready
  | _, _ => false

/-- A client, and the calls that have got an error code and not finished their `disconnect` yet: the call and the
session that gave the error code. -/
structure Traced where
  client : Client
  failed : List (Nat × Nat) := []

/-- An error code is noted, and it is settled when the call gives up the exclusive lock. -/
def Traced.note (t : Nat) (failed : List (Nat × Nat)) : (o : ClientOp) → o.Res → List (Nat × Nat)
  | .sess k o, r => if o.fails r then (t, k) :: failed else failed
  | .unlockExcl, _ => failed.filter fun f => decide (f.1 ≠ t)
  | _, _ => failed

/-- Calls on a client, with its errors noted. -/
def tracedMachine (cfg : ClientConfig) :
    Machine Traced ClientCall ClientOp ClientOp.Res ClientRet Clock ClientEnv where
  body := ClientCall.body cfg
  exec := fun t o i w => (o.exec cfg t i w.client).map fun r => (r.1, ⟨r.2, Traced.note t w.failed o r.1⟩)
  env := fun e w => (w.client.step cfg e).map fun s => { w with client := s }

abbrev TracedPool := Pool Traced ClientCall ClientOp ClientOp.Res ClientRet

theorem Traced.reach_client {cfg : ClientConfig} {G : TracedPool → Act ClientCall Clock ClientEnv → Prop} {w₀ : Traced}
    {p : TracedPool} (hp : (tracedMachine cfg).Reach G w₀ p) :
    (clientMachine cfg).Reach Machine.Free w₀.client ⟨p.shared.client, p.thread⟩ := by
  refine Machine.Reach.project (M := tracedMachine cfg) (f := Traced.client) rfl ?_ ?_
    (fun _ _ _ => trivial) (fun _ _ => trivial) (fun _ _ _ _ => trivial) hp
  · intro t o i w r w' hex
    obtain ⟨⟨r', s⟩, hs, he⟩ := Option.map_eq_some_iff.mp hex
    cases he
    exact hs
  · intro e w w' hex
    obtain ⟨s, hs, he⟩ := Option.map_eq_some_iff.mp hex
    cases he
    exact .inr ⟨e, hs⟩

/-! ## The calls -/

def ClientCall.sends : ClientCall → Bool
  | .send _ _ => true
  | .sendRecv _ _ => true
  | _ => false

def ClientOp.closes : ClientOp → Option Nat
  | .beginClose k => some k
  | .postClose k => some k
  | _ => none

/-- A call, and whether it has an error code. -/
structure TeardownView where
  call : ClientCall
  failing : Bool := false
  deriving DecidableEq, Repr

namespace TeardownView

def next (v : TeardownView) : (o : ClientOp) → o.Res → TeardownView
  | .sess _ o, r => { v with failing := v.failing || o.fails r }
  | .unlockExcl, _ => { v with failing := false }
  | _, _ => v

end TeardownView

/-- A call that disconnects on an error closes a session only when it has an error code. -/
def teardownDiscipline : Discipline ClientOp ClientOp.Res TeardownView where
  pre := fun v o => v.call.sends = true → o.closes ≠ none → v.failing = true
  post := TeardownView.next

namespace TeardownView

theorem next_call (v : TeardownView) (o : ClientOp) (r : o.Res) : (v.next o r).call = v.call := by
  unfold next
  split <;> rfl

theorem ok_of_not_sends {β : Type} {v : TeardownView} (hc : v.call.sends = false) (p : ClientProg β) :
    teardownDiscipline.Ok (fun _ w => w.call = v.call) v p := by
  induction p generalizing v with
  | ret b => exact rfl
  | op o k ih =>
    refine ⟨fun hs => absurd (hc.symm.trans hs) (by simp), fun r => ?_⟩
    have hcall : (v.next o r).call = v.call := v.next_call o r
    exact (ih r (hcall ▸ hc)).mono fun _ w hw => hw.trans hcall

theorem harmless {v : TeardownView} {o : ClientOp} (ho : o.closes = none) : teardownDiscipline.pre v o :=
  fun _ hne => absurd ho hne

theorem send_ok (v : TeardownView) (k : Nat) (callId : UInt32) (body : Bytes) :
    teardownDiscipline.Ok (fun ec w => w = { v with failing := v.failing || ec.isSome }) v
      (onSession k (Radrpc.send callId body)) := by
  refine ⟨harmless rfl, fun callback => ⟨harmless rfl, fun ready => ?_⟩⟩
  cases ready <;> simp [teardownDiscipline, next, SessOp.fails, Prog.lift, Prog.bind]

theorem sendRecv_ok (v : TeardownView) (k : Nat) (responseTimeout : Time) (callId : UInt32) (body recv : Bytes) :
    teardownDiscipline.Ok (fun r w => w = { v with failing := v.failing || r.2.1.isSome }) v
      (onSession k (Radrpc.sendRecv responseTimeout callId body recv)) := by
  refine ⟨harmless rfl, fun id => ?_⟩
  by_cases hid : id = (0 : UInt64)
  · subst hid
    simp [teardownDiscipline, next, SessOp.fails, Prog.lift, Prog.bind]
  · dsimp only [Prog.bind]
    rw [if_neg hid]
    have hnext : teardownDiscipline.post v (.sess k (.cache (.queue (responseTimeout * 2)))) id = v := by
      simp [teardownDiscipline, next, SessOp.fails, hid]
    rw [hnext]
    refine ⟨harmless rfl, fun callback => ⟨harmless rfl, fun ready => ?_⟩⟩
    cases ready with
    | false => simp [teardownDiscipline, next, SessOp.fails, Prog.lift, Prog.bind]
    | true =>
      refine ⟨harmless rfl, fun found => ?_⟩
      cases found with
      | invalid => simp [teardownDiscipline, next, SessOp.fails, Prog.lift, Prog.bind]
      | ready row =>
        refine ⟨harmless rfl, fun buffer => ?_⟩
        simp [teardownDiscipline, next, SessOp.fails, Prog.lift, Prog.bind]
      | blocked row =>
        refine ⟨harmless rfl, fun success => ⟨harmless rfl, fun buffer => ?_⟩⟩
        cases success <;> simp [teardownDiscipline, next, SessOp.fails, Prog.lift, Prog.bind]

theorem constructSession_ok (v : TeardownView) :
    teardownDiscipline.Ok (fun _ w => w = v) v Client.constructSession := by
  refine ⟨harmless rfl, fun expired => ?_⟩
  cases expired with
  | false => exact rfl
  | true =>
    refine ⟨harmless rfl, fun _ => ⟨harmless rfl, fun k => ⟨harmless rfl, fun start => ?_⟩⟩⟩
    cases start with
    | false => exact ⟨harmless rfl, fun _ => rfl⟩
    | true => exact ⟨harmless rfl, fun _ => ⟨harmless rfl, fun _ => ⟨harmless rfl, fun _ => rfl⟩⟩⟩

theorem connect_ok (v : TeardownView) :
    teardownDiscipline.Ok (fun _ w => w = { v with failing := false }) v Client.connect := by
  refine ⟨harmless rfl, fun _ => ⟨harmless rfl, fun exit => ?_⟩⟩
  cases exit with
  | true => exact ⟨harmless rfl, fun _ => rfl⟩
  | false =>
    show teardownDiscipline.Ok _ _ (Client.constructSession >>= _)
    apply Discipline.Ok.bind (constructSession_ok _)
    intro _ w hw
    subst hw
    exact ⟨harmless rfl, fun _ => rfl⟩

theorem disconnect_ok {v : TeardownView} (hf : v.failing = true) :
    teardownDiscipline.Ok (fun _ w => w = { v with failing := false }) v Client.disconnect := by
  have hclose : ∀ o, teardownDiscipline.pre v o := fun _ _ _ => hf
  refine ⟨harmless rfl, fun _ => ⟨harmless rfl, fun exit => ?_⟩⟩
  cases exit with
  | true => exact ⟨harmless rfl, fun _ => rfl⟩
  | false =>
    refine ⟨harmless rfl, fun session => ?_⟩
    cases session with
    | none => exact ⟨harmless rfl, fun _ => ⟨harmless rfl, fun _ => rfl⟩⟩
    | some k =>
      refine ⟨hclose _, fun mode => ?_⟩
      cases mode with
      | initiated => exact ⟨hclose _, fun _ => ⟨hclose _, fun _ => ⟨hclose _, fun _ => rfl⟩⟩⟩
      | stopped =>
        exact ⟨hclose _, fun _ => ⟨hclose _, fun _ => ⟨hclose _, fun _ => ⟨hclose _, fun _ =>
          ⟨hclose _, fun _ => ⟨hclose _, fun _ => rfl⟩⟩⟩⟩⟩⟩
      | running =>
        exact ⟨hclose _, fun _ => ⟨hclose _, fun _ => ⟨hclose _, fun _ => ⟨hclose _, fun _ =>
          ⟨hclose _, fun _ => rfl⟩⟩⟩⟩⟩

theorem sendAttempts_ok (v : TeardownView) (callId : UInt32) (body : Bytes) (n : Nat) :
    teardownDiscipline.Ok (fun _ w => w.call = v.call) v (Client.send callId body n) := by
  induction n generalizing v with
  | zero => exact rfl
  | succ n ih =>
    refine ⟨harmless rfl, fun _ => ⟨harmless rfl, fun exit => ?_⟩⟩
    cases exit with
    | true => exact ⟨harmless rfl, fun _ => rfl⟩
    | false =>
      refine ⟨harmless rfl, fun session => ?_⟩
      cases session with
      | none =>
        refine ⟨harmless rfl, fun _ => ?_⟩
        show teardownDiscipline.Ok _ _ (Client.connect >>= _)
        apply Discipline.Ok.bind (connect_ok _)
        intro _ w hw
        subst hw
        exact ih ⟨v.call, false⟩
      | some k =>
        show teardownDiscipline.Ok _ _ (onSession k (Radrpc.send callId body) >>= _)
        apply Discipline.Ok.bind (send_ok _ k callId body)
        intro ec w hw
        subst hw
        refine ⟨harmless rfl, fun _ => ⟨harmless rfl, fun _ => ?_⟩⟩
        cases ec with
        | none => exact rfl
        | some _ =>
          show teardownDiscipline.Ok _ _ (Client.disconnect >>= _)
          apply Discipline.Ok.bind (disconnect_ok (Bool.or_true _))
          intro returned w hw
          subst hw
          cases returned with
          | false => exact rfl
          | true => exact ih ⟨v.call, false⟩

theorem sendRecvAttempts_ok (v : TeardownView) (responseTimeout : Time) (callId : UInt32)
    (body : Bytes) (n : Nat) (result : Bytes) :
    teardownDiscipline.Ok (fun _ w => w.call = v.call) v (Client.sendRecv responseTimeout callId body n result) := by
  induction n generalizing v result with
  | zero => exact rfl
  | succ n ih =>
    refine ⟨harmless rfl, fun _ => ⟨harmless rfl, fun exit => ?_⟩⟩
    cases exit with
    | true => exact ⟨harmless rfl, fun _ => rfl⟩
    | false =>
      refine ⟨harmless rfl, fun session => ?_⟩
      cases session with
      | none =>
        refine ⟨harmless rfl, fun _ => ?_⟩
        show teardownDiscipline.Ok _ _ (Client.connect >>= _)
        apply Discipline.Ok.bind (connect_ok _)
        intro _ w hw
        subst hw
        exact ih ⟨v.call, false⟩ result
      | some k =>
        show teardownDiscipline.Ok _ _ (onSession k (Radrpc.sendRecv responseTimeout callId body result) >>= _)
        apply Discipline.Ok.bind (sendRecv_ok _ k responseTimeout callId body result)
        intro r w hw
        subst hw
        obtain ⟨recv, ec, id⟩ := r
        refine ⟨harmless rfl, fun _ => ⟨harmless rfl, fun _ => ?_⟩⟩
        cases ec with
        | none => exact rfl
        | some _ =>
          show teardownDiscipline.Ok _ _ (Client.disconnect >>= _)
          apply Discipline.Ok.bind (disconnect_ok (Bool.or_true _))
          intro returned w hw
          subst hw
          cases returned with
          | false => exact rfl
          | true => exact ih ⟨v.call, false⟩ recv

end TeardownView

theorem teardown_ok (cfg : ClientConfig) (c : ClientCall) :
    teardownDiscipline.Ok (fun _ v => v.call = c) ⟨c, false⟩ (c.body cfg) := by
  cases c with
  | send callId body => exact (TeardownView.sendAttempts_ok _ callId body cfg.attempts).bind fun _ w hw => hw
  | sendRecv callId body =>
    exact (TeardownView.sendRecvAttempts_ok _ cfg.responseTimeout callId body cfg.attempts []).bind fun _ w hw => hw
  | _ => exact TeardownView.ok_of_not_sends (v := ⟨_, false⟩) rfl _

instance (o : SessOp) : Nonempty o.Res := by
  cases o with
  | cache o => exact (inferInstance : Nonempty o.Res)
  | post callId resultId body => exact ⟨(0 : Nat)⟩
  | waitWritten callback => exact ⟨true⟩
  | waitPong => exact ⟨true⟩
  | postPing => exact ⟨()⟩
  | resetPong => exact ⟨()⟩

instance (o : ClientOp) : Nonempty o.Res := by
  cases o with
  | sess k o => exact (inferInstance : Nonempty o.Res)
  | readExit => exact ⟨true⟩
  | lockSession => exact ⟨none⟩
  | testExpired => exact ⟨true⟩
  | newSession => exact ⟨(0 : Nat)⟩
  | beginRun k => exact ⟨true⟩
  | waitRun k => exact ⟨ConnectionState.none⟩
  | waitDestruction => exact ⟨true⟩
  | beginClose k => exact ⟨CloseMode.initiated⟩
  | waitPosted k => exact ⟨true⟩
  | bindFunc id handler => exact ⟨Bound.bound⟩
  | readHandshake k => exact ⟨[]⟩
  | _ => exact ⟨()⟩

/-! ## Runs -/

/-- No session is constructed while a call that has got an error code has not finished its `disconnect`. -/
def NoneFailing (p : TracedPool) : Act ClientCall Clock ClientEnv → Prop
  | .op t _ => p.next t = some .newSession → p.shared.failed = []
  | _ => True

/-- Every error code comes from the session that is still current, and every call that has one is on the list. -/
structure Failing (w : Traced) (views : Nat → Option TeardownView) : Prop where
  current : ∀ f ∈ w.failed, w.client.session = some f.2
  listed : ∀ t v, views t = some v → v.failing = true → ∃ k, (t, k) ∈ w.failed

namespace Failing

variable {w : Traced} {views : Nat → Option TeardownView}

theorem keep (h : Failing w views) {t : Nat} {v v' : TeardownView} (hv : views t = some v)
    (hv' : v'.failing = v.failing) {s : Client} (hs : w.failed ≠ [] → s.session = w.client.session) :
    Failing { w with client := s } (Function.update views t (some v')) := by
  refine ⟨fun f hf => (hs (List.ne_nil_of_mem hf)).trans (h.current f hf), fun t' u hu hfail => ?_⟩
  rcases view_of_update hu with ⟨rfl, rfl⟩ | ⟨-, hu⟩
  · exact h.listed t' v hv (hv' ▸ hfail)
  · exact h.listed t' u hu hfail

theorem fail (h : Failing w views) {t k : Nat} {v' : TeardownView} {s : Client} (hk : w.client.session = some k)
    (hs : s.session = w.client.session) :
    Failing ⟨s, (t, k) :: w.failed⟩ (Function.update views t (some v')) := by
  refine ⟨fun f hf => hs.trans ?_, fun t' u hu hfail => ?_⟩
  · rcases List.mem_cons.mp hf with rfl | hf
    · exact hk
    · exact h.current f hf
  · rcases view_of_update hu with ⟨rfl, -⟩ | ⟨-, hu⟩
    · exact ⟨k, List.mem_cons_self⟩
    · obtain ⟨k', hk'⟩ := h.listed t' u hu hfail
      exact ⟨k', List.mem_cons_of_mem _ hk'⟩

theorem settle (h : Failing w views) {t : Nat} {v' : TeardownView} {s : Client} (hv' : v'.failing = false)
    (hs : s.session = w.client.session) :
    Failing ⟨s, w.failed.filter fun f => decide (f.1 ≠ t)⟩ (Function.update views t (some v')) := by
  refine ⟨fun f hf => hs.trans (h.current f (List.mem_of_mem_filter hf)), fun t' u hu hfail => ?_⟩
  rcases view_of_update hu with ⟨rfl, rfl⟩ | ⟨hne, hu⟩
  · rw [hv'] at hfail
    cases hfail
  · obtain ⟨k', hk'⟩ := h.listed t' u hu hfail
    exact ⟨k', List.mem_filter.mpr ⟨hk', decide_eq_true hne⟩⟩

end Failing

theorem ClientOp.exec_session {cfg : ClientConfig} {t : Nat} {o : ClientOp} {i : Clock} {r : o.Res} {s s' : Client}
    (hs : o.exec cfg t i s = some (r, s')) (ho : o ≠ .newSession) : s'.session = s.session := by
  by_cases ht : o.touches = false
  · exact (exec_untouched (v := .first .connect) hs ht).1.session
  cases o with
  | setExit =>
    cases hs
    rfl
  | lockSession =>
    simp only [exec] at hs
    split at hs
    · cases hs
      rfl
    · split at hs
      · cases hs
        rfl
      · cases hs
        rfl
  | releaseSession k =>
    cases hs
    rfl
  | sess k o =>
    obtain ⟨⟨r', x⟩, -, he⟩ := Option.map_eq_some_iff.mp hs
    cases he
    rfl
  | newSession => exact absurd rfl ho
  | postClose k =>
    cases hs
    rfl
  | _ => exact absurd rfl ht

theorem Traced.current_of_next {cfg : ClientConfig} {G : TracedPool → Act ClientCall Clock ClientEnv → Prop} {w₀ : Traced}
    (h₀ : w₀.client = .new cfg.order) {p : TracedPool} (hp : (tracedMachine cfg).Reach G w₀ p) {t k : Nat}
    {o : ClientOp} (hn : p.next t = some o) (ho : o.closes = some k ∨ ∃ o', o = .sess k o') :
    p.shared.client.session = some k := by
  have hreach := Traced.reach_client hp
  rw [h₀] at hreach
  obtain ⟨views, hinv, hl⟩ := attended_of_reach hreach
  obtain ⟨c, q, ht⟩ := Machine.next_eq_some hn
  obtain ⟨v, hv, hok⟩ := hl.ok ht
  have hpre : v.Allows o := hok.1
  rcases ho with ho | ⟨o', rfl⟩
  · cases o with
    | beginClose k' =>
      cases ho
      exact hinv.current hv hpre.held
    | postClose k' =>
      cases ho
      exact hinv.current hv hpre.held
    | _ => cases ho
  · exact hinv.current hv hpre.2.1

theorem failing_of_reach {cfg : ClientConfig} {p : TracedPool}
    (hp : (tracedMachine cfg).Reach NoneFailing ⟨.new cfg.order, []⟩ p) :
    ∃ views, Failing p.shared views ∧ Machine.Linked teardownDiscipline (fun _ c _ v => v.call = c) p views := by
  refine Machine.sound (fun _ c => ⟨c, false⟩) ?_ (fun _ c => teardown_ok cfg c) ?_ ?_ ?_ hp
  · exact ⟨fun _ h => (by cases h), fun _ _ h => (by cases h)⟩
  · intro p views t c _ _ hinv _ _
    refine ⟨hinv.current, fun t' v hv hfail => ?_⟩
    rcases view_of_update hv with ⟨-, rfl⟩ | ⟨-, hv⟩
    · cases hfail
    · exact hinv.listed t' v hv hfail
  · intro p views t i o v r w' hr _ hinv hG hthread hv _ hex
    obtain ⟨⟨r', s⟩, hs, he⟩ := Option.map_eq_some_iff.mp hex
    cases he
    obtain ⟨c, q, hthread⟩ := hthread
    have hnext := Machine.next_of_thread hthread
    by_cases hnew : o = .newSession
    · subst hnew
      exact hinv.keep hv rfl fun hne => absurd (hG hnext) hne
    have hsession := ClientOp.exec_session hs hnew
    cases o with
    | sess k o =>
      have hcur := Traced.current_of_next rfl hr hnext (.inr ⟨o, rfl⟩)
      cases hfail : o.fails r' with
      | true =>
        simp only [Traced.note, hfail, if_true]
        exact hinv.fail hcur hsession
      | false =>
        have hv' : (teardownDiscipline.post v (.sess k o) r').failing = v.failing := by
          simp [teardownDiscipline, TeardownView.next, hfail]
        simp only [Traced.note, hfail, Bool.false_eq_true, if_false]
        exact hinv.keep hv hv' fun _ => hsession
    | unlockExcl => exact hinv.settle rfl hsession
    | _ => exact hinv.keep hv rfl fun _ => hsession
  · intro p views e w' _ _ hinv _ he
    obtain ⟨s, hs, he⟩ := Option.map_eq_some_iff.mp he
    cases he
    have hsession : s.session = p.shared.client.session := by
      cases Client.moves_of_step hs <;> rfl
    exact ⟨fun f hf => hsession.trans (hinv.current f hf), hinv.listed⟩

/-- **A failed call closes the session it failed on.** Whenever a call of `send` or `send_recv` is about to close a
session, it has an error code from that session and from no other: in every run in which no session is constructed
while a call that has got an error code has not finished its `disconnect`. -/
theorem teardown_own {cfg : ClientConfig} {p : TracedPool}
    (hp : (tracedMachine cfg).Reach NoneFailing ⟨.new cfg.order, []⟩ p) {t k : Nat} {c : ClientCall} {o : ClientOp}
    (hc : (p.thread t).map Prod.fst = some c) (hsend : c.sends = true) (hn : p.next t = some o)
    (ho : o.closes = some k) : (t, k) ∈ p.shared.failed ∧ ∀ k', (t, k') ∈ p.shared.failed → k' = k := by
  obtain ⟨views, hinv, hl⟩ := failing_of_reach hp
  have hcur := Traced.current_of_next rfl hp hn (.inl ho)
  have hown : ∀ k', (t, k') ∈ p.shared.failed → k' = k := fun k' hk' =>
    Option.some.inj ((hinv.current (t, k') hk').symm.trans hcur)
  obtain ⟨c', q, ht⟩ := Machine.next_eq_some hn
  rw [ht] at hc
  cases hc
  obtain ⟨v, hv, hok⟩ := hl.ok ht
  have hcall : v.call = c' := by
    obtain ⟨b, w, hw, hvw⟩ := hok.exists_return (I := fun w => w.call = v.call)
      (fun w o r hw => (w.next_call o r).trans hw) rfl
    exact hvw.symm.trans hw
  have hfail : v.failing = true := hok.1 (hcall ▸ hsend) (by rw [ho]; simp)
  obtain ⟨k', hk'⟩ := hinv.listed t v hv hfail
  exact ⟨hown k' hk' ▸ hk', hown⟩

def noneFailing (p : TracedPool) : Act ClientCall Clock ClientEnv → Bool
  | .op t _ => decide (p.next t = some .newSession → p.shared.failed = [])
  | _ => true

theorem noneFailing_sound (p : TracedPool) (a : Act ClientCall Clock ClientEnv) (h : noneFailing p a = true) :
    NoneFailing p a := by
  cases a with
  | call t c => trivial
  | op t i =>
    simp only [noneFailing, decide_eq_true_eq] at h
    exact h
  | env e => trivial

/-- A client that makes two attempts, over a plain stream. -/
def retryConfig : ClientConfig := ⟨.little, false, 2, 1000000000⟩

/-- The call `t` posts a message, its wait for the write times out, and it lets go of the session and of the lock. -/
def failRun (t : Nat) : List (Act ClientCall Clock ClientEnv) :=
  [.call t (.send 7 [1]), .op t {}, .op t {}, .op t {}, .op t {}, .op t { timeout := true }, .op t {}, .op t {}]

theorem teardown_own_timeout : ∃ p : TracedPool,
    (tracedMachine retryConfig).Reach NoneFailing ⟨.new retryConfig.order, []⟩ p ∧
      p.next 1 = some (.beginClose 0) ∧ (1, 0) ∈ p.shared.failed := by
  have hrun : ((tracedMachine retryConfig).run noneFailing (.initial ⟨.new retryConfig.order, []⟩)
      (List.flatten [connectRun 0 0, [.op 0 {}], failRun 1, List.replicate 3 (.op 1 {})])).any
      (fun p => decide (p.next 1 = some (.beginClose 0)) &&
        decide ((p.thread 1).map Prod.fst = some (.send 7 [1]))) = true := by
    decide +kernel
  obtain ⟨p, hp, hf⟩ := Machine.Reach.exists_of_run noneFailing_sound _ hrun
  simp only [Bool.and_eq_true, decide_eq_true_eq] at hf
  exact ⟨p, hp, hf.1, (teardown_own hp hf.2 rfl hf.1 rfl).1⟩

/-- The handler of session `k` for an event runs from its start to its end. -/
def handlerRun (k : Nat) (e : ClientEvent) : List (Act ClientCall Clock ClientEnv) :=
  [.env (.session k e), .env (.leave k)]

/-- The call 1 disconnects: it closes session 0, on which two messages are posted, and waits for its end. -/
def disconnectRun : List (Act ClientCall Clock ClientEnv) :=
  List.flatten [
    List.replicate 5 (.op 1 {}),
    handlerRun 0 .runPosted, handlerRun 0 .runPosted, handlerRun 0 .runPosted,
    [.env (.session 0 (.onWrite 0 false)), .env (.session 0 (.ioStep {})), .env (.session 0 (.ioStep {})),
      .env (.session 0 (.ioStep {})), .env (.leave 0)],
    handlerRun 0 .onClose, handlerRun 0 (.onRead true []),
    List.replicate 2 (.op 1 {}),
    [.env (.delete 0), .env (.onSessionDelete 0), .env .workerStop, .env .workerDone],
    List.replicate 2 (.op 1 {})]

/-- The call 1 makes its next attempt: it finds no session and connects session 1. -/
def reconnectRun : List (Act ClientCall Clock ClientEnv) :=
  List.flatten [
    List.replicate 11 (.op 1 {}),
    [.env .workerRun, .env (.onResolve 1 false), .env (.leave 1), .env (.onConnect 1 false), .env (.leave 1),
      .env (.onHandshake 1 false []), .env (.leave 1)],
    List.replicate 3 (.op 1 {})]

/-- The calls 1 and 2 fail on session 0; call 1 disconnects and connects session 1; then call 2 begins to disconnect. -/
def foreignRun : List (Act ClientCall Clock ClientEnv) :=
  List.flatten [connectRun 0 0, [.op 0 {}], failRun 1, failRun 2, disconnectRun, reconnectRun, List.replicate 3 (.op 2 {})]

/-- A call that failed on a session closes the one that another call has connected in the meantime. -/
theorem teardown_foreign : ¬ ∀ (cfg : ClientConfig) (p : TracedPool) (t k : Nat) (c : ClientCall) (o : ClientOp),
    (tracedMachine cfg).Reach Machine.Free ⟨.new cfg.order, []⟩ p → (p.thread t).map Prod.fst = some c →
      c.sends = true → p.next t = some o → o.closes = some k → (t, k) ∈ p.shared.failed := by
  intro h
  have hrun : ((tracedMachine retryConfig).run (fun _ _ => true) (.initial ⟨.new retryConfig.order, []⟩) foreignRun).any
      (fun p => decide (p.next 2 = some (.beginClose 1)) && decide (p.shared.failed = [(2, 0)]) &&
        decide ((p.thread 2).map Prod.fst = some (.send 7 [1]))) = true := by
    decide +kernel
  obtain ⟨p, hp, hf⟩ := Machine.Reach.exists_of_run (G := Machine.Free) (fun _ _ _ => trivial) foreignRun hrun
  simp only [Bool.and_eq_true, decide_eq_true_eq] at hf
  obtain ⟨⟨hnext, hfailed⟩, hcall⟩ := hf
  have hmem := h retryConfig p 2 1 (.send 7 [1]) (.beginClose 1) hp hcall rfl hnext rfl
  rw [hfailed] at hmem
  cases hmem with
  | tail _ hmem => cases hmem

end Radrpc
