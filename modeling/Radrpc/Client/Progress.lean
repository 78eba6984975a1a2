import Radrpc.Client.Attempts

/-!
# No deadlock of a client

A call waits for the lock, for the io thread that it joins, for the promise of `run()`, and in `close()` for the io
context; everything else has a timeout, and the one of the wait for the destruction should not happen.

* `ClientOp.waits`, `ClientOp.exec_timeout` : the steps that wait, and that the others have a timeout;
* `Client.Holds` : who holds the lock;
* `client_oneLock` : in every reachable state, the step of a call that holds the lock can be taken once the environment
  has moved on;
* `calls_can_return` : so all calls can return, and no wait for the destruction has to time out.
-/

namespace Radrpc
open Words Conc Relation

/-! ## Steps that wait -/

/-- The steps of a call that have no timeout, or should not need it. -/
def ClientOp.waits : ClientOp → Bool
  | .lockShared => true
  | .lockExcl => true
  | .joinWorker => true
  | .joinAtExit => true
  | .waitRun _ => true
  | .waitDestruction => true
  | .finishIo => true
  | _ => false

def ClientOp.Patient : ClientOp → Clock → Prop
  | .waitDestruction, i => i.timeout = false
  | _, _ => True

theorem ClientOp.patient {o : ClientOp} (ho : o ≠ .waitDestruction) (i : Clock) : o.Patient i := by
  cases o with
  | waitDestruction => exact absurd rfl ho
  | _ => exact trivial

theorem SessOp.exec_timeout (t : Nat) (o : SessOp) (s : ClientSession) :
    ∃ x, o.exec t { timeout := true } s = some x := by
  cases o with
  | cache o =>
    cases o with
    | await id row =>
      simp only [exec, CacheOp.exec]
      split <;> exact ⟨_, rfl⟩
    | _ => exact ⟨_, rfl⟩
  | waitWritten callback =>
    simp only [exec]
    split <;> exact ⟨_, rfl⟩
  | waitPong =>
    simp only [exec]
    split <;> exact ⟨_, rfl⟩
  | _ => exact ⟨_, rfl⟩

theorem ClientOp.exec_timeout (cfg : ClientConfig) (t : Nat) {o : ClientOp} (ho : o.waits = false) (s : Client) :
    ∃ x, o.exec cfg t { timeout := true } s = some x := by
  cases o with
  | lockShared => cases ho
  | lockExcl => cases ho
  | joinWorker => cases ho
  | joinAtExit => cases ho
  | waitRun k => cases ho
  | waitDestruction => cases ho
  | finishIo => cases ho
  | sess k o =>
    obtain ⟨x, hx⟩ := SessOp.exec_timeout t o (s.sessions k).sess
    exact ⟨_, Option.map_eq_some_iff.mpr ⟨x, hx, rfl⟩⟩
  | lockSession =>
    simp only [exec]
    split
    · exact ⟨_, rfl⟩
    · split <;> exact ⟨_, rfl⟩
  | beginRun k =>
    simp only [exec]
    split <;> exact ⟨_, rfl⟩
  | beginClose k =>
    simp only [exec]
    split <;> exact ⟨_, rfl⟩
  | waitPosted k =>
    simp only [exec]
    split <;> exact ⟨_, rfl⟩
  | bindFunc id handler =>
    simp only [exec]
    split
    · exact ⟨_, rfl⟩
    · split <;> exact ⟨_, rfl⟩
  | _ => exact ⟨_, rfl⟩

/-! ## The lock -/

def Client.Holds (s : Client) (t : Nat) : Prop := s.writer = some t ∨ t ∈ s.readers

namespace Exact

variable {s s' : Client} {views : Nat → Option (ClientView × Turn)}

theorem not_holds (h : Exact s views) {t : Nat} (ht : ∀ v, views t = some v → v.1.lock = .free) : ¬ s.Holds t := by
  rintro (hw | hr)
  · obtain ⟨v, hv, hl⟩ := h.writer t hw
    rw [ht v hv] at hl
    cases hl
  · obtain ⟨v, hv, hl⟩ := h.readers t hr
    rw [ht v hv] at hl
    cases hl

theorem holds_other (hinv : Locked s (fstViews views)) {cfg : ClientConfig} {t t' : Nat} {o : ClientOp} {i : Clock}
    {r : o.Res} {v : ClientView × Turn} (hv : views t = some v) (hpre : v.1.Allows o)
    (hs : o.exec cfg t i s = some (r, s')) (hne : t' ≠ t) : s'.Holds t' ↔ s.Holds t' := by
  by_cases h1 : o = .lockShared
  · subst h1
    simp only [ClientOp.exec] at hs
    split at hs
    · cases hs
      simp [Client.Holds, hne]
    · cases hs
  by_cases h2 : o = .unlockShared
  · subst h2
    cases hs
    simp only [Client.Holds, List.mem_erase_of_ne hne]
  by_cases h3 : o = .lockExcl
  · subst h3
    simp only [ClientOp.exec] at hs
    split at hs
    · rename_i hg
      cases hs
      simp [Client.Holds, hg.1, hne.symm]
    · cases hs
  by_cases h4 : o = .unlockExcl
  · subst h4
    cases hs
    have hw : s.writer = some t := hinv.excl t v.1 (by simp [fstViews, hv]) hpre.lock
    simp [Client.Holds, hw, hne.symm]
  obtain ⟨hw, hr, -⟩ := ClientOp.exec_lock (v := v.1) hs h1 h2 h3 h4
  rw [Client.Holds, Client.Holds, hw, hr]

end Exact

/-! ## What a call waits for -/

def Reached (cfg : ClientConfig) (p : ClientPool) : Prop :=
  (clientMachine cfg).Reach Machine.Free (.new cfg.order) p

theorem Client.At.drift {cfg : ClientConfig} {s s' : Client} {stage : Stage} (h : s.At stage)
    (hd : (clientMachine cfg).Drift s s') : s'.At stage := by
  induction hd with
  | refl => exact h
  | tail _ he ih =>
    obtain ⟨e, he⟩ := he
    exact (Client.ioMoves_of_step he).at' ih

theorem Client.At.drain_run (cfg : ClientConfig) {s : Client} {k : Nat} (h : s.At (.running k))
    (hb : ∀ k, (s.sessions k).Buried) : ∃ s', (clientMachine cfg).Drift s s' ∧ (s'.sessions k).ran ≠ none := by
  have hrunning : ∀ s₁ : Client, s₁.At (.running k) → s₁.worker = .running → s₁.stopped = false →
      (∀ k, (s₁.sessions k).Buried) → ∃ s', (clientMachine cfg).Drift s₁ s' ∧ (s'.sessions k).ran ≠ none := by
    intro s₁ h₁ hw hgo hb₁
    obtain ⟨s', hd, -, hidle, -⟩ := Client.drain_session (s := s₁) cfg (by simp [Client.ioRunning, hw, hgo]) hb₁ k
    refine ⟨s', hd, fun hran => ?_⟩
    have hc := ((h₁.drift hd).2.2.2 hran).1
    simp [SessObj.hasWork, hc] at hidle
  cases hran : (s.sessions k).ran with
  | some b => exact ⟨s, .refl, by simp [hran]⟩
  | none =>
    rcases (h.2.2.2 hran).2 with hw | ⟨hw, hgo⟩
    · have hrun : s.step cfg .workerRun = some { s with worker := .running, stopped := false } := if_pos hw
      have hdrift : (clientMachine cfg).Drift s { s with worker := .running, stopped := false } :=
        .single ⟨.workerRun, hrun⟩
      obtain ⟨s', hd, hs'⟩ := hrunning _ (h.drift hdrift) rfl rfl hb
      exact ⟨s', hdrift.trans hd, hs'⟩
    · exact hrunning s h hw hgo hb

/-- In every reachable state of a client, a call that holds the lock, or that finds nobody holding it, can take its next
step once the environment has moved on. -/
theorem client_enabled {cfg : ClientConfig} {p : ClientPool} (hp : Reached cfg p) {t : Nat} {c : ClientCall}
    {o : ClientOp} {prog : o.Res → ClientProg ClientRet} (ht : p.thread t = some (c, .op o prog))
    (hfree : p.shared.Holds t ∨ ∀ t', ¬ p.shared.Holds t') :
    ∃ s i r s', (clientMachine cfg).Drift p.shared s ∧ o.Patient i ∧ o.exec cfg t i s = some (r, s') := by
  obtain ⟨views, hsettled, hl⟩ := settled_of_reach hp
  obtain ⟨⟨v, lock, use⟩, hv, hok⟩ := hl.ok ht
  obtain ⟨hpre, hturn⟩ := hok.1
  have hinv := hsettled.running
  have hb := hsettled.attempting.buried
  have hnobody : v.lock = .free → p.shared.writer = none ∧ p.shared.readers = [] := by
    intro hlock
    have hnot : ¬ p.shared.Holds t := hinv.exact.not_holds fun v' hv' => by
      rw [hv] at hv'
      cases hv'
      exact hlock
    have hnone := hfree.resolve_left hnot
    refine ⟨?_, List.eq_nil_iff_forall_not_mem.mpr fun t' hr => hnone t' (.inr hr)⟩
    by_contra hw
    obtain ⟨t', hw⟩ := Option.ne_none_iff_exists'.mp hw
    exact hnone t' (.inl hw)
  by_cases ho : o.waits = false
  · obtain ⟨x, hx⟩ := ClientOp.exec_timeout cfg t ho p.shared
    have hne : o ≠ .waitDestruction := fun he => by
      rw [he] at ho
      cases ho
    exact ⟨p.shared, { timeout := true }, x.1, x.2, .refl, ClientOp.patient hne _, hx⟩
  cases o with
  | lockShared => exact ⟨p.shared, {}, _, _, .refl, trivial, if_pos (hnobody hpre.lock).1⟩
  | lockExcl => exact ⟨p.shared, {}, _, _, .refl, trivial, if_pos (hnobody hpre.lock)⟩
  | joinWorker =>
    obtain ⟨s, hd, hw⟩ := Client.drain_worker (s := p.shared) cfg hb
    exact ⟨s, {}, _, _, hd, trivial, if_neg hw⟩
  | joinAtExit =>
    obtain ⟨s, hd, hw⟩ := Client.drain_worker (s := p.shared) cfg hb
    exact ⟨s, {}, _, _, hd, trivial, if_neg hw⟩
  | waitRun k =>
    obtain rfl : use = .outside := hturn
    have hat : p.shared.At v.building.stage := hinv.turns.holder t _ hv hpre.1
    rw [hpre.2.2] at hat
    obtain ⟨s, hd, hran⟩ := Client.At.drain_run cfg hat hb
    obtain ⟨b, hran⟩ := Option.ne_none_iff_exists'.mp hran
    have hex : (ClientOp.waitRun k).exec cfg t {} s =
        some ((s.sessions k).state, s.modify k fun x => { x with returned := some x.state }) := by
      simp only [ClientOp.exec, hran]
    exact ⟨s, {}, _, _, hd, trivial, hex⟩
  | waitDestruction =>
    obtain ⟨s, hd, hs⟩ := hsettled.expires cfg hv hpre
    exact ⟨s, {}, _, _, hd, rfl, if_pos hs⟩
  | finishIo =>
    obtain rfl : use = .inside := hturn
    have hat : p.shared.At .inside := hinv.turns.holder t _ hv hpre
    cases hstop : p.shared.stopped with
    | true => exact ⟨p.shared, {}, _, _, .refl, trivial, if_neg (by simp [hstop])⟩
    | false =>
      obtain ⟨s, hd, -, hidle⟩ := Client.drain (s := p.shared) cfg (by simp [Client.ioRunning, hat.1, hstop]) hb
      exact ⟨s, {}, _, _, hd, trivial, if_neg (by simp [hidle])⟩
  | _ => exact absurd rfl ho

/-- The calls on a client share one lock, and wait for nothing else that only another call can bring about. -/
theorem client_oneLock (cfg : ClientConfig) : OneLock (clientMachine cfg) ClientOp.Patient (Reached cfg) Client.Holds where
  keeps := fun p a p' hp _ hs => hp.step trivial hs
  idle := by
    intro p t hp hn
    obtain ⟨views, hinv, hl⟩ := running_of_reach hp
    refine hinv.exact.not_holds fun v hv => ?_
    rcases hl t with ⟨-, hnone⟩ | ⟨c, prog, v', ht, hv', hok⟩
    · rw [hv] at hnone
      cases hnone
    · rw [hv] at hv'
      cases hv'
      cases prog with
      | ret b =>
        rw [← hinv.exact.agree t v hv, hok.2]
        rfl
      | op o k => simp [Pool.next, ht, Prog.next] at hn
  other := by
    intro p t c o k i r s t' hp ht hex hne
    obtain ⟨views, hinv, hl⟩ := running_of_reach hp
    obtain ⟨v, hv, hok⟩ := hl.ok ht
    exact Exact.holds_other hinv.attended.alive.locked hv hok.1.1 hex hne
  env := by
    intro e s s' t hs
    cases Client.moves_of_step hs <;> exact Iff.rfl
  enabled := fun p t c o k hp ht hfree => client_enabled hp ht hfree

/-- **No deadlock.** From every reachable state of a client, some run in which no more calls come in leads to a state in
which every call that has been made has returned: also those that wait for the lock, join the io thread, wait for a
connection attempt, or run the io context in `close()`. No wait for the destruction of a session has to time out. -/
theorem calls_can_return {cfg : ClientConfig} {p : ClientPool}
    (hp : (clientMachine cfg).Reach Machine.Free (.new cfg.order) p) :
    ∃ as q, (clientMachine cfg).Steps (Machine.Quiet ClientOp.Patient) p as q ∧
      ∀ t c prog, p.thread t = some (c, prog) → ∃ r, q.result t = some (c, r) := by
  obtain ⟨ts, hts⟩ := hp.threads
  obtain ⟨as, q, hq, hret⟩ := (client_oneLock cfg).returns hp hts
  exact ⟨as, q, hq, fun t c prog ht => hret t c (by simp [Pool.call, ht])⟩

/-- Two calls that wait: one for a connection attempt, and behind it one for the lock. -/
theorem calls_can_return_waiting : ∃ (p q : ClientPool) (as : List (Act ClientCall Clock ClientEnv)),
    (clientMachine plainConfig).Reach Machine.Free (.new plainConfig.order) p ∧
      p.next 0 = some (.waitRun 0) ∧ p.next 1 = some .lockExcl ∧
      (clientMachine plainConfig).Steps (Machine.Quiet ClientOp.Patient) p as q ∧
      (∃ r, q.result 0 = some (.connect, r)) ∧ ∃ r, q.result 1 = some (.destroy, r) := by
  have hrun : ((clientMachine plainConfig).run (fun _ _ => true) (.initial (.new plainConfig.order))
      (startRun 0 ++ [.call 1 .destroy])).any (fun p => decide (p.next 0 = some (.waitRun 0) ∧
        p.next 1 = some .lockExcl ∧ p.call 0 = some .connect ∧ p.call 1 = some .destroy)) = true := by
    decide +kernel
  obtain ⟨p, hp, hf⟩ := Machine.Reach.exists_of_run (G := Machine.Free) (fun _ _ _ => trivial) _ hrun
  obtain ⟨h0, h1, hc0, hc1⟩ := of_decide_eq_true hf
  obtain ⟨as, q, hq, hret⟩ := calls_can_return hp
  obtain ⟨⟨_, prog₀⟩, ht0, rfl⟩ := Option.map_eq_some_iff.mp hc0
  obtain ⟨⟨_, prog₁⟩, ht1, rfl⟩ := Option.map_eq_some_iff.mp hc1
  exact ⟨p, q, as, hp, h0, h1, hq, hret 0 _ _ ht0, hret 1 _ _ ht1⟩

end Radrpc
