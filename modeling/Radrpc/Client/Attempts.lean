import Radrpc.Client.Draining

/-!
# Connection attempts, and the end of a session

An attempt to connect belongs to the call that is in `run()`: from the first operation until the promise is set, this
call holds the lock. A session that nobody uses any more comes to its end by itself.

* `Attempting` : the invariant: an attempt has an owner, a shared pointer of a call belongs to a call that holds the
  lock, and no operation is outstanding while nobody runs the io context;
* `settled_of_reach` : it holds in every reachable state, together with `Running`;
* `attempt_isolated` : while an attempt is under way its promise is not set, one call waits for it under the lock, and
  the handshake that is sent is the one of the client;
* `Settled.expires` : once nobody else has the lock or uses the session, the environment alone leads to its end;
* `destruction_comes` : so a call that waits for the destruction need not wait for its timeout.
-/

namespace Radrpc
open Words Conc

/-- The call is in the `run()` of session `k`, and its attempt may be under way. -/
def Building.Attempts (b : Building) (k : Nat) : Prop := b = .resolving k ∨ b = .running k

theorem Building.Attempts.next {v : ClientView} {o : ClientOp} {r : o.Res} {k : Nat} (h : v.building.Attempts k)
    (hpre : v.Allows o) (ho : o ≠ .waitRun k) : (v.next o r).building.Attempts k := by
  have hbare : v.building ≠ .none := by rcases h with h | h <;> rw [h] <;> simp
  cases o with
  | testExpired => exact absurd hpre.building hbare
  | joinWorker => rcases h with h | h <;> rw [hpre.2.2] at h <;> cases h
  | newSession => rcases h with h | h <;> rw [hpre.2.2] at h <;> cases h
  | beginRun k' => rcases h with h | h <;> rw [hpre.2.2] at h <;> cases h
  | assignWorker =>
    obtain ⟨-, k', hk⟩ := hpre
    rcases h with h | h
    · exact .inr (by simp only [ClientView.next, h])
    · rw [hk] at h
      cases h
  | waitRun k' =>
    rcases h with h | h
    · rw [hpre.2.2] at h
      cases h
    · rw [hpre.2.2] at h
      cases h
      exact absurd rfl ho
  | lockSession => cases r <;> exact h
  | waitDestruction => cases r <;> exact h
  | _ => exact h

/-- Attempts have owners, the shared pointers of calls belong to calls that hold the lock, and no operation is
outstanding while nobody runs the io context. -/
structure Attempting (s : Client) (views : Nat → Option (ClientView × Turn)) : Prop where
  underway : ∀ k, (s.sessions k).connecting.isSome = true →
    (s.sessions k).ran = none ∧ ∃ t v, views t = some v ∧ v.1.building.Attempts k
  request : ∀ k, (s.sessions k).connecting = some .handshake → (s.sessions k).handshake = some s.reqHandshake
  holders : ∀ k t, t ∈ (s.sessions k).holders → ∃ v, views t = some v ∧ v.1.held = some k ∧ v.1.lock ≠ .free
  nodup : ∀ k, (s.sessions k).holders.Nodup
  resting : s.ioRunning = false → ∀ k, (s.sessions k).sess.pending = false
  buried : ∀ k, (s.sessions k).Buried

/-! ## Steps of a call -/

namespace ClientOp

variable {cfg : ClientConfig} {t : Nat} {o : ClientOp} {i : Clock} {r : o.Res} {s s' : Client} {v : ClientView}

theorem exec_reqHandshake (hs : o.exec cfg t i s = some (r, s')) (ho : ∀ request, o ≠ .setHandshake request) :
    s'.reqHandshake = s.reqHandshake := by
  cases o with
  | setHandshake request => exact absurd rfl (ho request)
  | sess k o =>
    obtain ⟨x, -, he⟩ := Option.map_eq_some_iff.mp hs
    cases he
    rfl
  | _ =>
    simp only [exec] at hs
    (repeat' split at hs) <;> cases hs <;> rfl

theorem exec_holders (hs : o.exec cfg t i s = some (r, s')) (h1 : o ≠ .lockSession) (h2 : ∀ k, o ≠ .releaseSession k)
    (h3 : o ≠ .newSession) : (∀ k, (s'.sessions k).holders = (s.sessions k).holders) ∧ (v.next o r).held = v.held := by
  by_cases ho : o.touches = false
  · obtain ⟨hu, hheld, -⟩ := exec_untouched (v := v) hs ho
    exact ⟨hu.holders, hheld⟩
  cases o with
  | lockSession => exact absurd rfl h1
  | releaseSession k => exact absurd rfl (h2 k)
  | newSession => exact absurd rfl h3
  | setExit =>
    cases hs
    exact ⟨fun _ => rfl, rfl⟩
  | sess k o =>
    obtain ⟨x, -, he⟩ := Option.map_eq_some_iff.mp hs
    cases he
    exact ⟨s.modify_keeps k SessObj.holders rfl, rfl⟩
  | postClose k =>
    cases hs
    exact ⟨s.modify_keeps k SessObj.holders rfl, rfl⟩
  | _ => exact absurd rfl ho

/-- What a step of a call does to the operations of a session: nothing, unless it constructs the session or starts the
attempt to connect. -/
theorem exec_attempt (hs : o.exec cfg t i s = some (r, s')) (k : Nat) :
    ((s'.sessions k).connecting = (s.sessions k).connecting ∧ (s'.sessions k).ran = (s.sessions k).ran ∧
      (s'.sessions k).handshake = (s.sessions k).handshake ∧
      (s'.sessions k).sess.pending = (s.sessions k).sess.pending) ∨
    ((s'.sessions k).connecting = none ∧ (s'.sessions k).sess.pending = false) ∨
    (o = .beginRun k ∧ (v.next o r).building = .resolving k ∧ (s'.sessions k).connecting = some .resolve ∧
      (s'.sessions k).ran = (s.sessions k).ran ∧ (s'.sessions k).sess.pending = (s.sessions k).sess.pending) := by
  by_cases ho : o.turns = false
  · have hsame := exec_sameIo hs ho
    exact .inl ⟨hsame.connecting k, hsame.ran k, hsame.handshake k, hsame.pending k⟩
  cases o with
  | newSession =>
    cases hs
    by_cases hk : k = s.sessionCount
    · refine .inr (.inl ?_)
      show ((s.modify s.sessionCount fun _ => _).sessions k).connecting = none ∧
        ((s.modify s.sessionCount fun _ => _).sessions k).sess.pending = false
      rw [Client.sessions_modify, if_pos hk]
      exact ⟨rfl, rfl⟩
    · refine .inl ?_
      show ((s.modify s.sessionCount fun _ => _).sessions k).connecting = _ ∧
        ((s.modify s.sessionCount fun _ => _).sessions k).ran = _ ∧
        ((s.modify s.sessionCount fun _ => _).sessions k).handshake = _ ∧
        ((s.modify s.sessionCount fun _ => _).sessions k).sess.pending = _
      rw [Client.sessions_modify, if_neg hk]
      exact ⟨rfl, rfl, rfl, rfl⟩
  | beginRun k' =>
    simp only [exec] at hs
    split at hs
    · cases hs
      have hkeep : ∀ {β : Type} (g : SessObj → β), (∀ x, g { x with returned := some .none } = g x) →
          g ((s.modify k' fun x => { x with returned := some .none }).sessions k) = g (s.sessions k) :=
        fun g hg => s.modify_keeps k' (f := fun x => { x with returned := some .none }) g (hg _) k
      exact .inl ⟨hkeep SessObj.connecting fun _ => rfl, hkeep SessObj.ran fun _ => rfl,
        hkeep SessObj.handshake fun _ => rfl, hkeep (fun x => x.sess.pending) fun _ => rfl⟩
    · cases hs
      by_cases hk : k = k'
      · subst hk
        rw [Client.sessions_modify, if_pos rfl]
        exact .inr (.inr ⟨rfl, rfl, rfl, rfl, rfl⟩)
      · rw [Client.sessions_modify, if_neg hk]
        exact .inl ⟨rfl, rfl, rfl, rfl⟩
  | joinWorker | joinAtExit | finishIo =>
    simp only [exec] at hs
    split at hs
    · cases hs
    · cases hs
      exact .inl ⟨rfl, rfl, rfl, rfl⟩
  | assignWorker | restartIo =>
    cases hs
    exact .inl ⟨rfl, rfl, rfl, rfl⟩
  | _ => exact absurd rfl ho

theorem exec_pending (hs : o.exec cfg t i s = some (r, s')) (k : Nat) (hp : (s'.sessions k).sess.pending = true) :
    (s.sessions k).sess.pending = true := by
  rcases exec_attempt (v := .first .connect) hs k with ⟨-, -, -, hsame⟩ | ⟨-, hnone⟩ | ⟨-, -, -, -, hsame⟩
  · exact hsame.symm.trans hp
  · rw [hnone] at hp
    cases hp
  · exact hsame.symm.trans hp

theorem exec_rests (hs : o.exec cfg t i s = some (r, s')) (hoff : s'.ioRunning = false)
    (hassign : o = .assignWorker → s.ioRunning = false) : s.ioRunning = false ∨ s.hasWork = false := by
  by_cases ho : o.turns = false
  · exact .inl ((exec_sameIo hs ho).ioRunning ▸ hoff)
  cases o with
  | joinWorker | joinAtExit =>
    simp only [exec] at hs
    split at hs
    · cases hs
    · rename_i hw
      cases hs
      have hin : s.inline = true → s.stopped = true := by simpa [Client.ioRunning] using hoff
      exact .inl (by simpa [Client.ioRunning, (not_or.mp hw).2] using hin)
  | newSession =>
    cases hs
    exact .inl hoff
  | beginRun k =>
    simp only [exec] at hs
    split at hs
    · cases hs
      exact .inl hoff
    · cases hs
      exact .inl hoff
  | assignWorker => exact .inl (hassign rfl)
  | restartIo =>
    cases hs
    simp [Client.ioRunning] at hoff
  | finishIo =>
    simp only [exec] at hs
    split at hs
    · cases hs
    · rename_i hleft
      cases hstop : s.stopped with
      | true => exact .inl (by simp [Client.ioRunning, hstop])
      | false => exact .inr (Bool.eq_false_iff.mpr fun hwork => hleft ⟨hwork, hstop⟩)
  | _ => exact absurd rfl ho

theorem next_lock (hpre : v.Allows o) (hheld : v.held ≠ none) (hl : v.lock ≠ .free) : (v.next o r).lock ≠ .free := by
  cases o with
  | lockShared => exact absurd hpre.held hheld
  | unlockShared => exact absurd hpre.held hheld
  | lockExcl => exact absurd hpre.held hheld
  | unlockExcl => exact absurd hpre.held hheld
  | lockSession => exact absurd hpre.2.1 hheld
  | testExpired => exact absurd hpre.held hheld
  | beginRun k => cases r <;> exact hl
  | waitDestruction => cases r <;> exact hl
  | _ => exact hl

end ClientOp

namespace Attempting

variable {s s' : Client} {views : Nat → Option (ClientView × Turn)}

theorem new (o : ByteOrder) : Attempting (.new o) fun _ => none :=
  ⟨fun _ h => (by cases h), fun _ h => (by cases h), fun _ _ h => (by cases h), fun _ => List.nodup_nil,
    fun _ _ => rfl, fun _ _ => ⟨rfl, rfl, rfl⟩⟩

theorem call (h : Attempting s views) {t : Nat} (ht : views t = none) (c : ClientCall) :
    Attempting s (Function.update views t (some (.first c, .holding .free))) := by
  have hkeep : ∀ {P : ClientView × Turn → Prop} {t' : Nat}, (∃ v, views t' = some v ∧ P v) →
      ∃ v, Function.update views t (some (.first c, .holding .free)) t' = some v ∧ P v := by
    rintro P t' ⟨v, hv, hp⟩
    refine ⟨v, ?_, hp⟩
    rw [Function.update_of_ne, hv]
    rintro rfl
    rw [ht] at hv
    cases hv
  refine ⟨fun k hc => ?_, h.request, fun k t' hmem => hkeep (h.holders k t' hmem), h.nodup, h.resting, h.buried⟩
  obtain ⟨hran, t', hex⟩ := h.underway k hc
  exact ⟨hran, t', hkeep (P := fun v => v.1.building.Attempts k) hex⟩

theorem owner (h : Attempting s views) (hkept : Kept s (fstViews views)) {k : Nat}
    (hc : (s.sessions k).connecting.isSome = true) : ∃ t v, views t = some v ∧ v.1.building.Attempts k ∧
      v.1.lock = .excl := by
  obtain ⟨-, t, v, hv, ha⟩ := h.underway k hc
  refine ⟨t, v, hv, ha, hkept.building t v.1 (by simp [fstViews, hv]) ?_⟩
  rcases ha with hb | hb <;> rw [hb] <;> simp

theorem quiet (h : Attempting s views) (hinv : Alive s (fstViews views)) {t : Nat} {v : ClientView × Turn}
    (hv : views t = some v) (hb : v.1.Bare .excl) (k : Nat) : (s.sessions k).connecting = none := by
  by_contra hc
  obtain ⟨t', v', hv', ha, hl⟩ := h.owner hinv.kept (Option.isSome_iff_ne_none.mpr hc)
  obtain rfl : t' = t := hinv.locked.unique (by simp [fstViews, hv']) (by simp [fstViews, hv]) hl hb.lock
  rw [hv] at hv'
  cases hv'
  rcases ha with ha | ha <;> rw [hb.building] at ha <;> cases ha

theorem underway_exec (h : Attempting s views) (hturns : Turns s views) {cfg : ClientConfig} {t : Nat} {o : ClientOp}
    {i : Clock} {r : o.Res} {v : ClientView × Turn} (hv : views t = some v) (hpre : v.1.Allows o) (hio : v.2.Allows o)
    (hs : o.exec cfg t i s = some (r, s')) (k : Nat) (hc : (s'.sessions k).connecting.isSome = true) :
    (s'.sessions k).ran = none ∧
      ∃ t' v', Function.update views t (some (v.1.next o r, v.2.next o r)) t' = some v' ∧ v'.1.building.Attempts k := by
  rcases ClientOp.exec_attempt (v := v.1) hs k with ⟨hconn, hran, -⟩ | ⟨hnone, -⟩ | ⟨rfl, hb, -, hran, -⟩
  · rw [hconn] at hc
    rw [hran]
    obtain ⟨hran, t', v', hv', ha⟩ := h.underway k hc
    refine ⟨hran, ?_⟩
    by_cases ht : t' = t
    · subst ht
      rw [hv] at hv'
      cases hv'
      refine ⟨t', _, Function.update_self _ _ _, ha.next hpre ?_⟩
      -- `run()` has not returned without its promise
      rintro rfl
      simp only [ClientOp.exec, hran] at hs
      cases hs
    · exact ⟨t', v', by rwa [Function.update_of_ne ht], ha⟩
  · rw [hnone] at hc
    cases hc
  · obtain ⟨v, lock, use⟩ := v
    obtain rfl : use = .outside := hio
    have hat : s.At v.building.stage := hturns.holder t _ hv hpre.1
    rw [hpre.2.2] at hat
    exact ⟨hran.trans hat.2.2.2, t, _, Function.update_self _ _ _, .inl hb⟩

theorem request_exec (h : Attempting s views) (hinv : Alive s (fstViews views)) {cfg : ClientConfig} {t : Nat}
    {o : ClientOp} {i : Clock} {r : o.Res} {v : ClientView × Turn} (hv : views t = some v) (hpre : v.1.Allows o)
    (hs : o.exec cfg t i s = some (r, s')) (k : Nat) (hc : (s'.sessions k).connecting = some .handshake) :
    (s'.sessions k).handshake = some s'.reqHandshake := by
  rcases ClientOp.exec_attempt (v := v.1) hs k with ⟨hconn, -, hsent, -⟩ | ⟨hnone, -⟩ | ⟨-, -, hconn, -⟩
  · rw [hconn] at hc
    rw [hsent]
    by_cases hset : ∃ request, o = .setHandshake request
    · -- nobody sets it during an attempt
      obtain ⟨request, rfl⟩ := hset
      rw [h.quiet hinv hv hpre k] at hc
      cases hc
    · rw [ClientOp.exec_reqHandshake hs fun request he => hset ⟨request, he⟩]
      exact h.request k hc
  · rw [hnone] at hc
    cases hc
  · rw [hconn] at hc
    cases hc

theorem holders_exec (h : Attempting s views) {cfg : ClientConfig} {t : Nat} {o : ClientOp} {i : Clock} {r : o.Res}
    {v : ClientView × Turn} (hv : views t = some v) (hpre : v.1.Allows o) (hs : o.exec cfg t i s = some (r, s')) :
    (∀ k t', t' ∈ (s'.sessions k).holders →
      ∃ v', Function.update views t (some (v.1.next o r, v.2.next o r)) t' = some v' ∧ v'.1.held = some k ∧
        v'.1.lock ≠ .free) ∧ ∀ k, (s'.sessions k).holders.Nodup := by
  have hother : ∀ {k t'}, t' ≠ t → t' ∈ (s.sessions k).holders →
      ∃ v', Function.update views t (some (v.1.next o r, v.2.next o r)) t' = some v' ∧ v'.1.held = some k ∧
        v'.1.lock ≠ .free := fun hne hmem => by
    rw [Function.update_of_ne hne]
    exact h.holders _ _ hmem
  have hown : ∀ {k}, t ∈ (s.sessions k).holders → v.1.held = some k ∧ v.1.lock ≠ .free := fun hmem => by
    obtain ⟨v', hv', hheld⟩ := h.holders _ _ hmem
    rw [hv] at hv'
    cases hv'
    exact hheld
  have hself : ∀ {k}, (v.1.next o r).held = some k → (v.1.next o r).lock ≠ .free →
      ∃ v', Function.update views t (some (v.1.next o r, v.2.next o r)) t = some v' ∧ v'.1.held = some k ∧
        v'.1.lock ≠ .free := fun hheld hl => ⟨_, Function.update_self _ _ _, hheld, hl⟩
  have hnone : v.1.held = none → ∀ {k t'}, t' ∈ (s.sessions k).holders → t' ≠ t := by
    rintro hheld k t' hmem rfl
    rw [hheld] at hown
    cases (hown hmem).1
  by_cases h1 : o = .lockSession
  · subst h1
    obtain ⟨hl, hheld, -⟩ := hpre
    simp only [ClientOp.exec] at hs
    split at hs
    · cases hs
      exact ⟨fun k t' hmem => hother (hnone hheld hmem) hmem, h.nodup⟩
    · split at hs
      · cases hs
        refine ⟨fun k t' hmem => ?_, fun k => ?_⟩
        · rw [Client.sessions_modify] at hmem
          split at hmem
          · rename_i hk
            subst hk
            rcases List.mem_cons.mp hmem with rfl | hmem
            · exact hself rfl hl
            · exact hother (hnone hheld hmem) hmem
          · exact hother (hnone hheld hmem) hmem
        · rw [Client.sessions_modify]
          split
          · exact List.nodup_cons.mpr ⟨fun hmem => hnone hheld hmem rfl, h.nodup _⟩
          · exact h.nodup k
      · cases hs
        exact ⟨fun k t' hmem => hother (hnone hheld hmem) hmem, h.nodup⟩
  by_cases h2 : ∃ k, o = .releaseSession k
  · obtain ⟨k₀, rfl⟩ := h2
    cases hs
    refine ⟨fun k t' hmem => ?_, fun k => ?_⟩
    · rw [Client.sessions_modify] at hmem
      split at hmem
      · rename_i hk
        subst hk
        obtain ⟨hne, hmem⟩ := (h.nodup k).mem_erase_iff.mp hmem
        exact hother hne hmem
      · rename_i hk
        refine hother ?_ hmem
        rintro rfl
        exact hk (Option.some.inj ((hown hmem).1.symm.trans hpre.2.1))
    · rw [Client.sessions_modify]
      split
      · exact (h.nodup k₀).erase t
      · exact h.nodup k
  by_cases h3 : o = .newSession
  · subst h3
    obtain ⟨hl, hheld, -⟩ := hpre
    cases hs
    refine ⟨fun k t' hmem => ?_, fun k => ?_⟩
    · have hmem' : t' ∈ ((s.modify s.sessionCount fun _ => _).sessions k).holders := hmem
      rw [Client.sessions_modify] at hmem'
      split at hmem'
      · rename_i hk
        subst hk
        obtain rfl : t' = t := List.mem_singleton.mp hmem'
        refine hself rfl ?_
        show v.1.lock ≠ .free
        simp [hl]
      · exact hother (hnone hheld hmem') hmem'
    · show ((s.modify s.sessionCount fun _ => _).sessions k).holders.Nodup
      rw [Client.sessions_modify]
      split
      · exact List.nodup_singleton t
      · exact h.nodup k
  obtain ⟨hsame, hheld⟩ := ClientOp.exec_holders (v := v.1) hs h1 (fun k he => h2 ⟨k, he⟩) h3
  refine ⟨fun k t' hmem => ?_, fun k => hsame k ▸ h.nodup k⟩
  rw [hsame k] at hmem
  by_cases ht : t' = t
  · subst ht
    obtain ⟨hk, hl⟩ := hown hmem
    exact hself (hheld.trans hk) (ClientOp.next_lock hpre (by simp [hk]) hl)
  · exact hother ht hmem

theorem idle (h : Attempting s views) (hunborn : ∀ k, s.sessionCount ≤ k → (s.sessions k).life = .unborn)
    (hidle : s.hasWork = false) (k : Nat) : (s.sessions k).sess.pending = false := by
  by_cases hk : k < s.sessionCount
  · have hwork := List.any_eq_false.mp hidle k (List.mem_range.mpr hk)
    rw [Bool.not_eq_true] at hwork
    simp only [SessObj.hasWork, Bool.or_eq_false_iff] at hwork
    exact hwork.1.1.2
  · exact (h.buried k (by rw [hunborn k (Nat.le_of_not_lt hk)]; simp)).2.1

theorem exec (h : Attempting s views) (hinv : Running s views) {cfg : ClientConfig} {t : Nat} {o : ClientOp} {i : Clock}
    {r : o.Res} {v : ClientView × Turn} (hv : views t = some v) (hpre : v.1.Allows o) (hio : v.2.Allows o)
    (hs : o.exec cfg t i s = some (r, s')) :
    Attempting s' (Function.update views t (some (v.1.next o r, v.2.next o r))) := by
  have halive := hinv.attended.alive
  obtain ⟨hholders, hnodup⟩ := h.holders_exec hv hpre hs
  refine ⟨h.underway_exec hinv.turns hv hpre hio hs, h.request_exec halive hv hpre hs, hholders, hnodup,
    fun hoff k => ?_, Client.buried_exec h.buried hs fun k ho => ?_⟩
  · have hrests : s.ioRunning = false ∨ s.hasWork = false := by
      refine ClientOp.exec_rests hs hoff fun ho => ?_
      subst ho
      exact hinv.turns.idle_assign hv hpre hio
    have hbefore : (s.sessions k).sess.pending = false := by
      rcases hrests with hoff | hidle
      · exact h.resting hoff k
      · exact h.idle halive.kept.unborn hidle k
    by_contra hp
    rw [ClientOp.exec_pending hs k (Bool.eq_true_of_not_eq_false hp)] at hbefore
    cases hbefore
  · subst ho
    exact (hinv.attended.retained t v.1 k (by simp [fstViews, hv]) hpre.2.1).1

theorem modify (h : Attempting s views) {k : Nat} {f : SessObj → SessObj} (h1 : ∀ x, (f x).ran = x.ran)
    (h2 : ∀ x, (f x).connecting = x.connecting) (h3 : ∀ x, (f x).holders = x.holders)
    (h4 : ∀ x, (f x).handshake = x.handshake) (h5 : s.ioRunning = false → ∀ x, (f x).sess.pending = x.sess.pending)
    (hb : ∀ k', ((s.modify k f).sessions k').Buried) : Attempting (s.modify k f) views := by
  refine ⟨fun k' hc => ?_, fun k' hc => ?_, fun k' => ?_, fun k' => ?_, fun hoff k' => ?_, hb⟩
  · rw [s.modify_keeps k SessObj.connecting (h2 _)] at hc
    rw [s.modify_keeps k SessObj.ran (h1 _)]
    exact h.underway k' hc
  · rw [s.modify_keeps k SessObj.connecting (h2 _)] at hc
    rw [s.modify_keeps k SessObj.handshake (h4 _)]
    exact h.request k' hc
  · rw [s.modify_keeps k SessObj.holders (h3 _)]
    exact h.holders k'
  · rw [s.modify_keeps k SessObj.holders (h3 _)]
    exact h.nodup k'
  · rw [s.modify_keeps k (fun x => x.sess.pending) (h5 hoff _)]
    exact h.resting hoff k'

theorem attempt (h : Attempting s views) {k : Nat} {f : SessObj → SessObj} (hio : s.ioRunning = true)
    (hconn : (s.sessions k).connecting.isSome = true) (hf : SessObj.Attempts s.reqHandshake f)
    (hb : ∀ k', ((s.modify k fun x => { f x with active := true }).sessions k').Buried) :
    Attempting (s.modify k fun x => { f x with active := true }) views := by
  refine ⟨fun k' hc => ?_, fun k' hc => ?_, fun k' => ?_, fun k' => ?_, fun hoff => ?_, hb⟩
  · rw [Client.sessions_modify] at hc ⊢
    split at hc
    · rename_i hk
      subst hk
      rw [if_pos rfl]
      obtain ⟨hran, hex⟩ := h.underway k' hconn
      exact ⟨(hf.ran _ hc).trans hran, hex⟩
    · rename_i hk
      rw [if_neg hk]
      exact h.underway k' hc
  · rw [Client.sessions_modify] at hc ⊢
    split at hc
    · rename_i hk
      rw [if_pos hk]
      exact hf.sends _ hc
    · rename_i hk
      rw [if_neg hk]
      exact h.request k' hc
  · rw [s.modify_keeps k (f := fun x => { f x with active := true }) SessObj.holders (hf.holders _)]
    exact h.holders k'
  · rw [s.modify_keeps k (f := fun x => { f x with active := true }) SessObj.holders (hf.holders _)]
    exact h.nodup k'
  · cases hio.symm.trans hoff

theorem env (h : Attempting s views) (hunborn : ∀ k, s.sessionCount ≤ k → (s.sessions k).life = .unborn)
    {cfg : ClientConfig} {e : ClientEnv} (hs : s.step cfg e = some s') : Attempting s' views := by
  have hb : ∀ k, (s'.sessions k).Buried := Client.buried_env h.buried hs
  cases Client.ioMoves_of_step hs with
  | attempt k f hio halive hconn hf => exact h.attempt hio hconn hf hb
  | session k sess hio halive =>
    exact h.modify (fun _ => rfl) (fun _ => rfl) (fun _ => rfl) (fun _ => rfl)
      (fun hoff => by cases hio.symm.trans hoff) hb
  | object k f hran hconn hholders hsent hpend hact => exact h.modify hran hconn hholders hsent (fun _ => hpend) hb
  | reported k hlife =>
    have h' : Attempting (s.modify k fun x => { x with life := .gone }) views :=
      h.modify (fun _ => rfl) (fun _ => rfl) (fun _ => rfl) (fun _ => rfl) (fun _ _ => rfl) hb
    exact ⟨h'.underway, h'.request, h'.holders, h'.nodup, h'.resting, hb⟩
  | started hw => exact ⟨h.underway, h.request, h.holders, h.nodup, fun hoff => (by cases hoff), hb⟩
  | idled hw hidle => exact ⟨h.underway, h.request, h.holders, h.nodup, fun _ => h.idle hunborn hidle, hb⟩
  | left hw hstop =>
    have hoff : s.ioRunning = false := by simp [Client.ioRunning, hstop]
    exact ⟨h.underway, h.request, h.holders, h.nodup, fun _ => h.resting hoff, hb⟩

end Attempting

/-! ## Runs -/

/-- The invariant of a client, with its connection attempts. -/
structure Settled (s : Client) (views : Nat → Option (ClientView × Turn)) : Prop where
  running : Running s views
  attempting : Attempting s views

namespace Settled

variable {s s' : Client} {views : Nat → Option (ClientView × Turn)} {cfg : ClientConfig}

theorem env (h : Settled s views) {e : ClientEnv} (hs : s.step cfg e = some s') : Settled s' views :=
  ⟨h.running.env hs, h.attempting.env h.running.attended.alive.kept.unborn hs⟩

theorem drift (h : Settled s views) (hd : (clientMachine cfg).Drift s s') : Settled s' views := by
  induction hd with
  | refl => exact h
  | tail _ he ih =>
    obtain ⟨e, he⟩ := he
    exact ih.env he

end Settled

theorem settled_of_reach {cfg : ClientConfig} {p : ClientPool}
    (hp : (clientMachine cfg).Reach Machine.Free (.new cfg.order) p) :
    ∃ views, Settled p.shared views ∧ Machine.Linked (clientDiscipline.prod turnDiscipline)
      (fun _ c r x => (x.1.call = c ∧ x.1.Returns r) ∧ x.2 = .holding .free) p views := by
  refine Machine.sound (fun _ c => (.first c, .holding .free)) ⟨.new cfg.order, .new cfg.order⟩
    (fun _ c => (clientCall_ok cfg c).prod (turn_ok cfg c)) ?_ ?_ ?_ hp
  · exact fun p views t c _ _ hinv _ ht => ⟨hinv.running.call ht c, hinv.attempting.call ht c⟩
  · exact fun p views t i o x r s' _ _ hinv _ _ hx hpre hex =>
      ⟨hinv.running.exec hx hpre.1 hpre.2 hex, hinv.attempting.exec hinv.running hx hpre.1 hpre.2 hex⟩
  · exact fun p views e s' _ _ hinv _ he => hinv.env he

/-- **A connection attempt is alone with its call.** In every reachable state in which a session has started to connect
and its promise is not set: it is the only one, it exists, the handshake on its way is the one of the client, and the call
that waits for it holds the lock; no other call can take a step, whatever it waits for. -/
theorem attempt_isolated {cfg : ClientConfig} {p : ClientPool}
    (hp : (clientMachine cfg).Reach Machine.Free (.new cfg.order) p) {k : Nat}
    (hc : (p.shared.sessions k).connecting.isSome = true) :
    (p.shared.sessions k).ran = none ∧ (p.shared.sessions k).life = .alive ∧
    ((p.shared.sessions k).connecting = some .handshake →
      (p.shared.sessions k).handshake = some p.shared.reqHandshake) ∧
    (∀ k', (p.shared.sessions k').connecting.isSome = true → k' = k) ∧
    ∃ t, p.shared.writer = some t ∧ p.shared.readers = [] ∧ (∃ o, p.next t = some o) ∧
      ∀ t' i, t' ≠ t → (clientMachine cfg).step p (.op t' i) = none := by
  obtain ⟨views, hinv, hl⟩ := settled_of_reach hp
  have hlocked := hinv.running.attended.alive.locked
  have hlife : ∀ k', (p.shared.sessions k').connecting.isSome = true → (p.shared.sessions k').life = .alive := by
    intro k' hc'
    by_contra hdead
    rw [(hinv.attempting.buried k' hdead).1] at hc'
    cases hc'
  obtain ⟨t, v, hv, ha, hexcl⟩ := hinv.attempting.owner hinv.running.attended.alive.kept hc
  have hwriter : p.shared.writer = some t := hlocked.excl t v.1 (by simp [fstViews, hv]) hexcl
  refine ⟨(hinv.attempting.underway k hc).1, hlife k hc, hinv.attempting.request k, fun k' hc' => ?_, t, hwriter,
    hlocked.alone (by simp [hwriter]), ?_, fun t' i hne => ?_⟩
  · exact hinv.running.attended.alive.kept.single k' k (.inl (hlife k' hc')) (.inl (hlife k hc))
  · obtain ⟨o, ho, -⟩ := hl.pending hv fun _ _ hret => by
      have hagree := hinv.running.exact.agree t v hv
      rw [hret.2, hexcl] at hagree
      cases hagree
    exact ⟨o, ho⟩
  · by_contra hs
    obtain ⟨p', hs⟩ := Option.ne_none_iff_exists'.mp hs
    obtain ⟨c, o, prog, r, s', ht, hex, -⟩ := Machine.step_op hs
    obtain ⟨v', hv', hok⟩ := hl.ok ht
    by_cases hl' : v'.1.lock = .excl
    · have hw' := hlocked.excl t' v'.1 (by simp [fstViews, hv']) hl'
      exact hne (Option.some.inj (hw'.symm.trans hwriter))
    · have hw' := Turns.writer_of_step hlocked hv' hok.1.1 hex hl'
      cases hw'.symm.trans hwriter

/-- Somebody sets a handshake, then a session sends it; the next one who wants to set it has to wait. -/
def requestedRun : List (Act ClientCall Clock ClientEnv) :=
  [.call 1 (.setHandshakeRequest [("user", "one")]), .op 1 {}, .op 1 {}, .op 1 {}, .op 1 {}] ++ startRun 0 ++
    [.env (.onResolve 0 false), .env (.leave 0), .env (.onConnect 0 false), .call 2 (.setHandshakeRequest [])]

theorem attempt_isolated_requested : ∃ p : ClientPool,
    (clientMachine plainConfig).Reach Machine.Free (.new plainConfig.order) p ∧
      p.next 2 = some .lockExcl ∧ (clientMachine plainConfig).step p (.op 2 {}) = none ∧
      (p.shared.sessions 0).handshake = some p.shared.reqHandshake ∧ p.shared.reqHandshake = [("user", "one")] := by
  have hrun : ((clientMachine plainConfig).run (fun _ _ => true) (.initial (.new plainConfig.order)) requestedRun).any
      (fun p => decide ((p.shared.sessions 0).connecting = some .handshake ∧ p.next 2 = some .lockExcl ∧
        p.shared.writer = some 0 ∧ p.shared.reqHandshake = [("user", "one")])) = true := by
    decide +kernel
  obtain ⟨p, hp, hf⟩ := Machine.Reach.exists_of_run (G := Machine.Free) (fun _ _ _ => trivial) requestedRun hrun
  obtain ⟨hc, ho, hw, hreq⟩ := of_decide_eq_true hf
  obtain ⟨-, -, hsent, -, t, hw', -, -, hothers⟩ := attempt_isolated hp (k := 0) (by rw [hc]; rfl)
  cases hw.symm.trans hw'
  exact ⟨p, hp, ho, hothers 2 {} (by simp), hsent hc, hreq⟩

/-! ## The end of a session -/

namespace Settled

variable {s s' : Client} {views : Nat → Option (ClientView × Turn)}

theorem no_holders (h : Settled s views) {t : Nat} {v : ClientView × Turn} (hv : views t = some v)
    (hb : v.1.Bare .excl) (k : Nat) : (s.sessions k).holders = [] := by
  have hlocked := h.running.attended.alive.locked
  have hwriter : s.writer = some t := hlocked.excl t v.1 (by simp [fstViews, hv]) hb.lock
  refine List.eq_nil_iff_forall_not_mem.mpr fun t' hmem => ?_
  obtain ⟨v', hv', hheld, hl⟩ := h.attempting.holders k t' hmem
  cases hmode : v'.1.lock with
  | free => exact hl hmode
  | shared =>
    have hr := hlocked.shared t' v'.1 (by simp [fstViews, hv']) hmode
    rw [hlocked.alone (by simp [hwriter])] at hr
    cases hr
  | excl =>
    obtain rfl : t' = t := hlocked.unique (by simp [fstViews, hv']) (by simp [fstViews, hv]) hmode hb.lock
    rw [hv] at hv'
    cases hv'
    rw [hb.held] at hheld
    cases hheld

theorem destroyed (h : Settled s views) (cfg : ClientConfig) {t : Nat} {v : ClientView × Turn} (hv : views t = some v)
    (hb : v.1.Bare .excl) (hoff : s.ioRunning = false ∨ s.hasWork = false) :
    ∃ s', (clientMachine cfg).Drift s s' ∧ s'.expired = true := by
  have hkept := h.running.attended.alive.kept
  have hreport : ∀ (s₁ : Client) (k : Nat), (s₁.sessions k).life = .deleted →
      ∃ s', (clientMachine cfg).Drift s₁ s' ∧ s'.expired = true := by
    intro s₁ k hlife
    have hs : s₁.step cfg (.onSessionDelete k) =
      some { s₁.modify k fun x => { x with life := .gone } with expired := true } := if_pos hlife
    exact ⟨_, .single ⟨.onSessionDelete k, hs⟩, rfl⟩
  cases hexp : s.expired with
  | true => exact ⟨s, .refl, hexp⟩
  | false =>
    rcases hkept.constructed hexp with ⟨t', v', hv', hopen⟩ | ⟨k, hlife | hlife⟩
    · -- nobody else constructs a session
      have hne : v'.building ≠ .none := by
        rintro he
        rw [he] at hopen
        cases hopen
      obtain rfl : t' = t :=
        h.running.attended.alive.locked.unique hv' (by simp [fstViews, hv]) (hkept.building t' v' hv' hne) hb.lock
      simp only [fstViews, hv, Option.map_some, Option.some.injEq] at hv'
      subst hv'
      exact absurd hb.building hne
    · have hpending : (s.sessions k).sess.pending = false := by
        rcases hoff with hoff | hidle
        · exact h.attempting.resting hoff k
        · exact h.attempting.idle hkept.unborn hidle k
      have hactive : (s.sessions k).active = false := by
        rcases hoff with hoff | hidle
        · by_contra ha
          cases hoff.symm.trans (h.running.turns.active k (Bool.eq_true_of_not_eq_false ha)).1
        · exact h.running.turns.idle hkept.unborn hidle k
      have hpinned : (s.sessions k).pinned = false := by
        simp [SessObj.pinned, hpending, hactive, h.no_holders hv hb k,
          h.attempting.quiet h.running.attended.alive hv hb k]
      have hs : s.step cfg (.delete k) = some (s.modify k fun x => { x with life := .deleted }) :=
        if_pos ⟨hlife, hpinned⟩
      obtain ⟨s', hd, hs'⟩ := hreport (s.modify k fun x => { x with life := .deleted }) k (by
        rw [Client.sessions_modify, if_pos rfl])
      exact ⟨s', .head ⟨.delete k, hs⟩ hd, hs'⟩
    · exact hreport s k hlife

theorem expires (h : Settled s views) (cfg : ClientConfig) {t : Nat} {v : ClientView × Turn} (hv : views t = some v)
    (hb : v.1.Bare .excl) : ∃ s', (clientMachine cfg).Drift s s' ∧ s'.expired = true := by
  cases hio : s.ioRunning with
  | false => exact h.destroyed cfg hv hb (.inl hio)
  | true =>
    obtain ⟨s₁, hd, -, hidle⟩ := Client.drain (s := s) cfg hio h.attempting.buried
    obtain ⟨s', hd', hs'⟩ := (h.drift hd).destroyed cfg hv hb (.inr hidle)
    exact ⟨s', hd.trans hd', hs'⟩

end Settled

/-- **The destruction comes.** In every reachable state in which a call waits for the destruction of the session, whatever
is outstanding on its stream and whoever is to run the io context, the environment alone can go on until the wait is over:
without its timeout, and without another call. -/
theorem destruction_comes {cfg : ClientConfig} {p : ClientPool}
    (hp : (clientMachine cfg).Reach Machine.Free (.new cfg.order) p) {t : Nat} (ht : p.next t = some .waitDestruction) :
    ∃ s, (clientMachine cfg).Drift p.shared s ∧ ClientOp.waitDestruction.exec cfg t {} s = some (true, s) := by
  obtain ⟨views, hinv, hl⟩ := settled_of_reach hp
  obtain ⟨c, prog, ht⟩ := Machine.next_eq_some ht
  obtain ⟨v, hv, hok⟩ := hl.ok ht
  obtain ⟨s, hd, hs⟩ := hinv.expires cfg hv hok.1.1
  exact ⟨s, hd, if_pos hs⟩

/-- `disconnect` waits for the end of a session that reads, with its request to close still posted. -/
def leavingRun : List (Act ClientCall Clock ClientEnv) :=
  connectRun 0 0 ++ [.op 0 {}, .call 1 .disconnect, .op 1 {}, .op 1 {}, .op 1 {}, .op 1 {}, .op 1 {},
    .op 1 { timeout := true }, .op 1 {}]

theorem destruction_comes_leaving : ∃ p : ClientPool,
    (clientMachine plainConfig).Reach Machine.Free (.new plainConfig.order) p ∧
      (p.shared.sessions 0).sess.reading = true ∧ (p.shared.sessions 0).sess.posted = [.closeSession] ∧
      ∃ s, (clientMachine plainConfig).Drift p.shared s ∧
        ClientOp.waitDestruction.exec plainConfig 1 {} s = some (true, s) := by
  have hrun : ((clientMachine plainConfig).run (fun _ _ => true) (.initial (.new plainConfig.order)) leavingRun).any
      (fun p => decide (p.next 1 = some .waitDestruction ∧ (p.shared.sessions 0).sess.reading = true ∧
        (p.shared.sessions 0).sess.posted = [.closeSession])) = true := by
    decide +kernel
  obtain ⟨p, hp, hf⟩ := Machine.Reach.exists_of_run (G := Machine.Free) (fun _ _ _ => trivial) leavingRun hrun
  obtain ⟨ho, hread, hposted⟩ := of_decide_eq_true hf
  exact ⟨p, hp, hread, hposted, destruction_comes hp ho⟩

end Radrpc
