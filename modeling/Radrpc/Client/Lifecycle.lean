import Radrpc.Client.Phases

/-!
# The life of a client's sessions

* `Locked` : the views of the calls agree with the holders of `m_session_mtx`;
* `SessObj.Present` : a session object exists, or its deletion has not been reported yet;
* `Kept` : there is at most one such session, it is the current one, `m_expired` says whether there is one, and a
  call that constructs a session is alone with it;
* `single_session` : what this means in every reachable state of a client;
* `connect_truthful` : what `connect` may report, as long as nobody calls it next to a session that failed;
* `connect_untruthful` : what it reports otherwise.
-/

namespace Radrpc
open Conc

/-! ## The lock -/

/-- The views of the calls agree with the holders of the lock. -/
structure Locked (s : Client) (views : Nat → Option ClientView) : Prop where
  shared : ∀ t v, views t = some v → v.lock = .shared → t ∈ s.readers
  excl : ∀ t v, views t = some v → v.lock = .excl → s.writer = some t
  alone : s.writer ≠ none → s.readers = []

namespace Locked

variable {s s' : Client} {views : Nat → Option ClientView}

theorem unique (h : Locked s views) {t t' : Nat} {v v' : ClientView} (hv : views t = some v) (hv' : views t' = some v')
    (hl : v.lock = .excl) (hl' : v'.lock = .excl) : t = t' :=
  Option.some.inj ((h.excl t v hv hl).symm.trans (h.excl t' v' hv' hl'))

theorem same (h : Locked s views) {t : Nat} {v w : ClientView} (hv : views t = some v) (hw : s'.writer = s.writer)
    (hr : s'.readers = s.readers) (hl : w.lock = v.lock) : Locked s' (Function.update views t (some w)) := by
  refine ⟨fun t' v' hv' hl' => ?_, fun t' v' hv' hl' => ?_, fun hne => ?_⟩
  · rw [hr]
    rcases view_of_update hv' with ⟨rfl, rfl⟩ | ⟨-, hv'⟩
    · exact h.shared t' v hv (hl ▸ hl')
    · exact h.shared t' v' hv' hl'
  · rw [hw]
    rcases view_of_update hv' with ⟨rfl, rfl⟩ | ⟨-, hv'⟩
    · exact h.excl t' v hv (hl ▸ hl')
    · exact h.excl t' v' hv' hl'
  · rw [hr]
    exact h.alone (hw ▸ hne)

theorem call (h : Locked s views) (t : Nat) (c : ClientCall) :
    Locked s (Function.update views t (some (.first c))) := by
  refine ⟨fun t' v' hv' hl' => ?_, fun t' v' hv' hl' => ?_, h.alone⟩
  · rcases view_of_update hv' with ⟨rfl, rfl⟩ | ⟨-, hv'⟩
    · cases hl'
    · exact h.shared t' v' hv' hl'
  · rcases view_of_update hv' with ⟨rfl, rfl⟩ | ⟨-, hv'⟩
    · cases hl'
    · exact h.excl t' v' hv' hl'

theorem lockShared (h : Locked s views) {t : Nat} {w : ClientView} (hw : s.writer = none) (hl : w.lock = .shared) :
    Locked { s with readers := t :: s.readers } (Function.update views t (some w)) := by
  refine ⟨fun t' v' hv' hl' => ?_, fun t' v' hv' hl' => ?_, fun hne => absurd hw hne⟩
  · rcases view_of_update hv' with ⟨rfl, rfl⟩ | ⟨-, hv'⟩
    · exact List.mem_cons_self
    · exact List.mem_cons_of_mem _ (h.shared t' v' hv' hl')
  · rcases view_of_update hv' with ⟨rfl, rfl⟩ | ⟨-, hv'⟩
    · rw [hl] at hl'
      cases hl'
    · exact h.excl t' v' hv' hl'

theorem unlockShared (h : Locked s views) {t : Nat} {w : ClientView} (hl : w.lock = .free) :
    Locked { s with readers := s.readers.erase t } (Function.update views t (some w)) := by
  refine ⟨fun t' v' hv' hl' => ?_, fun t' v' hv' hl' => ?_, fun hne => ?_⟩
  · rcases view_of_update hv' with ⟨rfl, rfl⟩ | ⟨hne, hv'⟩
    · rw [hl] at hl'
      cases hl'
    · exact (List.mem_erase_of_ne hne).mpr (h.shared t' v' hv' hl')
  · rcases view_of_update hv' with ⟨rfl, rfl⟩ | ⟨-, hv'⟩
    · rw [hl] at hl'
      cases hl'
    · exact h.excl t' v' hv' hl'
  · show s.readers.erase t = []
    rw [h.alone hne]
    rfl

theorem lockExcl (h : Locked s views) {t : Nat} {w : ClientView} (hw : s.writer = none) (hr : s.readers = [])
    (hl : w.lock = .excl) : Locked { s with writer := some t } (Function.update views t (some w)) := by
  refine ⟨fun t' v' hv' hl' => ?_, fun t' v' hv' hl' => ?_, fun _ => hr⟩
  · rcases view_of_update hv' with ⟨rfl, rfl⟩ | ⟨-, hv'⟩
    · rw [hl] at hl'
      cases hl'
    · exact h.shared t' v' hv' hl'
  · rcases view_of_update hv' with ⟨rfl, rfl⟩ | ⟨-, hv'⟩
    · rfl
    · have hsome := h.excl t' v' hv' hl'
      rw [hw] at hsome
      cases hsome

theorem unlockExcl (h : Locked s views) {t : Nat} {v w : ClientView} (hv : views t = some v) (hl : v.lock = .excl)
    (hw : w.lock = .free) : Locked { s with writer := none } (Function.update views t (some w)) := by
  refine ⟨fun t' v' hv' hl' => ?_, fun t' v' hv' hl' => ?_, fun hne => absurd rfl hne⟩
  · rcases view_of_update hv' with ⟨rfl, rfl⟩ | ⟨-, hv'⟩
    · rw [hw] at hl'
      cases hl'
    · exact h.shared t' v' hv' hl'
  · rcases view_of_update hv' with ⟨rfl, rfl⟩ | ⟨hne, hv'⟩
    · rw [hw] at hl'
      cases hl'
    · exact absurd (h.unique hv' hv hl' hl) hne

end Locked

theorem ClientOp.exec_lock {cfg : ClientConfig} {t : Nat} {o : ClientOp} {i : Clock} {r : o.Res} {s s' : Client}
    {v : ClientView} (hs : o.exec cfg t i s = some (r, s')) (h1 : o ≠ .lockShared) (h2 : o ≠ .unlockShared)
    (h3 : o ≠ .lockExcl) (h4 : o ≠ .unlockExcl) :
    s'.writer = s.writer ∧ s'.readers = s.readers ∧ (v.next o r).lock = v.lock := by
  cases o with
  | lockShared => exact absurd rfl h1
  | unlockShared => exact absurd rfl h2
  | lockExcl => exact absurd rfl h3
  | unlockExcl => exact absurd rfl h4
  | lockSession =>
    simp only [exec] at hs
    split at hs
    · cases hs
      exact ⟨rfl, rfl, rfl⟩
    · split at hs
      · cases hs
        exact ⟨rfl, rfl, rfl⟩
      · cases hs
        exact ⟨rfl, rfl, rfl⟩
  | sess k o =>
    obtain ⟨⟨r', x⟩, -, he⟩ := Option.map_eq_some_iff.mp hs
    cases he
    exact ⟨rfl, rfl, rfl⟩
  | testExpired =>
    cases hs
    refine ⟨rfl, rfl, ?_⟩
    cases s.expired <;> rfl
  | joinWorker | joinAtExit =>
    simp only [exec] at hs
    split at hs
    · cases hs
    · cases hs
      exact ⟨rfl, rfl, rfl⟩
  | beginRun k =>
    simp only [exec] at hs
    split at hs
    · cases hs
      exact ⟨rfl, rfl, rfl⟩
    · cases hs
      exact ⟨rfl, rfl, rfl⟩
  | waitRun k =>
    simp only [exec] at hs
    split at hs
    · cases hs
    · cases hs
      exact ⟨rfl, rfl, rfl⟩
  | waitDestruction =>
    simp only [exec] at hs
    split at hs
    · cases hs
      exact ⟨rfl, rfl, rfl⟩
    · split at hs
      · cases hs
        exact ⟨rfl, rfl, rfl⟩
      · cases hs
  | beginClose k =>
    simp only [exec] at hs
    split at hs
    · cases hs
      exact ⟨rfl, rfl, rfl⟩
    · cases hs
      exact ⟨rfl, rfl, rfl⟩
  | waitPosted k =>
    simp only [exec] at hs
    split at hs
    · cases hs
      exact ⟨rfl, rfl, rfl⟩
    · split at hs
      · cases hs
        exact ⟨rfl, rfl, rfl⟩
      · cases hs
  | finishIo =>
    simp only [exec] at hs
    split at hs
    · cases hs
    · cases hs
      exact ⟨rfl, rfl, rfl⟩
  | bindFunc id handler =>
    simp only [exec] at hs
    split at hs
    · cases hs
      exact ⟨rfl, rfl, rfl⟩
    · split at hs
      · cases hs
        exact ⟨rfl, rfl, rfl⟩
      · cases hs
        exact ⟨rfl, rfl, rfl⟩
  | _ =>
    cases hs
    exact ⟨rfl, rfl, rfl⟩

theorem Locked.exec {cfg : ClientConfig} {s s' : Client} {views : Nat → Option ClientView} (h : Locked s views)
    {t : Nat} {o : ClientOp} {i : Clock} {r : o.Res} {v : ClientView} (hv : views t = some v) (hpre : v.Allows o)
    (hs : o.exec cfg t i s = some (r, s')) : Locked s' (Function.update views t (some (v.next o r))) := by
  by_cases h1 : o = .lockShared
  · subst h1
    simp only [ClientOp.exec] at hs
    split at hs
    · rename_i hw
      cases hs
      exact h.lockShared hw rfl
    · cases hs
  by_cases h2 : o = .unlockShared
  · subst h2
    cases hs
    exact h.unlockShared rfl
  by_cases h3 : o = .lockExcl
  · subst h3
    simp only [ClientOp.exec] at hs
    split at hs
    · rename_i hw
      cases hs
      exact h.lockExcl hw.1 hw.2 rfl
    · cases hs
  by_cases h4 : o = .unlockExcl
  · subst h4
    cases hs
    exact h.unlockExcl hv hpre.lock rfl
  obtain ⟨hw, hr, hl⟩ := ClientOp.exec_lock (v := v) hs h1 h2 h3 h4
  exact h.same hv hw hr hl

theorem Locked.env {cfg : ClientConfig} {s s' : Client} {views : Nat → Option ClientView} (h : Locked s views)
    {e : ClientEnv} (hs : s.step cfg e = some s') : Locked s' views := by
  have key : s'.writer = s.writer ∧ s'.readers = s.readers := by
    cases Client.moves_of_step hs <;> exact ⟨rfl, rfl⟩
  refine ⟨?_, ?_, ?_⟩
  · rw [key.2]
    exact h.shared
  · rw [key.1]
    exact h.excl
  · rw [key.1, key.2]
    exact h.alone

/-! ## The session -/

/-- The object exists, or its deletion has not been reported yet. -/
def SessObj.Present (x : SessObj) : Prop := x.life = .alive ∨ x.life = .deleted

instance (x : SessObj) : Decidable x.Present := inferInstanceAs (Decidable (x.life = .alive ∨ x.life = .deleted))

namespace Building

def opening : Building → Bool
  | .opened => true
  | .joined => true
  | _ => false

/-- The old thread has been joined and the new one not started. -/
def joining : Building → Bool
  | .joined => true
  | .created _ => true
  | .resolving _ => true
  | _ => false

/-- The session whose `run()` has not returned. -/
def session : Building → Option Nat
  | .created k => some k
  | .resolving k => some k
  | .running k => some k
  | _ => Option.none

end Building

/-- At most one session is present, it is the current one and has the handlers of the client; `m_expired` says whether
one is present or under construction, and only a call that holds the lock constructs one. -/
structure Kept (s : Client) (views : Nat → Option ClientView) : Prop where
  building : ∀ t v, views t = some v → v.building ≠ .none → v.lock = .excl
  unborn : ∀ k, s.sessionCount ≤ k → (s.sessions k).life = .unborn
  expired : s.expired = true → ∀ k, ¬ (s.sessions k).Present
  single : ∀ k k', (s.sessions k).Present → (s.sessions k').Present → k = k'
  current : ∀ k, (s.sessions k).Present → s.session = some k
  table : ∀ k, (s.sessions k).Present → (s.sessions k).table = s.boundFuncs
  opening : ∀ t v, views t = some v → v.building.opening = true → s.expired = false ∧ ∀ k, ¬ (s.sessions k).Present
  worker : ∀ t v, views t = some v → v.building.joining = true → s.worker = .none
  constructed : s.expired = false →
    (∃ t v, views t = some v ∧ v.building.opening = true) ∨ ∃ k, (s.sessions k).Present
  running : ∀ k, (s.sessions k).Present → (s.sessions k).returned = none →
    ∃ t v, views t = some v ∧ v.building.session = some k
  own : ∀ t v k, views t = some v → v.building.session = some k → s.session = some k

/-- Nothing changes that has to do with the life of sessions. -/
structure Client.Same (s s' : Client) : Prop where
  expired : s'.expired = s.expired
  session : s'.session = s.session
  worker : s'.worker = s.worker
  boundFuncs : s'.boundFuncs = s.boundFuncs
  sessionCount : s'.sessionCount = s.sessionCount
  life : ∀ k, (s'.sessions k).life = (s.sessions k).life
  table : ∀ k, (s'.sessions k).table = (s.sessions k).table
  returned : ∀ k, (s'.sessions k).returned = (s.sessions k).returned

theorem Client.sessions_modify (s : Client) (k : Nat) (f : SessObj → SessObj) (k' : Nat) :
    (s.modify k f).sessions k' = if k' = k then f (s.sessions k) else s.sessions k' := by
  by_cases hk : k' = k
  · rw [if_pos hk, hk]
    exact Function.update_self _ _ _
  · rw [if_neg hk]
    exact Function.update_of_ne hk _ _

theorem Client.Same.modify (s : Client) (k : Nat) {f : SessObj → SessObj} (h1 : ∀ x, (f x).life = x.life)
    (h2 : ∀ x, (f x).table = x.table) (h3 : ∀ x, (f x).returned = x.returned) : s.Same (s.modify k f) := by
  refine ⟨rfl, rfl, rfl, rfl, rfl, fun k' => ?_, fun k' => ?_, fun k' => ?_⟩
  · rw [sessions_modify]
    split
    · rename_i hk
      rw [h1, hk]
    · rfl
  · rw [sessions_modify]
    split
    · rename_i hk
      rw [h2, hk]
    · rfl
  · rw [sessions_modify]
    split
    · rename_i hk
      rw [h3, hk]
    · rfl

theorem Client.Same.present {s s' : Client} (h : s.Same s') (k : Nat) :
    (s'.sessions k).Present ↔ (s.sessions k).Present := by
  unfold SessObj.Present
  rw [h.life]

namespace Kept

variable {s s' : Client} {views : Nat → Option ClientView}

theorem new (o : Words.ByteOrder) : Kept (.new o) fun _ => none := by
  have hp : ∀ k, ¬ ((Client.new o).sessions k).Present := by
    rintro k (h | h) <;> cases h
  exact ⟨fun _ _ h => (by cases h), fun _ _ => rfl, fun _ => hp, fun k _ h => absurd h (hp k),
    fun k h => absurd h (hp k), fun k h => absurd h (hp k), fun _ _ h => (by cases h), fun _ _ h => (by cases h),
    fun h => (by cases h), fun k h => absurd h (hp k), fun _ _ _ h => (by cases h)⟩

theorem exists_update {P : Building → Prop} {t : Nat} {v w : ClientView} (hv : views t = some v)
    (hb : w.building = v.building) (h : ∃ t v, views t = some v ∧ P v.building) :
    ∃ t' v', Function.update views t (some w) t' = some v' ∧ P v'.building := by
  obtain ⟨t', v', hv', hp⟩ := h
  by_cases ht : t' = t
  · rw [ht, hv] at hv'
    cases hv'
    exact ⟨t, w, Function.update_self _ _ _, hb ▸ hp⟩
  · exact ⟨t', v', by rwa [Function.update_of_ne ht], hp⟩

theorem view (h : Kept s views) {t : Nat} {v w : ClientView} (hv : views t = some v) (hb : w.building = v.building)
    (hl : v.building ≠ .none → w.lock = .excl) : Kept s (Function.update views t (some w)) := by
  have key : ∀ t' v', Function.update views t (some w) t' = some v' →
      ∃ v'', views t' = some v'' ∧ v''.building = v'.building := by
    intro t' v' hv'
    rcases view_of_update hv' with ⟨rfl, rfl⟩ | ⟨-, hv'⟩
    · exact ⟨v, hv, hb.symm⟩
    · exact ⟨v', hv', rfl⟩
  refine ⟨fun t' v' hv' hb' => ?_, h.unborn, h.expired, h.single, h.current, h.table, fun t' v' hv' ho => ?_,
    fun t' v' hv' hj => ?_, fun he => ?_, fun k hk hr => ?_, fun t' v' k hv' hs => ?_⟩
  · rcases view_of_update hv' with ⟨rfl, rfl⟩ | ⟨-, hv'⟩
    · exact hl (hb ▸ hb')
    · exact h.building t' v' hv' hb'
  · obtain ⟨v'', hv'', hb''⟩ := key t' v' hv'
    exact h.opening t' v'' hv'' (hb'' ▸ ho)
  · obtain ⟨v'', hv'', hb''⟩ := key t' v' hv'
    exact h.worker t' v'' hv'' (hb'' ▸ hj)
  · exact (h.constructed he).imp_left (exists_update (P := fun b => b.opening = true) hv hb)
  · exact exists_update (P := fun b => b.session = some k) hv hb (h.running k hk hr)
  · obtain ⟨v'', hv'', hb''⟩ := key t' v' hv'
    exact h.own t' v'' k hv'' (hb'' ▸ hs)

theorem same (h : Kept s views) (hs : s.Same s') : Kept s' views := by
  refine ⟨h.building, fun k hk => ?_, fun he k => ?_, fun k k' hk hk' => ?_, fun k hk => ?_, fun k hk => ?_,
    fun t v hv ho => ?_, fun t v hv hj => ?_, fun he => ?_, fun k hk hr => ?_,
    fun t v k hv hb => hs.session.trans (h.own t v k hv hb)⟩
  · rw [hs.life]
    exact h.unborn k (hs.sessionCount ▸ hk)
  · rw [hs.present]
    exact h.expired (hs.expired ▸ he) k
  · exact h.single k k' ((hs.present k).mp hk) ((hs.present k').mp hk')
  · exact hs.session.trans (h.current k ((hs.present k).mp hk))
  · rw [hs.table, hs.boundFuncs]
    exact h.table k ((hs.present k).mp hk)
  · obtain ⟨h1, h2⟩ := h.opening t v hv ho
    exact ⟨hs.expired.trans h1, fun k => (hs.present k).not.mpr (h2 k)⟩
  · exact hs.worker.trans (h.worker t v hv hj)
  · rcases h.constructed (hs.expired ▸ he) with ho | ⟨k, hk⟩
    · exact .inl ho
    · exact .inr ⟨k, (hs.present k).mpr hk⟩
  · exact h.running k ((hs.present k).mp hk) (hs.returned k ▸ hr)

theorem quiet (h : Kept s views) {t : Nat} {v w : ClientView} (hs : s.Same s') (hv : views t = some v)
    (hb : w.building = v.building) (hl : v.building ≠ .none → w.lock = .excl) :
    Kept s' (Function.update views t (some w)) := (h.same hs).view hv hb hl

theorem call (h : Kept s views) {t : Nat} (ht : views t = none) (c : ClientCall) :
    Kept s (Function.update views t (some (.first c))) := by
  have hkeep : ∀ P : Building → Prop, (∃ t v, views t = some v ∧ P v.building) →
      ∃ t' v', Function.update views t (some (.first c)) t' = some v' ∧ P v'.building := by
    rintro P ⟨t', v', hv', hp⟩
    refine ⟨t', v', ?_, hp⟩
    rw [Function.update_of_ne, hv']
    rintro rfl
    rw [ht] at hv'
    cases hv'
  refine ⟨fun t' v' hv' hb => ?_, h.unborn, h.expired, h.single, h.current, h.table,
    fun t' v' hv' ho => ?_, fun t' v' hv' hj => ?_, fun he => ?_, fun k hk hr => ?_, fun t' v' k hv' hs => ?_⟩
  · rcases view_of_update hv' with ⟨rfl, rfl⟩ | ⟨-, hv'⟩
    · exact absurd rfl hb
    · exact h.building t' v' hv' hb
  · rcases view_of_update hv' with ⟨rfl, rfl⟩ | ⟨-, hv'⟩
    · cases ho
    · exact h.opening t' v' hv' ho
  · rcases view_of_update hv' with ⟨rfl, rfl⟩ | ⟨-, hv'⟩
    · cases hj
    · exact h.worker t' v' hv' hj
  · exact (h.constructed he).imp_left (hkeep fun b => b.opening = true)
  · exact hkeep (fun b => b.session = some k) (h.running k hk hr)
  · rcases view_of_update hv' with ⟨rfl, rfl⟩ | ⟨-, hv'⟩
    · cases hs
    · exact h.own t' v' k hv' hs

theorem alone (h : Kept s views) (hk : Locked s views) {t t' : Nat} {v v' : ClientView} (hv : views t = some v)
    (hl : v.lock = .excl) (hv' : views t' = some v') (hb : v'.building ≠ .none) : t' = t ∧ v' = v := by
  have ht : t' = t := hk.unique hv' hv (h.building t' v' hv' hb) hl
  rw [ht, hv] at hv'
  exact ⟨ht, (Option.some.inj hv').symm⟩

theorem testExpired (h : Kept s views) {t : Nat} {w : ClientView} (hl : w.lock = .excl) (he : s.expired = true)
    (hw : w.building = .opened) :
    Kept { s with expired := false } (Function.update views t (some w)) := by
  have hnone := h.expired he
  refine ⟨fun t' v' hv' hb' => ?_, h.unborn, fun hf => (by cases hf), h.single, h.current, h.table,
    fun t' v' hv' ho => ?_, fun t' v' hv' hj => ?_, fun _ => .inl ⟨t, w, Function.update_self _ _ _, by rw [hw]; rfl⟩,
    fun k hk => absurd hk (hnone k), fun t' v' k hv' hs => ?_⟩
  · rcases view_of_update hv' with ⟨rfl, rfl⟩ | ⟨-, hv'⟩
    · exact hl
    · exact h.building t' v' hv' hb'
  · exact ⟨rfl, hnone⟩
  · rcases view_of_update hv' with ⟨rfl, rfl⟩ | ⟨-, hv'⟩
    · rw [hw] at hj
      cases hj
    · exact h.worker t' v' hv' hj
  · rcases view_of_update hv' with ⟨rfl, rfl⟩ | ⟨-, hv'⟩
    · rw [hw] at hs
      cases hs
    · exact h.own t' v' k hv' hs

theorem join (h : Kept s views) (hk : Locked s views) {t : Nat} {v w : ClientView} (hv : views t = some v)
    (hl : v.lock = .excl) (hlw : w.lock = .excl) (ho : w.building.opening = v.building.opening)
    (hs : w.building.session = v.building.session) :
    Kept { s with worker := .none } (Function.update views t (some w)) := by
  have hother : ∀ t' v', t' ≠ t → views t' = some v' → v'.building = .none := by
    intro t' v' hne hv'
    by_contra hb
    exact hne (h.alone hk hv hl hv' hb).1
  have hkeep : ∀ P : Building → Prop, (¬ P .none) → (P v.building → P w.building) →
      (∃ t v, views t = some v ∧ P v.building) →
      ∃ t' v', Function.update views t (some w) t' = some v' ∧ P v'.building := by
    rintro P hP hvw ⟨t', v', hv', hp⟩
    by_cases ht : t' = t
    · rw [ht, hv] at hv'
      cases hv'
      exact ⟨t, w, Function.update_self _ _ _, hvw hp⟩
    · rw [hother t' v' ht hv'] at hp
      exact absurd hp hP
  refine ⟨fun t' v' hv' hb' => ?_, h.unborn, h.expired, h.single, h.current, h.table, fun t' v' hv' ho' => ?_,
    fun _ _ _ _ => rfl, fun he => ?_, fun k hk' hr => ?_, fun t' v' k hv' hs' => ?_⟩
  · rcases view_of_update hv' with ⟨rfl, rfl⟩ | ⟨-, hv'⟩
    · exact hlw
    · exact h.building t' v' hv' hb'
  · rcases view_of_update hv' with ⟨rfl, rfl⟩ | ⟨-, hv'⟩
    · exact h.opening t' v hv (ho ▸ ho')
    · exact h.opening t' v' hv' ho'
  · exact (h.constructed he).imp_left (hkeep (fun b => b.opening = true) (by simp [Building.opening])
      fun hb => ho.trans hb)
  · exact hkeep (fun b => b.session = some k) (by simp [Building.session]) (fun hb => hs.trans hb) (h.running k hk' hr)
  · rcases view_of_update hv' with ⟨rfl, rfl⟩ | ⟨-, hv'⟩
    · exact h.own t' v k hv (hs ▸ hs')
    · exact h.own t' v' k hv' hs'

theorem newSession (h : Kept s views) (hk : Locked s views) {t : Nat} {v w : ClientView} (hv : views t = some v)
    (hl : v.lock = .excl) (hlw : w.lock = .excl) (hb : v.building = .joined) {x : SessObj} (hx : x.life = .alive)
    (ht : x.table = s.boundFuncs) (hw : w.building = .created s.sessionCount) :
    Kept { s.modify s.sessionCount fun _ => x with
      session := some s.sessionCount, sessionCount := s.sessionCount + 1 } (Function.update views t (some w)) := by
  obtain ⟨he, hnone⟩ := h.opening t v hv (by rw [hb]; rfl)
  have hother : ∀ t' v', t' ≠ t → views t' = some v' → v'.building = .none := by
    intro t' v' hne hv'
    by_contra hb
    exact hne (h.alone hk hv hl hv' hb).1
  have hpres : ∀ k, ((s.modify s.sessionCount fun _ => x).sessions k).Present → k = s.sessionCount := by
    intro k hp
    by_contra hne
    rw [Client.sessions_modify, if_neg hne] at hp
    exact hnone k hp
  have hself : (s.modify s.sessionCount fun _ => x).sessions s.sessionCount = x := by
    rw [Client.sessions_modify, if_pos rfl]
  have hnew : Function.update views t (some w) t = some w := Function.update_self _ _ _
  refine ⟨fun t' v' hv' hb' => ?_, fun k hk' => ?_, fun hf => ?_, fun k k' h1 h2 => ?_, fun k hp => ?_, fun k hp => ?_,
    fun t' v' hv' ho => ?_, fun t' v' hv' hj => ?_, fun _ => .inr ⟨s.sessionCount, ?_⟩, fun k hp _ => ?_,
    fun t' v' k hv' hs => ?_⟩
  · rcases view_of_update hv' with ⟨rfl, rfl⟩ | ⟨-, hv'⟩
    · exact hlw
    · exact h.building t' v' hv' hb'
  · have hne : k ≠ s.sessionCount := Nat.ne_of_gt hk'
    show ((s.modify s.sessionCount fun _ => x).sessions k).life = .unborn
    rw [Client.sessions_modify, if_neg hne]
    exact h.unborn k (Nat.le_of_succ_le hk')
  · exact absurd (he.symm.trans hf) (by simp)
  · rw [hpres k h1, hpres k' h2]
  · rw [hpres k hp]
  · rw [hpres k hp]
    show ((s.modify s.sessionCount fun _ => x).sessions s.sessionCount).table = s.boundFuncs
    rw [hself, ht]
  · rcases view_of_update hv' with ⟨rfl, rfl⟩ | ⟨hne, hv'⟩
    · rw [hw] at ho
      cases ho
    · rw [hother t' v' hne hv'] at ho
      cases ho
  · exact h.worker t v hv (by rw [hb]; rfl)
  · show ((s.modify s.sessionCount fun _ => x).sessions s.sessionCount).Present
    rw [hself]
    exact .inl hx
  · exact ⟨t, w, hnew, by rw [hw, hpres k hp]; rfl⟩
  · rcases view_of_update hv' with ⟨rfl, rfl⟩ | ⟨hne, hv'⟩
    · rw [hw] at hs
      exact hs
    · rw [hother t' v' hne hv'] at hs
      cases hs

/-- `run()` goes on or returns: it has returned in `s'` if its call is done with the construction. -/
theorem run (h : Kept s views) (hk : Locked s views) {t k : Nat} {v w : ClientView} (hv : views t = some v)
    (hl : v.lock = .excl) (hlw : w.lock = .excl) (hb : v.building.session = some k) {f : SessObj → SessObj}
    (h1 : ∀ x, (f x).life = x.life) (h2 : ∀ x, (f x).table = x.table) {worker : Worker}
    (ho : w.building.opening = false) (hj : w.building.joining = true → worker = .none)
    (hdone : w.building.session = some k ∨ ∃ state, ∀ x, (f x).returned = some state)
    (hsame : ∀ k', w.building.session = some k' → v.building.session = some k') :
    Kept { s.modify k f with worker := worker } (Function.update views t (some w)) := by
  have hother : ∀ t' v', t' ≠ t → views t' = some v' → v'.building = .none := by
    intro t' v' hne hv'
    by_contra hb
    exact hne (h.alone hk hv hl hv' hb).1
  have hlife : ∀ k', ((s.modify k f).sessions k').life = (s.sessions k').life := by
    intro k'
    rw [Client.sessions_modify]
    split
    · rename_i hk'
      rw [h1, hk']
    · rfl
  have hpres : ∀ k', ((s.modify k f).sessions k').Present ↔ (s.sessions k').Present := by
    intro k'
    unfold SessObj.Present
    rw [hlife]
  have htable : ∀ k', ((s.modify k f).sessions k').table = (s.sessions k').table := by
    intro k'
    rw [Client.sessions_modify]
    split
    · rename_i hk'
      rw [h2, hk']
    · rfl
  refine ⟨fun t' v' hv' hb' => ?_, fun k' hk' => (hlife k').trans (h.unborn k' hk'),
    fun he k' => (hpres k').not.mpr (h.expired he k'),
    fun k₁ k₂ p₁ p₂ => h.single k₁ k₂ ((hpres k₁).mp p₁) ((hpres k₂).mp p₂),
    fun k' hp => h.current k' ((hpres k').mp hp), fun k' hp => (htable k').trans (h.table k' ((hpres k').mp hp)),
    fun t' v' hv' ho' => ?_, fun t' v' hv' hj' => ?_, fun he => ?_, fun k' hp hr => ?_, fun t' v' k' hv' hs => ?_⟩
  · rcases view_of_update hv' with ⟨rfl, rfl⟩ | ⟨-, hv'⟩
    · exact hlw
    · exact h.building t' v' hv' hb'
  · rcases view_of_update hv' with ⟨rfl, rfl⟩ | ⟨hne, hv'⟩
    · rw [ho] at ho'
      cases ho'
    · rw [hother t' v' hne hv'] at ho'
      cases ho'
  · rcases view_of_update hv' with ⟨rfl, rfl⟩ | ⟨hne, hv'⟩
    · exact hj hj'
    · rw [hother t' v' hne hv'] at hj'
      cases hj'
  · rcases h.constructed he with ⟨t', v', hv', ho'⟩ | ⟨k', hp⟩
    · have hbne : v'.building ≠ .none := fun hn => by rw [hn] at ho'; cases ho'
      obtain ⟨-, rfl⟩ := h.alone hk hv hl hv' hbne
      cases hbv : v'.building with
      | none => exact absurd hbv hbne
      | opened =>
        rw [hbv] at hb
        cases hb
      | joined =>
        rw [hbv] at hb
        cases hb
      | created k' =>
        rw [hbv] at ho'
        cases ho'
      | resolving k' =>
        rw [hbv] at ho'
        cases ho'
      | running k' =>
        rw [hbv] at ho'
        cases ho'
    · exact .inr ⟨k', (hpres k').mpr hp⟩
  · have hr' : ((s.modify k f).sessions k').returned = none := hr
    rw [Client.sessions_modify] at hr'
    split at hr'
    · rename_i hkk
      rcases hdone with hs | ⟨state, hs⟩
      · exact ⟨t, w, Function.update_self _ _ _, hkk ▸ hs⟩
      · rw [hs] at hr'
        cases hr'
    · rename_i hkk
      obtain ⟨t', v', hv', hs⟩ := h.running k' ((hpres k').mp hp) hr'
      have hbne : v'.building ≠ .none := fun hn => by rw [hn] at hs; cases hs
      obtain ⟨-, rfl⟩ := h.alone hk hv hl hv' hbne
      rw [hb] at hs
      exact absurd (Option.some.inj hs).symm hkk
  · rcases view_of_update hv' with ⟨rfl, rfl⟩ | ⟨hne, hv'⟩
    · exact h.own t' v k' hv (hsame k' hs)
    · rw [hother t' v' hne hv'] at hs
      cases hs

theorem bindFunc (h : Kept s views) (he : s.expired = true) (funcs : BroadcastFuncs) :
    Kept { s with boundFuncs := funcs } views := by
  have hnone := h.expired he
  exact ⟨h.building, h.unborn, h.expired, h.single, h.current, fun k hp => absurd hp (hnone k), h.opening, h.worker,
    h.constructed, h.running, h.own⟩

/-! ## Every step -/

theorem exec (h : Kept s views) (hk : Locked s views) {cfg : ClientConfig} {t : Nat} {o : ClientOp} {i : Clock}
    {r : o.Res} {v : ClientView} (hv : views t = some v) (hpre : v.Allows o) (hs : o.exec cfg t i s = some (r, s')) :
    Kept s' (Function.update views t (some (v.next o r))) := by
  cases o with
  | lockShared =>
    simp only [ClientOp.exec] at hs
    split at hs
    · cases hs
      exact h.quiet ⟨rfl, rfl, rfl, rfl, rfl, fun _ => rfl, fun _ => rfl, fun _ => rfl⟩ hv rfl
        fun hb => absurd hpre.building hb
    · cases hs
  | unlockShared =>
    cases hs
    exact h.quiet ⟨rfl, rfl, rfl, rfl, rfl, fun _ => rfl, fun _ => rfl, fun _ => rfl⟩ hv rfl
      fun hb => absurd hpre.building hb
  | lockExcl =>
    simp only [ClientOp.exec] at hs
    split at hs
    · cases hs
      exact h.quiet ⟨rfl, rfl, rfl, rfl, rfl, fun _ => rfl, fun _ => rfl, fun _ => rfl⟩ hv rfl
        fun hb => absurd hpre.building hb
    · cases hs
  | unlockExcl =>
    cases hs
    exact h.quiet ⟨rfl, rfl, rfl, rfl, rfl, fun _ => rfl, fun _ => rfl, fun _ => rfl⟩ hv rfl
      fun hb => absurd hpre.building hb
  | readExit =>
    cases hs
    exact h.view hv rfl (h.building t v hv)
  | setExit =>
    cases hs
    exact h.quiet ⟨rfl, rfl, rfl, rfl, rfl, fun _ => rfl, fun _ => rfl, fun _ => rfl⟩ hv rfl (h.building t v hv)
  | lockSession =>
    simp only [ClientOp.exec] at hs
    split at hs
    · cases hs
      exact h.view hv rfl (h.building t v hv)
    · split at hs
      · rename_i k _ _
        cases hs
        exact h.quiet (.modify s k (fun _ => rfl) (fun _ => rfl) fun _ => rfl) hv rfl (h.building t v hv)
      · cases hs
        exact h.view hv rfl (h.building t v hv)
  | releaseSession k =>
    cases hs
    exact h.quiet (.modify s k (fun _ => rfl) (fun _ => rfl) fun _ => rfl) hv rfl (h.building t v hv)
  | sess k o =>
    obtain ⟨⟨r', x⟩, -, he⟩ := Option.map_eq_some_iff.mp hs
    cases he
    exact h.quiet (.modify s k (fun _ => rfl) (fun _ => rfl) fun _ => rfl) hv rfl (h.building t v hv)
  | testExpired =>
    cases hs
    cases he : s.expired with
    | true => exact h.testExpired hpre.lock he rfl
    | false =>
      have hsame : s.Same { s with expired := false } :=
        ⟨he.symm, rfl, rfl, rfl, rfl, fun _ => rfl, fun _ => rfl, fun _ => rfl⟩
      exact h.quiet hsame hv rfl (h.building t v hv)
  | joinWorker =>
    simp only [ClientOp.exec] at hs
    split at hs
    · cases hs
    · cases hs
      refine h.join hk hv hpre.1 hpre.1 ?_ ?_
      · rw [hpre.2.2]
        rfl
      · rw [hpre.2.2]
        rfl
  | joinAtExit =>
    simp only [ClientOp.exec] at hs
    split at hs
    · cases hs
    · cases hs
      exact h.join hk hv hpre.lock hpre.lock rfl rfl
  | newSession =>
    cases hs
    exact h.newSession (w := v.next .newSession s.sessionCount) hk hv hpre.1 hpre.1 hpre.2.2 rfl rfl rfl
  | beginRun k =>
    have hbs : v.building.session = some k := by rw [hpre.2.2]; rfl
    have hw : s.worker = .none := h.worker t v hv (by rw [hpre.2.2]; rfl)
    simp only [ClientOp.exec] at hs
    split at hs
    · cases hs
      exact h.run (w := v.next (.beginRun k) false) (f := fun x => { x with returned := some .none }) hk hv hpre.1 hpre.1
        hbs (fun _ => rfl) (fun _ => rfl) rfl (fun hj => by cases hj) (.inr ⟨.none, fun _ => rfl⟩) fun _ hs => by cases hs
    · cases hs
      exact h.run (w := v.next (.beginRun k) true) (f := fun x => { x with connecting := some .resolve }) hk hv hpre.1
        hpre.1 hbs (fun _ => rfl) (fun _ => rfl) rfl (fun _ => hw) (.inl rfl)
        fun _ hs => by rw [hbs]; exact hs
  | assignWorker =>
    cases hs
    obtain ⟨hl, k, hb⟩ := hpre
    have hbs : v.building.session = some k := by rw [hb]; rfl
    have hnext : (v.next .assignWorker ()).building = .running k := by simp only [ClientView.next, hb]
    have hmod : s.modify k id = s := by simp [Client.modify]
    have hrun : Kept { s.modify k id with worker := .starting }
        (Function.update views t (some (v.next .assignWorker ()))) :=
      h.run (w := v.next .assignWorker ()) (f := id) hk hv hl hl hbs (fun _ => rfl) (fun _ => rfl) (by rw [hnext]; rfl)
        (fun hj => by rw [hnext] at hj; cases hj) (.inl (by rw [hnext]; rfl))
        fun _ hs => by rw [hbs]; rw [hnext] at hs; exact hs
    rwa [hmod] at hrun
  | waitRun k =>
    have hbs : v.building.session = some k := by rw [hpre.2.2]; rfl
    simp only [ClientOp.exec] at hs
    split at hs
    · cases hs
    · cases hs
      have hmod : s.modify k (fun x => { x with returned := some x.state }) =
          s.modify k fun x => { x with returned := some (s.sessions k).state } := rfl
      rw [hmod]
      exact h.run (w := v.next (.waitRun k) (s.sessions k).state)
        (f := fun x => { x with returned := some (s.sessions k).state }) hk hv hpre.1 hpre.1 hbs (fun _ => rfl)
        (fun _ => rfl) rfl (fun hj => by cases hj) (.inr ⟨_, fun _ => rfl⟩) fun _ hs => by cases hs
  | waitDestruction =>
    simp only [ClientOp.exec] at hs
    split at hs
    · cases hs
      exact h.view hv rfl (h.building t v hv)
    · split at hs
      · cases hs
        exact h.view hv rfl (h.building t v hv)
      · cases hs
  | beginClose k =>
    simp only [ClientOp.exec] at hs
    split at hs
    · cases hs
      exact h.view hv rfl (h.building t v hv)
    · cases hs
      exact h.quiet (.modify s k (fun _ => rfl) (fun _ => rfl) fun _ => rfl) hv rfl (h.building t v hv)
  | postClose k =>
    cases hs
    exact h.quiet (.modify s k (fun _ => rfl) (fun _ => rfl) fun _ => rfl) hv rfl (h.building t v hv)
  | waitPosted k =>
    simp only [ClientOp.exec] at hs
    split at hs
    · cases hs
      exact h.view hv rfl (h.building t v hv)
    · split at hs
      · cases hs
        exact h.view hv rfl (h.building t v hv)
      · cases hs
  | restartIo =>
    cases hs
    exact h.quiet ⟨rfl, rfl, rfl, rfl, rfl, fun _ => rfl, fun _ => rfl, fun _ => rfl⟩ hv rfl (h.building t v hv)
  | finishIo =>
    simp only [ClientOp.exec] at hs
    split at hs
    · cases hs
    · cases hs
      exact h.quiet ⟨rfl, rfl, rfl, rfl, rfl, fun _ => rfl, fun _ => rfl, fun _ => rfl⟩ hv rfl (h.building t v hv)
  | bindFunc id handler =>
    simp only [ClientOp.exec] at hs
    split at hs
    · cases hs
      exact h.view hv rfl (h.building t v hv)
    · rename_i he
      split at hs
      · cases hs
        exact h.view hv rfl (h.building t v hv)
      · cases hs
        exact (h.bindFunc (by simpa using he) _).view hv rfl (h.building t v hv)
  | setHandshake request =>
    cases hs
    exact h.quiet ⟨rfl, rfl, rfl, rfl, rfl, fun _ => rfl, fun _ => rfl, fun _ => rfl⟩ hv rfl (h.building t v hv)
  | readHandshake k =>
    cases hs
    exact h.view hv rfl (h.building t v hv)

theorem delete (h : Kept s views) {k : Nat} (hk : (s.sessions k).life = .alive) :
    Kept (s.modify k fun x => { x with life := .deleted }) views := by
  have hpres : ∀ k', ((s.modify k fun x => { x with life := .deleted }).sessions k').Present ↔
      (s.sessions k').Present := by
    intro k'
    rw [Client.sessions_modify]
    split
    · rename_i hkk
      rw [hkk]
      exact ⟨fun _ => .inl hk, fun _ => .inr rfl⟩
    · rfl
  have hrest : ∀ k', ((s.modify k fun x => { x with life := .deleted }).sessions k').table = (s.sessions k').table ∧
      ((s.modify k fun x => { x with life := .deleted }).sessions k').returned = (s.sessions k').returned := by
    intro k'
    rw [Client.sessions_modify]
    split
    · rename_i hkk
      rw [hkk]
      exact ⟨rfl, rfl⟩
    · exact ⟨rfl, rfl⟩
  refine ⟨h.building, fun k' hk' => ?_, fun he k' => (hpres k').not.mpr (h.expired he k'),
    fun k₁ k₂ p₁ p₂ => h.single k₁ k₂ ((hpres k₁).mp p₁) ((hpres k₂).mp p₂),
    fun k' hp => h.current k' ((hpres k').mp hp), fun k' hp => (hrest k').1.trans (h.table k' ((hpres k').mp hp)),
    fun t v hv ho => ?_, h.worker, fun he => ?_, fun k' hp hr => ?_, h.own⟩
  · rw [Client.sessions_modify, if_neg]
    · exact h.unborn k' hk'
    · rintro rfl
      rw [h.unborn k' hk'] at hk
      cases hk
  · obtain ⟨h1, h2⟩ := h.opening t v hv ho
    exact ⟨h1, fun k' => (hpres k').not.mpr (h2 k')⟩
  · exact (h.constructed he).imp_right (Exists.imp fun k' hp => (hpres k').mpr hp)
  · exact h.running k' ((hpres k').mp hp) ((hrest k').2 ▸ hr)

theorem onSessionDelete (h : Kept s views) {k : Nat} (hk : (s.sessions k).life = .deleted) :
    Kept { s.modify k fun x => { x with life := .gone } with expired := true } views := by
  have hnone : ∀ k', ¬ ((s.modify k fun x => { x with life := .gone }).sessions k').Present := by
    intro k' hp
    rw [Client.sessions_modify] at hp
    split at hp
    · rcases hp with hp | hp <;> cases hp
    · rename_i hkk
      exact hkk (h.single k' k hp (.inr hk))
  refine ⟨h.building, fun k' hk' => ?_, fun _ => hnone, fun k₁ _ p₁ => absurd p₁ (hnone k₁),
    fun k' hp => absurd hp (hnone k'), fun k' hp => absurd hp (hnone k'), fun t v hv ho => ?_, h.worker,
    fun he => (by cases he), fun k' hp => absurd hp (hnone k'), h.own⟩
  · show ((s.modify k fun x => { x with life := .gone }).sessions k').life = .unborn
    rw [Client.sessions_modify, if_neg]
    · exact h.unborn k' hk'
    · rintro rfl
      rw [h.unborn k' hk'] at hk
      cases hk
  · exact absurd (.inr hk) ((h.opening t v hv ho).2 k)

theorem workerMoves (h : Kept s views) {worker : Worker} {stopped : Bool} (hw : s.worker ≠ .none) :
    Kept { s with worker := worker, stopped := stopped } views :=
  ⟨h.building, h.unborn, h.expired, h.single, h.current, h.table, h.opening,
    fun t v hv hj => absurd (h.worker t v hv hj) hw, h.constructed, h.running, h.own⟩

theorem env (h : Kept s views) {cfg : ClientConfig} {e : ClientEnv} (hs : s.step cfg e = some s') : Kept s' views := by
  cases Client.moves_of_step hs with
  | handled _ k f hf => exact h.same (.modify s k hf.life hf.table hf.returned)
  | session k e sess => exact h.same (.modify s k (fun _ => rfl) (fun _ => rfl) fun _ => rfl)
  | dropPosted k => exact h.same (.modify s k (fun _ => rfl) (fun _ => rfl) fun _ => rfl)
  | delete k hk => exact h.delete hk
  | onSessionDelete k hk => exact h.onSessionDelete hk
  | worker _ worker stopped hw => exact h.workerMoves hw

end Kept

/-! ## Runs -/

/-- The invariant of a client. -/
structure Alive (s : Client) (views : Nat → Option ClientView) : Prop where
  locked : Locked s views
  kept : Kept s views

namespace Alive

variable {s s' : Client} {views : Nat → Option ClientView} {cfg : ClientConfig}

theorem new (o : Words.ByteOrder) : Alive (.new o) fun _ => none :=
  ⟨⟨fun _ _ h => (by cases h), fun _ _ h => (by cases h), fun _ => rfl⟩, .new o⟩

theorem call (h : Alive s views) {t : Nat} (ht : views t = none) (c : ClientCall) :
    Alive s (Function.update views t (some (.first c))) := ⟨h.locked.call t c, h.kept.call ht c⟩

theorem exec (h : Alive s views) {t : Nat} {o : ClientOp} {i : Clock} {r : o.Res} {v : ClientView}
    (hv : views t = some v) (hpre : v.Allows o) (hs : o.exec cfg t i s = some (r, s')) :
    Alive s' (Function.update views t (some (v.next o r))) := ⟨h.locked.exec hv hpre hs, h.kept.exec h.locked hv hpre hs⟩

theorem env (h : Alive s views) {e : ClientEnv} (hs : s.step cfg e = some s') : Alive s' views :=
  ⟨h.locked.env hs, h.kept.env hs⟩

end Alive

theorem alive_of_reach {cfg : ClientConfig} {p : ClientPool}
    (hp : (clientMachine cfg).Reach Machine.Free (.new cfg.order) p) :
    ∃ views, Alive p.shared views ∧
      Machine.Linked clientDiscipline (fun _ c r v => v.call = c ∧ v.Returns r) p views := by
  refine Machine.sound (fun _ c => .first c) (.new cfg.order) (fun _ c => clientCall_ok cfg c) ?_ ?_ ?_ hp
  · exact fun p views t c _ _ hinv _ ht => hinv.call ht c
  · exact fun p views t i o v r s' _ _ hinv _ _ hv hpre hex => hinv.exec hv hpre hex
  · exact fun p views e s' _ _ hinv _ he => hinv.env he

/-- A call that is about to construct a session: `m_expired` has been reset and there is no object yet. -/
def ClientOp.constructs : ClientOp → Bool
  | .joinWorker => true
  | .newSession => true
  | _ => false

/-- **One session at a time.** In every reachable state of a client at most one session object is alive; `m_expired`
is set only while none is alive or under construction; the thread is assigned only when it is not joinable; and the
broadcast handlers are those a live session was constructed with. -/
theorem single_session {cfg : ClientConfig} {p : ClientPool}
    (hp : (clientMachine cfg).Reach Machine.Free (.new cfg.order) p) :
    (∀ k k', (p.shared.sessions k).life = .alive → (p.shared.sessions k').life = .alive → k = k') ∧
    (p.shared.expired = true → (∀ k, (p.shared.sessions k).life ≠ .alive) ∧
      ∀ t o, p.next t = some o → o.constructs = false) ∧
    (∀ t, p.next t = some .assignWorker → p.shared.worker = .none) ∧
    (∀ k, (p.shared.sessions k).life = .alive → p.shared.boundFuncs = (p.shared.sessions k).table) := by
  obtain ⟨views, hinv, hl⟩ := alive_of_reach hp
  have hnext : ∀ t o, p.next t = some o → ∃ v, views t = some v ∧ v.Allows o := by
    intro t o ho
    obtain ⟨c, k, ht⟩ := Machine.next_eq_some ho
    obtain ⟨v, hv, hok⟩ := hl.ok ht
    exact ⟨v, hv, hok.1⟩
  refine ⟨fun k k' h h' => hinv.kept.single k k' (.inl h) (.inl h'),
    fun he => ⟨fun k hk => hinv.kept.expired he k (.inl hk), fun t o ho => ?_⟩, fun t ho => ?_,
    fun k hk => (hinv.kept.table k (.inl hk)).symm⟩
  · obtain ⟨v, hv, hpre⟩ := hnext t o ho
    have hopen : v.building.opening = true → False := fun hb => by
      have hf := (hinv.kept.opening t v hv hb).1
      rw [he] at hf
      cases hf
    cases o with
    | joinWorker => exact absurd (by rw [hpre.2.2]; rfl) hopen
    | newSession => exact absurd (by rw [hpre.2.2]; rfl) hopen
    | _ => rfl
  · obtain ⟨v, hv, -, k, hb⟩ := hnext t _ ho
    exact hinv.kept.worker t v hv (by rw [hb]; rfl)

/-- A client that makes one attempt, over a plain stream. -/
def plainConfig : ClientConfig := ⟨.little, false, 1, 1000000000⟩

/-- The call `t` constructs session `k` and starts its thread. -/
def startRun (t : Nat) : List (Act ClientCall Clock ClientEnv) :=
  [.call t .connect, .op t {}, .op t {}, .op t {}, .op t {}, .op t {}, .op t {}, .op t {}, .env .workerRun]

/-- The call `t` connects session `k`; it has not let go of the lock yet. -/
def connectRun (t k : Nat) : List (Act ClientCall Clock ClientEnv) :=
  startRun t ++
    [.env (.onResolve k false), .env (.leave k), .env (.onConnect k false), .env (.leave k),
      .env (.onHandshake k false []), .env (.leave k), .op t {}, .op t {}]

theorem single_session_connected : ∃ p : ClientPool,
    (clientMachine plainConfig).Reach Machine.Free (.new plainConfig.order) p ∧
      (p.shared.sessions 0).life = .alive ∧ p.shared.boundFuncs = (p.shared.sessions 0).table := by
  have hrun : ((clientMachine plainConfig).run (fun _ _ => true) (.initial (.new plainConfig.order)) (connectRun 0 0)).any
      (fun p => decide ((p.shared.sessions 0).life = .alive)) = true := by
    decide +kernel
  obtain ⟨p, hp, hf⟩ := Machine.Reach.exists_of_run (G := Machine.Free) (fun _ _ _ => trivial) (connectRun 0 0) hrun
  have halive := of_decide_eq_true hf
  exact ⟨p, hp, halive, (single_session hp).2.2.2 0 halive⟩

/-! ## What `connect` reports -/

/-- The current session is left from a `run()` that did not establish a connection. -/
def Client.failed (s : Client) : Bool :=
  s.session.any fun k => decide ((s.sessions k).Present) &&
    (s.sessions k).returned.any fun state => decide (state ≠ .established)

/-- `construct_session` tests `m_expired` only when no session is left whose `run()` did not establish a connection. -/
def NoneFailed (p : ClientPool) : Act ClientCall Clock ClientEnv → Prop
  | .op t _ => p.next t = some .testExpired → p.shared.failed = false
  | _ => True

/-- The `run()` of the current session has established a connection. -/
def Client.Established (s : Client) : Prop :=
  ∃ k, s.session = some k ∧ (s.sessions k).returned = some .established

/-- A call that holds the lock and takes the session for connected is right. -/
def Truthful (s : Client) (views : Nat → Option ClientView) : Prop :=
  ∀ t v, views t = some v → v.lock = .excl → v.connected = true → s.Established

namespace Truthful

variable {s s' : Client} {views : Nat → Option ClientView}

theorem same (h : Truthful s views) (h1 : s'.session = s.session)
    (h2 : ∀ k, (s'.sessions k).returned = (s.sessions k).returned) : Truthful s' views := by
  intro t v hv hl hc
  obtain ⟨k, hk, hr⟩ := h t v hv hl hc
  exact ⟨k, h1.trans hk, (h2 k).trans hr⟩

theorem view (h : Truthful s views) {t : Nat} {w : ClientView}
    (hw : w.lock = .excl → w.connected = true → s.Established) : Truthful s (Function.update views t (some w)) := by
  intro t' v' hv' hl hc
  rcases view_of_update hv' with ⟨rfl, rfl⟩ | ⟨-, hv'⟩
  · exact hw hl hc
  · exact h t' v' hv' hl hc

theorem change (hk : Locked s views) {t : Nat} {v w : ClientView} (hv : views t = some v) (hl : v.lock = .excl)
    (hw : w.connected = true → s'.Established) : Truthful s' (Function.update views t (some w)) := by
  intro t' v' hv' hl' hc
  rcases view_of_update hv' with ⟨rfl, rfl⟩ | ⟨hne, hv'⟩
  · exact hw hc
  · exact absurd (hk.unique hv' hv hl' hl) hne

theorem testExpired (hinv : Alive s views) {t : Nat} {v : ClientView} (hv : views t = some v) (hpre : v.Bare .excl)
    (he : s.expired = false) (hok : s.failed = false) : s.Established := by
  have hnone : ∀ t' v', views t' = some v' → v'.building = .none := by
    intro t' v' hv'
    by_contra hb
    obtain ⟨-, rfl⟩ := hinv.kept.alone hinv.locked hv hpre.lock hv' hb
    exact hb hpre.building
  rcases hinv.kept.constructed he with ⟨t', v', hv', ho⟩ | ⟨k, hk⟩
  · rw [hnone t' v' hv'] at ho
    cases ho
  · refine ⟨k, hinv.kept.current k hk, ?_⟩
    cases hr : (s.sessions k).returned with
    | none =>
      obtain ⟨t', v', hv', hs⟩ := hinv.kept.running k hk hr
      rw [hnone t' v' hv'] at hs
      cases hs
    | some state =>
      rw [Client.failed, hinv.kept.current k hk] at hok
      simpa [hk, hr] using hok

theorem exec (h : Truthful s views) (hinv : Alive s views) {cfg : ClientConfig} {t : Nat} {o : ClientOp} {i : Clock}
    {r : o.Res} {v : ClientView} (hv : views t = some v) (hpre : v.Allows o) (hs : o.exec cfg t i s = some (r, s'))
    (hok : o = .testExpired → s.failed = false) : Truthful s' (Function.update views t (some (v.next o r))) := by
  have hmod : ∀ k f, (∀ x, (f x).returned = x.returned) → ∀ k',
      ((s.modify k f).sessions k').returned = (s.sessions k').returned :=
    fun k f hf k' => by
      rw [Client.sessions_modify]
      split
      · rename_i hkk
        rw [hf, hkk]
      · rfl
  have hkeep : ∀ {w : ClientView} k f, (∀ x, (f x).returned = x.returned) → w.lock = v.lock →
      w.connected = v.connected → Truthful (s.modify k f) (Function.update views t (some w)) := by
    intro w k f hf hl hc
    have h' : Truthful (s.modify k f) views := h.same rfl (hmod k f hf)
    exact h'.view fun hl' hc' => h' t v hv (hl ▸ hl') (hc ▸ hc')
  cases o with
  | lockShared =>
    simp only [ClientOp.exec] at hs
    split at hs
    · cases hs
      exact (h.same rfl fun _ => rfl).view fun hl => by cases hl
    · cases hs
  | unlockShared =>
    cases hs
    exact (h.same rfl fun _ => rfl).view fun hl => by cases hl
  | lockExcl =>
    simp only [ClientOp.exec] at hs
    split at hs
    · cases hs
      exact (h.same rfl fun _ => rfl).view fun _ hc => by cases hc
    · cases hs
  | unlockExcl =>
    cases hs
    exact (h.same rfl fun _ => rfl).view fun hl => by cases hl
  | testExpired =>
    cases hs
    cases he : s.expired with
    | true => exact change hinv.locked hv hpre.lock fun hc => by cases hc
    | false =>
      have hest : s.Established := testExpired hinv hv hpre he (hok rfl)
      exact change hinv.locked hv hpre.lock fun _ => hest
  | newSession =>
    cases hs
    exact change hinv.locked hv hpre.1 fun hc => by cases hc
  | beginRun k =>
    simp only [ClientOp.exec] at hs
    split at hs
    · cases hs
      exact change hinv.locked hv hpre.1 fun hc => by cases hc
    · cases hs
      exact hkeep k _ (fun _ => rfl) rfl rfl
  | waitRun k =>
    simp only [ClientOp.exec] at hs
    split at hs
    · cases hs
    · cases hs
      apply change hinv.locked hv hpre.1
      intro hc
      have hst : (s.sessions k).state = .established := of_decide_eq_true hc
      refine ⟨k, hinv.kept.own t v k hv (by rw [hpre.2.2]; rfl), ?_⟩
      rw [Client.sessions_modify, if_pos rfl, hst]
  | lockSession =>
    simp only [ClientOp.exec] at hs
    split at hs
    · cases hs
      exact h.view (h t v hv)
    · split at hs
      · rename_i k _ _
        cases hs
        exact hkeep k _ (fun _ => rfl) rfl rfl
      · cases hs
        exact h.view (h t v hv)
  | releaseSession k =>
    cases hs
    exact hkeep k _ (fun _ => rfl) rfl rfl
  | sess k o =>
    obtain ⟨⟨r', x⟩, -, he⟩ := Option.map_eq_some_iff.mp hs
    cases he
    exact hkeep k _ (fun _ => rfl) rfl rfl
  | joinWorker | joinAtExit =>
    simp only [ClientOp.exec] at hs
    split at hs
    · cases hs
    · cases hs
      exact (h.same rfl fun _ => rfl).view (h t v hv)
  | waitDestruction =>
    simp only [ClientOp.exec] at hs
    split at hs
    · cases hs
      exact h.view (h t v hv)
    · split at hs
      · cases hs
        exact h.view (h t v hv)
      · cases hs
  | beginClose k =>
    simp only [ClientOp.exec] at hs
    split at hs
    · cases hs
      exact h.view (h t v hv)
    · cases hs
      exact hkeep k _ (fun _ => rfl) rfl rfl
  | postClose k =>
    cases hs
    exact hkeep k _ (fun _ => rfl) rfl rfl
  | waitPosted k =>
    simp only [ClientOp.exec] at hs
    split at hs
    · cases hs
      exact h.view (h t v hv)
    · split at hs
      · cases hs
        exact h.view (h t v hv)
      · cases hs
  | finishIo =>
    simp only [ClientOp.exec] at hs
    split at hs
    · cases hs
    · cases hs
      exact (h.same rfl fun _ => rfl).view (h t v hv)
  | bindFunc id handler =>
    simp only [ClientOp.exec] at hs
    split at hs
    · cases hs
      exact h.view (h t v hv)
    · split at hs
      · cases hs
        exact h.view (h t v hv)
      · cases hs
        exact (h.same rfl fun _ => rfl).view (h t v hv)
  | readExit =>
    cases hs
    exact h.view (h t v hv)
  | readHandshake k =>
    cases hs
    exact h.view (h t v hv)
  | _ =>
    cases hs
    exact (h.same rfl fun _ => rfl).view (h t v hv)

theorem env (h : Truthful s views) {cfg : ClientConfig} {e : ClientEnv} (hs : s.step cfg e = some s') :
    Truthful s' views := by
  have hmod : ∀ k f, (∀ x, (f x).returned = x.returned) → ∀ k',
      ((s.modify k f).sessions k').returned = (s.sessions k').returned :=
    fun k f hf k' => by
      rw [Client.sessions_modify]
      split
      · rename_i hkk
        rw [hf, hkk]
      · rfl
  cases Client.moves_of_step hs with
  | handled _ k f hf => exact h.same rfl (hmod k f hf.returned)
  | session k e sess => exact h.same rfl (hmod k _ fun _ => rfl)
  | dropPosted k => exact h.same rfl (hmod k _ fun _ => rfl)
  | delete k => exact h.same rfl (hmod k _ fun _ => rfl)
  | onSessionDelete k => exact h.same rfl (hmod k (fun x => { x with life := .gone }) fun _ => rfl)
  | worker _ worker stopped => exact h.same rfl fun _ => rfl

end Truthful

/-- The invariant for what `connect` reports. -/
def Reporting (s : Client) (views : Nat → Option ClientView) : Prop := Alive s views ∧ Truthful s views

theorem reporting_of_reach {cfg : ClientConfig} {p : ClientPool}
    (hp : (clientMachine cfg).Reach NoneFailed (.new cfg.order) p) :
    ∃ views, Reporting p.shared views ∧
      Machine.Linked clientDiscipline (fun _ c r v => v.call = c ∧ v.Returns r) p views := by
  refine Machine.sound (fun _ c => .first c) ?_ (fun _ c => clientCall_ok cfg c) ?_ ?_ ?_ hp
  · exact ⟨.new cfg.order, fun _ _ h => by cases h⟩
  · intro p views t c _ _ hinv _ ht
    exact ⟨hinv.1.call ht c, hinv.2.view fun hl => by cases hl⟩
  · intro p views t i o v r s' _ _ hinv hG hthread hv hpre hex
    obtain ⟨c, k, hthread⟩ := hthread
    refine ⟨hinv.1.exec hv hpre hex, hinv.2.exec hinv.1 hv hpre hex fun ho => ?_⟩
    subst ho
    exact hG (Machine.next_of_thread hthread)
  · intro p views e s' _ _ hinv _ he
    exact ⟨hinv.1.env he, hinv.2.env he⟩

theorem ClientView.unlocked {v : ClientView} {o : ClientOp} {r : o.Res} (hpre : v.Allows o)
    (hl : (v.next o r).lock = .free) (hc : (v.next o r).connected = true) :
    o = .unlockExcl ∧ v.lock = .excl ∧ v.connected = true := by
  cases o with
  | unlockExcl => exact ⟨rfl, hpre.lock, hc⟩
  | unlockShared => cases hc
  | lockShared => cases hl
  | lockExcl => cases hl
  | readExit => exact absurd hl hpre
  | setExit => exact absurd (hpre.1.symm.trans hl) (by simp)
  | lockSession => cases r <;> exact absurd hl hpre.1
  | sess k o => exact absurd hl hpre.1
  | testExpired => cases r <;> exact absurd (hpre.lock.symm.trans hl) (by simp)
  | joinWorker => exact absurd (hpre.1.symm.trans hl) (by simp)
  | joinAtExit => exact absurd (hpre.lock.symm.trans hl) (by simp)
  | newSession => exact absurd (hpre.1.symm.trans hl) (by simp)
  | beginRun k => cases r <;> exact absurd (hpre.1.symm.trans hl) (by simp)
  | assignWorker => exact absurd (hpre.1.symm.trans hl) (by simp)
  | waitRun k => exact absurd (hpre.1.symm.trans hl) (by simp)
  | waitDestruction => cases r <;> exact absurd (hpre.lock.symm.trans hl) (by simp)
  | restartIo => exact absurd (hpre.symm.trans hl) (by simp)
  | finishIo => exact absurd (hpre.symm.trans hl) (by simp)
  | releaseSession k => exact absurd hl hpre.1
  | _ => exact absurd (hpre.lock.symm.trans hl) (by simp)

/-- **What `connect` reports.** When a call of either `connect` returns true, the `run()` of the session that is then
current has returned `established`: in every run in which `construct_session` never tests `m_expired` next to a session
whose `run()` failed. -/
theorem connect_truthful {cfg : ClientConfig} {p p' : ClientPool}
    (hp : (clientMachine cfg).Reach NoneFailed (.new cfg.order) p) {t : Nat} {i : Clock}
    (hs : (clientMachine cfg).step p (.op t i) = some p') {c : ClientCall}
    (hr : p'.result t = some (c, .connected (some true))) : p'.shared.Established := by
  obtain ⟨views, ⟨-, htruth⟩, hl⟩ := reporting_of_reach hp
  obtain ⟨c', o, k, r, s, ht, hex, rfl⟩ := Machine.step_op hs
  obtain ⟨v, hv, hok⟩ := hl.ok ht
  have hret := Machine.result_eq_some hr
  dsimp only at hret
  rw [Function.update_self, Option.some.injEq, Prod.mk.injEq] at hret
  have hok' := hok.2 r
  rw [hret.2] at hok'
  obtain ⟨hlock, hconn⟩ := hok'.2 rfl
  obtain ⟨rfl, hexcl, hc⟩ := ClientView.unlocked hok.1 hlock hconn
  cases hex
  exact htruth t v hv hexcl hc

def noneFailed (p : ClientPool) : Act ClientCall Clock ClientEnv → Bool
  | .op t _ => decide (p.next t = some .testExpired → p.shared.failed = false)
  | _ => true

theorem noneFailed_sound (p : ClientPool) (a : Act ClientCall Clock ClientEnv) (h : noneFailed p a = true) :
    NoneFailed p a := by
  cases a with
  | call t c => trivial
  | op t i =>
    simp only [noneFailed, decide_eq_true_eq] at h
    exact h
  | env e => trivial

theorem connect_truthful_connected : ∃ p p' : ClientPool,
    (clientMachine plainConfig).Reach NoneFailed (.new plainConfig.order) p ∧
      (clientMachine plainConfig).step p (.op 0 {}) = some p' ∧
      p'.result 0 = some (.connect, .connected (some true)) ∧ p'.shared.Established := by
  have hrun : ((clientMachine plainConfig).run noneFailed (.initial (.new plainConfig.order)) (connectRun 0 0)).any
      (fun p => ((clientMachine plainConfig).step p (.op 0 {})).any fun p' =>
        decide (p'.result 0 = some (.connect, .connected (some true)))) = true := by
    decide +kernel
  obtain ⟨p, hp, hf⟩ := Machine.Reach.exists_of_run noneFailed_sound (connectRun 0 0) hrun
  obtain ⟨p', hs, hr⟩ := Option.any_eq_true _ _ |>.mp hf
  have hret := of_decide_eq_true hr
  exact ⟨p, p', hp, hs, hret, connect_truthful hp hs hret⟩

/-- The name of the server cannot be resolved. The first `connect` returns false; the second one comes before the io
thread has let go of the session. -/
def staleRun : List (Act ClientCall Clock ClientEnv) :=
  startRun 0 ++ [.env (.onResolve 0 true), .op 0 {}, .op 0 {}, .op 0 {},
    .call 1 .connect, .op 1 {}, .op 1 {}, .op 1 {}]

/-- `connect` takes a session for connected whose `run()` has failed and which has not been destroyed yet. -/
theorem connect_untruthful : ¬ ∀ (cfg : ClientConfig) (p p' : ClientPool) (t : Nat) (i : Clock) (c : ClientCall),
    (clientMachine cfg).Reach Machine.Free (.new cfg.order) p → (clientMachine cfg).step p (.op t i) = some p' →
      p'.result t = some (c, .connected (some true)) → p'.shared.Established := by
  intro h
  have hrun : ((clientMachine plainConfig).run (fun _ _ => true) (.initial (.new plainConfig.order)) staleRun).any
      (fun p => ((clientMachine plainConfig).step p (.op 1 {})).any fun p' =>
        decide (p'.result 1 = some (.connect, .connected (some true))) && decide (p'.shared.session = some 0) &&
          decide ((p'.shared.sessions 0).returned = some .none)) = true := by
    decide +kernel
  obtain ⟨p, hp, hf⟩ := Machine.Reach.exists_of_run (G := Machine.Free) (fun _ _ _ => trivial) staleRun hrun
  obtain ⟨p', hs, hr⟩ := Option.any_eq_true _ _ |>.mp hf
  simp only [Bool.and_eq_true, decide_eq_true_eq] at hr
  obtain ⟨⟨hret, hcur⟩, hfailed⟩ := hr
  obtain ⟨k, hk, hest⟩ := h plainConfig p p' 1 {} .connect hp hs hret
  rw [hcur] at hk
  cases hk
  rw [hfailed] at hest
  cases hest

end Radrpc
