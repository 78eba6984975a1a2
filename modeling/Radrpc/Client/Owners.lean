import Radrpc.Client.Lifecycle

/-!
# Who keeps a session alive

A call that has locked the weak pointer of the client keeps the session alive until it lets go of it.

* `Client.Untouched`, `ClientOp.exec_untouched` : most steps of a call leave the life of the sessions, their holders
  and their contents alone;
* `Retained` : the session a call holds is alive and counts the call among its holders;
* `attended_of_reach` : this is so in every reachable state, together with `Alive`.
-/

namespace Radrpc
open Conc

/-- Nothing has happened to the sessions that a holder could notice. -/
structure Client.Untouched (s s' : Client) : Prop where
  session : s'.session = s.session
  exit : s'.exit = s.exit
  life : ∀ k, (s'.sessions k).life = (s.sessions k).life
  holders : ∀ k, (s'.sessions k).holders = (s.sessions k).holders
  sess : ∀ k, (s'.sessions k).sess = (s.sessions k).sess

theorem Client.Untouched.refl (s : Client) : s.Untouched s := ⟨rfl, rfl, fun _ => rfl, fun _ => rfl, fun _ => rfl⟩

theorem Client.Untouched.modify (s : Client) (k : Nat) {f : SessObj → SessObj} (h1 : ∀ x, (f x).life = x.life)
    (h2 : ∀ x, (f x).holders = x.holders) (h3 : ∀ x, (f x).sess = x.sess) : s.Untouched (s.modify k f) := by
  refine ⟨rfl, rfl, fun k' => ?_, fun k' => ?_, fun k' => ?_⟩
  · rw [sessions_modify]
    split
    · rename_i hk
      rw [h1, hk]
    · rfl
  · rw [sessions_modify]
    split
    · rename_i hk
      rw [h2, hk]
    · rfl
  · rw [sessions_modify]
    split
    · rename_i hk
      rw [h3, hk]
    · rfl

/-- The steps of a call that concern the sessions it holds, or the end of the client. -/
def ClientOp.touches : ClientOp → Bool
  | .setExit => true
  | .lockSession => true
  | .releaseSession _ => true
  | .sess _ _ => true
  | .newSession => true
  | .postClose _ => true
  | _ => false

theorem ClientOp.exec_untouched {cfg : ClientConfig} {t : Nat} {o : ClientOp} {i : Clock} {r : o.Res} {s s' : Client}
    {v : ClientView} (hs : o.exec cfg t i s = some (r, s')) (ho : o.touches = false) :
    s.Untouched s' ∧ (v.next o r).held = v.held ∧ (v.next o r).sess = v.sess ∧ (v.next o r).got = v.got := by
  have hrefl := Client.Untouched.refl s
  cases o with
  | setExit => cases ho
  | lockSession => cases ho
  | releaseSession k => cases ho
  | sess k o => cases ho
  | newSession => cases ho
  | postClose k => cases ho
  | lockShared | lockExcl =>
    simp only [exec] at hs
    split at hs
    · cases hs
      exact ⟨⟨rfl, rfl, fun _ => rfl, fun _ => rfl, fun _ => rfl⟩, rfl, rfl, rfl⟩
    · cases hs
  | testExpired =>
    cases hs
    refine ⟨⟨rfl, rfl, fun _ => rfl, fun _ => rfl, fun _ => rfl⟩, ?_⟩
    cases s.expired <;> exact ⟨rfl, rfl, rfl⟩
  | joinWorker | joinAtExit =>
    simp only [exec] at hs
    split at hs
    · cases hs
    · cases hs
      exact ⟨⟨rfl, rfl, fun _ => rfl, fun _ => rfl, fun _ => rfl⟩, rfl, rfl, rfl⟩
  | beginRun k =>
    simp only [exec] at hs
    split at hs
    · cases hs
      exact ⟨.modify s k (fun _ => rfl) (fun _ => rfl) fun _ => rfl, rfl, rfl, rfl⟩
    · cases hs
      exact ⟨.modify s k (fun _ => rfl) (fun _ => rfl) fun _ => rfl, rfl, rfl, rfl⟩
  | waitRun k =>
    simp only [exec] at hs
    split at hs
    · cases hs
    · cases hs
      exact ⟨.modify s k (fun _ => rfl) (fun _ => rfl) fun _ => rfl, rfl, rfl, rfl⟩
  | waitDestruction =>
    simp only [exec] at hs
    split at hs
    · cases hs
      exact ⟨hrefl, rfl, rfl, rfl⟩
    · split at hs
      · cases hs
        exact ⟨hrefl, rfl, rfl, rfl⟩
      · cases hs
  | beginClose k =>
    simp only [exec] at hs
    split at hs
    · cases hs
      exact ⟨hrefl, rfl, rfl, rfl⟩
    · cases hs
      exact ⟨.modify s k (fun _ => rfl) (fun _ => rfl) fun _ => rfl, rfl, rfl, rfl⟩
  | waitPosted k =>
    simp only [exec] at hs
    split at hs
    · cases hs
      exact ⟨hrefl, rfl, rfl, rfl⟩
    · split at hs
      · cases hs
        exact ⟨hrefl, rfl, rfl, rfl⟩
      · cases hs
  | finishIo =>
    simp only [exec] at hs
    split at hs
    · cases hs
    · cases hs
      exact ⟨⟨rfl, rfl, fun _ => rfl, fun _ => rfl, fun _ => rfl⟩, rfl, rfl, rfl⟩
  | bindFunc id handler =>
    simp only [exec] at hs
    split at hs
    · cases hs
      exact ⟨hrefl, rfl, rfl, rfl⟩
    · split at hs
      · cases hs
        exact ⟨hrefl, rfl, rfl, rfl⟩
      · cases hs
        exact ⟨⟨rfl, rfl, fun _ => rfl, fun _ => rfl, fun _ => rfl⟩, rfl, rfl, rfl⟩
  | _ =>
    cases hs
    exact ⟨⟨rfl, rfl, fun _ => rfl, fun _ => rfl, fun _ => rfl⟩, rfl, rfl, rfl⟩

/-- The session that a call holds is alive, and the call is one of its holders. -/
def Retained (s : Client) (views : Nat → Option ClientView) : Prop :=
  ∀ t v k, views t = some v → v.held = some k → (s.sessions k).life = .alive ∧ t ∈ (s.sessions k).holders

namespace Retained

variable {s s' : Client} {views : Nat → Option ClientView}

theorem same (h : Retained s views) (hl : ∀ k, (s.sessions k).life = .alive → (s.sessions k).holders ≠ [] →
    (s'.sessions k).life = .alive ∧ (s'.sessions k).holders = (s.sessions k).holders) : Retained s' views := by
  intro t v k hv hk
  obtain ⟨halive, hmem⟩ := h t v k hv hk
  obtain ⟨halive', heq⟩ := hl k halive (List.ne_nil_of_mem hmem)
  exact ⟨halive', heq ▸ hmem⟩

theorem view (h : Retained s views) {t : Nat} {w : ClientView}
    (hw : ∀ k, w.held = some k → (s.sessions k).life = .alive ∧ t ∈ (s.sessions k).holders) :
    Retained s (Function.update views t (some w)) := by
  intro t' v' k hv' hk
  rcases view_of_update hv' with ⟨rfl, rfl⟩ | ⟨-, hv'⟩
  · exact hw k hk
  · exact h t' v' k hv' hk

theorem lockSession (h : Retained s views) {t k : Nat} {w : ClientView} (hk : (s.sessions k).life = .alive)
    (hw : w.held = some k) : Retained (s.modify k fun x => { x with holders := t :: x.holders })
      (Function.update views t (some w)) := by
  intro t' v' k' hv' hk'
  rw [Client.sessions_modify]
  rcases view_of_update hv' with ⟨rfl, rfl⟩ | ⟨-, hv'⟩
  · rw [hw] at hk'
    cases hk'
    rw [if_pos rfl]
    exact ⟨hk, List.mem_cons_self⟩
  · obtain ⟨halive, hmem⟩ := h t' v' k' hv' hk'
    split
    · rename_i he
      subst he
      exact ⟨halive, List.mem_cons_of_mem _ hmem⟩
    · exact ⟨halive, hmem⟩

theorem releaseSession (h : Retained s views) {t k : Nat} {w : ClientView} (hw : w.held = none) :
    Retained (s.modify k fun x => { x with holders := x.holders.erase t }) (Function.update views t (some w)) := by
  intro t' v' k' hv' hk'
  rw [Client.sessions_modify]
  rcases view_of_update hv' with ⟨rfl, rfl⟩ | ⟨hne, hv'⟩
  · rw [hw] at hk'
    cases hk'
  · obtain ⟨halive, hmem⟩ := h t' v' k' hv' hk'
    split
    · rename_i he
      subst he
      exact ⟨halive, (List.mem_erase_of_ne hne).mpr hmem⟩
    · exact ⟨halive, hmem⟩

theorem newSession (h : Retained s views) (hk : Kept s views) {t : Nat} {w : ClientView} {x : SessObj}
    (hx : x.life = .alive ∧ t ∈ x.holders) (hw : w.held = some s.sessionCount) :
    Retained { s.modify s.sessionCount fun _ => x with
      session := some s.sessionCount, sessionCount := s.sessionCount + 1 } (Function.update views t (some w)) := by
  intro t' v' k' hv' hk'
  show ((s.modify s.sessionCount fun _ => x).sessions k').life = .alive ∧
    t' ∈ ((s.modify s.sessionCount fun _ => x).sessions k').holders
  rw [Client.sessions_modify]
  rcases view_of_update hv' with ⟨rfl, rfl⟩ | ⟨-, hv'⟩
  · rw [hw] at hk'
    cases hk'
    rw [if_pos rfl]
    exact hx
  · obtain ⟨halive, hmem⟩ := h t' v' k' hv' hk'
    rw [if_neg]
    · exact ⟨halive, hmem⟩
    · rintro rfl
      rw [hk.unborn _ (Nat.le_refl _)] at halive
      cases halive

theorem exec (h : Retained s views) (hk : Kept s views) {cfg : ClientConfig} {t : Nat} {o : ClientOp} {i : Clock}
    {r : o.Res} {v : ClientView} (hv : views t = some v) (hs : o.exec cfg t i s = some (r, s')) :
    Retained s' (Function.update views t (some (v.next o r))) := by
  by_cases ho : o.touches = false
  · obtain ⟨hu, hheld, -⟩ := ClientOp.exec_untouched (v := v) hs ho
    have h' : Retained s' views := h.same fun k halive _ => ⟨(hu.life k).trans halive, hu.holders k⟩
    exact h'.view fun k hk => h' t v k hv (hheld ▸ hk)
  have hmod : ∀ {w : ClientView} k f, (∀ x, (f x).life = x.life) → (∀ x, (f x).holders = x.holders) →
      w.held = v.held → Retained (s.modify k f) (Function.update views t (some w)) := by
    intro w k f h1 h2 hw
    have h' : Retained (s.modify k f) views := by
      apply h.same
      intro k' halive _
      rw [Client.sessions_modify]
      split
      · rename_i he
        subst he
        exact ⟨(h1 _).trans halive, h2 _⟩
      · exact ⟨halive, rfl⟩
    exact h'.view fun k' hk' => h' t v k' hv (hw ▸ hk')
  cases o with
  | setExit =>
    cases hs
    have h' : Retained { s with exit := true } views := h.same fun k halive _ => ⟨halive, rfl⟩
    exact h'.view fun k hk => h' t v k hv hk
  | lockSession =>
    simp only [ClientOp.exec] at hs
    split at hs
    · cases hs
      exact h.view fun k hk => h t v k hv hk
    · split at hs
      · rename_i k _ hlock
        cases hs
        exact h.lockSession (of_decide_eq_true (Bool.and_eq_true_iff.mp hlock).1) rfl
      · cases hs
        exact h.view fun k hk => h t v k hv hk
  | releaseSession k =>
    cases hs
    exact h.releaseSession rfl
  | sess k o =>
    obtain ⟨⟨r', x⟩, -, he⟩ := Option.map_eq_some_iff.mp hs
    cases he
    exact hmod k _ (fun _ => rfl) (fun _ => rfl) rfl
  | newSession =>
    cases hs
    exact h.newSession hk ⟨rfl, List.mem_singleton_self t⟩ rfl
  | postClose k =>
    cases hs
    exact hmod k _ (fun _ => rfl) (fun _ => rfl) rfl
  | _ => exact absurd rfl ho

theorem env (h : Retained s views) {cfg : ClientConfig} {e : ClientEnv} (hs : s.step cfg e = some s') :
    Retained s' views := by
  have hmod : ∀ k f, (∀ x, (f x).holders = x.holders) →
      ((s.sessions k).life = .alive → (s.sessions k).holders ≠ [] → (f (s.sessions k)).life = .alive) →
      Retained (s.modify k f) views := by
    intro k f h1 h2
    apply h.same
    intro k' halive hne
    rw [Client.sessions_modify]
    split
    · rename_i he
      subst he
      exact ⟨h2 halive hne, h1 _⟩
    · exact ⟨halive, rfl⟩
  cases Client.moves_of_step hs with
  | handled _ k f hf => exact hmod k f hf.holders fun halive _ => (hf.life _).trans halive
  | session k e sess => exact hmod k _ (fun _ => rfl) fun halive _ => halive
  | dropPosted k => exact hmod k _ (fun _ => rfl) fun halive _ => halive
  | delete k _ hpin =>
    refine hmod k _ (fun _ => rfl) fun _ hne => absurd ?_ hne
    simp only [SessObj.pinned, Bool.or_eq_false_iff, Bool.not_eq_false'] at hpin
    exact List.isEmpty_iff.mp hpin.2
  | onSessionDelete k hk =>
    have h' : Retained (s.modify k fun x => { x with life := .gone }) views := by
      refine hmod k _ (fun _ => rfl) fun halive _ => ?_
      rw [hk] at halive
      cases halive
    exact h'.same fun k halive _ => ⟨halive, rfl⟩
  | worker _ worker stopped => exact h.same fun k halive _ => ⟨halive, rfl⟩

end Retained

/-- The invariant of a client, with the holders of its session. -/
structure Attended (s : Client) (views : Nat → Option ClientView) : Prop where
  alive : Alive s views
  retained : Retained s views

namespace Attended

variable {s s' : Client} {views : Nat → Option ClientView} {cfg : ClientConfig}

theorem new (o : Words.ByteOrder) : Attended (.new o) fun _ => none := ⟨.new o, fun _ _ _ h => (by cases h)⟩

theorem call (h : Attended s views) {t : Nat} (ht : views t = none) (c : ClientCall) :
    Attended s (Function.update views t (some (.first c))) :=
  ⟨h.alive.call ht c, h.retained.view fun _ hk => (by cases hk)⟩

theorem exec (h : Attended s views) {t : Nat} {o : ClientOp} {i : Clock} {r : o.Res} {v : ClientView}
    (hv : views t = some v) (hpre : v.Allows o) (hs : o.exec cfg t i s = some (r, s')) :
    Attended s' (Function.update views t (some (v.next o r))) :=
  ⟨h.alive.exec hv hpre hs, h.retained.exec h.alive.kept hv hs⟩

theorem env (h : Attended s views) {e : ClientEnv} (hs : s.step cfg e = some s') : Attended s' views :=
  ⟨h.alive.env hs, h.retained.env hs⟩

theorem current (h : Attended s views) {t k : Nat} {v : ClientView} (hv : views t = some v) (hk : v.held = some k) :
    s.session = some k :=
  h.alive.kept.current k (.inl (h.retained t v k hv hk).1)

end Attended

theorem attended_of_reach {cfg : ClientConfig} {p : ClientPool}
    (hp : (clientMachine cfg).Reach Machine.Free (.new cfg.order) p) :
    ∃ views, Attended p.shared views ∧
      Machine.Linked clientDiscipline (fun _ c r v => v.call = c ∧ v.Returns r) p views := by
  refine Machine.sound (fun _ c => .first c) (.new cfg.order) (fun _ c => clientCall_ok cfg c) ?_ ?_ ?_ hp
  · exact fun p views t c _ _ hinv _ ht => hinv.call ht c
  · exact fun p views t i o v r s' _ _ hinv _ _ hv hpre hex => hinv.exec hv hpre hex
  · exact fun p views e s' _ _ hinv _ he => hinv.env he

end Radrpc
