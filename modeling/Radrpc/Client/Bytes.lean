import Radrpc.Client.Owners
import Radrpc.Client.Resolved

/-!
# The bytes of a caller

A message refers to the bytes of the call that posted it. A call that returns is done with its message: the promise
has a value, or the call has waited for the end of every session.

* `SessObj.Sound`, `SessObj.Evolves` : what a step may do to a session object and to the messages in it;
* `ClientOp.exec_evolves`, `Client.step_evolves` : the steps of the calls and of the io thread do no more;
* `Covered` : a message of a call in a live session has a resolved promise, or the call still waits for it, or has to
  wait for the end of the session;
* `bytes_unused` : what is left of the messages of a call that has returned;
* `bytes_queued` : its message can still be in the queue, when `on_write` has resolved the promise and not dropped it.
-/

namespace Radrpc
open Std Conc

/-! ## The messages of a session -/

namespace ClientSession

variable {s s' : ClientSession} {m : DataSend}

theorem unwritten_of_step {funcs : BroadcastFuncs} {e : ClientEvent} (hs : s.step funcs e = some s')
    (hm : m ∈ s'.unwritten) : m ∈ s.unwritten := by
  have hrest : ∀ {hd rest}, s.posted = hd :: rest →
      m ∈ s.queue.entries ++ rest.filterMap Posted.message → m ∈ s.unwritten := by
    intro hd rest hp hm
    rw [unwritten, hp]
    rcases List.mem_append.mp hm with hm | hm
    · exact List.mem_append_left _ hm
    · obtain ⟨h, hh, hmsg⟩ := List.mem_filterMap.mp hm
      exact List.mem_append_right _ (List.mem_filterMap.mpr ⟨h, List.mem_cons_of_mem _ hh, hmsg⟩)
  cases moves_of_step hs with
  | handleSend m' rest queue writing accepted started _ hp he =>
    rw [← he] at hm
    have hsub := (Resolved.handleSend_unwritten { s with posted := rest } m').subset hm
    rwa [unwritten, hp]
  | handlePing rest ping pings _ hp => exact hrest hp hm
  | closeSession rest close closing _ hp => exact hrest hp hm
  | postClose => simpa [unwritten, Posted.message] using hm
  | popping =>
    rcases List.mem_append.mp hm with hm | hm
    · exact List.mem_append_left _ (List.mem_of_mem_tail hm)
    · exact List.mem_append_right _ hm
  | cleared => exact List.mem_append_right _ hm
  | _ => exact hm

theorem unwritten_of_exec {t : Nat} {o : SessOp} {i : Clock} {r : o.Res} (hs : o.exec t i s = some (r, s'))
    (hm : m ∈ s'.unwritten) : m ∈ s.unwritten ∨ ∃ callId resultId body, o = .post callId resultId body ∧
      m = ⟨s.promiseCount, t, body, .new callId resultId⟩ := by
  have hknown : ∀ {s : ClientSession}, m ∈ s.unwritten ↔ m ∈ s.queue.entries ∨ .handleSend m ∈ s.posted := by
    intro s
    rw [unwritten, List.mem_append, List.mem_filterMap]
    refine or_congr_right ⟨?_, fun h => ⟨_, h, rfl⟩⟩
    rintro ⟨h, hh, hmsg⟩
    exact Posted.message_eq_some hmsg ▸ hh
  rcases SessOp.exec_cases hs with ⟨c, rfl⟩ | ⟨callId, resultId, body, ho, rfl⟩ | ⟨_, -, -, rfl⟩ | ⟨_, ps, rfl, hps⟩
  · exact .inl hm
  · rcases hknown.mp hm with hm | hm
    · exact .inl (hknown.mpr (.inl hm))
    · rcases List.mem_append.mp hm with hm | hm
      · exact .inl (hknown.mpr (.inr hm))
      · exact .inr ⟨callId, resultId, body, ho, by simpa using hm⟩
  · exact .inl hm
  · rcases hknown.mp hm with hm | hm
    · exact .inl (hknown.mpr (.inl hm))
    · exact .inl (hknown.mpr (.inr ((List.mem_append.mp hm).resolve_right (hps m))))

theorem ready_step {funcs : BroadcastFuncs} {e : ClientEvent} (hs : s.step funcs e = some s') {cb : PromiseRef}
    {b : Bool} (h : s.promises cb = .ready b) : s'.promises cb = .ready b := by
  have hres : ∀ m' b', resolve s.promises m' b' cb = .ready b := by
    intro m' b'
    rw [resolve]
    by_cases hcb : cb = m'.callback
    · subst hcb
      rw [Function.update_self, h]
      rfl
    · rwa [Function.update_of_ne hcb]
  obtain ⟨-, -, hp | ⟨_, _, m', -, -, -, -, -, hp⟩ | ⟨_, m', _, -, -, hp⟩⟩ := promises_of_step hs
  · rwa [hp]
  · rw [hp]
    exact hres m' true
  · rw [hp]
    exact hres m' false

end ClientSession

/-! ## What becomes of a session object -/

/-- A session object in good order: no write is outstanding when its destructor has run. -/
structure SessObj.Sound (x : SessObj) : Prop where
  resolved : Resolved x.sess
  quiet : x.life ≠ .alive → x.sess.writing = []

/-- A step of a session object: it stays in good order, gets no messages but those in `New`, and no promise of a
message loses its value. -/
structure SessObj.Evolves (New : DataSend → Prop) (x x' : SessObj) : Prop where
  sound : x'.Sound
  unwritten : ∀ m ∈ x'.sess.unwritten, m ∈ x.sess.unwritten ∨ New m
  kept : x'.life = .alive → ∀ m ∈ x'.sess.unwritten, m ∈ x.sess.unwritten → x.life = .alive ∧
    ∀ b, x.sess.promises m.callback = .ready b → x'.sess.promises m.callback = .ready b

namespace SessObj.Evolves

variable {New New' : DataSend → Prop} {x x' : SessObj}

theorem mono (h : Evolves New x x') (hn : ∀ m, New m → New' m) : Evolves New' x x' :=
  ⟨h.sound, fun m hm => (h.unwritten m hm).imp_right (hn m), h.kept⟩

theorem of_eq (h : x.Sound) (hl : x'.life = x.life) (hs : x'.sess = x.sess) : Evolves New x x' := by
  refine ⟨⟨hs ▸ h.resolved, ?_⟩, fun m hm => .inl (hs ▸ hm), fun halive m hm _ => ⟨hl ▸ halive, fun b hb => ?_⟩⟩
  · rw [hl, hs]
    exact h.quiet
  · rwa [hs]

theorem inside {sess : ClientSession} (hl : x'.life = x.life) (hs : x'.sess = sess) (hr : Resolved sess)
    (hw : x.life ≠ .alive → sess.writing = []) (hu : ∀ m ∈ sess.unwritten, m ∈ x.sess.unwritten ∨ New m)
    (hp : ∀ m ∈ x.sess.unwritten, ∀ b, x.sess.promises m.callback = .ready b → sess.promises m.callback = .ready b) :
    Evolves New x x' := by
  subst hs
  exact ⟨⟨hr, hl ▸ hw⟩, hu, fun halive m _ hm => ⟨hl ▸ halive, hp m hm⟩⟩

theorem read (h : x.Sound) (hl : x'.life = x.life) (hs : x'.sess = x.sess.read) : Evolves New x x' := by
  have hpump : x.sess.read.PumpInv :=
    ⟨h.resolved.pump.maxEntries, h.resolved.pump.inv, h.resolved.pump.busy, h.resolved.pump.popping⟩
  exact inside hl hs (h.resolved.silent hpump rfl rfl rfl rfl rfl) h.quiet (fun m hm => .inl hm) fun _ _ _ hb => hb

theorem step (h : x.Sound) (halive : x.life = .alive) {funcs : BroadcastFuncs} {e : ClientEvent} {sess : ClientSession}
    (he : x.sess.step funcs e = some sess) (hl : x'.life = x.life) (hs : x'.sess = sess) : Evolves New x x' :=
  inside hl hs (h.resolved.step he) (fun hne => absurd halive hne)
    (fun _ hm => .inl (ClientSession.unwritten_of_step he hm)) fun _ _ _ hb => ClientSession.ready_step he hb

theorem exec (h : x.Sound) (halive : x.life = .alive) {t : Nat} {o : SessOp} {i : Clock} {r : o.Res}
    {sess : ClientSession} (he : o.exec t i x.sess = some (r, sess)) (hl : x'.life = x.life) (hs : x'.sess = sess) :
    Evolves (fun m => ∃ callId resultId body, o = .post callId resultId body ∧
      m = ⟨x.sess.promiseCount, t, body, .new callId resultId⟩) x x' :=
  inside hl hs (h.resolved.exec he) (fun hne => absurd halive hne)
    (fun _ hm => ClientSession.unwritten_of_exec he hm)
    fun m hm _ hb => ClientSession.ready_exec he (h.resolved.fresh m hm) hb

theorem post (h : x.Sound) {posted : List Posted} (hl : x'.life = x.life)
    (hs : x'.sess = { x.sess with posted := posted })
    (hu : (posted.filterMap Posted.message).Sublist (x.sess.posted.filterMap Posted.message)) : Evolves New x x' := by
  have hsub : (ClientSession.unwritten { x.sess with posted := posted }).Sublist x.sess.unwritten :=
    (List.Sublist.refl _).append hu
  have hpump : ClientSession.PumpInv { x.sess with posted := posted } :=
    ⟨h.resolved.pump.maxEntries, h.resolved.pump.inv, h.resolved.pump.busy, h.resolved.pump.popping⟩
  refine inside hl hs ?_ h.quiet (fun m hm => .inl (hsub.subset hm)) fun _ _ _ hb => hb
  refine ⟨hpump, fun m hm => h.resolved.fresh m (hsub.subset hm), (hsub.map _).nodup h.resolved.nodup,
    h.resolved.clearing, fun m hm b hb => ?_⟩
  cases h.resolved.ready m (hsub.subset hm) b hb with
  | popping h1 h2 => exact .popping h1 h2
  | clearing rest h1 h2 => exact .clearing rest h1 h2

theorem leave (h : x.Sound) (hl : x'.life ≠ .alive) (hs : x'.sess = x.sess) (hw : x.sess.writing = []) :
    Evolves New x x' := by
  refine ⟨⟨hs ▸ h.resolved, fun _ => ?_⟩, fun m hm => .inl (hs ▸ hm), fun halive => absurd halive hl⟩
  rwa [hs]

theorem create {o : Words.ByteOrder} (hs : x'.sess = { order := o }) : Evolves New x x' := by
  have hr : Resolved { order := o } :=
    ⟨⟨rfl, Pump.State.Inv.empty _, fun h => (by cases h), fun h => (by cases h)⟩, fun _ h => (by cases h), .nil,
      fun _ h => (by cases h), fun _ h => (by cases h)⟩
  refine ⟨⟨hs ▸ hr, fun _ => ?_⟩, fun m hm => ?_, fun _ m hm => ?_⟩
  · rw [hs]
  · rw [hs] at hm
    cases hm
  · rw [hs] at hm
    cases hm

end SessObj.Evolves

/-- The message that a step of the call `t` posts to session `k`. -/
def ClientOp.Posts (t : Nat) (s : Client) (k : Nat) (o : ClientOp) (m : DataSend) : Prop :=
  ∃ callId resultId body, o = .sess k (.post callId resultId body) ∧
    m = ⟨(s.sessions k).sess.promiseCount, t, body, .new callId resultId⟩

theorem Client.evolves_modify {s : Client} {New : DataSend → Prop} (h : ∀ k, (s.sessions k).Sound) (k' : Nat)
    {f : SessObj → SessObj} {k : Nat} (hf : k = k' → (s.sessions k).Evolves New (f (s.sessions k))) :
    (s.sessions k).Evolves New ((s.modify k' f).sessions k) := by
  rw [sessions_modify]
  split
  · rename_i hk
    subst hk
    exact hf rfl
  · exact .of_eq (h k) rfl rfl

theorem ClientOp.exec_evolves {cfg : ClientConfig} {t : Nat} {o : ClientOp} {i : Clock} {r : o.Res} {s s' : Client}
    (h : ∀ k, (s.sessions k).Sound) (halive : ∀ k o', o = .sess k o' → (s.sessions k).life = .alive)
    (hs : o.exec cfg t i s = some (r, s')) (k : Nat) : (s.sessions k).Evolves (o.Posts t s k) (s'.sessions k) := by
  by_cases ho : o.touches = false
  · obtain ⟨hu, -, -⟩ := exec_untouched (v := .first .connect) hs ho
    exact .of_eq (h k) (hu.life k) (hu.sess k)
  cases o with
  | setExit =>
    cases hs
    exact .of_eq (h k) rfl rfl
  | lockSession =>
    simp only [exec] at hs
    split at hs
    · cases hs
      exact .of_eq (h k) rfl rfl
    · split at hs
      · cases hs
        exact Client.evolves_modify h _ fun _ => .of_eq (h k) rfl rfl
      · cases hs
        exact .of_eq (h k) rfl rfl
  | releaseSession k' =>
    cases hs
    exact Client.evolves_modify h k' fun _ => .of_eq (h k) rfl rfl
  | sess k' o =>
    obtain ⟨⟨r', x⟩, hx, he⟩ := Option.map_eq_some_iff.mp hs
    cases he
    apply Client.evolves_modify h k'
    intro hk
    subst hk
    have hev : (s.sessions k).Evolves _ { s.sessions k with sess := x } := .exec (h k) (halive k o rfl) hx rfl rfl
    apply hev.mono
    intro m hm
    obtain ⟨callId, resultId, body, rfl, hm⟩ := hm
    exact ⟨callId, resultId, body, rfl, hm⟩
  | newSession =>
    cases hs
    have hev : (s.sessions k).Evolves (ClientOp.newSession.Posts t s k) ((s.modify s.sessionCount fun _ =>
        { sess := { order := cfg.order }, life := .alive, holders := [t], table := s.boundFuncs }).sessions k) :=
      Client.evolves_modify h s.sessionCount fun _ => .create rfl
    exact hev
  | postClose k' =>
    cases hs
    apply Client.evolves_modify h k'
    intro hk
    subst hk
    exact .post (h k) rfl rfl (by simp [Posted.message])
  | _ => exact absurd rfl ho

theorem Client.step_evolves {cfg : ClientConfig} {s s' : Client} {e : ClientEnv} (h : ∀ k, (s.sessions k).Sound)
    (hs : s.step cfg e = some s') (k : Nat) : (s.sessions k).Evolves (fun _ => False) (s'.sessions k) := by
  cases moves_of_step hs with
  | handled _ k' f hf =>
    refine evolves_modify h k' fun _ => ?_
    rcases hf.sess (s.sessions k) with hsess | hsess
    · exact .of_eq (h k) (hf.life _) hsess
    · exact .read (h k) (hf.life _) hsess
  | session k' e sess halive hstep =>
    apply evolves_modify h k'
    intro hk
    subst hk
    exact .step (h k) halive hstep rfl rfl
  | dropPosted k' =>
    apply evolves_modify h k'
    intro hk
    exact .post (h k) rfl rfl ((List.tail_sublist _).filterMap _)
  | delete k' _ hpin =>
    apply evolves_modify h k'
    intro hk
    subst hk
    refine .leave (h k) (fun hl => (by cases hl)) rfl ?_
    simp only [SessObj.pinned, ClientSession.pending, Bool.or_eq_false_iff, Bool.not_eq_false'] at hpin
    exact List.isEmpty_iff.mp hpin.1.1.2.1.1.1.1
  | onSessionDelete k' hk' =>
    refine evolves_modify (s := s) (f := fun x => { x with life := .gone }) h k' fun hk => ?_
    subst hk
    exact .leave (h k) (fun hl => (by cases hl)) rfl ((h k).quiet (by rw [hk']; simp))
  | worker _ worker stopped => exact .of_eq (h k) rfl rfl

/-! ## The calls -/

/-- The promise of the message for which a call waits, or for which it has waited in vain. -/
def SessPhase.unsettled : SessPhase → Option PromiseRef
  | .posted _ callback => some callback
  | .unsent _ callback => some callback
  | _ => none

theorem SessPhase.unsettled_of_settled {phase : SessPhase} (h : phase.settled = true) : phase.unsettled = none := by
  cases phase with
  | posted id callback => cases h
  | unsent id callback => cases h
  | _ => rfl

theorem SessPhase.unsettled_next {call : SessCall} {phase : SessPhase} {t : Nat} {o : SessOp} {i : Clock} {r : o.Res}
    {s s' : ClientSession} {cb : PromiseRef} (hpre : Allows call phase o) (hs : o.exec t i s = some (r, s'))
    (h : phase.unsettled = some cb) : (phase.next o r).unsettled = some cb ∨ ∃ b, s'.promises cb = .ready b := by
  cases hpre with
  | waitWritten id callback =>
    cases h
    simp only [SessOp.exec] at hs
    split at hs
    · rename_i b hb
      cases hs
      exact .inr ⟨b, hb⟩
    · split at hs
      · cases hs
        exact .inl rfl
      · cases hs
  | _ => cases h

theorem SessPhase.unsettled_post {call : SessCall} {phase : SessPhase} {callId : UInt32} {resultId : UInt64}
    {body : Bytes} (hpre : Allows call phase (.post callId resultId body)) (r : PromiseRef) :
    (phase.next (.post callId resultId body) r).unsettled = some r := by
  cases hpre <;> rfl

namespace ClientView

variable {cfg : ClientConfig} {t : Nat} {o : ClientOp} {i : Clock} {r : o.Res} {s s' : Client} {v : ClientView}

theorem settled_next (hs : o.exec cfg t i s = some (r, s')) (hw : (v.next o r).settled = true) :
    (v.settled = true ∧ (∀ k, o = .releaseSession k → v.sess.phase.settled = true)) ∨
      (o = .waitDestruction ∧ s.expired = true ∧ s' = s) := by
  cases o with
  | releaseSession k =>
    obtain ⟨h1, h2⟩ := Bool.and_eq_true_iff.mp hw
    exact .inl ⟨h1, fun _ _ => h2⟩
  | waitDestruction =>
    simp only [ClientOp.exec] at hs
    split at hs
    · rename_i he
      cases hs
      exact .inr ⟨rfl, he, rfl⟩
    · split at hs
      · cases hs
        exact .inl ⟨hw, fun _ hk => (by cases hk)⟩
      · cases hs
  | testExpired =>
    refine .inl ⟨?_, fun _ hk => (by cases hk)⟩
    cases r <;> exact hw
  | beginRun k =>
    refine .inl ⟨?_, fun _ hk => (by cases hk)⟩
    cases r <;> exact hw
  | lockSession =>
    refine .inl ⟨?_, fun _ hk => (by cases hk)⟩
    cases r <;> exact hw
  | _ => exact .inl ⟨hw, fun _ hk => (by cases hk)⟩

theorem unsettled_next (hpre : v.Allows o) (hs : o.exec cfg t i s = some (r, s')) {k : Nat} {cb : PromiseRef}
    (hr : ∀ k, o = .releaseSession k → v.sess.phase.settled = true) (hk : v.held = some k)
    (hu : v.sess.phase.unsettled = some cb) :
    ((v.next o r).held = some k ∧ (v.next o r).sess.phase.unsettled = some cb) ∨
      ∃ b, (s'.sessions k).sess.promises cb = .ready b := by
  by_cases ho : o.touches = false
  · obtain ⟨-, hheld, hsess, -⟩ := ClientOp.exec_untouched (v := v) hs ho
    exact .inl ⟨hheld.trans hk, by rw [hsess]; exact hu⟩
  cases o with
  | setExit => exact .inl ⟨hk, hu⟩
  | postClose k' => exact .inl ⟨hk, hu⟩
  | lockSession =>
    rw [hpre.2.1] at hk
    cases hk
  | newSession =>
    rw [hpre.2.1] at hk
    cases hk
  | releaseSession k' =>
    rw [SessPhase.unsettled_of_settled (hr k' rfl)] at hu
    cases hu
  | sess k' o =>
    obtain ⟨⟨r', x⟩, hx, he⟩ := Option.map_eq_some_iff.mp hs
    cases he
    obtain rfl : k = k' := Option.some.inj (hk.symm.trans hpre.2.1)
    rcases SessPhase.unsettled_next hpre.2.2.2.2 hx hu with hn | hn
    · exact .inl ⟨hk, hn⟩
    · refine .inr ?_
      rw [Client.sessions_modify, if_pos rfl]
      exact hn
  | _ => exact absurd rfl ho

theorem unsettled_posts (hpre : v.Allows o) (hs : o.exec cfg t i s = some (r, s')) {k : Nat} {m : DataSend}
    (hm : o.Posts t s k m) : (v.next o r).held = some k ∧ (v.next o r).sess.phase.unsettled = some m.callback := by
  obtain ⟨callId, resultId, body, rfl, rfl⟩ := hm
  cases hs
  exact ⟨hpre.2.1, SessPhase.unsettled_post hpre.2.2.2.2 _⟩

end ClientView

/-! ## Every message is somebody's -/

/-- Nobody destroys the client: it outlives the calls. -/
def Outlives (_ : ClientPool) : Act ClientCall Clock ClientEnv → Prop
  | .call _ c => c ≠ .destroy
  | _ => True

/-- The client is not exiting. -/
structure Staying (s : Client) (views : Nat → Option ClientView) : Prop where
  exit : s.exit = false
  exited : ∀ t v, views t = some v → v.exited = false
  calls : ∀ t v, views t = some v → v.call ≠ .destroy

/-- A message in a live session has a promise with a value, or the call it belongs to waits for it, or that call still
has to wait for the end of the session. -/
structure Covered (s : Client) (views : Nat → Option ClientView) : Prop where
  sound : ∀ k, (s.sessions k).Sound
  started : ∀ k, ∀ m ∈ (s.sessions k).sess.unwritten, views m.owner ≠ none
  covered : ∀ t v, views t = some v → v.settled = true → ∀ k, (s.sessions k).life = .alive →
    ∀ m ∈ (s.sessions k).sess.unwritten, m.owner = t →
      (∃ b, (s.sessions k).sess.promises m.callback = .ready b) ∨
        (v.held = some k ∧ v.sess.phase.unsettled = some m.callback)

namespace Staying

variable {s s' : Client} {views : Nat → Option ClientView}

theorem update (h : Staying s views) {t : Nat} {w : ClientView} (he : s'.exit = false) (hw : w.exited = false)
    (hc : w.call ≠ .destroy) : Staying s' (Function.update views t (some w)) := by
  refine ⟨he, fun t' v hv => ?_, fun t' v hv => ?_⟩
  · rcases view_of_update hv with ⟨-, rfl⟩ | ⟨-, hv⟩
    · exact hw
    · exact h.exited t' v hv
  · rcases view_of_update hv with ⟨-, rfl⟩ | ⟨-, hv⟩
    · exact hc
    · exact h.calls t' v hv

theorem exec (h : Staying s views) {cfg : ClientConfig} {t : Nat} {o : ClientOp} {i : Clock} {r : o.Res}
    {v : ClientView} (hv : views t = some v) (hpre : v.Allows o) (hs : o.exec cfg t i s = some (r, s')) :
    Staying s' (Function.update views t (some (v.next o r))) := by
  have hcall : (v.next o r).call = v.call := by
    unfold ClientView.next
    split <;> rfl
  have hexited : (v.next o r).exited = false := by
    cases o with
    | readExit =>
      cases hs
      show (v.exited || s.exit) = false
      rw [h.exited t v hv, h.exit]
      rfl
    | lockSession => cases r <;> exact h.exited t v hv
    | testExpired => cases r <;> exact h.exited t v hv
    | beginRun k => cases r <;> exact h.exited t v hv
    | waitDestruction => cases r <;> exact h.exited t v hv
    | _ => exact h.exited t v hv
  have hexit : s'.exit = s.exit := by
    by_cases ho : o.touches = false
    · exact (ClientOp.exec_untouched (v := v) hs ho).1.exit
    cases o with
    | setExit => exact absurd hpre.2 (h.calls t v hv)
    | lockSession =>
      simp only [ClientOp.exec] at hs
      split at hs
      · cases hs
        rfl
      · split at hs
        · cases hs
          rfl
        · cases hs
          rfl
    | sess k o =>
      obtain ⟨⟨r', x⟩, -, he⟩ := Option.map_eq_some_iff.mp hs
      cases he
      rfl
    | releaseSession k =>
      cases hs
      rfl
    | newSession =>
      cases hs
      rfl
    | postClose k =>
      cases hs
      rfl
    | _ => exact absurd rfl ho
  exact h.update (hexit.trans h.exit) hexited (hcall ▸ h.calls t v hv)

theorem env (h : Staying s views) {cfg : ClientConfig} {e : ClientEnv} (hs : s.step cfg e = some s') :
    Staying s' views := by
  have hexit : s'.exit = s.exit := by
    cases Client.moves_of_step hs <;> rfl
  exact ⟨hexit.trans h.exit, h.exited, h.calls⟩

end Staying

namespace Covered

variable {s s' : Client} {views : Nat → Option ClientView} {cfg : ClientConfig}

theorem new (o : Words.ByteOrder) : Covered (.new o) fun _ => none := by
  have hev : ∀ k, ((Client.new o).sessions k).Evolves (fun _ => False) ((Client.new o).sessions k) :=
    fun k => .create rfl
  exact ⟨fun k => (hev k).sound, fun _ m hm => (by cases hm), fun _ _ h => (by cases h)⟩

theorem call (h : Covered s views) {t : Nat} (ht : views t = none) (c : ClientCall) :
    Covered s (Function.update views t (some (.first c))) := by
  refine ⟨h.sound, fun k m hm => ?_, fun t' v hv hset k halive m hm ho => ?_⟩
  · by_cases hm' : m.owner = t
    · rw [hm', Function.update_self]
      simp
    · rw [Function.update_of_ne hm']
      exact h.started k m hm
  · rcases view_of_update hv with ⟨rfl, rfl⟩ | ⟨-, hv⟩
    · exact absurd (ho ▸ ht) (h.started k m hm)
    · exact h.covered t' v hv hset k halive m hm ho

theorem exec (h : Covered s views) (hinv : Attended s views) {t : Nat} {o : ClientOp} {i : Clock}
    {r : o.Res} {v : ClientView} (hv : views t = some v) (hpre : v.Allows o) (hs : o.exec cfg t i s = some (r, s')) :
    Covered s' (Function.update views t (some (v.next o r))) := by
  have hev := ClientOp.exec_evolves h.sound (fun k o' ho => by
    subst ho
    exact (hinv.retained t v k hv hpre.2.1).1) hs
  refine ⟨fun k => (hev k).sound, fun k m hm => ?_, fun t' w hw hset k halive m hm ho => ?_⟩
  · by_cases ht : m.owner = t
    · rw [ht, Function.update_self]
      simp
    · rw [Function.update_of_ne ht]
      rcases (hev k).unwritten m hm with hold | ⟨_, _, _, -, rfl⟩
      · exact h.started k m hold
      · exact absurd rfl ht
  · rcases view_of_update hw with ⟨rfl, rfl⟩ | ⟨hne, hw⟩
    · rcases (hev k).unwritten m hm with hold | hnew
      · obtain ⟨halive₀, hready⟩ := (hev k).kept halive m hm hold
        rcases ClientView.settled_next hs hset with ⟨hset₀, hrel⟩ | ⟨-, hexp, -⟩
        · rcases h.covered t' v hv hset₀ k halive₀ m hold ho with ⟨b, hb⟩ | ⟨hk, hu⟩
          · exact .inl ⟨b, hready b hb⟩
          · exact (ClientView.unsettled_next hpre hs hrel hk hu).symm
        · exact absurd (.inl halive₀) (hinv.alive.kept.expired hexp k)
      · exact .inr (ClientView.unsettled_posts hpre hs hnew)
    · rcases (hev k).unwritten m hm with hold | ⟨_, _, _, -, rfl⟩
      · obtain ⟨halive₀, hready⟩ := (hev k).kept halive m hm hold
        exact (h.covered t' w hw hset k halive₀ m hold ho).imp_left (Exists.imp hready)
      · exact absurd ho.symm hne

theorem env (h : Covered s views) {e : ClientEnv} (hs : s.step cfg e = some s') : Covered s' views := by
  have hev := Client.step_evolves h.sound hs
  have hold : ∀ k, ∀ m ∈ (s'.sessions k).sess.unwritten, m ∈ (s.sessions k).sess.unwritten :=
    fun k m hm => ((hev k).unwritten m hm).resolve_right id
  refine ⟨fun k => (hev k).sound, fun k m hm => h.started k m (hold k m hm), fun t v hv hset k halive m hm ho => ?_⟩
  obtain ⟨halive₀, hready⟩ := (hev k).kept halive m hm (hold k m hm)
  exact (h.covered t v hv hset k halive₀ m (hold k m hm) ho).imp_left (Exists.imp hready)

end Covered

/-- The invariant for the bytes of the callers. -/
structure Lent (s : Client) (views : Nat → Option ClientView) : Prop where
  attended : Attended s views
  staying : Staying s views
  covered : Covered s views

theorem lent_of_reach {cfg : ClientConfig} {p : ClientPool}
    (hp : (clientMachine cfg).Reach Outlives (.new cfg.order) p) :
    ∃ views, Lent p.shared views ∧
      Machine.Linked clientDiscipline (fun _ c r v => v.call = c ∧ v.Returns r) p views := by
  refine Machine.sound (fun _ c => .first c) ?_ (fun _ c => clientCall_ok cfg c) ?_ ?_ ?_ hp
  · exact ⟨.new cfg.order, ⟨rfl, fun _ _ h => (by cases h), fun _ _ h => (by cases h)⟩, .new cfg.order⟩
  · intro p views t c _ _ hinv hG ht
    exact ⟨hinv.attended.call ht c, hinv.staying.update hinv.staying.exit rfl hG, hinv.covered.call ht c⟩
  · intro p views t i o v r s' _ _ hinv _ _ hv hpre hex
    exact ⟨hinv.attended.exec hv hpre hex, hinv.staying.exec hv hpre hex, hinv.covered.exec hinv.attended hv hpre hex⟩
  · intro p views e s' _ _ hinv _ he
    exact ⟨hinv.attended.env he, hinv.staying.env he, hinv.covered.env he⟩

/-- A call of `send` or `send_recv` has returned, and did not throw. -/
def ClientRet.returnsBytes : ClientRet → Bool
  | .sent result => result.isSome
  | .received _ ending => decide (ending ≠ .threw)
  | _ => false

/-- **The bytes of a caller are not used after its return.** When a call of `send` or `send_recv` has returned normally,
no write of its message is outstanding, no posted `handle_send` with its message can run, and its message is in the
queue of a live session only while the `on_write` that has resolved its promise is about to drop it: for any number of
calls, as long as the client is not destroyed. -/
theorem bytes_unused {cfg : ClientConfig} {p : ClientPool}
    (hp : (clientMachine cfg).Reach Outlives (.new cfg.order) p) {t : Nat} {c : ClientCall} {ret : ClientRet}
    (hr : p.result t = some (c, ret)) (hret : ret.returnsBytes = true) (k : Nat) {m : DataSend} (hm : m.owner = t) :
    m ∉ (p.shared.sessions k).sess.writing ∧
    (.handleSend m ∈ (p.shared.sessions k).sess.posted → (p.shared.sessions k).lockable = false) ∧
    (m ∈ (p.shared.sessions k).sess.queue.entries → (p.shared.sessions k).life = .alive →
      (p.shared.sessions k).sess.Resolving m) := by
  obtain ⟨views, hinv, hl⟩ := lent_of_reach hp
  obtain ⟨v, hv, -, hok⟩ := hl.ok (Machine.result_eq_some hr)
  have hsafe : v.Safe ∧ v.held = none := by
    cases ret with
    | sent result => exact hok (Option.isSome_iff_ne_none.mp hret)
    | received result ending => exact hok.1 (of_decide_eq_true hret)
    | _ => cases hret
  have hset : v.settled = true := hsafe.1.resolve_right fun he => by
    rw [hinv.staying.exited t v hv] at he
    cases he
  have hsound := (hinv.covered.sound k).resolved
  have hready : (p.shared.sessions k).life = .alive → m ∈ (p.shared.sessions k).sess.unwritten →
      ∃ b, (p.shared.sessions k).sess.promises m.callback = .ready b := by
    intro halive hmem
    apply (hinv.covered.covered t v hv hset k halive m hmem hm).resolve_right
    intro hk
    rw [hsafe.2] at hk
    cases hk.1
  refine ⟨fun hw => ?_, fun hpost => ?_, fun hq halive => ?_⟩
  · by_cases halive : (p.shared.sessions k).life = .alive
    · obtain ⟨b, hb⟩ := hready halive (ClientSession.mem_unwritten_of_queued (hsound.queued_of_writing hw).1)
      exact hsound.not_ready_of_writing hw b hb
    · rw [(hinv.covered.sound k).quiet halive] at hw
      cases hw
  · by_cases halive : (p.shared.sessions k).life = .alive
    · obtain ⟨b, hb⟩ := hready halive (ClientSession.mem_unwritten_of_posted hpost)
      exact absurd hb (hsound.not_ready_of_posted hpost b)
    · rw [SessObj.lockable, decide_eq_false halive]
      rfl
  · have hmem := ClientSession.mem_unwritten_of_queued hq
    obtain ⟨b, hb⟩ := hready halive hmem
    exact hsound.ready m hmem b hb

def outlives (_ : ClientPool) : Act ClientCall Clock ClientEnv → Bool
  | .call _ c => decide (c ≠ .destroy)
  | _ => true

theorem outlives_sound (p : ClientPool) (a : Act ClientCall Clock ClientEnv) (h : outlives p a = true) :
    Outlives p a := by
  cases a with
  | call t c =>
    simp only [outlives, decide_eq_true_eq] at h
    exact h
  | op t i => trivial
  | env e => trivial

/-- The call 1 sends a message on session 0 and returns as soon as `on_write` has resolved its promise. -/
def promptRun : List (Act ClientCall Clock ClientEnv) :=
  List.flatten [
    connectRun 0 0, [.op 0 {}],
    [.call 1 (.send 7 [1])], List.replicate 4 (.op 1 {}),
    [.env (.session 0 .runPosted), .env (.leave 0), .env (.session 0 (.onWrite 0 false))],
    List.replicate 3 (.op 1 {})]

def promptMessage : DataSend := ⟨0, 1, [1], .new 7 0⟩

theorem bytes_unused_prompt : ∃ p : ClientPool,
    (clientMachine plainConfig).Reach Outlives (.new plainConfig.order) p ∧
      p.result 1 = some (.send 7 [1], .sent (some true)) ∧ promptMessage ∉ (p.shared.sessions 0).sess.writing := by
  have hrun : ((clientMachine plainConfig).run outlives (.initial (.new plainConfig.order)) promptRun).any
      (fun p => decide (p.result 1 = some (.send 7 [1], .sent (some true)))) = true := by
    decide +kernel
  obtain ⟨p, hp, hf⟩ := Machine.Reach.exists_of_run outlives_sound promptRun hrun
  have hr := of_decide_eq_true hf
  exact ⟨p, hp, hr, (bytes_unused hp hr rfl 0 rfl).1⟩

/-- A message is still in the queue when its call has returned: the caller can go on when `on_write` has resolved the
promise and before it drops the front of the queue. -/
theorem bytes_queued : ¬ ∀ (cfg : ClientConfig) (p : ClientPool) (t : Nat) (c : ClientCall) (ret : ClientRet) (k : Nat)
    (m : DataSend), (clientMachine cfg).Reach Outlives (.new cfg.order) p → p.result t = some (c, ret) →
      ret.returnsBytes = true → m.owner = t → (p.shared.sessions k).life = .alive →
        m ∉ (p.shared.sessions k).sess.queue.entries := by
  intro h
  have hrun : ((clientMachine plainConfig).run outlives (.initial (.new plainConfig.order)) promptRun).any
      (fun p => decide (p.result 1 = some (.send 7 [1], .sent (some true))) &&
        decide ((p.shared.sessions 0).life = .alive) &&
        decide (promptMessage ∈ (p.shared.sessions 0).sess.queue.entries)) = true := by
    decide +kernel
  obtain ⟨p, hp, hf⟩ := Machine.Reach.exists_of_run outlives_sound promptRun hrun
  simp only [Bool.and_eq_true, decide_eq_true_eq] at hf
  obtain ⟨⟨hr, halive⟩, hm⟩ := hf
  exact h plainConfig p 1 _ _ 0 promptMessage hp hr rfl rfl halive hm

end Radrpc
