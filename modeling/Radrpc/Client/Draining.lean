import Radrpc.Lib.Progress
import Radrpc.Client.Turns

/-!
# Draining the io context

Whoever runs the io context returns when nothing is left to do.

* `SessObj.work` : a measure of what a session object still gives the io context to do;
* `ClientSession.Lowers`, `ClientSession.drain_io`, `drain_pending`, `drain_posted` : the handler that goes on, the
  operation that fails, the posted handler that runs lower it;
* `Buried` : a session object that does not exist has nothing outstanding;
* `Client.drain` : while somebody runs the io context, the environment alone can go on until nothing is left to do.
-/

namespace Radrpc
open Words Conc Relation

/-! ## One session -/

/-- The steps that a handler has left before it returns. -/
def IoState.size : IoState → Nat
  | .idle => 0
  | .popping => 0
  | .clearing rest => rest.length + 1
  | .sweeping => 1

namespace ClientSession

/-- What can start writes: the posted handlers, and the handler of a write. -/
def backlog (s : ClientSession) : Nat := s.posted.length + if s.io = .popping then 1 else 0

/-- The handler that runs, and the operations other than writes. -/
def chores (s : ClientSession) : Nat := 8 * s.io.size + (if s.reading then 4 else 0) + 2 * (s.pings + s.closing)

/-- There is less to do in `s'` than in `s`, even if a handler has been entered. -/
def Lowers (s' s : ClientSession) : Prop :=
  s'.backlog < s.backlog ∨ s'.backlog = s.backlog ∧
    (s'.writing.length < s.writing.length ∨ s'.writing.length = s.writing.length ∧ s'.chores + 2 ≤ s.chores)

theorem closeSession_closing (s : ClientSession) : ∃ close closing,
    s.closeSession = { s with close := close, closing := closing } ∧ closing ≤ s.closing + 1 := by
  unfold closeSession
  split
  · exact ⟨s.close, s.closing, rfl, Nat.le_succ _⟩
  · exact ⟨_, _, rfl, Nat.le_refl _⟩

variable {s : ClientSession} (funcs : BroadcastFuncs)

theorem drain_io (hio : s.io ≠ .idle) : ∃ s', s.step funcs (.ioStep {}) = some s' ∧ Lowers s' s := by
  cases h : s.io with
  | idle => exact absurd h hio
  | popping =>
    have hframe : ∃ writing started,
        (if s.queue.popFront.1 then { s with queue := s.queue.popFront.2, io := .idle }.write
          else { s with queue := s.queue.popFront.2, io := .idle }) = { s with
          queue := s.queue.popFront.2, io := .idle, writing := writing, started := started } := by
      split
      · exact write_frame { s with queue := s.queue.popFront.2, io := .idle }
      · exact ⟨s.writing, s.started, rfl⟩
    obtain ⟨writing, started, he⟩ := hframe
    have hs : s.step funcs (.ioStep {}) = some { s with
        queue := s.queue.popFront.2, io := .idle, writing := writing, started := started } := by
      simp only [step, ioStep, h]
      exact congrArg some he
    exact ⟨_, hs, .inl (by simp [backlog, h])⟩
  | clearing rest =>
    cases rest with
    | cons m rest =>
      have hs : s.step funcs (.ioStep {}) = some { s with
          promises := resolve s.promises m false, io := .clearing rest } := by
        simp only [step, ioStep, h]
      refine ⟨_, hs, .inr ⟨by simp [backlog, h], .inr ⟨rfl, ?_⟩⟩⟩
      simp only [chores, IoState.size, h, List.length_cons]
      omega
    | nil =>
      obtain ⟨close, closing, he, hle⟩ :=
        closeSession_closing { s with queue := s.queue.clearEntries, writeError := true, io := .idle }
      have hs : s.step funcs (.ioStep {}) = some { s with
          queue := s.queue.clearEntries, writeError := true, io := .idle, close := close, closing := closing } := by
        simp only [step, ioStep, h]
        exact congrArg some he
      have hle' : closing ≤ s.closing + 1 := hle
      refine ⟨_, hs, .inr ⟨by simp [backlog, h], .inr ⟨rfl, ?_⟩⟩⟩
      simp only [chores, IoState.size, h, List.length_nil]
      omega
  | sweeping =>
    have hs : s.step funcs (.ioStep {}) = some { s with
        cache := s.cache.removeObsolete ({} : Clock).visit, readBuffer := [], io := .idle, reading := true } := by
      simp only [step, ioStep, h, read]
    refine ⟨_, hs, .inr ⟨by simp [backlog, h], .inr ⟨rfl, ?_⟩⟩⟩
    simp only [chores, IoState.size, h, if_true]
    omega

theorem drain_pending (hio : s.io = .idle) (hp : s.pending = true) :
    ∃ e s', e.isPost = false ∧ s.step funcs e = some s' ∧ Lowers s' s := by
  by_cases hw : s.writing = []
  · by_cases hr : s.reading = true
    · obtain ⟨close, closing, he, hle⟩ := closeSession_closing { s with
        reading := false, readBuffer := s.readBuffer ++ [], cache := s.cache.clear, readError := true }
      have hs : s.step funcs (.onRead true []) = some { s with
          reading := false, readBuffer := s.readBuffer ++ [], cache := s.cache.clear, readError := true
          close := close, closing := closing } := by
        simp only [step]
        rw [if_pos ⟨hio, hr⟩]
        exact congrArg some he
      have hle' : closing ≤ s.closing + 1 := hle
      refine ⟨_, _, rfl, hs, .inr ⟨rfl, .inr ⟨rfl, ?_⟩⟩⟩
      simp only [chores, hr, if_true, Bool.false_eq_true, if_false]
      omega
    · by_cases hping : 0 < s.pings
      · have hs : s.step funcs .onPing = some { s with ping := false, pings := s.pings - 1 } := by
          simp only [step]
          rw [if_pos ⟨hio, hping⟩]
        refine ⟨_, _, rfl, hs, .inr ⟨rfl, .inr ⟨rfl, ?_⟩⟩⟩
        simp only [chores]
        omega
      · have hclosing : 0 < s.closing := by
          by_contra hc
          simp [pending, hw, hr, hping, hc, hio] at hp
        have hs : s.step funcs .onClose = some { s with closing := s.closing - 1 } := by
          simp only [step]
          rw [if_pos ⟨hio, hclosing⟩]
        refine ⟨_, _, rfl, hs, .inr ⟨rfl, .inr ⟨rfl, ?_⟩⟩⟩
        simp only [chores]
        omega
  · obtain ⟨m, rest, hw⟩ := List.exists_cons_of_ne_nil hw
    have hs : s.step funcs (.onWrite 0 true) = some { s with
        writing := rest, io := .clearing s.queue.entries } := by
      simp only [step, hio, hw, onWrite]
      rfl
    refine ⟨_, _, rfl, hs, .inr ⟨by simp [backlog, hio], .inl ?_⟩⟩
    rw [hw]
    exact Nat.lt_succ_self _

theorem drain_posted (hio : s.io = .idle) (hp : s.posted ≠ []) :
    ∃ s', s.step funcs .runPosted = some s' ∧ Lowers s' s := by
  obtain ⟨h, rest, hp⟩ := List.exists_cons_of_ne_nil hp
  have hs : s.step funcs .runPosted = some ({ s with posted := rest }.runPosted h) := by
    simp only [step]
    split
    · rename_i h' rest' _ hp'
      rw [hp] at hp'
      cases hp'
      rfl
    · rename_i hne
      exact absurd hp (hne h rest hio)
  have hposted : ({ s with posted := rest }.runPosted h).posted = rest ∧
      ({ s with posted := rest }.runPosted h).io = .idle := by
    cases h with
    | handleSend m =>
      obtain ⟨_, _, _, _, he⟩ := handleSend_frame { s with posted := rest } m
      rw [runPosted, he]
      exact ⟨rfl, hio⟩
    | handlePing =>
      obtain ⟨_, _, he⟩ := handlePing_frame { s with posted := rest }
      rw [runPosted, he]
      exact ⟨rfl, hio⟩
    | closeSession =>
      obtain ⟨_, _, he⟩ := closeSession_frame { s with posted := rest }
      rw [runPosted, he]
      exact ⟨rfl, hio⟩
  refine ⟨_, hs, .inl ?_⟩
  rw [backlog, backlog, hposted.1, hposted.2, hio, hp]
  exact Nat.lt_succ_self _

end ClientSession

/-! ## One session object -/

namespace SessObj

/-- A session object that does not exist has nothing outstanding. -/
def Buried (x : SessObj) : Prop := x.life ≠ .alive → x.connecting = none ∧ x.sess.pending = false ∧ x.active = false

/-- What a session object still gives the io context to do, in the order of what can cause what. -/
def work (x : SessObj) : Nat × Nat × Nat :=
  ((if x.connecting.isSome then 1 else 0) + x.sess.backlog, x.sess.writing.length,
    x.sess.chores + if x.active then 1 else 0)

/-- There is less to do in `y` than in `x`. -/
def Less (y x : SessObj) : Prop := WellFoundedRelation.rel y.work x.work

theorem less_of_lowers {x : SessObj} {sess : ClientSession} (h : sess.Lowers x.sess) :
    Less { x with sess := sess, active := true } x := by
  rcases h with h | ⟨h, h' | ⟨h', h''⟩⟩
  · exact Prod.Lex.left _ _ (Nat.add_lt_add_left h _)
  · simp only [Less, work, h]
    exact Prod.Lex.right _ (Prod.Lex.left _ _ h')
  · simp only [Less, work, h, h']
    refine Prod.Lex.right _ (Prod.Lex.right _ ?_)
    show sess.chores + 1 < x.sess.chores + if x.active then 1 else 0
    omega

theorem less_of_leave {x : SessObj} (h : x.active = true) : Less { x with active := false } x := by
  simp only [Less, work, h]
  refine Prod.Lex.right _ (Prod.Lex.right _ ?_)
  show x.sess.chores + 0 < x.sess.chores + 1
  omega

theorem less_of_fail {x : SessObj} (h : x.connecting.isSome = true) : Less { x.fail with active := true } x := by
  refine Prod.Lex.left _ _ ?_
  show 0 + x.sess.backlog < (if x.connecting.isSome = true then 1 else 0) + x.sess.backlog
  rw [if_pos h]
  omega

theorem less_of_drop {x : SessObj} (h : x.sess.posted ≠ []) :
    Less { x with sess := { x.sess with posted := x.sess.posted.tail } } x := by
  refine Prod.Lex.left _ _ ?_
  have hlt : x.sess.posted.tail.length < x.sess.posted.length := by
    have hpos := List.length_pos_iff.mpr h
    rw [List.length_tail]
    omega
  exact Nat.add_lt_add_left (Nat.add_lt_add_right hlt _) _

end SessObj

namespace Client

variable {s : Client}

theorem fail_step (cfg : ClientConfig) (hio : s.ioRunning = true) {k : Nat} {c : Connecting}
    (hlife : (s.sessions k).life = .alive) (hc : (s.sessions k).connecting = some c)
    (ha : (s.sessions k).active = false) :
    ∃ e, s.step cfg e = some (s.modify k fun x => { x.fail with active := true }) := by
  cases c with
  | resolve => exact ⟨.onResolve k true, if_pos ⟨hio, hlife, hc, ha⟩⟩
  | connect => exact ⟨.onConnect k true, if_pos ⟨hio, hlife, hc, ha⟩⟩
  | sslHandshake => exact ⟨.onSslHandshake k true, if_pos ⟨hio, hlife, hc, ha⟩⟩
  | handshake => exact ⟨.onHandshake k true [], if_pos ⟨hio, hlife, hc, ha⟩⟩

theorem session_step (cfg : ClientConfig) (hio : s.ioRunning = true) {k : Nat} {e : ClientEvent} {sess : ClientSession}
    (hlock : (s.sessions k).lockable = true) (hpost : e.isPost = false)
    (ha : e.starts = true → (s.sessions k).active = false) (he : (s.sessions k).sess.step s.boundFuncs e = some sess) :
    s.step cfg (.session k e) = some (s.modify k fun x => { x with sess := sess, active := true }) := by
  simp only [step]
  rw [if_pos ⟨hio, hlock, hpost, ha⟩, he]
  rfl

/-- As long as somebody runs the io context and a session gives it something to do, the environment has less to do after
one more step. -/
theorem drain_step (cfg : ClientConfig) (hio : s.ioRunning = true) {k : Nat} (hb : (s.sessions k).Buried)
    (hw : (s.sessions k).hasWork = true) :
    ∃ e y, s.step cfg e = some (s.modify k fun _ => y) ∧ y.Buried ∧ y.Less (s.sessions k) := by
  have hdrop : (s.sessions k).lockable = false → (s.sessions k).sess.posted ≠ [] →
      ∃ e y, s.step cfg e = some (s.modify k fun _ => y) ∧ y.Buried ∧ y.Less (s.sessions k) := fun hlock hposted =>
    ⟨.dropPosted k, _, if_pos ⟨hio, hlock, hposted⟩, fun hl => hb hl, SessObj.less_of_drop hposted⟩
  by_cases hlife : (s.sessions k).life = .alive
  · have halive : ∀ {y : SessObj}, y.life = (s.sessions k).life → y.Buried := fun hy hl => absurd (hy.trans hlife) hl
    have hlockable : (s.sessions k).pinned = true → (s.sessions k).lockable = true := fun hp => by
      simp [SessObj.lockable, hlife, hp]
    by_cases hsio : (s.sessions k).sess.io = .idle
    · cases ha : (s.sessions k).active with
      | true => exact ⟨.leave k, _, if_pos ⟨ha, hsio⟩, halive rfl, SessObj.less_of_leave ha⟩
      | false =>
        cases hc : (s.sessions k).connecting with
        | some c =>
          obtain ⟨e, he⟩ := fail_step cfg hio hlife hc ha
          exact ⟨e, _, he, halive rfl, SessObj.less_of_fail (by rw [hc]; rfl)⟩
        | none =>
          by_cases hp : (s.sessions k).sess.pending = true
          · obtain ⟨e, sess, hpost, hsess, hlow⟩ := ClientSession.drain_pending s.boundFuncs hsio hp
            have hlock := hlockable (by simp [SessObj.pinned, hp])
            exact ⟨.session k e, _, session_step cfg hio hlock hpost (fun _ => ha) hsess, halive rfl,
              SessObj.less_of_lowers hlow⟩
          · have hposted : (s.sessions k).sess.posted ≠ [] := by
              intro hn
              simp [SessObj.hasWork, ha, hc, hp, hn] at hw
            by_cases hlock : (s.sessions k).lockable = true
            · obtain ⟨sess, hsess, hlow⟩ := ClientSession.drain_posted s.boundFuncs hsio hposted
              exact ⟨.session k .runPosted, _, session_step cfg hio hlock rfl (fun _ => ha) hsess, halive rfl,
                SessObj.less_of_lowers hlow⟩
            · exact hdrop (Bool.eq_false_iff.mpr hlock) hposted
    · obtain ⟨sess, hsess, hlow⟩ := ClientSession.drain_io s.boundFuncs hsio
      have hlock := hlockable (by simp [SessObj.pinned, ClientSession.pending, hsio])
      exact ⟨.session k (.ioStep {}), _, session_step cfg hio hlock rfl (fun hf => by cases hf) hsess, halive rfl,
        SessObj.less_of_lowers hlow⟩
  · obtain ⟨hc, hp, ha⟩ := hb hlife
    refine hdrop (by simp [SessObj.lockable, hlife]) fun hn => ?_
    simp [SessObj.hasWork, ha, hc, hp, hn] at hw

/-- Only the session objects of the client have changed, and those that do not exist have nothing outstanding. -/
def Drained (s s' : Client) : Prop := ∃ sessions, s' = { s with sessions := sessions } ∧ ∀ k, (sessions k).Buried

theorem drain_session (cfg : ClientConfig) (hio : s.ioRunning = true) (hb : ∀ k, (s.sessions k).Buried) (k : Nat) :
    ∃ s', (clientMachine cfg).Drift s s' ∧ s.Drained s' ∧ (s'.sessions k).hasWork = false ∧
      ∀ k', k' ≠ k → s'.sessions k' = s.sessions k' := by
  have hstep : ∀ s₁ : Client, (s.Drained s₁ ∧ ∀ k', k' ≠ k → s₁.sessions k' = s.sessions k') →
      ¬ (s₁.sessions k).hasWork = false → ∃ s₂, (∃ e, (clientMachine cfg).env e s₁ = some s₂) ∧
        (s.Drained s₂ ∧ ∀ k', k' ≠ k → s₂.sessions k' = s.sessions k') ∧
        WellFoundedRelation.rel (s₂.sessions k).work (s₁.sessions k).work := by
    rintro s₁ ⟨⟨sessions, rfl, hb₁⟩, hother⟩ hw
    obtain ⟨e, y, he, hy, hless⟩ := drain_step (s := { s with sessions := sessions }) cfg hio (hb₁ k) (by simpa using hw)
    refine ⟨_, ⟨e, he⟩, ⟨⟨Function.update sessions k y, rfl, fun k' => ?_⟩, fun k' hne => ?_⟩, ?_⟩
    · by_cases hkk : k' = k
      · rw [hkk, Function.update_self]
        exact hy
      · rw [Function.update_of_ne hkk]
        exact hb₁ k'
    · exact (Function.update_of_ne hne _ _).trans (hother k' hne)
    · show WellFoundedRelation.rel (Function.update sessions k y k).work _
      rw [Function.update_self]
      exact hless
  obtain ⟨s', hd, ⟨hdr, hother⟩, hdone⟩ := reaches_of_measure
    (r := fun s₁ s₂ => ∃ e, (clientMachine cfg).env e s₁ = some s₂) (fun s₁ : Client => (s₁.sessions k).work)
    (I := fun s₁ => s.Drained s₁ ∧ ∀ k', k' ≠ k → s₁.sessions k' = s.sessions k')
    (D := fun s₁ => (s₁.sessions k).hasWork = false) hstep
    (s := s) ⟨⟨s.sessions, rfl, hb⟩, fun _ _ => rfl⟩
  exact ⟨s', hd, hdr, hdone, hother⟩

theorem Drained.trans {s₁ s₂ : Client} (h : s.Drained s₁) (h' : s₁.Drained s₂) : s.Drained s₂ := by
  obtain ⟨_, rfl, -⟩ := h
  obtain ⟨sessions, rfl, hb⟩ := h'
  exact ⟨sessions, rfl, hb⟩

/-- **The io context comes to an end.** As long as somebody runs it, the environment alone can go on until nothing is left
to do, whatever is outstanding. -/
theorem drain (cfg : ClientConfig) (hio : s.ioRunning = true) (hb : ∀ k, (s.sessions k).Buried) :
    ∃ s', (clientMachine cfg).Drift s s' ∧ s.Drained s' ∧ s'.hasWork = false := by
  have hall : ∀ n, ∃ s', (clientMachine cfg).Drift s s' ∧ s.Drained s' ∧ ∀ k < n, (s'.sessions k).hasWork = false := by
    intro n
    induction n with
    | zero => exact ⟨s, .refl, ⟨s.sessions, rfl, hb⟩, fun k hk => absurd hk (Nat.not_lt_zero k)⟩
    | succ n ih =>
      obtain ⟨s₁, hd₁, ⟨sessions, rfl, hb₁⟩, hdone⟩ := ih
      obtain ⟨s₂, hd₂, hdr, hn, hother⟩ := drain_session (s := { s with sessions := sessions }) cfg hio hb₁ n
      refine ⟨s₂, hd₁.trans hd₂, .trans ⟨sessions, rfl, hb₁⟩ hdr, fun k hk => ?_⟩
      rcases Nat.lt_succ_iff_lt_or_eq.mp hk with hlt | rfl
      · rw [hother k (Nat.ne_of_lt hlt)]
        exact hdone k hlt
      · exact hn
  obtain ⟨s', hd, hdr, hdone⟩ := hall s.sessionCount
  refine ⟨s', hd, hdr, ?_⟩
  obtain ⟨sessions, rfl, -⟩ := hdr
  rw [hasWork, List.any_eq_false]
  exact fun k hk => by simp [hdone k (List.mem_range.mp hk)]

theorem drain_worker (cfg : ClientConfig) (hb : ∀ k, (s.sessions k).Buried) :
    ∃ s', (clientMachine cfg).Drift s s' ∧ ¬ (s'.worker = .starting ∨ s'.worker = .running) := by
  have hleaves : ∀ s₁ : Client, s₁.worker = .running → s₁.stopped = true →
      ∃ s', (clientMachine cfg).Drift s₁ s' ∧ ¬ (s'.worker = .starting ∨ s'.worker = .running) := by
    intro s₁ hw hstop
    have hdone : s₁.step cfg .workerDone = some { s₁ with worker := .finished } := if_pos ⟨hw, hstop⟩
    exact ⟨_, .single ⟨.workerDone, hdone⟩, by simp⟩
  have hrunning : ∀ s₁ : Client, s₁.worker = .running → (∀ k, (s₁.sessions k).Buried) →
      ∃ s', (clientMachine cfg).Drift s₁ s' ∧ ¬ (s'.worker = .starting ∨ s'.worker = .running) := by
    intro s₁ hw hb₁
    cases hstop : s₁.stopped with
    | true => exact hleaves s₁ hw hstop
    | false =>
      obtain ⟨s₂, hd, ⟨sessions, rfl, -⟩, hidle⟩ := drain (s := s₁) cfg (by simp [ioRunning, hw, hstop]) hb₁
      have hstops : ({ s₁ with sessions := sessions } : Client).step cfg .workerStop =
          some { s₁ with sessions := sessions, stopped := true } := if_pos ⟨hw, hidle⟩
      obtain ⟨s', hd', hs'⟩ := hleaves { s₁ with sessions := sessions, stopped := true } hw rfl
      exact ⟨s', (hd.tail ⟨.workerStop, hstops⟩).trans hd', hs'⟩
  cases hw : s.worker with
  | none => exact ⟨s, .refl, by simp [hw]⟩
  | finished => exact ⟨s, .refl, by simp [hw]⟩
  | running => exact hrunning s hw hb
  | starting =>
    have hrun : s.step cfg .workerRun = some { s with worker := .running, stopped := false } := if_pos hw
    obtain ⟨s', hd, hs'⟩ := hrunning { s with worker := .running, stopped := false } rfl hb
    exact ⟨s', .head ⟨.workerRun, hrun⟩ hd, hs'⟩

end Client

/-! ## Sessions that do not exist -/

namespace SessObj

theorem Buried.same {x y : SessObj} (h : x.Buried) (h1 : y.life = x.life) (h2 : y.connecting = x.connecting)
    (h3 : y.sess.pending = x.sess.pending) (h4 : y.active = true → x.active = true) : y.Buried := by
  intro hl
  obtain ⟨hc, hp, ha⟩ := h (h1 ▸ hl)
  refine ⟨h2.trans hc, h3.trans hp, ?_⟩
  by_contra hact
  rw [h4 (Bool.not_eq_false _ ▸ hact)] at ha
  cases ha

theorem Buried.modify {s : Client} (h : ∀ k, (s.sessions k).Buried) {k : Nat} {f : SessObj → SessObj}
    (hf : (f (s.sessions k)).Buried) (k' : Nat) : ((s.modify k f).sessions k').Buried := by
  rw [Client.sessions_modify]
  split
  · exact hf
  · exact h k'

end SessObj

theorem Client.buried_env {cfg : ClientConfig} {s s' : Client} {e : ClientEnv} (h : ∀ k, (s.sessions k).Buried)
    (hs : s.step cfg e = some s') (k : Nat) : (s'.sessions k).Buried := by
  have hhandler : ∀ {k c} {f : SessObj → SessObj}, SessObj.Attempts s.reqHandshake f → s.handler k c f = some s' →
      ∀ k', (s'.sessions k').Buried := by
    intro k c f hf hs
    unfold handler at hs
    split at hs
    · rename_i hg
      cases hs
      exact SessObj.Buried.modify h fun hl => absurd ((hf.life _).trans hg.2.1) hl
    · cases hs
  cases e with
  | onResolve k ec => exact hhandler (.onResolve _ ec) hs _
  | onConnect k ec => exact hhandler (.onConnect _ ec cfg.ssl) hs _
  | onSslHandshake k ec => exact hhandler (.onSslHandshake _ ec) hs _
  | onHandshake k ec response => exact hhandler (.onHandshake _ ec response) hs _
  | session k e =>
    simp only [step] at hs
    split at hs
    · rename_i hg
      obtain ⟨sess, -, he⟩ := Option.map_eq_some_iff.mp hs
      rw [← he]
      have hlock : (s.sessions k).lockable = true := hg.2.1
      exact SessObj.Buried.modify h (fun hl => absurd (of_decide_eq_true (Bool.and_eq_true_iff.mp hlock).1) hl) _
    · cases hs
  | dropPosted k =>
    simp only [step] at hs
    split at hs
    · cases hs
      exact SessObj.Buried.modify h ((h k).same rfl rfl rfl fun ha => ha) _
    · cases hs
  | leave k =>
    simp only [step] at hs
    split at hs
    · cases hs
      exact SessObj.Buried.modify h ((h k).same rfl rfl rfl fun ha => by cases ha) _
    · cases hs
  | delete k =>
    simp only [step] at hs
    split at hs
    · rename_i hg
      cases hs
      refine SessObj.Buried.modify h (fun _ => ?_) _
      have hpin := hg.2
      simp only [SessObj.pinned, Bool.or_eq_false_iff, Option.isSome_eq_false_iff, Option.isNone_iff_eq_none] at hpin
      exact ⟨hpin.1.1.1, hpin.1.1.2, hpin.1.2⟩
    · cases hs
  | onSessionDelete k =>
    simp only [step] at hs
    split at hs
    · rename_i hg
      cases hs
      have hburied : ({ s.sessions k with life := .gone } : SessObj).Buried := fun _ => h k (by rw [hg]; simp)
      exact SessObj.Buried.modify (f := fun x => { x with life := .gone }) h hburied _
    · cases hs
  | workerRun =>
    simp only [step] at hs
    split at hs
    · cases hs
      exact h k
    · cases hs
  | workerStop | workerDone =>
    simp only [step] at hs
    split at hs
    · cases hs
      exact h k
    · cases hs

theorem Client.buried_exec {cfg : ClientConfig} {s s' : Client} {t : Nat} {o : ClientOp} {i : Clock} {r : o.Res}
    (h : ∀ k, (s.sessions k).Buried) (hs : o.exec cfg t i s = some (r, s'))
    (hrun : ∀ k, o = .beginRun k → (s.sessions k).life = .alive) (k : Nat) : (s'.sessions k).Buried := by
  by_cases ho : o.turns = false
  · have hsame := ClientOp.exec_sameIo hs ho
    exact (h k).same (hsame.life k) (hsame.connecting k) (hsame.pending k) fun ha => hsame.active k ▸ ha
  cases o with
  | joinWorker | joinAtExit | finishIo =>
    simp only [ClientOp.exec] at hs
    split at hs
    · cases hs
    · cases hs
      exact h k
  | newSession =>
    cases hs
    exact SessObj.Buried.modify h (f := fun _ => _) (fun hl => absurd rfl hl) k
  | beginRun k' =>
    have halive := hrun k' rfl
    simp only [ClientOp.exec] at hs
    split at hs
    · cases hs
      exact SessObj.Buried.modify h (fun hl => absurd halive hl) k
    · cases hs
      exact SessObj.Buried.modify h (fun hl => absurd halive hl) k
  | assignWorker | restartIo =>
    cases hs
    exact h k
  | _ => exact absurd rfl ho

end Radrpc
