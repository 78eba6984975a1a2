import Radrpc.Lib.Progress
import Radrpc.Server.Handshakes

/-!
# The end of the sessions of a server

A session is owned by its operations: by the one of its handshake, by the reads, writes, pings and the timer of an
established session, and for a while by a broadcast. When its stream fails they all come to an end.

* `ServerSession.load` : a measure of what is outstanding on an established session;
* `ServerSession.lighten` : as long as something is, some operation can fail, or some handler run, that lowers it;
* `HandshakeEvent.winds` : the events that belong to the end of sessions: no new connection, no new owner, and no
  destruction of the io context;
* `sessions_can_end` : from every reachable state these events lead to one in which every session is freed.
-/

namespace Radrpc
open Words Conc Relation

/-! ## One session -/

/-- The handlers that run when the client has gone: reads and writes fail, the timer runs out on a closed stream. -/
def ServerEvent.winds : ServerEvent → Bool
  | .send _ => false
  | .handleSend => true
  | .onWrite _ ec _ => ec
  | .onRead ec _ _ => ec
  | .timerExpires _ => true
  | .onTimer _ isOpen => !isOpen
  | .control _ _ => false
  | .onPing => true
  | .onShutdown => true

namespace ServerSession

/-- The waits on the timer, which can still become ready, the ready ones, and what `shutdown` starts. -/
def alarms (s : ServerSession) : Nat :=
  2 * s.timerWaits + s.timerReady.length + (if s.close then 0 else 2) + s.closing

/-- What is outstanding; a posted message can start a write. -/
def load (s : ServerSession) : Nat :=
  2 * s.posted.length + s.writing.length + (if s.reading then 1 else 0) + s.pings + s.alarms

variable (s : ServerSession)

theorem alarms_shutdown : s.shutdown.alarms ≤ s.alarms := by
  unfold shutdown
  dsimp only
  split
  · exact Nat.le_refl _
  · rename_i hc
    have hclose : ¬ s.close = true := fun h => hc (by simp [h])
    show 2 * s.timerWaits + s.timerReady.length + 0 + (s.closing + 1) ≤ s.alarms
    rw [alarms, if_neg hclose]
    omega

theorem alarms_closeSession (now : Time) : (s.closeSession now).alarms ≤ s.alarms := by
  unfold closeSession
  split
  · show 2 * 0 + (s.timerReady ++ List.replicate s.timerWaits TimerError.aborted).length +
      (if s.close = true then 0 else 2) + s.closing ≤ s.alarms
    rw [alarms, List.length_append, List.length_replicate]
    omega
  · exact s.alarms_shutdown

theorem load_closeSession (now : Time) : (s.closeSession now).load ≤ s.load := by
  have halarms := s.alarms_closeSession now
  obtain ⟨_, _, _, _, _, _, _, he⟩ := s.closeSession_frame now
  rw [he] at halarms ⊢
  exact Nat.add_le_add_left halarms _

theorem load_shutdown : s.shutdown.load ≤ s.load := by
  have halarms := s.alarms_shutdown
  obtain ⟨_, _, _, he⟩ := s.shutdown_frame
  rw [he] at halarms ⊢
  exact Nat.add_le_add_left halarms _

theorem load_handleSend (data : DataPush) : (s.handleSend data).load ≤ s.load + 1 := by
  unfold handleSend
  split
  · exact Nat.le_succ _
  · split
    · exact Nat.le_succ _
    · dsimp only
      split
      · exact Nat.le_succ _
      · unfold write
        split
        · exact Nat.le_succ _
        · simp only [load, alarms, List.length_append, List.length_singleton]
          omega

/-- As long as something is outstanding, the session has less to do after one more handler: its stream fails, its timer
runs out, or a posted message is dealt with. -/
theorem lighten {s : ServerSession} (h : s.outstanding = true) :
    ∃ e s', e.winds = true ∧ s.step e = some s' ∧ s'.load < s.load := by
  cases hposted : s.posted with
  | cons data rest =>
    refine ⟨.handleSend, { s with posted := rest }.handleSend data, rfl, by simp only [step, hposted], ?_⟩
    have hle := load_handleSend { s with posted := rest } data
    simp only [load, alarms, hposted, List.length_cons] at hle ⊢
    omega
  | nil =>
  cases hwriting : s.writing with
  | cons m rest =>
    refine ⟨.onWrite 0 true 0, _, rfl, if_pos (by rw [hwriting]; exact Nat.succ_pos _), ?_⟩
    rw [onWrite, if_pos (by simp)]
    refine Nat.lt_of_le_of_lt (load_closeSession _ 0) ?_
    simp only [load, alarms, hwriting, List.length_cons, List.eraseIdx_cons_zero]
    omega
  | nil =>
  cases hready : s.timerReady with
  | cons ec rest =>
    refine ⟨.onTimer s.timerExpiry false, { s with timerReady := rest }.onTimer ec s.timerExpiry false, rfl,
      by simp only [step, hready], ?_⟩
    have hlt : ({ s with timerReady := rest } : ServerSession).load < s.load := by
      simp only [load, alarms, hready, List.length_cons]
      omega
    unfold onTimer
    split
    · exact hlt
    · rw [if_pos (Int.le_refl _), if_neg (by simp)]
      exact Nat.lt_of_le_of_lt (load_shutdown _) hlt
  | nil =>
  by_cases hreading : s.reading = true
  · refine ⟨.onRead true [] 0, _, rfl, if_pos hreading, ?_⟩
    rw [onRead, if_pos (by simp)]
    refine Nat.lt_of_le_of_lt (load_closeSession _ 0) ?_
    simp only [load, alarms, hreading]
    simp
  by_cases hwaits : 0 < s.timerWaits
  · refine ⟨.timerExpires s.timerExpiry, _, rfl, if_pos ⟨hwaits, Int.le_refl _⟩, ?_⟩
    simp only [load, alarms, List.length_append, List.length_singleton]
    omega
  by_cases hpings : 0 < s.pings
  · refine ⟨.onPing, _, rfl, if_pos hpings, ?_⟩
    simp only [load, alarms]
    omega
  by_cases hclosing : 0 < s.closing
  · refine ⟨.onShutdown, _, rfl, if_pos hclosing, ?_⟩
    simp only [load, alarms]
    omega
  · simp [outstanding, hposted, hwriting, hready, hreading, hwaits, hpings, hclosing] at h

end ServerSession

/-! ## All sessions -/

/-- The objects below the count have been constructed. -/
def Objects.Constructed (o : Objects) : Prop := ∀ k < o.count, (o.object k).phase ≠ .unborn

theorem Objects.constructed_advance {o o' : Objects} {k : Nat} {before after : ObjPhase} (h : o.Constructed)
    (ho : o.advance k before after = some o') (hne : after ≠ .unborn) : o'.Constructed := by
  obtain ⟨-, -, rfl⟩ := advance_eq_some ho
  intro j hj
  by_cases hjk : j = k
  · rw [hjk, put_self]
    exact hne
  · rw [put_of_ne o _ hjk]
    exact h j hj

theorem Objects.constructed_step {o o' : Objects} {ev : ObjectEvent} (h : o.Constructed) (hs : o.step ev = some o') :
    o'.Constructed := by
  cases ev with
  | born kind addr =>
    have hb := born_eq_some hs
    intro j hj
    by_cases hjk : j = o.count
    · rw [hjk, hb.new]
      simp
    · rw [hb.old j hjk]
      rw [hb.count] at hj
      exact h j (by omega)
  | establish k =>
    obtain ⟨hk, -, -, rfl⟩ := establish_eq_some hs
    intro j hj
    rw [setRegistry_count, put_count] at hj
    rw [setRegistry_object]
    by_cases hjk : j = k
    · rw [hjk, put_self]
      exact h k hk
    · rw [put_of_ne o _ hjk]
      exact h j hj
  | remove k =>
    obtain ⟨o₁, hadv, rfl⟩ := remove_eq_some hs
    have h₁ := constructed_advance h hadv (by decide)
    split
    · intro j hj
      rw [setRegistry_count] at hj
      rw [setRegistry_object]
      exact h₁ j hj
    · exact h₁
  | expire k => exact constructed_advance h hs (by decide)
  | disconnect k => exact constructed_advance h hs (by decide)
  | release k => exact constructed_advance h hs (by decide)
  | free k => exact constructed_advance h hs (by decide)

/-- The events that end sessions. No connection comes in, no broadcast takes hold of a session, and the io context is not
destroyed. -/
def HandshakeEvent.winds : HandshakeEvent → Bool
  | .born _ _ => false
  | .onSslHandshake _ ec => ec
  | .onReadHandshake _ ec _ _ => ec
  | .onAccept _ ec _ _ => ec
  | .session _ e => e.winds
  | .hold _ => false
  | .abandon _ => false
  | _ => true

def ObjPhase.remaining : ObjPhase → Nat
  | .alive => 5
  | .dying => 4
  | .removed => 3
  | .disconnected => 2
  | .released => 1
  | _ => 0

namespace Handshakes

def Winds (cfg : HandlerConfig) (s s' : Handshakes) : Prop := ∃ e, HandshakeEvent.winds e = true ∧ s.step cfg e = some s'

/-- What is left to do for a session: the rest of its life, and what owns it. -/
def toGo (s : Handshakes) (k : Nat) : Nat × Nat :=
  ((s.objects.object k).phase.remaining, (if s.stage k = .done then 0 else 1) + s.holders k + (s.context k).load)

/-- Only the session `k` has moved, and it is closer to its end. -/
structure Nearer (s s' : Handshakes) (k : Nat) : Prop where
  count : s'.objects.count = s.objects.count
  others : ∀ j, j ≠ k → (s'.objects.object j).phase = (s.objects.object j).phase
  less : WellFoundedRelation.rel (s'.toGo k) (s.toGo k)

variable {cfg : HandlerConfig} {s s' : Handshakes} {k : Nat}

theorem Nearer.of_owner (h1 : s'.objects = s.objects) (h2 : (if s'.stage k = .done then 0 else 1) + s'.holders k +
    (s'.context k).load < (if s.stage k = .done then 0 else 1) + s.holders k + (s.context k).load) :
    Nearer s s' k := by
  refine ⟨by rw [h1], fun j _ => by rw [h1], ?_⟩
  rw [toGo, h1]
  exact Prod.Lex.right _ h2

theorem Nearer.of_phase {before after : ObjPhase} {o : Objects} (ho : s.objects.advance k before after = some o)
    (h1 : s'.objects.count = o.count) (h2 : s'.objects.object = o.object) (h3 : after.remaining < before.remaining) :
    Nearer s s' k := by
  obtain ⟨-, hphase, rfl⟩ := Objects.advance_eq_some ho
  refine ⟨h1, fun j hj => ?_, ?_⟩
  · rw [h2, Objects.put_of_ne s.objects _ hj]
  · rw [toGo, h2, Objects.put_self]
    refine Prod.Lex.left _ _ ?_
    rw [hphase]
    exact h3

theorem end_handshake (cfg : HandlerConfig) (hstage : s.stage k ≠ .done) :
    ∃ e, HandshakeEvent.winds e = true ∧ s.step cfg e = some (s.setStage k .done) := by
  cases h : s.stage k with
  | ssl => exact ⟨.onSslHandshake k true, rfl, if_pos h⟩
  | http => exact ⟨.onReadHandshake k true 0 Option.none, rfl, if_pos h⟩
  | websocket => exact ⟨.onAccept k true 0 0, rfl, if_pos h⟩
  | done => exact absurd h hstage

theorem nearer (cfg : HandlerConfig) (hk : k < s.objects.count) (hborn : (s.objects.object k).phase ≠ .unborn)
    (hfreed : (s.objects.object k).phase ≠ .freed) : ∃ s', Winds cfg s s' ∧ Nearer s s' k := by
  have hadvance : ∀ {b a : ObjPhase}, (s.objects.object k).phase = b →
      s.objects.advance k b a = some (s.objects.put k { s.objects.object k with phase := a }) :=
    fun hphase => if_pos ⟨hk, hphase⟩
  cases hphase : (s.objects.object k).phase with
  | unborn => exact absurd hphase hborn
  | freed => exact absurd hphase hfreed
  | alive =>
    by_cases hstage : s.stage k = .done
    · by_cases hholders : 0 < s.holders k
      · refine ⟨_, ⟨.letGo k, rfl, if_pos hholders⟩, .of_owner rfl ?_⟩
        dsimp only
        rw [Function.update_self]
        omega
      · by_cases hout : (s.objects.object k).established = true ∧ (s.context k).outstanding = true
        · obtain ⟨e, x, he, hx, hless⟩ := ServerSession.lighten hout.2
          have hstep : s.step cfg (.session k e) = s.runSession k e := if_pos ⟨hphase, hout.1⟩
          have hrun : s.runSession k e = some { s with
              context := Function.update s.context k x
              calls := s.calls ++ (x.invoked.drop (s.context k).invoked.length).map fun c => .bound k c.1 c.2 } := by
            simp only [runSession, hx, Option.map_some]
          refine ⟨_, ⟨.session k e, he, hstep.trans hrun⟩, .of_owner rfl ?_⟩
          dsimp only
          rw [Function.update_self]
          omega
        · have howned : s.owned k = false := by
            rw [owned, decide_eq_false (not_not.mpr hstage), decide_eq_false hholders, Bool.false_or, Bool.false_or]
            exact Bool.eq_false_iff.mpr fun h => hout (Bool.and_eq_true_iff.mp h)
          have ho := hadvance (a := .dying) hphase
          have hstep : s.step cfg (.expire k) = (s.objects.step (.expire k)).map fun o => { s with objects := o } :=
            if_neg (by simp [howned])
          exact ⟨_, ⟨.expire k, rfl, hstep.trans (congrArg _ ho)⟩, .of_phase ho rfl rfl (by decide)⟩
    · obtain ⟨e, he, hstep⟩ := end_handshake cfg hstage
      refine ⟨_, ⟨e, he, hstep⟩, .of_owner rfl ?_⟩
      simp only [setStage, Function.update_self, if_neg hstage]
      simp
  | dying =>
    have ho := hadvance (a := .removed) hphase
    have hremove : s.objects.step (.remove k) = (s.objects.advance k .dying .removed).map fun o =>
        if (s.objects.object k).established then
          o.setRegistry (s.objects.object k).kind ((o.registry (s.objects.object k).kind).remove (s.objects.object k).id)
        else o := rfl
    have hstep : s.step cfg (.remove k) = (s.objects.step (.remove k)).map fun o => { s with objects := o } := rfl
    rw [hremove, ho] at hstep
    refine ⟨_, ⟨.remove k, rfl, hstep⟩, .of_phase ho ?_ ?_ (by decide)⟩
    · dsimp only
      split
      · exact Objects.setRegistry_count _ _ _
      · rfl
    · dsimp only
      split
      · exact Objects.setRegistry_object _ _ _
      · rfl
  | removed =>
    have ho := hadvance (a := .disconnected) hphase
    have hstep : s.step cfg (.disconnect k) = (s.objects.advance k .removed .disconnected).map fun o => { s with
      objects := o, calls := s.calls ++ if cfg.onDisconnect then [.disconnect k] else [] } := rfl
    rw [ho] at hstep
    exact ⟨_, ⟨.disconnect k, rfl, hstep⟩, .of_phase ho rfl rfl (by decide)⟩
  | disconnected =>
    have ho := hadvance (a := .released) hphase
    have hstep : s.step cfg (.release k) = (s.objects.advance k .disconnected .released).map fun o =>
      { s with objects := o } := rfl
    rw [ho] at hstep
    exact ⟨_, ⟨.release k, rfl, hstep⟩, .of_phase ho rfl rfl (by decide)⟩
  | released =>
    have ho := hadvance (a := .freed) hphase
    have hstep : s.step cfg (.free k) = (s.objects.advance k .released .freed).map fun o => { s with objects := o } := rfl
    rw [ho] at hstep
    exact ⟨_, ⟨.free k, rfl, hstep⟩, .of_phase ho rfl rfl (by decide)⟩

theorem constructed_step {e : HandshakeEvent} (h : s.objects.Constructed) (hs : s.step cfg e = some s') :
    s'.objects.Constructed := by
  rcases step_objects hs with ho | ⟨ev, ho⟩
  · exact ho ▸ h
  · exact Objects.constructed_step h ho

theorem end_session (cfg : HandlerConfig) (hc : s.objects.Constructed) (hk : k < s.objects.count) :
    ∃ s', ReflTransGen (Winds cfg) s s' ∧ (s'.objects.Constructed ∧ s'.objects.count = s.objects.count ∧
      ∀ j, j ≠ k → (s'.objects.object j).phase = (s.objects.object j).phase) ∧ (s'.objects.object k).phase = .freed := by
  refine reaches_of_measure (r := Winds cfg) (fun s₁ : Handshakes => s₁.toGo k) (I := fun s₁ => s₁.objects.Constructed ∧
    s₁.objects.count = s.objects.count ∧ ∀ j, j ≠ k → (s₁.objects.object j).phase = (s.objects.object j).phase)
    (D := fun s₁ => (s₁.objects.object k).phase = .freed) ?_ ⟨hc, rfl, fun _ _ => rfl⟩
  rintro s₁ ⟨hc₁, hcount, hothers⟩ hfreed
  have hk₁ : k < s₁.objects.count := by rw [hcount]; exact hk
  obtain ⟨s₂, hw, hnear⟩ := nearer cfg hk₁ (hc₁ k hk₁) hfreed
  obtain ⟨e, -, hs⟩ := id hw
  exact ⟨s₂, hw, ⟨constructed_step hc₁ hs, hnear.count.trans hcount,
    fun j hj => (hnear.others j hj).trans (hothers j hj)⟩, hnear.less⟩

theorem end_sessions (cfg : HandlerConfig) (hc : s.objects.Constructed) (n : Nat) (hn : n ≤ s.objects.count) :
    ∃ s', ReflTransGen (Winds cfg) s s' ∧ s'.objects.Constructed ∧ s'.objects.count = s.objects.count ∧
      ∀ k < n, (s'.objects.object k).phase = .freed := by
  induction n with
  | zero => exact ⟨s, .refl, hc, rfl, fun k hk => absurd hk (Nat.not_lt_zero k)⟩
  | succ n ih =>
    obtain ⟨s₁, hr₁, hc₁, hcount, hfreed⟩ := ih (Nat.le_of_succ_le hn)
    obtain ⟨s₂, hr₂, ⟨hc₂, hcount₂, hothers⟩, hn₂⟩ := end_session cfg hc₁ (k := n) (by rw [hcount]; exact hn)
    refine ⟨s₂, hr₁.trans hr₂, hc₂, hcount₂.trans hcount, fun k hk => ?_⟩
    rcases Nat.lt_succ_iff_lt_or_eq.mp hk with hlt | rfl
    · rw [hothers k (Nat.ne_of_lt hlt)]
      exact hfreed k hlt
    · exact hn₂

end Handshakes

theorem Notified.winds {cfg : HandlerConfig} {s s' : Handshakes} (h : Notified cfg s)
    (hr : ReflTransGen (Handshakes.Winds cfg) s s') : Notified cfg s' := by
  induction hr with
  | refl => exact h
  | tail _ hw ih =>
    obtain ⟨e, -, hs⟩ := hw
    exact ih.step hs

/-- **No session is kept for ever.** From every reachable state of the sessions of a server, wherever they are in their
handshakes and whatever is outstanding on their streams and timers, the events that end sessions lead to a state in which
every session that was constructed has been freed and taken off the lists, and `on_disconnect` has been called exactly
once for each of them if it is bound. -/
theorem sessions_can_end {cfg : HandlerConfig} {G : HandshakePool → Act Empty Unit HandshakeEvent → Prop}
    {p : HandshakePool} (hp : (handshakeMachine cfg).Reach G (.none cfg) p) :
    ∃ s, ReflTransGen (Handshakes.Winds cfg) p.shared s ∧ s.objects.count = p.shared.objects.count ∧
      s.objects.liveCount = 0 ∧ s.objects.ids = [] ∧
      ∀ k < s.objects.count, (s.objects.object k).phase = .freed ∧
        s.calls.count (.disconnect k) = if cfg.onDisconnect then 1 else 0 := by
  have key : Notified cfg p.shared ∧ p.shared.objects.Constructed :=
    Machine.invariant (I := fun s => Notified cfg s ∧ s.objects.Constructed)
      ⟨.none cfg, fun k hk => absurd hk (Nat.not_lt_zero k)⟩ (fun _ o => o.elim)
      (fun _ _ _ h hs => ⟨h.1.step hs, Handshakes.constructed_step h.2 hs⟩) hp
  obtain ⟨s, hr, -, hcount, hfreed⟩ := Handshakes.end_sessions cfg key.2 _ (Nat.le_refl _)
  rw [← hcount] at hfreed
  have hnot := key.1.winds hr
  refine ⟨s, hr, hcount, ?_, ?_, fun k hk => ⟨hfreed k hk, ?_⟩⟩
  · refine List.countP_eq_zero.mpr fun k hk => ?_
    rw [hfreed k (List.mem_range.mp hk)]
    simp [ObjPhase.live]
  · refine List.eq_nil_iff_forall_not_mem.mpr fun id hid => ?_
    obtain ⟨k, hk, ⟨-, hlisted⟩, -⟩ := hnot.tidy.mem_ids.mp hid
    rw [hfreed k hk] at hlisted
    rcases hlisted with hl | hl <;> cases hl
  · rw [hnot.once k, hfreed k hk]
    simp [ObjPhase.notified]

/-- One session has sent a ping and writes an answer that it owes to a broadcast, another one is in its ssl handshake. -/
def busyRun : List (Act Empty Unit HandshakeEvent) :=
  [.env (.born .plain 100), .env (.onReadHandshake 0 false 0 none), .env (.onAccept 0 false 10 0), .env (.born .ssl 200),
    .env (.session 0 (.send ⟨.new 7 0, [1]⟩)), .env (.session 0 .handleSend), .env (.hold 0),
    .env (.session 0 (.timerExpires 10)), .env (.session 0 (.onTimer 10 true))]

theorem sessions_can_end_busy : ∃ (p : HandshakePool) (s : Handshakes),
    (handshakeMachine notifyingConfig).Reach Machine.Free (.none notifyingConfig) p ∧
      (p.shared.context 0).outstanding = true ∧ (p.shared.context 0).pings = 1 ∧ p.shared.holders 0 = 1 ∧
      p.shared.stage 1 = .ssl ∧ ReflTransGen (Handshakes.Winds notifyingConfig) p.shared s ∧
      s.objects.liveCount = 0 ∧ s.calls.count (.disconnect 0) = 1 ∧ s.calls.count (.disconnect 1) = 1 := by
  have hrun : ((handshakeMachine notifyingConfig).run (fun _ _ => true) (.initial (.none notifyingConfig))
      busyRun).any (fun p => decide ((p.shared.context 0).outstanding = true ∧ (p.shared.context 0).pings = 1 ∧
        p.shared.holders 0 = 1 ∧ p.shared.stage 1 = .ssl ∧ p.shared.objects.count = 2)) = true := by
    decide +kernel
  obtain ⟨p, hp, hf⟩ := Machine.Reach.exists_of_run (G := Machine.Free) (fun _ _ _ => trivial) busyRun hrun
  obtain ⟨hout, hpings, hhold, hssl, hcount⟩ := of_decide_eq_true hf
  obtain ⟨s, hr, hc, hlive, -, hall⟩ := sessions_can_end hp
  rw [hc, hcount] at hall
  exact ⟨p, s, hp, hout, hpings, hhold, hssl, hr, hlive, (hall 0 (by decide)).2, (hall 1 (by decide)).2⟩

end Radrpc
