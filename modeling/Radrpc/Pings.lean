import Radrpc.Server.KeepAlive
import Radrpc.Client.Calls

/-!
# Pings and pongs

A client session starts a ping for `ping()`, a server session with keep-alive for its timer. The client remembers the
ping in a flag that its completion clears; the server in a state that every ping or pong frame resets.

* `ClientSession.Flagged` : the flag `m_ping` says whether a ping has not completed;
* `pongDiscipline` : a call of `ping()` returns what it has seen of the pong;
* `Unreset`, `ping_sees_pong` : a pong that no call of `ping()` forgets again is seen;
* `ping_misses_pong` : a pong that comes in before the call resets `m_pong` is missed;
* `Crossing`, `crossMachine` : a server session, and whether a frame has come in while a ping was not completed;
* `one_ping_in_flight` : no ping is started before the last one has completed, as long as the timer does not run out
  between such a frame and the completion;
* `two_pings_in_flight` : what happens otherwise.
-/

namespace Radrpc
open Words Conc

/-! ## The client -/

namespace ClientSession

def Flagged (s : ClientSession) : Prop := s.pings = if s.ping then 1 else 0

theorem Flagged.pings_le {s : ClientSession} (h : s.Flagged) : s.pings ≤ 1 := by
  rw [h]
  split
  · exact le_rfl
  · exact Nat.zero_le 1

/-- The io thread keeps the flag of the ping, and never takes a pong back. -/
structure KeepsPings (s s' : ClientSession) : Prop where
  flagged : s.Flagged → s'.Flagged
  pong : s.pong = true → s'.pong = true

theorem KeepsPings.of_same {s s' : ClientSession} (hping : s'.ping = s.ping) (hpings : s'.pings = s.pings)
    (hpong : s'.pong = s.pong) : KeepsPings s s' := by
  refine ⟨fun h => ?_, fun h => hpong.trans h⟩
  unfold Flagged
  rw [hpings, hping]
  exact h

theorem keepsPings_handlePing (s : ClientSession) : KeepsPings s s.handlePing := by
  unfold handlePing
  split
  · exact .of_same rfl rfl rfl
  · rename_i hping
    refine ⟨fun h => ?_, id⟩
    rw [Flagged, if_neg hping] at h
    exact congrArg (· + 1) h

theorem step_keepsPings {funcs : BroadcastFuncs} {s s' : ClientSession} {e : ClientEvent}
    (hs : s.step funcs e = some s') : KeepsPings s s' := by
  cases moves_of_step hs with
  | handlePing rest ping pings _ _ he =>
    have h := keepsPings_handlePing { s with posted := rest }
    rw [he] at h
    exact ⟨h.flagged, h.pong⟩
  | pong => exact ⟨id, fun _ => rfl⟩
  | onPing _ hpos =>
    refine ⟨fun h => ?_, id⟩
    have hone : s.pings = 1 := le_antisymm h.pings_le hpos
    show s.pings - 1 = 0
    rw [hone]
  | _ => exact .of_same rfl rfl rfl

end ClientSession

theorem SessOp.exec_flagged {t : Nat} {o : SessOp} {i : Clock} {s s' : ClientSession} {r : o.Res}
    (h : s.Flagged) (hs : o.exec t i s = some (r, s')) : s'.Flagged := by
  obtain ⟨_, _, _, _, _, rfl⟩ := SessOp.exec_frame hs
  exact h

theorem SessOp.exec_pong {t : Nat} {o : SessOp} {i : Clock} {s s' : ClientSession} {r : o.Res} (ho : o ≠ .resetPong)
    (h : s.pong = true) (hs : o.exec t i s = some (r, s')) : s'.pong = true := by
  cases o with
  | cache o =>
    obtain ⟨⟨_, _⟩, -, he⟩ := Option.map_eq_some_iff.mp hs
    cases he
    exact h
  | post callId resultId body =>
    cases hs
    exact h
  | waitWritten callback =>
    simp only [SessOp.exec] at hs
    split at hs
    · cases hs
      exact h
    · split at hs
      · cases hs
        exact h
      · cases hs
  | postPing =>
    cases hs
    exact h
  | resetPong => exact absurd rfl ho
  | waitPong =>
    simp only [SessOp.exec, h, if_true] at hs
    cases hs
    exact h

theorem flagged_of_reach {funcs : BroadcastFuncs} {responseTimeout : Time} {order : ByteOrder}
    {G : SessPool → Act SessCall Clock ClientEvent → Prop} {p : SessPool}
    (hp : (sessionMachine funcs responseTimeout).Reach G (.established order) p) : p.shared.Flagged :=
  Machine.invariant (I := ClientSession.Flagged) (show (ClientSession.established order).Flagged from rfl)
    (fun _ _ _ _ _ _ h hs => SessOp.exec_flagged h hs)
    (fun _ _ _ h hs => (ClientSession.step_keepsPings hs).flagged h) hp

/-! ## `ping()` and its pong -/

/-- What a call has seen of the pong: nothing yet, or the end of its wait. -/
def pongDiscipline : Discipline SessOp SessOp.Res (Option Bool) where
  pre := fun v _ => v = none
  post
    | _, .waitPong, pong => some pong
    | v, _, _ => v

def Sees : SessRet → Option Bool → Prop
  | .pinged pong, v => v = some pong
  | _, _ => True

theorem sessCall_pong (responseTimeout : Time) (c : SessCall) :
    pongDiscipline.Ok Sees none (c.body responseTimeout) := by
  cases c with
  | send callId body =>
    refine ⟨rfl, fun callback => ⟨rfl, fun ready => ?_⟩⟩
    cases ready with
    | true => trivial
    | false => trivial
  | sendRecv callId body recv =>
    refine ⟨rfl, fun id => ?_⟩
    show pongDiscipline.Ok Sees none (Prog.bind (if id = (0 : UInt64) then _ else _) _)
    by_cases hid : id = (0 : UInt64)
    · rw [if_pos hid]
      trivial
    · rw [if_neg hid]
      refine ⟨rfl, fun callback => ⟨rfl, fun ready => ?_⟩⟩
      cases ready with
      | false => trivial
      | true =>
        refine ⟨rfl, fun found => ?_⟩
        cases found with
        | invalid => trivial
        | ready row => exact ⟨rfl, fun _ => trivial⟩
        | blocked row => exact ⟨rfl, fun _ => ⟨rfl, fun _ => trivial⟩⟩
  | ping => exact ⟨rfl, fun _ => ⟨rfl, fun _ => ⟨rfl, fun pong => rfl⟩⟩⟩

theorem pong_of_reach {funcs : BroadcastFuncs} {responseTimeout : Time} {s₀ : ClientSession}
    {G : SessPool → Act SessCall Clock ClientEvent → Prop} {p : SessPool}
    (hp : (sessionMachine funcs responseTimeout).Reach G s₀ p) {t : Nat} {c : SessCall} {q : SessProg SessRet}
    (ht : p.thread t = some (c, q)) : ∃ v, pongDiscipline.Ok Sees v q := by
  obtain ⟨views, hl⟩ := Machine.linked (D := pongDiscipline) (Q := fun _ _ => Sees) (fun _ _ => none)
    (fun _ c => sessCall_pong responseTimeout c) hp
  obtain ⟨v, -, hok⟩ := hl.ok ht
  exact ⟨v, hok⟩

def unreset (p : SessPool) : Act SessCall Clock ClientEvent → Bool
  | .op t _ => decide (p.next t ≠ some .resetPong)
  | _ => true

/-- The pong is there, and the call of `ping()` on thread `t` has not missed it. -/
structure PongSeen (t : Nat) (p : SessPool) : Prop where
  pong : p.shared.pong = true
  pinging : ∃ q v, p.thread t = some (.ping, q) ∧ pongDiscipline.Ok Sees v q ∧ v ≠ some false

theorem PongSeen.step {funcs : BroadcastFuncs} {responseTimeout : Time} {t : Nat} {p p' : SessPool}
    {a : Act SessCall Clock ClientEvent} (h : PongSeen t p) (hg : unreset p a = true)
    (hs : (sessionMachine funcs responseTimeout).step p a = some p') : PongSeen t p' := by
  obtain ⟨q, v, ht, hok, hv⟩ := h.pinging
  cases a with
  | call t' c =>
    obtain ⟨hfresh, rfl⟩ := Machine.step_call hs
    have hne : t ≠ t' := fun he => by
      rw [he, hfresh] at ht
      cases ht
    exact ⟨h.pong, q, v, (Function.update_of_ne hne _ _).trans ht, hok, hv⟩
  | op t' i =>
    obtain ⟨c, o, k, r, s, ht', hex, rfl⟩ := Machine.step_op hs
    have ho : o ≠ .resetPong := by
      rw [unreset, Machine.next_of_thread ht', decide_eq_true_eq] at hg
      exact fun he => hg (congrArg some he)
    refine ⟨SessOp.exec_pong ho h.pong hex, ?_⟩
    by_cases htt : t = t'
    · subst htt
      rw [ht] at ht'
      cases ht'
      refine ⟨k r, pongDiscipline.post v o r, Function.update_self _ _ _, hok.2 r, ?_⟩
      obtain rfl : v = none := hok.1
      cases o with
      | waitPong =>
        simp only [sessionMachine, SessOp.exec, h.pong, if_true] at hex
        cases hex
        exact fun hf => by cases hf
      | _ => exact fun hf => by cases hf
    · exact ⟨q, v, (Function.update_of_ne htt _ _).trans ht, hok, hv⟩
  | env e =>
    obtain ⟨s, he, rfl⟩ := Machine.step_env hs
    exact ⟨(ClientSession.step_keepsPings he).pong h.pong, q, v, ht, hok, hv⟩

/-- **A ping sees its pong.** When the io thread handles a pong while a call of `ping()` is in progress, and from then on
no call of `ping()` resets `m_pong`, the call returns true: its wait ends at once, whether its time has run out or not. -/
theorem ping_sees_pong {funcs : BroadcastFuncs} {responseTimeout : Time} {order : ByteOrder} {p p' r : SessPool}
    {t : Nat} {q : SessProg SessRet} {as : List (Act SessCall Clock ClientEvent)}
    (hp : (sessionMachine funcs responseTimeout).Reach Machine.Free (.established order) p)
    (ht : p.thread t = some (.ping, q)) (hq : q.result = none)
    (hs : (sessionMachine funcs responseTimeout).step p (.env (.control .pong)) = some p')
    (hr : (sessionMachine funcs responseTimeout).run unreset p' as = some r) :
    (∀ pong, r.result t = some (.ping, .pinged pong) → pong = true) ∧
      (r.next t = some .waitPong → ∀ i, SessOp.exec t .waitPong i r.shared = some (true, r.shared)) := by
  obtain ⟨v, hok⟩ := pong_of_reach hp ht
  have hv : v = none := by
    cases q with
    | ret b => cases hq
    | op o k => exact hok.1
  obtain ⟨s, he, rfl⟩ := Machine.step_env hs
  have hpong : s.pong = true := by
    simp only [sessionMachine, ClientSession.step] at he
    split at he
    · cases he
      rfl
    · cases he
  have h₀ : PongSeen t { p with shared := s } := ⟨hpong, q, v, ht, hok, fun hf => by rw [hv] at hf; cases hf⟩
  have h := (Machine.Steps.of_run (G := fun p a => unreset p a = true) (fun _ _ h => h) hr).keeps (P := PongSeen t)
    (fun _ _ _ h hg hs => h.step hg hs) h₀
  obtain ⟨q', w, ht', hok', hw⟩ := h.pinging
  refine ⟨fun pong hres => ?_, fun _ i => ?_⟩
  · rw [Machine.result_eq_some hres] at ht'
    cases ht'
    obtain rfl : w = some pong := hok'
    cases pong with
    | true => rfl
    | false => exact absurd rfl hw
  · rw [SessOp.exec, if_pos h.pong]

/-- A call of `ping()` has reset `m_pong` and waits; its ping has been sent. -/
def pingRun : List (Act SessCall Clock ClientEvent) :=
  [.call 0 .ping, .op 0 {}, .op 0 {}, .env .runPosted, .env .onPing]

/-- The pong of a call that already waits. -/
theorem ping_sees_pong_waiting : ∃ p p' r : SessPool,
    (sessionMachine (fun _ => none) 5).Reach Machine.Free (.established .little) p ∧
    p.next 0 = some .waitPong ∧ (sessionMachine (fun _ => none) 5).step p (.env (.control .pong)) = some p' ∧
    (sessionMachine (fun _ => none) 5).run unreset p' [.op 0 { timeout := true }] = some r ∧
    ∀ pong, r.result 0 = some (.ping, .pinged pong) → pong = true := by
  have hrun : ((sessionMachine (fun _ => none) 5).run (fun _ _ => true) (.initial (.established .little)) pingRun).any
      (fun p => decide (p.next 0 = some .waitPong) &&
        decide ((p.thread 0).any fun q => decide (q.1 = .ping)) &&
        ((sessionMachine (fun _ => none) 5).step p (.env (.control .pong))).any fun p' =>
          ((sessionMachine (fun _ => none) 5).run unreset p' [.op 0 { timeout := true }]).isSome) = true := by
    decide +kernel
  obtain ⟨p, hp, hf⟩ := Machine.Reach.exists_of_run (fun _ _ _ => trivial) pingRun hrun
  simp only [Bool.and_eq_true, decide_eq_true_eq] at hf
  obtain ⟨⟨hnext, hping⟩, hf⟩ := hf
  obtain ⟨p', hs, hf⟩ := (Option.any_eq_true _ _).mp hf
  obtain ⟨r, hr⟩ := Option.isSome_iff_exists.mp hf
  obtain ⟨c, k, ht⟩ := Machine.next_eq_some hnext
  obtain rfl : c = .ping := by simpa [ht] using hping
  exact ⟨p, p', r, hp, hnext, hs, hr, (ping_sees_pong hp ht rfl hs hr).1⟩

/-- The ping of a call is sent, completes and is answered before the call resets `m_pong` : the pong is missed. -/
theorem ping_misses_pong : ∃ p p' r : SessPool,
    (sessionMachine (fun _ => none) 5).Reach Machine.Free (.established .little) p ∧
    p.next 0 = some .resetPong ∧ (sessionMachine (fun _ => none) 5).step p (.env (.control .pong)) = some p' ∧
    (sessionMachine (fun _ => none) 5).run (fun _ _ => true) p' [.op 0 {}, .op 0 { timeout := true }] = some r ∧
    r.result 0 = some (.ping, .pinged false) := by
  have hrun : ((sessionMachine (fun _ => none) 5).run (fun _ _ => true) (.initial (.established .little))
      [.call 0 .ping, .op 0 {}, .env .runPosted, .env .onPing]).any
      (fun p => decide (p.next 0 = some .resetPong) &&
        ((sessionMachine (fun _ => none) 5).step p (.env (.control .pong))).any fun p' =>
          ((sessionMachine (fun _ => none) 5).run (fun _ _ => true) p' [.op 0 {}, .op 0 { timeout := true }]).any
            fun r => decide (r.result 0 = some (.ping, .pinged false))) = true := by
    decide +kernel
  obtain ⟨p, hp, hf⟩ := Machine.Reach.exists_of_run (fun _ _ _ => trivial) _ hrun
  simp only [Bool.and_eq_true, decide_eq_true_eq] at hf
  obtain ⟨p', hs, hf'⟩ := (Option.any_eq_true _ _).mp hf.2
  obtain ⟨r, hr, hres⟩ := (Option.any_eq_true _ _).mp hf'
  exact ⟨p, p', r, hp, hf.1, hs, hr, of_decide_eq_true hres⟩

/-! ## The server -/

/-- A server session, and whether a ping or pong frame has come in while a ping was not completed: neither the completion
nor a close request has come since. -/
structure Crossing where
  session : ServerSession
  crossed : Bool := false

namespace Crossing

def crossedAfter (x : Crossing) : ServerEvent → Bool
  | .control kind _ => if kind = .close then x.crossed else decide (0 < x.session.pings)
  | .onPing => x.crossed && decide (1 < x.session.pings)
  | e => x.crossed && !x.session.closesOn e

def step (x : Crossing) (e : ServerEvent) : Option Crossing := (x.session.step e).map fun s => ⟨s, x.crossedAfter e⟩

def established (boundFuncs : BoundFuncs) (order : ByteOrder) (pingDelay now : Time) : Crossing :=
  ⟨.established boundFuncs order pingDelay now, false⟩

/-- A step other than this one: `on_timer`, after the deadline and with the stream open, while a frame has crossed. -/
def Clear (x : Crossing) (e : ServerEvent) : Prop :=
  x.session.timedOut e = true → ServerSession.seesOpen e = true → x.crossed = false

end Crossing

/-- The runs of a server session, with the frames that cross its pings. -/
def crossMachine : Machine Crossing Empty Empty (fun _ => Unit) Empty Unit ServerEvent where
  body := fun c => nomatch c
  exec := fun _ o => nomatch o
  env := fun e x => x.step e

abbrev CrossPool := Pool Crossing Empty Empty (fun _ => Unit) Empty

/-- The timer does not run out while a frame has crossed a ping. -/
def Uncrossed (p : CrossPool) : Act Empty Unit ServerEvent → Prop
  | .env e => p.shared.Clear e
  | _ => True

/-- One ping at most, and a frame has crossed it if the ping state allows the next one. -/
structure PingsOnce (x : Crossing) : Prop where
  delay : x.session.pingDelay ≠ 0
  ready : ∀ ec ∈ x.session.timerReady, ec ≠ .other
  single : x.session.pings ≤ 1
  crossed : x.crossed = true ↔ 0 < x.session.pings ∧ x.session.pingState = .pingNext

namespace PingsOnce

variable {x x' : Crossing}

theorem established (boundFuncs : BoundFuncs) (order : ByteOrder) {pingDelay : Time} (hd : pingDelay ≠ 0) (now : Time) :
    PingsOnce (.established boundFuncs order pingDelay now) := by
  unfold Crossing.established ServerSession.established
  dsimp only
  rw [if_pos hd]
  exact ⟨hd, fun _ h => (by cases h), Nat.zero_le 1, fun h => (by cases h), fun h => absurd h.1 (lt_irrefl 0)⟩

theorem quiet (h : PingsOnce x) {e : ServerEvent} (ht : ∀ now isOpen, e ≠ .onTimer now isOpen) (hp : e ≠ .onPing)
    (hc : ∀ kind now, e ≠ .control kind now) (hs : x.step e = some x') : PingsOnce x' := by
  obtain ⟨s, hstep, rfl⟩ := Option.map_eq_some_iff.mp hs
  have hafter : x.crossedAfter e = (x.crossed && !x.session.closesOn e) := by
    cases e with
    | onTimer now isOpen => exact absurd rfl (ht now isOpen)
    | onPing => exact absurd rfl hp
    | control kind now => exact absurd rfl (hc kind now)
    | _ => rfl
  have hpings : s.pings = x.session.pings := (ServerSession.step_sameHandlers h.delay ht hp hstep).pings
  have hsingle : s.pings ≤ 1 := hpings.le.trans h.single
  rw [hafter]
  cases ServerSession.step_keepAlive h.delay hstep with
  | asks now hclose _ ha =>
    rw [hclose]
    refine ⟨fun hd => h.delay (ha.pingDelay ▸ hd), fun ec hec => ?_, hsingle, ?_⟩
    · rcases ha.timerReady ec hec with hec | rfl
      · exact h.ready ec hec
      · exact fun hf => by cases hf
    · dsimp only
      rw [ha.pingState, Bool.not_true, Bool.and_false]
      exact ⟨fun hf => (by cases hf), fun hf => (by cases hf.2)⟩
  | keeps hclose hpd hps _ _ htr _ _ =>
    rw [hclose]
    refine ⟨fun hd => h.delay (hpd ▸ hd), fun ec hec => ?_, hsingle, ?_⟩
    · rcases htr ec hec with hec | rfl
      · exact h.ready ec hec
      · exact fun hf => by cases hf
    · dsimp only
      rw [hpings, hps, Bool.not_false, Bool.and_true]
      exact h.crossed
  | timer now isOpen => exact absurd rfl (ht now isOpen)
  | control kind now => exact absurd rfl (hc kind now)

theorem completion (h : PingsOnce x) (hs : x.step .onPing = some x') : PingsOnce x' := by
  obtain ⟨s, hstep, rfl⟩ := Option.map_eq_some_iff.mp hs
  obtain ⟨hpos, rfl⟩ := ServerSession.step_onPing hstep
  have hone : x.session.pings = 1 := le_antisymm h.single hpos
  refine ⟨h.delay, h.ready, (Nat.sub_le _ _).trans h.single, ?_⟩
  simp [Crossing.crossedAfter, hone]

theorem control (h : PingsOnce x) {kind : FrameKind} {now : Time} (hs : x.step (.control kind now) = some x') :
    PingsOnce x' := by
  obtain ⟨s, hstep, rfl⟩ := Option.map_eq_some_iff.mp hs
  have hsess : s = x.session.onControlCallback kind now := (Option.some.inj hstep).symm
  by_cases hk : kind = .close
  · have hafter : x.crossedAfter (.control kind now) = x.crossed := if_pos hk
    rw [ServerSession.onControlCallback, if_pos hk] at hsess
    rw [hafter, hsess]
    exact ⟨h.delay, h.ready, h.single, h.crossed⟩
  · have hafter : x.crossedAfter (.control kind now) = decide (0 < x.session.pings) := if_neg hk
    rw [ServerSession.onControlCallback, if_neg hk] at hsess
    rw [hafter, hsess]
    refine ⟨h.delay, fun ec hec => ?_, h.single, ?_⟩
    · rcases List.mem_append.mp hec with hec | hec
      · exact h.ready ec hec
      · rw [List.eq_of_mem_replicate hec]
        exact fun hf => by cases hf
    · exact decide_eq_true_iff.trans ⟨fun hpos => ⟨hpos, rfl⟩, And.left⟩

/-- A handler of the timer runs. It starts a second ping exactly if a frame has crossed the first one. -/
theorem timer (h : PingsOnce x) {now : Time} {isOpen : Bool} (hs : x.step (.onTimer now isOpen) = some x') :
    (x.Clear (.onTimer now isOpen) → PingsOnce x') ∧
      ((x.session.pings < x'.session.pings → x.session.pings = 0) ↔ x.Clear (.onTimer now isOpen)) := by
  obtain ⟨s, hstep, rfl⟩ := Option.map_eq_some_iff.mp hs
  obtain ⟨ec, rest, hr, hon⟩ := ServerSession.step_onTimer h.ready hstep
  have hrest : ∀ ec ∈ rest, ec ≠ .other := fun ec hec => h.ready ec (by rw [hr]; exact List.mem_cons_of_mem _ hec)
  have hmoved : ∀ s : ServerSession, s.timerReady = rest → ∀ delay,
      ∀ ec ∈ (s.expiresAfter now delay).asyncWait.timerReady, ec ≠ .other := by
    intro s hs delay ec hec
    rcases List.mem_append.mp hec with hec | hec
    · exact hrest ec (hs ▸ hec)
    · rw [List.eq_of_mem_replicate hec]
      exact fun hf => by cases hf
  have hafter : x.crossedAfter (.onTimer now isOpen) = x.crossed := Bool.and_true _
  rw [hafter]
  dsimp only
  cases hon with
  | pings hout hopen hnext =>
    have hlt : x.session.pings < x.session.pings + 1 := Nat.lt_succ_self _
    constructor
    · intro hclear
      have hcrossed := hclear hout hopen
      have hnone : x.session.pings = 0 := by
        by_contra hne
        rw [h.crossed.mpr ⟨Nat.pos_of_ne_zero hne, hnext⟩] at hcrossed
        cases hcrossed
      refine ⟨h.delay, hmoved _ rfl _, ?_, fun hc => ?_, fun hc => (by cases hc.2)⟩
      · show x.session.pings + 1 ≤ 1
        rw [hnone]
      · rw [hcrossed] at hc
        cases hc
    · constructor
      · intro hnone _ _
        apply Bool.eq_false_iff.mpr
        intro hc
        exact absurd (hnone hlt) (h.crossed.mp hc).1.ne'
      · intro hclear _
        by_contra hne
        have hc := h.crossed.mpr ⟨Nat.pos_of_ne_zero hne, hnext⟩
        rw [hclear hout hopen] at hc
        cases hc
  | stops _ hopen =>
    have hsame := ServerSession.sameTimer_shutdown { x.session with timerReady := rest }
    have hclear : x.Clear (.onTimer now isOpen) := fun _ ho => Bool.eq_false_iff.mpr fun hc =>
      hopen ho (h.crossed.mp hc).2
    refine ⟨fun _ => ⟨fun hd => h.delay (hsame.pingDelay ▸ hd), ?_, hsame.pings.le.trans h.single, ?_⟩, fun _ => hclear,
      fun _ hlt => absurd hlt hsame.pings.le.not_gt⟩
    · dsimp only
      rw [hsame.timerReady]
      exact hrest
    · dsimp only
      rw [hsame.pings, hsame.pingState]
      exact h.crossed
  | waits hnot =>
    have hclear : x.Clear (.onTimer now isOpen) := fun hout _ => absurd (hnot.symm.trans hout) Bool.false_ne_true
    exact ⟨fun _ => ⟨h.delay, hmoved _ rfl _, h.single, h.crossed⟩, fun _ => hclear, fun _ hlt => absurd hlt (lt_irrefl _)⟩

theorem step (h : PingsOnce x) {e : ServerEvent} (hs : x.step e = some x') :
    (x.Clear e → PingsOnce x') ∧ ((x.session.pings < x'.session.pings → x.session.pings = 0) ↔ x.Clear e) := by
  have hquiet : PingsOnce x' → x'.session.pings ≤ x.session.pings → x.session.timedOut e = false →
      (x.Clear e → PingsOnce x') ∧ ((x.session.pings < x'.session.pings → x.session.pings = 0) ↔ x.Clear e) := by
    intro h' hle hout
    refine ⟨fun _ => h', fun _ ho => ?_, fun _ hlt => absurd hlt hle.not_gt⟩
    rw [hout] at ho
    cases ho
  obtain ⟨s, hstep, hx⟩ := Option.map_eq_some_iff.mp hs
  have hsame : (∀ now isOpen, e ≠ .onTimer now isOpen) → e ≠ .onPing → x'.session.pings ≤ x.session.pings := by
    intro ht hp
    rw [← hx]
    exact (ServerSession.step_sameHandlers h.delay ht hp hstep).pings.le
  cases e with
  | onTimer now isOpen => exact h.timer hs
  | onPing =>
    refine hquiet (h.completion hs) ?_ rfl
    obtain ⟨-, rfl⟩ := ServerSession.step_onPing hstep
    rw [← hx]
    exact Nat.sub_le _ _
  | control kind now => exact hquiet (h.control hs) (hsame (fun _ _ hf => by cases hf) fun hf => by cases hf) rfl
  | _ =>
    exact hquiet (h.quiet (fun _ _ hf => by cases hf) (fun hf => by cases hf) (fun _ _ hf => by cases hf) hs)
      (hsame (fun _ _ hf => by cases hf) fun hf => by cases hf) rfl

end PingsOnce

theorem pingsOnce_of_reach {boundFuncs : BoundFuncs} {order : ByteOrder} {pingDelay now : Time} (hd : pingDelay ≠ 0)
    {p : CrossPool} (hp : crossMachine.Reach Uncrossed (.established boundFuncs order pingDelay now) p) :
    PingsOnce p.shared := by
  induction hp with
  | start => exact .established boundFuncs order hd now
  | @step p p' a _ hG hs ih =>
    cases a with
    | call t c => exact c.elim
    | op t i =>
      obtain ⟨c, o, -⟩ := Machine.step_op hs
      exact o.elim
    | env e =>
      obtain ⟨x, hx, rfl⟩ := Machine.step_env hs
      exact (ih.step hx).1 hG

/-- **One ping in flight.** A client session never starts a ping before the last one has completed. Nor does a server
session with keep-alive in any run in which the timer does not run out, with the stream open, while a ping or pong frame
has crossed a ping; and the step that does not keep to this starts a second ping. -/
theorem one_ping_in_flight {funcs : BroadcastFuncs} {responseTimeout : Time} {order : ByteOrder} {p : SessPool}
    (hp : (sessionMachine funcs responseTimeout).Reach Machine.Free (.established order) p)
    {boundFuncs : BoundFuncs} {serverOrder : ByteOrder} {pingDelay now : Time} (hd : pingDelay ≠ 0) {q : CrossPool}
    (hq : crossMachine.Reach Uncrossed (.established boundFuncs serverOrder pingDelay now) q) :
    p.shared.pings ≤ 1 ∧
      (∀ e s, p.shared.step funcs e = some s → p.shared.pings < s.pings → p.shared.pings = 0) ∧
      q.shared.session.pings ≤ 1 ∧
      ∀ e x, q.shared.step e = some x →
        ((q.shared.session.pings < x.session.pings → q.shared.session.pings = 0) ↔ q.shared.Clear e) := by
  have hflag := flagged_of_reach hp
  have hone := pingsOnce_of_reach hd hq
  refine ⟨hflag.pings_le, fun e s hs hlt => ?_, hone.single, fun e x hs => (hone.step hs).2⟩
  have hle := ((ClientSession.step_keepsPings hs).flagged hflag).pings_le
  omega

def uncrossed (p : CrossPool) : Act Empty Unit ServerEvent → Bool
  | .env e => !(p.shared.session.timedOut e && ServerSession.seesOpen e && p.shared.crossed)
  | _ => true

theorem uncrossed_sound (p : CrossPool) (a : Act Empty Unit ServerEvent) (h : uncrossed p a = true) : Uncrossed p a := by
  cases a with
  | call t c => trivial
  | op t i => trivial
  | env e =>
    intro hout hopen
    simpa [uncrossed, hout, hopen] using h

/-- A ping is sent at 10 and completes; a ping of the client comes in at 11. -/
def pongedRun : List (Act Empty Unit ServerEvent) :=
  [.env (.timerExpires 10), .env (.onTimer 10 true), .env .onPing, .env (.control .ping 11), .env (.onTimer 11 true),
    .env (.timerExpires 21)]

/-- The second ping is sent after the first one has completed. -/
theorem one_ping_in_flight_answered : ∃ (p : SessPool) (q : CrossPool) (x : Crossing),
    (sessionMachine (fun _ => none) 5).Reach Machine.Free (.established .little) p ∧ p.shared.pings ≤ 1 ∧
    crossMachine.Reach Uncrossed (.established closingFuncs .little 10 0) q ∧
    q.shared.step (.onTimer 21 true) = some x ∧ q.shared.session.pings = 0 ∧ x.session.pings = 1 := by
  have hrun : ((sessionMachine (fun _ => none) 5).run (fun _ _ => true) (.initial (.established .little)) pingRun).any
      (fun _ => true) = true := by
    decide +kernel
  obtain ⟨p, hp, -⟩ := Machine.Reach.exists_of_run (fun _ _ _ => trivial) pingRun hrun
  have hrun' : (crossMachine.run uncrossed (.initial (.established closingFuncs .little 10 0)) pongedRun).any
      (fun q => (q.shared.step (.onTimer 21 true)).any fun x =>
        decide (q.shared.session.pings < x.session.pings) && decide (x.session.pings = 1) &&
          !q.shared.crossed) = true := by
    decide +kernel
  obtain ⟨q, hq, hf⟩ := Machine.Reach.exists_of_run uncrossed_sound pongedRun hrun'
  obtain ⟨x, hs, hf⟩ := (Option.any_eq_true _ _).mp hf
  simp only [Bool.and_eq_true, decide_eq_true_eq, Bool.not_eq_true'] at hf
  obtain ⟨⟨hlt, hone⟩, hcrossed⟩ := hf
  obtain ⟨hle, -, -, hstep⟩ := one_ping_in_flight hp (by decide : (10 : Time) ≠ 0) hq
  exact ⟨p, q, x, hp, hle, hq, hs, (hstep _ x hs).mpr (fun _ _ => hcrossed) hlt, hone⟩

/-- A ping is sent at 10 and does not complete; a ping of the client comes in at 11, and the timer runs out again at 21:
two pings are in flight. -/
theorem two_pings_in_flight : ∃ q : Pool ServerSession Empty Empty (fun _ => Unit) Empty,
    serverMachine.Reach Machine.Free (.established closingFuncs .little 10 0) q ∧ q.shared.pings = 2 := by
  have hrun : (serverMachine.run (fun _ _ => true) (.initial (.established closingFuncs .little 10 0))
      [.env (.timerExpires 10), .env (.onTimer 10 true), .env (.control .ping 11), .env (.onTimer 11 true),
        .env (.timerExpires 21), .env (.onTimer 21 true)]).any (fun q => decide (q.shared.pings = 2)) = true := by
    decide +kernel
  obtain ⟨q, hq, hf⟩ := Machine.Reach.exists_of_run (fun _ _ _ => trivial) _ hrun
  exact ⟨q, hq, of_decide_eq_true hf⟩

end Radrpc
