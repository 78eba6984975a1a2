import Radrpc.Client.Session
import Radrpc.Server.Dispatch

/-!
# The write pumps of both ends

Neither session stores whether a write is running: both infer it from the size of their queue. Seen from the queue,
each of them is a `Pump`.

* `ServerSession.pump`, `ClientSession.pump` : the pump that a session implements;
* `ServerSession.step_pump`, `ClientSession.step_pump` : every handler is a step of the pump;
* `write_pump_discipline` : what follows for every reachable state of both ends.
-/

namespace Radrpc
open Conc Pump

/-! ## The server -/

namespace ServerSession

def pump (s : ServerSession) : Pump.State DataPush := ⟨s.queue, s.writing, s.accepted, s.started, s.writeError⟩

def blocked (s : ServerSession) : Bool := s.close || s.closeReceived || s.writeError || s.readError

theorem blocked_eq_false {s : ServerSession} : s.blocked = false ↔
    s.close = false ∧ s.closeReceived = false ∧ s.writeError = false ∧ s.readError = false := by
  simp [blocked, and_assoc]

theorem write_pump (s : ServerSession) : s.write.pump = s.pump.write := by
  cases h : s.queue with
  | nil => simp [write, State.write, pump, h]
  | cons m l => simp [write, State.write, pump, h]

theorem handleSend_pump {s : ServerSession} (h : s.blocked = false) (data : DataPush) :
    (s.handleSend data).pump = s.pump.offer queueSendMax data := by
  unfold handleSend
  rw [if_neg (by simpa [blocked] using h)]
  split
  · rename_i hfull
    exact (if_pos hfull).symm
  · rename_i hfull
    refine Eq.trans ?_ (if_neg hfull).symm
    dsimp only
    split
    · rename_i hlen
      exact (if_pos hlen).symm
    · rename_i hlen
      rw [write_pump]
      exact (if_neg hlen).symm

theorem handleSend_blocked (s : ServerSession) (data : DataPush) : (s.handleSend data).blocked = s.blocked := by
  obtain ⟨_, _, _, _, he⟩ := s.handleSend_frame data
  rw [he]
  rfl

theorem closeSession_pump (s : ServerSession) (now : Time) : (s.closeSession now).pump = s.pump := by
  obtain ⟨_, _, _, _, _, _, _, he⟩ := s.closeSession_frame now
  rw [he]
  rfl

theorem handleSend_step (s : ServerSession) (data : DataPush) (done : Prop) :
    State.Step queueSendMax ((s.handleSend data).blocked = false) done s.pump (s.handleSend data).pump := by
  rw [handleSend_blocked]
  cases h : s.blocked with
  | false =>
    rw [handleSend_pump h]
    exact .offer data rfl (blocked_eq_false.mp h).2.2.1
  | true =>
    have he : s.handleSend data = s := by
      unfold handleSend
      rw [if_pos (by simpa [blocked] using h)]
    rw [he]
    exact .same

theorem callFunction_step (s : ServerSession) (now : Time) (done : Prop) :
    State.Step queueSendMax ((s.callFunction now).blocked = false) done s.pump (s.callFunction now).pump := by
  cases hf : handlerFor s.boundFuncs s.order s.receiveBuffer with
  | none =>
    obtain ⟨_, _, _, he⟩ := callFunction_none hf now
    rw [he]
    exact .same
  | some f =>
    rw [callFunction_some hf]
    split
    · rw [closeSession_pump]
      exact .same
    split
    · exact handleSend_step { s.called f with response := [] } _ done
    · exact .same

theorem onWrite_pump {s : ServerSession} {ec : Bool}
    (h : ¬ (ec || s.close || s.closeReceived || s.readError) = true) (now : Time) :
    (s.onWrite ec now).pump = if s.queue.tail = [] then { s.pump with queue := s.queue.tail }
      else { s.pump with queue := s.queue.tail }.write := by
  unfold onWrite
  rw [if_neg h]
  dsimp only
  split
  · rfl
  · rw [write_pump]
    rfl

theorem onWrite_blocked {s : ServerSession} {ec : Bool}
    (h : ¬ (ec || s.close || s.closeReceived || s.readError) = true) (hw : s.writeError = false) (now : Time) :
    (s.onWrite ec now).blocked = false := by
  have hb : s.blocked = false := by
    simp only [Bool.or_eq_true, not_or, Bool.not_eq_true] at h
    exact blocked_eq_false.mpr ⟨h.1.1.2, h.1.2, hw, h.2⟩
  unfold onWrite
  rw [if_neg h]
  dsimp only
  split
  · exact hb
  · obtain ⟨_, _, he⟩ := write_frame { s with queue := s.queue.tail }
    rw [he]
    exact hb

/-- Every handler is a step of the pump; only the completion of a write takes a message away. -/
theorem step_pump {s s' : ServerSession} {e : ServerEvent} (hinv : s.pump.Inv queueSendMax)
    (h : s.step e = some s') :
    State.Step queueSendMax (s'.blocked = false) (∃ i ec now, e = .onWrite i ec now) s.pump s'.pump := by
  cases e with
  | send data =>
    obtain rfl := Option.some.inj h
    exact .same
  | handleSend =>
    simp only [step] at h
    split at h
    · cases h
    · rename_i data rest _
      obtain rfl := Option.some.inj h
      exact handleSend_step { s with posted := rest } data _
  | onWrite i ec now =>
    simp only [step] at h
    split at h
    · rename_i hi
      obtain rfl := Option.some.inj h
      obtain ⟨hq, he, hw⟩ := hinv.completed hi
      have he' : s.writing.eraseIdx i = [] := he
      rw [he']
      by_cases hc : (ec || s.close || s.closeReceived || s.readError) = true
      · have hp : (({ s with writing := [] } : ServerSession).onWrite ec now).pump = s.pump.abort := by
          unfold onWrite
          rw [if_pos (by exact hc), closeSession_pump]
          rfl
        rw [hp]
        exact .abort ⟨i, ec, now, rfl⟩
      · have hp : (({ s with writing := [] } : ServerSession).onWrite ec now).pump = s.pump.advance :=
          onWrite_pump (s := { s with writing := [] }) hc now
        rw [hp]
        exact .advance (onWrite_blocked (s := { s with writing := [] }) hc hw now) ⟨i, ec, now, rfl⟩ hq
    · cases h
  | onRead ec bytes now =>
    simp only [step] at h
    split at h
    · obtain rfl := Option.some.inj h
      unfold onRead
      split
      · rw [closeSession_pump]
        exact .same
      · dsimp only
        split
        · exact callFunction_step { s with reading := false, receiveBuffer := s.receiveBuffer ++ bytes } now _
        · exact .same
    · cases h
  | timerExpires now =>
    simp only [step] at h
    split at h
    · obtain rfl := Option.some.inj h
      exact .same
    · cases h
  | onTimer now isOpen =>
    simp only [step] at h
    split at h
    · cases h
    · rename_i ec rest _
      obtain rfl := Option.some.inj h
      obtain ⟨_, _, _, _, _, _, _, _, hf⟩ := onTimer_frame { s with timerReady := rest } ec now isOpen
      rw [hf]
      exact .same
  | control kind now =>
    simp only [step, onControlCallback] at h
    split at h
    · obtain rfl := Option.some.inj h
      exact .same
    · obtain rfl := Option.some.inj h
      exact .same
  | onPing | onShutdown =>
    simp only [step] at h
    split at h
    · obtain rfl := Option.some.inj h
      exact .same
    · cases h

end ServerSession

/-! ## The client -/

/-- The io thread is in `on_write`, between the completion and the update of the queue. -/
def IoState.busy : IoState → Bool
  | .popping => true
  | .clearing _ => true
  | _ => false

namespace ClientSession

/-- The pump of a client session: a write counts as outstanding until `on_write` has updated the queue. -/
def pump (s : ClientSession) : Pump.State DataSend :=
  ⟨s.queue.entries, if s.io.busy then s.queue.entries.head?.toList else s.writing, s.accepted, s.started,
    s.writeError⟩

def blocked (s : ClientSession) : Bool := s.close || s.closeReceived || s.writeError || s.readError

/-- The pump runs, and inside `on_write` no write is outstanding. -/
structure PumpInv (s : ClientSession) : Prop where
  maxEntries : s.queue.maxEntries = queueSendMax
  inv : s.pump.Inv queueSendMax
  busy : s.io.busy = true → s.writing = [] ∧ s.queue.entries ≠ []
  popping : s.io = .popping → s.blocked = false

theorem PumpInv.established (order : Words.ByteOrder) : PumpInv (.established order) :=
  ⟨rfl, State.Inv.empty _, fun h => (by cases h), fun h => (by cases h)⟩

variable {s s' : ClientSession}

theorem pump_of_idle (h : s.io.busy = false) :
    s.pump = ⟨s.queue.entries, s.writing, s.accepted, s.started, s.writeError⟩ := by
  simp [pump, h]

theorem write_pump (hio : s.io.busy = false) : s.write.pump = s.pump.write := by
  cases h : s.queue.entries with
  | nil => simp [write, DataQueue.front, State.write, pump, h]
  | cons m l => simp [write, DataQueue.front, State.write, pump, h, hio]

theorem handleSend_pump (hio : s.io.busy = false) (hmax : s.queue.maxEntries = queueSendMax) (h : s.blocked = false)
    (m : DataSend) : (s.handleSend m).pump = s.pump.offer queueSendMax m := by
  unfold handleSend DataQueue.queue
  rw [if_neg (by simpa [blocked] using h), hmax, pump_of_idle hio]
  by_cases hfull : queueSendMax ≤ s.queue.entries.length
  · rw [if_pos hfull]
    dsimp only
    rw [pump_of_idle hio]
    exact (if_pos hfull).symm
  · rw [if_neg hfull]
    refine Eq.trans ?_ (if_neg hfull).symm
    dsimp only
    by_cases hlen : 1 < (s.queue.entries ++ [m]).length
    · rw [if_pos (by simpa [DataQueue.isWriting] using hlen), pump_of_idle (by exact hio)]
      exact (if_pos hlen).symm
    · rw [if_neg (by simpa [DataQueue.isWriting] using hlen), write_pump (by exact hio), pump_of_idle (by exact hio)]
      exact (if_neg hlen).symm

theorem handleSend_maxEntries (s : ClientSession) (m : DataSend) :
    (s.handleSend m).queue.maxEntries = s.queue.maxEntries := by
  unfold handleSend DataQueue.queue
  split
  · rfl
  · split
    · rfl
    · rename_i q hq
      have hmax : q.maxEntries = s.queue.maxEntries := by
        split at hq
        · cases hq
        · cases hq
          rfl
      dsimp only
      split
      · exact hmax
      · obtain ⟨_, _, he⟩ := write_frame { s with queue := q, accepted := s.accepted ++ [m] }
        rw [he]
        exact hmax

theorem PumpInv.silent {free done : Prop} (h : PumpInv s) (h1 : s'.queue = s.queue) (h2 : s'.writing = s.writing)
    (h3 : s'.io.busy = s.io.busy) (h4 : s'.accepted = s.accepted) (h5 : s'.started = s.started)
    (h6 : s'.writeError = s.writeError) (h7 : s'.io = .popping → s'.blocked = false) :
    PumpInv s' ∧ State.Step queueSendMax free done s.pump s'.pump := by
  have hp : s'.pump = s.pump := by simp only [pump, h1, h2, h3, h4, h5, h6]
  exact ⟨⟨h1 ▸ h.maxEntries, hp ▸ h.inv, by rw [h1, h2, h3]; exact h.busy, h7⟩, hp ▸ .same⟩

theorem handleSend_step (h : PumpInv s) (hio : s.io = .idle) (m : DataSend) (done : Prop) :
    PumpInv (s.handleSend m) ∧
      State.Step queueSendMax ((s.handleSend m).blocked = false) done s.pump (s.handleSend m).pump := by
  have hbusy : s.io.busy = false := by rw [hio]; rfl
  obtain ⟨_, _, _, _, he⟩ := s.handleSend_frame m
  have hio' : (s.handleSend m).io = .idle := by rw [he]; exact hio
  have hb : (s.handleSend m).blocked = s.blocked := by rw [he]; rfl
  have hstep : State.Step queueSendMax ((s.handleSend m).blocked = false) done s.pump (s.handleSend m).pump := by
    cases hs : s.blocked with
    | false =>
      rw [handleSend_pump hbusy h.maxEntries hs]
      exact .offer m (hb.trans hs) (by simp only [blocked, Bool.or_eq_false_iff] at hs; exact hs.1.2)
    | true =>
      have hsame : s.handleSend m = s := by
        unfold handleSend
        rw [if_pos (by simpa [blocked] using hs)]
      rw [hsame]
      exact .same
  refine ⟨⟨(s.handleSend_maxEntries m).trans h.maxEntries, hstep.inv h.inv, ?_, ?_⟩, hstep⟩
  · rw [hio']
    intro hb'
    cases hb'
  · rw [hio']
    intro hp
    cases hp

theorem onWrite_start {i : Nat} {m : DataSend} (h : PumpInv s) (hio : s.io = .idle) (hi : s.writing[i]? = some m)
    (completed : List DataSend) (ec : Bool) :
    PumpInv ({ s with writing := s.writing.eraseIdx i, completed := completed }.onWrite ec) ∧
      ({ s with writing := s.writing.eraseIdx i, completed := completed }.onWrite ec).pump = s.pump := by
  have hp := pump_of_idle (s := s) (by rw [hio]; rfl)
  have hinv := h.inv
  rw [hp] at hinv
  have hlt : i < s.writing.length := (List.getElem?_eq_some_iff.mp hi).1
  obtain ⟨hq, hw, ha⟩ := hinv.completed hlt
  have hq' : s.queue.entries ≠ [] := hq
  have hw' : s.writing.eraseIdx i = [] := hw
  have hhead : s.writing = s.queue.entries.head?.toList := hinv.writing_eq
  rw [hw']
  unfold onWrite
  split
  · have hpump : ({ s with writing := [], completed := completed, io := .clearing s.queue.entries } :
        ClientSession).pump = s.pump := by
      rw [hp]
      simp only [pump, IoState.busy, if_true, hhead]
    exact ⟨⟨h.maxEntries, hpump ▸ h.inv, fun _ => ⟨rfl, hq'⟩, fun hpop => by cases hpop⟩, hpump⟩
  · rename_i hopen
    simp only [Bool.or_eq_true, not_or, Bool.not_eq_true] at hopen
    have hb : s.blocked = false := by
      have hwe : s.writeError = false := ha
      simp [blocked, hwe, hopen.1.1.2, hopen.1.2, hopen.2]
    have hpump : ∀ promises, ({ s with writing := [], completed := completed, promises := promises, io := .popping } :
        ClientSession).pump = s.pump := by
      intro promises
      rw [hp]
      simp only [pump, IoState.busy, if_true, hhead]
    split
    · exact ⟨⟨h.maxEntries, hpump s.promises ▸ h.inv, fun _ => ⟨rfl, hq'⟩, fun _ => hb⟩, hpump s.promises⟩
    · exact ⟨⟨h.maxEntries, hpump _ ▸ h.inv, fun _ => ⟨rfl, hq'⟩, fun _ => hb⟩, hpump _⟩

theorem popping_pump (h : PumpInv s) (hio : s.io = .popping) :
    PumpInv (if s.queue.popFront.1 then { s with queue := s.queue.popFront.2, io := .idle }.write
      else { s with queue := s.queue.popFront.2, io := .idle }) ∧
    State.Step queueSendMax ((if s.queue.popFront.1 then { s with queue := s.queue.popFront.2, io := .idle }.write
      else { s with queue := s.queue.popFront.2, io := .idle }).blocked = false) (s.io.busy = true) s.pump
      (if s.queue.popFront.1 then { s with queue := s.queue.popFront.2, io := .idle }.write
      else { s with queue := s.queue.popFront.2, io := .idle }).pump := by
  have hbusy : s.io.busy = true := by rw [hio]; rfl
  obtain ⟨hw, hq⟩ := h.busy hbusy
  have hb : s.blocked = false := h.popping hio
  have hpop : ({ s with queue := s.queue.popFront.2, io := .idle } : ClientSession).pump =
      { s.pump with queue := s.queue.entries.tail, writing := [] } := by
    rw [pump_of_idle rfl, hw]
    rfl
  by_cases ht : s.queue.entries.tail = []
  · rw [if_neg (by simp [DataQueue.popFront, ht])]
    have hadv : ({ s with queue := s.queue.popFront.2, io := .idle } : ClientSession).pump = s.pump.advance := by
      rw [hpop]
      exact (if_pos ht).symm
    have hstep : State.Step queueSendMax
        (({ s with queue := s.queue.popFront.2, io := .idle } : ClientSession).blocked = false) (s.io.busy = true)
        s.pump ({ s with queue := s.queue.popFront.2, io := .idle } : ClientSession).pump := by
      rw [hadv]
      exact .advance hb hbusy hq
    exact ⟨⟨h.maxEntries, hstep.inv h.inv, fun hx => (by cases hx), fun hx => (by cases hx)⟩, hstep⟩
  · rw [if_pos (by simp [DataQueue.popFront, ht])]
    obtain ⟨w, st, he⟩ := write_frame { s with queue := s.queue.popFront.2, io := .idle }
    have hadv : ({ s with queue := s.queue.popFront.2, io := .idle } : ClientSession).write.pump = s.pump.advance := by
      rw [write_pump rfl, hpop]
      exact (if_neg ht).symm
    have hstep : State.Step queueSendMax
        (({ s with queue := s.queue.popFront.2, io := .idle } : ClientSession).write.blocked = false)
        (s.io.busy = true) s.pump ({ s with queue := s.queue.popFront.2, io := .idle } : ClientSession).write.pump := by
      rw [hadv]
      exact .advance (by rw [he]; exact hb) hbusy hq
    refine ⟨⟨?_, hstep.inv h.inv, ?_, ?_⟩, hstep⟩
    · rw [he]
      exact h.maxEntries
    · rw [he]
      exact fun hx => (by cases hx)
    · rw [he]
      exact fun hx => (by cases hx)

theorem cleared_pump (h : PumpInv s) (hio : s.io = .clearing []) (close : Bool) (closing : Nat) :
    PumpInv { s with
      queue := s.queue.clearEntries, writeError := true, io := .idle, close := close, closing := closing } ∧
    ({ s with queue := s.queue.clearEntries, writeError := true, io := .idle, close := close, closing := closing } :
      ClientSession).pump = s.pump.abort := by
  have hbusy : s.io.busy = true := by rw [hio]; rfl
  have hpump : ({ s with
      queue := s.queue.clearEntries, writeError := true, io := .idle, close := close, closing := closing } :
      ClientSession).pump = s.pump.abort := by
    rw [pump_of_idle rfl, (h.busy hbusy).1]
    rfl
  exact ⟨⟨h.maxEntries, hpump ▸ h.inv.abort, fun hx => (by cases hx), fun hx => (by cases hx)⟩, hpump⟩

/-- Every step of the io thread is a step of the pump. -/
theorem step_pump {funcs : BroadcastFuncs} {e : ClientEvent} (h : PumpInv s) (hs : s.step funcs e = some s') :
    PumpInv s' ∧ State.Step queueSendMax (s'.blocked = false) (s.io.busy = true) s.pump s'.pump := by
  cases moves_of_step hs with
  | handleSend m rest queue writing accepted started hio hp he =>
    have h₀ : PumpInv { s with posted := rest } := ⟨h.maxEntries, h.inv, h.busy, h.popping⟩
    rw [← he]
    exact handleSend_step h₀ hio m _
  | closeSession rest close closing hio =>
    exact h.silent rfl rfl rfl rfl rfl rfl fun hp' => by rw [hio] at hp'; cases hp'
  | onWrite i ec m completed promises io hio hi _ he =>
    obtain ⟨h₁, hp⟩ := onWrite_start h hio hi completed ec
    rw [← he]
    exact ⟨h₁, hp ▸ .same⟩
  | onRead ec bytes readBuffer cache delivered handled readError close closing io hio _ hio' =>
    rcases hio' with rfl | rfl
    · exact h.silent rfl rfl (by rw [hio]) rfl rfl rfl fun hp' => by cases hp'
    · exact h.silent rfl rfl (by rw [hio]; rfl) rfl rfl rfl fun hp' => by cases hp'
  | ping => exact ⟨h, .same⟩
  | closeReceived hio => exact h.silent rfl rfl rfl rfl rfl rfl fun hp' => by rw [hio] at hp'; cases hp'
  | popping clock writing started hio he =>
    rw [← he]
    exact popping_pump h hio
  | clearing clock m rest hio =>
    have hbusy : s.io.busy = true := by rw [hio]; rfl
    have hpump : ({ s with promises := resolve s.promises m false, io := .clearing rest } : ClientSession).pump =
        s.pump := by
      simp only [pump, hio, IoState.busy, if_true]
    rw [hpump]
    exact ⟨⟨h.maxEntries, hpump ▸ h.inv, fun _ => h.busy hbusy, fun hp => by cases hp⟩, .same⟩
  | cleared clock close closing hio =>
    obtain ⟨h₁, hp⟩ := cleared_pump h hio close closing
    rw [hp]
    exact ⟨h₁, .abort (by rw [hio]; rfl)⟩
  | sweeping clock hio => exact h.silent rfl rfl (by rw [hio]; rfl) rfl rfl rfl fun hp' => by cases hp'
  | _ => exact h.silent rfl rfl rfl rfl rfl rfl h.popping

end ClientSession

/-! ## Runs -/

/-- At most one write is outstanding; it is outstanding when the queue is not empty and carries its front; the queue
is bounded; and the messages handed to `async_write` are the first ones accepted, all of them but the ones still
queued as long as no write has failed. -/
structure Disciplined {μ : Type} (queue writing accepted started : List μ) (writeError : Bool) : Prop where
  single : writing.length ≤ 1
  front : writing = queue.head?.toList
  bounded : queue.length ≤ queueSendMax
  order : started <+: accepted
  complete : writeError = false → accepted = started ++ queue.tail

theorem Disciplined.of_inv {μ : Type} {p : Pump.State μ} (h : p.Inv queueSendMax) :
    Disciplined p.queue p.writing p.accepted p.started p.aborted := by
  refine ⟨?_, h.writing_eq, h.length_le, h.started_isPrefix, h.running⟩
  rw [h.writing_eq]
  cases p.queue.head? with
  | none => exact Nat.zero_le 1
  | some m => exact Nat.le_refl 1

theorem ServerSession.pumpInv_of_reach {funcs : BoundFuncs} {o : Words.ByteOrder} {pingDelay now : Time}
    {p : Pool ServerSession Empty Empty (fun _ => Unit) Empty}
    (hp : serverMachine.Reach Machine.Free (.established funcs o pingDelay now) p) :
    p.shared.pump.Inv queueSendMax := by
  refine Machine.invariant (I := fun s => s.pump.Inv queueSendMax) ?_ (fun _ o => o.elim) ?_ hp
  · unfold established
    dsimp only
    split
    · exact State.Inv.empty _
    · exact State.Inv.empty _
  · intro e s s' hs he
    exact (step_pump hs he).inv hs

theorem ClientSession.PumpInv.exec {t : Nat} {o : SessOp} {i : Clock} {s s' : ClientSession} {r : o.Res}
    (h : PumpInv s) (hs : o.exec t i s = some (r, s')) : PumpInv s' ∧ s'.pump = s.pump := by
  obtain ⟨_, _, _, _, _, rfl⟩ := SessOp.exec_frame hs
  exact ⟨⟨h.maxEntries, h.inv, h.busy, h.popping⟩, rfl⟩

theorem ClientSession.pumpInv_of_reach {funcs : BroadcastFuncs} {responseTimeout : Time} {o : Words.ByteOrder}
    {p : SessPool} (hp : (sessionMachine funcs responseTimeout).Reach Machine.Free (.established o) p) :
    PumpInv p.shared := by
  refine Machine.invariant (I := PumpInv) (PumpInv.established o) ?_ ?_ hp
  · intro t o i s r s' hs he
    exact (hs.exec he).1
  · intro e s s' hs he
    exact (step_pump hs he).1

theorem ClientSession.busy_of_step {funcs : BroadcastFuncs} {s s' : ClientSession} {e : ClientEvent}
    (hs : s.step funcs e = some s') (hio : s.io.busy = false) (hne : ∀ i ec, e ≠ .onWrite i ec) :
    s'.io.busy = false := by
  cases moves_of_step hs with
  | onWrite i ec => exact absurd rfl (hne i ec)
  | onRead _ _ _ _ _ _ _ _ _ _ _ _ hio' =>
    rcases hio' with rfl | rfl
    · rfl
    · rfl
  | popping clock writing started h =>
    rw [h] at hio
    cases hio
  | clearing clock m rest h =>
    rw [h] at hio
    cases hio
  | cleared clock close closing h =>
    rw [h] at hio
    cases hio
  | sweeping => rfl
  | _ => exact hio

theorem ClientSession.PumpInv.env_step {funcs : BroadcastFuncs} {s s' : ClientSession} {e : ClientEvent}
    (h : PumpInv s) (hs : s.step funcs e = some s') :
    (s'.started ≠ s.started → s'.close = false ∧ s'.closeReceived = false ∧ s'.writeError = false ∧
      s'.readError = false) ∧
    ((∀ i ec, e ≠ .onWrite i ec) → s.writing ≠ [] → s'.writing = s.writing ∧ s'.queue.front = s.queue.front) := by
  obtain ⟨-, hstep⟩ := step_pump h hs
  refine ⟨fun hst => ?_, fun hne hw => ?_⟩
  · have hb := hstep.free_of_started hst
    simpa [blocked, and_assoc] using hb
  · have hio : s.io.busy = false := by
      by_contra hb
      exact hw (h.busy (by simpa using hb)).1
    have hio' := busy_of_step hs hio hne
    rw [pump_of_idle hio, pump_of_idle hio'] at hstep
    have hinv := h.inv
    rw [pump_of_idle hio] at hinv
    exact (hstep.front (by simp [hio]) (hinv.queue_ne_nil hw)).symm

/-- **The write pumps of both ends.** In every reachable state of a server session and, between two handlers, of a
client session the pump is disciplined (inside the client's `on_write` no write is outstanding); a step that starts a
write leaves none of the four stopping flags set; and a step that is not the completion of the outstanding write
leaves it outstanding and at the front of the queue. -/
theorem write_pump_discipline :
    (∀ funcs o pingDelay now p, serverMachine.Reach Machine.Free (.established funcs o pingDelay now) p →
      Disciplined p.shared.queue p.shared.writing p.shared.accepted p.shared.started p.shared.writeError ∧
      (∀ e s', p.shared.step e = some s' →
        (s'.started ≠ p.shared.started → s'.close = false ∧ s'.closeReceived = false ∧ s'.writeError = false ∧
          s'.readError = false) ∧
        ((∀ i ec now, e ≠ .onWrite i ec now) → p.shared.writing ≠ [] →
          s'.writing = p.shared.writing ∧ s'.queue.head? = p.shared.queue.head?))) ∧
    (∀ funcs responseTimeout o p, (sessionMachine funcs responseTimeout).Reach Machine.Free (.established o) p →
      (p.shared.io.busy = false → Disciplined p.shared.queue.entries p.shared.writing p.shared.accepted
        p.shared.started p.shared.writeError) ∧
      (p.shared.io.busy = true → p.shared.writing = [] ∧ p.shared.queue.entries.length ≤ queueSendMax ∧
        p.shared.started <+: p.shared.accepted) ∧
      (∀ a p', (sessionMachine funcs responseTimeout).step p a = some p' →
        (p'.shared.started ≠ p.shared.started → p'.shared.close = false ∧ p'.shared.closeReceived = false ∧
          p'.shared.writeError = false ∧ p'.shared.readError = false) ∧
        ((∀ i ec, a ≠ .env (.onWrite i ec)) → p.shared.writing ≠ [] →
          p'.shared.writing = p.shared.writing ∧ p'.shared.queue.front = p.shared.queue.front))) := by
  refine ⟨?_, ?_⟩
  · intro funcs o pingDelay now p hp
    have hinv := ServerSession.pumpInv_of_reach hp
    refine ⟨Disciplined.of_inv hinv, ?_⟩
    intro e s' he
    have hstep := ServerSession.step_pump hinv he
    refine ⟨fun hst => ServerSession.blocked_eq_false.mp (hstep.free_of_started hst), fun hne hw => ?_⟩
    have hdone : ¬ ∃ i ec now, e = .onWrite i ec now := by
      rintro ⟨i, ec, now, h⟩
      exact hne i ec now h
    exact (hstep.front hdone (hinv.queue_ne_nil hw)).symm
  · intro funcs responseTimeout o p hp
    have hinv := ClientSession.pumpInv_of_reach hp
    refine ⟨fun hb => ?_, fun hb => ⟨(hinv.busy hb).1, hinv.inv.length_le, hinv.inv.started_isPrefix⟩, ?_⟩
    · have h := Disciplined.of_inv hinv.inv
      rwa [ClientSession.pump_of_idle hb] at h
    · intro a p' hs
      cases a with
      | call t c =>
        obtain ⟨-, rfl⟩ := Machine.step_call hs
        exact ⟨fun hst => absurd rfl hst, fun _ _ => ⟨rfl, rfl⟩⟩
      | op t i =>
        obtain ⟨c, o', k, r, s, -, hex, rfl⟩ := Machine.step_op hs
        obtain ⟨_, _, _, _, _, rfl⟩ := SessOp.exec_frame hex
        exact ⟨fun hst => absurd rfl hst, fun _ _ => ⟨rfl, rfl⟩⟩
      | env e =>
        obtain ⟨s, he, rfl⟩ := Machine.step_env hs
        obtain ⟨h1, h2⟩ := hinv.env_step he
        exact ⟨h1, fun hne hw => h2 (fun i ec h => hne i ec (h ▸ rfl)) hw⟩

end Radrpc
