import Radrpc.Client.Messages

/-!
# A reported send

`send` reports success as soon as its promise has a value, and does not look at the value: `data_queue::clear()`, which
resolves the promises of messages that were never written, counts as a success too.

* `Honest` : the runs in which `clear()` meets only messages that have been written and senders that have given up;
* `send_reported` : along these a send without an error code has been written;
* `send_misreported` : a failed write reports success to its sender and to the sender queued behind it.
-/

namespace Radrpc
open Std Conc

/-- `clear()` resolves the promise of a waiting sender only when the sender's message has been written. -/
def Honest (p : SessPool) : Act SessCall Clock ClientEvent → Prop
  | .env (.ioStep _) => ∀ m rest, p.shared.io = .clearing (m :: rest) → p.shared.promises m.callback = .pending →
      m ∈ p.shared.completed
  | _ => True

/-- A promise has a value only when its message has been written, and a call that goes on has seen the value. -/
structure Reported (s : ClientSession) (views : Nat → Option SessView) : Prop where
  pump : s.PumpInv
  attributed : Attributed s views
  ready : ∀ cb b, s.promises cb = .ready b → ∃ m ∈ s.completed, m.callback = cb
  written : ∀ t v id cb, views t = some v → v.phase = .written id cb → ∃ b, s.promises cb = .ready b

theorem resolve_eq_ready {promises : PromiseRef → Promise} {m : DataSend} {b b' : Bool} {cb : PromiseRef}
    (h : resolve promises m b cb = .ready b') :
    promises cb = .ready b' ∨ (cb = m.callback ∧ promises cb = .pending) := by
  by_cases hcb : cb = m.callback
  · subst hcb
    rw [resolve, Function.update_self] at h
    cases hp : promises m.callback with
    | pending => exact .inr ⟨rfl, rfl⟩
    | ready b₀ =>
      rw [hp] at h
      exact .inl h
    | expired =>
      rw [hp] at h
      cases h
  · rw [resolve, Function.update_of_ne hcb] at h
    exact .inl h

theorem resolve_of_ready {promises : PromiseRef → Promise} {m : DataSend} {b b' : Bool} {cb : PromiseRef}
    (h : promises cb = .ready b') : resolve promises m b cb = .ready b' := by
  by_cases hcb : cb = m.callback
  · subst hcb
    rw [resolve, Function.update_self, h]
    rfl
  · rw [resolve, Function.update_of_ne hcb, h]

/-! ## What keeps a report true -/

namespace Reported

variable {s s' : ClientSession} {views : Nat → Option SessView}

theorem established (o : Words.ByteOrder) : Reported (.established o) fun _ => none := by
  refine ⟨ClientSession.PumpInv.established o, Attributed.start _ ?_, ?_, fun _ _ _ _ h => by cases h⟩
  · intro m hm
    cases hm with
    | clearing rest h _ => cases h
    | posted h => cases h
    | queued h => cases h
    | writing h => cases h
    | completed h => cases h
  · intro cb b h
    cases h

theorem call (h : Reported s views) (t : Nat) (c : SessCall) :
    Reported s (Function.update views t (some ⟨c, .start⟩)) := by
  refine ⟨h.pump, h.attributed.call t c, h.ready, fun t' v id cb hv hp => ?_⟩
  by_cases ht : t' = t
  · subst ht
    rw [Function.update_self] at hv
    cases hv
    cases hp
  · rw [Function.update_of_ne ht] at hv
    exact h.written t' v id cb hv hp

theorem written_next {call : SessCall} {phase : SessPhase} {t : Nat} {o : SessOp} {i : Clock} {r : o.Res} {id : UInt64}
    {cb : PromiseRef} (hpre : SessPhase.Allows call phase o) (hs : o.exec t i s = some (r, s'))
    (h : phase.next o r = .written id cb) : ∃ b, s'.promises cb = .ready b := by
  cases hpre with
  | waitWritten id' cb' =>
    cases r with
    | false => cases h
    | true =>
      cases h
      simp only [SessOp.exec] at hs
      split at hs
      · rename_i b hb
        cases hs
        exact ⟨b, hb⟩
      · split at hs
        · cases hs
        · cases hs
  | queue callId body recv valid =>
    simp only [SessPhase.next] at h
    split at h <;> cases h
  | find callId body recv id' cb' => cases r <;> cases h
  | postSend callId body => cases h
  | postRequest callId body recv id' => cases h
  | await callId body recv id' row => cases h
  | take callId body recv id' row success buffer => cases h
  | postPing => cases h
  | resetPong => cases h
  | waitPong => cases h

theorem exec (h : Reported s views) {t : Nat} {o : SessOp} {i : Clock} {r : o.Res} {v : SessView}
    (hv : views t = some v) (hpre : v.phase.Allows v.call o) (hs : o.exec t i s = some (r, s')) :
    Reported s' (Function.update views t (some { v with phase := v.phase.next o r })) := by
  have hcompleted : s'.completed = s.completed := by
    obtain ⟨_, _, _, _, _, rfl⟩ := SessOp.exec_frame hs
    rfl
  refine ⟨(h.pump.exec hs).1, h.attributed.exec hv hpre hs, fun cb b hb => ?_, fun t' w id cb hw hp => ?_⟩
  · rw [hcompleted]
    exact h.ready cb b (ClientSession.ready_of_exec hs hb)
  · by_cases ht : t' = t
    · subst ht
      rw [Function.update_self] at hw
      cases hw
      exact written_next hpre hs hp
    · rw [Function.update_of_ne ht] at hw
      obtain ⟨b, hb⟩ := h.written t' w id cb hw hp
      have hlt := h.attributed.issued t' w id cb hw (by rw [hp]; rfl)
      exact ⟨b, ClientSession.ready_exec hs hlt hb⟩

theorem env (h : Reported s views) {funcs : BroadcastFuncs} {e : ClientEvent} (hs : s.step funcs e = some s')
    (hclear : ∀ m rest, (∃ clock, e = .ioStep clock) → s.io = .clearing (m :: rest) →
      s.promises m.callback = .pending → m ∈ s.completed) : Reported s' views := by
  obtain ⟨hcount, hcompleted, hpromises⟩ := ClientSession.promises_of_step hs
  refine ⟨(ClientSession.step_pump h.pump hs).1,
    h.attributed.env (fun m hm => ClientSession.known_of_step hs hm) hcount, ?_, ?_⟩
  · intro cb b hb
    have hold : s.promises cb = .ready b → ∃ m ∈ s'.completed, m.callback = cb := by
      intro hb
      obtain ⟨m, hm, hcb⟩ := h.ready cb b hb
      exact ⟨m, hcompleted m hm, hcb⟩
    rcases hpromises with he | ⟨i, m, m', rfl, hio, hi, hf, hm, he⟩ | ⟨clock, m, rest, rfl, hio, he⟩
    · rw [he] at hb
      exact hold hb
    · -- the message that was written is the front of the queue
      rw [he] at hb
      rcases resolve_eq_ready hb with hb | ⟨rfl, -⟩
      · exact hold hb
      · have hw := h.pump.inv.writing_eq
        rw [ClientSession.pump_of_idle (by rw [hio]; rfl)] at hw
        have hw' : s.writing = [m'] := by
          have hhead : s.queue.entries.head? = some m' := hf
          simpa [hhead] using hw
        rw [hw'] at hi
        have hmm : m = m' := by
          cases i with
          | zero => exact (Option.some.inj hi).symm
          | succ i => simp at hi
        exact ⟨m, hm, by rw [hmm]⟩
    · rw [he] at hb
      rcases resolve_eq_ready hb with hb | ⟨rfl, hpend⟩
      · exact hold hb
      · exact ⟨m, hcompleted m (hclear m rest ⟨clock, rfl⟩ hio hpend), rfl⟩
  · intro t v id cb hv hp
    obtain ⟨b, hb⟩ := h.written t v id cb hv hp
    rcases hpromises with he | ⟨_, _, _, -, -, -, -, -, he⟩ | ⟨_, _, _, -, -, he⟩
    · exact ⟨b, he ▸ hb⟩
    · exact ⟨b, he ▸ resolve_of_ready hb⟩
    · exact ⟨b, he ▸ resolve_of_ready hb⟩

end Reported

/-! ## Runs -/

theorem reported_of_reach {funcs : BroadcastFuncs} {responseTimeout : Time} {o : Words.ByteOrder} {p : SessPool}
    (hp : (sessionMachine funcs responseTimeout).Reach Honest (.established o) p) :
    ∃ views, Reported p.shared views ∧
      Machine.Linked sessDiscipline (fun _ c r v => v.call = c ∧ v.Returns r) p views := by
  refine Machine.sound (fun _ c => ⟨c, .start⟩) (Reported.established o) (fun _ c => sessCall_ok responseTimeout c)
    ?_ ?_ ?_ hp
  · intro p views t c _ _ hinv _ _
    exact hinv.call t c
  · intro p views t i o v r s' _ _ hinv _ _ hv hpre hex
    exact hinv.exec hv hpre hex
  · intro p views e s' _ _ hinv hG he
    apply hinv.env he
    intro m rest hio
    obtain ⟨clock, rfl⟩ := hio
    exact hG m rest

/-- **A reported send happened.** In every run in which `clear()` meets no waiting sender of an unwritten message, a
`send` that has returned without an error code had its message written. -/
theorem send_reported {funcs : BroadcastFuncs} {responseTimeout : Time} {o : Words.ByteOrder} {p : SessPool}
    (hp : (sessionMachine funcs responseTimeout).Reach Honest (.established o) p) {t : Nat} {callId : UInt32}
    {body : Bytes} (h : p.result t = some (.send callId body, .sent none)) :
    ∃ m ∈ p.shared.completed, m.owner = t ∧ m.body = body ∧ m.header = .new callId 0 := by
  obtain ⟨views, hinv, hl⟩ := reported_of_reach hp
  obtain ⟨v, hv, hcall, hret⟩ := hl.ok (Machine.result_eq_some h)
  obtain ⟨-, ⟨-, cb, hphase⟩ | ⟨hec, -⟩⟩ := hret
  · obtain ⟨b, hb⟩ := hinv.written t v 0 cb hv hphase
    obtain ⟨m, hm, hcb⟩ := hinv.ready cb b hb
    have hown := hinv.attributed.own t v 0 cb m hv (by rw [hphase]; rfl) (.completed hm) hcb
    refine ⟨m, hm, ?_⟩
    rw [hown, SessView.message, hcall]
    exact ⟨rfl, rfl, rfl⟩
  · cases hec

/-- Two messages are sent; the write of the first one fails. -/
def failedWrite : List (Act SessCall Clock ClientEvent) :=
  [.call 0 (.send 1 [1]), .op 0 {}, .call 1 (.send 2 [2]), .op 1 {}, .env .runPosted, .env .runPosted,
    .env (.onWrite 0 true), .env (.ioStep {}), .env (.ioStep {}), .op 0 {}, .op 1 {}]

/-- Both sends report success, and neither message was written. -/
theorem send_misreported : ∃ p, (sessionMachine (fun _ => none) 1000).Reach Machine.Free (.established .little) p ∧
    p.result 0 = some (.send 1 [1], .sent none) ∧ p.result 1 = some (.send 2 [2], .sent none) ∧
    p.shared.completed = [] := by
  have hrun : ((sessionMachine (fun _ => none) 1000).run (fun _ _ => true) (.initial (.established .little))
      failedWrite).any (fun p => decide (p.result 0 = some (.send 1 [1], .sent none)) &&
        decide (p.result 1 = some (.send 2 [2], .sent none)) && decide (p.shared.completed = [])) = true := by
    decide +kernel
  obtain ⟨p, hp, hf⟩ := Machine.Reach.exists_of_run (fun _ _ _ => trivial) failedWrite hrun
  simp only [Bool.and_eq_true, decide_eq_true_eq] at hf
  exact ⟨p, hp, hf.1.1, hf.1.2, hf.2⟩

def honest (p : SessPool) : Act SessCall Clock ClientEvent → Bool
  | .env (.ioStep _) =>
    match p.shared.io with
    | .clearing (m :: _) => p.shared.promises m.callback ≠ .pending || p.shared.completed.contains m
    | _ => true
  | _ => true

theorem honest_sound (p : SessPool) (a : Act SessCall Clock ClientEvent) (h : honest p a = true) : Honest p a := by
  unfold Honest
  split
  · intro m rest hio hpend
    simp only [honest, hio, Bool.or_eq_true, decide_eq_true_eq, List.contains_iff_mem] at h
    exact h.resolve_left fun hne => hne hpend
  · trivial

/-- The same two messages; the first one is written, its sender is told, and then the second one is. -/
def goodWrites : List (Act SessCall Clock ClientEvent) :=
  [.call 0 (.send 1 [1]), .op 0 {}, .call 1 (.send 2 [2]), .op 1 {}, .env .runPosted, .env .runPosted,
    .env (.onWrite 0 false), .op 0 {}, .env (.ioStep {}), .env (.control .close), .env (.onWrite 0 false),
    .env (.ioStep {}), .op 1 {}]

theorem send_reported_goodWrites : ∃ p,
    (sessionMachine (fun _ => none) 1000).Reach Honest (.established .little) p ∧
    p.result 1 = some (.send 2 [2], .sent none) ∧
    ∃ m ∈ p.shared.completed, m.owner = 1 ∧ m.body = [2] ∧ m.header = .new 2 0 := by
  have hrun : ((sessionMachine (fun _ => none) 1000).run honest (.initial (.established .little)) goodWrites).any
      (fun p => decide (p.result 1 = some (.send 2 [2], .sent none))) = true := by
    decide +kernel
  obtain ⟨p, hp, hf⟩ := Machine.Reach.exists_of_run honest_sound goodWrites hrun
  rw [decide_eq_true_eq] at hf
  exact ⟨p, hp, hf, send_reported hp hf⟩

end Radrpc
