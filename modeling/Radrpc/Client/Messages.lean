import Radrpc.Client.Calls
import Radrpc.WritePump

/-!
# Whose message is it?

* `ClientSession.Known s m` : the message `m` is somewhere in the session: posted, queued, being written, written, or
  about to be dropped;
* `known_of_step`, `known_of_exec` : the io thread makes no messages, and a call makes one, with its `post`;
* `Attributed` : a message that is known under a caller's promise is the one message of that caller.
-/

namespace Radrpc
open Std Conc

/-- The message is somewhere in the session. -/
inductive ClientSession.Known (s : ClientSession) (m : DataSend) : Prop where
  | posted : .handleSend m ∈ s.posted → Known s m
  | queued : m ∈ s.queue.entries → Known s m
  | writing : m ∈ s.writing → Known s m
  | completed : m ∈ s.completed → Known s m
  | clearing (rest : List DataSend) : s.io = .clearing rest → m ∈ rest → Known s m

namespace ClientSession
namespace Known

variable {s s' : ClientSession} {m : DataSend}

theorem mono (h : Known s' m) (h1 : ∀ m, .handleSend m ∈ s'.posted → .handleSend m ∈ s.posted)
    (h2 : ∀ m, m ∈ s'.queue.entries → m ∈ s.queue.entries) (h3 : ∀ m, m ∈ s'.writing → Known s m)
    (h4 : ∀ m, m ∈ s'.completed → Known s m) (h5 : ∀ rest, s'.io = .clearing rest → ∀ m ∈ rest, Known s m) :
    Known s m := by
  cases h with
  | posted h => exact .posted (h1 m h)
  | queued h => exact .queued (h2 m h)
  | writing h => exact h3 m h
  | completed h => exact h4 m h
  | clearing rest h hm => exact h5 rest h m hm

theorem of_write (h : Known s.write m) : Known s m := by
  unfold write at h
  split at h
  · exact h
  · rename_i m' hf
    refine h.mono (fun _ h => h) (fun _ h => h) (fun x hx => ?_) (fun _ h => .completed h)
      (fun rest h _ hm => .clearing rest h hm)
    rcases List.mem_append.mp hx with hx | hx
    · exact .writing hx
    · rw [List.mem_singleton.mp hx]
      exact .queued (List.mem_of_head? hf)

theorem of_handleSend {m' : DataSend} (h : Known (s.handleSend m') m) : Known s m ∨ m = m' := by
  unfold handleSend DataQueue.queue at h
  split at h
  · exact .inl h
  · split at h
    · exact .inl h
    · rename_i q hq
      split at hq
      · cases hq
      · cases hq
        have key : Known { s with
            queue := { s.queue with entries := s.queue.entries ++ [m'] }, accepted := s.accepted ++ [m'] } m →
            Known s m ∨ m = m' := by
          intro h
          cases h with
          | posted h => exact .inl (.posted h)
          | queued h =>
            rcases List.mem_append.mp h with h | h
            · exact .inl (.queued h)
            · exact .inr (List.mem_singleton.mp h)
          | writing h => exact .inl (.writing h)
          | completed h => exact .inl (.completed h)
          | clearing rest h hm => exact .inl (.clearing rest h hm)
        dsimp only at h
        split at h
        · exact key h
        · exact key h.of_write

theorem of_posted (h : Known s' m) (h1 : ∀ m, .handleSend m ∈ s'.posted → .handleSend m ∈ s.posted)
    (h2 : s'.queue = s.queue) (h3 : s'.writing = s.writing) (h4 : s'.completed = s.completed) (h5 : s'.io = s.io) :
    Known s m :=
  h.mono h1 (fun _ hm => h2 ▸ hm) (fun _ hm => .writing (h3 ▸ hm)) (fun _ hm => .completed (h4 ▸ hm))
    fun rest hrest _ hm => .clearing rest (h5 ▸ hrest) hm

theorem of_onWrite {ec : Bool} (h : Known (s.onWrite ec) m) : Known s m := by
  unfold onWrite at h
  split at h
  · refine h.mono (fun _ h => h) (fun _ h => h) (fun _ h => .writing h) (fun _ h => .completed h) ?_
    intro rest hrest x hx
    cases hrest
    exact .queued hx
  · split at h
    · refine h.mono (fun _ h => h) (fun _ h => h) (fun _ h => .writing h) (fun _ h => .completed h) ?_
      intro rest hrest
      cases hrest
    · refine h.mono (fun _ h => h) (fun _ h => h) (fun _ h => .writing h) (fun _ h => .completed h) ?_
      intro rest hrest
      cases hrest

end Known

variable {s s' : ClientSession} {m : DataSend}

theorem known_of_step {funcs : BroadcastFuncs} {e : ClientEvent} (hs : s.step funcs e = some s') (h : Known s' m) :
    Known s m := by
  cases moves_of_step hs with
  | handleSend m' rest queue writing accepted started _ hp he =>
    rw [← he] at h
    rcases Known.of_handleSend h with h | rfl
    · exact h.of_posted (fun x hx => hp ▸ List.mem_cons_of_mem _ hx) rfl rfl rfl rfl
    · exact .posted (hp ▸ List.mem_cons_self)
  | handlePing rest ping pings _ hp =>
    exact h.of_posted (fun x hx => hp ▸ List.mem_cons_of_mem _ hx) rfl rfl rfl rfl
  | closeSession rest close closing _ hp =>
    exact h.of_posted (fun x hx => hp ▸ List.mem_cons_of_mem _ hx) rfl rfl rfl rfl
  | onWrite i ec m' completed promises io _ hi hc he =>
    have hmem : m' ∈ s.writing := List.mem_of_getElem? hi
    rw [← he] at h
    refine (Known.of_onWrite h).mono (fun _ h => h) (fun _ h => h) ?_ ?_ (fun rest h _ hm => .clearing rest h hm)
    · exact fun x hx => .writing (List.mem_of_mem_eraseIdx hx)
    · intro x hx
      dsimp only at hx
      rw [hc] at hx
      split at hx
      · exact .completed hx
      · rcases List.mem_append.mp hx with hx | hx
        · exact .completed hx
        · rw [List.mem_singleton.mp hx]
          exact .writing hmem
  | onRead _ _ _ _ _ _ _ _ _ _ _ _ hio' =>
    refine h.mono (fun _ h => h) (fun _ h => h) (fun _ h => .writing h) (fun _ h => .completed h) ?_
    intro rest hrest
    rcases hio' with rfl | rfl
    · cases hrest
    · cases hrest
  | postClose => exact h.of_posted (fun x hx => by simpa using hx) rfl rfl rfl rfl
  | popping clock writing started _ he =>
    have key : Known { s with queue := s.queue.popFront.2, io := .idle } m → Known s m := by
      intro h
      refine h.mono (fun _ h => h) (fun x hx => List.mem_of_mem_tail hx) (fun _ h => .writing h)
        (fun _ h => .completed h) ?_
      intro rest hrest
      cases hrest
    rw [← he] at h
    split at h
    · exact key h.of_write
    · exact key h
  | clearing clock m' rest hio =>
    refine h.mono (fun _ h => h) (fun _ h => h) (fun _ h => .writing h) (fun _ h => .completed h) ?_
    intro rest' hrest' x hx
    cases hrest'
    exact .clearing _ hio (List.mem_cons_of_mem _ hx)
  | cleared =>
    refine h.mono (fun _ h => h) ?_ (fun _ h => .writing h) (fun _ h => .completed h) ?_
    · intro x hx
      cases hx
    · intro rest hrest
      cases hrest
  | sweeping =>
    refine h.mono (fun _ h => h) (fun _ h => h) (fun _ h => .writing h) (fun _ h => .completed h) ?_
    intro rest hrest
    cases hrest
  | _ => exact h.of_posted (fun _ hx => hx) rfl rfl rfl rfl

theorem known_of_exec {t : Nat} {o : SessOp} {i : Clock} {r : o.Res} (hs : o.exec t i s = some (r, s'))
    (h : Known s' m) : Known s m ∨ ∃ callId resultId body, o = .post callId resultId body ∧
      m = ⟨s.promiseCount, t, body, .new callId resultId⟩ := by
  rcases SessOp.exec_cases hs with ⟨c, rfl⟩ | ⟨callId, resultId, body, ho, rfl⟩ | ⟨_, -, -, rfl⟩ | ⟨_, ps, rfl, hps⟩
  · exact .inl (h.of_posted (fun _ hx => hx) rfl rfl rfl rfl)
  · cases h with
    | posted h =>
      rcases List.mem_append.mp h with h | h
      · exact .inl (.posted h)
      · exact .inr ⟨callId, resultId, body, ho, by simpa using h⟩
    | queued h => exact .inl (.queued h)
    | writing h => exact .inl (.writing h)
    | completed h => exact .inl (.completed h)
    | clearing rest h hm => exact .inl (.clearing rest h hm)
  · exact .inl (h.of_posted (fun _ hx => hx) rfl rfl rfl rfl)
  · refine .inl (h.of_posted (fun x hx => ?_) rfl rfl rfl rfl)
    exact (List.mem_append.mp hx).resolve_right (hps x)

theorem promiseCount_of_exec {t : Nat} {o : SessOp} {i : Clock} {r : o.Res} (hs : o.exec t i s = some (r, s')) :
    s'.promiseCount = s.promiseCount ∨ ∃ callId resultId body, o = .post callId resultId body ∧
      s'.promiseCount = s.promiseCount + 1 := by
  rcases SessOp.exec_cases hs with ⟨c, rfl⟩ | ⟨callId, resultId, body, ho, rfl⟩ | ⟨_, -, -, rfl⟩ | ⟨_, ps, rfl, -⟩
  · exact .inl rfl
  · exact .inr ⟨callId, resultId, body, ho, rfl⟩
  · exact .inl rfl
  · exact .inl rfl

theorem ready_of_exec {t : Nat} {o : SessOp} {i : Clock} {r : o.Res} (hs : o.exec t i s = some (r, s'))
    {cb : PromiseRef} {b : Bool} (h : s'.promises cb = .ready b) : s.promises cb = .ready b := by
  rcases SessOp.exec_cases hs with ⟨c, rfl⟩ | ⟨_, _, _, -, rfl⟩ | ⟨callback, -, -, rfl⟩ | ⟨_, ps, rfl, -⟩
  · exact h
  · dsimp only at h
    by_cases hcb : cb = s.promiseCount
    · rw [hcb, Function.update_self] at h
      cases h
    · rwa [Function.update_of_ne hcb] at h
  · dsimp only at h
    by_cases hcb : cb = callback
    · rw [hcb, Function.update_self] at h
      cases h
    · rwa [Function.update_of_ne hcb] at h
  · exact h

theorem ready_exec {t : Nat} {o : SessOp} {i : Clock} {r : o.Res} (hs : o.exec t i s = some (r, s'))
    {cb : PromiseRef} {b : Bool} (hlt : cb < s.promiseCount) (h : s.promises cb = .ready b) :
    s'.promises cb = .ready b := by
  rcases SessOp.exec_cases hs with ⟨c, rfl⟩ | ⟨_, _, _, -, rfl⟩ | ⟨callback, -, hne, rfl⟩ | ⟨_, ps, rfl, -⟩
  · exact h
  · dsimp only
    rwa [Function.update_of_ne (Nat.ne_of_lt hlt)]
  · have hcb : cb ≠ callback := fun e => hne b (e ▸ h)
    dsimp only
    rwa [Function.update_of_ne hcb]
  · exact h

/-- The io thread resolves promises in two places, and keeps the history of the writes that succeeded. -/
theorem promises_of_step {funcs : BroadcastFuncs} {e : ClientEvent} (hs : s.step funcs e = some s') :
    s'.promiseCount = s.promiseCount ∧ (∀ m ∈ s.completed, m ∈ s'.completed) ∧
    (s'.promises = s.promises ∨
      (∃ i m m', e = .onWrite i false ∧ s.io = .idle ∧ s.writing[i]? = some m ∧ s.queue.front = some m' ∧
        m ∈ s'.completed ∧ s'.promises = resolve s.promises m' true) ∨
      (∃ clock m rest, e = .ioStep clock ∧ s.io = .clearing (m :: rest) ∧
        s'.promises = resolve s.promises m false)) := by
  cases moves_of_step hs with
  | onWrite i ec m completed promises io hio hi hc he =>
    have hkeep : ∀ x ∈ s.completed, x ∈ completed := by
      intro x hx
      rw [hc]
      split
      · exact hx
      · exact List.mem_append_left _ hx
    rw [← he]
    unfold onWrite
    split
    · exact ⟨rfl, hkeep, .inl rfl⟩
    · rename_i hopen
      have hec : ec = false := by
        cases ec with
        | false => rfl
        | true => exact absurd rfl hopen
      subst hec
      split
      · exact ⟨rfl, hkeep, .inl rfl⟩
      · rename_i m' hf
        refine ⟨rfl, hkeep, .inr (.inl ⟨i, m, m', rfl, hio, hi, hf, ?_, rfl⟩)⟩
        rw [hc]
        exact List.mem_append_right _ (List.mem_singleton_self m)
  | clearing clock m rest hio => exact ⟨rfl, fun _ h => h, .inr (.inr ⟨clock, m, rest, rfl, hio, rfl⟩)⟩
  | _ => exact ⟨rfl, fun _ h => h, .inl rfl⟩

end ClientSession

/-! ## Attribution -/

def SessCall.callId : SessCall → UInt32
  | .send callId _ => callId
  | .sendRecv callId _ _ => callId
  | .ping => 0

def SessCall.bytes : SessCall → Bytes
  | .send _ body => body
  | .sendRecv _ body _ => body
  | .ping => []

/-- The result id and the promise of a call that has posted its message. -/
def SessPhase.promise : SessPhase → Option (UInt64 × PromiseRef)
  | .posted id callback => some (id, callback)
  | .unsent id callback => some (id, callback)
  | .written id callback => some (id, callback)
  | _ => none

def SessView.message (t : Nat) (v : SessView) (id : UInt64) (callback : PromiseRef) : DataSend :=
  ⟨callback, t, v.call.bytes, .new v.call.callId id⟩

/-- A message that is known under a caller's promise is that caller's message. -/
structure Attributed (s : ClientSession) (views : Nat → Option SessView) : Prop where
  fresh : ∀ m, s.Known m → m.callback < s.promiseCount
  issued : ∀ t v id cb, views t = some v → v.phase.promise = some (id, cb) → cb < s.promiseCount
  own : ∀ t v id cb m, views t = some v → v.phase.promise = some (id, cb) → s.Known m → m.callback = cb →
    m = v.message t id cb

theorem SessPhase.promise_next {call : SessCall} {phase : SessPhase} {t : Nat} {o : SessOp} {i : Clock} {r : o.Res}
    {s s' : ClientSession} {id : UInt64} {cb : PromiseRef} (hpre : Allows call phase o)
    (hs : o.exec t i s = some (r, s')) (h : (phase.next o r).promise = some (id, cb)) :
    phase.promise = some (id, cb) ∨
      (o = .post call.callId id call.bytes ∧ cb = s.promiseCount ∧ s'.promiseCount = s.promiseCount + 1) := by
  cases hpre with
  | queue callId body recv valid =>
    simp only [next] at h
    split at h <;> cases h
  | postSend callId body =>
    cases hs
    cases h
    exact .inr ⟨rfl, rfl, rfl⟩
  | postRequest callId body recv id =>
    cases hs
    cases h
    exact .inr ⟨rfl, rfl, rfl⟩
  | waitWritten id callback => cases r <;> exact .inl h
  | find callId body recv id callback => cases r <;> cases h
  | await callId body recv id row => cases h
  | take callId body recv id row success buffer => cases h
  | postPing => cases h
  | resetPong => cases h
  | waitPong => cases h

namespace Attributed

variable {s s' : ClientSession} {views : Nat → Option SessView}

theorem start (s : ClientSession) (hs : ∀ m, ¬ s.Known m) : Attributed s fun _ => none :=
  ⟨fun m h => absurd h (hs m), fun _ _ _ _ h => (by cases h), fun _ _ _ _ _ h => (by cases h)⟩

theorem call (h : Attributed s views) (t : Nat) (c : SessCall) :
    Attributed s (Function.update views t (some ⟨c, .start⟩)) := by
  refine ⟨h.fresh, fun t' v id cb hv hp => ?_, fun t' v id cb m hv hp => ?_⟩
  · by_cases ht : t' = t
    · subst ht
      rw [Function.update_self] at hv
      cases hv
      cases hp
    · rw [Function.update_of_ne ht] at hv
      exact h.issued t' v id cb hv hp
  · by_cases ht : t' = t
    · subst ht
      rw [Function.update_self] at hv
      cases hv
      cases hp
    · rw [Function.update_of_ne ht] at hv
      exact h.own t' v id cb m hv hp

theorem env (h : Attributed s views) (hk : ∀ m, s'.Known m → s.Known m) (hc : s'.promiseCount = s.promiseCount) :
    Attributed s' views :=
  ⟨fun m hm => hc ▸ h.fresh m (hk m hm), fun t v id cb hv hp => hc ▸ h.issued t v id cb hv hp,
    fun t v id cb m hv hp hm => h.own t v id cb m hv hp (hk m hm)⟩

theorem exec (h : Attributed s views) {t : Nat} {o : SessOp} {i : Clock} {r : o.Res} {v : SessView}
    (hv : views t = some v) (hpre : v.phase.Allows v.call o) (hs : o.exec t i s = some (r, s')) :
    Attributed s' (Function.update views t (some { v with phase := v.phase.next o r })) := by
  have hcount := ClientSession.promiseCount_of_exec hs
  have hle : s.promiseCount ≤ s'.promiseCount := by
    rcases hcount with hc | ⟨_, _, _, _, hc⟩ <;> omega
  refine ⟨fun m hm => ?_, fun t' w id cb hw hp => ?_, fun t' w id cb m hw hp hm hcb => ?_⟩
  · rcases ClientSession.known_of_exec hs hm with hm | ⟨c, id, b, ho, rfl⟩
    · exact (h.fresh m hm).trans_le hle
    · subst ho
      cases hs
      exact Nat.lt_succ_self _
  · by_cases ht : t' = t
    · subst ht
      rw [Function.update_self] at hw
      cases hw
      rcases SessPhase.promise_next hpre hs hp with hp | ⟨-, rfl, hc⟩
      · exact (h.issued t' v id cb hv hp).trans_le hle
      · rw [hc]
        exact Nat.lt_succ_self _
    · rw [Function.update_of_ne ht] at hw
      exact (h.issued t' w id cb hw hp).trans_le hle
  · rcases ClientSession.known_of_exec hs hm with hm | ⟨c, id', b, ho, rfl⟩
    · -- an old message: its promise is not the new one
      by_cases ht : t' = t
      · subst ht
        rw [Function.update_self] at hw
        cases hw
        rcases SessPhase.promise_next hpre hs hp with hp | ⟨-, rfl, -⟩
        · exact h.own t' v id cb m hv hp hm hcb
        · exact absurd (hcb ▸ h.fresh m hm) (Nat.lt_irrefl _)
      · rw [Function.update_of_ne ht] at hw
        exact h.own t' w id cb m hw hp hm hcb
    · by_cases ht : t' = t
      · subst ht
        rw [Function.update_self] at hw
        cases hw
        rcases SessPhase.promise_next hpre hs hp with hp | ⟨ho', rfl, -⟩
        · exact absurd (hcb ▸ h.issued t' v id cb hv hp) (Nat.lt_irrefl _)
        · rw [ho] at ho'
          cases ho'
          rfl
      · rw [Function.update_of_ne ht] at hw
        exact absurd (hcb ▸ h.issued t' w id cb hw hp) (Nat.lt_irrefl _)

end Attributed

end Radrpc
