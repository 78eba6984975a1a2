import Radrpc.Client.Messages

/-!
# Promises that have a value

The io thread gives a promise its value after the message has been written, or while it drops the message. Either way
the message is not going to be written any more.

* `ClientSession.unwritten` : the messages of the queue and of the posted handlers, in the order of their writes;
* `Resolved` : among these a promise has a value only while `on_write` is running;
* `Resolved.not_ready_of_writing`, `Resolved.not_ready_of_posted` : a message in the hands of `async_write`, or one
  that still waits for its `handle_send`, has a promise without a value.
-/

namespace Radrpc
open Std Conc

def Posted.message : Posted → Option DataSend
  | .handleSend m => some m
  | .handlePing => none
  | .closeSession => none

theorem Posted.message_eq_some {h : Posted} {m : DataSend} (hm : h.message = some m) : h = .handleSend m := by
  cases h with
  | handleSend m' =>
    cases hm
    rfl
  | handlePing => cases hm
  | closeSession => cases hm

namespace ClientSession

/-- The messages in the queue and those that wait for their `handle_send`. -/
def unwritten (s : ClientSession) : List DataSend := s.queue.entries ++ s.posted.filterMap Posted.message

theorem mem_unwritten_of_posted {s : ClientSession} {m : DataSend} (h : .handleSend m ∈ s.posted) :
    m ∈ s.unwritten :=
  List.mem_append_right _ (List.mem_filterMap.mpr ⟨_, h, rfl⟩)

theorem mem_unwritten_of_queued {s : ClientSession} {m : DataSend} (h : m ∈ s.queue.entries) : m ∈ s.unwritten :=
  List.mem_append_left _ h

/-- Where `on_write` stands when it has resolved the promise of `m` and `m` is still in the queue. -/
inductive Resolving (s : ClientSession) (m : DataSend) : Prop where
  | popping : s.io = .popping → s.queue.front = some m → Resolving s m
  | clearing (rest : List DataSend) : s.io = .clearing rest → m ∈ s.queue.entries → Resolving s m

theorem Resolving.queued {s : ClientSession} {m : DataSend} (h : Resolving s m) : m ∈ s.queue.entries := by
  cases h with
  | popping _ hf => exact List.mem_of_head? hf
  | clearing _ _ hm => exact hm

theorem Resolving.busy {s : ClientSession} {m : DataSend} (h : Resolving s m) : s.io.busy = true := by
  cases h with
  | popping hio _ => rw [hio]; rfl
  | clearing _ hio _ => rw [hio]; rfl

end ClientSession

/-- A promise has a value only when its message has left the queue, or `on_write` is about to drop it. -/
structure Resolved (s : ClientSession) : Prop where
  pump : s.PumpInv
  fresh : ∀ m ∈ s.unwritten, m.callback < s.promiseCount
  nodup : (s.unwritten.map DataSend.callback).Nodup
  clearing : ∀ rest, s.io = .clearing rest → ∀ m ∈ rest, m ∈ s.queue.entries
  ready : ∀ m ∈ s.unwritten, ∀ b, s.promises m.callback = .ready b → s.Resolving m

namespace Resolved

variable {s s' : ClientSession}

theorem established (o : Words.ByteOrder) : Resolved (.established o) :=
  ⟨.established o, fun _ h => (by cases h), .nil, fun _ h => (by cases h), fun _ h => (by cases h)⟩

theorem eq_of_callback (h : Resolved s) {m m' : DataSend} (hm : m ∈ s.unwritten) (hm' : m' ∈ s.unwritten)
    (he : m.callback = m'.callback) : m = m' :=
  List.inj_on_of_nodup_map h.nodup hm hm' he

theorem not_ready_of_posted (h : Resolved s) {m : DataSend} (hm : .handleSend m ∈ s.posted) (b : Bool) :
    s.promises m.callback ≠ .ready b := by
  intro hb
  have hq := (h.ready m (ClientSession.mem_unwritten_of_posted hm) b hb).queued
  have hnd := h.nodup
  rw [ClientSession.unwritten, List.map_append, List.nodup_append] at hnd
  exact hnd.2.2 m.callback (List.mem_map_of_mem hq) m.callback
    (List.mem_map_of_mem (List.mem_filterMap.mpr ⟨_, hm, rfl⟩)) rfl

/-- A message that is being written is the front of the queue, and the io thread is not in `on_write`. -/
theorem queued_of_writing (h : Resolved s) {m : DataSend} (hm : m ∈ s.writing) :
    m ∈ s.queue.entries ∧ s.io.busy = false := by
  have hio : s.io.busy = false := by
    rw [Bool.eq_false_iff]
    intro hbusy
    rw [(h.pump.busy hbusy).1] at hm
    cases hm
  have hw : s.writing = s.queue.entries.head?.toList := by
    have := h.pump.inv.writing_eq
    rwa [ClientSession.pump_of_idle hio] at this
  rw [hw] at hm
  exact ⟨List.mem_of_head? (Option.mem_toList.mp hm), hio⟩

theorem not_ready_of_writing (h : Resolved s) {m : DataSend} (hm : m ∈ s.writing) (b : Bool) :
    s.promises m.callback ≠ .ready b := by
  intro hb
  obtain ⟨hq, hio⟩ := h.queued_of_writing hm
  have hbusy := (h.ready m (ClientSession.mem_unwritten_of_queued hq) b hb).busy
  rw [hio] at hbusy
  cases hbusy

theorem not_ready_of_idle (h : Resolved s) (hio : s.io.busy = false) {m : DataSend} (hm : m ∈ s.unwritten) (b : Bool) :
    s.promises m.callback ≠ .ready b := by
  intro hb
  have hbusy := (h.ready m hm b hb).busy
  rw [hio] at hbusy
  cases hbusy

/-! ## The calls -/

theorem exec (h : Resolved s) {t : Nat} {o : SessOp} {i : Clock} {r : o.Res} (hs : o.exec t i s = some (r, s')) :
    Resolved s' := by
  have hpump := (h.pump.exec hs).1
  rcases SessOp.exec_cases hs with ⟨c, rfl⟩ | ⟨callId, resultId, body, -, rfl⟩ | ⟨callback, -, -, rfl⟩ |
    ⟨_, ps, rfl, hps⟩
  · refine ⟨hpump, h.fresh, h.nodup, h.clearing, fun m hm b hb => ?_⟩
    cases h.ready m hm b hb with
    | popping h1 h2 => exact .popping h1 h2
    | clearing rest h1 h2 => exact .clearing rest h1 h2
  · have hun : ∀ promises count, ClientSession.unwritten { s with
        promises := promises, promiseCount := count
        posted := s.posted ++ [.handleSend ⟨s.promiseCount, t, body, .new callId resultId⟩] } =
        s.unwritten ++ [⟨s.promiseCount, t, body, .new callId resultId⟩] := by
      intro _ _
      simp [ClientSession.unwritten, Posted.message]
    refine ⟨hpump, fun m hm => ?_, ?_, h.clearing, fun m hm b hb => ?_⟩
    · rw [hun] at hm
      rcases List.mem_append.mp hm with hm | hm
      · exact Nat.lt_succ_of_lt (h.fresh m hm)
      · rw [List.mem_singleton.mp hm]
        exact Nat.lt_succ_self _
    · rw [hun, List.map_append, List.nodup_append]
      refine ⟨h.nodup, List.nodup_singleton _, fun cb hcb cb' hcb' => ?_⟩
      obtain ⟨m, hm, rfl⟩ := List.mem_map.mp hcb
      rw [List.map_singleton, List.mem_singleton] at hcb'
      rw [hcb']
      exact Nat.ne_of_lt (h.fresh m hm)
    · rw [hun] at hm
      rcases List.mem_append.mp hm with hm | hm
      · have hne : m.callback ≠ s.promiseCount := Nat.ne_of_lt (h.fresh m hm)
        dsimp only at hb
        rw [Function.update_of_ne hne] at hb
        cases h.ready m hm b hb with
        | popping h1 h2 => exact .popping h1 h2
        | clearing rest h1 h2 => exact .clearing rest h1 h2
      · rw [List.mem_singleton.mp hm] at hb
        dsimp only at hb
        rw [Function.update_self] at hb
        cases hb
  · refine ⟨hpump, h.fresh, h.nodup, h.clearing, fun m hm b hb => ?_⟩
    have hb' : s.promises m.callback = .ready b := by
      dsimp only at hb
      by_cases hcb : m.callback = callback
      · rw [hcb, Function.update_self] at hb
        cases hb
      · rwa [Function.update_of_ne hcb] at hb
    cases h.ready m hm b hb' with
    | popping h1 h2 => exact .popping h1 h2
    | clearing rest h1 h2 => exact .clearing rest h1 h2
  · have hun : ∀ pong, ClientSession.unwritten { s with pong := pong, posted := s.posted ++ ps } = s.unwritten := by
      intro _
      have hnil : ps.filterMap Posted.message = [] := by
        apply List.filterMap_eq_nil_iff.mpr
        intro x hx
        cases hmsg : x.message with
        | none => rfl
        | some m => exact absurd (Posted.message_eq_some hmsg ▸ hx) (hps m)
      simp [ClientSession.unwritten, hnil]
    refine ⟨hpump, fun m hm => h.fresh m (hun _ ▸ hm), (hun _).symm ▸ h.nodup, h.clearing, fun m hm b hb => ?_⟩
    cases h.ready m (hun _ ▸ hm) b hb with
    | popping h1 h2 => exact .popping h1 h2
    | clearing rest h1 h2 => exact .clearing rest h1 h2

/-! ## The io thread -/

theorem drop (h : Resolved s) (hio : s.io.busy = false) (hpump : s'.PumpInv)
    (hun : s'.unwritten.Sublist s.unwritten) (hcount : s'.promiseCount = s.promiseCount)
    (hprom : s'.promises = s.promises) (hclear : ∀ rest, s'.io = .clearing rest → rest = s'.queue.entries) :
    Resolved s' := by
  refine ⟨hpump, fun m hm => hcount ▸ h.fresh m (hun.subset hm), (hun.map _).nodup h.nodup,
    fun rest hrest m hm => hclear rest hrest ▸ hm, fun m hm b hb => ?_⟩
  rw [hprom] at hb
  exact absurd hb (h.not_ready_of_idle hio (hun.subset hm) b)

theorem silent (h : Resolved s) (hpump : s'.PumpInv) (hq : s'.queue = s.queue)
    (hposted : s'.posted.filterMap Posted.message = s.posted.filterMap Posted.message)
    (hcount : s'.promiseCount = s.promiseCount) (hprom : s'.promises = s.promises) (hio : s'.io = s.io) :
    Resolved s' := by
  have hun : s'.unwritten = s.unwritten := by rw [ClientSession.unwritten, hq, hposted]; rfl
  refine ⟨hpump, fun m hm => hcount ▸ h.fresh m (hun ▸ hm), hun ▸ h.nodup,
    fun rest hrest => hq ▸ h.clearing rest (hio ▸ hrest), fun m hm b hb => ?_⟩
  cases h.ready m (hun ▸ hm) b (hprom ▸ hb) with
  | popping h1 h2 => exact .popping (hio ▸ h1) (hq ▸ h2)
  | clearing rest h1 h2 => exact .clearing rest (hio ▸ h1) (hq ▸ h2)

theorem handleSend_unwritten (s : ClientSession) (m : DataSend) :
    (s.handleSend m).unwritten.Sublist (s.queue.entries ++ m :: s.posted.filterMap Posted.message) := by
  have hskip : s.unwritten.Sublist (s.queue.entries ++ m :: s.posted.filterMap Posted.message) :=
    (List.Sublist.refl _).append (List.sublist_cons_self _ _)
  unfold ClientSession.handleSend DataQueue.queue
  split
  · exact hskip
  · split
    · exact hskip
    · rename_i q hq
      split at hq
      · cases hq
      · cases hq
        have hadd : ∀ accepted writing started, (ClientSession.unwritten { s with
            queue := { s.queue with entries := s.queue.entries ++ [m] }, accepted := accepted, writing := writing
            started := started }).Sublist (s.queue.entries ++ m :: s.posted.filterMap Posted.message) := by
          intro _ _ _
          simp [ClientSession.unwritten]
        dsimp only
        split
        · exact hadd _ _ _
        · obtain ⟨_, _, he⟩ := ClientSession.write_frame { s with
            queue := { s.queue with entries := s.queue.entries ++ [m] }, accepted := s.accepted ++ [m] }
          rw [he]
          exact hadd _ _ _

theorem onWrite (h : Resolved s) (hio : s.io = .idle) {writing completed : List DataSend} {ec : Bool}
    (hpump : ({ s with writing := writing, completed := completed }.onWrite ec).PumpInv) :
    Resolved ({ s with writing := writing, completed := completed }.onWrite ec) := by
  have hbusy : s.io.busy = false := by rw [hio]; rfl
  unfold ClientSession.onWrite at hpump ⊢
  split
  · rename_i hc
    rw [if_pos hc] at hpump
    apply h.drop hbusy hpump (List.Sublist.refl _) rfl rfl
    intro rest hrest
    cases hrest
    rfl
  · rename_i hc
    rw [if_neg hc] at hpump
    split
    · rename_i hf
      dsimp only at hf
      simp only [hf] at hpump
      exact h.drop hbusy hpump (List.Sublist.refl _) rfl rfl fun rest hrest => (by cases hrest)
    · rename_i m hf
      dsimp only at hf
      simp only [hf] at hpump
      refine ⟨hpump, h.fresh, h.nodup, fun rest hrest => (by cases hrest), fun m' hm' b hb => ?_⟩
      have hm : m ∈ s.unwritten := ClientSession.mem_unwritten_of_queued (List.mem_of_head? hf)
      have hcb : m'.callback = m.callback := by
        by_contra hne
        have hb' : resolve s.promises m true m'.callback = .ready b := hb
        rw [resolve, Function.update_of_ne hne] at hb'
        exact h.not_ready_of_idle hbusy hm' b hb'
      rw [h.eq_of_callback hm' hm hcb]
      exact .popping rfl hf

theorem popping (h : Resolved s) (hio : s.io = .popping) {writing started : List DataSend}
    (hpump : ClientSession.PumpInv { s with
      queue := s.queue.popFront.2, io := .idle, writing := writing, started := started }) :
    Resolved { s with queue := s.queue.popFront.2, io := .idle, writing := writing, started := started } := by
  have hne := (h.pump.busy (by rw [hio]; rfl)).2
  obtain ⟨m₀, q, hq⟩ := List.exists_cons_of_ne_nil hne
  have hun : s.unwritten = m₀ :: (q ++ s.posted.filterMap Posted.message) := by rw [ClientSession.unwritten, hq]; rfl
  have hun' : ClientSession.unwritten { s with
      queue := s.queue.popFront.2, io := .idle, writing := writing, started := started } =
      q ++ s.posted.filterMap Posted.message := by
    simp only [ClientSession.unwritten, DataQueue.popFront, hq, List.tail_cons]
  have hsub : ∀ m ∈ q ++ s.posted.filterMap Posted.message, m ∈ s.unwritten := fun m hm => by
    rw [hun]
    exact List.mem_cons_of_mem _ hm
  have hnd := h.nodup
  rw [hun, List.map_cons, List.nodup_cons] at hnd
  refine ⟨hpump, fun m hm => h.fresh m (hsub m (hun' ▸ hm)), hun'.symm ▸ hnd.2, fun rest hrest => (by cases hrest),
    fun m hm b hb => ?_⟩
  rw [hun'] at hm
  cases h.ready m (hsub m hm) b hb with
  | popping _ hf =>
    rw [DataQueue.front, hq] at hf
    cases hf
    exact absurd (List.mem_map_of_mem hm) hnd.1
  | clearing rest hc _ =>
    rw [hio] at hc
    cases hc

theorem clearing_next (h : Resolved s) {m : DataSend} {rest : List DataSend} (hio : s.io = .clearing (m :: rest))
    (hpump : ClientSession.PumpInv { s with promises := resolve s.promises m false, io := .clearing rest }) :
    Resolved { s with promises := resolve s.promises m false, io := .clearing rest } := by
  refine ⟨hpump, h.fresh, h.nodup, ?_, fun m' hm' b hb => ?_⟩
  · intro rest' hrest' m' hm'
    cases hrest'
    exact h.clearing _ hio m' (List.mem_cons_of_mem _ hm')
  · have hm : m ∈ s.queue.entries := h.clearing _ hio m List.mem_cons_self
    by_cases hcb : m'.callback = m.callback
    · rw [h.eq_of_callback hm' (ClientSession.mem_unwritten_of_queued hm) hcb]
      exact .clearing rest rfl hm
    · dsimp only at hb
      rw [resolve, Function.update_of_ne hcb] at hb
      exact .clearing rest rfl (h.ready m' hm' b hb).queued

theorem cleared (h : Resolved s) {close : Bool} {closing : Nat} (hpump : ClientSession.PumpInv { s with
      queue := s.queue.clearEntries, writeError := true, io := .idle, close := close, closing := closing }) :
    Resolved { s with
      queue := s.queue.clearEntries, writeError := true, io := .idle, close := close, closing := closing } := by
  have hsub : (s.posted.filterMap Posted.message).Sublist s.unwritten := List.sublist_append_right _ _
  refine ⟨hpump, fun m hm => h.fresh m (hsub.subset hm), (hsub.map _).nodup h.nodup, fun x hx => (by cases hx),
    fun m hm b hb => ?_⟩
  obtain ⟨hd, hhd, hmsg⟩ := List.mem_filterMap.mp hm
  rw [Posted.message_eq_some hmsg] at hhd
  exact absurd hb (h.not_ready_of_posted hhd b)

theorem step (h : Resolved s) {funcs : BroadcastFuncs} {e : ClientEvent} (hs : s.step funcs e = some s') :
    Resolved s' := by
  have hpump := (ClientSession.step_pump h.pump hs).1
  cases ClientSession.moves_of_step hs with
  | handleSend m rest queue writing accepted started hio hp he =>
    have hun : s.unwritten = s.queue.entries ++ m :: rest.filterMap Posted.message := by
      rw [ClientSession.unwritten, hp]
      rfl
    have hsub := handleSend_unwritten { s with posted := rest } m
    rw [he] at hsub
    apply h.drop (by rw [hio]; rfl) hpump (hun ▸ hsub) rfl rfl
    intro x hx
    rw [hio] at hx
    cases hx
  | handlePing rest ping pings hio hp => exact h.silent hpump rfl (by rw [hp]; rfl) rfl rfl rfl
  | closeSession rest close closing hio hp => exact h.silent hpump rfl (by rw [hp]; rfl) rfl rfl rfl
  | onWrite i ec m completed promises io hio hi _ he =>
    rw [← he] at hpump ⊢
    exact h.onWrite hio hpump
  | onRead ec bytes readBuffer cache delivered handled readError close closing io hio _ hio' =>
    apply h.drop (by rw [hio]; rfl) hpump (List.Sublist.refl _) rfl rfl
    intro rest hrest
    rcases hio' with rfl | rfl
    · cases hrest
    · cases hrest
  | ping => exact h
  | postClose => exact h.silent hpump rfl (by simp [Posted.message]) rfl rfl rfl
  | popping clock writing started hio => exact h.popping hio hpump
  | clearing clock m rest hio => exact h.clearing_next hio hpump
  | cleared => exact h.cleared hpump
  | sweeping clock hio =>
    apply h.drop (by rw [hio]; rfl) hpump (List.Sublist.refl _) rfl rfl
    intro x hx
    cases hx
  | _ => exact h.silent hpump rfl rfl rfl rfl rfl

end Resolved

end Radrpc
