import Radrpc.Server.Dispatch

/-!
# What a server session sends

In every run, disturbed or not, what a session has to send is a broadcast or the answer of a handler.

* `ServerSession.Pushed` : the message is posted, in the queue, or in the hands of `async_write`;
* `ServerSession.Answers` : the message is a broadcast, or what the bound handler makes of a body with this header;
* `Answering` : every message to send is one of these; `Answering.step` : each step keeps it, and a handler is invoked
  by a received message that is meant for it.
-/

namespace Radrpc
open Words Conc

namespace ServerSession

/-- The message is on its way out. -/
inductive Pushed (s : ServerSession) (m : DataPush) : Prop where
  | posted : m ∈ s.posted → Pushed s m
  | queued : m ∈ s.queue → Pushed s m
  | writing : m ∈ s.writing → Pushed s m

/-- A broadcast, or the answer of the bound handler to a body that came with this header. -/
def Answers (s : ServerSession) (m : DataPush) : Prop :=
  m.header.resultId = 0 ∨ ∃ f body, s.boundFuncs m.header.callId = some (some f) ∧ (m.header, body) ∈ s.invoked ∧
    m.body = (f body []).response

variable {s s' : ServerSession} {m : DataPush}

theorem Answers.mono (h : s.Answers m) (hf : s'.boundFuncs = s.boundFuncs) (hi : s.invoked ⊆ s'.invoked) :
    s'.Answers m := by
  rcases h with h0 | ⟨f, body, hb, hmem, he⟩
  · exact .inl h0
  · exact .inr ⟨f, body, hf ▸ hb, hi hmem, he⟩

theorem Pushed.mono (h : s'.Pushed m) (h1 : ∀ m, m ∈ s'.posted → m ∈ s.posted) (h2 : ∀ m, m ∈ s'.queue → m ∈ s.queue)
    (h3 : ∀ m, m ∈ s'.writing → s.Pushed m) : s.Pushed m := by
  cases h with
  | posted h => exact .posted (h1 m h)
  | queued h => exact .queued (h2 m h)
  | writing h => exact h3 m h

theorem Pushed.of_write (h : s.write.Pushed m) : s.Pushed m := by
  unfold write at h
  split at h
  · exact h
  · rename_i m' q hq
    refine h.mono (fun _ h => h) (fun _ h => h) fun x hx => ?_
    rcases List.mem_append.mp hx with hx | hx
    · exact .writing hx
    · rw [List.mem_singleton.mp hx]
      exact .queued (by rw [hq]; exact List.mem_cons_self)

theorem Pushed.of_handleSend {data : DataPush} (h : (s.handleSend data).Pushed m) : s.Pushed m ∨ m = data := by
  unfold handleSend at h
  split at h
  · exact .inl h
  · split at h
    · exact .inl h
    · have key : Pushed { s with queue := s.queue ++ [data], accepted := s.accepted ++ [data] } m →
          s.Pushed m ∨ m = data := by
        intro h
        cases h with
        | posted h => exact .inl (.posted h)
        | queued h =>
          rcases List.mem_append.mp h with h | h
          · exact .inl (.queued h)
          · exact .inr (List.mem_singleton.mp h)
        | writing h => exact .inl (.writing h)
      dsimp only at h
      split at h
      · exact key h
      · exact key h.of_write

theorem Pushed.of_closeSession {now : Time} (h : (s.closeSession now).Pushed m) : s.Pushed m := by
  obtain ⟨_, _, _, _, _, _, _, he⟩ := s.closeSession_frame now
  rw [he] at h
  exact h.mono (fun _ h => h) (fun _ h => h) fun _ h => .writing h

theorem Pushed.of_onWrite {ec : Bool} {now : Time} (h : (s.onWrite ec now).Pushed m) : s.Pushed m := by
  unfold onWrite at h
  split at h
  · exact h.of_closeSession.mono (fun _ h => h) (fun _ h => (by cases h)) fun _ h => .writing h
  · have key : Pushed { s with queue := s.queue.tail } m → s.Pushed m := fun h =>
      h.mono (fun _ h => h) (fun _ h => List.mem_of_mem_tail h) fun _ h => .writing h
    dsimp only at h
    split at h
    · exact key h
    · exact key h.of_write

theorem callFunction_unbound (h : handlerFor s.boundFuncs s.order s.receiveBuffer = none) (now : Time) :
    (s.callFunction now).invoked = s.invoked ∧ ∀ m, (s.callFunction now).Pushed m → s.Pushed m := by
  obtain ⟨_, _, _, he⟩ := callFunction_none h now
  rw [he]
  exact ⟨rfl, fun _ h => h.mono (fun _ h => h) (fun _ h => h) fun _ h => .writing h⟩

theorem callFunction_bound {f : BoundFunc} (h : handlerFor s.boundFuncs s.order s.receiveBuffer = some f) (now : Time) :
    (s.callFunction now).invoked =
        s.invoked ++ [(IoHeader.read s.order s.receiveBuffer, s.receiveBuffer.drop IoHeader.size)] ∧
      ∀ m, (s.callFunction now).Pushed m → s.Pushed m ∨ m = ⟨IoHeader.read s.order s.receiveBuffer,
        (f (s.receiveBuffer.drop IoHeader.size) s.response).response⟩ := by
  have hcalled : ∀ m, (s.called f).Pushed m → s.Pushed m := fun _ h =>
    h.mono (fun _ h => h) (fun _ h => h) fun _ h => .writing h
  rw [callFunction_some h now]
  split
  · obtain ⟨_, _, _, _, _, _, _, he⟩ := (s.called f).closeSession_frame now
    refine ⟨by rw [he]; rfl, fun m hm => .inl (hcalled m hm.of_closeSession)⟩
  · split
    · obtain ⟨_, _, _, _, he⟩ := handleSend_frame { s.called f with response := [] }
        ⟨(s.called f).header, (s.called f).response⟩
      refine ⟨by rw [he]; rfl, fun m hm => ?_⟩
      rcases hm.of_handleSend with hm | hm
      · exact .inl (hcalled m (hm.mono (fun _ h => h) (fun _ h => h) fun _ h => .writing h))
      · exact .inr hm
    · exact ⟨rfl, fun m hm => .inl (hcalled m hm)⟩

theorem callFunction_frame (s : ServerSession) (now : Time) :
    (s.callFunction now).boundFuncs = s.boundFuncs ∧ (s.callFunction now).order = s.order := by
  cases h : handlerFor s.boundFuncs s.order s.receiveBuffer with
  | none =>
    obtain ⟨_, _, _, he⟩ := callFunction_none h now
    rw [he]
    exact ⟨rfl, rfl⟩
  | some f =>
    rw [callFunction_some h now]
    split
    · obtain ⟨_, _, _, _, _, _, _, he⟩ := (s.called f).closeSession_frame now
      rw [he]
      exact ⟨rfl, rfl⟩
    · split
      · obtain ⟨_, _, _, _, he⟩ := handleSend_frame { s.called f with response := [] }
          ⟨(s.called f).header, (s.called f).response⟩
        rw [he]
        exact ⟨rfl, rfl⟩
      · exact ⟨rfl, rfl⟩

/-- The buffers are empty whenever a read is outstanding. -/
structure Clean (s : ServerSession) : Prop where
  receiveBuffer : s.reading = true → s.receiveBuffer = []
  response : s.response = []

theorem Clean.established (funcs : BoundFuncs) (o : ByteOrder) (pingDelay now : Time) :
    Clean (.established funcs o pingDelay now) := by
  unfold ServerSession.established
  dsimp only
  split
  · exact ⟨fun _ => rfl, rfl⟩
  · exact ⟨fun _ => rfl, rfl⟩

/-- The handlers that do not read: the table, the byte order, the buffers and the history of the invocations stay. -/
theorem step_other {e : ServerEvent} (he : ∀ ec bytes now, e ≠ .onRead ec bytes now) (hs : s.step e = some s') :
    s'.boundFuncs = s.boundFuncs ∧ s'.order = s.order ∧ s'.reading = s.reading ∧
      s'.receiveBuffer = s.receiveBuffer ∧ s'.response = s.response ∧ s'.invoked = s.invoked ∧
      ∀ m, s'.Pushed m → s.Pushed m ∨ e = .send m := by
  cases e with
  | onRead ec bytes now => exact absurd rfl (he ec bytes now)
  | send data =>
    cases hs
    refine ⟨rfl, rfl, rfl, rfl, rfl, rfl, fun m h => ?_⟩
    cases h with
    | posted h =>
      rcases List.mem_append.mp h with h | h
      · exact .inl (.posted h)
      · rw [List.mem_singleton.mp h]
        exact .inr rfl
    | queued h => exact .inl (.queued h)
    | writing h => exact .inl (.writing h)
  | handleSend =>
    simp only [step] at hs
    split at hs
    · cases hs
    · rename_i data rest hp
      cases hs
      have hpushed : ∀ m, ({ s with posted := rest }.handleSend data).Pushed m → s.Pushed m := by
        intro m h
        rcases h.of_handleSend with h | rfl
        · exact h.mono (fun _ h => by rw [hp]; exact List.mem_cons_of_mem _ h) (fun _ h => h) fun _ h => .writing h
        · exact .posted (by rw [hp]; exact List.mem_cons_self)
      obtain ⟨_, _, _, _, hf⟩ := handleSend_frame { s with posted := rest } data
      rw [hf] at hpushed ⊢
      exact ⟨rfl, rfl, rfl, rfl, rfl, rfl, fun m h => .inl (hpushed m h)⟩
  | onWrite i ec now =>
    simp only [step] at hs
    split at hs
    · cases hs
      have hpushed : ∀ m, ({ s with writing := s.writing.eraseIdx i }.onWrite ec now).Pushed m → s.Pushed m := by
        intro m h
        exact h.of_onWrite.mono (fun _ h => h) (fun _ h => h) fun _ h => .writing (List.mem_of_mem_eraseIdx h)
      obtain ⟨_, _, _, _, _, _, _, _, _, _, _, hf⟩ := onWrite_frame { s with writing := s.writing.eraseIdx i } ec now
      rw [hf] at hpushed ⊢
      exact ⟨rfl, rfl, rfl, rfl, rfl, rfl, fun m h => .inl (hpushed m h)⟩
    · cases hs
  | timerExpires now =>
    simp only [step] at hs
    split at hs
    · cases hs
      exact ⟨rfl, rfl, rfl, rfl, rfl, rfl, fun m h => .inl (h.mono (fun _ h => h) (fun _ h => h) fun _ h => .writing h)⟩
    · cases hs
  | onTimer now isOpen =>
    simp only [step] at hs
    split at hs
    · cases hs
    · rename_i ec rest _
      cases hs
      obtain ⟨_, _, _, _, _, _, _, _, hf⟩ := onTimer_frame { s with timerReady := rest } ec now isOpen
      rw [hf]
      exact ⟨rfl, rfl, rfl, rfl, rfl, rfl, fun m h => .inl (h.mono (fun _ h => h) (fun _ h => h) fun _ h => .writing h)⟩
  | control kind now =>
    cases hs
    unfold onControlCallback
    split
    · exact ⟨rfl, rfl, rfl, rfl, rfl, rfl, fun m h => .inl (h.mono (fun _ h => h) (fun _ h => h) fun _ h => .writing h)⟩
    · exact ⟨rfl, rfl, rfl, rfl, rfl, rfl, fun m h => .inl (h.mono (fun _ h => h) (fun _ h => h) fun _ h => .writing h)⟩
  | onPing | onShutdown =>
    simp only [step] at hs
    split at hs
    · cases hs
      exact ⟨rfl, rfl, rfl, rfl, rfl, rfl, fun m h => .inl (h.mono (fun _ h => h) (fun _ h => h) fun _ h => .writing h)⟩
    · cases hs

/-- A read is ignored, or its message is dispatched; the buffers are empty when the next read starts. -/
theorem step_onRead {ec : Bool} {bytes : Bytes} {now : Time} (hc : s.Clean) (hs : s.step (.onRead ec bytes now) = some s') :
    s'.Clean ∧ s'.boundFuncs = s.boundFuncs ∧ s'.order = s.order ∧
      ((s'.invoked = s.invoked ∧ ∀ m, s'.Pushed m → s.Pushed m) ∨
        ∃ f, ec = false ∧ handlerFor s.boundFuncs s.order bytes = some f ∧
          s'.invoked = s.invoked ++ [(IoHeader.read s.order bytes, bytes.drop IoHeader.size)] ∧
          ∀ m, s'.Pushed m → s.Pushed m ∨
            m = ⟨IoHeader.read s.order bytes, (f (bytes.drop IoHeader.size) []).response⟩) := by
  simp only [step] at hs
  split at hs
  · rename_i hr
    cases hs
    rw [hc.receiveBuffer hr, List.nil_append]
    obtain ⟨s₁, hs₁⟩ : ∃ s₁, s₁ = { s with reading := false, receiveBuffer := bytes } := ⟨_, rfl⟩
    rw [← hs₁]
    have hf₁ : s₁.boundFuncs = s.boundFuncs := by rw [hs₁]
    have ho₁ : s₁.order = s.order := by rw [hs₁]
    have hi₁ : s₁.invoked = s.invoked := by rw [hs₁]
    have hb₁ : s₁.receiveBuffer = bytes := by rw [hs₁]
    have hr₁ : s₁.response = [] := by rw [hs₁]; exact hc.response
    have hp₁ : ∀ m, s₁.Pushed m → s.Pushed m := fun m h => by
      rw [hs₁] at h
      exact h.mono (fun _ h => h) (fun _ h => h) fun _ h => .writing h
    unfold onRead
    split
    · obtain ⟨_, _, _, _, _, _, _, he⟩ := closeSession_frame { s₁ with readError := true } now
      refine ⟨?_, by rw [he]; exact hf₁, by rw [he]; exact ho₁, .inl ⟨by rw [he]; exact hi₁, fun m h => ?_⟩⟩
      · rw [he]
        refine ⟨fun h => ?_, hr₁⟩
        rw [hs₁] at h
        cases h
      · exact hp₁ m (h.of_closeSession.mono (fun _ h => h) (fun _ h => h) fun _ h => .writing h)
    · rename_i hec
      have hec' : ec = false := by
        cases ec with
        | false => rfl
        | true => exact absurd rfl hec
      dsimp only
      split
      · obtain ⟨hf₂, ho₂⟩ := s₁.callFunction_frame now
        refine ⟨⟨fun _ => rfl, rfl⟩, hf₂.trans hf₁, ho₂.trans ho₁, ?_⟩
        cases hh : handlerFor s₁.boundFuncs s₁.order s₁.receiveBuffer with
        | none =>
          refine .inl ⟨(callFunction_unbound hh now).1.trans hi₁, fun m h => ?_⟩
          exact hp₁ m ((callFunction_unbound hh now).2 m
            (h.mono (fun _ h => h) (fun _ h => h) fun _ h => .writing h))
        | some f =>
          have hh' := hh
          rw [hf₁, ho₁, hb₁] at hh'
          refine .inr ⟨f, hec', hh', ?_, fun m h => ?_⟩
          · rw [(callFunction_bound hh now).1, hi₁, ho₁, hb₁]
          · have h' := (callFunction_bound hh now).2 m
              (h.mono (fun _ h => h) (fun _ h => h) fun _ h => .writing h)
            rw [ho₁, hb₁, hr₁] at h'
            exact h'.imp_left (hp₁ m)
      · refine ⟨⟨fun _ => rfl, rfl⟩, hf₁, ho₁, .inl ⟨hi₁, fun m h => ?_⟩⟩
        exact hp₁ m (h.mono (fun _ h => h) (fun _ h => h) fun _ h => .writing h)
  · cases hs

/-- A message to send is a broadcast or an answer. -/
structure Answering (s : ServerSession) : Prop extends Clean s where
  pushes : ∀ m, s.Pushed m → s.Answers m

theorem Answering.established (funcs : BoundFuncs) (o : ByteOrder) (pingDelay now : Time) :
    Answering (.established funcs o pingDelay now) := by
  refine ⟨Clean.established funcs o pingDelay now, fun m h => ?_⟩
  unfold ServerSession.established at h
  dsimp only at h
  split at h
  · cases h with
    | posted h => cases h
    | queued h => cases h
    | writing h => cases h
  · cases h with
    | posted h => cases h
    | queued h => cases h
    | writing h => cases h

/-- Each step keeps this, when `send()` is given broadcasts only; an invocation comes from a message that was read. -/
theorem Answering.step (h : Answering s) {e : ServerEvent} (hs : s.step e = some s')
    (hsend : ∀ m, e = .send m → m.header.resultId = 0) :
    Answering s' ∧ s'.boundFuncs = s.boundFuncs ∧ s'.order = s.order ∧
      (s'.invoked = s.invoked ∨ ∃ bytes now, e = .onRead false bytes now ∧ IoHeader.size ≤ bytes.length ∧
        s'.invoked = s.invoked ++ [(IoHeader.read s.order bytes, bytes.drop IoHeader.size)]) := by
  by_cases he : ∃ ec bytes now, e = .onRead ec bytes now
  · obtain ⟨ec, bytes, now, rfl⟩ := he
    obtain ⟨hclean, hf, ho, ⟨hi, hp⟩ | ⟨f, rfl, hh, hi, hp⟩⟩ := step_onRead h.toClean hs
    · refine ⟨⟨hclean, fun m hm => ?_⟩, hf, ho, .inl hi⟩
      exact (h.pushes m (hp m hm)).mono hf (by rw [hi]; exact List.Subset.refl _)
    · have hlen : IoHeader.size ≤ bytes.length := by
        by_contra hlen
        rw [handlerFor, if_neg hlen] at hh
        cases hh
      have hbound : s.boundFuncs (IoHeader.read s.order bytes).callId = some (some f) := by
        rw [handlerFor, if_pos hlen] at hh
        exact Option.join_eq_some_iff.mp hh
      refine ⟨⟨hclean, fun m hm => ?_⟩, hf, ho, .inr ⟨bytes, now, rfl, hlen, hi⟩⟩
      rcases hp m hm with hm | rfl
      · exact (h.pushes m hm).mono hf (by rw [hi]; exact List.subset_append_left _ _)
      · refine .inr ⟨f, bytes.drop IoHeader.size, hf ▸ hbound, ?_, rfl⟩
        rw [hi]
        exact List.mem_append_right _ (List.mem_singleton_self _)
  · have he' : ∀ ec bytes now, e ≠ .onRead ec bytes now := fun ec bytes now h => he ⟨ec, bytes, now, h⟩
    obtain ⟨hf, ho, hr, hb, hresp, hi, hp⟩ := step_other he' hs
    refine ⟨⟨⟨fun hr' => hb.trans (h.receiveBuffer (hr ▸ hr')), hresp.trans h.response⟩, fun m hm => ?_⟩, hf, ho, .inl hi⟩
    rcases hp m hm with hm | hm
    · exact (h.pushes m hm).mono hf (by rw [hi]; exact List.Subset.refl _)
    · exact .inl (hsend m hm)

end ServerSession

end Radrpc
