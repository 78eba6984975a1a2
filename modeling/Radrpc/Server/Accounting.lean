import Radrpc.Server.Counting

/-!
# Counting the messages of broadcasts

`broadcast` adds one to `m_msg_queued` after it has made its message, and the deleter of the message takes one away when
the last pointer to it goes: in the broadcast itself, with a posted handler, out of a queue, or with a session.

* `Manager.due` : the messages that somebody points to and that are not counted;
* `MessageStep`, `Manager.step_messages` : what a step of the sessions does to the messages;
* `accountDiscipline` : a call counts the message that it has made with its next step;
* `broadcast_accounting` : the counter is the number of messages, but for those whose broadcasts are about to count them.
-/

namespace Radrpc
open Conc

namespace Manager

variable {s s' : Manager}

/-- The messages that somebody points to and that are not counted. -/
def due (s : Manager) : Int := s.messageCount - s.msgQueued

/-- The same counter, and the same messages. -/
structure SameMessages (s s' : Manager) : Prop where
  msgQueued : s'.msgQueued = s.msgQueued
  messages : s'.messages = s.messages
  referenced : ∀ m, s'.referenced m = s.referenced m

theorem SameMessages.due (h : SameMessages s s') : s'.due = s.due := by
  have hcount : s'.messageCount = s.messageCount := by
    unfold messageCount
    rw [h.messages]
    exact Slots.countP_range_congr fun m _ => h.referenced m
  unfold Manager.due
  rw [hcount, h.msgQueued]

theorem due_release {m : Nat} (hm : s.referenced m = true) (hlt : m < s.messages.length)
    (hq : s'.msgQueued = s.msgQueued) (hmsg : s'.messages = s.messages)
    (href : ∀ m' ≠ m, s'.referenced m' = s.referenced m') : (s'.release m).due = s.due := by
  unfold release
  cases hr : s'.referenced m with
  | true =>
    rw [if_pos rfl]
    refine SameMessages.due ⟨hq, hmsg, fun m' => ?_⟩
    by_cases hmm : m' = m
    · rw [hmm, hr, hm]
    · exact href m' hmm
  | false =>
    rw [if_neg Bool.false_ne_true]
    have hcount : s.messageCount = s'.messageCount + 1 := by
      unfold messageCount
      rw [hmsg]
      exact Slots.countP_range_change hlt (fun m' _ hne => (href m' hne).symm) hm hr
    show (s'.messageCount : Int) - (s'.msgQueued - 1) = s.messageCount - s.msgQueued
    rw [hcount, hq]
    omega

theorem sameMessages_modify {k : Nat} {f : ManagedSession → ManagedSession}
    (hh : ∀ m, (f (s.sessions k)).Holds m ↔ (s.sessions k).Holds m) : SameMessages s (s.modify k f) :=
  ⟨rfl, rfl, fun m => referenced_modify (hh m)⟩

theorem sameMessages_advance {k : Nat} {before after : ObjPhase} (h : s.advance k before after = some s') :
    SameMessages s s' := by
  obtain ⟨-, rfl⟩ := objects_advance h
  exact sameMessages_modify fun _ => Iff.rfl

theorem sameMessages_construct {kind : StreamKind} {addr : UInt64} (h : s.construct kind addr = some s') :
    SameMessages s s' := by
  refine ⟨?_, (construct_calls h).messages, referenced_construct h⟩
  unfold construct at h
  split at h
  · cases h
    rfl
  · cases h

theorem SameMessages.setRegistry (h : SameMessages s s') (kind : StreamKind) (r : Registry) :
    SameMessages s (s'.setRegistry kind r) := by
  cases kind <;> exact ⟨h.msgQueued, h.messages, h.referenced⟩

/-- What a step of the sessions does to the messages: nothing, or one pointer to one of them goes. -/
inductive MessageStep (s : Manager) : Manager → Prop where
  | same {s' : Manager} : SameMessages s s' → MessageStep s s'
  | drops {s₁ : Manager} (m : Nat) : s.referenced m = true → s₁.msgQueued = s.msgQueued → s₁.messages = s.messages →
      (∀ m' ≠ m, s₁.referenced m' = s.referenced m') → MessageStep s (s₁.release m)

theorem step_messages {cfg : ListenerConfig} {e : ManagerEnv} (h : s.step cfg e = some s') : MessageStep s s' := by
  cases e with
  | onDetect result addr =>
    obtain ⟨-, ⟨-, rfl⟩ | ⟨kind, -, -, hc⟩⟩ := onDetect_eq_some h
    · exact .same ⟨rfl, rfl, fun _ => rfl⟩
    · have hsame := sameMessages_construct hc
      exact .same ⟨hsame.msgQueued, hsame.messages, hsame.referenced⟩
  | onAccept k =>
    simp only [step] at h
    split at h
    · cases h
      exact .same (.setRegistry (sameMessages_modify fun _ => Iff.rfl) _ _)
    · cases h
  | handleSend k accept =>
    simp only [step] at h
    split at h
    · cases h
    · rename_i m rest hp
      split at h
      · rename_i hk
        split at h
        · cases h
          refine .same (sameMessages_modify fun m' => ?_)
          simp only [ManagedSession.Holds, hp, List.mem_append, List.mem_cons, List.not_mem_nil, or_false]
          tauto
        · cases h
          have hm : (s.sessions k).Holds m := .inl (by rw [hp]; exact List.mem_cons_self)
          refine .drops m (referenced_iff.mpr (.inr ⟨k, hk.1, hm⟩)) rfl rfl fun m' hne => referenced_modify ?_
          simp [ManagedSession.Holds, hp, hne]
      · cases h
  | dequeue k i =>
    simp only [step] at h
    split at h
    · cases h
    · rename_i m hm
      split at h
      · rename_i hk
        cases h
        have hmem : (s.sessions k).Holds m := .inr (List.mem_of_getElem? hm)
        exact .drops m (referenced_iff.mpr (.inr ⟨k, hk, hmem⟩)) rfl rfl fun m' hne =>
          referenced_modify (holds_eraseIdx hm hne)
      · cases h
  | expire k =>
    simp only [step] at h
    split at h
    · exact .same (sameMessages_advance h)
    · cases h
  | removeSession k =>
    obtain ⟨s₁, hadv, rfl⟩ := Option.map_eq_some_iff.mp h
    split
    · exact .same ((sameMessages_advance hadv).setRegistry _ _)
    · exact .same (sameMessages_advance hadv)
  | onDisconnect k => exact .same (sameMessages_advance h)
  | destroyMembers k =>
    simp only [step] at h
    split at h
    · obtain ⟨s₁, hadv, rfl⟩ := Option.map_eq_some_iff.mp h
      have hsame := sameMessages_advance hadv
      exact .same ⟨hsame.msgQueued, hsame.messages, hsame.referenced⟩
    · cases h
  | free k => exact .same (sameMessages_advance h)

theorem step_due {cfg : ListenerConfig} {e : ManagerEnv} (hb : Balanced s) (h : s.step cfg e = some s') :
    s'.due = s.due := by
  cases step_messages h with
  | same hsame => exact hsame.due
  | drops m hm hq hmsg href => exact due_release hm (hb.bound m hm) hq hmsg href

theorem due_makePush (hb : Balanced s) (msg : BroadcastMsg) :
    { s with messages := s.messages ++ [msg], locals := s.locals ++ [s.messages.length],
             useCount := s.useCount + 1 }.due = s.due + 1 := by
  have hnew := hb.makePush msg
  have hu := hb.useCount
  have hu' : s.useCount + 1 = 2 + s.liveCount + Manager.messageCount _ + s.temps.length := hnew.useCount
  unfold due
  show ((Manager.messageCount _ : Nat) : Int) - s.msgQueued = s.messageCount - s.msgQueued + 1
  omega

end Manager

/-! ## The calls -/

/-- A call counts the message that it has made with its next step. -/
def accountDiscipline : Discipline ManagerOp ManagerOp.Res (Option Nat) where
  pre := fun v o => v.isSome = true ↔ o = .countPush
  post
    | _, .makePush _, m => some m
    | _, .countPush, _ => none
    | v, _, _ => v

theorem account_plain {o : ManagerOp} (ho : o ≠ .countPush) : accountDiscipline.pre none o :=
  ⟨fun h => (by cases h), fun h => absurd h ho⟩

theorem account_count (m : Nat) : accountDiscipline.pre (some m) .countPush := ⟨fun _ => rfl, fun _ => rfl⟩

theorem sendAll_account (m : Nat) (r : Registry) :
    accountDiscipline.Ok (fun _ w => w = none) none (Manager.sendAll m r) := by
  induction r with
  | nil => rfl
  | cons e rest ih =>
    refine ⟨account_plain (by simp), fun locked => ?_⟩
    cases locked with
    | true => exact ⟨account_plain (by simp), fun _ => ⟨account_plain (by simp), fun _ => ih⟩⟩
    | false => exact ih

theorem countConnections_account : accountDiscipline.Ok (fun _ w => w = none) none Manager.countConnections :=
  ⟨account_plain (by simp), fun _ => ⟨account_plain (by simp), fun _ => rfl⟩⟩

theorem broadcast_account (msg : BroadcastMsg) :
    accountDiscipline.Ok (fun _ w => w = none) none (Manager.broadcast msg) := by
  refine ⟨account_plain (by simp), fun full => ?_⟩
  cases full with
  | true => rfl
  | false =>
    show accountDiscipline.Ok _ _ (Manager.countConnections >>= _)
    apply countConnections_account.bind
    intro n w hw
    subst hw
    by_cases hn : n = 0
    · rw [if_pos hn]
      rfl
    · rw [if_neg hn]
      refine ⟨account_plain (by simp), fun m => ⟨account_count m, fun _ => ⟨account_plain (by simp), fun plain => ?_⟩⟩⟩
      show accountDiscipline.Ok _ none (Manager.sendAll m plain >>= _)
      apply (sendAll_account m plain).bind
      intro _ w hw
      subst hw
      refine ⟨account_plain (by simp), fun ssl => ?_⟩
      show accountDiscipline.Ok _ none (Manager.sendAll m ssl >>= _)
      apply (sendAll_account m ssl).bind
      intro _ w hw
      subst hw
      exact ⟨account_plain (by simp), fun _ => rfl⟩

theorem onAccept_account (cfg : ListenerConfig) :
    accountDiscipline.Ok (fun _ w => w = none) none (Manager.onAccept cfg) := by
  refine ⟨account_plain (by simp), fun reject => ?_⟩
  cases reject with
  | true => exact ⟨account_plain (by simp), fun _ => rfl⟩
  | false =>
    show accountDiscipline.Ok _ _ (Manager.countConnections >>= _)
    apply countConnections_account.bind
    intro n w hw
    subst hw
    by_cases hn : cfg.maxSessions.toNat ≤ n
    · rw [if_pos hn]
      exact ⟨account_plain (by simp), fun _ => rfl⟩
    · rw [if_neg hn]
      cases cfg.sslCtx with
      | true => exact ⟨account_plain (by simp), fun _ => ⟨account_plain (by simp), fun _ => rfl⟩⟩
      | false => exact ⟨account_plain (by simp), fun _ => ⟨account_plain (by simp), fun _ => rfl⟩⟩

theorem managerCall_account (cfg : ListenerConfig) (c : ManagerCall) :
    accountDiscipline.Ok (fun _ w => w = none) none (c.body cfg) := by
  cases c with
  | connections => exact countConnections_account.bind fun _ _ hw => hw
  | broadcast msg => exact (broadcast_account msg).bind fun _ _ hw => hw
  | getSessionIds => exact ⟨account_plain (by simp), fun _ => rfl⟩
  | onAccept => exact (onAccept_account cfg).bind fun _ _ hw => hw

/-! ## Runs -/

/-- What a call holds, and the message that it has made and not counted. -/
abbrev AccountView := ManagerView × Option Nat

/-- The messages that are not counted are those that their broadcasts are about to count. -/
structure Accounted (s : Manager) (views : Nat → Option AccountView) : Prop where
  counted : Counted s (fstViews views)
  made : ∀ t v m, views t = some (v, some m) → ∃ b, v.message = some (m, b)
  due : ∃ l : List Nat, l.Nodup ∧ (∀ t, t ∈ l ↔ ∃ v m, views t = some (v, some m)) ∧ s.due = l.length

namespace Accounted

variable {s s' : Manager} {views : Nat → Option AccountView} {t : Nat}

theorem plain {w : ManagerView} (h : Accounted s views) (ht : ∀ v m, views t ≠ some (v, some m))
    (hc : Counted s' (Function.update (fstViews views) t (some w))) (hdue : s'.due = s.due) :
    Accounted s' (Function.update views t (some (w, none))) := by
  have hother : ∀ t' v m, Function.update views t (some (w, none)) t' = some (v, some m) ↔ views t' = some (v, some m) := by
    intro t' v m
    by_cases htt : t' = t
    · rw [htt, Function.update_self]
      exact ⟨fun he => (by cases he), fun he => absurd he (ht v m)⟩
    · rw [Function.update_of_ne htt]
  refine ⟨?_, fun t' v m hv => h.made t' v m ((hother t' v m).mp hv), ?_⟩
  · rw [fstViews_update]
    exact hc
  · obtain ⟨l, hnodup, hmem, hlen⟩ := h.due
    refine ⟨l, hnodup, fun t' => (hmem t').trans ?_, hdue.trans hlen⟩
    exact exists_congr fun v => exists_congr fun m => (hother t' v m).symm

theorem env {cfg : ListenerConfig} {e : ManagerEnv} (h : Accounted s views) (hs : s.step cfg e = some s') :
    Accounted s' views := by
  obtain ⟨l, hnodup, hmem, hlen⟩ := h.due
  exact ⟨h.counted.env hs, h.made, l, hnodup, hmem, (Manager.step_due h.counted.balanced hs).trans hlen⟩

theorem makePush {v w : ManagerView} {m : Nat} {b : BroadcastMsg} (h : Accounted s views) (hv : views t = some (v, none))
    (hc : Counted s' (Function.update (fstViews views) t (some w))) (hw : w.message = some (m, b))
    (hdue : s'.due = s.due + 1) : Accounted s' (Function.update views t (some (w, some m))) := by
  obtain ⟨l, hnodup, hmem, hlen⟩ := h.due
  have ht : t ∉ l := fun ht => by
    obtain ⟨v', m', hv'⟩ := (hmem t).mp ht
    rw [hv] at hv'
    cases hv'
  refine ⟨?_, fun t' v' m' hv' => ?_, t :: l, List.nodup_cons.mpr ⟨ht, hnodup⟩, fun t' => ?_, ?_⟩
  · rw [fstViews_update]
    exact hc
  · rcases view_of_update hv' with ⟨-, he⟩ | ⟨-, hv'⟩
    · cases he
      exact ⟨b, hw⟩
    · exact h.made t' v' m' hv'
  · by_cases htt : t' = t
    · rw [htt, Function.update_self]
      exact ⟨fun _ => ⟨w, m, rfl⟩, fun _ => List.mem_cons_self⟩
    · rw [Function.update_of_ne htt, List.mem_cons, hmem t']
      exact or_iff_right htt
  · rw [hdue, hlen, List.length_cons]
    omega

theorem countPush {v w : ManagerView} {m : Nat} (h : Accounted s views) (hv : views t = some (v, some m))
    (hc : Counted s' (Function.update (fstViews views) t (some w))) (hdue : s'.due = s.due - 1) :
    Accounted s' (Function.update views t (some (w, none))) := by
  obtain ⟨l, hnodup, hmem, hlen⟩ := h.due
  have ht : t ∈ l := (hmem t).mpr ⟨v, m, hv⟩
  have hpos := List.length_pos_of_mem ht
  refine ⟨?_, fun t' v' m' hv' => ?_, l.erase t, hnodup.erase t, fun t' => ?_, ?_⟩
  · rw [fstViews_update]
    exact hc
  · rcases view_of_update hv' with ⟨-, he⟩ | ⟨-, hv'⟩
    · cases he
    · exact h.made t' v' m' hv'
  · rw [hnodup.mem_erase_iff]
    by_cases htt : t' = t
    · rw [htt, Function.update_self]
      exact ⟨fun hf => absurd rfl hf.1, fun hf => by obtain ⟨v', m', he⟩ := hf; cases he⟩
    · rw [Function.update_of_ne htt, hmem t']
      exact and_iff_right htt
  · rw [hdue, hlen, List.length_erase_of_mem ht]
    omega

theorem exec {cfg : ListenerConfig} {o : ManagerOp} {i : ManagerInput} {r : o.Res} {v : ManagerView} {c : Option Nat}
    (h : Accounted s views) (hv : views t = some (v, c)) (hpre : v.Allows cfg o) (hacc : c.isSome = true ↔ o = .countPush)
    (hs : ManagerOp.exec t o i s = some (r, s')) :
    Accounted s' (Function.update views t (some (v.next o r, accountDiscipline.post c o r))) := by
  have hfst : fstViews views t = some v := by rw [fstViews, hv]; rfl
  have hc := h.counted.exec hfst hpre hs
  have hb := h.counted.balanced
  by_cases hcount : o = .countPush
  · subst hcount
    obtain ⟨m, rfl⟩ := Option.isSome_iff_exists.mp (hacc.mpr rfl)
    cases hs
    apply h.countPush hv hc
    show (s.messageCount : Int) - (s.msgQueued + 1) = s.messageCount - s.msgQueued - 1
    omega
  · obtain rfl : c = none := Option.not_isSome_iff_eq_none.mp fun hf => hcount (hacc.mp hf)
    have hplain : ∀ v' m', views t ≠ some (v', some m') := fun v' m' he => by
      rw [hv] at he
      cases he
    cases o with
    | countPush => exact absurd rfl hcount
    | makePush msg =>
      cases hs
      exact h.makePush hv hc rfl (Manager.due_makePush hb msg)
    | dropPush m =>
      obtain ⟨-, b, hmsg⟩ := hpre
      have hm : m ∈ s.locals := h.counted.message t v m b hfst hmsg
      have href := Manager.referenced_iff.mpr (.inl hm)
      apply h.plain hplain hc
      cases hs
      exact Manager.due_release href (hb.bound m href) rfl rfl fun m' hne =>
        Manager.referenced_congr (List.mem_erase_of_ne hne) rfl fun _ _ => Iff.rfl
    | send k m =>
      obtain ⟨⟨b, hmsg⟩, -⟩ := hpre
      have hm : m ∈ s.locals := h.counted.message t v m b hfst hmsg
      apply h.plain hplain hc
      cases hs
      exact Manager.SameMessages.due ⟨rfl, rfl, Manager.referenced_send hm _⟩
    | lockWeak k =>
      apply h.plain hplain hc
      simp only [ManagerOp.exec] at hs
      split at hs
      · cases hs
        exact (Manager.sameMessages_modify fun _ => Iff.rfl).due
      · cases hs
        rfl
    | releaseSession k =>
      apply h.plain hplain hc
      cases hs
      exact (Manager.sameMessages_modify fun _ => Iff.rfl).due
    | newSession =>
      apply h.plain hplain hc
      obtain ⟨s₁, hcon, he⟩ := Option.map_eq_some_iff.mp hs
      cases he
      exact (Manager.sameMessages_construct hcon).due
    | beginAccept =>
      apply h.plain hplain hc
      simp only [ManagerOp.exec] at hs
      split at hs
      · cases hs
      · cases hs
        rfl
    | beginCount => cases hs; exact h.plain hplain hc rfl
    | endCount => cases hs; exact h.plain hplain hc rfl
    | testQueue => cases hs; exact h.plain hplain hc rfl
    | copy kind ids => cases hs; exact h.plain hplain hc rfl
    | sessionIds => cases hs; exact h.plain hplain hc rfl
    | newDetect => cases hs; exact h.plain hplain hc rfl
    | endAccept => cases hs; exact h.plain hplain hc rfl

theorem start : Accounted .new fun _ => none :=
  ⟨Counted.start, fun _ _ _ hv => (by cases hv), [], .nil,
    fun _ => ⟨fun ht => (by cases ht), fun hv => by obtain ⟨_, _, hv⟩ := hv; cases hv⟩, rfl⟩

theorem due_le (h : Accounted s views) : s.due ≤ s.messageCount := by
  obtain ⟨l, hnodup, hmem, hlen⟩ := h.due
  -- each of these calls points to a message of its own
  have hmade : ∀ t ∈ l, ∃ v m b, views t = some (v, some m) ∧ v.message = some (m, b) := by
    intro t ht
    obtain ⟨v, m, hv⟩ := (hmem t).mp ht
    obtain ⟨b, hb⟩ := h.made t v m hv
    exact ⟨v, m, b, hv, hb⟩
  let f : Nat → Nat := fun t => ((views t).bind Prod.snd).getD 0
  have hf : ∀ t v m, views t = some (v, some m) → f t = m := fun t v m hv => by simp [f, hv]
  have hinj : (l.map f).Nodup := by
    refine List.Nodup.map_on (fun t ht t' ht' he => ?_) hnodup
    obtain ⟨v, m, b, hv, hm⟩ := hmade t ht
    obtain ⟨v', m', b', hv', hm'⟩ := hmade t' ht'
    rw [hf t v m hv, hf t' v' m' hv'] at he
    subst he
    exact h.counted.distinct t t' v v' m b b' (by rw [fstViews, hv]; rfl) (by rw [fstViews, hv']; rfl) hm hm'
  have hsub : l.map f ⊆ (List.range s.messages.length).filter s.referenced := by
    intro m hm
    obtain ⟨t, ht, rfl⟩ := List.mem_map.mp hm
    obtain ⟨v, m, b, hv, hmsg⟩ := hmade t ht
    rw [hf t v m hv]
    have href : s.referenced m = true :=
      Manager.referenced_iff.mpr (.inl (h.counted.message t v m b (by rw [fstViews, hv]; rfl) hmsg))
    exact List.mem_filter.mpr ⟨List.mem_range.mpr (h.counted.balanced.bound m href), href⟩
  have hle : l.length ≤ s.messageCount := by
    have hle := (hinj.subperm hsub).length_le
    rwa [List.length_map, ← List.countP_eq_length_filter] at hle
  rw [hlen]
  exact_mod_cast hle

end Accounted

theorem accounted {cfg : ListenerConfig} {G : ManagerPool → Act ManagerCall ManagerInput ManagerEnv → Prop} {p : ManagerPool}
    (hp : (managerMachine cfg).Reach G .new p) :
    ∃ views, Accounted p.shared views ∧
      Machine.Linked ((managerDiscipline cfg).prod accountDiscipline) (fun _ _ _ x => x.2 = none) p views := by
  refine Machine.sound (fun _ _ => ({}, none)) Accounted.start
    (fun _ c => ((managerCall_ok cfg c).prod (managerCall_account cfg c)).mono fun _ _ h => h.2) ?_ ?_
    (fun _ _ _ _ _ _ h _ hs => h.env hs) hp
  · intro p views t c _ _ h _ hv
    exact h.plain (fun v m he => by rw [hv] at he; cases he) h.counted.call rfl
  · intro p views t i o x r s' _ _ h _ _ hv hpre hs
    exact h.exec hv hpre.1 hpre.2 hs

/-- **Broadcast accounting.** In every reachable state the counter of the queued messages is the number of messages that
a broadcast, a posted handler or a queue points to, but for those whose broadcasts are about to count them. It is never
negative; with the last message it is 0 again, and the next broadcast does not find the queue full. -/
theorem broadcast_accounting (cfg : ListenerConfig) (p : ManagerPool)
    (hp : (managerMachine cfg).Reach Machine.Free .new p) :
    (∃ counting : List Nat, counting.Nodup ∧ (∀ t, t ∈ counting ↔ p.next t = some .countPush) ∧
      p.shared.msgQueued + counting.length = p.shared.messageCount) ∧
    0 ≤ p.shared.msgQueued ∧
    ((∀ t, p.next t ≠ some .countPush) → p.shared.msgQueued = p.shared.messageCount) ∧
    ((∀ m < p.shared.messages.length, p.shared.referenced m = false) →
      p.shared.msgQueued = 0 ∧ ∀ t i, ManagerOp.exec t .testQueue i p.shared = some (false, p.shared)) := by
  obtain ⟨views, h, hl⟩ := accounted hp
  obtain ⟨l, hnodup, hmem, hlen⟩ := h.due
  have hnext : ∀ t, t ∈ l ↔ p.next t = some .countPush := by
    intro t
    rw [hmem t]
    constructor
    · rintro ⟨v, m, hv⟩
      obtain ⟨o, ho, -, hpre⟩ := hl.pending hv (fun _ _ hf => by cases hf)
      rw [ho, hpre.mp rfl]
    · intro ho
      obtain ⟨c, k, hth⟩ := Machine.next_eq_some ho
      obtain ⟨⟨v, c'⟩, hv, ⟨-, hpre⟩, -⟩ := hl.ok hth
      obtain ⟨m, rfl⟩ := Option.isSome_iff_exists.mp (hpre.mpr rfl)
      exact ⟨v, m, hv⟩
  have hdue : (p.shared.messageCount : Int) - p.shared.msgQueued = l.length := hlen
  have hle : (p.shared.messageCount : Int) - p.shared.msgQueued ≤ p.shared.messageCount := h.due_le
  refine ⟨⟨l, hnodup, hnext, by omega⟩, by omega, fun hnone => ?_, fun hnone => ?_⟩
  · have hnil : l = [] := List.eq_nil_iff_forall_not_mem.mpr fun t ht => hnone t ((hnext t).mp ht)
    rw [hnil] at hdue
    change _ = (0 : Int) at hdue
    omega
  · have hzero : p.shared.messageCount = 0 := by
      unfold Manager.messageCount
      rw [List.countP_eq_zero]
      intro m hm
      rw [hnone m (List.mem_range.mp hm)]
      exact Bool.false_ne_true
    have hq : p.shared.msgQueued = 0 := by omega
    refine ⟨hq, fun t i => ?_⟩
    simp [ManagerOp.exec, hq, queueSendMax]

/-- A broadcast has returned and its only session has written the message. -/
theorem broadcast_accounting_written : ∃ p : ManagerPool, (managerMachine plainListener).Reach Machine.Free .new p ∧
    p.result 1 = some (.broadcast ⟨7, [], none⟩, .sent) ∧ p.shared.messages.length = 1 ∧ p.shared.msgQueued = 0 := by
  have hrun : ((managerMachine plainListener).run (fun _ _ => true) (.initial .new)
      (acceptRun ++ .call 1 (.broadcast ⟨7, [], none⟩) :: (List.replicate 11 (.op 1 {}) ++
        [.env (.handleSend 0 true), .env (.dequeue 0 0)]))).any (fun p =>
      decide (p.result 1 = some (.broadcast ⟨7, [], none⟩, .sent)) && decide (p.shared.messages.length = 1) &&
        decide (∀ m < p.shared.messages.length, p.shared.referenced m = false)) = true := by
    decide +kernel
  obtain ⟨p, hp, hf⟩ := Machine.Reach.exists_of_run (fun _ _ _ => trivial) _ hrun
  simp only [Bool.and_eq_true, decide_eq_true_eq] at hf
  obtain ⟨⟨hres, hlen⟩, hnone⟩ := hf
  obtain ⟨-, -, -, hzero⟩ := broadcast_accounting plainListener p hp
  exact ⟨p, hp, hres, hlen, (hzero hnone).1⟩

end Radrpc
