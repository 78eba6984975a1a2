import Radrpc.Server.ManagerPhases
import Radrpc.Server.Objects

/-!
# Counting sessions by shared pointers

`connections()` subtracts from the number of pointers to the manager what `set_subtract_refs()` has seen. Pointers are
held by the server, the listener and the sessions, by the deleter of every message of a broadcast, and by the calls that
are counting at this moment.

* `Balanced` : the pointers to the manager, one by one;
* `Counted` : what the calls hold, and that it is counted;
* `connections_exact` : `connections()` is the number of sessions exactly when no message of a broadcast is left and no
  other call is counting;
* `Roomy`, `session_limit` : the number of sessions stays within `max_sessions` as long as a detection only ends in a
  session when there is room for it.
-/

namespace Radrpc
open Conc

/-! ## Messages -/

/-- A posted handler or the queue of the session points to the message. -/
def ManagedSession.Holds (x : ManagedSession) (m : Nat) : Prop := m ∈ x.posted ∨ m ∈ x.queue

namespace Manager

def messageCount (s : Manager) : Nat := (List.range s.messages.length).countP s.referenced

theorem referenced_iff {s : Manager} {m : Nat} :
    s.referenced m = true ↔ m ∈ s.locals ∨ ∃ k < s.sessionCount, (s.sessions k).Holds m := by
  simp [referenced, ManagedSession.Holds]

theorem referenced_congr {s s' : Manager} {m : Nat} (hl : m ∈ s'.locals ↔ m ∈ s.locals)
    (hc : s'.sessionCount = s.sessionCount)
    (hh : ∀ k < s.sessionCount, (s'.sessions k).Holds m ↔ (s.sessions k).Holds m) :
    s'.referenced m = s.referenced m := by
  rw [Bool.eq_iff_iff, referenced_iff, referenced_iff, hl, hc]
  refine or_congr_right (exists_congr fun k => and_congr_right fun hk => hh k hk)

theorem holds_modify {s : Manager} {k m : Nat} {f : ManagedSession → ManagedSession}
    (h : (f (s.sessions k)).Holds m ↔ (s.sessions k).Holds m) (j : Nat) :
    ((s.modify k f).sessions j).Holds m ↔ (s.sessions j).Holds m := by
  by_cases hj : j = k
  · rw [hj]
    show (Function.update s.sessions k _ k).Holds m ↔ _
    rw [Function.update_self]
    exact h
  · show (Function.update s.sessions k _ j).Holds m ↔ _
    rw [Function.update_of_ne hj]

theorem referenced_modify {s : Manager} {k m : Nat} {f : ManagedSession → ManagedSession}
    (h : (f (s.sessions k)).Holds m ↔ (s.sessions k).Holds m) : (s.modify k f).referenced m = s.referenced m :=
  referenced_congr Iff.rfl rfl fun j _ => holds_modify h j

theorem referenced_send {s : Manager} {k m : Nat} (hm : m ∈ s.locals) (posts : List (Nat × Nat)) (m' : Nat) :
    { s.modify k fun x => { x with posted := x.posted ++ [m] } with posts := posts }.referenced m' = s.referenced m' := by
  show (s.modify k fun x => { x with posted := x.posted ++ [m] }).referenced m' = s.referenced m'
  by_cases hmm : m' = m
  · rw [hmm, Manager.referenced_iff.mpr (.inl hm)]
    exact Manager.referenced_iff.mpr (.inl hm)
  · exact Manager.referenced_modify (by simp [ManagedSession.Holds, hmm])

theorem referenced_construct {s s' : Manager} {kind : StreamKind} {addr : UInt64} (hc : s.construct kind addr = some s')
    (m : Nat) : s'.referenced m = s.referenced m := by
  unfold construct at hc
  split at hc
  · obtain rfl := Option.some.inj hc
    rw [Bool.eq_iff_iff, referenced_iff, referenced_iff]
    refine or_congr_right ⟨?_, ?_⟩
    · rintro ⟨k, hk, hh⟩
      by_cases hkc : k = s.sessionCount
      · subst hkc
        change (Function.update s.sessions s.sessionCount _ _).Holds m at hh
        rw [Function.update_self] at hh
        rcases hh with hh | hh <;> cases hh
      · change (Function.update s.sessions s.sessionCount _ _).Holds m at hh
        rw [Function.update_of_ne hkc] at hh
        have hk : k < s.sessionCount + 1 := hk
        exact ⟨k, by omega, hh⟩
    · rintro ⟨k, hk, hh⟩
      refine ⟨k, Nat.lt_succ_of_lt hk, ?_⟩
      show (Function.update s.sessions s.sessionCount _ _).Holds m
      rw [Function.update_of_ne (Nat.ne_of_lt hk)]
      exact hh
  · cases hc

theorem holds_eraseIdx {x : ManagedSession} {i m m' : Nat} (hm : x.queue[i]? = some m) (hne : m' ≠ m) :
    { x with queue := x.queue.eraseIdx i }.Holds m' ↔ x.Holds m' := by
  have hmem : m' ∈ x.queue.eraseIdx i ↔ m' ∈ x.queue := by
    rw [List.mem_eraseIdx_iff_getElem?, List.mem_iff_getElem?]
    constructor
    · rintro ⟨j, -, hj⟩
      exact ⟨j, hj⟩
    · rintro ⟨j, hj⟩
      refine ⟨j, fun hji => ?_, hj⟩
      rw [hji, hm] at hj
      exact hne (Option.some.inj hj).symm
  exact or_congr_right hmem

theorem liveCount_eq (s : Manager) : s.liveCount = s.objects.liveCount := rfl

theorem liveCount_congr {s s' : Manager} (h : s'.objects = s.objects) : s'.liveCount = s.liveCount := by
  rw [liveCount_eq, liveCount_eq, h]

end Manager

namespace Manager

theorem liveCount_step {cfg : ListenerConfig} {s s' : Manager} {e : ManagerEnv} (h : s.step cfg e = some s') :
    s'.liveCount ≤ s.liveCount ∨ ∃ result addr, e = .onDetect result addr ∧ cfg.serves result ≠ none ∧
      s.detecting ≠ 0 ∧ s'.liveCount = s.liveCount + 1 := by
  rcases step_objects h with hsame | ⟨ev, hev, hstep⟩
  · exact .inl (liveCount_congr hsame).le
  · by_cases hb : ∃ kind addr, ev = .born kind addr
    · obtain ⟨kind, addr, rfl⟩ := hb
      cases e with
      | onDetect result addr' =>
        obtain ⟨hd, ⟨hn, rfl⟩ | ⟨kind', -, hserve, -⟩⟩ := onDetect_eq_some h
        · exact .inl le_rfl
        · refine .inr ⟨result, addr', rfl, by simp [hserve], hd, ?_⟩
          exact Objects.liveCount_born hstep
      | _ => cases hev
    · exact .inl (Objects.liveCount_step hstep fun kind addr he => hb ⟨kind, addr, he⟩)

end Manager

/-! ## Pointers to the manager -/

/-- The pointers to the manager: the server, the listener, the sessions, the messages and the counting calls. -/
structure Balanced (s : Manager) : Prop where
  subRefs : s.subRefs = 3
  useCount : s.useCount = 2 + s.liveCount + s.messageCount + s.temps.length
  bound : ∀ m, s.referenced m = true → m < s.messages.length

theorem Balanced.connections {s : Manager} (h : Balanced s) :
    s.connections = s.liveCount + s.messageCount + s.temps.length := by
  unfold Manager.connections
  rw [h.subRefs, h.useCount]
  omega

namespace Balanced

variable {s s' : Manager}

theorem congr (h : Balanced s) (hsub : s'.subRefs = s.subRefs) (huse : s'.useCount = s.useCount)
    (hlive : s'.liveCount = s.liveCount) (hmsg : s'.messages = s.messages)
    (href : ∀ m, s'.referenced m = s.referenced m) (htemps : s'.temps = s.temps) : Balanced s' := by
  have hcount : s'.messageCount = s.messageCount := by
    unfold Manager.messageCount
    rw [hmsg]
    exact Slots.countP_range_congr fun m _ => href m
  refine ⟨hsub.trans h.subRefs, ?_, fun m hm => ?_⟩
  · rw [huse, h.useCount, hcount, htemps, hlive]
  · rw [hmsg]
    exact h.bound m (href m ▸ hm)

theorem release {m : Nat} (h : Balanced s) (hm : s.referenced m = true) (hsub : s'.subRefs = s.subRefs)
    (huse : s'.useCount = s.useCount) (hlive : s'.liveCount = s.liveCount) (hmsg : s'.messages = s.messages)
    (href : ∀ m' ≠ m, s'.referenced m' = s.referenced m') (htemps : s'.temps = s.temps) : Balanced (s'.release m) := by
  unfold Manager.release
  cases hr : s'.referenced m with
  | true =>
    rw [if_pos rfl]
    refine h.congr hsub huse hlive hmsg (fun m' => ?_) htemps
    by_cases hmm : m' = m
    · rw [hmm, hr, hm]
    · exact href m' hmm
  | false =>
    rw [if_neg Bool.false_ne_true]
    have hcount : s.messageCount = s'.messageCount + 1 := by
      unfold Manager.messageCount
      rw [hmsg]
      exact Slots.countP_range_change (h.bound m hm) (fun m' _ hne => (href m' hne).symm) hm hr
    refine ⟨hsub.trans h.subRefs, ?_, fun m' hm' => ?_⟩
    · show s'.useCount - 1 = 2 + s'.liveCount + s'.messageCount + s'.temps.length
      have huc := h.useCount
      rw [huse, hlive, htemps]
      omega
    · show m' < s'.messages.length
      have hm' : s'.referenced m' = true := hm'
      have hne : m' ≠ m := fun he => by rw [he, hr] at hm'; cases hm'
      rw [hmsg]
      exact h.bound m' (href m' hne ▸ hm')

theorem modify {k : Nat} {f : ManagedSession → ManagedSession} (h : Balanced s)
    (hobj : (f (s.sessions k)).object = (s.sessions k).object)
    (hh : ∀ m, (f (s.sessions k)).Holds m ↔ (s.sessions k).Holds m) : Balanced (s.modify k f) :=
  h.congr rfl rfl (Manager.liveCount_congr (s.objects_modify_same k f hobj)) rfl
    (fun m => Manager.referenced_modify (hh m)) rfl

theorem beginCount (h : Balanced s) (t : Nat) :
    Balanced { s with useCount := s.useCount + 1, temps := t :: s.temps } := by
  refine ⟨h.subRefs, ?_, h.bound⟩
  show s.useCount + 1 = 2 + s.liveCount + s.messageCount + (s.temps.length + 1)
  have := h.useCount
  omega

theorem endCount (h : Balanced s) {t : Nat} (ht : t ∈ s.temps) :
    Balanced { s with useCount := s.useCount - 1, temps := s.temps.erase t } := by
  refine ⟨h.subRefs, ?_, h.bound⟩
  show s.useCount - 1 = 2 + s.liveCount + s.messageCount + (s.temps.erase t).length
  rw [List.length_erase_of_mem ht]
  have huc := h.useCount
  have hpos := List.length_pos_of_mem ht
  omega

theorem makePush (h : Balanced s) (msg : BroadcastMsg) :
    Balanced { s with
      messages := s.messages ++ [msg], locals := s.locals ++ [s.messages.length], useCount := s.useCount + 1 } := by
  have href : ∀ m, m ≠ s.messages.length → { s with
      messages := s.messages ++ [msg], locals := s.locals ++ [s.messages.length],
      useCount := s.useCount + 1 }.referenced m = s.referenced m :=
    fun m hm => Manager.referenced_congr (by simp [hm]) rfl fun _ _ => Iff.rfl
  have hnew : { s with
      messages := s.messages ++ [msg], locals := s.locals ++ [s.messages.length],
      useCount := s.useCount + 1 }.referenced s.messages.length = true :=
    Manager.referenced_iff.mpr (.inl (by simp))
  refine ⟨h.subRefs, ?_, fun m hm => ?_⟩
  · show s.useCount + 1 = 2 + s.liveCount + Manager.messageCount _ + s.temps.length
    unfold Manager.messageCount
    show _ = 2 + s.liveCount + (List.range (s.messages ++ [msg]).length).countP _ + s.temps.length
    rw [List.length_append, List.length_singleton, Slots.countP_range_succ, if_pos hnew,
      Slots.countP_range_congr fun m hm => href m (Nat.ne_of_lt hm), h.useCount]
    show 2 + s.liveCount + s.messageCount + s.temps.length + 1 = 2 + s.liveCount + (s.messageCount + 1) + s.temps.length
    omega
  · show m < (s.messages ++ [msg]).length
    rw [List.length_append, List.length_singleton]
    by_cases hmm : m = s.messages.length
    · omega
    · have := h.bound m (href m hmm ▸ hm)
      omega

theorem dropPush {m : Nat} (h : Balanced s) (hm : m ∈ s.locals) :
    Balanced ({ s with locals := s.locals.erase m }.release m) := by
  refine h.release (Manager.referenced_iff.mpr (.inl hm)) rfl rfl rfl rfl
    (fun m' hne => ?_) rfl
  exact Manager.referenced_congr (List.mem_erase_of_ne hne) rfl fun _ _ => Iff.rfl

theorem send {k m : Nat} (h : Balanced s) (hm : m ∈ s.locals) :
    Balanced { s.modify k fun x => { x with posted := x.posted ++ [m] } with posts := s.posts ++ [(m, k)] } := by
  have hobj := s.objects_modify_same k (fun x => { x with posted := x.posted ++ [m] }) rfl
  exact h.congr rfl rfl (Manager.liveCount_congr hobj) rfl (Manager.referenced_send hm _) rfl

theorem construct {kind : StreamKind} {addr : UInt64} (h : Balanced s) (hc : s.construct kind addr = some s') :
    Balanced s' := by
  have hlive := Objects.liveCount_born (Manager.objects_construct hc)
  rw [← Manager.liveCount_eq, ← Manager.liveCount_eq] at hlive
  have href := Manager.referenced_construct hc
  unfold Manager.construct at hc
  split at hc
  · obtain rfl := Option.some.inj hc
    refine ⟨h.subRefs, ?_, fun m hm => h.bound m (href m ▸ hm)⟩
    rw [hlive]
    unfold Manager.messageCount
    rw [Slots.countP_range_congr fun m _ => href m]
    show s.useCount + 1 = 2 + (s.liveCount + 1) + s.messageCount + s.temps.length
    have := h.useCount
    omega
  · cases hc

theorem advance {k : Nat} {before after : ObjPhase} (h : Balanced s) (hadv : s.advance k before after = some s')
    (hl : after.live = before.live) : Balanced s' := by
  have hlive := Objects.liveCount_advance (Manager.objects_advance hadv).1 hl
  obtain ⟨-, rfl⟩ := Manager.objects_advance hadv
  exact h.congr rfl rfl hlive rfl (fun m => Manager.referenced_modify Iff.rfl) rfl

theorem destroyMembers {k : Nat} (h : Balanced s) (hadv : s.advance k .disconnected .released = some s') :
    Balanced { s' with useCount := s'.useCount - 1 } := by
  have hlive := Objects.liveCount_release (Manager.objects_advance hadv).1
  obtain ⟨-, rfl⟩ := Manager.objects_advance hadv
  have href : ∀ m, (s.modify k fun x => { x with phase := .released }).referenced m = s.referenced m :=
    fun m => Manager.referenced_modify Iff.rfl
  refine ⟨h.subRefs, ?_, fun m hm => h.bound m (href m ▸ hm)⟩
  show s.useCount - 1 = 2 + Manager.liveCount _ + Manager.messageCount _ + s.temps.length
  have hcount : (s.modify k fun x => { x with phase := .released }).messageCount = s.messageCount :=
    Slots.countP_range_congr fun m _ => href m
  have huc := h.useCount
  rw [Manager.liveCount_eq] at huc
  rw [Manager.liveCount_eq]
  show _ = 2 + (s.modify k fun x => { x with phase := .released }).objects.liveCount +
    (s.modify k fun x => { x with phase := .released }).messageCount + s.temps.length
  rw [hcount]
  omega

theorem setRegistry (h : Balanced s) (kind : StreamKind) (r : Registry) : Balanced (s.setRegistry kind r) := by
  cases kind <;> exact ⟨h.subRefs, h.useCount, h.bound⟩

theorem establish {k : Nat} (h : Balanced s) : Balanced (s.modify k fun x => { x with established := true }) := by
  have hlive : (s.modify k fun x => { x with established := true }).liveCount = s.liveCount := by
    rw [Manager.liveCount_eq, Manager.objects_modify]
    exact Objects.liveCount_put rfl
  exact h.congr rfl rfl hlive rfl (fun m => Manager.referenced_modify Iff.rfl) rfl

theorem forget {k m : Nat} {f : ManagedSession → ManagedSession} (h : Balanced s) (hk : k < s.sessionCount)
    (hm : (s.sessions k).Holds m) (hobj : (f (s.sessions k)).object = (s.sessions k).object)
    (hh : ∀ m' ≠ m, (f (s.sessions k)).Holds m' ↔ (s.sessions k).Holds m') : Balanced ((s.modify k f).release m) :=
  h.release (Manager.referenced_iff.mpr (.inr ⟨k, hk, hm⟩)) rfl rfl
    (Manager.liveCount_congr (s.objects_modify_same k f hobj)) rfl
    (fun m' hne => Manager.referenced_modify (hh m' hne)) rfl

theorem step {cfg : ListenerConfig} {e : ManagerEnv} (h : Balanced s) (hs : s.step cfg e = some s') : Balanced s' := by
  cases e with
  | onDetect result addr =>
    have h' : Balanced { s with detecting := s.detecting - 1 } := ⟨h.subRefs, h.useCount, h.bound⟩
    obtain ⟨-, ⟨-, rfl⟩ | ⟨kind, -, -, hc⟩⟩ := Manager.onDetect_eq_some hs
    · exact h'
    · exact h'.construct hc
  | onAccept k =>
    simp only [Manager.step] at hs
    split at hs
    · obtain rfl := Option.some.inj hs
      exact h.establish.setRegistry _ _
    · cases hs
  | handleSend k accept =>
    simp only [Manager.step] at hs
    split at hs
    · cases hs
    · rename_i m rest hp
      split at hs
      · rename_i hk
        split at hs
        · cases hs
          refine h.modify (f := fun x => { x with posted := rest, queue := x.queue ++ [m] }) rfl fun m' => ?_
          simp only [ManagedSession.Holds, hp, List.mem_append, List.mem_cons, List.not_mem_nil, or_false]
          tauto
        · cases hs
          refine h.forget (f := fun x => { x with posted := rest }) hk.1 (.inl (by rw [hp]; simp)) rfl fun m' hne => ?_
          simp [ManagedSession.Holds, hp, hne]
      · cases hs
  | dequeue k i =>
    simp only [Manager.step] at hs
    split at hs
    · cases hs
    · rename_i m hm
      split at hs
      · rename_i hk
        cases hs
        exact h.forget (f := fun x => { x with queue := x.queue.eraseIdx i }) hk (.inr (List.mem_of_getElem? hm)) rfl
          fun m' hne => Manager.holds_eraseIdx hm hne
      · cases hs
  | expire k =>
    simp only [Manager.step] at hs
    split at hs
    · exact h.advance hs rfl
    · cases hs
  | removeSession k =>
    obtain ⟨s₁, hadv, rfl⟩ := Option.map_eq_some_iff.mp hs
    have h₁ := h.advance hadv rfl
    show Balanced (if (s.sessions k).established then _ else _)
    split
    · exact h₁.setRegistry _ _
    · exact h₁
  | onDisconnect k => exact h.advance hs rfl
  | destroyMembers k =>
    simp only [Manager.step] at hs
    split at hs
    · obtain ⟨s₁, hadv, rfl⟩ := Option.map_eq_some_iff.mp hs
      exact h.destroyMembers hadv
    · cases hs
  | free k => exact h.advance hs rfl

end Balanced

/-! ## What the calls hold -/

/-- The pointers of the calls are counted, and every broadcast has a message of its own. -/
structure Counted (s : Manager) (views : Nat → Option ManagerView) : Prop where
  balanced : Balanced s
  counting : ∀ t v, views t = some v → v.counting = true → t ∈ s.temps
  message : ∀ t v m b, views t = some v → v.message = some (m, b) → m ∈ s.locals
  distinct : ∀ t t' v v' m b b', views t = some v → views t' = some v' → v.message = some (m, b) →
    v'.message = some (m, b') → t = t'

namespace Counted

variable {s s' : Manager} {views : Nat → Option ManagerView} {t : Nat} {v w : ManagerView}

/-- The step of a call that starts or goes on: what it now holds is counted, and its message is new or the one it had. -/
theorem update (h : Counted s views) (hb : Balanced s') (htemps : ∀ t' ≠ t, t' ∈ s.temps → t' ∈ s'.temps)
    (hc : w.counting = true → t ∈ s'.temps)
    (hlocals : ∀ t' v' m b, t' ≠ t → views t' = some v' → v'.message = some (m, b) → m ∈ s'.locals)
    (hm : ∀ m b, w.message = some (m, b) → m ∈ s'.locals)
    (hnew : ∀ t' v' m b b', t' ≠ t → views t' = some v' → v'.message = some (m, b) → w.message ≠ some (m, b')) :
    Counted s' (Function.update views t (some w)) := by
  refine ⟨hb, fun t₁ v₁ h₁ hc₁ => ?_, fun t₁ v₁ m b h₁ hm₁ => ?_, fun t₁ t₂ v₁ v₂ m b b' h₁ h₂ hm₁ hm₂ => ?_⟩
  · rcases view_of_update h₁ with ⟨rfl, rfl⟩ | ⟨hne, h₁⟩
    · exact hc hc₁
    · exact htemps t₁ hne (h.counting t₁ v₁ h₁ hc₁)
  · rcases view_of_update h₁ with ⟨rfl, rfl⟩ | ⟨hne, h₁⟩
    · exact hm m b hm₁
    · exact hlocals t₁ v₁ m b hne h₁ hm₁
  · rcases view_of_update h₁ with ⟨rfl, rfl⟩ | ⟨hne₁, hv₁⟩
    · rcases view_of_update h₂ with ⟨rfl, rfl⟩ | ⟨hne₂, hv₂⟩
      · rfl
      · exact absurd hm₁ (hnew t₂ v₂ m b' b hne₂ hv₂ hm₂)
    · rcases view_of_update h₂ with ⟨rfl, rfl⟩ | ⟨hne₂, hv₂⟩
      · exact absurd hm₂ (hnew t₁ v₁ m b b' hne₁ hv₁ hm₁)
      · exact h.distinct t₁ t₂ v₁ v₂ m b b' hv₁ hv₂ hm₁ hm₂

theorem keep (h : Counted s views) (hv : views t = some v) (hb : Balanced s') (htemps : s'.temps = s.temps)
    (hlocals : s'.locals = s.locals) (hc : w.counting = v.counting) (hm : w.message = v.message) :
    Counted s' (Function.update views t (some w)) := by
  refine h.update hb (fun t' _ ht => htemps ▸ ht) (fun hcw => ?_) (fun t' v' m b _ h' hm' => ?_) (fun m b hmw => ?_)
    fun t' v' m b b' hne h' hm' hmw => ?_
  · rw [htemps]
    exact h.counting t v hv (hc ▸ hcw)
  · rw [hlocals]
    exact h.message t' v' m b h' hm'
  · rw [hlocals]
    exact h.message t v m b hv (hm ▸ hmw)
  · exact hne (h.distinct t' t v' v m b b' h' hv hm' (hm ▸ hmw))

theorem call (h : Counted s views) : Counted s (Function.update views t (some {})) := by
  refine h.update h.balanced (fun _ _ ht => ht) (fun hc => ?_) (fun t' v' m b _ h' hm' => h.message t' v' m b h' hm')
    (fun m b hm => ?_) fun t' v' m b b' _ _ _ hm => ?_
  · cases hc
  · cases hm
  · cases hm

theorem env {cfg : ListenerConfig} {e : ManagerEnv} (h : Counted s views) (hs : s.step cfg e = some s') :
    Counted s' views := by
  have hsame := Manager.step_calls hs
  refine ⟨h.balanced.step hs, fun t v hv hc => ?_, fun t v m b hv hm => ?_, h.distinct⟩
  · rw [hsame.temps]
    exact h.counting t v hv hc
  · rw [hsame.locals]
    exact h.message t v m b hv hm

theorem exec {cfg : ListenerConfig} {o : ManagerOp} {i : ManagerInput} {r : o.Res} (h : Counted s views)
    (hv : views t = some v) (hpre : v.Allows cfg o) (hs : ManagerOp.exec t o i s = some (r, s')) :
    Counted s' (Function.update views t (some (v.next o r))) := by
  have hb := h.balanced
  cases o with
  | beginCount =>
    cases hs
    refine h.update (hb.beginCount t) (fun t' _ ht => List.mem_cons_of_mem _ ht) (fun _ => List.mem_cons_self)
      (fun t' v' m b _ h' hm' => h.message t' v' m b h' hm') (fun m b hm => h.message t v m b hv hm)
      fun t' v' m b b' hne h' hm' hm => hne (h.distinct t' t v' v m b b' h' hv hm' hm)
  | endCount =>
    cases hs
    refine h.update (hb.endCount (h.counting t v hv hpre)) (fun t' hne ht => (List.mem_erase_of_ne hne).mpr ht)
      (fun hc => by cases hc) (fun t' v' m b _ h' hm' => h.message t' v' m b h' hm')
      (fun m b hm => h.message t v m b hv hm)
      fun t' v' m b b' hne h' hm' hm => hne (h.distinct t' t v' v m b b' h' hv hm' hm)
  | makePush msg =>
    cases hs
    refine h.update (hb.makePush msg) (fun t' _ ht => ht) (fun hc => h.counting t v hv hc)
      (fun t' v' m b _ h' hm' => List.mem_append_left _ (h.message t' v' m b h' hm')) (fun m b hm => ?_)
      fun t' v' m b b' _ h' hm' hm => ?_
    · cases hm
      exact List.mem_append_right _ List.mem_cons_self
    · -- the number of the new message is larger than all before
      cases hm
      exact absurd (hb.bound _ (Manager.referenced_iff.mpr (.inl (h.message t' v' _ b h' hm')))) (Nat.lt_irrefl _)
  | dropPush m =>
    obtain ⟨-, b, hmsg⟩ := hpre
    have hlocals : ∀ m' ∈ s.locals, m' ≠ m → m' ∈ ({ s with locals := s.locals.erase m }.release m).locals := by
      intro m' hm' hne
      rw [(Manager.release_calls _ m).locals]
      exact (List.mem_erase_of_ne hne).mpr hm'
    cases hs
    refine h.update (hb.dropPush (h.message t v m b hv hmsg)) (fun t' _ ht => ?_) (fun hc => ?_)
      (fun t' v' m' b' hne h' hm' => ?_) (fun m b hm => by cases hm) fun t' v' m b b' _ _ _ hm => by cases hm
    · rw [(Manager.release_calls _ m).temps]
      exact ht
    · rw [(Manager.release_calls _ m).temps]
      exact h.counting t v hv hc
    · refine hlocals m' (h.message t' v' m' b' h' hm') fun he => hne ?_
      exact h.distinct t' t v' v m b' b h' hv (he ▸ hm') hmsg
  | lockWeak k =>
    simp only [ManagerOp.exec] at hs
    split at hs
    · cases hs
      exact h.keep hv (hb.modify rfl fun _ => Iff.rfl) rfl rfl rfl rfl
    · cases hs
      exact h.keep hv hb rfl rfl rfl rfl
  | send k m =>
    obtain ⟨⟨b, hmsg⟩, -⟩ := hpre
    cases hs
    exact h.keep hv (hb.send (h.message t v m b hv hmsg)) rfl rfl rfl rfl
  | releaseSession k =>
    cases hs
    exact h.keep hv (hb.modify rfl fun _ => Iff.rfl) rfl rfl rfl rfl
  | beginAccept =>
    simp only [ManagerOp.exec] at hs
    split at hs
    · cases hs
    · cases hs
      exact h.keep hv ⟨hb.subRefs, hb.useCount, hb.bound⟩ rfl rfl rfl rfl
  | newSession =>
    obtain ⟨s₁, hc, he⟩ := Option.map_eq_some_iff.mp hs
    cases he
    exact h.keep hv (hb.construct hc) (Manager.construct_calls hc).temps (Manager.construct_calls hc).locals rfl rfl
  | testQueue => cases hs; exact h.keep hv hb rfl rfl rfl rfl
  | countPush => cases hs; exact h.keep hv ⟨hb.subRefs, hb.useCount, hb.bound⟩ rfl rfl rfl rfl
  | copy kind ids => cases hs; exact h.keep hv hb rfl rfl rfl rfl
  | sessionIds => cases hs; exact h.keep hv hb rfl rfl rfl rfl
  | newDetect => cases hs; exact h.keep hv ⟨hb.subRefs, hb.useCount, hb.bound⟩ rfl rfl rfl rfl
  | endAccept => cases hs; exact h.keep hv ⟨hb.subRefs, hb.useCount, hb.bound⟩ rfl rfl rfl rfl

theorem start : Counted .new fun _ => none := by
  refine ⟨⟨rfl, rfl, fun m hm => ?_⟩, fun _ _ hv => (by cases hv), fun _ _ _ _ hv => (by cases hv),
    fun _ _ _ _ _ _ _ hv => (by cases hv)⟩
  rcases Manager.referenced_iff.mp hm with hm | ⟨k, hk, -⟩
  · cases hm
  · cases hk

end Counted

theorem counted {cfg : ListenerConfig} {G : ManagerPool → Act ManagerCall ManagerInput ManagerEnv → Prop} {p : ManagerPool}
    (hp : (managerMachine cfg).Reach G .new p) :
    ∃ views, Counted p.shared views ∧ Machine.Linked (managerDiscipline cfg) (fun _ _ _ _ => True) p views :=
  Machine.sound (fun _ _ => {}) Counted.start (fun _ c => managerCall_ok cfg c) (fun _ _ _ _ _ _ h _ _ => h.call)
    (fun _ _ _ _ _ _ _ _ _ _ h _ _ hv hpre hs => h.exec hv hpre hs) (fun _ _ _ _ _ _ h _ hs => h.env hs) hp

/-- **`connections()` counts sessions, and more.** In every reachable state it is the number of live sessions exactly
when nobody points to a message of a broadcast and no other call is counting. -/
theorem connections_exact (cfg : ListenerConfig) (p : ManagerPool) (hp : (managerMachine cfg).Reach Machine.Free .new p) :
    p.shared.connections = p.shared.liveCount ↔
      (∀ m < p.shared.messages.length, p.shared.referenced m = false) ∧ p.shared.temps = [] := by
  obtain ⟨views, h, -⟩ := counted hp
  have hzero : p.shared.messageCount = 0 ↔ ∀ m < p.shared.messages.length, p.shared.referenced m = false := by
    unfold Manager.messageCount
    rw [List.countP_eq_zero]
    simp
  rw [h.balanced.connections, ← hzero, ← List.length_eq_zero_iff]
  omega

/-- A server without ssl that allows two sessions. -/
def plainListener : ListenerConfig := { maxSessions := 2, sslCtx := false, plainMode := true, sslMode := false }

/-- The listener makes a session at the address 100. -/
def acceptRun : List (Act ManagerCall ManagerInput ManagerEnv) :=
  [.call 0 .onAccept, .op 0 {}, .op 0 {}, .op 0 {}, .op 0 { addr := 100 }, .op 0 {}, .env (.onAccept 0)]

/-- A session and nothing else. -/
theorem connections_exact_session : ∃ p : ManagerPool, (managerMachine plainListener).Reach Machine.Free .new p ∧
    p.shared.liveCount = 1 ∧ p.shared.connections = 1 := by
  have hrun : ((managerMachine plainListener).run (fun _ _ => true) (.initial .new) acceptRun).any (fun p =>
      decide (p.shared.liveCount = 1) && decide (p.shared.messages = []) && decide (p.shared.temps = [])) = true := by
    decide +kernel
  obtain ⟨p, hp, hf⟩ := Machine.Reach.exists_of_run (fun _ _ _ => trivial) acceptRun hrun
  simp only [Bool.and_eq_true, decide_eq_true_eq] at hf
  obtain ⟨⟨hlive, hmsg⟩, htemps⟩ := hf
  refine ⟨p, hp, hlive, ?_⟩
  rw [← hlive]
  exact (connections_exact plainListener p hp).mpr ⟨fun m hm => absurd hm (by rw [hmsg]; exact Nat.not_lt_zero m), htemps⟩

/-- A broadcast has returned and its message waits for its only session: two connections are counted, and a server for
two sessions is full. -/
theorem connections_inexact : ∃ p : ManagerPool, (managerMachine plainListener).Reach Machine.Free .new p ∧
    p.result 1 = some (.broadcast ⟨7, [], none⟩, .sent) ∧ p.shared.temps = [] ∧ p.shared.liveCount = 1 ∧
    p.shared.connections = 2 := by
  have hrun : ((managerMachine plainListener).run (fun _ _ => true) (.initial .new)
      (acceptRun ++ .call 1 (.broadcast ⟨7, [], none⟩) :: List.replicate 11 (.op 1 {}))).any (fun p =>
      decide (p.result 1 = some (.broadcast ⟨7, [], none⟩, .sent)) && decide (p.shared.temps = []) &&
        decide (p.shared.liveCount = 1) && decide (p.shared.connections = 2)) = true := by
    decide +kernel
  obtain ⟨p, hp, hf⟩ := Machine.Reach.exists_of_run (fun _ _ _ => trivial) _ hrun
  simp only [Bool.and_eq_true, decide_eq_true_eq] at hf
  obtain ⟨⟨⟨hres, htemps⟩, hlive⟩, hconn⟩ := hf
  exact ⟨p, hp, hres, htemps, hlive, hconn⟩

/-! ## The limit -/

/-- A detection that ends in a session ends when there is room for it. -/
def Roomy (cfg : ListenerConfig) (p : ManagerPool) : Act ManagerCall ManagerInput ManagerEnv → Prop
  | .env (.onDetect result _) => cfg.serves result ≠ none → p.shared.liveCount < cfg.maxSessions.toNat
  | _ => True

/-- Without ssl, the listener is the only one that makes sessions, and what it has seen is not less than the number of
sessions there are. -/
structure Limited (cfg : ListenerConfig) (s : Manager) (views : Nat → Option ManagerView) : Prop where
  limit : s.liveCount ≤ cfg.maxSessions.toNat
  accepting : ∀ t v, views t = some v → v.accepting = true → s.accepting = true
  single : ∀ t t' v v', views t = some v → views t' = some v' → v.accepting = true → v'.accepting = true → t = t'
  seen : cfg.sslCtx = false → ∀ t v n, views t = some v → v.accepting = true → v.seen = some n → s.liveCount ≤ n
  detecting : cfg.sslCtx = false → s.detecting = 0

namespace Limited

variable {cfg : ListenerConfig} {s s' : Manager} {views : Nat → Option ManagerView} {t : Nat} {v w : ManagerView}

theorem keep (h : Limited cfg s views) (hv : views t = some v) (hlive : s'.liveCount = s.liveCount)
    (hacc : s'.accepting = s.accepting) (hdet : s'.detecting = s.detecting) (hw : w.accepting = v.accepting)
    (hseen : ∀ n, w.seen = some n → v.seen = some n ∨ s.liveCount ≤ n) :
    Limited cfg s' (Function.update views t (some w)) := by
  refine ⟨hlive ▸ h.limit, fun t₁ v₁ h₁ ha => ?_, fun t₁ t₂ v₁ v₂ h₁ h₂ ha₁ ha₂ => ?_, fun hssl t₁ v₁ n h₁ ha hs => ?_,
    fun hssl => hdet ▸ h.detecting hssl⟩
  · rw [hacc]
    rcases view_of_update h₁ with ⟨rfl, rfl⟩ | ⟨-, hv₁⟩
    · exact h.accepting t₁ v hv (hw ▸ ha)
    · exact h.accepting t₁ v₁ hv₁ ha
  · rcases view_of_update h₁ with ⟨rfl, rfl⟩ | ⟨-, hv₁⟩
    · rcases view_of_update h₂ with ⟨rfl, rfl⟩ | ⟨-, hv₂⟩
      · rfl
      · exact h.single t₁ t₂ v v₂ hv hv₂ (hw ▸ ha₁) ha₂
    · rcases view_of_update h₂ with ⟨rfl, rfl⟩ | ⟨-, hv₂⟩
      · exact h.single t₁ t₂ v₁ v hv₁ hv ha₁ (hw ▸ ha₂)
      · exact h.single t₁ t₂ v₁ v₂ hv₁ hv₂ ha₁ ha₂
  · rw [hlive]
    rcases view_of_update h₁ with ⟨rfl, rfl⟩ | ⟨-, hv₁⟩
    · rcases hseen n hs with hs | hle
      · exact h.seen hssl t₁ v n hv (hw ▸ ha) hs
      · exact hle
    · exact h.seen hssl t₁ v₁ n hv₁ ha hs

theorem only (h : Limited cfg s views) (hfree : ∀ t' v', t' ≠ t → views t' = some v' → v'.accepting = false)
    (hlimit : s'.liveCount ≤ cfg.maxSessions.toNat) (hacc : w.accepting = true → s'.accepting = true)
    (hseen : w.accepting = true → w.seen = none) (hdet : s'.detecting = s.detecting) :
    Limited cfg s' (Function.update views t (some w)) := by
  have honly : ∀ t₁ v₁, Function.update views t (some w) t₁ = some v₁ → v₁.accepting = true → t₁ = t ∧ v₁ = w := by
    intro t₁ v₁ h₁ ha
    rcases view_of_update h₁ with hw | ⟨hne, hv₁⟩
    · exact hw
    · rw [hfree t₁ v₁ hne hv₁] at ha
      cases ha
  refine ⟨hlimit, fun t₁ v₁ h₁ ha => ?_, fun t₁ t₂ v₁ v₂ h₁ h₂ ha₁ ha₂ => ?_, fun _ t₁ v₁ n h₁ ha hs => ?_,
    fun hssl => hdet ▸ h.detecting hssl⟩
  · obtain ⟨-, rfl⟩ := honly t₁ v₁ h₁ ha
    exact hacc ha
  · exact (honly t₁ v₁ h₁ ha₁).1.trans (honly t₂ v₂ h₂ ha₂).1.symm
  · obtain ⟨-, rfl⟩ := honly t₁ v₁ h₁ ha
    rw [hseen ha] at hs
    cases hs

theorem call (h : Limited cfg s views) : Limited cfg s (Function.update views t (some {})) := by
  have hold : ∀ t₁ v₁, Function.update views t (some {}) t₁ = some v₁ → v₁.accepting = true → views t₁ = some v₁ := by
    intro t₁ v₁ h₁ ha
    rcases view_of_update h₁ with ⟨-, rfl⟩ | ⟨-, hv₁⟩
    · cases ha
    · exact hv₁
  exact ⟨h.limit, fun t₁ v₁ h₁ ha => h.accepting t₁ v₁ (hold t₁ v₁ h₁ ha) ha,
    fun t₁ t₂ v₁ v₂ h₁ h₂ ha₁ ha₂ => h.single t₁ t₂ v₁ v₂ (hold t₁ v₁ h₁ ha₁) (hold t₂ v₂ h₂ ha₂) ha₁ ha₂,
    fun hssl t₁ v₁ n h₁ ha => h.seen hssl t₁ v₁ n (hold t₁ v₁ h₁ ha) ha, h.detecting⟩

theorem others_free (h : Limited cfg s views) (hv : views t = some v) (ha : v.accepting = true) :
    ∀ t' v', t' ≠ t → views t' = some v' → v'.accepting = false := by
  intro t' v' hne hv'
  by_contra ha'
  exact hne (h.single t' t v' v hv' hv (Bool.not_eq_false _ ▸ ha') ha)

theorem exec {o : ManagerOp} {i : ManagerInput} {r : o.Res} (h : Limited cfg s views) (hb : Balanced s)
    (hv : views t = some v) (hpre : v.Allows cfg o) (hs : ManagerOp.exec t o i s = some (r, s')) :
    Limited cfg s' (Function.update views t (some (v.next o r))) := by
  have hobj := ManagerOp.exec_objects hs
  have hlive : o ≠ .newSession → s'.liveCount = s.liveCount := fun hne =>
    Manager.liveCount_congr (hobj.resolve_right fun hn => hne hn.1)
  have hseen : ∀ n, v.seen = some n → v.seen = some n ∨ s.liveCount ≤ n := fun n hn => .inl hn
  cases o with
  | beginCount =>
    cases hs
    refine h.keep hv (hlive fun ho => by cases ho) rfl rfl rfl fun n hn => .inr ?_
    have hconn := hb.connections
    have hn : some s.connections = some n := hn
    cases hn
    omega
  | beginAccept =>
    simp only [ManagerOp.exec] at hs
    split at hs
    · cases hs
    · rename_i hacc
      cases hs
      refine h.only (fun t' v' _ hv' => ?_) ((hlive fun ho => by cases ho).trans_le h.limit) (fun _ => rfl)
        (fun _ => rfl) rfl
      by_contra ha
      exact hacc (h.accepting t' v' hv' (Bool.not_eq_false _ ▸ ha))
  | newSession =>
    obtain ⟨hssl, hacc, n, hn, hlt⟩ := hpre
    rcases hobj with hsame | ⟨-, hborn⟩
    · obtain ⟨s₁, hc, he⟩ := Option.map_eq_some_iff.mp hs
      cases he
      have hcount := Objects.liveCount_born (Manager.objects_construct hc)
      rw [hsame] at hcount
      omega
    · have hcount := Objects.liveCount_born hborn
      rw [← Manager.liveCount_eq, ← Manager.liveCount_eq] at hcount
      have hle := h.seen hssl t v n hv hacc hn
      obtain ⟨s₁, hc, he⟩ := Option.map_eq_some_iff.mp hs
      cases he
      have hcalls := Manager.construct_calls hc
      refine h.only (h.others_free hv hacc) (by omega) (fun _ => ?_) (fun _ => rfl) ?_
      · rw [hcalls.accepting]
        exact h.accepting t v hv hacc
      · rw [h.detecting hssl]
        have := hcalls.detecting
        rw [h.detecting hssl] at this
        omega
  | endAccept =>
    cases hs
    exact h.only (h.others_free hv hpre) ((hlive fun ho => by cases ho).trans_le h.limit) (fun hc => by cases hc)
      (fun hc => by cases hc) rfl
  | newDetect =>
    cases hs
    have hssl : cfg.sslCtx ≠ false := fun hf => by rw [hpre] at hf; cases hf
    have h' : Limited cfg s (Function.update views t (some v)) := h.keep hv rfl rfl rfl rfl hseen
    exact ⟨h'.limit, h'.accepting, h'.single, h'.seen, fun hf => absurd hf hssl⟩
  | lockWeak k =>
    simp only [ManagerOp.exec] at hs
    split at hs
    · cases hs
      exact h.keep hv (hlive fun ho => by cases ho) rfl rfl rfl hseen
    · cases hs
      exact h.keep hv rfl rfl rfl rfl hseen
  | dropPush m =>
    cases hs
    refine h.keep hv (hlive fun ho => by cases ho) (Manager.release_calls _ m).accepting ?_ rfl hseen
    unfold Manager.release
    split <;> rfl
  | endCount => cases hs; exact h.keep hv rfl rfl rfl rfl hseen
  | testQueue => cases hs; exact h.keep hv rfl rfl rfl rfl hseen
  | makePush msg => cases hs; exact h.keep hv rfl rfl rfl rfl hseen
  | countPush => cases hs; exact h.keep hv rfl rfl rfl rfl hseen
  | copy kind ids => cases hs; exact h.keep hv rfl rfl rfl rfl hseen
  | send k m => cases hs; exact h.keep hv (hlive fun ho => by cases ho) rfl rfl rfl hseen
  | releaseSession k => cases hs; exact h.keep hv (hlive fun ho => by cases ho) rfl rfl rfl hseen
  | sessionIds => cases hs; exact h.keep hv rfl rfl rfl rfl hseen

theorem env {e : ManagerEnv} (h : Limited cfg s views)
    (hroom : ∀ result addr, e = .onDetect result addr → cfg.serves result ≠ none → s.liveCount < cfg.maxSessions.toNat)
    (hs : s.step cfg e = some s') : Limited cfg s' views := by
  have hcalls := Manager.step_calls hs
  have hdet : cfg.sslCtx = false → s'.detecting = 0 := fun hssl =>
    Nat.le_zero.mp (h.detecting hssl ▸ hcalls.detecting)
  have hacc : ∀ t v, views t = some v → v.accepting = true → s'.accepting = true := fun t v hv ha =>
    hcalls.accepting ▸ h.accepting t v hv ha
  rcases Manager.liveCount_step hs with hle | ⟨result, addr, rfl, hserve, hd, hborn⟩
  · exact ⟨hle.trans h.limit, hacc, h.single, fun hssl t v n hv ha hn => hle.trans (h.seen hssl t v n hv ha hn), hdet⟩
  · have hlt := hroom result addr rfl hserve
    refine ⟨by omega, hacc, h.single, fun hssl => absurd (h.detecting hssl) hd, hdet⟩

theorem start : Limited cfg .new fun _ => none :=
  ⟨Nat.zero_le _, fun _ _ hv => (by cases hv), fun _ _ _ _ hv => (by cases hv), fun _ _ _ _ hv => (by cases hv),
    fun _ => rfl⟩

end Limited

/-- Both invariants. -/
structure Admitted (cfg : ListenerConfig) (s : Manager) (views : Nat → Option ManagerView) : Prop where
  counted : Counted s views
  limited : Limited cfg s views

theorem limited {cfg : ListenerConfig} {p : ManagerPool} (hp : (managerMachine cfg).Reach (Roomy cfg) .new p) :
    p.shared.liveCount ≤ cfg.maxSessions.toNat := by
  have hinv : ∃ views, Admitted cfg p.shared views ∧
      Machine.Linked (managerDiscipline cfg) (fun _ _ _ _ => True) p views :=
    Machine.sound (fun _ _ => {}) ⟨Counted.start, Limited.start⟩ (fun _ c => managerCall_ok cfg c)
      (fun _ _ _ _ _ _ h _ _ => ⟨h.counted.call, h.limited.call⟩)
      (fun _ _ _ _ _ _ _ _ _ _ h _ _ hv hpre hs =>
        ⟨h.counted.exec hv hpre hs, h.limited.exec h.counted.balanced hv hpre hs⟩)
      (fun _ _ _ _ _ _ h hg hs => ⟨h.counted.env hs, h.limited.env (fun _ _ he => by subst he; exact hg) hs⟩) hp
  obtain ⟨views, h, -⟩ := hinv
  exact h.limited.limit

/-- **The session limit.** As long as every detection that ends in a session finds room for it, the number of sessions
stays within `max_sessions`; the first detection that finds none is what breaks the limit. -/
theorem session_limit (cfg : ListenerConfig) (p : ManagerPool) (hp : (managerMachine cfg).Reach (Roomy cfg) .new p) :
    p.shared.liveCount ≤ cfg.maxSessions.toNat ∧
      ∀ a p', (managerMachine cfg).step p a = some p' →
        (p'.shared.liveCount ≤ cfg.maxSessions.toNat ↔ Roomy cfg p a) := by
  refine ⟨limited hp, fun a p' hstep => ⟨fun hle => ?_, fun hroom => limited (hp.step hroom hstep)⟩⟩
  cases a with
  | call t c => trivial
  | op t i => trivial
  | env e =>
    cases e with
    | onDetect result addr =>
      intro hserve
      obtain ⟨s, hs, rfl⟩ := Machine.step_env hstep
      obtain ⟨-, ⟨hn, -⟩ | ⟨kind, -, -, hc⟩⟩ := Manager.onDetect_eq_some hs
      · exact absurd hn hserve
      · have hcount := Objects.liveCount_born (Manager.objects_construct hc)
        have hle : s.objects.liveCount ≤ cfg.maxSessions.toNat := hle
        rw [hcount] at hle
        exact Nat.lt_of_succ_le hle
    | _ => trivial

def roomy (cfg : ListenerConfig) (p : ManagerPool) : Act ManagerCall ManagerInput ManagerEnv → Bool
  | .env (.onDetect result _) => decide (cfg.serves result ≠ none → p.shared.liveCount < cfg.maxSessions.toNat)
  | _ => true

theorem roomy_sound (cfg : ListenerConfig) (p : ManagerPool) (a : Act ManagerCall ManagerInput ManagerEnv)
    (h : roomy cfg p a = true) : Roomy cfg p a := by
  cases a with
  | call t c => trivial
  | op t i => trivial
  | env e =>
    cases e with
    | onDetect result addr =>
      simp only [roomy, decide_eq_true_eq] at h
      exact h
    | _ => trivial

/-- A server with an ssl context that allows one session. -/
def sslConfig : ListenerConfig := { maxSessions := 1, sslCtx := true, plainMode := false, sslMode := true }

/-- Two sockets pass `is_full()` before the first detection has ended. -/
def twoSockets : List (Act ManagerCall ManagerInput ManagerEnv) :=
  .call 0 .onAccept :: List.replicate 5 (.op 0 {}) ++ .call 1 .onAccept :: List.replicate 5 (.op 1 {})

/-- The first of the two detections finds room. -/
theorem session_limit_detected : ∃ p : ManagerPool, (managerMachine sslConfig).Reach (Roomy sslConfig) .new p ∧
    p.shared.detecting = 1 ∧ p.shared.liveCount ≤ sslConfig.maxSessions.toNat := by
  have hrun : ((managerMachine sslConfig).run (roomy sslConfig) (.initial .new)
      (twoSockets ++ [.env (.onDetect (some .ssl) 100)])).any (fun p => decide (p.shared.detecting = 1)) = true := by
    decide +kernel
  obtain ⟨p, hp, hf⟩ := Machine.Reach.exists_of_run (roomy_sound sslConfig) _ hrun
  exact ⟨p, hp, of_decide_eq_true hf, (session_limit sslConfig p hp).1⟩

/-- Both detections end in a session. -/
theorem session_limit_exceeded : ∃ p : ManagerPool, (managerMachine sslConfig).Reach Machine.Free .new p ∧
    p.shared.liveCount = 2 ∧ sslConfig.maxSessions.toNat = 1 := by
  have hrun : ((managerMachine sslConfig).run (fun _ _ => true) (.initial .new)
      (twoSockets ++ [.env (.onDetect (some .ssl) 100), .env (.onDetect (some .ssl) 200)])).any
      (fun p => decide (p.shared.liveCount = 2)) = true := by
    decide +kernel
  obtain ⟨p, hp, hf⟩ := Machine.Reach.exists_of_run (fun _ _ _ => trivial) _ hrun
  exact ⟨p, hp, of_decide_eq_true hf, rfl⟩

end Radrpc
