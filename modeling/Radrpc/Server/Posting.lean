import Radrpc.Server.Counting
import Radrpc.Server.Registry

/-!
# Whom a broadcast posts its message to

A broadcast copies the list of the plain sessions, locks and posts to one session after the other, and does the same with
the list of the ssl sessions.

* `Kept` : a session that a call has locked stays alive until the call lets go of it;
* `Aimed` : what a running broadcast knows about the rest of its copy and about the session it has locked, and what is
  true of every post so far;
* `aimed` : in every run;
* `Unambiguous`, `broadcast_names` : a broadcast to ids posts to the only session that has ever had the id, as long as the
  ids it finds on the lists have been the ids of one session only.
-/

namespace Radrpc
open Conc

/-! ## Locked sessions -/

/-- The session is alive, and the call has a pointer to it. -/
def Manager.Holds (s : Manager) (t k : Nat) : Prop := t ∈ (s.sessions k).holders ∧ (s.sessions k).phase = .alive

namespace Manager

variable {s s' : Manager} {t k : Nat}

theorem holds_modify_other {j : Nat} {f : ManagedSession → ManagedSession} (h : s.Holds t k)
    (hf : j = k → t ∈ (f (s.sessions k)).holders ∧ (f (s.sessions k)).phase = (s.sessions k).phase) :
    (s.modify j f).Holds t k := by
  by_cases hj : j = k
  · subst hj
    obtain ⟨hh, hp⟩ := hf rfl
    refine ⟨?_, ?_⟩
    · show t ∈ (Function.update s.sessions j _ j).holders
      rw [Function.update_self]
      exact hh
    · show (Function.update s.sessions j _ j).phase = _
      rw [Function.update_self, hp]
      exact h.2
  · refine ⟨?_, ?_⟩
    · show t ∈ (Function.update s.sessions j _ k).holders
      rw [Function.update_of_ne (Ne.symm hj)]
      exact h.1
    · show (Function.update s.sessions j _ k).phase = _
      rw [Function.update_of_ne (Ne.symm hj)]
      exact h.2

theorem holds_release {m : Nat} (h : s.Holds t k) : (s.release m).Holds t k := by
  unfold release
  split
  · exact h
  · exact h

theorem holds_setRegistry {kind : StreamKind} {r : Registry} (h : s.Holds t k) : (s.setRegistry kind r).Holds t k := by
  cases kind <;> exact h

theorem holds_construct {kind : StreamKind} {addr : UInt64} (h : s.Holds t k) (ht : Tidy s.objects)
    (hc : s.construct kind addr = some s') : s'.Holds t k := by
  unfold construct at hc
  split at hc
  · cases hc
    have hk : k ≠ s.sessionCount := Nat.ne_of_lt (ht.lt_of_alive (k := k) h.2)
    refine ⟨?_, ?_⟩
    · show t ∈ (Function.update s.sessions s.sessionCount _ k).holders
      rw [Function.update_of_ne hk]
      exact h.1
    · show (Function.update s.sessions s.sessionCount _ k).phase = _
      rw [Function.update_of_ne hk]
      exact h.2
  · cases hc

theorem holds_advance {j : Nat} {before after : ObjPhase} (h : s.Holds t k)
    (hne : before ≠ .alive ∨ (s.sessions j).holders = []) (hadv : s.advance j before after = some s') : s'.Holds t k := by
  obtain ⟨hobj, rfl⟩ := objects_advance hadv
  obtain ⟨-, hp, -⟩ := Objects.advance_eq_some hobj
  apply holds_modify_other h
  intro hjk
  subst hjk
  rcases hne with hne | hnil
  · exact absurd (hp.symm.trans h.2) hne
  · have hh := h.1
    rw [hnil] at hh
    cases hh

theorem step_holds {cfg : ListenerConfig} {e : ManagerEnv} (h : s.Holds t k) (ht : Tidy s.objects)
    (hs : s.step cfg e = some s') : s'.Holds t k := by
  have hsame : ∀ j f, (∀ x : ManagedSession, (f x).holders = x.holders ∧ (f x).phase = x.phase) →
      (s.modify j f).Holds t k := fun j f hf => holds_modify_other h fun _ => by
    rw [(hf _).1, (hf _).2]
    exact ⟨h.1, rfl⟩
  cases e with
  | onDetect result addr =>
    obtain ⟨-, ⟨-, rfl⟩ | ⟨kind, -, -, hc⟩⟩ := onDetect_eq_some hs
    · exact h
    · exact holds_construct (s := { s with detecting := s.detecting - 1 }) h ht hc
  | onAccept j =>
    simp only [step] at hs
    split at hs
    · cases hs
      exact holds_setRegistry (hsame j _ fun _ => ⟨rfl, rfl⟩)
    · cases hs
  | handleSend j accept =>
    simp only [step] at hs
    split at hs
    · cases hs
    · split at hs
      · split at hs
        · cases hs
          exact hsame j _ fun _ => ⟨rfl, rfl⟩
        · cases hs
          exact holds_release (hsame j _ fun _ => ⟨rfl, rfl⟩)
      · cases hs
  | dequeue j i =>
    simp only [step] at hs
    split at hs
    · cases hs
    · split at hs
      · cases hs
        exact holds_release (hsame j _ fun _ => ⟨rfl, rfl⟩)
      · cases hs
  | expire j =>
    simp only [step] at hs
    split at hs
    · rename_i hj
      exact holds_advance h (.inr hj.2) hs
    · cases hs
  | removeSession j =>
    obtain ⟨s₁, hadv, rfl⟩ := Option.map_eq_some_iff.mp hs
    have h₁ : s₁.Holds t k := holds_advance h (.inl (by decide)) hadv
    split
    · exact holds_setRegistry h₁
    · exact h₁
  | onDisconnect j => exact holds_advance h (.inl (by decide)) hs
  | destroyMembers j =>
    simp only [step] at hs
    split at hs
    · obtain ⟨s₁, hadv, rfl⟩ := Option.map_eq_some_iff.mp hs
      have h₁ : s₁.Holds t k := holds_advance h (.inl (by decide)) hadv
      exact h₁
    · cases hs
  | free j => exact holds_advance h (.inl (by decide)) hs

theorem exec_holds {t' : Nat} {o : ManagerOp} {i : ManagerInput} {r : o.Res} (h : s.Holds t k) (ht : Tidy s.objects)
    (hne : t ≠ t' ∨ ∀ j, o ≠ .releaseSession j) (hs : ManagerOp.exec t' o i s = some (r, s')) : s'.Holds t k := by
  cases o with
  | lockWeak j =>
    simp only [ManagerOp.exec] at hs
    split at hs
    · cases hs
      exact holds_modify_other h fun hj => ⟨List.mem_cons_of_mem _ h.1, rfl⟩
    · cases hs
      exact h
  | send j m =>
    cases hs
    exact holds_modify_other (f := fun x => { x with posted := x.posted ++ [m] }) h fun _ => ⟨h.1, rfl⟩
  | releaseSession j =>
    cases hs
    rcases hne with hne | hne
    · exact holds_modify_other h fun _ => ⟨(List.mem_erase_of_ne hne).mpr h.1, rfl⟩
    · exact absurd rfl (hne j)
  | dropPush m =>
    cases hs
    exact holds_release (s := { s with locals := s.locals.erase m }) h
  | beginAccept =>
    simp only [ManagerOp.exec] at hs
    split at hs
    · cases hs
    · cases hs
      exact h
  | newSession =>
    obtain ⟨s₁, hc, he⟩ := Option.map_eq_some_iff.mp hs
    cases he
    exact holds_construct h ht hc
  | beginCount => cases hs; exact h
  | endCount => cases hs; exact h
  | testQueue => cases hs; exact h
  | makePush msg => cases hs; exact h
  | countPush => cases hs; exact h
  | copy kind ids => cases hs; exact h
  | sessionIds => cases hs; exact h
  | newDetect => cases hs; exact h
  | endAccept => cases hs; exact h

end Manager

/-! ## Copies and posts -/

/-- An entry of the copy that the broadcast `b` has made of the list `kind`. -/
structure Entry (s : Manager) (b : BroadcastMsg) (kind : StreamKind) (addr : UInt64) (k : Nat) : Prop where
  lt : k < s.sessionCount
  id : (s.sessions k).id = addr
  kind : (s.sessions k).kind = kind
  established : (s.sessions k).established = true
  targeted : ∀ ids, b.ids = some ids → addr ∈ ids

/-- A message was posted to a session that it is for. -/
structure PostedTo (s : Manager) (m k : Nat) : Prop where
  lt : k < s.sessionCount
  established : (s.sessions k).established = true
  targeted : ∃ b, s.messages[m]? = some b ∧ ∀ ids, b.ids = some ids → (s.sessions k).id ∈ ids

/-- What a call knows that broadcasts the message `m`: the sessions that it has posted to are not on the rest of its
copy. -/
structure Aiming (s : Manager) (v : ManagerView) (m : Nat) (b : BroadcastMsg) : Prop where
  message : s.messages[m]? = some b
  entry : ∀ addr k, (addr, k) ∈ v.listed → ∃ kind, v.stage = some kind ∧ Entry s b kind addr k
  keys : (v.listed.map Prod.fst).Nodup
  stage : ∀ k, (m, k) ∈ s.posts → v.stage = some .plain ∧ (s.sessions k).kind = .plain ∨ v.stage = some .ssl
  posted : ∀ k, (m, k) ∈ s.posts → ∀ addr, (addr, k) ∉ v.listed

/-- What the calls know, and what is true of every post. -/
structure Aimed (s : Manager) (views : Nat → Option ManagerView) : Prop where
  aiming : ∀ t v m b, views t = some v → v.message = some (m, b) → Aiming s v m b
  holding : ∀ t v k sent, views t = some v → v.target = some (k, sent) → s.Holds t k
  posted : ∀ m k, (m, k) ∈ s.posts → PostedTo s m k
  nodup : s.posts.Nodup

/-- Messages and sessions stay what they are. -/
structure Extends (s s' : Manager) : Prop where
  objects : Objects.Grows s.objects s'.objects
  messages : ∀ (m : Nat) (b : BroadcastMsg), s.messages[m]? = some b → s'.messages[m]? = some b

section
variable {s s' : Manager} {views : Nat → Option ManagerView} {t : Nat} {v w : ManagerView} {m : Nat} {b : BroadcastMsg}

theorem Entry.mono {kind : StreamKind} {addr : UInt64} {k : Nat} (h : Entry s b kind addr k) (hx : Extends s s') :
    Entry s' b kind addr k :=
  ⟨h.lt.trans_le hx.objects.count, (hx.objects.id k h.lt).trans h.id, (hx.objects.kind k h.lt).trans h.kind,
    hx.objects.established k h.lt h.established, h.targeted⟩

theorem PostedTo.mono {k : Nat} (h : PostedTo s m k) (hx : Extends s s') : PostedTo s' m k := by
  obtain ⟨b, hb, ht⟩ := h.targeted
  refine ⟨h.lt.trans_le hx.objects.count, hx.objects.established k h.lt h.established, b, hx.messages m b hb,
    fun ids hi => ?_⟩
  have hid : (s'.sessions k).id = (s.sessions k).id := hx.objects.id k h.lt
  rw [hid]
  exact ht ids hi

theorem Aiming.mono (h : Aiming s v m b) (hx : Extends s s') (hlt : ∀ k, (m, k) ∈ s.posts → k < s.sessionCount)
    (hposts : ∀ k, (m, k) ∈ s'.posts → (m, k) ∈ s.posts) (hl : w.listed.Sublist v.listed) (hs : w.stage = v.stage) :
    Aiming s' w m b := by
  refine ⟨hx.messages m b h.message, fun addr k hk => ?_, h.keys.sublist (hl.map _), fun k hk => ?_, fun k hk addr hm => ?_⟩
  · obtain ⟨kind, hkind, he⟩ := h.entry addr k (hl.subset hk)
    exact ⟨kind, hs.trans hkind, he.mono hx⟩
  · have hkind : (s'.sessions k).kind = (s.sessions k).kind := hx.objects.kind k (hlt k (hposts k hk))
    rw [hs, hkind]
    exact h.stage k (hposts k hk)
  · exact h.posted k (hposts k hk) addr (hl.subset hm)

namespace Aimed

theorem update (h : Aimed s views) (hx : Extends s s') (hposts : s'.posts = s.posts)
    (hheld : ∀ t' k, t' ≠ t → s.Holds t' k → s'.Holds t' k) (haim : ∀ m b, w.message = some (m, b) → Aiming s' w m b)
    (hhold : ∀ k sent, w.target = some (k, sent) → s'.Holds t k) : Aimed s' (Function.update views t (some w)) := by
  refine ⟨fun t₁ v₁ m b h₁ hm => ?_, fun t₁ v₁ k sent h₁ hk => ?_, fun m k hm => ?_, hposts ▸ h.nodup⟩
  · rcases view_of_update h₁ with ⟨-, rfl⟩ | ⟨-, hv₁⟩
    · exact haim m b hm
    · refine (h.aiming t₁ v₁ m b hv₁ hm).mono hx (fun k hk => (h.posted m k hk).lt) (fun k hk => ?_) (.refl _) rfl
      rwa [hposts] at hk
  · rcases view_of_update h₁ with ⟨rfl, rfl⟩ | ⟨hne, hv₁⟩
    · exact hhold k sent hk
    · exact hheld t₁ k hne (h.holding t₁ v₁ k sent hv₁ hk)
  · rw [hposts] at hm
    exact (h.posted m k hm).mono hx

theorem keep (h : Aimed s views) (hv : views t = some v) (hx : Extends s s') (hposts : s'.posts = s.posts)
    (hheld : ∀ t' k, s.Holds t' k → s'.Holds t' k) (hm : w.message = v.message) (hl : w.listed = v.listed)
    (hs : w.stage = v.stage) (htar : w.target = v.target) : Aimed s' (Function.update views t (some w)) := by
  refine h.update hx hposts (fun t' k _ => hheld t' k) (fun m b hmw => ?_) fun k sent hk => ?_
  · refine (h.aiming t v m b hv (hm ▸ hmw)).mono hx (fun k hk => (h.posted m k hk).lt) (fun k hk => ?_) (hl ▸ .refl _) hs
    rwa [hposts] at hk
  · exact hheld t k (h.holding t v k sent hv (htar ▸ hk))

theorem call (h : Aimed s views) : Aimed s (Function.update views t (some {})) :=
  h.update ⟨.refl _, fun _ _ hm => hm⟩ rfl (fun _ _ _ hh => hh) (fun _ _ hm => by cases hm) fun _ _ hk => by cases hk

theorem env {cfg : ListenerConfig} {e : ManagerEnv} (h : Aimed s views) (ht : Tidy s.objects)
    (hs : s.step cfg e = some s') : Aimed s' views := by
  have hcalls := Manager.step_calls hs
  have hx : Extends s s' := ⟨Manager.step_grows hs, fun m b hm => by rwa [hcalls.messages]⟩
  refine ⟨fun t v m b hv hm => ?_, fun t v k sent hv hk => ?_, fun m k hm => ?_, hcalls.posts ▸ h.nodup⟩
  · refine (h.aiming t v m b hv hm).mono hx (fun k hk => (h.posted m k hk).lt) (fun k hk => ?_) (.refl _) rfl
    rwa [hcalls.posts] at hk
  · exact Manager.step_holds (h.holding t v k sent hv hk) ht hs
  · rw [hcalls.posts] at hm
    exact (h.posted m k hm).mono hx

theorem makePush {msg : BroadcastMsg} (h : Aimed s views) (hfree : v.Free) :
    Aimed { s with
      messages := s.messages ++ [msg], locals := s.locals ++ [s.messages.length], useCount := s.useCount + 1 }
      (Function.update views t (some { v with message := some (s.messages.length, msg) })) := by
  have hx : Extends s { s with
      messages := s.messages ++ [msg], locals := s.locals ++ [s.messages.length], useCount := s.useCount + 1 } :=
    ⟨.refl _, fun m b hm => List.getElem?_append_left (List.getElem?_eq_some_iff.mp hm).1 |>.trans hm⟩
  refine h.update hx rfl (fun _ _ _ hh => hh) (fun m b hm => ?_) fun k sent hk => ?_
  · cases hm
    have hnone : ∀ k, (s.messages.length, k) ∉ s.posts := fun k hk => by
      obtain ⟨b, hb, -⟩ := (h.posted _ k hk).targeted
      exact absurd (List.getElem?_eq_some_iff.mp hb).1 (Nat.lt_irrefl _)
    refine ⟨by simp, fun addr k hk => ?_, ?_, fun k hk => absurd hk (hnone k), fun k hk => absurd hk (hnone k)⟩
    · change (addr, k) ∈ v.listed at hk
      rw [hfree.listed] at hk
      cases hk
    · show (v.listed.map Prod.fst).Nodup
      rw [hfree.listed]
      exact List.nodup_nil
  · change v.target = _ at hk
    rw [hfree.target] at hk
    cases hk

theorem copy {kind : StreamKind} (h : Aimed s views) (ht : Tidy s.objects) (hv : views t = some v) (hfree : v.Free)
    (hmsg : v.message = some (m, b)) (hstage : kind = .plain ∧ v.stage = none ∨ kind = .ssl ∧ v.stage = some .plain) :
    Aimed s (Function.update views t
      (some { v with stage := some kind, listed := (s.registry kind).select b.ids })) := by
  have ha := h.aiming t v m b hv hmsg
  have hentry : ∀ addr k, (addr, k) ∈ (s.registry kind).select b.ids → Entry s b kind addr k := by
    intro addr k hk
    obtain ⟨hmem, htarget⟩ := Registry.mem_select hk
    rw [← Manager.objects_registry] at hmem
    obtain ⟨hlt, hlist, hkind, hid⟩ := (ht.mem _ _ _).mp hmem
    exact ⟨hlt, hid, hkind, hlist.1, htarget⟩
  refine h.update ⟨.refl _, fun _ _ hm => hm⟩ rfl (fun _ _ _ hh => hh) (fun m' b' hm' => ?_) fun k sent hk => ?_
  · have hm' : v.message = some (m', b') := hm'
    rw [hmsg] at hm'
    cases hm'
    refine ⟨ha.message, fun addr k hk => ⟨kind, rfl, hentry addr k hk⟩, ?_, fun k hk => ?_, fun k hk addr hmem => ?_⟩
    · have hkeys := ht.keys kind
      rw [Manager.objects_registry] at hkeys
      exact Registry.keys_select hkeys _
    · rcases hstage with ⟨-, hnone⟩ | ⟨rfl, -⟩
      · rcases ha.stage k hk with ⟨hsome, -⟩ | hsome <;> rw [hnone] at hsome <;> cases hsome
      · exact .inr rfl
    · have hkind := (hentry addr k hmem).kind
      rcases hstage with ⟨-, hnone⟩ | ⟨rfl, hplain⟩
      · rcases ha.stage k hk with ⟨hsome, -⟩ | hsome <;> rw [hnone] at hsome <;> cases hsome
      · rcases ha.stage k hk with ⟨-, hp⟩ | hssl
        · rw [hp] at hkind
          cases hkind
        · rw [hplain] at hssl
          cases hssl
  · change v.target = _ at hk
    rw [hfree.target] at hk
    cases hk

theorem send {k : Nat} (h : Aimed s views) (hc : Counted s views) (hv : views t = some v) (hmsg : v.message = some (m, b))
    (hheld : ∀ t' k', s.Holds t' k' →
      ({ s.modify k fun x => { x with posted := x.posted ++ [m] } with posts := s.posts ++ [(m, k)] } : Manager).Holds t' k')
    (htar : v.target = some (k, false)) {addr : UInt64} {rest : Registry} (hlist : v.listed = (addr, k) :: rest) :
    Aimed { s.modify k fun x => { x with posted := x.posted ++ [m] } with posts := s.posts ++ [(m, k)] }
      (Function.update views t (some { v with target := some (k, true), listed := v.listed.tail })) := by
  have ha := h.aiming t v m b hv hmsg
  have hx : Extends s { s.modify k fun x => { x with posted := x.posted ++ [m] } with posts := s.posts ++ [(m, k)] } := by
    refine ⟨?_, fun _ _ hm => hm⟩
    have hobj := s.objects_modify_same k (fun x => { x with posted := x.posted ++ [m] }) rfl
    show Objects.Grows s.objects (s.modify k fun x => { x with posted := x.posted ++ [m] }).objects
    rw [hobj]
    exact .refl _
  obtain ⟨kind, hkind, he⟩ := ha.entry addr k (hlist ▸ List.mem_cons_self)
  have hlt : ∀ m' k', (m', k') ∈ s.posts → k' < s.sessionCount := fun m' k' hk => (h.posted m' k' hk).lt
  have hsplit : ∀ m' k', (m', k') ∈ s.posts ++ [(m, k)] → (m', k') ∈ s.posts ∨ m' = m ∧ k' = k := by
    intro m' k' hk
    simpa using hk
  have hnew : (m, k) ∉ s.posts := fun hk => ha.posted k hk addr (hlist ▸ List.mem_cons_self)
  refine ⟨fun t₁ v₁ m₁ b₁ h₁ hm₁ => ?_, fun t₁ v₁ k₁ sent h₁ hk₁ => ?_, fun m₁ k₁ hm₁ => ?_, ?_⟩
  · rcases view_of_update h₁ with ⟨-, rfl⟩ | ⟨hne, hv₁⟩
    · have hm₁ : v.message = some (m₁, b₁) := hm₁
      rw [hmsg] at hm₁
      cases hm₁
      have htail : v.listed.tail = rest := by rw [hlist]; rfl
      refine ⟨hx.messages m b ha.message, fun addr' k' hk' => ?_, ?_, fun k' hk' => ?_, fun k' hk' addr' hmem => ?_⟩
      · obtain ⟨kind', hkind', he'⟩ := ha.entry addr' k' (List.mem_of_mem_tail hk')
        exact ⟨kind', hkind', he'.mono hx⟩
      · exact ha.keys.sublist ((List.tail_sublist _).map _)
      · have hkind' : ∀ j, j < s.sessionCount →
            ((s.modify k fun x => { x with posted := x.posted ++ [m] }).sessions j).kind = (s.sessions j).kind :=
          fun j hj => hx.objects.kind j hj
        rcases hsplit m k' hk' with hk' | ⟨-, rfl⟩
        · refine (ha.stage k' hk').imp_left fun hst => ⟨hst.1, ?_⟩
          exact (hkind' k' (hlt m k' hk')).trans hst.2
        · cases kind with
          | plain => exact .inl ⟨hkind, (hkind' k' he.lt).trans he.kind⟩
          | ssl => exact .inr hkind
      · have hrest : (addr', k') ∈ rest := htail ▸ hmem
        rcases hsplit m k' hk' with hk' | ⟨-, rfl⟩
        · exact ha.posted k' hk' addr' (hlist ▸ List.mem_cons_of_mem _ hrest)
        · -- two entries of one session would have one key
          obtain ⟨_, -, he'⟩ := ha.entry addr' k' (hlist ▸ List.mem_cons_of_mem _ hrest)
          have hkeys := ha.keys
          rw [hlist, List.map_cons, List.nodup_cons] at hkeys
          refine hkeys.1 (List.mem_map.mpr ⟨(addr', k'), hrest, ?_⟩)
          exact he'.id.symm.trans he.id
    · refine (h.aiming t₁ v₁ m₁ b₁ hv₁ hm₁).mono hx (hlt m₁) (fun k' hk' => ?_) (.refl _) rfl
      rcases hsplit m₁ k' hk' with hk' | ⟨rfl, -⟩
      · exact hk'
      · exact absurd (hc.distinct t₁ t v₁ v m₁ b₁ b hv₁ hv hm₁ hmsg) hne
  · rcases view_of_update h₁ with ⟨rfl, rfl⟩ | ⟨-, hv₁⟩
    · have hk₁ : some (k, true) = some (k₁, sent) := hk₁
      cases hk₁
      exact hheld t₁ k (h.holding t₁ v k false hv htar)
    · exact hheld t₁ k₁ (h.holding t₁ v₁ k₁ sent hv₁ hk₁)
  · rcases hsplit m₁ k₁ hm₁ with hm₁ | ⟨rfl, rfl⟩
    · exact (h.posted m₁ k₁ hm₁).mono hx
    · refine PostedTo.mono ⟨he.lt, he.established, b, ha.message, fun ids hi => ?_⟩ hx
      rw [he.id]
      exact he.targeted ids hi
  · exact List.nodup_append.mpr ⟨h.nodup, List.nodup_singleton _, fun a ha' b' hb' heq => hnew (by
      rw [← List.mem_singleton.mp hb', ← heq]
      exact ha')⟩

theorem exec {cfg : ListenerConfig} {o : ManagerOp} {i : ManagerInput} {r : o.Res} (h : Aimed s views)
    (hc : Counted s views) (htidy : Tidy s.objects) (hv : views t = some v) (hpre : v.Allows cfg o)
    (hs : ManagerOp.exec t o i s = some (r, s')) : Aimed s' (Function.update views t (some (v.next o r))) := by
  have hgrow := ManagerOp.exec_grows hs
  have hheld : (∀ j, o ≠ .releaseSession j) → ∀ t' k, s.Holds t' k → s'.Holds t' k := fun hne t' k hk =>
    Manager.exec_holds hk htidy (.inr hne) hs
  cases o with
  | makePush msg =>
    cases hs
    exact h.makePush hpre.1
  | copy kind ids =>
    obtain ⟨hfree, ⟨m, b, hmsg, rfl⟩, hstage⟩ := hpre
    cases hs
    exact h.copy htidy hv hfree hmsg hstage
  | lockWeak k =>
    obtain ⟨-, htar, -⟩ := hpre
    simp only [ManagerOp.exec] at hs
    split at hs
    · rename_i ha
      cases hs
      have hx : Extends s (s.modify k fun x => { x with holders := t :: x.holders }) := ⟨hgrow, fun _ _ hm => hm⟩
      refine h.update hx rfl (fun t' k' _ hh => hheld (fun _ hj => by cases hj) t' k' hh) (fun m b hm => ?_)
        fun k' sent hk => ?_
      · exact (h.aiming t v m b hv hm).mono hx (fun k' hk => (h.posted m k' hk).lt) (fun _ hk => hk) (.refl _) rfl
      · cases hk
        refine ⟨?_, ?_⟩
        · show t ∈ (Function.update s.sessions k _ k).holders
          rw [Function.update_self]
          exact List.mem_cons_self
        · show (Function.update s.sessions k _ k).phase = _
          rw [Function.update_self]
          exact ha
    · cases hs
      have hx : Extends s s := ⟨.refl _, fun _ _ hm => hm⟩
      refine h.update hx rfl (fun _ _ _ hh => hh) (fun m b hm => ?_) fun k' sent hk => ?_
      · exact (h.aiming t v m b hv hm).mono hx (fun k' hk => (h.posted m k' hk).lt) (fun _ hk => hk)
          (List.tail_sublist _) rfl
      · exact h.holding t v k' sent hv hk
  | send k m =>
    obtain ⟨⟨b, hmsg⟩, htar, addr, rest, hlist⟩ := hpre
    have hheld := hheld fun _ hj => by cases hj
    cases hs
    exact h.send hc hv hmsg hheld htar hlist
  | releaseSession k =>
    have hx : Extends s s' := ⟨hgrow, fun m b hm => by cases hs; exact hm⟩
    have hheld' : ∀ t' k', t' ≠ t → s.Holds t' k' → s'.Holds t' k' := fun t' k' hne hh =>
      Manager.exec_holds hh htidy (.inl hne) hs
    cases hs
    refine h.update hx rfl hheld' (fun m b hm => ?_) fun k' sent hk => by cases hk
    exact (h.aiming t v m b hv hm).mono hx (fun k' hk => (h.posted m k' hk).lt) (fun _ hk => hk) (.refl _) rfl
  | dropPush m =>
    have hcalls := Manager.release_calls { s with locals := s.locals.erase m } m
    have hx : Extends s s' := ⟨hgrow, fun m' b hm => by
      cases hs
      rwa [hcalls.messages]⟩
    have hheld := hheld fun _ hj => by cases hj
    cases hs
    exact h.update hx hcalls.posts (fun t' k' _ => hheld t' k') (fun _ _ hm => by cases hm) fun k' sent hk =>
      hheld t k' (h.holding t v k' sent hv hk)
  | newSession =>
    have hheld := hheld fun _ hj => by cases hj
    obtain ⟨s₁, hcon, he⟩ := Option.map_eq_some_iff.mp hs
    cases he
    have hcalls := Manager.construct_calls hcon
    exact h.keep hv ⟨hgrow, fun m b hm => by rwa [hcalls.messages]⟩ hcalls.posts hheld rfl rfl rfl rfl
  | beginAccept =>
    have hheld := hheld fun _ hj => by cases hj
    simp only [ManagerOp.exec] at hs
    split at hs
    · cases hs
    · cases hs
      exact h.keep hv ⟨hgrow, fun _ _ hm => hm⟩ rfl hheld rfl rfl rfl rfl
  | beginCount => cases hs; exact h.keep hv ⟨hgrow, fun _ _ hm => hm⟩ rfl (hheld fun _ hj => by cases hj) rfl rfl rfl rfl
  | endCount => cases hs; exact h.keep hv ⟨hgrow, fun _ _ hm => hm⟩ rfl (hheld fun _ hj => by cases hj) rfl rfl rfl rfl
  | testQueue => cases hs; exact h.keep hv ⟨hgrow, fun _ _ hm => hm⟩ rfl (hheld fun _ hj => by cases hj) rfl rfl rfl rfl
  | countPush => cases hs; exact h.keep hv ⟨hgrow, fun _ _ hm => hm⟩ rfl (hheld fun _ hj => by cases hj) rfl rfl rfl rfl
  | sessionIds => cases hs; exact h.keep hv ⟨hgrow, fun _ _ hm => hm⟩ rfl (hheld fun _ hj => by cases hj) rfl rfl rfl rfl
  | newDetect => cases hs; exact h.keep hv ⟨hgrow, fun _ _ hm => hm⟩ rfl (hheld fun _ hj => by cases hj) rfl rfl rfl rfl
  | endAccept => cases hs; exact h.keep hv ⟨hgrow, fun _ _ hm => hm⟩ rfl (hheld fun _ hj => by cases hj) rfl rfl rfl rfl

theorem start : Aimed .new fun _ => none :=
  ⟨fun _ _ _ _ hv => (by cases hv), fun _ _ _ _ hv => (by cases hv), fun _ _ hm => (by cases hm), List.nodup_nil⟩

end Aimed

end

/-! ## Ids -/

/-- The ids that a broadcast finds on a list have been the ids of no other session. -/
def Unambiguous (p : ManagerPool) : Act ManagerCall ManagerInput ManagerEnv → Prop
  | .op t _ => ∀ kind ids, p.next t = some (.copy kind (some ids)) → ∀ addr k, addr ∈ ids →
      (addr, k) ∈ p.shared.registry kind → ∀ j < p.shared.sessionCount, (p.shared.sessions j).id = addr → j = k
  | _ => True

/-- Of all sessions that have had this address, `k` is the only one. -/
def Manager.Sole (s : Manager) (addr : UInt64) (k : Nat) : Prop :=
  ∀ j < s.sessionCount, (s.sessions j).id = addr → j = k

/-- The sessions on the copy of a broadcast to ids are the only ones that have had their ids, while they are alive. -/
def Named (s : Manager) (views : Nat → Option ManagerView) : Prop :=
  ∀ t v m b addr k, views t = some v → v.message = some (m, b) → b.ids ≠ none → (addr, k) ∈ v.listed →
    (s.sessions k).phase = .alive → s.Sole addr k

section
variable {s s' : Manager} {views : Nat → Option ManagerView} {t : Nat} {v w : ManagerView} {addr : UInt64} {k : Nat}

theorem Manager.Sole.mono (h : s.Sole addr k) (hx : Objects.Grows s.objects s'.objects) (hk : k < s.sessionCount)
    (hid : (s.sessions k).id = addr) (ha : (s.sessions k).phase = .alive) : s'.Sole addr k := by
  intro j hj heq
  by_cases hlt : j < s.sessionCount
  · exact h j hlt ((hx.id j hlt).symm.trans heq)
  · have halloc : (s.objects.object k).phase.allocated = true := by
      show (s.sessions k).phase.allocated = true
      rw [ha]
      rfl
    exact absurd (heq.trans hid.symm) (hx.fresh j (Nat.le_of_not_lt hlt) hj k hk halloc)

theorem Named.mono {views' : Nat → Option ManagerView} (h : Named s views) (haim : Aimed s views)
    (hx : Objects.Grows s.objects s'.objects)
    (hviews : ∀ t v m b addr k, views' t = some v → v.message = some (m, b) → (addr, k) ∈ v.listed →
      ∃ v', views t = some v' ∧ v'.message = some (m, b) ∧ (addr, k) ∈ v'.listed) : Named s' views' := by
  intro t v m b addr k hv hm hids hk ha
  obtain ⟨v', hv', hm', hk'⟩ := hviews t v m b addr k hv hm hk
  obtain ⟨kind, -, he⟩ := (haim.aiming t v' m b hv' hm').entry addr k hk'
  have halive : (s.sessions k).phase = .alive := hx.alive k he.lt ha
  exact (h t v' m b addr k hv' hm' hids hk' halive).mono hx he.lt he.id halive

theorem Named.exec {cfg : ListenerConfig} {o : ManagerOp} {i : ManagerInput} {r : o.Res} (h : Named s views)
    (haim : Aimed s views) (hv : views t = some v) (hpre : v.Allows cfg o)
    (hsole : ∀ kind ids, o = .copy kind (some ids) → ∀ addr k, addr ∈ ids → (addr, k) ∈ s.registry kind → s.Sole addr k)
    (hs : ManagerOp.exec t o i s = some (r, s')) : Named s' (Function.update views t (some (v.next o r))) := by
  have hgrow := ManagerOp.exec_grows hs
  have hkeep : (∀ m b addr k, (v.next o r).message = some (m, b) → (addr, k) ∈ (v.next o r).listed →
      v.message = some (m, b) ∧ (addr, k) ∈ v.listed) → Named s' (Function.update views t (some (v.next o r))) := by
    intro hpart
    apply h.mono haim hgrow
    intro t' v' m b addr k hv' hm hk
    rcases view_of_update hv' with ⟨rfl, rfl⟩ | ⟨-, hv'⟩
    · obtain ⟨hm, hk⟩ := hpart m b addr k hm hk
      exact ⟨v, hv, hm, hk⟩
    · exact ⟨v', hv', hm, hk⟩
  cases o with
  | makePush msg =>
    apply hkeep
    intro m b addr k hm hk
    have hk : (addr, k) ∈ v.listed := hk
    rw [hpre.1.listed] at hk
    cases hk
  | copy kind ids =>
    obtain ⟨-, ⟨m, b, hmsg, rfl⟩, -⟩ := hpre
    cases hs
    intro t' v' m' b' addr k hv' hm' hids hk ha
    rcases view_of_update hv' with ⟨rfl, rfl⟩ | ⟨-, hv'⟩
    · have hm' : v.message = some (m', b') := hm'
      rw [hmsg] at hm'
      cases hm'
      obtain ⟨hmem, htarget⟩ := Registry.mem_select hk
      obtain ⟨ids, hids⟩ := Option.ne_none_iff_exists'.mp hids
      exact hsole kind ids (by rw [hids]) addr k (htarget ids hids) hmem
    · exact h t' v' m' b' addr k hv' hm' hids hk ha
  | lockWeak j =>
    cases r with
    | true => exact hkeep fun _ _ _ _ hm hk => ⟨hm, hk⟩
    | false => exact hkeep fun _ _ _ _ hm hk => ⟨hm, List.mem_of_mem_tail hk⟩
  | send j m => exact hkeep fun _ _ _ _ hm hk => ⟨hm, List.mem_of_mem_tail hk⟩
  | dropPush m => exact hkeep fun _ _ _ _ hm _ => by cases hm
  | releaseSession j => exact hkeep fun _ _ _ _ hm hk => ⟨hm, hk⟩
  | beginCount => exact hkeep fun _ _ _ _ hm hk => ⟨hm, hk⟩
  | endCount => exact hkeep fun _ _ _ _ hm hk => ⟨hm, hk⟩
  | testQueue => exact hkeep fun _ _ _ _ hm hk => ⟨hm, hk⟩
  | countPush => exact hkeep fun _ _ _ _ hm hk => ⟨hm, hk⟩
  | sessionIds => exact hkeep fun _ _ _ _ hm hk => ⟨hm, hk⟩
  | beginAccept => exact hkeep fun _ _ _ _ hm hk => ⟨hm, hk⟩
  | newDetect => exact hkeep fun _ _ _ _ hm hk => ⟨hm, hk⟩
  | newSession => exact hkeep fun _ _ _ _ hm hk => ⟨hm, hk⟩
  | endAccept => exact hkeep fun _ _ _ _ hm hk => ⟨hm, hk⟩

end

/-- The invariants of a run whose broadcasts name one session for each id. -/
structure Naming (s : Manager) (views : Nat → Option ManagerView) : Prop where
  counted : Counted s views
  aimed : Aimed s views
  named : Named s views

theorem naming {cfg : ListenerConfig} {p : ManagerPool} (hp : (managerMachine cfg).Reach Unambiguous .new p) :
    ∃ views, Naming p.shared views ∧ Machine.Linked (managerDiscipline cfg) (fun _ _ _ _ => True) p views := by
  refine Machine.sound (fun _ _ => {}) ⟨Counted.start, Aimed.start, fun _ _ _ _ _ _ hv => (by cases hv)⟩
    (fun _ c => managerCall_ok cfg c) (fun p views t c _ _ h _ _ => ?_)
    (fun p views t i o v r s' hr _ h hg hth hv hpre hs => ?_) (fun p views e s' hr _ h _ hs => ?_) hp
  · refine ⟨h.counted.call, h.aimed.call, h.named.mono h.aimed (.refl _) fun t' v m b addr k hv hm hk => ?_⟩
    rcases view_of_update hv with ⟨-, rfl⟩ | ⟨-, hv⟩
    · cases hm
    · exact ⟨v, hv, hm, hk⟩
  · obtain ⟨c, k, hth⟩ := hth
    refine ⟨h.counted.exec hv hpre hs, h.aimed.exec h.counted (tidy hr) hv hpre hs, h.named.exec h.aimed hv hpre ?_ hs⟩
    rintro kind ids rfl
    exact hg kind ids (Machine.next_of_thread hth)
  · exact ⟨h.counted.env hs, h.aimed.env (tidy hr) hs, h.named.mono h.aimed (Manager.step_grows hs)
      fun t v m b addr k hv hm hk => ⟨v, hv, hm, hk⟩⟩

/-- **An id names one session.** As long as the ids that a broadcast finds on the lists have been the ids of no other
session, every post of a broadcast to ids goes to a session with one of these ids, and no other session has ever had
it. -/
theorem broadcast_names (cfg : ListenerConfig) (p : ManagerPool) (hp : (managerMachine cfg).Reach Unambiguous .new p)
    (t k m : Nat) (hn : p.next t = some (.send k m)) :
    ∃ b, p.shared.messages[m]? = some b ∧ ∀ ids, b.ids = some ids →
      (p.shared.sessions k).id ∈ ids ∧
      ∀ j < p.shared.sessionCount, (p.shared.sessions j).id = (p.shared.sessions k).id → j = k := by
  obtain ⟨views, h, hl⟩ := naming hp
  obtain ⟨c, q, hth⟩ := Machine.next_eq_some hn
  obtain ⟨v, hv, ⟨⟨b, hmsg⟩, htar, addr, rest, hlist⟩, -⟩ := hl.ok hth
  have hmem : (addr, k) ∈ v.listed := hlist ▸ List.mem_cons_self
  have ha := h.aimed.aiming t v m b hv hmsg
  obtain ⟨kind, -, he⟩ := ha.entry addr k hmem
  refine ⟨b, ha.message, fun ids hids => ⟨?_, ?_⟩⟩
  · rw [he.id]
    exact he.targeted ids hids
  · rw [he.id]
    exact h.named t v m b addr k hv hmsg (by simp [hids]) hmem (h.aimed.holding t v k false hv htar).2

def unambiguous (p : ManagerPool) : Act ManagerCall ManagerInput ManagerEnv → Bool
  | .op t _ =>
    match p.next t with
    | some (.copy kind (some ids)) => (p.shared.registry kind).all fun e =>
        decide (e.1 ∈ ids → ∀ j < p.shared.sessionCount, (p.shared.sessions j).id = e.1 → j = e.2)
    | _ => true
  | _ => true

theorem unambiguous_sound (p : ManagerPool) (a : Act ManagerCall ManagerInput ManagerEnv) (h : unambiguous p a = true) :
    Unambiguous p a := by
  cases a with
  | call t c => trivial
  | env e => trivial
  | op t i =>
    intro kind ids hn addr k hids hk
    simp only [unambiguous, hn] at h
    have hk := List.all_eq_true.mp h (addr, k) hk
    exact of_decide_eq_true hk hids

/-- The call `t` starts a broadcast to ids and comes to its first post. -/
def sendRun (t : Nat) (ids : List UInt64) : List (Act ManagerCall ManagerInput ManagerEnv) :=
  .call t (.broadcast ⟨7, [], some ids⟩) :: List.replicate 7 (.op t {})

/-- A broadcast to the only session that has had the address 100. -/
theorem broadcast_names_session : ∃ p : ManagerPool, (managerMachine mixedConfig).Reach Unambiguous .new p ∧
    p.next 1 = some (.send 0 0) ∧ ∃ b, p.shared.messages[0]? = some b ∧ ∀ ids, b.ids = some ids →
      (p.shared.sessions 0).id ∈ ids ∧
      ∀ j < p.shared.sessionCount, (p.shared.sessions j).id = (p.shared.sessions 0).id → j = 0 := by
  have hrun : ((managerMachine mixedConfig).run unambiguous (.initial .new)
      (detectRun 0 ++ [.env (.onDetect (some .plain) 100), .env (.onAccept 0)] ++ sendRun 1 [300, 100, 100])).any
      (fun p => decide (p.next 1 = some (.send 0 0))) = true := by
    decide +kernel
  obtain ⟨p, hp, hf⟩ := Machine.Reach.exists_of_run unambiguous_sound _ hrun
  have hn := of_decide_eq_true hf
  exact ⟨p, hp, hn, broadcast_names mixedConfig p hp 1 0 0 hn⟩

/-- The id of a session that is gone names another one, which has its address now. -/
theorem broadcast_misdirected : ∃ p : ManagerPool, (managerMachine mixedConfig).Reach Machine.Free .new p ∧
    p.next 3 = some (.send 2 0) ∧ p.shared.messages[0]? = some ⟨7, [], some [100]⟩ ∧
    (p.shared.sessions 0).id = 100 ∧ (p.shared.sessions 0).phase = .freed ∧ (p.shared.sessions 2).id = 100 := by
  have hrun : ((managerMachine mixedConfig).run (fun _ _ => true) (.initial .new) (reuseRun ++ sendRun 3 [100])).any
      (fun p => decide (p.next 3 = some (.send 2 0)) &&
        decide (p.shared.messages[0]? = some ⟨7, [], some [100]⟩) && decide ((p.shared.sessions 0).id = 100) &&
        decide ((p.shared.sessions 0).phase = .freed) && decide ((p.shared.sessions 2).id = 100)) = true := by
    decide +kernel
  obtain ⟨p, hp, hf⟩ := Machine.Reach.exists_of_run (fun _ _ _ => trivial) _ hrun
  simp only [Bool.and_eq_true, decide_eq_true_eq] at hf
  obtain ⟨⟨⟨⟨hn, hm⟩, h0⟩, hfreed⟩, h2⟩ := hf
  exact ⟨p, hp, hn, hm, h0, hfreed, h2⟩

end Radrpc
