import Radrpc.Server.Objects

/-!
# The lists of the established sessions

A session puts itself on the list of its stream when its websocket is established, and its destructor takes it off
again, by its id. The id is an address, and another session can have it later.

* `Object.Listed` : an established session whose destructor has not run;
* `Tidy` : the lists hold these sessions and nothing else, and objects that exist at the same time have different ids;
* `Objects.step_tidy` : every step in the life of an object keeps them so;
* `registry_invariant` : what this says about `get_session_ids()`, the destructor and `on_disconnect`.
-/

namespace Radrpc
open Conc

namespace Registry

variable {r : Registry} {id id' : UInt64} {k k' : Nat}

theorem mem_remove : (id', k') ∈ r.remove id ↔ (id', k') ∈ r ∧ id' ≠ id := by
  simp [remove]

theorem mem_set : (id', k') ∈ r.set id k ↔ (id' = id ∧ k' = k) ∨ ((id', k') ∈ r ∧ id' ≠ id) := by
  simp [set]

theorem keys_remove (h : (r.map Prod.fst).Nodup) (id : UInt64) : ((r.remove id).map Prod.fst).Nodup :=
  h.sublist (List.filter_sublist.map Prod.fst)

theorem keys_set (h : (r.map Prod.fst).Nodup) (id : UInt64) (k : Nat) : ((r.set id k).map Prod.fst).Nodup := by
  refine List.nodup_cons.mpr ⟨fun hmem => ?_, keys_remove h id⟩
  obtain ⟨⟨id', k'⟩, hm, rfl⟩ := List.mem_map.mp hmem
  exact (mem_remove.mp hm).2 rfl

/-! ## Copies -/

theorem mem_emplace (h : (id', k') ∈ r.emplace id k) : (id', k') ∈ r ∨ (id' = id ∧ k' = k) := by
  unfold emplace at h
  split at h
  · exact .inl h
  · simpa using h

theorem keys_emplace (h : (r.map Prod.fst).Nodup) (id : UInt64) (k : Nat) : ((r.emplace id k).map Prod.fst).Nodup := by
  unfold emplace
  split
  · exact h
  · rename_i hnot
    rw [List.map_append]
    refine List.nodup_append.mpr ⟨h, List.nodup_singleton _, fun a ha b hb heq => hnot ?_⟩
    have hid : a = id := heq.trans (List.mem_singleton.mp hb)
    exact hid ▸ ha

theorem select_loop (r : Registry) (ids : List UInt64) (tmp : Registry) (hkeys : (tmp.map Prod.fst).Nodup) :
    let out := ids.foldl (fun tmp id => match r.lookup id with
      | some k => emplace tmp id k
      | none => tmp) tmp
    (out.map Prod.fst).Nodup ∧ ∀ id k, (id, k) ∈ out → (id, k) ∈ tmp ∨ (id ∈ ids ∧ (id, k) ∈ r) := by
  induction ids generalizing tmp with
  | nil => exact ⟨hkeys, fun id k h => .inl h⟩
  | cons a ids ih =>
    simp only [List.foldl_cons]
    cases hl : r.lookup a with
    | none =>
      obtain ⟨hk, hm⟩ := ih tmp hkeys
      refine ⟨hk, fun id k h => (hm id k h).imp_right fun h => ⟨List.mem_cons_of_mem _ h.1, h.2⟩⟩
    | some j =>
      obtain ⟨hk, hm⟩ := ih (emplace tmp a j) (keys_emplace hkeys a j)
      refine ⟨hk, fun id k h => ?_⟩
      rcases hm id k h with h | h
      · rcases mem_emplace h with h | ⟨rfl, rfl⟩
        · exact .inl h
        · obtain ⟨l₁, l₂, rfl, -⟩ := List.lookup_eq_some_iff.mp hl
          exact .inr ⟨List.mem_cons_self, List.mem_append_right _ List.mem_cons_self⟩
      · exact .inr ⟨List.mem_cons_of_mem _ h.1, h.2⟩

theorem mem_select {ids : Option (List UInt64)} (h : (id, k) ∈ r.select ids) :
    (id, k) ∈ r ∧ ∀ l, ids = some l → id ∈ l := by
  cases ids with
  | none => exact ⟨h, fun _ hl => by cases hl⟩
  | some l =>
    rcases (select_loop r l [] List.nodup_nil).2 id k h with h | h
    · cases h
    · exact ⟨h.2, fun l' hl' => Option.some.inj hl' ▸ h.1⟩

theorem keys_select (h : (r.map Prod.fst).Nodup) (ids : Option (List UInt64)) :
    ((r.select ids).map Prod.fst).Nodup := by
  cases ids with
  | none => exact h
  | some l => exact (select_loop r l [] List.nodup_nil).1

end Registry

/-- An established session whose destructor has not run. -/
def Object.Listed (x : Object) : Prop := x.established = true ∧ (x.phase = .alive ∨ x.phase = .dying)

/-- The lists are in order. -/
structure Tidy (o : Objects) : Prop where
  unborn : ∀ k, o.count ≤ k → (o.object k).phase = .unborn
  distinct : ∀ k k', k < o.count → k' < o.count → (o.object k).phase.allocated = true →
    (o.object k').phase.allocated = true → (o.object k).id = (o.object k').id → k = k'
  mem : ∀ kind id k, (id, k) ∈ o.registry kind ↔
    k < o.count ∧ (o.object k).Listed ∧ (o.object k).kind = kind ∧ (o.object k).id = id
  keys : ∀ kind, ((o.registry kind).map Prod.fst).Nodup

theorem Tidy.lt_of_alive {o : Objects} {k : Nat} (h : Tidy o) (ha : (o.object k).phase = .alive) : k < o.count := by
  by_contra hk
  rw [h.unborn k (Nat.le_of_not_lt hk)] at ha
  cases ha

theorem Object.Listed.allocated {x : Object} (h : x.Listed) : x.phase.allocated = true := by
  rcases h.2 with hp | hp <;> rw [hp] <;> rfl

namespace Tidy

variable {o o' : Objects} {k : Nat}

theorem unique (h : Tidy o) {kind kind' : StreamKind} {id : UInt64} {k k' : Nat} (hk : (id, k) ∈ o.registry kind)
    (hk' : (id, k') ∈ o.registry kind') : k = k' := by
  obtain ⟨hlt, hlist, -, hid⟩ := (h.mem _ _ _).mp hk
  obtain ⟨hlt', hlist', -, hid'⟩ := (h.mem _ _ _).mp hk'
  exact h.distinct k k' hlt hlt' hlist.allocated hlist'.allocated (hid.trans hid'.symm)

theorem mem_ids (h : Tidy o) {id : UInt64} :
    id ∈ o.ids ↔ ∃ k < o.count, (o.object k).Listed ∧ (o.object k).id = id := by
  have hkey : ∀ kind, id ∈ (o.registry kind).map Prod.fst ↔ ∃ k, (id, k) ∈ o.registry kind := by
    intro kind
    rw [List.mem_map]
    constructor
    · rintro ⟨⟨_, k⟩, hk, he⟩
      exact ⟨k, he ▸ hk⟩
    · rintro ⟨k, hk⟩
      exact ⟨(id, k), hk, rfl⟩
  have hids : id ∈ o.ids ↔ ∃ kind k, (id, k) ∈ o.registry kind := by
    refine List.mem_append.trans ⟨?_, ?_⟩
    · rintro (hm | hm)
      · exact ⟨.plain, (hkey .plain).mp hm⟩
      · exact ⟨.ssl, (hkey .ssl).mp hm⟩
    · rintro ⟨kind, hm⟩
      cases kind with
      | plain => exact .inl ((hkey .plain).mpr hm)
      | ssl => exact .inr ((hkey .ssl).mpr hm)
  rw [hids]
  constructor
  · rintro ⟨kind, k, hk⟩
    obtain ⟨hlt, hlist, -, hid⟩ := (h.mem _ _ _).mp hk
    exact ⟨k, hlt, hlist, hid⟩
  · rintro ⟨k, hlt, hlist, hid⟩
    exact ⟨(o.object k).kind, k, (h.mem _ _ _).mpr ⟨hlt, hlist, rfl, hid⟩⟩

theorem ids_nodup (h : Tidy o) : o.ids.Nodup := by
  refine List.nodup_append.mpr ⟨h.keys .plain, h.keys .ssl, fun id hp id' hs heq => ?_⟩
  subst heq
  obtain ⟨⟨id, k⟩, hk, rfl⟩ := List.mem_map.mp hp
  obtain ⟨⟨id', k'⟩, hk', hid⟩ := List.mem_map.mp hs
  have hid : id' = id := hid
  subst hid
  have hplain : (id', k) ∈ o.registry .plain := hk
  have hssl : (id', k') ∈ o.registry .ssl := hk'
  have hkk := h.unique hplain hssl
  subst hkk
  obtain ⟨-, -, hkind, -⟩ := (h.mem .plain _ _).mp hplain
  obtain ⟨-, -, hkind', -⟩ := (h.mem .ssl _ _).mp hssl
  rw [hkind] at hkind'
  cases hkind'

/-! ## Steps -/

theorem born {kind : StreamKind} {addr : UInt64} (h : Tidy o) (hs : o.step (.born kind addr) = some o') : Tidy o' := by
  have hb := Objects.born_eq_some hs
  have hold : ∀ j < o.count, o'.object j = o.object j := fun j hj => hb.old j (Nat.ne_of_lt hj)
  have hne : ∀ j < o.count, (o'.object j).phase.allocated = true → (o'.object j).id ≠ (o'.object o.count).id := by
    intro j hj ha
    rw [hold j hj] at ha ⊢
    rw [hb.new]
    exact Objects.fresh_ne hb.fresh hj ha
  refine ⟨fun j hj => ?_, fun j j' hj hj' ha ha' hid => ?_, fun kind' id j => ?_, fun kind' => ?_⟩
  · rw [hb.count] at hj
    rw [hb.old j (by omega)]
    exact h.unborn j (by omega)
  · rw [hb.count] at hj hj'
    rcases Nat.lt_succ_iff_lt_or_eq.mp hj with hlt | rfl
    · rcases Nat.lt_succ_iff_lt_or_eq.mp hj' with hlt' | rfl
      · rw [hold j hlt] at ha hid
        rw [hold j' hlt'] at ha' hid
        exact h.distinct j j' hlt hlt' ha ha' hid
      · exact absurd hid (hne j hlt ha)
    · rcases Nat.lt_succ_iff_lt_or_eq.mp hj' with hlt' | rfl
      · exact absurd hid.symm (hne j' hlt' ha')
      · rfl
  · rw [hb.registry, h.mem kind' id j, hb.count]
    by_cases hj : j = o.count
    · subst hj
      rw [hb.new]
      constructor
      · rintro ⟨hlt, -⟩
        exact absurd hlt (Nat.lt_irrefl _)
      · rintro ⟨-, ⟨he, -⟩, -⟩
        cases he
    · rw [hb.old j hj]
      refine and_congr_left fun _ => ?_
      omega
  · rw [hb.registry]
    exact h.keys kind'

theorem advance {before after : ObjPhase} (h : Tidy o) (hadv : o.advance k before after = some o')
    (ha : before.allocated = true)
    (hl : (after = .alive ∨ after = .dying) ↔ (before = .alive ∨ before = .dying)) : Tidy o' := by
  obtain ⟨hk, hb, rfl⟩ := Objects.advance_eq_some hadv
  have halloc : ∀ j, ((o.put k { o.object k with phase := after }).object j).phase.allocated = true →
      (o.object j).phase.allocated = true := by
    intro j hj
    by_cases hjk : j = k
    · rw [hjk, hb]
      exact ha
    · rwa [Objects.put_of_ne o _ hjk] at hj
  have hid : ∀ j, ((o.put k { o.object k with phase := after }).object j).id = (o.object j).id := by
    intro j
    by_cases hjk : j = k
    · rw [hjk, Objects.put_self]
    · rw [Objects.put_of_ne o _ hjk]
  refine ⟨fun j hj => ?_, fun j j' hj hj' hja hja' he => ?_, fun kind id j => ?_, fun kind => ?_⟩
  · rw [Objects.put_of_ne o _ (Nat.ne_of_gt (Nat.lt_of_lt_of_le hk hj))]
    exact h.unborn j hj
  · rw [hid, hid] at he
    exact h.distinct j j' hj hj' (halloc j hja) (halloc j' hja') he
  · rw [Objects.put_registry, Objects.put_count, h.mem kind id j, hid]
    refine and_congr_right fun _ => ?_
    by_cases hjk : j = k
    · subst hjk
      rw [Objects.put_self]
      refine and_congr_left fun _ => and_congr_right fun _ => ?_
      rw [hb]
      exact hl.symm
    · rw [Objects.put_of_ne o _ hjk]
  · rw [Objects.put_registry]
    exact h.keys kind

theorem establish (h : Tidy o) (hs : o.step (.establish k) = some o') : Tidy o' := by
  obtain ⟨hk, hp, he, rfl⟩ := Objects.establish_eq_some hs
  have ha : (o.object k).phase.allocated = true := by rw [hp]; rfl
  have hother : ∀ j, j ≠ k → (o.put k { o.object k with established := true }).object j = o.object j :=
    fun j hj => Objects.put_of_ne o _ hj
  have hphase : ∀ j, ((o.put k { o.object k with established := true }).object j).phase = (o.object j).phase := by
    intro j
    by_cases hjk : j = k
    · rw [hjk, Objects.put_self]
    · rw [hother j hjk]
  have hid : ∀ j, ((o.put k { o.object k with established := true }).object j).id = (o.object j).id := by
    intro j
    by_cases hjk : j = k
    · rw [hjk, Objects.put_self]
    · rw [hother j hjk]
  refine ⟨fun j hj => ?_, fun j j' hj hj' hja hja' heq => ?_, fun kind id j => ?_, fun kind => ?_⟩
  · rw [Objects.setRegistry_count] at hj
    rw [Objects.setRegistry_object, hphase]
    exact h.unborn j hj
  · rw [Objects.setRegistry_object, hphase] at hja hja'
    rw [Objects.setRegistry_object, hid, hid] at heq
    rw [Objects.setRegistry_count] at hj hj'
    exact h.distinct j j' hj hj' hja hja' heq
  · rw [Objects.setRegistry_registry, Objects.setRegistry_object, Objects.setRegistry_count, Objects.put_registry,
      Objects.put_count]
    by_cases hjk : j = k
    · subst hjk
      have hnot : ∀ kind' id', (id', j) ∉ o.registry kind' := fun kind' id' hm => by
        have hlist := ((h.mem kind' id' j).mp hm).2.1.1
        rw [he] at hlist
        cases hlist
      rw [Objects.put_self]
      split
      · rename_i hkind
        subst hkind
        rw [Registry.mem_set]
        constructor
        · rintro (⟨rfl, -⟩ | ⟨hm, -⟩)
          · exact ⟨hk, ⟨rfl, .inl hp⟩, rfl, rfl⟩
          · exact absurd hm (hnot _ _)
        · rintro ⟨-, -, -, hid'⟩
          exact .inl ⟨hid'.symm, rfl⟩
      · rename_i hkind
        exact iff_of_false (hnot _ _) fun hm => hkind hm.2.2.1.symm
    · rw [hother j hjk]
      have hmem := h.mem kind id j
      split
      · rename_i hkind
        subst hkind
        rw [Registry.mem_set, ← hmem]
        constructor
        · rintro (⟨-, rfl⟩ | ⟨hm, -⟩)
          · exact absurd rfl hjk
          · exact hm
        · intro hm
          refine .inr ⟨hm, fun heq => hjk ?_⟩
          obtain ⟨hj, hlist, -, hid'⟩ := hmem.mp hm
          exact h.distinct j k hj hk hlist.allocated ha (hid'.trans heq)
      · exact hmem
  · rw [Objects.setRegistry_registry, Objects.put_registry]
    split
    · exact Registry.keys_set (h.keys _) _ _
    · exact h.keys kind

theorem mem_remove (h : Tidy o) (hs : o.step (.remove k) = some o') (kind : StreamKind) (id : UInt64) (j : Nat) :
    (id, j) ∈ o'.registry kind ↔ (id, j) ∈ o.registry kind ∧ j ≠ k := by
  obtain ⟨o₁, hadv, rfl⟩ := Objects.remove_eq_some hs
  obtain ⟨hk, hp, rfl⟩ := Objects.advance_eq_some hadv
  have hmem := h.mem kind id j
  split
  · rename_i he
    rw [Objects.setRegistry_registry, Objects.put_registry]
    have hlist : (o.object k).Listed := ⟨he, .inr hp⟩
    split
    · rename_i hkind
      subst hkind
      rw [Registry.mem_remove]
      refine and_congr_right fun hm => not_congr ⟨fun heq => ?_, fun heq => ?_⟩
      · obtain ⟨hj, hlist', -, hid⟩ := hmem.mp hm
        exact h.distinct j k hj hk hlist'.allocated hlist.allocated (hid.trans heq)
      · subst heq
        exact (hmem.mp hm).2.2.2.symm
    · rename_i hkind
      refine (and_iff_left_of_imp fun hm heq => hkind ?_).symm
      subst heq
      exact (hmem.mp hm).2.2.1.symm
  · rename_i he
    rw [Objects.put_registry]
    refine (and_iff_left_of_imp fun hm heq => he ?_).symm
    subst heq
    exact (hmem.mp hm).2.1.1

theorem remove (h : Tidy o) (hs : o.step (.remove k) = some o') : Tidy o' := by
  have hmem := h.mem_remove hs
  obtain ⟨o₁, hadv, ho'⟩ := Objects.remove_eq_some hs
  obtain ⟨hk, hp, rfl⟩ := Objects.advance_eq_some hadv
  have hcount : o'.count = o.count := by
    rw [ho']
    split <;> simp
  have hobject : o'.object = (o.put k { o.object k with phase := .removed }).object := by
    rw [ho']
    split <;> simp
  have hother : ∀ j, j ≠ k → o'.object j = o.object j := fun j hj => by rw [hobject, Objects.put_of_ne o _ hj]
  have hself : o'.object k = { o.object k with phase := .removed } := by rw [hobject, Objects.put_self]
  have hid : ∀ j, (o'.object j).id = (o.object j).id := by
    intro j
    by_cases hjk : j = k
    · rw [hjk, hself]
    · rw [hother j hjk]
  have halloc : ∀ j, (o'.object j).phase.allocated = true → (o.object j).phase.allocated = true := by
    intro j hj
    by_cases hjk : j = k
    · rw [hjk, hp]
      rfl
    · rwa [hother j hjk] at hj
  refine ⟨fun j hj => ?_, fun j j' hj hj' hja hja' heq => ?_, fun kind id j => ?_, fun kind => ?_⟩
  · rw [hcount] at hj
    rw [hother j (Nat.ne_of_gt (Nat.lt_of_lt_of_le hk hj))]
    exact h.unborn j hj
  · rw [hcount] at hj hj'
    rw [hid, hid] at heq
    exact h.distinct j j' hj hj' (halloc j hja) (halloc j' hja') heq
  · rw [hmem, h.mem kind id j, hcount]
    by_cases hjk : j = k
    · subst hjk
      refine iff_of_false (fun hm => hm.2 rfl) fun hm => ?_
      have hlist := hm.2.1.2
      rw [hself] at hlist
      rcases hlist with hl | hl <;> cases hl
    · rw [hother j hjk, and_iff_left hjk]
  · rw [ho']
    split
    · rw [Objects.setRegistry_registry, Objects.put_registry]
      split
      · exact Registry.keys_remove (h.keys _) _
      · exact h.keys kind
    · rw [Objects.put_registry]
      exact h.keys kind

end Tidy

theorem Objects.step_tidy {o o' : Objects} {e : ObjectEvent} (h : Tidy o) (hs : o.step e = some o') : Tidy o' := by
  cases e with
  | born kind addr => exact h.born hs
  | establish k => exact h.establish hs
  | expire k => exact h.advance hs rfl (by decide)
  | remove k => exact h.remove hs
  | disconnect k => exact h.advance hs rfl (by decide)
  | release k => exact h.advance hs rfl (by decide)
  | free k => exact h.advance hs rfl (by decide)

/-! ## Runs -/

theorem ManagerOp.exec_tidy {t : Nat} {o : ManagerOp} {i : ManagerInput} {s s' : Manager} {r : o.Res}
    (h : Tidy s.objects) (hs : ManagerOp.exec t o i s = some (r, s')) : Tidy s'.objects := by
  rcases ManagerOp.exec_objects hs with hsame | ⟨-, hb⟩
  · rw [hsame]
    exact h
  · exact Objects.step_tidy h hb

theorem Manager.step_tidy {cfg : ListenerConfig} {s s' : Manager} {e : ManagerEnv} (h : Tidy s.objects)
    (hs : s.step cfg e = some s') : Tidy s'.objects := by
  rcases Manager.step_objects hs with hsame | ⟨ev, -, hev⟩
  · rw [hsame]
    exact h
  · exact Objects.step_tidy h hev

theorem Tidy.start : Tidy Manager.new.objects :=
  ⟨fun _ _ => rfl, fun _ _ hk => absurd hk (Nat.not_lt_zero _),
    fun kind id k => by cases kind <;> simp [Manager.objects, Manager.new, Objects.registry],
    fun kind => by cases kind <;> exact List.nodup_nil⟩

theorem tidy {cfg : ListenerConfig} {G : ManagerPool → Act ManagerCall ManagerInput ManagerEnv → Prop} {p : ManagerPool}
    (hp : (managerMachine cfg).Reach G .new p) : Tidy p.shared.objects :=
  Machine.invariant (I := fun s => Tidy s.objects) Tidy.start (fun _ _ _ _ _ _ h hs => ManagerOp.exec_tidy h hs)
    (fun _ _ _ h hs => Manager.step_tidy h hs) hp

namespace Manager

/-- The session was established and its destructor has not run. -/
def Established (s : Manager) (k : Nat) : Prop :=
  k < s.sessionCount ∧ (s.sessions k).established = true ∧ ((s.sessions k).phase = .alive ∨ (s.sessions k).phase = .dying)

end Manager

/-- **The lists of the manager.** In every reachable state the ids on the two lists are those of the sessions that were
established and not destroyed, each of them once; the destructor of a session removes its own entry and no other one; and
when `on_disconnect` is called, the id of the session is not on the lists. -/
theorem registry_invariant (cfg : ListenerConfig) (p : ManagerPool)
    (hp : (managerMachine cfg).Reach Machine.Free .new p) :
    p.shared.sessionIds.Nodup ∧
      (∀ id, id ∈ p.shared.sessionIds ↔ ∃ k, p.shared.Established k ∧ (p.shared.sessions k).id = id) ∧
      (∀ k p', (managerMachine cfg).step p (.env (.removeSession k)) = some p' → ∀ kind id j,
        (id, j) ∈ p'.shared.registry kind ↔ (id, j) ∈ p.shared.registry kind ∧ j ≠ k) ∧
      ∀ k p', (managerMachine cfg).step p (.env (.onDisconnect k)) = some p' →
        (p.shared.sessions k).id ∉ p.shared.sessionIds := by
  have h := tidy hp
  refine ⟨h.ids_nodup, fun id => h.mem_ids.trans ?_, fun k p' hstep kind id j => ?_, fun k p' hstep hmem => ?_⟩
  · constructor
    · rintro ⟨k, hk, hl, hid⟩
      exact ⟨k, ⟨hk, hl⟩, hid⟩
    · rintro ⟨k, ⟨hk, hl⟩, hid⟩
      exact ⟨k, hk, hl, hid⟩
  · obtain ⟨s, hs, rfl⟩ := Machine.step_env hstep
    have hs : p.shared.step cfg (.removeSession k) = some s := hs
    rw [← Manager.objects_registry, ← Manager.objects_registry]
    exact h.mem_remove (Manager.removeSession_objects hs) kind id j
  · obtain ⟨s, hs, rfl⟩ := Machine.step_env hstep
    -- another listed session with this id would be at the same address
    obtain ⟨j, hj, hl, hid⟩ := h.mem_ids.mp hmem
    obtain ⟨hk, hp, -⟩ := Objects.advance_eq_some (Manager.objects_advance hs).1
    have ha : (p.shared.objects.object k).phase.allocated = true := by rw [hp]; rfl
    have hjk := h.distinct j k hj hk hl.allocated ha hid
    subst hjk
    rcases hl.2 with hl | hl <;> rw [hp] at hl <;> cases hl

def mixedConfig : ListenerConfig := { maxSessions := 8, sslCtx := true, plainMode := true, sslMode := true }

def detectRun (t : Nat) : List (Act ManagerCall ManagerInput ManagerEnv) :=
  .call t .onAccept :: List.replicate 5 (.op t {})

/-- A session at the address 100 comes and goes, a session with ssl at the address 200 is about to go, and another one
has the address 100 now. -/
def reuseRun : List (Act ManagerCall ManagerInput ManagerEnv) :=
  detectRun 0 ++ detectRun 1 ++ detectRun 2 ++
    [.env (.onDetect (some .plain) 100), .env (.onAccept 0), .env (.onDetect (some .ssl) 200), .env (.onAccept 1),
      .env (.expire 0), .env (.removeSession 0), .env (.onDisconnect 0), .env (.destroyMembers 0), .env (.free 0),
      .env (.onDetect (some .plain) 100), .env (.onAccept 2), .env (.expire 1)]

/-- The new session and the one that is about to go are on the lists, once each; the destructor of the latter leaves the
former alone. -/
theorem registry_invariant_reuse : ∃ p p' : ManagerPool, (managerMachine mixedConfig).Reach Machine.Free .new p ∧
    (managerMachine mixedConfig).step p (.env (.removeSession 1)) = some p' ∧ p.shared.sessionIds.Nodup ∧
    200 ∈ p.shared.sessionIds ∧ (100, 2) ∈ p'.shared.registry .plain := by
  have hrun : ((managerMachine mixedConfig).run (fun _ _ => true) (.initial .new) reuseRun).any (fun p =>
      ((managerMachine mixedConfig).step p (.env (.removeSession 1))).isSome && decide (1 < p.shared.sessionCount) &&
        decide ((p.shared.sessions 1).established = true) && decide ((p.shared.sessions 1).phase = .dying) &&
        decide ((p.shared.sessions 1).id = 200) && decide ((100, 2) ∈ p.shared.plain)) = true := by
    decide +kernel
  obtain ⟨p, hp, hf⟩ := Machine.Reach.exists_of_run (fun _ _ _ => trivial) reuseRun hrun
  simp only [Bool.and_eq_true, decide_eq_true_eq] at hf
  obtain ⟨⟨⟨⟨⟨hstep, hk⟩, he⟩, hd⟩, hid⟩, hm⟩ := hf
  obtain ⟨p', hp'⟩ := Option.isSome_iff_exists.mp hstep
  obtain ⟨hnodup, hids, hremove, -⟩ := registry_invariant mixedConfig p hp
  exact ⟨p, p', hp, hp', hnodup, (hids 200).mpr ⟨1, ⟨hk, he, .inr hd⟩, hid⟩,
    (hremove 1 p' hp' .plain 100 2).mpr ⟨hm, by decide⟩⟩

end Radrpc
