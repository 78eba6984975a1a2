import Radrpc.Lib.Slots
import Radrpc.Server.Manager

/-!
# The objects of a manager

What is left of a manager without its messages, its pointers and the calls on it: the session objects and the two lists.

* `Object`, `Objects`, `ObjectEvent`, `Objects.step` : objects are born, established, and destroyed step by step;
* `ManagerOp.exec_objects`, `Manager.step_objects` : every step of the manager is one step of the objects, or none;
* `Objects.liveCount_step` : only a birth adds to the number of sessions.
-/

namespace Radrpc
open Conc

/-- What a session object keeps while nobody but its own life changes it. -/
structure Object where
  kind : StreamKind := .plain
  id : UInt64 := 0
  phase : ObjPhase := .unborn
  established : Bool := false
  deriving DecidableEq, Repr

/-- All session objects, numbered in the order of their construction, and the lists of the established ones. -/
structure Objects where
  count : Nat
  object : Nat → Object
  plain : Registry
  ssl : Registry

/-- A step in the life of an object. -/
inductive ObjectEvent where
  | born (kind : StreamKind) (addr : UInt64)
  | establish (k : Nat)
  | expire (k : Nat)
  | remove (k : Nat)
  | disconnect (k : Nat)
  | release (k : Nat)
  | free (k : Nat)
  deriving DecidableEq, Repr

namespace Objects

def registry (o : Objects) : StreamKind → Registry
  | .plain => o.plain
  | .ssl => o.ssl

def setRegistry (o : Objects) (kind : StreamKind) (r : Registry) : Objects :=
  match kind with
  | .plain => { o with plain := r }
  | .ssl => { o with ssl := r }

def put (o : Objects) (k : Nat) (x : Object) : Objects := { o with object := Function.update o.object k x }

def fresh (o : Objects) (addr : UInt64) : Bool :=
  (List.range o.count).all fun k => !(o.object k).phase.allocated || decide ((o.object k).id ≠ addr)

def advance (o : Objects) (k : Nat) (before after : ObjPhase) : Option Objects :=
  if k < o.count ∧ (o.object k).phase = before then some (o.put k { o.object k with phase := after }) else none

def step (o : Objects) : ObjectEvent → Option Objects
  | .born kind addr =>
    if o.fresh addr then some { o.put o.count { kind, id := addr, phase := .alive } with count := o.count + 1 } else none
  | .establish k =>
    let x := o.object k
    if k < o.count ∧ x.phase = .alive ∧ x.established = false then
      some ((o.put k { x with established := true }).setRegistry x.kind ((o.registry x.kind).set x.id k))
    else none
  | .expire k => o.advance k .alive .dying
  | .remove k =>
    let x := o.object k
    (o.advance k .dying .removed).map fun o =>
      if x.established then o.setRegistry x.kind ((o.registry x.kind).remove x.id) else o
  | .disconnect k => o.advance k .removed .disconnected
  | .release k => o.advance k .disconnected .released
  | .free k => o.advance k .released .freed

def liveCount (o : Objects) : Nat := (List.range o.count).countP fun k => (o.object k).phase.live

def ids (o : Objects) : List UInt64 := o.plain.map Prod.fst ++ o.ssl.map Prod.fst

@[simp] theorem setRegistry_count (o : Objects) (kind : StreamKind) (r : Registry) :
    (o.setRegistry kind r).count = o.count := by
  cases kind <;> rfl

@[simp] theorem setRegistry_object (o : Objects) (kind : StreamKind) (r : Registry) :
    (o.setRegistry kind r).object = o.object := by
  cases kind <;> rfl

@[simp] theorem setRegistry_registry (o : Objects) (kind kind' : StreamKind) (r : Registry) :
    (o.setRegistry kind r).registry kind' = if kind' = kind then r else o.registry kind' := by
  cases kind <;> cases kind' <;> rfl

@[simp] theorem put_count (o : Objects) (k : Nat) (x : Object) : (o.put k x).count = o.count := rfl

@[simp] theorem put_registry (o : Objects) (k : Nat) (x : Object) (kind : StreamKind) :
    (o.put k x).registry kind = o.registry kind := by
  cases kind <;> rfl

@[simp] theorem put_self (o : Objects) (k : Nat) (x : Object) : (o.put k x).object k = x := Function.update_self ..

theorem put_of_ne (o : Objects) {k k' : Nat} (x : Object) (h : k' ≠ k) : (o.put k x).object k' = o.object k' :=
  Function.update_of_ne h ..

theorem fresh_ne {o : Objects} {addr : UInt64} {k : Nat} (h : o.fresh addr = true) (hk : k < o.count)
    (ha : (o.object k).phase.allocated = true) : (o.object k).id ≠ addr := by
  have hall := List.all_eq_true.mp h k (List.mem_range.mpr hk)
  simpa [ha] using hall

theorem advance_eq_some {o o' : Objects} {k : Nat} {before after : ObjPhase} (h : o.advance k before after = some o') :
    k < o.count ∧ (o.object k).phase = before ∧ o' = o.put k { o.object k with phase := after } := by
  unfold advance at h
  split at h
  · rename_i hb
    exact ⟨hb.1, hb.2, (Option.some.inj h).symm⟩
  · cases h

theorem remove_eq_some {o o' : Objects} {k : Nat} (h : o.step (.remove k) = some o') :
    ∃ o₁, o.advance k .dying .removed = some o₁ ∧
      o' = if (o.object k).established then
        o₁.setRegistry (o.object k).kind ((o.registry (o.object k).kind).remove (o.object k).id) else o₁ := by
  obtain ⟨o₁, hadv, rfl⟩ := Option.map_eq_some_iff.mp h
  refine ⟨o₁, hadv, ?_⟩
  obtain ⟨-, -, rfl⟩ := advance_eq_some hadv
  rw [put_registry]

theorem establish_eq_some {o o' : Objects} {k : Nat} (h : o.step (.establish k) = some o') :
    k < o.count ∧ (o.object k).phase = .alive ∧ (o.object k).established = false ∧
      o' = (o.put k { o.object k with established := true }).setRegistry (o.object k).kind
        ((o.registry (o.object k).kind).set (o.object k).id k) := by
  simp only [step] at h
  split at h
  · rename_i hk
    exact ⟨hk.1, hk.2.1, hk.2.2, (Option.some.inj h).symm⟩
  · cases h

/-- A new object takes the next number, and an address that is not in use. -/
structure Born (o o' : Objects) (kind : StreamKind) (addr : UInt64) : Prop where
  fresh : o.fresh addr = true
  count : o'.count = o.count + 1
  new : o'.object o.count = { kind, id := addr, phase := .alive }
  old : ∀ k, k ≠ o.count → o'.object k = o.object k
  registry : ∀ kind', o'.registry kind' = o.registry kind'

theorem born_eq_some {o o' : Objects} {kind : StreamKind} {addr : UInt64} (h : o.step (.born kind addr) = some o') :
    Born o o' kind addr := by
  simp only [step] at h
  split at h
  · rename_i hf
    obtain rfl := Option.some.inj h
    refine ⟨hf, rfl, put_self .., fun k hk => put_of_ne o _ hk, fun kind' => ?_⟩
    cases kind' <;> rfl
  · cases h

/-! ## What stays -/

/-- Ids and streams of the objects stay, established sessions stay established, no object comes back to life, and a new
one is not where another one is. -/
structure Grows (o o' : Objects) : Prop where
  count : o.count ≤ o'.count
  id : ∀ k < o.count, (o'.object k).id = (o.object k).id
  kind : ∀ k < o.count, (o'.object k).kind = (o.object k).kind
  established : ∀ k < o.count, (o.object k).established = true → (o'.object k).established = true
  alive : ∀ k < o.count, (o'.object k).phase = .alive → (o.object k).phase = .alive
  fresh : ∀ j, o.count ≤ j → j < o'.count → ∀ k < o.count, (o.object k).phase.allocated = true →
    (o'.object j).id ≠ (o.object k).id

theorem Grows.refl (o : Objects) : Grows o o :=
  ⟨le_rfl, fun _ _ => rfl, fun _ _ => rfl, fun _ _ h => h, fun _ _ h => h, fun _ h h' => absurd h' (Nat.not_lt_of_le h)⟩

theorem Grows.put {o : Objects} {k : Nat} {x : Object} (hid : x.id = (o.object k).id) (hkind : x.kind = (o.object k).kind)
    (he : (o.object k).established = true → x.established = true)
    (ha : x.phase = .alive → (o.object k).phase = .alive) : Grows o (o.put k x) := by
  have hsplit : ∀ P : Object → Object → Prop, P (o.object k) x → (∀ j, P (o.object j) (o.object j)) →
      ∀ j, P (o.object j) ((o.put k x).object j) := by
    intro P hk hj j
    by_cases hjk : j = k
    · rw [hjk, put_self]
      exact hk
    · rw [put_of_ne o x hjk]
      exact hj j
  exact ⟨le_rfl, fun j _ => hsplit (fun a b => b.id = a.id) hid (fun _ => rfl) j,
    fun j _ => hsplit (fun a b => b.kind = a.kind) hkind (fun _ => rfl) j,
    fun j _ => hsplit (fun a b => a.established = true → b.established = true) he (fun _ h => h) j,
    fun j _ => hsplit (fun a b => b.phase = .alive → a.phase = .alive) ha (fun _ h => h) j,
    fun _ h h' => absurd h' (Nat.not_lt_of_le h)⟩

theorem Grows.setRegistry {o o' : Objects} (h : Grows o o') (kind : StreamKind) (r : Registry) :
    Grows o (o'.setRegistry kind r) := by
  cases kind <;> exact ⟨h.count, h.id, h.kind, h.established, h.alive, h.fresh⟩

theorem advance_grows {o o' : Objects} {k : Nat} {before after : ObjPhase} (h : o.advance k before after = some o')
    (ha : after ≠ .alive) : Grows o o' := by
  obtain ⟨-, -, rfl⟩ := advance_eq_some h
  exact .put rfl rfl (fun h => h) fun h => absurd h ha

theorem step_grows {o o' : Objects} {e : ObjectEvent} (h : o.step e = some o') : Grows o o' := by
  cases e with
  | born kind addr =>
    have hb := born_eq_some h
    have hold : ∀ k < o.count, o'.object k = o.object k := fun k hk => hb.old k (Nat.ne_of_lt hk)
    refine ⟨hb.count ▸ Nat.le_succ _, fun k hk => by rw [hold k hk], fun k hk => by rw [hold k hk],
      fun k hk he => by rwa [hold k hk], fun k hk ha => by rwa [hold k hk] at ha, fun j hj hj' k hk ha heq => ?_⟩
    rw [hb.count] at hj'
    obtain rfl : j = o.count := by omega
    rw [hb.new] at heq
    exact fresh_ne hb.fresh hk ha heq.symm
  | establish k =>
    obtain ⟨-, -, -, rfl⟩ := establish_eq_some h
    exact (Grows.put (x := { o.object k with established := true }) rfl rfl (fun _ => rfl) fun h => h).setRegistry _ _
  | expire k => exact advance_grows h (by decide)
  | remove k =>
    obtain ⟨o₁, hadv, rfl⟩ := remove_eq_some h
    split
    · exact (advance_grows hadv (by decide)).setRegistry _ _
    · exact advance_grows hadv (by decide)
  | disconnect k => exact advance_grows h (by decide)
  | release k => exact advance_grows h (by decide)
  | free k => exact advance_grows h (by decide)

/-! ## The number of sessions -/

theorem liveCount_put {o : Objects} {k : Nat} {x : Object} (h : x.phase.live = (o.object k).phase.live) :
    (o.put k x).liveCount = o.liveCount := by
  apply Slots.countP_range_congr
  intro k' _
  by_cases hk : k' = k
  · rw [hk, put_self, h]
  · rw [put_of_ne o x hk]

@[simp] theorem liveCount_setRegistry (o : Objects) (kind : StreamKind) (r : Registry) :
    (o.setRegistry kind r).liveCount = o.liveCount := by
  cases kind <;> rfl

theorem liveCount_advance {o o' : Objects} {k : Nat} {before after : ObjPhase} (h : o.advance k before after = some o')
    (hl : after.live = before.live) : o'.liveCount = o.liveCount := by
  obtain ⟨-, hb, rfl⟩ := advance_eq_some h
  exact liveCount_put (by rw [hb, hl])

theorem liveCount_born {o o' : Objects} {kind : StreamKind} {addr : UInt64} (h : o.step (.born kind addr) = some o') :
    o'.liveCount = o.liveCount + 1 := by
  have hb := born_eq_some h
  unfold liveCount
  rw [hb.count, Slots.countP_range_succ, hb.new]
  refine congrArg (· + 1) (Slots.countP_range_congr fun k hk => ?_)
  rw [hb.old k (Nat.ne_of_lt hk)]

theorem liveCount_release {o o' : Objects} {k : Nat} (h : o.step (.release k) = some o') :
    o.liveCount = o'.liveCount + 1 := by
  obtain ⟨hk, hb, rfl⟩ := advance_eq_some h
  refine Slots.countP_range_change hk (fun k' _ hne => ?_) (by rw [hb]; rfl) (by rw [put_self]; rfl)
  rw [put_of_ne o _ hne]

theorem liveCount_step {o o' : Objects} {e : ObjectEvent} (h : o.step e = some o') (hb : ∀ kind addr, e ≠ .born kind addr) :
    o'.liveCount ≤ o.liveCount := by
  cases e with
  | born kind addr => exact absurd rfl (hb kind addr)
  | establish k =>
    obtain ⟨-, -, -, rfl⟩ := establish_eq_some h
    rw [liveCount_setRegistry]
    exact (liveCount_put (x := { o.object k with established := true }) rfl).le
  | expire k => exact (liveCount_advance h rfl).le
  | remove k =>
    obtain ⟨o₁, hadv, rfl⟩ := remove_eq_some h
    split
    · rw [liveCount_setRegistry]
      exact (liveCount_advance hadv rfl).le
    · exact (liveCount_advance hadv rfl).le
  | disconnect k => exact (liveCount_advance h rfl).le
  | release k => exact (liveCount_release h).symm ▸ Nat.le_succ _
  | free k => exact (liveCount_advance h rfl).le

end Objects

/-! ## The manager's steps are steps of the objects -/

def ManagedSession.object (x : ManagedSession) : Object :=
  { kind := x.kind, id := x.id, phase := x.phase, established := x.established }

namespace Manager

def objects (s : Manager) : Objects :=
  { count := s.sessionCount, object := fun k => (s.sessions k).object, plain := s.plain, ssl := s.ssl }

theorem objects_modify (s : Manager) (k : Nat) (f : ManagedSession → ManagedSession) :
    (s.modify k f).objects = s.objects.put k (f (s.sessions k)).object := by
  have h : (fun j => (Function.update s.sessions k (f (s.sessions k)) j).object) =
      Function.update (fun j => (s.sessions j).object) k (f (s.sessions k)).object := by
    funext j
    by_cases hj : j = k
    · rw [hj, Function.update_self, Function.update_self]
    · rw [Function.update_of_ne hj, Function.update_of_ne hj]
  simp only [objects, modify, Objects.put, h]

theorem objects_modify_same (s : Manager) (k : Nat) (f : ManagedSession → ManagedSession)
    (h : (f (s.sessions k)).object = (s.sessions k).object) : (s.modify k f).objects = s.objects := by
  rw [objects_modify, h]
  exact congrArg (fun x => { s.objects with object := x }) (Function.update_eq_self k s.objects.object)

theorem objects_release (s : Manager) (m : Nat) : (s.release m).objects = s.objects := by
  unfold release
  split <;> rfl

theorem objects_setRegistry (s : Manager) (kind : StreamKind) (r : Registry) :
    (s.setRegistry kind r).objects = s.objects.setRegistry kind r := by
  cases kind <;> rfl

theorem objects_registry (s : Manager) (kind : StreamKind) : s.objects.registry kind = s.registry kind := by
  cases kind <;> rfl

theorem objects_advance {s s' : Manager} {k : Nat} {before after : ObjPhase} (h : s.advance k before after = some s') :
    s.objects.advance k before after = some s'.objects ∧ s' = s.modify k fun x => { x with phase := after } := by
  unfold advance at h
  split at h
  · rename_i hk
    obtain rfl := Option.some.inj h
    refine ⟨?_, rfl⟩
    rw [objects_modify]
    exact if_pos hk
  · cases h

theorem objects_construct {s s' : Manager} {kind : StreamKind} {addr : UInt64} (h : s.construct kind addr = some s') :
    s.objects.step (.born kind addr) = some s'.objects := by
  unfold construct at h
  split at h
  · rename_i hf
    obtain rfl := Option.some.inj h
    refine (if_pos hf).trans (congrArg some ?_)
    have hput := objects_modify s s.sessionCount fun _ => { kind, id := addr, phase := .alive }
    exact congrArg (fun o : Objects => { o with count := s.sessionCount + 1 }) hput.symm
  · cases h

end Manager

theorem ManagerOp.exec_objects {t : Nat} {o : ManagerOp} {i : ManagerInput} {s s' : Manager} {r : o.Res}
    (h : ManagerOp.exec t o i s = some (r, s')) :
    s'.objects = s.objects ∨ o = .newSession ∧ s.objects.step (.born .plain i.addr) = some s'.objects := by
  cases o with
  | lockWeak k =>
    simp only [exec] at h
    split at h
    · cases h
      exact .inl (s.objects_modify_same k _ rfl)
    · cases h
      exact .inl rfl
  | send k m =>
    cases h
    exact .inl (s.objects_modify_same k (fun x => { x with posted := x.posted ++ [m] }) rfl)
  | releaseSession k =>
    cases h
    exact .inl (s.objects_modify_same k _ rfl)
  | dropPush m =>
    cases h
    exact .inl (Manager.objects_release _ m)
  | beginAccept =>
    simp only [exec] at h
    split at h
    · cases h
    · cases h
      exact .inl rfl
  | newSession =>
    obtain ⟨s₁, hc, he⟩ := Option.map_eq_some_iff.mp h
    cases he
    exact .inr ⟨rfl, Manager.objects_construct hc⟩
  | beginCount => cases h; exact .inl rfl
  | endCount => cases h; exact .inl rfl
  | testQueue => cases h; exact .inl rfl
  | makePush msg => cases h; exact .inl rfl
  | countPush => cases h; exact .inl rfl
  | copy kind ids => cases h; exact .inl rfl
  | sessionIds => cases h; exact .inl rfl
  | newDetect => cases h; exact .inl rfl
  | endAccept => cases h; exact .inl rfl

theorem ManagerOp.exec_grows {t : Nat} {o : ManagerOp} {i : ManagerInput} {s s' : Manager} {r : o.Res}
    (h : ManagerOp.exec t o i s = some (r, s')) : Objects.Grows s.objects s'.objects := by
  rcases ManagerOp.exec_objects h with hsame | ⟨-, hb⟩
  · rw [hsame]
    exact .refl _
  · exact Objects.step_grows hb

/-- The stream of the session that a detection ends in. -/
def ListenerConfig.serves (cfg : ListenerConfig) : Option StreamKind → Option StreamKind
  | some .ssl => if cfg.sslMode then some .ssl else none
  | some .plain => if cfg.plainMode then some .plain else none
  | none => none

/-- The event of the objects that a step besides the calls can be. -/
def ManagerEnv.event : ManagerEnv → Option ObjectEvent
  | .onDetect result addr => result.map fun kind => .born kind addr
  | .onAccept k => some (.establish k)
  | .handleSend _ _ => none
  | .dequeue _ _ => none
  | .expire k => some (.expire k)
  | .removeSession k => some (.remove k)
  | .onDisconnect k => some (.disconnect k)
  | .destroyMembers k => some (.release k)
  | .free k => some (.free k)

namespace Manager

theorem onDetect_eq_some {cfg : ListenerConfig} {s s' : Manager} {result : Option StreamKind} {addr : UInt64}
    (h : s.onDetect cfg result addr = some s') :
    s.detecting ≠ 0 ∧ ((cfg.serves result = none ∧ s' = { s with detecting := s.detecting - 1 }) ∨
      ∃ kind, result = some kind ∧ cfg.serves result = some kind ∧
        { s with detecting := s.detecting - 1 }.construct kind addr = some s') := by
  unfold onDetect at h
  split at h
  · cases h
  · rename_i hd
    refine ⟨hd, ?_⟩
    split at h
    · split at h
      · rename_i hm
        exact .inr ⟨.ssl, rfl, if_pos hm, h⟩
      · rename_i hm
        exact .inl ⟨if_neg hm, (Option.some.inj h).symm⟩
    · split at h
      · rename_i hm
        exact .inr ⟨.plain, rfl, if_pos hm, h⟩
      · rename_i hm
        exact .inl ⟨if_neg hm, (Option.some.inj h).symm⟩
    · exact .inl ⟨rfl, (Option.some.inj h).symm⟩

theorem removeSession_objects {cfg : ListenerConfig} {s s' : Manager} {k : Nat}
    (h : s.step cfg (.removeSession k) = some s') : s.objects.step (.remove k) = some s'.objects := by
  obtain ⟨s₁, hadv, rfl⟩ := Option.map_eq_some_iff.mp h
  refine Option.map_eq_some_iff.mpr ⟨_, (objects_advance hadv).1, ?_⟩
  show (if (s.sessions k).established then _ else _) = _
  split
  · rw [objects_setRegistry, objects_registry]
    rfl
  · rfl

theorem step_objects {cfg : ListenerConfig} {s s' : Manager} {e : ManagerEnv} (h : s.step cfg e = some s') :
    s'.objects = s.objects ∨ ∃ ev, e.event = some ev ∧ s.objects.step ev = some s'.objects := by
  cases e with
  | onDetect result addr =>
    obtain ⟨-, ⟨-, rfl⟩ | ⟨kind, rfl, -, hc⟩⟩ := onDetect_eq_some h
    · exact .inl rfl
    · exact .inr ⟨_, rfl, objects_construct (s := { s with detecting := s.detecting - 1 }) hc⟩
  | onAccept k =>
    simp only [step] at h
    split at h
    · rename_i hk
      obtain rfl := Option.some.inj h
      refine .inr ⟨_, rfl, (if_pos hk).trans (congrArg some ?_)⟩
      rw [objects_setRegistry, objects_modify, objects_registry]
      rfl
    · cases h
  | handleSend k accept =>
    simp only [step] at h
    split at h
    · cases h
    · split at h
      · split at h
        · cases h
          exact .inl (s.objects_modify_same k _ rfl)
        · cases h
          exact .inl ((objects_release _ _).trans (s.objects_modify_same k _ rfl))
      · cases h
  | dequeue k i =>
    simp only [step] at h
    split at h
    · cases h
    · split at h
      · cases h
        exact .inl ((objects_release _ _).trans (s.objects_modify_same k _ rfl))
      · cases h
  | expire k =>
    simp only [step] at h
    split at h
    · exact .inr ⟨_, rfl, (objects_advance h).1⟩
    · cases h
  | removeSession k => exact .inr ⟨_, rfl, removeSession_objects h⟩
  | onDisconnect k => exact .inr ⟨_, rfl, (objects_advance h).1⟩
  | destroyMembers k =>
    simp only [step] at h
    split at h
    · obtain ⟨s₁, hadv, rfl⟩ := Option.map_eq_some_iff.mp h
      exact .inr ⟨_, rfl, (objects_advance hadv).1⟩
    · cases h
  | free k => exact .inr ⟨_, rfl, (objects_advance h).1⟩

theorem step_grows {cfg : ListenerConfig} {s s' : Manager} {e : ManagerEnv} (h : s.step cfg e = some s') :
    Objects.Grows s.objects s'.objects := by
  rcases step_objects h with hsame | ⟨ev, -, hev⟩
  · rw [hsame]
    exact .refl _
  · exact Objects.step_grows hev

/-! ## What is left to the calls -/

/-- What only the calls change, or the number of detections, which only they add to. -/
structure SameCalls (s s' : Manager) : Prop where
  accepting : s'.accepting = s.accepting
  messages : s'.messages = s.messages
  locals : s'.locals = s.locals
  temps : s'.temps = s.temps
  posts : s'.posts = s.posts
  detecting : s'.detecting ≤ s.detecting

theorem SameCalls.trans {s s₁ s' : Manager} (h : SameCalls s s₁) (h' : SameCalls s₁ s') : SameCalls s s' :=
  ⟨h'.accepting.trans h.accepting, h'.messages.trans h.messages, h'.locals.trans h.locals, h'.temps.trans h.temps,
    h'.posts.trans h.posts, h'.detecting.trans h.detecting⟩

theorem modify_calls (s : Manager) (k : Nat) (f : ManagedSession → ManagedSession) : SameCalls s (s.modify k f) :=
  ⟨rfl, rfl, rfl, rfl, rfl, le_rfl⟩

theorem release_calls (s : Manager) (m : Nat) : SameCalls s (s.release m) := by
  unfold release
  split <;> exact ⟨rfl, rfl, rfl, rfl, rfl, le_rfl⟩

theorem setRegistry_calls (s : Manager) (kind : StreamKind) (r : Registry) : SameCalls s (s.setRegistry kind r) := by
  cases kind <;> exact ⟨rfl, rfl, rfl, rfl, rfl, le_rfl⟩

theorem construct_calls {s s' : Manager} {kind : StreamKind} {addr : UInt64} (h : s.construct kind addr = some s') :
    SameCalls s s' := by
  unfold construct at h
  split at h
  · cases h
    exact ⟨rfl, rfl, rfl, rfl, rfl, le_rfl⟩
  · cases h

theorem advance_calls {s s' : Manager} {k : Nat} {before after : ObjPhase} (h : s.advance k before after = some s') :
    SameCalls s s' := by
  obtain ⟨-, rfl⟩ := objects_advance h
  exact ⟨rfl, rfl, rfl, rfl, rfl, le_rfl⟩

theorem step_calls {cfg : ListenerConfig} {s s' : Manager} {e : ManagerEnv} (h : s.step cfg e = some s') :
    SameCalls s s' := by
  cases e with
  | onDetect result addr =>
    obtain ⟨-, ⟨-, rfl⟩ | ⟨kind, -, -, hc⟩⟩ := onDetect_eq_some h
    · exact ⟨rfl, rfl, rfl, rfl, rfl, Nat.sub_le _ _⟩
    · have hc := construct_calls hc
      exact ⟨hc.accepting, hc.messages, hc.locals, hc.temps, hc.posts, hc.detecting.trans (Nat.sub_le _ _)⟩
  | onAccept k =>
    simp only [step] at h
    split at h
    · cases h
      exact (s.modify_calls k _).trans (setRegistry_calls _ _ _)
    · cases h
  | handleSend k accept =>
    simp only [step] at h
    split at h
    · cases h
    · split at h
      · split at h
        · cases h
          exact ⟨rfl, rfl, rfl, rfl, rfl, le_rfl⟩
        · cases h
          exact (s.modify_calls k _).trans (release_calls _ _)
      · cases h
  | dequeue k i =>
    simp only [step] at h
    split at h
    · cases h
    · split at h
      · cases h
        exact (s.modify_calls k _).trans (release_calls _ _)
      · cases h
  | expire k =>
    simp only [step] at h
    split at h
    · exact advance_calls h
    · cases h
  | removeSession k =>
    obtain ⟨s₁, hadv, rfl⟩ := Option.map_eq_some_iff.mp h
    apply (advance_calls hadv).trans
    split
    · exact setRegistry_calls _ _ _
    · exact ⟨rfl, rfl, rfl, rfl, rfl, le_rfl⟩
  | onDisconnect k => exact advance_calls h
  | destroyMembers k =>
    simp only [step] at h
    split at h
    · obtain ⟨s₁, hadv, rfl⟩ := Option.map_eq_some_iff.mp h
      exact (advance_calls hadv).trans ⟨rfl, rfl, rfl, rfl, rfl, le_rfl⟩
    · cases h
  | free k => exact advance_calls h

end Manager

end Radrpc
