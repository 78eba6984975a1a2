import Radrpc.Server.Posting
import Radrpc.Tracking

/-!
# Broadcasts, end to end

The session manager and the connections of its sessions: a broadcast goes through the lists of the manager, the posted
handlers, queues and streams of the connections, and the handlers of the clients.

* `Sequential`, `Ordered` : one broadcast after the other posts in order;
* `Hub`, `hubMachine` : the manager with all its connections;
* `Hub.Kept` : the broadcasts on a connection are the posts of the manager;
* `broadcasts_in_order` : every client is called for a part of the broadcasts to it, in order and at most once.
-/

namespace Radrpc
open Words Conc

/-! ## One broadcast after the other -/

/-- A broadcast makes its message when the one before has let go of its own. -/
def Sequential (p : ManagerPool) : Act ManagerCall ManagerInput ManagerEnv → Prop
  | .op t _ => ∀ msg, p.next t = some (.makePush msg) → p.shared.locals = []
  | _ => True

/-- The message of a running broadcast is the newest one, and the posts are in order. -/
structure Ordered (s : Manager) (views : Nat → Option ManagerView) : Prop where
  newest : ∀ t v m b, views t = some v → v.message = some (m, b) → m + 1 = s.messages.length
  sorted : s.posts.Pairwise fun a b => a.1 ≤ b.1

section
variable {s s' : Manager} {views : Nat → Option ManagerView} {t : Nat} {v w : ManagerView}

theorem Ordered.update (h : Ordered s views) (hmsg : s'.messages.length = s.messages.length) (hposts : s'.posts = s.posts)
    (hm : ∀ m b, w.message = some (m, b) → m + 1 = s.messages.length) :
    Ordered s' (Function.update views t (some w)) := by
  refine ⟨fun t' v' m b hv' hm' => ?_, hposts ▸ h.sorted⟩
  rw [hmsg]
  rcases view_of_update hv' with ⟨-, rfl⟩ | ⟨-, hv'⟩
  · exact hm m b hm'
  · exact h.newest t' v' m b hv' hm'

theorem Ordered.exec {cfg : ListenerConfig} {o : ManagerOp} {i : ManagerInput} {r : o.Res} (h : Ordered s views)
    (hc : Counted s views) (ha : Aimed s views) (hv : views t = some v) (hpre : v.Allows cfg o)
    (hseq : ∀ msg, o = .makePush msg → s.locals = []) (hs : ManagerOp.exec t o i s = some (r, s')) :
    Ordered s' (Function.update views t (some (v.next o r))) := by
  have hold : ∀ m b, v.message = some (m, b) → m + 1 = s.messages.length := fun m b hm => h.newest t v m b hv hm
  cases o with
  | makePush msg =>
    cases hs
    have hnone : ∀ t' v' m b, views t' = some v' → v'.message ≠ some (m, b) := fun t' v' m b hv' hm => by
      have hmem := hc.message t' v' m b hv' hm
      rw [hseq msg rfl] at hmem
      cases hmem
    refine ⟨fun t' v' m b hv' hm => ?_, h.sorted⟩
    rcases view_of_update hv' with ⟨-, rfl⟩ | ⟨-, hv'⟩
    · cases hm
      show s.messages.length + 1 = (s.messages ++ [msg]).length
      rw [List.length_append, List.length_singleton]
    · exact absurd hm (hnone t' v' m b hv')
  | send k m =>
    obtain ⟨⟨b, hmsg⟩, -⟩ := hpre
    cases hs
    refine ⟨fun t' v' m' b' hv' hm' => ?_, ?_⟩
    · rcases view_of_update hv' with ⟨-, rfl⟩ | ⟨-, hv'⟩
      · exact hold m' b' hm'
      · exact h.newest t' v' m' b' hv' hm'
    · refine List.pairwise_append.mpr ⟨h.sorted, List.pairwise_singleton _ _, fun e he e' he' => ?_⟩
      obtain ⟨b', hb', -⟩ := (ha.posted e.1 e.2 he).targeted
      rw [List.mem_singleton.mp he']
      have hlt := (List.getElem?_eq_some_iff.mp hb').1
      have hnew := hold m b hmsg
      show e.1 ≤ m
      omega
  | dropPush m =>
    cases hs
    have hcalls := Manager.release_calls { s with locals := s.locals.erase m } m
    exact h.update (by rw [hcalls.messages]) hcalls.posts fun m b hm => by cases hm
  | newSession =>
    obtain ⟨s₁, hcon, he⟩ := Option.map_eq_some_iff.mp hs
    cases he
    have hcalls := Manager.construct_calls hcon
    exact h.update (by rw [hcalls.messages]) hcalls.posts hold
  | lockWeak k =>
    simp only [ManagerOp.exec] at hs
    split at hs
    · cases hs
      exact h.update rfl rfl hold
    · cases hs
      exact h.update rfl rfl hold
  | beginAccept =>
    simp only [ManagerOp.exec] at hs
    split at hs
    · cases hs
    · cases hs
      exact h.update rfl rfl hold
  | beginCount => cases hs; exact h.update rfl rfl hold
  | endCount => cases hs; exact h.update rfl rfl hold
  | testQueue => cases hs; exact h.update rfl rfl hold
  | countPush => cases hs; exact h.update rfl rfl hold
  | copy kind ids => cases hs; exact h.update rfl rfl hold
  | releaseSession k => cases hs; exact h.update rfl rfl hold
  | sessionIds => cases hs; exact h.update rfl rfl hold
  | newDetect => cases hs; exact h.update rfl rfl hold
  | endAccept => cases hs; exact h.update rfl rfl hold

end

/-- The invariants of a run with one broadcast after the other. -/
structure Queued (s : Manager) (views : Nat → Option ManagerView) : Prop where
  counted : Counted s views
  aimed : Aimed s views
  ordered : Ordered s views

theorem queued {cfg : ListenerConfig} {p : ManagerPool} (hp : (managerMachine cfg).Reach Sequential .new p) :
    ∃ views, Queued p.shared views ∧ Machine.Linked (managerDiscipline cfg) (fun _ _ _ _ => True) p views := by
  refine Machine.sound (fun _ _ => {}) ⟨Counted.start, Aimed.start, fun _ _ _ _ hv => (by cases hv), List.Pairwise.nil⟩
    (fun _ c => managerCall_ok cfg c) (fun p views t c _ _ h _ _ => ?_)
    (fun p views t i o v r s' hr _ h hg hth hv hpre hs => ?_) (fun p views e s' hr _ h _ hs => ?_) hp
  · exact ⟨h.counted.call, h.aimed.call, h.ordered.update rfl rfl fun _ _ hm => by cases hm⟩
  · obtain ⟨c, k, hth⟩ := hth
    refine ⟨h.counted.exec hv hpre hs, h.aimed.exec h.counted (tidy hr) hv hpre hs,
      h.ordered.exec h.counted h.aimed hv hpre ?_ hs⟩
    rintro msg rfl
    exact hg msg (Machine.next_of_thread hth)
  · have hcalls := Manager.step_calls hs
    refine ⟨h.counted.env hs, h.aimed.env (tidy hr) hs, fun t v m b hv hm => ?_, hcalls.posts ▸ h.ordered.sorted⟩
    rw [hcalls.messages]
    exact h.ordered.newest t v m b hv hm

/-! ## The manager and its connections -/

/-- A server and its clients: the listener, the handlers of both ends, and what each connection starts with. -/
structure HubConfig where
  listener : ListenerConfig
  boundFuncs : BoundFuncs
  pingDelay : Time
  funcs : Nat → BroadcastFuncs
  order : Nat → ByteOrder
  now : Nat → Time

/-- The manager, and the connection of each session from its handshake on. The manager's own account of the messages of
its sessions only counts pointers, and moves by itself. -/
structure Hub where
  manager : Manager
  links : Nat → TaggedLink

/-- What happens besides the calls on the manager: to the sessions as the manager sees them, to a connection, and the
steps of calls on a client, whatever these calls are. -/
inductive HubEnv where
  | manager (e : ManagerEnv)
  | link (k : Nat) (e : LinkEvent)
  | clientCall (k t : Nat) (o : SessOp) (i : Clock)

def LinkEvent.isSend : LinkEvent → Bool
  | .server (.send _) => true
  | _ => false

namespace Hub

def new (cfg : HubConfig) : Hub :=
  { manager := .new
    links := fun k => { link := .established cfg.boundFuncs (cfg.order k) cfg.pingDelay (cfg.now k) } }

/-- What the step of a call does to the connections: `send` posts to one of them. -/
def deliver (h : Hub) : ManagerOp → Nat → TaggedLink
  | .send k m =>
    match h.manager.messages[m]? with
    | some b => Function.update h.links k ((h.links k).post (m, b))
    | none => h.links
  | _ => h.links

def exec (t : Nat) (o : ManagerOp) (i : ManagerInput) (h : Hub) : Option (o.Res × Hub) :=
  (ManagerOp.exec t o i h.manager).map fun r => (r.1, { manager := r.2, links := h.deliver o })

/-- One step besides these calls. A connection is there when the session is established. -/
def step (cfg : HubConfig) (h : Hub) : HubEnv → Option Hub
  | .manager e => (h.manager.step cfg.listener e).map fun s => { h with manager := s }
  | .link k e =>
    if (h.manager.sessions k).established && !e.isSend then
      ((h.links k).step (cfg.funcs k) e).map fun x => { h with links := Function.update h.links k x }
    else none
  | .clientCall k t o i =>
    (o.execLink t i (h.links k).link).map fun r =>
      { h with links := Function.update h.links k { h.links k with link := r.2 } }

end Hub

/-- Calls on the manager, in any interleaving with its sessions, their connections and the clients. -/
def hubMachine (cfg : HubConfig) : Machine Hub ManagerCall ManagerOp ManagerOp.Res ManagerRet ManagerInput HubEnv where
  body := ManagerCall.body cfg.listener
  exec := Hub.exec
  env := fun e h => h.step cfg e

abbrev HubPool := Pool Hub ManagerCall ManagerOp ManagerOp.Res ManagerRet

def HubPool.manager (p : HubPool) : ManagerPool := ⟨p.shared.manager, p.thread⟩

/-- The broadcasts are made from one thread: one makes its message when the one before has let go of its own. -/
def OneThread (p : HubPool) : Act ManagerCall ManagerInput HubEnv → Prop
  | .op t _ => ∀ msg, p.next t = some (.makePush msg) → p.shared.manager.locals = []
  | _ => True

theorem reach_manager {cfg : HubConfig} {p : HubPool} (hp : (hubMachine cfg).Reach OneThread (.new cfg) p) :
    (managerMachine cfg.listener).Reach Sequential .new p.manager := by
  refine Machine.Reach.project (M := hubMachine cfg) (G := OneThread) (f := Hub.manager) rfl (fun t o i h r h' hs => ?_)
    (fun e h h' hs => ?_) (fun _ _ _ => trivial) (fun _ _ => trivial) (fun p t i hg => hg) hp
  · obtain ⟨⟨r', s⟩, hexec, he⟩ := Option.map_eq_some_iff.mp hs
    cases he
    exact hexec
  · cases e with
    | manager e =>
      obtain ⟨s, hstep, rfl⟩ := Option.map_eq_some_iff.mp hs
      exact .inr ⟨e, hstep⟩
    | link k e =>
      simp only [hubMachine, Hub.step] at hs
      split at hs
      · obtain ⟨x, -, rfl⟩ := Option.map_eq_some_iff.mp hs
        exact .inl rfl
      · cases hs
    | clientCall k t o i =>
      obtain ⟨r, -, rfl⟩ := Option.map_eq_some_iff.mp hs
      exact .inl rfl

/-! ## Posts and connections -/

def Manager.postsTo (s : Manager) (k : Nat) : List Nat := s.posts.filterMap fun e => if e.2 = k then some e.1 else none

/-- The broadcasts on the connections are the posts of the manager. -/
structure Hub.Kept (h : Hub) : Prop where
  tracked : ∀ k, (h.links k).Tracked
  posts : ∀ k, (h.links k).history.map Prod.fst = h.manager.postsTo k
  tags : ∀ k tag, tag ∈ (h.links k).history → h.manager.messages[tag.1]? = some tag.2

namespace Hub

variable {h h' : Hub}

theorem Kept.link (hk : Kept h) {k : Nat} {x : TaggedLink} (hx : x.Tracked) (hh : x.history = (h.links k).history) :
    Kept { h with links := Function.update h.links k x } := by
  have hhist : ∀ j, (Function.update h.links k x j).history = (h.links j).history := by
    intro j
    by_cases hj : j = k
    · rw [hj, Function.update_self, hh]
    · rw [Function.update_of_ne hj]
  refine ⟨fun j => ?_, fun j => ?_, fun j tag ht => ?_⟩
  · show (Function.update h.links k x j).Tracked
    by_cases hj : j = k
    · rw [hj, Function.update_self]
      exact hx
    · rw [Function.update_of_ne hj]
      exact hk.tracked j
  · show (Function.update h.links k x j).history.map Prod.fst = _
    rw [hhist]
    exact hk.posts j
  · change tag ∈ (Function.update h.links k x j).history at ht
    rw [hhist] at ht
    exact hk.tags j tag ht

theorem Kept.manager (hk : Kept h) {s : Manager} (hposts : s.posts = h.manager.posts)
    (hmsg : ∀ (m : Nat) (b : BroadcastMsg), h.manager.messages[m]? = some b → s.messages[m]? = some b) :
    Kept { h with manager := s } := by
  refine ⟨hk.tracked, fun k => ?_, fun k tag ht => hmsg _ _ (hk.tags k tag ht)⟩
  show _ = s.postsTo k
  unfold Manager.postsTo
  rw [hposts]
  exact hk.posts k

theorem Kept.send (hk : Kept h) {k m : Nat} {b : BroadcastMsg} {s : Manager} (hb : h.manager.messages[m]? = some b)
    (hposts : s.posts = h.manager.posts ++ [(m, k)]) (hmsg : s.messages = h.manager.messages) :
    Kept { manager := s, links := Function.update h.links k ((h.links k).post (m, b)) } := by
  refine ⟨fun j => ?_, fun j => ?_, fun j tag ht => ?_⟩
  · show (Function.update h.links k _ j).Tracked
    by_cases hj : j = k
    · rw [hj, Function.update_self]
      exact (hk.tracked k).post (m, b)
    · rw [Function.update_of_ne hj]
      exact hk.tracked j
  · show (Function.update h.links k _ j).history.map Prod.fst = s.postsTo j
    unfold Manager.postsTo
    rw [hposts, List.filterMap_append]
    by_cases hj : j = k
    · subst hj
      rw [Function.update_self]
      show ((h.links j).history ++ [(m, b)]).map Prod.fst = _
      rw [List.map_append, hk.posts j]
      simp [Manager.postsTo]
    · rw [Function.update_of_ne hj, hk.posts j]
      simp [Manager.postsTo, Ne.symm hj]
  · show s.messages[tag.1]? = _
    rw [hmsg]
    change tag ∈ (Function.update h.links k _ j).history at ht
    by_cases hj : j = k
    · subst hj
      rw [Function.update_self] at ht
      rcases List.mem_append.mp ht with ht | ht
      · exact hk.tags j tag ht
      · rw [List.mem_singleton.mp ht]
        exact hb
    · rw [Function.update_of_ne hj] at ht
      exact hk.tags j tag ht

end Hub

theorem ManagerOp.exec_posts {t : Nat} {o : ManagerOp} {i : ManagerInput} {s s' : Manager} {r : o.Res}
    (hne : ∀ k m, o ≠ .send k m) (hs : ManagerOp.exec t o i s = some (r, s')) : s'.posts = s.posts ∧
      ∀ (m : Nat) (b : BroadcastMsg), s.messages[m]? = some b → s'.messages[m]? = some b := by
  have hsame : s'.posts = s.posts → s'.messages = s.messages → s'.posts = s.posts ∧
      ∀ (m : Nat) (b : BroadcastMsg), s.messages[m]? = some b → s'.messages[m]? = some b :=
    fun hp hm => ⟨hp, fun m b hb => by rwa [hm]⟩
  cases o with
  | send k m => exact absurd rfl (hne k m)
  | makePush msg =>
    cases hs
    exact ⟨rfl, fun m b hb => (List.getElem?_append_left (List.getElem?_eq_some_iff.mp hb).1).trans hb⟩
  | dropPush m =>
    cases hs
    have hcalls := Manager.release_calls { s with locals := s.locals.erase m } m
    exact hsame hcalls.posts hcalls.messages
  | newSession =>
    obtain ⟨s₁, hcon, he⟩ := Option.map_eq_some_iff.mp hs
    cases he
    have hcalls := Manager.construct_calls hcon
    exact hsame hcalls.posts hcalls.messages
  | lockWeak k =>
    simp only [exec] at hs
    split at hs
    · cases hs
      exact hsame rfl rfl
    · cases hs
      exact hsame rfl rfl
  | beginAccept =>
    simp only [exec] at hs
    split at hs
    · cases hs
    · cases hs
      exact hsame rfl rfl
  | beginCount => cases hs; exact hsame rfl rfl
  | endCount => cases hs; exact hsame rfl rfl
  | testQueue => cases hs; exact hsame rfl rfl
  | countPush => cases hs; exact hsame rfl rfl
  | copy kind ids => cases hs; exact hsame rfl rfl
  | releaseSession k => cases hs; exact hsame rfl rfl
  | sessionIds => cases hs; exact hsame rfl rfl
  | newDetect => cases hs; exact hsame rfl rfl
  | endAccept => cases hs; exact hsame rfl rfl

theorem kept {cfg : HubConfig} {p : HubPool} (hp : (hubMachine cfg).Reach OneThread (.new cfg) p) : p.shared.Kept := by
  induction hp with
  | start =>
    exact ⟨fun k => TaggedLink.Tracked.established _ _ _ _, fun k => rfl, fun k tag ht => by cases ht⟩
  | @step p p' a hr hg hs ih =>
    cases a with
    | call t c =>
      obtain ⟨-, rfl⟩ := Machine.step_call hs
      exact ih
    | op t i =>
      obtain ⟨c, o, q, r, h', ht, hex, rfl⟩ := Machine.step_op hs
      obtain ⟨⟨r', s⟩, hs', he⟩ := Option.map_eq_some_iff.mp hex
      cases he
      obtain ⟨views, hq, hl⟩ := queued (reach_manager hr)
      obtain ⟨v, hv, hpre, -⟩ := hl.ok (p := HubPool.manager p) ht
      by_cases hsend : ∃ k m, o = .send k m
      · obtain ⟨k, m, rfl⟩ := hsend
        obtain ⟨⟨b, hmsg⟩, -⟩ := hpre
        have hb : p.shared.manager.messages[m]? = some b := (hq.aimed.aiming t v m b hv hmsg).message
        have hdeliver : p.shared.deliver (.send k m) =
            Function.update p.shared.links k ((p.shared.links k).post (m, b)) := by
          simp only [Hub.deliver, hb]
        show Hub.Kept { manager := s, links := p.shared.deliver (.send k m) }
        rw [hdeliver]
        cases hs'
        exact ih.send hb rfl rfl
      · have hdeliver : p.shared.deliver o = p.shared.links := by
          unfold Hub.deliver
          split
          · exact absurd ⟨_, _, rfl⟩ hsend
          · rfl
        show Hub.Kept { manager := s, links := p.shared.deliver o }
        rw [hdeliver]
        obtain ⟨hposts, hmsg⟩ := ManagerOp.exec_posts (fun k m he => hsend ⟨k, m, he⟩) hs'
        exact ih.manager hposts hmsg
    | env e =>
      obtain ⟨h', he, rfl⟩ := Machine.step_env hs
      cases e with
      | manager e =>
        obtain ⟨s, hs', rfl⟩ := Option.map_eq_some_iff.mp he
        have hcalls := Manager.step_calls hs'
        exact ih.manager hcalls.posts fun m b hm => by rwa [hcalls.messages]
      | link k e =>
        simp only [hubMachine, Hub.step] at he
        split at he
        · rename_i hopen
          obtain ⟨x, hx, rfl⟩ := Option.map_eq_some_iff.mp he
          have hne : ∀ data, e ≠ .server (.send data) := by
            rintro data rfl
            simp [LinkEvent.isSend] at hopen
          obtain ⟨l, -, rfl⟩ := Option.map_eq_some_iff.mp hx
          exact ih.link ((ih.tracked k).step hne hx) rfl
        · cases he
      | clientCall k t o i =>
        obtain ⟨⟨r, l⟩, hx, rfl⟩ := Option.map_eq_some_iff.mp he
        exact ih.link ((ih.tracked k).exec hx) rfl

/-! ## In order and at most once -/

def BroadcastMsg.targets (b : BroadcastMsg) (id : UInt64) : Bool :=
  match b.ids with
  | none => true
  | some ids => decide (id ∈ ids)

/-- The broadcasts for a session, in the order of the calls, with their numbers. -/
def Manager.broadcastsTo (s : Manager) (k : Nat) : List (Nat × UInt32 × Bytes) :=
  (List.range s.messages.length).filterMap fun m => s.messages[m]?.bind fun b =>
    if b.targets (s.sessions k).id then some (m, b.callId, b.bytes) else none

theorem BroadcastMsg.targets_of {b : BroadcastMsg} {id : UInt64} (h : ∀ ids, b.ids = some ids → id ∈ ids) :
    b.targets id = true := by
  unfold targets
  split
  · rfl
  · rename_i ids hids
    exact decide_eq_true (h ids hids)

theorem Queued.postsTo_increasing {s : Manager} {views : Nat → Option ManagerView} (h : Queued s views) (k : Nat) :
    (s.postsTo k).Pairwise (· < ·) := by
  refine List.pairwise_filterMap.mpr ((h.ordered.sorted.and h.aimed.nodup).imp fun {a b} hab m hm m' hm' => ?_)
  split at hm
  · rename_i ha
    split at hm'
    · rename_i hb
      cases hm
      cases hm'
      exact lt_of_le_of_ne hab.1 fun heq => hab.2 (Prod.ext heq (ha.trans hb.symm))
    · cases hm'
  · cases hm

/-- **Broadcasts reach each client in order and at most once.** When the broadcasts are made from one thread, each of them
posts at most once to a session, and only to one that is alive, on the lists, and that it is for; and the calls of a
client's handlers for broadcasts are a part of the broadcasts for its session, in the order of the calls and with their
ids and bytes. -/
theorem broadcasts_in_order (cfg : HubConfig) (p : HubPool) (hp : (hubMachine cfg).Reach OneThread (.new cfg) p) :
    (∀ t k m, p.next t = some (.send k m) → (m, k) ∉ p.shared.manager.posts ∧
      (p.shared.manager.sessions k).phase = .alive ∧
      ((p.shared.manager.sessions k).id, k) ∈ p.shared.manager.registry (p.shared.manager.sessions k).kind ∧
      ∃ b, p.shared.manager.messages[m]? = some b ∧ b.targets (p.shared.manager.sessions k).id = true) ∧
    ∀ k, (p.shared.links k).calls.Sublist (p.shared.manager.broadcastsTo k) := by
  obtain ⟨views, h, hl⟩ := queued (reach_manager hp)
  have htidy := tidy (reach_manager hp)
  refine ⟨fun t k m hn => ?_, fun k => ?_⟩
  · obtain ⟨c, q, hth⟩ := Machine.next_eq_some hn
    obtain ⟨v, hv, ⟨⟨b, hmsg⟩, htar, addr, rest, hlist⟩, -⟩ := hl.ok (p := HubPool.manager p) hth
    have hmem : (addr, k) ∈ v.listed := hlist ▸ List.mem_cons_self
    have ha := h.aimed.aiming t v m b hv hmsg
    obtain ⟨kind, -, he⟩ := ha.entry addr k hmem
    have halive := (h.aimed.holding t v k false hv htar).2
    refine ⟨fun hpost => ha.posted k hpost addr hmem, halive, ?_, b, ha.message, ?_⟩
    · have hreg := (htidy.mem (p.shared.manager.sessions k).kind (p.shared.manager.sessions k).id k).mpr
        ⟨he.lt, ⟨he.established, .inl halive⟩, rfl, rfl⟩
      rwa [Manager.objects_registry] at hreg
    · exact BroadcastMsg.targets_of fun ids hids => he.id ▸ he.targeted ids hids
  · have hk := kept hp
    apply (hk.tracked k).calls.trans
    have hfst : ((p.shared.links k).history.map fun tag => (tag.1, tag.1, tag.2.callId, tag.2.bytes)).map Prod.fst =
        p.shared.manager.postsTo k := by
      rw [List.map_map, ← hk.posts k]
      rfl
    have hsub := Slots.sublist_filterMap_range (n := p.shared.manager.messages.length)
      (f := fun m => p.shared.manager.messages[m]?.bind fun b =>
        if b.targets (p.shared.manager.sessions k).id then some (m, b.callId, b.bytes) else none)
      (l := (p.shared.links k).history.map fun tag => (tag.1, tag.1, tag.2.callId, tag.2.bytes))
      (hfst ▸ h.postsTo_increasing k) fun x hx => ?_
    · rw [List.map_map] at hsub
      exact hsub
    · obtain ⟨tag, ht, rfl⟩ := List.mem_map.mp hx
      have hmsg := hk.tags k tag ht
      refine ⟨(List.getElem?_eq_some_iff.mp hmsg).1, ?_⟩
      have hpost : (tag.1, k) ∈ p.shared.manager.posts := by
        have hmem : tag.1 ∈ p.shared.manager.postsTo k := hk.posts k ▸ List.mem_map_of_mem ht
        obtain ⟨⟨m, k'⟩, he, hif⟩ := List.mem_filterMap.mp hmem
        split at hif
        · rename_i hkk
          have hkk : k' = k := hkk
          cases hif
          rw [← hkk]
          exact he
        · cases hif
      obtain ⟨b, hb, htarget⟩ := (h.aimed.posted tag.1 k hpost).targeted
      have hbt : b = tag.2 := Option.some.inj (hb.symm.trans hmsg)
      subst hbt
      show p.shared.manager.messages[tag.1]?.bind _ = _
      rw [hmsg]
      exact if_pos (BroadcastMsg.targets_of htarget)

def oneThread (p : HubPool) : Act ManagerCall ManagerInput HubEnv → Bool
  | .op t _ =>
    match p.next t with
    | some (.makePush _) => decide (p.shared.manager.locals = [])
    | _ => true
  | _ => true

theorem oneThread_sound (p : HubPool) (a : Act ManagerCall ManagerInput HubEnv) (h : oneThread p a = true) :
    OneThread p a := by
  cases a with
  | call t c => trivial
  | env e => trivial
  | op t i =>
    intro msg hn
    simp only [oneThread, hn, decide_eq_true_eq] at h
    exact h

/-- A server without ssl, and clients that listen to all broadcasts. -/
def listeningConfig : HubConfig :=
  { listener := plainListener, boundFuncs := fun _ => none, pingDelay := 0, funcs := fun _ _ => some true
    order := fun _ => .little, now := fun _ => 0 }

/-- A session is established, and two broadcasts are posted to it: one to all, and one to its id, which it names
twice. -/
def twoBroadcasts : List (Act ManagerCall ManagerInput HubEnv) :=
  [.call 0 .onAccept, .op 0 {}, .op 0 {}, .op 0 {}, .op 0 { addr := 100 }, .op 0 {}, .env (.manager (.onAccept 0))] ++
    .call 1 (.broadcast ⟨7, [1], none⟩) :: List.replicate 11 (.op 1 {}) ++
    .call 2 (.broadcast ⟨8, [2], some [100, 300, 100]⟩) :: List.replicate 11 (.op 2 {})

def firstArrives : List (Act ManagerCall ManagerInput HubEnv) :=
  [.env (.link 0 (.server .handleSend)), .env (.link 0 (.server .handleSend)), .env (.link 0 .serverFlush),
    .env (.link 0 (.client (.onRead false (BroadcastMsg.push ⟨7, [1], none⟩ |>.wire .little))))]

/-- The client has been called for the first of two broadcasts. -/
theorem broadcasts_in_order_two : ∃ p : HubPool,
    (hubMachine listeningConfig).Reach OneThread (.new listeningConfig) p ∧
    (p.shared.links 0).calls = [(0, 7, [1])] ∧ p.shared.manager.postsTo 0 = [0, 1] ∧
    (p.shared.links 0).calls.Sublist (p.shared.manager.broadcastsTo 0) := by
  have hrun : ((hubMachine listeningConfig).run oneThread (.initial (.new listeningConfig))
      (twoBroadcasts ++ firstArrives)).any (fun p => decide ((p.shared.links 0).calls = [(0, 7, [1])]) &&
        decide (p.shared.manager.postsTo 0 = [0, 1])) = true := by
    decide +kernel
  obtain ⟨p, hp, hf⟩ := Machine.Reach.exists_of_run oneThread_sound _ hrun
  simp only [Bool.and_eq_true, decide_eq_true_eq] at hf
  exact ⟨p, hp, hf.1, hf.2, (broadcasts_in_order listeningConfig p hp).2 0⟩

end Radrpc
