import Radrpc.Broadcast
import Radrpc.Lib.Components
import Radrpc.Ordering

/-!
# The whole system

A server and its clients: calls on the session manager, calls on each of the clients, the connections between them.

* `SystemCall`, `systemMachine` : any number of calls of both kinds, interleaved with all sessions and streams;
* `clientComponent` : the connection of one client is a component of the system;
* `every_client_served` : whatever the server and the other clients do, a client is served as if it were alone.
-/

namespace Radrpc
open Words Conc

/-- A call on the session manager, or on the client of a connection. -/
inductive SystemCall where
  | manager (c : ManagerCall)
  | client (k : Nat) (c : SessCall)
  deriving DecidableEq

inductive SystemOp where
  | manager (o : ManagerOp)
  | client (k : Nat) (o : SessOp)

abbrev SystemOp.Res : SystemOp → Type
  | .manager o => o.Res
  | .client _ o => o.Res

inductive SystemRet where
  | manager (r : ManagerRet)
  | client (r : SessRet)
  deriving DecidableEq

structure SystemInput where
  manager : ManagerInput := {}
  clock : Clock := {}

/-- What happens besides the calls: to the sessions as the manager sees them, and on the connections. -/
inductive SystemEnv where
  | manager (e : ManagerEnv)
  | link (k : Nat) (e : LinkEvent)

def SystemCall.body (cfg : HubConfig) (responseTimeout : Time) : SystemCall → Prog SystemOp SystemOp.Res SystemRet
  | .manager c => (ManagerCall.body cfg.listener c).embed .manager (fun _ r => r) .manager
  | .client k c => (SessCall.body responseTimeout c).embed (.client k) (fun _ r => r) .client

def SystemOp.exec (t : Nat) : (o : SystemOp) → SystemInput → Hub → Option (o.Res × Hub)
  | .manager o, i, h => Hub.exec t o i.manager h
  | .client k o, i, h => (o.execLink t i.clock (h.links k).link).map fun r =>
      (r.1, { h with links := Function.update h.links k { h.links k with link := r.2 } })

def Hub.systemStep (cfg : HubConfig) (h : Hub) : SystemEnv → Option Hub
  | .manager e => h.step cfg (.manager e)
  | .link k e => h.step cfg (.link k e)

/-- Calls on the manager and on all clients, in any interleaving with the sessions and their connections. -/
def systemMachine (cfg : HubConfig) (responseTimeout : Time) :
    Machine Hub SystemCall SystemOp SystemOp.Res SystemRet SystemInput SystemEnv where
  body := SystemCall.body cfg responseTimeout
  exec := SystemOp.exec
  env := fun e h => h.systemStep cfg e

abbrev SystemPool := Pool Hub SystemCall SystemOp SystemOp.Res SystemRet

/-! ## The connection of one client -/

def SystemCall.onClient (k : Nat) : SystemCall → Option SessCall
  | .manager _ => none
  | .client k' c => if k' = k then some c else none

def SystemOp.offClient (k : Nat) : SystemOp → Prop
  | .manager _ => True
  | .client k' _ => k' ≠ k

namespace Hub

variable {cfg : HubConfig} {h h' : Hub} {k : Nat}

theorem deliver_link (h : Hub) (o : ManagerOp) (k : Nat) :
    h.deliver o k = h.links k ∨ ∃ tag, h.deliver o k = (h.links k).post tag := by
  unfold deliver
  split
  · rename_i k' m
    cases h.manager.messages[m]? with
    | none => exact .inl rfl
    | some b =>
      by_cases hk : k = k'
      · subst hk
        exact .inr ⟨(m, b), Function.update_self _ _ _⟩
      · exact .inl (Function.update_of_ne hk _ _)
  · exact .inl rfl

/-- What the calls on the manager and on the other clients do to a connection: at most, a broadcast is posted. -/
theorem link_of_foreign {t : Nat} {o : SystemOp} {i : SystemInput} {r : o.Res} (ho : o.offClient k)
    (hs : o.exec t i h = some (r, h')) : (h'.links k).link = (h.links k).link ∨
      ∃ e, (h.links k).link.step (cfg.funcs k) e = some (h'.links k).link := by
  cases o with
  | manager o =>
    obtain ⟨⟨r', s⟩, -, he⟩ := Option.map_eq_some_iff.mp hs
    cases he
    rcases h.deliver_link o k with hd | ⟨tag, hd⟩
    · exact .inl (congrArg TaggedLink.link hd)
    · refine .inr ⟨_, (TaggedLink.post_link (cfg.funcs k) (h.links k) tag).trans ?_⟩
      exact congrArg (fun x : TaggedLink => some x.link) hd.symm
  | client k' o =>
    obtain ⟨r', -, he⟩ := Option.map_eq_some_iff.mp hs
    cases he
    have hk : k ≠ k' := fun hk => ho hk.symm
    exact .inl (by simp only [Function.update_of_ne hk])

theorem link_of_systemStep {e : SystemEnv} (hs : h.systemStep cfg e = some h') :
    (h'.links k).link = (h.links k).link ∨ ∃ e, (h.links k).link.step (cfg.funcs k) e = some (h'.links k).link := by
  cases e with
  | manager e =>
    obtain ⟨s, -, rfl⟩ := Option.map_eq_some_iff.mp hs
    exact .inl rfl
  | link k' e =>
    simp only [systemStep, step] at hs
    split at hs
    · obtain ⟨x, hx, rfl⟩ := Option.map_eq_some_iff.mp hs
      obtain ⟨l, hl, rfl⟩ := Option.map_eq_some_iff.mp hx
      by_cases hk : k = k'
      · subst hk
        exact .inr ⟨e, by simpa only [Function.update_self] using hl⟩
      · exact .inl (by simp only [Function.update_of_ne hk])
    · cases hs

end Hub

/-- The connection of client `k`, with the calls on this client. -/
def clientComponent (cfg : HubConfig) (responseTimeout : Time) (k : Nat) :
    Component (linkMachine (cfg.funcs k) responseTimeout) (systemMachine cfg responseTimeout) where
  π := fun h => (h.links k).link
  κ := SystemCall.onClient k
  f := .client k
  g := fun _ r => r
  j := .client
  ι := SystemInput.clock
  Foreign := SystemOp.offClient k
  body := by
    intro c' c hc
    cases c' with
    | manager c => cases hc
    | client k' c' =>
      simp only [SystemCall.onClient] at hc
      split at hc
      · rename_i hk
        cases hc
        subst hk
        rfl
      · cases hc
  other := by
    intro c' hc
    cases c' with
    | manager c => exact Prog.embed_only (fun _ => trivial) _
    | client k' c' =>
      simp only [SystemCall.onClient] at hc
      split at hc
      · cases hc
      · rename_i hk
        exact Prog.embed_only (f := SystemOp.client k') (P := SystemOp.offClient k) (fun _ => hk) _
  exec := by
    intro t o i s r s' hs
    obtain ⟨r', hr, he⟩ := Option.map_eq_some_iff.mp hs
    cases he
    refine hr.trans (congrArg some (Prod.ext rfl ?_))
    simp only [Function.update_self]
  foreign := fun _ _ _ _ _ _ ho hs => Hub.link_of_foreign ho hs
  env := fun _ _ _ hs => Hub.link_of_systemStep hs

theorem reach_client {cfg : HubConfig} {responseTimeout : Time} {p : SystemPool}
    (hp : (systemMachine cfg responseTimeout).Reach Machine.Free (.new cfg) p) (k : Nat) :
    ∃ q, (linkMachine (cfg.funcs k) responseTimeout).Reach Machine.Free
      (.established cfg.boundFuncs (cfg.order k) cfg.pingDelay (cfg.now k)) q ∧
      (clientComponent cfg responseTimeout k).Sees p q :=
  (clientComponent cfg responseTimeout k).reach (fun _ _ _ => trivial) (fun _ _ => trivial) (fun _ _ _ _ _ _ => trivial) hp

theorem Correlated.collected {o : ByteOrder} {funcs : BoundFuncs} {l : Link} {views : Nat → Option SessView}
    (h : Correlated o funcs l views) {t : Nat} {v : SessView} {id : UInt64} {row : RowRef} {success : Bool} {recv : Bytes}
    (hv : views t = some v) (hphase : v.phase = .answered id row success recv) (hne : recv ≠ []) :
    ∃ f, funcs v.call.callId = some (some f) ∧ recv = (f v.call.bytes []).response ∧
      (.new v.call.callId id, v.call.bytes) ∈ l.server.invoked := by
  obtain h0 | ⟨hd, body, f, hmem, hid, hf, he⟩ := h.filled.answered t v id row success recv hv hphase
  · exact absurd h0 hne
  have hrow := h.numbered.row t v id row hv (by rw [hphase]; rfl)
  have hid' : hd.resultId = id := UInt64.toNat_inj.mp (hid.trans hrow.symm)
  have hphaseId : v.phase.id = some hd.resultId := by rw [hphase, hid']; rfl
  obtain hgave | ⟨hhd, hbody⟩ := (h.invoked (hd, body) hmem).own t v hv hphaseId (ne_zero_of_toNat hid)
  · rw [hphase] at hgave
    cases hgave
  · have hhd : hd = .new v.call.callId id := by rw [← hid']; exact hhd
    have hbody : body = v.call.bytes := hbody
    subst hhd hbody
    exact ⟨f, h.boundFuncs ▸ hf, he, hmem⟩

/-- **Every client is served as if it were alone.** In every run of a server with any number of clients, any number of
calls on each of them and any broadcasts, and for each client: the handlers of its session have been called for its own
messages only, at most once for each and in the order of the posts; the ids for which responses have come back are those
of these calls, in their order; and a non-empty response that a call on this client hands back is what the bound handler
made of the body of this very call. -/
theorem every_client_served {cfg : HubConfig} {responseTimeout : Time} {p : SystemPool}
    (hp : (systemMachine cfg responseTimeout).Reach Machine.Free (.new cfg) p) (k : Nat) :
    (∃ served, served.Sublist (p.shared.links k).link.client.started ∧
      (served.map DataSend.callback).Pairwise (· < ·) ∧
      List.Forall₂ (Invoked (p.shared.links k).link.client) served (p.shared.links k).link.server.invoked) ∧
    ((p.shared.links k).link.client.delivered.filter (· ≠ 0)).Sublist
      ((p.shared.links k).link.server.invoked.map fun q => q.1.resultId) ∧
    ((p.shared.links k).link.client.cache.allocated < 2 ^ 64 →
      ∀ t callId body recv ec id,
        p.result t = some (.client k (.sendRecv callId body []), .client (.received recv ec id)) → recv ≠ [] →
        ∃ f, cfg.boundFuncs callId = some (some f) ∧ recv = (f body []).response ∧
          (.new callId id, body) ∈ (p.shared.links k).link.server.invoked) := by
  obtain ⟨q, hq, hsees⟩ := reach_client hp k
  have hshared : q.shared = (p.shared.links k).link := hsees.shared
  rw [← hshared]
  obtain ⟨_, hrun, -⟩ := linkOrdered_of_reach hq
  refine ⟨?_, hrun.ordered.delivered, fun hlt t callId body recv ec id hres hne => ?_⟩
  · obtain ⟨served, hserved, hinvoked⟩ := hrun.ordered.served
    have hsub := hserved.trans (List.take_sublist _ _)
    exact ⟨served, hsub, hrun.ordered.posts.sublist (hsub.map _), hinvoked⟩
  · have hown : (clientComponent cfg responseTimeout k).κ (.client k (.sendRecv callId body [])) =
        some (.sendRecv callId body []) := if_pos rfl
    obtain ⟨b, hb, hres⟩ := (hsees.thread t).result hown hres
    cases hb
    obtain ⟨views, hinv, hl⟩ := correlated_of_reach hq
    obtain ⟨v, hv, hcall, callId', body', recv₀, hcall', hret⟩ := hl.ok (Machine.result_eq_some hres)
    rw [hcall] at hcall'
    cases hcall'
    rcases hret with ⟨-, rfl, -⟩ | ⟨-, rfl, -⟩ | ⟨-, rfl, -⟩ | ⟨row, success, hphase, -⟩
    · exact absurd rfl hne
    · exact absurd rfl hne
    · exact absurd rfl hne
    · have hcollected := (hinv hlt).collected hv hphase hne
      rwa [hcall] at hcollected

/-- A server that sends the body of call 7 back, with a byte added. -/
def appendingConfig : HubConfig :=
  { listener := plainListener, boundFuncs := appendOne, pingDelay := 0, funcs := fun _ _ => none
    order := fun _ => .little, now := fun _ => 0 }

/-- The listener creates session `k` at an address, on the thread `t`, and its websocket is established. -/
def joinRun (k t : Nat) (addr : UInt64) : List (Act SystemCall SystemInput SystemEnv) :=
  [.call t (.manager .onAccept), .op t {}, .op t {}, .op t {}, .op t { manager := { addr } }, .op t {},
    .env (.manager (.onAccept k))]

/-- A request of client `k` with one byte, up to the response in its row. -/
def exchangeRun (k t : Nat) (b : UInt8) : List (Act SystemCall SystemInput SystemEnv) :=
  let header := (IoHeader.new 7 1).encode .little
  [.call t (.client k (.sendRecv 7 [b] [])), .op t {}, .op t {}, .env (.link k (.client .runPosted)),
    .env (.link k (.clientFlush [b])), .env (.link k (.server (.onRead false (header ++ [b]) 0))),
    .env (.link k .serverFlush), .env (.link k (.client (.onWrite 0 false))), .env (.link k (.client (.ioStep {}))),
    .env (.link k (.client (.onRead false (header ++ [b, 1])))), .env (.link k (.client (.ioStep {})))]

/-- Two clients use the same result id, and each gets the response to its own request. -/
theorem every_client_served_two : ∃ p : SystemPool,
    (systemMachine appendingConfig 1000000000).Reach Machine.Free (.new appendingConfig) p ∧
      p.result 2 = some (.client 0 (.sendRecv 7 [5] []), .client (.received [5, 1] none 1)) ∧
      p.result 3 = some (.client 1 (.sendRecv 7 [6] []), .client (.received [6, 1] none 1)) ∧
      (.new 7 1, [5]) ∈ (p.shared.links 0).link.server.invoked := by
  have hrun : ((systemMachine appendingConfig 1000000000).run (fun _ _ => true) (.initial (.new appendingConfig))
      (joinRun 0 0 100 ++ joinRun 1 1 200 ++ exchangeRun 0 2 5 ++ exchangeRun 1 3 6 ++
        [.op 2 {}, .op 2 {}, .op 2 {}, .op 3 {}, .op 3 {}, .op 3 {}])).any (fun p =>
      decide (p.result 2 = some (.client 0 (.sendRecv 7 [5] []), .client (.received [5, 1] none 1))) &&
      decide (p.result 3 = some (.client 1 (.sendRecv 7 [6] []), .client (.received [6, 1] none 1))) &&
      decide ((p.shared.links 0).link.client.cache.allocated < 2 ^ 64)) = true := by
    decide +kernel
  obtain ⟨p, hp, hf⟩ := Machine.Reach.exists_of_run (G := Machine.Free) (fun _ _ _ => trivial) _ hrun
  simp only [Bool.and_eq_true, decide_eq_true_eq] at hf
  obtain ⟨-, -, -, hmem⟩ := (every_client_served hp 0).2.2 hf.2 2 7 [5] [5, 1] none 1 hf.1.1 (by decide)
  exact ⟨p, hp, hf.1.1, hf.1.2, hmem⟩

end Radrpc
