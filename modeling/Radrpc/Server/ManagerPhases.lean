import Radrpc.Server.Manager

/-!
# The calls on a manager, phase by phase

* `ManagerView` : what a call holds: a pointer to the manager, the listener, a message, the list it is working on, and
  the session it has locked;
* `managerDiscipline` : the steps that are possible and where they lead;
* `managerCall_ok` : the programs of all calls follow it.
-/

namespace Radrpc
open Conc

/-- What a call holds and knows. `seen` is the number of sessions that `is_full()` has seen and found small enough;
`message` the message of a broadcast, `stage` the list it has copied last, `listed` what is left of it, `target` the
session it has locked, and whether the message has been sent to it. -/
structure ManagerView where
  counting : Bool := false
  accepting : Bool := false
  seen : Option Nat := none
  message : Option (Nat × BroadcastMsg) := none
  stage : Option StreamKind := none
  listed : Registry := []
  target : Option (Nat × Bool) := none
  deriving DecidableEq, Repr

namespace ManagerView

/-- The call works on no list. -/
structure Free (v : ManagerView) : Prop where
  counting : v.counting = false
  listed : v.listed = []
  target : v.target = none

def Allows (cfg : ListenerConfig) (v : ManagerView) : ManagerOp → Prop
  | .beginCount => v.counting = false ∧ v.message = none
  | .endCount => v.counting = true
  | .testQueue => v.message = none
  | .makePush _ => v.Free ∧ v.message = none ∧ v.stage = none
  | .countPush => v.Free ∧ v.stage = none
  | .copy kind ids => v.Free ∧ (∃ m msg, v.message = some (m, msg) ∧ ids = msg.ids) ∧
      (kind = .plain ∧ v.stage = none ∨ kind = .ssl ∧ v.stage = some .plain)
  | .lockWeak k => v.message ≠ none ∧ v.target = none ∧ ∃ id rest, v.listed = (id, k) :: rest
  | .send k m => (∃ msg, v.message = some (m, msg)) ∧ v.target = some (k, false) ∧ ∃ id rest, v.listed = (id, k) :: rest
  | .releaseSession k => v.target = some (k, true)
  | .dropPush m => v.Free ∧ ∃ msg, v.message = some (m, msg)
  | .sessionIds => True
  | .beginAccept => v.accepting = false
  | .newDetect => cfg.sslCtx = true
  | .newSession => cfg.sslCtx = false ∧ v.accepting = true ∧ ∃ n, v.seen = some n ∧ n < cfg.maxSessions.toNat
  | .endAccept => v.accepting = true

def next (v : ManagerView) : (o : ManagerOp) → o.Res → ManagerView
  | .beginCount, n => { v with counting := true, seen := some n }
  | .endCount, _ => { v with counting := false }
  | .makePush msg, m => { v with message := some (m, msg) }
  | .copy kind _, r => { v with stage := some kind, listed := r }
  | .lockWeak k, true => { v with target := some (k, false) }
  | .lockWeak _, false => { v with listed := v.listed.tail }
  | .send k _, _ => { v with target := some (k, true), listed := v.listed.tail }
  | .releaseSession _, _ => { v with target := none }
  | .dropPush _, _ => { v with message := none }
  | .beginAccept, _ => { v with accepting := true, seen := none }
  | .newSession, _ => { v with seen := none }
  | .endAccept, _ => { v with accepting := false }
  | _, _ => v

end ManagerView

def managerDiscipline (cfg : ListenerConfig) : Discipline ManagerOp ManagerOp.Res ManagerView where
  pre := ManagerView.Allows cfg
  post := ManagerView.next

theorem sendAll_ok (cfg : ListenerConfig) {m : Nat} {b : BroadcastMsg} (r : Registry) {v : ManagerView}
    (hc : v.counting = false) (hm : v.message = some (m, b)) (hr : v.listed = r) (ht : v.target = none) :
    (managerDiscipline cfg).Ok (fun _ w => w.Free ∧ w.message = v.message ∧ w.stage = v.stage) v (Manager.sendAll m r) := by
  induction r generalizing v with
  | nil => exact ⟨⟨hc, hr, ht⟩, rfl, rfl⟩
  | cons e rest ih =>
    obtain ⟨id, k⟩ := e
    have hne : v.message ≠ none := by rw [hm]; simp
    refine ⟨⟨hne, ht, id, rest, hr⟩, fun locked => ?_⟩
    cases locked with
    | true =>
      refine ⟨⟨⟨b, hm⟩, rfl, id, rest, hr⟩, fun _ => ⟨rfl, fun _ => ?_⟩⟩
      exact ih (v := { v with target := none, listed := v.listed.tail }) hc hm (by rw [hr]; rfl) rfl
    | false => exact ih (v := { v with listed := v.listed.tail }) hc hm (by rw [hr]; rfl) ht

theorem countConnections_ok (cfg : ListenerConfig) {v : ManagerView} (hc : v.counting = false) (hm : v.message = none) :
    (managerDiscipline cfg).Ok (fun n w => w = { v with seen := some n }) v Manager.countConnections := by
  refine ⟨⟨hc, hm⟩, fun n => ⟨rfl, fun _ => ?_⟩⟩
  obtain ⟨_, _, _, _, _, _, _⟩ := v
  cases hc
  rfl

theorem broadcast_ok (cfg : ListenerConfig) (msg : BroadcastMsg) :
    (managerDiscipline cfg).Ok (fun _ _ => True) {} (Manager.broadcast msg) := by
  refine ⟨rfl, fun full => ?_⟩
  cases full with
  | true => exact trivial
  | false =>
    show (managerDiscipline cfg).Ok _ _ (Manager.countConnections >>= _)
    apply Discipline.Ok.bind (countConnections_ok cfg rfl rfl)
    intro n w hw
    subst hw
    by_cases hn : n = 0
    · rw [if_pos hn]
      exact trivial
    · rw [if_neg hn]
      refine ⟨⟨⟨rfl, rfl, rfl⟩, rfl, rfl⟩, fun m => ⟨⟨⟨rfl, rfl, rfl⟩, rfl⟩, fun _ =>
        ⟨⟨⟨rfl, rfl, rfl⟩, ⟨m, msg, rfl, rfl⟩, .inl ⟨rfl, rfl⟩⟩, fun plain => ?_⟩⟩⟩
      show (managerDiscipline cfg).Ok _ _ (Manager.sendAll m plain >>= _)
      apply Discipline.Ok.bind (sendAll_ok cfg (b := msg) plain rfl rfl rfl rfl)
      intro _ w hw
      obtain ⟨hfree, hmsg, hstage⟩ := hw
      refine ⟨⟨hfree, ⟨m, msg, hmsg, rfl⟩, .inr ⟨rfl, hstage⟩⟩, fun ssl => ?_⟩
      show (managerDiscipline cfg).Ok _ _ (Manager.sendAll m ssl >>= _)
      refine Discipline.Ok.bind (sendAll_ok cfg ssl (m := m) (b := msg) hfree.counting hmsg rfl hfree.target)
        fun _ w' hw' => ?_
      exact ⟨⟨hw'.1, msg, hw'.2.1.trans hmsg⟩, fun _ => trivial⟩

theorem onAccept_ok (cfg : ListenerConfig) : (managerDiscipline cfg).Ok (fun _ _ => True) {} (Manager.onAccept cfg) := by
  refine ⟨rfl, fun reject => ?_⟩
  cases reject with
  | true => exact ⟨rfl, fun _ => trivial⟩
  | false =>
    show (managerDiscipline cfg).Ok _ _ (Manager.countConnections >>= _)
    apply Discipline.Ok.bind (countConnections_ok cfg rfl rfl)
    intro n w hw
    subst hw
    by_cases hn : cfg.maxSessions.toNat ≤ n
    · rw [if_pos hn]
      exact ⟨rfl, fun _ => trivial⟩
    · rw [if_neg hn]
      cases hssl : cfg.sslCtx with
      | true => exact ⟨hssl, fun _ => ⟨rfl, fun _ => trivial⟩⟩
      | false => exact ⟨⟨hssl, rfl, n, rfl, Nat.lt_of_not_le hn⟩, fun _ => ⟨rfl, fun _ => trivial⟩⟩

theorem managerCall_ok (cfg : ListenerConfig) (c : ManagerCall) :
    (managerDiscipline cfg).Ok (fun _ _ => True) {} (c.body cfg) := by
  cases c with
  | connections =>
    exact Discipline.Ok.bind (countConnections_ok cfg rfl rfl) fun _ _ _ => trivial
  | broadcast msg => exact Discipline.Ok.bind (broadcast_ok cfg msg) fun _ _ _ => trivial
  | getSessionIds => exact ⟨trivial, fun _ => trivial⟩
  | onAccept => exact Discipline.Ok.bind (onAccept_ok cfg) fun _ _ _ => trivial

end Radrpc
