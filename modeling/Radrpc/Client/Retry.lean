import Radrpc.Client.Owners
import Radrpc.Client.Delivered

/-!
# What `send_recv` returns

`client::send_recv` takes a session call without an error code for an answered one and stops trying.

* `awaitDiscipline`, `await_ok` : a call that is blocked on a row awaits it next;
* `Replies` : the runs in which no response is empty; `Undisturbed` : the runs in which a lost connection finds nobody
  blocked on a row of the table;
* `Conversing`, `Talking` : the ids and rows of every session of a client, and what its calls have got;
* `lost_connection` : along these runs a lost connection counts as a failed request;
* `lost_connection_unnoticed` : in other runs it does not.
-/

namespace Radrpc
open Std Conc

/-! ## Blocked calls -/

/-- The row on which a step has begun to wait: its session, its result id and the row itself. -/
def ClientOp.awaits : (o : ClientOp) → o.Res → Option (Nat × UInt64 × RowRef)
  | .sess k (.cache (.find id)), .blocked row => some (k, id, row)
  | _, _ => none

/-- A call that has begun to wait on a row does nothing else. -/
def awaitDiscipline : Discipline ClientOp ClientOp.Res (Option (Nat × UInt64 × RowRef)) where
  pre := fun v o => ∀ k id r, v = some (k, id, r) → o = .sess k (.cache (.await id r))
  post := fun _ o r => o.awaits r

/-- The calls on a session that wait for a response. -/
def SessCall.awaits : SessCall → Bool
  | .sendRecv _ _ _ => true
  | _ => false

def ClientOp.looksUp : ClientOp → Bool
  | .sess _ (.cache (.find _)) => true
  | _ => false

theorem ClientOp.awaits_eq_none {o : ClientOp} (h : o.looksUp = false) (r : o.Res) : o.awaits r = none := by
  unfold awaits
  split
  · cases h
  · rfl

namespace Await

theorem idle (o : ClientOp) : awaitDiscipline.pre none o := fun _ _ _ h => (by cases h)

theorem next_sessCall (v : ClientView) (o : ClientOp) (r : o.Res) :
    (v.next o r).call = v.call ∧ ((v.next o r).sess.call = v.sess.call ∨ (v.next o r).sess.call = v.call.sessCall) := by
  unfold ClientView.next
  split <;> first | exact ⟨rfl, .inl rfl⟩ | exact ⟨rfl, .inr rfl⟩

theorem ok_of_view {β : Type} {Q : β → ClientView → Prop} {v : ClientView} {p : ClientProg β}
    (h : clientDiscipline.Ok Q v p) (h1 : v.sess.call.awaits = false) (h2 : v.call.sessCall.awaits = false) :
    awaitDiscipline.Ok (fun _ w => w = none) none p := by
  induction p generalizing v with
  | ret b => exact rfl
  | op o k ih =>
    refine ⟨idle o, fun r => ?_⟩
    have hpre : v.Allows o := h.1
    have hlook : o.looksUp = false := by
      cases o with
      | sess k' o =>
        cases o with
        | cache o =>
          cases o with
          | find id =>
            obtain ⟨-, -, -, -, hpre⟩ := hpre
            generalize v.sess = sv at h1 hpre
            obtain ⟨call, phase⟩ := sv
            cases hpre
            cases h1
          | _ => rfl
        | _ => rfl
      | _ => rfl
    have hnone : awaitDiscipline.post none o r = none := ClientOp.awaits_eq_none hlook r
    rw [hnone]
    obtain ⟨hcall, hsess⟩ := next_sessCall v o r
    refine ih r (h.2 r) ?_ (hcall ▸ h2)
    rcases hsess with hsess | hsess
    · exact (congrArg SessCall.awaits hsess).trans h1
    · exact (congrArg SessCall.awaits hsess).trans h2

theorem connect_ok : awaitDiscipline.Ok (fun _ w => w = none) none Client.connect :=
  ok_of_view (Client.connect_ok (v := .first .connect) ⟨rfl, rfl, rfl⟩) rfl rfl

theorem disconnect_ok : awaitDiscipline.Ok (fun _ w => w = none) none Client.disconnect :=
  ok_of_view (Client.disconnect_ok (v := .first .disconnect) ⟨rfl, rfl, rfl⟩) rfl rfl

theorem onSession_ok (k : Nat) (responseTimeout : Time) (callId : UInt32) (body recv : Bytes) :
    awaitDiscipline.Ok (fun _ w => w = none) none (onSession k (Radrpc.sendRecv responseTimeout callId body recv)) := by
  refine ⟨idle _, fun id => ?_⟩
  by_cases hid : id = (0 : UInt64)
  · subst hid
    exact rfl
  · dsimp only [Prog.bind]
    rw [if_neg hid]
    refine ⟨idle _, fun callback => ⟨idle _, fun ready => ?_⟩⟩
    cases ready with
    | false => exact rfl
    | true =>
      refine ⟨idle _, fun found => ?_⟩
      cases found with
      | invalid => exact rfl
      | ready row => exact ⟨idle _, fun _ => rfl⟩
      | blocked row =>
        refine ⟨fun k' id' r' h => ?_, fun success => ⟨idle _, fun _ => rfl⟩⟩
        cases h
        rfl

theorem sendRecv_ok (responseTimeout : Time) (callId : UInt32) (body : Bytes) (n : Nat) (result : Bytes) :
    awaitDiscipline.Ok (fun _ w => w = none) none (Client.sendRecv responseTimeout callId body n result) := by
  induction n generalizing result with
  | zero => exact rfl
  | succ n ih =>
    refine ⟨idle _, fun _ => ⟨idle _, fun exit => ?_⟩⟩
    cases exit with
    | true => exact ⟨idle _, fun _ => rfl⟩
    | false =>
      refine ⟨idle _, fun session => ?_⟩
      cases session with
      | none =>
        refine ⟨idle _, fun _ => ?_⟩
        show awaitDiscipline.Ok _ none (Client.connect >>= _)
        apply Discipline.Ok.bind connect_ok
        intro _ w hw
        subst hw
        exact ih result
      | some k =>
        show awaitDiscipline.Ok _ none (onSession k (Radrpc.sendRecv responseTimeout callId body result) >>= _)
        apply Discipline.Ok.bind (onSession_ok k responseTimeout callId body result)
        intro r w hw
        subst hw
        obtain ⟨recv, ec, id⟩ := r
        refine ⟨idle _, fun _ => ⟨idle _, fun _ => ?_⟩⟩
        cases ec with
        | none => exact rfl
        | some _ =>
          show awaitDiscipline.Ok _ none (Client.disconnect >>= _)
          apply Discipline.Ok.bind disconnect_ok
          intro returned w hw
          subst hw
          cases returned with
          | false => exact rfl
          | true => exact ih recv

end Await

theorem await_ok (cfg : ClientConfig) (c : ClientCall) :
    awaitDiscipline.Ok (fun _ w => w = none) none (c.body cfg) := by
  cases c with
  | sendRecv callId body =>
    exact (Await.sendRecv_ok cfg.responseTimeout callId body cfg.attempts []).bind fun _ w hw => hw
  | _ => exact Await.ok_of_view (clientCall_ok cfg _) rfl rfl

/-! ## Sessions and the calls that use them -/

def seen (k : Nat) (views : Nat → Option ClientView) (t : Nat) : Option SessView :=
  (views t).bind fun v => if v.held = some k then some v.sess else none

theorem seen_of_held {k t : Nat} {views : Nat → Option ClientView} {v : ClientView} (hv : views t = some v)
    (hk : v.held = some k) : seen k views t = some v.sess := by
  simp [seen, hv, hk]

theorem seen_eq_some {k t : Nat} {views : Nat → Option ClientView} {sv : SessView} (h : seen k views t = some sv) :
    ∃ v, views t = some v ∧ v.held = some k ∧ v.sess = sv := by
  obtain ⟨v, hv, hs⟩ := Option.bind_eq_some_iff.mp h
  split at hs
  · rename_i hk
    exact ⟨v, hv, hk, Option.some.inj hs⟩
  · cases hs

theorem seen_update {k t t' : Nat} {views : Nat → Option ClientView} {w : ClientView} {sv : SessView}
    (h : seen k (Function.update views t (some w)) t' = some sv) :
    (t' = t ∧ w.held = some k ∧ w.sess = sv) ∨ (t' ≠ t ∧ seen k views t' = some sv) := by
  obtain ⟨v, hv, hk, hs⟩ := seen_eq_some h
  rcases view_of_update hv with ⟨rfl, rfl⟩ | ⟨hne, hv⟩
  · exact .inl ⟨rfl, hk, hs⟩
  · exact .inr ⟨hne, hs ▸ seen_of_held hv hk⟩

/-- The ids of a session have not gone round, and nobody can collect an empty response. -/
structure Conversing (s : ClientSession) (views : Nat → Option SessView) : Prop where
  bound : s.cache.allocated < 2 ^ 64
  numbered : Numbered s views
  rows : Rows (fun _ b => b ≠ []) s views

namespace Conversing

variable {s s' : ClientSession} {views views' : Nat → Option SessView}

theorem new (o : Words.ByteOrder) : Conversing { order := o } fun _ => none :=
  ⟨Nat.two_pow_pos 64, .start (.new _), .start fun id => by simp [DataCache.new]⟩

theorem congr (h : Conversing s views) (hv : ∀ t v, views' t = some v → views t = some v ∨ v.phase = .start) :
    Conversing s views' := by
  refine ⟨h.bound, h.numbered.views_congr fun t v hv' => ?_, h.rows.views_congr fun t v hv' => ?_⟩
  · exact (hv t v hv').imp_right fun hp => by rw [hp]; rfl
  · exact (hv t v hv').imp_right fun hp => by rw [hp]; rfl

theorem same (h : Conversing s views) (hc : s'.cache = s.cache) : Conversing s' views :=
  ⟨hc ▸ h.bound, h.numbered.env (hc ▸ h.numbered.cache) (by rw [hc]), h.rows.same hc fun _ _ hb => hb⟩

theorem exec (h : Conversing s views) {t : Nat} {o : SessOp} {i : Clock} {r : o.Res} {v : SessView}
    (hv : views t = some v) (hpre : v.phase.Allows v.call o) (hs : o.exec t i s = some (r, s'))
    (hlt : s'.cache.allocated < 2 ^ 64) :
    Conversing s' (Function.update views t (some { v with phase := v.phase.next o r })) :=
  ⟨hlt, h.numbered.exec hv hpre hs hlt, h.rows.exec h.numbered hv hpre hs hlt⟩

end Conversing

theorem SessOp.allocated_of_exec {t : Nat} {o : SessOp} {i : Clock} {r : o.Res} {s s' : ClientSession}
    (hs : o.exec t i s = some (r, s')) : s'.cache.allocated = s.cache.allocated ∨
      ((∃ valid, o = .cache (.queue valid)) ∧ s'.cache.allocated = s.cache.allocated + 1) := by
  cases o with
  | cache o =>
    obtain ⟨hc, -⟩ := exec_cache hs
    rw [CacheOp.eq_after hc]
    cases o with
    | queue valid =>
      by_cases hfull : s.cache.maxEntries ≤ s.cache.entries.size
      · exact .inl (by rw [CacheOp.after, DataCache.queue_full hfull])
      · exact .inr ⟨⟨valid, rfl⟩, by rw [CacheOp.after, DataCache.queue_open hfull]⟩
    | find id =>
      refine .inl ?_
      rw [CacheOp.after, DataCache.find]
      split
      · rfl
      · split <;> rfl
    | swapNotify id buffer => exact .inl (DataCache.swapNotify_allocated s.cache id buffer)
    | clear => exact .inl (DataCache.clear_allocated s.cache)
    | await id row => exact .inl rfl
    | take row buffer => exact .inl rfl
    | removeObsolete => exact .inl rfl
  | _ => exact .inl (by rw [exec_other (fun o' ho => by cases ho) hs])

/-! ## Runs -/

/-- Every response that a session receives has a body. -/
def Replies (p : ClientPool) : Act ClientCall Clock ClientEnv → Prop
  | .env (.session k (.onRead _ bytes)) =>
    p.shared.boundFuncs (IoHeader.read (p.shared.sessions k).sess.order
      ((p.shared.sessions k).sess.readBuffer ++ bytes)).callId = none →
      IoHeader.size ≤ ((p.shared.sessions k).sess.readBuffer ++ bytes).length →
        ((p.shared.sessions k).sess.readBuffer ++ bytes).drop IoHeader.size ≠ []
  | _ => True

/-- When a connection is lost, nobody is blocked on a row that is still in the table; and the result ids of a session
do not go round. -/
def Undisturbed (p : ClientPool) : Act ClientCall Clock ClientEnv → Prop
  | .env (.session k (.onRead ec _)) => (ec || (p.shared.sessions k).sess.closeReceived) = true → ∀ t id r,
      p.next t = some (.sess k (.cache (.await id r))) →
        ((p.shared.sessions k).sess.cache.rows r).state = .swapped ∨
          (p.shared.sessions k).sess.cache.entries[id]? ≠ some r
  | .op t _ => ∀ k valid, p.next t = some (.sess k (.cache (.queue valid))) →
      (p.shared.sessions k).sess.cache.allocated + 1 < 2 ^ 64
  | _ => True

/-- The view of a call: what it holds and knows, and the row it is blocked on. -/
abbrev RetryView := ClientView × Option (Nat × UInt64 × RowRef)

/-- Every session converses with the calls that use it, and nobody has got an empty response. -/
structure Talking (s : Client) (views : Nat → Option RetryView) : Prop where
  attended : Attended s (fstViews views)
  awaiting : ∀ t x k id r, views t = some x → x.1.held = some k → x.1.sess.phase = .blocked id r → x.2 = some (k, id, r)
  sessions : ∀ k, Conversing (s.sessions k).sess (seen k (fstViews views))
  got : ∀ t x b, views t = some x → x.1.got = some b → b ≠ []

theorem SessPhase.blocked_next {call : SessCall} {phase : SessPhase} {o : SessOp} {r : o.Res} {id : UInt64}
    {row : RowRef} (hpre : Allows call phase o) (h : phase.next o r = .blocked id row) (k : Nat) :
    (ClientOp.sess k o).awaits r = some (k, id, row) := by
  cases hpre with
  | queue callId body recv valid =>
    simp only [next] at h
    split at h <;> cases h
  | find callId body recv id' callback =>
    cases r with
    | blocked row' =>
      cases h
      rfl
    | _ => cases h
  | waitWritten id' callback => cases r <;> cases h
  | _ => cases h

theorem ClientView.blocked_next {v : ClientView} {o : ClientOp} {r : o.Res} {cfg : ClientConfig} {t : Nat} {i : Clock}
    {s s' : Client} {k : Nat} {id : UInt64} {row : RowRef} (hpre : v.Allows o) (hs : o.exec cfg t i s = some (r, s'))
    (hk : (v.next o r).held = some k) (hp : (v.next o r).sess.phase = .blocked id row) :
    o.awaits r = some (k, id, row) ∨
      (v.held = some k ∧ v.sess.phase = .blocked id row ∧ ∀ k' o', o ≠ .sess k' o') := by
  by_cases ho : o.touches = false
  · obtain ⟨-, hheld, hsess, -⟩ := ClientOp.exec_untouched (v := v) hs ho
    rw [hheld] at hk
    rw [hsess] at hp
    refine .inr ⟨hk, hp, fun k' o' he => ?_⟩
    rw [he] at ho
    cases ho
  cases o with
  | setExit => exact .inr ⟨hk, hp, fun _ _ he => (by cases he)⟩
  | postClose k' => exact .inr ⟨hk, hp, fun _ _ he => (by cases he)⟩
  | lockSession =>
    cases r with
    | none => exact .inr ⟨hk, hp, fun _ _ he => (by cases he)⟩
    | some k' => cases hp
  | releaseSession k' => cases hk
  | newSession => cases hp
  | sess k' o =>
    obtain rfl : k' = k := Option.some.inj (hpre.2.1.symm.trans hk)
    exact .inl (SessPhase.blocked_next hpre.2.2.2.2 hp k')
  | _ => exact absurd rfl ho

theorem ClientOp.exec_newSession {cfg : ClientConfig} {t : Nat} {i : Clock} {r : Nat} {s s' : Client}
    (hs : ClientOp.exec cfg t .newSession i s = some (r, s')) (k : Nat) : r = s.sessionCount ∧
      (s'.sessions k).sess = if k = s.sessionCount then { order := cfg.order } else (s.sessions k).sess := by
  cases hs
  refine ⟨rfl, ?_⟩
  by_cases hk : k = s.sessionCount
  · rw [if_pos hk, hk]
    exact congrArg SessObj.sess (Function.update_self (f := s.sessions) _ _)
  · rw [if_neg hk]
    exact congrArg SessObj.sess (Function.update_of_ne hk _ _)

namespace Talking

variable {s s' : Client} {views : Nat → Option RetryView} {cfg : ClientConfig}

theorem fst_of_view {t : Nat} {x : RetryView} (hx : views t = some x) : fstViews views t = some x.1 := by
  rw [fstViews, hx]
  rfl

theorem new (o : Words.ByteOrder) : Talking (.new o) fun _ => none := by
  refine ⟨.new o, fun _ _ _ _ _ h => (by cases h), fun k => ?_, fun _ _ _ h => (by cases h)⟩
  exact (Conversing.new o).congr fun t v hv => by cases hv

theorem call (h : Talking s views) {t : Nat} (ht : views t = none) (c : ClientCall) :
    Talking s (Function.update views t (some (.first c, none))) := by
  refine ⟨?_, fun t' x k id r hx hk => ?_, fun k => ?_, fun t' x b hx hb => ?_⟩
  · rw [fstViews_update]
    exact h.attended.call (by rw [fstViews, ht]; rfl) c
  · rcases view_of_update hx with ⟨-, rfl⟩ | ⟨-, hx⟩
    · cases hk
    · exact h.awaiting t' x k id r hx hk
  · rw [fstViews_update]
    apply (h.sessions k).congr
    intro t' v hv
    rcases seen_update hv with ⟨-, hk, -⟩ | ⟨-, hv⟩
    · cases hk
    · exact .inl hv
  · rcases view_of_update hx with ⟨-, rfl⟩ | ⟨-, hx⟩
    · cases hb
    · exact h.got t' x b hx hb

theorem sessions_exec (h : Talking s views) {t : Nat} {o : ClientOp} {i : Clock} {r : o.Res} {x : RetryView}
    (hx : views t = some x) (hpre : x.1.Allows o) (hs : o.exec cfg t i s = some (r, s'))
    (hq : ∀ k valid, o = .sess k (.cache (.queue valid)) → (s.sessions k).sess.cache.allocated + 1 < 2 ^ 64) (k : Nat) :
    Conversing (s'.sessions k).sess (seen k (Function.update (fstViews views) t (some (x.1.next o r)))) := by
  have hv := fst_of_view hx
  have hconv := h.sessions k
  have hkeep : ∀ {w : ClientView} {sess : ClientSession}, sess.cache = (s.sessions k).sess.cache →
      (w.held = some k → (x.1.held = some k ∧ w.sess = x.1.sess) ∨ w.sess.phase = .start) →
      Conversing sess (seen k (Function.update (fstViews views) t (some w))) := by
    intro w sess hc hw
    apply (hconv.same hc).congr
    intro t' sv hsv
    rcases seen_update hsv with ⟨rfl, hk, rfl⟩ | ⟨-, hsv⟩
    · rcases hw hk with ⟨hk', hs⟩ | hp
      · exact .inl (hs ▸ seen_of_held hv hk')
      · exact .inr hp
    · exact .inl hsv
  have hmod : ∀ k' f, (∀ y, (f y).sess.cache = y.sess.cache) →
      ((s.modify k' f).sessions k).sess.cache = (s.sessions k).sess.cache := by
    intro k' f hf
    rw [Client.sessions_modify]
    split
    · rename_i he
      rw [hf, he]
    · rfl
  by_cases ho : o.touches = false
  · obtain ⟨hu, hheld, hsess, -⟩ := ClientOp.exec_untouched (v := x.1) hs ho
    exact hkeep (by rw [hu.sess k]) fun hk => .inl ⟨hheld ▸ hk, hsess⟩
  cases o with
  | setExit =>
    cases hs
    exact hkeep rfl fun hk => .inl ⟨hk, rfl⟩
  | lockSession =>
    simp only [ClientOp.exec] at hs
    split at hs
    · cases hs
      exact hkeep rfl fun hk => .inl ⟨hk, rfl⟩
    · split at hs
      · cases hs
        exact hkeep (hmod _ _ fun _ => rfl) fun _ => .inr rfl
      · cases hs
        exact hkeep rfl fun hk => .inl ⟨hk, rfl⟩
  | releaseSession k' =>
    cases hs
    exact hkeep (hmod k' _ fun _ => rfl) fun hk => by cases hk
  | postClose k' =>
    cases hs
    exact hkeep (hmod k' _ fun _ => rfl) fun hk => .inl ⟨hk, rfl⟩
  | newSession =>
    obtain ⟨rfl, hsess⟩ := ClientOp.exec_newSession hs k
    rw [hsess]
    split
    · rename_i hk
      apply (Conversing.new cfg.order).congr
      intro t' sv hsv
      rcases seen_update hsv with ⟨-, -, rfl⟩ | ⟨-, hsv⟩
      · exact .inr rfl
      · obtain ⟨v, hv', hheld, -⟩ := seen_eq_some hsv
        have halive := (h.attended.retained t' v k hv' hheld).1
        rw [h.attended.alive.kept.unborn k hk.ge] at halive
        cases halive
    · rename_i hk
      exact hkeep rfl fun he => absurd (Option.some.inj he).symm hk
  | sess k' o =>
    obtain ⟨⟨r', sess⟩, hex, he⟩ := Option.map_eq_some_iff.mp hs
    cases he
    by_cases hk : k = k'
    · subst hk
      have hlt : sess.cache.allocated < 2 ^ 64 := by
        rcases SessOp.allocated_of_exec hex with ha | ⟨⟨valid, rfl⟩, ha⟩
        · exact ha ▸ hconv.bound
        · exact ha ▸ hq k valid rfl
      have hself : ((s.modify k fun y => { y with sess := sess }).sessions k).sess = sess := by
        rw [Client.sessions_modify, if_pos rfl]
      rw [hself]
      refine (hconv.exec (seen_of_held hv hpre.2.1) hpre.2.2.2.2 hex hlt).congr fun t' sv hsv => .inl ?_
      rcases seen_update hsv with ⟨rfl, -, rfl⟩ | ⟨hne, hsv⟩
      · exact Function.update_self _ _ _
      · rw [Function.update_of_ne hne]
        exact hsv
    · have hc : ((s.modify k' fun y => { y with sess := sess }).sessions k).sess = (s.sessions k).sess := by
        rw [Client.sessions_modify, if_neg hk]
      refine hkeep (congrArg ClientSession.cache hc) fun he => absurd ?_ hk
      exact Option.some.inj (he.symm.trans hpre.2.1)
  | _ => exact absurd rfl ho

theorem exec (h : Talking s views) {t : Nat} {o : ClientOp} {i : Clock} {r : o.Res} {x : RetryView}
    (hx : views t = some x) (hpre : x.1.Allows o) (hpre' : awaitDiscipline.pre x.2 o)
    (hs : o.exec cfg t i s = some (r, s'))
    (hq : ∀ k valid, o = .sess k (.cache (.queue valid)) → (s.sessions k).sess.cache.allocated + 1 < 2 ^ 64) :
    Talking s' (Function.update views t (some (x.1.next o r, o.awaits r))) := by
  refine ⟨?_, fun t' y k id row hy hk hp => ?_, fun k => ?_, fun t' y b hy hb => ?_⟩
  · rw [fstViews_update]
    exact h.attended.exec (fst_of_view hx) hpre hs
  · rcases view_of_update hy with ⟨-, rfl⟩ | ⟨-, hy⟩
    · rcases ClientView.blocked_next hpre hs hk hp with haw | ⟨hk', hp', hne⟩
      · exact haw
      · exact absurd (hpre' k id row (h.awaiting t x k id row hx hk' hp')) (hne _ _)
    · exact h.awaiting t' y k id row hy hk hp
  · rw [fstViews_update]
    exact h.sessions_exec hx hpre hs hq k
  · rcases view_of_update hy with ⟨-, rfl⟩ | ⟨-, hy⟩
    · by_cases ho : o.touches = false
      · have hgot := (ClientOp.exec_untouched (v := x.1) hs ho).2.2.2
        exact h.got t x b hx (hgot ▸ hb)
      cases o with
      | releaseSession k =>
        have hseen := seen_of_held (fst_of_view hx) hpre.2.1
        have hb' : x.1.sess.phase.got = some b := hb
        unfold SessPhase.got at hb'
        split at hb'
        · rename_i id row recv hphase
          cases hb'
          exact (h.sessions k).rows.answered t x.1.sess id row b hseen hphase
        · cases hb'
      | lockSession => cases r <;> exact h.got t x b hx hb
      | setExit => exact h.got t x b hx hb
      | sess k o => exact h.got t x b hx hb
      | newSession => exact h.got t x b hx hb
      | postClose k => exact h.got t x b hx hb
      | _ => exact absurd rfl ho
    · exact h.got t' y b hy hb

theorem env (h : Talking s views) {e : ClientEnv} (hs : s.step cfg e = some s')
    (hstep : ∀ k e' sess, e = .session k e' → (s.sessions k).sess.step s.boundFuncs e' = some sess →
      Conversing sess (seen k (fstViews views))) : Talking s' views := by
  refine ⟨h.attended.env hs, h.awaiting, fun k => ?_, h.got⟩
  have hmod : ∀ k' f, (k = k' → Conversing (f (s.sessions k)).sess (seen k (fstViews views))) →
      Conversing ((s.modify k' f).sessions k).sess (seen k (fstViews views)) := by
    intro k' f hf
    rw [Client.sessions_modify]
    split
    · rename_i hk
      subst hk
      exact hf rfl
    · exact h.sessions k
  cases Client.moves_of_step hs with
  | handled _ k' f hf =>
    refine hmod k' f fun _ => ?_
    rcases hf.sess (s.sessions k) with hsess | hsess
    · exact hsess ▸ h.sessions k
    · exact (h.sessions k).same (by rw [hsess]; rfl)
  | session k' e sess _ hsess =>
    apply hmod k' _
    intro hk
    subst hk
    exact hstep k e sess rfl hsess
  | dropPosted k' => exact hmod k' _ fun _ => (h.sessions k).same rfl
  | delete k' => exact hmod k' _ fun _ => h.sessions k
  | onSessionDelete k' => exact hmod k' (fun x => { x with life := .gone }) fun _ => h.sessions k
  | worker _ worker stopped => exact h.sessions k

end Talking

def Untroubled (p : ClientPool) (a : Act ClientCall Clock ClientEnv) : Prop := Replies p a ∧ Undisturbed p a

theorem talking_of_reach {cfg : ClientConfig} {p : ClientPool}
    (hp : (clientMachine cfg).Reach Untroubled (.new cfg.order) p) :
    ∃ views, Talking p.shared views ∧ Machine.Linked (clientDiscipline.prod awaitDiscipline)
      (fun _ c r x => (x.1.call = c ∧ x.1.Returns r) ∧ x.2 = none) p views := by
  refine Machine.sound (fun _ c => (.first c, none)) (.new cfg.order)
    (fun _ c => (clientCall_ok cfg c).prod (await_ok cfg c)) ?_ ?_ ?_ hp
  · exact fun p views t c _ _ hinv _ ht => hinv.call ht c
  · intro p views t i o x r s' _ _ hinv hG hthread hx hpre hex
    obtain ⟨c, q, hthread⟩ := hthread
    apply hinv.exec hx hpre.1 hpre.2 hex
    intro k valid ho
    subst ho
    exact hG.2 k valid (Machine.next_of_thread hthread)
  · intro p views e s' _ hl hinv hG he
    apply hinv.env he
    intro k e' sess hev hstep
    subst hev
    have hconv := hinv.sessions k
    have ha := (ClientSession.allocated_of_step hstep).1
    refine ⟨ha ▸ hconv.bound, hconv.numbered.step hstep hconv.bound,
      hconv.rows.step hconv.numbered hstep (fun _ _ hb => hb) ?_ ?_⟩
    · intro bytes hev _ hlen hf _ _
      subst hev
      exact hG.1 hf hlen
    · intro ec bytes hev hec t sv id r hsv hblocked
      subst hev
      obtain ⟨v, hv, hk, rfl⟩ := seen_eq_some hsv
      obtain ⟨x, hx, rfl⟩ := Option.map_eq_some_iff.mp hv
      have haw := hinv.awaiting t x k id r hx hk hblocked
      have hret : ∀ c b, ¬ ((x.1.call = c ∧ x.1.Returns b) ∧ x.2 = none) := fun c b hb => by
        rw [haw] at hb
        cases hb.2
      obtain ⟨o, ho, hpre⟩ := hl.pending hx hret
      rw [hpre.2 k id r haw] at ho
      exact hG.2 hec t id r ho

theorem answered_of_reach {cfg : ClientConfig} {p : ClientPool}
    (hp : (clientMachine cfg).Reach Untroubled (.new cfg.order) p) {t : Nat} {c : ClientCall} {result : Bytes}
    (hr : p.result t = some (c, .received result .answered)) : result ≠ [] := by
  obtain ⟨views, hinv, hl⟩ := talking_of_reach hp
  obtain ⟨x, hx, ⟨-, hret⟩, -⟩ := hl.ok (Machine.result_eq_some hr)
  exact hinv.got t x result hx (hret.2 rfl)

/-- **A lost connection counts as a failed request.** A session call of `send_recv` returns without an error code only
when `swap_notify` has delivered a response for its result id; and when every response has a body, `client::send_recv`
returns an empty buffer only when no attempt is left, when the client is exiting, or when it throws: in every run in
which no caller is blocked on a row of the table when its connection is lost, and, for the second part, the result ids
of no session go round. -/
theorem lost_connection (funcs : BroadcastFuncs) (responseTimeout : Time) (o : Words.ByteOrder) (cfg : ClientConfig) :
    (∀ p : SessPool, (sessionMachine funcs responseTimeout).Reach Unwaited (.established o) p →
      ∀ (t : Nat) (callId : UInt32) (body recv recv' : Bytes) (id : UInt64),
        p.result t = some (.sendRecv callId body recv, .received recv' none id) → id ∈ p.shared.delivered) ∧
    (∀ p : ClientPool, (clientMachine cfg).Reach Untroubled (.new cfg.order) p →
      ∀ (t : Nat) (c : ClientCall) (ending : Client.Ending), p.result t = some (c, .received [] ending) →
        ending = .exhausted ∨ ending = .exiting ∨ ending = .threw) := by
  refine ⟨fun p hp t callId body recv recv' id h => received_of_reach hp h, fun p hp t c ending h => ?_⟩
  cases ending with
  | answered => exact absurd rfl (answered_of_reach hp h)
  | exhausted => exact .inl rfl
  | exiting => exact .inr (.inl rfl)
  | threw => exact .inr (.inr rfl)

/-- `Unwaited`, as a test for two threads. -/
def unwaited (p : SessPool) : Act SessCall Clock ClientEvent → Bool
  | .env (.onRead ec _) => !(ec || p.shared.closeReceived) || (List.range 2).all fun t =>
    match p.next t with
    | some (.cache (.await id r)) =>
      decide ((p.shared.cache.rows r).state = .swapped ∨ p.shared.cache.entries[id]? ≠ some r)
    | _ => true
  | _ => true

theorem unwaited_sound (p : SessPool) (a : Act SessCall Clock ClientEvent) (hidle : ∀ t, 2 ≤ t → p.thread t = none)
    (h : unwaited p a = true) : Unwaited p a := by
  cases a with
  | call t c => trivial
  | op t i => trivial
  | env e =>
    cases e with
    | onRead ec bytes =>
      intro hec t id r hn
      have hlt : t < 2 := by
        by_contra hge
        simp [Pool.next, hidle t (Nat.le_of_not_lt hge)] at hn
      simp only [unwaited, hec, Bool.not_true, Bool.false_or, List.all_eq_true, List.mem_range] at h
      have ht := h t hlt
      simp only [hn, decide_eq_true_eq] at ht
      exact ht
    | _ => trivial

def replies (p : ClientPool) : Act ClientCall Clock ClientEnv → Bool
  | .env (.session k (.onRead _ bytes)) =>
    decide (((p.shared.sessions k).sess.readBuffer ++ bytes).length ≠ IoHeader.size)
  | _ => true

theorem replies_sound (p : ClientPool) (a : Act ClientCall Clock ClientEnv) (h : replies p a = true) : Replies p a := by
  cases a with
  | call t c => trivial
  | op t i => trivial
  | env e =>
    cases e with
    | session k e =>
      cases e with
      | onRead ec bytes =>
        intro _ hlen hnil
        have hne := of_decide_eq_true h
        exact hne (Nat.le_antisymm (List.drop_eq_nil_iff.mp hnil) hlen)
      | _ => trivial
    | _ => trivial

/-- `Undisturbed`, as a test for two threads. -/
def undisturbed (p : ClientPool) : Act ClientCall Clock ClientEnv → Bool
  | .env (.session k (.onRead ec _)) => !(ec || (p.shared.sessions k).sess.closeReceived) || (List.range 2).all fun t =>
    match p.next t with
    | some (.sess k' (.cache (.await id r))) => decide (k' ≠ k) ||
      decide (((p.shared.sessions k).sess.cache.rows r).state = .swapped ∨
        (p.shared.sessions k).sess.cache.entries[id]? ≠ some r)
    | _ => true
  | .op t _ =>
    match p.next t with
    | some (.sess k (.cache (.queue _))) => decide ((p.shared.sessions k).sess.cache.allocated + 1 < 2 ^ 64)
    | _ => true
  | _ => true

theorem undisturbed_sound (p : ClientPool) (a : Act ClientCall Clock ClientEnv) (hidle : ∀ t, 2 ≤ t → p.thread t = none)
    (h : undisturbed p a = true) : Undisturbed p a := by
  cases a with
  | call t c => trivial
  | op t i =>
    intro k valid hn
    simp only [undisturbed, hn, decide_eq_true_eq] at h
    exact h
  | env e =>
    cases e with
    | session k e =>
      cases e with
      | onRead ec bytes =>
        intro hec t id r hn
        have hlt : t < 2 := by
          by_contra hge
          simp [Pool.next, hidle t (Nat.le_of_not_lt hge)] at hn
        simp only [undisturbed, hec, Bool.not_true, Bool.false_or, List.all_eq_true, List.mem_range] at h
        have ht := h t hlt
        simp only [hn, ne_eq, not_true_eq_false, decide_false, Bool.false_or, decide_eq_true_eq] at ht
        exact ht
      | _ => trivial
    | _ => trivial

theorem untroubled_sound (p : ClientPool) (a : Act ClientCall Clock ClientEnv) (hidle : ∀ t, 2 ≤ t → p.thread t = none)
    (h : (replies p a && undisturbed p a) = true) : Untroubled p a :=
  ⟨replies_sound p a (Bool.and_eq_true_iff.mp h).1, undisturbed_sound p a hidle (Bool.and_eq_true_iff.mp h).2⟩

/-- The call 0 sends a request; the message is written, and the call blocks on its row. -/
def awaitingRun : List (Act SessCall Clock ClientEvent) :=
  [.call 0 (.sendRecv 7 [1] []), .op 0 {}, .op 0 {}, .env .runPosted, .env (.onWrite 0 false), .op 0 {}, .op 0 {},
    .env (.ioStep {})]

/-- The call 0 gets its response; then the connection is lost while the message of the call 1 is written and the call has not
begun to wait for its response. -/
def queuedRun : List (Act SessCall Clock ClientEvent) :=
  List.flatten [awaitingRun, [.env (.onRead false ((IoHeader.new 7 1).encode .little ++ [9]))],
    List.replicate 2 (.op 0 {}),
    [.env (.ioStep {}), .call 1 (.sendRecv 7 [2] []), .op 1 {}, .op 1 {}, .env .runPosted, .env (.onWrite 0 false),
      .env (.ioStep {}), .op 1 {}, .env (.onRead true []), .op 1 {}]]

/-- The call 1 sends a request on session 0, which loses its connection before the call waits for the response; the call
disconnects, and has no attempt left. -/
def exhaustedRun : List (Act ClientCall Clock ClientEnv) :=
  List.flatten [connectRun 0 0, [.op 0 {}],
    [.call 1 (.sendRecv 7 [1])], List.replicate 5 (.op 1 {}),
    [.env (.session 0 .runPosted), .env (.leave 0), .env (.session 0 (.onWrite 0 false)),
      .env (.session 0 (.ioStep {})), .env (.leave 0), .op 1 {}],
    [.env (.session 0 (.onRead true [])), .env (.leave 0)], List.replicate 8 (.op 1 {}),
    [.env (.session 0 .runPosted), .env (.leave 0), .env (.session 0 .onClose), .env (.leave 0)],
    List.replicate 2 (.op 1 {}), [.env (.delete 0), .env (.onSessionDelete 0)], List.replicate 2 (.op 1 {})]

theorem lost_connection_answered :
    (∃ p : SessPool, (sessionMachine (fun _ => none) 1000000000).Reach Unwaited (.established .little) p ∧
      p.result 1 = some (.sendRecv 7 [2] [], .received [] (some .timedOut) 2) ∧
      p.result 0 = some (.sendRecv 7 [1] [], .received [9] none 1) ∧ 1 ∈ p.shared.delivered) ∧
    (∃ (p : ClientPool) (ending : Client.Ending),
      (clientMachine plainConfig).Reach Untroubled (.new plainConfig.order) p ∧
      p.result 1 = some (.sendRecv 7 [1], .received [] ending) ∧
      (ending = .exhausted ∨ ending = .exiting ∨ ending = .threw)) := by
  have hrun : ((sessionMachine (fun _ => none) 1000000000).run unwaited (.initial (.established .little)) queuedRun).any
      (fun p => decide (p.result 1 = some (.sendRecv 7 [2] [], .received [] (some .timedOut) 2) ∧
        p.result 0 = some (.sendRecv 7 [1] [], .received [9] none 1))) = true := by
    decide +kernel
  have hrun' : ((clientMachine plainConfig).run (fun p a => replies p a && undisturbed p a)
      (.initial (.new plainConfig.order)) exhaustedRun).any
      (fun p => decide (p.result 1 = some (.sendRecv 7 [1], .received [] .exhausted))) = true := by
    decide +kernel
  obtain ⟨p, hp, hf⟩ := Machine.Reach.exists_of_run_within unwaited_sound _ (by decide) hrun
  obtain ⟨p', hp', hf'⟩ := Machine.Reach.exists_of_run_within untroubled_sound _ (by decide) hrun'
  obtain ⟨hr₁, hr⟩ := of_decide_eq_true hf
  have hr' := of_decide_eq_true hf'
  have hlost := lost_connection (fun _ => none) 1000000000 .little plainConfig
  exact ⟨⟨p, hp, hr₁, hr, hlost.1 p hp 0 7 [1] [] [9] 1 hr⟩, p', .exhausted, hp', hr', hlost.2 p' hp' 1 _ _ hr'⟩

/-- The call 1 sends a request on session 0 and blocks on its row; then the connection is lost. -/
def unnoticedRun : List (Act ClientCall Clock ClientEnv) :=
  List.flatten [connectRun 0 0, [.op 0 {}],
    [.call 1 (.sendRecv 7 [1])], List.replicate 5 (.op 1 {}),
    [.env (.session 0 .runPosted), .env (.leave 0), .env (.session 0 (.onWrite 0 false)),
      .env (.session 0 (.ioStep {})), .env (.leave 0)],
    List.replicate 2 (.op 1 {}),
    [.env (.session 0 (.onRead true []))], List.replicate 4 (.op 1 {})]

/-- A client that makes three attempts, over a plain stream. -/
def patientConfig : ClientConfig := ⟨.little, false, 3, 1000000000⟩

/-- A caller that is blocked when its connection is lost takes this for a response: the session call has no error
code, and `client::send_recv` returns an empty buffer although it has attempts left. -/
theorem lost_connection_unnoticed :
    (¬ ∀ (funcs : BroadcastFuncs) (responseTimeout : Time) (o : Words.ByteOrder) (p : SessPool),
      (sessionMachine funcs responseTimeout).Reach Machine.Free (.established o) p →
      ∀ (t : Nat) (callId : UInt32) (body recv recv' : Bytes) (id : UInt64),
        p.result t = some (.sendRecv callId body recv, .received recv' none id) → id ∈ p.shared.delivered) ∧
    (¬ ∀ (cfg : ClientConfig) (p : ClientPool), (clientMachine cfg).Reach Replies (.new cfg.order) p →
      ∀ (t : Nat) (c : ClientCall) (ending : Client.Ending), p.result t = some (c, .received [] ending) →
        ending = .exhausted ∨ ending = .exiting ∨ ending = .threw) := by
  refine ⟨fun h => ?_, fun h => ?_⟩
  · have hrun : ((sessionMachine (fun _ => none) 1000000000).run (fun _ _ => true) (.initial (.established .little))
        (List.flatten [awaitingRun, [.env (.onRead true [])], List.replicate 2 (.op 0 {})])).any
        (fun p => decide (p.result 0 = some (.sendRecv 7 [1] [], .received [] none 1)) &&
          decide (p.shared.delivered = [])) = true := by
      decide +kernel
    obtain ⟨p, hp, hf⟩ := Machine.Reach.exists_of_run (G := Machine.Free) (fun _ _ _ => trivial) _ hrun
    simp only [Bool.and_eq_true, decide_eq_true_eq] at hf
    have hmem := h _ _ _ p hp 0 7 [1] [] [] 1 hf.1
    rw [hf.2] at hmem
    cases hmem
  · have hrun : ((clientMachine patientConfig).run replies (.initial (.new patientConfig.order)) unnoticedRun).any
        (fun p => decide (p.result 1 = some (.sendRecv 7 [1], .received [] .answered))) = true := by
      decide +kernel
    obtain ⟨p, hp, hf⟩ := Machine.Reach.exists_of_run replies_sound unnoticedRun hrun
    rcases h _ p hp 1 _ _ (of_decide_eq_true hf) with he | he | he <;> cases he

end Radrpc
