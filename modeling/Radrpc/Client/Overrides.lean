import Radrpc.Client.Timeouts

/-!
# The timeouts that were set for a call

* `OverridesApply` : every wait of a thread uses the timeout that was set for its call, or the configured one;
* `Timeouts.Meets`, `UsedOnce` : where that is so; `Held`, `Due`, `Knows` : how the variables of a thread go with what was
  set;
* `overrides_apply` : it is so in every run whose steps meet that; `override_leaks` : and not in other runs.
-/

namespace Radrpc
open Conc

/-- Every wait uses the timeout that was set on the client for its call, or the configured one. -/
def OverridesApply (cfg : Nat → TimeoutConfig) (s : Timeouts) : Prop :=
  ∀ u ∈ s.uses, u.timeout = u.due.getD ((cfg u.client).timeout u.kind)

instance (cfg : Nat → TimeoutConfig) (s : Timeouts) : Decidable (OverridesApply cfg s) :=
  inferInstanceAs (Decidable (∀ u ∈ s.uses, u.timeout = u.due.getD ((cfg u.client).timeout u.kind)))

/-- A timeout that is set is neither zero nor the largest one, and no other client has one; a wait comes when no other
client has a timeout of its kind, and is the only one of a call for which one was set; and such a call does not return
before it has waited. -/
def Timeouts.Meets (s : Timeouts) : ThreadOp → Prop
  | .enter (.setTimeout kind client timeout) =>
    timeout ≠ .zero ∧ timeout ≠ .max ∧ ∀ e ∈ s.set kind, e.1 = client
  | .wait kind _ => s.set kind = [] ∧ (s.due kind ≠ none → s.waits kind = 0)
  | .leave => ∀ kind ∈ [.send, .response], s.due kind ≠ none → s.waits kind ≠ 0
  | _ => True

instance (s : Timeouts) : (o : ThreadOp) → Decidable (s.Meets o)
  | .enter (.setTimeout kind client timeout) =>
    inferInstanceAs (Decidable (timeout ≠ .zero ∧ timeout ≠ .max ∧ ∀ e ∈ s.set kind, e.1 = client))
  | .enter (.send _ _ _) | .enter (.sendRecv _ _ _) | .enter (.ping _) => isTrue trivial
  | .wait kind _ => inferInstanceAs (Decidable (s.set kind = [] ∧ (s.due kind ≠ none → s.waits kind = 0)))
  | .leave => inferInstanceAs (Decidable (∀ kind ∈ [.send, .response], s.due kind ≠ none → s.waits kind ≠ 0))
  | .timeout _ _ | .shared _ => isTrue trivial

def UsedOnce (p : ThreadPool) : Act (List ThreadCall) OpReplies Empty → Prop
  | .op t _ => ∀ o, p.next t = some o → (p.shared t).Meets o
  | _ => True

/-! ## The variables of a thread -/

/-- At most one client has a timeout, and the variable holds it. -/
def Held (s : Timeouts) (kind : TimeoutKind) : Prop :=
  (s.set kind = [] ∧ s.tls kind = .zero) ∨ ∃ k d, s.set kind = [(k, d)] ∧ s.tls kind = d ∧ d ≠ .zero

/-- During a call: the variable holds the timeout that was set for the call until it has waited. -/
structure Due (s : Timeouts) (kind : TimeoutKind) : Prop where
  none : s.due kind = none → Held s kind
  some : ∀ d, s.due kind = some d → d ≠ .zero ∧ s.set kind = [] ∧ s.tls kind = if s.waits kind = 0 then d else .zero

def ThreadPhase.Knows (s : Timeouts) : ThreadPhase → Prop
  | .outside | .set => ∀ kind, Held s kind
  | .setting kind d => (d ≠ .zero ∧ d ≠ .max ∧ ∃ k, s.set kind = [(k, d)]) ∧ ∀ kind' ≠ kind, Held s kind'
  | .inside c => s.client = c.client ∧ ∀ kind, Due s kind
  | .read c kind d => s.client = c.client ∧ (∀ kind', Due s kind') ∧ d = s.tls kind
  | .waited c kind =>
    s.client = c.client ∧ (∀ kind' ≠ kind, Due s kind') ∧ s.waits kind ≠ 0 ∧ s.set kind = [] ∧
      ∀ d, s.due kind = some d → d ≠ .zero

variable {cfg : Nat → TimeoutConfig} {s s' : Timeouts} {kind : TimeoutKind}

theorem Held.congr (h : Held s kind) (hset : s'.set kind = s.set kind) (htls : s'.tls kind = s.tls kind) :
    Held s' kind := by
  rw [Held, hset, htls]
  exact h

theorem Due.congr (h : Due s kind) (hset : s'.set kind = s.set kind) (htls : s'.tls kind = s.tls kind)
    (hdue : s'.due kind = s.due kind) (hwaits : s'.waits kind = s.waits kind) : Due s' kind := by
  refine ⟨fun hn => (h.none (hdue.symm.trans hn)).congr hset htls, fun d hd => ?_⟩
  rw [hset, htls, hwaits]
  exact h.some d (hdue.symm.trans hd)

theorem Due.held (h : Due s kind) (hwaited : s.due kind ≠ Option.none → s.waits kind ≠ 0) : Held s kind := by
  cases hd : s.due kind with
  | none => exact h.none hd
  | some d =>
    obtain ⟨-, hset, htls⟩ := h.some d hd
    rw [if_neg (hwaited (by rw [hd]; exact Option.some_ne_none d))] at htls
    exact .inl ⟨hset, htls⟩

theorem setOrGet_max (kind : TimeoutKind) (tls : ThreadLocal) : setOrGet kind .max tls = (tls kind, tls) := if_pos rfl

theorem setOrGet_of_ne {d : Duration} (h : d ≠ .max) (kind : TimeoutKind) (tls : ThreadLocal) :
    setOrGet kind d tls = (.zero, Function.update tls kind d) := if_neg h

theorem knows_enter_set {client : Nat} {d : Duration} (h : ∀ kind, Held s kind)
    (hm : s.Meets (.enter (.setTimeout kind client d))) :
    (ThreadPhase.setting kind d).Knows (s.enter (.setTimeout kind client d)) := by
  obtain ⟨hzero, hmax, honly⟩ := hm
  refine ⟨⟨hzero, hmax, client, ?_⟩, fun kind' hne => (h kind').congr ?_ rfl⟩
  · show Function.update s.set kind _ kind = _
    rw [Function.update_self, List.filter_eq_nil_iff.mpr]
    intro e he
    simpa using honly e he
  · exact Function.update_of_ne hne _ _

theorem knows_enter {c : ThreadCall} (h : ∀ kind, Held s kind) (hset : s'.set = fun kind =>
      if c.uses kind then (s.set kind).filter (·.1 ≠ c.client) else s.set kind) (htls : s'.tls = s.tls)
    (hclient : s'.client = c.client) (hdue : s'.due = fun kind =>
      if c.uses kind then (s.set kind).lookup c.client else none) (hwaits : s'.waits = fun _ => 0) :
    (ThreadPhase.inside c).Knows s' := by
  refine ⟨hclient, fun kind => ?_⟩
  have hset := congrFun hset kind
  have hdue := congrFun hdue kind
  have htls := congrFun htls kind
  cases hu : c.uses kind with
  | false =>
    rw [hu] at hset hdue
    exact ⟨fun _ => (h kind).congr hset htls, fun d hd => (by cases hdue.symm.trans hd)⟩
  | true =>
    rw [hu, if_pos rfl] at hset hdue
    rcases h kind with ⟨hnil, hzero⟩ | ⟨k, d, hone, hd, hne⟩
    · rw [hnil] at hset hdue
      refine ⟨fun _ => .inl ⟨hset, htls.trans hzero⟩, fun d hd => ?_⟩
      cases hdue.symm.trans hd
    · rw [hone] at hset hdue
      by_cases hk : k = c.client
      · subst hk
        have hdue : s'.due kind = some d := by simpa using hdue
        refine ⟨fun hn => (by cases hdue.symm.trans hn), fun e he => ?_⟩
        obtain rfl := Option.some.inj (hdue.symm.trans he)
        refine ⟨hne, by simpa using hset, ?_⟩
        rw [hwaits, if_pos rfl]
        exact htls.trans hd
      · have hdue : s'.due kind = none := by
          rw [hdue, List.lookup_cons, beq_false_of_ne (Ne.symm hk)]
          rfl
        refine ⟨fun _ => .inr ⟨k, d, by simpa [hk] using hset, htls.trans hd, hne⟩, fun e he => ?_⟩
        cases hdue.symm.trans he

theorem orDefault_of_due {default d : Duration} (h : Due s kind) (hd : d = s.tls kind) (hm : s.Meets (.wait kind d)) :
    Timed.orDefault default d = (s.due kind).getD default := by
  obtain ⟨hnil, hfirst⟩ := hm
  cases hdue : s.due kind with
  | none =>
    have hzero : s.tls kind = .zero := by
      rcases h.none hdue with ⟨-, hzero⟩ | ⟨k, e, hone, -⟩
      · exact hzero
      · cases hnil.symm.trans hone
    exact if_pos (hd.trans hzero)
  | some e =>
    obtain ⟨hne, -, htls⟩ := h.some e hdue
    rw [if_pos (hfirst (by rw [hdue]; exact Option.some_ne_none e))] at htls
    obtain rfl := hd.trans htls
    exact if_neg hne

theorem knows_exec {v : ThreadPhase} {o : ThreadOp} (replies : OpReplies) (h : v.Knows s) (hpre : v.Allows cfg o)
    (hm : s.Meets o) : (v.next o (o.exec replies s).1).Knows (o.exec replies s).2 ∧
      (OverridesApply cfg s → OverridesApply cfg (o.exec replies s).2) := by
  cases hpre with
  | enter c =>
    cases c with
    | setTimeout kind client d => exact ⟨knows_enter_set h hm, id⟩
    | send client callId body => exact ⟨knows_enter (c := .send client callId body) h rfl rfl rfl rfl rfl, id⟩
    | sendRecv client callId body => exact ⟨knows_enter (c := .sendRecv client callId body) h rfl rfl rfl rfl rfl, id⟩
    | ping client => exact ⟨knows_enter (c := .ping client) h rfl rfl rfl rfl rfl, id⟩
  | setTimeout kind d =>
    obtain ⟨⟨hzero, hmax, k, hone⟩, hothers⟩ := h
    refine ⟨fun kind' => ?_, id⟩
    simp only [ThreadOp.exec, setOrGet_of_ne hmax]
    by_cases hk : kind' = kind
    · subst hk
      exact .inr ⟨k, d, hone, Function.update_self _ _ _, hzero⟩
    · exact (hothers kind' hk).congr rfl (Function.update_of_ne hk _ _)
  | leaveSet => exact ⟨h, id⟩
  | inside c o => exact ⟨h, id⟩
  | read c kind d o => exact ⟨h, id⟩
  | waited c kind o => exact ⟨h, id⟩
  | get c kind =>
    simp only [ThreadOp.exec, setOrGet_max]
    exact ⟨⟨h.1, h.2, rfl⟩, id⟩
  | wait c kind d =>
    obtain ⟨hclient, hdue, hd⟩ := h
    refine ⟨⟨hclient, fun kind' hne => (hdue kind').congr rfl rfl rfl (Function.update_of_ne hne _ _), ?_, hm.1, fun e he =>
      ((hdue kind).some e he).1⟩, fun huses u hu => ?_⟩
    · show Function.update s.waits kind (s.waits kind + 1) kind ≠ 0
      rw [Function.update_self]
      exact Nat.succ_ne_zero _
    · rcases List.mem_append.mp hu with hu | hu
      · exact huses u hu
      · obtain rfl := List.mem_singleton.mp hu
        show Timed.orDefault ((cfg c.client).timeout kind) d = (s.due kind).getD ((cfg s.client).timeout kind)
        rw [hclient]
        exact orDefault_of_due (hdue kind) hd hm
  | clear c kind =>
    obtain ⟨hclient, hothers, hwaits, hnil, hne⟩ := h
    have hzero : Duration.zero ≠ Duration.max := by decide
    simp only [ThreadOp.exec, setOrGet_of_ne hzero]
    refine ⟨⟨hclient, fun kind' => ?_⟩, id⟩
    by_cases hk : kind' = kind
    · subst hk
      have hcleared : Function.update s.tls kind' Duration.zero kind' = .zero := Function.update_self _ _ _
      exact ⟨fun _ => .inl ⟨hnil, hcleared⟩, fun d hd => ⟨hne d hd, hnil, hcleared.trans (if_neg hwaits).symm⟩⟩
    · exact (hothers kind' hk).congr rfl (Function.update_of_ne hk _ _) rfl rfl
  | leave c => exact ⟨fun kind => (h.2 kind).held (hm kind (by cases kind <;> simp)), id⟩

/-! ## Runs -/

/-- The variables of all threads go with their phases. -/
def Overrides (cfg : Nat → TimeoutConfig) (s : Nat → Timeouts) (views : Nat → Option ThreadPhase) : Prop :=
  ∀ t, OverridesApply cfg (s t) ∧
    match views t with
    | none => ∀ kind, Held (s t) kind
    | some v => v.Knows (s t)

theorem Overrides.update {σ : Nat → Timeouts} {views : Nat → Option ThreadPhase} (h : Overrides cfg σ views) {t : Nat}
    {v : ThreadPhase} (hs : OverridesApply cfg s) (hv : v.Knows s) :
    Overrides cfg (Function.update σ t s) (Function.update views t (some v)) := by
  intro t'
  by_cases ht : t' = t
  · subst ht
    rw [Function.update_self, Function.update_self]
    exact ⟨hs, hv⟩
  · rw [Function.update_of_ne ht, Function.update_of_ne ht]
    exact h t'

/-- **Overrides.** In every run of any number of threads that make any calls on any clients, and whatever the outcome of
each call is: as long as the timeouts that are set are neither zero nor the largest one, no two clients of a thread have
one of the same kind, and every call for which one was set waits with it exactly once, every wait uses the timeout that
was set on its client for its call, and the configured one where none was. -/
theorem overrides_apply {p : ThreadPool} (hp : (threadMachine cfg).Reach UsedOnce (fun _ => {}) p) (t : Nat) :
    OverridesApply cfg (p.shared t) := by
  have hsound : ∃ views, Overrides cfg p.shared views ∧
      Machine.Linked (threadDiscipline cfg) (fun _ _ _ _ => True) p views := by
    refine Machine.sound (fun _ _ => .outside) (fun t => ⟨fun u hu => (by cases hu), fun kind => .inl ⟨rfl, rfl⟩⟩)
      (fun _ cs => (Timed.script_ok cfg cs).mono fun _ _ _ => trivial) (fun p views t cs _ _ h _ hv => ?_)
      (fun p views t replies o v r s' _ _ h hg hth hv hpre hs => ?_) (fun _ _ e => e.elim) hp
    · have hshared : Function.update p.shared t (p.shared t) = p.shared := Function.update_eq_self t p.shared
      obtain ⟨huses, hheld⟩ := h t
      rw [hv] at hheld
      exact hshared ▸ h.update huses hheld
    · obtain ⟨huses, hknows⟩ := h t
      rw [hv] at hknows
      obtain ⟨c, k, hth⟩ := hth
      obtain ⟨hr, rfl⟩ := Prod.mk.inj (Option.some.inj hs)
      subst hr
      obtain ⟨hknows, huses'⟩ := knows_exec replies hknows hpre (hg o (Machine.next_of_thread hth))
      exact h.update (huses' huses) hknows
  obtain ⟨views, h, -⟩ := hsound
  exact (h t).1

/-! ## Calls on connected clients -/

def usedOnce (p : ThreadPool) : Act (List ThreadCall) OpReplies Empty → Bool
  | .op t _ =>
    match p.next t with
    | some o => decide ((p.shared t).Meets o)
    | none => true
  | _ => true

theorem usedOnce_sound (p : ThreadPool) (a : Act (List ThreadCall) OpReplies Empty) (h : usedOnce p a = true) :
    UsedOnce p a := by
  cases a with
  | op t replies =>
    intro o ho
    simp only [usedOnce, ho] at h
    exact of_decide_eq_true h
  | call t cs => trivial
  | env e => exact e.elim

/-- A session that answers, and writes or does not. -/
def sessReply (written : Bool) : (o : SessOp) → o.Res
  | .cache (.queue _) => 1
  | .cache (.find _) => .ready 0
  | .cache (.await _ _) => true
  | .cache (.take _ buffer) => buffer
  | .cache (.swapNotify _ buffer) => buffer
  | .cache .removeObsolete => ()
  | .cache .clear => ()
  | .post _ _ _ => 0
  | .waitWritten _ => written
  | .postPing => ()
  | .resetPong => ()
  | .waitPong => true

/-- A client with the session `k`, or one that connects to it. -/
def reply (k : Nat) (written expired : Bool) : OpReplies
  | .readExit => false
  | .lockSession => some k
  | .sess _ o => sessReply written o
  | .testExpired => expired
  | .newSession => k
  | .beginRun _ => true
  | .waitRun _ => .established
  | .waitDestruction => true
  | .beginClose _ => .running
  | .waitPosted _ => true
  | .bindFunc _ _ => .bound
  | .readHandshake _ => []
  | .lockShared | .unlockShared | .lockExcl | .unlockExcl | .setExit | .releaseSession _ | .joinWorker | .joinAtExit
  | .assignWorker | .postClose _ | .restartIo | .finishIo | .setHandshake _ => ()

def seconds (n : Fin 10) : Duration := ⟨n.val * 1000000000, by omega, by omega⟩

/-- Clients with timeouts of a second, and one attempt. -/
def oneSecond : Nat → TimeoutConfig := fun _ => ⟨fun _ => seconds 1, 1⟩

/-- The first thread makes some calls, of which so many steps are made. -/
def callRun (cs : List ThreadCall) (n : Nat) (replies : OpReplies) : List (Act (List ThreadCall) OpReplies Empty) :=
  .call 0 cs :: List.replicate n (.op 0 replies)

/-- Timeouts are set for a call; the next call does not use them. -/
theorem overrides_apply_once : ∃ p : ThreadPool, (threadMachine oneSecond).Reach UsedOnce (fun _ => {}) p ∧
    (p.shared 0).uses.map TimeoutUse.timeout = [seconds 5, seconds 3, seconds 1] ∧
    OverridesApply oneSecond (p.shared 0) := by
  have hrun : ((threadMachine oneSecond).run usedOnce (.initial fun _ => {})
      (callRun [.setTimeout .send 0 (seconds 5), .setTimeout .response 0 (seconds 3), .sendRecv 0 7 [], .send 0 7 []] 31
        (reply 0 true false))).any
      (fun p => decide ((p.shared 0).uses.map TimeoutUse.timeout = [seconds 5, seconds 3, seconds 1])) = true := by
    decide +kernel
  obtain ⟨p, hp, hf⟩ := Machine.Reach.exists_of_run usedOnce_sound _ hrun
  exact ⟨p, hp, of_decide_eq_true hf, overrides_apply hp 0⟩

/-- A `send_recv` whose message is not written in time leaves its response timeout to the next `ping`; and a `send` uses
the timeout that was set on another client. -/
theorem override_leaks :
    (∃ p : ThreadPool, (threadMachine oneSecond).Reach Machine.Free (fun _ => {}) p ∧
      ¬ OverridesApply oneSecond (p.shared 0) ∧ ⟨.response, 0, none, seconds 5⟩ ∈ (p.shared 0).uses) ∧
    (∃ p : ThreadPool, (threadMachine oneSecond).Reach Machine.Free (fun _ => {}) p ∧
      ¬ OverridesApply oneSecond (p.shared 0) ∧ ⟨.send, 1, none, seconds 5⟩ ∈ (p.shared 0).uses) := by
  constructor
  · have hrun : ((threadMachine oneSecond).run (fun _ _ => true) (.initial fun _ => {})
        (callRun [.setTimeout .response 0 (seconds 5), .sendRecv 0 7 [], .ping 0] 25 (reply 0 false true) ++
          List.replicate 15 (.op 0 (reply 1 true true)))).any
        (fun p => decide (¬ OverridesApply oneSecond (p.shared 0)) &&
          decide (⟨.response, 0, none, seconds 5⟩ ∈ (p.shared 0).uses)) = true := by
      decide +kernel
    obtain ⟨p, hp, hf⟩ := Machine.Reach.exists_of_run (fun _ _ _ => trivial) _ hrun
    simp only [Bool.and_eq_true, decide_eq_true_eq] at hf
    exact ⟨p, hp, hf⟩
  · have hrun : ((threadMachine oneSecond).run (fun _ _ => true) (.initial fun _ => {})
        (callRun [.setTimeout .send 0 (seconds 5), .send 1 7 []] 10 (reply 0 true false))).any
        (fun p => decide (¬ OverridesApply oneSecond (p.shared 0)) &&
          decide (⟨.send, 1, none, seconds 5⟩ ∈ (p.shared 0).uses)) = true := by
      decide +kernel
    obtain ⟨p, hp, hf⟩ := Machine.Reach.exists_of_run (fun _ _ _ => trivial) _ hrun
    simp only [Bool.and_eq_true, decide_eq_true_eq] at hf
    exact ⟨p, hp, hf⟩

end Radrpc
