import Radrpc.Lib.Threads

/-!
# Progress

What the threads of a pool can still do, when no new calls come in.

* `reaches_of_measure` : the rule of variants, for any relation;
* `Machine.Drift` : the steps of the environment alone;
* `Machine.Leads` : some run without new calls leads to a pool with a property;
* `OneLock` : threads that hold and release a lock, and wait for nothing that only another thread can do, except for
  the lock;
* `OneLock.returns` : their calls can all return. First the holders of the lock release it, in any order, then one
  thread after the other runs to its end.
-/

namespace Conc
open Relation

/-- **The rule of variants.** A relation that lowers a measure until `D` holds leads to a state with `D`. -/
theorem reaches_of_measure {σ α : Type} [WellFoundedRelation α] {r : σ → σ → Prop} (f : σ → α) {I D : σ → Prop}
    (hstep : ∀ s, I s → ¬ D s → ∃ s', r s s' ∧ I s' ∧ WellFoundedRelation.rel (f s') (f s)) {s : σ} (hs : I s) :
    ∃ s', ReflTransGen r s s' ∧ I s' ∧ D s' := by
  revert hs
  refine (InvImage.wf f WellFoundedRelation.wf).induction
    (C := fun s => I s → ∃ s', ReflTransGen r s s' ∧ I s' ∧ D s') s fun s ih hs => ?_
  by_cases hd : D s
  · exact ⟨s, .refl, hs, hd⟩
  · obtain ⟨s₁, hr, hs₁, hlt⟩ := hstep s hs hd
    obtain ⟨s', hs', hi, hd'⟩ := ih s₁ hlt hs₁
    exact ⟨s', .head hr hs', hi, hd'⟩

/-- The calls of a pool, without their progress. -/
def Pool.call {σ Call Op : Type} {Res : Op → Type} {β : Type} (p : Pool σ Call Op Res β) (t : Nat) : Option Call :=
  (p.thread t).map Prod.fst

namespace Machine

variable {σ Call Op : Type} {Res : Op → Type} {β Inp Env : Type}

/-- No call starts, and the operations are performed with inputs that are `fine` for them. -/
def Quiet (fine : Op → Inp → Prop) (p : Pool σ Call Op Res β) : Act Call Inp Env → Prop
  | .call _ _ => False
  | .op t i => ∀ o, p.next t = some o → fine o i
  | .env _ => True

/-- The environment alone can move the shared state from `s` to `s'`. -/
def Drift (M : Machine σ Call Op Res β Inp Env) : σ → σ → Prop :=
  ReflTransGen fun s s' => ∃ e, M.env e s = some s'

/-- Some run without new calls leads from `p` to a pool with `P`. -/
def Leads (M : Machine σ Call Op Res β Inp Env) (fine : Op → Inp → Prop) (p : Pool σ Call Op Res β)
    (P : Pool σ Call Op Res β → Prop) : Prop :=
  ∃ as q, M.Steps (Quiet fine) p as q ∧ P q

variable {M : Machine σ Call Op Res β Inp Env} {fine : Op → Inp → Prop} {p q : Pool σ Call Op Res β}
  {P Q : Pool σ Call Op Res β → Prop}

theorem quiet_op {t : Nat} {c : Call} {o : Op} {k : Res o → Prog Op Res β} {i : Inp}
    (ht : p.thread t = some (c, .op o k)) (hi : fine o i) :
    Quiet fine p (.op t i : Act Call Inp Env) := fun o' ho' => by
  rw [next_of_thread ht] at ho'
  cases ho'
  exact hi

namespace Leads

theorem now (h : P p) : M.Leads fine p P := ⟨[], p, .nil p, h⟩

theorem trans (h : M.Leads fine p P) (h' : ∀ q, P q → M.Leads fine q Q) : M.Leads fine p Q := by
  obtain ⟨as, q, hq, hP⟩ := h
  obtain ⟨bs, q', hq', hQ⟩ := h' q hP
  exact ⟨as ++ bs, q', hq.trans hq', hQ⟩

theorem mono (h : M.Leads fine p P) (h' : ∀ q, P q → Q q) : M.Leads fine p Q := h.trans fun q hq => now (h' q hq)

theorem of_drift {s s' : σ} {th : Nat → Option (Call × Prog Op Res β)} (hd : M.Drift s s')
    (h : M.Leads fine ⟨s', th⟩ P) : M.Leads fine ⟨s, th⟩ P := by
  induction hd using ReflTransGen.head_induction_on with
  | refl => exact h
  | head he _ ih =>
    obtain ⟨e, he⟩ := he
    obtain ⟨as, q, hq, hP⟩ := ih
    exact ⟨.env e :: as, q, .cons trivial (by simp only [Machine.step, he, Option.map_some]) hq, hP⟩

theorem of_op {t : Nat} {c : Call} {o : Op} {k : Res o → Prog Op Res β} {i : Inp} {r : Res o} {s : σ}
    (ht : p.thread t = some (c, .op o k)) (hi : fine o i) (hex : M.exec t o i p.shared = some (r, s))
    (h : M.Leads fine ⟨s, Function.update p.thread t (some (c, k r))⟩ P) : M.Leads fine p P := by
  obtain ⟨as, q, hq, hP⟩ := h
  exact ⟨.op t i :: as, q, .cons (quiet_op ht hi) (by simp only [Machine.step, ht, hex, Option.map_some]) hq, hP⟩

theorem of_prog {t : Nat} {c : Call} {prog : Prog Op Res β} {o : Op} {k : Res o → Prog Op Res β} {i : Inp} {r : Res o}
    {s s' : σ} {th : Nat → Option (Call × Prog Op Res β)} (hprog : prog = .op o k) (hi : fine o i)
    (hex : M.exec t o i s = some (r, s')) (h : M.Leads fine ⟨s', Function.update th t (some (c, k r))⟩ P) :
    M.Leads fine ⟨s, Function.update th t (some (c, prog))⟩ P := by
  subst hprog
  refine of_op (Function.update_self ..) hi hex ?_
  rw [Function.update_idem]
  exact h

end Leads

theorem Steps.call {as : List (Act Call Inp Env)} (h : M.Steps (Quiet fine) p as q) (t : Nat) : q.call t = p.call t := by
  induction h with
  | nil p => rfl
  | @cons p p' q a as hG hs _ ih =>
    rw [ih]
    cases a with
    | call t' c => cases hG
    | op t' i =>
      obtain ⟨c, o, k, r, s, ht', -, rfl⟩ := step_op hs
      by_cases ht : t = t'
      · subst ht
        simp [Pool.call, ht']
      · simp [Pool.call, Function.update_of_ne ht]
    | env e =>
      obtain ⟨s, -, rfl⟩ := step_env hs
      rfl

theorem result_of_next {t : Nat} {c : Call} (hc : p.call t = some c) (hn : p.next t = none) :
    ∃ b, p.result t = some (c, b) := by
  obtain ⟨⟨c', prog⟩, ht, rfl⟩ := Option.map_eq_some_iff.mp hc
  cases prog with
  | ret b => exact ⟨b, by simp [Pool.result, ht, Prog.result]⟩
  | op o k => simp [Pool.next, ht, Prog.next] at hn

theorem Reach.threads {G : Pool σ Call Op Res β → Act Call Inp Env → Prop} {s₀ : σ} (hp : M.Reach G s₀ p) :
    ∃ ts : List Nat, ∀ t, p.thread t ≠ none → t ∈ ts := by
  induction hp with
  | start => exact ⟨[], fun t h => absurd rfl h⟩
  | @step p p' a _ _ hs ih =>
    obtain ⟨ts, hts⟩ := ih
    cases a with
    | call t c =>
      obtain ⟨-, rfl⟩ := step_call hs
      refine ⟨t :: ts, fun t' h => ?_⟩
      by_cases ht : t' = t
      · exact ht ▸ List.mem_cons_self
      · exact List.mem_cons_of_mem t (hts t' (by simpa [Function.update_of_ne ht] using h))
    | op t i =>
      obtain ⟨c, o, k, r, s, ht, -, rfl⟩ := step_op hs
      refine ⟨ts, fun t' h => hts t' fun hn => h ?_⟩
      have hne : t' ≠ t := by
        rintro rfl
        rw [ht] at hn
        cases hn
      simpa [Function.update_of_ne hne] using hn
    | env e =>
      obtain ⟨s, -, rfl⟩ := step_env hs
      exact ⟨ts, hts⟩

end Machine

/-! ## One lock -/

/-- The threads of a machine hold and release a lock: `Holds` says who does. In the pools with `I`, a thread that has
nothing to do does not hold it, only a thread itself changes whether it does, and a thread that holds it, or that finds
nobody holding it, can take its next step once the environment has moved on, with an input that is `fine`. -/
structure OneLock {σ Call Op : Type} {Res : Op → Type} {β Inp Env : Type} (M : Machine σ Call Op Res β Inp Env)
    (fine : Op → Inp → Prop) (I : Pool σ Call Op Res β → Prop) (Holds : σ → Nat → Prop) : Prop where
  keeps : ∀ p a p', I p → Machine.Quiet fine p a → M.step p a = some p' → I p'
  idle : ∀ p t, I p → p.next t = none → ¬ Holds p.shared t
  other : ∀ p t c o k i r s t', I p → p.thread t = some (c, .op o k) → M.exec t o i p.shared = some (r, s) → t' ≠ t →
    (Holds s t' ↔ Holds p.shared t')
  env : ∀ e s s' t, M.env e s = some s' → (Holds s' t ↔ Holds s t)
  enabled : ∀ p t c o k, I p → p.thread t = some (c, .op o k) →
    (Holds p.shared t ∨ ∀ t', ¬ Holds p.shared t') → ∃ s i r s', M.Drift p.shared s ∧ fine o i ∧ M.exec t o i s = some (r, s')

namespace OneLock

variable {σ Call Op : Type} {Res : Op → Type} {β Inp Env : Type} {M : Machine σ Call Op Res β Inp Env}
  {fine : Op → Inp → Prop} {I P : Pool σ Call Op Res β → Prop} {Holds : σ → Nat → Prop} {p : Pool σ Call Op Res β}

theorem drift (h : OneLock M fine I Holds) {s s' : σ} (hd : M.Drift s s') {th : Nat → Option (Call × Prog Op Res β)}
    (hp : I ⟨s, th⟩) : I ⟨s', th⟩ ∧ ∀ t, Holds s' t ↔ Holds s t := by
  induction hd with
  | refl => exact ⟨hp, fun _ => Iff.rfl⟩
  | tail _ he ih =>
    obtain ⟨e, he⟩ := he
    obtain ⟨hi, hh⟩ := ih
    refine ⟨h.keeps _ (.env e) _ hi trivial (by simp only [Machine.step, he, Option.map_some]), fun t => ?_⟩
    exact (h.env e _ _ t he).trans (hh t)

theorem advance (h : OneLock M fine I Holds) (hp : I p) {t : Nat} {c : Call} {o : Op} {k : Res o → Prog Op Res β}
    (ht : p.thread t = some (c, .op o k)) (hfree : Holds p.shared t ∨ ∀ t', ¬ Holds p.shared t')
    (hnext : ∀ r s, I ⟨s, Function.update p.thread t (some (c, k r))⟩ →
      (∀ t', t' ≠ t → (Holds s t' ↔ Holds p.shared t')) →
      M.Leads fine ⟨s, Function.update p.thread t (some (c, k r))⟩ P) : M.Leads fine p P := by
  obtain ⟨s, i, r, s', hd, hfine, hex⟩ := h.enabled p t c o k hp ht hfree
  obtain ⟨hi, hh⟩ := h.drift hd hp
  refine Machine.Leads.of_drift hd (.of_op (p := ⟨s, p.thread⟩) ht hfine hex (hnext r s' ?_ fun t' hne => ?_))
  · exact h.keeps ⟨s, p.thread⟩ (.op t i) _ hi (Machine.quiet_op ht hfine)
      (by simp only [Machine.step, ht, hex, Option.map_some])
  · exact (h.other ⟨s, p.thread⟩ t c o k i r s' t' hi ht hex hne).trans (hh t')

theorem release (h : OneLock M fine I Holds) {t : Nat} {c : Call} (prog : Prog Op Res β) (hp : I p)
    (ht : p.thread t = some (c, prog)) (hold : Holds p.shared t) :
    M.Leads fine p fun q => I q ∧ ¬ Holds q.shared t ∧ ∀ t', t' ≠ t → (Holds q.shared t' ↔ Holds p.shared t') := by
  induction prog generalizing p with
  | ret b => exact absurd hold (h.idle p t hp (by simp [Pool.next, ht, Prog.next]))
  | op o k ih =>
    refine h.advance hp ht (.inl hold) fun r s hi hother => ?_
    by_cases hs : Holds s t
    · refine (ih r hi (Function.update_self _ _ _) hs).mono fun q hq => ⟨hq.1, hq.2.1, fun t' hne => ?_⟩
      exact (hq.2.2 t' hne).trans (hother t' hne)
    · exact .now ⟨hi, hs, hother⟩

theorem finish (h : OneLock M fine I Holds) {t : Nat} {c : Call} (prog : Prog Op Res β) (hp : I p)
    (ht : p.thread t = some (c, prog)) (halone : ∀ t', Holds p.shared t' → t' = t) :
    M.Leads fine p fun q => I q ∧ (∀ t', ¬ Holds q.shared t') ∧ q.next t = none ∧
      ∀ t', t' ≠ t → q.thread t' = p.thread t' := by
  induction prog generalizing p with
  | ret b =>
    have hn : p.next t = none := by simp [Pool.next, ht, Prog.next]
    refine .now ⟨hp, fun t' hh => ?_, hn, fun _ _ => rfl⟩
    obtain rfl := halone t' hh
    exact h.idle p t' hp hn hh
  | op o k ih =>
    have hfree : Holds p.shared t ∨ ∀ t', ¬ Holds p.shared t' := by
      by_cases hold : Holds p.shared t
      · exact .inl hold
      · refine .inr fun t' hh => hold ?_
        obtain rfl := halone t' hh
        exact hh
    refine h.advance hp ht hfree fun r s hi hother => ?_
    have halone' : ∀ t', Holds s t' → t' = t := by
      intro t' hh
      by_contra hne
      exact hne (halone t' ((hother t' hne).mp hh))
    refine (ih r hi (Function.update_self _ _ _) halone').mono fun q hq => ⟨hq.1, hq.2.1, hq.2.2.1, fun t' hne => ?_⟩
    rw [hq.2.2.2 t' hne]
    exact Function.update_of_ne hne _ _

theorem releaseAll (h : OneLock M fine I Holds) (ts : List Nat) (hp : I p) (hts : ∀ t, Holds p.shared t → t ∈ ts) :
    M.Leads fine p fun q => I q ∧ ∀ t, ¬ Holds q.shared t := by
  induction ts generalizing p with
  | nil => exact .now ⟨hp, fun t hh => absurd (hts t hh) (by simp)⟩
  | cons t ts ih =>
    by_cases hold : Holds p.shared t
    · have hne : p.next t ≠ none := fun hn => h.idle p t hp hn hold
      obtain ⟨o, ho⟩ := Option.ne_none_iff_exists'.mp hne
      obtain ⟨c, k, ht⟩ := Machine.next_eq_some ho
      refine (h.release _ hp ht hold).trans fun q hq => ih hq.1 fun t' hh => ?_
      have htt : t' ≠ t := by
        rintro rfl
        exact hq.2.1 hh
      exact (List.mem_cons.mp (hts t' ((hq.2.2 t' htt).mp hh))).resolve_left htt
    · refine ih hp fun t' hh => (List.mem_cons.mp (hts t' hh)).resolve_left ?_
      rintro rfl
      exact hold hh

theorem finishAll (h : OneLock M fine I Holds) (ts : List Nat) (hp : I p) (hfree : ∀ t, ¬ Holds p.shared t)
    (hts : ∀ t, p.next t ≠ none → t ∈ ts) : M.Leads fine p fun q => I q ∧ ∀ t, q.next t = none := by
  induction ts generalizing p with
  | nil => exact .now ⟨hp, fun t => by_contra fun hn => absurd (hts t hn) (by simp)⟩
  | cons t ts ih =>
    cases hn : p.next t with
    | none =>
      refine ih hp hfree fun t' hn' => (List.mem_cons.mp (hts t' hn')).resolve_left ?_
      rintro rfl
      exact hn' hn
    | some o =>
      obtain ⟨c, k, ht⟩ := Machine.next_eq_some hn
      refine (h.finish _ hp ht fun t' hh => absurd hh (hfree t')).trans fun q hq => ih hq.1 hq.2.1 fun t' hn' => ?_
      have htt : t' ≠ t := by
        rintro rfl
        exact hn' hq.2.2.1
      have hsame : q.next t' = p.next t' := by rw [Pool.next, hq.2.2.2 t' htt, Pool.next]
      exact (List.mem_cons.mp (hts t' (hsame ▸ hn'))).resolve_left htt

/-- **No deadlock.** All calls that have been made can return. -/
theorem returns (h : OneLock M fine I Holds) {ts : List Nat} (hp : I p) (hts : ∀ t, p.thread t ≠ none → t ∈ ts) :
    M.Leads fine p fun q => ∀ t c, p.call t = some c → ∃ b, q.result t = some (c, b) := by
  have hstarted : ∀ {q : Pool σ Call Op Res β}, (∀ t, q.call t = p.call t) → ∀ t, q.next t ≠ none → t ∈ ts := by
    intro q hcall t hn
    refine hts t fun hnone => hn ?_
    have hc : q.call t = none := by rw [hcall t, Pool.call, hnone]; rfl
    rw [Pool.next, Option.map_eq_none_iff.mp hc]
    rfl
  have hholders : ∀ t, Holds p.shared t → t ∈ ts := fun t hh =>
    hstarted (fun _ => rfl) t fun hn => h.idle p t hp hn hh
  obtain ⟨as, q, hq, hi, hfree⟩ := h.releaseAll ts hp hholders
  obtain ⟨bs, q', hq', -, hdone⟩ := h.finishAll ts hi hfree (hstarted hq.call)
  refine ⟨as ++ bs, q', hq.trans hq', fun t c hc => Machine.result_of_next ?_ (hdone t)⟩
  rw [hq'.call, hq.call, hc]

end OneLock

end Conc
