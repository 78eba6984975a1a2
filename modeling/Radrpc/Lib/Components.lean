import Radrpc.Lib.Progress

/-!
# The components of a system

The calls of a system work on different components. The calls on one of them, with everything else as its environment,
are a machine of its own.

* `Prog.embed` : a program of a component inside the system: operations and results are renamed;
* `Prog.Only` : all operations of a program satisfy a predicate;
* `Component` : how a machine is a component of another one;
* `Component.Sees.steps`, `Component.reach` : what a component sees of a run is a run of the component, and what it sees
  of a reachable pool is a reachable pool of the component;
* `Follows.result` : and its calls return what the calls of the system return;
* `Acts.leads` : what a call that is alone on a component can bring about, it can bring about inside the system.
-/

namespace Conc

namespace Prog

variable {Op Op' : Type} {Res : Op → Type} {Res' : Op' → Type} {β β' : Type}

/-- The same program inside a larger set of operations, with its result renamed. -/
def embed (f : Op → Op') (g : ∀ o, Res' (f o) → Res o) (j : β → β') : Prog Op Res β → Prog Op' Res' β'
  | .ret b => .ret (j b)
  | .op o k => .op (f o) fun r => (k (g o r)).embed f g j

/-- Every operation that the program can perform satisfies `P`. -/
def Only (P : Op → Prop) : Prog Op Res β → Prop
  | .ret _ => True
  | .op o k => P o ∧ ∀ r, (k r).Only P

theorem embed_only {f : Op → Op'} {g : ∀ o, Res' (f o) → Res o} {j : β → β'} {P : Op' → Prop} (hP : ∀ o, P (f o))
    (p : Prog Op Res β) : (p.embed f g j).Only P := by
  induction p with
  | ret b => trivial
  | op o k ih => exact ⟨hP o, fun r => ih (g o r)⟩

theorem lift_only {f : Op → Op'} {g : ∀ o, Res' (f o) → Res o} {P : Op' → Prop} (hP : ∀ o, P (f o))
    (p : Prog Op Res β) : (p.lift f g).Only P := by
  induction p with
  | ret b => trivial
  | op o k ih => exact ⟨hP o, fun r => ih (g o r)⟩

theorem Only.bind {α : Type} {P : Op → Prop} {p : Prog Op Res α} {f : α → Prog Op Res β} (hp : p.Only P)
    (hf : ∀ a, (f a).Only P) : (p >>= f).Only P := by
  induction p with
  | ret a => exact hf a
  | op o k ih => exact ⟨hp.1, fun r => ih r (hp.2 r)⟩

end Prog

theorem Discipline.Ok.of_only {Op : Type} {Res : Op → Type} {β V : Type} {D : Discipline Op Res V} {P : Op → Prop} {v : V}
    (hpre : ∀ o, P o → D.pre v o) (hpost : ∀ o r, P o → D.post v o r = v) {p : Prog Op Res β} (hp : p.Only P) :
    D.Ok (fun _ w => w = v) v p := by
  induction p with
  | ret b => rfl
  | op o k ih =>
    refine ⟨hpre o hp.1, fun r => ?_⟩
    rw [hpost o r hp.1]
    exact ih r (hp.2 r)

variable {σ Call Op : Type} {Res : Op → Type} {β Inp Env : Type} {σ' Call' Op' : Type} {Res' : Op' → Type}
  {β' Inp' Env' : Type}

/-- How a call of the system, and how far it has come, is seen from a component: it is not started, it is a call of the
component, or its operations are all foreign to the component. -/
inductive Follows (κ : Call' → Option Call) (f : Op → Op') (g : ∀ o, Res' (f o) → Res o) (j : β → β')
    (Foreign : Op' → Prop) : Option (Call' × Prog Op' Res' β') → Option (Call × Prog Op Res β) → Prop where
  | idle : Follows κ f g j Foreign none none
  | own {c' : Call'} {c : Call} (prog : Prog Op Res β) : κ c' = some c →
      Follows κ f g j Foreign (some (c', prog.embed f g j)) (some (c, prog))
  | foreign {c' : Call'} {prog : Prog Op' Res' β'} : κ c' = none → prog.Only Foreign →
      Follows κ f g j Foreign (some (c', prog)) none

namespace Follows

variable {κ : Call' → Option Call} {f : Op → Op'} {g : ∀ o, Res' (f o) → Res o} {j : β → β'} {Foreign : Op' → Prop}
  {p : Pool σ' Call' Op' Res' β'} {q : Pool σ Call Op Res β} {t : Nat}

theorem cases_some {c' : Call'} {prog' : Prog Op' Res' β'} {y : Option (Call × Prog Op Res β)}
    (h : Follows κ f g j Foreign (some (c', prog')) y) :
    (∃ c prog, κ c' = some c ∧ prog' = prog.embed f g j ∧ y = some (c, prog)) ∨
      (κ c' = none ∧ prog'.Only Foreign ∧ y = none) := by
  generalize hx : some (c', prog') = x at h
  cases h with
  | idle => cases hx
  | own prog hc =>
    cases hx
    exact .inl ⟨_, prog, hc, rfl, rfl⟩
  | foreign hc honly =>
    cases hx
    exact .inr ⟨hc, honly, rfl⟩

theorem result (h : Follows κ f g j Foreign (p.thread t) (q.thread t)) {c' : Call'} {c : Call} {b' : β'}
    (hc : κ c' = some c) (hr : p.result t = some (c', b')) : ∃ b, b' = j b ∧ q.result t = some (c, b) := by
  rw [Machine.result_eq_some hr] at h
  rcases h.cases_some with ⟨c₀, prog, hc₀, hprog, hq⟩ | ⟨hn, -, -⟩
  · rw [hc] at hc₀
    cases hc₀
    cases prog with
    | ret b =>
      cases hprog
      exact ⟨b, rfl, by simp [Pool.result, hq, Prog.result]⟩
    | op o k => cases hprog
  · rw [hc] at hn
    cases hn

theorem next (h : Follows κ f g j Foreign (p.thread t) (q.thread t)) {o : Op} (hn : q.next t = some o) :
    p.next t = some (f o) := by
  obtain ⟨c, k, hq⟩ := Machine.next_eq_some hn
  cases hp : p.thread t with
  | none =>
    rw [hp, hq] at h
    cases h
  | some x =>
    rw [hp] at h
    rcases h.cases_some with ⟨c₀, prog, -, hprog, hq'⟩ | ⟨-, -, hq'⟩
    · rw [hq] at hq'
      cases hq'
      simp [Pool.next, hp, hprog, Prog.embed, Prog.next]
    · rw [hq] at hq'
      cases hq'

end Follows

/-- A machine `M` that is a component of the machine `M'`: `π` is its part of the shared state, `κ` tells which calls are
its own, and these perform its operations. Whatever else happens is a step of its environment, or leaves it alone. -/
structure Component (M : Machine σ Call Op Res β Inp Env) (M' : Machine σ' Call' Op' Res' β' Inp' Env') where
  π : σ' → σ
  κ : Call' → Option Call
  f : Op → Op'
  g : ∀ o, Res' (f o) → Res o
  j : β → β'
  ι : Inp' → Inp
  Foreign : Op' → Prop
  body : ∀ c' c, κ c' = some c → M'.body c' = (M.body c).embed f g j
  other : ∀ c', κ c' = none → (M'.body c').Only Foreign
  exec : ∀ t o i s r s', M'.exec t (f o) i s = some (r, s') → M.exec t o (ι i) (π s) = some (g o r, π s')
  foreign : ∀ t o i s r s', Foreign o → M'.exec t o i s = some (r, s') → π s' = π s ∨ ∃ e, M.env e (π s) = some (π s')
  env : ∀ e s s', M'.env e s = some s' → π s' = π s ∨ ∃ e', M.env e' (π s) = some (π s')

namespace Component

variable {M : Machine σ Call Op Res β Inp Env} {M' : Machine σ' Call' Op' Res' β' Inp' Env'} (C : Component M M')
  {G : Pool σ Call Op Res β → Act Call Inp Env → Prop} {G' : Pool σ' Call' Op' Res' β' → Act Call' Inp' Env' → Prop}
  {s₀ : σ'}

/-- The pool `q` is what the component sees of the pool `p`. -/
structure Sees (p : Pool σ' Call' Op' Res' β') (q : Pool σ Call Op Res β) : Prop where
  shared : q.shared = C.π p.shared
  thread : ∀ t, Follows C.κ C.f C.g C.j C.Foreign (p.thread t) (q.thread t)

variable {C}

theorem Sees.update {p : Pool σ' Call' Op' Res' β'} {q : Pool σ Call Op Res β} (h : C.Sees p q) {s' : σ'} {t : Nat}
    {x : Option (Call' × Prog Op' Res' β')} {y : Option (Call × Prog Op Res β)}
    (hx : Follows C.κ C.f C.g C.j C.Foreign x y) :
    C.Sees ⟨s', Function.update p.thread t x⟩ ⟨C.π s', Function.update q.thread t y⟩ := by
  refine ⟨rfl, fun t' => ?_⟩
  by_cases ht : t' = t
  · subst ht
    simpa using hx
  · simpa [Function.update_of_ne ht] using h.thread t'

theorem Sees.outside {p : Pool σ' Call' Op' Res' β'} {q : Pool σ Call Op Res β} (h : C.Sees p q)
    (henvG : ∀ q e, G q (.env e)) {p' : Pool σ' Call' Op' Res' β'}
    (hs : C.π p'.shared = C.π p.shared ∨ ∃ e, M.env e (C.π p.shared) = some (C.π p'.shared))
    (hth : ∀ t, Follows C.κ C.f C.g C.j C.Foreign (p'.thread t) (q.thread t)) :
    ∃ as q', M.Steps G q as q' ∧ C.Sees p' q' := by
  rcases hs with hsame | ⟨e, he⟩
  · exact ⟨[], q, .nil q, h.shared.trans hsame.symm, hth⟩
  · rw [← h.shared] at he
    exact ⟨[.env e], { q with shared := C.π p'.shared },
      .cons (henvG q e) (by simp only [Machine.step, he, Option.map_some]) (.nil _), rfl, hth⟩

theorem Sees.step (hcallG : ∀ q t c, G q (.call t c)) (henvG : ∀ q e, G q (.env e))
    (hopG : ∀ p q t i, C.Sees p q → G' p (.op t i) → G q (.op t (C.ι i))) {p p' : Pool σ' Call' Op' Res' β'}
    {q : Pool σ Call Op Res β} {a : Act Call' Inp' Env'} (h : C.Sees p q) (hg : G' p a) (hs : M'.step p a = some p') :
    ∃ as q', M.Steps G q as q' ∧ C.Sees p' q' := by
  cases a with
  | call t c' =>
    obtain ⟨ht, rfl⟩ := Machine.step_call hs
    have htq : q.thread t = none := by
      have hfol := h.thread t
      rw [ht] at hfol
      generalize q.thread t = y at hfol
      cases hfol
      rfl
    cases hc : C.κ c' with
    | none =>
      refine ⟨[], q, .nil q, h.shared, fun t' => ?_⟩
      by_cases htt : t' = t
      · subst htt
        rw [htq]
        simpa using Follows.foreign (β := β) hc (C.other c' hc)
      · simpa [Function.update_of_ne htt] using h.thread t'
    | some c =>
      refine ⟨[.call t c], { q with thread := Function.update q.thread t (some (c, M.body c)) },
        .cons (hcallG q t c) (by simp only [Machine.step, htq]) (.nil _), h.shared, fun t' => ?_⟩
      by_cases htt : t' = t
      · subst htt
        simp only [Function.update_self, C.body c' c hc]
        exact .own _ hc
      · simpa [Function.update_of_ne htt] using h.thread t'
  | op t i =>
    obtain ⟨c', o', k', r, s, ht, hex, rfl⟩ := Machine.step_op hs
    have hfol := h.thread t
    rw [ht] at hfol
    rcases hfol.cases_some with ⟨c, prog, hc, hprog, hy⟩ | ⟨hc, honly, hy⟩
    · cases prog with
      | ret b => cases hprog
      | op o k =>
        cases hprog
        have hexq := C.exec t o i p.shared r s hex
        rw [← h.shared] at hexq
        refine ⟨[.op t (C.ι i)], ⟨C.π s, Function.update q.thread t (some (c, k (C.g o r)))⟩,
          .cons (hopG p q t i h hg) ?_ (.nil _), h.update (.own (k (C.g o r)) hc)⟩
        simp only [Machine.step, hy, hexq, Option.map_some]
    · refine h.outside henvG (C.foreign t o' i p.shared r s honly.1 hex) fun t' => ?_
      by_cases htt : t' = t
      · subst htt
        rw [hy]
        simpa using Follows.foreign (β := β) hc (honly.2 r)
      · simpa [Function.update_of_ne htt] using h.thread t'
  | env e =>
    obtain ⟨s, he, rfl⟩ := Machine.step_env hs
    exact h.outside henvG (C.env e p.shared s he) h.thread

theorem Sees.steps (hcallG : ∀ q t c, G q (.call t c)) (henvG : ∀ q e, G q (.env e))
    (hopG : ∀ p q t i, C.Sees p q → G' p (.op t i) → G q (.op t (C.ι i))) {p p' : Pool σ' Call' Op' Res' β'}
    {q : Pool σ Call Op Res β} {as' : List (Act Call' Inp' Env')} (h : C.Sees p q) (hs : M'.Steps G' p as' p') :
    ∃ as q', M.Steps G q as q' ∧ C.Sees p' q' := by
  induction hs generalizing q with
  | nil p => exact ⟨[], q, .nil q, h⟩
  | cons hg hstep _ ih =>
    obtain ⟨as, q₁, hq₁, h₁⟩ := h.step hcallG henvG hopG hg hstep
    obtain ⟨bs, q₂, hq₂, h₂⟩ := ih h₁
    exact ⟨as ++ bs, q₂, hq₁.trans hq₂, h₂⟩

/-- **The components of a system.** What a component sees of a reachable pool is a reachable pool of the component. -/
theorem reach (C : Component M M') (hcallG : ∀ q t c, G q (.call t c)) (henvG : ∀ q e, G q (.env e))
    (hopG : ∀ p q t i, C.Sees p q → G' p (.op t i) → G q (.op t (C.ι i))) {p : Pool σ' Call' Op' Res' β'}
    (hp : M'.Reach G' s₀ p) : ∃ q, M.Reach G (C.π s₀) q ∧ C.Sees p q := by
  induction hp with
  | start => exact ⟨.initial (C.π s₀), .start, rfl, fun _ => .idle⟩
  | step _ hg hs ih =>
    obtain ⟨q, hq, hsees⟩ := ih
    obtain ⟨as, q', hq', hsees'⟩ := hsees.step hcallG henvG hopG hg hs
    exact ⟨q', hq.of_steps hq', hsees'⟩

end Component

/-! ## A call of a component inside the system -/

/-- The operations and the environment of the machine `M` are possible inside the machine `M'`, as long as `K` holds,
and keep it: what the machine `M` can do, `M'` can do, with `π` as its part of the shared state. -/
structure Acts (M : Machine σ Call Op Res β Inp Env) (M' : Machine σ' Call' Op' Res' β' Inp' Env') (π : σ' → σ)
    (f : Op → Op') (g : ∀ o, Res' (f o) → Res o) (fine : Op → Inp → Prop) (fine' : Op' → Inp' → Prop) (K : σ' → Prop) :
    Prop where
  exec : ∀ t o i s' r s, K s' → fine o i → M.exec t o i (π s') = some (r, s) →
    ∃ i' r' s'', fine' (f o) i' ∧ M'.exec t (f o) i' s' = some (r', s'') ∧ g o r' = r ∧ π s'' = s ∧ K s''
  env : ∀ e s' s, K s' → M.env e (π s') = some s → ∃ e' s'', M'.env e' s' = some s'' ∧ π s'' = s ∧ K s''

/-- What a call that is alone on the component can bring about, the same call can bring about inside the system, and the
other calls stay where they are. -/
theorem Acts.leads {M : Machine σ Call Op Res β Inp Env} {M' : Machine σ' Call' Op' Res' β' Inp' Env'} {π : σ' → σ}
    {f : Op → Op'} {g : ∀ o, Res' (f o) → Res o} {fine : Op → Inp → Prop} {fine' : Op' → Inp' → Prop} {K : σ' → Prop}
    (hacts : Acts M M' π f g fine fine' K) {P : Pool σ Call Op Res β → Prop} {j : β → β'} {t : Nat} {c : Call}
    {c' : Call'} {prog : Prog Op Res β} {s' : σ'} {th : Nat → Option (Call' × Prog Op' Res' β')} (hK : K s')
    (h : M.Leads fine ⟨π s', Function.update (fun _ => none) t (some (c, prog))⟩ P) :
    M'.Leads fine' ⟨s', Function.update th t (some (c', prog.embed f g j))⟩ fun p => K p.shared ∧
      ∃ prog', P ⟨π p.shared, Function.update (fun _ => none) t (some (c, prog'))⟩ ∧
        p.thread = Function.update th t (some (c', prog'.embed f g j)) := by
  obtain ⟨as, q, hs, hP⟩ := h
  generalize hp : (⟨π s', Function.update (fun _ => none) t (some (c, prog))⟩ : Pool σ Call Op Res β) = p at hs
  induction hs generalizing s' prog with
  | nil p =>
    subst hp
    exact .now ⟨hK, prog, hP, rfl⟩
  | @cons p p₁ q a as hG hstep _ ih =>
    subst hp
    cases a with
    | call t' c => cases hG
    | op t' i =>
      obtain ⟨c₁, o, k, r, s, ht, hex, rfl⟩ := Machine.step_op hstep
      by_cases htt : t' = t
      · subst htt
        simp only [Function.update_self] at ht
        cases ht
        have hnext : (⟨π s', Function.update (fun _ => none) t' (some (c, .op o k))⟩ : Pool σ Call Op Res β).next t' =
            some o := by
          simp [Pool.next, Prog.next]
        obtain ⟨i', r', s'', hi', hex', rfl, rfl, hK'⟩ := hacts.exec _ _ _ _ _ _ hK (hG o hnext) hex
        refine .of_prog rfl hi' hex' ?_
        exact ih hK' hP (by rw [Function.update_idem])
      · -- no other call has been made on the component
        simp only [Function.update_of_ne htt] at ht
        cases ht
    | env e =>
      obtain ⟨s, he, rfl⟩ := Machine.step_env hstep
      obtain ⟨e', s'', he', rfl, hK'⟩ := hacts.env _ _ _ hK he
      exact .of_drift (Relation.ReflTransGen.single ⟨e', he'⟩) (ih hK' hP rfl)

end Conc
