import Mathlib

/-!
# Threads over a shared state

* `Prog Op Res β` : a sequential program whose effects are atomic operations `Op`; `Prog.bind`, `Prog.lift`
  (the same program inside a larger set of operations);
* `Machine` : what an atomic operation, and a step of the environment, does to the shared state;
* `Pool`, `Machine.step`, `Machine.run` : any number of calls, each on a thread of its own, interleaved with the
  environment. An operation that has to wait is an operation whose step is not enabled;
* `Machine.Reach G s₀` : the pools reached from `s₀` by steps that all meet the guard `G`; `Machine.Steps G` : the runs
  from one pool to another; `Machine.returns` : what the calls of a run return; `Machine.Reach.exists_of_run`,
  `Machine.Reach.exists_of_run_within` : a run that passes a test of its steps;
* `Machine.Reach.project` : a part of the shared state runs by itself; `Machine.Reach.forget` : also where its programs
  are part of larger ones;
* `Machine.invariant` : induction over a run for a property of the shared state;
* `Discipline` : what a thread is allowed to do next, as a view that its own operations advance;
  `Discipline.Ok.bind` composes programs, `Discipline.prod` puts two disciplines side by side, and `Machine.sound`
  turns disciplined programs and an invariant that links the views with the shared state into a fact about every
  reachable pool.
-/

namespace Conc

/-- A sequential program over the atomic operations `Op` with results `Res`. -/
inductive Prog (Op : Type) (Res : Op → Type) (β : Type) : Type where
  | ret (b : β)
  | op (o : Op) (k : Res o → Prog Op Res β)

namespace Prog

variable {Op Op' : Type} {Res : Op → Type} {Res' : Op' → Type} {α β : Type}

def bind : Prog Op Res α → (α → Prog Op Res β) → Prog Op Res β
  | .ret a, f => f a
  | .op o k, f => .op o fun r => (k r).bind f

instance : Monad (Prog Op Res) where
  pure := .ret
  bind := bind

def perform (o : Op) : Prog Op Res (Res o) := .op o .ret

/-- The same program over a larger set of operations. -/
def lift (f : Op → Op') (g : ∀ o, Res' (f o) → Res o) : Prog Op Res β → Prog Op' Res' β
  | .ret b => .ret b
  | .op o k => .op (f o) fun r => (k (g o r)).lift f g

def next : Prog Op Res β → Option Op
  | .ret _ => none
  | .op o _ => some o

def result : Prog Op Res β → Option β
  | .ret b => some b
  | .op _ _ => none

/-- What a program may still return. -/
inductive Returns : Prog Op Res β → β → Prop where
  | ret (b : β) : Returns (.ret b) b
  | op {o : Op} {k : Res o → Prog Op Res β} {b : β} (r : Res o) : Returns (k r) b → Returns (.op o k) b

@[simp] theorem pure_eq (a : α) : (pure a : Prog Op Res α) = .ret a := rfl

theorem bind_ret (p : Prog Op Res α) : (p >>= .ret) = p := by
  induction p with
  | ret a => rfl
  | op o k ih => exact congrArg (Prog.op o) (funext ih)

theorem lift_bind (f : Op → Op') (g : ∀ o, Res' (f o) → Res o) (p : Prog Op Res α) (h : α → Prog Op Res β) :
    (p >>= h).lift f g = p.lift f g >>= fun a => (h a).lift f g := by
  induction p with
  | ret a => rfl
  | op o k ih => exact congrArg (Prog.op (f o)) (funext fun r => ih (g o r))

end Prog

/-- The shared state, and the calls made so far: `none` for a thread that has not been started. -/
structure Pool (σ Call Op : Type) (Res : Op → Type) (β : Type) where
  shared : σ
  thread : Nat → Option (Call × Prog Op Res β)

/-- The pool in which no call has been made. -/
def Pool.initial {σ Call Op : Type} {Res : Op → Type} {β : Type} (s₀ : σ) : Pool σ Call Op Res β :=
  ⟨s₀, fun _ => none⟩

/-- The operation thread `t` performs next: `none` when it has not been started or has returned. -/
def Pool.next {σ Call Op : Type} {Res : Op → Type} {β : Type} (p : Pool σ Call Op Res β) (t : Nat) : Option Op :=
  (p.thread t).bind fun q => q.2.next

/-- What the call of thread `t` has returned. -/
def Pool.result {σ Call Op : Type} {Res : Op → Type} {β : Type} (p : Pool σ Call Op Res β) (t : Nat) :
    Option (Call × β) :=
  (p.thread t).bind fun q => q.2.result.map fun b => (q.1, b)

/-- One step of a run: a call starts on a fresh thread, a thread performs its next operation, or the environment
moves. The input `i` is what the environment decides during an operation. -/
inductive Act (Call Inp Env : Type) where
  | call (t : Nat) (c : Call)
  | op (t : Nat) (i : Inp)
  | env (e : Env)

def Act.starts {Call Inp Env : Type} : Act Call Inp Env → Option Nat
  | .call t _ => some t
  | _ => none

/-- The atomic operations (performed by thread number `t`) and the environment of a shared state `σ`, and the
program of each call. `none` is a step that is not enabled. -/
structure Machine (σ Call Op : Type) (Res : Op → Type) (β Inp Env : Type) where
  body : Call → Prog Op Res β
  exec : Nat → (o : Op) → Inp → σ → Option (Res o × σ)
  env : Env → σ → Option σ

namespace Machine

variable {σ Call Op : Type} {Res : Op → Type} {β Inp Env : Type}

def step (M : Machine σ Call Op Res β Inp Env) (p : Pool σ Call Op Res β) :
    Act Call Inp Env → Option (Pool σ Call Op Res β)
  | .call t c =>
    match p.thread t with
    | none => some { p with thread := Function.update p.thread t (some (c, M.body c)) }
    | some _ => none
  | .op t i =>
    match p.thread t with
    | some (c, .op o k) => (M.exec t o i p.shared).map fun r =>
        { shared := r.2, thread := Function.update p.thread t (some (c, k r.1)) }
    | _ => none
  | .env e => (M.env e p.shared).map fun s => { p with shared := s }

/-- Run a list of steps, each of which has to pass the test `g`. -/
def run (M : Machine σ Call Op Res β Inp Env) (g : Pool σ Call Op Res β → Act Call Inp Env → Bool)
    (p : Pool σ Call Op Res β) : List (Act Call Inp Env) → Option (Pool σ Call Op Res β)
  | [] => some p
  | a :: as => if g p a then (M.step p a).bind fun p' => M.run g p' as else none

/-- The pools reached from `s₀` by steps that all meet `G`. -/
inductive Reach (M : Machine σ Call Op Res β Inp Env) (G : Pool σ Call Op Res β → Act Call Inp Env → Prop)
    (s₀ : σ) : Pool σ Call Op Res β → Prop where
  | start : Reach M G s₀ (.initial s₀)
  | step {p p' : Pool σ Call Op Res β} {a : Act Call Inp Env} :
      Reach M G s₀ p → G p a → M.step p a = some p' → Reach M G s₀ p'

/-- The runs from one pool to another: a list of steps that all meet `G`. -/
inductive Steps (M : Machine σ Call Op Res β Inp Env) (G : Pool σ Call Op Res β → Act Call Inp Env → Prop) :
    Pool σ Call Op Res β → List (Act Call Inp Env) → Pool σ Call Op Res β → Prop where
  | nil (p : Pool σ Call Op Res β) : Steps M G p [] p
  | cons {p p' q : Pool σ Call Op Res β} {a : Act Call Inp Env} {as : List (Act Call Inp Env)} :
      G p a → M.step p a = some p' → Steps M G p' as q → Steps M G p (a :: as) q

def Free : Pool σ Call Op Res β → Act Call Inp Env → Prop := fun _ _ => True

variable {M : Machine σ Call Op Res β Inp Env} {G : Pool σ Call Op Res β → Act Call Inp Env → Prop} {s₀ : σ}

/-! ## Runs -/

theorem Steps.of_run {g : Pool σ Call Op Res β → Act Call Inp Env → Bool} (hg : ∀ p a, g p a = true → G p a)
    {as : List (Act Call Inp Env)} {p q : Pool σ Call Op Res β} (h : M.run g p as = some q) : M.Steps G p as q := by
  induction as generalizing p with
  | nil =>
    obtain rfl : p = q := by simpa [run] using h
    exact .nil p
  | cons a as ih =>
    simp only [run] at h
    split at h
    · rename_i hga
      obtain ⟨p', hstep, hrun⟩ := Option.bind_eq_some_iff.mp h
      exact .cons (hg p a hga) hstep (ih hrun)
    · cases h

theorem Steps.trans {as bs : List (Act Call Inp Env)} {p q r : Pool σ Call Op Res β} (h : M.Steps G p as q)
    (h' : M.Steps G q bs r) : M.Steps G p (as ++ bs) r := by
  induction h with
  | nil p => exact h'
  | cons hG hs _ ih => exact .cons hG hs (ih h')

theorem Steps.keeps {P : Pool σ Call Op Res β → Prop}
    (hstep : ∀ p a p', P p → G p a → M.step p a = some p' → P p') {as : List (Act Call Inp Env)}
    {p q : Pool σ Call Op Res β} (h : M.Steps G p as q) (hp : P p) : P q := by
  induction h with
  | nil p => exact hp
  | cons hG hs _ ih => exact ih (hstep _ _ _ hp hG hs)

/-- The guard of a run matters for the steps that are enabled only, and in the pools that the run can come to. -/
theorem Steps.mono_of_keeps {G' : Pool σ Call Op Res β → Act Call Inp Env → Prop} {P : Pool σ Call Op Res β → Prop}
    (hP : ∀ p a p', P p → G p a → M.step p a = some p' → P p')
    (hG : ∀ p a p', P p → M.step p a = some p' → G p a → G' p a) {as : List (Act Call Inp Env)}
    {p q : Pool σ Call Op Res β} (h : M.Steps G p as q) (hp : P p) : M.Steps G' p as q := by
  induction h with
  | nil p => exact .nil p
  | cons hg hs _ ih => exact .cons (hG _ _ _ hp hs hg) hs (ih (hP _ _ _ hp hg hs))

theorem Steps.mono {G' : Pool σ Call Op Res β → Act Call Inp Env → Prop}
    (hG : ∀ p a p', M.step p a = some p' → G p a → G' p a) {as : List (Act Call Inp Env)} {p q : Pool σ Call Op Res β}
    (h : M.Steps G p as q) : M.Steps G' p as q :=
  h.mono_of_keeps (P := fun _ => True) (fun _ _ _ _ _ _ => trivial) (fun p a p' _ => hG p a p') trivial

theorem Reach.mono {G' : Pool σ Call Op Res β → Act Call Inp Env → Prop} (hG : ∀ p a, G p a → G' p a)
    {p : Pool σ Call Op Res β} (hp : M.Reach G s₀ p) : M.Reach G' s₀ p := by
  induction hp with
  | start => exact .start
  | step _ hg hs ih => exact ih.step (hG _ _ hg) hs

theorem Reach.of_steps {as : List (Act Call Inp Env)} {p q : Pool σ Call Op Res β} (hp : M.Reach G s₀ p)
    (h : M.Steps G p as q) : M.Reach G s₀ q :=
  h.keeps (P := M.Reach G s₀) (fun _ _ _ hp hG hs => hp.step hG hs) hp

theorem Reach.of_run_from {g : Pool σ Call Op Res β → Act Call Inp Env → Bool} (hg : ∀ p a, g p a = true → G p a)
    {as : List (Act Call Inp Env)} {p q : Pool σ Call Op Res β} (hp : M.Reach G s₀ p) (h : M.run g p as = some q) :
    M.Reach G s₀ q :=
  hp.of_steps (Steps.of_run hg h)

theorem Reach.of_run {g : Pool σ Call Op Res β → Act Call Inp Env → Bool} (hg : ∀ p a, g p a = true → G p a)
    {as : List (Act Call Inp Env)} {q : Pool σ Call Op Res β} (h : M.run g (.initial s₀) as = some q) :
    M.Reach G s₀ q :=
  Reach.of_run_from hg .start h

theorem Reach.exists_of_run {g : Pool σ Call Op Res β → Act Call Inp Env → Bool} (hg : ∀ p a, g p a = true → G p a)
    (as : List (Act Call Inp Env)) {f : Pool σ Call Op Res β → Bool}
    (h : (M.run g (.initial s₀) as).any f = true) : ∃ q, M.Reach G s₀ q ∧ f q = true := by
  cases hr : M.run g (.initial s₀) as with
  | none => simp [hr] at h
  | some q => exact ⟨q, Reach.of_run hg hr, by simpa [hr] using h⟩

theorem Reach.exists_of_runs {g : Pool σ Call Op Res β → Act Call Inp Env → Bool} (hg : ∀ p a, g p a = true → G p a)
    (as bs : List (Act Call Inp Env)) {f : Pool σ Call Op Res β → Pool σ Call Op Res β → Bool}
    (h : ((M.run g (.initial s₀) as).any fun p => (M.run g p bs).any (f p)) = true) :
    ∃ p q, M.Reach G s₀ p ∧ M.Steps G p bs q ∧ f p q = true := by
  obtain ⟨p, hp, hf⟩ := Reach.exists_of_run hg as h
  cases hr : M.run g p bs with
  | none => simp [hr] at hf
  | some q => exact ⟨p, q, hp, Steps.of_run hg hr, by simpa [hr] using hf⟩

/-! ## What a step does -/

theorem step_call {p p' : Pool σ Call Op Res β} {t : Nat} {c : Call} (h : M.step p (.call t c) = some p') :
    p.thread t = none ∧ p' = { p with thread := Function.update p.thread t (some (c, M.body c)) } := by
  simp only [step] at h
  split at h
  · rename_i ht
    exact ⟨ht, (Option.some.inj h).symm⟩
  · cases h

theorem next_eq_some {p : Pool σ Call Op Res β} {t : Nat} {o : Op} (h : p.next t = some o) :
    ∃ c k, p.thread t = some (c, .op o k) := by
  obtain ⟨⟨c, q⟩, ht, hq⟩ := Option.bind_eq_some_iff.mp h
  cases q with
  | ret b => cases hq
  | op o' k =>
    cases hq
    exact ⟨c, k, ht⟩

theorem next_of_thread {p : Pool σ Call Op Res β} {t : Nat} {c : Call} {o : Op} {k : Res o → Prog Op Res β}
    (h : p.thread t = some (c, .op o k)) : p.next t = some o := by
  simp [Pool.next, h, Prog.next]

theorem result_eq_some {p : Pool σ Call Op Res β} {t : Nat} {c : Call} {b : β} (h : p.result t = some (c, b)) :
    p.thread t = some (c, .ret b) := by
  obtain ⟨⟨c', q⟩, ht, hq⟩ := Option.bind_eq_some_iff.mp h
  cases q with
  | ret b' =>
    cases hq
    exact ht
  | op o k => cases hq

theorem step_op {p p' : Pool σ Call Op Res β} {t : Nat} {i : Inp} (h : M.step p (.op t i) = some p') :
    ∃ c o k r s, p.thread t = some (c, .op o k) ∧ M.exec t o i p.shared = some (r, s) ∧
      p' = ⟨s, Function.update p.thread t (some (c, k r))⟩ := by
  simp only [step] at h
  split at h
  · rename_i c o k ht
    obtain ⟨⟨r, s⟩, hex, hp⟩ := Option.map_eq_some_iff.mp h
    exact ⟨c, o, k, r, s, ht, hex, hp.symm⟩
  · cases h

theorem step_env {p p' : Pool σ Call Op Res β} {e : Env} (h : M.step p (.env e) = some p') :
    ∃ s, M.env e p.shared = some s ∧ p' = { p with shared := s } := by
  simp only [step] at h
  obtain ⟨s, hs, hp⟩ := Option.map_eq_some_iff.mp h
  exact ⟨s, hs, hp.symm⟩

theorem Steps.unstarted {as : List (Act Call Inp Env)} {p q : Pool σ Call Op Res β} {t : Nat} (h : M.Steps G p as q)
    (ht : p.thread t = none) (has : t ∉ as.filterMap Act.starts) : q.thread t = none := by
  induction h with
  | nil p => exact ht
  | @cons p p' q a as _ hs _ ih =>
    have hrest : t ∉ as.filterMap Act.starts := by
      intro hm
      obtain ⟨b, hb, hst⟩ := List.mem_filterMap.mp hm
      exact has (List.mem_filterMap.mpr ⟨b, List.mem_cons_of_mem a hb, hst⟩)
    refine ih ?_ hrest
    cases a with
    | call t' c =>
      obtain ⟨-, rfl⟩ := step_call hs
      have hne : t ≠ t' := by
        rintro rfl
        exact has (List.mem_filterMap.mpr ⟨_, List.mem_cons_self, rfl⟩)
      simpa [Function.update_of_ne hne] using ht
    | op t' i =>
      obtain ⟨c, o, k, r, s, ht', -, rfl⟩ := step_op hs
      have hne : t ≠ t' := by
        rintro rfl
        rw [ht] at ht'
        cases ht'
      simpa [Function.update_of_ne hne] using ht
    | env e =>
      obtain ⟨s, -, rfl⟩ := step_env hs
      exact ht

/-- A tested run in which only threads below `n` make calls: the test may rely on it that all others are idle. -/
theorem Steps.of_run_within {g : Pool σ Call Op Res β → Act Call Inp Env → Bool} {n : Nat}
    (hg : ∀ p a, (∀ t, n ≤ t → p.thread t = none) → g p a = true → G p a) {as : List (Act Call Inp Env)}
    (has : ∀ t ∈ as.filterMap Act.starts, t < n) {p q : Pool σ Call Op Res β} (hp : ∀ t, n ≤ t → p.thread t = none)
    (h : M.run g p as = some q) : M.Steps G p as q := by
  induction as generalizing p with
  | nil =>
    obtain rfl : p = q := by simpa [run] using h
    exact .nil p
  | cons a as ih =>
    have hrest : ∀ t ∈ as.filterMap Act.starts, t < n := by
      intro t ht
      obtain ⟨b, hb, hst⟩ := List.mem_filterMap.mp ht
      exact has t (List.mem_filterMap.mpr ⟨b, List.mem_cons_of_mem a hb, hst⟩)
    simp only [run] at h
    split at h
    · rename_i hga
      obtain ⟨p', hstep, hrun⟩ := Option.bind_eq_some_iff.mp h
      refine .cons (hg p a hp hga) hstep (ih hrest (fun t ht => ?_) hrun)
      have hone : M.Steps (fun _ _ => True) p [a] p' := .cons trivial hstep (.nil p')
      refine hone.unstarted (hp t ht) fun hm => ?_
      obtain ⟨b, hb, hst⟩ := List.mem_filterMap.mp hm
      obtain rfl := List.mem_singleton.mp hb
      exact absurd (has t (List.mem_filterMap.mpr ⟨b, List.mem_cons_self, hst⟩)) (Nat.not_lt_of_le ht)
    · cases h

theorem Reach.exists_of_run_within {g : Pool σ Call Op Res β → Act Call Inp Env → Bool} {n : Nat}
    (hg : ∀ p a, (∀ t, n ≤ t → p.thread t = none) → g p a = true → G p a) (as : List (Act Call Inp Env))
    (has : ∀ t ∈ as.filterMap Act.starts, t < n) {f : Pool σ Call Op Res β → Bool}
    (h : (M.run g (.initial s₀) as).any f = true) : ∃ q, M.Reach G s₀ q ∧ f q = true := by
  cases hr : M.run g (.initial s₀) as with
  | none => simp [hr] at h
  | some q => exact ⟨q, .of_steps .start (Steps.of_run_within hg has (fun _ _ => rfl) hr), by simpa [hr] using h⟩

theorem Steps.result {as : List (Act Call Inp Env)} {p q : Pool σ Call Op Res β} {t : Nat} {c : Call} {b : β}
    (h : M.Steps G p as q) (hr : p.result t = some (c, b)) : q.result t = some (c, b) := by
  refine h.keeps (P := fun p => p.result t = some (c, b)) (fun p a p' hp _ hs => ?_) hr
  have ht : p.thread t = some (c, .ret b) := result_eq_some hp
  cases a with
  | call t' c' =>
    obtain ⟨hn, rfl⟩ := step_call hs
    have hne : t ≠ t' := by
      rintro rfl
      cases hn.symm.trans ht
    simpa [Pool.result, Function.update_of_ne hne] using hp
  | op t' i =>
    obtain ⟨c', o, k, r, s, ht', -, rfl⟩ := step_op hs
    have hne : t ≠ t' := by
      rintro rfl
      cases ht'.symm.trans ht
    simpa [Pool.result, Function.update_of_ne hne] using hp
  | env e =>
    obtain ⟨s, -, rfl⟩ := step_env hs
    exact hp

theorem Steps.started {as : List (Act Call Inp Env)} {p : Pool σ Call Op Res β} {t : Nat}
    (h : M.Steps G (.initial s₀) as p) (ht : p.thread t ≠ none) : t ∈ as.filterMap Act.starts := by
  by_contra hn
  exact ht (h.unstarted rfl hn)

/-- What the call that makes the step `a` has returned after it. -/
def returned (p : Pool σ Call Op Res β) : Act Call Inp Env → Option (Call × β)
  | .op t _ => p.result t
  | _ => none

/-- What the calls return in a run, in the order of their last operations. -/
def returns (M : Machine σ Call Op Res β Inp Env) (p : Pool σ Call Op Res β) : List (Act Call Inp Env) →
    List (Call × β)
  | [] => []
  | a :: as =>
    match M.step p a with
    | none => []
    | some p' => (returned p' a).toList ++ M.returns p' as

theorem returns_cons {p p' : Pool σ Call Op Res β} {a : Act Call Inp Env} (h : M.step p a = some p')
    (as : List (Act Call Inp Env)) : M.returns p (a :: as) = (returned p' a).toList ++ M.returns p' as := by
  simp only [returns, h]

/-! ## Projections -/

/-- A part of the shared state that is a machine of its own: every step of the whole is a step of the part, or leaves it
alone. -/
theorem Reach.project {σ' Env' : Type} {M' : Machine σ' Call Op Res β Inp Env'} {f : σ → σ'}
    {G' : Pool σ' Call Op Res β → Act Call Inp Env' → Prop} (hbody : M'.body = M.body)
    (hop : ∀ t o i s r s', M.exec t o i s = some (r, s') → M'.exec t o i (f s) = some (r, f s'))
    (henv : ∀ e s s', M.env e s = some s' → f s' = f s ∨ ∃ e', M'.env e' (f s) = some (f s'))
    (hcallG : ∀ p t c, G' p (.call t c)) (henvG : ∀ p e, G' p (.env e))
    (hopG : ∀ (p : Pool σ Call Op Res β) t i, G p (.op t i) → G' ⟨f p.shared, p.thread⟩ (.op t i))
    {p : Pool σ Call Op Res β} (hp : M.Reach G s₀ p) : M'.Reach G' (f s₀) ⟨f p.shared, p.thread⟩ := by
  induction hp with
  | start => exact .start
  | @step p p' a hr hg hs ih =>
    cases a with
    | call t c =>
      obtain ⟨ht, rfl⟩ := step_call hs
      apply ih.step (hcallG _ t c)
      simp only [Machine.step, ht, hbody]
    | op t i =>
      obtain ⟨c, o, k, r, s, ht, hex, rfl⟩ := step_op hs
      apply ih.step (hopG p t i hg)
      simp only [Machine.step, ht, hop t o i p.shared r s hex, Option.map_some]
    | env e =>
      obtain ⟨s, he, rfl⟩ := step_env hs
      rcases henv e p.shared s he with hsame | ⟨e', he'⟩
      · rw [hsame]
        exact ih
      · apply ih.step (henvG _ e')
        simp only [Machine.step, he', Option.map_some]

/-- A machine whose programs are those of another one inside a larger set of operations, and whose steps in the pools of
its runs are steps of the other one, or leave its part of the shared state alone. -/
theorem Reach.forget {σ' Call' Op' Env' : Type} {Res' : Op' → Type} {M' : Machine σ' Call' Op' Res' β Inp Env'}
    {G' : Pool σ' Call' Op' Res' β → Act Call' Inp Env' → Prop} {s₀' : σ'} (π : σ' → σ) (κ : Call' → Call)
    (f : Call' → Op → Op') (g : ∀ c o, Res' (f c o) → Res o) (hbody : ∀ c, M'.body c = (M.body (κ c)).lift (f c) (g c))
    (hop : ∀ p t c o i r s', M'.Reach G' s₀' p → M'.exec t (f c o) i p.shared = some (r, s') →
      M.exec t o i (π p.shared) = some (g c o r, π s'))
    (henv : ∀ p e s', M'.Reach G' s₀' p → M'.env e p.shared = some s' →
      π s' = π p.shared ∨ ∃ e', M.env e' (π p.shared) = some (π s'))
    {p : Pool σ' Call' Op' Res' β} (hp : M'.Reach G' s₀' p) :
    ∃ q, M.Reach Free (π s₀') q ∧ q.shared = π p.shared ∧
      ∀ t, (p.thread t = none ∧ q.thread t = none) ∨
        ∃ c prog, p.thread t = some (c, prog.lift (f c) (g c)) ∧ q.thread t = some (κ c, prog) := by
  induction hp with
  | start => exact ⟨.initial (π s₀'), .start, rfl, fun _ => .inl ⟨rfl, rfl⟩⟩
  | @step p p' a hr hg hs ih =>
    obtain ⟨q, hq, hshared, hthreads⟩ := ih
    cases a with
    | call t c =>
      obtain ⟨ht, rfl⟩ := step_call hs
      have htq : q.thread t = none := by
        rcases hthreads t with ⟨-, hn⟩ | ⟨c', prog, ht', -⟩
        · exact hn
        · cases ht.symm.trans ht'
      refine ⟨{ q with thread := Function.update q.thread t (some (κ c, M.body (κ c))) },
        hq.step (a := .call t (κ c)) trivial (by simp only [Machine.step, htq]), hshared, fun t' => ?_⟩
      by_cases htt : t' = t
      · subst htt
        exact .inr ⟨c, M.body (κ c), by simp [hbody], by simp⟩
      · simpa [Function.update_of_ne htt] using hthreads t'
    | op t i =>
      obtain ⟨c, o, k, r, s, ht, hex, rfl⟩ := step_op hs
      rcases hthreads t with ⟨hn, -⟩ | ⟨c', prog, ht', htq⟩
      · cases hn.symm.trans ht
      · obtain ⟨rfl, hprog⟩ := Prod.mk.inj (Option.some.inj (ht.symm.trans ht'))
        cases prog with
        | ret b => cases hprog
        | op o' k' =>
          cases hprog
          have hexq := hop p t c o' i r s hr hex
          rw [← hshared] at hexq
          refine ⟨⟨π s, Function.update q.thread t (some (κ c, k' (g c o' r)))⟩,
            hq.step (a := .op t i) trivial (by simp only [Machine.step, htq, hexq, Option.map_some]), rfl, fun t' => ?_⟩
          by_cases htt : t' = t
          · subst htt
            exact .inr ⟨c, k' (g c o' r), by simp, by simp⟩
          · simpa [Function.update_of_ne htt] using hthreads t'
    | env e =>
      obtain ⟨s, he, rfl⟩ := step_env hs
      rcases henv p e s hr he with hsame | ⟨e', he'⟩
      · exact ⟨q, hq, hshared.trans hsame.symm, hthreads⟩
      · rw [← hshared] at he'
        exact ⟨{ q with shared := π s }, hq.step (a := .env e') trivial (by simp only [Machine.step, he', Option.map_some]),
          rfl, hthreads⟩

/-! ## Invariants of the shared state -/

theorem step_shared {I : σ → Prop} (hop : ∀ t o i s r s', I s → M.exec t o i s = some (r, s') → I s')
    (henv : ∀ e s s', I s → M.env e s = some s' → I s') {p p' : Pool σ Call Op Res β} {a : Act Call Inp Env}
    (hp : I p.shared) (h : M.step p a = some p') : I p'.shared := by
  cases a with
  | call t c =>
    obtain ⟨-, rfl⟩ := step_call h
    exact hp
  | op t i =>
    obtain ⟨c, o, k, r, s, -, hex, rfl⟩ := step_op h
    exact hop t o i p.shared r s hp hex
  | env e =>
    obtain ⟨s, he, rfl⟩ := step_env h
    exact henv e p.shared s hp he

theorem invariant {I : σ → Prop} (h0 : I s₀)
    (hop : ∀ t o i s r s', I s → M.exec t o i s = some (r, s') → I s')
    (henv : ∀ e s s', I s → M.env e s = some s' → I s') {p : Pool σ Call Op Res β} (hp : M.Reach G s₀ p) :
    I p.shared := by
  induction hp with
  | start => exact h0
  | step _ _ hs ih => exact step_shared hop henv ih hs

theorem run_invariant {I : σ → Prop} (hop : ∀ t o i s r s', I s → M.exec t o i s = some (r, s') → I s')
    (henv : ∀ e s s', I s → M.env e s = some s' → I s') {g : Pool σ Call Op Res β → Act Call Inp Env → Bool}
    {as : List (Act Call Inp Env)} {p q : Pool σ Call Op Res β} (hp : I p.shared) (h : M.run g p as = some q) :
    I q.shared :=
  (Steps.of_run (G := fun p a => g p a = true) (fun _ _ h => h) h).keeps (P := fun p => I p.shared)
    (fun _ _ _ hp _ hs => step_shared hop henv hp hs) hp

end Machine

/-! ## Disciplines -/

/-- A view of type `V` says what a thread may do next; performing an operation advances it. -/
structure Discipline (Op : Type) (Res : Op → Type) (V : Type) where
  pre : V → Op → Prop
  post : V → (o : Op) → Res o → V

namespace Discipline

variable {Op Op' : Type} {Res : Op → Type} {Res' : Op' → Type} {V V' : Type} {α β : Type}

/-- From the view `v` the program only performs operations that its view allows, and returns with `Q`. -/
def Ok (D : Discipline Op Res V) (Q : β → V → Prop) : V → Prog Op Res β → Prop
  | v, .ret b => Q b v
  | v, .op o k => D.pre v o ∧ ∀ r, D.Ok Q (D.post v o r) (k r)

variable {D : Discipline Op Res V}

@[simp] theorem ok_ret (Q : β → V → Prop) (v : V) (b : β) : D.Ok Q v (.ret b) ↔ Q b v := Iff.rfl

theorem Ok.mono {Q Q' : β → V → Prop} (hQ : ∀ b v, Q b v → Q' b v) {v : V} {p : Prog Op Res β}
    (h : D.Ok Q v p) : D.Ok Q' v p := by
  induction p generalizing v with
  | ret b => exact hQ b v h
  | op o k ih => exact ⟨h.1, fun r => ih r (h.2 r)⟩

theorem Ok.bind {R : α → V → Prop} {Q : β → V → Prop} {v : V} {p : Prog Op Res α} {f : α → Prog Op Res β}
    (hp : D.Ok R v p) (hf : ∀ a w, R a w → D.Ok Q w (f a)) : D.Ok Q v (p >>= f) := by
  induction p generalizing v with
  | ret a => exact hf a v hp
  | op o k ih => exact ⟨hp.1, fun r => ih r (hp.2 r)⟩

theorem Ok.exists_return [∀ o, Nonempty (Res o)] {Q : β → V → Prop} {I : V → Prop}
    (hI : ∀ v o r, I v → I (D.post v o r)) {v : V} {p : Prog Op Res β} (h : D.Ok Q v p) (hv : I v) :
    ∃ b w, Q b w ∧ I w := by
  induction p generalizing v with
  | ret b => exact ⟨b, v, h, hv⟩
  | op o k ih =>
    obtain ⟨r⟩ := (inferInstance : Nonempty (Res o))
    exact ih r (h.2 r) (hI v o r hv)

theorem Ok.returns {Q : β → V → Prop} {I : V → Prop} (hI : ∀ v o r, I v → I (D.post v o r)) {v : V}
    {p : Prog Op Res β} (h : D.Ok Q v p) (hv : I v) {b : β} (hb : p.Returns b) : ∃ w, Q b w ∧ I w := by
  induction hb generalizing v with
  | ret b => exact ⟨v, h, hv⟩
  | op r _ ih => exact ih (h.2 r) (hI v _ r hv)

/-- A disciplined program stays disciplined inside a larger set of operations, when the larger discipline follows
the smaller one through `e`. -/
theorem Ok.lift {D' : Discipline Op' Res' V'} {f : Op → Op'} {g : ∀ o, Res' (f o) → Res o} {e : V → V'}
    (hpre : ∀ v o, D.pre v o → D'.pre (e v) (f o))
    (hpost : ∀ v o r, D.pre v o → D'.post (e v) (f o) r = e (D.post v o (g o r))) {Q : β → V → Prop}
    {Q' : β → V' → Prop} (hQ : ∀ b v, Q b v → Q' b (e v)) {v : V} {p : Prog Op Res β} (h : D.Ok Q v p) :
    D'.Ok Q' (e v) (p.lift f g) := by
  induction p generalizing v with
  | ret b => exact hQ b v h
  | op o k ih =>
    refine ⟨hpre v o h.1, fun r => ?_⟩
    rw [hpost v o r h.1]
    exact ih (g o r) (h.2 (g o r))

def prod (D : Discipline Op Res V) {W : Type} (E : Discipline Op Res W) : Discipline Op Res (V × W) where
  pre := fun v o => D.pre v.1 o ∧ E.pre v.2 o
  post := fun v o r => (D.post v.1 o r, E.post v.2 o r)

theorem Ok.prod {W : Type} {E : Discipline Op Res W} {Q : β → V → Prop} {Q' : β → W → Prop} {v : V} {w : W}
    {p : Prog Op Res β} (h : D.Ok Q v p) (h' : E.Ok Q' w p) :
    (D.prod E).Ok (fun b x => Q b x.1 ∧ Q' b x.2) (v, w) p := by
  induction p generalizing v w with
  | ret b => exact ⟨h, h'⟩
  | op o k ih => exact ⟨⟨h.1, h'.1⟩, fun r => ih r (h.2 r) (h'.2 r)⟩

end Discipline

theorem view_of_update {V : Type} {views : Nat → Option V} {t t' : Nat} {w v : V}
    (h : Function.update views t (some w) t' = some v) : (t' = t ∧ v = w) ∨ (t' ≠ t ∧ views t' = some v) := by
  by_cases ht : t' = t
  · rw [ht, Function.update_self] at h
    exact .inl ⟨ht, (Option.some.inj h).symm⟩
  · rw [Function.update_of_ne ht] at h
    exact .inr ⟨ht, h⟩

/-- The first halves of the views of two disciplines side by side. -/
def fstViews {V W : Type} (views : Nat → Option (V × W)) (t : Nat) : Option V := (views t).map Prod.fst

theorem fstViews_update {V W : Type} (views : Nat → Option (V × W)) (t : Nat) (x : V × W) :
    fstViews (Function.update views t (some x)) = Function.update (fstViews views) t (some x.1) := by
  funext t'
  by_cases ht : t' = t
  · rw [ht, Function.update_self, fstViews, Function.update_self]
    rfl
  · rw [Function.update_of_ne ht, fstViews, Function.update_of_ne ht]
    rfl

namespace Machine

variable {σ Call Op : Type} {Res : Op → Type} {β Inp Env V : Type}

/-- Each started thread has a view from which the rest of its program is disciplined. -/
def Linked (D : Discipline Op Res V) (Q : Nat → Call → β → V → Prop) (p : Pool σ Call Op Res β)
    (views : Nat → Option V) : Prop :=
  ∀ t, (p.thread t = none ∧ views t = none) ∨
    ∃ c q v, p.thread t = some (c, q) ∧ views t = some v ∧ D.Ok (Q t c) v q

variable {M : Machine σ Call Op Res β Inp Env} {G : Pool σ Call Op Res β → Act Call Inp Env → Prop} {s₀ : σ}
  {D : Discipline Op Res V} {Q : Nat → Call → β → V → Prop}

theorem Linked.ok {p : Pool σ Call Op Res β} {views : Nat → Option V} (h : Linked D Q p views) {t : Nat} {c : Call}
    {q : Prog Op Res β} (ht : p.thread t = some (c, q)) : ∃ v, views t = some v ∧ D.Ok (Q t c) v q := by
  rcases h t with ⟨hn, -⟩ | ⟨c', q', v, ht', hv, hok⟩
  · rw [hn] at ht
    cases ht
  · rw [ht] at ht'
    cases ht'
    exact ⟨v, hv, hok⟩

theorem Linked.pending {p : Pool σ Call Op Res β} {views : Nat → Option V} (h : Linked D Q p views) {t : Nat} {v : V}
    (hv : views t = some v) (hret : ∀ c b, ¬ Q t c b v) : ∃ o, p.next t = some o ∧ D.pre v o := by
  rcases h t with ⟨-, hn⟩ | ⟨c, q, v', ht, hv', hok⟩
  · rw [hn] at hv
    cases hv
  · rw [hv] at hv'
    cases hv'
    cases q with
    | ret b => exact absurd hok (hret c b)
    | op o k => exact ⟨o, next_of_thread ht, hok.1⟩

theorem Linked.update {p : Pool σ Call Op Res β} {views : Nat → Option V} (h : Linked D Q p views) (s : σ) (t : Nat)
    (c : Call) (q : Prog Op Res β) (v : V) (hok : D.Ok (Q t c) v q) :
    Linked D Q ⟨s, Function.update p.thread t (some (c, q))⟩ (Function.update views t (some v)) := by
  intro t'
  by_cases ht : t' = t
  · subst ht
    exact .inr ⟨c, q, v, by simp, by simp, hok⟩
  · simpa [Function.update_of_ne ht] using h t'

/-- **Soundness of a discipline.** When every call's program is disciplined from its first view, and the invariant
linking views and shared state survives a call, a disciplined operation and an environment step, then every reachable
pool has views that are linked with its threads and satisfy the invariant. -/
theorem sound {Inv : σ → (Nat → Option V) → Prop} (first : Nat → Call → V) (h0 : Inv s₀ fun _ => none)
    (hbody : ∀ t c, D.Ok (Q t c) (first t c) (M.body c))
    (hcall : ∀ p views t c, M.Reach G s₀ p → Linked D Q p views → Inv p.shared views → G p (.call t c) →
      views t = none → Inv p.shared (Function.update views t (some (first t c))))
    (hop : ∀ p views t i o v r s', M.Reach G s₀ p → Linked D Q p views → Inv p.shared views → G p (.op t i) →
      (∃ c k, p.thread t = some (c, .op o k)) → views t = some v → D.pre v o →
      M.exec t o i p.shared = some (r, s') → Inv s' (Function.update views t (some (D.post v o r))))
    (henv : ∀ p views e s', M.Reach G s₀ p → Linked D Q p views → Inv p.shared views → G p (.env e) →
      M.env e p.shared = some s' → Inv s' views)
    {p : Pool σ Call Op Res β} (hp : M.Reach G s₀ p) : ∃ views, Inv p.shared views ∧ Linked D Q p views := by
  induction hp with
  | start => exact ⟨fun _ => none, h0, fun t => .inl ⟨rfl, rfl⟩⟩
  | @step p p' a hr hg hs ih =>
    obtain ⟨views, hinv, hl⟩ := ih
    cases a with
    | call t c =>
      obtain ⟨ht, rfl⟩ := step_call hs
      have hv : views t = none := by
        rcases hl t with ⟨-, hv⟩ | ⟨c', q, v, ht', -⟩
        · exact hv
        · rw [ht] at ht'
          cases ht'
      exact ⟨_, hcall p views t c hr hl hinv hg hv, hl.update p.shared t c _ _ (hbody t c)⟩
    | op t i =>
      obtain ⟨c, o, k, r, s, ht, hex, rfl⟩ := step_op hs
      obtain ⟨v, hv, hok⟩ := hl.ok ht
      exact ⟨_, hop p views t i o v r s hr hl hinv hg ⟨c, k, ht⟩ hv hok.1 hex, hl.update s t c _ _ (hok.2 r)⟩
    | env e =>
      obtain ⟨s, he, rfl⟩ := step_env hs
      exact ⟨views, henv p views e s hr hl hinv hg he, hl⟩

theorem linked (first : Nat → Call → V) (hbody : ∀ t c, D.Ok (Q t c) (first t c) (M.body c))
    {p : Pool σ Call Op Res β} (hp : M.Reach G s₀ p) : ∃ views, Linked D Q p views := by
  obtain ⟨views, -, hl⟩ := @sound _ _ _ _ _ _ _ _ M G s₀ D Q (fun _ _ => True) first trivial hbody
    (fun _ _ _ _ _ _ _ _ _ => trivial) (fun _ _ _ _ _ _ _ _ _ _ _ _ _ _ _ _ => trivial)
    (fun _ _ _ _ _ _ _ _ _ => trivial) p hp
  exact ⟨views, hl⟩

end Machine

end Conc
