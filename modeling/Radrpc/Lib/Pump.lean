import Mathlib

/-!
# A write pump

A queue of messages of which the front one is being written: a message is started when it is offered to an empty
queue or when the one before it has been finished.

* `Pump.State` : the queue, the writes that have been started and not completed, and the histories of the messages
  accepted and started;
* `offer`, `advance`, `abort` : a message arrives, a write succeeds, a write fails;
* `Inv cap` : at most one write, which carries the front of the queue; at most `cap` messages queued; and the
  messages started are the first ones accepted;
* `Step` : one handler of a component that implements a pump; `Step.inv`, `Step.free_of_started`, `Step.front`,
  `Step.accepted`, `Step.started`;
* `Merge` : a history made of two.
-/

namespace Pump

variable {μ : Type}

/-- The state of a pump. -/
structure State (μ : Type) where
  queue : List μ
  writing : List μ
  accepted : List μ
  started : List μ
  aborted : Bool

namespace State

def write (p : State μ) : State μ :=
  match p.queue with
  | [] => p
  | m :: _ => { p with writing := p.writing ++ [m], started := p.started ++ [m] }

/-- Accept a message unless the queue is full, and write it unless another one is being written. -/
def offer (cap : Nat) (m : μ) (p : State μ) : State μ :=
  if cap ≤ p.queue.length then p
  else
    let p' := { p with queue := p.queue ++ [m], accepted := p.accepted ++ [m] }
    if 1 < p'.queue.length then p' else p'.write

/-- A write is over: drop the front of the queue, and write the next message if there is one. -/
def advance (p : State μ) : State μ :=
  let p' := { p with queue := p.queue.tail, writing := [] }
  if p'.queue = [] then p' else p'.write

def abort (p : State μ) : State μ := { p with queue := [], writing := [], aborted := true }

/-- The discipline of the pump. -/
structure Inv (cap : Nat) (p : State μ) : Prop where
  writing_eq : p.writing = p.queue.head?.toList
  length_le : p.queue.length ≤ cap
  running : p.aborted = false → p.accepted = p.started ++ p.queue.tail
  stopped : p.aborted = true → p.queue = [] ∧ p.started <+: p.accepted

theorem Inv.empty (cap : Nat) : Inv cap (⟨[], [], [], [], false⟩ : State μ) :=
  ⟨rfl, Nat.zero_le cap, fun _ => rfl, fun h => by cases h⟩

theorem Inv.started_isPrefix {cap : Nat} {p : State μ} (h : Inv cap p) : p.started <+: p.accepted := by
  cases ha : p.aborted with
  | true => exact (h.stopped ha).2
  | false =>
    rw [h.running ha]
    exact List.prefix_append _ _

theorem Inv.offer {cap : Nat} {p : State μ} (h : Inv cap p) (ha : p.aborted = false) (m : μ) :
    Inv cap (p.offer cap m) := by
  unfold State.offer
  split
  · exact h
  · rename_i hlen
    have hacc := h.running ha
    cases hq : p.queue with
    | nil =>
      have hw := h.writing_eq
      rw [hq] at hlen hw hacc
      have hcap : 1 ≤ cap := Nat.one_le_iff_ne_zero.mpr fun h0 => hlen (by simp [h0])
      simp only [write, List.nil_append, List.length_singleton, Nat.lt_irrefl, if_false]
      refine ⟨by simp [hw], hcap, fun _ => by simp [hacc], fun h' => ?_⟩
      rw [ha] at h'
      cases h'
    | cons a l =>
      have hw := h.writing_eq
      rw [hq] at hlen hw hacc
      have hcap : l.length + 2 ≤ cap := by
        simp only [List.length_cons] at hlen
        omega
      rw [if_pos (by simp)]
      refine ⟨by simpa using hw, by simp only [List.length_append, List.length_cons, List.length_nil]; omega,
        fun _ => by simp [hacc], fun h' => ?_⟩
      simp only [ha] at h'
      cases h'

theorem Inv.advance {cap : Nat} {p : State μ} (h : Inv cap p) (hq : p.queue ≠ []) : Inv cap p.advance := by
  have ha : p.aborted = false := by
    cases ha : p.aborted with
    | false => rfl
    | true => exact absurd (h.stopped ha).1 hq
  have hacc := h.running ha
  have hlen := h.length_le
  cases hp : p.queue with
  | nil => exact absurd hp hq
  | cons a l =>
    rw [hp] at hacc hlen
    unfold State.advance
    simp only [hp, List.tail_cons]
    cases l with
    | nil =>
      rw [if_pos rfl]
      exact ⟨rfl, Nat.zero_le cap, fun _ => by simpa using hacc, fun h' => by simp [ha] at h'⟩
    | cons b l =>
      rw [if_neg (List.cons_ne_nil b l)]
      refine ⟨rfl, ?_, fun _ => by simp [write, hacc], fun h' => by simp [write, ha] at h'⟩
      exact (Nat.le_succ _).trans hlen

theorem Inv.abort {cap : Nat} {p : State μ} (h : Inv cap p) : Inv cap p.abort :=
  ⟨rfl, Nat.zero_le cap, fun h' => (by cases h'), fun _ => ⟨rfl, h.started_isPrefix⟩⟩

theorem Inv.queue_ne_nil {cap : Nat} {p : State μ} (h : Inv cap p) (hw : p.writing ≠ []) : p.queue ≠ [] := by
  intro hq
  rw [h.writing_eq, hq] at hw
  exact hw rfl

theorem Inv.completed {cap : Nat} {p : State μ} (h : Inv cap p) {i : Nat} (hi : i < p.writing.length) :
    p.queue ≠ [] ∧ p.writing.eraseIdx i = [] ∧ p.aborted = false := by
  have hw := h.writing_eq
  cases hq : p.queue with
  | nil =>
    rw [hw, hq] at hi
    simp at hi
  | cons m l =>
    rw [hw, hq] at hi ⊢
    obtain rfl : i = 0 := by simpa using hi
    refine ⟨List.cons_ne_nil m l, rfl, ?_⟩
    cases ha : p.aborted with
    | false => rfl
    | true =>
      have hnil := (h.stopped ha).1
      rw [hq] at hnil
      cases hnil

/-- What a handler may do to a pump: nothing, or one of the operations. `free` holds when messages may be started,
`done` when a write has been completed. -/
inductive Step (cap : Nat) (free done : Prop) (p : State μ) : State μ → Prop where
  | same : Step cap free done p p
  | offer (m : μ) : free → p.aborted = false → Step cap free done p (p.offer cap m)
  | advance : free → done → p.queue ≠ [] → Step cap free done p p.advance
  | abort : done → Step cap free done p p.abort

variable {cap : Nat} {free done : Prop} {p p' : State μ}

theorem Step.inv (h : Step cap free done p p') (hp : Inv cap p) : Inv cap p' := by
  cases h with
  | same => exact hp
  | offer m _ ha => exact hp.offer ha m
  | advance _ _ hq => exact hp.advance hq
  | abort _ => exact hp.abort

theorem Step.free_of_started (h : Step cap free done p p') (hs : p'.started ≠ p.started) : free := by
  cases h with
  | same => exact absurd rfl hs
  | offer m hf _ => exact hf
  | advance hf _ _ => exact hf
  | abort _ => exact absurd rfl hs

theorem write_started (p : State μ) : p.started <+: p.write.started := by
  unfold State.write
  split
  · exact List.prefix_refl _
  · exact List.prefix_append _ _

theorem write_accepted (p : State μ) : p.write.accepted = p.accepted := by
  unfold State.write
  split <;> rfl

theorem Step.accepted (h : Step cap free done p p') :
    p'.accepted = p.accepted ∨ ∃ m, p'.accepted = p.accepted ++ [m] := by
  cases h with
  | same => exact .inl rfl
  | abort _ => exact .inl rfl
  | offer m _ _ =>
    unfold State.offer
    split
    · exact .inl rfl
    · dsimp only
      split
      · exact .inr ⟨m, rfl⟩
      · exact .inr ⟨m, write_accepted _⟩
  | advance _ _ _ =>
    unfold State.advance
    dsimp only
    split
    · exact .inl rfl
    · exact .inl (write_accepted _)

theorem Step.started (h : Step cap free done p p') : p.started <+: p'.started := by
  cases h with
  | same => exact List.prefix_refl _
  | abort _ => exact List.prefix_refl _
  | offer m _ _ =>
    unfold State.offer
    split
    · exact List.prefix_refl _
    · dsimp only
      split
      · exact List.prefix_refl _
      · exact write_started { p with queue := p.queue ++ [m], accepted := p.accepted ++ [m] }
  | advance _ _ _ =>
    unfold State.advance
    dsimp only
    split
    · exact List.prefix_refl _
    · exact write_started { p with queue := p.queue.tail, writing := [] }

theorem Step.front (h : Step cap free done p p') (hd : ¬ done) (hq : p.queue ≠ []) :
    p'.queue.head? = p.queue.head? ∧ p'.writing = p.writing := by
  cases h with
  | same => exact ⟨rfl, rfl⟩
  | advance _ hdone _ => exact absurd hdone hd
  | abort hdone => exact absurd hdone hd
  | offer m _ _ =>
    unfold State.offer
    cases hp : p.queue with
    | nil => exact absurd hp hq
    | cons a l =>
      split
      · exact ⟨by rw [hp], rfl⟩
      · rw [if_pos (by simp)]
        exact ⟨rfl, rfl⟩

end State

/-! ## Merged histories -/

/-- The last list grew by elements that went to the end of one of the other two. -/
inductive Merge : List μ → List μ → List μ → Prop where
  | nil : Merge [] [] []
  | left {l₁ l₂ l : List μ} (x : μ) : Merge l₁ l₂ l → Merge (l₁ ++ [x]) l₂ (l ++ [x])
  | right {l₁ l₂ l : List μ} (x : μ) : Merge l₁ l₂ l → Merge l₁ (l₂ ++ [x]) (l ++ [x])

theorem Merge.eq_left {l₁ l₂ l : List μ} (h : Merge l₁ l₂ l) (h₂ : l₂ = []) : l = l₁ := by
  induction h with
  | nil => rfl
  | left x _ ih => rw [ih h₂]
  | right x _ _ => simp at h₂

end Pump
