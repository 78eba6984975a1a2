import Mathlib

/-!
# Numbered slots

A table of slots `0, 1, …, n - 1`, and the number of slots that pass a test.

* `countP_range_congr`, `countP_range_change` : the number when no slot, or exactly one, changes sides;
* `filterMap_zip` : a list with labels beside it;
* `sublist_filter_range` : numbers in increasing order are a part of the table.
-/

namespace Slots

variable {p q : Nat → Bool} {k n : Nat}

theorem countP_range_congr (h : ∀ k < n, p k = q k) : (List.range n).countP p = (List.range n).countP q :=
  List.countP_congr fun k hk => by rw [h k (List.mem_range.mp hk)]

theorem countP_range_change (hk : k < n) (h : ∀ k' < n, k' ≠ k → p k' = q k') (hp : p k = true) (hq : q k = false) :
    (List.range n).countP p = (List.range n).countP q + 1 := by
  induction n with
  | zero => cases hk
  | succ n ih =>
    rw [List.range_succ, List.countP_append, List.countP_append, List.countP_singleton, List.countP_singleton]
    by_cases hkn : k = n
    · subst hkn
      rw [countP_range_congr fun k' hk' => h k' (Nat.lt_succ_of_lt hk') (Nat.ne_of_lt hk'), hp, hq]
      simp
    · have hlt : k < n := Nat.lt_of_le_of_ne (Nat.le_of_lt_succ hk) hkn
      rw [ih hlt fun k' hk' => h k' (Nat.lt_succ_of_lt hk'), h n (Nat.lt_succ_self n) fun he => hkn he.symm]
      omega

theorem countP_range_succ (p : Nat → Bool) (n : Nat) :
    (List.range (n + 1)).countP p = (List.range n).countP p + if p n then 1 else 0 := by
  rw [List.range_succ, List.countP_append, List.countP_singleton]

/-- A list with labels beside it: the labelled elements, when each of them is the one that its label says. -/
theorem filterMap_zip {α β γ : Type} {f : α → β} {g : α → β → γ} {l₁ : List (Option α)} {l₂ : List β}
    (hlen : l₁.length = l₂.length) (h : ∀ (i : Nat) (a : α), l₁[i]? = some (some a) → l₂[i]? = some (f a)) :
    (l₁.zip l₂).filterMap (fun c => c.1.map fun a => g a c.2) = (l₁.filterMap id).map fun a => g a (f a) := by
  induction l₁ generalizing l₂ with
  | nil => rfl
  | cons x l₁ ih =>
    cases l₂ with
    | nil => cases hlen
    | cons b l₂ =>
      have hrest := ih (Nat.succ.inj hlen) fun i a hi => h (i + 1) a hi
      cases x with
      | none => simpa using hrest
      | some a =>
        have hb : some b = some (f a) := h 0 a rfl
        cases hb
        simpa using hrest

theorem sublist_filter_range {l : List Nat} (hl : l.Pairwise (· < ·)) (h : ∀ m ∈ l, m < n ∧ p m = true) :
    l.Sublist ((List.range n).filter p) := by
  induction n generalizing l with
  | zero =>
    cases l with
    | nil => exact List.Sublist.refl _
    | cons m l => exact absurd (h m List.mem_cons_self).1 (Nat.not_lt_zero m)
  | succ n ih =>
    rw [List.range_succ, List.filter_append]
    by_cases hn : n ∈ l
    · -- the largest number is the last one
      obtain ⟨a, b, rfl⟩ := List.append_of_mem hn
      obtain ⟨ha, hb, hab⟩ := List.pairwise_append.mp hl
      have hnil : b = [] := by
        apply List.eq_nil_iff_forall_not_mem.mpr
        intro m hm
        have hlt := (List.pairwise_cons.mp hb).1 m hm
        have hle := (h m (List.mem_append_right _ (List.mem_cons_of_mem _ hm))).1
        omega
      subst hnil
      have hpn := (h n hn).2
      refine List.Sublist.append (ih ha fun m hm => ?_) (by simp [hpn])
      exact ⟨hab m hm n List.mem_cons_self, (h m (List.mem_append_left _ hm)).2⟩
    · refine (ih hl fun m hm => ?_).trans (List.sublist_append_left _ _)
      have hlt := (h m hm).1
      have hne : m ≠ n := fun he => hn (he ▸ hm)
      exact ⟨by omega, (h m hm).2⟩

theorem sublist_filterMap_range {β : Type} {f : Nat → Option β} {l : List (Nat × β)}
    (hl : (l.map Prod.fst).Pairwise (· < ·)) (h : ∀ x ∈ l, x.1 < n ∧ f x.1 = some x.2) :
    (l.map Prod.snd).Sublist ((List.range n).filterMap f) := by
  have hsub : (l.map Prod.fst).Sublist ((List.range n).filter fun m => (f m).isSome) := by
    apply sublist_filter_range hl
    intro m hm
    obtain ⟨x, hx, rfl⟩ := List.mem_map.mp hm
    exact ⟨(h x hx).1, by rw [(h x hx).2]; rfl⟩
  have hsnd : (l.map Prod.fst).filterMap f = l.map Prod.snd := by
    rw [List.filterMap_map, ← List.filterMap_eq_map]
    exact List.filterMap_congr fun x hx => (h x hx).2
  have hrange : ((List.range n).filter fun m => (f m).isSome).filterMap f = (List.range n).filterMap f := by
    rw [List.filterMap_filter]
    apply List.filterMap_congr
    intro m _
    cases f m <;> rfl
  rw [← hsnd, ← hrange]
  exact hsub.filterMap f

end Slots
