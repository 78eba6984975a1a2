import Mathlib.Data.List.Basic

/-!
# Elements that pass a mark

The elements of a list change one at a time. Those that have passed a mark are recorded, by their indexes, in the order in
which they passed it.

* `Marks P l order` : `order` are the indexes of the elements of `l` with `P`;
* `Marks.keep`, `Marks.pass`, `Marks.push` : what a change does to the record;
* `Marks.lt_length`, `Marks.all_of_length` : how far the record is from being full.
-/

variable {α : Type}

/-- The record of the elements that have passed the mark. -/
structure Marks (P : α → Bool) (l : List α) (order : List Nat) : Prop where
  mem : ∀ i, i ∈ order ↔ ∃ a, l[i]? = some a ∧ P a = true
  length : order.length = l.countP P

namespace Marks
variable {P : α → Bool} {l : List α} {order : List Nat} {i : Nat} {a b : α}

theorem nil : Marks P [] [] := ⟨fun i => by simp, rfl⟩

theorem getElem?_set_of (hi : l[i]? = some a) (b : α) (j : Nat) :
    (l.set i b)[j]? = if j = i then some b else l[j]? := by
  by_cases hj : j = i
  · subst hj
    rw [if_pos rfl, List.getElem?_set_self (List.getElem?_eq_some_iff.mp hi).1]
  · rw [if_neg hj, List.getElem?_set_ne (Ne.symm hj)]

theorem countP_set_of (hi : l[i]? = some a) (b : α) :
    (l.set i b).countP P + (P a).toNat = l.countP P + (P b).toNat := by
  obtain ⟨hlt, rfl⟩ := List.getElem?_eq_some_iff.mp hi
  have hle : (P l[i]).toNat ≤ l.countP P := by
    cases hP : P l[i] with
    | true => exact List.countP_pos_iff.mpr ⟨l[i], List.getElem_mem hlt, hP⟩
    | false => exact Nat.zero_le _
  rw [List.countP_set hlt]
  cases hP : P l[i] <;> cases P b <;> simp only [hP, Bool.toNat_true, Bool.toNat_false] at hle ⊢ <;> simp <;> omega

theorem keep (h : Marks P l order) (hi : l[i]? = some a) (hP : P b = P a) : Marks P (l.set i b) order := by
  refine ⟨fun j => (h.mem j).trans ?_, ?_⟩
  · rw [getElem?_set_of hi]
    split
    · rename_i hj
      subst hj
      rw [hi]
      simp [hP]
    · exact Iff.rfl
  · have hcount := countP_set_of (P := P) hi b
    rw [hP] at hcount
    exact h.length.trans (Nat.add_right_cancel hcount).symm

theorem pass (h : Marks P l order) (hi : l[i]? = some a) (ha : P a = false) (hb : P b = true) :
    Marks P (l.set i b) (order ++ [i]) := by
  refine ⟨fun j => ?_, ?_⟩
  · rw [List.mem_append, List.mem_singleton, getElem?_set_of hi, h.mem]
    split
    · rename_i hj
      exact ⟨fun _ => ⟨b, rfl, hb⟩, fun _ => .inr hj⟩
    · rename_i hj
      exact or_iff_left hj
  · have hcount := countP_set_of (P := P) hi b
    rw [ha, hb] at hcount
    rw [List.length_append, h.length]
    exact hcount.symm

theorem push (h : Marks P l order) (ha : P a = false) : Marks P (l ++ [a]) order := by
  refine ⟨fun j => (h.mem j).trans ⟨?_, ?_⟩, ?_⟩
  · rintro ⟨b, hb, hP⟩
    exact ⟨b, by rw [List.getElem?_append_left (List.getElem?_eq_some_iff.mp hb).1, hb], hP⟩
  · rintro ⟨b, hb, hP⟩
    rw [List.getElem?_append] at hb
    split at hb
    · exact ⟨b, hb, hP⟩
    · obtain rfl := List.mem_singleton.mp (List.mem_of_getElem? hb)
      rw [ha] at hP
      cases hP
  · rw [h.length, List.countP_append, List.countP_singleton, ha]
    rfl

theorem length_le (h : Marks P l order) : order.length ≤ l.length := h.length ▸ List.countP_le_length

theorem lt_length (h : Marks P l order) (hi : l[i]? = some a) (ha : P a = false) : order.length < l.length := by
  refine Nat.lt_of_le_of_ne h.length_le fun hfull => ?_
  have hall := List.countP_eq_length.mp (h.length.symm.trans hfull) a (List.mem_of_getElem? hi)
  rw [ha] at hall
  cases hall

theorem all_of_length (h : Marks P l order) (hfull : order.length = l.length) : ∀ a ∈ l, P a = true :=
  List.countP_eq_length.mp (h.length.symm.trans hfull)

end Marks
