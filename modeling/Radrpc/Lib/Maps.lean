import Mathlib

/-!
# Ordered maps

* `getElem?_sweep` : visiting every entry of a map and erasing those that fail a test leaves exactly the entries that
  pass it; `size_sweep_le` : and does not make it larger;
* `size_le_of_agree` : maps that agree but for one key, by their sizes;
* `exists_owners` : keys that have owners of their own.
-/

namespace Maps
open Std

variable {α β : Type} [Ord α] [TransOrd α] [LawfulEqOrd α]

/-- Visit the listed entries in order and erase those that `keep` rejects. -/
def sweep (keep : α → β → Bool) (m : ExtTreeMap α β) (l : List (α × β)) : ExtTreeMap α β :=
  l.foldl (fun m e => if keep e.1 e.2 then m else m.erase e.1) m

theorem getElem?_sweep_list (keep : α → β → Bool) (l : List (α × β)) (m : ExtTreeMap α β) (k : α) (v : β) :
    (sweep keep m l)[k]? = some v ↔ m[k]? = some v ∧ ∀ w, (k, w) ∈ l → keep k w = true := by
  induction l generalizing m with
  | nil => simp [sweep]
  | cons e l ih =>
    obtain ⟨a, u⟩ := e
    have hcons : sweep keep m ((a, u) :: l) = sweep keep (if keep a u then m else m.erase a) l := rfl
    rw [hcons, ih]
    by_cases hka : keep a u = true
    · rw [if_pos hka]
      refine and_congr_right fun _ => ⟨fun h w hw => ?_, fun h w hw => h w (List.mem_cons_of_mem _ hw)⟩
      rcases List.mem_cons.mp hw with he | hw
      · cases he
        exact hka
      · exact h w hw
    · rw [if_neg hka, ExtTreeMap.getElem?_erase]
      by_cases hak : a = k
      · subst hak
        simp [hka]
      · rw [if_neg (by simpa using hak)]
        refine and_congr_right fun _ => ⟨fun h w hw => ?_, fun h w hw => h w (List.mem_cons_of_mem _ hw)⟩
        rcases List.mem_cons.mp hw with he | hw
        · cases he
          exact absurd rfl hak
        · exact h w hw

omit [LawfulEqOrd α] in
theorem size_sweep_le (keep : α → β → Bool) (m : ExtTreeMap α β) (l : List (α × β)) :
    (sweep keep m l).size ≤ m.size := by
  induction l generalizing m with
  | nil => exact Nat.le_refl _
  | cons e l ih =>
    refine (ih (if keep e.1 e.2 then m else m.erase e.1)).trans ?_
    split
    · exact Nat.le_refl _
    · exact ExtTreeMap.size_erase_le

theorem getElem?_sweep (keep : α → β → Bool) (m : ExtTreeMap α β) (k : α) (v : β) :
    (sweep keep m m.toList)[k]? = some v ↔ m[k]? = some v ∧ keep k v = true := by
  rw [getElem?_sweep_list]
  refine and_congr_right fun hm => ⟨fun h => ?_, fun h w hw => ?_⟩
  · exact h v (ExtTreeMap.mem_toList_iff_getElem?_eq_some.mpr hm)
  · rw [ExtTreeMap.mem_toList_iff_getElem?_eq_some, hm] at hw
    cases hw
    exact h

/-- A map that agrees with another one but for a key is not larger, if the other one has the key whenever it does. -/
theorem size_le_of_agree {m m' : ExtTreeMap α β} {k : α} (hother : ∀ j ≠ k, m[j]? = m'[j]?)
    (hk : m[k]?.isSome = true → m'[k]?.isSome = true) : m.size ≤ m'.size := by
  cases hm : m[k]? with
  | none =>
    have he : m = m'.erase k := by
      apply ExtTreeMap.ext_getElem?
      intro j
      by_cases hj : j = k
      · rw [hj, hm, ExtTreeMap.getElem?_erase_self]
      · rw [hother j hj, ExtTreeMap.getElem?_erase, if_neg (by simpa using fun h : k = j => hj h.symm)]
    rw [he]
    exact ExtTreeMap.size_erase_le
  | some v =>
    have hmem : m'.contains k = true := by
      rw [← ExtTreeMap.isSome_getElem?_eq_contains]
      exact hk (by rw [hm]; rfl)
    have he : m = m'.insert k v := by
      apply ExtTreeMap.ext_getElem?
      intro j
      by_cases hj : j = k
      · rw [hj, hm, ExtTreeMap.getElem?_insert_self]
      · rw [hother j hj, ExtTreeMap.getElem?_insert, if_neg (by simpa using fun h : k = j => hj h.symm)]
    rw [he, ExtTreeMap.size_insert, if_pos hmem]

omit [LawfulEqOrd α] in
/-- Where every key has an owner, and an owner owns one key only, there are as many owners as keys. -/
theorem exists_owners {ι : Type} [Nonempty ι] {m : ExtTreeMap α β} {owns : ι → α → Prop}
    (hown : ∀ k, m[k]?.isSome = true → ∃ t, owns t k) (hone : ∀ t k k', owns t k → owns t k' → k = k') {n : Nat}
    (hn : n ≤ m.size) : ∃ ts : Finset ι, ts.card = n ∧ ∀ t ∈ ts, ∃ k, m[k]?.isSome = true ∧ owns t k := by
  classical
  have hkeys : ∀ k ∈ m.keys, m[k]?.isSome = true := by
    intro k hk
    rw [ExtTreeMap.isSome_getElem?_iff_mem]
    exact ExtTreeMap.mem_of_mem_keys hk
  choose! owner howner using fun k hk => hown k (hkeys k hk)
  have hinj : Set.InjOn owner (m.keys.toFinset : Set α) := by
    intro k hk k' hk' he
    rw [List.coe_toFinset] at hk hk'
    exact hone (owner k) k k' (howner k hk) (he ▸ howner k' hk')
  have hcard : n ≤ (m.keys.toFinset.image owner).card := by
    rw [Finset.card_image_of_injOn hinj, List.toFinset_card_of_nodup ExtTreeMap.nodup_keys, ExtTreeMap.length_keys]
    exact hn
  obtain ⟨ts, hsub, hts⟩ := Finset.exists_subset_card_eq hcard
  refine ⟨ts, hts, fun t ht => ?_⟩
  obtain ⟨k, hk, rfl⟩ := Finset.mem_image.mp (hsub ht)
  rw [List.mem_toFinset] at hk
  exact ⟨k, hkeys k hk, howner k hk⟩

end Maps
