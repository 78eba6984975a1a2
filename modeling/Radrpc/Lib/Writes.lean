import Mathlib.Data.List.Basic

/-!
# Writing to a map with several values for a key

A map holds a list of values for each key. A step writes the value of an entry under the keys that the entry hits: behind
the values of the key where the key appends, in place of them elsewhere.

* `Writes` : what a step does; `written` : the values of the entries that hit a key, in order;
* `Writes.values_foldl_append`, `Writes.values_foldl_replace` : the values of a key after a list of writes;
* `Writes.values_foldl_frame` : a key that no entry hits keeps its values;
* `Writes.sublist_foldl_iff` : when everything that was written under a key is still there.
-/

/-- A step from a map writes an entry to it. -/
def Writes {M E K V : Type} (values : M → K → List V) (step : M → E → M) (hits : E → K → Bool) (val : E → V)
    (appends : K → Bool) : Prop :=
  ∀ m e k, values (step m e) k =
    if hits e k then (if appends k then values m k else []) ++ [val e] else values m k

namespace Writes
variable {M E K V : Type} {values : M → K → List V} {step : M → E → M} {hits : E → K → Bool} {val : E → V}
  {appends : K → Bool}

/-- The values that the entries write under a key, in order. -/
def written (hits : E → K → Bool) (val : E → V) (l : List E) (k : K) : List V := (l.filter (hits · k)).map val

theorem written_cons (e : E) (l : List E) (k : K) :
    written hits val (e :: l) k = if hits e k then val e :: written hits val l k else written hits val l k := by
  rw [written, List.filter_cons]
  split <;> rfl

theorem written_append (l l' : List E) (k : K) :
    written hits val (l ++ l') k = written hits val l k ++ written hits val l' k := by
  rw [written, List.filter_append, List.map_append]
  rfl

theorem values_foldl_append (h : Writes values step hits val appends) {k : K} (hk : appends k = true) (l : List E) (m : M) :
    values (l.foldl step m) k = values m k ++ written hits val l k := by
  induction l generalizing m with
  | nil => exact (List.append_nil _).symm
  | cons e l ih =>
    rw [List.foldl_cons, ih, h, written_cons, if_pos hk]
    split
    · rw [List.append_assoc, List.singleton_append]
    · rfl

theorem values_foldl_replace (h : Writes values step hits val appends) {k : K} (hk : appends k = false) (l : List E)
    (m : M) :
    values (l.foldl step m) k = (written hits val l k).getLast?.elim (values m k) ([·]) := by
  induction l generalizing m with
  | nil => rfl
  | cons e l ih =>
    rw [List.foldl_cons, ih, h, written_cons]
    split
    · rw [hk, List.getLast?_cons]
      cases (written hits val l k).getLast? <;> rfl
    · rfl

theorem values_foldl_frame (h : Writes values step hits val appends) {k : K} {l : List E}
    (hl : written hits val l k = []) (m : M) : values (l.foldl step m) k = values m k := by
  cases hk : appends k with
  | true => rw [h.values_foldl_append hk, hl, List.append_nil]
  | false =>
    rw [h.values_foldl_replace hk, hl]
    rfl

/-- Everything that was written under a key is still there if the key appends, or was written at most once. -/
theorem sublist_foldl_iff (h : Writes values step hits val appends) (k : K) (l : List E) (m : M) :
    (written hits val l k).Sublist (values (l.foldl step m) k) ↔
      (appends k = false → (written hits val l k).length ≤ 1) := by
  cases hk : appends k with
  | true =>
    rw [h.values_foldl_append hk]
    exact ⟨fun _ hf => (by cases hf), fun _ => List.sublist_append_right _ _⟩
  | false =>
    rw [h.values_foldl_replace hk]
    match written hits val l k with
    | [] => simp
    | [v] => simp
    | v :: w :: l =>
      rw [List.getLast?_cons_cons, List.getLast?_cons, Option.elim_some]
      exact ⟨fun hs _ => hs.length_le, fun hl => absurd (hl rfl) (by simp)⟩

end Writes
