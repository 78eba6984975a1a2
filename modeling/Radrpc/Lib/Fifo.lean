import Mathlib

/-!
# A stream that keeps the order

The sender hands its messages to a stream one after the other. The receiver takes them from the other end, and hears
some of them.

* `InOrder R H sent written stream heard` : the stream holds messages `read, …, written - 1` of the sender, and what
  has been heard are some of the messages before these, in their order;
* `InOrder.grow`, `InOrder.write`, `InOrder.pop` : the sender has another message, it enters the stream, it leaves the
  stream and is heard or not;
* `InOrder.heard_sublist` : nothing is heard twice or out of order.
-/

namespace Fifo

variable {α β γ : Type} {R R' : α → β → Prop} {H H' : α → γ → Prop} {sent sent' : List α} {written : Nat}
  {stream : List β} {heard : List γ}

/-- A stream between the messages that have been written and those that have been read. `R` says what a message looks
like in the stream, and `H` what is heard of it. -/
def InOrder (R : α → β → Prop) (H : α → γ → Prop) (sent : List α) (written : Nat) (stream : List β)
    (heard : List γ) : Prop :=
  ∃ read picked, read ≤ written ∧ written ≤ sent.length ∧ List.Forall₂ R ((sent.take written).drop read) stream ∧
    List.Forall₂ H picked heard ∧ picked.Sublist (sent.take read)

namespace InOrder

theorem start : InOrder R H [] 0 [] [] := ⟨0, [], le_rfl, le_rfl, .nil, .nil, .slnil⟩

theorem mono (h : InOrder R H sent written stream heard) (hR : ∀ a ∈ sent, ∀ b, R a b → R' a b)
    (hH : ∀ a ∈ sent, ∀ c, H a c → H' a c) : InOrder R' H' sent written stream heard := by
  obtain ⟨read, picked, hle, hlen, hs, hh, hp⟩ := h
  refine ⟨read, picked, hle, hlen, ?_, ?_, hp⟩
  · have hmem : ∀ a ∈ (sent.take written).drop read, a ∈ sent := fun a ha => List.mem_of_mem_take (List.mem_of_mem_drop ha)
    exact ((List.forall₂_and_left _ _).mpr ⟨hmem, hs⟩).imp fun a b hab => hR a hab.1 b hab.2
  · have hmem : ∀ a ∈ picked, a ∈ sent := fun a ha => List.mem_of_mem_take (hp.subset ha)
    exact ((List.forall₂_and_left _ _).mpr ⟨hmem, hh⟩).imp fun a c hac => hH a hac.1 c hac.2

theorem grow (h : InOrder R H sent written stream heard) (hp : sent <+: sent') :
    InOrder R H sent' written stream heard := by
  obtain ⟨read, picked, hle, hlen, hs, hh, hpick⟩ := h
  obtain ⟨rest, rfl⟩ := hp
  refine ⟨read, picked, hle, hlen.trans (List.prefix_append sent rest).length_le, ?_, hh, ?_⟩
  · rwa [List.take_append_of_le_length hlen]
  · rwa [List.take_append_of_le_length (hle.trans hlen)]

theorem write (h : InOrder R H sent written stream heard) {a : α} {b : β} (ha : sent[written]? = some a) (hb : R a b) :
    InOrder R H sent (written + 1) (stream ++ [b]) heard := by
  obtain ⟨read, picked, hle, hlen, hs, hh, hpick⟩ := h
  have hlt : written < sent.length := (List.getElem?_eq_some_iff.mp ha).1
  refine ⟨read, picked, Nat.le_succ_of_le hle, hlt, ?_, hh, hpick⟩
  have htake : sent.take (written + 1) = sent.take written ++ [a] := by
    rw [List.take_add_one, ha]
    rfl
  have hread : read ≤ (sent.take written).length := by
    rw [List.length_take, Nat.min_eq_left hlen]
    exact hle
  rw [htake, List.drop_append_of_le_length hread]
  exact List.rel_append hs (.cons hb .nil)

theorem pop (h : InOrder R H sent written stream heard) {b : β} (hb : stream.head? = some b) :
    ∃ a, R a b ∧ InOrder R H sent written (stream.drop 1) heard ∧
      ∀ c, H a c → InOrder R H sent written (stream.drop 1) (heard ++ [c]) := by
  obtain ⟨read, picked, hle, hlen, hs, hh, hpick⟩ := h
  cases stream with
  | nil => cases hb
  | cons b' stream =>
    cases hb
    obtain ⟨a, rest, hab, hrest, hdrop⟩ := List.forall₂_cons_right_iff.mp hs
    have hlt : read < (sent.take written).length := by
      by_contra hge
      rw [List.drop_eq_nil_of_le (Nat.le_of_not_lt hge)] at hdrop
      cases hdrop
    have hsucc : read < written := hlt.trans_le (by rw [List.length_take]; exact Nat.min_le_left _ _)
    have hnext : (sent.take written).drop (read + 1) = rest := by
      rw [← List.drop_drop, hdrop]
      rfl
    have hget : sent[read]? = some a := by
      have h0 : (sent.take written)[read]? = some a := by
        rw [← List.head?_drop, hdrop]
        rfl
      rwa [List.getElem?_take_of_lt hsucc] at h0
    have htake : sent.take (read + 1) = sent.take read ++ [a] := by
      rw [List.take_add_one, hget]
      rfl
    refine ⟨a, hab, ⟨read + 1, picked, hsucc, hlen, ?_, hh, ?_⟩, fun c hc =>
      ⟨read + 1, picked ++ [a], hsucc, hlen, ?_, List.rel_append hh (.cons hc .nil), ?_⟩⟩
    · rwa [hnext]
    · rw [htake]
      exact hpick.trans (List.sublist_append_left _ _)
    · rwa [hnext]
    · rw [htake]
      exact hpick.append (.refl _)

theorem heard_sublist (h : InOrder R H sent written stream heard) :
    ∃ picked, picked.Sublist (sent.take written) ∧ List.Forall₂ H picked heard := by
  obtain ⟨read, picked, hle, -, -, hh, hpick⟩ := h
  exact ⟨picked, hpick.trans (List.take_sublist_take_left hle), hh⟩

end InOrder

end Fifo
