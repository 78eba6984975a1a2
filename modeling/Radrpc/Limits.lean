import Radrpc.Data.Header

/-!
# The size limits of both ends

Each end gives its stream a limit for the messages it reads, in `read_message_max`. A message is a header followed by its
body: the server adds the size of the header to its limit, in 64 bits, and the client does not.

* `serverReadMax`, `clientReadMax` : the limits as the sessions set them;
* `ObeysLimit` : what a stream does with a limit;
* `LimitsAgree` : both ends apply their limits to the body, and a body that the server accepts can be echoed;
* `limits_agree` : for which limits and bodies that is so.
-/

namespace Radrpc
open Words

def message (o : ByteOrder) (h : IoHeader) (body : Bytes) : Bytes := h.encode o ++ body

def messageSize (n : Nat) : Nat := IoHeader.size + n

theorem length_message (o : ByteOrder) (h : IoHeader) (body : Bytes) :
    (message o h body).length = messageSize body.length := by
  rw [message, List.length_append, IoHeader.length_encode, messageSize]

/-- The limit that `on_read_handshake` gives the stream of a server session. -/
def serverReadMax (maxTransferBytes : UInt64) : UInt64 := maxTransferBytes + .ofNat IoHeader.size

def clientReadMax (maxReadBytes : UInt64) : UInt64 := maxReadBytes

/-- A stream accepts the messages up to its limit; 0 is no limit. -/
def ObeysLimit (accepts : UInt64 → Nat → Prop) : Prop :=
  ∀ limit length, accepts limit length ↔ limit = 0 ∨ length ≤ limit.toNat

/-- Both ends accept the messages with `n` bytes in their body that the limits on the body allow, and with equal limits
the client accepts what the server accepts. -/
structure LimitsAgree (accepts : UInt64 → Nat → Prop) (maxTransferBytes maxReadBytes : UInt64) (n : Nat) : Prop where
  server : accepts (serverReadMax maxTransferBytes) (messageSize n) ↔ n ≤ maxTransferBytes.toNat
  client : accepts (clientReadMax maxReadBytes) (messageSize n) ↔ n ≤ maxReadBytes.toNat
  echo : maxReadBytes = maxTransferBytes → accepts (serverReadMax maxTransferBytes) (messageSize n) →
    accepts (clientReadMax maxReadBytes) (messageSize n)

variable {accepts : UInt64 → Nat → Prop}

theorem serverReadMax_toNat (maxTransferBytes : UInt64) :
    (serverReadMax maxTransferBytes).toNat = (maxTransferBytes.toNat + 16) % 2 ^ 64 := by
  rw [serverReadMax, UInt64.toNat_add]
  rfl

theorem server_accepts_iff (h : ObeysLimit accepts) (maxTransferBytes : UInt64) (n : Nat) :
    accepts (serverReadMax maxTransferBytes) (messageSize n) ↔
      maxTransferBytes.toNat = 2 ^ 64 - 16 ∨ (n ≤ maxTransferBytes.toNat ∧ maxTransferBytes.toNat < 2 ^ 64 - 16) := by
  have hlt := maxTransferBytes.toNat_lt
  rw [h, ← UInt64.toNat_inj, serverReadMax_toNat, messageSize, IoHeader.size, UInt64.toNat_zero]
  rcases Nat.lt_trichotomy maxTransferBytes.toNat (2 ^ 64 - 16) with hM | hM | hM
  · rw [Nat.mod_eq_of_lt (by omega)]
    omega
  · simp [hM]
  · rw [Nat.mod_eq_sub_mod (by omega), Nat.mod_eq_of_lt (by omega)]
    omega

theorem client_accepts_iff (h : ObeysLimit accepts) {maxReadBytes : UInt64} (hR : maxReadBytes ≠ 0) (n : Nat) :
    accepts (clientReadMax maxReadBytes) (messageSize n) ↔ n + 16 ≤ maxReadBytes.toNat := by
  rw [h, clientReadMax, messageSize, IoHeader.size, Nat.add_comm]
  exact or_iff_right hR

/-- **The limits of both ends.** For every limit of the server, every limit of the client other than 0 and every length of
a body: both ends apply their limits to the body in the same way if and only if the limit of the server and the header fit
into 64 bits (or the body is on the side of the limit on which the sum that has wrapped around puts every body), and the
body is larger than the limit of the client or smaller by a header. -/
theorem limits_agree (h : ObeysLimit accepts) {maxTransferBytes maxReadBytes : UInt64} (hR : maxReadBytes ≠ 0)
    (n : Nat) :
    LimitsAgree accepts maxTransferBytes maxReadBytes n ↔
      (maxTransferBytes.toNat < 2 ^ 64 - 16 ∨
        (maxTransferBytes.toNat = 2 ^ 64 - 16 ∧ n ≤ maxTransferBytes.toNat) ∨
        (2 ^ 64 - 16 < maxTransferBytes.toNat ∧ maxTransferBytes.toNat < n)) ∧
      (n + 16 ≤ maxReadBytes.toNat ∨ maxReadBytes.toNat < n) := by
  have hserver := server_accepts_iff h maxTransferBytes n
  have hclient := client_accepts_iff h hR n
  constructor
  · intro hagree
    have h1 := hserver.symm.trans hagree.server
    have h2 := hclient.symm.trans hagree.client
    omega
  · rintro ⟨h1, h2⟩
    have hs : accepts (serverReadMax maxTransferBytes) (messageSize n) ↔ n ≤ maxTransferBytes.toNat := by
      rw [hserver]
      omega
    have hc : accepts (clientReadMax maxReadBytes) (messageSize n) ↔ n ≤ maxReadBytes.toNat := by
      rw [hclient]
      omega
    refine ⟨hs, hc, fun he hacc => hc.mpr ?_⟩
    rw [he]
    exact hs.mp hacc

/-- A body of 1000 bytes between ends that allow a kilobyte and two. -/
theorem limits_agree_kilobyte :
    LimitsAgree (fun limit length => limit = 0 ∨ length ≤ limit.toNat) 1024 2048 1000 :=
  (limits_agree (fun _ _ => Iff.rfl) (by decide) 1000).mpr (by decide)

/-- A body as large as both limits is accepted by the server, and its echo is not accepted by the client; the largest
limit of a server lets no message in. -/
theorem limits_disagree :
    ¬ LimitsAgree (fun limit length => limit = 0 ∨ length ≤ limit.toNat) 1024 1024 1024 ∧
    ¬ LimitsAgree (fun limit length => limit = 0 ∨ length ≤ limit.toNat) 18446744073709551615 1024 0 := by
  constructor
  · intro h
    exact absurd (h.echo rfl (by decide)) (by decide)
  · intro h
    exact absurd (h.server.mpr (by decide)) (by decide)

end Radrpc
