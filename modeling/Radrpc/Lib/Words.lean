import Mathlib

/-!
# Fixed-width words as bytes

* `leBytes n v`, `leNat bs` : `n` bytes of `v`, least significant first, and back
  (`leNat_leBytes`, `leBytes_leNat`);
* `ByteOrder.encode`, `ByteOrder.decode` : the same for either byte order.
-/

namespace Words

/-- The low `n` bytes of `v`, least significant first. -/
def leBytes : Nat → Nat → List UInt8
  | 0, _ => []
  | n + 1, v => UInt8.ofNat v :: leBytes n (v / 256)

/-- The number whose bytes, least significant first, are `bs`. -/
def leNat : List UInt8 → Nat
  | [] => 0
  | b :: bs => b.toNat + 256 * leNat bs

@[simp] theorem length_leBytes (n v : Nat) : (leBytes n v).length = n := by
  induction n generalizing v with
  | zero => rfl
  | succ n ih => simp [leBytes, ih]

theorem leNat_leBytes (n v : Nat) : leNat (leBytes n v) = v % 256 ^ n := by
  induction n generalizing v with
  | zero => simp [leBytes, leNat, Nat.mod_one]
  | succ n ih =>
    have hb : (UInt8.ofNat v).toNat = v % 256 := UInt8.toNat_ofNat'
    rw [leBytes, leNat, ih, hb, pow_succ', Nat.mod_mul]

theorem leBytes_leNat (bs : List UInt8) : leBytes bs.length (leNat bs) = bs := by
  induction bs with
  | nil => rfl
  | cons b bs ih =>
    have hb : b.toNat < 256 := b.toNat_lt
    have hdiv : (b.toNat + 256 * leNat bs) / 256 = leNat bs := by omega
    simp only [List.length_cons, leBytes, leNat, hdiv, ih, List.cons.injEq, and_true]
    apply UInt8.toNat_inj.mp
    rw [UInt8.toNat_ofNat']
    omega

theorem leNat_lt (bs : List UInt8) : leNat bs < 256 ^ bs.length := by
  rw [← leBytes_leNat bs, leNat_leBytes]
  simpa using Nat.mod_lt _ (by positivity)

/-- The byte order of a host. -/
inductive ByteOrder where
  | little
  | big
  deriving DecidableEq, Repr

namespace ByteOrder

/-- The `n` bytes of `v` as the host stores them. -/
def encode : ByteOrder → Nat → Nat → List UInt8
  | little, n, v => leBytes n v
  | big, n, v => (leBytes n v).reverse

def decode : ByteOrder → List UInt8 → Nat
  | little, bs => leNat bs
  | big, bs => leNat bs.reverse

@[simp] theorem length_encode (o : ByteOrder) (n v : Nat) : (o.encode n v).length = n := by
  cases o <;> simp [encode]

theorem decode_encode (o : ByteOrder) {n v : Nat} (hv : v < 256 ^ n) : o.decode (o.encode n v) = v := by
  cases o <;> simp [encode, decode, leNat_leBytes, Nat.mod_eq_of_lt hv]

theorem encode_decode (o : ByteOrder) {n : Nat} {bs : List UInt8} (hbs : bs.length = n) :
    o.encode n (o.decode bs) = bs := by
  subst hbs
  cases o
  · exact leBytes_leNat bs
  · have h := leBytes_leNat bs.reverse
    rw [List.length_reverse] at h
    simp [encode, decode, h]

theorem decode_lt (o : ByteOrder) (bs : List UInt8) : o.decode bs < 256 ^ bs.length := by
  cases o
  · exact leNat_lt bs
  · have h := leNat_lt bs.reverse
    rwa [List.length_reverse] at h

end ByteOrder

end Words
