import Radrpc.Lib.Words

/-!
# The io header

Every message between the two hosts is a packed `io_header` followed by the body.

* `Bytes`, `Time`, `queueSendMax`, `queueRecvMax` : the vocabulary that both ends share;
* `IoHeader.encode`, `IoHeader.read` : the header as the 16 bytes of a host, and the header a host reads back;
* `IoHeader.read_encode`, `IoHeader.encode_read` : on hosts of the same byte order these are inverse, so a header
  that is copied through a session keeps its bytes.
-/

namespace Radrpc
open Words

/-- Bytes of a message, of a buffer or of a caller's data. -/
abbrev Bytes := List UInt8

abbrev Time := Int

def queueSendMax : Nat := 500

def queueRecvMax : Nat := 500

/-- The websocket frames that reach a control callback. -/
inductive FrameKind where
  | ping
  | pong
  | close
  deriving DecidableEq, Repr

/-- A header which is prepended to all data transferred between two hosts (`io_header`). -/
structure IoHeader where
  callId : UInt32
  pad0 : UInt32
  resultId : UInt64
  deriving DecidableEq, Repr

namespace IoHeader

def new (callId : UInt32) (resultId : UInt64) : IoHeader := ⟨callId, 0, resultId⟩

def size : Nat := 16

def encode (o : ByteOrder) (h : IoHeader) : Bytes :=
  o.encode 4 h.callId.toNat ++ o.encode 4 h.pad0.toNat ++ o.encode 8 h.resultId.toNat

/-- The header at the front of a buffer that holds at least 16 bytes (the `reinterpret_cast`). -/
def read (o : ByteOrder) (bs : Bytes) : IoHeader :=
  ⟨.ofNat (o.decode (bs.take 4)), .ofNat (o.decode ((bs.drop 4).take 4)), .ofNat (o.decode ((bs.drop 8).take 8))⟩

@[simp] theorem length_encode (o : ByteOrder) (h : IoHeader) : (h.encode o).length = size := by
  simp [encode, size]

theorem read_encode (o : ByteOrder) (h : IoHeader) (body : Bytes) : read o (h.encode o ++ body) = h := by
  have h1 : o.decode (o.encode 4 h.callId.toNat) = h.callId.toNat := o.decode_encode h.callId.toNat_lt
  have h2 : o.decode (o.encode 4 h.pad0.toNat) = h.pad0.toNat := o.decode_encode h.pad0.toNat_lt
  have h3 : o.decode (o.encode 8 h.resultId.toNat) = h.resultId.toNat := o.decode_encode h.resultId.toNat_lt
  have e1 : (h.encode o ++ body).take 4 = o.encode 4 h.callId.toNat := by simp [encode]
  have e2 : ((h.encode o ++ body).drop 4).take 4 = o.encode 4 h.pad0.toNat := by simp [encode]
  have e3 : ((h.encode o ++ body).drop 8).take 8 = o.encode 8 h.resultId.toNat := by
    rw [show 8 = 4 + 4 from rfl, ← List.drop_drop]
    simp [encode]
  simp only [read, e1, e2, e3, h1, h2, h3, UInt32.ofNat_toNat, UInt64.ofNat_toNat]

@[simp] theorem drop_encode (o : ByteOrder) (h : IoHeader) (body : Bytes) :
    (h.encode o ++ body).drop size = body := by
  rw [← length_encode o h, List.drop_left]

theorem encode_read (o : ByteOrder) {bs : Bytes} (hbs : size ≤ bs.length) :
    (read o bs).encode o = bs.take size := by
  have hb : 16 ≤ bs.length := hbs
  have l1 : (bs.take 4).length = 4 := by rw [List.length_take]; omega
  have l2 : ((bs.drop 4).take 4).length = 4 := by rw [List.length_take, List.length_drop]; omega
  have l3 : ((bs.drop 8).take 8).length = 8 := by rw [List.length_take, List.length_drop]; omega
  have b1 := o.decode_lt (bs.take 4)
  have b2 := o.decode_lt ((bs.drop 4).take 4)
  have b3 := o.decode_lt ((bs.drop 8).take 8)
  rw [l1] at b1
  rw [l2] at b2
  rw [l3] at b3
  simp only [encode, read, UInt32.toNat_ofNat_of_lt' b1, UInt32.toNat_ofNat_of_lt' b2,
    UInt64.toNat_ofNat_of_lt' b3, o.encode_decode l1, o.encode_decode l2, o.encode_decode l3]
  rw [← List.take_add, ← List.take_add]
  rfl

end IoHeader

end Radrpc
