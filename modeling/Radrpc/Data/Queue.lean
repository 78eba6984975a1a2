import Radrpc.Data.Header

/-!
# The queue of messages to write

* `DataPush` : a message of the server, which owns its bytes;
* `DataSend` : a message of a client call, which refers to the caller's bytes and to the promise on which the caller
  waits;
* `DataQueue` : the send queue of a client session. `write_next()` and `clear()` both resolve promises before they
  drop entries, and a caller can go on in between, so their two halves are separate here.
-/

namespace Radrpc

/-- A container for send data to clients (`data_push`). -/
structure DataPush where
  header : IoHeader
  body : Bytes
  deriving DecidableEq, Repr

abbrev PromiseRef := Nat

/-- The promise of a caller that waits for its message to be written; it is destroyed when the caller gives up. -/
inductive Promise where
  | pending
  | ready (written : Bool)
  | expired
  deriving DecidableEq, Repr

/-- `set_value` through a weak pointer: nothing happens when the promise is gone or already has a value. -/
def Promise.setValue (b : Bool) : Promise → Promise
  | .pending => .ready b
  | p => p

/-- A container for write data to server with an option to notify the caller (`data_send`). `owner` is the call whose
bytes `body_ptr` points to, and `body` what stands there as long as that call has not returned. -/
structure DataSend where
  callback : PromiseRef
  owner : Nat
  body : Bytes
  header : IoHeader
  deriving DecidableEq, Repr

structure DataQueue where
  maxEntries : Nat
  entries : List DataSend
  deriving DecidableEq, Repr

namespace DataQueue

def queue (q : DataQueue) (m : DataSend) : Bool × DataQueue :=
  if q.maxEntries ≤ q.entries.length then (false, q) else (true, { q with entries := q.entries ++ [m] })

/-- Checks whether the queue is processed with `async_write()`. -/
def isWriting (q : DataQueue) : Bool := 1 < q.entries.length

def front (q : DataQueue) : Option DataSend := q.entries.head?

/-- The second half of `write_next()` : drop the front; whether to write the next entry. -/
def popFront (q : DataQueue) : Bool × DataQueue :=
  let q' := { q with entries := q.entries.tail }
  (!q'.entries.isEmpty, q')

def clearEntries (q : DataQueue) : DataQueue := { q with entries := [] }

end DataQueue

/-- Notify the caller of a message: the first half of `write_next()`, and one round of the loop of `clear()`. -/
def resolve (promises : PromiseRef → Promise) (m : DataSend) (b : Bool) : PromiseRef → Promise :=
  Function.update promises m.callback ((promises m.callback).setValue b)

end Radrpc
