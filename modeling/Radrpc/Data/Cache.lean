import Radrpc.Data.Header
import Radrpc.Lib.Maps

/-!
# The cache of awaited responses

`data_cache` hands out an id for each awaited response and keeps a row for it until the response has been collected.
Rows are objects that the table and the waiting threads share by pointer, so they live in a heap (`rows`) and the
table holds their addresses.

* `DataCache.queue` : a new row under the next id;
* `DataCache.find` : the part of `wait()` under the table lock; `DataCache.awaited` : the predicate of its condition
  variable; `DataCache.take` : the swap of the buffers at its end;
* `DataCache.swapNotify`, `DataCache.removeObsolete`, `DataCache.clear` : what the io thread does to the rows.

Each operation is one critical section of `m_mtx` or of a row's mutex. `getElem?_removeObsolete`, `clear_entries` and
`clear_rows` say what the two loops do.
-/

namespace Radrpc
open Std Maps

/-- The states of the data (`data_state`). -/
inductive DataState where
  | queued
  | waiting
  | swapped
  deriving DecidableEq, Repr

/-- `duration_cast<milliseconds>` : truncation towards zero. -/
def toMs (d : Time) : Int := d.tdiv 1000000

/-- What is held for a packet that is expected from the server (`data_read`). -/
structure DataRead where
  timestamp : Time
  validMs : Int
  state : DataState
  readBuffer : Bytes
  deriving DecidableEq, Repr

namespace DataRead

def new (now valid : Time) : DataRead := ⟨now, toMs valid, .queued, []⟩

/-- Check whether this data is still valid. -/
def valid (r : DataRead) (now : Time) : Bool := decide (toMs (now - r.timestamp) < r.validMs)

end DataRead

abbrev RowRef := Nat

/-- Provides a solution to hold, queue, wait & notify data (`data_cache`); `rows` is the heap of the rows, of which
the first `allocated` have been created. -/
structure DataCache where
  maxEntries : Nat
  idCounter : UInt64
  entries : ExtTreeMap UInt64 RowRef
  rows : RowRef → DataRead
  allocated : Nat

/-- What the locked part of `wait()` finds. -/
inductive Found where
  | invalid
  | ready (row : RowRef)
  | blocked (row : RowRef)
  deriving DecidableEq, Repr

namespace DataCache

def new (maxEntries : Nat) : DataCache := ⟨maxEntries, 0, ∅, fun _ => .new 0 0, 0⟩

def setState (c : DataCache) (r : RowRef) (st : DataState) : DataCache :=
  { c with rows := Function.update c.rows r { c.rows r with state := st } }

/-- Queue an empty row; the result is its id, or 0 when the cache is full. -/
def queue (c : DataCache) (now valid : Time) : UInt64 × DataCache :=
  if c.maxEntries ≤ c.entries.size then (0, c)
  else
    let id := c.idCounter + 1
    (id, { c with
      idCounter := id
      entries := c.entries.insert id c.allocated
      rows := Function.update c.rows c.allocated (.new now valid)
      allocated := c.allocated + 1 })

/-- The part of `wait()` before it blocks: look the id up, and collect or mark its row. -/
def find (c : DataCache) (id : UInt64) : Found × DataCache :=
  match c.entries[id]? with
  | none => (.invalid, c)
  | some r =>
    if (c.rows r).state = .swapped then (.ready r, { c with entries := c.entries.erase id })
    else (.blocked r, c.setState r .waiting)

/-- The predicate a blocked `wait()` waits for. -/
def awaited (c : DataCache) (r : RowRef) : Bool := (c.rows r).state = .swapped

/-- The end of `wait()` with a buffer: swap it with the buffer of the row. -/
def take (c : DataCache) (r : RowRef) (buffer : Bytes) : Bytes × DataCache :=
  ((c.rows r).readBuffer, { c with rows := Function.update c.rows r { c.rows r with readBuffer := buffer } })

/-- Swaps the received data with the queued buffer & notify all; the result is what is left in the buffer. -/
def swapNotify (c : DataCache) (id : UInt64) (buffer : Bytes) : Bytes × DataCache :=
  match c.entries[id]? with
  | none => (buffer, c)
  | some r =>
    let row := c.rows r
    let c' := { c with rows := Function.update c.rows r { row with readBuffer := buffer, state := .swapped } }
    ([], if row.state = .waiting then { c' with entries := c'.entries.erase id } else c')

/-- Remove the entries that are no longer valid; `clock id` is what the clock reads when the row of `id` is visited. -/
def removeObsolete (c : DataCache) (clock : UInt64 → Time) : DataCache :=
  { c with entries := sweep (fun id r => (c.rows r).valid (clock id)) c.entries c.entries.toList }

def release (c : DataCache) (e : UInt64 × RowRef) : DataCache :=
  { c.setState e.2 .swapped with entries := c.entries.erase e.1 }

/-- Clears all data, release its ownership & notify all waiting functions. -/
def clear (c : DataCache) : DataCache := c.entries.toList.foldl release c

/-! ## `queue` -/

theorem queue_full {c : DataCache} (h : c.maxEntries ≤ c.entries.size) (now valid : Time) :
    c.queue now valid = (0, c) := if_pos h

theorem queue_open {c : DataCache} (h : ¬ c.maxEntries ≤ c.entries.size) (now valid : Time) :
    c.queue now valid = (c.idCounter + 1, { c with
      idCounter := c.idCounter + 1
      entries := c.entries.insert (c.idCounter + 1) c.allocated
      rows := Function.update c.rows c.allocated (.new now valid)
      allocated := c.allocated + 1 }) := if_neg h

/-! ## `wait` -/

theorem find_none {c : DataCache} {id : UInt64} (h : c.entries[id]? = none) : c.find id = (.invalid, c) := by
  simp [find, h]

theorem find_swapped {c : DataCache} {id : UInt64} {r : RowRef} (h : c.entries[id]? = some r)
    (hs : (c.rows r).state = .swapped) : c.find id = (.ready r, { c with entries := c.entries.erase id }) := by
  simp [find, h, hs]

theorem find_waits {c : DataCache} {id : UInt64} {r : RowRef} (h : c.entries[id]? = some r)
    (hs : (c.rows r).state ≠ .swapped) : c.find id = (.blocked r, c.setState r .waiting) := by
  simp [find, h, hs]

/-! ## `swap_notify` -/

theorem swapNotify_none {c : DataCache} {id : UInt64} (h : c.entries[id]? = none) (buffer : Bytes) :
    c.swapNotify id buffer = (buffer, c) := by
  simp [swapNotify, h]

theorem swapNotify_rows {c : DataCache} {id : UInt64} {r : RowRef} (h : c.entries[id]? = some r) (buffer : Bytes) :
    (c.swapNotify id buffer).2.rows =
      Function.update c.rows r { c.rows r with readBuffer := buffer, state := .swapped } := by
  simp only [swapNotify, h]
  split <;> rfl

theorem swapNotify_entries {c : DataCache} {id : UInt64} {r : RowRef} (h : c.entries[id]? = some r) (buffer : Bytes) :
    (c.swapNotify id buffer).2.entries = if (c.rows r).state = .waiting then c.entries.erase id else c.entries := by
  simp only [swapNotify, h]
  split <;> rfl

@[simp] theorem swapNotify_allocated (c : DataCache) (id : UInt64) (buffer : Bytes) :
    (c.swapNotify id buffer).2.allocated = c.allocated := by
  unfold swapNotify
  split
  · rfl
  · dsimp only
    split <;> rfl

@[simp] theorem swapNotify_idCounter (c : DataCache) (id : UInt64) (buffer : Bytes) :
    (c.swapNotify id buffer).2.idCounter = c.idCounter := by
  unfold swapNotify
  split
  · rfl
  · dsimp only
    split <;> rfl

theorem getElem?_of_swapNotify {c : DataCache} {id : UInt64} {buffer : Bytes} {k : UInt64} {r : RowRef}
    (h : (c.swapNotify id buffer).2.entries[k]? = some r) : c.entries[k]? = some r := by
  cases hid : c.entries[id]? with
  | none => rwa [swapNotify_none hid] at h
  | some r₀ =>
    rw [swapNotify_entries hid] at h
    split at h
    · rw [ExtTreeMap.getElem?_erase] at h
      split at h
      · cases h
      · exact h
    · exact h

/-! ## `remove_obsolete` -/

theorem getElem?_removeObsolete (c : DataCache) (clock : UInt64 → Time) (id : UInt64) (r : RowRef) :
    (c.removeObsolete clock).entries[id]? = some r ↔
      c.entries[id]? = some r ∧ (c.rows r).valid (clock id) = true :=
  getElem?_sweep (fun id r => (c.rows r).valid (clock id)) c.entries id r

/-! ## `clear` -/

theorem foldl_release_entries (l : List (UInt64 × RowRef)) (c : DataCache) :
    (l.foldl release c).entries = sweep (fun _ _ => false) c.entries l := by
  induction l generalizing c with
  | nil => rfl
  | cons e l ih => exact ih (c.release e)

theorem foldl_release_rows (l : List (UInt64 × RowRef)) (c : DataCache) (r : RowRef) :
    (l.foldl release c).rows r =
      if r ∈ l.map Prod.snd then { c.rows r with state := .swapped } else c.rows r := by
  induction l generalizing c with
  | nil => simp
  | cons e l ih =>
    rw [List.foldl_cons, ih, List.map_cons]
    by_cases hr : r = e.2
    · subst hr
      simp [release, setState]
    · have hrows : (c.release e).rows r = c.rows r := by simp [release, setState, hr]
      simp only [hrows, List.mem_cons, hr, false_or]

theorem foldl_release_frame (l : List (UInt64 × RowRef)) (c : DataCache) :
    (l.foldl release c).allocated = c.allocated ∧ (l.foldl release c).idCounter = c.idCounter ∧
      (l.foldl release c).maxEntries = c.maxEntries := by
  induction l generalizing c with
  | nil => exact ⟨rfl, rfl, rfl⟩
  | cons e l ih => exact ih (c.release e)

@[simp] theorem getElem?_clear (c : DataCache) (id : UInt64) : c.clear.entries[id]? = none := by
  cases h : c.clear.entries[id]? with
  | none => rfl
  | some r =>
    rw [clear, foldl_release_entries, getElem?_sweep] at h
    cases h.2

@[simp] theorem clear_allocated (c : DataCache) : c.clear.allocated = c.allocated := (foldl_release_frame _ c).1

@[simp] theorem clear_idCounter (c : DataCache) : c.clear.idCounter = c.idCounter := (foldl_release_frame _ c).2.1

theorem clear_rows_of_entry {c : DataCache} {id : UInt64} {r : RowRef} (h : c.entries[id]? = some r) :
    c.clear.rows r = { c.rows r with state := .swapped } := by
  rw [clear, foldl_release_rows, if_pos]
  exact List.mem_map.mpr ⟨(id, r), ExtTreeMap.mem_toList_iff_getElem?_eq_some.mpr h, rfl⟩

theorem clear_rows_of_absent {c : DataCache} {r : RowRef} (h : ∀ id : UInt64, c.entries[id]? ≠ some r) :
    c.clear.rows r = c.rows r := by
  rw [clear, foldl_release_rows, if_neg]
  intro hm
  obtain ⟨⟨id, r'⟩, he, rfl⟩ := List.mem_map.mp hm
  exact h id (ExtTreeMap.mem_toList_iff_getElem?_eq_some.mp he)

theorem clear_readBuffer (c : DataCache) (r : RowRef) : (c.clear.rows r).readBuffer = (c.rows r).readBuffer := by
  rw [clear, foldl_release_rows]
  split <;> rfl

end DataCache

end Radrpc
