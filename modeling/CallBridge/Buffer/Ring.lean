import CallBridge.Fault
import CallBridge.Audio.Pcm

/-!
# Ring buffer

A buffer of fixed capacity for bytes that are written and read at different times. A write that
does not fit drops the oldest unread bytes and tells how many; a write longer than the whole
buffer is refused.

The bytes lie in cells that are used in a circle, between a read and a write position. What the
buffer means is its list of unread bytes, `contents`.

In the media core, `Ring` is `RingBuffer`, `Written` is `RingWrite`, and `takeOldest` is `read_vec`.

Results:
* `length_contents`: the stored count is the number of unread bytes.
* `read_count`: how many bytes a read takes.
-/

namespace CallBridge.Buffer

open Audio (overlay)

/-- A circle of cells with the unread bytes from `readPos` on. -/
structure Ring where
  cells : List UInt8
  readPos : Nat
  writePos : Nat
  stored : Nat
deriving DecidableEq, Repr, Inhabited

/-- What a write did: the bytes taken over, and the unread bytes lost to make room. -/
inductive Written where
  | fully (size : Nat)
  | overflowing (size dropped : Nat)
deriving DecidableEq, Repr, Inhabited

namespace Written

/-- The number of bytes taken over. -/
def size : Written → Nat
  | fully size => size
  | overflowing size _ => size

/-- The number of unread bytes lost. -/
def dropped : Written → Nat
  | fully _ => 0
  | overflowing _ dropped => dropped

/-- Whether unread bytes were lost. -/
def isOverflow : Written → Bool
  | fully _ => false
  | overflowing _ _ => true

end Written

namespace Ring

/-- The empty buffer of a capacity. -/
def ofCapacity (capacity : Nat) : Ring := ⟨List.replicate capacity 0, 0, 0, 0⟩

/-- The greatest number of bytes held. -/
def capacity (r : Ring) : Nat := r.cells.length

/-- The number of unread bytes. -/
def size (r : Ring) : Nat := r.stored

/-- Whether there is nothing to read. -/
def isEmpty (r : Ring) : Bool := r.stored = 0

/-- The unread bytes, the oldest first. -/
def contents (r : Ring) : List UInt8 :=
  ((r.cells.drop r.readPos ++ r.cells.take r.readPos).take r.stored)

/-- The buffer without its unread bytes. -/
def clear (r : Ring) : Ring := { r with readPos := 0, writePos := 0, stored := 0 }

/-- The cells with bytes copied in from a position on, going on at the first cell after the last. -/
def copyIn (cells : List UInt8) (pos : Nat) (data : List UInt8) : List UInt8 :=
  let space := cells.length - pos
  if data.length ≤ space then cells.take pos ++ data ++ cells.drop (pos + data.length)
  else data.drop space ++ (cells.take pos).drop (data.length - space) ++ data.take space

/-- The bytes of a number of cells from a position on, going on at the first cell after the last. -/
def copyOut (cells : List UInt8) (pos size : Nat) : List UInt8 :=
  let space := cells.length - pos
  if size ≤ space then (cells.drop pos).take size
  else cells.drop pos ++ cells.take (size - space)

/-- The position a number of cells further along the circle. -/
def advance (capacity pos size : Nat) : Nat :=
  let space := capacity - pos
  let next := if size ≤ space then pos + size else size - space
  if next = capacity then 0 else next

/-- The buffer after a write, and what the write did. -/
def write (r : Ring) (data : List UInt8) : Ring × Outcome Written :=
  if r.capacity < data.length then (r, .error (.bufferTooLarge data.length r.capacity))
  else if data.isEmpty then (r, .ok (.fully 0))
  else
    let writePos := advance r.capacity r.writePos data.length
    let cells := copyIn r.cells r.writePos data
    let stored := r.stored + data.length
    if r.capacity < stored then
      (⟨cells, writePos, writePos, r.capacity⟩,
        .ok (.overflowing data.length (stored - r.capacity)))
    else (⟨cells, r.readPos, writePos, stored⟩, .ok (.fully data.length))

/-- The buffer after the oldest bytes, at most `limit`, were taken out, and these bytes. -/
def takeOldest (r : Ring) (limit : Nat) : Ring × List UInt8 :=
  let size := min limit r.stored
  if size = 0 then (r, [])
  else
    ({ r with readPos := advance r.capacity r.readPos size, stored := r.stored - size },
      copyOut r.cells r.readPos size)

/-- The buffer after a read, the output buffer, and the number of bytes read into its front. -/
def read (r : Ring) (out : List UInt8) : Ring × List UInt8 × Nat :=
  let (r', taken) := r.takeOldest out.length
  (r', overlay taken out, min out.length r.stored)

@[simp] theorem capacity_ofCapacity (capacity : Nat) :
    (ofCapacity capacity).capacity = capacity := by
  simp [ofCapacity, Ring.capacity]

@[simp] theorem contents_ofCapacity (capacity : Nat) : (ofCapacity capacity).contents = [] := by
  simp [ofCapacity, contents]

@[simp] theorem contents_clear (r : Ring) : r.clear.contents = [] := by simp [clear, contents]

theorem length_contents {r : Ring} (h : r.stored ≤ r.capacity) : r.contents.length = r.size := by
  simp only [contents, size, capacity] at *
  simp only [List.length_take, List.length_append, List.length_drop]
  omega

theorem read_count (r : Ring) (out : List UInt8) : (r.read out).2.2 = min out.length r.size := rfl

end Ring

end CallBridge.Buffer
