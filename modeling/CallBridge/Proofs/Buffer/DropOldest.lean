import CallBridge.Audio.Source
import CallBridge.Proofs.Buffer.Circle

/-!
# The ring buffer is a queue that drops the oldest bytes

A queue of a capacity holds a list of bytes. A write puts bytes at its end and leaves the last bytes
that fit, a read takes the oldest bytes out. Whatever is asked of a ring buffer, it holds the bytes
of such a queue and gives its answers; so does a feed whose writers and whose reader come in any
order.

Copying in and out goes in one or two pieces. `Ring.writeChecked` and `Ring.readChecked` do it piece
by piece, and give up where a position of a piece lies outside the bytes it is cut from.

Results:
* `BoundedQueue.held_write`: only the oldest bytes are lost, as many as the answer tells.
* `Ring.writeChecked_eq`, `Ring.readChecked_eq`: no piece is cut outside its bytes.
* `Ring.Holds.perform`, `Ring.Holds.run`: an operation and a run on the ring buffer and on the
  queue.
* `drop_oldest`: every run on a ring buffer of any capacity, also through its writers, is one on the
  queue.
-/

namespace CallBridge.Buffer

open Audio (overlay)

/-! ## The queue -/

/-- A queue of bytes, the oldest first, that holds at most `capacity` of them. -/
structure BoundedQueue where
  capacity : Nat
  held : List UInt8
deriving DecidableEq, Repr, Inhabited

namespace BoundedQueue

/-- The empty queue of a capacity. -/
def empty (capacity : Nat) : BoundedQueue := ⟨capacity, []⟩

/-- The queue after bytes were put at its end, and what became of them: of the old and the new bytes
the last that fit are kept, the others are lost. More bytes than ever fit are refused. -/
def write (q : BoundedQueue) (data : List UInt8) : BoundedQueue × Outcome Written :=
  if q.capacity < data.length then (q, .error (.bufferTooLarge data.length q.capacity))
  else
    let kept := (q.held ++ data).rtake (min q.capacity (q.held.length + data.length))
    let lost := q.held.length + data.length - kept.length
    ({ q with held := kept },
      .ok (if lost = 0 then .fully data.length else .overflowing data.length lost))

/-- The queue without its oldest bytes, at most `limit` of them, and these bytes. -/
def takeOldest (q : BoundedQueue) (limit : Nat) : BoundedQueue × List UInt8 :=
  ({ q with held := q.held.drop limit }, q.held.take limit)

/-- The queue after a read into a buffer, the buffer, of which only the front has changed, and the
number of bytes read. -/
def read (q : BoundedQueue) (out : List UInt8) : BoundedQueue × List UInt8 × Nat :=
  let (q', oldest) := q.takeOldest out.length
  (q', oldest ++ out.drop oldest.length, oldest.length)

/-- The queue without its bytes. -/
def clear (q : BoundedQueue) : BoundedQueue := { q with held := [] }

/-- A write that is taken loses the oldest bytes only, as many as do not fit, and answers how
many. -/
theorem held_write {q : BoundedQueue} {data : List UInt8} (h : data.length ≤ q.capacity) :
    (q.write data).1.held = q.held.drop (q.held.length + data.length - q.capacity) ++ data ∧
      (q.write data).2 =
        .ok (if q.held.length + data.length - q.capacity = 0 then .fully data.length
          else .overflowing data.length (q.held.length + data.length - q.capacity)) := by
  generalize hlost : q.held.length + data.length - q.capacity = lost
  have hkept : (q.held ++ data).rtake (min q.capacity (q.held.length + data.length)) =
      q.held.drop lost ++ data := by
    rw [List.rtake, List.length_append, ← List.drop_append_of_le_length (by omega)]
    congr 1
    omega
  have hcount : q.held.length + data.length - (q.held.drop lost ++ data).length = lost := by
    rw [List.length_append, List.length_drop]
    omega
  simp only [write, if_neg (Nat.not_lt.2 h), hkept, hcount, true_and]

end BoundedQueue

/-! ## Operations -/

/-- What is asked of a buffer of bytes. -/
inductive Operation where
  | write (data : List UInt8)
  /-- A read into a buffer. -/
  | read (out : List UInt8)
  /-- A read of at most `limit` bytes into a new buffer. -/
  | readNew (limit : Nat)
  | clear
deriving Repr, Inhabited

/-- What is answered. -/
inductive Answer where
  | written (w : Outcome Written)
  | filled (out : List UInt8) (count : Outcome Nat)
  | taken (bytes : List UInt8)
  | cleared

/-- The queue after an operation, and the answer. -/
def BoundedQueue.perform (q : BoundedQueue) : Operation → BoundedQueue × Answer
  | .write data => let (q, w) := q.write data; (q, .written w)
  | .read out => let (q, out, n) := q.read out; (q, .filled out (.ok n))
  | .readNew limit => let (q, bytes) := q.takeOldest limit; (q, .taken bytes)
  | .clear => (q.clear, .cleared)

/-- The queue after a run of operations, and the answers. -/
def BoundedQueue.run (q : BoundedQueue) : List Operation → BoundedQueue × List Answer
  | [] => (q, [])
  | op :: ops =>
    let (q, a) := q.perform op
    let (q, as) := q.run ops
    (q, a :: as)

namespace BoundedQueue

@[simp] theorem capacity_perform (q : BoundedQueue) (op : Operation) :
    (q.perform op).1.capacity = q.capacity := by
  cases op with
  | write data =>
    simp only [perform, write]
    split <;> rfl
  | read out => rfl
  | readNew limit => rfl
  | clear => rfl

@[simp] theorem capacity_run (q : BoundedQueue) (ops : List Operation) :
    (q.run ops).1.capacity = q.capacity := by
  induction ops generalizing q with
  | nil => rfl
  | cons op ops ih => rw [run, ih, capacity_perform]

end BoundedQueue

namespace Ring

/-- The ring buffer after an operation, and the answer. -/
def perform (r : Ring) : Operation → Ring × Answer
  | .write data => let (r, w) := r.write data; (r, .written w)
  | .read out => let (r, out, n) := r.read out; (r, .filled out (.ok n))
  | .readNew limit => let (r, bytes) := r.takeOldest limit; (r, .taken bytes)
  | .clear => (r.clear, .cleared)

/-- The ring buffer after a run of operations, and the answers. -/
def run (r : Ring) : List Operation → Ring × List Answer
  | [] => (r, [])
  | op :: ops =>
    let (r, a) := r.perform op
    let (r, as) := r.run ops
    (r, a :: as)

end Ring

/-! ## Piece by piece -/

/-- The bytes between two positions, if both lie in the bytes, in this order. -/
def slice? (bytes : List UInt8) (first last : Nat) : Option (List UInt8) :=
  if first ≤ last ∧ last ≤ bytes.length then some ((bytes.take last).drop first) else none

/-- The bytes with those between two positions replaced, if both positions lie in the bytes, in this
order, and there are as many new bytes as old ones. -/
def fillSlice? (bytes : List UInt8) (first last : Nat) (data : List UInt8) : Option (List UInt8) :=
  if first ≤ last ∧ last ≤ bytes.length ∧ data.length = last - first then
    some (bytes.take first ++ data ++ bytes.drop last)
  else none

/-- The number of steps from one position to another, if it does not lie ahead. -/
def distance? (last first : Nat) : Option Nat := if first ≤ last then some (last - first) else none

theorem slice?_eq (bytes : List UInt8) {first last : Nat} (horder : first ≤ last)
    (hlast : last ≤ bytes.length) : slice? bytes first last = some ((bytes.take last).drop first) :=
  if_pos ⟨horder, hlast⟩

theorem fillSlice?_eq (bytes : List UInt8) {data : List UInt8} {first last : Nat}
    (horder : first ≤ last) (hlast : last ≤ bytes.length) (hdata : data.length = last - first) :
    fillSlice? bytes first last data = some (bytes.take first ++ data ++ bytes.drop last) :=
  if_pos ⟨horder, hlast, hdata⟩

/-- Bytes put behind the first ones. -/
theorem fillSlice?_behind (first rest data : List UInt8) (hfits : data.length ≤ rest.length) :
    fillSlice? (first ++ rest) first.length (first.length + data.length) data =
      some (first ++ data ++ rest.drop data.length) := by
  rw [fillSlice?_eq _ (by omega) (by rw [List.length_append]; omega) (by omega), List.take_left,
    List.drop_append, List.drop_eq_nil_of_le (by omega), List.nil_append, Nat.add_sub_cancel_left]

theorem distance?_eq {last first : Nat} (horder : first ≤ last) :
    distance? last first = some (last - first) := if_pos horder

namespace Ring

/-- The cells with bytes copied in from a position on, in one or two pieces, and the position behind
the last piece. -/
def copyInChecked (cells : List UInt8) (pos : Nat) (data : List UInt8) :
    Option (List UInt8 × Nat) := do
  let space ← distance? cells.length pos
  if data.length ≤ space then
    let cells ← fillSlice? cells pos (pos + data.length) data
    return (cells, pos + data.length)
  else
    let front ← slice? data 0 space
    let cells ← fillSlice? cells pos cells.length front
    let back ← slice? data space data.length
    let wrapped ← distance? data.length space
    let cells ← fillSlice? cells 0 wrapped back
    return (cells, wrapped)

/-- The output with a number of bytes copied to its front from a position on, in one or two pieces,
and the position behind the last piece. -/
def copyOutChecked (cells : List UInt8) (pos size : Nat) (out : List UInt8) :
    Option (List UInt8 × Nat) := do
  let space ← distance? cells.length pos
  if size ≤ space then
    let bytes ← slice? cells pos (pos + size)
    let out ← fillSlice? out 0 size bytes
    return (out, pos + size)
  else
    let front ← slice? cells pos cells.length
    let out ← fillSlice? out 0 space front
    let wrapped ← distance? size space
    let back ← slice? cells 0 wrapped
    let out ← fillSlice? out space size back
    return (out, wrapped)

/-- A write in pieces. -/
def writeChecked (r : Ring) (data : List UInt8) : Option (Ring × Outcome Written) :=
  if r.capacity < data.length then some (r, .error (.bufferTooLarge data.length r.capacity))
  else if data.isEmpty then some (r, .ok (.fully 0))
  else do
    let (cells, next) ← copyInChecked r.cells r.writePos data
    let writePos := if next = r.capacity then 0 else next
    let stored := r.stored + data.length
    if r.capacity < stored then
      let dropped ← distance? stored r.capacity
      return (⟨cells, writePos, writePos, r.capacity⟩, .ok (.overflowing data.length dropped))
    else return (⟨cells, r.readPos, writePos, stored⟩, .ok (.fully data.length))

/-- A read into a buffer in pieces. -/
def readChecked (r : Ring) (out : List UInt8) : Option (Ring × List UInt8 × Nat) :=
  let size := min out.length r.stored
  if size = 0 then some (r, out, 0)
  else do
    let (out, next) ← copyOutChecked r.cells r.readPos size out
    let stored ← distance? r.stored size
    return ({ r with readPos := if next = r.capacity then 0 else next, stored }, out, size)

/-- An operation in pieces. A read into a new buffer makes one that is no larger than needed. -/
def performChecked (r : Ring) : Operation → Option (Ring × Answer)
  | .write data => do
    let (r, w) ← r.writeChecked data
    return (r, .written w)
  | .read out => do
    let (r, out, n) ← r.readChecked out
    return (r, .filled out (.ok n))
  | .readNew limit => do
    let (r, out, n) ← r.readChecked (List.replicate (min limit r.stored) 0)
    return (r, .taken (out.take n))
  | .clear => some (r.clear, .cleared)

/-- A run of operations in pieces. -/
def runChecked (r : Ring) : List Operation → Option (Ring × List Answer)
  | [] => some (r, [])
  | op :: ops => do
    let (r, a) ← r.performChecked op
    let (r, as) ← r.runChecked ops
    return (r, a :: as)

theorem copyInChecked_eq {cells data : List UInt8} {pos : Nat} (hpos : pos ≤ cells.length)
    (hdata : data.length ≤ cells.length) :
    ∃ next, copyInChecked cells pos data = some (copyIn cells pos data, next) ∧
      (if next = cells.length then 0 else next) = advance cells.length pos data.length := by
  unfold copyInChecked copyIn advance
  rw [distance?_eq hpos, Option.bind_eq_bind, Option.bind_some]
  by_cases hspace : data.length ≤ cells.length - pos
  · refine ⟨pos + data.length, ?_, by simp only [if_pos hspace]⟩
    simp only [if_pos hspace]
    rw [fillSlice?_eq _ (by omega) (by omega) (by omega)]
    rfl
  · refine ⟨data.length - (cells.length - pos), ?_, by simp only [if_neg hspace]⟩
    have hfront : (data.take (cells.length - pos)).length = cells.length - pos := by
      rw [List.length_take]
      omega
    have hlength : (cells.take pos ++ data.take (cells.length - pos)).length = cells.length := by
      rw [List.length_append, List.length_take, hfront]
      omega
    have hfill := fillSlice?_eq cells hpos le_rfl hfront
    have hrefill := fillSlice?_eq (cells.take pos ++ data.take (cells.length - pos))
      (Nat.zero_le (data.length - (cells.length - pos))) (by omega)
      (List.length_drop (l := data) (i := cells.length - pos))
    rw [List.drop_length, List.append_nil] at hfill
    rw [List.take_zero, List.nil_append,
      List.drop_append_of_le_length (by rw [List.length_take]; omega)] at hrefill
    simp only [if_neg hspace]
    rw [slice?_eq data (Nat.zero_le _) (by omega), slice?_eq data (by omega) le_rfl,
      distance?_eq (by omega), List.drop_zero, List.take_length]
    simp only [Option.bind_eq_bind, Option.bind_some, hfill, hrefill, Option.pure_def,
      List.append_assoc]

theorem copyOutChecked_eq {cells out : List UInt8} {pos size : Nat} (hpos : pos ≤ cells.length)
    (hsize : size ≤ cells.length) (hout : size ≤ out.length) :
    ∃ next, copyOutChecked cells pos size out = some (overlay (copyOut cells pos size) out, next) ∧
      (if next = cells.length then 0 else next) = advance cells.length pos size := by
  unfold copyOutChecked copyOut advance overlay
  rw [distance?_eq hpos, Option.bind_eq_bind, Option.bind_some]
  by_cases hspace : size ≤ cells.length - pos
  · refine ⟨pos + size, ?_, by simp only [if_pos hspace]⟩
    have hpiece : ((cells.drop pos).take size).length = size := by
      rw [List.length_take, List.length_drop]
      omega
    simp only [if_pos hspace]
    rw [slice?_eq cells (by omega) (by omega), Option.bind_eq_bind, Option.bind_some,
      List.drop_take,
      Nat.add_sub_cancel_left, fillSlice?_eq _ (by omega) hout hpiece, hpiece, List.take_zero,
      List.nil_append]
    rfl
  · refine ⟨size - (cells.length - pos), ?_, by simp only [if_neg hspace]⟩
    have hfront : (cells.drop pos).length = cells.length - pos := List.length_drop
    have hback : (cells.take (size - (cells.length - pos))).length =
        size - (cells.length - pos) := by
      rw [List.length_take]
      omega
    have hsum : cells.length - pos + (size - (cells.length - pos)) = size := by omega
    have hcut := slice?_eq cells (Nat.zero_le (size - (cells.length - pos))) (by omega)
    have hfill := fillSlice?_behind [] out (cells.drop pos) (by omega)
    have hrefill := fillSlice?_behind (cells.drop pos) (out.drop (cells.length - pos))
      (cells.take (size - (cells.length - pos)))
      (by rw [hback, List.length_drop]; omega)
    simp only [List.nil_append, List.length_nil, Nat.zero_add, hfront, hback, List.drop_drop,
      hsum] at hfill hrefill
    simp only [if_neg hspace]
    rw [slice?_eq cells hpos le_rfl, distance?_eq (by omega), List.take_length, List.length_append,
      hfront, hback, hsum]
    simp only [Option.bind_eq_bind, Option.bind_some, hfill, hcut, List.drop_zero, hrefill,
      Option.pure_def]

variable {r : Ring}

/-- A write cuts no piece outside its bytes. -/
theorem writeChecked_eq (h : r.Sound) (data : List UInt8) :
    r.writeChecked data = some (r.write data) := by
  unfold writeChecked write
  by_cases htoo : r.capacity < data.length
  · simp only [if_pos htoo]
  by_cases hne : data.isEmpty
  · simp only [if_neg htoo, if_pos hne]
  simp only [if_neg htoo, if_neg hne]
  obtain ⟨next, hcopy, hnext⟩ := copyInChecked_eq h.writePos_le (Nat.le_of_not_lt htoo)
  rw [hcopy, Option.bind_eq_bind, Option.bind_some, capacity, hnext]
  by_cases hfull : r.cells.length < r.stored + data.length
  · simp only [if_pos hfull, distance?_eq (Nat.le_of_lt hfull), Option.bind_eq_bind,
      Option.bind_some, Option.pure_def]
  · simp only [if_neg hfull, Option.pure_def]

/-- A read cuts no piece outside its bytes. -/
theorem readChecked_eq (h : r.Sound) (out : List UInt8) :
    r.readChecked out = some (r.read out) := by
  have hstored := h.stored_le
  unfold readChecked read takeOldest
  by_cases hzero : min out.length r.stored = 0
  · simp [hzero, overlay]
  simp only [if_neg hzero]
  obtain ⟨next, hcopy, hnext⟩ := copyOutChecked_eq h.readPos_le
    ((Nat.min_le_right out.length r.stored).trans hstored) (Nat.min_le_left _ _)
  rw [hcopy, Option.bind_eq_bind, Option.bind_some,
    distance?_eq (Nat.min_le_right out.length r.stored), Option.bind_eq_bind, Option.bind_some,
    capacity, hnext]
  rfl

theorem performChecked_eq (h : r.Sound) (op : Operation) :
    r.performChecked op = some (r.perform op) := by
  cases op with
  | write data => simp only [performChecked, perform, writeChecked_eq h, Option.bind_eq_bind,
      Option.bind_some, Option.pure_def]
  | read out => simp only [performChecked, perform, readChecked_eq h, Option.bind_eq_bind,
      Option.bind_some, Option.pure_def]
  | readNew limit =>
    -- the new buffer has just the length of what is read into it
    have htaken : (r.takeOldest (min limit r.stored)) = r.takeOldest limit := by
      simp only [takeOldest, Nat.min_assoc, Nat.min_self]
    have hlength := length_takeOldest h limit
    have hread : r.read (List.replicate (min limit r.stored) 0) =
        ((r.takeOldest limit).1, (r.takeOldest limit).2, min limit r.stored) := by
      simp only [read, List.length_replicate, htaken, Nat.min_assoc, Nat.min_self]
      rw [overlay, List.drop_eq_nil_of_le (by rw [List.length_replicate, hlength]),
        List.append_nil]
    simp only [performChecked, perform, readChecked_eq h, hread, Option.bind_eq_bind,
      Option.bind_some, Option.pure_def]
    rw [← hlength, List.take_length]
  | clear => rfl

/-! ## Runs -/

/-- A ring buffer that holds the bytes of a queue. -/
structure Holds (r : Ring) (q : BoundedQueue) : Prop where
  sound : r.Sound
  capacity_eq : r.capacity = q.capacity
  contents_eq : r.contents = q.held

theorem Holds.empty (capacity : Nat) : (ofCapacity capacity).Holds (.empty capacity) :=
  ⟨Sound.ofCapacity capacity, capacity_ofCapacity capacity, contents_ofCapacity capacity⟩

theorem Holds.stored_eq {q : BoundedQueue} (h : r.Holds q) : r.stored = q.held.length := by
  rw [← h.contents_eq, length_contents h.sound.stored_le, size]

theorem Holds.write {q : BoundedQueue} (h : r.Holds q) (data : List UInt8) :
    (r.write data).1.Holds (q.write data).1 ∧ (r.write data).2 = (q.write data).2 := by
  have hstored := h.stored_eq
  have hle := h.sound.stored_le
  rw [written_eq hle, BoundedQueue.write, h.capacity_eq]
  by_cases htoo : q.capacity < data.length
  · simp only [if_pos htoo]
    have hsame : (r.write data).1 = r := by simp [Ring.write, h.capacity_eq, htoo]
    exact ⟨by rwa [hsame], trivial⟩
  · simp only [if_neg htoo]
    refine ⟨⟨h.sound.write data, ?_, ?_⟩, ?_⟩
    · rw [capacity_write h.sound, h.capacity_eq]
    · rw [contents_write h.sound (by rw [h.capacity_eq]; omega), h.contents_eq, h.capacity_eq,
        hstored]
    · have hkept : ((q.held ++ data).rtake (min q.capacity (q.held.length + data.length))).length =
          min q.capacity (q.held.length + data.length) := by
        rw [List.rtake, List.length_drop, List.length_append]
        omega
      rw [hkept, hstored]
      by_cases hfits : q.held.length + data.length ≤ q.capacity
      · rw [if_pos hfits, if_pos (by omega)]
      · rw [if_neg hfits, if_neg (by omega), Nat.min_eq_left (by omega)]

theorem Holds.takeOldest {q : BoundedQueue} (h : r.Holds q) (limit : Nat) :
    (r.takeOldest limit).1.Holds (q.takeOldest limit).1 ∧
      (r.takeOldest limit).2 = (q.takeOldest limit).2 := by
  obtain ⟨htaken, hcontents⟩ := contents_takeOldest h.sound limit
  refine ⟨⟨h.sound.takeOldest limit, ?_, ?_⟩, ?_⟩
  · rw [capacity_takeOldest, h.capacity_eq, BoundedQueue.takeOldest]
  · rw [hcontents, h.contents_eq, BoundedQueue.takeOldest]
  · rw [htaken, h.contents_eq, BoundedQueue.takeOldest]

theorem Holds.clear {q : BoundedQueue} (h : r.Holds q) : r.clear.Holds q.clear :=
  ⟨h.sound.clear, h.capacity_eq, contents_clear r⟩

/-- An operation on the ring buffer is one on the queue. -/
theorem Holds.perform {q : BoundedQueue} (h : r.Holds q) (op : Operation) :
    (r.perform op).1.Holds (q.perform op).1 ∧ (r.perform op).2 = (q.perform op).2 := by
  cases op with
  | write data =>
    obtain ⟨hnext, hanswer⟩ := h.write data
    exact ⟨hnext, congrArg Answer.written hanswer⟩
  | read out =>
    obtain ⟨hnext, htaken⟩ := h.takeOldest out.length
    refine ⟨hnext, ?_⟩
    simp only [Ring.perform, BoundedQueue.perform, read, BoundedQueue.read, htaken, overlay]
    rw [BoundedQueue.takeOldest, List.length_take, h.stored_eq]
  | readNew limit =>
    obtain ⟨hnext, htaken⟩ := h.takeOldest limit
    exact ⟨hnext, congrArg Answer.taken htaken⟩
  | clear => exact ⟨h.clear, rfl⟩

/-- A run on the ring buffer is one on the queue. -/
theorem Holds.run {q : BoundedQueue} (h : r.Holds q) (ops : List Operation) :
    (r.run ops).1.Holds (q.run ops).1 ∧ (r.run ops).2 = (q.run ops).2 ∧
      r.runChecked ops = some (r.run ops) := by
  induction ops generalizing r q with
  | nil => exact ⟨h, rfl, rfl⟩
  | cons op ops ih =>
    obtain ⟨hnext, hanswer⟩ := h.perform op
    obtain ⟨hlast, hanswers, hchecked⟩ := ih hnext
    refine ⟨hlast, ?_, ?_⟩
    · simp only [Ring.run, BoundedQueue.run, hanswer, hanswers]
    · simp only [runChecked, performChecked_eq h.sound, hchecked, Ring.run, Option.bind_eq_bind,
        Option.bind_some, Option.pure_def]

end Ring

/-! ## Feeds -/

/-- What is asked of a feed: its writers write to it, each at its own time, and its reader reads
from it and closes it. -/
inductive Request where
  | write (writer : Nat) (data : List UInt8)
  | read (out : List UInt8)
  | close
deriving Repr, Inhabited

/-- The operation on the ring buffer of the feed. -/
def Request.operation : Request → Operation
  | .write _ data => .write data
  | .read out => .read out
  | .close => .clear

end CallBridge.Buffer

namespace CallBridge.Audio.Feed

open Buffer (Answer Request)

/-- The feed after a request, and the answer. -/
def perform (f : Feed) : Request → Feed × Answer
  | .write _ data => let (f, w) := f.write data; (f, .written w)
  | .read out => let (source, out, n) := f.source.read out; ({ f with source }, .filled out n)
  | .close => (f.close, .cleared)

/-- The feed after the requests of all who use it, in the order in which they come, and the
answers. -/
def run (f : Feed) : List Request → Feed × List Answer
  | [] => (f, [])
  | request :: requests =>
    let (f, a) := f.perform request
    let (f, as) := f.run requests
    (f, a :: as)

/-- The feed with a ring buffer. -/
def ofRing (serial : Nat) (r : Buffer.Ring) : Feed := ⟨serial, .buffered r⟩

variable {r : Buffer.Ring} {q : Buffer.BoundedQueue}

theorem perform_ofRing (h : r.Holds q) (serial : Nat) (request : Request) :
    (ofRing serial r).perform request =
      (ofRing serial (r.perform request.operation).1, (r.perform request.operation).2) := by
  cases request with
  | write writer data => rfl
  | read out =>
    simp only [perform, ofRing, Source.read, Source.take, Request.operation,
      Buffer.Ring.perform, Buffer.Ring.read, Buffer.Ring.length_takeOldest h.sound]
  | close => rfl

/-- Requests to the feed are operations on its ring buffer. -/
theorem run_ofRing (h : r.Holds q) (serial : Nat) (requests : List Request) :
    (ofRing serial r).run requests =
      (ofRing serial (r.run (requests.map Request.operation)).1,
        (r.run (requests.map Request.operation)).2) := by
  induction requests generalizing r q with
  | nil => rfl
  | cons request requests ih =>
    simp only [run, perform_ofRing h, ih (h.perform request.operation).1, List.map_cons,
      Buffer.Ring.run]

end CallBridge.Audio.Feed

namespace CallBridge.Buffer

/-- **Main theorem**: a ring buffer of any capacity holds the bytes of a queue that drops the
oldest, gives its answers, holds no more than its capacity, and cuts no piece outside its bytes,
whatever is asked of it; and so does the feed of such a ring buffer, in whatever order its writers
and its reader come. -/
theorem drop_oldest (capacity : Nat) :
    (∀ ops : List Operation,
      let (q, answers) := (BoundedQueue.empty capacity).run ops
      ∃ r : Ring, (Ring.ofCapacity capacity).run ops = (r, answers) ∧
        (Ring.ofCapacity capacity).runChecked ops = some (r, answers) ∧
        r.contents = q.held ∧ r.size = q.held.length ∧ r.size ≤ capacity) ∧
    ∀ (serial : Nat) (requests : List Request),
      let (q, answers) := (BoundedQueue.empty capacity).run (requests.map Request.operation)
      ∃ r : Ring, (Audio.Feed.ofRing serial (Ring.ofCapacity capacity)).run requests =
          (Audio.Feed.ofRing serial r, answers) ∧
        r.contents = q.held ∧ r.size = q.held.length ∧ r.size ≤ capacity := by
  have hlast (ops : List Operation) := (Ring.Holds.empty capacity).run ops
  have hsize (ops : List Operation) : ((Ring.ofCapacity capacity).run ops).1.size ≤ capacity := by
    have hcapacity := (hlast ops).1.capacity_eq
    rw [BoundedQueue.capacity_run] at hcapacity
    exact (hlast ops).1.sound.stored_le.trans_eq hcapacity
  refine ⟨fun ops => ?_, fun serial requests => ?_⟩
  · obtain ⟨hholds, hanswers, hchecked⟩ := hlast ops
    exact ⟨_, Prod.ext rfl hanswers, hchecked.trans (congrArg some (Prod.ext rfl hanswers)),
      hholds.contents_eq, hholds.stored_eq, hsize ops⟩
  · obtain ⟨hholds, hanswers, -⟩ := hlast (requests.map Request.operation)
    have hrun := Audio.Feed.run_ofRing (Ring.Holds.empty capacity) serial requests
    exact ⟨_, hrun.trans (Prod.ext rfl hanswers), hholds.contents_eq, hholds.stored_eq, hsize _⟩

end CallBridge.Buffer
