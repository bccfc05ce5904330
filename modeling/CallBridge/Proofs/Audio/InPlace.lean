import CallBridge.Proofs.Buffer.DropOldest
import CallBridge.Rtp.AudioStream

/-!
# Reading in place

A source is read into the frame of somebody else. It copies piece after piece to the front of the
frame, each behind the one before, and tells how far it came: a ring buffer in at most two pieces, a
recording in one for each time that it is taken up, a playout queue sample by sample. Whatever the
frame held before is left where no piece was put, and no piece is cut or put outside its bytes.

Results:
* `Recording.readChecked_eq`, `Queue.readChecked_eq`: reading piece by piece puts the bytes that are
  taken to the front and tells their number.
* `JitterBuffer.readChecked_eq`: so does a read from a jitter buffer.
* `Source.readChecked_eq`, `AudioStream.readChecked_eq`: so does every kind of source, and so does
  the stream of a leg.
-/

namespace CallBridge

open Audio (overlay)
open Buffer (slice? fillSlice?)

/-- Bytes put behind the front of what was put already. -/
theorem Audio.append_overlay (front piece rest bytes : List UInt8) :
    front ++ piece ++ overlay bytes (rest.drop piece.length) =
      front ++ overlay (piece ++ bytes) rest := by
  simp [overlay, List.drop_drop]

/-! ## Recordings -/

namespace Audio.Recording

/-- The recording after the bytes of a frame from a position on were filled up to a size, the frame,
and the position behind the last byte filled. -/
def readChecked (r : Recording) (size : Nat) (out : List UInt8) (filled : Nat) :
    Option (Recording × List UInt8 × Nat) :=
  if _ : filled < size ∧ r.resume < r.data.length then do
    let count := min (r.data.length - r.resume) (size - filled)
    let piece ← slice? r.data r.resume (r.resume + count)
    let out ← fillSlice? out filled (filled + count) piece
    readChecked { r with position := r.resume + count } size out (filled + count)
  else some (r, out, filled)
termination_by size - filled
decreasing_by omega

theorem chunk_eq_nil_iff (r : Recording) (len : Nat) :
    (r.chunk len).length = 0 ↔ ¬ (0 < len ∧ r.resume < r.data.length) := by
  rw [chunk, List.length_take, List.length_drop]
  omega

/-- Reading piece by piece puts what is played behind what was put already. -/
theorem readChecked_eq (r : Recording) (front rest : List UInt8) :
    r.readChecked (front.length + rest.length) (front ++ rest) front.length =
      some ((r.play rest.length).1, front ++ overlay (r.play rest.length).2 rest,
        front.length + (r.play rest.length).2.length) := by
  generalize hlen : rest.length = len
  fun_induction play r len generalizing front rest with
  | case1 r len hnone =>
    rw [chunk_eq_nil_iff] at hnone
    rw [readChecked, dif_neg (by omega), overlay]
    simp
  | case2 r len hsome played ih =>
    have hgoes : 0 < len ∧ r.resume < r.data.length :=
      Decidable.not_not.1 (mt (chunk_eq_nil_iff r len).2 hsome)
    have hcount : min (r.data.length - r.resume) (front.length + len - front.length) =
        (r.chunk len).length := by
      rw [chunk, List.length_take, List.length_drop, Nat.min_comm, Nat.add_sub_cancel_left]
    have hcut : slice? r.data r.resume (r.resume + (r.chunk len).length) = some (r.chunk len) := by
      rw [Buffer.slice?_eq _ (Nat.le_add_right _ _) (by omega), List.drop_take,
        Nat.add_sub_cancel_left, chunk, List.length_take, ← List.take_eq_take_min]
    have hfill := Buffer.fillSlice?_behind front rest (r.chunk len)
      (hlen ▸ length_chunk_le r len)
    have hrest : (rest.drop (r.chunk len).length).length = len - (r.chunk len).length := by
      rw [List.length_drop, hlen]
    have hnext := ih (front ++ r.chunk len) (rest.drop (r.chunk len).length) hrest
    have hle := length_chunk_le r len
    rw [List.length_append, append_overlay, Nat.add_assoc, Nat.add_sub_cancel' hle] at hnext
    rw [readChecked, dif_pos ⟨by omega, hgoes.2⟩]
    simp only [hcount, hcut, hfill, Option.bind_eq_bind, Option.bind_some, hnext,
      List.length_append, Nat.add_assoc]
    rfl

/-- Reading piece by piece puts what is played to the front of a frame. -/
theorem readChecked_front (r : Recording) (out : List UInt8) :
    r.readChecked out.length out 0 =
      some ((r.play out.length).1, overlay (r.play out.length).2 out,
        (r.play out.length).2.length) := by
  have hread := r.readChecked_eq [] out
  rwa [List.nil_append, List.nil_append, List.length_nil, Nat.zero_add, Nat.zero_add] at hread

end Audio.Recording

/-! ## Playout queues -/

namespace Playout.Queue

/-- What a playout queue goes on with while it fills a frame, the frame, and the number of samples
filled. -/
structure Filling where
  pending : List Int16
  frames : List Frame
  nextStamp : Option Nat
  out : List UInt8
  written : Nat

/-- A frame filled behind what was put already with the samples that playing takes. -/
def Filling.after (p : Pull) (front rest : List UInt8) (written : Nat) : Filling :=
  ⟨p.pending, p.frames, p.nextStamp, front ++ overlay (Audio.bytes p.taken) rest,
    written + p.taken.length⟩

theorem Filling.after_append (p : Pull) (xs : List Int16) (front rest : List UInt8)
    (written : Nat) :
    after p (front ++ Audio.bytes xs) (rest.drop (Audio.bytes xs).length) (written + xs.length) =
      after { p with taken := xs ++ p.taken } front rest written := by
  simp only [after, Audio.append_overlay, Audio.bytes_append, List.length_append, Nat.add_assoc]

/-- Samples put into a frame, each behind the one before, until there are as many as wanted. -/
def fillPending (wanted : Nat) :
    List Int16 → List UInt8 → Nat → Option (List Int16 × List UInt8 × Nat)
  | [], out, written => some ([], out, written)
  | x :: xs, out, written =>
    if written < wanted then do
      let out ← fillSlice? out (2 * written) (2 * written + 2) (Audio.sampleBytes x)
      fillPending wanted xs out (written + 1)
    else some (x :: xs, out, written)

/-- The rest of a frame being played and then one frame after the other put into the frame of
somebody else. -/
def fillFrames (mode : Mode) (wanted : Nat) (pending : List Int16) (next : Option Nat)
    (out : List UInt8) (written : Nat) : List Frame → Option Filling
  | [] => do
    let (pending, out, written) ← fillPending wanted pending out written
    return ⟨pending, [], next, out, written⟩
  | frame :: rest => do
    let (pending, out, written) ← fillPending wanted pending out written
    if written < wanted then
      fillFrames mode wanted frame.2 (stampAfter mode frame next) out written rest
    else return ⟨pending, frame :: rest, next, out, written⟩

/-- The queue after a read into a frame, the frame, and the number of bytes read. -/
def readChecked (q : Queue) (target : Nat) (out : List UInt8) :
    Option (Queue × List UInt8 × Nat) :=
  if q.ready target then do
    let f ← fillFrames q.mode (out.length / 2) q.pending q.nextStamp out 0 q.frames
    return ({ q with
        frames := f.frames
        pending := f.pending
        nextStamp := f.nextStamp
        buffered := q.buffered - f.written
        playing := f.written ≠ 0 }, f.out, 2 * f.written)
  else some (q, out, 0)

theorem fillPending_eq (wanted : Nat) (xs : List Int16) (front rest : List UInt8) (written : Nat)
    (hfront : front.length = 2 * written) (hrest : 2 * (wanted - written) ≤ rest.length) :
    fillPending wanted xs (front ++ rest) written =
      some (xs.drop (wanted - written),
        front ++ overlay (Audio.bytes (xs.take (wanted - written))) rest,
        written + min (wanted - written) xs.length) := by
  induction xs generalizing front rest written with
  | nil => simp [fillPending, Audio.bytes, overlay]
  | cons x xs ih =>
    rw [fillPending]
    by_cases hroom : written < wanted
    · have hbytes : (Audio.sampleBytes x).length = 2 := rfl
      obtain ⟨k, hk⟩ : ∃ k, wanted - written = k + 1 := ⟨wanted - written - 1, by omega⟩
      have hfill := Buffer.fillSlice?_behind front rest (Audio.sampleBytes x) (by omega)
      have hnext := ih (front ++ Audio.sampleBytes x) (rest.drop (Audio.sampleBytes x).length)
        (written + 1) (by rw [List.length_append, hbytes]; omega)
        (by rw [List.length_drop, hbytes]; omega)
      rw [Audio.append_overlay, show wanted - (written + 1) = k by omega] at hnext
      rw [hbytes, hfront] at hfill
      rw [if_pos hroom, hfill, Option.bind_eq_bind, Option.bind_some, ← hbytes, hnext, hk,
        List.drop_succ_cons, List.take_succ_cons, List.length_cons, Nat.add_min_add_right,
        Nat.add_assoc, Nat.add_comm 1]
      rfl
    · have hfull : wanted - written = 0 := by omega
      rw [if_neg hroom, hfull]
      simp [Audio.bytes, overlay]

theorem fillFrames_eq (mode : Mode) (wanted : Nat) (pending : List Int16) (next : Option Nat)
    (front rest : List UInt8) (written : Nat) (frames : List Frame)
    (hfront : front.length = 2 * written) (hrest : 2 * (wanted - written) ≤ rest.length) :
    fillFrames mode wanted pending next (front ++ rest) written frames =
      some (.after (pull mode (wanted - written) pending next frames) front rest written) := by
  induction frames generalizing pending next front rest written with
  | nil =>
    rw [fillFrames, fillPending_eq wanted pending front rest written hfront hrest]
    simp [pull, Filling.after]
  | cons frame frames ih =>
    rw [fillFrames, fillPending_eq wanted pending front rest written hfront hrest, pull]
    simp only [Option.bind_eq_bind, Option.bind_some]
    by_cases hlast : wanted - written ≤ pending.length
    · rw [if_neg (by omega), if_pos hlast, Filling.after, List.length_take]
      rfl
    · have hall : pending.take (wanted - written) = pending := List.take_of_length_le (by omega)
      have hbytes := Audio.length_bytes pending
      have hnext := ih frame.2 (stampAfter mode frame next) (front ++ Audio.bytes pending)
        (rest.drop (Audio.bytes pending).length) (written + pending.length)
        (by rw [List.length_append, hbytes]; omega) (by rw [List.length_drop, hbytes]; omega)
      rw [Filling.after_append, ← Nat.sub_sub, List.append_assoc, ← overlay] at hnext
      rw [if_neg hlast, Nat.min_eq_right (by omega), if_pos (by omega), hall, hnext]

/-- Reading sample by sample puts the samples that are taken to the front. -/
theorem readChecked_eq (q : Queue) (target : Nat) (out : List UInt8) :
    q.readChecked target out =
      some ((q.read target (out.length / 2)).1,
        overlay (Audio.bytes (q.read target (out.length / 2)).2) out,
        (Audio.bytes (q.read target (out.length / 2)).2).length) := by
  unfold readChecked read
  by_cases hready : q.ready target
  · have hfill := fillFrames_eq q.mode (out.length / 2) q.pending q.nextStamp [] out 0 q.frames rfl
      (by omega)
    rw [List.nil_append, Nat.sub_zero] at hfill
    simp only [if_pos hready, hfill, Option.bind_eq_bind, Option.bind_some, Option.pure_def,
      Filling.after, Nat.zero_add, List.nil_append, Audio.length_bytes]
    congr 4
    rw [Bool.eq_iff_iff]
    simp
  · simp only [if_neg hready]
    rfl

end Playout.Queue

namespace Playout.JitterBuffer

/-- The buffer after a read into a frame, sample by sample, the frame, and the number of bytes
read. -/
def readChecked (b : JitterBuffer) (out : List UInt8) :
    Option (JitterBuffer × List UInt8 × Nat) := do
  let (queue, out, n) ← b.queue.readChecked b.target out
  return ({ b with queue }, out, n)

theorem readChecked_eq (b : JitterBuffer) (out : List UInt8) :
    b.readChecked out = some (b.read out) := by
  rw [readChecked, Queue.readChecked_eq]
  rfl

end Playout.JitterBuffer

/-! ## Sources and streams -/

namespace Audio.Source

/-- A source whose ring buffer is sound, if it has one. -/
def Sound : Source → Prop
  | buffered r => r.Sound
  | _ => True

/-- The source after a read into a frame, as each kind of source does it, the frame, and the number
of bytes read. -/
def readChecked (s : Source) (out : List UInt8) : Option (Source × List UInt8 × Outcome Nat) :=
  match s with
  | recording r => do
    let (r, out, n) ← r.readChecked out.length out 0
    return (recording r, out, .ok n)
  | buffered r => do
    let (r, out, n) ← r.readChecked out
    return (buffered r, out, .ok n)
  | broken reason => some (s, out, .error (.stream reason))

/-- Every kind of source puts the bytes that are taken from it to the front of the frame. -/
theorem readChecked_eq {s : Source} (h : s.Sound) (out : List UInt8) :
    s.readChecked out = some (s.read out) := by
  cases s with
  | recording r =>
    simp only [readChecked, Recording.readChecked_front, Option.bind_eq_bind, Option.bind_some]
    rfl
  | buffered r =>
    simp only [readChecked, Buffer.Ring.readChecked_eq h, Option.bind_eq_bind, Option.bind_some,
      Buffer.Ring.read, read, take, Buffer.Ring.length_takeOldest h]
    rfl
  | broken reason => rfl

end Audio.Source

namespace Rtp.AudioStream

/-- The stream after a read into a frame, sample by sample, the frame, and the number of bytes
read. -/
def readChecked (s : AudioStream) (now : Nat) (out : List UInt8) :
    Option (AudioStream × List UInt8 × Outcome Nat) :=
  if s.isTimedOut now then
    some (s, out, .error (.stream s!"RTP timeout on port {s.port.toNat} (leg {s.leg.letter})"))
  else if s.isInitialized then do
    let (playout, out, n) ← s.playout.readChecked out
    return ({ s with playout }, out, .ok n)
  else some (s, out, .ok 0)

/-- A stream puts the samples that are taken from its playout queue to the front of the frame. -/
theorem readChecked_eq (s : AudioStream) (now : Nat) (out : List UInt8) :
    s.readChecked now out = some (s.read now out) := by
  unfold readChecked read take
  by_cases hlate : s.isTimedOut now
  · simp only [if_pos hlate]
  simp only [if_neg hlate]
  by_cases huse : s.isInitialized
  · simp only [if_pos huse, Playout.JitterBuffer.readChecked_eq, Option.bind_eq_bind,
      Option.bind_some]
    rfl
  · simp only [if_neg huse]
    rfl

end Rtp.AudioStream

end CallBridge
