import CallBridge.Audio.Pcm
import CallBridge.Playout.Jitter
import CallBridge.Playout.Queue

/-!
# Jitter buffer

A playout queue together with the estimate of the delay that the network asks for.

In the media core, `JitterBuffer` is `PlayoutBuffer`, and `target` is its `target_delay`.

Results:
* `read_count`: the number of bytes read is even and fits into the buffer.
-/

namespace CallBridge.Playout

/-- A playout queue with its delays, its sampling rate and its jitter estimate. -/
structure JitterBuffer where
  rate : UInt32
  delays : Delays
  queue : Queue
  jitter : Jitter

namespace JitterBuffer

/-- The empty buffer of a mode and a sampling rate. -/
def empty (mode : Mode) (rate : UInt32) (times : DelayTimes) : JitterBuffer :=
  let delays := Delays.ofTimes times rate
  ⟨rate, delays, Queue.empty mode delays.greatest, Jitter.none⟩

/-- The way frames wait. -/
def mode (b : JitterBuffer) : Mode := b.queue.mode

/-- The number of samples buffered. -/
def buffered (b : JitterBuffer) : Nat := b.queue.buffered

/-- The samples to buffer before playing starts. -/
def target (b : JitterBuffer) : Nat := b.delays.target b.mode b.jitter.delay

/-- The buffer after a frame arrived at a time counted in nanoseconds from its creation. -/
def put (b : JitterBuffer) (stamp : UInt32) (arrivalNanos : Nat) (pcm : List Int16) :
    JitterBuffer :=
  if pcm.isEmpty then b
  else
    { b with
      queue := b.queue.put stamp pcm
      jitter := b.jitter.update b.rate (extend b.queue.lastStamp stamp) arrivalNanos }

/-- The buffer after at most `len` bytes of whole samples were taken out, and these bytes. -/
def take (b : JitterBuffer) (len : Nat) : JitterBuffer × List UInt8 :=
  let (queue, taken) := b.queue.read b.target (len / 2)
  ({ b with queue }, Audio.bytes taken)

/-- The buffer after a read, the output buffer, and the number of bytes read into its front. -/
def read (b : JitterBuffer) (out : List UInt8) : JitterBuffer × List UInt8 × Nat :=
  let (b', front) := b.take out.length
  (b', Audio.overlay front out, front.length)

/-- The buffer with everything that waits given up and the estimate forgotten. -/
def reset (b : JitterBuffer) : JitterBuffer :=
  { b with queue := b.queue.reset, jitter := Jitter.none }

theorem length_queue_read (q : Queue) (target wanted : Nat) :
    (q.read target wanted).2.length ≤ wanted := by
  unfold Queue.read
  split
  · simp only [Queue.length_pull]; omega
  · simp

theorem read_count (b : JitterBuffer) (out : List UInt8) :
    (b.read out).2.2 % 2 = 0 ∧ (b.read out).2.2 ≤ out.length := by
  have h := length_queue_read b.queue b.target (out.length / 2)
  simp only [read, take, Audio.length_bytes]
  omega

end JitterBuffer

end CallBridge.Playout
