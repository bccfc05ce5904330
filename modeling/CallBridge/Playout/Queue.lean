import CallBridge.Playout.Mode

/-!
# Playout queue

Decoded frames wait here until they are played. In simple mode they wait in the order of their
arrival, in adaptive mode in the order of their timestamps. Timestamps of 32 bits are widened so
that they go on across wrap-arounds; a frame whose timestamp lies before what was already played is
late and rejected, and while more than the greatest delay is buffered the first frame is dropped.

How much must be buffered before playing starts is an argument of `read`, so nothing here depends
on how that delay is estimated.

In the media core, `Queue` is what `PlayoutBuffer` keeps apart from its jitter, `DelayTimes` is
`JitterConfig`, `extend` with `noteStamp` is `extend_timestamp`, and `late` and `dropped` are
counted in `PlayoutStats`.

Results:
* `extend_first`: the first timestamp is put well above zero.
* `length_pull`: a read takes as many samples as there are, up to what it wants.
-/

namespace CallBridge.Playout

/-- Delays in samples. -/
structure Delays where
  least : Nat
  greatest : Nat
  fixed : Nat
deriving DecidableEq, Repr, Inhabited

/-- Delays in milliseconds. -/
structure DelayTimes where
  least : Nat
  greatest : Nat
  fixed : Nat
deriving DecidableEq, Repr, Inhabited

/-- Delays at a sampling rate, the greatest at least one sample. -/
def Delays.ofTimes (times : DelayTimes) (rate : UInt32) : Delays :=
  let samples (ms : Nat) := ms * rate.toNat / 1000
  ⟨samples times.least, max 1 (samples times.greatest), samples times.fixed⟩

/-- The delay to buffer before playing starts, for an estimate of the delay that the network asks
for. It never exceeds the greatest delay, so a full queue can always be played. -/
def Delays.target (d : Delays) (mode : Mode) (estimate : Nat) : Nat :=
  match mode with
  | .simple => min d.fixed d.greatest
  | .adaptive => max (min d.least d.greatest) (min estimate d.greatest)

/-! ## Frames in order -/

/-- A frame and the key it is ordered by. -/
abbrev Frame := Nat × List Int16

/-- Frames in ascending order of their keys with a frame put in its place, and the frame that had
its key before. -/
def insertFrame (key : Nat) (pcm : List Int16) : List Frame → List Frame × Option (List Int16)
  | [] => ([(key, pcm)], none)
  | (k, f) :: rest =>
    if key < k then ((key, pcm) :: (k, f) :: rest, none)
    else if key = k then ((key, pcm) :: rest, some f)
    else
      let (rest, replaced) := insertFrame key pcm rest
      ((k, f) :: rest, replaced)

/-- The number of samples in some frames. -/
def sampleCount : List Frame → Nat
  | [] => 0
  | f :: rest => f.2.length + sampleCount rest

/-- Frames, the samples buffered and the frames dropped, after the first frames were dropped while
too much was buffered. -/
def shed (greatest : Nat) : List Frame → Nat → Nat → List Frame × Nat × Nat
  | [], buffered, drops => ([], buffered, drops)
  | (k, f) :: rest, buffered, drops =>
    if greatest < buffered then shed greatest rest (buffered - f.length) (drops + 1)
    else ((k, f) :: rest, buffered, drops)

/-! ## The queue -/

/-- The frames that wait, the rest of the frame being played, and what has been counted. -/
structure Queue where
  mode : Mode
  greatest : Nat
  frames : List Frame
  pending : List Int16
  buffered : Nat
  playing : Bool
  arrivals : Nat
  nextStamp : Option Nat
  lastStamp : Option Nat
  lateDrops : Nat
  overflowDrops : Nat
deriving DecidableEq, Repr, Inhabited

/-- A widened timestamp: the one closest to the highest timestamp so far. -/
def extend (last : Option Nat) (stamp : UInt32) : Nat :=
  match last with
  | none => stamp.toNat + UInt32.size
  | some last => ((last : Int) + (stamp - UInt32.ofNat last).toInt32.toInt).toNat

namespace Queue

/-- The empty queue of a mode that holds at most `greatest` samples. -/
def empty (mode : Mode) (greatest : Nat) : Queue :=
  ⟨mode, greatest, [], [], 0, false, 0, none, none, 0, 0⟩

/-- The queue with the highest widened timestamp brought up to date. -/
def noteStamp (q : Queue) (ext : Nat) : Queue :=
  match q.lastStamp with
  | none => { q with lastStamp := some ext }
  | some last => if last < ext then { q with lastStamp := some ext } else q

/-- Whether a frame with a widened timestamp comes too late. -/
def isLate (q : Queue) (ext : Nat) : Bool :=
  match q.mode, q.nextStamp with
  | .adaptive, some next => ext < next
  | _, _ => false

/-- The queue with a frame added under a key and the overflow dropped. -/
def enqueue (q : Queue) (key : Nat) (pcm : List Int16) : Queue :=
  let (frames, replaced) := insertFrame key pcm q.frames
  let buffered := q.buffered + pcm.length - (replaced.map (·.length)).getD 0
  let (frames, buffered, drops) := shed q.greatest frames buffered q.overflowDrops
  { q with frames, buffered, overflowDrops := drops }

/-- The queue after a frame with a widened timestamp arrived. -/
def putExtended (q : Queue) (ext : Nat) (pcm : List Int16) : Queue :=
  if q.isLate ext then { q with lateDrops := q.lateDrops + 1 }
  else match q.mode with
    | .simple => { q with arrivals := q.arrivals + 1 }.enqueue (q.arrivals + 1) pcm
    | .adaptive => q.enqueue ext pcm

/-- The queue after a frame arrived; an empty frame leaves it as it is. -/
def put (q : Queue) (stamp : UInt32) (pcm : List Int16) : Queue :=
  if pcm.isEmpty then q
  else
    let ext := extend q.lastStamp stamp
    (q.noteStamp ext).putExtended ext pcm

/-! ## Playing -/

/-- What playing takes: the samples, and what is left of the current frame, of the frames behind
it, and the timestamp expected next. -/
structure Pull where
  taken : List Int16
  pending : List Int16
  frames : List Frame
  nextStamp : Option Nat
deriving DecidableEq, Repr, Inhabited

/-- The timestamp expected after a frame is taken for playing. -/
def stampAfter (mode : Mode) (frame : Frame) (next : Option Nat) : Option Nat :=
  match mode with
  | .adaptive => some (frame.1 + frame.2.length)
  | .simple => next

/-- Takes samples from the rest of a frame and then from one frame after the other. -/
def pull (mode : Mode) (wanted : Nat) (pending : List Int16) (next : Option Nat) :
    List Frame → Pull
  | [] => ⟨pending.take wanted, pending.drop wanted, [], next⟩
  | frame :: rest =>
    if wanted ≤ pending.length then
      ⟨pending.take wanted, pending.drop wanted, frame :: rest, next⟩
    else
      let p := pull mode (wanted - pending.length) frame.2 (stampAfter mode frame next) rest
      { p with taken := pending ++ p.taken }

/-- Whether samples may be played: playing goes on, or at least the target delay is buffered. -/
def ready (q : Queue) (target : Nat) : Bool :=
  q.playing || (q.buffered ≠ 0 && target ≤ q.buffered)

/-- The queue after at most `wanted` samples were taken out to be played, and these samples. -/
def read (q : Queue) (target wanted : Nat) : Queue × List Int16 :=
  if q.ready target then
    let p := pull q.mode wanted q.pending q.nextStamp q.frames
    ({ q with
        frames := p.frames
        pending := p.pending
        nextStamp := p.nextStamp
        buffered := q.buffered - p.taken.length
        playing := !p.taken.isEmpty },
      p.taken)
  else (q, [])

/-- The queue with everything that waits given up; what was counted stays. -/
def reset (q : Queue) : Queue :=
  { q with
    frames := []
    pending := []
    buffered := 0
    playing := false
    nextStamp := none
    lastStamp := none }

theorem extend_first (stamp : UInt32) : extend none stamp = stamp.toNat + UInt32.size := rfl

theorem length_pull (mode : Mode) (wanted : Nat) (pending : List Int16) (next : Option Nat)
    (frames : List Frame) :
    (pull mode wanted pending next frames).taken.length =
      min wanted (pending.length + sampleCount frames) := by
  induction frames generalizing wanted pending next with
  | nil => simp [pull, sampleCount]
  | cons f rest ih =>
    rw [pull]
    split
    · simp only [List.length_take]; omega
    · simp only [List.length_append, ih, sampleCount]
      omega

end Queue

end CallBridge.Playout
