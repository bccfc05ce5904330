/-!
# Pacing

A gate lets one frame through for each packetization interval. It opens when it is polled for the
first time, and then whenever at least an interval has passed since it opened last. Timestamps are
words of 64 bits and their differences wrap around.

In the media core, `Gate` is `IntervalGate`, and `poll` is its `due`.

Results:
* `due_of_lt`, `due_of_le`: a later poll opens the gate iff the interval has passed.
-/

namespace CallBridge.Rtp

/-- A gate with the timestamp at which it opened last. -/
structure Gate where
  last : Option UInt64
deriving DecidableEq, Repr, Inhabited

namespace Gate

/-- The gate that was never polled. -/
def start : Gate := ⟨none⟩

/-- Whether a poll at a timestamp opens the gate. -/
def isDue (g : Gate) (ts interval : UInt64) : Bool :=
  match g.last with
  | none => true
  | some last => !decide (ts - last < interval)

/-- The gate after a poll at a timestamp, and whether the poll opened it. -/
def poll (g : Gate) (ts interval : UInt64) : Gate × Bool :=
  if g.isDue ts interval then (⟨some ts⟩, true) else (g, false)

/-- The ticks of a clock that a frame of linear audio takes at a sampling rate. -/
def interval (clockRate sampleRate : UInt32) (frameSize : Nat) : UInt64 :=
  UInt64.ofNat (frameSize / 2) * clockRate.toUInt64 / (max sampleRate 1).toUInt64

theorem due_of_lt {last ts interval : UInt64} (h : ts - last < interval) :
    poll ⟨some last⟩ ts interval = (⟨some last⟩, false) := by simp [poll, isDue, h]

theorem due_of_le {last ts interval : UInt64} (h : ¬ ts - last < interval) :
    poll ⟨some last⟩ ts interval = (⟨some ts⟩, true) := by simp [poll, isDue, h]

end Gate

end CallBridge.Rtp
