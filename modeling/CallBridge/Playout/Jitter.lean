/-!
# Jitter estimate

The interarrival jitter of RFC 3550 in samples: the smoothed difference between the transit times
of neighbouring frames. It is kept in binary floating point with 53 bits, and the order of the
operations is part of what it means.

In the media core, `Jitter.update` is `update_jitter` of `PlayoutBuffer`.
-/

namespace CallBridge.Playout

/-- The estimate so far and the transit time of the last frame. -/
structure Jitter where
  estimate : Float
  lastTransit : Option Float

namespace Jitter

/-- The estimate before the first frame. -/
def none : Jitter := ⟨0.0, Option.none⟩

/-- A time in nanoseconds as seconds: whole seconds plus the rest divided by 10 ^ 9. -/
def seconds (nanos : Nat) : Float :=
  (UInt64.ofNat (nanos / 1000000000)).toFloat +
    (UInt64.ofNat (nanos % 1000000000)).toFloat / 1000000000.0

/-- The estimate after a frame with a widened timestamp arrived. -/
def update (j : Jitter) (rate : UInt32) (ext arrivalNanos : Nat) : Jitter :=
  let transit := seconds arrivalNanos * rate.toFloat - (UInt64.ofNat ext).toFloat
  match j.lastTransit with
  | Option.none => ⟨j.estimate, some transit⟩
  | some last =>
    let d := (transit - last).abs
    ⟨j.estimate + (d - j.estimate) / 16.0, some transit⟩

/-- Three times the estimate in whole samples. -/
def delay (j : Jitter) : Nat := (j.estimate * 3.0).toUInt64.toNat

end Jitter

end CallBridge.Playout
