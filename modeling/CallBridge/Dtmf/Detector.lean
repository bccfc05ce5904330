import CallBridge.Audio.Pcm
import CallBridge.Dtmf.Press
import CallBridge.Dtmf.Tone

/-!
# Key detector

Audio is cut into blocks of 205 samples at 8000 Hz, in proportion at higher rates. Each block is
analysed, the results go through the debouncer, and completed presses wait as events. The analysis
is an argument, so framing and events can be studied apart from it.

In the media core, `Detector` is `DtmfDetector` and `Event` is `DtmfEvent`; `ofRate` is its `new`,
`feed` goes through `process` sample by sample, `onBlock` is `on_block`, and `eventOf` is
`finish_active`.

Results:
* `process_nil`: no audio changes nothing.
-/

namespace CallBridge.Dtmf

/-- A completed key press. -/
structure Event where
  key : Key
  durationMs : UInt32
  start : UInt64
deriving DecidableEq, Repr, Inhabited

/-- How a block of samples is heard. -/
abbrev Analysis := List Int16 → Option Key

/-- A detector: its sampling rate, the samples of an incomplete block, and what is known and
waits. -/
structure Detector where
  rate : UInt32
  partialBlock : List Int16
  debouncer : Debouncer
  events : List Event
deriving DecidableEq, Repr, Inhabited

namespace Detector

/-- The detector of a sampling rate, at least 8000 Hz, before any audio. -/
def ofRate (rate : UInt32) : Detector := ⟨max rate 8000, [], Debouncer.start, []⟩

/-- The number of samples in a block. -/
def blockLength (d : Detector) : Nat := 205 * d.rate.toNat / 8000

/-- The analysis by tones at the sampling rate. -/
def tones (d : Detector) : Analysis := Tone.analyse (Tone.tuning d.rate)

/-- The length of a number of blocks in milliseconds. -/
def durationOf (d : Detector) (blocks : Nat) : UInt32 :=
  UInt32.ofNat (blocks * d.blockLength * 1000 / d.rate.toNat)

/-- The event of a completed press. -/
def eventOf (d : Detector) (p : Press) : Event := ⟨p.key, d.durationOf p.blocks, p.start⟩

/-- The detector after a block was heard. -/
def onBlock (d : Detector) (ts : UInt64) (heard : Option Key) : Detector :=
  let (debouncer, done) := d.debouncer.step ts heard
  { d with debouncer, events := d.events ++ (done.map d.eventOf).toList }

/-- The detector after samples arrived, every full block among them being heard. -/
def feed (analysis : Analysis) (ts : UInt64) (d : Detector) (xs : List Int16) : Detector :=
  let block := xs.take d.blockLength
  if _ : 0 < d.blockLength ∧ block.length = d.blockLength then
    feed analysis ts (d.onBlock ts (analysis block)) (xs.drop d.blockLength)
  else { d with partialBlock := xs }
termination_by xs.length
decreasing_by
  have h : block.length ≤ xs.length := List.length_take_le' ..
  rw [List.length_drop]
  omega

/-- The detector after audio captured at a timestamp. -/
def process (analysis : Analysis) (d : Detector) (ts : UInt64) (pcm : List UInt8) : Detector :=
  feed analysis ts d (d.partialBlock ++ Audio.samples pcm)

/-- Whether completed presses wait. -/
def hasEvents (d : Detector) : Bool := !d.events.isEmpty

/-- The detector without its events, and the events. -/
def drain (d : Detector) : Detector × List Event := ({ d with events := [] }, d.events)

/-- The detector with everything but its rate forgotten. -/
def reset (d : Detector) : Detector := ⟨d.rate, [], Debouncer.start, []⟩

theorem process_nil (analysis : Analysis) {d : Detector} (ts : UInt64)
    (h : d.partialBlock.length < d.blockLength) : d.process analysis ts [] = d := by
  rw [process, Audio.samples, List.append_nil, feed]
  split
  · next hb => rw [List.length_take] at hb; omega
  · rfl
  · intros; contradiction

end Detector

end CallBridge.Dtmf
