import CallBridge.Audio.Source
import CallBridge.Dtmf.Detector
import CallBridge.Rtp.MediaStream
import CallBridge.Rtp.Receiver

/-!
# Stream pairs

The streams of both legs for one audio line. Packets that both legs understand are relayed, all
other audio is read from one stream, heard by that leg's key detector and written to the other
stream. A leg may be played an alternate source instead of the other leg's audio.

A frame travels through a scratch buffer that is shared with everything else a worker does; only
the bytes that were read into it are passed on.

In the media core, `Pair` is `AudioStreamPair`: `create` is its `new`, `setRelay`, `initLeg`,
`resetLeg`, `writeLeg` and `clear` keep their names, `setAlternate` is `set_alternate_input`,
`drainKeys` is `drain_dtmf`, and `clearTimeout` is `clear_rtp_timeout`. `tick` is one call of
`write_leg` for each leg.

Results:
* `stream_setAlternate`: an alternate source changes no stream.
-/

namespace CallBridge.Bridge

open Rtp (MediaStream Receiver)

variable {σ : Type}

/-- What one leg has in a pair. -/
structure LegMedia (σ : Type) where
  stream : σ
  initialized : Bool
  alternate : Option Audio.Feed
  detector : Option Dtmf.Detector

namespace LegMedia

/-- The media of a leg with a stream just allocated. -/
def ofStream (stream : σ) : LegMedia σ := ⟨stream, false, none, none⟩

/-- The media after a leg's audio was read into a frame and heard by the key detector, the frame,
and the number of bytes read. -/
def listen [MediaStream σ] (m : LegMedia σ) (now : Nat) (ts : UInt64) (frame : List UInt8) :
    LegMedia σ × List UInt8 × Outcome Nat :=
  match MediaStream.read m.stream now frame with
  | (stream, frame, .error f) => ({ m with stream }, frame, .error f)
  | (stream, frame, .ok got) =>
    let hear (d : Dtmf.Detector) := if got = 0 then d else d.process d.tones ts (frame.take got)
    ({ m with stream, detector := m.detector.map hear }, frame, .ok got)

end LegMedia

/-- The streams of both legs, and how received audio waits in them. -/
structure Pair (σ : Type) where
  legs : PerLeg (LegMedia σ)
  playout : Playout.Mode

namespace Pair

/-! ## Queries -/

/-- The media of a leg. -/
def leg (p : Pair σ) (l : Leg) : LegMedia σ := p.legs.get l

/-- The stream of a leg. -/
def stream (p : Pair σ) (l : Leg) : σ := (p.leg l).stream

/-- The port of a leg's stream. -/
def port [MediaStream σ] (p : Pair σ) (l : Leg) : UInt16 := MediaStream.port (p.stream l)

/-- Whether a leg's stream was negotiated. -/
def isInitialized (p : Pair σ) (l : Leg) : Bool := (p.leg l).initialized

/-- The payload types that a leg's stream relays. -/
def relayMask [MediaStream σ] (p : Pair σ) (l : Leg) : Option PayloadMask :=
  MediaStream.relayMask (p.stream l)

/-- Whether keys are detected in a leg's audio. -/
def hasDetector (p : Pair σ) (l : Leg) : Bool := (p.leg l).detector.isSome

/-- Whether a leg is played an alternate source. -/
def hasAlternate (p : Pair σ) (l : Leg) : Bool := (p.leg l).alternate.isSome

/-- Whether there is something to be played to a leg, and somebody to play it to. -/
def isLinked (p : Pair σ) (l : Leg) : Bool :=
  p.isInitialized l && (p.isInitialized l.opposite || p.hasAlternate l)

/-! ## Changing one leg -/

/-- The pair with the media of a leg replaced. -/
def setLeg (p : Pair σ) (l : Leg) (m : LegMedia σ) : Pair σ := { p with legs := p.legs.set l m }

/-- The pair with the stream of a leg replaced. -/
def setStream (p : Pair σ) (l : Leg) (s : σ) : Pair σ :=
  p.setLeg l { p.leg l with stream := s }

/-- The pair with the stream of a leg changed by a function. -/
def modifyStream (p : Pair σ) (l : Leg) (f : σ → σ) : Pair σ := p.setStream l (f (p.stream l))

/-! ## Setting up -/

/-- The receiver after it was asked to read a stream, if the stream has a socket. -/
def attach [MediaStream σ] (r : Receiver) (s : σ) : Receiver × Outcome Unit :=
  if MediaStream.hasSocket s then r.add (MediaStream.port s) else (r, .ok ())

/-- The pair of two streams just allocated, both of them being read. A stream that is read already
stays so where the other one cannot be. -/
def create [MediaStream σ] (a b : σ) (playout : Playout.Mode) (r : Receiver) :
    Receiver × Outcome (Pair σ) :=
  match attach r a with
  | (r, .error f) => (r, .error f)
  | (r, .ok ()) =>
    match attach r b with
    | (r, .error f) => (r, .error f)
    | (r, .ok ()) => (r, .ok ⟨⟨LegMedia.ofStream a, LegMedia.ofStream b⟩, playout⟩)

/-- The stream after it was told to relay the payload types of a media line to a port. Where
nothing is offered, or the relay cannot be set up, nothing is relayed. -/
def relayStream [MediaStream σ] (s : σ) (peer : UInt16) (media : Sdp.Media) : σ :=
  if media.payloads.isEmpty then MediaStream.disableRelay s
  else
    match MediaStream.enableRelay s media.mask peer with
    | (s, .ok ()) => s
    | (s, .error _) => MediaStream.disableRelay s

/-- The pair after the payload types of a leg's remote line became the filter by which the other
leg's stream relays. That stream is not read meanwhile. -/
def setRelay [MediaStream σ] (p : Pair σ) (r : Receiver) (l : Leg) (media : Sdp.Media) :
    Pair σ × Receiver :=
  let s := p.stream l.opposite
  let p := p.setStream l.opposite (relayStream s (p.port l) media)
  if MediaStream.hasSocket s then
    let (r, wasRead) := r.remove (MediaStream.port s)
    (p, if wasRead then (r.add (MediaStream.port s)).1 else r)
  else (p, r)

/-- The receiver after it was asked to read a stream that it does not read yet. -/
def reattach [MediaStream σ] (r : Receiver) (s : σ) : Receiver × Outcome Unit :=
  if r.isRegistered (MediaStream.port s) then (r, .ok ()) else attach r s

/-- The pair after the stream of a leg was bound to a media line of both descriptions. Only where
all goes well the leg counts as negotiated, with a new key detector if keys are to be detected. -/
def initLeg [MediaStream σ] (p : Pair σ) (r : Receiver) (now : Nat) (l : Leg) (detects : Bool)
    (ours theirs : Sdp.Description) (index : Nat) : Pair σ × Receiver × Outcome Unit :=
  let s := MediaStream.setPlayout (p.stream l) now p.playout
  match MediaStream.negotiate s now ours theirs index with
  | (s, .error f) => (p.setStream l s, r, .error f)
  | (s, .ok ()) =>
    match reattach r s with
    | (r, .error f) => (p.setStream l s, r, .error f)
    | (r, .ok ()) =>
      let detector :=
        if detects then some (Dtmf.Detector.ofRate (MediaStream.sampleRate s)) else none
      (p.setLeg l { p.leg l with stream := s, initialized := true, detector }, r, .ok ())

/-- The pair with a leg no longer negotiated, and whether there was anything to reset. -/
def resetLeg (p : Pair σ) (l : Leg) : Pair σ × Bool :=
  (p.setLeg l { p.leg l with initialized := false, detector := none },
    p.isInitialized l || p.hasDetector l)

/-! ## Moving audio -/

/-- The pair after a frame for a leg was read, the frame, and the number of bytes read: from the
leg's alternate source if there is one, and from the other leg's stream if its gate opens. -/
def fetch [MediaStream σ] (p : Pair σ) (now : Nat) (l : Leg) (ts : UInt64) (frame : List UInt8) :
    Pair σ × List UInt8 × Outcome Nat :=
  match (p.leg l).alternate with
  | some feed =>
    let (source, frame, got) := feed.source.read frame
    (p.setLeg l { p.leg l with alternate := some { feed with source } }, frame, got)
  | none =>
    let (s, due) := MediaStream.pollRead (p.stream l.opposite) ts frame.length
    let p := p.setStream l.opposite s
    if due then
      let (m, frame, got) := (p.leg l.opposite).listen now ts frame
      (p.setLeg l.opposite m, frame, got)
    else (p, frame, .ok 0)

/-- The pair after audio was written to a leg's stream, and the number of bytes written. -/
def put [MediaStream σ] (p : Pair σ) (l : Leg) (pcm : List UInt8) : Pair σ × Outcome Nat :=
  let (s, r) := MediaStream.put (p.stream l) pcm
  (p.setStream l s, r)

/-- The pair after a frame was moved to a leg if one is due, the scratch buffer that it went
through, and the number of bytes written. -/
def writeLeg [MediaStream σ] (p : Pair σ) (now : Nat) (l : Leg) (ts : UInt64)
    (scratch : List UInt8) : Pair σ × List UInt8 × Outcome Nat :=
  let size := min (MediaStream.frameSize (p.stream l)) scratch.length
  if p.isLinked l && size ≠ 0 then
    let (s, due) := MediaStream.pollSend (p.stream l) ts size
    let p := p.setStream l s
    if due then
      let (p, frame, got) := p.fetch now l ts (scratch.take size)
      let scratch := frame ++ scratch.drop size
      match got with
      | .error f => (p, scratch, .error f)
      | .ok 0 => (p, scratch, .ok 0)
      | .ok (n + 1) =>
        let (p, written) := p.put l (frame.take (n + 1))
        (p, scratch, written)
    else (p, scratch, .ok 0)
  else (p, scratch, .ok 0)

/-- The pair after a frame was moved to both legs, the scratch buffer, and the first failure. -/
def tick [MediaStream σ] (p : Pair σ) (now : Nat) (ts : UInt64) (scratch : List UInt8) :
    Pair σ × List UInt8 × Outcome Unit :=
  match p.writeLeg now .a ts scratch with
  | (p, scratch, .error f) => (p, scratch, .error f)
  | (p, scratch, .ok _) =>
    match p.writeLeg now .b ts scratch with
    | (p, scratch, .error f) => (p, scratch, .error f)
    | (p, scratch, .ok _) => (p, scratch, .ok ())

/-- The pair after a datagram came in for a leg's stream; what that stream relays is sent by the
stream of the other leg. -/
def deliver [MediaStream σ] (p : Pair σ) (now : Nat) (l : Leg) (data : List UInt8) : Pair σ :=
  let (s, handed) := MediaStream.receive (p.stream l) now true data
  let p := p.setStream l s
  match handed with
  | none => p
  | some packet => p.modifyStream l.opposite fun peer => (MediaStream.relay peer packet).1

/-! ## Alternate sources and keys -/

/-- The pair with the alternate source of a leg replaced, and the closed source that it had. -/
def setAlternate (p : Pair σ) (l : Leg) (feed : Option Audio.Feed) : Pair σ × Option Audio.Feed :=
  (p.setLeg l { p.leg l with alternate := feed }, (p.leg l).alternate.map (·.close))

/-- The pair after a writer wrote to the alternate source with a serial number, and what the write
did, if the source is in use here. -/
def writeAlternate (p : Pair σ) (serial : Nat) (data : List UInt8) :
    Option (Pair σ × Outcome Buffer.Written) :=
  Leg.both.findSome? fun l =>
    match (p.leg l).alternate with
    | none => none
    | some feed =>
      if feed.serial = serial then
        let (feed, written) := feed.write data
        some (p.setLeg l { p.leg l with alternate := some feed }, written)
      else none

/-- The pair without the completed key presses of a leg, and these. -/
def drainKeys (p : Pair σ) (l : Leg) : Pair σ × List Dtmf.Event :=
  match (p.leg l).detector with
  | none => (p, [])
  | some d =>
    let (d, events) := d.drain
    (p.setLeg l { p.leg l with detector := some d }, events)

/-- The pair with the time without received packets started anew on both legs. -/
def clearTimeout [MediaStream σ] (p : Pair σ) (now : Nat) : Pair σ :=
  (p.modifyStream .a (MediaStream.clearTimeout · now)).modifyStream .b
    (MediaStream.clearTimeout · now)

/-! ## Giving up -/

/-- The pair with a leg out of use, the receiver that no longer reads its stream, and the closed
source that it had. -/
def clearLeg [MediaStream σ] (p : Pair σ) (r : Receiver) (l : Leg) :
    Pair σ × Receiver × Option Audio.Feed :=
  let s := p.stream l
  let r := if MediaStream.hasSocket s then (r.remove (MediaStream.port s)).1 else r
  (p.setLeg l ⟨MediaStream.disableRelay s, false, none, none⟩, r,
    (p.leg l).alternate.map (·.close))

/-- The pair with both legs out of use, the receiver, and the closed sources. -/
def clear [MediaStream σ] (p : Pair σ) (r : Receiver) : Pair σ × Receiver × List Audio.Feed :=
  let (p, r, feedA) := p.clearLeg r .a
  let (p, r, feedB) := p.clearLeg r .b
  (p, r, feedA.toList ++ feedB.toList)

/-! ## Laws -/

@[simp] theorem leg_setLeg_self (p : Pair σ) (l : Leg) (m : LegMedia σ) :
    (p.setLeg l m).leg l = m := PerLeg.get_set_self _ _ _

@[simp] theorem leg_setLeg_opposite (p : Pair σ) (l : Leg) (m : LegMedia σ) :
    (p.setLeg l m).leg l.opposite = p.leg l.opposite := PerLeg.get_set_opposite _ _ _

theorem stream_setAlternate (p : Pair σ) (l : Leg) (feed : Option Audio.Feed) (other : Leg) :
    (p.setAlternate l feed).1.stream other = p.stream other := by
  cases l <;> cases other <;> rfl

end Pair

end CallBridge.Bridge
