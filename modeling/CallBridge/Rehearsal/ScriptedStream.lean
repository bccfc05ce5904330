import CallBridge.Audio.Pcm
import CallBridge.Rtp.MediaStream

/-!
# Scripted streams

Streams without a network, for trying out what bridges do with streams. Received audio is a queue
of bytes that a script fills. Gates open at the multiples of a number. A script chooses which calls
fail, and every call that matters is logged.
-/

namespace CallBridge.Rehearsal

open Rtp (Packet)

/-- A call that a script can make fail. -/
inductive Call where
  | read
  | put
  | relay
  | relayPacket
  | negotiate
deriving DecidableEq, Repr, Inhabited

/-- The name of a call. -/
def Call.name : Call → String
  | read => "get"
  | put => "put"
  | relay => "relay"
  | relayPacket => "relay_packet"
  | negotiate => "init"

/-- The call that a name stands for. -/
def Call.ofName? (name : String) : Option Call :=
  [read, put, relay, relayPacket, negotiate].find? (·.name = name)

/-- The fault of a call that a script made fail. -/
def Call.fault (c : Call) : Fault := .stream (c.name ++ " failed")

/-- What a scripted stream was made to do. -/
inductive Entry where
  | put (pcm : List UInt8)
  | relayOn (mask : PayloadMask) (peer : UInt16)
  | relayOff
  | relayed (datagram : List UInt8)
  | negotiated (line : Nat)
  | playout (mode : Playout.Mode)
  | received (datagram : List UInt8)
  | timeoutCleared
deriving DecidableEq, Repr, Inhabited

/-- A stream that follows a script. -/
structure ScriptedStream where
  port : UInt16
  frameSize : Nat
  sampleRate : UInt32
  sendEvery : UInt64
  readEvery : UInt64
  hasSocket : Bool
  queue : List UInt8
  failing : List Call
  relaying : Option (PayloadMask × UInt16)
  log : List Entry
deriving DecidableEq, Repr, Inhabited

/-- What a script changes about a stream; what is absent stays. -/
structure Tuning where
  frameSize : Option Nat
  sampleRate : Option UInt32
  sendEvery : Option UInt64
  readEvery : Option UInt64
  hasSocket : Option Bool
  failing : Option (List Call)
  audio : List UInt8
deriving DecidableEq, Repr, Inhabited

namespace ScriptedStream

/-- The stream on a port: frames of 320 bytes at 8000 Hz, and gates that are always open. -/
def onPort (port : UInt16) : ScriptedStream := ⟨port, 320, 8000, 1, 1, true, [], [], none, []⟩

/-- The stream after a script changed it; audio is appended to the queue. -/
def tune (t : Tuning) (s : ScriptedStream) : ScriptedStream :=
  { s with
    frameSize := t.frameSize.getD s.frameSize
    sampleRate := t.sampleRate.getD s.sampleRate
    sendEvery := t.sendEvery.getD s.sendEvery
    readEvery := t.readEvery.getD s.readEvery
    hasSocket := t.hasSocket.getD s.hasSocket
    failing := t.failing.getD s.failing
    queue := s.queue ++ t.audio }

/-- The stream after an entry was logged. -/
def note (s : ScriptedStream) (e : Entry) : ScriptedStream := { s with log := s.log ++ [e] }

/-- The answer of a call that the script may have made fail. -/
def answer {α : Type} (s : ScriptedStream) (c : Call) (value : α) : Outcome α :=
  if s.failing.contains c then .error c.fault else .ok value

/-- The stream after a read of the oldest audio in the queue. -/
def read (s : ScriptedStream) (out : List UInt8) : ScriptedStream × List UInt8 × Outcome Nat :=
  match s.answer .read (s.queue.take out.length) with
  | .ok bytes =>
    ({ s with queue := s.queue.drop out.length }, Audio.overlay bytes out, .ok bytes.length)
  | .error f => (s, out, .error f)

/-- The stream after audio was written to it. -/
def put (s : ScriptedStream) (pcm : List UInt8) : ScriptedStream × Outcome Nat :=
  match s.answer .put pcm.length with
  | .ok n => (s.note (.put pcm), .ok n)
  | .error f => (s, .error f)

/-- The stream after a relay was set up; it stays in place even where the call fails. -/
def enableRelay (s : ScriptedStream) (mask : PayloadMask) (peer : UInt16) :
    ScriptedStream × Outcome Unit :=
  ({ s.note (.relayOn mask peer) with relaying := some (mask, peer) }, s.answer .relay ())

/-- The stream without a relay. -/
def disableRelay (s : ScriptedStream) : ScriptedStream :=
  { s.note .relayOff with relaying := none }

/-- The stream after a packet of the other leg was passed to it. -/
def relay (s : ScriptedStream) (packet : Packet) : ScriptedStream × Outcome Unit :=
  match s.answer .relayPacket () with
  | .ok () => (s.note (.relayed packet.serialize), .ok ())
  | .error f => (s, .error f)

/-- Whether the lines share a payload type. -/
def compatible (ours theirs : Sdp.Media) : Bool :=
  theirs.payloadTypes.any ours.payloadTypes.contains

/-- What comes of negotiating a media line. -/
def agree (ours theirs : Sdp.Description) (line : Nat) : Outcome Unit :=
  match ours.media[line]?, theirs.media[line]? with
  | some here, some there =>
    if compatible here there then .ok () else .error (.noCompatiblePayload line)
  | _, _ => .error (.mediaLineNotFound line)

/-- The stream after it was bound to a media line. -/
def negotiate (s : ScriptedStream) (ours theirs : Sdp.Description) (line : Nat) :
    ScriptedStream × Outcome Unit :=
  (s.note (.negotiated line), (s.answer .negotiate ()).bind fun _ => agree ours theirs line)

/-- Whether a packet goes to the peer. -/
def isRelayed (s : ScriptedStream) (packet : Packet) : Bool :=
  match s.relaying with
  | some (mask, _) => mask.contains packet.payloadType
  | none => false

/-- The stream after a datagram came in, and the packet that is to be relayed. -/
def receive (s : ScriptedStream) (peerExists : Bool) (data : List UInt8) :
    ScriptedStream × Option Packet :=
  let heard := s.note (.received data)
  match Packet.parse data with
  | .ok packet => (heard, if s.isRelayed packet && peerExists then some packet else none)
  | .error _ => (heard, none)

/-- The stream with an empty log. -/
def forget (s : ScriptedStream) : ScriptedStream := { s with log := [] }

instance : Rtp.MediaStream ScriptedStream where
  port := port
  hasSocket := hasSocket
  frameSize := frameSize
  sampleRate := sampleRate
  pollSend s ts _ := (s, ts % s.sendEvery = 0)
  pollRead s ts _ := (s, ts % s.readEvery = 0)
  read s _ out := s.read out
  put := put
  enableRelay := enableRelay
  disableRelay := disableRelay
  relayMask s := s.relaying.map (·.1)
  relay := relay
  negotiate s _ := s.negotiate
  setPlayout s _ mode := s.note (.playout mode)
  receive s _ := s.receive
  clearTimeout s _ := s.note .timeoutCleared

end ScriptedStream

end CallBridge.Rehearsal
