import CallBridge.Net.Network
import CallBridge.Playout.JitterBuffer
import CallBridge.Rtp.Gate
import CallBridge.Rtp.MediaStream
import CallBridge.Rtp.Negotiation
import CallBridge.Settings.Basic

/-!
# RTP audio streams

A stream sends linear audio as packets of the negotiated format and buffers what it receives until
it is read. Packets of the payload types that are relayed bypass both codecs. Sent packets carry
the stream's own source identifier; encoded audio and relayed packets are numbered by two counters.

What the socket takes is kept in the outbox until somebody collects it. A datagram that the socket
does not take has used up its number all the same.

In the media core, `AudioStream` is `RtpAudio` and `StreamSettings` keeps its name. `put` is its
`put`, `take` and `read` are its `get`, `relay` is `relay_packet`, `send` is `send_datagram`,
`receive` is `on_packet_received`, `decodePacket` is `decode_into_playout`, `negotiate` is `init`,
`pollSend` and `pollRead` are `send_interval_reached` and `check_interval`, `interval` is
`interval_ticks`, and `setPlayout` is `set_playout_type`.

Results:
* `send_eq`: what giving a datagram to the socket does to a stream.
* `put_unnegotiated`, `put_unreachable`: a call that sends nothing changes nothing.
* `relay_unreachable`: without a remote address nothing is relayed and no number is used.
-/

namespace CallBridge.Rtp

/-- What holds for all streams of a server. -/
structure StreamSettings where
  clockRate : UInt32
  packetTimeMs : UInt32
  delays : Playout.DelayTimes
  relay : Settings.Relay
  timeoutNanos : Option Nat
deriving DecidableEq, Repr, Inhabited

/-- The settings of a server that its streams follow. -/
def StreamSettings.ofServer (s : Settings.Server) : StreamSettings where
  clockRate := s.processor.clockRate
  packetTimeMs := s.transport.packetTimeMs
  delays := s.transport.delays
  relay := s.bridging.relay
  timeoutNanos :=
    if s.transport.timeoutSecs = 0 then none else some (s.transport.timeoutSecs.toNat * 1000000000)

/-- A packet on its way, and whether it came from the stream of the other leg. -/
structure Datagram where
  target : Net.Endpoint
  packet : Packet
  relayed : Bool
deriving DecidableEq, Repr, Inhabited

/-- The bytes of a packet on its way. -/
def Datagram.bytes (d : Datagram) : List UInt8 := d.packet.serialize

/-- The packets that are handed to the stream on another port. -/
structure RelayTo where
  mask : PayloadMask
  peer : UInt16
deriving DecidableEq, Repr, Inhabited

/-- The numbers with which a stream starts to send. -/
structure Identity where
  ssrc : UInt32
  sequence : UInt16
  timestamp : UInt32
  relaySequence : UInt16
deriving DecidableEq, Repr, Inhabited

/-- An RTP audio stream. Its socket was given some number of datagrams so far. -/
structure AudioStream where
  leg : Leg
  place : Net.Endpoint
  network : Net.Network
  given : Nat
  settings : StreamSettings
  codecs : Codec.Registry
  identity : Identity
  agreement : Option Agreement
  rate : UInt32
  frameSamples : Nat
  mode : Playout.Mode
  playout : Playout.JitterBuffer
  playoutSince : Nat
  sendGate : Gate
  readGate : Gate
  lastReceived : Nat
  relaying : Option RelayTo
  outbox : List Datagram

namespace AudioStream

/-- The samples of a packetization interval. -/
def samplesIn (rate packetTimeMs : UInt32) : Nat := rate.toNat * packetTimeMs.toNat / 1000

/-- The stream at a place before anything was negotiated: audio of 8000 Hz. -/
def fresh (leg : Leg) (place : Net.Endpoint) (network : Net.Network) (settings : StreamSettings)
    (codecs : Codec.Registry) (identity : Identity) (now : Nat) : AudioStream where
  leg := leg
  place := place
  network := network
  given := 0
  settings := settings
  codecs := codecs
  identity := identity
  agreement := none
  rate := 8000
  frameSamples := samplesIn 8000 settings.packetTimeMs
  mode := .adaptive
  playout := Playout.JitterBuffer.empty .adaptive 8000 settings.delays
  playoutSince := now
  sendGate := Gate.start
  readGate := Gate.start
  lastReceived := now
  relaying := none
  outbox := []

/-! ## Queries -/

/-- The port on which the stream receives. -/
def port (s : AudioStream) : UInt16 := s.place.port

/-- Whether the stream was negotiated. -/
def isInitialized (s : AudioStream) : Bool := s.agreement.isSome

/-- Where packets go. -/
def remote? (s : AudioStream) : Option Net.Endpoint := s.agreement.bind (·.remote)

/-- The payload type that is sent. -/
def sendType? (s : AudioStream) : Option UInt8 := s.agreement.map (·.payloadType)

/-- The bytes of linear audio in one packetization interval. -/
def frameSize (s : AudioStream) : Nat := 2 * s.frameSamples

/-- Whether nothing was received for longer than is allowed. -/
def isTimedOut (s : AudioStream) (now : Nat) : Bool :=
  match s.settings.timeoutNanos with
  | none => false
  | some limit => limit < now - s.lastReceived

/-- The ticks between two frames of a size. -/
def interval (s : AudioStream) (frameSize : Nat) : UInt64 :=
  Gate.interval s.settings.clockRate s.rate frameSize

/-! ## Pacing -/

/-- Whether a frame is to be sent at a timestamp. -/
def pollSend (s : AudioStream) (ts : UInt64) (frameSize : Nat) : AudioStream × Bool :=
  let (sendGate, due) := s.sendGate.poll ts (s.interval frameSize)
  ({ s with sendGate }, due)

/-- Whether a frame is to be read at a timestamp. -/
def pollRead (s : AudioStream) (ts : UInt64) (frameSize : Nat) : AudioStream × Bool :=
  let (readGate, due) := s.readGate.poll ts (s.interval frameSize)
  ({ s with readGate }, due)

/-! ## Sending -/

/-- What the socket answers if it is given a datagram. -/
def answerTo (s : AudioStream) (d : Datagram) : Net.Answer :=
  s.network.answer s.given s.place.address d.target.address d.bytes.length

/-- The stream after a datagram was given to its socket. That a busy socket drops it is no
failure. -/
def send (s : AudioStream) (d : Datagram) : AudioStream × Outcome Unit :=
  let s' := { s with given := s.given + 1 }
  match s.answerTo d with
  | .taken => ({ s' with outbox := s.outbox ++ [d] }, .ok ())
  | .busy => (s', .ok ())
  | .refused reason => (s', .error (.io reason))

/-- The packet of some samples in the negotiated format. -/
def packetOf (s : AudioStream) (a : Agreement) (xs : List Int16) : Packet :=
  Packet.plain a.payloadType s.identity.sequence s.identity.timestamp s.identity.ssrc
    (a.codec.encode xs)

/-- The stream with its counters moved past a packet of some samples. -/
def countPacket (s : AudioStream) (samples : Nat) : AudioStream :=
  { s with identity := { s.identity with
      sequence := s.identity.sequence + 1
      timestamp := s.identity.timestamp + UInt32.ofNat samples } }

/-- The stream after linear audio was sent, and the number of bytes taken over. The counters move
on even where the packet cannot be sent. -/
def put (s : AudioStream) (pcm : List UInt8) : AudioStream × Outcome Nat :=
  match s.agreement with
  | none => (s, .error (.streamNotInitialized s.port.toNat))
  | some a =>
    match a.remote with
    | none => (s, .ok 0)
    | some target =>
      let xs := Audio.samples pcm
      let (s', sent) := (s.countPacket xs.length).send ⟨target, s.packetOf a xs, false⟩
      (s', sent.map fun _ => pcm.length)

/-- A packet of the other leg as this stream passes it on. -/
def readdress (s : AudioStream) (packet : Packet) : Packet :=
  { packet with
    ssrc := if s.settings.relay.keepSsrc then packet.ssrc else s.identity.ssrc
    sequence :=
      if s.settings.relay.keepSequence then packet.sequence else s.identity.relaySequence }

/-- The stream with the counter of relayed packets moved on, unless they keep their numbers. -/
def countRelayed (s : AudioStream) : AudioStream :=
  if s.settings.relay.keepSequence then s
  else { s with identity := { s.identity with
      relaySequence := s.identity.relaySequence + 1 } }

/-- The stream after a packet of the other leg was passed on. -/
def relay (s : AudioStream) (packet : Packet) : AudioStream × Outcome Unit :=
  match s.remote? with
  | none => (s, .ok ())
  | some target => s.countRelayed.send ⟨target, s.readdress packet, true⟩

/-- The stream with an empty outbox, and what was in it. -/
def collect (s : AudioStream) : AudioStream × List Datagram := ({ s with outbox := [] }, s.outbox)

/-! ## Relaying -/

/-- The stream with a relay to an existing stream set up. -/
def enableRelay (s : AudioStream) (mask : PayloadMask) (peer : UInt16) (peerExists : Bool) :
    AudioStream × Outcome Unit :=
  if peerExists then ({ s with relaying := some ⟨mask, peer⟩ }, .ok ())
  else (s, .error (.relayConfig s!"relay peer of port {s.port.toNat} is gone"))

/-- The stream without a relay. -/
def disableRelay (s : AudioStream) : AudioStream := { s with relaying := none }

/-- The payload types relayed. -/
def relayMask (s : AudioStream) : Option PayloadMask := s.relaying.map (·.mask)

/-! ## Receiving -/

/-- Whether a packet goes to another stream. -/
def isRelayed (s : AudioStream) (packet : Packet) : Bool :=
  match s.relaying with
  | some r => r.mask.contains packet.payloadType
  | none => false

/-- The codec by which a packet is read. -/
def decoder? (s : AudioStream) (packet : Packet) : Option Codec :=
  s.agreement.bind (·.decoder? packet.payloadType)

/-- The stream with a packet's audio waiting to be read; a packet that cannot be decoded is
dropped. -/
def decodePacket (s : AudioStream) (now : Nat) (packet : Packet) : AudioStream :=
  match s.decoder? packet with
  | none => s
  | some codec =>
    match codec.decode packet.payload with
    | .ok pcm => { s with playout := s.playout.put packet.timestamp (now - s.playoutSince) pcm }
    | .error _ => s

/-- The stream after a datagram came in, and the packet that is to be relayed if its peer exists. -/
def receive (s : AudioStream) (now : Nat) (peerExists : Bool) (data : List UInt8) :
    AudioStream × Option Packet :=
  match Packet.parse data with
  | .error _ => (s, none)
  | .ok packet =>
    let heard := { s with lastReceived := now }
    if s.isRelayed packet && peerExists then (heard, some packet)
    else (heard.decodePacket now packet, none)

/-- The stream after at most `len` bytes were read, and these bytes. -/
def take (s : AudioStream) (now len : Nat) : AudioStream × Outcome (List UInt8) :=
  if s.isTimedOut now then
    (s, .error (.stream s!"RTP timeout on port {s.port.toNat} (leg {s.leg.letter})"))
  else if s.isInitialized then
    let (playout, bytes) := s.playout.take len
    ({ s with playout }, .ok bytes)
  else (s, .ok [])

/-- The stream after a read, the buffer, and the number of bytes read into its front. -/
def read (s : AudioStream) (now : Nat) (out : List UInt8) :
    AudioStream × List UInt8 × Outcome Nat :=
  match s.take now out.length with
  | (s', .ok bytes) => (s', Audio.overlay bytes out, .ok bytes.length)
  | (s', .error f) => (s', out, .error f)

/-- The stream with the time without received packets started anew. -/
def clearTimeout (s : AudioStream) (now : Nat) : AudioStream := { s with lastReceived := now }

/-! ## Negotiation -/

/-- The stream with an empty playout buffer of a mode and a rate. -/
def restartPlayout (s : AudioStream) (now : Nat) (mode : Playout.Mode) (rate : UInt32) :
    AudioStream :=
  { s with
    mode, rate
    playout := Playout.JitterBuffer.empty mode rate s.settings.delays
    playoutSince := now }

/-- The stream with another way of waiting; the same way changes nothing. -/
def setPlayout (s : AudioStream) (now : Nat) (mode : Playout.Mode) : AudioStream :=
  if s.mode = mode then s else s.restartPlayout now mode s.rate

/-- The stream with an agreement in force. -/
def adopt (s : AudioStream) (now : Nat) (a : Agreement) : AudioStream :=
  { s.restartPlayout now s.mode a.codec.clockRate with
    agreement := some a
    frameSamples := samplesIn a.codec.clockRate a.packetTimeMs
    lastReceived := now }

/-- The stream after it was bound to a media line of a local and a remote description. -/
def negotiate (s : AudioStream) (now : Nat) (ours theirs : Sdp.Description) (index : Nat) :
    AudioStream × Outcome Unit :=
  match Agreement.agree s.codecs s.settings.packetTimeMs ours theirs index with
  | .ok a => (s.adopt now a, .ok ())
  | .error f => (s, .error f)

instance : MediaStream AudioStream where
  port := port
  hasSocket _ := true
  frameSize := frameSize
  sampleRate := (·.rate)
  pollSend := pollSend
  pollRead := pollRead
  read := read
  put := put
  enableRelay s mask peer := s.enableRelay mask peer true
  disableRelay := disableRelay
  relayMask := relayMask
  relay := relay
  negotiate := negotiate
  setPlayout := setPlayout
  receive := receive
  clearTimeout := clearTimeout

/-! ## Laws -/

/-- What gets on its way of a datagram that is given to the socket. -/
def carried (s : AudioStream) (d : Datagram) : List Datagram :=
  if s.answerTo d = .taken then [d] else []

/-- Whatever the socket answers, it was given one datagram more. -/
theorem send_eq (s : AudioStream) (d : Datagram) :
    (s.send d).1 = { s with given := s.given + 1, outbox := s.outbox ++ s.carried d } := by
  rw [send, carried]
  cases s.answerTo d with
  | taken => rfl
  | busy => simp
  | refused reason => simp

theorem put_unnegotiated {s : AudioStream} (h : s.agreement = none) (pcm : List UInt8) :
    s.put pcm = (s, .error (.streamNotInitialized s.port.toNat)) := by simp [put, h]

theorem put_unreachable {s : AudioStream} {a : Agreement} (h : s.agreement = some a)
    (hr : a.remote = none) (pcm : List UInt8) : s.put pcm = (s, .ok 0) := by simp [put, h, hr]

theorem relay_unreachable {s : AudioStream} (h : s.remote? = none) (packet : Packet) :
    s.relay packet = (s, .ok ()) := by simp [relay, h]

end AudioStream

end CallBridge.Rtp
