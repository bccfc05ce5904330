import CallBridge.Rehearsal.Phones
import CallBridge.Rehearsal.Script

/-!
# Rehearsing audio streams

A script drives audio streams and the phones that hear them step by step. Time goes on by a
nanosecond with every step. The numbers that streams start with are of no importance; they are
chosen so that no two streams share them.

Before its first step a rehearsal makes sure that its phones can be reached, and it does not take
place where they cannot.
-/

namespace CallBridge.Rehearsal

open Net (Network)
open Rtp (AudioStream Identity StreamSettings)

/-- A step of a script of streams; the first number says which stream it is about. -/
inductive StreamStep where
  | negotiate (s : Nat) (ours theirs : SdpText) (line : Nat)
  | put (s : Nat) (pcm : List UInt8)
  | read (s size : Nat)
  | receive (s : Nat) (data : List UInt8)
  | relay (s : Nat) (data : List UInt8)
  | relayOn (s : Nat) (mask : PayloadMask) (peer : Nat)
  | relayOff (s : Nat)
  | drop (s : Nat)
  | pollSend (s : Nat) (ts : UInt64) (frameSize : Nat)
  | pollRead (s : Nat) (ts : UInt64) (frameSize : Nat)
  | setPlayout (s : Nat) (mode : Playout.Mode)
  | clearTimeout (s : Nat)
  | timedOut (s : Nat)
deriving Repr, Inhabited

/-- The stream that a step is about. -/
def StreamStep.subject : StreamStep → Nat
  | negotiate s .. | put s .. | read s .. | receive s .. | relay s .. | relayOn s ..
  | relayOff s | drop s | pollSend s .. | pollRead s .. | setPlayout s .. | clearTimeout s
  | timedOut s => s

/-- Streams in rehearsal, those that were dropped being absent. -/
structure StreamBench where
  streams : List (Option AudioStream)
  phones : Phones
  now : Nat

/-- What is seen after a step: the answer, the packets heard, and the stream, if it still exists. -/
structure StreamReport where
  result : Reply
  heard : List Heard
  stream : Option AudioStream

namespace StreamBench

/-- The numbers that the stream with an index starts with. -/
def identity (index : Nat) : Identity :=
  ⟨UInt32.ofNat (0xC0DEC000 + index), UInt16.ofNat (1000 + index), UInt32.ofNat (50000 + index),
    UInt16.ofNat (2000 + index)⟩

/-- The stream with an index. -/
def stream? (b : StreamBench) (index : Nat) : Option AudioStream := (b.streams[index]?).join

/-- The bench with a stream replaced. -/
def setStream (b : StreamBench) (index : Nat) (s : AudioStream) : StreamBench :=
  { b with streams := b.streams.set index (some s) }

/-- The index of the stream on a port. -/
def indexOf? (b : StreamBench) (port : UInt16) : Option Nat :=
  b.streams.findIdx? fun s => (s.map (·.port)) = some port

/-- Whether the stream that a stream relays to still exists. -/
def peerExists (b : StreamBench) (s : AudioStream) : Bool :=
  match s.relaying with
  | some r => (b.indexOf? r.peer).isSome
  | none => false

/-- The bench after a packet was handed to the stream that another one relays to. -/
def handOver (b : StreamBench) (s : AudioStream) (packet : Rtp.Packet) : StreamBench :=
  match (s.relaying.bind fun r => b.indexOf? r.peer) with
  | none => b
  | some i =>
    match b.stream? i with
    | none => b
    | some peer => b.setStream i (peer.relay packet).1

/-- The bench after a datagram came in for a stream. -/
def receive (b : StreamBench) (index : Nat) (s : AudioStream) (data : List UInt8) : StreamBench :=
  let (s, handed) := s.receive b.now (b.peerExists s) data
  let b := b.setStream index s
  match handed with
  | none => b
  | some packet => b.handOver s packet

/-- The stream after it was bound to a media line, and the answer. -/
def negotiate (s : AudioStream) (now : Nat) (ours theirs : SdpText) (line : Nat) :
    AudioStream × Reply :=
  match ours.read, theirs.read with
  | .ok ours, .ok theirs =>
    let (s, r) := s.negotiate now ours theirs line
    (s, plainly r)
  | .error f, _ => (s, .error f)
  | _, .error f => (s, .error f)

/-- The stream after a datagram was passed to it to be relayed, and the answer. -/
def relay (s : AudioStream) (data : List UInt8) : AudioStream × Reply :=
  match Rtp.Packet.parse data with
  | .error f => (s, .error f)
  | .ok packet =>
    let (s, r) := s.relay packet
    (s, plainly r)

/-- The answer to a read into a buffer that is full of a filler byte. -/
def readInto (s : AudioStream) (now size : Nat) : AudioStream × Reply :=
  let (s, buffer, r) := s.read now (List.replicate size 0xEE)
  (s, r.map fun count => .buffer buffer count)

/-- A stream after a step about it alone, and the answer. -/
def act (b : StreamBench) (s : AudioStream) : StreamStep → AudioStream × Reply
  | .negotiate _ ours theirs line => negotiate s b.now ours theirs line
  | .put _ pcm => let (s, r) := s.put pcm; (s, r.map .count)
  | .read _ size => readInto s b.now size
  | .relay _ data => relay s data
  | .relayOn _ mask peer =>
    let port := ((b.stream? peer).map (·.port)).getD 0
    let (s, r) := s.enableRelay mask port (b.stream? peer).isSome
    (s, plainly r)
  | .relayOff _ => (s.disableRelay, .ok .nothing)
  | .pollSend _ ts frameSize => let (s, due) := s.pollSend ts frameSize; (s, .ok (.truth due))
  | .pollRead _ ts frameSize => let (s, due) := s.pollRead ts frameSize; (s, .ok (.truth due))
  | .setPlayout _ mode => (s.setPlayout b.now mode, .ok .nothing)
  | .clearTimeout _ => (s.clearTimeout b.now, .ok .nothing)
  | .timedOut _ => (s, .ok (.truth (s.isTimedOut b.now)))
  | .receive .. | .drop _ => (s, .ok .nothing)

/-- The bench after a step, and the answer. -/
def step (b : StreamBench) (st : StreamStep) : StreamBench × Reply :=
  let index := st.subject
  match b.stream? index with
  | none => (b, .ok .nothing)
  | some s =>
    match st with
    | .drop _ => ({ b with streams := b.streams.set index none }, .ok .nothing)
    | .receive _ data => (b.receive index s data, .ok .nothing)
    | st =>
      let (s, r) := b.act s st
      (b.setStream index s, r)

/-- The bench after a step, with everything collected that was sent, and what was seen. -/
def report (b : StreamBench) (st : StreamStep) : StreamBench × StreamReport :=
  let (b, result) := b.step st
  let (phones, heard) := b.phones.collect (b.streams.filterMap id)
  let b := { b with
    streams := b.streams.map fun s => s.map fun s => s.collect.1
    phones
    now := b.now + 1 }
  (b, ⟨result, heard, b.stream? st.subject⟩)

/-- What is seen of a script, step by step. -/
def reports (b : StreamBench) : List StreamStep → List StreamReport
  | [] => []
  | s :: rest =>
    let (b, r) := b.report s
    r :: b.reports rest

/-- The bench of streams at an address on the ports of their legs. -/
def start (net : Network) (settings : StreamSettings) (address : Net.Address)
    (streams : List (Leg × UInt16)) (phones : List Net.Endpoint) : StreamBench where
  streams := streams.zipIdx.map fun ((l, port), i) =>
    some (AudioStream.fresh l ⟨address, port⟩ net settings Codec.Registry.standard (identity i) 0)
  phones := Phones.ofPlaces phones
  now := 1

end StreamBench

/-- A rehearsal on a host; it does not take place where phones are needed and cannot be reached. -/
def rehearse {α : Type} (reachable needed : Bool) (play : Unit → α) : Option α :=
  if needed && !reachable then none else some (play ())

end CallBridge.Rehearsal
