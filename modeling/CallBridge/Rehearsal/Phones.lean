import CallBridge.Rtp.AudioStream

/-!
# Phones

The far ends of a rehearsal: addresses at which datagrams are heard. Streams start with numbers of
their own choosing, so what is heard of a stream is told relative to the first packet that a phone
heard of it: sequence numbers and timestamps of encoded audio, and sequence numbers of relayed
packets unless they are kept as they came.
-/

namespace CallBridge.Rehearsal

open Rtp (AudioStream Datagram Packet)

/-- The numbers of the first packets that were heard of a stream. -/
structure Origin where
  audio : Option (UInt16 × UInt32)
  relayed : Option UInt16
deriving DecidableEq, Repr, Inhabited

/-- A packet as a phone heard it. -/
structure Heard where
  phone : Nat
  target : Net.Endpoint
  source : UInt16
  own : Bool
  sequence : UInt16
  timestamp : UInt32
  packet : Packet
deriving DecidableEq, Repr, Inhabited

/-- The places of the phones, and what was heard first from the streams by their ports. -/
structure Phones where
  places : List Net.Endpoint
  origins : List (UInt16 × Origin)
deriving DecidableEq, Repr, Inhabited

namespace Phones

/-- Phones that have heard nothing. -/
def ofPlaces (places : List Net.Endpoint) : Phones := ⟨places, []⟩

/-- What was heard first from the stream on a port. -/
def origin (p : Phones) (port : UInt16) : Origin := (p.origins.lookup port).getD ⟨none, none⟩

/-- The phones after they learnt what came first from the stream on a port. -/
def learn (p : Phones) (port : UInt16) (o : Origin) : Phones :=
  { p with origins := (port, o) :: p.origins }

/-- The phones after one of them heard a datagram of a stream, and how it was heard. -/
def hear (p : Phones) (s : AudioStream) (d : Datagram) : Phones × Option Heard :=
  match p.places.findIdx? (· = d.target), Packet.parse d.packet.serialize with
  | some phone, .ok packet =>
    let o := p.origin s.port
    let heard (sequence : UInt16) (timestamp : UInt32) : Option Heard :=
      some ⟨phone, d.target, s.port, packet.ssrc = s.identity.ssrc, sequence, timestamp, packet⟩
    if d.relayed then
      if s.settings.relay.keepSequence then (p, heard packet.sequence packet.timestamp)
      else
        let first := o.relayed.getD packet.sequence
        (p.learn s.port { o with relayed := some first },
          heard (packet.sequence - first) packet.timestamp)
    else
      let first := o.audio.getD (packet.sequence, packet.timestamp)
      (p.learn s.port { o with audio := some first },
        heard (packet.sequence - first.1) (packet.timestamp - first.2))
  | _, _ => (p, none)

/-- The phones after they heard the datagrams of a stream, and how these were heard. -/
def hearAll (s : AudioStream) : List Datagram → Phones → Phones × List Heard
  | [], p => (p, [])
  | d :: rest, p =>
    let (p, heard) := p.hear s d
    let (p, others) := hearAll s rest p
    (p, heard.toList ++ others)

/-- The phones after they heard what some streams have sent, and how it was heard, phone by
phone. -/
def collect (p : Phones) (streams : List AudioStream) : Phones × List Heard :=
  let (p, heard) := streams.foldl
    (fun (p, heard) s =>
      let (p, more) := p.hearAll s s.outbox
      (p, heard ++ more))
    (p, [])
  (p, heard.mergeSort fun x y => x.phone ≤ y.phone)

end Phones

end CallBridge.Rehearsal
