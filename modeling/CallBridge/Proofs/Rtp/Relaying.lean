import CallBridge.Bridge.Pair
import CallBridge.Proofs.Rtp.Receiving
import CallBridge.Proofs.Rtp.WireFormat

/-!
# Relayed packets on the wire

A packet that a stream relays bypasses both codecs and leaves by the stream of the other leg. What
leaves is the datagram that came in, without its padding, but for the four bytes of the source
identifier and the two of the sequence number, which become the sending stream's own unless the
settings keep them. No other byte changes, whatever sources, extension and payload there are.

Results:
* `serialize_withSequence`, `serialize_withSsrc`: where in a datagram the two fields stand.
* `serialize_readdress`, `getElem?_passedOn`: the datagram of a packet as it is passed on.
* `relay_reachable`: what passing a packet on does to a stream.
* `relay_transparent`: what a received datagram that is relayed does to the streams of both legs.
-/

namespace CallBridge.Rtp

/-- Bytes with those from an offset on replaced by others. -/
def overwrite (offset : Nat) (part bytes : List UInt8) : List UInt8 :=
  bytes.take offset ++ part ++ bytes.drop (offset + part.length)

theorem length_overwrite {offset : Nat} {part bytes : List UInt8}
    (h : offset + part.length ≤ bytes.length) :
    (overwrite offset part bytes).length = bytes.length := by
  simp only [overwrite, List.length_append, List.length_take, List.length_drop]
  omega

theorem getElem?_overwrite {offset i : Nat} {part bytes : List UInt8}
    (hlen : offset + part.length ≤ bytes.length) (hi : i < offset ∨ offset + part.length ≤ i) :
    (overwrite offset part bytes)[i]? = bytes[i]? := by
  have htake : (bytes.take offset).length = offset := by
    rw [List.length_take]
    omega
  rw [overwrite, List.append_assoc]
  rcases hi with hi | hi
  · rw [List.getElem?_append_left (by omega), List.getElem?_take_of_lt hi]
  · rw [List.getElem?_append_right (by omega), List.getElem?_append_right (by omega),
      List.getElem?_drop]
    congr 1
    omega

/-! ## Header fields -/

namespace Packet

theorem serialize_withSequence (p : Packet) (n : UInt16) :
    { p with sequence := n }.serialize = overwrite 2 (Net.bytes16 n) p.serialize := by
  rw [serialize_eq, serialize_eq]
  rfl

theorem serialize_withSsrc (p : Packet) (n : UInt32) :
    { p with ssrc := n }.serialize = overwrite 8 (Net.bytes32 n) p.serialize := by
  rw [serialize_eq, serialize_eq]
  rfl

theorem length_serialize_ge (p : Packet) : 12 ≤ p.serialize.length := by
  simp only [serialize_eq, List.length_cons, List.length_append, Net.bytes16, Net.bytes32,
    List.length_nil]
  omega

end Packet

namespace AudioStream

/-! ## Passing on -/

/-- A received datagram as a stream passes it on. -/
def passedOn (s : AudioStream) (data : List UInt8) : List UInt8 :=
  let plain := Packet.unpadded data
  let numbered :=
    if s.settings.relay.keepSequence then plain
    else overwrite 2 (Net.bytes16 s.identity.relaySequence) plain
  if s.settings.relay.keepSsrc then numbered
  else overwrite 8 (Net.bytes32 s.identity.ssrc) numbered

/-- The numbers of a stream after it passed a packet on. -/
def identityAfterRelay (s : AudioStream) : Identity :=
  { s.identity with relaySequence :=
      if s.settings.relay.keepSequence then s.identity.relaySequence
      else s.identity.relaySequence + 1 }

/-- Apart from the sequence number and the source identifier no byte is touched. -/
theorem getElem?_passedOn (s : AudioStream) {data : List UInt8}
    (hlen : 12 ≤ (Packet.unpadded data).length) {i : Nat} (hnumber : i < 2 ∨ 4 ≤ i)
    (hsource : i < 8 ∨ 12 ≤ i) : (s.passedOn data)[i]? = (Packet.unpadded data)[i]? := by
  have hnumbered : (overwrite 2 (Net.bytes16 s.identity.relaySequence)
      (Packet.unpadded data))[i]? = (Packet.unpadded data)[i]? :=
    getElem?_overwrite (by simp [Net.bytes16]; omega) hnumber
  have hlength : (overwrite 2 (Net.bytes16 s.identity.relaySequence)
      (Packet.unpadded data)).length = (Packet.unpadded data).length :=
    length_overwrite (by simp [Net.bytes16]; omega)
  unfold passedOn
  cases s.settings.relay.keepSequence <;> cases s.settings.relay.keepSsrc
  · exact (getElem?_overwrite (by simp [Net.bytes32, hlength, hlen]) hsource).trans hnumbered
  · exact hnumbered
  · exact getElem?_overwrite (by simp [Net.bytes32, hlen]) hsource
  · rfl

theorem serialize_readdress (s : AudioStream) {data : List UInt8} {packet : Packet}
    (h : Packet.parse data = .ok packet) : (s.readdress packet).serialize = s.passedOn data := by
  have hplain : packet.serialize = Packet.unpadded data :=
    Packet.serialize_of_read (Packet.parse_eq_ok_iff.1 h)
  unfold readdress passedOn
  rw [← hplain]
  cases s.settings.relay.keepSequence <;> cases s.settings.relay.keepSsrc
  · exact (Packet.serialize_withSsrc { packet with sequence := s.identity.relaySequence } _).trans
      (congrArg _ (Packet.serialize_withSequence packet _))
  · exact Packet.serialize_withSequence packet _
  · exact Packet.serialize_withSsrc packet _
  · rfl

theorem countRelayed_eq (s : AudioStream) :
    s.countRelayed = { s with identity := s.identityAfterRelay } := by
  unfold countRelayed identityAfterRelay
  cases s.settings.relay.keepSequence <;> rfl

/-- A packet that is passed on is given to the socket once, and then its number is used up. -/
theorem relay_reachable {s : AudioStream} {target : Net.Endpoint} (h : s.remote? = some target)
    (packet : Packet) :
    (s.relay packet).1 = { s with
      identity := s.identityAfterRelay
      given := s.given + 1
      outbox := s.outbox ++ s.carried ⟨target, s.readdress packet, true⟩ } := by
  rw [relay, h, countRelayed_eq]
  exact send_eq _ _

/-- A packet that is relayed is not decoded. -/
theorem receive_relayed {s : AudioStream} {data : List UInt8} {packet : Packet} {r : RelayTo}
    (hparse : Packet.parse data = .ok packet) (hrelay : s.relaying = some r)
    (hmask : r.mask.contains packet.payloadType = true) (now : Nat) :
    s.receive now true data = ({ s with lastReceived := now }, some packet) :=
  (Takes.relayed hparse ⟨rfl, r, hrelay, hmask⟩).receive now

end AudioStream

end CallBridge.Rtp

namespace CallBridge.Bridge.Pair

open Rtp (AudioStream Datagram MediaStream Packet RelayTo)

/-- A packet that the stream of a leg hands on goes to the stream of the other leg. -/
theorem stream_deliver {σ : Type} [MediaStream σ] {p : Pair σ} {now : Nat} {l : Leg}
    {data : List UInt8} {s : σ} {packet : Packet}
    (h : MediaStream.receive (p.stream l) now true data = (s, some packet)) :
    (p.deliver now l data).stream l = s ∧
      (p.deliver now l data).stream l.opposite =
        (MediaStream.relay (p.stream l.opposite) packet).1 := by
  unfold deliver
  rw [h]
  cases l <;> exact ⟨rfl, rfl⟩

/-- **Main theorem**: relaying is transparent.

A received datagram that the stream of a leg relays leaves this stream as it is but for the time of
the last reception. Where the stream of the other leg has no remote side, nothing is sent and no
number is used up. Otherwise that stream gives exactly one datagram to its socket, which is the
received one without its padding, and with the stream's own source identifier and next number
where these are not kept; all other bytes are those that came in. Whether the socket takes it or
not, the next packet takes the next number. -/
theorem relay_transparent (p : Pair AudioStream) (now : Nat) (l : Leg) {data : List UInt8}
    {packet : Packet} {r : RelayTo} (hparse : Packet.parse data = .ok packet)
    (hrelay : (p.stream l).relaying = some r)
    (hmask : r.mask.contains packet.payloadType = true) :
    (p.deliver now l data).stream l = { p.stream l with lastReceived := now } ∧
      ((p.stream l.opposite).remote? = none →
        (p.deliver now l data).stream l.opposite = p.stream l.opposite) ∧
      ∀ target, (p.stream l.opposite).remote? = some target →
        ∃ d : Datagram, d.target = target ∧ d.relayed = true ∧
          d.bytes = (p.stream l.opposite).passedOn data ∧
          (∀ i, (i < 2 ∨ 4 ≤ i) → (i < 8 ∨ 12 ≤ i) →
            d.bytes[i]? = (Packet.unpadded data)[i]?) ∧
          (p.deliver now l data).stream l.opposite = { p.stream l.opposite with
            identity := (p.stream l.opposite).identityAfterRelay
            given := (p.stream l.opposite).given + 1
            outbox := (p.stream l.opposite).outbox ++ (p.stream l.opposite).carried d } := by
  obtain ⟨hself, hother⟩ :=
    stream_deliver (p := p) (AudioStream.receive_relayed hparse hrelay hmask now)
  refine ⟨hself, fun hnone => ?_, fun target htarget => ?_⟩
  · rw [hother]
    exact congrArg Prod.fst (AudioStream.relay_unreachable hnone packet)
  · have hbytes := (p.stream l.opposite).serialize_readdress hparse
    have hlen : 12 ≤ (Packet.unpadded data).length := by
      rw [← Packet.serialize_of_read (Packet.parse_eq_ok_iff.1 hparse)]
      exact packet.length_serialize_ge
    refine ⟨⟨target, (p.stream l.opposite).readdress packet, true⟩, rfl, rfl, hbytes, ?_, ?_⟩
    · intro i hnumber hsource
      rw [Datagram.bytes, hbytes]
      exact AudioStream.getElem?_passedOn _ hlen hnumber hsource
    · rw [hother]
      exact AudioStream.relay_reachable htarget packet

/-- The streams of a pair that relays telephone events, on a connected host. -/
def eventPair : Pair AudioStream :=
  let settings : Rtp.StreamSettings := ⟨32000, 20, ⟨20, 100, 40⟩, ⟨false, false⟩, none⟩
  let phone : Net.Endpoint := ⟨.v4 [10, 0, 0, 9], 4000⟩
  let stream (l : Leg) (port : UInt16) : AudioStream :=
    { AudioStream.fresh l ⟨.v4 [10, 0, 0, 1], port⟩ .connected settings Codec.Registry.standard
        ⟨0x11223344, 40, 0, 0xFFFF⟩ 0 with
      agreement := some ⟨0, .muLaw, [], some phone, 20⟩
      relaying := some ⟨PayloadMask.ofList [101], port⟩ }
  ⟨⟨LegMedia.ofStream (stream .a 5000), LegMedia.ofStream (stream .b 5002)⟩, .adaptive⟩

/-- A padded telephone event with a source and an extension leaves with the number 65535, and the
number after it is 0. -/
theorem relay_transparent_event :
    ((eventPair.deliver 1 .a Packet.sampleDatagram).stream .b).outbox.map Datagram.bytes =
        [[0x91, 0xE5, 0xFF, 0xFF, 0xDE, 0xAD, 0xBE, 0xEF, 0x11, 0x22, 0x33, 0x44, 0, 0, 0, 9, 0xBE,
          0xDE, 0, 1, 1, 2, 3, 4, 7, 7]] ∧
      ((eventPair.deliver 1 .a Packet.sampleDatagram).stream .b).identity.relaySequence = 0 := by
  have hread :
      Packet.parse Packet.sampleDatagram = .ok { Packet.sample with padding := true } := rfl
  obtain ⟨-, -, hsent⟩ := relay_transparent eventPair 1 .a hread rfl (by decide)
  obtain ⟨d, htarget, -, hbytes, -, hstream⟩ := hsent ⟨.v4 [10, 0, 0, 9], 4000⟩ rfl
  have hcarried : (eventPair.stream Leg.a.opposite).carried d = [d] := by
    refine if_pos (Net.Network.connected_answer_iff.2 ?_)
    rw [htarget, hbytes]
    decide
  refine ⟨?_, congrArg (·.identity.relaySequence) hstream⟩
  calc ((eventPair.deliver 1 .a Packet.sampleDatagram).stream .b).outbox.map Datagram.bytes
    _ = [d].map Datagram.bytes := by
      rw [← hcarried]
      exact congrArg (·.outbox.map Datagram.bytes) hstream
    _ = [(eventPair.stream .b).passedOn Packet.sampleDatagram] := congrArg (fun b => [b]) hbytes
    _ = _ := rfl

end CallBridge.Bridge.Pair
