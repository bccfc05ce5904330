import CallBridge.Rtp.AudioStream

/-!
# What becomes of a datagram

A datagram that comes in at a stream is refused, relayed, played or dropped, and never two of these.
Which of them happens depends on the datagram, on the relay and its peer, and on the codecs that
were negotiated.

Results:
* `AudioStream.Takes.unique`: no datagram takes two paths.
* `AudioStream.exists_path`: every datagram takes one, and does to the stream what it does.
-/

namespace CallBridge.Rtp

open Playout (JitterBuffer)

/-- What becomes of a datagram. -/
inductive Path where
  /-- It is no packet. -/
  | refused
  /-- Its packet is handed to the stream that is relayed to. -/
  | relayed (packet : Packet)
  /-- The samples of its packet are put into the playout buffer. -/
  | played (packet : Packet) (pcm : List Int16)
  /-- Its packet cannot be decoded. -/
  | dropped (packet : Packet)

namespace Path

/-- The packet that is handed to another stream. -/
def handed : Path → Option Packet
  | relayed packet => some packet
  | _ => none

/-- The playout buffer at the end of a path. -/
def fill (elapsed : Nat) (b : JitterBuffer) : Path → JitterBuffer
  | played packet pcm => b.put packet.timestamp elapsed pcm
  | _ => b

/-- The time of the last reception at the end of a path. -/
def noted (now last : Nat) : Path → Nat
  | refused => last
  | _ => now

end Path

namespace AudioStream

/-- The payload type of a packet is relayed, to a stream that is there. -/
def Relays (s : AudioStream) (peerExists : Bool) (packet : Packet) : Prop :=
  peerExists = true ∧ ∃ r, s.relaying = some r ∧ r.mask.contains packet.payloadType = true

/-- The payload type of a packet has a codec that reads samples from its payload. -/
def Decodes (s : AudioStream) (packet : Packet) (pcm : List Int16) : Prop :=
  ∃ codec, s.decoder? packet = some codec ∧ codec.decode packet.payload = .ok pcm

/-- The path of a datagram that comes in at a stream. -/
inductive Takes (s : AudioStream) (peerExists : Bool) (data : List UInt8) : Path → Prop where
  | refused {f : Fault} (h : Packet.parse data = .error f) : Takes s peerExists data .refused
  | relayed {packet : Packet} (h : Packet.parse data = .ok packet)
      (hrelays : s.Relays peerExists packet) : Takes s peerExists data (.relayed packet)
  | played {packet : Packet} {pcm : List Int16} (h : Packet.parse data = .ok packet)
      (hkeeps : ¬ s.Relays peerExists packet) (hdecodes : s.Decodes packet pcm) :
      Takes s peerExists data (.played packet pcm)
  | dropped {packet : Packet} (h : Packet.parse data = .ok packet)
      (hkeeps : ¬ s.Relays peerExists packet) (hdecodes : ∀ pcm, ¬ s.Decodes packet pcm) :
      Takes s peerExists data (.dropped packet)

/-- The stream after a datagram took a path. -/
def follow (s : AudioStream) (now : Nat) (path : Path) : AudioStream :=
  { s with
    lastReceived := path.noted now s.lastReceived
    playout := path.fill (now - s.playoutSince) s.playout }

/-! ## Single datagrams -/

theorem isRelayed_and_iff {s : AudioStream} {peerExists : Bool} {packet : Packet} :
    (s.isRelayed packet && peerExists) = true ↔ s.Relays peerExists packet := by
  rw [Bool.and_eq_true, and_comm, Relays, isRelayed]
  refine and_congr_right fun _ => ?_
  cases s.relaying with
  | none =>
    constructor
    · intro h
      cases h
    · rintro ⟨r, hr, -⟩
      cases hr
  | some r =>
    constructor
    · exact fun h => ⟨r, rfl, h⟩
    · rintro ⟨r', hr, h⟩
      cases hr
      exact h

theorem Decodes.unique {s : AudioStream} {packet : Packet} {pcm pcm' : List Int16}
    (h : s.Decodes packet pcm) (h' : s.Decodes packet pcm') : pcm = pcm' := by
  obtain ⟨codec, hcodec, hdecode⟩ := h
  obtain ⟨codec', hcodec', hdecode'⟩ := h'
  cases hcodec.symm.trans hcodec'
  cases hdecode.symm.trans hdecode'
  rfl

/-- No datagram takes two paths. -/
theorem Takes.unique {s : AudioStream} {peerExists : Bool} {data : List UInt8} {path path' : Path}
    (h : s.Takes peerExists data path) (h' : s.Takes peerExists data path') : path = path' := by
  cases h with
  | refused h =>
    cases h' with
    | refused => rfl
    | relayed h' | played h' | dropped h' => cases h.symm.trans h'
  | relayed h hrelays =>
    cases h' with
    | refused h' => cases h.symm.trans h'
    | relayed h' => cases h.symm.trans h'; rfl
    | played h' hkeeps | dropped h' hkeeps => cases h.symm.trans h'; exact absurd hrelays hkeeps
  | played h hkeeps hdecodes =>
    cases h' with
    | refused h' => cases h.symm.trans h'
    | relayed h' hrelays => cases h.symm.trans h'; exact absurd hrelays hkeeps
    | played h' _ hdecodes' =>
      cases h.symm.trans h'
      rw [hdecodes.unique hdecodes']
    | dropped h' _ hnone => cases h.symm.trans h'; exact absurd hdecodes (hnone _)
  | dropped h hkeeps hnone =>
    cases h' with
    | refused h' => cases h.symm.trans h'
    | relayed h' hrelays => cases h.symm.trans h'; exact absurd hrelays hkeeps
    | played h' _ hdecodes => cases h.symm.trans h'; exact absurd hdecodes (hnone _)
    | dropped h' => cases h.symm.trans h'; rfl

/-- Every datagram takes a path, and does to the stream what this path does. -/
theorem exists_path (s : AudioStream) (peerExists : Bool) (data : List UInt8) :
    ∃ path, s.Takes peerExists data path ∧
      ∀ now, s.receive now peerExists data = (s.follow now path, path.handed) := by
  rcases hparse : Packet.parse data with f | packet
  · exact ⟨.refused, .refused hparse, fun now => by rw [receive, hparse]; rfl⟩
  by_cases hrelays : s.Relays peerExists packet
  · refine ⟨.relayed packet, .relayed hparse hrelays, fun now => ?_⟩
    rw [receive, hparse]
    exact if_pos (isRelayed_and_iff.2 hrelays)
  have hreceive (now : Nat) : s.receive now peerExists data =
      (({ s with lastReceived := now } : AudioStream).decodePacket now packet, none) := by
    rw [receive, hparse]
    exact if_neg fun h => hrelays (isRelayed_and_iff.1 h)
  have hdecoder (now : Nat) : decoder? { s with lastReceived := now } packet = s.decoder? packet :=
    rfl
  rcases hcodec : s.decoder? packet with _ | codec
  · refine ⟨.dropped packet, .dropped hparse hrelays ?_, fun now => ?_⟩
    · rintro pcm ⟨codec, hcodec', -⟩
      cases hcodec.symm.trans hcodec'
    · rw [hreceive, decodePacket, hdecoder, hcodec]
      rfl
  rcases hdecode : codec.decode packet.payload with f | pcm
  · refine ⟨.dropped packet, .dropped hparse hrelays ?_, fun now => ?_⟩
    · rintro pcm ⟨codec', hcodec', hdecode'⟩
      cases hcodec.symm.trans hcodec'
      cases hdecode.symm.trans hdecode'
    · simp only [hreceive, decodePacket, hdecoder, hcodec, hdecode]
      rfl
  · refine ⟨.played packet pcm, .played hparse hrelays ⟨codec, hcodec, hdecode⟩, fun now => ?_⟩
    simp only [hreceive, decodePacket, hdecoder, hcodec, hdecode]
    rfl

/-- What a datagram does is what its path does. -/
theorem Takes.receive {s : AudioStream} {peerExists : Bool} {data : List UInt8} {path : Path}
    (h : s.Takes peerExists data path) (now : Nat) :
    s.receive now peerExists data = (s.follow now path, path.handed) := by
  obtain ⟨path', h', hreceive⟩ := s.exists_path peerExists data
  rw [h.unique h']
  exact hreceive now

end AudioStream

end CallBridge.Rtp
