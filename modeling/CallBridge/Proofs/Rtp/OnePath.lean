import CallBridge.Proofs.Rtp.MediaPath
import CallBridge.Proofs.Rtp.Receiving
import CallBridge.Proofs.Rtp.StreamRuns
import CallBridge.Rehearsal.StreamScript

/-!
# One path for each datagram

The path of a datagram does not depend on the datagrams that came in before it. What is relayed
reaches no playout buffer, and what is played reaches no other stream.

Results:
* `AudioStream.traffic_split`: what a run of datagrams does to a stream.
* `StreamBench.receive_alone`, `StreamBench.receive_relayed`: what a datagram does to all streams.
* `AudioStream.one_path`: the path of a datagram, and all that it changes.
-/

namespace CallBridge.Rtp

namespace AudioStream

/-! ## Runs -/

/-- The path that a datagram takes after another one is the one that it takes at once. -/
theorem Takes.of_follow {s : AudioStream} {now : Nat} {before : Path} {peerExists : Bool}
    {data : List UInt8} {path : Path} (h : (s.follow now before).Takes peerExists data path) :
    s.Takes peerExists data path := by
  cases h with
  | refused h => exact .refused h
  | relayed h hrelays => exact .relayed h hrelays
  | played h hkeeps hdecodes => exact .played h hkeeps hdecodes
  | dropped h hkeeps hdecodes => exact .dropped h hkeeps hdecodes

/-- The packets that a stream hands on while some datagrams come in. -/
def handedOn (s : AudioStream) : List Incoming → List Packet
  | [] => []
  | i :: is => (s.receive i.now i.peerExists i.data).2.toList ++ (s.hear i).handedOn is

/-- **Step and run**: each of the datagrams of a run takes the path that it would have taken alone.
The packets that are relayed are handed on, and those that are played fill the buffer, each in the
order in which they came in. -/
theorem traffic_split (s : AudioStream) (is : List Incoming) :
    ∃ paths, List.Forall₂ (fun i path => s.Takes i.peerExists i.data path) is paths ∧
      s.handedOn is = paths.filterMap Path.handed ∧
      (s.hearAll is).playout = (is.zip paths).foldl
        (fun b (i, path) => path.fill (i.now - s.playoutSince) b) s.playout := by
  induction is generalizing s with
  | nil => exact ⟨[], .nil, rfl, rfl⟩
  | cons i is ih =>
    obtain ⟨path, htakes, hreceive⟩ := s.exists_path i.peerExists i.data
    have hhear : s.hear i = s.follow i.now path := congrArg Prod.fst (hreceive i.now)
    obtain ⟨paths, hpaths, hhanded, hplayout⟩ := ih (s.hear i)
    rw [hhear] at hpaths hhanded hplayout
    refine ⟨path :: paths, .cons htakes (hpaths.imp fun _ _ h => h.of_follow), ?_, ?_⟩
    · rw [handedOn, hreceive, hhear, hhanded, List.filterMap_cons]
      cases path.handed <;> rfl
    · rw [hearAll, List.foldl_cons, hhear]
      exact hplayout

theorem playout_relay (s : AudioStream) (packet : Packet) :
    (s.relay packet).1.playout = s.playout := by rw [relay_frame]

end AudioStream

end CallBridge.Rtp

namespace CallBridge.Rehearsal.StreamBench

open Rtp (AudioStream Packet Path RelayTo)

/-! ## All streams -/

section

variable {b : StreamBench} {index : Nat} {s : AudioStream}

theorem getElem?_of_stream? (h : b.stream? index = some s) :
    b.streams[index]? = some (some s) := Option.join_eq_some_iff.1 h

theorem stream?_setStream (h : b.stream? index = some s) (s' : AudioStream) (k : Nat) :
    (b.setStream index s').stream? k = if k = index then some s' else b.stream? k := by
  have hindex := (List.getElem?_eq_some_iff.1 (getElem?_of_stream? h)).1
  unfold stream? setStream
  by_cases hk : k = index
  · rw [if_pos hk, hk, List.getElem?_set_self hindex]
    rfl
  · rw [if_neg hk, List.getElem?_set_ne fun h => hk h.symm]

/-- A stream that is replaced by one on its port is found in the same place. -/
theorem indexOf?_setStream (h : b.stream? index = some s) (s' : AudioStream)
    (hport : s'.port = s.port) (port : UInt16) :
    (b.setStream index s').indexOf? port = b.indexOf? port := by
  have hget : (b.streams.map (·.map AudioStream.port))[index]? = some (some s'.port) := by
    rw [List.getElem?_map, getElem?_of_stream? h, hport]
    rfl
  have hports : (b.setStream index s').streams.map (·.map AudioStream.port) =
      b.streams.map (·.map AudioStream.port) := by
    obtain ⟨hindex, hself⟩ := List.getElem?_eq_some_iff.1 hget
    rw [setStream, List.map_set, Option.map_some, ← hself, List.set_getElem_self]
  have hindexOf (c : StreamBench) : c.indexOf? port =
      (c.streams.map (·.map AudioStream.port)).findIdx? fun p => p = some port := by
    rw [List.findIdx?_map]
    rfl
  rw [hindexOf, hindexOf, hports]

theorem stream?_of_indexOf? {port : UInt16} (h : b.indexOf? port = some index) :
    ∃ s, b.stream? index = some s ∧ s.port = port := by
  obtain ⟨hindex, hport, -⟩ := List.findIdx?_eq_some_iff_getElem.1 h
  obtain ⟨s, hs, hport⟩ := Option.map_eq_some_iff.1 (of_decide_eq_true hport)
  refine ⟨s, ?_, hport⟩
  rw [stream?, List.getElem?_eq_getElem hindex, hs]
  rfl

theorem handOver_eq {r : RelayTo} {peer : AudioStream} (hr : s.relaying = some r)
    (hindex : b.indexOf? r.peer = some index) (hpeer : b.stream? index = some peer)
    (packet : Packet) : b.handOver s packet = b.setStream index (peer.relay packet).1 := by
  simp only [handOver, hr, Option.bind_some, hindex, hpeer]

/-- A stream that hands nothing on is the only one that changes. -/
theorem receive_alone {data : List UInt8}
    (h : (s.receive b.now (b.peerExists s) data).2 = none) :
    b.receive index s data = b.setStream index (s.receive b.now (b.peerExists s) data).1 := by
  rw [receive]
  rcases hreceive : s.receive b.now (b.peerExists s) data with ⟨t, handed⟩
  rw [hreceive] at h
  obtain rfl : handed = none := h
  rfl

/-- A packet that is handed on is passed to the stream on the port that is relayed to. -/
theorem receive_relayed (h : b.stream? index = some s) {data : List UInt8} {packet : Packet}
    (htakes : s.Takes (b.peerExists s) data (.relayed packet)) :
    ∃ r j peer, s.relaying = some r ∧ b.indexOf? r.peer = some j ∧ peer.port = r.peer ∧
      (b.setStream index { s with lastReceived := b.now }).stream? j = some peer ∧
      b.receive index s data =
        (b.setStream index { s with lastReceived := b.now }).setStream j (peer.relay packet).1 := by
  have hreceive : s.receive b.now (b.peerExists s) data =
      ({ s with lastReceived := b.now }, some packet) := htakes.receive b.now
  cases htakes with
  | relayed _ hrelays =>
    obtain ⟨hexists, r, hr, -⟩ := hrelays
    obtain ⟨j, hj⟩ : ∃ j, b.indexOf? r.peer = some j := by
      rw [peerExists, hr] at hexists
      exact Option.isSome_iff_exists.1 hexists
    have hj' : (b.setStream index { s with lastReceived := b.now }).indexOf? r.peer = some j :=
      (indexOf?_setStream h { s with lastReceived := b.now } rfl r.peer).trans hj
    obtain ⟨peer, hpeer, hport⟩ := stream?_of_indexOf? hj'
    refine ⟨r, j, peer, hr, hj, hport, hpeer, ?_⟩
    rw [receive, hreceive]
    exact handOver_eq hr hj' hpeer packet

end

end CallBridge.Rehearsal.StreamBench

namespace CallBridge.Rtp.AudioStream

open Rehearsal (StreamBench)

/-- **Main theorem**: every datagram takes exactly one path.

What is no packet changes nothing. A packet that is relayed, because the mask has its payload type
and the peer is there, is handed on, and nothing but the time of the last reception changes. Of any
other packet the samples are put into the playout buffer once, with its timestamp, if there is a
codec for its payload type that decodes it, and otherwise nothing but that time changes.

Among all streams there are, the one on the port that is relayed to is made to relay a packet that
is handed on, once, and no playout buffer changes. A packet that is not handed on changes no other
stream. -/
theorem one_path (s : AudioStream) (data : List UInt8) :
    (∀ peerExists, ∃ path, (∀ path', s.Takes peerExists data path' ↔ path' = path) ∧
      ∀ now, s.receive now peerExists data =
        match path with
        | .refused => (s, none)
        | .relayed packet => ({ s with lastReceived := now }, some packet)
        | .played packet pcm =>
          ({ s with
            lastReceived := now
            playout := s.playout.put packet.timestamp (now - s.playoutSince) pcm }, none)
        | .dropped _ => ({ s with lastReceived := now }, none)) ∧
    ∀ (b : StreamBench) (index : Nat), b.stream? index = some s →
      let alone := b.setStream index (s.receive b.now (b.peerExists s) data).1
      (∀ packet, s.Takes (b.peerExists s) data (.relayed packet) →
        ∃ r j peer, s.relaying = some r ∧ b.indexOf? r.peer = some j ∧ peer.port = r.peer ∧
          alone.stream? j = some peer ∧
          b.receive index s data = alone.setStream j (peer.relay packet).1 ∧
          (j ≠ index → (b.receive index s data).stream? index =
            some { s with lastReceived := b.now }) ∧
          ∀ k, ((b.receive index s data).stream? k).map (·.playout) =
            (b.stream? k).map (·.playout)) ∧
      ((∀ packet, ¬ s.Takes (b.peerExists s) data (.relayed packet)) →
        b.receive index s data = alone) := by
  refine ⟨fun peerExists => ?_, fun b index h => ⟨fun packet htakes => ?_, fun hkeeps => ?_⟩⟩
  · obtain ⟨path, htakes, hreceive⟩ := s.exists_path peerExists data
    refine ⟨path, fun path' => ⟨fun h => h.unique htakes, fun h => h ▸ htakes⟩, fun now => ?_⟩
    rw [hreceive]
    cases path <;> rfl
  · have halone : (s.receive b.now (b.peerExists s) data).1 = { s with lastReceived := b.now } :=
      congrArg Prod.fst (htakes.receive b.now)
    obtain ⟨r, j, peer, hr, hj, hport, hpeer, hreceive⟩ := StreamBench.receive_relayed h htakes
    have hself := StreamBench.stream?_setStream h { s with lastReceived := b.now }
    have hother := StreamBench.stream?_setStream hpeer (peer.relay packet).1
    simp only [halone]
    refine ⟨r, j, peer, hr, hj, hport, hpeer, hreceive, fun hne => ?_, fun k => ?_⟩
    · rw [hreceive, hother, if_neg fun h => hne h.symm, hself, if_pos rfl]
    · have hsame : ((b.setStream index { s with lastReceived := b.now }).stream? k).map
          (·.playout) = (b.stream? k).map (·.playout) := by
        rw [hself]
        split
        · next hk => rw [hk, h]; rfl
        · rfl
      rw [hreceive, hother, ← hsame]
      split
      · next hk => rw [hk, hpeer, Option.map_some, Option.map_some, playout_relay]
      · rfl
  · obtain ⟨path, htakes, hreceive⟩ := s.exists_path (b.peerExists s) data
    refine StreamBench.receive_alone ?_
    rw [hreceive]
    cases path with
    | relayed packet => exact absurd htakes (hkeeps packet)
    | _ => rfl

/-- A stream that relays telephone events to the port 5002. -/
def eventRelay : AudioStream :=
  { Bridge.Pair.eventPair.stream .a with
    agreement := some ⟨0, .muLaw, [(0, .muLaw)], none, 20⟩
    relaying := some ⟨PayloadMask.ofList [101], 5002⟩ }

/-- The stream, and the one on that port. -/
def eventBench : StreamBench where
  streams := [some eventRelay, some (Bridge.Pair.eventPair.stream .b)]
  phones := .ofPlaces []
  now := 1

/-- A packet with one sample of silence. -/
def silentDatagram : List UInt8 := [0x80, 0, 0, 1, 0, 0, 0, 160, 0, 0, 0, 7, 0xFF]

/-- A telephone event is relayed, and audio is played. -/
theorem one_path_event :
    eventBench.stream? 0 = some eventRelay ∧
      eventRelay.Takes true Packet.sampleDatagram
        (.relayed { Packet.sample with padding := true }) ∧
      (eventBench.receive 0 eventRelay Packet.sampleDatagram).stream? 0 =
        some { eventRelay with lastReceived := 1 } ∧
      ((eventBench.receive 0 eventRelay Packet.sampleDatagram).stream? 1).map (·.outbox.length) =
        some 1 ∧
      eventRelay.receive 1 true silentDatagram =
        ({ eventRelay with
          lastReceived := 1
          playout := eventRelay.playout.put 160 1 [0] }, none) := by
  have hstream : eventBench.stream? 0 = some eventRelay := rfl
  have htakes : eventRelay.Takes true Packet.sampleDatagram
      (.relayed { Packet.sample with padding := true }) :=
    .relayed rfl ⟨rfl, _, rfl, by decide⟩
  obtain ⟨hevent, -⟩ := (one_path eventRelay Packet.sampleDatagram).2 eventBench 0 hstream
  obtain ⟨r, j, peer, hr, hj, -, hpeer, hreceive, hself, -⟩ := hevent _ htakes
  obtain rfl : _ = r := Option.some.inj hr
  obtain rfl : 1 = j := Option.some.inj hj
  refine ⟨hstream, htakes, hself (by decide), ?_, ?_⟩
  · obtain rfl : _ = peer := Option.some.inj hpeer
    rw [hreceive]
    rfl
  · obtain ⟨path, hpath, hreceive⟩ := (one_path eventRelay silentDatagram).1 true
    have hkeeps :
        ¬ eventRelay.Relays true ⟨2, false, false, false, 0, 1, 160, 7, [], none, [0xFF]⟩ :=
      fun ⟨_, _, hr, hmask⟩ => by cases hr; exact absurd hmask (by decide)
    obtain rfl := (hpath _).1 (.played rfl hkeeps ⟨.muLaw, rfl, rfl⟩)
    exact hreceive 1

end CallBridge.Rtp.AudioStream
