import CallBridge.Proofs.Playout.Drain
import CallBridge.Proofs.Playout.Order
import CallBridge.Proofs.Playout.Reassembly
import CallBridge.Proofs.Rtp.Numbering

/-!
# Audio from one stream to another

Frames of linear audio are put to a stream, which sends each of them as a packet. The datagrams that
its socket takes come in at another stream in any order, each of them at least once, and then that
stream is read.

A datagram carries a frame and, in the timestamp of its packet, the place of the frame's first
sample. Whatever numbers the sender began with, this is what the queue of the receiver puts the
frames together by.

Results:
* `AudioStream.transmitAll_put`: the datagrams that are sent carry the frames that get underway.
* `AudioStream.Tuned.hear`: a datagram that comes in takes its frame to the playout queue.
* `AudioStream.Tuned.read`: a stream that is read is read from its playout buffer.
* `AudioStream.Delivery.holds`: what the receiver holds before it is read.
* `AudioStream.audio_arrives`: what is heard is the front of what got underway, and all of it unless
  a read stalls.
* `AudioStream.not_audio_arrives_wholly`: a read that stalls cuts off the end.
-/

namespace CallBridge.Rtp

open Playout (Frame JitterBuffer Queue)

/-! ## Datagrams that carry frames -/

/-- A datagram is a packet of a payload type that a codec decodes. -/
def Carries (codec : Codec) (pt : UInt8) (data : List UInt8) : Prop :=
  ∃ packet pcm, Packet.parse data = .ok packet ∧ packet.payloadType = pt ∧
    codec.decode packet.payload = .ok pcm

/-- The frame that a datagram carries, its place counted from a timestamp. -/
def frameOf (codec : Codec) (origin : UInt32) (data : List UInt8) : Frame :=
  match Packet.parse data with
  | .ok packet =>
    ((packet.timestamp - origin).toNat, (codec.decode packet.payload).toOption.getD [])
  | .error _ => (0, [])

namespace AudioStream

/-- The datagram of some samples carries them. -/
theorem carries_packetOf (s : AudioStream) {a : Agreement} {rate : UInt32}
    (hcodec : a.codec = .linear rate) (target : Net.Endpoint) (xs : List Int16) :
    let d : Datagram := ⟨target, s.packetOf a xs, false⟩
    Carries (.linear rate) (a.payloadType % 128) d.bytes ∧
      ∀ origin, frameOf (.linear rate) origin d.bytes =
        ((s.identity.timestamp - origin).toNat, xs) := by
  intro d
  have hread : Packet.parse d.bytes = .ok (s.packetOf a xs).normal :=
    Packet.parse_eq_ok_iff.2 (Packet.read_serialize fun e he => nomatch he)
  have hdecode : (Codec.linear rate).decode (s.packetOf a xs).normal.payload = .ok xs := by
    show (Codec.linear rate).decode (a.codec.encode xs) = .ok xs
    rw [hcodec, Codec.decode_encode_linear]
  refine ⟨⟨_, xs, hread, rfl, hdecode⟩, fun origin => ?_⟩
  rw [frameOf, hread]
  simp only [hdecode]
  rfl

/-! ## Sending -/

/-- What a stream sends when frames are put to it. -/
def sentFor (s : AudioStream) (frames : List (List UInt8)) : List Datagram :=
  (s.transmitAll (frames.map .put)).outbox.drop s.outbox.length

/-- Those of some frames, put to a stream one after the other, that it sends. -/
def underway (s : AudioStream) : List (List UInt8) → List (List UInt8)
  | [] => []
  | pcm :: frames =>
    (if s.sentFor [pcm] = [] then [] else [pcm]) ++ (s.put pcm).1.underway frames

theorem underway_sublist (s : AudioStream) (frames : List (List UInt8)) :
    (s.underway frames).Sublist frames := by
  induction frames generalizing s with
  | nil => exact .slnil
  | cons pcm frames ih =>
    have hfirst : (if s.sentFor [pcm] = [] then [] else [pcm]).Sublist [pcm] := by
      split
      · exact List.nil_sublist _
      · exact .refl _
    exact hfirst.append (ih _)

/-- Without a remote side frames that are put change nothing. -/
theorem transmitAll_unreachable {s : AudioStream} {a : Agreement} (h : s.agreement = some a)
    (hr : a.remote = none) (frames : List (List UInt8)) :
    s.transmitAll (frames.map .put) = s ∧ s.underway frames = [] := by
  have hput (pcm : List UInt8) : (s.put pcm).1 = s := congrArg Prod.fst (put_unreachable h hr pcm)
  have hsent (pcm : List UInt8) : s.sentFor [pcm] = [] := by
    show (s.put pcm).1.outbox.drop s.outbox.length = []
    rw [hput, List.drop_length]
  induction frames with
  | nil => exact ⟨rfl, rfl⟩
  | cons pcm frames ih =>
    refine ⟨?_, ?_⟩
    · show (s.put pcm).1.transmitAll (frames.map .put) = s
      rw [hput, ih.1]
    · rw [underway, if_pos (hsent pcm), hput, ih.2]
      rfl

/-- A timestamp tells how far it lies behind another one. -/
theorem toNat_stamp_sub (origin : UInt32) {place : Nat} (h : place < 4294967296) :
    (origin + UInt32.ofNat place - origin).toNat = place := by
  have hdiff : origin + UInt32.ofNat place - origin = UInt32.ofNat place := by grind
  rw [hdiff, UInt32.toNat_ofNat']
  omega

/-- The datagrams that are sent for some frames carry those that get underway, each at its place
among all of them. -/
theorem transmitAll_put {s : AudioStream} {a : Agreement} {rate : UInt32} {target : Net.Endpoint}
    (h : s.agreement = some a) (hcodec : a.codec = .linear rate) (hr : a.remote = some target)
    {origin : UInt32} {place : Nat} (hstamp : s.identity.timestamp = origin + UInt32.ofNat place)
    {frames : List (List UInt8)}
    (hshort : place + (frames.map Audio.samples).flatten.length < 4294967296) :
    ∃ sent laid, (s.transmitAll (frames.map .put)).outbox = s.outbox ++ sent ∧
      (∀ d ∈ sent, Carries (.linear rate) (a.payloadType % 128) d.bytes) ∧
      (sent.map Datagram.bytes).map (frameOf (.linear rate) origin) = laid ∧
      laid.Sublist (Playout.laidOut place (frames.map Audio.samples)) ∧
      laid.map (·.2) = (s.underway frames).map Audio.samples := by
  induction frames generalizing s place with
  | nil => exact ⟨[], [], by simp [transmitAll], by simp, rfl, .slnil, rfl⟩
  | cons pcm frames ih =>
    have hput := put_reachable h hr pcm
    rw [List.map_cons, List.flatten_cons, List.length_append] at hshort
    have hagreement : (s.put pcm).1.agreement = some a := by
      rw [hput]
      exact h
    have hnext : (s.put pcm).1.identity.timestamp =
        origin + UInt32.ofNat (place + (Audio.samples pcm).length) := by
      rw [hput]
      show s.identity.timestamp + UInt32.ofNat (Audio.samples pcm).length = _
      rw [hstamp, UInt32.ofNat_add]
      grind
    obtain ⟨sent, laid, houtbox, hcarries, hframes, hlaid, hunderway⟩ :=
      ih hagreement hnext (by omega)
    have hgiven : (s.transmitAll ((pcm :: frames).map .put)).outbox =
        s.outbox ++ (s.carried ⟨target, s.packetOf a (Audio.samples pcm), false⟩ ++ sent) := by
      refine houtbox.trans ?_
      rw [hput]
      exact List.append_assoc _ _ _
    have hfirst : s.sentFor [pcm] =
        s.carried ⟨target, s.packetOf a (Audio.samples pcm), false⟩ := by
      show (s.put pcm).1.outbox.drop s.outbox.length = _
      rw [hput]
      exact List.drop_left
    by_cases htaken : s.answerTo ⟨target, s.packetOf a (Audio.samples pcm), false⟩ = .taken
    · rw [carried, if_pos htaken] at hgiven hfirst
      obtain ⟨hcarried, hframe⟩ := s.carries_packetOf hcodec target (Audio.samples pcm)
      have hplace : (s.identity.timestamp - origin).toNat = place := by
        rw [hstamp, toNat_stamp_sub origin (by omega)]
      refine ⟨_, (place, Audio.samples pcm) :: laid, hgiven, ?_, ?_, hlaid.cons_cons _, ?_⟩
      · exact List.forall_mem_cons.2 ⟨hcarried, hcarries⟩
      · rw [List.singleton_append, List.map_cons, List.map_cons, hframe, hplace, hframes]
      · rw [underway, hfirst, if_neg (List.cons_ne_nil _ _), List.map_append, ← hunderway]
        rfl
    · rw [carried, if_neg htaken] at hgiven hfirst
      refine ⟨sent, laid, hgiven, hcarries, hframes, hlaid.cons _, ?_⟩
      rw [underway, hfirst, if_pos rfl, hunderway]
      rfl

end AudioStream

/-! ## Coming in -/

/-- A datagram that comes in at a time, when the stream of the other leg is there or not. -/
structure Incoming where
  now : Nat
  peerExists : Bool
  data : List UInt8

namespace AudioStream

/-- The stream after a datagram came in. -/
def hear (r : AudioStream) (i : Incoming) : AudioStream := (r.receive i.now i.peerExists i.data).1

/-- The stream after one datagram after the other came in. -/
def hearAll (r : AudioStream) (is : List Incoming) : AudioStream := is.foldl hear r

/-- A stream decodes a payload type, does not relay it and waits for packets without end. -/
structure Tuned (r : AudioStream) (pt : UInt8) (codec : Codec) : Prop where
  decodes : r.agreement.bind (·.decoder? pt) = some codec
  direct : ∀ peer, r.relaying = some peer → peer.mask.contains pt = false
  patient : r.settings.timeoutNanos = none

/-- A stream that was negotiated is tuned to the payload types of the agreement. -/
theorem tuned_adopt {s : AudioStream} {a : Agreement} {pt : UInt8} {codec : Codec} (now : Nat)
    (hdecodes : a.decoder? pt = some codec) (hrelaying : s.relaying = none)
    (hpatient : s.settings.timeoutNanos = none) : (s.adopt now a).Tuned pt codec where
  decodes := hdecodes
  direct peer hpeer := by
    have hnone : (s.adopt now a).relaying = none := hrelaying
    rw [hnone] at hpeer
    cases hpeer
  patient := hpatient

namespace Tuned

variable {r : AudioStream} {pt : UInt8} {codec : Codec}

/-- A datagram that comes in takes the frame that it carries to the playout queue. -/
theorem hear (h : r.Tuned pt codec) {i : Incoming} (hi : Carries codec pt i.data) :
    (r.hear i).Tuned pt codec ∧ (r.hear i).playout.delays = r.playout.delays ∧
      ∀ origin, (r.hear i).playout.queue =
        r.playout.queue.putAt origin (frameOf codec origin i.data) := by
  obtain ⟨packet, pcm, hparse, rfl, hdecode⟩ := hi
  have hkeeps : ¬ r.Relays i.peerExists packet := by
    rintro ⟨-, peer, hpeer, hmask⟩
    rw [h.direct peer hpeer] at hmask
    cases hmask
  have hheard : r.hear i = { r with
      lastReceived := i.now
      playout := r.playout.put packet.timestamp (i.now - r.playoutSince) pcm } :=
    congrArg Prod.fst
      ((Takes.played hparse hkeeps ⟨codec, h.decodes, hdecode⟩).receive i.now)
  rw [hheard]
  refine ⟨⟨h.decodes, h.direct, h.patient⟩, ?_, fun origin => ?_⟩
  · show (r.playout.put _ _ _).delays = _
    unfold JitterBuffer.put
    split <;> rfl
  · have hstamp : origin + UInt32.ofNat (packet.timestamp - origin).toNat = packet.timestamp := by
      rw [UInt32.ofNat_toNat]
      grind
    rw [frameOf, hparse]
    simp only [hdecode, Queue.putAt, hstamp]
    exact JitterBuffer.queue_put _ _ _ _

theorem hearAll (h : r.Tuned pt codec) {is : List Incoming}
    (his : ∀ i ∈ is, Carries codec pt i.data) (origin : UInt32) :
    (r.hearAll is).Tuned pt codec ∧ (r.hearAll is).playout.delays = r.playout.delays ∧
      (r.hearAll is).playout.queue =
        ((is.map (·.data)).map (frameOf codec origin)).foldl (Queue.putAt origin)
          r.playout.queue := by
  induction is generalizing r with
  | nil => exact ⟨h, rfl, rfl⟩
  | cons i is ih =>
    obtain ⟨htuned, hdelays, hqueue⟩ := h.hear (his i List.mem_cons_self)
    obtain ⟨hall, hdelays', hqueue'⟩ := ih htuned fun j hj => his j (List.mem_cons_of_mem i hj)
    refine ⟨hall, hdelays'.trans hdelays, hqueue'.trans ?_⟩
    rw [hqueue origin]
    rfl

end Tuned

end AudioStream

/-! ## Being read -/

/-- A read into an output buffer at a time. -/
structure Get where
  now : Nat
  out : List UInt8

/-- What a read returns: the front of the output buffer, if it does not fail. -/
def returned : List UInt8 × Outcome Nat → List UInt8
  | (out, .ok count) => out.take count
  | (_, .error _) => []

namespace AudioStream

/-- What some reads return, put behind each other. -/
def listen : AudioStream → List Get → List UInt8
  | _, [] => []
  | r, g :: gs => returned (r.read g.now g.out).2 ++ listen (r.read g.now g.out).1 gs

/-- Among some reads is one that has no room for a sample, while samples are left but fewer than
must wait before playing begins. -/
def Stalls : AudioStream → List Get → Prop
  | _, [] => False
  | r, g :: gs => (g.out.length < 2 ∧ r.playout.RunsLow) ∨ Stalls (r.read g.now g.out).1 gs

namespace Tuned

variable {r : AudioStream} {pt : UInt8} {codec : Codec}

/-- A stream that is read is read from its playout buffer. -/
theorem read (h : r.Tuned pt codec) (g : Get) :
    (r.read g.now g.out).1 = { r with playout := (r.playout.take g.out.length).1 } ∧
      returned (r.read g.now g.out).2 = (r.playout.take g.out.length).2 := by
  have htime : r.isTimedOut g.now = false := by rw [isTimedOut, h.patient]
  have hinitialized : r.isInitialized = true := by
    obtain ⟨a, ha, -⟩ := Option.bind_eq_some_iff.1 h.decodes
    rw [isInitialized, ha]
    rfl
  have htake : r.take g.now g.out.length =
      ({ r with playout := (r.playout.take g.out.length).1 },
        .ok (r.playout.take g.out.length).2) := by
    rw [AudioStream.take, htime, hinitialized, if_neg Bool.false_ne_true, if_pos rfl]
  rw [AudioStream.read, htake]
  exact ⟨rfl, Audio.take_overlay _ _⟩

theorem listen_eq (h : r.Tuned pt codec) (gs : List Get) :
    r.listen gs = r.playout.heard (gs.map (·.out.length)) ∧
      (r.Stalls gs ↔ r.playout.Stalls (gs.map (·.out.length))) := by
  induction gs generalizing r with
  | nil => exact ⟨rfl, Iff.rfl⟩
  | cons g gs ih =>
    obtain ⟨hstream, hreturned⟩ := h.read g
    have htuned : (r.read g.now g.out).1.Tuned pt codec := by
      rw [hstream]
      exact ⟨h.decodes, h.direct, h.patient⟩
    obtain ⟨hlisten, hstalls⟩ := ih htuned
    rw [listen, Stalls, hreturned, hlisten, hstalls, hstream]
    exact ⟨rfl, Iff.rfl⟩

end Tuned

/-! ## From one stream to the other -/

/-- Frames of linear audio are put to a stream, and the datagrams that it sends come in at another
stream, which understands them and was not used before. -/
structure Delivery (s r : AudioStream) (frames : List (List UInt8)) (is : List Incoming) :
    Prop where
  /-- Both streams have the same linear format under the payload type that stands in packets. -/
  format : ∃ a rate, s.agreement = some a ∧ a.codec = .linear rate ∧
    r.Tuned (a.payloadType % 128) (.linear rate)
  unused : r.playout = JitterBuffer.empty .adaptive r.rate r.settings.delays
  /-- Frames are not empty and hold whole samples. -/
  whole : ∀ pcm ∈ frames, pcm ≠ [] ∧ pcm.length % 2 = 0
  short : frames.flatten.length / 2 < 2147483648
  fits : frames.flatten.length / 2 ≤ r.playout.delays.greatest
  /-- The datagrams come in in any order, and each of them at least once. -/
  arrives : ∀ data, data ∈ is.map (·.data) ↔ data ∈ (s.sentFor frames).map Datagram.bytes

theorem bytes_flatten_samples {frames : List (List UInt8)}
    (h : ∀ pcm ∈ frames, pcm.length % 2 = 0) :
    Audio.bytes (frames.map Audio.samples).flatten = frames.flatten := by
  induction frames with
  | nil => rfl
  | cons pcm frames ih =>
    rw [List.map_cons, List.flatten_cons, List.flatten_cons, Audio.bytes_append,
      Audio.bytes_samples (h pcm List.mem_cons_self),
      ih fun p hp => h p (List.mem_cons_of_mem pcm hp)]

namespace Delivery

variable {s r : AudioStream} {frames : List (List UInt8)} {is : List Incoming}

theorem queue_eq (h : Delivery s r frames is) :
    r.playout.queue = Queue.empty .adaptive r.playout.delays.greatest := by
  rw [h.unused]
  rfl

theorem bytes_frames (h : Delivery s r frames is) :
    Audio.bytes (frames.map Audio.samples).flatten = frames.flatten :=
  bytes_flatten_samples fun pcm hpcm => (h.whole pcm hpcm).2

theorem length_frames (h : Delivery s r frames is) :
    (frames.map Audio.samples).flatten.length = frames.flatten.length / 2 := by
  have hlength := congrArg List.length h.bytes_frames
  rw [Audio.length_bytes] at hlength
  omega

theorem samples_ne_nil (h : Delivery s r frames is) :
    ∀ pcm ∈ frames.map Audio.samples, pcm ≠ [] := by
  intro pcm hpcm
  obtain ⟨bytes, hmem, rfl⟩ := List.mem_map.1 hpcm
  obtain ⟨hsome, heven⟩ := h.whole bytes hmem
  intro hnone
  have hbytes := Audio.bytes_samples heven
  rw [hnone] at hbytes
  exact hsome hbytes.symm

/-- The datagrams that come in carry the frames that got underway, which lie behind each other. -/
theorem carries (h : Delivery s r frames is) :
    ∃ (pt : UInt8) (codec : Codec) (origin : UInt32) (laid : List Frame),
      r.Tuned pt codec ∧ (∀ i ∈ is, Carries codec pt i.data) ∧
      (∀ f, f ∈ (is.map (·.data)).map (frameOf codec origin) ↔ f ∈ laid) ∧
      laid.Sublist (Playout.laidOut 0 (frames.map Audio.samples)) ∧
      laid.map (·.2) = (s.underway frames).map Audio.samples ∧
      laid.length = (s.sentFor frames).length := by
  obtain ⟨a, rate, hagreement, hcodec, htuned⟩ := h.format
  have harrives := h.arrives
  rcases Option.eq_none_or_eq_some a.remote with hnone | ⟨target, htarget⟩
  · obtain ⟨hsame, hunderway⟩ := transmitAll_unreachable hagreement hnone frames
    have hsent : s.sentFor frames = [] := by rw [sentFor, hsame, List.drop_length]
    rw [hsent] at harrives ⊢
    rw [List.map_nil] at harrives
    have hnothing : is = [] := List.map_eq_nil_iff.1
      (List.eq_nil_iff_forall_not_mem.2 fun data hdata => nomatch (harrives data).1 hdata)
    subst hnothing
    exact ⟨_, _, 0, [], htuned, nofun, fun f => Iff.rfl, List.nil_sublist _, by rw [hunderway]; rfl,
      rfl⟩
  · have hbegin : s.identity.timestamp = s.identity.timestamp + UInt32.ofNat 0 := by simp
    have hshort : 0 + (frames.map Audio.samples).flatten.length < 4294967296 := by
      have := h.short
      rw [h.length_frames]
      omega
    obtain ⟨sent, laid, houtbox, hcarries, hframes, hlaid, hunderway⟩ :=
      transmitAll_put hagreement hcodec htarget hbegin hshort
    have hsent : s.sentFor frames = sent := by rw [sentFor, houtbox, List.drop_left]
    rw [hsent] at harrives ⊢
    refine ⟨_, _, s.identity.timestamp, laid, htuned, fun i hi => ?_, fun f => ?_, hlaid, hunderway,
      by rw [← hframes, List.length_map, List.length_map]⟩
    · obtain ⟨d, hd, hdata⟩ := List.mem_map.1 ((harrives i.data).1 (List.mem_map_of_mem hi))
      exact hdata ▸ hcarries d hd
    · rw [← hframes, List.mem_map, List.mem_map]
      simp only [harrives]

/-- Where as many datagrams are sent as frames are put, all frames get underway. -/
theorem underway_eq (h : Delivery s r frames is)
    (hall : (s.sentFor frames).length = frames.length) : s.underway frames = frames := by
  obtain ⟨-, -, -, laid, -, -, -, -, hunderway, hlength⟩ := h.carries
  refine (s.underway_sublist frames).eq_of_length ?_
  rw [← hall, ← hlength, ← List.length_map Prod.snd, hunderway, List.length_map]

/-- Before it is read, the other stream holds all frames that got underway. -/
theorem holds (h : Delivery s r frames is) :
    (∃ pt codec, (r.hearAll is).Tuned pt codec) ∧
      (r.hearAll is).playout.delays = r.playout.delays ∧
      (r.hearAll is).playout.queue.mode = .adaptive ∧
      ∃ left, (r.hearAll is).playout.queue.Holds left ∧
        Audio.bytes left = (s.underway frames).flatten := by
  obtain ⟨pt, codec, origin, laid, htuned, hcarries, hplaces, hsub, hunderway, -⟩ := h.carries
  obtain ⟨htuned', hdelays, hqueue⟩ := htuned.hearAll hcarries origin
  have hlaid :=
    (Playout.Laid.laidOut h.samples_ne_nil (h.length_frames.trans_lt h.short)).sublist hsub
  have hroom : Playout.sampleCount laid ≤ r.playout.delays.greatest := by
    refine (Playout.sampleCount_le_of_sublist hsub).trans ?_
    rw [Playout.sampleCount_laidOut, h.length_frames]
    exact h.fits
  obtain ⟨base, hgathered⟩ :=
    Playout.Gathered.gather hlaid hroom origin fun f hf => (hplaces f).1 hf
  rw [← h.queue_eq, ← hqueue] at hgathered
  have hleft : laid.flatMap (·.2) = ((s.underway frames).map Audio.samples).flatten := by
    rw [← hunderway, List.flatMap_def]
  refine ⟨⟨_, _, htuned'⟩, hdelays, hgathered.adaptive, laid.flatMap (·.2), ⟨?_, ?_⟩, ?_⟩
  · rw [hgathered.pending, hgathered.complete hlaid hplaces, List.nil_append,
      Playout.flatMap_behind]
  · rw [hgathered.buffered, hgathered.complete hlaid hplaces, Playout.sampleCount_behind,
      Playout.length_flatMap_frames]
  · rw [hleft]
    exact bytes_flatten_samples fun pcm hpcm =>
      (h.whole pcm ((s.underway_sublist frames).subset hpcm)).2

end Delivery

/-- **Main theorem**: audio that is put to one stream is heard at the other.

The frames that get underway are found among those that were put, in order; where as many datagrams
are sent as frames were put, they are all of them. The datagrams come in in any order, each of them
at least once, before the other stream is read. Whatever reads then return is the front of the audio
that got underway, in order. Once something was heard, reads with room for the rest of this audio
return all of it, unless one of them has no room for a sample at a time when fewer samples are left
than must wait before playing begins. -/
theorem audio_arrives {s r : AudioStream} {frames : List (List UInt8)} {is : List Incoming}
    (h : Delivery s r frames is) :
    (s.underway frames).Sublist frames ∧
      ((s.sentFor frames).length = frames.length → s.underway frames = frames) ∧
      (∀ gets, (r.hearAll is).listen gets <+: (s.underway frames).flatten) ∧
      ∀ gets more, (r.hearAll is).listen gets ≠ [] →
        (s.underway frames).flatten.length ≤ ((r.hearAll is).listen gets).length +
          JitterBuffer.room (more.map (·.out.length)) →
        ((r.hearAll is).listen (gets ++ more) = (s.underway frames).flatten ↔
          ¬ (r.hearAll is).Stalls (gets ++ more)) := by
  obtain ⟨⟨pt, codec, htuned⟩, -, -, left, hholds, hleft⟩ := h.holds
  have hlisten (gets : List Get) := (htuned.listen_eq gets).1
  refine ⟨s.underway_sublist frames, h.underway_eq, fun gets => ?_,
    fun gets more hstarted hroom => ?_⟩
  · obtain ⟨n, hheard, -⟩ := JitterBuffer.heard_prefix hholds (gets.map (·.out.length))
    rw [hlisten, hheard]
    refine ⟨Audio.bytes (left.drop n), ?_⟩
    rw [← Audio.bytes_append, List.take_append_drop, hleft]
  · rw [hlisten] at hstarted hroom
    rw [hlisten, (htuned.listen_eq _).2, List.map_append, ← hleft]
    refine JitterBuffer.heard_rest hholds hstarted ?_
    rwa [← Audio.length_bytes, hleft]

/-! ### A run -/

/-- Linear audio of 8000 Hz in both directions. -/
def linearAgreement : Agreement :=
  ⟨96, .linear 8000, [(96, .linear 8000)], some ⟨.v4 [10, 0, 0, 2], 5002⟩, 20⟩

/-- Audio waits for one millisecond, no less and no more. -/
def tightSettings : StreamSettings := ⟨8000, 20, ⟨1, 1, 1⟩, ⟨false, false⟩, none⟩

/-- A stream whose timestamps and sequence numbers are about to begin anew. -/
def speaker : AudioStream :=
  { AudioStream.fresh .a ⟨.v4 [10, 0, 0, 1], 5000⟩ .connected tightSettings
      Codec.Registry.standard ⟨7, 0xFFFF, 0xFFFFFFFE, 0⟩ 0 with
    agreement := some linearAgreement }

def listener : AudioStream :=
  (AudioStream.fresh .b ⟨.v4 [10, 0, 0, 2], 5002⟩ .connected tightSettings
    Codec.Registry.standard ⟨8, 0, 0, 0⟩ 0).adopt 0 linearAgreement

/-- Two frames, together as long as the listener waits. -/
def spoken : List (List UInt8) := [[1, 0, 2, 0, 3, 0, 4, 0], [5, 0, 6, 0, 7, 0, 8, 0]]

/-- The last datagram comes in first, and each comes in twice. -/
def shuffled : List Incoming :=
  let sent := (speaker.sentFor spoken).map Datagram.bytes
  (sent.reverse ++ sent).map fun data => ⟨1, true, data⟩

theorem delivery_shuffled : Delivery speaker listener spoken shuffled where
  format := ⟨linearAgreement, 8000, rfl, rfl, tuned_adopt 0 rfl rfl rfl⟩
  unused := rfl
  whole := by decide
  short := by decide
  fits := by decide
  arrives data := by simp [shuffled]

/-- Before it is read, the listener holds the eight samples for which it waits. -/
theorem full_listener :
    ∃ pt codec left, (listener.hearAll shuffled).Tuned pt codec ∧
      (listener.hearAll shuffled).playout.queue.Holds left ∧
      Audio.bytes left = spoken.flatten ∧ left.length = 8 ∧
      (listener.hearAll shuffled).playout.target = 8 := by
  obtain ⟨⟨pt, codec, htuned⟩, hdelays, hmode, left, hholds, hbytes⟩ := delivery_shuffled.holds
  rw [delivery_shuffled.underway_eq rfl] at hbytes
  have hlength : 2 * left.length = 16 := by
    rw [← Audio.length_bytes, hbytes]
    rfl
  -- the estimate of the jitter plays no part, as the least delay is also the greatest one
  have htarget : (listener.hearAll shuffled).playout.target = 8 := by
    rw [JitterBuffer.target, JitterBuffer.mode, hmode, hdelays]
    exact Nat.max_eq_left (Nat.min_le_right _ _)
  exact ⟨pt, codec, left, htuned, hholds, hbytes, by omega, htarget⟩

theorem flows_listener : (listener.hearAll shuffled).playout.Flows := by
  obtain ⟨-, -, left, -, hholds, -, hlength, htarget⟩ := full_listener
  refine .inr (.inr ?_)
  rw [htarget, JitterBuffer.buffered, hholds.buffered, hlength]

/-- The first read with room for a sample is heard. -/
theorem listen_first {g : Get} (hroom : 2 ≤ g.out.length) :
    (listener.hearAll shuffled).listen [g] ≠ [] := by
  obtain ⟨pt, codec, left, htuned, hholds, -, hlength, -⟩ := full_listener
  have hleft : left ≠ [] := List.ne_nil_of_length_pos (by omega)
  have hheard := JitterBuffer.take_ne_nil hholds flows_listener hleft hroom
  rw [(htuned.listen_eq [g]).1]
  exact fun hnone => hheard (List.append_eq_nil_iff.1 hnone).1

theorem audio_arrives_shuffled :
    Delivery speaker listener spoken shuffled ∧
      (listener.hearAll shuffled).listen [⟨2, [0, 0, 0, 0, 0]⟩, ⟨3, List.replicate 16 0⟩] =
        [1, 0, 2, 0, 3, 0, 4, 0, 5, 0, 6, 0, 7, 0, 8, 0] := by
  refine ⟨delivery_shuffled, ?_⟩
  obtain ⟨pt, codec, -, htuned, -⟩ := full_listener
  obtain ⟨-, hwhole, -, hrest⟩ := audio_arrives delivery_shuffled
  rw [hwhole rfl] at hrest
  refine (hrest [⟨2, [0, 0, 0, 0, 0]⟩] [⟨3, List.replicate 16 0⟩] (listen_first (by decide))
    (Nat.le_trans (by decide) (Nat.le_add_left _ _))).2 ?_
  rw [(htuned.listen_eq _).2]
  exact JitterBuffer.not_stalls_of_roomy _ (by decide)

/-- Even where all frames get underway, the end of the audio is not always heard: after a read of
nothing, the seven samples that are left are too few for playing to begin again. -/
theorem not_audio_arrives_wholly :
    ¬ ∀ (s r : AudioStream) (frames : List (List UInt8)) (is : List Incoming),
      Delivery s r frames is → (s.sentFor frames).length = frames.length →
        ∀ gets more, (r.hearAll is).listen gets ≠ [] →
        frames.flatten.length ≤ ((r.hearAll is).listen gets).length +
          JitterBuffer.room (more.map (·.out.length)) →
        (r.hearAll is).listen (gets ++ more) = frames.flatten := by
  intro hall
  obtain ⟨pt, codec, left, htuned, hholds, hbytes, hlength, htarget⟩ := full_listener
  have hheard := hall speaker listener spoken shuffled delivery_shuffled rfl [⟨2, [0, 0]⟩]
    [⟨3, []⟩, ⟨4, List.replicate 16 0⟩] (listen_first (by decide))
    (Nat.le_trans (by decide) (Nat.le_add_left _ _))
  rw [(htuned.listen_eq _).1, ← hbytes] at hheard
  have hready := JitterBuffer.ready_of_flows flows_listener
    (by rw [JitterBuffer.buffered, hholds.buffered]; omega)
  obtain ⟨-, -, hrest, -⟩ :=
    (JitterBuffer.take_cases hholds 2).resolve_left fun hwaits => hwaits.1 hready
  have hlow : ((listener.hearAll shuffled).playout.take 2).1.RunsLow := by
    rw [JitterBuffer.RunsLow, JitterBuffer.target_take, htarget, JitterBuffer.buffered,
      hrest.buffered, List.length_drop, hlength]
    decide
  have hstalls : (listener.hearAll shuffled).playout.Stalls [2, 0, 16] :=
    Or.inr (Or.inl ⟨by decide, hlow⟩)
  exact JitterBuffer.heard_ne_of_stalls hholds hstalls hheard

end AudioStream

end CallBridge.Rtp
