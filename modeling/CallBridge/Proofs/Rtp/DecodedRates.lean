import CallBridge.Proofs.Rtp.CommonFormats
import CallBridge.Proofs.Rtp.StreamRuns
import CallBridge.Proofs.Rtp.WireFormat

/-!
# The rates of buffered audio

What a stream decodes waits in a playout buffer that runs at the rate of the codec by which the
stream sends. Packets are decoded by the codecs of all formats of either line, so audio of another
rate gets into the buffer if some format has a codec of another rate, and only then.

Results:
* `AudioStream.playout_receive`: what a datagram does to the playout buffer.
* `AudioStream.InTune.act`: a stream stays in tune, whatever happens to it, if what it is bound to
  is in tune.
* `AudioStream.decoded_at_rate_iff`: when all audio that gets into the buffer has its rate.
* `AudioStream.not_decoded_at_rate`: it does not always.
-/

namespace CallBridge.Rtp

open Agreement (IsCommon Reads)
open Sdp (Media)

/-- Payload types have seven bits. -/
theorem Packet.payloadType_lt_of_parse {data : List UInt8} {packet : Packet}
    (h : Packet.parse data = .ok packet) : packet.payloadType < 128 := by
  have hread := Packet.parse_eq_ok_iff.1 h
  match data, hread with
  | b0 :: b1 :: s1 :: s0 :: t3 :: t2 :: t1 :: t0 :: r3 :: r2 :: r1 :: r0 :: bytes, hread =>
    obtain ⟨-, sources, e, payload, pads, -, -, -, -, rfl⟩ := Packet.read_cons_eq_ok_iff.1 hread
    rw [UInt8.lt_iff_toNat_lt]
    show (b1 % 128).toNat < 128
    rw [UInt8.toNat_mod]
    exact Nat.mod_lt _ (by decide)

/-! ## Frames that are put into the playout buffer -/

/-- A frame that is put into the playout buffer of a stream: the codec by which it was decoded, its
samples, and the rates of the stream and of the buffer at that moment. -/
structure Intake where
  codec : Codec
  pcm : List Int16
  rate : UInt32
  bufferRate : UInt32

namespace AudioStream

/-- The frame that a packet puts into the playout buffer, if there is a codec that decodes it; a
packet without audio puts none. -/
def decoded? (s : AudioStream) (packet : Packet) : Option Intake :=
  match s.decoder? packet with
  | none => none
  | some codec =>
    match codec.decode packet.payload with
    | .ok (x :: xs) => some ⟨codec, x :: xs, s.rate, s.playout.rate⟩
    | _ => none

/-- The frame that a datagram puts into the playout buffer. -/
def intake? (s : AudioStream) (peerExists : Bool) (data : List UInt8) : Option Intake :=
  match Packet.parse data with
  | .error _ => none
  | .ok packet => if s.isRelayed packet && peerExists then none else s.decoded? packet

/-- A frame that is put into the playout buffer was decoded from the packet of its datagram, and it
is the only change of the buffer; a datagram without such a frame leaves the buffer alone. -/
theorem playout_receive (s : AudioStream) (now : Nat) (peerExists : Bool) (data : List UInt8) :
    (s.intake? peerExists data = none ∧
        (s.receive now peerExists data).1.playout = s.playout) ∨
      ∃ packet i, Packet.parse data = .ok packet ∧ s.intake? peerExists data = some i ∧
        i.codec.decode packet.payload = .ok i.pcm ∧ i.pcm ≠ [] ∧
        s.decoder? packet = some i.codec ∧ i.rate = s.rate ∧ i.bufferRate = s.playout.rate ∧
        (s.receive now peerExists data).1.playout =
          s.playout.put packet.timestamp (now - s.playoutSince) i.pcm := by
  unfold intake? receive
  rcases hparse : Packet.parse data with f | packet
  · exact .inl ⟨rfl, rfl⟩
  dsimp only
  split
  · exact .inl ⟨rfl, rfl⟩
  have hdecoder : decoder? { s with lastReceived := now } packet = s.decoder? packet := rfl
  unfold decoded? decodePacket
  rw [hdecoder]
  rcases hcodec : s.decoder? packet with _ | codec
  · exact .inl ⟨rfl, rfl⟩
  dsimp only
  rcases hdecode : codec.decode packet.payload with f | pcm
  · exact .inl ⟨rfl, rfl⟩
  cases pcm with
  | nil => exact .inl ⟨rfl, rfl⟩
  | cons x xs =>
    exact .inr ⟨packet, ⟨codec, x :: xs, s.rate, s.playout.rate⟩, rfl, rfl, hdecode,
      List.cons_ne_nil x xs, hcodec, rfl, rfl, rfl⟩

/-- The frame that is put into the playout buffer when something happens to a stream. -/
def intakeOf? (s : AudioStream) : StreamAct → Option Intake
  | .receive _ peerExists data => s.intake? peerExists data
  | _ => none

/-- The frames that are put into the playout buffer in a run. -/
def intakes (s : AudioStream) : List StreamAct → List Intake
  | [] => []
  | e :: acts => (s.intakeOf? e).toList ++ (s.act e).intakes acts

theorem intakes_append (s : AudioStream) (acts acts' : List StreamAct) :
    s.intakes (acts ++ acts') = s.intakes acts ++ (s.after acts).intakes acts' := by
  induction acts generalizing s with
  | nil => rfl
  | cons e acts ih => rw [List.cons_append, intakes, intakes, ih, List.append_assoc]; rfl

/-! ## Streams in tune -/

/-- The playout buffer of a stream has its rate, and so have all codecs by which packets are
decoded. -/
structure InTune (s : AudioStream) : Prop where
  buffer : s.playout.rate = s.rate
  decoders : ∀ pt c, pt < 128 → s.agreement.bind (·.decoder? pt) = some c → c.clockRate = s.rate

/-- A stream in tune takes in audio of its own rate. -/
theorem InTune.intake {s : AudioStream} (h : s.InTune) {e : StreamAct} {i : Intake}
    (hi : s.intakeOf? e = some i) : i.codec.clockRate = i.rate ∧ i.bufferRate = i.rate := by
  cases e with
  | receive now peerExists data =>
    rcases s.playout_receive now peerExists data with ⟨hnone, -⟩ |
      ⟨packet, j, hparse, hj, -, -, hcodec, hrate, hbuffer, -⟩
    · cases hnone.symm.trans hi
    · obtain rfl := Option.some.inj (hj.symm.trans hi)
      rw [hrate, hbuffer]
      exact ⟨h.decoders _ _ (Packet.payloadType_lt_of_parse hparse) hcodec, h.buffer⟩
  | _ => cases hi

theorem rate_put (b : Playout.JitterBuffer) (stamp : UInt32) (arrivalNanos : Nat)
    (pcm : List Int16) : (b.put stamp arrivalNanos pcm).rate = b.rate := by
  unfold Playout.JitterBuffer.put
  split <;> rfl

theorem bufferRate_receive (s : AudioStream) (now : Nat) (peerExists : Bool) (data : List UInt8) :
    (s.receive now peerExists data).1.playout.rate = s.playout.rate := by
  rcases s.playout_receive now peerExists data with ⟨-, hsame⟩ | ⟨_, _, -, -, -, -, -, -, -, hput⟩
  · rw [hsame]
  · rw [hput, rate_put]

theorem bufferRate_read (s : AudioStream) (now : Nat) (out : List UInt8) :
    (s.read now out).1.playout.rate = s.playout.rate := by
  have htake : (s.take now out.length).1.playout.rate = s.playout.rate := by
    unfold take
    split
    · rfl
    · split <;> rfl
  unfold read
  split <;> next h => rwa [h] at htake

/-- The playout buffer keeps the rate of the stream. -/
theorem buffer_act {s : AudioStream} (h : s.playout.rate = s.rate) (e : StreamAct) :
    (s.act e).playout.rate = (s.act e).rate := by
  cases e with
  | negotiate now ours theirs index =>
    rw [act, negotiate]
    split
    · rfl
    · exact h
  | setPlayout now mode =>
    rw [act, setPlayout]
    split
    · exact h
    · rfl
  | receive now peerExists data =>
    exact (s.bufferRate_receive now peerExists data).trans
      (h.trans (s.sameFormat_receive now peerExists data).rate.symm)
  | read now out =>
    exact (s.bufferRate_read now out).trans (h.trans (s.sameFormat_read now out).rate.symm)
  | put pcm =>
    rw [act, put_frame]
    exact h
  | relay packet =>
    rw [act, relay_frame]
    exact h
  | enableRelay mask peer peerExists =>
    rw [act, enableRelay_frame]
    exact h
  | disableRelay => exact h
  | pollSend ts frameSize => exact h
  | pollRead ts frameSize => exact h
  | clearTimeout now => exact h

theorem buffer_after {s : AudioStream} (h : s.playout.rate = s.rate) (acts : List StreamAct) :
    (s.after acts).playout.rate = (s.after acts).rate := by
  induction acts generalizing s with
  | nil => exact h
  | cons e acts ih => exact ih (buffer_act h e)

end AudioStream

/-- What a stream is bound to is in tune: every payload type of a packet that is understood is read
by a codec of the rate of the format that is sent. -/
def Negotiation.InTune (codecs : Codec.Registry) (n : Negotiation) : Prop :=
  ∀ here there p codec, n.ours.media[n.index]? = some here → n.theirs.media[n.index]? = some there →
    IsFirst (IsCommon codecs here) there.payloads p → codecs.resolve p = some codec →
    ∀ pt c, pt < 128 → Reads codecs here there pt c → c.clockRate = codec.clockRate

/-- Formats whose codecs all have one rate are in tune. -/
theorem Negotiation.inTune_of_forall {codecs : Codec.Registry} {n : Negotiation} (rate : UInt32)
    (h : ∀ line ∈ n.ours.media ++ n.theirs.media, ∀ q ∈ line.payloads, ∀ c ∈ codecs.resolve q,
      c.clockRate = rate) : n.InTune codecs := by
  rintro here there p codec hhere hthere hfirst hhandled pt c - ⟨q, hq, hread⟩
  have hown := List.mem_append_left n.theirs.media (List.mem_of_getElem? hhere)
  have hremote := List.mem_append_right n.ours.media (List.mem_of_getElem? hthere)
  have hrate : c.clockRate = rate := by
    rcases List.mem_append.1 hq.mem with hq | hq
    · exact h here hown q hq c hread
    · exact h there hremote q hq c hread
  exact hrate.trans (h there hremote p hfirst.mem codec hhandled).symm

namespace AudioStream

theorem InTune.negotiate {s : AudioStream} (h : s.InTune) {now : Nat} {n : Negotiation}
    (hn : n.InTune s.codecs) : (s.negotiate now n.ours n.theirs n.index).1.InTune := by
  rcases hanswer : (s.negotiate now n.ours n.theirs n.index).2 with f | u
  · rw [negotiate_failed hanswer]
    exact h
  obtain ⟨here, there, p, codec, hhere, hthere, hserves⟩ := serves_of_negotiate hanswer
  have hreads := hserves.reads
  have hfirst := hserves.first
  have hhandled := hserves.handled
  rw [codecs_negotiate] at hreads hfirst hhandled
  refine ⟨buffer_act h.buffer (.negotiate now n.ours n.theirs n.index), fun pt c hpt hc => ?_⟩
  rw [hserves.rate_eq]
  exact hn here there p codec hhere hthere hfirst hhandled pt c hpt ((hreads pt c).1 hc)

theorem InTune.act {s : AudioStream} (h : s.InTune) {e : StreamAct}
    (he : ∀ n, e.negotiation? = some n → n.InTune s.codecs) : (s.act e).InTune := by
  rcases hnone : e.negotiation? with _ | n
  · have hsame := s.sameFormat_act hnone
    refine ⟨buffer_act h.buffer e, fun pt c hpt hc => ?_⟩
    rw [hsame.agreement] at hc
    rw [hsame.rate]
    exact h.decoders pt c hpt hc
  · cases e with
    | negotiate now ours theirs index => exact h.negotiate (he ⟨ours, theirs, index⟩ rfl)
    | _ => cases hnone

/-- In a run in which all that it is bound to is in tune, a stream takes in audio of its rate. -/
theorem InTune.intakes {s : AudioStream} (h : s.InTune) {acts : List StreamAct}
    (hacts : ∀ n ∈ acts.filterMap StreamAct.negotiation?, n.InTune s.codecs) :
    ∀ i ∈ s.intakes acts, i.codec.clockRate = i.rate ∧ i.bufferRate = i.rate := by
  induction acts generalizing s with
  | nil => simp [AudioStream.intakes]
  | cons e acts ih =>
    intro i hi
    rcases List.mem_append.1 hi with hi | hi
    · exact h.intake (Option.mem_toList.1 hi)
    · have he : ∀ n, e.negotiation? = some n → n.InTune s.codecs := fun n hn =>
        hacts n (List.mem_filterMap.2 ⟨e, List.mem_cons_self, hn⟩)
      refine ih (h.act he) (fun n hn => ?_) i hi
      rw [(s.sameHost_act e).codecs]
      obtain ⟨e', he', hn'⟩ := List.mem_filterMap.1 hn
      exact hacts n (List.mem_filterMap.2 ⟨e', List.mem_cons_of_mem e he', hn'⟩)

/-! ## Streams out of tune -/

/-- A datagram with two bytes of audio of a payload type. -/
def probe (pt : UInt8) : List UInt8 := (Packet.plain pt 0 0 0 [1, 1]).serialize

/-- Whatever the codec of a payload type, it decodes two bytes. -/
theorem intake_probe {s : AudioStream} {pt : UInt8} {c : Codec} (hpt : pt < 128)
    (hc : s.agreement.bind (·.decoder? pt) = some c) :
    ∃ i, s.intake? false (probe pt) = some i ∧ i.codec = c ∧ i.rate = s.rate := by
  have hparse : Packet.parse (probe pt) = .ok (Packet.plain pt 0 0 0 [1, 1]) := by
    have hread := Packet.read_serialize (p := Packet.plain pt 0 0 0 [1, 1]) fun e he => nomatch he
    refine Packet.parse_eq_ok_iff.2 (hread.trans ?_)
    exact congrArg _ (Packet.normal_of_wellFormed
      ⟨rfl, rfl, hpt, Nat.zero_le 15, rfl, fun e he => nomatch he⟩)
  have hdecoder : s.decoder? (Packet.plain pt 0 0 0 [1, 1]) = some c := hc
  obtain ⟨x, xs, hdecode⟩ : ∃ x xs, c.decode [1, 1] = .ok (x :: xs) := by
    cases c <;> exact ⟨_, _, rfl⟩
  refine ⟨⟨c, x :: xs, s.rate, s.playout.rate⟩, ?_, rfl, rfl⟩
  unfold intake?
  rw [hparse]
  dsimp only
  rw [Bool.and_false, if_neg Bool.false_ne_true, decoded?, hdecoder]
  dsimp only
  rw [show (Packet.plain pt 0 0 0 [1, 1]).payload = [1, 1] from rfl, hdecode]

/-- A stream that takes in nothing but audio of its rate is bound to what is in tune. -/
theorem inTune_of_intakes {s : AudioStream} {n : Negotiation} (now : Nat)
    (h : ∀ pt i, (s.negotiate now n.ours n.theirs n.index).1.intake? false (probe pt) = some i →
      i.codec.clockRate = i.rate) : n.InTune s.codecs := by
  intro here there p codec hhere hthere hfirst hhandled pt c hpt hreads
  rcases s.negotiate_inside now hhere hthere with ⟨hnone, -⟩ |
    ⟨a, p', codec', hanswer, hserves⟩
  · exact absurd hfirst.property (hnone p hfirst.mem)
  rw [hanswer] at h
  obtain ⟨i, hi, hcodec, hrate⟩ := intake_probe hpt ((hserves.reads pt c).2 hreads)
  -- There is only one first format in common.
  have hsent : some (p.payloadType, codec) = some (p'.payloadType, codec') :=
    (Agreement.sending?_eq_some_iff.2 ⟨p, hfirst, rfl, hhandled⟩).symm.trans
      (Agreement.sending?_eq_some_iff.2 ⟨p', hserves.first, rfl, hserves.handled⟩)
  have hsame : codec = codec' := congrArg Prod.snd (Option.some.inj hsent)
  rw [hsame, ← hserves.rate_eq, ← hcodec, ← hrate]
  exact h pt i hi

/-- **Main theorem**: audio that is buffered has the rate at which it is played.

A new stream goes through a course of negotiations, and whatever else may happen happens between
them. All frames that are put into its playout buffer, in whichever such run, were decoded by a
codec of the rate that the stream and its buffer have at that moment, if all that it is bound to is
in tune, and only then. The buffer itself always has the rate of the stream. -/
theorem decoded_at_rate_iff (leg : Leg) (place : Net.Endpoint) (network : Net.Network)
    (settings : StreamSettings) (codecs : Codec.Registry) (identity : Identity) (now : Nat) :
    let s := AudioStream.fresh leg place network settings codecs identity now
    (∀ acts, (s.after acts).playout.rate = (s.after acts).rate) ∧
    ∀ course : List Negotiation,
      (∀ acts, acts.filterMap StreamAct.negotiation? = course → ∀ i ∈ s.intakes acts,
        i.codec.clockRate = i.rate ∧ i.bufferRate = i.rate) ↔
      ∀ n ∈ course, n.InTune codecs := by
  intro s
  have hnew : s.InTune := ⟨rfl, nofun⟩
  refine ⟨fun acts => ?_, fun course => ⟨fun h n hn => ?_, fun h acts hacts => ?_⟩⟩
  · exact buffer_after rfl acts
  · -- A probe right behind a negotiation tells the codec that reads a payload type.
    obtain ⟨before, rest, rfl⟩ := List.append_of_mem hn
    have hcodecs : (s.after (before.map Negotiation.act)).codecs = codecs := s.codecs_after _
    rw [← hcodecs]
    refine inTune_of_intakes 0 fun pt i hi => ?_
    have hcourse : (before.map Negotiation.act ++ n.act ::
        StreamAct.receive 0 false (probe pt) :: rest.map Negotiation.act).filterMap
          StreamAct.negotiation? = before ++ n :: rest := by
      rw [List.filterMap_append, filterMap_act]
      exact congrArg (before ++ n :: ·) (filterMap_act rest)
    refine (h _ hcourse i ?_).1
    rw [intakes_append]
    exact List.mem_append_right _ (List.mem_append_right _
      (List.mem_append_left _ (Option.mem_toList.2 hi)))
  · subst hacts
    exact hnew.intakes h

/-- Companded audio in both ways. -/
def oneRate : Negotiation :=
  let line := Media.audio 4000 [⟨8, "PCMA", 8000, none, none⟩, ⟨0, "PCMU", 8000, none, none⟩]
  ⟨describing line, describing line, 0⟩

/-- A stream that sends in one way of companding takes in both, at its rate. -/
theorem decoded_at_rate_companded :
    let acts := [oneRate.act, .setPlayout 0 .simple, .receive 0 false (probe 0)]
    (plainStream.after acts).sendType? = some 8 ∧
      ∃ i ∈ plainStream.intakes acts, i.codec = .muLaw ∧ i.codec.clockRate = i.rate := by
  intro acts
  obtain ⟨-, hcourse⟩ := decoded_at_rate_iff .a ⟨.v4 [10, 0, 0, 1], 5000⟩ .connected
    ⟨8000, 20, ⟨0, 200, 0⟩, ⟨false, false⟩, none⟩ Codec.Registry.standard ⟨7, 0, 0, 0⟩ 0
  have htuned : ∀ n ∈ [oneRate], n.InTune Codec.Registry.standard := by
    intro n hn
    rw [List.mem_singleton.1 hn]
    exact Negotiation.inTune_of_forall 8000 (by decide)
  have hrates := (hcourse [oneRate]).2 htuned acts rfl
  have hintake : ∃ i ∈ plainStream.intakes acts, i.codec = .muLaw :=
    ⟨_, List.mem_singleton_self _, rfl⟩
  obtain ⟨i, hi, hcodec⟩ := hintake
  exact ⟨rfl, i, hi, hcodec, (hrates i hi).1⟩

/-- Companded audio, and wide-band audio next to it. -/
def twoRates : Negotiation :=
  let line := Media.audio 4000 [⟨0, "PCMU", 8000, none, none⟩, ⟨97, "L16", 16000, none, none⟩]
  ⟨describing line, describing line, 0⟩

/-- Wide-band audio is taken in by a stream that agreed on companded audio, and is played at half
its speed. -/
theorem not_decoded_at_rate :
    ¬ ∀ (course : List Negotiation) (acts : List StreamAct),
      (∀ n ∈ course, ∃ a,
        Agreement.agree Codec.Registry.standard 20 n.ours n.theirs n.index = .ok a) →
      acts.filterMap StreamAct.negotiation? = course → ∀ i ∈ plainStream.intakes acts,
        i.codec.clockRate = i.rate ∧ i.bufferRate = i.rate := by
  intro hall
  have hagreed : ∀ n ∈ [twoRates], ∃ a,
      Agreement.agree Codec.Registry.standard 20 n.ours n.theirs n.index = .ok a := by
    intro n hn
    rw [List.mem_singleton.1 hn]
    exact ⟨_, rfl⟩
  have hintakes : plainStream.intakes [twoRates.act, .receive 0 false (probe 97)] =
      [⟨.linear 16000, [257], 8000, 8000⟩] := by rfl
  obtain ⟨hrate, -⟩ := hall [twoRates] [twoRates.act, .receive 0 false (probe 97)] hagreed rfl
    ⟨.linear 16000, [257], 8000, 8000⟩ (by rw [hintakes]; exact List.mem_singleton_self _)
  cases hrate

end AudioStream

end CallBridge.Rtp
