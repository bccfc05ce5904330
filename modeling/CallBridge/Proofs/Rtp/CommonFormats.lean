import CallBridge.Rtp.AudioStream

/-!
# What two media lines have in common

Audio is sent in the first format of the remote line that the local line lists as well and that has
a codec. A payload type is read by the codec of its first format that has one, those of the local
line coming first. So what a stream is bound to is told by the two lines alone, and without the
functions that search them.

Results:
* `findSome?_eq_some_iff_isFirst`: a search finds the first element that there is something for.
* `Agreement.sending?_eq_some_iff`, `Agreement.sending?_eq_none_iff`: the format that is sent.
* `Agreement.lookup_decodersOf`: the codec by which a payload type is read.
* `AudioStream.negotiate_inside`, `AudioStream.serves_of_negotiate`: a stream serves the lines that
  it was negotiated for.
* `AudioStream.negotiation`: when a negotiation fails, and what it leads to.
-/

namespace CallBridge.Rtp

open Sdp (Description Media Payload)

/-! ## First elements -/

/-- The first element of a list with a property. -/
def IsFirst {α : Type} (P : α → Prop) (xs : List α) (x : α) : Prop :=
  ∃ before rest, xs = before ++ x :: rest ∧ P x ∧ ∀ y ∈ before, ¬ P y

namespace IsFirst

variable {α : Type} {P Q : α → Prop} {xs : List α} {x : α}

theorem mem (h : IsFirst P xs x) : x ∈ xs := by
  obtain ⟨before, rest, rfl, -, -⟩ := h
  simp

theorem property (h : IsFirst P xs x) : P x := by
  obtain ⟨-, -, -, hx, -⟩ := h
  exact hx

theorem exists_iff : (∃ x, IsFirst P xs x) ↔ ∃ x ∈ xs, P x := by
  refine ⟨fun ⟨x, hx⟩ => ⟨x, hx.mem, hx.property⟩, fun h => ?_⟩
  induction xs with
  | nil => obtain ⟨x, hx, -⟩ := h; cases hx
  | cons y ys ih =>
    by_cases hy : P y
    · exact ⟨y, [], ys, rfl, hy, by simp⟩
    · obtain ⟨x, hx, hP⟩ := h
      have hrest : x ∈ ys := (List.mem_cons.1 hx).resolve_left fun hxy => hy (hxy ▸ hP)
      obtain ⟨z, before, rest, rfl, hz, hbefore⟩ := ih ⟨x, hrest, hP⟩
      exact ⟨z, y :: before, rest, rfl, hz, List.forall_mem_cons.2 ⟨hy, hbefore⟩⟩

theorem congr (hPQ : ∀ y, P y ↔ Q y) : IsFirst P xs x ↔ IsFirst Q xs x := by
  simp only [IsFirst, hPQ]

end IsFirst

/-- A search finds what there is for the first element that there is something for. -/
theorem findSome?_eq_some_iff_isFirst {α β : Type} {f : α → Option β} {xs : List α} {b : β} :
    xs.findSome? f = some b ↔ ∃ x, IsFirst (fun y => (f y).isSome = true) xs x ∧ f x = some b := by
  rw [List.findSome?_eq_some_iff]
  constructor
  · rintro ⟨before, x, rest, hxs, hx, hbefore⟩
    exact ⟨x, ⟨before, rest, hxs, by simp [hx], fun y hy => by simp [hbefore y hy]⟩, hx⟩
  · rintro ⟨x, ⟨before, rest, hxs, -, hbefore⟩, hx⟩
    exact ⟨before, x, rest, hxs, hx, fun y hy => by simpa using hbefore y hy⟩

namespace Agreement

variable {codecs : Codec.Registry} {here there : Media} {p : Payload}

/-! ## The format that is sent -/

/-- A remote format has a codec, and the local line lists a format for the same audio: one of its
payload type, or one of its name, whatever the case of the letters, and of its rate. -/
structure IsCommon (codecs : Codec.Registry) (here : Media) (p : Payload) : Prop where
  listed : ∃ l ∈ here.payloads, l.payloadType = p.payloadType ∨
    (l.encodingName ≠ "" ∧ Sdp.sameName l.encodingName p.encodingName = true ∧
      l.clockRate = p.clockRate)
  handled : ∃ codec, codecs.resolve p = some codec

theorem any_sameFormat_iff : here.payloads.any (sameFormat · p) = true ↔
    ∃ l ∈ here.payloads, l.payloadType = p.payloadType ∨
      (l.encodingName ≠ "" ∧ Sdp.sameName l.encodingName p.encodingName = true ∧
        l.clockRate = p.clockRate) := by
  simp [sameFormat, and_assoc]

theorem sendable?_eq_some_iff {sent : UInt8 × Codec} : sendable? codecs here p = some sent ↔
    IsCommon codecs here p ∧ sent.1 = p.payloadType ∧ codecs.resolve p = some sent.2 := by
  unfold sendable?
  constructor
  · intro h
    split at h
    · next hlisted =>
      obtain ⟨codec, hcodec, rfl⟩ := Option.map_eq_some_iff.1 h
      exact ⟨⟨any_sameFormat_iff.1 hlisted, codec, hcodec⟩, rfl, hcodec⟩
    · cases h
  · rintro ⟨hcommon, hpt, hcodec⟩
    rw [if_pos (any_sameFormat_iff.2 hcommon.listed), hcodec, Option.map_some, ← hpt]

theorem isSome_sendable?_iff :
    (sendable? codecs here p).isSome = true ↔ IsCommon codecs here p := by
  rw [Option.isSome_iff_exists]
  constructor
  · rintro ⟨sent, hsent⟩
    exact (sendable?_eq_some_iff.1 hsent).1
  · intro hcommon
    obtain ⟨codec, hcodec⟩ := hcommon.handled
    exact ⟨(p.payloadType, codec), sendable?_eq_some_iff.2 ⟨hcommon, rfl, hcodec⟩⟩

theorem sending?_eq_some_iff {sent : UInt8 × Codec} : sending? codecs here there = some sent ↔
    ∃ p, IsFirst (IsCommon codecs here) there.payloads p ∧ sent.1 = p.payloadType ∧
      codecs.resolve p = some sent.2 := by
  rw [sending?, findSome?_eq_some_iff_isFirst]
  simp only [IsFirst.congr fun _ => isSome_sendable?_iff, sendable?_eq_some_iff]
  constructor
  · rintro ⟨p, hfirst, -, hsent⟩
    exact ⟨p, hfirst, hsent⟩
  · rintro ⟨p, hfirst, hsent⟩
    exact ⟨p, hfirst, hfirst.property, hsent⟩

theorem sending?_eq_none_iff :
    sending? codecs here there = none ↔ ∀ p ∈ there.payloads, ¬ IsCommon codecs here p := by
  rw [sending?, List.findSome?_eq_none_iff]
  simp only [← isSome_sendable?_iff, Bool.not_eq_true, Option.isSome_eq_false_iff,
    Option.isNone_iff_eq_none]

/-! ## The formats that are read -/

/-- A payload type is read by a codec: that of its first format that has one. -/
def Reads (codecs : Codec.Registry) (here there : Media) (pt : UInt8) (codec : Codec) : Prop :=
  ∃ q, IsFirst (fun q => q.payloadType = pt ∧ ∃ c, codecs.resolve q = some c)
    (here.payloads ++ there.payloads) q ∧ codecs.resolve q = some codec

theorem lookup_decodersOf {pt : UInt8} {codec : Codec} :
    (decodersOf codecs here there).lookup pt = some codec ↔ Reads codecs here there pt codec := by
  -- The list of codecs is searched by payload type: the formats may as well be searched at once.
  have hsearch : (decodersOf codecs here there).lookup pt =
      (here.payloads ++ there.payloads).findSome? fun q =>
        if q.payloadType = pt then codecs.resolve q else none := by
    unfold decodersOf
    induction here.payloads ++ there.payloads with
    | nil => rfl
    | cons q qs ih =>
      rw [List.findSome?_cons, ← ih]
      rcases hq : codecs.resolve q with _ | c
      · simp [hq]
      · by_cases hpt : q.payloadType = pt
        · simp [hq, hpt]
        · have hne : (pt == q.payloadType) = false := beq_eq_false_iff_ne.2 (Ne.symm hpt)
          simp [hq, hpt, List.lookup_cons, hne]
  have hsome (q : Payload) : (if q.payloadType = pt then codecs.resolve q else none).isSome = true ↔
      q.payloadType = pt ∧ ∃ c, codecs.resolve q = some c := by
    split
    · next hpt => rw [Option.isSome_iff_exists]; exact ⟨fun h => ⟨hpt, h⟩, fun h => h.2⟩
    · next hpt => exact ⟨nofun, fun h => absurd h.1 hpt⟩
  rw [hsearch, findSome?_eq_some_iff_isFirst, Reads]
  simp only [IsFirst.congr hsome]
  refine exists_congr fun q => and_congr_right fun hfirst => ?_
  rw [if_pos hfirst.property.1]

/-- The payload types that are read are those of the formats that have a codec. -/
theorem exists_reads_iff {pt : UInt8} : (∃ codec, Reads codecs here there pt codec) ↔
    ∃ q ∈ here.payloads ++ there.payloads, q.payloadType = pt ∧
      ∃ codec, codecs.resolve q = some codec := by
  rw [← IsFirst.exists_iff]
  constructor
  · rintro ⟨codec, q, hfirst, -⟩
    exact ⟨q, hfirst⟩
  · rintro ⟨q, hfirst⟩
    obtain ⟨codec, hcodec⟩ := hfirst.property.2
    exact ⟨codec, q, hfirst, hcodec⟩

/-! ## Agreeing -/

/-- Where both sides have the media line, they agree on the first format in common, if there is
one. -/
theorem agree_cases {packetTimeMs : UInt32} {ours theirs : Description} {index : Nat}
    (hhere : ours.media[index]? = some here) (hthere : theirs.media[index]? = some there) :
    (agree codecs packetTimeMs ours theirs index = .error (.noCompatiblePayload index) ∧
        ∀ p ∈ there.payloads, ¬ IsCommon codecs here p) ∨
      ∃ p codec, IsFirst (IsCommon codecs here) there.payloads p ∧
        codecs.resolve p = some codec ∧
        agree codecs packetTimeMs ours theirs index = .ok {
          payloadType := p.payloadType
          codec
          decoders := decodersOf codecs here there
          remote := remoteOf theirs index there
          packetTimeMs := (there.packetTime.or here.packetTime).getD packetTimeMs } := by
  unfold agree
  rw [hhere, hthere]
  dsimp only
  rcases hsending : sending? codecs here there with _ | ⟨pt, codec⟩
  · exact .inl ⟨rfl, sending?_eq_none_iff.1 hsending⟩
  · obtain ⟨p, hfirst, hpt, hcodec⟩ := sending?_eq_some_iff.1 hsending
    obtain rfl : pt = p.payloadType := hpt
    exact .inr ⟨p, codec, hfirst, hcodec, rfl⟩

end Agreement

namespace AudioStream

open Agreement (IsCommon Reads)

/-- A stream serves a local and a remote media line: it sends the first format in common, at the
rate of its codec and in frames of the time that the remote line asks for, else the local one, else
the settings; and it reads each payload type by the codec of its first format that has one. -/
structure Serves (s : AudioStream) (here there : Media) (p : Payload) (codec : Codec) : Prop where
  first : IsFirst (IsCommon s.codecs here) there.payloads p
  handled : s.codecs.resolve p = some codec
  sends : s.agreement.map (fun a => (a.payloadType, a.codec)) = some (p.payloadType, codec)
  reads : ∀ pt c, s.agreement.bind (·.decoder? pt) = some c ↔ Reads s.codecs here there pt c
  rate_eq : s.rate = codec.clockRate
  frameSize_eq : s.frameSize = 2 * (codec.clockRate.toNat *
    ((there.packetTime.or here.packetTime).getD s.settings.packetTimeMs).toNat / 1000)

theorem negotiate_outside {s : AudioStream} {now : Nat} {ours theirs : Description} {index : Nat}
    (h : ours.media.length ≤ index ∨ theirs.media.length ≤ index) :
    s.negotiate now ours theirs index = (s, .error (.mediaLineNotFound index)) := by
  rw [negotiate, Agreement.agree_of_outside h]

/-- A stream whose negotiation fails is what it was before. -/
theorem negotiate_failed {s : AudioStream} {now : Nat} {ours theirs : Description} {index : Nat}
    {f : Fault} (h : (s.negotiate now ours theirs index).2 = .error f) :
    (s.negotiate now ours theirs index).1 = s := by
  unfold negotiate at h ⊢
  split at h
  · cases h
  · rfl

/-- Where both sides have the media line, a stream whose negotiation succeeds serves it. -/
theorem negotiate_inside (s : AudioStream) (now : Nat) {ours theirs : Description} {index : Nat}
    {here there : Media} (hhere : ours.media[index]? = some here)
    (hthere : theirs.media[index]? = some there) :
    ((∀ p ∈ there.payloads, ¬ IsCommon s.codecs here p) ∧
        s.negotiate now ours theirs index = (s, .error (.noCompatiblePayload index))) ∨
      ∃ a p codec, s.negotiate now ours theirs index = (s.adopt now a, .ok ()) ∧
        (s.adopt now a).Serves here there p codec := by
  rw [negotiate]
  rcases Agreement.agree_cases hhere hthere with ⟨hagree, hnone⟩ |
    ⟨p, codec, hfirst, hcodec, hagree⟩
  · exact .inl ⟨hnone, by rw [hagree]⟩
  · rw [hagree]
    exact .inr ⟨_, p, codec, rfl, hfirst, hcodec, rfl, fun _ _ => Agreement.lookup_decodersOf,
      rfl, rfl⟩

/-- A stream whose negotiation succeeds serves the two media lines. -/
theorem serves_of_negotiate {s : AudioStream} {now : Nat} {ours theirs : Description} {index : Nat}
    (h : (s.negotiate now ours theirs index).2 = .ok ()) :
    ∃ here there p codec, ours.media[index]? = some here ∧ theirs.media[index]? = some there ∧
      (s.negotiate now ours theirs index).1.Serves here there p codec := by
  rcases hhere : ours.media[index]? with _ | here
  · rw [negotiate_outside (.inl (List.getElem?_eq_none_iff.1 hhere))] at h
    cases h
  rcases hthere : theirs.media[index]? with _ | there
  · rw [negotiate_outside (.inr (List.getElem?_eq_none_iff.1 hthere))] at h
    cases h
  rcases s.negotiate_inside now hhere hthere with ⟨-, hanswer⟩ |
    ⟨a, p, codec, hanswer, hserves⟩
  · rw [hanswer] at h
    cases h
  · rw [hanswer]
    exact ⟨here, there, p, codec, rfl, rfl, hserves⟩

/-- **Main theorem**: what a negotiation comes to.

A media line that one side does not have is not found. Otherwise a negotiation fails if no remote
format has a codec and stands for the same audio as a local one, and only then. A stream whose
negotiation fails is what it was before. One whose negotiation succeeds serves the two lines, and
the payload types that it reads are those of the formats of either line that have a codec. -/
theorem negotiation (s : AudioStream) (now : Nat) (ours theirs : Description) (index : Nat) :
    let answer := s.negotiate now ours theirs index
    (answer.2 = .error (.mediaLineNotFound index) ↔
      ours.media.length ≤ index ∨ theirs.media.length ≤ index) ∧
    (∀ here there, ours.media[index]? = some here → theirs.media[index]? = some there →
      (answer.2 = .error (.noCompatiblePayload index) ↔
        ∀ p ∈ there.payloads, ¬ IsCommon s.codecs here p) ∧
      (answer.2 = .ok () ↔ ∃ p ∈ there.payloads, IsCommon s.codecs here p) ∧
      (answer.2 = .ok () → answer.1.isInitialized = true ∧
        (∃ p codec, answer.1.Serves here there p codec) ∧
        ∀ pt, (∃ codec, answer.1.agreement.bind (·.decoder? pt) = some codec) ↔
          ∃ q ∈ here.payloads ++ there.payloads, q.payloadType = pt ∧
            ∃ codec, s.codecs.resolve q = some codec)) ∧
    ∀ f, answer.2 = .error f → answer.1 = s := by
  dsimp only
  rw [← and_assoc]
  refine ⟨?_, fun f hf => negotiate_failed hf⟩
  by_cases houtside : ours.media.length ≤ index ∨ theirs.media.length ≤ index
  · rw [negotiate_outside houtside]
    refine ⟨iff_of_true rfl houtside, fun here there hhere hthere => ?_⟩
    obtain ⟨hours, -⟩ := List.getElem?_eq_some_iff.1 hhere
    obtain ⟨htheirs, -⟩ := List.getElem?_eq_some_iff.1 hthere
    omega
  -- Both sides have the line; which formats they list decides the rest.
  obtain ⟨hours, htheirs⟩ := not_or.1 houtside
  have hhere := List.getElem?_eq_getElem (Nat.not_le.1 hours)
  have hthere := List.getElem?_eq_getElem (Nat.not_le.1 htheirs)
  rcases s.negotiate_inside now hhere hthere with ⟨hnone, hanswer⟩ |
    ⟨a, p, codec, hanswer, hserves⟩ <;> rw [hanswer]
  · refine ⟨iff_of_false (by simp) houtside, fun here there hhere' hthere' => ?_⟩
    obtain rfl := Option.some.inj (hhere.symm.trans hhere')
    obtain rfl := Option.some.inj (hthere.symm.trans hthere')
    refine ⟨iff_of_true rfl hnone, iff_of_false nofun ?_, nofun⟩
    rintro ⟨p, hp, hcommon⟩
    exact hnone p hp hcommon
  · refine ⟨iff_of_false nofun houtside, fun here there hhere' hthere' => ?_⟩
    obtain rfl := Option.some.inj (hhere.symm.trans hhere')
    obtain rfl := Option.some.inj (hthere.symm.trans hthere')
    have hcommon : ∃ p ∈ _, IsCommon s.codecs _ p := ⟨p, hserves.first.mem, hserves.first.property⟩
    refine ⟨iff_of_false nofun fun hnone => ?_, iff_of_true rfl hcommon,
      fun _ => ⟨rfl, ⟨p, codec, hserves⟩, fun pt => ?_⟩⟩
    · exact hnone p hserves.first.mem hserves.first.property
    · rw [← Agreement.exists_reads_iff]
      exact exists_congr fun c => hserves.reads pt c

/-- A description of one media line. -/
def describing (line : Media) : Description := { Description.empty with media := [line] }

/-- A local line of thirty milliseconds a packet, with wide-band audio and telephone events. -/
def ownLine : Media :=
  { Media.audio 4000 [⟨0, "PCMU", 8000, none, none⟩, ⟨101, "telephone-event", 8000, none, none⟩,
      ⟨97, "L16", 16000, none, none⟩] with packetTime := some 30 }

/-- The formats as the remote side numbers, writes and orders them. -/
def remoteLine : Media :=
  Media.audio 5000 [⟨101, "telephone-event", 8000, none, none⟩, ⟨96, "l16", 16000, none, none⟩,
    ⟨0, "PCMU", 8000, none, none⟩]

/-- A new stream with the standard codecs. -/
def plainStream : AudioStream :=
  AudioStream.fresh .a ⟨.v4 [10, 0, 0, 1], 5000⟩ .connected
    ⟨8000, 20, ⟨0, 200, 0⟩, ⟨false, false⟩, none⟩ Codec.Registry.standard ⟨7, 0, 0, 0⟩ 0

/-- Telephone events are passed over, and wide-band audio is sent under the remote number, in frames
of thirty milliseconds. -/
theorem negotiation_mixed :
    let answer := plainStream.negotiate 0 (describing ownLine) (describing remoteLine) 0
    answer.2 = .ok () ∧ answer.1.frameSize = 960 ∧
      (∃ p, answer.1.Serves ownLine remoteLine p (.linear 16000) ∧ p.payloadType = 96) ∧
      (∃ codec, answer.1.agreement.bind (·.decoder? 97) = some codec) ∧
      ¬ ∃ codec, answer.1.agreement.bind (·.decoder? 101) = some codec := by
  obtain ⟨-, hinside, -⟩ :=
    negotiation plainStream 0 (describing ownLine) (describing remoteLine) 0
  obtain ⟨-, -, hbound⟩ := hinside ownLine remoteLine rfl rfl
  have hanswer : (plainStream.negotiate 0 (describing ownLine) (describing remoteLine) 0).2 =
    .ok () := by rfl
  obtain ⟨-, ⟨p, codec, hserves⟩, hreads⟩ := hbound hanswer
  have hsends : some ((96 : UInt8), Codec.linear 16000) = some (p.payloadType, codec) :=
    hserves.sends
  obtain ⟨hpt, rfl⟩ := Prod.mk.inj (Option.some.inj hsends)
  refine ⟨hanswer, hserves.frameSize_eq, ⟨p, hserves, hpt.symm⟩, (hreads 97).2 ?_,
    fun h => ?_⟩
  · exact ⟨⟨97, "L16", 16000, none, none⟩, by decide, rfl, .linear 16000, by rfl⟩
  · have hnone : ∀ q ∈ ownLine.payloads ++ remoteLine.payloads, q.payloadType = 101 →
        plainStream.codecs.resolve q = none := by decide
    obtain ⟨q, hq, hpt, c, hcodec⟩ := (hreads 101).1 h
    rw [hnone q hq hpt] at hcodec
    cases hcodec

end AudioStream

end CallBridge.Rtp
