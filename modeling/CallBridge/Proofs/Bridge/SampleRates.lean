import CallBridge.Proofs.Bridge.AnyOrder
import CallBridge.Proofs.Bridge.ScratchRuns
import CallBridge.Proofs.Rtp.CommonFormats
import CallBridge.Proofs.Rtp.StreamRuns
import Mathlib.Algebra.Field.Rat
import Mathlib.Algebra.GroupWithZero.Basic

/-!
# The sampling rates of a bridged call

Each leg is negotiated by itself, and its stream runs at the rate of the codec that came of it. What
is read from the stream of one leg is put to the stream of the other leg as it is. So it takes as
long there as here if both codecs have the same rate, and only then.

Results:
* `AudioStream.negotiate_speaks`: a stream that was negotiated runs at the rate of its codec.
* `rate_of_agreed`: the rates there are.
* `Pair.Tuned.step`, `Pair.Tuned.after`: the streams of all legs in use run at the rates of their
  codecs, whatever happens to the pair.
* `Pair.taken_of_handed`: what is put to a leg is what the other leg's stream handed out.
* `frame_keeps_time_iff`: which frames take as long at both streams.
* `not_frame_keeps_time`: not all of them do.
-/

namespace CallBridge.Rtp

open Codec (Registry)

/-! ## Streams -/

/-- The codec that two descriptions agree on for a media line, of the standard ones. -/
def agreedCodec? (ours theirs : Sdp.Description) (line : Nat) : Option Codec :=
  match ours.media[line]?, theirs.media[line]? with
  | some here, some there => (Agreement.sending? Registry.standard here there).map (·.2)
  | _, _ => none

theorem mem_of_lookup {α β : Type} [BEq α] [LawfulBEq α] {l : List (α × β)} {k : α} {v : β}
    (h : l.lookup k = some v) : v ∈ l.map (·.2) := by
  obtain ⟨before, rest, hl, -⟩ := List.lookup_eq_some_iff.1 h
  rw [hl]
  simp

/-- The standard codecs have one of two rates. -/
theorem rate_of_resolve {payload : Sdp.Payload} {codec : Codec}
    (h : Registry.standard.resolve payload = some codec) :
    codec.clockRate = 8000 ∨ codec.clockRate = 16000 := by
  have hnamed : ∀ c ∈ Registry.standard.byName.map (·.2),
      c.clockRate = 8000 ∨ c.clockRate = 16000 := by decide
  have htyped : ∀ c ∈ Registry.standard.byType.map (·.2),
      c.clockRate = 8000 ∨ c.clockRate = 16000 := by decide
  unfold Registry.resolve at h
  split at h
  · cases h
  rcases Option.or_eq_some_iff.1 h with h | ⟨-, h⟩
  · unfold Registry.named? at h
    split at h
    · cases h
    · exact hnamed codec (mem_of_lookup h)
  · unfold Registry.typed? at h
    split at h
    · exact htyped codec (mem_of_lookup h)
    · cases h

theorem agreedCodec?_eq_some_iff {ours theirs : Sdp.Description} {line : Nat} {codec : Codec} :
    agreedCodec? ours theirs line = some codec ↔
      ∃ here there p, ours.media[line]? = some here ∧ theirs.media[line]? = some there ∧
        IsFirst (Agreement.IsCommon Registry.standard here) there.payloads p ∧
        Registry.standard.resolve p = some codec := by
  unfold agreedCodec?
  constructor
  · intro h
    split at h
    · next here there hhere hthere =>
      obtain ⟨sent, hsending, rfl⟩ := Option.map_eq_some_iff.1 h
      obtain ⟨p, hfirst, -, hcodec⟩ := Agreement.sending?_eq_some_iff.1 hsending
      exact ⟨here, there, p, hhere, hthere, hfirst, hcodec⟩
    · cases h
  · rintro ⟨here, there, p, hhere, hthere, hfirst, hcodec⟩
    rw [hhere, hthere]
    exact Option.map_eq_some_iff.2
      ⟨(p.payloadType, codec), Agreement.sending?_eq_some_iff.2 ⟨p, hfirst, rfl, hcodec⟩, rfl⟩

theorem rate_of_agreed {ours theirs : Sdp.Description} {line : Nat} {codec : Codec}
    (h : agreedCodec? ours theirs line = some codec) :
    codec.clockRate = 8000 ∨ codec.clockRate = 16000 := by
  obtain ⟨here, there, p, -, -, -, hcodec⟩ := agreedCodec?_eq_some_iff.1 h
  exact rate_of_resolve hcodec

namespace AudioStream

/-- A stream sends by a codec of one of the standard rates, and runs at its rate. -/
structure Speaks (s : AudioStream) (codec : Codec) : Prop where
  agreed : s.agreement.map (·.codec) = some codec
  rate_eq : s.rate = codec.clockRate
  standard : codec.clockRate = 8000 ∨ codec.clockRate = 16000

theorem Speaks.congr {s s' : AudioStream} {codec : Codec} (hs : s.Speaks codec)
    (h : s.SameFormat s') : s'.Speaks codec :=
  ⟨by rw [h.agreement, hs.agreed], by rw [h.rate, hs.rate_eq], hs.standard⟩

/-- A stream hands out whole samples. -/
theorem samples_of_take {s : AudioStream} {now len : Nat} {pcm : List UInt8}
    (h : (s.take now len).2 = .ok pcm) : ∃ xs, pcm = Audio.bytes xs := by
  unfold take at h
  split at h
  · cases h
  · split at h
    · exact ⟨_, (Except.ok.inj h).symm⟩
    · exact ⟨[], (Except.ok.inj h).symm⟩

/-- A stream that was negotiated speaks what the descriptions agree on. -/
theorem negotiate_speaks {s : AudioStream} {now : Nat} {ours theirs : Sdp.Description}
    {line : Nat} (hs : s.codecs = Registry.standard)
    (h : (s.negotiate now ours theirs line).2 = .ok ()) :
    ∃ codec, agreedCodec? ours theirs line = some codec ∧
      (s.negotiate now ours theirs line).1.Speaks codec := by
  obtain ⟨here, there, p, codec, hhere, hthere, hserves⟩ := serves_of_negotiate h
  have hfirst := hserves.first
  have hhandled := hserves.handled
  rw [codecs_negotiate, hs] at hfirst hhandled
  have hcodec : agreedCodec? ours theirs line = some codec :=
    agreedCodec?_eq_some_iff.2 ⟨here, there, p, hhere, hthere, hfirst, hhandled⟩
  have hsends := congrArg (Option.map Prod.snd) hserves.sends
  rw [Option.map_map, Option.map_some] at hsends
  exact ⟨codec, hcodec, hsends, hserves.rate_eq, rate_of_agreed hcodec⟩

end AudioStream

end CallBridge.Rtp

namespace CallBridge.Bridge

open Rtp (AudioStream MediaStream Receiver agreedCodec?)
open Sdp (Description Media)

/-! ## Pairs -/

/-- What may happen to a pair of audio streams. The receiver is whatever it is at the time. -/
inductive PairAct where
  /-- A leg is negotiated anew for a media line. -/
  | negotiate (r : Receiver) (now : Nat) (l : Leg) (detects : Bool) (ours theirs : Description)
      (line : Nat)
  /-- The other leg's stream is told what a leg offers. -/
  | setRelay (r : Receiver) (l : Leg) (media : Media)
  /-- A leg is taken out of use until it is negotiated again. -/
  | resetLeg (l : Leg)
  /-- A datagram comes in for the stream of a leg. -/
  | deliver (now : Nat) (l : Leg) (data : List UInt8)
  /-- A frame is moved to a leg. -/
  | writeLeg (now : Nat) (l : Leg) (ts : UInt64) (scratch : List UInt8)
  /-- The alternate source of a leg is put in or taken out. -/
  | setAlternate (l : Leg) (feed : Option Audio.Feed)
  /-- A writer writes to the alternate source with a serial number. -/
  | writeAlternate (serial : Nat) (data : List UInt8)
  /-- The key presses of a leg are collected. -/
  | drainKeys (l : Leg)
  /-- The time without received packets is started anew. -/
  | clearTimeout (now : Nat)

/-- The codecs that the legs last agreed on, after something happened. -/
def PairAct.note (codecs : PerLeg (Option Codec)) : PairAct → PerLeg (Option Codec)
  | .negotiate _ _ l _ ours theirs line => codecs.set l (agreedCodec? ours theirs line)
  | _ => codecs

/-- The codecs that the legs last agreed on in a run. -/
def lastAgreed (acts : List PairAct) : PerLeg (Option Codec) :=
  acts.foldl PairAct.note ⟨none, none⟩

namespace Pair

/-- The pair after something happened to it. -/
def act (p : Pair AudioStream) : PairAct → Pair AudioStream
  | .negotiate r now l detects ours theirs line =>
    (Session.renegotiate now l detects ours theirs line p r).1
  | .setRelay r l media => (p.setRelay r l media).1
  | .resetLeg l => (p.resetLeg l).1
  | .deliver now l data => p.deliver now l data
  | .writeLeg now l ts scratch => (p.writeLeg now l ts scratch).1
  | .setAlternate l feed => (p.setAlternate l feed).1
  | .writeAlternate serial data => ((p.writeAlternate serial data).map (·.1)).getD p
  | .drainKeys l => (p.drainKeys l).1
  | .clearTimeout now => p.clearTimeout now

/-- The pair after a run. -/
def after (p : Pair AudioStream) (acts : List PairAct) : Pair AudioStream := acts.foldl act p

/-! ### What changes no format -/

/-- The streams of a pair keep their formats, and no leg comes into use. -/
structure SameFormats (p p' : Pair AudioStream) : Prop where
  format : ∀ k, (p.stream k).SameFormat (p'.stream k)
  inUse : ∀ k, p'.isInitialized k = true → p.isInitialized k = true

theorem SameFormats.refl (p : Pair AudioStream) : p.SameFormats p :=
  ⟨fun k => .refl (p.stream k), fun _ h => h⟩

theorem SameFormats.trans {p p' p'' : Pair AudioStream} (h : p.SameFormats p')
    (h' : p'.SameFormats p'') : p.SameFormats p'' :=
  ⟨fun k => (h.format k).trans (h'.format k), fun k hk => h.inUse k (h'.inUse k hk)⟩

section

variable (p : Pair AudioStream) (l : Leg)

theorem sameFormats_setLeg {m : LegMedia AudioStream}
    (hformat : (p.stream l).SameFormat m.stream)
    (huse : m.initialized = true → p.isInitialized l = true) :
    p.SameFormats (p.setLeg l m) := by
  constructor
  · intro k
    rcases l.eq_or_eq_opposite k with rfl | rfl
    · rwa [stream, stream, leg_setLeg_self]
    · rw [stream, stream, leg_setLeg_opposite]
      exact .refl _
  · intro k hk
    rcases l.eq_or_eq_opposite k with rfl | rfl
    · rw [isInitialized, leg_setLeg_self] at hk
      exact huse hk
    · rwa [isInitialized, leg_setLeg_opposite] at hk

theorem sameFormats_setStream {s : AudioStream} (h : (p.stream l).SameFormat s) :
    p.SameFormats (p.setStream l s) :=
  p.sameFormats_setLeg l h fun huse => huse

theorem sameFormat_relayStream (s : AudioStream) (peer : UInt16) (media : Media) :
    s.SameFormat (relayStream s peer media) := by
  unfold relayStream
  split
  · exact s.sameFormat_disableRelay
  · exact s.sameFormat_enableRelay media.mask peer true

theorem sameFormats_deliver (now : Nat) (data : List UInt8) :
    p.SameFormats (p.deliver now l data) := by
  unfold deliver
  have hreceive := p.sameFormats_setStream l ((p.stream l).sameFormat_receive now true data)
  dsimp only
  split
  · exact hreceive
  · next packet _ =>
    exact hreceive.trans (sameFormats_setStream _ _ (AudioStream.sameFormat_relay _ packet))

theorem sameFormats_gate (ts : UInt64) (size : Nat) : p.SameFormats (p.gate l ts size).1 := by
  unfold gate
  split
  · exact p.sameFormats_setStream l ((p.stream l).sameFormat_pollSend ts size)
  · exact .refl p

theorem sameFormats_listen (now : Nat) (ts : UInt64) (frame : List UInt8) :
    p.SameFormats (p.setLeg l ((p.leg l).listen now ts frame).1) := by
  have hread := (p.stream l).sameFormat_read now frame
  refine p.sameFormats_setLeg l ?_ ?_ <;> unfold LegMedia.listen <;>
    rcases hanswer : MediaStream.read (p.leg l).stream now frame with ⟨s, frame', f | n⟩ <;>
    rw [show (p.stream l).read now frame = _ from hanswer] at hread
  · exact hread
  · exact hread
  · exact fun huse => huse
  · exact fun huse => huse

theorem sameFormats_fetch (now : Nat) (ts : UInt64) (frame : List UInt8) :
    p.SameFormats (p.fetch now l ts frame).1 := by
  unfold fetch
  split
  · exact p.sameFormats_setLeg l (.refl _) fun huse => huse
  · have hpoll := p.sameFormats_setStream l.opposite
      ((p.stream l.opposite).sameFormat_pollRead ts frame.length)
    dsimp only
    split
    · exact hpoll.trans (sameFormats_listen _ _ now ts frame)
    · exact hpoll

theorem sameFormats_move (now : Nat) (ts : UInt64) (size : Nat) (scratch : List UInt8) :
    p.SameFormats (p.move now l ts size scratch).1 := by
  have hfetch := p.sameFormats_fetch l now ts (scratch.take size)
  unfold move
  rcases hframe : p.fetch now l ts (scratch.take size) with ⟨p', frame, f | n⟩ <;>
    rw [hframe] at hfetch
  · exact hfetch
  · cases n with
    | zero => exact hfetch
    | succ n => exact hfetch.trans (p'.sameFormats_setStream l (AudioStream.sameFormat_put _ _))

theorem sameFormats_writeLeg (now : Nat) (ts : UInt64) (scratch : List UInt8) :
    p.SameFormats (p.writeLeg now l ts scratch).1 := by
  have hgate := p.sameFormats_gate l ts (p.sizeFor l scratch.length)
  rw [writeLeg_eq]
  dsimp only
  split
  · exact hgate.trans (sameFormats_move _ l now ts _ scratch)
  · exact hgate

theorem sameFormats_writeAlternate (serial : Nat) (data : List UInt8) :
    p.SameFormats (((p.writeAlternate serial data).map (·.1)).getD p) := by
  rcases hwrite : p.writeAlternate serial data with _ | written
  · exact .refl p
  · obtain ⟨k, -, hk⟩ := List.exists_of_findSome?_eq_some hwrite
    split at hk
    · cases hk
    · split at hk
      · obtain rfl := Option.some.inj hk
        exact p.sameFormats_setLeg k (.refl _) fun huse => huse
      · cases hk

theorem sameFormats_drainKeys : p.SameFormats (p.drainKeys l).1 := by
  unfold drainKeys
  split
  · exact .refl p
  · exact p.sameFormats_setLeg l (.refl _) fun huse => huse

theorem sameFormats_setRelay (r : Receiver) (media : Media) :
    p.SameFormats (p.setRelay r l media).1 := by
  rw [setRelay_pair]
  exact p.sameFormats_setStream _ (sameFormat_relayStream _ _ media)

theorem sameFormats_clearTimeout (now : Nat) : p.SameFormats (p.clearTimeout now) :=
  (p.sameFormats_setStream .a (AudioStream.sameFormat_clearTimeout _ now)).trans
    (sameFormats_setStream _ .b (AudioStream.sameFormat_clearTimeout _ now))

end

/-! ### What the legs speak -/

/-- Every leg in use speaks the codec that it last agreed on. -/
structure Tuned (p : Pair AudioStream) (codecs : PerLeg (Option Codec)) : Prop where
  standard : ∀ k, (p.stream k).codecs = Codec.Registry.standard
  speaks : ∀ k, p.isInitialized k = true →
    ∃ codec, codecs.get k = some codec ∧ (p.stream k).Speaks codec

theorem Tuned.congr {p p' : Pair AudioStream} {codecs : PerLeg (Option Codec)}
    (hp : p.Tuned codecs) (h : p.SameFormats p') : p'.Tuned codecs where
  standard k := (h.format k).codecs.trans (hp.standard k)
  speaks k hk := by
    obtain ⟨codec, hcodec, hspeaks⟩ := hp.speaks k (h.inUse k hk)
    exact ⟨codec, hcodec, hspeaks.congr (h.format k)⟩

/-- A leg that is in use after a negotiation was negotiated with success. -/
theorem negotiated_of_inUse {p : Pair AudioStream} {r : Receiver} {now : Nat} {l : Leg}
    {detects : Bool} {ours theirs : Description} {line : Nat}
    (h : (Session.renegotiate now l detects ours theirs line p r).1.isInitialized l = true) :
    (MediaStream.negotiate (MediaStream.setPlayout (p.stream l) now p.playout) now ours theirs
      line).2 = .ok () := by
  have hstream : (p.resetLeg l).1.stream l = p.stream l := stream_resetLeg p l l
  have hplayout : (p.resetLeg l).1.playout = p.playout := rfl
  simp only [Session.renegotiate, initLeg, hstream, hplayout] at h
  rcases hanswer : MediaStream.negotiate (MediaStream.setPlayout (p.stream l) now p.playout) now
    ours theirs line with ⟨s, f | u⟩
  · rw [hanswer] at h
    have hunused : ((p.resetLeg l).1.setStream l s).isInitialized l = false := by cases l <;> rfl
    cases hunused.symm.trans h
  · rfl

/-- A negotiation tunes the leg to what was agreed on, or puts it out of use. -/
theorem Tuned.negotiate {p : Pair AudioStream} {codecs : PerLeg (Option Codec)}
    (hp : p.Tuned codecs) (r : Receiver) (now : Nat) (l : Leg) (detects : Bool)
    (ours theirs : Description) (line : Nat) :
    (Session.renegotiate now l detects ours theirs line p r).1.Tuned
      (codecs.set l (agreedCodec? ours theirs line)) := by
  have hplayout := (p.stream l).sameFormat_setPlayout now p.playout
  have hcodecs := hplayout.codecs.trans (hp.standard l)
  constructor
  · intro k
    rcases l.eq_or_eq_opposite k with rfl | rfl
    · rw [stream_renegotiate]
      exact (AudioStream.codecs_negotiate _ now ours theirs line).trans hcodecs
    · rw [stream_renegotiate_opposite]
      exact hp.standard _
  · intro k hk
    rcases l.eq_or_eq_opposite k with rfl | rfl
    · rw [stream_renegotiate, PerLeg.get_set_self]
      exact AudioStream.negotiate_speaks hcodecs (negotiated_of_inUse hk)
    · rw [isInitialized_renegotiate_opposite] at hk
      rw [stream_renegotiate_opposite, PerLeg.get_set_opposite]
      exact hp.speaks _ hk

/-- Nothing that happens to a pair takes its streams off the rates of their codecs. -/
theorem Tuned.step {p : Pair AudioStream} {codecs : PerLeg (Option Codec)}
    (hp : p.Tuned codecs) (e : PairAct) : (p.act e).Tuned (e.note codecs) := by
  cases e with
  | negotiate r now l detects ours theirs line =>
    exact hp.negotiate r now l detects ours theirs line
  | setRelay r l media => exact hp.congr (p.sameFormats_setRelay l r media)
  | resetLeg l => exact hp.congr (p.sameFormats_setLeg l (.refl _) nofun)
  | deliver now l data => exact hp.congr (p.sameFormats_deliver l now data)
  | writeLeg now l ts scratch => exact hp.congr (p.sameFormats_writeLeg l now ts scratch)
  | setAlternate l feed => exact hp.congr (p.sameFormats_setLeg l (.refl _) fun huse => huse)
  | writeAlternate serial data => exact hp.congr (p.sameFormats_writeAlternate serial data)
  | drainKeys l => exact hp.congr (p.sameFormats_drainKeys l)
  | clearTimeout now => exact hp.congr (p.sameFormats_clearTimeout now)

theorem Tuned.after {p : Pair AudioStream} {codecs : PerLeg (Option Codec)}
    (hp : p.Tuned codecs) (acts : List PairAct) :
    (p.after acts).Tuned (acts.foldl PairAct.note codecs) := by
  induction acts generalizing p codecs with
  | nil => exact hp
  | cons e acts ih => exact ih (hp.step e)

/-- A pair of streams that were never negotiated. -/
structure Untuned (p : Pair AudioStream) : Prop where
  standard : ∀ k, (p.stream k).codecs = Codec.Registry.standard
  unused : ∀ k, p.isInitialized k = false

theorem Untuned.after {p : Pair AudioStream} (hp : p.Untuned) (acts : List PairAct) :
    (p.after acts).Tuned (lastAgreed acts) := by
  refine Tuned.after ⟨hp.standard, fun k hk => ?_⟩ acts
  rw [hp.unused k] at hk
  cases hk

/-! ## Frames -/

theorem gate_across (p : Pair AudioStream) (l : Leg) (ts : UInt64) (size : Nat) :
    (p.gate l ts size).1.stream l.opposite = p.stream l.opposite ∧
      (p.gate l ts size).1.hasAlternate l = p.hasAlternate l := by
  unfold gate
  split
  · cases l <;> exact ⟨rfl, rfl⟩
  · exact ⟨rfl, rfl⟩

/-- What was read into the front of a frame is what the stream handed out. -/
theorem taken_of_read {s : AudioStream} {now : Nat} {frame pcm : List UInt8}
    (h : pieceOf (s.read now frame).2 = some pcm) :
    (s.take now frame.length).2 = .ok pcm ∧ pcm ≠ [] := by
  unfold AudioStream.read at h
  rcases htake : s.take now frame.length with ⟨s', f | bytes⟩ <;> rw [htake] at h
  · cases h
  · cases bytes with
    | nil => cases h
    | cons byte bytes =>
      obtain rfl := Option.some.inj h
      rw [← List.length_cons, Audio.take_overlay]
      exact ⟨rfl, List.cons_ne_nil _ _⟩

theorem taken_of_listen {m : LegMedia AudioStream} {now : Nat} {ts : UInt64}
    {frame pcm : List UInt8} (h : pieceOf (m.listen now ts frame).2 = some pcm) :
    (m.stream.take now frame.length).2 = .ok pcm ∧ pcm ≠ [] := by
  refine taken_of_read ?_
  rw [← h]
  unfold LegMedia.listen
  rcases hread : MediaStream.read m.stream now frame with ⟨s, frame', f | n⟩ <;>
    rw [show m.stream.read now frame = _ from hread]

theorem taken_of_fetch {p : Pair AudioStream} {now : Nat} {l : Leg} {ts : UInt64}
    {frame pcm : List UInt8} (halternate : p.hasAlternate l = false)
    (h : pieceOf (p.fetch now l ts frame).2 = some pcm) :
    let source := (p.stream l.opposite).pollRead ts frame.length
    source.2 = true ∧ (source.1.take now frame.length).2 = .ok pcm ∧ pcm ≠ [] := by
  have hnone : (p.leg l).alternate = none := by simpa [hasAlternate] using halternate
  unfold fetch at h
  rw [hnone] at h
  dsimp only at h ⊢
  rcases hpoll : MediaStream.pollRead (p.stream l.opposite) ts frame.length with ⟨s, due⟩
  rw [hpoll] at h
  rw [show (p.stream l.opposite).pollRead ts frame.length = _ from hpoll]
  cases due with
  | false => cases h
  | true =>
    have htaken := taken_of_listen h
    rw [setStream, leg_setLeg_self] at htaken
    exact ⟨rfl, htaken⟩

/-- What is put to a leg without an alternate source is what the other leg's stream handed out. -/
theorem taken_of_handed {p : Pair AudioStream} {now : Nat} {l : Leg} {ts : UInt64}
    {scratch pcm : List UInt8} (halternate : p.hasAlternate l = false)
    (h : (p.handed now l ts scratch).put = some pcm) :
    let size := p.sizeFor l scratch.length
    let source := (p.stream l.opposite).pollRead ts size
    source.2 = true ∧ (source.1.take now size).2 = .ok pcm ∧ pcm ≠ [] := by
  dsimp only
  unfold handed at h
  dsimp only at h
  split at h
  · have hsize : (scratch.take (p.sizeFor l scratch.length)).length =
        p.sizeFor l scratch.length := List.length_take_of_le (Nat.min_le_right _ _)
    obtain ⟨hstream, hnone⟩ := gate_across p l ts (p.sizeFor l scratch.length)
    rw [halternate] at hnone
    have htaken := taken_of_fetch hnone h
    rwa [hstream, hsize] at htaken
  · cases h

end Pair

/-- The seconds that linear audio takes at a rate. -/
def playingTime (pcm : List UInt8) (rate : UInt32) : ℚ := (Audio.samples pcm).length / rate.toNat

/-- Audio that takes any time at all takes as long at one rate as at another if they are the same,
and only then. -/
theorem playingTime_eq_iff {pcm : List UInt8} (hpcm : Audio.samples pcm ≠ [])
    (rate rate' : UInt32) :
    playingTime pcm rate = playingTime pcm rate' ↔ rate = rate' := by
  have hlength : ((Audio.samples pcm).length : ℚ) ≠ 0 := by
    rw [Nat.cast_ne_zero, ne_eq, List.length_eq_zero_iff]
    exact hpcm
  unfold playingTime
  rw [div_eq_mul_inv, div_eq_mul_inv, mul_right_inj' hlength, inv_inj, Nat.cast_inj,
    UInt32.toNat_inj]

/-- **Main theorem**: a frame keeps its time on its way from one leg to the other if both legs
agreed on codecs of the same rate, and only then.

Whatever happened to a pair of audio streams that were new in the beginning: as long as both legs
are in use, each stream runs at the rate of the codec that its leg last agreed on, which is 8000 Hz
or 16000 Hz. What is put to the stream of a leg that has no alternate source is just what the other
leg's stream handed out. -/
theorem frame_keeps_time_iff {p : Pair AudioStream} (hp : p.Untuned) (acts : List PairAct)
    (huse : ∀ k, (p.after acts).isInitialized k = true) {l : Leg}
    (halternate : (p.after acts).hasAlternate l = false) {now : Nat} {ts : UInt64}
    {scratch pcm : List UInt8} (hput : ((p.after acts).handed now l ts scratch).put = some pcm) :
    let source := (p.after acts).stream l.opposite
    let target := (p.after acts).stream l
    let size := (p.after acts).sizeFor l scratch.length
    ((source.pollRead ts size).1.take now size).2 = .ok pcm ∧
      ((p.after acts).writeLeg now l ts scratch).1.stream l =
        (((p.after acts).gate l ts size).1.stream l |>.put pcm).1 ∧
      ∃ here there, (lastAgreed acts).get l.opposite = some here ∧
        (lastAgreed acts).get l = some there ∧
        source.rate = here.clockRate ∧ target.rate = there.clockRate ∧
        (∀ codec ∈ [here, there], codec.clockRate = 8000 ∨ codec.clockRate = 16000) ∧
        (playingTime pcm source.rate = playingTime pcm target.rate ↔
          here.clockRate = there.clockRate) := by
  have htuned := hp.after acts
  obtain ⟨here, hhere, hsource⟩ := htuned.speaks l.opposite (huse l.opposite)
  obtain ⟨there, hthere, htarget⟩ := htuned.speaks l (huse l)
  obtain ⟨-, htaken, hpcm⟩ := Pair.taken_of_handed halternate hput
  obtain ⟨xs, rfl⟩ := AudioStream.samples_of_take htaken
  have hxs : Audio.samples (Audio.bytes xs) ≠ [] := by
    rw [Audio.samples_bytes]
    rintro rfl
    exact hpcm rfl
  have hrates : ∀ codec ∈ [here, there], codec.clockRate = 8000 ∨ codec.clockRate = 16000 := by
    simp [hsource.standard, htarget.standard]
  have hwritten := (p.after acts).stream_writeLeg now l ts scratch
  rw [hput] at hwritten
  refine ⟨htaken, hwritten, here, there, hhere, hthere, hsource.rate_eq, htarget.rate_eq, hrates,
    ?_⟩
  rw [playingTime_eq_iff hxs, hsource.rate_eq, htarget.rate_eq]

/-- A description of one audio line with a linear format of a rate. -/
def linearLine (rate : UInt32) : Description :=
  { Description.empty with
    connection := some (.ip4 "10.0.0.2")
    media := [Media.audio 4000 [⟨97, "L16", rate, none, none⟩]] }

/-- A new stream of a leg. -/
def newStream (l : Leg) : AudioStream :=
  AudioStream.fresh l ⟨.v4 [10, 0, 0, 1], 5000⟩ .connected
    ⟨8000, 20, ⟨0, 200, 0⟩, ⟨false, false⟩, none⟩ Codec.Registry.standard ⟨7, 0, 0, 0⟩ 0

/-- A pair of new streams. -/
def newPair : Pair AudioStream :=
  ⟨⟨LegMedia.ofStream (newStream .a), LegMedia.ofStream (newStream .b)⟩, .adaptive⟩

theorem untuned_newPair : newPair.Untuned :=
  ⟨fun k => by cases k <;> rfl, fun k => by cases k <;> rfl⟩

/-- The first leg agrees on 8000 Hz and the second one on 16000 Hz, and a packet of four samples
comes in for the first one. -/
def mixedRates : List PairAct :=
  [.negotiate (Receiver.idle []) 0 .a false (linearLine 8000) (linearLine 8000) 0,
    .negotiate (Receiver.idle []) 0 .b false (linearLine 16000) (linearLine 16000) 0,
    .deliver 0 .a ([0x80, 97, 0, 0, 0, 0, 0, 0, 0, 0, 0, 7] ++ List.replicate 8 1)]

theorem inUse_mixedRates (k : Leg) : (newPair.after mixedRates).isInitialized k = true := by
  cases k <;> rfl

set_option maxRecDepth 10000 in
theorem handed_mixedRates :
    ((newPair.after mixedRates).handed 0 .b 0 (List.replicate 4 0)).put = some [1, 1, 1, 1] := by
  rfl

theorem frame_keeps_time_iff_mixedRates :
    newPair.Untuned ∧ (∀ k, (newPair.after mixedRates).isInitialized k = true) ∧
      (newPair.after mixedRates).hasAlternate .b = false ∧
      ((newPair.after mixedRates).handed 0 .b 0 (List.replicate 4 0)).put = some [1, 1, 1, 1] ∧
      lastAgreed mixedRates = ⟨some (.linear 8000), some (.linear 16000)⟩ ∧
      (playingTime [1, 1, 1, 1] ((newPair.after mixedRates).stream .a).rate =
        playingTime [1, 1, 1, 1] ((newPair.after mixedRates).stream .b).rate ↔
          (8000 : UInt32) = 16000) := by
  have halternate : (newPair.after mixedRates).hasAlternate .b = false := rfl
  have hagreed : lastAgreed mixedRates = ⟨some (.linear 8000), some (.linear 16000)⟩ := rfl
  obtain ⟨-, -, here, there, hhere, hthere, -, -, -, htime⟩ :=
    frame_keeps_time_iff untuned_newPair mixedRates inUse_mixedRates halternate handed_mixedRates
  rw [hagreed] at hhere hthere
  obtain rfl := Option.some.inj hhere
  obtain rfl := Option.some.inj hthere
  exact ⟨untuned_newPair, inUse_mixedRates, halternate, handed_mixedRates, hagreed, htime⟩

/-- A frame does not always keep its time: read at 8000 Hz it is over in half of it at 16000 Hz. -/
theorem not_frame_keeps_time :
    ¬ ∀ (p : Pair AudioStream) (acts : List PairAct) (l : Leg) (now : Nat) (ts : UInt64)
        (scratch pcm : List UInt8), p.Untuned →
      (∀ k, (p.after acts).isInitialized k = true) → (p.after acts).hasAlternate l = false →
      ((p.after acts).handed now l ts scratch).put = some pcm →
      playingTime pcm ((p.after acts).stream l.opposite).rate =
        playingTime pcm ((p.after acts).stream l).rate := by
  intro hkeeps
  have htime := hkeeps newPair mixedRates .b 0 0 (List.replicate 4 0) [1, 1, 1, 1]
    untuned_newPair inUse_mixedRates rfl handed_mixedRates
  rw [playingTime_eq_iff (by decide)] at htime
  have hrates : ((newPair.after mixedRates).stream .a).rate = 8000 ∧
      ((newPair.after mixedRates).stream .b).rate = 16000 := ⟨rfl, rfl⟩
  rw [Leg.opposite, hrates.1, hrates.2] at htime
  cases htime

end CallBridge.Bridge
