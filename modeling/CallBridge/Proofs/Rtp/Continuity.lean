import CallBridge.Proofs.Rtp.CommonFormats
import CallBridge.Proofs.Rtp.Numbering
import CallBridge.Proofs.Rtp.StreamRuns

/-!
# The continuity of sent audio

Each call that puts audio to a stream sends one datagram, by what is agreed on at that time, or none
at all. The datagrams are numbered one after the other, and each starts at the sample where the one
before it ended. Calls that send nothing leave no gap, negotiations start nothing anew, and nothing
else that happens to a stream touches its numbers.

Results:
* `datagrams_append`, `getElem?_datagrams`: how the datagrams of some frames are numbered.
* `AudioStream.agreement_act`: what is agreed on is told by the negotiations alone.
* `AudioStream.Continues.step`, `AudioStream.Continues.run`: a stream numbers what it sends on from
  where it is.
* `AudioStream.sent_without_gap`: what is sent in a run, and what the calls return.
-/

namespace CallBridge.Rtp

/-! ## Frames -/

/-- A call that puts audio to a stream, and what is agreed on at that time. -/
structure Handing where
  agreement : Option Agreement
  pcm : List UInt8

/-- Audio that is sent: by what agreement, where to, and its samples. -/
structure SentFrame where
  agreement : Agreement
  target : Net.Endpoint
  samples : List Int16

/-- The frame of a call: the whole samples of its audio, if it is known where they go. -/
def Handing.frame? (h : Handing) : Option SentFrame :=
  h.agreement.bind fun a => a.remote.map fun target => ⟨a, target, Audio.samples h.pcm⟩

/-- What a call returns at the stream of a port. -/
def Handing.answer (h : Handing) (port : UInt16) : Outcome Nat :=
  match h.agreement with
  | none => .error (.streamNotInitialized port.toNat)
  | some a => .ok (if a.remote = none then 0 else h.pcm.length)

/-- The datagram of a frame. -/
def SentFrame.datagram (f : SentFrame) (i : Identity) : Datagram where
  target := f.target
  packet := Packet.plain f.agreement.payloadType i.sequence i.timestamp i.ssrc
    (f.agreement.codec.encode f.samples)
  relayed := false

/-- The numbers behind some frames: one for each frame, and one for each sample. -/
def Identity.past (i : Identity) (frames : List SentFrame) : Identity :=
  { i with
    sequence := i.sequence + UInt16.ofNat frames.length
    timestamp := i.timestamp + UInt32.ofNat (frames.flatMap (·.samples)).length }

theorem Identity.past_nil (i : Identity) : i.past [] = i := by simp [past]

theorem Identity.past_append (i : Identity) (frames frames' : List SentFrame) :
    i.past (frames ++ frames') = (i.past frames).past frames' := by
  simp [past, UInt16.ofNat_add, UInt32.ofNat_add, UInt16.add_assoc, UInt32.add_assoc]

/-- The datagrams of some frames. -/
def datagrams (i : Identity) : List SentFrame → List Datagram
  | [] => []
  | f :: frames => f.datagram i :: datagrams (i.past [f]) frames

theorem datagrams_append (i : Identity) (frames frames' : List SentFrame) :
    datagrams i (frames ++ frames') = datagrams i frames ++ datagrams (i.past frames) frames' := by
  induction frames generalizing i with
  | nil => rw [Identity.past_nil]; rfl
  | cons f frames ih =>
    rw [List.cons_append, datagrams, ih, ← Identity.past_append]
    rfl

/-- Relayed packets have a counter of their own. -/
theorem datagrams_relaySequence (i : Identity) (n : UInt16) (frames : List SentFrame) :
    datagrams { i with relaySequence := n } frames = datagrams i frames := by
  induction frames generalizing i with
  | nil => rfl
  | cons f frames ih => exact congrArg (f.datagram i :: ·) (ih (i.past [f]))

theorem filter_datagrams (i : Identity) (frames : List SentFrame) :
    (datagrams i frames).filter (!·.relayed) = datagrams i frames := by
  induction frames generalizing i with
  | nil => rfl
  | cons f frames ih => exact congrArg (f.datagram i :: ·) (ih (i.past [f]))

theorem getElem?_datagrams (i : Identity) (frames : List SentFrame) (n : Nat) :
    (datagrams i frames)[n]? = frames[n]?.map fun f => f.datagram (i.past (frames.take n)) := by
  induction frames generalizing i n with
  | nil => rfl
  | cons f frames ih =>
    -- What stands before a later frame are the first frame and those before it in the rest.
    cases n with
    | zero => rw [List.take_zero, Identity.past_nil]; rfl
    | succ n =>
      have hpast : i.past ((f :: frames).take (n + 1)) = (i.past [f]).past (frames.take n) := by
        rw [List.take_succ_cons, ← Identity.past_append]
        rfl
      rw [hpast]
      exact ih (i.past [f]) n

/-! ## Runs -/

/-- What is agreed on after something happened; a negotiation that fails leaves it as it is. -/
def StreamAct.agreed (codecs : Codec.Registry) (packetTimeMs : UInt32) (a : Option Agreement)
    (e : StreamAct) : Option Agreement :=
  match e.negotiation? with
  | none => a
  | some n =>
    match Agreement.agree codecs packetTimeMs n.ours n.theirs n.index with
    | .ok a' => some a'
    | .error _ => a

/-- The call by which something puts audio. -/
def StreamAct.handing? (a : Option Agreement) : StreamAct → Option Handing
  | put pcm => some ⟨a, pcm⟩
  | _ => none

/-- The calls of a run that put audio. -/
def handings (codecs : Codec.Registry) (packetTimeMs : UInt32) (a : Option Agreement) :
    List StreamAct → List Handing
  | [] => []
  | e :: acts =>
    (e.handing? a).toList ++ handings codecs packetTimeMs (e.agreed codecs packetTimeMs a) acts

namespace AudioStream

/-- What was sent of the stream's own audio. -/
def encoded (s : AudioStream) : List Datagram := s.outbox.filter (!·.relayed)

/-- What a call that puts audio returns. -/
def answer? (s : AudioStream) : StreamAct → Option (Outcome Nat)
  | .put pcm => some (s.put pcm).2
  | _ => none

/-- What the calls of a run that put audio return. -/
def answers (s : AudioStream) : List StreamAct → List (Outcome Nat)
  | [] => []
  | e :: acts => (s.answer? e).toList ++ (s.act e).answers acts

/-- The calls of a run that put audio to a stream. -/
def handed (s : AudioStream) (acts : List StreamAct) : List Handing :=
  handings s.codecs s.settings.packetTimeMs s.agreement acts

/-- The frames that a stream sends in a run. -/
def frames (s : AudioStream) (acts : List StreamAct) : List SentFrame :=
  (s.handed acts).filterMap Handing.frame?

/-- The frame that a stream sends when something happens to it, if there is one. -/
def stepFrames (s : AudioStream) (e : StreamAct) : List SentFrame :=
  (e.handing? s.agreement).toList.filterMap Handing.frame?

theorem agreement_act (s : AudioStream) (e : StreamAct) :
    (s.act e).agreement = e.agreed s.codecs s.settings.packetTimeMs s.agreement := by
  rcases he : e.negotiation? with _ | n
  · rw [StreamAct.agreed, he]
    exact (s.sameFormat_act he).agreement
  · cases e with
    | negotiate now ours theirs index =>
      show (s.negotiate now ours theirs index).1.agreement =
        match Agreement.agree s.codecs s.settings.packetTimeMs ours theirs index with
        | .ok a' => some a'
        | .error _ => s.agreement
      rw [negotiate]
      rcases Agreement.agree s.codecs s.settings.packetTimeMs ours theirs index with f | a
      · rfl
      · rfl
    | _ => cases he

theorem handed_cons (s : AudioStream) (e : StreamAct) (acts : List StreamAct) :
    s.handed (e :: acts) = (e.handing? s.agreement).toList ++ (s.act e).handed acts := by
  unfold handed
  rw [agreement_act, (s.sameHost_act e).codecs, (s.sameHost_act e).settings]
  rfl

theorem frames_cons (s : AudioStream) (e : StreamAct) (acts : List StreamAct) :
    s.frames (e :: acts) = s.stepFrames e ++ (s.act e).frames acts := by
  rw [frames, handed_cons, List.filterMap_append]
  rfl

/-- The socket takes the datagram of a frame. -/
def Accepts (s : AudioStream) (f : SentFrame) : Prop :=
  s.answerTo (f.datagram s.identity) = .taken

instance (s : AudioStream) (f : SentFrame) : Decidable (s.Accepts f) :=
  inferInstanceAs (Decidable (_ = _))

/-- The socket takes every frame that a stream sends in a run. -/
def AcceptsAll : AudioStream → List StreamAct → Prop
  | _, [] => True
  | s, e :: acts => (∀ f ∈ s.stepFrames e, s.Accepts f) ∧ (s.act e).AcceptsAll acts

instance decidableAcceptsAll :
    (s : AudioStream) → (acts : List StreamAct) → Decidable (s.AcceptsAll acts)
  | _, [] => .isTrue trivial
  | s, e :: acts =>
    have := decidableAcceptsAll (s.act e) acts
    inferInstanceAs (Decidable (_ ∧ _))

theorem put_accepted {s : AudioStream} {a : Agreement} {target : Net.Endpoint}
    (h : s.agreement = some a) (hr : a.remote = some target) {pcm : List UInt8}
    (haccepts : s.Accepts ⟨a, target, Audio.samples pcm⟩) :
    s.put pcm = ({ s.countPacket (Audio.samples pcm).length with
      given := s.given + 1
      outbox := s.outbox ++ [⟨target, s.packetOf a (Audio.samples pcm), false⟩] },
      .ok pcm.length) := by
  have htaken : (s.countPacket (Audio.samples pcm).length).answerTo
      ⟨target, s.packetOf a (Audio.samples pcm), false⟩ = .taken := haccepts
  simp only [put, h, hr, send, htaken]
  rfl

/-- A call sends the frame of its audio, where the socket takes it, and uses up the numbers of this
frame. A call without a frame changes nothing. -/
theorem put_eq {s : AudioStream} {pcm : List UInt8}
    (haccepted : ∀ f ∈ s.stepFrames (.put pcm), s.Accepts f) :
    s.put pcm = ({ s with
      identity := s.identity.past (s.stepFrames (.put pcm))
      given := s.given + (s.stepFrames (.put pcm)).length
      outbox := s.outbox ++ datagrams s.identity (s.stepFrames (.put pcm)) },
      (Handing.mk s.agreement pcm).answer s.port) := by
  rcases Option.eq_none_or_eq_some s.agreement with hagreement | ⟨a, hagreement⟩
  · have hnone : s.stepFrames (.put pcm) = [] := by
      simp [stepFrames, StreamAct.handing?, Handing.frame?, hagreement]
    have hanswer : (Handing.mk s.agreement pcm).answer s.port =
        .error (.streamNotInitialized s.port.toNat) := by simp [Handing.answer, hagreement]
    rw [put_unnegotiated hagreement, hnone, hanswer, Identity.past_nil, datagrams, List.append_nil]
    rfl
  rcases Option.eq_none_or_eq_some a.remote with htarget | ⟨target, htarget⟩
  · have hnone : s.stepFrames (.put pcm) = [] := by
      simp [stepFrames, StreamAct.handing?, Handing.frame?, hagreement, htarget]
    have hanswer : (Handing.mk s.agreement pcm).answer s.port = .ok 0 := by
      simp [Handing.answer, hagreement, htarget]
    rw [put_unreachable hagreement htarget, hnone, hanswer, Identity.past_nil, datagrams,
      List.append_nil]
    rfl
  · have hframe : s.stepFrames (.put pcm) = [⟨a, target, Audio.samples pcm⟩] := by
      simp [stepFrames, StreamAct.handing?, Handing.frame?, hagreement, htarget]
    have hanswer : (Handing.mk s.agreement pcm).answer s.port = .ok pcm.length := by
      simp [Handing.answer, hagreement, htarget]
    rw [hframe] at haccepted ⊢
    have haccepts := haccepted _ (List.mem_singleton_self _)
    have hpast : s.identity.past [⟨a, target, Audio.samples pcm⟩] =
        (s.countPacket (Audio.samples pcm).length).identity := by
      rw [Identity.past, List.flatMap_singleton]
      rfl
    rw [put_accepted hagreement htarget haccepts, hanswer, hpast, List.length_singleton]
    rfl

/-- A stream comes from one state to another and in between sends some frames: they take the numbers
from where it was, and leave it behind them. -/
structure Continues (s s' : AudioStream) (frames : List SentFrame) : Prop where
  identity : s'.identity =
    { s.identity.past frames with relaySequence := s'.identity.relaySequence }
  encoded : s'.encoded = s.encoded ++ datagrams s.identity frames

namespace Continues

theorem trans {s s' s'' : AudioStream} {frames frames' : List SentFrame} (h : s.Continues s' frames)
    (h' : s'.Continues s'' frames') : s.Continues s'' (frames ++ frames') where
  identity := by
    rw [h'.identity, h.identity, Identity.past_append]
    rfl
  encoded := by
    have hnumbers : datagrams s'.identity frames' = datagrams (s.identity.past frames) frames' := by
      rw [h.identity]
      exact datagrams_relaySequence _ _ _
    rw [h'.encoded, hnumbers, h.encoded, datagrams_append, List.append_assoc]

theorem quiet {s s' : AudioStream} (hidentity : s'.identity = s.identity)
    (hencoded : s'.encoded = s.encoded) : s.Continues s' [] where
  identity := by
    rw [Identity.past_nil, hidentity]
  encoded := by rw [hencoded, datagrams, List.append_nil]

theorem put {s : AudioStream} {pcm : List UInt8}
    (haccepted : ∀ f ∈ s.stepFrames (.put pcm), s.Accepts f) :
    s.Continues (s.put pcm).1 (s.stepFrames (.put pcm)) := by
  rw [put_eq haccepted]
  refine ⟨rfl, ?_⟩
  rw [AudioStream.encoded, List.filter_append, filter_datagrams]
  rfl

/-- A packet that is passed on takes its number from elsewhere. -/
theorem relay (s : AudioStream) (packet : Packet) : s.Continues (s.relay packet).1 [] := by
  rcases Option.eq_none_or_eq_some s.remote? with htarget | ⟨target, htarget⟩
  · rw [relay_unreachable htarget]
    exact quiet rfl rfl
  · rw [relay_reachable htarget]
    have hfilter : ∀ d, d.relayed = true → (s.carried d).filter (!·.relayed) = [] := by
      intro d hd
      unfold carried
      split
      · simp [hd]
      · rfl
    -- The one counter that moves on is not looked at, and the datagram is not of the own audio.
    refine ⟨by rw [Identity.past_nil]; rfl, ?_⟩
    rw [AudioStream.encoded, List.filter_append, hfilter _ rfl]
    rfl

/-- Whatever happens to a stream, it numbers what it sends on from where it is. -/
theorem step {s : AudioStream} {e : StreamAct}
    (haccepted : ∀ f ∈ s.stepFrames e, s.Accepts f) :
    s.Continues (s.act e) (s.stepFrames e) := by
  cases e with
  | put pcm => exact put haccepted
  | relay packet => exact relay s packet
  | negotiate now ours theirs index =>
    rw [act, negotiate_frame]
    exact quiet rfl rfl
  | setPlayout now mode =>
    rw [act, setPlayout_frame]
    exact quiet rfl rfl
  | receive now peerExists data =>
    rw [act, receive_frame]
    exact quiet rfl rfl
  | read now out =>
    rw [act, read_frame]
    exact quiet rfl rfl
  | enableRelay mask peer peerExists =>
    rw [act, enableRelay_frame]
    exact quiet rfl rfl
  | disableRelay => exact quiet rfl rfl
  | pollSend ts frameSize => exact quiet rfl rfl
  | pollRead ts frameSize => exact quiet rfl rfl
  | clearTimeout now => exact quiet rfl rfl

theorem run {s : AudioStream} {acts : List StreamAct} (haccepted : s.AcceptsAll acts) :
    s.Continues (s.after acts) (s.frames acts) := by
  induction acts generalizing s with
  | nil => exact quiet rfl rfl
  | cons e acts ih =>
    rw [frames_cons]
    exact (step haccepted.1).trans (ih haccepted.2)

end Continues

/-- The calls of a run return what their agreements tell. -/
theorem answers_eq {s : AudioStream} {acts : List StreamAct} (haccepted : s.AcceptsAll acts) :
    s.answers acts = (s.handed acts).map (·.answer s.port) := by
  induction acts generalizing s with
  | nil => rfl
  | cons e acts ih =>
    have hrest := ih haccepted.2
    have hport : (s.act e).port = s.port := congrArg (·.port) (s.sameHost_act e).place
    have hanswer : s.answer? e = (e.handing? s.agreement).map (·.answer s.port) := by
      cases e with
      | put pcm => exact congrArg (fun answer => some answer.2) (put_eq haccepted.1)
      | _ => rfl
    rw [answers, hrest, hport, hanswer, handed_cons, List.map_append, Option.toList_map]

/-- **Main theorem**: what is sent of a stream's own audio goes on without a gap.

Whatever happens to a stream whose socket takes every frame that it sends in a run, each call that
puts audio returns what the agreement at that time tells: an error without one, 0 without a remote
side, and else the length of its audio. The frames of the latter calls, in order, are what is sent.
The datagram of each has the first number of the stream plus the number of frames before it and the
first timestamp plus the number of samples before it, and carries the whole samples encoded by the
codec that was agreed on. No number is used but for these frames. -/
theorem sent_without_gap (s : AudioStream) (acts : List StreamAct)
    (haccepted : s.AcceptsAll acts) :
    s.answers acts = (s.handed acts).map (·.answer s.port) ∧
    (∃ sent, (s.after acts).encoded = s.encoded ++ sent ∧
      ∀ n, sent[n]? = (s.frames acts)[n]?.map fun f => Datagram.mk f.target
        (Packet.plain f.agreement.payloadType
          (s.identity.sequence + UInt16.ofNat n)
          (s.identity.timestamp +
            UInt32.ofNat (((s.frames acts).take n).flatMap (·.samples)).length)
          s.identity.ssrc (f.agreement.codec.encode f.samples)) false) ∧
    (s.after acts).identity.sequence =
      s.identity.sequence + UInt16.ofNat (s.frames acts).length ∧
    (s.after acts).identity.timestamp =
      s.identity.timestamp + UInt32.ofNat ((s.frames acts).flatMap (·.samples)).length := by
  have hrun := Continues.run haccepted
  refine ⟨answers_eq haccepted, ⟨datagrams s.identity (s.frames acts), hrun.encoded, fun n => ?_⟩,
    ?_, ?_⟩
  · rw [getElem?_datagrams]
    rcases hn : (s.frames acts)[n]? with _ | f
    · rfl
    · have htake : ((s.frames acts).take n).length = n :=
        List.length_take_of_le (List.getElem?_eq_some_iff.1 hn).1.le
      rw [Option.map_some, Option.map_some, SentFrame.datagram, Identity.past, htake]
  · rw [hrun.identity]
    rfl
  · rw [hrun.identity]
    rfl

/-- A description of one line in one format, which is reached at a port of a phone. -/
def phoneLine (port : UInt16) (payload : Sdp.Payload) : Sdp.Description :=
  { describing (Sdp.Media.audio port [payload]) with connection := some (.ip4 "10.0.0.9") }

/-- A new stream whose numbers are the last before 0. -/
def lastNumbers : AudioStream := { plainStream with identity := ⟨7, 0xFFFF, 0xFFFFFFFF, 0⟩ }

/-- A line that is switched off at first, is bound to a format and then to another one; in between a
negotiation fails and a packet is passed on. -/
def changingLine : List StreamAct :=
  let companded : Sdp.Payload := ⟨0, "PCMU", 8000, none, none⟩
  let wide : Sdp.Payload := ⟨97, "L16", 16000, none, none⟩
  [.put [1, 2], .negotiate 0 (phoneLine 5000 companded) (phoneLine 0 companded) 0, .put [1, 2],
    .negotiate 0 (phoneLine 5000 companded) (phoneLine 4000 companded) 0, .put [0, 0, 9],
    .negotiate 0 (phoneLine 5000 companded) (phoneLine 4000 wide) 0, .put [0, 0, 0, 0],
    .relay Packet.sample, .negotiate 0 (phoneLine 5000 wide) (phoneLine 4000 wide) 0, .put [1, 2]]

/-- The second datagram has both numbers 0, and the third goes on in the other format. -/
theorem sent_without_gap_changingLine :
    lastNumbers.answers changingLine =
      [.error (.streamNotInitialized 5000), .ok 0, .ok 3, .ok 4, .ok 2] ∧
    ∃ sent : List Datagram, (lastNumbers.after changingLine).encoded = sent ∧
      sent[0]?.map (·.packet) =
        some (Packet.plain 0 0xFFFF 0xFFFFFFFF 7 (Codec.muLaw.encode [0])) ∧
      sent[1]?.map (·.packet) = some (Packet.plain 0 0 0 7 (Codec.muLaw.encode [0, 0])) ∧
      sent[2]?.map (·.packet) = some (Packet.plain 97 1 2 7 [2, 1]) ∧ sent[3]? = none := by
  obtain ⟨hanswers, ⟨sent, hsent, hnumbers⟩, -, -⟩ :=
    sent_without_gap lastNumbers changingLine (by decide)
  refine ⟨hanswers, sent, hsent, ?_⟩
  rw [hnumbers, hnumbers, hnumbers, hnumbers]
  exact ⟨rfl, rfl, rfl, rfl⟩

end AudioStream

end CallBridge.Rtp
