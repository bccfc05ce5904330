import CallBridge.Proofs.Rtp.Receiving

/-!
# Runs of a stream

Everything that may happen to an audio stream, one thing after the other, and what it leaves as it
was. Only a negotiation changes what is sent and by which codecs; nothing changes the host, the
settings and the codecs there are.

Results:
* `AudioStream.put_frame` and its like: the fields that an operation may change.
* `AudioStream.sameHost_act`: nothing changes the place, the settings and the codecs.
* `AudioStream.sameFormat_act`: what but a negotiation leaves the negotiated format alone.
-/

namespace CallBridge.Rtp

/-- What may happen to a stream. -/
inductive StreamAct where
  /-- It is bound to a media line. -/
  | negotiate (now : Nat) (ours theirs : Sdp.Description) (index : Nat)
  /-- The way received audio waits is chosen. -/
  | setPlayout (now : Nat) (mode : Playout.Mode)
  /-- A datagram comes in, when the stream that it relays to is there or not. -/
  | receive (now : Nat) (peerExists : Bool) (data : List UInt8)
  /-- It is read into a buffer. -/
  | read (now : Nat) (out : List UInt8)
  /-- Audio is put to it. -/
  | put (pcm : List UInt8)
  /-- A packet of the other leg is passed to it. -/
  | relay (packet : Packet)
  /-- A relay is set up, when the stream to relay to is there or not. -/
  | enableRelay (mask : PayloadMask) (peer : UInt16) (peerExists : Bool)
  /-- The relay is taken down. -/
  | disableRelay
  /-- Its send gate is polled. -/
  | pollSend (ts : UInt64) (frameSize : Nat)
  /-- Its read gate is polled. -/
  | pollRead (ts : UInt64) (frameSize : Nat)
  /-- The time without received packets starts anew. -/
  | clearTimeout (now : Nat)

/-- What a stream is bound to: a media line of a local and a remote description. -/
structure Negotiation where
  ours : Sdp.Description
  theirs : Sdp.Description
  index : Nat

/-- What a stream is bound to if it is negotiated. -/
def StreamAct.negotiation? : StreamAct → Option Negotiation
  | negotiate _ ours theirs index => some ⟨ours, theirs, index⟩
  | _ => none

/-- A stream is negotiated at the beginning of time. -/
def Negotiation.act (n : Negotiation) : StreamAct := .negotiate 0 n.ours n.theirs n.index

theorem filterMap_act (course : List Negotiation) :
    (course.map Negotiation.act).filterMap StreamAct.negotiation? = course := by
  induction course with
  | nil => rfl
  | cons n course ih => exact congrArg (n :: ·) ih

namespace AudioStream

/-- The stream after something happened to it. -/
def act (s : AudioStream) : StreamAct → AudioStream
  | .negotiate now ours theirs index => (s.negotiate now ours theirs index).1
  | .setPlayout now mode => s.setPlayout now mode
  | .receive now peerExists data => (s.receive now peerExists data).1
  | .read now out => (s.read now out).1
  | .put pcm => (s.put pcm).1
  | .relay packet => (s.relay packet).1
  | .enableRelay mask peer peerExists => (s.enableRelay mask peer peerExists).1
  | .disableRelay => s.disableRelay
  | .pollSend ts frameSize => (s.pollSend ts frameSize).1
  | .pollRead ts frameSize => (s.pollRead ts frameSize).1
  | .clearTimeout now => s.clearTimeout now

/-- The stream after a run. -/
def after (s : AudioStream) (acts : List StreamAct) : AudioStream := acts.foldl act s

/-! ## Frames -/

section

variable (s : AudioStream)

theorem put_frame (pcm : List UInt8) :
    (s.put pcm).1 = { s with
      identity := (s.put pcm).1.identity
      given := (s.put pcm).1.given
      outbox := (s.put pcm).1.outbox } := by
  unfold put
  split
  · rfl
  · split
    · rfl
    · dsimp only
      rw [send_eq]
      rfl

theorem relay_frame (packet : Packet) :
    (s.relay packet).1 = { s with
      identity := (s.relay packet).1.identity
      given := (s.relay packet).1.given
      outbox := (s.relay packet).1.outbox } := by
  unfold relay
  split
  · rfl
  · rw [send_eq]
    unfold countRelayed
    split <;> rfl

theorem receive_frame (now : Nat) (peerExists : Bool) (data : List UInt8) :
    (s.receive now peerExists data).1 =
      { s with
        lastReceived := (s.receive now peerExists data).1.lastReceived
        playout := (s.receive now peerExists data).1.playout } := by
  obtain ⟨path, -, hreceive⟩ := s.exists_path peerExists data
  rw [hreceive]
  rfl

theorem read_frame (now : Nat) (out : List UInt8) :
    (s.read now out).1 = { s with playout := (s.read now out).1.playout } := by
  have htake : (s.take now out.length).1 =
      { s with playout := (s.take now out.length).1.playout } := by
    unfold take
    split
    · rfl
    · split <;> rfl
  unfold read
  split <;> next h => rwa [h] at htake

theorem setPlayout_frame (now : Nat) (mode : Playout.Mode) :
    s.setPlayout now mode =
      { s with
        mode := (s.setPlayout now mode).mode
        playout := (s.setPlayout now mode).playout
        playoutSince := (s.setPlayout now mode).playoutSince } := by
  unfold setPlayout
  split <;> rfl

theorem enableRelay_frame (mask : PayloadMask) (peer : UInt16) (peerExists : Bool) :
    (s.enableRelay mask peer peerExists).1 =
      { s with relaying := (s.enableRelay mask peer peerExists).1.relaying } := by
  unfold enableRelay
  split <;> rfl

theorem negotiate_frame (now : Nat) (ours theirs : Sdp.Description) (index : Nat) :
    (s.negotiate now ours theirs index).1 =
      { s with
        agreement := (s.negotiate now ours theirs index).1.agreement
        rate := (s.negotiate now ours theirs index).1.rate
        frameSamples := (s.negotiate now ours theirs index).1.frameSamples
        playout := (s.negotiate now ours theirs index).1.playout
        playoutSince := (s.negotiate now ours theirs index).1.playoutSince
        lastReceived := (s.negotiate now ours theirs index).1.lastReceived } := by
  unfold negotiate
  split <;> rfl

end

/-! ## The host -/

/-- Two states of a stream at one place, with the same settings and codecs. -/
structure SameHost (s s' : AudioStream) : Prop where
  place : s'.place = s.place
  network : s'.network = s.network
  settings : s'.settings = s.settings
  codecs : s'.codecs = s.codecs

/-- Nothing that happens to a stream moves it. -/
theorem sameHost_act (s : AudioStream) (e : StreamAct) : s.SameHost (s.act e) := by
  cases e with
  | negotiate now ours theirs index =>
    rw [act, negotiate_frame]
    exact ⟨rfl, rfl, rfl, rfl⟩
  | setPlayout now mode =>
    rw [act, setPlayout_frame]
    exact ⟨rfl, rfl, rfl, rfl⟩
  | receive now peerExists data =>
    rw [act, receive_frame]
    exact ⟨rfl, rfl, rfl, rfl⟩
  | read now out =>
    rw [act, read_frame]
    exact ⟨rfl, rfl, rfl, rfl⟩
  | put pcm =>
    rw [act, put_frame]
    exact ⟨rfl, rfl, rfl, rfl⟩
  | relay packet =>
    rw [act, relay_frame]
    exact ⟨rfl, rfl, rfl, rfl⟩
  | enableRelay mask peer peerExists =>
    rw [act, enableRelay_frame]
    exact ⟨rfl, rfl, rfl, rfl⟩
  | disableRelay => exact ⟨rfl, rfl, rfl, rfl⟩
  | pollSend ts frameSize => exact ⟨rfl, rfl, rfl, rfl⟩
  | pollRead ts frameSize => exact ⟨rfl, rfl, rfl, rfl⟩
  | clearTimeout now => exact ⟨rfl, rfl, rfl, rfl⟩

theorem codecs_negotiate (s : AudioStream) (now : Nat) (ours theirs : Sdp.Description)
    (index : Nat) : (s.negotiate now ours theirs index).1.codecs = s.codecs :=
  (s.sameHost_act (.negotiate now ours theirs index)).codecs

theorem codecs_after (s : AudioStream) (acts : List StreamAct) :
    (s.after acts).codecs = s.codecs := by
  induction acts generalizing s with
  | nil => rfl
  | cons e acts ih => exact (ih (s.act e)).trans (s.sameHost_act e).codecs

/-! ## The negotiated format -/

/-- Two states of a stream in which it sends in the same format. -/
structure SameFormat (s s' : AudioStream) : Prop where
  codecs : s'.codecs = s.codecs
  agreement : s'.agreement = s.agreement
  rate : s'.rate = s.rate

theorem SameFormat.refl (s : AudioStream) : s.SameFormat s := ⟨rfl, rfl, rfl⟩

theorem SameFormat.trans {s s' s'' : AudioStream} (h : s.SameFormat s') (h' : s'.SameFormat s'') :
    s.SameFormat s'' :=
  ⟨h'.codecs.trans h.codecs, h'.agreement.trans h.agreement, h'.rate.trans h.rate⟩

section

variable (s : AudioStream)

theorem sameFormat_pollSend (ts : UInt64) (size : Nat) : s.SameFormat (s.pollSend ts size).1 :=
  ⟨rfl, rfl, rfl⟩

theorem sameFormat_pollRead (ts : UInt64) (size : Nat) : s.SameFormat (s.pollRead ts size).1 :=
  ⟨rfl, rfl, rfl⟩

theorem sameFormat_put (pcm : List UInt8) : s.SameFormat (s.put pcm).1 := by
  rw [put_frame]
  exact ⟨rfl, rfl, rfl⟩

theorem sameFormat_relay (packet : Packet) : s.SameFormat (s.relay packet).1 := by
  rw [relay_frame]
  exact ⟨rfl, rfl, rfl⟩

theorem sameFormat_receive (now : Nat) (peerExists : Bool) (data : List UInt8) :
    s.SameFormat (s.receive now peerExists data).1 := by
  rw [receive_frame]
  exact ⟨rfl, rfl, rfl⟩

theorem sameFormat_read (now : Nat) (out : List UInt8) : s.SameFormat (s.read now out).1 := by
  rw [read_frame]
  exact ⟨rfl, rfl, rfl⟩

theorem sameFormat_setPlayout (now : Nat) (mode : Playout.Mode) :
    s.SameFormat (s.setPlayout now mode) := by
  rw [setPlayout_frame]
  exact ⟨rfl, rfl, rfl⟩

theorem sameFormat_enableRelay (mask : PayloadMask) (peer : UInt16) (peerExists : Bool) :
    s.SameFormat (s.enableRelay mask peer peerExists).1 := by
  rw [enableRelay_frame]
  exact ⟨rfl, rfl, rfl⟩

theorem sameFormat_disableRelay : s.SameFormat s.disableRelay := ⟨rfl, rfl, rfl⟩

theorem sameFormat_clearTimeout (now : Nat) : s.SameFormat (s.clearTimeout now) := ⟨rfl, rfl, rfl⟩

/-- Only a negotiation changes the format. -/
theorem sameFormat_act {e : StreamAct} (h : e.negotiation? = none) : s.SameFormat (s.act e) := by
  cases e with
  | negotiate now ours theirs index => cases h
  | setPlayout now mode => exact s.sameFormat_setPlayout now mode
  | receive now peerExists data => exact s.sameFormat_receive now peerExists data
  | read now out => exact s.sameFormat_read now out
  | put pcm => exact s.sameFormat_put pcm
  | relay packet => exact s.sameFormat_relay packet
  | enableRelay mask peer peerExists => exact s.sameFormat_enableRelay mask peer peerExists
  | disableRelay => exact s.sameFormat_disableRelay
  | pollSend ts frameSize => exact s.sameFormat_pollSend ts frameSize
  | pollRead ts frameSize => exact s.sameFormat_pollRead ts frameSize
  | clearTimeout now => exact s.sameFormat_clearTimeout now

end

end AudioStream

end CallBridge.Rtp
