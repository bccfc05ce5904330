import CallBridge.Proofs.Bridge.TickInPlace

/-!
# The scratch buffer keeps its secrets

The frames of all sessions of a worker travel through one scratch buffer, so a session finds in it
what the session before left there.

Results:
* `Pair.handsOn`: what a call hands on is what is heard and put.
* `Session.writeEach_eq`: sessions that share a buffer do what each of them does alone.
* `scratch_secrecy`: what the buffer holds makes no difference to a session.
-/

namespace CallBridge.Bridge

open Rtp (MediaStream BlindStream)

variable {σ : Type} [MediaStream σ]

/-- What a call to move a frame to a leg hands on: the key detector of the other leg hears the one
part, the stream of the leg is put the other part after its send gate was asked, and the key
detector of the leg itself hears nothing. -/
structure Pair.HandsOn (p : Pair σ) (now : Nat) (l : Leg) (ts : UInt64) (scratch : List UInt8) :
    Prop where
  own : ((p.writeLeg now l ts scratch).1.leg l).detector = (p.leg l).detector
  heard : ((p.writeLeg now l ts scratch).1.leg l.opposite).detector =
    (p.leg l.opposite).detector.map (hear ts (p.handed now l ts scratch).heard)
  put : (p.writeLeg now l ts scratch).1.stream l =
    putPiece (p.handed now l ts scratch).put
      ((p.gate l ts (p.sizeFor l scratch.length)).1.stream l)

theorem Pair.handsOn (p : Pair σ) (now : Nat) (l : Leg) (ts : UInt64) (scratch : List UInt8) :
    p.HandsOn now l ts scratch where
  own := (p.detector_writeLeg now l ts scratch).1
  heard := (p.detector_writeLeg now l ts scratch).2
  put := p.stream_writeLeg now l ts scratch

/-! ## Sessions that share a buffer -/

namespace Session

variable [BlindStream σ]

/-- The sessions of a worker after a tick in which each found in the buffer what the one before left
there, and how each of them fared. -/
def writeEach (now : Nat) (ts : UInt64) :
    List (Session σ) → List UInt8 → List (Session σ × Outcome Unit)
  | [], _ => []
  | s :: rest, scratch =>
    let (s, scratch, r) := s.writeStreams now ts scratch
    (s, r) :: writeEach now ts rest scratch

/-- What the sessions before one left in the buffer makes no difference to it. -/
theorem writeEach_eq (now : Nat) (ts : UInt64) (sessions : List (Session σ))
    {scratch clean : List UInt8} (h : scratch.length = clean.length) :
    writeEach now ts sessions scratch = sessions.map fun s => s.exchange now ts clean := by
  induction sessions generalizing scratch with
  | nil => rfl
  | cons s sessions ih =>
    have hlength : (s.writeStreams now ts scratch).2.1.length = clean.length :=
      (length_writePairs now ts s.pairs scratch).trans h
    obtain ⟨t, r, left, left', hwrite, hwrite'⟩ := (s.writeStreams_same now ts h).exists
    rw [hwrite] at hlength
    rw [writeEach, List.map_cons, exchange, hwrite, hwrite']
    exact congrArg ((t, r) :: ·) (ih hlength)

end Session

/-- **Main theorem**: what the scratch buffer holds makes no difference to a session.

With two buffers of the same length, a tick leaves the session in the same state, with the same
packets in the outboxes of its streams, and ends in the same way; and its calls hand on the same
audio, which is what the key detectors hear and what is put to the streams. If the ring buffers that
the legs are fed from are sound, then the tick does the same with every source read piece by piece
into a window on the buffer, and nothing is cut outside its bytes. Whatever sessions come before and
after in the same buffer, each of them does what it does alone with the other one. -/
theorem scratch_secrecy (s : Session Rtp.AudioStream) (now : Nat) (ts : UInt64)
    {scratch scratch' : List UInt8} (h : scratch.length = scratch'.length) :
    (s.writeStreams now ts scratch).1 = (s.writeStreams now ts scratch').1 ∧
      (s.writeStreams now ts scratch).2.2 = (s.writeStreams now ts scratch').2.2 ∧
      s.handed now ts scratch = s.handed now ts scratch' ∧
      (∀ (p : Pair Rtp.AudioStream) (l : Leg), p.HandsOn now l ts scratch) ∧
      ((∀ p ∈ s.pairs, p.FedSoundly) →
        s.writeStreamsChecked now ts scratch = some (s.writeStreams now ts scratch)) ∧
      ∀ before after : List (Session Rtp.AudioStream),
        Session.writeEach now ts (before ++ s :: after) scratch =
          (before ++ s :: after).map fun t => t.exchange now ts scratch' := by
  obtain ⟨hstate, hend⟩ := s.writeStreams_same now ts h
  obtain ⟨-, hhanded⟩ := Session.writePairs_same now ts s.pairs h
  exact ⟨hstate, hend, hhanded, fun p l => p.handsOn now l ts scratch,
    fun hfed => s.writeStreamsChecked_eq hfed now ts scratch,
    fun before after => Session.writeEach_eq now ts _ h⟩

/-- A session with half a frame for its first leg, in a ring buffer. -/
def halfFed : Session Rtp.AudioStream :=
  { Session.fresh ⟨"s"⟩ "g" ⟨true, true⟩ (Rtp.Receiver.idle []) with
    pairs := [⟨⟨
      ⟨.speaker, true, some ⟨0, .buffered ((Buffer.Ring.ofCapacity 8).write [1, 0, 2, 0]).1⟩, none⟩,
      ⟨.listener, true, none, some (Dtmf.Detector.ofRate 8000)⟩⟩, .simple⟩] }

theorem halfFed_fedSoundly : ∀ p ∈ halfFed.pairs, p.FedSoundly := by
  intro p hp
  obtain rfl := List.mem_singleton.1 hp
  rw [Pair.FedSoundly, Leg.forall_iff]
  refine ⟨fun feed hfeed => ?_, nofun⟩
  obtain rfl := Option.some.inj hfeed
  exact (Buffer.Ring.Sound.ofCapacity 8).write _

theorem scratch_secrecy_halfFed :
    (List.replicate 8 0 : List UInt8).length = (List.replicate 8 255 : List UInt8).length ∧
      (halfFed.writeStreams 0 0 (List.replicate 8 0)).1 =
        (halfFed.writeStreams 0 0 (List.replicate 8 255)).1 ∧
      halfFed.handed 0 0 (List.replicate 8 0) = [⟨none, some [1, 0, 2, 0]⟩, ⟨none, none⟩] ∧
      halfFed.handed 0 0 (List.replicate 8 255) = [⟨none, some [1, 0, 2, 0]⟩, ⟨none, none⟩] ∧
      halfFed.writeStreamsChecked 0 0 (List.replicate 8 0) =
        some (halfFed.writeStreams 0 0 (List.replicate 8 0)) := by
  have hlength : (List.replicate 8 0 : List UInt8).length =
      (List.replicate 8 255 : List UInt8).length := rfl
  obtain ⟨hstate, -, hhanded, -, hinPlace, -⟩ := scratch_secrecy halfFed 0 0 hlength
  have hclean : halfFed.handed 0 0 (List.replicate 8 0) =
      [⟨none, some [1, 0, 2, 0]⟩, ⟨none, none⟩] := by decide
  exact ⟨hlength, hstate, hclean, hhanded.symm.trans hclean, hinPlace halfFed_fedSoundly⟩

end CallBridge.Bridge
