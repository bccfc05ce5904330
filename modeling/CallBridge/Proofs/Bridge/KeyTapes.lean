import CallBridge.Proofs.Bridge.StreamMaps
import CallBridge.Proofs.Dtmf.Framing

/-!
# What key detectors hear

In a pair audio crosses over and key presses do not. A frame for one leg is read from the other leg,
whose detector hears it, and a key press that the detector finds is that other leg's.

To see that no detector hears anything else, streams are watched. Each keeps on a tape what was read
from it since it was last negotiated, and the key presses that were collected meanwhile. The tape
explains a detector if a new detector that hears the tape from the beginning to the end finds first
the key presses that were collected and then those that still wait.

Results:
* `Tape.Explains.hear`, `Tape.Explains.drain`: a detector that hears on, or is emptied.
* `Watched.streamMap`: a watched stream does what the stream does.
* `Pair.IsExplained.renegotiate`: a leg that is negotiated anew.
* `Pair.IsExplained.writeLeg`, `Pair.IsExplained.tick`: a frame is heard by the detector of the leg
  that it was read from.
* `Pair.IsExplained.drained`: key presses that are collected.
-/

namespace CallBridge

namespace Dtmf

/-! ## Tapes -/

/-- What was read from a stream since it was negotiated for a sampling rate, and the key presses
that were collected from its detector meanwhile. -/
structure Tape where
  rate : UInt32
  pieces : Pieces
  collected : List Event

namespace Tape

/-- A tape on which there is nothing yet. -/
def blank (rate : UInt32) : Tape := ⟨rate, [], []⟩

/-- The tape with the audio that a read put out, if it did. -/
def record (t : Tape) (ts : UInt64) (piece : Option (List UInt8)) : Tape :=
  { t with pieces := t.pieces ++ (piece.map (Prod.mk ts)).toList }

/-- The tape after key presses were collected. -/
def note (t : Tape) (events : List Event) : Tape := { t with collected := t.collected ++ events }

/-- A new detector that hears the whole tape finds what was collected and then what waits in this
one, and is like it otherwise. -/
def Explains (t : Tape) (d : Detector) : Prop :=
  (Detector.ofRate t.rate).hears t.pieces = d.preceded t.collected

namespace Explains

theorem blank (rate : UInt32) : (Tape.blank rate).Explains (Detector.ofRate rate) := rfl

theorem hear {t : Tape} {d : Detector} (h : t.Explains d) (ts : UInt64)
    (piece : Option (List UInt8)) : (t.record ts piece).Explains (Bridge.hear ts piece d) := by
  cases piece with
  | none =>
    rw [record, Option.map_none, Option.toList_none, List.append_nil]
    exact h
  | some pcm =>
    have hlast : (Detector.ofRate t.rate).hears (t.pieces ++ [(ts, pcm)]) =
        (d.preceded t.collected).hears [(ts, pcm)] := by
      rw [Detector.hears_append, show (Detector.ofRate t.rate).hears t.pieces = _ from h]
    exact hlast.trans (Detector.process_preceded d.tones d _ ts pcm)

theorem drain {t : Tape} {d : Detector} (h : t.Explains d) :
    (t.note d.events).Explains d.drain.1 := by
  rw [Explains, note]
  refine h.trans ?_
  simp only [Detector.preceded, Detector.drain, List.append_nil]

end Explains

end Tape

end Dtmf

namespace Bridge

open Dtmf (Tape)
open Rtp (MediaStream Receiver StreamMap)
open Sdp (Description Media)

variable {σ : Type}

/-! ## Watched streams -/

/-- A stream with the timestamp at which it was last asked to be read, and its tape. -/
structure Watched (σ : Type) where
  stream : σ
  polled : UInt64
  tape : Tape

namespace Watched

/-- The watched stream after its stream changed and nothing was read from it. -/
def become (s : Watched σ) (t : σ) : Watched σ := { s with stream := t }

variable [MediaStream σ]

/-- A read goes on the tape, and a negotiation that goes well starts a new one. -/
instance : MediaStream (Watched σ) where
  port s := MediaStream.port s.stream
  hasSocket s := MediaStream.hasSocket s.stream
  frameSize s := MediaStream.frameSize s.stream
  sampleRate s := MediaStream.sampleRate s.stream
  pollSend s ts size := (MediaStream.pollSend s.stream ts size).map s.become id
  pollRead s ts size :=
    (MediaStream.pollRead s.stream ts size).map (fun t => { s with stream := t, polled := ts }) id
  read s now out :=
    let (t, frame, got) := MediaStream.read s.stream now out
    ({ s with stream := t, tape := s.tape.record s.polled (pieceOf (frame, got)) }, frame, got)
  put s pcm := (MediaStream.put s.stream pcm).map s.become id
  enableRelay s mask peer := (MediaStream.enableRelay s.stream mask peer).map s.become id
  disableRelay s := s.become (MediaStream.disableRelay s.stream)
  relayMask s := MediaStream.relayMask s.stream
  relay s packet := (MediaStream.relay s.stream packet).map s.become id
  negotiate s now ours theirs line :=
    match MediaStream.negotiate s.stream now ours theirs line with
    | (t, .ok ()) => ({ s with stream := t, tape := .blank (MediaStream.sampleRate t) }, .ok ())
    | (t, .error f) => (s.become t, .error f)
  setPlayout s now mode := s.become (MediaStream.setPlayout s.stream now mode)
  receive s now peerExists data :=
    (MediaStream.receive s.stream now peerExists data).map s.become id
  clearTimeout s now := s.become (MediaStream.clearTimeout s.stream now)

/-- A watched stream does what the stream does. -/
theorem streamMap : StreamMap (Watched.stream : Watched σ → σ) where
  port _ := rfl
  hasSocket _ := rfl
  frameSize _ := rfl
  sampleRate _ := rfl
  pollSend _ _ _ := rfl
  pollRead _ _ _ := rfl
  read _ _ _ := rfl
  put _ _ := rfl
  enableRelay _ _ _ := rfl
  disableRelay _ := rfl
  relay _ _ := rfl
  negotiate s now ours theirs line := by
    simp only [MediaStream.negotiate]
    rcases MediaStream.negotiate s.stream now ours theirs line with ⟨t, f | u⟩ <;> rfl
  setPlayout _ _ _ := rfl
  receive _ _ _ _ := rfl
  clearTimeout _ _ := rfl

end Watched

/-! ## One pair -/

namespace LegMedia

/-- A leg that is negotiated has a detector or none as was wished, a leg that is not has none, and
the tape of the leg's own stream explains the detector. -/
structure IsExplained (wish : Bool → Prop) (m : LegMedia (Watched σ)) : Prop where
  negotiated : m.initialized = true → wish m.detector.isSome
  idle : m.initialized = false → m.detector = none
  explained : ∀ d, m.detector = some d → m.stream.tape.Explains d

variable {wish : Bool → Prop} {m : LegMedia (Watched σ)}

theorem isExplained_of_idle (hi : m.initialized = false) (hd : m.detector = none) :
    m.IsExplained wish where
  negotiated h := absurd (hi.symm.trans h) (by decide)
  idle _ := hd
  explained d h := absurd (hd.symm.trans h) (Option.some_ne_none d).symm

theorem IsExplained.congr {m' : LegMedia (Watched σ)} (h : m.IsExplained wish)
    (hi : m'.initialized = m.initialized) (hd : m'.detector = m.detector)
    (ht : m'.stream.tape = m.stream.tape) : m'.IsExplained wish where
  negotiated := by
    rw [hi, hd]
    exact h.negotiated
  idle := by
    rw [hi, hd]
    exact h.idle
  explained := by
    rw [hd, ht]
    exact h.explained

/-- There is a detector only where one was wished. -/
theorem IsExplained.wished (h : m.IsExplained wish) {d : Dtmf.Detector}
    (hd : m.detector = some d) : wish true := by
  cases hi : m.initialized with
  | false => exact absurd ((h.idle hi).symm.trans hd) (Option.some_ne_none d).symm
  | true =>
    have hwish := h.negotiated hi
    rwa [hd, Option.isSome_some] at hwish

variable [MediaStream σ]

theorem initialized_listen (m : LegMedia (Watched σ)) (now : Nat) (ts : UInt64)
    (frame : List UInt8) : (m.listen now ts frame).1.initialized = m.initialized := by
  unfold listen
  split <;> rfl

theorem tape_listen (m : LegMedia (Watched σ)) (now : Nat) (ts : UInt64) (frame : List UInt8) :
    (m.listen now ts frame).1.stream.tape =
      m.stream.tape.record m.stream.polled (pieceOf (m.listen now ts frame).2) := by
  simp only [listen, MediaStream.read]
  rcases MediaStream.read m.stream.stream now frame with ⟨t, frame', f | n⟩ <;> rfl

/-- What a leg's detector hears goes on the tape of that leg's stream. -/
theorem IsExplained.listen (h : m.IsExplained wish) (now : Nat) (frame : List UInt8) :
    (m.listen now m.stream.polled frame).1.IsExplained wish where
  negotiated := by
    rw [initialized_listen, detector_listen, Option.isSome_map]
    exact h.negotiated
  idle := by
    rw [initialized_listen, detector_listen, Option.map_eq_none_iff]
    exact h.idle
  explained d hd := by
    rw [detector_listen] at hd
    obtain ⟨d', hd', rfl⟩ := Option.map_eq_some_iff.1 hd
    rw [tape_listen]
    exact (h.explained d' hd').hear _ _

end LegMedia

namespace Pair

/-- What the detectors of both legs are is explained by the tapes of their own streams. -/
def IsExplained (wish : Leg → Bool → Prop) (p : Pair (Watched σ)) : Prop :=
  ∀ l, (p.leg l).IsExplained (wish l)

namespace IsExplained

variable {wish : Leg → Bool → Prop} {p : Pair (Watched σ)}

theorem setLeg (h : p.IsExplained wish) {l : Leg} {m : LegMedia (Watched σ)}
    (hm : m.IsExplained (wish l)) : (p.setLeg l m).IsExplained wish := by
  intro k
  rcases Leg.eq_or_eq_opposite l k with rfl | rfl
  · rw [leg_setLeg_self]
    exact hm
  · rw [leg_setLeg_opposite]
    exact h _

/-- A stream may be exchanged for one with the same tape. -/
theorem setStream (h : p.IsExplained wish) {l : Leg} {s : Watched σ}
    (hs : s.tape = (p.stream l).tape) : (p.setStream l s).IsExplained wish :=
  h.setLeg ((h l).congr rfl rfl hs)

theorem resetLeg (h : p.IsExplained wish) (l : Leg) : (p.resetLeg l).1.IsExplained wish :=
  h.setLeg (LegMedia.isExplained_of_idle rfl rfl)

theorem setAlternate (h : p.IsExplained wish) (l : Leg) (feed : Option Audio.Feed) :
    (p.setAlternate l feed).1.IsExplained wish :=
  h.setLeg ((h l).congr rfl rfl rfl)

theorem writeAlternate (h : p.IsExplained wish) {serial : Nat} {data : List UInt8}
    {r : Pair (Watched σ) × Outcome Buffer.Written} (hr : p.writeAlternate serial data = some r) :
    r.1.IsExplained wish := by
  obtain ⟨l, -, hl⟩ := List.exists_of_findSome?_eq_some hr
  split at hl
  · cases hl
  · split at hl
    · cases hl
      exact h.setLeg ((h l).congr rfl rfl rfl)
    · cases hl

theorem of_opened {x : Surroundings (Watched σ)} (hp : Opened x p) : p.IsExplained wish := by
  obtain ⟨_, _, _, _, _, rfl⟩ := hp
  intro l
  refine LegMedia.isExplained_of_idle ?_ ?_ <;> cases l <;> rfl

variable [MediaStream σ]

theorem tape_relayStream (s : Watched σ) (peer : UInt16) (media : Media) :
    (relayStream s peer media).tape = s.tape := by
  unfold relayStream
  split
  · rfl
  · split <;> next hs =>
      have htape := congrArg (fun r => r.1.tape) hs
      exact htape.symm

theorem setRelay (h : p.IsExplained wish) (r : Receiver) (l : Leg) (media : Media) :
    (p.setRelay r l media).1.IsExplained wish := by
  have hrelay := h.setStream (tape_relayStream (p.stream l.opposite) (p.port l) media)
  simp only [Pair.setRelay]
  split <;> exact hrelay

theorem tape_negotiate {s t : Watched σ} {now : Nat} {ours theirs : Description} {line : Nat}
    (h : MediaStream.negotiate s now ours theirs line = (t, .ok ())) :
    t.tape = .blank (MediaStream.sampleRate t) := by
  simp only [MediaStream.negotiate] at h
  split at h <;> cases h
  rfl

/-- A leg that is negotiated anew has no detector, or one that heard nothing and a blank tape. -/
theorem renegotiate (h : p.IsExplained wish) {l : Leg} {detects : Bool}
    (hwish : wish l detects) (now : Nat) (ours theirs : Description) (line : Nat)
    (r : Receiver) :
    (Session.renegotiate now l detects ours theirs line p r).1.IsExplained wish := by
  have hreset := h.resetLeg l
  have hidle : ((p.resetLeg l).1.leg l).initialized = false ∧
      ((p.resetLeg l).1.leg l).detector = none := by
    rw [Pair.resetLeg, leg_setLeg_self]
    exact ⟨rfl, rfl⟩
  have hfailed (s : Watched σ) : ((p.resetLeg l).1.setStream l s).IsExplained wish :=
    hreset.setLeg (LegMedia.isExplained_of_idle hidle.1 hidle.2)
  simp only [Session.renegotiate, initLeg]
  rcases hanswer : MediaStream.negotiate (MediaStream.setPlayout ((p.resetLeg l).1.stream l) now
    (p.resetLeg l).1.playout) now ours theirs line with ⟨s, f | u⟩
  · exact hfailed s
  · rcases hread : reattach r s with ⟨r', f | u⟩
    · simp only [hread]
      exact hfailed s
    · simp only [hread]
      refine hreset.setLeg ⟨fun _ => ?_, fun hi => Bool.noConfusion hi, fun d hd => ?_⟩
      · cases detects <;> exact hwish
      · rw [tape_negotiate hanswer]
        cases detects <;> cases hd
        exact Tape.Explains.blank _

theorem applyLine (h : p.IsExplained wish) {l : Leg} {detects : Bool}
    (hwish : wish l detects) (now : Nat) (ours theirs : Description) (line : Nat)
    (media : Media) (r : Receiver) :
    (Session.applyLine now l detects ours theirs line media p r).1.IsExplained wish := by
  have hrelay := h.setRelay r l media
  simp only [Session.applyLine]
  split
  · exact hrelay.resetLeg l
  · exact hrelay.renegotiate hwish now ours theirs line _

theorem gate (h : p.IsExplained wish) (l : Leg) (ts : UInt64) (size : Nat) :
    (p.gate l ts size).1.IsExplained wish := by
  unfold Pair.gate
  split
  · exact h.setStream rfl
  · exact h

/-- What is read from a leg's stream is heard by that leg's detector, and what comes from an
alternate source by none. -/
theorem fetch (h : p.IsExplained wish) (now : Nat) (l : Leg) (ts : UInt64) (frame : List UInt8) :
    (p.fetch now l ts frame).1.IsExplained wish := by
  unfold Pair.fetch
  split
  · exact h.setLeg ((h l).congr rfl rfl rfl)
  · have hpolled := h.setStream (l := l.opposite)
      (s := (MediaStream.pollRead (p.stream l.opposite) ts frame.length).1) rfl
    have hlisten := (hpolled l.opposite).listen now frame
    rw [Pair.setStream, leg_setLeg_self] at hlisten
    simp only [Pair.setStream, leg_setLeg_self] at hpolled ⊢
    split
    · exact hpolled.setLeg hlisten
    · exact hpolled

theorem move (h : p.IsExplained wish) (now : Nat) (l : Leg) (ts : UInt64) (size : Nat)
    (scratch : List UInt8) : (p.move now l ts size scratch).1.IsExplained wish := by
  have hfetch := h.fetch now l ts (scratch.take size)
  unfold Pair.move
  split <;> next hr =>
    rw [hr] at hfetch
    first | exact hfetch | exact hfetch.setStream rfl

theorem writeLeg (h : p.IsExplained wish) (now : Nat) (l : Leg) (ts : UInt64)
    (scratch : List UInt8) : (p.writeLeg now l ts scratch).1.IsExplained wish := by
  have hgate := h.gate l ts (p.sizeFor l scratch.length)
  rw [writeLeg_eq]
  dsimp only
  split
  · exact hgate.move now l ts _ scratch
  · exact hgate

theorem tick (h : p.IsExplained wish) (now : Nat) (ts : UInt64) (scratch : List UInt8) :
    (p.tick now ts scratch).1.IsExplained wish := by
  have hfirst := h.writeLeg now .a ts scratch
  rw [Pair.tick]
  rcases hr : p.writeLeg now .a ts scratch with ⟨p', scratch', f | n⟩ <;> rw [hr] at hfirst
  · exact hfirst
  · have hsecond := writeLeg hfirst now .b ts scratch'
    dsimp only
    rcases hr' : p'.writeLeg now .b ts scratch' with ⟨p'', scratch'', f | n⟩ <;>
      rw [hr'] at hsecond <;> exact hsecond

theorem deliver (h : p.IsExplained wish) (now : Nat) (l : Leg) (data : List UInt8) :
    (p.deliver now l data).IsExplained wish := by
  have hreceive : (p.setStream l (MediaStream.receive (p.stream l) now true data).1).IsExplained
    wish := h.setStream rfl
  unfold Pair.deliver
  dsimp only
  split
  · exact hreceive
  · exact hreceive.setStream rfl

theorem clearTimeout (h : p.IsExplained wish) (now : Nat) :
    (p.clearTimeout now).IsExplained wish :=
  have hfirst : (p.modifyStream .a (MediaStream.clearTimeout · now)).IsExplained wish :=
    h.setStream rfl
  hfirst.setStream rfl

end IsExplained

end Pair

/-! ### Collecting key presses -/

/-- The media of a leg whose tape notes the key presses that wait. -/
def LegMedia.keysNoted (m : LegMedia (Watched σ)) : LegMedia (Watched σ) :=
  { m with stream := { m.stream with tape := m.stream.tape.note m.waiting } }

namespace Pair

/-- The pair whose tapes note the key presses that wait. -/
def keysNoted (p : Pair (Watched σ)) : Pair (Watched σ) :=
  { p with legs := p.legs.map LegMedia.keysNoted }

theorem leg_keysNoted (p : Pair (Watched σ)) (l : Leg) :
    p.keysNoted.leg l = (p.leg l).keysNoted := by
  cases l <;> rfl

/-- Key presses that are noted before they are taken away are accounted for. -/
theorem IsExplained.drained {wish : Leg → Bool → Prop} {p : Pair (Watched σ)}
    (h : p.IsExplained wish) : p.keysNoted.drained.IsExplained wish := by
  intro l
  rw [leg_drained, leg_keysNoted]
  refine ⟨fun hi => ?_, fun hi => ?_, fun d hd => ?_⟩
  · rw [Option.isSome_map]
    exact (h l).negotiated hi
  · rw [Option.map_eq_none_iff]
    exact (h l).idle hi
  · obtain ⟨d', hd', rfl⟩ := Option.map_eq_some_iff.1 hd
    have hwaiting : (p.leg l).waiting = d'.events := by
      rw [LegMedia.waiting, show (p.leg l).detector = some d' from hd', Option.elim_some]
    rw [LegMedia.keysNoted, hwaiting]
    exact ((h l).explained d' hd').drain

theorem IsExplained.waiting_of_unwished {wish : Leg → Bool → Prop} {p : Pair (Watched σ)}
    (h : p.IsExplained wish) {l : Leg} (hl : ¬ wish l true) : p.waiting l = [] := by
  rw [waiting, LegMedia.waiting]
  cases hd : (p.leg l).detector with
  | none => rfl
  | some d => exact absurd ((h l).wished hd) hl

/-- Where all that was wished is the same, a leg has a detector if it is negotiated and wished
one. -/
theorem IsExplained.hasDetector_eq {wish : Leg → Bool → Prop} {p : Pair (Watched σ)}
    (h : p.IsExplained wish) {l : Leg} {detects : Bool} (hl : ∀ b, wish l b → b = detects) :
    p.hasDetector l = (p.isInitialized l && detects) := by
  rw [hasDetector, isInitialized]
  cases hi : (p.leg l).initialized with
  | false => rw [(h l).idle hi, Bool.false_and, Option.isSome_none]
  | true => rw [hl _ ((h l).negotiated hi), Bool.true_and]

end Pair

end Bridge

end CallBridge
