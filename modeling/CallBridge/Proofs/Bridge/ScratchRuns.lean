import CallBridge.Bridge.Processing
import CallBridge.Proofs.Buffer.Circle
import CallBridge.Proofs.Rtp.MediaPath

/-!
# A tick in two runs

The frames of a tick travel through a scratch buffer. Two runs that differ only in what the buffer
holds at their start are compared step by step: every source tells how many bytes it put to the
front of a frame, and no more than these are heard, sent or kept.

Results:
* `Source.read_same`, `BlindStream AudioStream`: a read does not look at the buffer.
* `Pair.detector_writeLeg`, `Pair.stream_writeLeg`: what `Pair.handed` tells of a call is what the
  key detectors hear and what is put to the stream.
* `Pair.writeLeg_same`, `Session.writePairs_same`: a call and a whole tick in two runs.
-/

namespace CallBridge.Audio

/-! ## Calls in two runs -/

variable {τ ρ : Type}

/-- Two calls with a buffer leave the same state and end in the same way. -/
structure SameCall (x y : τ × List UInt8 × ρ) : Prop where
  state : x.1 = y.1
  outcome : x.2.2 = y.2.2

/-- Two reads into a buffer also put the same bytes to its front, as many as they tell. -/
structure SameRead (x y : τ × List UInt8 × Outcome Nat) : Prop extends SameCall x y where
  front : ∀ n, x.2.2 = .ok n → x.2.1.take n = y.2.1.take n

theorem SameRead.error (t : τ) (out out' : List UInt8) (f : Fault) :
    SameRead (t, out, .error f) (t, out', .error f) where
  state := rfl
  outcome := rfl
  front n h := by cases h

theorem SameRead.ok {t : τ} {n : Nat} {out out' : List UInt8} (h : out.take n = out'.take n) :
    SameRead (t, out, .ok n) (t, out', .ok n) where
  state := rfl
  outcome := rfl
  front m hm := by
    obtain rfl : n = m := Except.ok.inj hm
    exact h

theorem SameCall.exists {x y : τ × List UInt8 × ρ} (h : SameCall x y) :
    ∃ t r out out', x = (t, out, r) ∧ y = (t, out', r) := by
  obtain ⟨t, out, r⟩ := x
  obtain ⟨t', out', r'⟩ := y
  obtain rfl : t = t' := h.state
  obtain rfl : r = r' := h.outcome
  exact ⟨t, r, out, out', rfl, rfl⟩

/-- Two reads either fail, or put the same bytes to the front of two buffers. -/
theorem SameRead.cases {x y : τ × List UInt8 × Outcome Nat} (h : SameRead x y) :
    (∃ t f out out', x = (t, out, .error f) ∧ y = (t, out', .error f)) ∨
      ∃ t n out out', x = (t, out, .ok n) ∧ y = (t, out', .ok n) ∧ out.take n = out'.take n := by
  obtain ⟨t, r, out, out', rfl, rfl⟩ := h.toSameCall.exists
  cases r with
  | error f => exact .inl ⟨t, f, out, out', rfl, rfl⟩
  | ok n => exact .inr ⟨t, n, out, out', rfl, rfl, h.front n rfl⟩

/-! ## Sources -/

namespace Source

theorem length_take_le {s s' : Source} {len : Nat} {bytes : List UInt8}
    (h : s.take len = (s', .ok bytes)) : bytes.length ≤ len := by
  cases s with
  | recording r =>
    obtain ⟨-, rfl⟩ : _ ∧ (r.play len).2 = bytes := by simpa [take] using h
    exact Recording.length_play_le r len
  | buffered r =>
    obtain ⟨-, rfl⟩ : _ ∧ (r.takeOldest len).2 = bytes := by simpa [take] using h
    exact Buffer.Ring.length_takeOldest_le r len
  | broken reason => cases congrArg Prod.snd h

theorem length_read (s : Source) (out : List UInt8) : (s.read out).2.1.length = out.length := by
  unfold read
  split
  · next htake => exact length_overlay (length_take_le htake)
  · rfl

/-- A source does not look at the buffer that it is read into. -/
theorem read_same (s : Source) {out out' : List UInt8} (h : out.length = out'.length) :
    SameRead (s.read out) (s.read out') := by
  unfold read
  rw [h]
  split
  · exact SameRead.ok (by rw [take_overlay, take_overlay])
  · exact SameRead.error _ _ _ _

end Source

end CallBridge.Audio

namespace CallBridge.Rtp

open Audio (SameRead)

/-- A stream that does not look at the buffer that it is read into, and leaves it its length. -/
class BlindStream (σ : Type) [MediaStream σ] : Prop where
  length_read : ∀ (s : σ) (now : Nat) (out : List UInt8),
    (MediaStream.read s now out).2.1.length = out.length
  read_same : ∀ (s : σ) (now : Nat) {out out' : List UInt8}, out.length = out'.length →
    SameRead (MediaStream.read s now out) (MediaStream.read s now out')

theorem AudioStream.length_take_le {s s' : AudioStream} {now len : Nat} {bytes : List UInt8}
    (h : s.take now len = (s', .ok bytes)) : bytes.length ≤ len := by
  unfold take at h
  split at h
  · cases congrArg Prod.snd h
  · split at h
    · obtain ⟨-, rfl⟩ : _ ∧ (s.playout.take len).2 = bytes := by simpa using h
      have hcount := (s.playout.read_count (List.replicate len 0)).2
      rwa [List.length_replicate, Playout.JitterBuffer.read, List.length_replicate] at hcount
    · obtain ⟨-, rfl⟩ : _ ∧ [] = bytes := by simpa using h
      exact Nat.zero_le _

instance : BlindStream AudioStream where
  length_read s now out := by
    change (s.read now out).2.1.length = out.length
    unfold AudioStream.read
    split
    · next htake => exact Audio.length_overlay (AudioStream.length_take_le htake)
    · rfl
  read_same s now out out' h := by
    change SameRead (s.read now out) (s.read now out')
    unfold AudioStream.read
    rw [h]
    split
    · exact SameRead.ok (by rw [Audio.take_overlay, Audio.take_overlay])
    · exact SameRead.error _ _ _ _

end CallBridge.Rtp

namespace CallBridge.Bridge

open Audio (SameCall SameRead)
open Rtp (MediaStream BlindStream)

variable {σ : Type} [MediaStream σ]

/-! ## What is handed on -/

/-- The audio that a call to move a frame to a leg hands on. -/
structure Handover where
  /-- What the key detector of the other leg hears. -/
  heard : Option (List UInt8)
  /-- What is put to the stream of the leg. -/
  put : Option (List UInt8)
deriving DecidableEq, Repr, Inhabited

/-- What was read into the front of a frame, if anything was. -/
def pieceOf : List UInt8 × Outcome Nat → Option (List UInt8)
  | (frame, .ok (n + 1)) => some (frame.take (n + 1))
  | _ => none

/-- A key detector after it heard audio. -/
def hear (ts : UInt64) : Option (List UInt8) → Dtmf.Detector → Dtmf.Detector
  | none, d => d
  | some pcm, d => d.process d.tones ts pcm

/-- A stream after audio was put to it. -/
def putPiece : Option (List UInt8) → σ → σ
  | none, s => s
  | some pcm, s => (MediaStream.put s pcm).1

namespace Pair

/-- What is handed on of a frame for a leg, of which a number of bytes was read. -/
def handedOf (p : Pair σ) (l : Leg) (r : List UInt8 × Outcome Nat) : Handover where
  heard := if p.hasAlternate l || !p.hasDetector l.opposite then none else pieceOf r
  put := pieceOf r

/-- The size of the frames that are moved to a leg through a buffer of some bytes. -/
def sizeFor (p : Pair σ) (l : Leg) (room : Nat) : Nat :=
  min (MediaStream.frameSize (p.stream l)) room

/-- The pair after the send gate of a leg was asked, if there is something to ask it for, and
whether it opened. -/
def gate (p : Pair σ) (l : Leg) (ts : UInt64) (size : Nat) : Pair σ × Bool :=
  if p.isLinked l && size ≠ 0 then
    let (s, due) := MediaStream.pollSend (p.stream l) ts size
    (p.setStream l s, due)
  else (p, false)

/-- What a call to move a frame to a leg hands on. -/
def handed (p : Pair σ) (now : Nat) (l : Leg) (ts : UInt64) (scratch : List UInt8) : Handover :=
  let size := p.sizeFor l scratch.length
  let (p, due) := p.gate l ts size
  if due then p.handedOf l (p.fetch now l ts (scratch.take size)).2 else ⟨none, none⟩

end Pair

namespace Session

/-- What the calls of a tick hand on, in their order, up to the first one that fails. -/
def handedPairs (now : Nat) (ts : UInt64) : List (Pair σ) → List UInt8 → List Handover
  | [], _ => []
  | p :: rest, scratch =>
    let toA := p.handed now .a ts scratch
    match p.writeLeg now .a ts scratch with
    | (_, _, .error _) => [toA]
    | (p, scratch, .ok _) =>
      let toB := p.handed now .b ts scratch
      match p.writeLeg now .b ts scratch with
      | (_, _, .error _) => [toA, toB]
      | (_, scratch, .ok _) => toA :: toB :: handedPairs now ts rest scratch

/-- What a session hands on in a tick. -/
def handed (s : Session σ) (now : Nat) (ts : UInt64) (scratch : List UInt8) : List Handover :=
  handedPairs now ts s.pairs scratch

end Session

/-! ### What is heard and put -/

theorem map_hear_none (ts : UInt64) (d : Option Dtmf.Detector) : d.map (hear ts none) = d := by
  cases d <;> rfl

/-- The key detector of a leg that is listened to hears what was read. -/
theorem LegMedia.detector_listen (m : LegMedia σ) (now : Nat) (ts : UInt64) (frame : List UInt8) :
    (m.listen now ts frame).1.detector =
      m.detector.map (hear ts (pieceOf (m.listen now ts frame).2)) := by
  unfold listen
  rcases MediaStream.read m.stream now frame with ⟨s, frame', f | n⟩
  · exact (map_hear_none ts _).symm
  · cases n with
    | zero => simp only [if_true, pieceOf, map_hear_none, Option.map_id']
    | succ n => rfl

namespace Pair

omit [MediaStream σ] in
theorem detector_setStream (p : Pair σ) (l : Leg) (s : σ) (k : Leg) :
    ((p.setStream l s).leg k).detector = (p.leg k).detector := by
  cases l <;> cases k <;> rfl

omit [MediaStream σ] in
theorem stream_setLeg_across (p : Pair σ) (l : Leg) (m : LegMedia σ) :
    (p.setLeg l.opposite m).stream l = p.stream l := by
  cases l <;> rfl

theorem detector_gate (p : Pair σ) (l : Leg) (ts : UInt64) (size : Nat) (k : Leg) :
    ((p.gate l ts size).1.leg k).detector = (p.leg k).detector := by
  unfold gate
  split
  · exact detector_setStream _ _ _ _
  · rfl

theorem stream_fetch (p : Pair σ) (now : Nat) (l : Leg) (ts : UInt64) (frame : List UInt8) :
    (p.fetch now l ts frame).1.stream l = p.stream l := by
  unfold fetch
  split
  · rw [stream, leg_setLeg_self]
    rfl
  · rcases MediaStream.pollRead (p.stream l.opposite) ts frame.length with ⟨s, due⟩
    cases due with
    | false => exact stream_setLeg_across p l _
    | true => exact (stream_setLeg_across _ l _).trans (stream_setLeg_across p l _)

omit [MediaStream σ] in
theorem map_hear_handedOf (p : Pair σ) (l : Leg) (ts : UInt64) (r : List UInt8 × Outcome Nat) :
    (p.leg l.opposite).detector.map (hear ts (p.handedOf l r).heard) =
      (p.leg l.opposite).detector.map
        (hear ts (if p.hasAlternate l then none else pieceOf r)) := by
  unfold handedOf hasDetector
  cases (p.leg l.opposite).detector with
  | none => rfl
  | some d => simp

/-- A fetch lets the other leg's key detector hear what comes from that leg's stream. -/
theorem detector_fetch (p : Pair σ) (now : Nat) (l : Leg) (ts : UInt64) (frame : List UInt8) :
    ((p.fetch now l ts frame).1.leg l).detector = (p.leg l).detector ∧
      ((p.fetch now l ts frame).1.leg l.opposite).detector = (p.leg l.opposite).detector.map
        (hear ts (p.handedOf l (p.fetch now l ts frame).2).heard) := by
  unfold fetch
  split
  · next feed hfeed =>
    have halternate : p.hasAlternate l = true := by rw [hasAlternate, hfeed, Option.isSome_some]
    rw [map_hear_handedOf, if_pos halternate, map_hear_none]
    cases l <;> exact ⟨rfl, rfl⟩
  · next hnofeed =>
    have halternate : ¬ p.hasAlternate l = true := by simp [hasAlternate, hnofeed]
    rw [map_hear_handedOf, if_neg halternate]
    rcases MediaStream.pollRead (p.stream l.opposite) ts frame.length with ⟨s, due⟩
    have hpolled (k : Leg) := detector_setStream p l.opposite s k
    cases due with
    | false => exact ⟨hpolled l, (hpolled _).trans (map_hear_none ts _).symm⟩
    | true =>
      simp only [if_true]
      refine ⟨?_, ?_⟩
      · rw [← hpolled l]
        cases l <;> rfl
      · rw [leg_setLeg_self, LegMedia.detector_listen, hpolled]

/-- The pair after a frame of a size that is due was moved to a leg, the scratch buffer, and the
number of bytes written. -/
def move (p : Pair σ) (now : Nat) (l : Leg) (ts : UInt64) (size : Nat) (scratch : List UInt8) :
    Pair σ × List UInt8 × Outcome Nat :=
  match p.fetch now l ts (scratch.take size) with
  | (p, frame, .error f) => (p, frame ++ scratch.drop size, .error f)
  | (p, frame, .ok 0) => (p, frame ++ scratch.drop size, .ok 0)
  | (p, frame, .ok (n + 1)) =>
    ((p.put l (frame.take (n + 1))).1, frame ++ scratch.drop size,
      (p.put l (frame.take (n + 1))).2)

/-- A call moves a frame if the send gate opens. -/
theorem writeLeg_eq (p : Pair σ) (now : Nat) (l : Leg) (ts : UInt64) (scratch : List UInt8) :
    p.writeLeg now l ts scratch =
      let size := p.sizeFor l scratch.length
      let (p, due) := p.gate l ts size
      if due then p.move now l ts size scratch else (p, scratch, .ok 0) := by
  unfold writeLeg gate
  rw [← sizeFor]
  dsimp only
  by_cases hready : (p.isLinked l && decide (p.sizeFor l scratch.length ≠ 0)) = true
  · rw [if_pos hready, if_pos hready]
    rcases MediaStream.pollSend (p.stream l) ts (p.sizeFor l scratch.length) with ⟨s, due⟩
    cases due with
    | false => rfl
    | true =>
      simp only [if_true, move]
      rcases (p.setStream l s).fetch now l ts (scratch.take (p.sizeFor l scratch.length)) with
        ⟨p', frame, f | n⟩
      · rfl
      · cases n <;> rfl
  · rw [if_neg hready, if_neg hready]
    rfl

theorem scratch_move (p : Pair σ) (now : Nat) (l : Leg) (ts : UInt64) (size : Nat)
    (scratch : List UInt8) : (p.move now l ts size scratch).2.1 =
      (p.fetch now l ts (scratch.take size)).2.1 ++ scratch.drop size := by
  unfold move
  split <;> next hfetch => rw [hfetch]

/-- A frame that is moved is put to the stream of the leg, as far as it was read. -/
theorem stream_move (p : Pair σ) (now : Nat) (l : Leg) (ts : UInt64) (size : Nat)
    (scratch : List UInt8) : (p.move now l ts size scratch).1.stream l =
      putPiece (pieceOf (p.fetch now l ts (scratch.take size)).2) (p.stream l) := by
  rw [← stream_fetch p now l ts (scratch.take size)]
  unfold move
  rcases p.fetch now l ts (scratch.take size) with ⟨p', frame, f | n⟩
  · rfl
  · cases n with
    | zero => rfl
    | succ n => exact congrArg LegMedia.stream (leg_setLeg_self _ _ _)

theorem detector_move (p : Pair σ) (now : Nat) (l : Leg) (ts : UInt64) (size : Nat)
    (scratch : List UInt8) (k : Leg) : ((p.move now l ts size scratch).1.leg k).detector =
      ((p.fetch now l ts (scratch.take size)).1.leg k).detector := by
  unfold move
  rcases p.fetch now l ts (scratch.take size) with ⟨p', frame, f | n⟩
  · rfl
  · cases n with
    | zero => rfl
    | succ n => exact detector_setStream _ _ _ _

/-- The key detector of the other leg hears what is handed on to it, and the one of the leg that is
written to hears nothing. -/
theorem detector_writeLeg (p : Pair σ) (now : Nat) (l : Leg) (ts : UInt64) (scratch : List UInt8) :
    ((p.writeLeg now l ts scratch).1.leg l).detector = (p.leg l).detector ∧
      ((p.writeLeg now l ts scratch).1.leg l.opposite).detector =
        (p.leg l.opposite).detector.map (hear ts (p.handed now l ts scratch).heard) := by
  have hgate := detector_gate p l ts (p.sizeFor l scratch.length)
  rw [writeLeg_eq, handed]
  dsimp only
  split
  · rw [detector_move, detector_move, ← hgate l, ← hgate l.opposite]
    exact detector_fetch _ now l ts _
  · exact ⟨hgate l, (hgate l.opposite).trans (map_hear_none ts _).symm⟩

/-- To the stream of the leg is put what is handed on to it, and nothing else. -/
theorem stream_writeLeg (p : Pair σ) (now : Nat) (l : Leg) (ts : UInt64) (scratch : List UInt8) :
    (p.writeLeg now l ts scratch).1.stream l =
      putPiece (p.handed now l ts scratch).put
        ((p.gate l ts (p.sizeFor l scratch.length)).1.stream l) := by
  rw [writeLeg_eq, handed]
  dsimp only
  split
  · exact stream_move _ now l ts _ scratch
  · rfl

end Pair

/-! ## Calls -/

variable [BlindStream σ]

theorem LegMedia.length_listen (m : LegMedia σ) (now : Nat) (ts : UInt64) (frame : List UInt8) :
    (m.listen now ts frame).2.1.length = frame.length := by
  rw [← BlindStream.length_read m.stream now frame]
  unfold listen
  split <;> next hread => rw [hread]

theorem LegMedia.listen_same (m : LegMedia σ) (now : Nat) (ts : UInt64) {frame frame' : List UInt8}
    (h : frame.length = frame'.length) :
    SameRead (m.listen now ts frame) (m.listen now ts frame') := by
  unfold listen
  rcases (BlindStream.read_same m.stream now h).cases with
    ⟨stream, f, buffer, buffer', hread, hread'⟩ |
    ⟨stream, n, buffer, buffer', hread, hread', hfront⟩
  · rw [hread, hread']
    exact SameRead.error _ _ _ _
  · rw [hread, hread']
    simp only [hfront]
    exact SameRead.ok hfront

namespace Pair

theorem length_fetch (p : Pair σ) (now : Nat) (l : Leg) (ts : UInt64) (frame : List UInt8) :
    (p.fetch now l ts frame).2.1.length = frame.length := by
  unfold fetch
  split
  · exact Audio.Source.length_read _ _
  · dsimp only
    split
    · exact LegMedia.length_listen _ _ _ _
    · rfl

theorem fetch_same (p : Pair σ) (now : Nat) (l : Leg) (ts : UInt64) {frame frame' : List UInt8}
    (h : frame.length = frame'.length) :
    SameRead (p.fetch now l ts frame) (p.fetch now l ts frame') := by
  unfold fetch
  split
  · next feed _ =>
    obtain ⟨⟨hstate, houtcome⟩, hfront⟩ := feed.source.read_same h
    exact ⟨⟨by simp only [hstate], houtcome⟩, hfront⟩
  · rw [← h]
    rcases MediaStream.pollRead (p.stream l.opposite) ts frame.length with ⟨s, due⟩
    cases due with
    | false => exact ⟨⟨rfl, rfl⟩, fun n hn => by obtain rfl := Except.ok.inj hn; rfl⟩
    | true =>
      obtain ⟨⟨hstate, houtcome⟩, hfront⟩ :=
        ((p.setStream l.opposite s).leg l.opposite).listen_same now ts h
      exact ⟨⟨by simp only [if_true, hstate], houtcome⟩, hfront⟩

/-- A call leaves the scratch buffer its length. -/
theorem length_writeLeg (p : Pair σ) (now : Nat) (l : Leg) (ts : UInt64) (scratch : List UInt8) :
    (p.writeLeg now l ts scratch).2.1.length = scratch.length := by
  rw [writeLeg_eq]
  dsimp only
  split
  · rw [scratch_move, List.length_append, length_fetch, ← List.length_append,
      List.take_append_drop]
  · rfl

theorem move_same (p : Pair σ) (now : Nat) (l : Leg) (ts : UInt64) (size : Nat)
    {scratch scratch' : List UInt8} (h : scratch.length = scratch'.length) :
    SameCall (p.move now l ts size scratch) (p.move now l ts size scratch') := by
  have hframe : (scratch.take size).length = (scratch'.take size).length := by
    rw [List.length_take, List.length_take, h]
  unfold move
  rcases (p.fetch_same now l ts hframe).cases with
    ⟨p', f, frame, frame', hfetch, hfetch'⟩ | ⟨p', n, frame, frame', hfetch, hfetch', hpcm⟩
  · rw [hfetch, hfetch']
    exact ⟨rfl, rfl⟩
  · rw [hfetch, hfetch']
    cases n with
    | zero => exact ⟨rfl, rfl⟩
    | succ n =>
      simp only [hpcm]
      exact ⟨rfl, rfl⟩

/-- A call in two runs. -/
theorem writeLeg_same (p : Pair σ) (now : Nat) (l : Leg) (ts : UInt64)
    {scratch scratch' : List UInt8} (h : scratch.length = scratch'.length) :
    SameCall (p.writeLeg now l ts scratch) (p.writeLeg now l ts scratch') := by
  rw [writeLeg_eq, writeLeg_eq, h]
  dsimp only
  split
  · exact move_same _ now l ts _ h
  · exact ⟨rfl, rfl⟩

theorem writeLeg_exists (p : Pair σ) (now : Nat) (l : Leg) (ts : UInt64)
    {scratch scratch' : List UInt8} (h : scratch.length = scratch'.length) :
    ∃ p' r left left', p.writeLeg now l ts scratch = (p', left, r) ∧
      p.writeLeg now l ts scratch' = (p', left', r) ∧ left.length = left'.length := by
  obtain ⟨p', r, left, left', hcall, hcall'⟩ := (p.writeLeg_same now l ts h).exists
  have hlength := p.length_writeLeg now l ts scratch
  have hlength' := p.length_writeLeg now l ts scratch'
  rw [hcall] at hlength
  rw [hcall'] at hlength'
  exact ⟨p', r, left, left', hcall, hcall', hlength.trans (h.trans hlength'.symm)⟩

theorem length_tick (p : Pair σ) (now : Nat) (ts : UInt64) (scratch : List UInt8) :
    (p.tick now ts scratch).2.1.length = scratch.length := by
  have hfirst := p.length_writeLeg now .a ts scratch
  rw [tick]
  rcases hr : p.writeLeg now .a ts scratch with ⟨p', scratch', f | n⟩ <;> rw [hr] at hfirst
  · exact hfirst
  · have hsecond := p'.length_writeLeg now .b ts scratch'
    dsimp only
    rcases hr' : p'.writeLeg now .b ts scratch' with ⟨p'', scratch'', f | n⟩ <;>
      rw [hr'] at hsecond <;> exact hsecond.trans hfirst

/-- What a call hands on in two runs. -/
theorem handed_same (p : Pair σ) (now : Nat) (l : Leg) (ts : UInt64)
    {scratch scratch' : List UInt8} (h : scratch.length = scratch'.length) :
    p.handed now l ts scratch = p.handed now l ts scratch' := by
  have hframe (size : Nat) : (scratch.take size).length = (scratch'.take size).length := by
    rw [List.length_take, List.length_take, h]
  unfold handed
  rw [h]
  dsimp only
  split
  · rcases ((p.gate l ts _).1.fetch_same now l ts (hframe _)).cases with
      ⟨p', f, frame, frame', hfetch, hfetch'⟩ | ⟨p', n, frame, frame', hfetch, hfetch', hpcm⟩
    · rw [hfetch, hfetch']
      rfl
    · rw [hfetch, hfetch']
      cases n with
      | zero => rfl
      | succ n => simp only [handedOf, pieceOf, hpcm]
  · rfl

end Pair

/-! ## Ticks -/

namespace Session

theorem length_writePairs (now : Nat) (ts : UInt64) (ps : List (Pair σ)) (scratch : List UInt8) :
    (writePairs now ts ps scratch).2.1.length = scratch.length := by
  induction ps generalizing scratch with
  | nil => rfl
  | cons p ps ih =>
    have hfirst := p.length_tick now ts scratch
    rw [writePairs]
    rcases hr : p.tick now ts scratch with ⟨p', scratch', f | u⟩ <;> rw [hr] at hfirst
    · exact hfirst
    · exact (ih scratch').trans hfirst

/-- The frames of a tick in two runs. -/
theorem writePairs_same (now : Nat) (ts : UInt64) (ps : List (Pair σ))
    {scratch scratch' : List UInt8} (h : scratch.length = scratch'.length) :
    SameCall (writePairs now ts ps scratch) (writePairs now ts ps scratch') ∧
      handedPairs now ts ps scratch = handedPairs now ts ps scratch' := by
  induction ps generalizing scratch scratch' with
  | nil => exact ⟨⟨rfl, rfl⟩, rfl⟩
  | cons p ps ih =>
    obtain ⟨p₁, r₁, scratch₁, scratch₁', hfirst, hfirst', h₁⟩ := p.writeLeg_exists now .a ts h
    rw [writePairs, writePairs, Pair.tick, Pair.tick, handedPairs, handedPairs,
      p.handed_same now .a ts h, hfirst, hfirst']
    cases r₁ with
    | error f => exact ⟨⟨rfl, rfl⟩, rfl⟩
    | ok n =>
      obtain ⟨p₂, r₂, scratch₂, scratch₂', hsecond, hsecond', h₂⟩ :=
        p₁.writeLeg_exists now .b ts h₁
      dsimp only
      rw [p₁.handed_same now .b ts h₁, hsecond, hsecond']
      cases r₂ with
      | error f => exact ⟨⟨rfl, rfl⟩, rfl⟩
      | ok m =>
        obtain ⟨⟨hrest, hend⟩, hhanded⟩ := ih h₂
        exact ⟨⟨congrArg (p₂ :: ·) hrest, hend⟩, congrArg (fun l => _ :: _ :: l) hhanded⟩

/-- A tick of a session in two runs. -/
theorem writeStreams_same (s : Session σ) (now : Nat) (ts : UInt64)
    {scratch scratch' : List UInt8} (h : scratch.length = scratch'.length) :
    SameCall (s.writeStreams now ts scratch) (s.writeStreams now ts scratch') := by
  obtain ⟨⟨hstate, hend⟩, -⟩ := writePairs_same now ts s.pairs h
  exact ⟨congrArg (fun pairs => { s with pairs }) hstate, hend⟩

end Session

end CallBridge.Bridge
