import CallBridge.Proofs.Audio.InPlace
import CallBridge.Proofs.Bridge.ScratchRuns

/-!
# A tick in place

The frame that a call moves is a window on the scratch buffer. Its source fills the window from the
front, and what was filled is cut out of it again to be heard and to be put. The calls of a tick are
written here once more with every cut checked and with the sources read piece by piece.

Results:
* `Source.fits_read`, `AudioStream.fits_read`, `Pair.fits_fetch`: a read tells no more bytes than
  its frame holds.
* `Pair.FedSoundly.writeLeg`: a call keeps the ring buffers that the legs are fed from sound.
* `Pair.writeLegChecked_eq`, `Session.writeStreamsChecked_eq`: no call of a tick cuts outside its
  bytes, and in place it does what it does at once.
-/

namespace CallBridge

open Buffer (slice? slice?_eq fillSlice? fillSlice?_eq)

/-! ## What a read tells -/

namespace Audio

/-- A read tells no more bytes than its frame holds. -/
def Fits (x : List UInt8 × Outcome Nat) : Prop := ∀ n, x.2 = .ok n → n ≤ x.1.length

theorem Fits.ok {frame : List UInt8} {n : Nat} (h : n ≤ frame.length) : Fits (frame, .ok n) := by
  intro m hm
  obtain rfl : n = m := Except.ok.inj hm
  exact h

theorem Fits.error (frame : List UInt8) (f : Fault) : Fits (frame, .error f) := by
  intro m hm
  cases hm

theorem Source.fits_read (s : Source) (out : List UInt8) : Fits (s.read out).2 := by
  unfold read
  split
  · next htake =>
    refine Fits.ok ?_
    rw [length_overlay (length_take_le htake)]
    exact length_take_le htake
  · exact Fits.error _ _

theorem Source.Sound.read {s : Source} (h : s.Sound) (out : List UInt8) :
    (s.read out).1.Sound := by
  cases s with
  | recording r => trivial
  | buffered r => exact Buffer.Ring.Sound.takeOldest h out.length
  | broken reason => trivial

end Audio

theorem Rtp.AudioStream.fits_read (s : AudioStream) (now : Nat) (out : List UInt8) :
    Audio.Fits (s.read now out).2 := by
  unfold read
  split
  · next htake =>
    refine Audio.Fits.ok ?_
    rw [Audio.length_overlay (length_take_le htake)]
    exact length_take_le htake
  · exact Audio.Fits.error _ _

namespace Bridge

open Rtp (AudioStream MediaStream)

/-! ## Listening -/

namespace LegMedia

theorem fits_listen (m : LegMedia AudioStream) (now : Nat) (ts : UInt64) (frame : List UInt8) :
    Audio.Fits (m.listen now ts frame).2 := by
  have hfits : Audio.Fits (MediaStream.read m.stream now frame).2 :=
    m.stream.fits_read now frame
  unfold listen
  split
  · exact Audio.Fits.error _ _
  · next hread =>
    rw [hread] at hfits
    exact Audio.Fits.ok (hfits _ rfl)

theorem alternate_listen (m : LegMedia AudioStream) (now : Nat) (ts : UInt64)
    (frame : List UInt8) : (m.listen now ts frame).1.alternate = m.alternate := by
  unfold listen
  split <;> rfl

/-- The media after a leg's audio was read into a frame in place and its part of the frame was cut
out for the key detector, the frame, and the number of bytes read. -/
def listenChecked (m : LegMedia AudioStream) (now : Nat) (ts : UInt64) (frame : List UInt8) :
    Option (LegMedia AudioStream × List UInt8 × Outcome Nat) := do
  let (stream, frame, r) ← m.stream.readChecked now frame
  match r with
  | .error f => return ({ m with stream }, frame, .error f)
  | .ok got =>
    let pcm ← slice? frame 0 got
    let hear (d : Dtmf.Detector) := if got = 0 then d else d.process d.tones ts pcm
    return ({ m with stream, detector := m.detector.map hear }, frame, .ok got)

theorem listenChecked_eq (m : LegMedia AudioStream) (now : Nat) (ts : UInt64)
    (frame : List UInt8) : m.listenChecked now ts frame = some (m.listen now ts frame) := by
  have hfits := m.stream.fits_read now frame
  rw [listenChecked, m.stream.readChecked_eq, listen,
    show MediaStream.read m.stream now frame = m.stream.read now frame from rfl]
  generalize m.stream.read now frame = got at hfits ⊢
  obtain ⟨stream, frame', f | n⟩ := got
  · rfl
  · have hcut := slice?_eq frame' (Nat.zero_le n) (hfits n rfl)
    simp only [Option.bind_eq_bind, Option.bind_some, hcut, List.drop_zero, Option.pure_def]

end LegMedia

namespace Pair

/-! ## Sound sources -/

/-- The ring buffers that the legs are fed from are sound. -/
def FedSoundly {σ : Type} (p : Pair σ) : Prop :=
  ∀ l, ∀ feed ∈ (p.leg l).alternate, feed.source.Sound

variable {p : Pair AudioStream}

theorem FedSoundly.setLeg (h : p.FedSoundly) (l : Leg) {m : LegMedia AudioStream}
    (hm : ∀ feed ∈ m.alternate, feed.source.Sound) : (p.setLeg l m).FedSoundly := by
  intro k
  rcases l.eq_or_eq_opposite k with rfl | rfl
  · rwa [leg_setLeg_self]
  · rw [leg_setLeg_opposite]
    exact h _

theorem FedSoundly.setStream (h : p.FedSoundly) (l : Leg) (s : AudioStream) :
    (p.setStream l s).FedSoundly := h.setLeg l (h l)

theorem FedSoundly.listen (h : p.FedSoundly) (now : Nat) (l : Leg) (ts : UInt64)
    (frame : List UInt8) : (p.setLeg l ((p.leg l).listen now ts frame).1).FedSoundly := by
  refine h.setLeg l ?_
  rw [LegMedia.alternate_listen]
  exact h l

theorem FedSoundly.fetch (h : p.FedSoundly) (now : Nat) (l : Leg) (ts : UInt64)
    (frame : List UInt8) : (p.fetch now l ts frame).1.FedSoundly := by
  unfold Pair.fetch
  split
  · next feed hfeed =>
    refine h.setLeg l fun other hother => ?_
    obtain rfl := Option.some.inj hother
    exact (h l feed hfeed).read frame
  · rcases MediaStream.pollRead (p.stream l.opposite) ts frame.length with ⟨s, due⟩
    have hpolled := h.setStream l.opposite s
    cases due with
    | false => exact hpolled
    | true => exact hpolled.listen now l.opposite ts frame

theorem FedSoundly.gate (h : p.FedSoundly) (l : Leg) (ts : UInt64) (size : Nat) :
    (p.gate l ts size).1.FedSoundly := by
  unfold Pair.gate
  split
  · exact h.setStream l _
  · exact h

theorem FedSoundly.move (h : p.FedSoundly) (now : Nat) (l : Leg) (ts : UInt64) (size : Nat)
    (scratch : List UInt8) : (p.move now l ts size scratch).1.FedSoundly := by
  have hfetch := h.fetch now l ts (scratch.take size)
  unfold Pair.move
  generalize p.fetch now l ts (scratch.take size) = fetched at hfetch ⊢
  obtain ⟨p', frame, f | n⟩ := fetched
  · exact hfetch
  · cases n with
    | zero => exact hfetch
    | succ n => exact hfetch.setStream l _

/-- A call keeps the ring buffers that the legs are fed from sound. -/
theorem FedSoundly.writeLeg (h : p.FedSoundly) (now : Nat) (l : Leg) (ts : UInt64)
    (scratch : List UInt8) : (p.writeLeg now l ts scratch).1.FedSoundly := by
  rw [writeLeg_eq]
  dsimp only
  split
  · exact (h.gate l ts _).move now l ts _ scratch
  · exact h.gate l ts _

/-! ## Calls -/

theorem fits_fetch (p : Pair AudioStream) (now : Nat) (l : Leg) (ts : UInt64)
    (frame : List UInt8) : Audio.Fits (p.fetch now l ts frame).2 := by
  unfold fetch
  split
  · exact Audio.Source.fits_read _ frame
  · rcases MediaStream.pollRead (p.stream l.opposite) ts frame.length with ⟨s, due⟩
    cases due with
    | false => exact Audio.Fits.ok (Nat.zero_le _)
    | true => exact LegMedia.fits_listen _ now ts frame

/-- The pair after a frame for a leg was read in place, the frame, and the number of bytes read. -/
def fetchChecked (p : Pair AudioStream) (now : Nat) (l : Leg) (ts : UInt64) (frame : List UInt8) :
    Option (Pair AudioStream × List UInt8 × Outcome Nat) :=
  match (p.leg l).alternate with
  | some feed => do
    let (source, frame, got) ← feed.source.readChecked frame
    return (p.setLeg l { p.leg l with alternate := some { feed with source } }, frame, got)
  | none =>
    let (s, due) := MediaStream.pollRead (p.stream l.opposite) ts frame.length
    let p := p.setStream l.opposite s
    if due then do
      let (m, frame, got) ← (p.leg l.opposite).listenChecked now ts frame
      return (p.setLeg l.opposite m, frame, got)
    else some (p, frame, .ok 0)

theorem fetchChecked_eq (h : p.FedSoundly) (now : Nat) (l : Leg) (ts : UInt64)
    (frame : List UInt8) : p.fetchChecked now l ts frame = some (p.fetch now l ts frame) := by
  unfold fetchChecked fetch
  cases hfeed : (p.leg l).alternate with
  | some feed =>
    simp only [Audio.Source.readChecked_eq (h l feed hfeed), Option.bind_eq_bind,
      Option.bind_some, Option.pure_def]
  | none =>
    rcases MediaStream.pollRead (p.stream l.opposite) ts frame.length with ⟨s, due⟩
    cases due with
    | false => rfl
    | true =>
      simp only [if_true, LegMedia.listenChecked_eq]
      rfl

/-- The pair after a frame was moved to a leg if one is due, in a window that is cut out of the
scratch buffer, the scratch buffer, and the number of bytes written. -/
def writeLegChecked (p : Pair AudioStream) (now : Nat) (l : Leg) (ts : UInt64)
    (scratch : List UInt8) : Option (Pair AudioStream × List UInt8 × Outcome Nat) :=
  let size := p.sizeFor l scratch.length
  let (p, due) := p.gate l ts size
  if due then do
    let window ← slice? scratch 0 size
    let (p, frame, got) ← p.fetchChecked now l ts window
    let scratch ← fillSlice? scratch 0 size frame
    match got with
    | .error f => return (p, scratch, .error f)
    | .ok 0 => return (p, scratch, .ok 0)
    | .ok (n + 1) =>
      let pcm ← slice? frame 0 (n + 1)
      return ((p.put l pcm).1, scratch, (p.put l pcm).2)
  else some (p, scratch, .ok 0)

/-- With sound ring buffers, a call in place cuts nothing outside its bytes. -/
theorem writeLegChecked_eq (h : p.FedSoundly) (now : Nat) (l : Leg) (ts : UInt64)
    (scratch : List UInt8) :
    p.writeLegChecked now l ts scratch = some (p.writeLeg now l ts scratch) := by
  have hsize : p.sizeFor l scratch.length ≤ scratch.length := Nat.min_le_right _ _
  rw [writeLegChecked, writeLeg_eq]
  generalize p.sizeFor l scratch.length = size at hsize ⊢
  have hgate := h.gate l ts size
  dsimp only
  split
  · have hwindow := slice?_eq scratch (Nat.zero_le size) hsize
    have hlength := length_fetch (p.gate l ts size).1 now l ts (scratch.take size)
    have hfits := fits_fetch (p.gate l ts size).1 now l ts (scratch.take size)
    have hback := fillSlice?_eq scratch (Nat.zero_le size) hsize
      (hlength.trans (List.length_take_of_le hsize))
    simp only [hwindow, Option.bind_eq_bind, Option.bind_some, List.drop_zero,
      fetchChecked_eq hgate, hback, move]
    generalize (p.gate l ts size).1.fetch now l ts (scratch.take size) = fetched at hfits ⊢
    obtain ⟨p', frame, f | n⟩ := fetched
    · rfl
    · cases n with
      | zero => rfl
      | succ n =>
        have hcut := slice?_eq frame (Nat.zero_le (n + 1)) (hfits _ rfl)
        simp only [hcut, Option.bind_some, List.drop_zero]
        rfl
  · rfl

/-- The pair after a frame was moved to both legs in place, the scratch buffer, and the first
failure. -/
def tickChecked (p : Pair AudioStream) (now : Nat) (ts : UInt64) (scratch : List UInt8) :
    Option (Pair AudioStream × List UInt8 × Outcome Unit) := do
  match ← p.writeLegChecked now .a ts scratch with
  | (p, scratch, .error f) => return (p, scratch, .error f)
  | (p, scratch, .ok _) =>
    match ← p.writeLegChecked now .b ts scratch with
    | (p, scratch, .error f) => return (p, scratch, .error f)
    | (p, scratch, .ok _) => return (p, scratch, .ok ())

theorem tickChecked_eq (h : p.FedSoundly) (now : Nat) (ts : UInt64) (scratch : List UInt8) :
    p.tickChecked now ts scratch = some (p.tick now ts scratch) := by
  have hfirst := h.writeLeg now .a ts scratch
  rw [tickChecked, writeLegChecked_eq h, tick, Option.bind_eq_bind, Option.bind_some]
  generalize p.writeLeg now .a ts scratch = first at hfirst ⊢
  obtain ⟨p₁, scratch₁, f | n⟩ := first
  · rfl
  dsimp only
  rw [writeLegChecked_eq hfirst, Option.bind_some]
  rcases p₁.writeLeg now .b ts scratch₁ with ⟨p₂, scratch₂, f | n⟩ <;> rfl

end Pair

/-! ## Ticks -/

namespace Session

/-- The pairs after a frame was moved to each of the legs in them in place, the scratch buffer, and
the first failure. -/
def writePairsChecked (now : Nat) (ts : UInt64) :
    List (Pair AudioStream) → List UInt8 →
      Option (List (Pair AudioStream) × List UInt8 × Outcome Unit)
  | [], scratch => some ([], scratch, .ok ())
  | p :: rest, scratch => do
    match ← p.tickChecked now ts scratch with
    | (p, scratch, .error f) => return (p :: rest, scratch, .error f)
    | (p, scratch, .ok ()) =>
      let (rest, scratch, r) ← writePairsChecked now ts rest scratch
      return (p :: rest, scratch, r)

/-- The session after the frames that are due were moved in place, the scratch buffer, and the first
failure. -/
def writeStreamsChecked (s : Session AudioStream) (now : Nat) (ts : UInt64)
    (scratch : List UInt8) : Option (Session AudioStream × List UInt8 × Outcome Unit) := do
  let (pairs, scratch, r) ← writePairsChecked now ts s.pairs scratch
  return ({ s with pairs }, scratch, r)

theorem writePairsChecked_eq (now : Nat) (ts : UInt64) {ps : List (Pair AudioStream)}
    (h : ∀ p ∈ ps, p.FedSoundly) (scratch : List UInt8) :
    writePairsChecked now ts ps scratch = some (writePairs now ts ps scratch) := by
  induction ps generalizing scratch with
  | nil => rfl
  | cons p ps ih =>
    obtain ⟨hp, hps⟩ := List.forall_mem_cons.1 h
    rw [writePairsChecked, Pair.tickChecked_eq hp, writePairs, Option.bind_eq_bind,
      Option.bind_some]
    rcases p.tick now ts scratch with ⟨p', scratch', f | u⟩
    · rfl
    · dsimp only
      rw [ih hps]
      rfl

/-- With sound ring buffers, no call of a tick cuts outside its bytes. -/
theorem writeStreamsChecked_eq {s : Session AudioStream} (h : ∀ p ∈ s.pairs, p.FedSoundly)
    (now : Nat) (ts : UInt64) (scratch : List UInt8) :
    s.writeStreamsChecked now ts scratch = some (s.writeStreams now ts scratch) := by
  rw [writeStreamsChecked, writePairsChecked_eq now ts h]
  rfl

end Session

end Bridge

end CallBridge
