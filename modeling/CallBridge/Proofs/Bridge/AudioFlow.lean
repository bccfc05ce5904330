import CallBridge.Bridge.Session
import CallBridge.Rehearsal.ScriptedStream

/-!
# No audio is lost on its way

Frames are moved to both legs of a pair tick after tick, while audio comes in for the streams and
alternate sources are put in and taken out. The streams are those that queue received audio byte by
byte and hand it out in order; when their gates open is left to them.

A call that moves a frame is described by the pair before and after it. What it pulled is seen at
the sources: the bytes that left the queue of the other leg's stream, or what the alternate source
hands out for a frame.

Results:
* `fetch_ok`, `put_ok`, `writeLeg_ok`: everything that a call which does not fail can do.
* `sourced_call`: what a call pulled is put, and it was pulled where it may be.
* `Accounted.step`, `Accounted.run`: calls and audio that came in account for what both legs show.
* `audio_conserved`: over a whole run what is put to a leg is what was pulled for it, and without
  alternate sources nothing that came in is lost.
-/

namespace CallBridge.Rtp

/-- A stream whose received audio is a queue of bytes that are handed out in order. Only calls that
do not fail are bound by this. -/
class QueueStream (σ : Type) [MediaStream σ] where
  /-- The received audio that was not handed out yet. -/
  queued : σ → List UInt8
  /-- The audio put to the stream so far. -/
  written : σ → List UInt8
  /-- The stream after audio came in. -/
  feed : σ → List UInt8 → σ
  queued_feed : ∀ s data, queued (feed s data) = queued s ++ data
  written_feed : ∀ s data, written (feed s data) = written s
  pollSend_keeps : ∀ s ts size, queued (MediaStream.pollSend s ts size).1 = queued s ∧
    written (MediaStream.pollSend s ts size).1 = written s
  pollRead_keeps : ∀ s ts size, queued (MediaStream.pollRead s ts size).1 = queued s ∧
    written (MediaStream.pollRead s ts size).1 = written s
  read_ok : ∀ {s s' now out buffer n}, MediaStream.read s now out = (s', buffer, .ok n) →
    buffer.take n = (queued s).take n ∧ queued s' = (queued s).drop n ∧ written s' = written s
  put_ok : ∀ {s s' pcm n}, MediaStream.put s pcm = (s', .ok n) →
    queued s' = queued s ∧ written s' = written s ++ pcm

end CallBridge.Rtp

/-! ## Scripted streams -/

namespace CallBridge.Rehearsal

/-- The audio that an entry of a log tells of. -/
def Entry.audio : Entry → List UInt8
  | .put pcm => pcm
  | _ => []

instance : Rtp.QueueStream ScriptedStream where
  queued s := s.queue
  written s := s.log.flatMap Entry.audio
  feed s data := { s with queue := s.queue ++ data }
  queued_feed _ _ := rfl
  written_feed _ _ := rfl
  pollSend_keeps _ _ _ := ⟨rfl, rfl⟩
  pollRead_keeps _ _ _ := ⟨rfl, rfl⟩
  read_ok := by
    intro s s' now out buffer n h
    change ScriptedStream.read s out = _ at h
    unfold ScriptedStream.read at h
    split at h
    · next bytes hbytes =>
      have htaken : bytes = s.queue.take out.length := by
        unfold ScriptedStream.answer at hbytes
        split at hbytes <;> simp_all
      simp only [Prod.mk.injEq, Except.ok.injEq] at h
      obtain ⟨rfl, rfl, rfl⟩ := h
      rw [Audio.take_overlay, htaken, List.length_take]
      refine ⟨?_, ?_, rfl⟩
      · rcases Nat.le_total out.length s.queue.length with hle | hle
        · rw [Nat.min_eq_left hle]
        · rw [Nat.min_eq_right hle, List.take_of_length_le hle, List.take_length]
      · rcases Nat.le_total out.length s.queue.length with hle | hle
        · rw [Nat.min_eq_left hle]
        · rw [Nat.min_eq_right hle, List.drop_of_length_le hle, List.drop_length]
    · simp at h
  put_ok := by
    intro s s' pcm n h
    change ScriptedStream.put s pcm = _ at h
    unfold ScriptedStream.put at h
    split at h
    · simp only [Prod.mk.injEq] at h
      obtain ⟨rfl, -⟩ := h
      exact ⟨rfl, by simp [ScriptedStream.note, Entry.audio]⟩
    · simp at h

end CallBridge.Rehearsal

namespace CallBridge.Bridge

open Rtp (MediaStream QueueStream)

variable {σ : Type} [MediaStream σ] [QueueStream σ]

/-! ## What a pair shows of its audio -/

/-- What audio leaves its traces on in the media of a leg. -/
structure Reel where
  queued : List UInt8
  written : List UInt8
  alternate : Option Audio.Feed
  initialized : Bool

/-- What the media of a leg shows. -/
def LegMedia.reel (m : LegMedia σ) : Reel :=
  ⟨QueueStream.queued m.stream, QueueStream.written m.stream, m.alternate, m.initialized⟩

/-- Listening to a leg takes the oldest bytes out of its queue. -/
theorem LegMedia.listen_ok {m m' : LegMedia σ} {now n : Nat} {ts : UInt64}
    {frame frame' : List UInt8} (h : m.listen now ts frame = (m', frame', .ok n)) :
    frame'.take n = m.reel.queued.take n ∧
      m'.reel = { m.reel with queued := m.reel.queued.drop n } := by
  unfold listen at h
  split at h
  · simp at h
  · next stream buffer got hread =>
    simp only [Prod.mk.injEq, Except.ok.injEq] at h
    obtain ⟨rfl, rfl, rfl⟩ := h
    obtain ⟨hbytes, hqueued, hwritten⟩ := QueueStream.read_ok hread
    refine ⟨hbytes, ?_⟩
    rw [reel, hqueued, hwritten]
    rfl

namespace Pair

/-- What a leg shows. -/
def reel (p : Pair σ) (l : Leg) : Reel := (p.leg l).reel

@[simp] theorem reel_setLeg_self (p : Pair σ) (l : Leg) (m : LegMedia σ) :
    (p.setLeg l m).reel l = m.reel := by simp [reel]

@[simp] theorem reel_setLeg_opposite (p : Pair σ) (l : Leg) (m : LegMedia σ) :
    (p.setLeg l m).reel l.opposite = p.reel l.opposite := by simp [reel]

@[simp] theorem reel_setLeg_across (p : Pair σ) (l : Leg) (m : LegMedia σ) :
    (p.setLeg l.opposite m).reel l = p.reel l := by
  have h := reel_setLeg_opposite p l.opposite m
  rwa [Leg.opposite_opposite] at h

theorem initialized_of_reel {p p' : Pair σ} {l : Leg}
    (hself : (p'.reel l).initialized = (p.reel l).initialized)
    (hother : (p'.reel l.opposite).initialized = (p.reel l.opposite).initialized) (other : Leg) :
    p'.isInitialized other = p.isInitialized other := by
  rcases l.eq_or_eq_opposite other with rfl | rfl
  · exact hself
  · exact hother

/-- A stream that shows the same audio may take the place of another. -/
theorem reel_setStream {p : Pair σ} {l : Leg} {s : σ}
    (hq : QueueStream.queued s = QueueStream.queued (p.stream l))
    (hw : QueueStream.written s = QueueStream.written (p.stream l)) (other : Leg) :
    (p.setStream l s).reel other = p.reel other := by
  have hself : (p.setStream l s).reel l = p.reel l := by
    rw [setStream, reel_setLeg_self, LegMedia.reel, hq, hw]
    rfl
  rcases l.eq_or_eq_opposite other with rfl | rfl
  · exact hself
  · exact reel_setLeg_opposite _ _ _

/-! ## Pulling and putting -/

/-- The three ways to fetch a frame: from the alternate source, not at all because the gate of the
other leg's stream is shut, and from the queue of that stream. -/
theorem fetch_ok {p p' : Pair σ} {now n : Nat} {l : Leg} {ts : UInt64} {frame frame' : List UInt8}
    (h : p.fetch now l ts frame = (p', frame', .ok n)) :
    (∃ feed source bytes, (p.reel l).alternate = some feed ∧
      feed.source.take frame.length = (source, .ok bytes) ∧ frame'.take n = bytes ∧
      p'.reel l = { p.reel l with alternate := some { feed with source } } ∧
      p'.reel l.opposite = p.reel l.opposite) ∨
    ((p.reel l).alternate = none ∧
      (MediaStream.pollRead (p.stream l.opposite) ts frame.length).2 = false ∧ n = 0 ∧
      p'.reel l = p.reel l ∧ p'.reel l.opposite = p.reel l.opposite) ∨
    ((p.reel l).alternate = none ∧
      (MediaStream.pollRead (p.stream l.opposite) ts frame.length).2 = true ∧
      frame'.take n = (p.reel l.opposite).queued.take n ∧ p'.reel l = p.reel l ∧
      p'.reel l.opposite = { p.reel l.opposite with
        queued := (p.reel l.opposite).queued.drop n }) := by
  unfold fetch at h
  split at h
  · next feed hfeed =>
    left
    rcases htake : feed.source.take frame.length with ⟨source, f | bytes⟩
    · simp [Audio.Source.read, htake] at h
    · simp only [Audio.Source.read, htake, Prod.mk.injEq, Except.ok.injEq] at h
      obtain ⟨rfl, rfl, rfl⟩ := h
      refine ⟨feed, source, bytes, hfeed, htake, Audio.take_overlay _ _, ?_,
        reel_setLeg_opposite _ _ _⟩
      rw [reel_setLeg_self]
      rfl
  · next hnone =>
    right
    obtain ⟨hqueued, hwritten⟩ :=
      QueueStream.pollRead_keeps (p.stream l.opposite) ts frame.length
    have hpolled := reel_setStream (p := p) hqueued hwritten
    rcases hpoll : MediaStream.pollRead (p.stream l.opposite) ts frame.length with ⟨s, due⟩
    rw [hpoll] at hpolled h
    cases due with
    | false =>
      simp only [Bool.false_eq_true, if_false, Prod.mk.injEq, Except.ok.injEq] at h
      obtain ⟨rfl, rfl, rfl⟩ := h
      exact .inl ⟨hnone, rfl, rfl, hpolled l, hpolled l.opposite⟩
    | true =>
      have hstart : ((p.setStream l.opposite s).leg l.opposite).reel = p.reel l.opposite :=
        hpolled l.opposite
      rcases hlisten : ((p.setStream l.opposite s).leg l.opposite).listen now ts frame with
        ⟨m, buffer, got⟩
      simp only [if_true, hlisten, Prod.mk.injEq] at h
      obtain ⟨rfl, rfl, rfl⟩ := h
      obtain ⟨hbytes, hm⟩ := LegMedia.listen_ok hlisten
      rw [hstart] at hbytes hm
      refine .inr ⟨hnone, rfl, hbytes, ?_, ?_⟩
      · rw [reel_setLeg_across]
        exact hpolled l
      · rw [reel_setLeg_self, hm]

/-- What is put to a leg is written to it, and nothing else changes. -/
theorem put_ok {p p' : Pair σ} {l : Leg} {pcm : List UInt8} {n : Nat}
    (h : p.put l pcm = (p', .ok n)) :
    p'.reel l = { p.reel l with written := (p.reel l).written ++ pcm } ∧
      p'.reel l.opposite = p.reel l.opposite := by
  unfold put at h
  rcases hput : MediaStream.put (p.stream l) pcm with ⟨s, r⟩
  rw [hput] at h
  simp only [Prod.mk.injEq] at h
  obtain ⟨rfl, rfl⟩ := h
  obtain ⟨hqueued, hwritten⟩ := QueueStream.put_ok hput
  refine ⟨?_, reel_setLeg_opposite _ _ _⟩
  rw [setStream, reel_setLeg_self, LegMedia.reel, hqueued, hwritten]
  rfl

/-- The size of the frames that are moved to a leg through a scratch buffer. -/
def frameFor (p : Pair σ) (l : Leg) (scratch : List UInt8) : Nat :=
  min (MediaStream.frameSize (p.stream l)) scratch.length

/-- Whether a frame is due for a leg: there is room for one, and the send gate of the leg opens. -/
def isDue (p : Pair σ) (l : Leg) (ts : UInt64) (size : Nat) : Bool :=
  size ≠ 0 && (MediaStream.pollSend (p.stream l) ts size).2

/-- A leg that was negotiated with another one either waits for its send gate, or a frame is fetched
for it and what was fetched is put. -/
theorem writeLeg_ok {p p' : Pair σ} {now n : Nat} {l : Leg} {ts : UInt64}
    {scratch scratch' : List UInt8} (hlinked : p.isLinked l = true)
    (h : p.writeLeg now l ts scratch = (p', scratch', .ok n)) :
    (p.isDue l ts (p.frameFor l scratch) = false ∧ ∀ other, p'.reel other = p.reel other) ∨
    (p.isDue l ts (p.frameFor l scratch) = true ∧
      ∃ (p₁ p₂ : Pair σ) (frame : List UInt8) (got : Nat),
        (∀ other, p₁.reel other = p.reel other) ∧ p₁.stream l.opposite = p.stream l.opposite ∧
        p₁.fetch now l ts (scratch.take (p.frameFor l scratch)) = (p₂, frame, .ok got) ∧
        p'.reel l = { p₂.reel l with written := (p₂.reel l).written ++ frame.take got } ∧
        p'.reel l.opposite = p₂.reel l.opposite) := by
  unfold writeLeg at h
  rw [← frameFor] at h
  simp only [hlinked, Bool.true_and] at h
  by_cases hsize : p.frameFor l scratch = 0
  · simp only [hsize, ne_eq, not_true_eq_false, decide_false, Bool.false_eq_true, if_false,
      Prod.mk.injEq] at h
    obtain ⟨rfl, -, -⟩ := h
    exact .inl ⟨by simp [isDue, hsize], fun _ => rfl⟩
  · obtain ⟨hqueued, hwritten⟩ :=
      QueueStream.pollSend_keeps (p.stream l) ts (p.frameFor l scratch)
    have hpolled := reel_setStream (p := p) hqueued hwritten
    rcases hpoll : MediaStream.pollSend (p.stream l) ts (p.frameFor l scratch) with ⟨s, due⟩
    rw [hpoll] at hpolled
    simp only [hsize, ne_eq, not_false_eq_true, decide_true, if_true, hpoll] at h
    cases due with
    | false =>
      simp only [Bool.false_eq_true, if_false, Prod.mk.injEq] at h
      obtain ⟨rfl, -, -⟩ := h
      exact .inl ⟨by simp [isDue, hpoll], hpolled⟩
    | true =>
      right
      rcases hfetch : (p.setStream l s).fetch now l ts (scratch.take (p.frameFor l scratch)) with
        ⟨p₂, frame, got⟩
      simp only [if_true, hfetch] at h
      have hopposite : (p.setStream l s).stream l.opposite = p.stream l.opposite := by
        simp [setStream, stream]
      refine ⟨by simp [isDue, hsize, hpoll], p.setStream l s, p₂, frame, ?_⟩
      cases got with
      | error f => simp at h
      | ok got =>
        cases got with
        | zero =>
          simp only [Prod.mk.injEq] at h
          obtain ⟨rfl, -, -⟩ := h
          exact ⟨0, hpolled, hopposite, hfetch, by simp, rfl⟩
        | succ k =>
          rcases hput : p₂.put l (frame.take (k + 1)) with ⟨p₃, written⟩
          simp only [hput, Prod.mk.injEq] at h
          obtain ⟨rfl, -, rfl⟩ := h
          obtain ⟨hself, hother⟩ := put_ok hput
          exact ⟨k + 1, hpolled, hopposite, hfetch, hself, hother⟩

end Pair

/-! ## Calls -/

/-- A call to move a frame to a leg: the size of the frame, and the pair before and after it. -/
structure Call (σ : Type) where
  leg : Leg
  ts : UInt64
  size : Nat
  before : Pair σ
  after : Pair σ

namespace Call

/-- Whether a frame is due. -/
def isDue (c : Call σ) : Bool := c.before.isDue c.leg c.ts c.size

/-- Whether the read gate of the other leg's stream opens. -/
def mayRead (c : Call σ) : Bool :=
  (MediaStream.pollRead (c.before.stream c.leg.opposite) c.ts c.size).2

/-- The bytes that left the queue of the other leg's stream. -/
def drawn (c : Call σ) : List UInt8 :=
  (c.before.reel c.leg.opposite).queued.take
    ((c.before.reel c.leg.opposite).queued.length - (c.after.reel c.leg.opposite).queued.length)

/-- The bytes that were pulled for the leg: what the alternate source hands out for a frame that is
due, and without one what left the queue of the other leg's stream. -/
def pulled (c : Call σ) : List UInt8 :=
  match (c.before.reel c.leg).alternate with
  | some feed => if c.isDue then (feed.source.take c.size).2.toOption.getD [] else []
  | none => c.drawn

/-- Audio goes from the sources of a leg to its stream, and from nowhere else to nowhere else. -/
structure Sourced (c : Call σ) : Prop where
  /-- What was pulled is put behind what was put before. -/
  written : (c.after.reel c.leg).written = (c.before.reel c.leg).written ++ c.pulled
  /-- What left the queue of the other leg's stream was the oldest audio in it. -/
  queued : (c.before.reel c.leg.opposite).queued =
    c.drawn ++ (c.after.reel c.leg.opposite).queued
  /-- Unless a frame is due, nothing is pulled from any source. -/
  early : c.isDue = false → c.drawn = [] ∧
    (c.after.reel c.leg).alternate = (c.before.reel c.leg).alternate
  /-- Nothing is pulled from the other leg's stream while its read gate is shut. -/
  shut : c.mayRead = false → c.drawn = []
  /-- Nothing is pulled from the other leg's stream while an alternate source is set. A frame that
  is due is taken from that source, which goes on behind it. -/
  replaced : ∀ feed, (c.before.reel c.leg).alternate = some feed → c.drawn = [] ∧
    (c.isDue = true → ∃ source, feed.source.take c.size = (source, .ok c.pulled) ∧
      (c.after.reel c.leg).alternate = some { feed with source })
  /-- The leg's own queue, the audio put to the other leg and the other leg's alternate source stay
  as they are, and no alternate source comes from nowhere. -/
  elsewhere : (c.after.reel c.leg).queued = (c.before.reel c.leg).queued ∧
    (c.after.reel c.leg.opposite).written = (c.before.reel c.leg.opposite).written ∧
    (c.after.reel c.leg.opposite).alternate = (c.before.reel c.leg.opposite).alternate ∧
    ((c.before.reel c.leg).alternate = none → (c.after.reel c.leg).alternate = none)
  /-- Both legs stay negotiated. -/
  initialized : ∀ l, c.after.isInitialized l = c.before.isInitialized l

theorem drawn_of_same {c : Call σ}
    (h : (c.after.reel c.leg.opposite).queued = (c.before.reel c.leg.opposite).queued) :
    c.drawn = [] := by simp [drawn, h]

theorem drawn_of_drop {c : Call σ} {n : Nat}
    (h : (c.after.reel c.leg.opposite).queued = (c.before.reel c.leg.opposite).queued.drop n) :
    c.drawn = (c.before.reel c.leg.opposite).queued.take n := by
  rw [drawn, h, List.length_drop]
  generalize (c.before.reel c.leg.opposite).queued = waiting
  rcases Nat.le_total n waiting.length with hle | hle
  · rw [show waiting.length - (waiting.length - n) = n by omega]
  · rw [List.take_of_length_le hle, List.take_of_length_le (by omega)]

/-- A call that leaves everything as it is, because no frame is due or none can be read. -/
theorem sourced_of_same {c : Call σ} (hsame : ∀ l, c.after.reel l = c.before.reel l)
    (hnone : c.isDue = true → (c.before.reel c.leg).alternate = none) : c.Sourced := by
  have hdrawn : c.drawn = [] := drawn_of_same (by rw [hsame])
  have hpulled : c.pulled = [] := by
    unfold pulled
    split
    · next feed hfeed =>
      refine if_neg fun hdue => ?_
      rw [hnone hdue] at hfeed
      cases hfeed
    · exact hdrawn
  refine ⟨?_, ?_, fun _ => ⟨hdrawn, ?_⟩, fun _ => hdrawn,
    fun feed hfeed => ⟨hdrawn, fun hdue => ?_⟩, ?_, fun l => ?_⟩
  · rw [hpulled, hsame, List.append_nil]
  · rw [hdrawn, hsame, List.nil_append]
  · rw [hsame]
  · rw [hnone hdue] at hfeed
    cases hfeed
  · simp only [hsame, imp_self, and_self]
  · exact congrArg Reel.initialized (hsame l)

/-- A call that took a frame from the alternate source. -/
theorem sourced_of_alternate {c : Call σ} {feed : Audio.Feed} {source : Audio.Source}
    {bytes : List UInt8} (hdue : c.isDue = true)
    (halt : (c.before.reel c.leg).alternate = some feed)
    (htake : feed.source.take c.size = (source, .ok bytes))
    (hself : c.after.reel c.leg = { c.before.reel c.leg with
      written := (c.before.reel c.leg).written ++ bytes
      alternate := some { feed with source } })
    (hother : c.after.reel c.leg.opposite = c.before.reel c.leg.opposite) : c.Sourced := by
  have hpulled : c.pulled = bytes := by simp [pulled, halt, hdue, htake, Except.toOption]
  have hdrawn : c.drawn = [] := drawn_of_same (congrArg Reel.queued hother)
  refine ⟨?_, ?_, fun hearly => absurd (hearly.symm.trans hdue) Bool.false_ne_true, fun _ => hdrawn,
    fun feed' hfeed' => ?_, ?_, Pair.initialized_of_reel (l := c.leg) ?_ ?_⟩
  · rw [hpulled, hself]
  · rw [hdrawn, hother, List.nil_append]
  · obtain rfl := Option.some.inj (halt.symm.trans hfeed')
    exact ⟨hdrawn, fun _ => ⟨source, by rw [hpulled, htake], by rw [hself]⟩⟩
  · refine ⟨by rw [hself], by rw [hother], by rw [hother], fun hnone => ?_⟩
    rw [halt] at hnone
    cases hnone
  · rw [hself]
  · rw [hother]

/-- A call that took the oldest audio out of the queue of the other leg's stream. -/
theorem sourced_of_read {c : Call σ} {n : Nat} (hdue : c.isDue = true)
    (hnone : (c.before.reel c.leg).alternate = none) (hopen : c.mayRead = true)
    (hself : c.after.reel c.leg = { c.before.reel c.leg with
      written := (c.before.reel c.leg).written ++ (c.before.reel c.leg.opposite).queued.take n })
    (hother : c.after.reel c.leg.opposite = { c.before.reel c.leg.opposite with
      queued := (c.before.reel c.leg.opposite).queued.drop n }) : c.Sourced := by
  have hdrawn : c.drawn = (c.before.reel c.leg.opposite).queued.take n :=
    drawn_of_drop (congrArg Reel.queued hother)
  have hpulled : c.pulled = c.drawn := by rw [pulled, hnone]
  refine ⟨?_, ?_, fun hearly => absurd (hearly.symm.trans hdue) Bool.false_ne_true,
    fun hshut => absurd (hshut.symm.trans hopen) Bool.false_ne_true, fun feed hfeed => ?_, ?_,
    Pair.initialized_of_reel (l := c.leg) ?_ ?_⟩
  · rw [hpulled, hdrawn, hself]
  · rw [hdrawn, hother, List.take_append_drop]
  · rw [hnone] at hfeed
    cases hfeed
  · exact ⟨by rw [hself], by rw [hother], by rw [hother], fun _ => by rw [hself, hnone]⟩
  · rw [hself]
  · rw [hother]

end Call

namespace Pair

/-- The call that moves a frame to a leg. -/
def call (p : Pair σ) (now : Nat) (l : Leg) (ts : UInt64) (scratch : List UInt8) : Call σ :=
  ⟨l, ts, p.frameFor l scratch, p, (p.writeLeg now l ts scratch).1⟩

omit [QueueStream σ] in
theorem length_take_frameFor (p : Pair σ) (l : Leg) (scratch : List UInt8) :
    (scratch.take (p.frameFor l scratch)).length = p.frameFor l scratch := by
  rw [List.length_take, frameFor]
  omega

/-- A call that does not fail puts what it pulled, and pulls where it may. -/
theorem sourced_call {p : Pair σ} (hp : ∀ l, p.isInitialized l = true) {now : Nat} {l : Leg}
    {ts : UInt64} {scratch : List UInt8} (h : (p.writeLeg now l ts scratch).2.2.isOk = true) :
    (p.call now l ts scratch).Sourced := by
  have hlinked : p.isLinked l = true := by simp [isLinked, hp]
  rcases hwrite : p.writeLeg now l ts scratch with ⟨p', scratch', r⟩
  rw [call, hwrite]
  rw [hwrite] at h
  cases r with
  | error f => simp [Except.isOk, Except.toBool] at h
  | ok n =>
    rcases writeLeg_ok hlinked hwrite with
      ⟨hearly, hsame⟩ | ⟨hdue, p₁, p₂, frame, got, hp₁, hstream, hfetch, hself, hother⟩
    · refine Call.sourced_of_same hsame fun hdue => ?_
      exact absurd (hearly.symm.trans hdue) Bool.false_ne_true
    · have hways := fetch_ok hfetch
      rw [length_take_frameFor, hp₁, hp₁, hstream] at hways
      rcases hways with
        ⟨feed, source, bytes, halt, htake, hbytes, hl, ho⟩ | ⟨hnone, hshut, hzero, hl, ho⟩ |
        ⟨hnone, hopen, hbytes, hl, ho⟩
      · rw [hl, hbytes] at hself
        exact Call.sourced_of_alternate hdue halt htake hself (hother.trans ho)
      · rw [hl, hzero, List.take_zero, List.append_nil] at hself
        refine Call.sourced_of_same (fun other => ?_) fun _ => hnone
        rcases l.eq_or_eq_opposite other with rfl | rfl
        · exact hself
        · exact hother.trans ho
      · rw [hl, hbytes] at hself
        exact Call.sourced_of_read hdue hnone hopen hself (hother.trans ho)

end Pair

/-! ## Runs -/

/-- What happens to a pair. -/
inductive PairEvent where
  /-- Audio comes in for the stream of a leg. -/
  | feed (l : Leg) (data : List UInt8)
  /-- The alternate source of a leg is put in or taken out. -/
  | alternate (l : Leg) (feed : Option Audio.Feed)
  /-- A writer writes to the alternate source with a serial number. -/
  | fill (serial : Nat) (data : List UInt8)
  /-- A frame is moved to both legs, one after the other, through the same scratch buffer. -/
  | tick (now : Nat) (ts : UInt64) (scratch : List UInt8)
deriving Repr, Inhabited

/-- The audio that comes in for the stream of a leg. -/
def PairEvent.fed (l : Leg) : PairEvent → List UInt8
  | .feed other data => if other = l then data else []
  | _ => []

namespace Pair

omit [QueueStream σ] in
/-- A tick that does not fail is a call for each leg that does not fail. -/
theorem tick_ok {p : Pair σ} {now : Nat} {ts : UInt64} {scratch : List UInt8}
    (h : (p.tick now ts scratch).2.2.isOk = true) :
    let first := p.writeLeg now .a ts scratch
    let second := first.1.writeLeg now .b ts first.2.1
    first.2.2.isOk = true ∧ second.2.2.isOk = true ∧ (p.tick now ts scratch).1 = second.1 := by
  revert h
  unfold tick
  rcases p.writeLeg now .a ts scratch with ⟨p₁, scratch₁, f | n⟩
  · exact nofun
  · dsimp only
    rcases p₁.writeLeg now .b ts scratch₁ with ⟨p₂, scratch₂, f | m⟩
    · exact nofun
    · exact fun _ => ⟨rfl, rfl, rfl⟩

omit [MediaStream σ] [QueueStream σ] in
/-- A writer changes nothing but what waits in an alternate source. -/
theorem writeAlternate_keeps {p : Pair σ} {serial : Nat} {data : List UInt8}
    {written : Pair σ × Outcome Buffer.Written} (h : p.writeAlternate serial data = some written)
    (other : Leg) :
    written.1.stream other = p.stream other ∧
      written.1.isInitialized other = p.isInitialized other ∧
      ((p.leg other).alternate = none → (written.1.leg other).alternate = none) := by
  obtain ⟨l, -, hl⟩ := List.exists_of_findSome?_eq_some h
  split at hl
  · cases hl
  · next feed hfeed =>
    split at hl
    · obtain rfl := Option.some.inj hl
      rcases l.eq_or_eq_opposite other with rfl | rfl
      · refine ⟨?_, ?_, fun hnone => ?_⟩
        · simp [stream]
        · simp [isInitialized]
        · rw [hfeed] at hnone
          cases hnone
      · refine ⟨?_, ?_, fun hnone => ?_⟩
        · simp [stream]
        · simp [isInitialized]
        · simpa using hnone
    · cases hl

/-- The pair after something happened. -/
def step (p : Pair σ) : PairEvent → Pair σ
  | .feed l data => p.modifyStream l (QueueStream.feed · data)
  | .alternate l feed => (p.setAlternate l feed).1
  | .fill serial data => ((p.writeAlternate serial data).map (·.1)).getD p
  | .tick now ts scratch => (p.tick now ts scratch).1

theorem reel_feed (p : Pair σ) (l : Leg) (data : List UInt8) :
    (p.step (.feed l data)).reel l = { p.reel l with queued := (p.reel l).queued ++ data } := by
  rw [step, modifyStream, setStream, reel_setLeg_self, LegMedia.reel, QueueStream.queued_feed,
    QueueStream.written_feed]
  rfl

/-- Whether no call fails. -/
def isFlawless (p : Pair σ) : PairEvent → Bool
  | .tick now ts scratch => (p.tick now ts scratch).2.2.isOk
  | _ => true

/-- The calls that are made. -/
def callsOf (p : Pair σ) : PairEvent → List (Call σ)
  | .tick now ts scratch =>
    let first := p.call now .a ts scratch
    [first, first.after.call now .b ts (p.writeLeg now .a ts scratch).2.1]
  | _ => []

/-- The pair after a run. -/
def run (p : Pair σ) (es : List PairEvent) : Pair σ := es.foldl step p

/-- Whether no call of a run fails. -/
def runsFlawless (p : Pair σ) : List PairEvent → Bool
  | [] => true
  | e :: es => p.isFlawless e && (p.step e).runsFlawless es

/-- The calls of a run. -/
def calls (p : Pair σ) : List PairEvent → List (Call σ)
  | [] => []
  | e :: es => p.callsOf e ++ (p.step e).calls es

end Pair

/-! ## What a run keeps -/

/-- The calls among some that move a frame to a leg. -/
def Call.toward (l : Leg) (cs : List (Call σ)) : List (Call σ) := cs.filter (·.leg = l)

omit [MediaStream σ] [QueueStream σ] in
theorem Call.toward_append (l : Leg) (cs cs' : List (Call σ)) :
    toward l (cs ++ cs') = toward l cs ++ toward l cs' := List.filter_append ..

/-- The calls between two states of a pair, and the audio that came in between them, account for
what both legs show. -/
structure Accounted (p p' : Pair σ) (cs : List (Call σ)) (fed : Leg → List UInt8) : Prop where
  initialized : ∀ l, p'.isInitialized l = p.isInitialized l
  sourced : ∀ c ∈ cs, c.Sourced
  written : ∀ l, (p'.reel l).written =
    (p.reel l).written ++ (Call.toward l cs).flatMap Call.pulled
  queued : ∀ l, (p.reel l.opposite).queued ++ fed l.opposite =
    (Call.toward l cs).flatMap Call.drawn ++ (p'.reel l.opposite).queued

namespace Accounted

/-- Audio that comes in after some calls is not drawn by them. -/
theorem trans {p p' p'' : Pair σ} {cs cs' : List (Call σ)} {fed fed' : Leg → List UInt8}
    (h : Accounted p p' cs fed) (h' : Accounted p' p'' cs' fed') :
    Accounted p p'' (cs ++ cs') fun l => fed l ++ fed' l := by
  refine ⟨fun l => (h'.initialized l).trans (h.initialized l), ?_, fun l => ?_, fun l => ?_⟩
  · intro c hc
    rcases List.mem_append.1 hc with hc | hc
    · exact h.sourced c hc
    · exact h'.sourced c hc
  · rw [h'.written, h.written, Call.toward_append, List.flatMap_append, List.append_assoc]
  · rw [Call.toward_append, List.flatMap_append, List.append_assoc, ← h'.queued,
      ← List.append_assoc, ← List.append_assoc, h.queued]

/-- What leaves the streams as they are calls for no account. -/
theorem ofStreams {p p' : Pair σ} (hi : ∀ l, p'.isInitialized l = p.isInitialized l)
    (hs : ∀ l, p'.stream l = p.stream l) : Accounted p p' [] fun _ => [] := by
  refine ⟨hi, fun c hc => absurd hc List.not_mem_nil, fun l => ?_, fun l => ?_⟩
  · simp only [Call.toward, List.filter_nil, List.flatMap_nil, List.append_nil]
    exact congrArg QueueStream.written (hs l)
  · simp only [Call.toward, List.filter_nil, List.flatMap_nil, List.append_nil, List.nil_append]
    exact congrArg QueueStream.queued (hs l.opposite).symm

/-- A call accounts for what it changed. -/
theorem ofCall {c : Call σ} (h : c.Sourced) : Accounted c.before c.after [c] fun _ => [] := by
  refine ⟨h.initialized, fun c' hc' => ?_, fun l => ?_, fun l => ?_⟩
  · rw [List.mem_singleton.1 hc']
    exact h
  · rcases c.leg.eq_or_eq_opposite l with rfl | rfl
    · simp [Call.toward, h.written]
    · simp [Call.toward, (Leg.opposite_ne _).symm, h.elsewhere.2.1]
  · rcases c.leg.eq_or_eq_opposite l with rfl | rfl
    · simp [Call.toward, ← h.queued]
    · simp [Call.toward, (Leg.opposite_ne _).symm, h.elsewhere.1]

/-- A tick in which no call fails accounts for what it changed. -/
theorem tick {p : Pair σ} (hp : ∀ l, p.isInitialized l = true) {now : Nat} {ts : UInt64}
    {scratch : List UInt8} (h : (p.tick now ts scratch).2.2.isOk = true) :
    Accounted p (p.tick now ts scratch).1 (p.callsOf (.tick now ts scratch)) fun _ => [] := by
  obtain ⟨hfirst, hsecond, hafter⟩ := Pair.tick_ok h
  have hcall := ofCall (Pair.sourced_call hp hfirst)
  have hp' : ∀ l, (p.writeLeg now .a ts scratch).1.isInitialized l = true :=
    fun l => (hcall.initialized l).trans (hp l)
  rw [hafter]
  exact hcall.trans (ofCall (Pair.sourced_call hp' hsecond))

/-- Whatever happens to a pair, its calls and the audio that comes in account for it. -/
theorem step {p : Pair σ} (hp : ∀ l, p.isInitialized l = true) {e : PairEvent}
    (h : p.isFlawless e = true) :
    Accounted p (p.step e) (p.callsOf e) fun l => e.fed l := by
  cases e with
  | tick now ts scratch => exact tick hp h
  | feed l data =>
    have hself := Pair.reel_feed p l data
    have hother : (p.step (.feed l data)).reel l.opposite = p.reel l.opposite :=
      Pair.reel_setLeg_opposite _ _ _
    refine ⟨Pair.initialized_of_reel (l := l) (by rw [hself]) (by rw [hother]),
      fun c hc => absurd hc List.not_mem_nil, fun m => ?_, fun m => ?_⟩
    · rcases l.eq_or_eq_opposite m with rfl | rfl
      · simp [Pair.callsOf, Call.toward, hself]
      · simp [Pair.callsOf, Call.toward, hother]
    · rcases l.eq_or_eq_opposite m with rfl | rfl
      · simp [Pair.callsOf, Call.toward, hother, PairEvent.fed, (Leg.opposite_ne _).symm]
      · simp [Pair.callsOf, Call.toward, hself, PairEvent.fed]
  | alternate l feed =>
    refine ofStreams (fun m => ?_) fun m => Pair.stream_setAlternate p l feed m
    cases l <;> cases m <;> rfl
  | fill serial data =>
    rw [Pair.step]
    cases hfill : p.writeAlternate serial data with
    | none => exact ofStreams (fun _ => rfl) fun _ => rfl
    | some written =>
      have hkept := Pair.writeAlternate_keeps hfill
      exact ofStreams (fun m => (hkept m).2.1) fun m => (hkept m).1

theorem run {p : Pair σ} (hp : ∀ l, p.isInitialized l = true) {es : List PairEvent}
    (h : p.runsFlawless es = true) :
    Accounted p (p.run es) (p.calls es) fun l => es.flatMap (PairEvent.fed l) := by
  induction es generalizing p with
  | nil =>
    refine ⟨fun _ => rfl, fun c hc => absurd hc List.not_mem_nil, fun l => ?_, fun l => ?_⟩
    · simp [Pair.run, Pair.calls, Call.toward]
    · simp [Pair.run, Pair.calls, Call.toward]
  | cons e es ih =>
    rw [Pair.runsFlawless, Bool.and_eq_true] at h
    have hstep := step hp h.1
    exact hstep.trans (ih (fun l => (hstep.initialized l).trans (hp l)) h.2)

end Accounted

/-! ## Without alternate sources -/

/-- Where no alternate source is set, what is pulled is what is drawn from the other leg's
stream. -/
theorem Call.pulled_of_none {c : Call σ} (h : (c.before.reel c.leg).alternate = none) :
    c.pulled = c.drawn := by rw [pulled, h]

theorem Call.Sourced.alternate_of_none {c : Call σ} (h : c.Sourced) {l : Leg}
    (hnone : (c.before.reel l).alternate = none) : (c.after.reel l).alternate = none := by
  rcases c.leg.eq_or_eq_opposite l with rfl | rfl
  · exact h.elsewhere.2.2.2 hnone
  · rw [h.elsewhere.2.2.1, hnone]

namespace Pair

/-- An alternate source comes from an event that sets it. -/
theorem unreplaced_step {p : Pair σ} (hp : ∀ l, p.isInitialized l = true) {e : PairEvent}
    (h : p.isFlawless e = true) {l : Leg} (hnone : (p.reel l).alternate = none)
    (he : ∀ feed, e ≠ .alternate l (some feed)) :
    ((p.step e).reel l).alternate = none ∧
      ∀ c ∈ p.callsOf e, c.leg = l → c.pulled = c.drawn := by
  have hsourced := (Accounted.step hp h).sourced
  cases e with
  | tick now ts scratch =>
    have hafter := (tick_ok h).2.2
    let first := p.call now .a ts scratch
    let second := first.after.call now .b ts (p.writeLeg now .a ts scratch).2.1
    have hfirst : first.Sourced := hsourced first List.mem_cons_self
    have hsecond : second.Sourced := hsourced second (List.mem_cons_of_mem _ List.mem_cons_self)
    have hbetween : (second.before.reel l).alternate = none := hfirst.alternate_of_none hnone
    refine ⟨?_, fun c hc hl => ?_⟩
    · show ((p.tick now ts scratch).1.reel l).alternate = none
      rw [hafter]
      exact hsecond.alternate_of_none hbetween
    · rcases List.mem_cons.1 hc with rfl | hc
      · exact Call.pulled_of_none (hl ▸ hnone)
      · rw [List.mem_singleton.1 hc] at hl ⊢
        exact Call.pulled_of_none (hl ▸ hbetween)
  | feed m data =>
    refine ⟨?_, fun c hc => absurd hc List.not_mem_nil⟩
    rcases m.eq_or_eq_opposite l with rfl | rfl
    · rw [reel_feed, hnone]
    · exact hnone ▸ congrArg Reel.alternate (reel_setLeg_opposite _ _ _)
  | alternate m feed =>
    refine ⟨?_, fun c hc => absurd hc List.not_mem_nil⟩
    rcases m.eq_or_eq_opposite l with rfl | rfl
    · cases feed with
      | none => exact congrArg Reel.alternate (reel_setLeg_self _ _ _)
      | some feed => exact absurd rfl (he feed)
    · exact hnone ▸ congrArg Reel.alternate (reel_setLeg_opposite _ _ _)
  | fill serial data =>
    refine ⟨?_, fun c hc => absurd hc List.not_mem_nil⟩
    rw [step]
    cases hfill : p.writeAlternate serial data with
    | none => exact hnone
    | some written => exact (writeAlternate_keeps hfill l).2.2 hnone

theorem unreplaced_run {p : Pair σ} (hp : ∀ l, p.isInitialized l = true) {es : List PairEvent}
    (h : p.runsFlawless es = true) {l : Leg} (hnone : (p.reel l).alternate = none)
    (hes : ∀ feed, PairEvent.alternate l (some feed) ∉ es) :
    ∀ c ∈ p.calls es, c.leg = l → c.pulled = c.drawn := by
  induction es generalizing p with
  | nil => exact fun c hc => absurd hc List.not_mem_nil
  | cons e es ih =>
    rw [runsFlawless, Bool.and_eq_true] at h
    obtain ⟨hafter, hcalls⟩ :=
      unreplaced_step hp h.1 hnone fun feed he => hes feed (he ▸ List.mem_cons_self)
    have hp' : ∀ l, (p.step e).isInitialized l = true :=
      fun l => ((Accounted.step hp h.1).initialized l).trans (hp l)
    intro c hc hl
    rcases List.mem_append.1 hc with hc | hc
    · exact hcalls c hc hl
    · exact ih hp' h.2 hafter (fun feed hmem => hes feed (List.mem_cons_of_mem _ hmem)) c hc hl

end Pair

/-! ## Conservation -/

/-- **Main theorem**: audio that moves through a pair of negotiated streams is conserved.

Every call pulls from where it may, and only then: from the alternate source of its leg while one is
set, and else from the queue of the other leg's stream. What was put to a leg in a run is what the
calls for that leg pulled, in order and each byte once. What was queued in the other leg's stream or
came in for it was drawn by these calls or still waits, in this order. So without an alternate
source all of it was put to the leg or still waits. -/
theorem audio_conserved {p : Pair σ} (hp : ∀ l, p.isInitialized l = true) {es : List PairEvent}
    (h : p.runsFlawless es = true) :
    (∀ c ∈ p.calls es, c.Sourced) ∧
      ∀ l, ((p.run es).reel l).written =
          (p.reel l).written ++ (Call.toward l (p.calls es)).flatMap Call.pulled ∧
        (p.reel l.opposite).queued ++ es.flatMap (PairEvent.fed l.opposite) =
          (Call.toward l (p.calls es)).flatMap Call.drawn ++ ((p.run es).reel l.opposite).queued ∧
        ((p.reel l).alternate = none → (∀ feed, PairEvent.alternate l (some feed) ∉ es) →
          ((p.run es).reel l).written ++ ((p.run es).reel l.opposite).queued =
            (p.reel l).written ++
              ((p.reel l.opposite).queued ++ es.flatMap (PairEvent.fed l.opposite))) := by
  have haccounted := Accounted.run hp h
  refine ⟨haccounted.sourced, fun l => ⟨haccounted.written l, haccounted.queued l, ?_⟩⟩
  intro hnone hes
  have hdrawn : (Call.toward l (p.calls es)).flatMap Call.pulled =
      (Call.toward l (p.calls es)).flatMap Call.drawn := by
    simp only [List.flatMap_def]
    refine congrArg List.flatten (List.map_congr_left fun c hc => ?_)
    obtain ⟨hc, hl⟩ := List.mem_filter.1 hc
    exact Pair.unreplaced_run hp h hnone hes c hc (of_decide_eq_true hl)
  rw [haccounted.written l, haccounted.queued l, hdrawn, List.append_assoc]

/-- A negotiated pair of scripted streams with frames of four bytes. -/
def linkedPair : Pair Rehearsal.ScriptedStream :=
  let media (port : UInt16) : LegMedia Rehearsal.ScriptedStream :=
    ⟨{ Rehearsal.ScriptedStream.onPort port with frameSize := 4 }, true, none, none⟩
  ⟨⟨media 5000, media 5002⟩, .adaptive⟩

/-- Audio comes in for leg A, and leg B is played two bytes of an announcement in between. -/
def interrupted : List PairEvent :=
  [.feed .a [1, 2, 3, 4, 5, 6], .tick 0 0 [0, 0, 0, 0],
    .alternate .b (some ⟨7, .buffered (Buffer.Ring.ofCapacity 4)⟩), .fill 7 [9, 8],
    .tick 0 1 [0, 0, 0, 0], .alternate .b none, .tick 0 2 [0, 0, 0]]

/-- Leg B hears the announcement in its place, and nothing of leg A's audio is lost. -/
theorem audio_conserved_interrupted :
    (∀ l, linkedPair.isInitialized l = true) ∧ linkedPair.runsFlawless interrupted = true ∧
      (∀ c ∈ linkedPair.calls interrupted, c.Sourced) ∧
      ((linkedPair.run interrupted).reel .b).written =
        (Call.toward .b (linkedPair.calls interrupted)).flatMap Call.pulled ∧
      ((linkedPair.run interrupted).reel .b).written = [1, 2, 3, 4, 9, 8, 5, 6] := by
  have hp : ∀ l, linkedPair.isInitialized l = true := by
    intro l
    cases l <;> rfl
  have hrun : linkedPair.runsFlawless interrupted = true := by decide
  obtain ⟨hsourced, hlegs⟩ := audio_conserved hp hrun
  exact ⟨hp, hrun, hsourced, (hlegs .b).1, by decide⟩

end CallBridge.Bridge
