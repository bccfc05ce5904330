import CallBridge.Proofs.Playout.Drain
import CallBridge.Proofs.Playout.FirstInFirstOut

/-!
# Reading a full buffer

Playing begins when as many samples are buffered as the target delay asks for, and the target never
exceeds the greatest delay. A buffer that overflows holds more than that, but it drops whole frames,
and then it may hold less than the target again. Unless playing had begun before, it does not begin
now, and where each frame makes another one go, it never does.

How little may be left depends on how long the frames are: more than the greatest delay without the
frame that was dropped last.

Results:
* `Queue.enqueue_leaves`: what an overflow leaves.
* `JitterBuffer.Short.useAll`: no frame in a buffer is longer than those that arrived.
* `JitterBuffer.read_pos_iff`: when a read returns something.
* `Filling.overflow`: a buffer that fills up and is silent afterwards.
* `plays_when_full_iff`: when a read behind an overflow returns something, and for which lengths of
  the frames it always does.
-/

namespace CallBridge.Playout

/-! ## What an overflow leaves -/

namespace Queue

/-- The count is right, and no frame that waits is longer than so many samples. -/
structure Short (longest : Nat) (q : Queue) : Prop where
  counted : q.Counted
  frames : ∀ f ∈ q.frames, f.2.length ≤ longest

section Short

variable {longest : Nat} {q : Queue} {pcm : List Int16}

theorem length_le_of_insertFrame (h : ∀ f ∈ q.frames, f.2.length ≤ longest)
    (hpcm : pcm.length ≤ longest) {key : Nat} {f : Frame}
    (hf : f ∈ (insertFrame key pcm q.frames).1) : f.2.length ≤ longest := by
  rcases mem_insertFrame hf with rfl | hf
  · exact hpcm
  · exact h f hf

theorem Short.put (h : q.Short longest) (stamp : UInt32) (hpcm : pcm.length ≤ longest) :
    (q.put stamp pcm).Short longest := by
  refine ⟨h.counted.put stamp pcm, fun f hf => ?_⟩
  rcases q.put_any stamp pcm with ⟨hframes, -⟩ | ⟨key, gone, hsplit, -⟩
  · exact h.frames f (hframes ▸ hf)
  · exact length_le_of_insertFrame h.frames hpcm (hsplit ▸ List.mem_append_right gone hf)

theorem Short.read (h : q.Short longest) (target wanted : Nat) :
    (q.read target wanted).1.Short longest := by
  obtain ⟨gone, hsplit, -⟩ := q.read_front target wanted
  exact ⟨h.counted.read target wanted, fun f hf =>
    h.frames f (hsplit ▸ List.mem_append_right gone hf)⟩

/-- The last frame that is dropped takes a full queue below the greatest delay, by less than its own
length. -/
theorem Short.overflow (h : q.Short longest) {stamp : UInt32} (hpcm : pcm.length ≤ longest)
    (hdrops : q.overflowDrops < (q.put stamp pcm).overflowDrops) :
    q.greatest < (q.put stamp pcm).buffered + longest := by
  rcases q.put_any stamp pcm with ⟨-, -, hsame⟩ | ⟨key, gone, hsplit, hbuffered, hcounted, hneeded⟩
  · exact absurd hdrops (hsame ▸ Nat.lt_irrefl _)
  have hgone : gone ≠ [] := by
    rintro rfl
    rw [hcounted] at hdrops
    exact Nat.lt_irrefl _ hdrops
  obtain ⟨before, last, rfl⟩ : ∃ before last, gone = before ++ [last] :=
    ⟨_, _, (List.dropLast_concat_getLast hgone).symm⟩
  have hover := hneeded before last [] rfl
  have hmem : last ∈ (insertFrame key pcm q.frames).1 := by
    rw [hsplit]
    simp
  have hlast : last.2.length ≤ longest := length_le_of_insertFrame h.frames hpcm hmem
  have hcount : sampleCount (before ++ [last]) = sampleCount before + last.2.length := by
    simp [sampleCount_append, sampleCount]
  omega

end Short

theorem Holds.of_counted {q : Queue} (h : q.Counted) :
    q.Holds (q.pending ++ q.frames.flatMap (·.2)) :=
  ⟨rfl, by rw [List.length_append, length_flatMap_frames]; exact h⟩

end Queue

/-! ## Any uses -/

/-- A use brings no frame longer than so many samples. -/
def Use.Fits (longest : Nat) : Use → Prop
  | .put _ _ pcm => pcm.length ≤ longest
  | .read _ => True

namespace JitterBuffer

/-- The buffer after a use. -/
def use (b : JitterBuffer) : Use → JitterBuffer
  | .put stamp arrivalNanos pcm => b.put stamp arrivalNanos pcm
  | .read out => (b.read out).1

/-- The buffer after one use after the other. -/
def useAll (b : JitterBuffer) (us : List Use) : JitterBuffer := us.foldl use b

/-- A frame that arrives makes the buffer drop frames. -/
def Overflows (b : JitterBuffer) (stamp : UInt32) (arrivalNanos : Nat) (pcm : List Int16) : Prop :=
  b.queue.overflowDrops < (b.put stamp arrivalNanos pcm).queue.overflowDrops

theorem short_use {b : JitterBuffer} {longest : Nat} (h : b.queue.Short longest) {u : Use}
    (hu : u.Fits longest) : (b.use u).queue.Short longest := by
  cases u with
  | put stamp arrivalNanos pcm =>
    rw [use, queue_put]
    exact h.put stamp hu
  | read out => exact h.read b.target (out.length / 2)

theorem short_useAll {b : JitterBuffer} {longest : Nat} (h : b.queue.Short longest) {us : List Use}
    (hfits : ∀ u ∈ us, u.Fits longest) : (b.useAll us).queue.Short longest := by
  induction us generalizing b with
  | nil => exact h
  | cons u us ih =>
    exact ih (short_use h (hfits u List.mem_cons_self)) fun v hv =>
      hfits v (List.mem_cons_of_mem u hv)

/-- What no use changes. -/
theorem use_frame (b : JitterBuffer) (u : Use) :
    (b.use u).delays = b.delays ∧ (b.use u).queue.mode = b.queue.mode ∧
      (b.use u).queue.greatest = b.queue.greatest := by
  cases u with
  | put stamp arrivalNanos pcm =>
    obtain ⟨hmode, hgreatest, -⟩ := b.queue.put_frame stamp pcm
    rw [use, queue_put]
    refine ⟨?_, hmode, hgreatest⟩
    unfold put
    split <;> rfl
  | read out =>
    exact ⟨rfl, (b.queue.read_frame b.target (out.length / 2)).1, b.queue.greatest_read _ _⟩

theorem useAll_frame (b : JitterBuffer) (us : List Use) :
    (b.useAll us).delays = b.delays ∧ (b.useAll us).queue.mode = b.queue.mode ∧
      (b.useAll us).queue.greatest = b.queue.greatest := by
  induction us generalizing b with
  | nil => exact ⟨rfl, rfl, rfl⟩
  | cons u us ih =>
    obtain ⟨hdelays, hmode, hgreatest⟩ := b.use_frame u
    obtain ⟨hdelays', hmode', hgreatest'⟩ := ih (b.use u)
    exact ⟨hdelays'.trans hdelays, hmode'.trans hmode, hgreatest'.trans hgreatest⟩

/-- A read with room for a sample returns something exactly if anything is buffered, and playing
goes on or may begin. -/
theorem read_pos_iff {b : JitterBuffer} (h : b.queue.Counted) {out : List UInt8}
    (hout : 2 ≤ out.length) :
    (b.read out).2.2 ≠ 0 ↔ b.buffered ≠ 0 ∧ (b.queue.playing = true ∨ b.target ≤ b.buffered) := by
  have hholds := Queue.Holds.of_counted h
  have hcount : (b.read out).2.2 = (b.take out.length).2.length := rfl
  have hbuffered : b.buffered = (b.queue.pending ++ b.queue.frames.flatMap (·.2)).length :=
    hholds.buffered
  rcases take_cases hholds out.length with ⟨hwaits, htake⟩ | ⟨hready, htaken, -, -⟩
  · rw [Queue.ready_eq_true_iff, not_or] at hwaits
    rw [hcount, htake]
    refine iff_of_false (fun hsome => hsome rfl) ?_
    rintro ⟨hsome, hplaying | htarget⟩
    · exact hwaits.1 hplaying
    · exact hwaits.2 ⟨hsome, htarget⟩
  · rw [Queue.ready_eq_true_iff] at hready
    rw [hcount, htaken, Audio.length_bytes, List.length_take, ← hbuffered]
    refine ⟨fun hsome => ⟨by omega, hready.imp_right And.right⟩, fun hsome => ?_⟩
    have := hsome.1
    omega

end JitterBuffer

/-! ## Filling a buffer up -/

theorem Queue.DropsOldest.none_of_room {q after : Queue} {pcm : List Int16} {dropped : List Frame}
    (h : q.DropsOldest pcm dropped after) (hroom : q.buffered + pcm.length ≤ q.greatest) :
    dropped = [] := by
  cases dropped with
  | nil => rfl
  | cons f behind =>
    have hover := h.needed [] f behind rfl
    simp only [sampleCount] at hover
    omega

theorem Queue.DropsOldest.first_of_full {q after : Queue} {pcm : List Int16}
    {dropped rest : List Frame} {f : Frame} (h : q.DropsOldest pcm dropped after)
    (hfront : q.frames = f :: rest) (hfull : q.greatest < q.buffered + pcm.length)
    (hroom : q.buffered + pcm.length - f.2.length ≤ q.greatest) : dropped = [f] := by
  have hsplit := h.front
  have hbuffered := h.buffered
  rw [hfront] at hsplit
  cases dropped with
  | nil =>
    have hsome : after.frames ≠ [] := by
      rw [← List.nil_append after.frames, ← hsplit]
      exact List.cons_ne_nil _ _
    have hfits := h.enough.resolve_left hsome
    simp only [sampleCount] at hbuffered
    omega
  | cons g behind =>
    obtain ⟨rfl, -⟩ := List.cons.inj hsplit
    cases behind with
    | nil => rfl
    | cons g behind =>
      have hover := h.needed [f] g behind rfl
      simp only [sampleCount] at hover
      omega

/-- A simple queue that was never played, with a frame of some length in front of all others. -/
structure Filling (q : Queue) (first held : Nat) : Prop where
  simple : q.mode = .simple
  silent : q.playing = false
  numbered : ∀ f ∈ q.frames, f.1 ≤ q.arrivals
  front : ∃ f rest, q.frames = f :: rest ∧ f.2.length = first
  held : q.buffered = held

namespace Filling

variable {q : Queue} {first held : Nat}

/-- A frame for which there is room is put behind the others. -/
theorem room (h : Filling q first held) (stamp : UInt32) {pcm : List Int16} (hpcm : pcm ≠ [])
    (hroom : held + pcm.length ≤ q.greatest) :
    Filling (q.put stamp pcm) first (held + pcm.length) := by
  obtain ⟨dropped, hdrops, hmode, harrivals, -⟩ := Queue.put_simple h.simple h.numbered stamp hpcm
  obtain rfl : dropped = [] := hdrops.none_of_room (h.held.symm ▸ hroom)
  obtain ⟨-, -, -, hplaying, -⟩ := q.put_frame stamp pcm
  have hframes : (q.put stamp pcm).frames = q.frames ++ [(q.arrivals + 1, pcm)] :=
    hdrops.front.symm
  refine ⟨hmode, hplaying.trans h.silent, fun f hf => ?_, ?_, ?_⟩
  · rw [harrivals]
    rcases List.mem_append.1 (hframes ▸ hf) with hf | hf
    · exact Nat.le_succ_of_le (h.numbered f hf)
    · exact Nat.le_of_eq (congrArg Prod.fst (List.mem_singleton.1 hf))
  · obtain ⟨f, rest, hfront, hfirst⟩ := h.front
    exact ⟨f, rest ++ [(q.arrivals + 1, pcm)], by rw [hframes, hfront]; rfl, hfirst⟩
  · rw [hdrops.buffered, h.held]
    rfl

/-- A frame that makes the queue overflow takes the place of the first one, if that is enough. -/
theorem overflow (h : Filling q first held) (stamp : UInt32) {pcm : List Int16} (hpcm : pcm ≠ [])
    (hfull : q.greatest < held + pcm.length) (hroom : held + pcm.length - first ≤ q.greatest) :
    q.overflowDrops < (q.put stamp pcm).overflowDrops ∧ (q.put stamp pcm).playing = false ∧
      (q.put stamp pcm).buffered = held + pcm.length - first := by
  obtain ⟨dropped, hdrops, -⟩ := Queue.put_simple h.simple h.numbered stamp hpcm
  obtain ⟨-, -, -, hplaying, -⟩ := q.put_frame stamp pcm
  obtain ⟨f, rest, hfront, hfirst⟩ := h.front
  obtain rfl : dropped = [f] := by
    refine hdrops.first_of_full hfront ?_ ?_
    · rw [h.held]
      exact hfull
    · rw [h.held, hfirst]
      exact hroom
  refine ⟨?_, hplaying.trans h.silent, ?_⟩
  · rw [hdrops.counted]
    exact Nat.lt_succ_self _
  · rw [hdrops.buffered, h.held, ← hfirst]
    rfl

/-- Frames of one sample fill up what room there is. -/
theorem room_useAll {b : JitterBuffer} (h : Filling b.queue first held) (count : Nat)
    (hroom : held + count ≤ b.queue.greatest) :
    Filling (b.useAll (List.replicate count (.put 0 0 [0]))).queue first (held + count) := by
  induction count generalizing b held with
  | zero => exact h
  | succ count ih =>
    have hnext : Filling (b.put 0 0 [0]).queue first (held + 1) := by
      rw [JitterBuffer.queue_put]
      refine h.room 0 (List.cons_ne_nil _ _) ?_
      rw [List.length_singleton]
      omega
    have hgreatest : (b.put 0 0 [0]).queue.greatest = b.queue.greatest :=
      (b.use_frame (.put 0 0 [0])).2.2
    rw [show held + (count + 1) = held + 1 + count by omega]
    exact ih hnext (hgreatest ▸ by omega)

/-- The first frame of an empty queue. -/
theorem start (greatest : Nat) {pcm : List Int16} (hpcm : pcm ≠ [])
    (hroom : pcm.length ≤ greatest) :
    Filling ((Queue.empty .simple greatest).put 0 pcm) pcm.length pcm.length := by
  obtain ⟨dropped, hdrops, hmode, harrivals, -⟩ :=
    Queue.put_simple (q := Queue.empty .simple greatest) rfl (by simp [Queue.empty]) 0 hpcm
  obtain rfl : dropped = [] := hdrops.none_of_room (by simpa [Queue.empty] using hroom)
  obtain ⟨-, -, -, hplaying, -⟩ := (Queue.empty .simple greatest).put_frame 0 pcm
  have hframes : ((Queue.empty .simple greatest).put 0 pcm).frames = [(1, pcm)] :=
    hdrops.front.symm
  refine ⟨hmode, hplaying, fun f hf => ?_, ⟨(1, pcm), [], hframes, rfl⟩, ?_⟩
  · rw [hframes, List.mem_singleton] at hf
    rw [harrivals, hf]
    exact Nat.le_refl 1
  · rw [hdrops.buffered]
    simp [Queue.empty, sampleCount]

end Filling

/-! ## Reading behind an overflow -/

/-- After any uses of a new buffer with frames of at most some length, a read with room for a sample
returns something right after a frame came that made the buffer overflow. -/
def NeverStarves (mode : Mode) (rate : UInt32) (times : DelayTimes) (longest : Nat) : Prop :=
  ∀ us stamp arrivalNanos pcm out, (∀ u ∈ us, Use.Fits longest u) → pcm.length ≤ longest →
    ((JitterBuffer.empty mode rate times).useAll us).Overflows stamp arrivalNanos pcm →
    2 ≤ out.length →
    ((((JitterBuffer.empty mode rate times).useAll us).put stamp arrivalNanos pcm).read out).2.2 ≠ 0

section Overflow

variable {mode : Mode} {rate : UInt32} {times : DelayTimes} {longest : Nat} {us : List Use}
  {stamp : UInt32} {arrivalNanos : Nat} {pcm : List Int16} {out : List UInt8}

theorem short_empty : (JitterBuffer.empty mode rate times).queue.Short longest :=
  ⟨rfl, by simp [JitterBuffer.empty, Queue.empty]⟩

theorem target_put_simple (us : List Use) (stamp : UInt32) (arrivalNanos : Nat) (pcm : List Int16) :
    (((JitterBuffer.empty .simple rate times).useAll us).put stamp arrivalNanos pcm).target =
      (Delays.ofTimes times rate).target .simple 0 := by
  let b := (JitterBuffer.empty .simple rate times).useAll us
  obtain ⟨hdelays, hmode, -⟩ := (JitterBuffer.empty .simple rate times).useAll_frame us
  obtain ⟨hdelays', hmode', -⟩ := b.use_frame (.put stamp arrivalNanos pcm)
  have hsimple : (b.put stamp arrivalNanos pcm).mode = .simple := hmode'.trans hmode
  have hsame : (b.put stamp arrivalNanos pcm).delays = Delays.ofTimes times rate :=
    hdelays'.trans hdelays
  rw [JitterBuffer.target, hsimple, hsame]
  exact Delays.target_simple _ _ _

/-- What a buffer holds after an overflow, and when a read returns something of it. -/
theorem read_overflow (hlongest : longest ≤ (Delays.ofTimes times rate).greatest)
    (hfits : ∀ u ∈ us, Use.Fits longest u) (hpcm : pcm.length ≤ longest)
    (hdrops : ((JitterBuffer.empty mode rate times).useAll us).Overflows stamp arrivalNanos pcm)
    (hout : 2 ≤ out.length) :
    let b := (JitterBuffer.empty mode rate times).useAll us
    let after := b.put stamp arrivalNanos pcm
    (Delays.ofTimes times rate).greatest < after.buffered + longest ∧
      ((after.read out).2.2 ≠ 0 ↔ b.queue.playing = true ∨ after.target ≤ after.buffered) := by
  intro b after
  have hshort : b.queue.Short longest := JitterBuffer.short_useAll short_empty hfits
  have hqueue : after.queue = b.queue.put stamp pcm := JitterBuffer.queue_put _ _ _ _
  have hdropped : b.queue.overflowDrops < (b.queue.put stamp pcm).overflowDrops := hqueue ▸ hdrops
  have hgreatest : b.queue.greatest = (Delays.ofTimes times rate).greatest :=
    (JitterBuffer.useAll_frame _ us).2.2
  have hleft : (Delays.ofTimes times rate).greatest < after.buffered + longest := by
    rw [← hgreatest, JitterBuffer.buffered, hqueue]
    exact hshort.overflow hpcm hdropped
  have hcounted : after.queue.Counted := hqueue ▸ hshort.counted.put stamp pcm
  have hplaying : after.queue.playing = b.queue.playing := by
    rw [hqueue]
    exact (b.queue.put_frame stamp pcm).2.2.2.1
  refine ⟨hleft, ?_⟩
  rw [JitterBuffer.read_pos_iff hcounted hout, hplaying]
  exact and_iff_right (by omega)

/-- Uses that fill a buffer up: a frame of some length, and then frames of one sample. -/
def fillUp (first greatest : Nat) : List Use :=
  .put 0 0 (List.replicate first 0) :: List.replicate (greatest - first) (.put 0 0 [0])

theorem fits_fillUp (hsome : 0 < longest) (greatest : Nat) :
    ∀ u ∈ fillUp longest greatest, Use.Fits longest u := by
  intro u hu
  rcases List.mem_cons.1 hu with rfl | hu
  · exact Nat.le_of_eq List.length_replicate
  · rw [(List.mem_replicate.1 hu).2]
    exact hsome

theorem filling_fillUp (hsome : 0 < longest)
    (hlongest : longest ≤ (Delays.ofTimes times rate).greatest) :
    Filling ((JitterBuffer.empty .simple rate times).useAll
      (fillUp longest (Delays.ofTimes times rate).greatest)).queue longest
      (Delays.ofTimes times rate).greatest := by
  let b := JitterBuffer.empty .simple rate times
  let long : Use := .put 0 0 (List.replicate longest 0)
  have hlong : List.replicate longest (0 : Int16) ≠ [] := by
    simp only [ne_eq, List.replicate_eq_nil_iff]
    omega
  have hfirst : Filling (b.use long).queue longest longest := by
    have hstart := Filling.start (Delays.ofTimes times rate).greatest hlong
      (by rw [List.length_replicate]; exact hlongest)
    rw [List.length_replicate] at hstart
    rw [JitterBuffer.use, JitterBuffer.queue_put]
    exact hstart
  have hgreatest : (b.use long).queue.greatest = (Delays.ofTimes times rate).greatest :=
    (b.use_frame long).2.2
  have hfull := hfirst.room_useAll ((Delays.ofTimes times rate).greatest - longest) (by omega)
  rw [show longest + ((Delays.ofTimes times rate).greatest - longest) =
    (Delays.ofTimes times rate).greatest by omega] at hfull
  exact hfull

/-- The long frame goes when one sample too many arrives. If what is left does not reach the target
delay, nothing of it is played. -/
theorem not_neverStarves_simple (hsome : 0 < longest)
    (hlongest : longest ≤ (Delays.ofTimes times rate).greatest)
    (hfar : (Delays.ofTimes times rate).greatest + 1 <
      longest + (Delays.ofTimes times rate).target .simple 0) :
    ¬ NeverStarves .simple rate times longest := by
  let us := fillUp longest (Delays.ofTimes times rate).greatest
  let b := (JitterBuffer.empty .simple rate times).useAll us
  have hfits : ∀ u ∈ us, Use.Fits longest u := fits_fillUp hsome _
  have hgreatest : b.queue.greatest = (Delays.ofTimes times rate).greatest :=
    (JitterBuffer.useAll_frame _ us).2.2
  obtain ⟨hdrops, -, hbuffered⟩ :=
    (filling_fillUp hsome hlongest).overflow 0 (List.cons_ne_nil 0 [])
      (by rw [hgreatest, List.length_singleton]; omega)
      (by rw [hgreatest, List.length_singleton]; omega)
  have hoverflows : b.Overflows 0 0 [0] := by
    rw [JitterBuffer.Overflows, JitterBuffer.queue_put]
    exact hdrops
  have hleft : (b.put 0 0 [0]).buffered = (Delays.ofTimes times rate).greatest + 1 - longest := by
    rw [JitterBuffer.buffered, JitterBuffer.queue_put]
    exact hbuffered
  have htarget : (b.put 0 0 [0]).target = (Delays.ofTimes times rate).target .simple 0 :=
    target_put_simple us 0 0 [0]
  have hone : [(0 : Int16)].length ≤ longest := hsome
  intro hnever
  have hread := hnever us 0 0 [0] [0, 0] hfits hone hoverflows (Nat.le_refl 2)
  obtain ⟨-, hiff⟩ := read_overflow hlongest hfits hone hoverflows (Nat.le_refl [0, 0].length)
  rcases hiff.1 hread with hplaying | hreached
  · exact Bool.false_ne_true ((filling_fillUp hsome hlongest).silent.symm.trans hplaying)
  · rw [hleft, htarget] at hreached
    omega

end Overflow

/-- **Main theorem**: when a buffer that overflows can be read.

After any uses of a new buffer with frames that fit into it, right after a frame made the buffer
drop others, more than the greatest delay without one of the longest frames is buffered. A read with
room for a sample returns something exactly if playing had begun, or this reaches the target delay.
In simple mode it always returns something exactly if the target delay and one of the longest frames
exceed the greatest delay by at most one sample. -/
theorem plays_when_full_iff (rate : UInt32) (times : DelayTimes) {longest : Nat}
    (hsome : 0 < longest) (hlongest : longest ≤ (Delays.ofTimes times rate).greatest) :
    (∀ mode us stamp arrivalNanos pcm out, (∀ u ∈ us, Use.Fits longest u) → pcm.length ≤ longest →
      ((JitterBuffer.empty mode rate times).useAll us).Overflows stamp arrivalNanos pcm →
      2 ≤ out.length →
      let b := (JitterBuffer.empty mode rate times).useAll us
      let after := b.put stamp arrivalNanos pcm
      (Delays.ofTimes times rate).greatest < after.buffered + longest ∧
        ((after.read out).2.2 ≠ 0 ↔ b.queue.playing = true ∨ after.target ≤ after.buffered)) ∧
    (NeverStarves .simple rate times longest ↔
      longest + (Delays.ofTimes times rate).target .simple 0 ≤
        (Delays.ofTimes times rate).greatest + 1) := by
  refine ⟨fun mode us stamp arrivalNanos pcm out hfits hpcm hdrops hout =>
    read_overflow hlongest hfits hpcm hdrops hout, ?_⟩
  constructor
  · intro hnever
    exact Nat.le_of_not_lt fun hfar => not_neverStarves_simple hsome hlongest hfar hnever
  · intro hnear us stamp arrivalNanos pcm out hfits hpcm hdrops hout
    obtain ⟨hleft, hiff⟩ := read_overflow hlongest hfits hpcm hdrops hout
    refine hiff.2 (.inr ?_)
    rw [target_put_simple]
    omega

/-- Frames of twenty milliseconds may starve a buffer for fifty milliseconds that asks for as many
before it plays, but not one for two hundred that asks for forty. -/
theorem plays_when_full_iff_twentyMs :
    ¬ NeverStarves .simple 8000 ⟨20, 50, 50⟩ 160 ∧ NeverStarves .simple 8000 ⟨20, 200, 40⟩ 160 :=
  ⟨fun hnever => absurd
      ((plays_when_full_iff 8000 ⟨20, 50, 50⟩ (show 0 < 160 by decide) (by decide)).2.1 hnever)
      (by decide),
    (plays_when_full_iff 8000 ⟨20, 200, 40⟩ (by decide) (by decide)).2.2 (by decide)⟩

/-- A full buffer cannot always be read: the third frame makes the first one go, and the two that
are left last forty of the fifty milliseconds asked for. -/
theorem not_plays_when_full :
    ¬ ∀ mode rate (times : DelayTimes), times.least ≤ times.greatest →
      NeverStarves mode rate times (Delays.ofTimes times rate).greatest := by
  intro hnever
  have hread := hnever .simple 8000 ⟨20, 50, 50⟩ (by decide)
    [.put 0 0 (List.replicate 160 1), .put 160 0 (List.replicate 160 2)] 320 0
    (List.replicate 160 3) (List.replicate 320 0)
    (by
      simp only [List.forall_mem_cons, Use.Fits, List.length_replicate]
      exact ⟨by decide, by decide, fun _ hu => absurd hu List.not_mem_nil⟩)
    (by rw [List.length_replicate]; decide) (by unfold JitterBuffer.Overflows; decide +kernel)
    (by rw [List.length_replicate]; decide)
  exact hread (by decide +kernel)

end CallBridge.Playout
