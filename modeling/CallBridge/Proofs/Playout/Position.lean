import CallBridge.Proofs.Playout.Reassembly
import CallBridge.Proofs.Playout.Unwrapping

/-!
# The playout position

An adaptive buffer rejects frames that begin before its position, the timestamp behind the frame
that it took into play last. Whether a frame comes too late is asked when it arrives and never
again, and a frame that is taken into play moves the position to its own end, be that in front of
the position or behind it. So frames that overlap while they wait are played one after the other all
the same, and one that lies within another moves the position back when its turn comes. From then on
the buffer accepts frames that begin before the end of what was played.

Results:
* `Watch.books_played`, `JitterBuffer.position_eq`: which frames were played, and where that leaves
  the position.
* `JitterBuffer.arrivals_true`: frames that are sent within half of the range of their timestamps
  arrive with the distances that they were sent with.
* `JitterBuffer.overtaken_read`: of two frames that wait, the second is played from its beginning to
  its end wherever the first one ends.
* `position_advances_iff`: for which frames the position never moves back, and for which no frame is
  accepted or played that begins before the end of audio already played.
-/

namespace CallBridge.Playout

/-! ## Frames taken into play -/

namespace Queue

/-- The frames that a read takes into play. -/
def begun (q : Queue) (target wanted : Nat) : List Frame :=
  q.frames.take (q.frames.length - (q.read target wanted).1.frames.length)

theorem begun_eq {q : Queue} {target wanted : Nat} {gone : List Frame}
    (h : q.frames = gone ++ (q.read target wanted).1.frames) : q.begun target wanted = gone := by
  have hlength : q.frames.length - (q.read target wanted).1.frames.length = gone.length := by
    rw [h, List.length_append, Nat.add_sub_cancel]
  rw [begun, hlength, h, List.take_left]

end Queue

namespace JitterBuffer

/-- The frames that a use takes into play. -/
def begun (b : JitterBuffer) : Use → List Frame
  | .put _ _ _ => []
  | .read out => b.queue.begun b.target (out.length / 2)

/-- The frames that some uses take into play. -/
def played (b : JitterBuffer) : List Use → List Frame
  | [] => []
  | u :: us => b.begun u ++ (b.use u).played us

/-- The timestamp that a buffer expects next, once it played a frame. -/
def position (b : JitterBuffer) : Option Nat := b.queue.nextStamp

theorem useAll_append (b : JitterBuffer) (us vs : List Use) :
    b.useAll (us ++ vs) = (b.useAll us).useAll vs := List.foldl_append

theorem played_append (b : JitterBuffer) (us vs : List Use) :
    b.played (us ++ vs) = b.played us ++ (b.useAll us).played vs := by
  induction us generalizing b with
  | nil => rfl
  | cons u us ih =>
    rw [List.cons_append, played, played, ih, List.append_assoc]
    rfl

end JitterBuffer

namespace Watch

theorem buffer_run (w : Watch) (us : List Use) : (w.run us).buffer = w.buffer.useAll us := by
  induction us generalizing w with
  | nil => rfl
  | cons u us ih =>
    refine (ih (w.step u)).trans ?_
    cases u <;> rfl

/-- The books tell which frames were played: those that reads took into play. -/
theorem books_played {w : Watch} {played : List Frame}
    (h : Books w.buffer.queue w.heard w.ledger played) (us : List Use) :
    Books (w.run us).buffer.queue (w.run us).heard (w.run us).ledger
      (played ++ w.buffer.played us) := by
  induction us generalizing w played with
  | nil =>
    rw [JitterBuffer.played, List.append_nil]
    exact h
  | cons u us ih =>
    rw [JitterBuffer.played, ← List.append_assoc]
    cases u with
    | put stamp arrivalNanos pcm =>
      rw [JitterBuffer.begun, List.append_nil]
      refine ih (w := w.step (.put stamp arrivalNanos pcm)) ?_
      simp only [step, JitterBuffer.queue_put]
      exact h.put stamp pcm
    | read out =>
      obtain ⟨gone, hsplit, hread⟩ := h.read w.buffer.target (out.length / 2)
      rw [← JitterBuffer.samples_read, ← Queue.begun_eq hsplit] at hread
      exact ih (w := w.step (.read out)) hread

end Watch

namespace JitterBuffer

section

variable (rate : UInt32) (times : DelayTimes) (us : List Use)

/-- The books of a new buffer after some uses, with all frames that arrived in the ledger. -/
theorem books_empty : ∃ heard ledger,
    Books ((empty .adaptive rate times).useAll us).queue heard ledger
        ((empty .adaptive rate times).played us) ∧
      ledger.map Arrival.frame = arrivals none us := by
  let w := Watch.start (empty .adaptive rate times)
  have hbooks := Watch.books_played (w := w) (books_start rate times) us
  rw [w.buffer_run us] at hbooks
  exact ⟨_, _, hbooks, Watch.frames_run (w := w) (books_start rate times) us⟩

/-- The position lies behind the frame that was taken into play last. -/
theorem position_eq : ((empty .adaptive rate times).useAll us).position =
    ((empty .adaptive rate times).played us).getLast?.map stampBehind := by
  obtain ⟨heard, ledger, hbooks, -⟩ := books_empty rate times us
  exact hbooks.next

/-- Frames are played in the order in which they begin, however they overlap. -/
theorem ascending_played : Ascending ((empty .adaptive rate times).played us) := by
  obtain ⟨heard, ledger, hbooks, -⟩ := books_empty rate times us
  exact (List.pairwise_append.1 hbooks.ascending).1

theorem mem_arrivals_of_played {f : Frame} (hf : f ∈ (empty .adaptive rate times).played us) :
    f ∈ arrivals none us := by
  obtain ⟨heard, ledger, hbooks, hledger⟩ := books_empty rate times us
  obtain ⟨a, ha, rfl⟩ := List.mem_map.1 (hbooks.played.mem_iff.2 hf)
  rw [← hledger]
  exact List.mem_map_of_mem (List.mem_filter.1 ha).1

end

end JitterBuffer

/-! ## Frames and the timestamps that they were sent with -/

/-- A use brings one of some frames, with the low 32 bits of its timestamp, or none. -/
def Use.Carries (frames : List Frame) : Use → Prop
  | .put stamp _ pcm => pcm = [] ∨ ∃ f ∈ frames, stamp = UInt32.ofNat f.1 ∧ pcm = f.2
  | .read _ => True

/-- A frame that arrived is one of some frames, with its timestamp shifted. -/
def ShiftOf (shift : Int) (frames : List Frame) (k : Frame) : Prop :=
  ∃ f ∈ frames, (k.1 : Int) = f.1 + shift ∧ k.2 = f.2

section Carried

variable {frames : List Frame} (hspan : ∀ f ∈ frames, ∀ g ∈ frames, g.1 < f.1 + 2147483648)
  {us : List Use}

include hspan in
/-- Whatever frames come after the first one, all of them are shifted by the same. -/
theorem arrivals_shifted {shift : Int} {top : Frame} {last : Nat} (hmem : top ∈ frames)
    (hlast : Shifted shift top.1 last) (hus : ∀ u ∈ us, u.Carries frames) :
    ∀ k ∈ arrivals (some last) us, ShiftOf shift frames k := by
  induction us generalizing top last with
  | nil => simp [arrivals]
  | cons u us ih =>
    have hrest := fun v hv => hus v (List.mem_cons_of_mem u hv)
    have hu := hus u List.mem_cons_self
    cases u with
    | read out => exact ih hmem hlast hrest
    | put stamp arrivalNanos pcm =>
      rw [arrivals]
      rcases hu with rfl | ⟨f, hf, rfl, rfl⟩
      · exact ih hmem hlast hrest
      · have hlow := hspan f hf top hmem
        have hhigh := hspan top hmem f hf
        have hext := extend_true hlast (by omega) hhigh
        have hnext := hlast.next hext
        split
        · exact ih hmem hlast hrest
        · intro k hk
          rcases List.mem_cons.1 hk with rfl | hk
          · exact ⟨f, hf, hext, rfl⟩
          · rcases Nat.le_total top.1 f.1 with hle | hle
            · rw [Nat.max_eq_right hle] at hnext
              exact ih hf hnext hrest k hk
            · rw [Nat.max_eq_left hle] at hnext
              exact ih hmem hnext hrest k hk

include hspan in
/-- Frames that are sent within half of the range of their timestamps arrive with the distances that
they were sent with. -/
theorem arrivals_true (hus : ∀ u ∈ us, u.Carries frames) :
    ∃ shift, ∀ k ∈ arrivals none us, ShiftOf shift frames k := by
  induction us with
  | nil => exact ⟨0, by simp [arrivals]⟩
  | cons u us ih =>
    have hrest := fun v hv => hus v (List.mem_cons_of_mem u hv)
    have hu := hus u List.mem_cons_self
    cases u with
    | read out => exact ih hrest
    | put stamp arrivalNanos pcm =>
      rw [arrivals]
      rcases hu with rfl | ⟨f, hf, rfl, rfl⟩
      · exact ih hrest
      · split
        · exact ih hrest
        · refine ⟨(extend none (UInt32.ofNat f.1) : Int) - f.1, fun k hk => ?_⟩
          rcases List.mem_cons.1 hk with rfl | hk
          · exact ⟨f, hf, by show (_ : Int) = _; omega, rfl⟩
          · rw [highest_none] at hk
            exact arrivals_shifted hspan hf (shifted_first f.1) hrest k hk

end Carried

/-! ## What keeps the position -/

/-- No frame ends before one that begins before it. -/
def NoneNested (frames : List Frame) : Prop :=
  ∀ f ∈ frames, ∀ g ∈ frames, f.1 < g.1 → stampBehind f ≤ stampBehind g

/-- No frame begins before the end of one that begins before it. -/
def NoneOverlap (frames : List Frame) : Prop :=
  ∀ f ∈ frames, ∀ g ∈ frames, f.1 < g.1 → stampBehind f ≤ g.1

theorem NoneOverlap.noneNested {frames : List Frame} (h : NoneOverlap frames) :
    NoneNested frames :=
  fun f hf g hg hlt => Nat.le_trans (h f hf g hg hlt) (Nat.le_add_right _ _)

theorem stampBehind_le_last {fs : List Frame}
    (h : fs.Pairwise fun f g => stampBehind f ≤ stampBehind g) {last : Frame}
    (hlast : fs.getLast? = some last) : ∀ f ∈ fs, stampBehind f ≤ stampBehind last := by
  obtain ⟨front, rfl⟩ := List.getLast?_eq_some_iff.1 hlast
  intro f hf
  rcases List.mem_append.1 hf with hf | hf
  · exact (List.pairwise_append.1 h).2.2 f hf last List.mem_cons_self
  · exact Nat.le_of_eq (congrArg stampBehind (List.mem_singleton.1 hf))

namespace JitterBuffer

/-- In the course of some uses the position never moves back. -/
def Advances (b : JitterBuffer) (us : List Use) : Prop :=
  ∀ before between after p, us = before ++ between ++ after →
    (b.useAll before).position = some p →
    ∃ p', (b.useAll (before ++ between)).position = some p' ∧ p ≤ p'

/-- In the course of some uses the position never moves back, no frame is played that begins before
the end of one played earlier, and none that does is accepted. -/
structure KeepsPosition (b : JitterBuffer) (us : List Use) : Prop where
  advances : b.Advances us
  plays : (b.played us).Pairwise fun f g => stampBehind f ≤ g.1
  accepts : ∀ before stamp arrivalNanos pcm after,
    us = before ++ .put stamp arrivalNanos pcm :: after → pcm ≠ [] →
    (∃ f ∈ b.played before,
      extend (b.useAll before).queue.lastStamp stamp < stampBehind f) →
    ((b.useAll before).put stamp arrivalNanos pcm).queue.lateDrops =
      (b.useAll before).queue.lateDrops + 1

section

variable {rate : UInt32} {times : DelayTimes} {us : List Use} {frames : List Frame}
  {shift : Int}

theorem advances_of_sorted
    (h : ((empty .adaptive rate times).played us).Pairwise fun f g =>
      stampBehind f ≤ stampBehind g) : (empty .adaptive rate times).Advances us := by
  rintro before between after p rfl hp
  rw [position_eq, Option.map_eq_some_iff] at hp
  obtain ⟨f, hf, rfl⟩ := hp
  rw [played_append] at h
  have hmem : f ∈ (empty .adaptive rate times).played (before ++ between) := by
    rw [played_append]
    exact List.mem_append_left _ (List.mem_of_getLast? hf)
  have hlast := List.getLast?_eq_some_getLast (List.ne_nil_of_mem hmem)
  refine ⟨_, by rw [position_eq, hlast]; rfl, ?_⟩
  exact stampBehind_le_last (List.pairwise_append.1 h).1 hlast f hmem

/-- What holds of any two frames that were sent holds of any two that are played. -/
theorem played_pairwise (hshift : ∀ k ∈ arrivals none us, ShiftOf shift frames k)
    {R : Frame → Frame → Prop}
    (hR : ∀ k l, ShiftOf shift frames k → ShiftOf shift frames l → k.1 < l.1 → R k l) :
    ((empty .adaptive rate times).played us).Pairwise R := by
  have hall := fun k hk => hshift k (mem_arrivals_of_played rate times us hk)
  exact (ascending_played rate times us).imp_of_mem fun {k l} hk hl hlt =>
    hR k l (hall k hk) (hall l hl) hlt

theorem advances_of_noneNested (hshift : ∀ k ∈ arrivals none us, ShiftOf shift frames k)
    (h : NoneNested frames) : (empty .adaptive rate times).Advances us := by
  refine advances_of_sorted (played_pairwise hshift ?_)
  rintro k l ⟨f, hf, hk, hkf⟩ ⟨g, hg, hl, hlg⟩ hlt
  have := h f hf g hg (by omega)
  unfold stampBehind at this ⊢
  rw [hkf, hlg]
  omega

theorem keepsPosition_of_noneOverlap (hshift : ∀ k ∈ arrivals none us, ShiftOf shift frames k)
    (h : NoneOverlap frames) : (empty .adaptive rate times).KeepsPosition us := by
  have hplays : ((empty .adaptive rate times).played us).Pairwise fun f g =>
      stampBehind f ≤ g.1 := by
    refine played_pairwise hshift ?_
    rintro k l ⟨f, hf, hk, hkf⟩ ⟨g, hg, hl, hlg⟩ hlt
    have := h f hf g hg (by omega)
    unfold stampBehind at this ⊢
    rw [hkf]
    omega
  refine ⟨advances_of_noneNested hshift h.noneNested, hplays, ?_⟩
  rintro before stamp arrivalNanos pcm after rfl hpcm ⟨f, hf, hlt⟩
  obtain ⟨heard, ledger, hbooks, -⟩ := books_empty rate times before
  have hsorted : ((empty .adaptive rate times).played before).Pairwise fun f g =>
      stampBehind f ≤ stampBehind g := by
    rw [played_append] at hplays
    exact (List.pairwise_append.1 hplays).1.imp fun hle => Nat.le_trans hle (Nat.le_add_right _ _)
  have hlast := List.getLast?_eq_some_getLast (List.ne_nil_of_mem hf)
  rw [queue_put, hbooks.late_iff]
  exact ⟨hpcm, _, hlast, Nat.lt_of_lt_of_le hlt (stampBehind_le_last hsorted hlast f hf)⟩

end

end JitterBuffer

/-! ## Overtaking -/

namespace Queue

theorem pull_first {wanted : Nat} {f : Frame} (hpos : 0 < wanted) (hle : wanted ≤ f.2.length)
    (next : Option Nat) (rest : List Frame) :
    pull .adaptive wanted [] next (f :: rest) =
      ⟨f.2.take wanted, f.2.drop wanted, rest, some (stampBehind f)⟩ := by
  have hnone : ¬ wanted ≤ ([] : List Int16).length := Nat.not_le_of_lt hpos
  rw [pull, if_neg hnone]
  cases rest with
  | nil => rfl
  | cons g rest =>
    rw [pull, List.length_nil, Nat.sub_zero, if_pos hle]
    rfl

/-- With nothing left of an earlier frame, samples are read of the first frame that waits. -/
theorem read_first {q : Queue} (hmode : q.mode = .adaptive) (hpending : q.pending = [])
    {f : Frame} {rest : List Frame} (hframes : q.frames = f :: rest) {target : Nat}
    (hready : q.ready target = true) {wanted : Nat} (hpos : 0 < wanted)
    (hle : wanted ≤ f.2.length) :
    (q.read target wanted).1 = { q with
      frames := rest
      pending := f.2.drop wanted
      nextStamp := some (stampBehind f)
      buffered := q.buffered - wanted
      playing := true } := by
  have htaken : (f.2.take wanted).length = wanted := by
    rw [List.length_take]
    omega
  have hsome : (!(f.2.take wanted).isEmpty) = true := by
    rw [Bool.not_eq_true', List.isEmpty_eq_false_iff, ← List.length_pos_iff]
    omega
  rw [read, if_pos hready, hmode, hpending, hframes]
  simp only [pull_first hpos hle, htaken, hsome]

end Queue

theorem JitterBuffer.use_read_first {b : JitterBuffer} (hmode : b.queue.mode = .adaptive)
    (hpending : b.queue.pending = []) {f : Frame} {rest : List Frame}
    (hframes : b.queue.frames = f :: rest) (hready : b.queue.ready b.target = true)
    {out : List UInt8} {wanted : Nat} (hout : out.length / 2 = wanted) (hpos : 0 < wanted)
    (hle : wanted ≤ f.2.length) :
    (b.use (.read out)).queue = { b.queue with
        frames := rest
        pending := f.2.drop wanted
        nextStamp := some (stampBehind f)
        buffered := b.queue.buffered - wanted
        playing := true } ∧
      b.begun (.read out) = [f] := by
  have hread := Queue.read_first hmode hpending hframes hready hpos hle
  rw [← hout] at hread ⊢
  refine ⟨hread, Queue.begun_eq ?_⟩
  rw [hread, hframes]
  rfl

/-- A queue that was never read and has room for a frame that begins last takes it to the end. -/
theorem Queue.put_behind {q : Queue} (hmode : q.mode = .adaptive) (hnext : q.nextStamp = none)
    (hbuffered : q.buffered = sampleCount q.frames) {stamp : UInt32} {pcm : List Int16}
    (hpcm : pcm ≠ []) {ext : Nat} (hext : extend q.lastStamp stamp = ext)
    (hbehind : ∀ f ∈ q.frames, f.1 < ext) (hroom : q.buffered + pcm.length ≤ q.greatest) :
    q.put stamp pcm = { q with
      lastStamp := highest q.lastStamp ext
      frames := q.frames ++ [(ext, pcm)]
      buffered := q.buffered + pcm.length } := by
  have hinsert := insertFrame_behind hbehind pcm
  have hcount : sampleCount (q.frames ++ [(ext, pcm)]) = q.buffered + pcm.length := by
    rw [sampleCount_append, hbuffered]
    rfl
  have hput := put_roomy hmode hnext hbuffered hpcm hext
    (by rw [hinsert]; exact Nat.le_trans (Nat.le_of_eq hcount) hroom)
  rw [hput, hinsert, hcount]

/-- Two frames come in before anything is read. -/
def bothPut (f g : Frame) : List Use :=
  [.put (UInt32.ofNat f.1) 0 f.2, .put (UInt32.ofNat g.1) 0 g.2]

/-- All of a frame is read. -/
def readAll (f : Frame) : Use := .read (List.replicate (2 * f.2.length) 0)

/-- A single sample is read. -/
def readOne : Use := .read [0, 0]

/-- The first of two frames as it waits, with its timestamp widened. -/
def firstWaiting (f : Frame) : Frame := (extend none (UInt32.ofNat f.1), f.2)

/-- The second of two frames as it waits, as far behind the first one as it was sent. -/
def secondWaiting (f g : Frame) : Frame :=
  (extend none (UInt32.ofNat f.1) + (g.1 - f.1), g.2)

/-- Frames overlap, or one lies within the other, as they wait as they were sent. -/
theorem waiting_iff {f g : Frame} (hlt : f.1 < g.1) :
    (stampBehind (firstWaiting f) ≤ stampBehind (secondWaiting f g) ↔
        stampBehind f ≤ stampBehind g) ∧
      (stampBehind (firstWaiting f) ≤ (secondWaiting f g).1 ↔ stampBehind f ≤ g.1) := by
  simp only [stampBehind, firstWaiting, secondWaiting]
  omega

/-- A queue with just enough room for two frames, both of which wait. -/
def Queue.ofTwo (f g : Frame) : Queue where
  mode := .adaptive
  greatest := f.2.length + g.2.length
  frames := [f, g]
  pending := []
  buffered := f.2.length + g.2.length
  playing := false
  arrivals := 0
  nextStamp := none
  lastStamp := some g.1
  lateDrops := 0
  overflowDrops := 0

namespace JitterBuffer

section Overtaken

variable {f g : Frame} (hf : f.2 ≠ []) (hg : g.2 ≠ []) (hlt : f.1 < g.1)
  (hnear : g.1 < f.1 + 2147483648) {rate : UInt32} {times : DelayTimes}
  (hroom : (Delays.ofTimes times rate).greatest = f.2.length + g.2.length)

include hf hg hlt hnear hroom

theorem queue_bothPut : ((empty .adaptive rate times).useAll (bothPut f g)).queue =
    Queue.ofTwo (firstWaiting f) (secondWaiting f g) := by
  have hbehind : (firstWaiting f).1 < (secondWaiting f g).1 := by
    show extend none (UInt32.ofNat f.1) < extend none (UInt32.ofNat f.1) + (g.1 - f.1)
    omega
  have hsecond : extend (some (firstWaiting f).1) (UInt32.ofNat g.1) = (secondWaiting f g).1 := by
    have hnext := extend_true (shifted_first f.1) (Nat.le_add_right_of_le (Nat.le_of_lt hlt)) hnear
    show extend (some (extend none (UInt32.ofNat f.1))) (UInt32.ofNat g.1) =
      extend none (UInt32.ofNat f.1) + (g.1 - f.1)
    omega
  have hhighest : highest (some (firstWaiting f).1) (secondWaiting f g).1 =
      some (secondWaiting f g).1 :=
    congrArg some (Nat.max_eq_right (Nat.le_of_lt hbehind))
  let q : Queue := Queue.empty .adaptive (f.2.length + g.2.length)
  have hfirst : q.put (UInt32.ofNat f.1) f.2 = { q with
      lastStamp := highest none (firstWaiting f).1
      frames := [firstWaiting f]
      buffered := 0 + f.2.length } :=
    Queue.put_behind rfl rfl rfl hf rfl (by simp [q, Queue.empty])
      (by rw [show q.buffered = 0 from rfl, Nat.zero_add]; exact Nat.le_add_right _ _)
  have hboth : (q.put (UInt32.ofNat f.1) f.2).put (UInt32.ofNat g.1) g.2 =
      Queue.ofTwo (firstWaiting f) (secondWaiting f g) := by
    rw [hfirst, highest_none, Nat.zero_add,
      Queue.put_behind rfl rfl rfl hg hsecond (by simpa using hbehind) (Nat.le_refl _), hhighest]
    rfl
  have hempty : (empty .adaptive rate times).queue = q := congrArg (Queue.empty .adaptive) hroom
  show (((empty .adaptive rate times).put _ 0 f.2).put _ 0 g.2).queue = _
  rw [queue_put, queue_put, hempty, hboth]

/-- Of two frames that wait, the second one is played when its turn comes, wherever the first one
ends, and the position moves to the end of the frame that is being played. -/
theorem overtaken_read :
    let b := empty .adaptive rate times
    let us := bothPut f g ++ [readAll f]
    (b.useAll us).position = some (stampBehind (firstWaiting f)) ∧
      ((b.useAll us).use readOne).position = some (stampBehind (secondWaiting f g)) ∧
      b.played (us ++ [readOne]) = [firstWaiting f, secondWaiting f g] := by
  intro b us
  have hqueue := queue_bothPut hf hg hlt hnear hroom
  generalize hwaiting : (empty .adaptive rate times).useAll (bothPut f g) = w at hqueue
  have hlength : (List.replicate (2 * f.2.length) (0 : UInt8)).length / 2 = f.2.length := by
    rw [List.length_replicate, Nat.mul_div_cancel_left _ (by decide)]
  have hpos : 0 < f.2.length := List.length_pos_iff.2 hf
  have hdelays : w.delays = Delays.ofTimes times rate := by
    rw [← hwaiting]
    exact ((empty .adaptive rate times).useAll_frame _).1
  have htarget : w.target ≤ f.2.length + g.2.length := by
    rw [target, mode, hqueue, hdelays, ← hroom]
    exact Delays.target_le _ .adaptive _
  have hready : w.queue.ready w.target = true := by
    rw [Queue.ready_eq_true_iff, hqueue]
    exact .inr ⟨Nat.ne_of_gt (Nat.add_pos_left hpos _), htarget⟩
  -- All of the first frame is read, so nothing of it is left when the second one has its turn.
  have hread := use_read_first (b := w) (f := firstWaiting f) (by rw [hqueue]; rfl)
    (by rw [hqueue]; rfl) (by rw [hqueue]; rfl) hready hlength hpos (Nat.le_refl _)
  obtain ⟨hfirst, hbegun⟩ : (w.use (readAll f)).queue = _ ∧ w.begun (readAll f) = _ := hread
  generalize hplaying : w.use (readAll f) = v at hfirst
  obtain ⟨hsecond, hbegun'⟩ := use_read_first (b := v) (f := secondWaiting f g)
    (by rw [hfirst, hqueue]; rfl) (by rw [hfirst]; exact List.drop_length) (by rw [hfirst])
    (by rw [Queue.ready_eq_true_iff, hfirst]; exact .inl rfl)
    (show ([0, 0] : List UInt8).length / 2 = 1 from rfl) Nat.one_pos (List.length_pos_iff.2 hg)
  have hv : b.useAll us = v := by
    rw [← hplaying, ← hwaiting]
    rfl
  have hplayed : b.played (us ++ [readOne]) = [firstWaiting f] ++ [secondWaiting f g] := by
    have hnone : b.played (bothPut f g) = [] := rfl
    rw [played_append, hv, played_append, hnone, hwaiting, played, played, hbegun, played, played,
      List.nil_append, List.append_nil, List.append_nil]
    exact congrArg _ hbegun'
  rw [hv]
  exact ⟨by rw [position, hfirst], congrArg Queue.nextStamp hsecond, hplayed⟩

end Overtaken

end JitterBuffer

/-! ## Which frames keep the position -/

/-- Delays under which a buffer has just enough room for two frames. -/
def tightTimes (f g : Frame) : DelayTimes := ⟨0, f.2.length + g.2.length, 0⟩

theorem greatest_tightTimes {f : Frame} (hf : f.2 ≠ []) (g : Frame) :
    (Delays.ofTimes (tightTimes f g) 1000).greatest = f.2.length + g.2.length := by
  have hpos : 0 < f.2.length := List.length_pos_iff.2 hf
  show max 1 ((f.2.length + g.2.length) * 1000 / 1000) = _
  omega

section Sent

variable {frames : List Frame} {f g : Frame}

theorem carries_overtaking (hf : f ∈ frames) (hg : g ∈ frames) :
    ∀ u ∈ bothPut f g ++ [readAll f] ++ [readOne], u.Carries frames := by
  have hfirst : (Use.put (UInt32.ofNat f.1) 0 f.2).Carries frames := .inr ⟨f, hf, rfl, rfl⟩
  have hsecond : (Use.put (UInt32.ofNat g.1) 0 g.2).Carries frames := .inr ⟨g, hg, rfl, rfl⟩
  intro u hu
  simp only [bothPut, List.cons_append, List.nil_append, List.mem_cons, List.not_mem_nil,
    or_false] at hu
  rcases hu with rfl | rfl | rfl | rfl
  · exact hfirst
  · exact hsecond
  · trivial
  · trivial

/-- **Main theorem**: the position of an adaptive buffer is kept exactly as far as the frames that
are sent do not overlap.

Some frames are sent within half of the range of their timestamps, in any order, some of them never
and some several times, and audio is read in between. In all runs of all adaptive buffers the
position never moves back if and only if none of the frames lies within another one, up to its end.
And in all runs, besides that, no frame is accepted or played that begins before the end of one that
was played, if and only if no two of the frames overlap. -/
theorem position_advances_iff (hsound : ∀ f ∈ frames, f.2 ≠ [])
    (hspan : ∀ f ∈ frames, ∀ g ∈ frames, g.1 < f.1 + 2147483648) :
    ((∀ rate times us, (∀ u ∈ us, Use.Carries frames u) →
        (JitterBuffer.empty .adaptive rate times).Advances us) ↔ NoneNested frames) ∧
      ((∀ rate times us, (∀ u ∈ us, Use.Carries frames u) →
        (JitterBuffer.empty .adaptive rate times).KeepsPosition us) ↔ NoneOverlap frames) := by
  have hovertaken {f g : Frame} (hf : f ∈ frames) (hg : g ∈ frames) (hlt : f.1 < g.1) :=
    JitterBuffer.overtaken_read (hsound f hf) (hsound g hg) hlt (hspan f hf g hg)
      (greatest_tightTimes (hsound f hf) g)
  refine ⟨⟨fun h f hf g hg hlt => ?_, fun h rate times us hus => ?_⟩,
    ⟨fun h f hf g hg hlt => ?_, fun h rate times us hus => ?_⟩⟩
  · obtain ⟨hbefore, hafter, -⟩ := hovertaken hf hg hlt
    have hadvances := h 1000 (tightTimes f g) _ (carries_overtaking hf hg)
    obtain ⟨p, hp, hle⟩ := hadvances (bothPut f g ++ [readAll f]) [readOne] [] _
      (List.append_nil _).symm hbefore
    rw [JitterBuffer.useAll_append] at hp
    obtain rfl : stampBehind (secondWaiting f g) = p := Option.some.inj (hafter.symm.trans hp)
    exact (waiting_iff hlt).1.1 hle
  · obtain ⟨shift, hshift⟩ := arrivals_true hspan hus
    exact JitterBuffer.advances_of_noneNested hshift h
  · obtain ⟨-, -, hplayed⟩ := hovertaken hf hg hlt
    have hkeeps := h 1000 (tightTimes f g) _ (carries_overtaking hf hg)
    have hplays := hkeeps.plays
    rw [hplayed] at hplays
    exact (waiting_iff hlt).2.1 ((List.pairwise_cons.1 hplays).1 _ List.mem_cons_self)
  · obtain ⟨shift, hshift⟩ := arrivals_true hspan hus
    exact JitterBuffer.keepsPosition_of_noneOverlap hshift h

end Sent

/-- Frames that adjoin each other, with a gap and a wrap-around between them. -/
def adjoiningFrames : List Frame :=
  [(4294967293, [1, 2, 3]), (4294967296, [4, 5]), (4294967300, [6])]

theorem position_advances_iff_adjoining :
    (∀ f ∈ adjoiningFrames, f.2 ≠ []) ∧
      (∀ f ∈ adjoiningFrames, ∀ g ∈ adjoiningFrames, g.1 < f.1 + 2147483648) ∧
      ∀ rate times us, (∀ u ∈ us, Use.Carries adjoiningFrames u) →
        (JitterBuffer.empty .adaptive rate times).KeepsPosition us := by
  have hsound : ∀ f ∈ adjoiningFrames, f.2 ≠ [] := by decide
  have hspan : ∀ f ∈ adjoiningFrames, ∀ g ∈ adjoiningFrames, g.1 < f.1 + 2147483648 := by decide
  have hnone : NoneOverlap adjoiningFrames := by
    unfold NoneOverlap
    decide
  exact ⟨hsound, hspan, (position_advances_iff hsound hspan).2.2 hnone⟩

/-- A frame, and one that begins and ends within it. -/
def outerFrame : Frame := (0, List.replicate 320 1)

@[inherit_doc outerFrame]
def innerFrame : Frame := (160, List.replicate 80 2)

/-- The position moves from the end of the outer frame back to the end of the inner one, and then a
frame is accepted that begins in between. -/
theorem not_keepsPosition :
    let b := JitterBuffer.empty .adaptive 8000 ⟨0, 50, 0⟩
    let us := bothPut outerFrame innerFrame ++ [readAll outerFrame]
    (b.useAll us).position = some 4294967616 ∧
      (b.useAll (us ++ [readOne])).position = some 4294967536 ∧
      ((b.useAll (us ++ [readOne])).put 250 0 [3]).queue.lateDrops ≠
        (b.useAll (us ++ [readOne])).queue.lateDrops + 1 ∧
      ¬ b.KeepsPosition (us ++ [readOne]) := by
  intro b us
  have houter : outerFrame.2.length = 320 := List.length_replicate
  have hinner : innerFrame.2.length = 80 := List.length_replicate
  have hsound {f : Frame} {n : Nat} (h : f.2.length = n + 1) : f.2 ≠ [] :=
    List.ne_nil_of_length_eq_add_one h
  have hroom : (Delays.ofTimes ⟨0, 50, 0⟩ 8000).greatest =
      outerFrame.2.length + innerFrame.2.length := by
    rw [houter, hinner]
    rfl
  obtain ⟨hbefore, hafter, hplayed⟩ :
      (b.useAll us).position = some (stampBehind (firstWaiting outerFrame)) ∧
        ((b.useAll us).use readOne).position =
          some (stampBehind (secondWaiting outerFrame innerFrame)) ∧
        b.played (us ++ [readOne]) =
          [firstWaiting outerFrame, secondWaiting outerFrame innerFrame] :=
    JitterBuffer.overtaken_read (hsound houter) (hsound hinner) (by decide) (by decide) hroom
  have hend : stampBehind (firstWaiting outerFrame) = 4294967616 := by
    rw [stampBehind, firstWaiting, houter]
    rfl
  have hend' : stampBehind (secondWaiting outerFrame innerFrame) = 4294967536 := by
    rw [stampBehind, secondWaiting, hinner]
    rfl
  rw [hend] at hbefore
  rw [hend'] at hafter
  have happend : b.useAll (us ++ [readOne]) = (b.useAll us).use readOne :=
    b.useAll_append us [readOne]
  refine ⟨hbefore, happend ▸ hafter, ?_, fun hkeeps => ?_⟩
  · obtain ⟨heard, ledger, hbooks, -⟩ := JitterBuffer.books_empty 8000 ⟨0, 50, 0⟩ (us ++ [readOne])
    have hlast : (b.useAll (us ++ [readOne])).queue.lastStamp = some 4294967456 := by
      have hstamps : (us ++ [readOne]).filterMap Use.stamp? = [0, 160] := rfl
      rw [JitterBuffer.lastStamp_useAll, JitterBuffer.widened_eq, hstamps]
      decide
    have hext : extend (some 4294967456) 250 = 4294967546 := by decide
    rw [JitterBuffer.queue_put, ne_eq, hbooks.late_iff, hplayed, hlast, hext]
    rintro ⟨-, f, hf, hlt⟩
    obtain rfl : secondWaiting outerFrame innerFrame = f := Option.some.inj hf
    rw [hend'] at hlt
    exact absurd hlt (by decide)
  · obtain ⟨p, hp, hle⟩ := hkeeps.advances us [readOne] [] _ (List.append_nil _).symm hbefore
    rw [happend, hafter] at hp
    cases hp
    exact absurd hle (by decide)

end CallBridge.Playout
