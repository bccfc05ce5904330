import CallBridge.Proofs.Playout.Order

/-!
# First in, first out

A simple buffer numbers the frames as they arrive and orders them by these numbers. Timestamps and
arrival times are kept up to date as in an adaptive buffer, but nothing is decided by them. So the
buffer is a plain queue: what is played is what arrived, in the order of arrival, without the frames
that were dropped for a full buffer, and those are the oldest at the time.

The watch over a buffer is kept as for an adaptive one, only that frames are entered in the ledger
under the number of their arrival.

Results:
* `insertFrame_behind`: a frame with a new number is put behind all others.
* `Queue.put_simple`: what a frame that arrives does to a simple queue.
* `Turns.put`, `Turns.read`: the ledger stays right whatever is done to the queue.
* `SameSound.replies_eq`: two buffers that differ in their timestamps and arrival times are heard
  the same.
* `simple_first_in_first_out`: what was heard and what became of all frames after any uses of a
  simple buffer.
-/

namespace CallBridge.Playout

/-! ## Behind all others -/

theorem insertFrame_behind {key : Nat} {fs : List Frame} (h : ∀ f ∈ fs, f.1 < key)
    (pcm : List Int16) : insertFrame key pcm fs = (fs ++ [(key, pcm)], none) := by
  induction fs with
  | nil => rfl
  | cons f rest ih =>
    have hf : f.1 < key := h f List.mem_cons_self
    rw [insertFrame, if_neg (by omega), if_neg (by omega),
      ih fun g hg => h g (List.mem_cons_of_mem f hg)]
    rfl

/-- Frames in ascending order are told by which frames they are. -/
theorem Ascending.eq_of_perm {fs gs : List Frame} (hf : Ascending fs) (hg : Ascending gs)
    (h : fs.Perm gs) : fs = gs := by
  refine h.eq_of_pairwise (fun f g _ _ hlt hgt => ?_) hf hg
  exact absurd hgt (Nat.lt_asymm hlt)

namespace Queue

/-- Of what arrived, frames were dropped at the front of a queue: as many as needed for the rest to
fit, and nothing else was taken away. -/
structure DropsOldest (q : Queue) (pcm : List Int16) (dropped : List Frame) (after : Queue) :
    Prop where
  front : q.frames ++ [(q.arrivals + 1, pcm)] = dropped ++ after.frames
  pending : after.pending = q.pending
  buffered : after.buffered = q.buffered + pcm.length - sampleCount dropped
  counted : after.overflowDrops = q.overflowDrops + dropped.length
  /-- Each of the frames was dropped while too much was buffered. -/
  needed : ∀ before f behind, dropped = before ++ f :: behind →
    q.greatest < q.buffered + pcm.length - sampleCount before
  enough : after.frames = [] ∨ after.buffered ≤ q.greatest

theorem put_numbered {q : Queue} (hmode : q.mode = .simple) (stamp : UInt32) {pcm : List Int16}
    (hpcm : pcm ≠ []) :
    q.put stamp pcm =
      { q with
        lastStamp := highest q.lastStamp (extend q.lastStamp stamp)
        arrivals := q.arrivals + 1 }.enqueue (q.arrivals + 1) pcm := by
  rw [put_noted q stamp hpcm]
  simp only [putExtended, isLate, hmode, Bool.false_eq_true, if_false]

/-- A frame that arrives at a simple queue is put behind all others under a new number, and then
frames at the front are dropped while too much is buffered. -/
theorem put_simple {q : Queue} (hmode : q.mode = .simple)
    (hnumbers : ∀ f ∈ q.frames, f.1 ≤ q.arrivals) (stamp : UInt32) {pcm : List Int16}
    (hpcm : pcm ≠ []) :
    ∃ dropped, q.DropsOldest pcm dropped (q.put stamp pcm) ∧
      (q.put stamp pcm).mode = .simple ∧ (q.put stamp pcm).arrivals = q.arrivals + 1 ∧
      (q.put stamp pcm).lateDrops = q.lateDrops := by
  have hinsert : insertFrame (q.arrivals + 1) pcm q.frames =
      (q.frames ++ [(q.arrivals + 1, pcm)], none) :=
    insertFrame_behind (fun f hf => Nat.lt_succ_of_le (hnumbers f hf)) pcm
  have hreplaced : replacedCount (q.arrivals + 1) pcm q.frames = 0 := by
    rw [replacedCount, hinsert]
    rfl
  obtain ⟨dropped, rest, hsplit, hneeded, hdone, henqueue⟩ :=
    enqueue_shed { q with
      lastStamp := highest q.lastStamp (extend q.lastStamp stamp)
      arrivals := q.arrivals + 1 } (q.arrivals + 1) pcm
  simp only [hinsert, hreplaced, Nat.sub_zero] at hsplit hneeded hdone henqueue
  rw [put_numbered hmode stamp hpcm, henqueue]
  exact ⟨dropped, ⟨hsplit, rfl, rfl, rfl, hneeded, hdone⟩, hmode, rfl, rfl⟩

theorem read_lastStamp (q : Queue) (last : Option Nat) (target wanted : Nat) :
    { q with lastStamp := last }.read target wanted =
      ({ (q.read target wanted).1 with lastStamp := last }, (q.read target wanted).2) := by
  have hsame : { q with lastStamp := last }.ready target = q.ready target := rfl
  by_cases hready : q.ready target = true
  · rw [read, if_pos (hsame.trans hready), read, if_pos hready]
  · rw [read, if_neg (hsame ▸ hready), read, if_neg hready]

theorem arrivals_read (q : Queue) (target wanted : Nat) :
    (q.read target wanted).1.arrivals = q.arrivals := by
  unfold read
  split <;> rfl

end Queue

/-! ## Watching a simple buffer -/

namespace Watch

/-- The watch over a simple buffer after a use of it: a frame is entered under the number of its
arrival. -/
def number (w : Watch) : Use → Watch
  | .put stamp arrivalNanos pcm =>
    let buffer := w.buffer.put stamp arrivalNanos pcm
    { w with
      buffer
      ledger := enter w.buffer.queue buffer.queue (w.ledger.length + 1) pcm w.ledger }
  | .read out => w.step (.read out)

/-- The watch over a simple buffer after one use after the other. -/
def numberAll (w : Watch) (us : List Use) : Watch := us.foldl number w

end Watch

/-- The frames that come in some uses; one without samples is no frame. -/
def framesPut : List Use → List (List Int16)
  | [] => []
  | .read _ :: us => framesPut us
  | .put _ _ pcm :: us => if pcm.isEmpty then framesPut us else pcm :: framesPut us

/-! ## Taking turns -/

/-- A frame waits, was played or was dropped. -/
def Arrival.InTime (a : Arrival) : Prop :=
  a.fate = .waiting ∨ a.fate = .played ∨ a.fate = .dropped

/-- The ledger of a simple queue agrees with what the queue shows. -/
structure Turns (q : Queue) (heard : List Int16) (ledger : List Arrival) : Prop where
  simple : q.mode = .simple
  buffered : q.buffered = q.pending.length + sampleCount q.frames
  arrivals : q.arrivals = ledger.length
  numbers : ledger.map (·.stamp) = List.range' 1 ledger.length
  fates : ∀ a ∈ ledger, a.InTime
  waiting : framesOf .waiting ledger = q.frames
  heard : heard ++ q.pending = (framesOf .played ledger).flatMap (·.2)
  /-- Whatever was played arrived before all that waits. -/
  older : ∀ f ∈ framesOf .played ledger, ∀ g ∈ q.frames, f.1 < g.1
  late : q.lateDrops = 0
  dropped : q.overflowDrops = (framesOf .dropped ledger).length

theorem ascending_framesOf {ledger : List Arrival}
    (h : ledger.map (·.stamp) = List.range' 1 ledger.length) (fate : Fate) :
    Ascending (framesOf fate ledger) := by
  have hall : Ascending (ledger.map Arrival.frame) := by
    refine List.pairwise_map.2 ?_
    have hnumbers := List.pairwise_lt_range' (s := 1) (n := ledger.length) 1
    rw [← h] at hnumbers
    exact List.pairwise_map.1 hnumbers
  exact hall.sublist (List.filter_sublist.map _)

section Settle

variable {ledger : List Arrival} (q : Queue) (fate : Fate)

theorem length_settle : (Watch.settle q fate ledger).length = ledger.length := List.length_map _

theorem numbers_settle (h : ledger.map (·.stamp) = List.range' 1 ledger.length) :
    (Watch.settle q fate ledger).map (·.stamp) =
      List.range' 1 (Watch.settle q fate ledger).length := by
  rw [length_settle, ← h, Watch.settle, List.map_map]
  exact List.map_congr_left fun a _ => a.stamp_resolve _ fate

theorem fates_settle (h : ∀ a ∈ ledger, a.InTime) {fate : Fate}
    (hfate : fate = .waiting ∨ fate = .played ∨ fate = .dropped) :
    ∀ a ∈ Watch.settle q fate ledger, a.InTime := by
  intro a ha
  obtain ⟨a₀, ha₀, rfl⟩ := List.mem_map.1 ha
  rw [Arrival.InTime]
  rcases a₀.fate_resolve (fun stamp => q.frames.all (·.1 ≠ stamp)) fate with hnew | hold
  · rw [hnew]
    exact hfate
  · rw [hold]
    exact h a₀ ha₀

end Settle

section Entered

/-- The ledger with a new frame, which waits under the number of its arrival. -/
def entered (pcm : List Int16) (ledger : List Arrival) : List Arrival :=
  ledger ++ [⟨ledger.length + 1, pcm, .waiting⟩]

variable (pcm : List Int16) {ledger : List Arrival}

theorem numbers_entered (h : ledger.map (·.stamp) = List.range' 1 ledger.length) :
    (entered pcm ledger).map (·.stamp) = List.range' 1 (entered pcm ledger).length := by
  rw [entered, List.map_append, h, List.length_append, List.length_singleton,
    List.range'_1_concat, Nat.add_comm 1]
  rfl

theorem fates_entered (h : ∀ a ∈ ledger, a.InTime) : ∀ a ∈ entered pcm ledger, a.InTime := by
  intro a ha
  rcases List.mem_append.1 ha with ha | ha
  · exact h a ha
  · exact .inl (List.mem_singleton.1 ha ▸ rfl)

theorem framesOf_entered_waiting (ledger : List Arrival) :
    framesOf .waiting (entered pcm ledger) =
      framesOf .waiting ledger ++ [(ledger.length + 1, pcm)] :=
  framesOf_append _ _ _

theorem framesOf_entered {pcm : List Int16} {fate : Fate} (hfate : fate ≠ .waiting) :
    framesOf fate (entered pcm ledger) = framesOf fate ledger := by
  rw [entered, framesOf_append]
  simp [framesOf, hfate.symm]

end Entered

namespace Turns

open Watch (enter settle supersede)

variable {q : Queue} {heard : List Int16} {ledger : List Arrival}

theorem stamp_le (h : Turns q heard ledger) {a : Arrival} (ha : a ∈ ledger) :
    a.stamp ≤ ledger.length := by
  have hstamp : a.stamp ∈ ledger.map (·.stamp) := List.mem_map_of_mem ha
  rw [h.numbers, List.mem_range'_1] at hstamp
  omega

theorem key_le (h : Turns q heard ledger) {fate : Fate} {f : Frame}
    (hf : f ∈ framesOf fate ledger) : f.1 ≤ ledger.length := by
  obtain ⟨a, ha, rfl⟩ := List.mem_map.1 hf
  exact h.stamp_le (List.mem_filter.1 ha).1

theorem key_le_arrivals (h : Turns q heard ledger) : ∀ f ∈ q.frames, f.1 ≤ q.arrivals :=
  fun _ hf => h.arrivals ▸ h.key_le (h.waiting ▸ hf)

/-- Frames that left the queue at its front are moved from those that wait to their fate. -/
theorem settled (hnumbers : ledger.map (·.stamp) = List.range' 1 ledger.length) {after : Queue}
    (fate : Fate) (hfate : fate ≠ .waiting) {gone : List Frame}
    (hwaiting : framesOf .waiting ledger = gone ++ after.frames) :
    framesOf .waiting (settle after fate ledger) = after.frames ∧
      (framesOf fate (settle after fate ledger)).Perm (framesOf fate ledger ++ gone) := by
  have hqueue : Ascending (gone ++ after.frames) := hwaiting ▸ ascending_framesOf hnumbers _
  obtain ⟨hstill, hgone⟩ := Books.settled fate hfate (.of_eq hwaiting) hqueue rfl
  have hstays : Ascending (framesOf .waiting (settle after fate ledger)) :=
    ascending_framesOf (numbers_settle after fate hnumbers) _
  exact ⟨hstays.eq_of_perm (List.pairwise_append.1 hqueue).2.1 hstill, hgone⟩

/-- A read moves the oldest frames that wait to the end of what was played. -/
theorem read (h : Turns q heard ledger) (target wanted : Nat) :
    Turns (q.read target wanted).1 (heard ++ (q.read target wanted).2)
      (settle (q.read target wanted).1 .played ledger) := by
  obtain ⟨gone, hsplit, htaken, -⟩ := q.read_front target wanted
  obtain ⟨hmode, -, -, hlate, hdropped⟩ := q.read_frame target wanted
  have hcounted : (q.read target wanted).1.Counted := Queue.Counted.read h.buffered target wanted
  have harrivals := q.arrivals_read target wanted
  generalize (q.read target wanted).1 = after at *
  generalize (q.read target wanted).2 = samples at *
  obtain ⟨hstill, hgone⟩ := settled h.numbers .played (by simp) (h.waiting.trans hsplit)
  have hqueue : Ascending (gone ++ after.frames) :=
    hsplit ▸ h.waiting ▸ ascending_framesOf h.numbers _
  have hplayed :
      framesOf .played (settle after .played ledger) = framesOf .played ledger ++ gone := by
    refine (ascending_framesOf (numbers_settle after .played h.numbers) _).eq_of_perm ?_ hgone
    refine List.pairwise_append.2 ⟨ascending_framesOf h.numbers _,
      (List.pairwise_append.1 hqueue).1, fun f hf g hg => h.older f hf g ?_⟩
    exact hsplit ▸ List.mem_append_left _ hg
  refine ⟨hmode.trans h.simple, hcounted, ?_, numbers_settle after .played h.numbers,
    fates_settle after h.fates (.inr (.inl rfl)), hstill, ?_, ?_, hlate.trans h.late, ?_⟩
  · rw [harrivals, h.arrivals, length_settle]
  · rw [hplayed, List.append_assoc, htaken, ← List.append_assoc, h.heard, List.flatMap_append]
  · intro f hf g hg
    rw [hplayed] at hf
    rcases List.mem_append.1 hf with hf | hf
    · exact h.older f hf g (hsplit ▸ List.mem_append_right _ hg)
    · exact (List.pairwise_append.1 hqueue).2.2 f hf g hg
  · rw [hdropped, h.dropped, Books.framesOf_settle (by simp) (by simp)]

/-- A new frame takes the place of none. -/
theorem supersede_eq (h : Turns q heard ledger) (pcm : List Int16) :
    supersede (ledger.length + 1) pcm ledger = entered pcm ledger := by
  have hkept (a : Arrival) (ha : a ∈ ledger) :
      a.resolve (· = ledger.length + 1) .replaced = a := by
    have := h.stamp_le ha
    refine if_neg fun hsame => ?_
    have := of_decide_eq_true hsame.2
    omega
  rw [supersede, List.map_congr_left hkept, List.map_id', entered]

/-- A new frame waits behind all others, and then the oldest that wait may be dropped. -/
theorem put (h : Turns q heard ledger) (stamp : UInt32) (pcm : List Int16) :
    Turns (q.put stamp pcm) heard
      (enter q (q.put stamp pcm) (ledger.length + 1) pcm ledger) := by
  by_cases hpcm : pcm = []
  · rw [Queue.put_empty hpcm, enter, if_pos (by simpa using hpcm)]
    exact h
  obtain ⟨gone, hgone, hmode, harrivals, hlate⟩ :=
    Queue.put_simple h.simple h.key_le_arrivals stamp hpcm
  have hcounted : (q.put stamp pcm).Counted := Queue.Counted.put h.buffered stamp pcm
  rw [enter, if_neg (by simpa using hpcm), if_neg (by omega), h.supersede_eq]
  generalize q.put stamp pcm = after at *
  have hwaiting : framesOf .waiting (entered pcm ledger) = gone ++ after.frames := by
    rw [framesOf_entered_waiting, h.waiting, ← hgone.front, h.arrivals]
  obtain ⟨hstill, hdropped⟩ :=
    settled (numbers_entered pcm h.numbers) .dropped (by simp) hwaiting
  have hplayed : framesOf .played (settle after .dropped (entered pcm ledger)) =
      framesOf .played ledger := by
    rw [Books.framesOf_settle (by simp) (by simp), framesOf_entered (by simp)]
  refine ⟨hmode, hcounted, ?_, numbers_settle after .dropped (numbers_entered pcm h.numbers),
    fates_settle after (fates_entered pcm h.fates) (.inr (.inr rfl)), hstill, ?_, ?_,
    hlate.trans h.late, ?_⟩
  · rw [harrivals, h.arrivals, length_settle, entered, List.length_append, List.length_singleton]
  · rw [hgone.pending, hplayed, h.heard]
  · intro f hf g hg
    rw [hplayed] at hf
    have hg : g ∈ q.frames ++ [(q.arrivals + 1, pcm)] :=
      hgone.front ▸ List.mem_append_right gone hg
    rcases List.mem_append.1 hg with hg | hg
    · exact h.older f hf g hg
    · rw [List.mem_singleton.1 hg, h.arrivals]
      exact Nat.lt_succ_of_le (h.key_le hf)
  · rw [hgone.counted, h.dropped, hdropped.length_eq, List.length_append,
      framesOf_entered (by simp)]

end Turns

namespace Watch

theorem turns_number {w : Watch} (h : Turns w.buffer.queue w.heard w.ledger) (u : Use) :
    Turns (w.number u).buffer.queue (w.number u).heard (w.number u).ledger := by
  cases u with
  | put stamp arrivalNanos pcm =>
    simp only [number, JitterBuffer.queue_put]
    exact h.put stamp pcm
  | read out =>
    have hread := h.read w.buffer.target (out.length / 2)
    rw [← JitterBuffer.samples_read] at hread
    exact hread

theorem turns_numberAll {w : Watch} (h : Turns w.buffer.queue w.heard w.ledger) (us : List Use) :
    Turns (w.numberAll us).buffer.queue (w.numberAll us).heard (w.numberAll us).ledger := by
  induction us generalizing w with
  | nil => exact h
  | cons u us ih => exact ih (turns_number h u)

/-- The ledger lists the frames that arrived. -/
theorem frames_numberAll (w : Watch) (us : List Use) :
    (w.numberAll us).ledger.map (·.pcm) = w.ledger.map (·.pcm) ++ framesPut us := by
  have hpcm (ledger : List Arrival) :
      ledger.map (·.pcm) = (ledger.map Arrival.frame).map (·.2) := by
    rw [List.map_map]
    rfl
  induction us generalizing w with
  | nil => exact (List.append_nil _).symm
  | cons u us ih =>
    refine (ih (w.number u)).trans ?_
    cases u with
    | read out =>
      simp only [number, step, hpcm, frames_settle, framesPut]
    | put stamp arrivalNanos pcm =>
      simp only [number, hpcm, frames_enter, framesPut, List.isEmpty_iff]
      by_cases hempty : pcm = []
      · simp [hempty]
      · simp [hempty]

theorem greatest_numberAll (w : Watch) (us : List Use) :
    (w.numberAll us).buffer.queue.greatest = w.buffer.queue.greatest := by
  induction us generalizing w with
  | nil => rfl
  | cons u us ih =>
    refine (ih (w.number u)).trans ?_
    cases u with
    | put stamp arrivalNanos pcm =>
      simp only [number, JitterBuffer.queue_put]
      exact (w.buffer.queue.put_frame stamp pcm).2.1
    | read out => exact w.buffer.queue.greatest_read _ _

end Watch

/-! ## The same sound -/

/-- What the reads among some uses of a buffer return: the output buffers, and how many bytes were
read into them. -/
def replies : JitterBuffer → List Use → List (List UInt8 × Nat)
  | _, [] => []
  | b, .put stamp arrivalNanos pcm :: us => replies (b.put stamp arrivalNanos pcm) us
  | b, .read out :: us => (b.read out).2 :: replies (b.read out).1 us

/-- A use without what it tells about time. -/
def Use.untimed : Use → Use
  | .put _ _ pcm => .put 0 0 pcm
  | .read out => .read out

/-- Two simple buffers differ at most in the highest timestamp and in the estimate of the jitter. -/
structure SameSound (b c : JitterBuffer) : Prop where
  simple : b.queue.mode = .simple
  delays : c.delays = b.delays
  queue : ∃ last, c.queue = { b.queue with lastStamp := last }

namespace SameSound

variable {b c : JitterBuffer}

theorem refl (h : b.queue.mode = .simple) : SameSound b b := ⟨h, rfl, _, rfl⟩

theorem target_eq (h : SameSound b c) : c.target = b.target := by
  obtain ⟨last, hqueue⟩ := h.queue
  have hmode : c.mode = .simple := by
    rw [JitterBuffer.mode, hqueue]
    exact h.simple
  rw [JitterBuffer.target, JitterBuffer.target, hmode, show b.mode = .simple from h.simple,
    h.delays]
  exact b.delays.target_simple _ _

theorem put (h : SameSound b c) (stamp stamp' : UInt32) (nanos nanos' : Nat) (pcm : List Int16) :
    SameSound (b.put stamp nanos pcm) (c.put stamp' nanos' pcm) := by
  obtain ⟨last, hqueue⟩ := h.queue
  by_cases hpcm : pcm = []
  · simpa [JitterBuffer.put, hpcm] using h
  · refine ⟨?_, ?_, ?_⟩
    · rw [JitterBuffer.queue_put, Queue.put_numbered h.simple stamp hpcm]
      exact h.simple
    · simpa [JitterBuffer.put, hpcm] using h.delays
    · rw [JitterBuffer.queue_put, JitterBuffer.queue_put, Queue.put_numbered h.simple stamp hpcm,
        Queue.put_numbered (by rw [hqueue]; exact h.simple) stamp' hpcm, hqueue]
      exact ⟨_, rfl⟩

theorem read (h : SameSound b c) (out : List UInt8) :
    SameSound (b.read out).1 (c.read out).1 ∧ (c.read out).2 = (b.read out).2 := by
  obtain ⟨last, hqueue⟩ := h.queue
  have hread : c.queue.read c.target (out.length / 2) =
      ({ (b.queue.read b.target (out.length / 2)).1 with lastStamp := last },
        (b.queue.read b.target (out.length / 2)).2) := by
    rw [h.target_eq, hqueue, Queue.read_lastStamp]
  have htake : (c.take out.length).2 = (b.take out.length).2 := by
    simp only [JitterBuffer.take, hread]
  refine ⟨⟨?_, h.delays, last, ?_⟩, ?_⟩
  · exact ((b.queue.read_frame b.target (out.length / 2)).1).trans h.simple
  · simp only [JitterBuffer.read, JitterBuffer.take, hread]
  · simp only [JitterBuffer.read, htake]

/-- Buffers that sound the same go on doing so, whatever timestamps and arrival times the same
frames have. -/
theorem replies_eq (h : SameSound b c) {us us' : List Use}
    (hsame : us'.map Use.untimed = us.map Use.untimed) : replies c us' = replies b us := by
  induction us generalizing b c us' with
  | nil =>
    rw [List.map_eq_nil_iff.1 hsame]
    rfl
  | cons u us ih =>
    obtain ⟨u', us', rfl, hu, hrest⟩ := List.map_eq_cons_iff.1 hsame
    cases u with
    | put stamp nanos pcm =>
      cases u' with
      | read out => cases hu
      | put stamp' nanos' pcm' =>
        cases hu
        exact ih (h.put stamp stamp' nanos nanos' pcm) hrest
    | read out =>
      cases u' with
      | put stamp' nanos' pcm' => cases hu
      | read out' =>
        cases hu
        obtain ⟨hread, hreply⟩ := h.read out
        rw [replies, replies, hreply, ih hread hrest]

end SameSound

/-! ## Simple playout -/

theorem turns_start (rate : UInt32) (times : DelayTimes) :
    Turns (JitterBuffer.empty .simple rate times).queue [] [] := by
  refine ⟨rfl, rfl, rfl, rfl, ?_, rfl, rfl, ?_, rfl, rfl⟩
  · intro a ha
    cases ha
  · intro f hf
    cases hf

/-- What was seen of a simple buffer is that of a queue for at most so many samples, where some
frames arrived. -/
structure Watch.InTurn (w : Watch) (greatest : Nat) (frames : List (List Int16)) : Prop where
  /-- Every frame that arrived has an entry, in the order of arrival. -/
  arrived : w.ledger.map (·.pcm) = frames
  /-- With it, it has exactly one fate. -/
  inTime : ∀ a ∈ w.ledger, a.InTime
  /-- What was heard and the rest of the frame being played are the samples of the played frames. -/
  heard : w.heard ++ w.buffer.queue.pending = (framesOf .played w.ledger).flatMap (·.2)
  waiting : framesOf .waiting w.ledger = w.buffer.queue.frames
  late : w.buffer.queue.lateDrops = 0
  dropped : w.buffer.queue.overflowDrops = (framesOf .dropped w.ledger).length
  greatest : w.buffer.queue.greatest = greatest
  counted : w.buffer.queue.Counted
  /-- For a further frame the oldest are dropped, as many as needed for the rest to fit. -/
  drops : ∀ stamp arrivalNanos pcm, pcm ≠ [] →
    ∃ gone, w.buffer.queue.DropsOldest pcm gone (w.buffer.put stamp arrivalNanos pcm).queue

/-- The watch over a new simple buffer after some uses of it. -/
def simpleWatch (rate : UInt32) (times : DelayTimes) (us : List Use) : Watch :=
  (Watch.start (JitterBuffer.empty .simple rate times)).numberAll us

/-- **Main theorem**: a simple buffer is a queue that drops its oldest frames when it is full.

After any uses of a new buffer the samples that were read and the rest of the frame being played are
the samples of the frames that arrived, in the order of arrival, without those that wait and those
that were dropped. No frame is late. A frame that arrives makes the oldest ones that wait go, as
long as more than the greatest delay is buffered. What the reads return is the same for any other
timestamps and arrival times of the frames. -/
theorem simple_first_in_first_out (rate : UInt32) (times : DelayTimes) (us : List Use) :
    (simpleWatch rate times us).InTurn (Delays.ofTimes times rate).greatest (framesPut us) ∧
      ∀ us', us'.map Use.untimed = us.map Use.untimed →
        replies (JitterBuffer.empty .simple rate times) us' =
          replies (JitterBuffer.empty .simple rate times) us := by
  let w := Watch.start (JitterBuffer.empty .simple rate times)
  have h := Watch.turns_numberAll (w := w) (turns_start rate times) us
  refine ⟨⟨w.frames_numberAll us, h.fates, h.heard, h.waiting, h.late, h.dropped,
    w.greatest_numberAll us, h.buffered, fun stamp arrivalNanos pcm hpcm => ?_⟩, ?_⟩
  · obtain ⟨gone, hgone, -⟩ := Queue.put_simple h.simple h.key_le_arrivals stamp hpcm
    refine ⟨gone, ?_⟩
    rw [JitterBuffer.queue_put]
    exact hgone
  · exact fun us' hsame => (SameSound.refl rfl).replies_eq hsame

/-- Timestamps that run backwards and arrive hours late change nothing. -/
theorem simple_first_in_first_out_backwards :
    replies (JitterBuffer.empty .simple 8000 ⟨0, 1, 0⟩)
        [.put 800 3600000000000 [1, 2], .put 160 7200000000000 [3], .read [0, 0, 0, 0, 0, 0]] =
      replies (JitterBuffer.empty .simple 8000 ⟨0, 1, 0⟩)
        [.put 0 0 [1, 2], .put 2 0 [3], .read [0, 0, 0, 0, 0, 0]] :=
  (simple_first_in_first_out 8000 ⟨0, 1, 0⟩
    [.put 0 0 [1, 2], .put 2 0 [3], .read [0, 0, 0, 0, 0, 0]]).2
    [.put 800 3600000000000 [1, 2], .put 160 7200000000000 [3], .read [0, 0, 0, 0, 0, 0]] rfl

end CallBridge.Playout
