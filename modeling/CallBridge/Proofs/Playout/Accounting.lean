import CallBridge.Proofs.Audio.InPlace
import CallBridge.Proofs.Playout.FullBuffer

/-!
# The accounts of a jitter buffer

How much a buffer holds is not counted anew but kept in a number. A frame that comes adds to it; the
frame that it replaces, each frame that is dropped and each sample that is played takes something
off; a reset clears it. Here each of these is done as it comes, one frame or one sample at a time,
and what is taken off is checked against what is there: a count that would fall below zero is none.

Because the number stays right, it never falls below zero. And because frames are dropped while it
is too high, and what is left of the frame in play was below the greatest delay before, it is never
above the greatest delay once a call is over, be a single frame longer than that.

Results:
* `Queue.put?_eq`, `Queue.read?_eq`: with a right count nothing more is taken off than is there.
* `Queue.Accounted.put`, `Queue.Accounted.read`: what a call keeps of a queue.
* `JitterBuffer.Accounts.callAll`, `JitterBuffer.callAll?_eq`: the same for any calls.
* `JitterBuffer.read_eq_zero_iff`: when a read returns nothing.
* `playout_accounts`: all of this for a buffer with any history.
-/

namespace CallBridge.Playout

/-! ## Counts that do not fall below zero -/

/-- A count after something was taken off, if there is as much. -/
def takeOff? (count n : Nat) : Option Nat := if n ≤ count then some (count - n) else none

theorem takeOff?_eq {count n : Nat} (h : n ≤ count) : takeOff? count n = some (count - n) :=
  if_pos h

/-- A count after a frame was taken off, if there is one. -/
def takeOffFrame? (count : Nat) : Option (List Int16) → Option Nat
  | some pcm => takeOff? count pcm.length
  | none => some count

theorem takeOffFrame?_eq {count : Nat} {pcm : Option (List Int16)}
    (h : (pcm.map (·.length)).getD 0 ≤ count) :
    takeOffFrame? count pcm = some (count - (pcm.map (·.length)).getD 0) := by
  cases pcm with
  | none => rfl
  | some pcm => exact takeOff?_eq h

/-- Frames, the samples buffered and the frames dropped, after the first frames were dropped while
too much was buffered, each of them taken off the count. -/
def shed? (greatest : Nat) : List Frame → Nat → Nat → Option (List Frame × Nat × Nat)
  | [], buffered, drops => some ([], buffered, drops)
  | (k, f) :: rest, buffered, drops =>
    if greatest < buffered then do
      let buffered ← takeOff? buffered f.length
      shed? greatest rest buffered (drops + 1)
    else some ((k, f) :: rest, buffered, drops)

theorem shed?_eq (greatest : Nat) {fs : List Frame} {buffered : Nat}
    (h : sampleCount fs ≤ buffered) (drops : Nat) :
    shed? greatest fs buffered drops = some (shed greatest fs buffered drops) := by
  induction fs generalizing buffered drops with
  | nil => rfl
  | cons f rest ih =>
    rw [sampleCount] at h
    rw [shed?, shed]
    split
    · rw [takeOff?_eq (by omega), Option.bind_eq_bind, Option.bind_some]
      exact ih (by omega) (drops + 1)
    · rfl

/-- At most so many samples of a frame in play, what is left of it, and the count with each of them
taken off. -/
def playSamples? : Nat → List Int16 → Nat → Option (List Int16 × List Int16 × Nat)
  | 0, pending, buffered => some ([], pending, buffered)
  | _ + 1, [], buffered => some ([], [], buffered)
  | wanted + 1, x :: xs, buffered => do
    let buffered ← takeOff? buffered 1
    let (taken, pending, buffered) ← playSamples? wanted xs buffered
    return (x :: taken, pending, buffered)

theorem playSamples?_eq (wanted : Nat) {pending : List Int16} {buffered : Nat}
    (h : pending.length ≤ buffered) :
    playSamples? wanted pending buffered =
      some (pending.take wanted, pending.drop wanted, buffered - (pending.take wanted).length) := by
  induction pending generalizing wanted buffered with
  | nil => cases wanted <;> rfl
  | cons x xs ih =>
    cases wanted with
    | zero => rfl
    | succ wanted =>
      rw [List.length_cons] at h
      rw [playSamples?, takeOff?_eq (by omega), Option.bind_eq_bind, Option.bind_some,
        ih wanted (by omega), List.take_succ_cons, List.length_cons, Nat.sub_sub, Nat.add_comm 1]
      rfl

namespace Queue

/-- What playing takes from the rest of a frame and then from one frame after the other, and the
count with each sample taken off. -/
def pull? (mode : Mode) (wanted : Nat) (pending : List Int16) (next : Option Nat)
    (buffered : Nat) : List Frame → Option (Pull × Nat)
  | [] => do
    let (taken, pending, buffered) ← playSamples? wanted pending buffered
    return (⟨taken, pending, [], next⟩, buffered)
  | frame :: rest => do
    let (taken, pending, buffered) ← playSamples? wanted pending buffered
    if taken.length < wanted then
      let (p, buffered) ← pull? mode (wanted - taken.length) frame.2 (stampAfter mode frame next)
        buffered rest
      return ({ p with taken := taken ++ p.taken }, buffered)
    else return (⟨taken, pending, frame :: rest, next⟩, buffered)

theorem pull?_eq (mode : Mode) (wanted : Nat) (pending : List Int16) (next : Option Nat)
    (buffered : Nat) (fs : List Frame) (h : pending.length + sampleCount fs ≤ buffered) :
    pull? mode wanted pending next buffered fs =
      some (pull mode wanted pending next fs,
        buffered - (pull mode wanted pending next fs).taken.length) := by
  induction fs generalizing wanted pending next buffered with
  | nil =>
    rw [pull?, playSamples?_eq wanted (by omega)]
    rfl
  | cons frame rest ih =>
    rw [sampleCount] at h
    rw [pull?, playSamples?_eq wanted (by omega), pull, Option.bind_eq_bind, Option.bind_some]
    by_cases hlast : wanted ≤ pending.length
    · have hfull : ¬ (pending.take wanted).length < wanted := by
        rw [List.length_take]
        omega
      simp only [if_pos hlast, if_neg hfull]
      rfl
    · have hall : pending.take wanted = pending := List.take_of_length_le (by omega)
      have hnext := ih (wanted - pending.length) frame.2 (stampAfter mode frame next)
        (buffered - pending.length) (by omega)
      simp only [if_neg hlast, hall, if_pos (Nat.lt_of_not_le hlast), hnext,
        List.length_append, ← Nat.sub_sub]
      rfl

/-! ## A queue with its count checked -/

/-- The queue with a frame added under a key, the frame that had it before taken off the count, and
the overflow dropped. -/
def enqueue? (q : Queue) (key : Nat) (pcm : List Int16) : Option Queue := do
  let buffered ← takeOffFrame? (q.buffered + pcm.length) (insertFrame key pcm q.frames).2
  let (frames, buffered, drops) ←
    shed? q.greatest (insertFrame key pcm q.frames).1 buffered q.overflowDrops
  return { q with frames, buffered, overflowDrops := drops }

/-- The queue after a frame with a widened timestamp arrived. -/
def putExtended? (q : Queue) (ext : Nat) (pcm : List Int16) : Option Queue :=
  if q.isLate ext then some { q with lateDrops := q.lateDrops + 1 }
  else match q.mode with
    | .simple => { q with arrivals := q.arrivals + 1 }.enqueue? (q.arrivals + 1) pcm
    | .adaptive => q.enqueue? ext pcm

/-- The queue after a frame arrived; an empty frame leaves it as it is. -/
def put? (q : Queue) (stamp : UInt32) (pcm : List Int16) : Option Queue :=
  if pcm.isEmpty then some q
  else (q.noteStamp (extend q.lastStamp stamp)).putExtended? (extend q.lastStamp stamp) pcm

/-- The queue after at most so many samples were taken out to be played, and these samples. -/
def read? (q : Queue) (target wanted : Nat) : Option (Queue × List Int16) :=
  if q.ready target then do
    let (p, buffered) ← pull? q.mode wanted q.pending q.nextStamp q.buffered q.frames
    return ({ q with
        frames := p.frames
        pending := p.pending
        nextStamp := p.nextStamp
        buffered
        playing := !p.taken.isEmpty },
      p.taken)
  else some (q, [])

variable {q : Queue}

theorem enqueue?_eq (h : q.Counted) (key : Nat) (pcm : List Int16) :
    q.enqueue? key pcm = some (q.enqueue key pcm) := by
  have hcount := sampleCount_insertFrame key pcm q.frames
  rw [replacedCount] at hcount
  rw [Counted] at h
  rw [enqueue?, takeOffFrame?_eq (by omega), Option.bind_eq_bind, Option.bind_some,
    shed?_eq q.greatest (by omega)]
  rfl

theorem putExtended?_eq (h : q.Counted) (ext : Nat) (pcm : List Int16) :
    q.putExtended? ext pcm = some (q.putExtended ext pcm) := by
  have hnumbered : Counted { q with arrivals := q.arrivals + 1 } := h
  rw [putExtended?, putExtended]
  split
  · rfl
  · rw [enqueue?_eq h, enqueue?_eq hnumbered]
    cases q.mode <;> rfl

/-- With a right count, no more is taken off than is there when a frame arrives. -/
theorem put?_eq (h : q.Counted) (stamp : UInt32) (pcm : List Int16) :
    q.put? stamp pcm = some (q.put stamp pcm) := by
  rw [put?, put]
  split
  · rfl
  · refine putExtended?_eq ?_ _ _
    rw [noteStamp_eq]
    exact h

/-- With a right count, no more is taken off than is there when samples are played. -/
theorem read?_eq (h : q.Counted) (target wanted : Nat) :
    q.read? target wanted = some (q.read target wanted) := by
  rw [read?, read]
  split
  · rw [pull?_eq _ _ _ _ _ _ (Nat.le_of_eq h.symm)]
    rfl
  · rfl

/-! ## What calls keep -/

/-- The count is right and not above the greatest delay, and every frame that waits has samples. -/
structure Accounted (q : Queue) : Prop where
  counted : q.Counted
  buffered_le : q.buffered ≤ q.greatest
  frames_ne_nil : ∀ f ∈ q.frames, f.2 ≠ []

theorem Accounted.empty (mode : Mode) (greatest : Nat) : (empty mode greatest).Accounted :=
  ⟨rfl, Nat.zero_le _, nofun⟩

/-- What is left of the frame in play was counted before, so that dropping all other frames is
enough. -/
theorem Accounted.put (h : q.Accounted) (stamp : UInt32) (pcm : List Int16) :
    (q.put stamp pcm).Accounted := by
  have hcounted := h.counted.put stamp pcm
  obtain ⟨-, hgreatest, hpending, -⟩ := q.put_frame stamp pcm
  rcases q.put_enqueue stamp pcm with
    ⟨hframes, hbuffered, -⟩ | ⟨hpcm, noted, key, hframes, hbuffered, hnoted, -, hput⟩
  · refine ⟨hcounted, ?_, ?_⟩
    · rw [hbuffered, hgreatest]
      exact h.buffered_le
    · rw [hframes]
      exact h.frames_ne_nil
  · obtain ⟨gone, rest, hsplit, -, hdone, henqueue⟩ := noted.enqueue_shed key pcm
    refine ⟨hcounted, ?_, fun f hf => ?_⟩
    · rcases hdone with hnone | hfits
      · -- all frames were dropped, and only what is left of the frame in play is counted
        have hcount : (q.put stamp pcm).buffered = q.pending.length := by
          rw [hcounted, hpending, hput, henqueue, hnone, sampleCount, Nat.add_zero]
        have hbefore := h.counted
        have hle := h.buffered_le
        rw [Counted] at hbefore
        omega
      · rw [hgreatest, ← hnoted, hput, henqueue]
        exact hfits
    · rw [hput, henqueue] at hf
      have hmem : f ∈ (insertFrame key pcm q.frames).1 := by
        rw [← hframes, hsplit]
        exact List.mem_append_right gone hf
      rcases mem_insertFrame hmem with rfl | hold
      · exact hpcm
      · exact h.frames_ne_nil f hold

theorem Accounted.read (h : q.Accounted) (target wanted : Nat) :
    (q.read target wanted).1.Accounted := by
  obtain ⟨-, hbuffered, -⟩ := q.read_frame target wanted
  obtain ⟨gone, hsplit, -⟩ := q.read_front target wanted
  refine ⟨h.counted.read target wanted, ?_, fun f hf => ?_⟩
  · rw [hbuffered, greatest_read]
    exact Nat.le_trans (Nat.sub_le _ _) h.buffered_le
  · exact h.frames_ne_nil f (hsplit ▸ List.mem_append_right gone hf)

theorem Accounted.reset (q : Queue) : q.reset.Accounted := ⟨rfl, Nat.zero_le _, nofun⟩

end Queue

/-! ## Any calls -/

/-- What a buffer is called for. -/
inductive Call where
  /-- A frame comes, or audio is read. -/
  | use (u : Use)
  | reset
deriving Repr

namespace JitterBuffer

/-- The buffer after a call. -/
def call (b : JitterBuffer) : Call → JitterBuffer
  | .use u => b.use u
  | .reset => b.reset

/-- The buffer after one call after the other. -/
def callAll (b : JitterBuffer) (calls : List Call) : JitterBuffer := calls.foldl call b

/-- The buffer after a call, unless more is taken off the count than is there. -/
def call? (b : JitterBuffer) : Call → Option JitterBuffer
  | .use (.put stamp arrivalNanos pcm) => do
    let queue ← b.queue.put? stamp pcm
    return { b.put stamp arrivalNanos pcm with queue }
  | .use (.read out) => do
    let (queue, _) ← b.queue.read? b.target (out.length / 2)
    return { b with queue }
  | .reset => some b.reset

/-- The buffer after one call after the other, unless more is taken off the count than is there. -/
def callAll? (b : JitterBuffer) (calls : List Call) : Option JitterBuffer := calls.foldlM call? b

variable {b : JitterBuffer}

theorem call?_eq (h : b.queue.Counted) (c : Call) : b.call? c = some (b.call c) := by
  cases c with
  | use u =>
    cases u with
    | put stamp arrivalNanos pcm =>
      rw [call?, Queue.put?_eq h, ← queue_put b stamp arrivalNanos pcm]
      rfl
    | read out =>
      rw [call?, Queue.read?_eq h]
      rfl
  | reset => rfl

/-- The queue of a buffer with a mode and delays is accounted for. -/
structure Accounts (mode : Mode) (d : Delays) (b : JitterBuffer) : Prop where
  accounted : b.queue.Accounted
  mode_eq : b.mode = mode
  delays_eq : b.delays = d
  greatest_eq : b.queue.greatest = d.greatest

variable {mode : Mode} {d : Delays}

theorem Accounts.empty (mode : Mode) (rate : UInt32) (times : DelayTimes) :
    (empty mode rate times).Accounts mode (.ofTimes times rate) :=
  ⟨.empty mode _, rfl, rfl, rfl⟩

/-- **Step**: a call keeps the accounts. -/
theorem Accounts.call (h : b.Accounts mode d) (c : Call) : (b.call c).Accounts mode d := by
  obtain ⟨haccounted, hmode, hdelays, hgreatest⟩ := h
  cases c with
  | use u =>
    obtain ⟨hdelays', hmode', hgreatest'⟩ := b.use_frame u
    refine ⟨?_, hmode'.trans hmode, hdelays'.trans hdelays, hgreatest'.trans hgreatest⟩
    cases u with
    | put stamp arrivalNanos pcm =>
      rw [JitterBuffer.call, use, queue_put]
      exact haccounted.put stamp pcm
    | read out => exact haccounted.read b.target (out.length / 2)
  | reset => exact ⟨.reset b.queue, hmode, hdelays, hgreatest⟩

/-- **Run**: any calls keep the accounts. -/
theorem Accounts.callAll (h : b.Accounts mode d) (calls : List Call) :
    (b.callAll calls).Accounts mode d := by
  induction calls generalizing b with
  | nil => exact h
  | cons c calls ih => exact ih (h.call c)

/-- **Run**: whatever the calls, no more is taken off the count than is there. -/
theorem callAll?_eq (h : b.Accounts mode d) (calls : List Call) :
    b.callAll? calls = some (b.callAll calls) := by
  induction calls generalizing b with
  | nil => rfl
  | cons c calls ih =>
    rw [callAll?, List.foldlM_cons, call?_eq h.accounted.counted, Option.bind_eq_bind,
      Option.bind_some]
    exact ih (h.call c)

/-- A read returns nothing if there is nothing, if too little waits and playing has not begun, or if
there is no room for a sample. -/
theorem read_eq_zero_iff (h : b.queue.Counted) (out : List UInt8) :
    (b.read out).2.2 = 0 ↔ b.buffered = 0 ∨
      (b.queue.playing = false ∧ b.buffered < b.target) ∨ out.length < 2 := by
  by_cases hroom : 2 ≤ out.length
  · have hread := not_congr (read_pos_iff h hroom)
    rw [Decidable.not_not, Decidable.not_and_iff_not_or_not, Decidable.not_not, not_or,
      Bool.not_eq_true, Nat.not_le] at hread
    rw [hread, or_iff_left (Nat.not_lt.2 hroom)]
  · obtain ⟨heven, hle⟩ := b.read_count out
    exact iff_of_true (by omega) (.inr (.inr (Nat.lt_of_not_le hroom)))

end JitterBuffer

/-- **Main theorem**: the accounts of a buffer of any mode, rate and delays, after any calls.

Nothing was ever taken off the count that was not there. The count is that of the samples left of
the frame in play and of all frames that wait, and it is not above the greatest delay; every frame
that waits has samples. A read that fills its output sample by sample never puts one outside it. It
tells an even number of bytes, for which its output has room, and leaves the output alone behind
them. It tells none if and only if nothing is buffered, or playing
has not begun and less than the target delay is buffered, or there is no room for a sample. Whatever
the jitter, the target delay is not above the greatest delay, and in adaptive mode not below the
least delay, unless the greatest is less. -/
theorem playout_accounts (mode : Mode) (rate : UInt32) (times : DelayTimes) (calls : List Call) :
    let d := Delays.ofTimes times rate
    let b := (JitterBuffer.empty mode rate times).callAll calls
    (JitterBuffer.empty mode rate times).callAll? calls = some b ∧
    b.buffered = b.queue.pending.length + sampleCount b.queue.frames ∧
    b.buffered ≤ d.greatest ∧
    (∀ f ∈ b.queue.frames, f.2 ≠ []) ∧
    (∀ out, b.readChecked out = some (b.read out) ∧
      (b.read out).2.2 % 2 = 0 ∧ (b.read out).2.2 ≤ out.length ∧
      (b.read out).2.1.length = out.length ∧
      (b.read out).2.1.drop (b.read out).2.2 = out.drop (b.read out).2.2 ∧
      ((b.read out).2.2 = 0 ↔ b.buffered = 0 ∨
        (b.queue.playing = false ∧ b.buffered < b.target) ∨ out.length < 2)) ∧
    ∀ jitter : Jitter, { b with jitter }.target ≤ d.greatest ∧
      (mode = .adaptive → min d.least d.greatest ≤ { b with jitter }.target) := by
  intro d b
  have hempty := JitterBuffer.Accounts.empty mode rate times
  obtain ⟨⟨hcounted, hle, hframes⟩, hmode, hdelays, hgreatest⟩ := hempty.callAll calls
  have htarget (jitter : Jitter) :
      { b with jitter }.target = d.target mode jitter.delay := by
    rw [JitterBuffer.target, show JitterBuffer.mode { b with jitter } = mode from hmode]
    exact congrArg (·.target mode jitter.delay) hdelays
  refine ⟨JitterBuffer.callAll?_eq hempty calls, hcounted, hgreatest ▸ hle, hframes,
    fun out => ?_, fun jitter => ?_⟩
  · obtain ⟨heven, hfits⟩ := b.read_count out
    exact ⟨b.readChecked_eq out, heven, hfits, Audio.length_overlay hfits, Audio.drop_overlay _ _,
      b.read_eq_zero_iff hcounted out⟩
  · rw [htarget]
    refine ⟨d.target_le mode _, ?_⟩
    rintro rfl
    exact d.le_target _

/-- Where the least delay is above the greatest, an adaptive buffer always waits for the greatest,
here 1600 samples. Nothing is read of the single sample that came after a reset. -/
theorem playout_accounts_overlongLeast :
    Mode.adaptive = .adaptive ∧ (Delays.ofTimes ⟨300, 200, 40⟩ 8000).greatest = 1600 ∧
      ∃ b, (JitterBuffer.empty .adaptive 8000 ⟨300, 200, 40⟩).callAll?
          [.use (.put 0 0 [1, 2, 3]), .use (.read [0, 0]), .reset, .use (.put 7 0 [5])] = some b ∧
        (∀ jitter : Jitter, { b with jitter }.target =
          (Delays.ofTimes ⟨300, 200, 40⟩ 8000).greatest) ∧ (b.read [9]).2.2 = 0 := by
  have hleast : min (Delays.ofTimes ⟨300, 200, 40⟩ 8000).least
      (Delays.ofTimes ⟨300, 200, 40⟩ 8000).greatest =
        (Delays.ofTimes ⟨300, 200, 40⟩ 8000).greatest := by decide
  obtain ⟨hcalls, -, -, -, hread, htarget⟩ := playout_accounts .adaptive 8000 ⟨300, 200, 40⟩
    [.use (.put 0 0 [1, 2, 3]), .use (.read [0, 0]), .reset, .use (.put 7 0 [5])]
  obtain ⟨-, -, -, -, -, hnone⟩ := hread [9]
  refine ⟨rfl, by decide, _, hcalls, fun jitter => ?_, hnone.2 (.inr (.inr (by decide)))⟩
  obtain ⟨hhigh, hlow⟩ := htarget jitter
  exact Nat.le_antisymm hhigh (Nat.le_trans (Nat.le_of_eq hleast.symm) (hlow rfl))

end CallBridge.Playout
