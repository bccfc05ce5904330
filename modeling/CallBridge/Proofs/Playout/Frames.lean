import CallBridge.Playout.Queue

/-!
# Frames that enter and leave a playout queue

The frames of a queue stand in ascending order of their keys. Frames enter it by `insertFrame` at
their place, and leave it at the front: `shed` drops them and `pull` takes them for playing.

Results:
* `ascending_insertFrame`, `insertFrame_perm`: inserting keeps the order and replaces only a frame
  of the same key.
* `sampleCount_insertFrame`: the samples that a new frame brings, and those that it replaces.
* `shed_split`, `Queue.enqueue_shed`, `Queue.pull_split`: everything that dropping and taking frames
  can do.
* `Queue.put_cases`, `Queue.read_split`: everything that a use of an adaptive queue can do.
* `Queue.Counted.put`, `Queue.Counted.read`: the count of the buffered samples stays right.
-/

namespace CallBridge.Playout

/-- Frames in strictly ascending order of their keys. -/
def Ascending (fs : List Frame) : Prop := fs.Pairwise fun f g => f.1 < g.1

theorem Ascending.le_last {fs : List Frame} (h : Ascending fs) {last : Frame}
    (hlast : fs.getLast? = some last) : ∀ f ∈ fs, f.1 ≤ last.1 := by
  obtain ⟨front, rfl⟩ := List.getLast?_eq_some_iff.1 hlast
  intro f hf
  rcases List.mem_append.1 hf with hf | hf
  · exact Nat.le_of_lt ((List.pairwise_append.1 h).2.2 f hf last List.mem_cons_self)
  · exact Nat.le_of_eq (congrArg Prod.fst (List.mem_singleton.1 hf))

/-- The key behind the last sample of a frame whose key is a timestamp. -/
def stampBehind (f : Frame) : Nat := f.1 + f.2.length

/-! ## Entering -/

theorem mem_insertFrame {key : Nat} {pcm : List Int16} {fs : List Frame} {f : Frame}
    (h : f ∈ (insertFrame key pcm fs).1) : f = (key, pcm) ∨ f ∈ fs := by
  induction fs with
  | nil => exact .inl (List.mem_singleton.1 h)
  | cons g rest ih =>
    unfold insertFrame at h
    split at h
    · exact List.mem_cons.1 h
    · split at h
      · exact (List.mem_cons.1 h).imp_right (List.mem_cons_of_mem _)
      · rcases List.mem_cons.1 h with rfl | h
        · exact .inr List.mem_cons_self
        · exact (ih h).imp_right (List.mem_cons_of_mem _)

theorem ascending_insertFrame {fs : List Frame} (h : Ascending fs) (key : Nat) (pcm : List Int16) :
    Ascending (insertFrame key pcm fs).1 := by
  induction fs with
  | nil => exact List.pairwise_singleton _ _
  | cons g rest ih =>
    obtain ⟨hg, hrest⟩ := List.pairwise_cons.1 h
    unfold insertFrame
    split
    · next hbefore =>
      refine List.pairwise_cons.2 ⟨fun f hf => ?_, h⟩
      rcases List.mem_cons.1 hf with rfl | hf
      · exact hbefore
      · exact Nat.lt_trans hbefore (hg f hf)
    · next hbefore =>
      split
      · next hsame =>
        subst hsame
        exact List.pairwise_cons.2 ⟨hg, hrest⟩
      · next hother =>
        refine List.pairwise_cons.2 ⟨fun f hf => ?_, ih hrest⟩
        rcases mem_insertFrame hf with rfl | hf
        · show g.1 < key
          omega
        · exact hg f hf

theorem filter_key_ne {fs : List Frame} {key : Nat} (h : ∀ f ∈ fs, key < f.1) :
    fs.filter (·.1 ≠ key) = fs := by
  refine List.filter_eq_self.2 fun f hf => ?_
  have := h f hf
  simp only [ne_eq, decide_eq_true_eq]
  omega

theorem insertFrame_perm {fs : List Frame} (h : Ascending fs) (key : Nat) (pcm : List Int16) :
    (insertFrame key pcm fs).1.Perm ((key, pcm) :: fs.filter (·.1 ≠ key)) := by
  induction fs with
  | nil => exact .refl _
  | cons g rest ih =>
    obtain ⟨hg, hrest⟩ := List.pairwise_cons.1 h
    unfold insertFrame
    split
    · next hbefore =>
      have hfar : ∀ f ∈ g :: rest, key < f.1 := by
        intro f hf
        rcases List.mem_cons.1 hf with rfl | hf
        · exact hbefore
        · exact Nat.lt_trans hbefore (hg f hf)
      rw [filter_key_ne hfar]
    · next hbefore =>
      split
      · next hsame =>
        subst hsame
        rw [List.filter_cons_of_neg (by simp), filter_key_ne hg]
      · next hother =>
        rw [List.filter_cons_of_pos (by simpa using Ne.symm hother)]
        exact ((ih hrest).cons g).trans (.swap _ _ _)

/-! ## Counting samples -/

theorem sampleCount_append (fs gs : List Frame) :
    sampleCount (fs ++ gs) = sampleCount fs + sampleCount gs := by
  induction fs with
  | nil => simp [sampleCount]
  | cons f fs ih => simp only [List.cons_append, sampleCount, ih, Nat.add_assoc]

theorem length_flatMap_frames (fs : List Frame) : (fs.flatMap (·.2)).length = sampleCount fs := by
  induction fs with
  | nil => rfl
  | cons f fs ih => rw [List.flatMap_cons, List.length_append, ih, sampleCount]

/-- The samples of the frame that a frame under a key replaces. -/
def replacedCount (key : Nat) (pcm : List Int16) (fs : List Frame) : Nat :=
  ((insertFrame key pcm fs).2.map (·.length)).getD 0

theorem sampleCount_insertFrame (key : Nat) (pcm : List Int16) (fs : List Frame) :
    sampleCount (insertFrame key pcm fs).1 + replacedCount key pcm fs =
      sampleCount fs + pcm.length := by
  induction fs with
  | nil => simp [insertFrame, replacedCount, sampleCount]
  | cons f rest ih =>
    unfold replacedCount at ih ⊢
    unfold insertFrame
    split
    · simp [sampleCount]
      omega
    · split
      · simp [sampleCount]
        omega
      · simp only [sampleCount]
        omega

/-! ## Leaving -/

/-- Frames are dropped at the front, each of them while too much is buffered, until that is no
longer so or none is left. -/
theorem shed_split (greatest : Nat) (fs : List Frame) (buffered drops : Nat) :
    ∃ gone, fs = gone ++ (shed greatest fs buffered drops).1 ∧
      (shed greatest fs buffered drops).2.1 = buffered - sampleCount gone ∧
      (shed greatest fs buffered drops).2.2 = drops + gone.length ∧
      (∀ before f after, gone = before ++ f :: after →
        greatest < buffered - sampleCount before) ∧
      ((shed greatest fs buffered drops).1 = [] ∨ buffered - sampleCount gone ≤ greatest) := by
  induction fs generalizing buffered drops with
  | nil => exact ⟨[], rfl, rfl, rfl, by simp, .inl rfl⟩
  | cons f rest ih =>
    unfold shed
    split
    · next hover =>
      obtain ⟨gone, hsplit, hbuffered, hdrops, hneeded, hdone⟩ :=
        ih (buffered - f.2.length) (drops + 1)
      have hcount : buffered - f.2.length - sampleCount gone =
          buffered - sampleCount (f :: gone) := by
        simp only [sampleCount]
        omega
      refine ⟨f :: gone, ?_, hbuffered.trans hcount, ?_, ?_, ?_⟩
      · rw [List.cons_append, ← hsplit]
      · rw [hdrops, List.length_cons]
        omega
      · intro before g after hgone
        cases before with
        | nil => simpa [sampleCount] using hover
        | cons f' before =>
          obtain ⟨rfl, hrest⟩ := List.cons.inj hgone
          have := hneeded before g after hrest
          simp only [sampleCount]
          omega
      · rw [← hcount]
        exact hdone
    · next hfits =>
      refine ⟨[], rfl, rfl, rfl, by simp, .inr ?_⟩
      simp only [sampleCount]
      omega

namespace Queue

/-- Frames are taken at the front, and what is taken of them is in the order in which they stand. -/
theorem pull_split (mode : Mode) (wanted : Nat) (pending : List Int16) (next : Option Nat)
    (fs : List Frame) :
    ∃ gone, fs = gone ++ (pull mode wanted pending next fs).frames ∧
      (pull mode wanted pending next fs).taken ++ (pull mode wanted pending next fs).pending =
        pending ++ gone.flatMap (·.2) ∧
      (pull mode wanted pending next fs).nextStamp =
        gone.foldl (fun next f => stampAfter mode f next) next := by
  induction fs generalizing wanted pending next with
  | nil => exact ⟨[], rfl, by simp [pull], rfl⟩
  | cons f rest ih =>
    unfold pull
    split
    · exact ⟨[], rfl, by simp, rfl⟩
    · obtain ⟨gone, hsplit, htaken, hnext⟩ :=
        ih (wanted - pending.length) f.2 (stampAfter mode f next)
      refine ⟨f :: gone, ?_, ?_, hnext⟩
      · rw [List.cons_append, ← hsplit]
      · simp only [List.append_assoc, htaken, List.flatMap_cons]

theorem stampsAfter_adaptive (fs : List Frame) (next : Option Nat) :
    fs.foldl (fun next f => stampAfter .adaptive f next) next =
      (fs.getLast?.map stampBehind).or next := by
  induction fs generalizing next with
  | nil => rfl
  | cons f fs ih =>
    rw [List.foldl_cons, ih]
    cases fs with
    | nil => rfl
    | cons g fs =>
      rw [List.getLast?_cons_cons, List.getLast?_eq_some_getLast (List.cons_ne_nil g fs)]
      rfl

end Queue

/-! ## Using a queue -/

/-- The estimate of the jitter does not matter in simple mode. -/
theorem Delays.target_simple (d : Delays) (estimate estimate' : Nat) :
    d.target .simple estimate = d.target .simple estimate' := rfl

/-- Whatever the mode and the estimate, the target delay does not exceed the greatest delay. -/
theorem Delays.target_le (d : Delays) (mode : Mode) (estimate : Nat) :
    d.target mode estimate ≤ d.greatest := by
  cases mode with
  | adaptive => exact Nat.max_le.2 ⟨Nat.min_le_right _ _, Nat.min_le_right _ _⟩
  | simple => exact Nat.min_le_right _ _

/-- Whatever the estimate, an adaptive buffer waits for the least delay, or for the greatest if that
is less. -/
theorem Delays.le_target (d : Delays) (estimate : Nat) :
    min d.least d.greatest ≤ d.target .adaptive estimate := Nat.le_max_left _ _

/-- The highest timestamp after another one came. -/
def highest (last : Option Nat) (ext : Nat) : Option Nat := some (max (last.getD 0) ext)

namespace Queue

theorem noteStamp_eq (q : Queue) (ext : Nat) :
    q.noteStamp ext = { q with lastStamp := highest q.lastStamp ext } := by
  unfold noteStamp highest
  cases hlast : q.lastStamp with
  | none => simp
  | some last =>
    simp only [Option.getD_some]
    split
    · next hlt => rw [Nat.max_eq_right (Nat.le_of_lt hlt)]
    · next hle => rw [Nat.max_eq_left (Nat.le_of_not_lt hle), ← hlast]

theorem put_empty {q : Queue} {stamp : UInt32} {pcm : List Int16} (h : pcm = []) :
    q.put stamp pcm = q := by simp [put, h]

theorem put_noted (q : Queue) (stamp : UInt32) {pcm : List Int16} (h : pcm ≠ []) :
    q.put stamp pcm =
      { q with lastStamp := highest q.lastStamp (extend q.lastStamp stamp) }.putExtended
        (extend q.lastStamp stamp) pcm := by
  rw [put, if_neg (by simpa using h)]
  simp only [noteStamp_eq]

theorem isLate_iff {q : Queue} (hmode : q.mode = .adaptive) (ext : Nat) :
    q.isLate ext = true ↔ ∃ next, q.nextStamp = some next ∧ ext < next := by
  unfold isLate
  rw [hmode]
  cases q.nextStamp <;> simp

theorem putExtended_adaptive {q : Queue} (hmode : q.mode = .adaptive) (ext : Nat)
    (pcm : List Int16) :
    q.putExtended ext pcm =
      if q.isLate ext then { q with lateDrops := q.lateDrops + 1 } else q.enqueue ext pcm := by
  simp only [putExtended, hmode]

/-- A new frame is put in its place, and then frames are dropped at the front, each of them while
too much is buffered, until that is no longer so or none is left. -/
theorem enqueue_shed (q : Queue) (key : Nat) (pcm : List Int16) :
    ∃ gone rest, (insertFrame key pcm q.frames).1 = gone ++ rest ∧
      (∀ before f after, gone = before ++ f :: after →
        q.greatest <
          q.buffered + pcm.length - replacedCount key pcm q.frames - sampleCount before) ∧
      (rest = [] ∨
        q.buffered + pcm.length - replacedCount key pcm q.frames - sampleCount gone ≤ q.greatest) ∧
      q.enqueue key pcm = { q with
        frames := rest
        buffered := q.buffered + pcm.length - replacedCount key pcm q.frames - sampleCount gone
        overflowDrops := q.overflowDrops + gone.length } := by
  obtain ⟨gone, hsplit, hbuffered, hdrops, hneeded, hdone⟩ := shed_split q.greatest
    (insertFrame key pcm q.frames).1 (q.buffered + pcm.length - replacedCount key pcm q.frames)
    q.overflowDrops
  refine ⟨gone, _, hsplit, hneeded, hdone, ?_⟩
  rw [← hbuffered, ← hdrops]
  rfl

theorem enqueue_split (q : Queue) (key : Nat) (pcm : List Int16) :
    ∃ gone rest, (insertFrame key pcm q.frames).1 = gone ++ rest ∧
      (gone ≠ [] → q.greatest < q.buffered + pcm.length) ∧
      q.enqueue key pcm = { q with
        frames := rest
        buffered := q.buffered + pcm.length - replacedCount key pcm q.frames - sampleCount gone
        overflowDrops := q.overflowDrops + gone.length } := by
  obtain ⟨gone, rest, hsplit, hneeded, -, henqueue⟩ := q.enqueue_shed key pcm
  refine ⟨gone, rest, hsplit, fun hgone => ?_, henqueue⟩
  obtain ⟨f, after, rfl⟩ := List.exists_cons_of_ne_nil hgone
  have := hneeded [] f after rfl
  simp only [sampleCount] at this
  omega

/-- The three ways in which an adaptive queue takes a frame: an empty one is no frame, a late one is
counted, and any other is inserted, whereupon the front may be dropped. -/
theorem put_cases {q : Queue} (hmode : q.mode = .adaptive) (stamp : UInt32) (pcm : List Int16) :
    (pcm = [] ∧ q.put stamp pcm = q) ∨
    (pcm ≠ [] ∧ (∃ next, q.nextStamp = some next ∧ extend q.lastStamp stamp < next) ∧
      q.put stamp pcm = { q with
        lastStamp := highest q.lastStamp (extend q.lastStamp stamp)
        lateDrops := q.lateDrops + 1 }) ∨
    (pcm ≠ [] ∧ (∀ next, q.nextStamp = some next → next ≤ extend q.lastStamp stamp) ∧
      ∃ gone rest, (insertFrame (extend q.lastStamp stamp) pcm q.frames).1 = gone ++ rest ∧
        (gone ≠ [] → q.greatest < q.buffered + pcm.length) ∧
        q.put stamp pcm = { q with
          lastStamp := highest q.lastStamp (extend q.lastStamp stamp)
          frames := rest
          buffered := q.buffered + pcm.length -
            replacedCount (extend q.lastStamp stamp) pcm q.frames - sampleCount gone
          overflowDrops := q.overflowDrops + gone.length }) := by
  by_cases hempty : pcm = []
  · exact .inl ⟨hempty, put_empty hempty⟩
  right
  let noted := { q with lastStamp := highest q.lastStamp (extend q.lastStamp stamp) }
  have hnoted : noted.mode = .adaptive := hmode
  rw [put_noted q stamp hempty, putExtended_adaptive hnoted]
  split
  · next hlate => exact .inl ⟨hempty, (isLate_iff hnoted _).1 hlate, rfl⟩
  · next hlate =>
    refine .inr ⟨hempty, fun next hnext => Nat.le_of_not_lt fun hlt => hlate ?_, ?_⟩
    · exact (isLate_iff hnoted _).2 ⟨next, hnext, hlt⟩
    · exact enqueue_split noted _ _

theorem lastStamp_put {q : Queue} (hmode : q.mode = .adaptive) (stamp : UInt32) {pcm : List Int16}
    (hpcm : pcm ≠ []) :
    (q.put stamp pcm).lastStamp = highest q.lastStamp (extend q.lastStamp stamp) := by
  rcases put_cases hmode stamp pcm with ⟨rfl, -⟩ | ⟨-, -, hput⟩ | ⟨-, -, gone, rest, -, -, hput⟩
  · exact absurd rfl hpcm
  · rw [hput]
  · rw [hput]

/-- What a read leaves alone, and how many samples it takes off the count. -/
theorem read_frame (q : Queue) (target wanted : Nat) :
    (q.read target wanted).1.mode = q.mode ∧
      (q.read target wanted).1.buffered = q.buffered - (q.read target wanted).2.length ∧
      (q.read target wanted).1.lastStamp = q.lastStamp ∧
      (q.read target wanted).1.lateDrops = q.lateDrops ∧
      (q.read target wanted).1.overflowDrops = q.overflowDrops := by
  unfold read
  split <;> exact ⟨rfl, rfl, rfl, rfl, rfl⟩

/-- A read takes the front of a queue into play. -/
theorem read_front (q : Queue) (target wanted : Nat) :
    ∃ gone, q.frames = gone ++ (q.read target wanted).1.frames ∧
      (q.read target wanted).2 ++ (q.read target wanted).1.pending =
        q.pending ++ gone.flatMap (·.2) ∧
      (q.read target wanted).1.nextStamp =
        gone.foldl (fun next f => stampAfter q.mode f next) q.nextStamp := by
  unfold read
  split
  · exact pull_split q.mode wanted q.pending q.nextStamp q.frames
  · exact ⟨[], rfl, by simp, rfl⟩

theorem read_split {q : Queue} (hmode : q.mode = .adaptive) (target wanted : Nat) :
    ∃ gone, q.frames = gone ++ (q.read target wanted).1.frames ∧
      (q.read target wanted).2 ++ (q.read target wanted).1.pending =
        q.pending ++ gone.flatMap (·.2) ∧
      (q.read target wanted).1.nextStamp = (gone.getLast?.map stampBehind).or q.nextStamp := by
  obtain ⟨gone, hsplit, htaken, hnext⟩ := q.read_front target wanted
  rw [hmode, stampsAfter_adaptive] at hnext
  exact ⟨gone, hsplit, htaken, hnext⟩

/-- What a frame that arrives leaves alone. -/
theorem put_frame (q : Queue) (stamp : UInt32) (pcm : List Int16) :
    (q.put stamp pcm).mode = q.mode ∧ (q.put stamp pcm).greatest = q.greatest ∧
      (q.put stamp pcm).pending = q.pending ∧ (q.put stamp pcm).playing = q.playing ∧
      (q.put stamp pcm).nextStamp = q.nextStamp := by
  by_cases hpcm : pcm = []
  · rw [put_empty hpcm]
    exact ⟨rfl, rfl, rfl, rfl, rfl⟩
  · rw [put_noted q stamp hpcm]
    unfold putExtended
    split
    · exact ⟨rfl, rfl, rfl, rfl, rfl⟩
    · split <;> exact ⟨rfl, rfl, rfl, rfl, rfl⟩

theorem greatest_read (q : Queue) (target wanted : Nat) :
    (q.read target wanted).1.greatest = q.greatest := by
  unfold read
  split <;> rfl

/-- A queue stays as it is when a frame arrives, up to what it notes down, or notes that down and
puts the frame in its place. -/
theorem put_enqueue (q : Queue) (stamp : UInt32) (pcm : List Int16) :
    ((q.put stamp pcm).frames = q.frames ∧ (q.put stamp pcm).buffered = q.buffered ∧
      (q.put stamp pcm).overflowDrops = q.overflowDrops) ∨
    (pcm ≠ [] ∧ ∃ (noted : Queue) (key : Nat), noted.frames = q.frames ∧
      noted.buffered = q.buffered ∧ noted.greatest = q.greatest ∧
      noted.overflowDrops = q.overflowDrops ∧ q.put stamp pcm = noted.enqueue key pcm) := by
  by_cases hpcm : pcm = []
  · rw [put_empty hpcm]
    exact .inl ⟨rfl, rfl, rfl⟩
  let noted : Queue := { q with lastStamp := highest q.lastStamp (extend q.lastStamp stamp) }
  rw [put_noted q stamp hpcm]
  unfold putExtended
  split
  · exact .inl ⟨rfl, rfl, rfl⟩
  · right
    split
    · exact ⟨hpcm, { noted with arrivals := q.arrivals + 1 }, _, rfl, rfl, rfl, rfl, rfl⟩
    · exact ⟨hpcm, noted, _, rfl, rfl, rfl, rfl, rfl⟩

/-- The two ways in which a queue takes a frame, whatever its mode: it stays as it is, up to what it
notes down, or the frame is put in its place and frames at the front are dropped while too much is
buffered. -/
theorem put_any (q : Queue) (stamp : UInt32) (pcm : List Int16) :
    ((q.put stamp pcm).frames = q.frames ∧ (q.put stamp pcm).buffered = q.buffered ∧
      (q.put stamp pcm).overflowDrops = q.overflowDrops) ∨
    ∃ key gone, (insertFrame key pcm q.frames).1 = gone ++ (q.put stamp pcm).frames ∧
      (q.put stamp pcm).buffered =
        q.buffered + pcm.length - replacedCount key pcm q.frames - sampleCount gone ∧
      (q.put stamp pcm).overflowDrops = q.overflowDrops + gone.length ∧
      ∀ before f after, gone = before ++ f :: after → q.greatest <
        q.buffered + pcm.length - replacedCount key pcm q.frames - sampleCount before := by
  rcases q.put_enqueue stamp pcm with
    hsame | ⟨-, noted, key, hframes, hbuffered, hgreatest, hdrops, hput⟩
  · exact .inl hsame
  · obtain ⟨gone, rest, hsplit, hneeded, -, henqueue⟩ := noted.enqueue_shed key pcm
    rw [hframes] at hsplit hneeded henqueue
    rw [hbuffered] at hneeded henqueue
    rw [hgreatest] at hneeded
    rw [hdrops] at henqueue
    rw [hput, henqueue]
    exact .inr ⟨key, gone, hsplit, rfl, rfl, hneeded⟩

/-! ## The count of what is buffered -/

/-- The count of the buffered samples is right. -/
def Counted (q : Queue) : Prop := q.buffered = q.pending.length + sampleCount q.frames

theorem Counted.put {q : Queue} (h : q.Counted) (stamp : UInt32) (pcm : List Int16) :
    (q.put stamp pcm).Counted := by
  obtain ⟨-, -, hpending, -⟩ := q.put_frame stamp pcm
  rcases q.put_any stamp pcm with ⟨hframes, hbuffered, -⟩ | ⟨key, gone, hsplit, hbuffered, -⟩
  · rw [Counted, hframes, hbuffered, hpending]
    exact h
  · have hcount := sampleCount_insertFrame key pcm q.frames
    rw [hsplit, sampleCount_append] at hcount
    rw [Counted] at h ⊢
    rw [hbuffered, hpending]
    omega

theorem Counted.read {q : Queue} (h : q.Counted) (target wanted : Nat) :
    (q.read target wanted).1.Counted := by
  obtain ⟨gone, hsplit, htaken, -⟩ := q.read_front target wanted
  have hlengths := congrArg List.length htaken
  simp only [List.length_append, length_flatMap_frames] at hlengths
  rw [Counted, hsplit, sampleCount_append] at h
  rw [Counted, (q.read_frame target wanted).2.1]
  omega

end Queue

end CallBridge.Playout
