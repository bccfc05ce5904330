import CallBridge.Playout.JitterBuffer
import CallBridge.Proofs.Playout.Frames

/-!
# What becomes of received frames

An adaptive buffer is watched from its creation on, while frames arrive and audio is read. The watch
keeps a ledger of all frames that arrived, in which it notes what it sees to become of each: the
buffer counts it as late, a later frame takes its place, or it is gone from the queue after another
frame arrived or after audio was read.

The frames that were played and those that wait stand in ascending order of their timestamps when
they are put behind each other. This is what carries the proof: a read only moves the border between
the two, and a frame that comes in time belongs behind all that was played.

Results:
* `Books.settled`: frames that leave a queue at its front share one fate.
* `Books.put`, `Books.read`: the books stay right whatever is done to the queue.
* `Books.late_iff`, `Books.dropped_lt`: when a frame is rejected, and when frames are dropped.
* `adaptive_playout_order`: what was heard and what became of all frames after any uses of a buffer.
-/

namespace CallBridge.Playout

/-! ## The ledger -/

/-- What becomes of a frame. -/
inductive Fate where
  /-- It still waits in the queue. -/
  | waiting
  /-- It was taken for playing. -/
  | played
  /-- It was rejected when it came. -/
  | late
  /-- A later frame with its timestamp took its place. -/
  | replaced
  /-- It was given up because too much waited. -/
  | dropped
deriving DecidableEq, Repr

/-- A frame that arrived, its widened timestamp, and what became of it. -/
structure Arrival where
  stamp : Nat
  pcm : List Int16
  fate : Fate
deriving DecidableEq, Repr

namespace Arrival

/-- The frame as it would wait in a queue. -/
def frame (a : Arrival) : Frame := (a.stamp, a.pcm)

/-- The entry with a fate, if it waits and its timestamp is among certain ones. -/
def resolve (p : Nat → Bool) (fate : Fate) (a : Arrival) : Arrival :=
  if a.fate = .waiting ∧ p a.stamp = true then { a with fate } else a

@[simp] theorem frame_resolve (p : Nat → Bool) (fate : Fate) (a : Arrival) :
    (a.resolve p fate).frame = a.frame := by
  unfold resolve
  split <;> rfl

@[simp] theorem stamp_resolve (p : Nat → Bool) (fate : Fate) (a : Arrival) :
    (a.resolve p fate).stamp = a.stamp := by
  unfold resolve
  split <;> rfl

theorem fate_resolve (p : Nat → Bool) (fate : Fate) (a : Arrival) :
    (a.resolve p fate).fate = fate ∨ (a.resolve p fate).fate = a.fate := by
  unfold resolve
  split
  · exact .inl rfl
  · exact .inr rfl

end Arrival

/-- The frames of a fate, in the order of their arrival. -/
def framesOf (fate : Fate) (ledger : List Arrival) : List Frame :=
  (ledger.filter (·.fate = fate)).map Arrival.frame

theorem framesOf_append (fate : Fate) (ledger new : List Arrival) :
    framesOf fate (ledger ++ new) = framesOf fate ledger ++ framesOf fate new := by
  simp [framesOf]

theorem frames_resolve (p : Nat → Bool) (fate : Fate) (ledger : List Arrival) :
    (ledger.map (Arrival.resolve p fate)).map Arrival.frame = ledger.map Arrival.frame := by
  rw [List.map_map]
  exact List.map_congr_left fun a _ => a.frame_resolve p fate

section Resolve

variable (p : Nat → Bool) {fate : Fate} (hfate : fate ≠ .waiting) (ledger : List Arrival)

theorem framesOf_resolve (other : Fate) :
    framesOf other (ledger.map (Arrival.resolve p fate)) =
      (ledger.filter fun a => (a.resolve p fate).fate = other).map Arrival.frame := by
  simp only [framesOf, List.filter_map, List.map_map]
  exact List.map_congr_left fun a _ => a.frame_resolve p fate

include hfate in
theorem framesOf_waiting_resolve :
    framesOf .waiting (ledger.map (Arrival.resolve p fate)) =
      (framesOf .waiting ledger).filter fun f => !p f.1 := by
  rw [framesOf_resolve, framesOf, List.filter_map, List.filter_filter]
  congr 2
  funext a
  by_cases hwaits : a.fate = .waiting <;> by_cases hp : p a.stamp = true <;>
    simp [Arrival.resolve, Arrival.frame, hwaits, hp, hfate]

theorem framesOf_resolve_other {other : Fate} (hwaiting : other ≠ .waiting)
    (hother : other ≠ fate) :
    framesOf other (ledger.map (Arrival.resolve p fate)) = framesOf other ledger := by
  rw [framesOf_resolve, framesOf]
  congr 2
  funext a
  by_cases hwaits : a.fate = .waiting <;> by_cases hp : p a.stamp = true <;>
    simp [Arrival.resolve, hwaits, hp, hwaiting.symm, hother.symm]

include hfate in
theorem framesOf_resolve_self :
    (framesOf fate (ledger.map (Arrival.resolve p fate))).Perm
      (framesOf fate ledger ++ (framesOf .waiting ledger).filter fun f => p f.1) := by
  rw [framesOf_resolve]
  unfold framesOf
  induction ledger with
  | nil => exact .refl _
  | cons a ledger ih =>
    by_cases hsame : a.fate = fate
    · simpa [Arrival.resolve, hsame, hfate] using ih
    · by_cases hresolved : a.fate = .waiting ∧ p a.stamp = true
      · have hmoved := (ih.cons a.frame).trans List.perm_middle.symm
        simpa [Arrival.resolve, hresolved, hfate.symm, Arrival.frame] using hmoved
      · have hkept : a.resolve p fate = a := if_neg hresolved
        by_cases hwaits : a.fate = .waiting
        · have hp : p a.stamp = false := by simpa [hwaits] using hresolved
          simpa [hkept, hwaits, hfate.symm, Arrival.frame, hp] using ih
        · simpa [hkept, hsame, hwaits] using ih

end Resolve

/-! ## Watching a buffer -/

/-- A use of a buffer: a frame arrives, or audio is read into an output buffer. -/
inductive Use where
  | put (stamp : UInt32) (arrivalNanos : Nat) (pcm : List Int16)
  | read (out : List UInt8)
deriving Repr

/-- A buffer with the samples that were read from it and the ledger of what arrived. -/
structure Watch where
  buffer : JitterBuffer
  heard : List Int16
  ledger : List Arrival

namespace Watch

/-- The watch over a new buffer. -/
def start (b : JitterBuffer) : Watch := ⟨b, [], []⟩

/-- The ledger after entries that are gone from the queue were given a fate. -/
def settle (q : Queue) (fate : Fate) (ledger : List Arrival) : List Arrival :=
  ledger.map (Arrival.resolve (fun stamp => q.frames.all (·.1 ≠ stamp)) fate)

/-- The ledger after a frame came in time: it takes the place of one that waits with its
timestamp. -/
def supersede (ext : Nat) (pcm : List Int16) (ledger : List Arrival) : List Arrival :=
  ledger.map (Arrival.resolve (· = ext) .replaced) ++ [⟨ext, pcm, .waiting⟩]

/-- The ledger after a frame arrived, from what the queue shows before and after that. -/
def enter (before after : Queue) (ext : Nat) (pcm : List Int16) (ledger : List Arrival) :
    List Arrival :=
  if pcm.isEmpty then ledger
  else if before.lateDrops < after.lateDrops then ledger ++ [⟨ext, pcm, .late⟩]
  else settle after .dropped (supersede ext pcm ledger)

/-- The watch after a use of the buffer. -/
def step (w : Watch) : Use → Watch
  | .put stamp arrivalNanos pcm =>
    let buffer := w.buffer.put stamp arrivalNanos pcm
    let ext := extend w.buffer.queue.lastStamp stamp
    { w with buffer, ledger := enter w.buffer.queue buffer.queue ext pcm w.ledger }
  | .read out =>
    let (buffer, filled, count) := w.buffer.read out
    { buffer
      heard := w.heard ++ Audio.samples (filled.take count)
      ledger := settle buffer.queue .played w.ledger }

/-- The watch after one use after the other. -/
def run (w : Watch) (us : List Use) : Watch := us.foldl step w

end Watch

/-- The frames that come in some uses, with timestamps widened in view of the highest one before. -/
def arrivals : Option Nat → List Use → List Frame
  | _, [] => []
  | last, .read _ :: us => arrivals last us
  | last, .put stamp _ pcm :: us =>
    if pcm.isEmpty then arrivals last us
    else (extend last stamp, pcm) :: arrivals (highest last (extend last stamp)) us

/-! ## Replaced frames -/

/-- Behind a place in a ledger a frame with a timestamp came in time. -/
def Succeeded (ledger : List Arrival) (i stamp : Nat) : Prop :=
  ∃ (j : Nat) (b : Arrival), i < j ∧ ledger[j]? = some b ∧ b.stamp = stamp ∧ b.fate ≠ .late

/-- Every replaced frame was succeeded by one with its timestamp. -/
def Replacements (ledger : List Arrival) : Prop :=
  ∀ (i : Nat) (a : Arrival), ledger[i]? = some a → a.fate = .replaced → Succeeded ledger i a.stamp

variable {ledger : List Arrival}

theorem Succeeded.append {i stamp : Nat} (h : Succeeded ledger i stamp) (b : Arrival) :
    Succeeded (ledger ++ [b]) i stamp := by
  obtain ⟨j, c, hij, hc, hkept⟩ := h
  have hj : j < ledger.length := (List.getElem?_eq_some_iff.1 hc).1
  exact ⟨j, c, hij, (List.getElem?_append_left hj).trans hc, hkept⟩

theorem Succeeded.resolve {i stamp : Nat} (h : Succeeded ledger i stamp) (p : Nat → Bool)
    {fate : Fate} (hfate : fate ≠ .late) :
    Succeeded (ledger.map (Arrival.resolve p fate)) i stamp := by
  obtain ⟨j, b, hij, hb, hstamp, hlate⟩ := h
  refine ⟨j, b.resolve p fate, hij, by rw [List.getElem?_map, hb]; rfl, by simp [hstamp], ?_⟩
  rcases b.fate_resolve p fate with h | h
  · rwa [h]
  · rwa [h]

namespace Replacements

theorem append (h : Replacements ledger) {b : Arrival} (hb : b.fate ≠ .replaced) :
    Replacements (ledger ++ [b]) := by
  intro i a ha hreplaced
  rcases Nat.lt_or_ge i ledger.length with hlt | hge
  · rw [List.getElem?_append_left hlt] at ha
    exact (h i a ha hreplaced).append b
  · rw [List.getElem?_append_right hge] at ha
    have hlast : a = b := List.mem_singleton.1 (List.mem_of_getElem? ha)
    exact absurd (hlast ▸ hreplaced) hb

/-- Entries may be given another fate as long as it is neither of the two. -/
theorem resolve (h : Replacements ledger) (p : Nat → Bool) {fate : Fate} (hr : fate ≠ .replaced)
    (hl : fate ≠ .late) : Replacements (ledger.map (Arrival.resolve p fate)) := by
  intro i a ha hreplaced
  rw [List.getElem?_map] at ha
  obtain ⟨a₀, ha₀, rfl⟩ := Option.map_eq_some_iff.1 ha
  rcases a₀.fate_resolve p fate with hfate | hfate
  · exact absurd (hfate.symm.trans hreplaced) hr
  · rw [Arrival.stamp_resolve]
    exact (h i a₀ ha₀ (hfate.symm.trans hreplaced)).resolve p hl

theorem supersede (h : Replacements ledger) (ext : Nat) (pcm : List Int16) :
    Replacements (Watch.supersede ext pcm ledger) := by
  intro i a ha hreplaced
  unfold Watch.supersede at ha ⊢
  rcases Nat.lt_or_ge i ledger.length with hlt | hge
  · rw [List.getElem?_append_left (by simpa using hlt), List.getElem?_map] at ha
    obtain ⟨a₀, ha₀, rfl⟩ := Option.map_eq_some_iff.1 ha
    rw [Arrival.stamp_resolve]
    by_cases hnow : a₀.fate = .waiting ∧ a₀.stamp = ext
    · exact ⟨ledger.length, ⟨ext, pcm, .waiting⟩, hlt, by simp, hnow.2.symm, by simp⟩
    · have hkept : a₀.resolve (· = ext) .replaced = a₀ := if_neg (by simpa using hnow)
      rw [hkept] at hreplaced
      exact ((h i a₀ ha₀ hreplaced).resolve _ (by simp)).append _
  · rw [List.getElem?_append_right (by simpa using hge)] at ha
    have hlast : a = ⟨ext, pcm, .waiting⟩ := List.mem_singleton.1 (List.mem_of_getElem? ha)
    rw [hlast] at hreplaced
    cases hreplaced

end Replacements

/-! ## Keeping books -/

/-- The books of a queue: the ledger agrees with what the queue shows, when some frames were taken
for playing one after the other. -/
structure Books (q : Queue) (heard : List Int16) (ledger : List Arrival) (played : List Frame) :
    Prop where
  adaptive : q.mode = .adaptive
  buffered : q.buffered = q.pending.length + sampleCount q.frames
  sound : ∀ f ∈ played ++ q.frames, f.2 ≠ []
  ascending : Ascending (played ++ q.frames)
  next : q.nextStamp = played.getLast?.map stampBehind
  heard : heard ++ q.pending = played.flatMap (·.2)
  played : (framesOf .played ledger).Perm played
  waiting : (framesOf .waiting ledger).Perm q.frames
  late : q.lateDrops = (framesOf .late ledger).length
  dropped : q.overflowDrops = (framesOf .dropped ledger).length
  replaced : Replacements ledger

namespace Books

open Watch (enter settle supersede)

variable {q : Queue} {heard : List Int16} {played : List Frame}

/-- Frames that left a queue at its front are moved from those that wait to their fate. -/
theorem settled (fate : Fate) (hfate : fate ≠ .waiting) {gone rest : List Frame}
    (hwaiting : (framesOf .waiting ledger).Perm (gone ++ rest))
    (hascending : Ascending (gone ++ rest))
    (hrest : q.frames = rest) :
    (framesOf .waiting (settle q fate ledger)).Perm rest ∧
      (framesOf fate (settle q fate ledger)).Perm (framesOf fate ledger ++ gone) := by
  let absent (stamp : Nat) : Bool := q.frames.all (·.1 ≠ stamp)
  have hgone : ∀ f ∈ gone, absent f.1 = true := by
    intro f hf
    simp only [absent, hrest, List.all_eq_true, ne_eq, decide_eq_true_eq]
    intro g hg
    have := (List.pairwise_append.1 hascending).2.2 f hf g hg
    omega
  have hstays : ∀ f ∈ rest, absent f.1 = false := by
    intro f hf
    simp only [absent, hrest, List.all_eq_false]
    exact ⟨f, hf, by simp⟩
  have hfront : (gone ++ rest).filter (fun f => absent f.1) = gone := by
    rw [List.filter_append, List.filter_eq_self.2 hgone, List.filter_eq_nil_iff.2, List.append_nil]
    intro f hf
    simp [hstays f hf]
  have hback : (gone ++ rest).filter (fun f => !absent f.1) = rest := by
    rw [List.filter_append, List.filter_eq_nil_iff.2, List.filter_eq_self.2, List.nil_append]
    · intro f hf
      simp [hstays f hf]
    · intro f hf
      simp [hgone f hf]
  constructor
  · rw [settle, framesOf_waiting_resolve absent hfate]
    exact hback ▸ hwaiting.filter _
  · refine (framesOf_resolve_self absent hfate ledger).trans (List.Perm.append_left _ ?_)
    exact hfront ▸ hwaiting.filter _

theorem framesOf_settle {fate gone : Fate} (hw : fate ≠ .waiting) (hg : fate ≠ gone) :
    framesOf fate (settle q gone ledger) = framesOf fate ledger := framesOf_resolve_other _ _ hw hg

theorem stampBehind_append (gone : List Frame) (h : q.nextStamp = played.getLast?.map stampBehind) :
    (gone.getLast?.map stampBehind).or q.nextStamp = (played ++ gone).getLast?.map stampBehind := by
  rw [List.getLast?_append, h]
  cases gone.getLast? <;> rfl

/-- A read moves frames from the front of the queue to the end of what was played. -/
theorem read (h : Books q heard ledger played) (target wanted : Nat) :
    ∃ gone, q.frames = gone ++ (q.read target wanted).1.frames ∧
      Books (q.read target wanted).1 (heard ++ (q.read target wanted).2)
        (settle (q.read target wanted).1 .played ledger) (played ++ gone) := by
  obtain ⟨gone, hsplit, htaken, hnext⟩ := Queue.read_split h.adaptive target wanted
  obtain ⟨hmode, -, -, hlate, hdropped⟩ := q.read_frame target wanted
  have hcounted : (q.read target wanted).1.Counted := Queue.Counted.read h.buffered target wanted
  generalize (q.read target wanted).1 = after at *
  generalize (q.read target wanted).2 = samples at *
  have hall : played ++ gone ++ after.frames = played ++ q.frames := by
    rw [hsplit, List.append_assoc]
  have hqueue : Ascending (gone ++ after.frames) :=
    hsplit ▸ (List.pairwise_append.1 h.ascending).2.1
  obtain ⟨hstill, hgone⟩ := settled (q := after) .played (by simp)
    (hsplit ▸ h.waiting) hqueue rfl
  refine ⟨gone, hsplit, hmode.trans h.adaptive, hcounted, hall ▸ h.sound, hall ▸ h.ascending, ?_,
    ?_, hgone.trans (h.played.append_right gone), hstill, ?_, ?_,
    h.replaced.resolve _ (by simp) (by simp)⟩
  · rw [hnext, stampBehind_append gone h.next]
  · rw [List.append_assoc, htaken, ← List.append_assoc, h.heard, List.flatMap_append]
  · rw [hlate, h.late, framesOf_settle (by simp) (by simp)]
  · rw [hdropped, h.dropped, framesOf_settle (by simp) (by simp)]

/-- A frame that comes in time belongs behind all that was played. -/
theorem lt_of_inTime (h : Books q heard ledger played) {ext : Nat}
    (hext : ∀ next, q.nextStamp = some next → next ≤ ext) : ∀ f ∈ played, f.1 < ext := by
  intro f hf
  obtain ⟨last, hlast⟩ : ∃ last, played.getLast? = some last :=
    ⟨_, List.getLast?_eq_some_getLast (List.ne_nil_of_mem hf)⟩
  have hbehind : stampBehind last ≤ ext := hext _ (by rw [h.next, hlast]; rfl)
  have hlength : 0 < last.2.length :=
    List.length_pos_iff.2 (h.sound last (List.mem_append_left _ (List.mem_of_getLast? hlast)))
  have hplayed : Ascending played := (List.pairwise_append.1 h.ascending).1
  have hle : f.1 ≤ last.1 := hplayed.le_last hlast f hf
  unfold stampBehind at hbehind
  omega

theorem ascending_insert (h : Books q heard ledger played) {ext : Nat} (pcm : List Int16)
    (hext : ∀ next, q.nextStamp = some next → next ≤ ext) :
    Ascending (played ++ (insertFrame ext pcm q.frames).1) := by
  obtain ⟨hplayed, hframes, hbetween⟩ := List.pairwise_append.1 h.ascending
  refine List.pairwise_append.2 ⟨hplayed, ascending_insertFrame hframes ext pcm, ?_⟩
  intro f hf g hg
  rcases mem_insertFrame hg with rfl | hg
  · exact h.lt_of_inTime hext f hf
  · exact hbetween f hf g hg

/-- With a new frame in the place of another one the ledger tells what the queue holds after the
frame was inserted. -/
theorem waiting_supersede (h : Books q heard ledger played) (ext : Nat) (pcm : List Int16) :
    (framesOf .waiting (supersede ext pcm ledger)).Perm (insertFrame ext pcm q.frames).1 := by
  have hframes : Ascending q.frames := (List.pairwise_append.1 h.ascending).2.1
  rw [supersede, framesOf_append, framesOf_waiting_resolve _ (by simp)]
  refine List.Perm.trans ?_ (insertFrame_perm hframes ext pcm).symm
  refine List.perm_append_comm.trans (List.Perm.cons _ ?_)
  simpa using h.waiting.filter _

theorem framesOf_supersede (ext : Nat) (pcm : List Int16) {fate : Fate} (hw : fate ≠ .waiting)
    (hr : fate ≠ .replaced) : framesOf fate (supersede ext pcm ledger) = framesOf fate ledger := by
  rw [supersede, framesOf_append, framesOf_resolve_other _ _ hw hr]
  simp [framesOf, hw.symm]

/-- A late frame is counted, and nothing else happens. -/
theorem put_late (h : Books q heard ledger played) (ext : Nat) (pcm : List Int16)
    (last : Option Nat) :
    Books { q with lastStamp := last, lateDrops := q.lateDrops + 1 } heard
      (ledger ++ [⟨ext, pcm, .late⟩]) played := by
  have hother (fate : Fate) (hfate : fate ≠ .late) :
      framesOf fate (ledger ++ [⟨ext, pcm, .late⟩]) = framesOf fate ledger := by
    rw [framesOf_append]
    simp [framesOf, hfate.symm]
  refine ⟨h.adaptive, h.buffered, h.sound, h.ascending, h.next, h.heard, ?_, ?_, ?_, ?_,
    h.replaced.append (by simp)⟩
  · rw [hother .played (by simp)]
    exact h.played
  · rw [hother .waiting (by simp)]
    exact h.waiting
  · rw [framesOf_append, List.length_append, ← h.late]
    rfl
  · rw [hother .dropped (by simp)]
    exact h.dropped

/-- A frame that comes in time is inserted, and what is dropped for it was at the front. -/
theorem put_inTime (h : Books q heard ledger played) {ext : Nat} {pcm : List Int16}
    (hpcm : pcm ≠ []) (hext : ∀ next, q.nextStamp = some next → next ≤ ext)
    {gone rest : List Frame} (hsplit : (insertFrame ext pcm q.frames).1 = gone ++ rest)
    (last : Option Nat) :
    let after := { q with
      lastStamp := last
      frames := rest
      buffered := q.buffered + pcm.length - replacedCount ext pcm q.frames - sampleCount gone
      overflowDrops := q.overflowDrops + gone.length }
    Books after heard (settle after .dropped (supersede ext pcm ledger)) played := by
  intro after
  have hascending : Ascending (played ++ (gone ++ rest)) := hsplit ▸ h.ascending_insert pcm hext
  obtain ⟨hstill, hgone⟩ := settled (q := after) .dropped (by simp)
    (hsplit ▸ h.waiting_supersede ext pcm) (List.pairwise_append.1 hascending).2.1 rfl
  refine ⟨h.adaptive, ?_, ?_, ?_, h.next, h.heard, ?_, hstill, ?_, ?_,
    (h.replaced.supersede ext pcm).resolve _ (by simp) (by simp)⟩
  · have hcount := sampleCount_insertFrame ext pcm q.frames
    rw [hsplit, sampleCount_append] at hcount
    show q.buffered + pcm.length - replacedCount ext pcm q.frames - sampleCount gone =
      q.pending.length + sampleCount rest
    rw [h.buffered]
    omega
  · intro f hf
    rcases List.mem_append.1 hf with hf | hf
    · exact h.sound f (List.mem_append_left _ hf)
    · rcases mem_insertFrame (hsplit ▸ List.mem_append_right gone hf) with rfl | hf
      · exact hpcm
      · exact h.sound f (List.mem_append_right _ hf)
  · exact hascending.sublist ((List.sublist_append_right gone rest).append_left played)
  · rw [framesOf_settle (by simp) (by simp), framesOf_supersede _ _ (by simp) (by simp)]
    exact h.played
  · rw [framesOf_settle (by simp) (by simp), framesOf_supersede _ _ (by simp) (by simp)]
    exact h.late
  · rw [hgone.length_eq, List.length_append, framesOf_supersede _ _ (by simp) (by simp),
      ← h.dropped]

/-- Whatever frame arrives, its entry makes the books right again. -/
theorem put (h : Books q heard ledger played) (stamp : UInt32) (pcm : List Int16) :
    Books (q.put stamp pcm) heard
      (enter q (q.put stamp pcm) (extend q.lastStamp stamp) pcm ledger) played := by
  rcases Queue.put_cases h.adaptive stamp pcm with
    ⟨rfl, hput⟩ | ⟨hpcm, -, hput⟩ | ⟨hpcm, hext, gone, rest, hsplit, -, hput⟩
  · rw [hput]
    exact h
  · rw [hput, enter, if_neg (by simpa using hpcm), if_pos (Nat.lt_succ_self _)]
    exact h.put_late _ pcm _
  · rw [hput, enter, if_neg (by simpa using hpcm), if_neg (Nat.lt_irrefl _)]
    exact h.put_inTime hpcm hext hsplit _

theorem late_iff (h : Books q heard ledger played) (stamp : UInt32) (pcm : List Int16) :
    (q.put stamp pcm).lateDrops = q.lateDrops + 1 ↔
      pcm ≠ [] ∧ ∃ f ∈ played.getLast?, extend q.lastStamp stamp < stampBehind f := by
  have hnext (next : Nat) : q.nextStamp = some next ↔
      ∃ f ∈ played.getLast?, stampBehind f = next := by
    rw [h.next, Option.map_eq_some_iff]
    rfl
  rcases Queue.put_cases h.adaptive stamp pcm with
    ⟨rfl, hput⟩ | ⟨hpcm, hlate, hput⟩ | ⟨hpcm, hext, gone, rest, -, -, hput⟩
  · simp [hput]
  · rw [hput]
    obtain ⟨next, hsome, hlt⟩ := hlate
    obtain ⟨f, hf, rfl⟩ := (hnext next).1 hsome
    exact iff_of_true rfl ⟨hpcm, f, hf, hlt⟩
  · rw [hput]
    refine iff_of_false (Nat.ne_of_lt (Nat.lt_succ_self _)) ?_
    rintro ⟨-, f, hf, hlt⟩
    have := hext _ ((hnext _).2 ⟨f, hf, rfl⟩)
    omega

theorem dropped_lt (h : Books q heard ledger played) {stamp : UInt32} {pcm : List Int16}
    (hdrops : q.overflowDrops < (q.put stamp pcm).overflowDrops) :
    q.greatest < q.pending.length + sampleCount q.frames + pcm.length := by
  rcases Queue.put_cases h.adaptive stamp pcm with
    ⟨-, hput⟩ | ⟨-, -, hput⟩ | ⟨-, -, gone, rest, -, hfull, hput⟩
  · rw [hput] at hdrops
    exact absurd hdrops (Nat.lt_irrefl _)
  · rw [hput] at hdrops
    exact absurd hdrops (Nat.lt_irrefl _)
  · rw [hput] at hdrops
    rw [← h.buffered]
    refine hfull fun hgone => ?_
    rw [hgone] at hdrops
    exact Nat.lt_irrefl _ hdrops

end Books

theorem JitterBuffer.queue_put (b : JitterBuffer) (stamp : UInt32) (arrivalNanos : Nat)
    (pcm : List Int16) : (b.put stamp arrivalNanos pcm).queue = b.queue.put stamp pcm := by
  unfold JitterBuffer.put Queue.put
  split <;> rfl

/-- The samples that a read puts into its output buffer are those taken from the queue. -/
theorem JitterBuffer.samples_read (b : JitterBuffer) (out : List UInt8) :
    Audio.samples ((b.read out).2.1.take (b.read out).2.2) =
      (b.queue.read b.target (out.length / 2)).2 := by
  simp only [JitterBuffer.read, JitterBuffer.take]
  rw [Audio.take_overlay, Audio.samples_bytes]

namespace Watch

theorem books_step {w : Watch} {played : List Frame}
    (h : Books w.buffer.queue w.heard w.ledger played) (u : Use) :
    ∃ played', Books (w.step u).buffer.queue (w.step u).heard (w.step u).ledger played' := by
  cases u with
  | put stamp arrivalNanos pcm =>
    refine ⟨played, ?_⟩
    simp only [step, JitterBuffer.queue_put]
    exact h.put stamp pcm
  | read out =>
    obtain ⟨gone, -, hread⟩ := h.read w.buffer.target (out.length / 2)
    refine ⟨played ++ gone, ?_⟩
    rw [← JitterBuffer.samples_read] at hread
    exact hread

theorem books_run {w : Watch} {played : List Frame}
    (h : Books w.buffer.queue w.heard w.ledger played) (us : List Use) :
    ∃ played', Books (w.run us).buffer.queue (w.run us).heard (w.run us).ledger played' := by
  induction us generalizing w played with
  | nil => exact ⟨played, h⟩
  | cons u us ih =>
    obtain ⟨played', hstep⟩ := books_step h u
    exact ih hstep

theorem frames_settle (q : Queue) (fate : Fate) (ledger : List Arrival) :
    (settle q fate ledger).map Arrival.frame = ledger.map Arrival.frame := frames_resolve _ _ _

theorem frames_enter (before after : Queue) (ext : Nat) (pcm : List Int16) (ledger : List Arrival) :
    (enter before after ext pcm ledger).map Arrival.frame =
      ledger.map Arrival.frame ++ if pcm = [] then [] else [(ext, pcm)] := by
  unfold enter
  by_cases hpcm : pcm = []
  · simp [hpcm]
  · simp only [hpcm, List.isEmpty_iff, if_false]
    split
    · rw [List.map_append]
      rfl
    · rw [frames_settle, supersede, List.map_append, frames_resolve]
      rfl

/-- The ledger lists the frames that arrived. -/
theorem frames_run {w : Watch} {played : List Frame}
    (h : Books w.buffer.queue w.heard w.ledger played) (us : List Use) :
    (w.run us).ledger.map Arrival.frame =
      w.ledger.map Arrival.frame ++ arrivals w.buffer.queue.lastStamp us := by
  induction us generalizing w played with
  | nil => simp [run, arrivals]
  | cons u us ih =>
    obtain ⟨played', hstep⟩ := books_step h u
    refine (ih hstep).trans ?_
    cases u with
    | read out =>
      have hlast := (w.buffer.queue.read_frame w.buffer.target (out.length / 2)).2.2.1
      simp only [arrivals, step, frames_settle]
      exact congrArg (fun last => _ ++ arrivals last us) hlast
    | put stamp arrivalNanos pcm =>
      simp only [step, frames_enter, JitterBuffer.queue_put, arrivals, List.isEmpty_iff]
      by_cases hpcm : pcm = []
      · simp [hpcm, Queue.put]
      · simp [hpcm, Queue.lastStamp_put h.adaptive stamp hpcm]

end Watch

/-! ## Playout order -/

theorem books_start (rate : UInt32) (times : DelayTimes) :
    Books (JitterBuffer.empty .adaptive rate times).queue [] [] [] := by
  refine ⟨rfl, rfl, by simp [JitterBuffer.empty, Queue.empty], .nil, rfl, rfl, .nil, .nil, rfl, rfl,
    ?_⟩
  intro i a ha
  cases ha

/-- What was seen of a buffer is in order, where some frames arrived and some of these were played
one after the other. -/
structure Watch.Orderly (w : Watch) (frames order : List Frame) : Prop where
  /-- Every frame that arrived has an entry, and with it exactly one fate. -/
  arrived : w.ledger.map Arrival.frame = frames
  /-- Frames are played in the order of their timestamps. -/
  ascending : Ascending order
  /-- What was heard and the rest of the frame being played are the samples of these frames. -/
  heard : w.heard ++ w.buffer.queue.pending = order.flatMap (·.2)
  played : (framesOf .played w.ledger).Perm order
  waiting : (framesOf .waiting w.ledger).Perm w.buffer.queue.frames
  /-- A frame was replaced by one that came later, in time and with the same timestamp. -/
  replaced : Replacements w.ledger
  late : w.buffer.queue.lateDrops = (framesOf .late w.ledger).length
  dropped : w.buffer.queue.overflowDrops = (framesOf .dropped w.ledger).length
  /-- A frame is rejected exactly if it begins before the end of the frame taken last. -/
  rejects : ∀ stamp arrivalNanos pcm,
    (w.buffer.put stamp arrivalNanos pcm).queue.lateDrops = w.buffer.queue.lateDrops + 1 ↔
      pcm ≠ [] ∧ ∃ f ∈ order.getLast?, extend w.buffer.queue.lastStamp stamp < stampBehind f
  /-- Frames are dropped only where more samples would wait than may. -/
  drops : ∀ stamp arrivalNanos pcm,
    w.buffer.queue.overflowDrops < (w.buffer.put stamp arrivalNanos pcm).queue.overflowDrops →
      w.buffer.queue.greatest <
        w.buffer.queue.pending.length + sampleCount w.buffer.queue.frames + pcm.length

/-- The watch over a new adaptive buffer after some uses of it. -/
def watch (rate : UInt32) (times : DelayTimes) (us : List Use) : Watch :=
  (Watch.start (JitterBuffer.empty .adaptive rate times)).run us

/-- **Main theorem**: an adaptive buffer plays frames in the order of their timestamps and gives up
none without a reason.

After any uses of a new buffer every frame that arrived has one fate. The samples that were read and
the rest of the frame being played are the samples of the played frames, in the order of their
timestamps. The queue holds those that wait. A frame is rejected exactly if it begins before the end
of the frame taken last, and dropped only where too much would wait; the buffer counts both. -/
theorem adaptive_playout_order (rate : UInt32) (times : DelayTimes) (us : List Use) :
    ∃ order, (watch rate times us).Orderly (arrivals none us) order := by
  let w := Watch.start (JitterBuffer.empty .adaptive rate times)
  obtain ⟨played, h⟩ := Watch.books_run (w := w) (books_start rate times) us
  refine ⟨played, Watch.frames_run (w := w) (books_start rate times) us,
    (List.pairwise_append.1 h.ascending).1, h.heard, h.played, h.waiting, h.replaced, h.late,
    h.dropped, fun stamp arrivalNanos pcm => ?_, fun stamp arrivalNanos pcm hdrops => ?_⟩
  · rw [JitterBuffer.queue_put]
    exact h.late_iff stamp pcm
  · rw [JitterBuffer.queue_put] at hdrops
    exact h.dropped_lt hdrops

end CallBridge.Playout
