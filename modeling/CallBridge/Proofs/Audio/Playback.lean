import CallBridge.Proofs.Audio.InPlace
import Mathlib.Data.Nat.ModEq

/-!
# Playing a recording

A recording is played into frames of any length, and in between it may be rewound, set to loop or
not to loop, and closed. What is heard of it does not depend on how the frames cut it: in a loop it
is the data over and over again, from the position on where the first frame found the recording,
and otherwise it is the rest of the data, once.

A read copies piece after piece, and goes round once for each of them. Every piece brings it forward
unless there is no data at all; in a loop it would then go round for ever, so that it looks for data
before it starts.

Results:
* `getWithin_eq`: a read ends, after no more rounds than the frame has bytes and one to see that it
  is full.
* `fillWithin_of_nothing`: without data the loop of a read would not end.
* `play_looped`, `play_once`: what one read plays.
* `isAround_heard`, `heard_once`: what any reads play, one after the other.
* `Over.use`: nothing more is played until the recording is rewound or loops.
* `recording_plays`: all of this for a recording with any history.
-/

namespace CallBridge.Audio.Recording

open Buffer (slice? fillSlice?)

/-! ## The loop of a read -/

/-- The recording after a frame was filled up to a size from a position on, the frame, and the
position behind the last byte filled, if no more rounds than these are needed. A recording that
loops is taken up from its start when it is at its end. -/
def fillWithin : Nat → Recording → Nat → List UInt8 → Nat → Option (Recording × List UInt8 × Nat)
  | 0, _, _, _, _ => none
  | rounds + 1, r, size, out, filled =>
    if filled < size then
      if r.data.length ≤ r.position ∧ r.looping = false then some (r, out, filled)
      else do
        let start := if r.data.length ≤ r.position then 0 else r.position
        let count := min (r.data.length - start) (size - filled)
        let piece ← slice? r.data start (start + count)
        let out ← fillSlice? out filled (filled + count) piece
        fillWithin rounds { r with position := start + count } size out (filled + count)
    else some (r, out, filled)

/-- The recording after a read into a frame, the frame, and the number of bytes read, if no more
rounds than these are needed. -/
def getWithin (rounds : Nat) (r : Recording) (out : List UInt8) :
    Option (Recording × List UInt8 × Nat) :=
  if r.data = [] then some (r, out, 0) else fillWithin rounds r out.length out 0

/-- What a read leaves: the recording, the frame, and the number of bytes read. -/
structure Served where
  recording : Recording
  frame : List UInt8
  count : Nat
deriving DecidableEq, Repr, Inhabited

/-- A read into a frame. -/
def get (r : Recording) (out : List UInt8) : Served where
  recording := (r.play out.length).1
  frame := overlay (r.play out.length).2 out
  count := (r.play out.length).2.length

theorem read_recording (r : Recording) (out : List UInt8) :
    (Source.recording r).read out =
      (.recording (r.get out).recording, (r.get out).frame, .ok (r.get out).count) := rfl

theorem resume_of_not_over {r : Recording}
    (h : ¬ (r.data.length ≤ r.position ∧ r.looping = false)) :
    (if r.data.length ≤ r.position then 0 else r.position) = r.resume := by
  rw [resume]
  by_cases hend : r.data.length ≤ r.position
  · have hon : r.looping = true := by
      rw [← Bool.not_eq_false]
      exact fun hoff => h ⟨hend, hoff⟩
    rw [if_pos hend, if_neg (by omega), if_pos hon]
  · rw [if_neg hend, if_pos (by omega)]

/-- With data in the recording every round brings the frame forward, so that as many rounds are
enough as bytes are missing, and one more. -/
theorem fillWithin_eq {rounds : Nat} {r : Recording} (hdata : r.data ≠ []) {size filled : Nat}
    (out : List UInt8) (hrounds : size - filled < rounds) :
    fillWithin rounds r size out filled = r.readChecked size out filled := by
  induction rounds generalizing r out filled with
  | zero => omega
  | succ rounds ih =>
    have hlength := List.length_pos_iff.2 hdata
    rw [fillWithin, readChecked]
    by_cases hroom : filled < size
    · by_cases hover : r.data.length ≤ r.position ∧ r.looping = false
      · have hresume : r.resume = r.position := by
          rw [resume, if_neg (by omega), if_neg (by simp [hover.2])]
        rw [if_pos hroom, if_pos hover, dif_neg (by omega)]
      · have hstart := resume_of_not_over hover
        have hgoes : r.resume < r.data.length := by
          rw [← hstart]
          split <;> omega
        rw [if_pos hroom, if_neg hover, dif_pos ⟨hroom, hgoes⟩, hstart]
        refine congrArg (Option.bind _) (funext fun piece => congrArg (Option.bind _)
          (funext fun out => ?_))
        apply ih
        · exact hdata
        · -- the piece has at least one byte, so that fewer bytes are missing than before
          omega
    · rw [if_neg hroom, dif_neg (fun h => hroom h.1)]

theorem chunk_of_nothing {r : Recording} (hdata : r.data = []) (len : Nat) : r.chunk len = [] := by
  rw [chunk, hdata, List.drop_nil, List.take_nil]

theorem play_of_chunk {r : Recording} {len : Nat} (h : r.chunk len = []) :
    r.play len = (r, []) := by
  rw [play, if_pos (by rw [h]; rfl)]

/-- A read ends, however long the frame is. -/
theorem getWithin_eq (r : Recording) (out : List UInt8) {rounds : Nat}
    (hrounds : out.length < rounds) :
    r.getWithin rounds out =
      some ((r.get out).recording, (r.get out).frame, (r.get out).count) := by
  rw [getWithin]
  split
  next hdata => simp [get, play_of_chunk (chunk_of_nothing hdata _), overlay]
  next hdata =>
    rw [fillWithin_eq hdata out (by omega), readChecked_front]
    rfl

/-- Without data the loop of a read would go round for ever. -/
theorem fillWithin_of_nothing {r : Recording} (hdata : r.data = []) (hon : r.looping = true)
    {out : List UInt8} {filled : Nat} (hroom : filled < out.length) (rounds : Nat) :
    fillWithin rounds r out.length out filled = none := by
  induction rounds generalizing r with
  | zero => rfl
  | succ rounds ih =>
    have hfill : fillSlice? out filled filled [] = some out := by
      rw [Buffer.fillSlice?_eq out (Nat.le_refl _) hroom.le (by simp), List.append_nil,
        List.take_append_drop]
    rw [fillWithin, if_pos hroom, if_neg (by simp [hon])]
    simp only [hdata, List.length_nil, Nat.zero_le, if_true, Nat.sub_zero, Nat.zero_min,
      Nat.add_zero, slice?, List.take_nil, List.drop_nil, Nat.le_refl, and_self,
      Option.bind_eq_bind, Option.bind_some, hfill]
    exact ih rfl hon

/-! ## Data that goes round -/

/-- Bytes are so many of some data that goes round, from a position on. -/
def IsAround (data : List UInt8) (position n : Nat) (bytes : List UInt8) : Prop :=
  ∀ k, bytes[k]? = if k < n then data[(position + k) % data.length]? else none

namespace IsAround

variable {data xs ys : List UInt8} {p q n m : Nat}

theorem nil (data : List UInt8) (p : Nat) : IsAround data p 0 [] := fun _ => rfl

theorem length (h : IsAround data p n xs) (hdata : data ≠ []) : xs.length = n := by
  have hmod k := Nat.mod_lt (p + k) (List.length_pos_iff.2 hdata)
  refine Nat.le_antisymm ?_ (Nat.le_of_not_lt fun hshort => ?_)
  · rw [← List.getElem?_eq_none_iff, h, if_neg (Nat.lt_irrefl n)]
  · have hmore := h xs.length
    rw [if_pos hshort, List.getElem?_eq_none (Nat.le_refl _),
      List.getElem?_eq_getElem (hmod _)] at hmore
    cases hmore

theorem unique (hx : IsAround data p n xs) (hy : IsAround data p n ys) : xs = ys :=
  List.ext_getElem? fun k => (hx k).trans (hy k).symm

/-- Whole rounds before the position do not matter. -/
theorem shift (h : IsAround data p n xs) (hpq : p % data.length = q % data.length) :
    IsAround data q n xs := by
  intro k
  have hplace : (p + k) % data.length = (q + k) % data.length := Nat.ModEq.add_right k hpq
  rw [h k, hplace]

theorem append (hx : IsAround data p n xs) (hlength : xs.length = n)
    (hy : IsAround data (p + n) m ys) : IsAround data p (n + m) (xs ++ ys) := by
  intro k
  by_cases hk : k < n
  · rw [List.getElem?_append_left (by omega), hx, if_pos hk, if_pos (by omega)]
  · have hplace : p + n + (k - n) = p + k := by omega
    have hroom : k - n < m ↔ k < n + m := by omega
    rw [List.getElem?_append_right (by omega), hlength, hy]
    simp only [hplace, hroom]

/-- What comes next in the data, up to its end. -/
theorem piece (hp : p + n ≤ data.length) : IsAround data p n ((data.drop p).take n) := by
  intro k
  by_cases hk : k < n
  · rw [if_pos hk, Nat.mod_eq_of_lt (by omega), List.getElem?_take_of_lt hk, List.getElem?_drop]
  · rw [if_neg hk, List.getElem?_take_eq_none (Nat.le_of_not_lt hk)]

end IsAround

/-! ## One read -/

variable {r : Recording}

@[simp] theorem data_play (r : Recording) (len : Nat) : (r.play len).1.data = r.data := by
  fun_induction play r len with
  | case1 => rfl
  | case2 r len h rest ih => exact ih

@[simp] theorem looping_play (r : Recording) (len : Nat) :
    (r.play len).1.looping = r.looping := by
  fun_induction play r len with
  | case1 => rfl
  | case2 r len h rest ih => exact ih

/-- A piece is not longer than what is left of the data. -/
theorem resume_add_chunk_le {len : Nat} (h : (r.chunk len).length ≠ 0) :
    r.resume + (r.chunk len).length ≤ r.data.length := by
  have hgoes := Decidable.not_not.1 (mt (chunk_eq_nil_iff r len).2 h)
  rw [chunk, List.length_take, List.length_drop]
  omega

theorem position_play_le (hpos : r.position ≤ r.data.length) (len : Nat) :
    (r.play len).1.position ≤ r.data.length := by
  fun_induction play r len with
  | case1 => exact hpos
  | case2 r len h rest ih => exact ih (resume_add_chunk_le h)

/-- In a loop the end of the data is its start. -/
theorem resume_mod (hon : r.looping = true) (hpos : r.position ≤ r.data.length) :
    r.resume % r.data.length = r.position % r.data.length := by
  by_cases hend : r.position < r.data.length
  · rw [resume, if_pos hend]
  · rw [resume, if_neg hend, if_pos hon, show r.position = r.data.length by omega, Nat.mod_self,
      Nat.zero_mod]

/-- In a loop a read plays the data over and over again. -/
theorem play_looped (hon : r.looping = true) (hdata : r.data ≠ [])
    (hpos : r.position ≤ r.data.length) (len : Nat) :
    (r.play len).1.position % r.data.length = (r.position + len) % r.data.length ∧
      IsAround r.data r.position len (r.play len).2 := by
  fun_induction play r len with
  | case1 r len hnone =>
    have hlength := List.length_pos_iff.2 hdata
    have hstart := resume_of_not_over (r := r) (by simp [hon])
    -- with data to take up again, only a frame without room gets nothing
    have hempty : len = 0 := by
      rw [chunk_eq_nil_iff, ← hstart] at hnone
      split at hnone <;> omega
    subst hempty
    exact ⟨rfl, .nil _ _⟩
  | case2 r len hsome rest ih =>
    have hle := resume_add_chunk_le hsome
    have hcount := Nat.add_sub_cancel' (length_chunk_le r len)
    obtain ⟨hnext, hrest⟩ := ih hon hdata hle
    have hpiece : IsAround r.data r.resume (r.chunk len).length (r.chunk len) := by
      have hcut := IsAround.piece hle
      rw [chunk, List.length_take] at hcut ⊢
      rwa [← List.take_eq_take_min] at hcut
    have hall := (hpiece.append rfl hrest).shift (resume_mod hon hpos)
    rw [hcount] at hall
    refine ⟨hnext.trans ?_, hall⟩
    rw [Nat.add_assoc, hcount]
    exact Nat.ModEq.add_right len (resume_mod hon hpos)

/-- Without looping a read plays what comes next, up to the end of the data. -/
theorem play_once (hoff : r.looping = false) (hpos : r.position ≤ r.data.length) (len : Nat) :
    r.play len = ({ r with position := min (r.position + len) r.data.length },
      (r.data.drop r.position).take len) := by
  have hresume (r : Recording) (hoff : r.looping = false) : r.resume = r.position := by
    rw [resume, if_neg (by simp [hoff] : ¬ r.looping = true), ite_self]
  fun_induction play r len with
  | case1 r len hnone =>
    have hstop := (chunk_eq_nil_iff r len).1 hnone
    have hchunk := List.length_eq_zero_iff.1 hnone
    rw [hresume r hoff] at hstop
    rw [chunk, hresume r hoff] at hchunk
    rw [hchunk, show min (r.position + len) r.data.length = r.position by omega]
  | case2 r len hsome rest ih =>
    have hle := resume_add_chunk_le hsome
    have hcount := length_chunk_le r len
    have hchunk : r.chunk len = (r.data.drop r.position).take len := by rw [chunk, hresume r hoff]
    -- what is left for the rest is what comes behind the piece, or nothing if that was the last one
    have hrest : rest = _ := ih hoff hle
    rw [hrest]
    simp only [hresume r hoff, Nat.add_assoc, Nat.add_sub_cancel' hcount]
    rw [← List.drop_drop, ← List.drop_take, ← hchunk, List.drop_length, List.append_nil]

theorem count_get_le (r : Recording) (out : List UInt8) : (r.get out).count ≤ out.length :=
  length_play_le r out.length

/-- The bytes that a read puts at the front of its frame. -/
theorem take_frame (r : Recording) (out : List UInt8) :
    (r.get out).frame.take (r.get out).count = (r.play out.length).2 := take_overlay _ _

/-! ## Reads one after the other -/

/-- What a recording is used for. -/
inductive Use where
  /-- A read into a frame. -/
  | get (out : List UInt8)
  | rewind
  | loop (on : Bool)
  | close
deriving DecidableEq, Repr, Inhabited

/-- The recording after a use. -/
def use (r : Recording) : Use → Recording
  | .get out => (r.get out).recording
  | .rewind => r.rewind
  | .loop on => r.setLooping on
  | .close => r.close

/-- The recording after uses, one after the other. -/
def useAll (r : Recording) (us : List Use) : Recording := us.foldl use r

/-- The number of bytes that a use asks for. -/
def Use.room : Use → Nat
  | get out => out.length
  | _ => 0

/-- The number of bytes that uses ask for. -/
def room (us : List Use) : Nat := (us.map Use.room).sum

/-- What a use brings to hear: the bytes of the frame that it read into, as many as it told. -/
def heardBy (r : Recording) : Use → List UInt8
  | .get out => (r.get out).frame.take (r.get out).count
  | _ => []

/-- What uses bring to hear. -/
def heard (r : Recording) : List Use → List UInt8
  | [] => []
  | u :: us => r.heardBy u ++ (r.use u).heard us

/-- The use leaves the recording where it is in its data, but for what it reads, and leaves it as it
is or puts it in a loop or out of a loop. -/
def Use.Keeps (on : Bool) : Use → Prop
  | get _ => True
  | loop b => b = on
  | _ => False

/-- The use has the recording play again. -/
def Use.Restarts : Use → Prop
  | rewind => True
  | loop on => on = true
  | _ => False

/-- A recording of some data. -/
structure Plays (r : Recording) (data : List UInt8) : Prop where
  data_eq : r.data = data
  position_le : r.position ≤ data.length

theorem Plays.ofBytes (data : List UInt8) (looping : Bool) :
    (ofBytes data looping).Plays data := ⟨rfl, Nat.zero_le _⟩

/-- **Step**: no use changes the data or leaves it. -/
theorem Plays.use {data : List UInt8} (h : r.Plays data) (u : Use) : (r.use u).Plays data := by
  obtain ⟨rfl, hpos⟩ := h
  cases u with
  | get out => exact ⟨data_play r _, position_play_le hpos _⟩
  | rewind => exact ⟨rfl, Nat.zero_le _⟩
  | loop on => exact ⟨rfl, hpos⟩
  | close => exact ⟨rfl, Nat.le_refl _⟩

/-- **Run**: nor do any uses. -/
theorem Plays.useAll {data : List UInt8} (h : r.Plays data) (us : List Use) :
    (r.useAll us).Plays data := by
  induction us generalizing r with
  | nil => exact h
  | cons u us ih => exact ih (h.use u)

theorem heard_get (r : Recording) (out : List UInt8) (us : List Use) :
    r.heard (.get out :: us) = (r.play out.length).2 ++ (r.play out.length).1.heard us :=
  congrArg (· ++ _) (r.take_frame out)

theorem room_get (out : List UInt8) (us : List Use) :
    room (.get out :: us) = out.length + room us := List.sum_cons

theorem heard_loop {on : Bool} (h : r.looping = on) (us : List Use) :
    r.heard (.loop on :: us) = r.heard us := by
  subst h
  rfl

theorem room_loop (on : Bool) (us : List Use) : room (.loop on :: us) = room us := by
  rw [room, List.map_cons, List.sum_cons]
  exact Nat.zero_add _

theorem Use.Keeps.cases {on : Bool} {u : Use} (h : u.Keeps on) :
    (∃ out, u = .get out) ∨ u = .loop on := by
  cases u with
  | get out => exact .inl ⟨out, rfl⟩
  | loop b => exact .inr (congrArg Use.loop h)
  | rewind | close => exact h.elim

/-- **Run**: in a loop, the data is heard over and over again. -/
theorem isAround_heard (hon : r.looping = true) (hdata : r.data ≠ [])
    (hpos : r.position ≤ r.data.length) {us : List Use} (hus : ∀ u ∈ us, u.Keeps true) :
    IsAround r.data r.position (room us) (r.heard us) := by
  induction us generalizing r with
  | nil => exact .nil _ _
  | cons u us ih =>
    have hrest := fun v hv => hus v (List.mem_cons_of_mem u hv)
    obtain ⟨out, rfl⟩ | rfl := (hus u List.mem_cons_self).cases
    · obtain ⟨hnext, hplay⟩ := play_looped hon hdata hpos out.length
      have hagain := ih (r := (r.play out.length).1) (by rwa [looping_play]) (by rwa [data_play])
        (by rw [data_play]; exact position_play_le hpos _) hrest
      rw [data_play] at hagain
      rw [heard_get, room_get]
      exact hplay.append (hplay.length hdata) (hagain.shift hnext)
    · rw [heard_loop hon, room_loop]
      exact ih hon hdata hpos hrest

/-- **Run**: without looping, the rest of the data is heard, once. -/
theorem heard_once (hoff : r.looping = false) (hpos : r.position ≤ r.data.length) {us : List Use}
    (hus : ∀ u ∈ us, u.Keeps false) : r.heard us = (r.data.drop r.position).take (room us) := by
  induction us generalizing r with
  | nil => rfl
  | cons u us ih =>
    have hrest := fun v hv => hus v (List.mem_cons_of_mem u hv)
    obtain ⟨out, rfl⟩ | rfl := (hus u List.mem_cons_self).cases
    · have hagain := ih (r := { r with position := min (r.position + out.length) r.data.length })
        hoff (Nat.min_le_right _ _) hrest
      rw [heard_get, room_get, play_once hoff hpos, hagain, List.take_add, List.drop_drop,
        ← List.drop_eq_drop_min]
    · rw [heard_loop hoff, room_loop]
      exact ih hoff hpos hrest

/-! ## The end of a recording -/

/-- Everything was played and nothing will be again. -/
structure Over (r : Recording) : Prop where
  looping : r.looping = false
  length_le : r.data.length ≤ r.position

theorem isFinished_iff (r : Recording) : r.isFinished = true ↔ r.Over := by
  rw [isFinished, Bool.and_eq_true, Bool.not_eq_true', decide_eq_true_iff]
  exact ⟨fun ⟨hoff, hend⟩ => ⟨hoff, hend⟩, fun ⟨hoff, hend⟩ => ⟨hoff, hend⟩⟩

theorem Over.get (h : r.Over) (out : List UInt8) : r.get out = ⟨r, out, 0⟩ := by
  have hresume : r.resume = r.position := by
    rw [resume, if_neg (Nat.not_lt.2 h.length_le), if_neg (by simp [h.looping])]
  have hchunk : r.chunk out.length = [] := by
    rw [chunk, hresume, List.drop_eq_nil_of_le h.length_le, List.take_nil]
  rw [Recording.get, play_of_chunk hchunk]
  rfl

/-- **Step**: what is over stays so unless it is made to play again. -/
theorem Over.use (h : r.Over) {u : Use} (hu : ¬ u.Restarts) : (r.use u).Over := by
  cases u with
  | get out =>
    rw [Recording.use, h.get]
    exact h
  | rewind => exact absurd trivial hu
  | loop on => exact ⟨Bool.eq_false_iff.2 hu, h.length_le⟩
  | close => exact ⟨rfl, Nat.le_refl _⟩

/-- **Run**: nor do any uses bring it to play that do not make it. -/
theorem Over.useAll (h : r.Over) {us : List Use} (hus : ∀ u ∈ us, ¬ u.Restarts) :
    (r.useAll us).Over := by
  induction us generalizing r with
  | nil => exact h
  | cons u us ih =>
    exact ih (h.use (hus u List.mem_cons_self)) fun v hv => hus v (List.mem_cons_of_mem u hv)

/-- A recording is over when there is nothing left to read. -/
theorem over_iff (hpos : r.position ≤ r.data.length) :
    r.Over ↔ r.looping = false ∧ ∀ out, (r.get out).count = 0 := by
  refine ⟨fun h => ⟨h.looping, fun out => by rw [h.get]⟩, fun ⟨hoff, hnone⟩ => ⟨hoff, ?_⟩⟩
  have hbyte := hnone [0]
  rw [get, play_once hoff hpos, List.length_take, List.length_drop] at hbyte
  simp only [List.length_singleton] at hbyte
  omega

/-- **Main theorem**: how a recording is played, whatever it was used for before.

A read ends, tells a number of bytes that its frame has room for, and leaves the frame alone behind
them. As long as the recording loops and there is data, every read fills its frame, and the bytes
that are heard are those of the data in turn, from its position on and round again, so that it does
not matter how the reads cut them. As long as it does not loop, the bytes that are heard are those
from its position to the end, once. Then every read tells no bytes until the recording is rewound or
loops. It is finished if it does not loop and has nothing left to read. -/
theorem recording_plays (data : List UInt8) (looping : Bool) (us : List Use) :
    let r := (ofBytes data looping).useAll us
    r.Plays data ∧
    (∀ out, (Source.recording r).read out =
      (.recording (r.get out).recording, (r.get out).frame, .ok (r.get out).count)) ∧
    (∀ out rounds, out.length < rounds → r.getWithin rounds out =
      some ((r.get out).recording, (r.get out).frame, (r.get out).count)) ∧
    (∀ out, (r.get out).count ≤ out.length ∧ (r.get out).frame.length = out.length ∧
      (r.get out).frame.drop (r.get out).count = out.drop (r.get out).count) ∧
    (r.looping = true → data ≠ [] → (∀ out, (r.get out).count = out.length) ∧
      ∀ vs, (∀ v ∈ vs, v.Keeps true) → (r.heard vs).length = room vs ∧
        (∀ k < room vs, (r.heard vs)[k]? = data[(r.position + k) % data.length]?) ∧
        ∀ ws, (∀ w ∈ ws, w.Keeps true) → room ws = room vs → r.heard ws = r.heard vs) ∧
    (r.looping = false → ∀ vs, (∀ v ∈ vs, v.Keeps false) →
      r.heard vs = (data.drop r.position).take (room vs)) ∧
    (r.looping = false → data.drop r.position = [] → ∀ vs, (∀ v ∈ vs, ¬ v.Restarts) →
      ∀ out, ((r.useAll vs).get out).count = 0) ∧
    (r.isFinished = true ↔ r.looping = false ∧ data.drop r.position = []) ∧
    (r.isFinished = true ↔ r.looping = false ∧ ∀ out, (r.get out).count = 0) := by
  intro r
  have hplays : r.Plays data := (Plays.ofBytes data looping).useAll us
  clear_value r
  obtain ⟨rfl, hpos⟩ := hplays
  have hover : r.Over ↔ r.looping = false ∧ r.data.drop r.position = [] := by
    rw [List.drop_eq_nil_iff]
    exact ⟨fun h => ⟨h.looping, h.length_le⟩, fun ⟨hoff, hend⟩ => ⟨hoff, hend⟩⟩
  refine ⟨⟨rfl, hpos⟩, r.read_recording, fun out rounds => r.getWithin_eq out, fun out => ?_,
    fun hon hdata => ⟨fun out => ?_, fun vs hvs => ?_⟩, fun hoff vs => heard_once hoff hpos,
    fun hoff hnone vs hvs out => ?_, r.isFinished_iff.trans hover,
    r.isFinished_iff.trans (over_iff hpos)⟩
  · exact ⟨r.count_get_le out, length_overlay (r.count_get_le out), drop_overlay _ _⟩
  · exact (play_looped hon hdata hpos out.length).2.length hdata
  · have hheard := isAround_heard hon hdata hpos hvs
    refine ⟨hheard.length hdata, fun k hk => (hheard k).trans (if_pos hk), fun ws hws hroom => ?_⟩
    exact (hroom ▸ isAround_heard hon hdata hpos hws).unique hheard
  · have hstays := (hover.2 ⟨hoff, hnone⟩).useAll hvs
    rw [hstays.get]

/-- A recording of three bytes that was closed and then put in a loop is played from its end, round
to its start. One that was closed only is over, and stays so. -/
theorem recording_plays_closed :
    let r := (ofBytes [1, 2, 3] false).useAll [.close, .loop true]
    let r' := (ofBytes [1, 2, 3] false).useAll [.close]
    r.looping = true ∧ (∀ w ∈ [Use.get [0, 0, 0, 0, 0]], w.Keeps true) ∧
      (∀ v ∈ [Use.get [0], .loop true, .get [0, 0, 0, 0]], v.Keeps true) ∧
      r.heard [.get [0, 0, 0, 0, 0]] = r.heard [.get [0], .loop true, .get [0, 0, 0, 0]] ∧
      (r.heard [.get [0], .loop true, .get [0, 0, 0, 0]])[4]? = some 2 ∧
      r.getWithin 6 [0, 0, 0, 0, 0] = some ((r.get [0, 0, 0, 0, 0]).recording,
        (r.get [0, 0, 0, 0, 0]).frame, (r.get [0, 0, 0, 0, 0]).count) ∧
      r'.looping = false ∧ ([1, 2, 3] : List UInt8).drop r'.position = [] ∧
      ((r'.useAll [.get [0], .loop false]).get [0]).count = 0 := by
  obtain ⟨-, -, hends, -, hloops, -⟩ := recording_plays [1, 2, 3] false [.close, .loop true]
  obtain ⟨-, -, -, -, -, -, hover, -⟩ := recording_plays [1, 2, 3] false [.close]
  have hw : ∀ w ∈ [Use.get [0, 0, 0, 0, 0]], w.Keeps true := by simp [Use.Keeps]
  have hv : ∀ v ∈ [Use.get [0], .loop true, .get [0, 0, 0, 0]], v.Keeps true := by
    simp [Use.Keeps]
  have hstays : ∀ v ∈ [Use.get [0], .loop false], ¬ v.Restarts := by simp [Use.Restarts]
  obtain ⟨-, hplace, hcuts⟩ := (hloops rfl (List.cons_ne_nil 1 [2, 3])).2 _ hv
  exact ⟨rfl, hw, hv, hcuts _ hw rfl, hplace 4 (by decide), hends _ 6 (by decide), rfl, rfl,
    hover rfl rfl _ hstays [0]⟩

end CallBridge.Audio.Recording
