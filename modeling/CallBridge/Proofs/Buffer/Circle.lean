import CallBridge.Buffer.Ring
import Mathlib.Data.List.DropRight
import Mathlib.Data.List.Rotate

/-!
# The circle of a ring buffer

The ring buffer keeps its unread bytes in cells that are used in a circle. Turned so that the oldest
byte comes first, the cells start with the unread bytes, and those that hold none follow.

Results:
* `Ring.Sound.write`, `Ring.Sound.takeOldest`: the positions stay in the circle.
* `Ring.turned_copyIn`, `Ring.copyOut_eq`: what copying does to the turned cells.
* `Ring.contents_write`, `Ring.written_eq`: what a write leaves and answers.
* `Ring.contents_takeOldest`: what a read takes and leaves.
-/

namespace CallBridge.Buffer.Ring

/-! ## Positions in the circle -/

/-- The positions lie in the circle, the write position as far behind the read position as there are
unread bytes. -/
structure Sound (r : Ring) : Prop where
  stored_le : r.stored ≤ r.capacity
  readPos_lt : r.readPos < max 1 r.capacity
  writePos_eq : r.writePos = (r.readPos + r.stored) % r.capacity

theorem advance_eq_mod {capacity pos size : Nat} (hpos : pos < capacity) (hsize : size ≤ capacity) :
    advance capacity pos size = (pos + size) % capacity := by
  unfold advance
  by_cases hspace : size ≤ capacity - pos
  · simp only [if_pos hspace]
    split
    · next hend => rw [hend, Nat.mod_self]
    · rw [Nat.mod_eq_of_lt (by omega)]
  · simp only [if_neg hspace]
    rw [if_neg (by omega), Nat.mod_eq_sub_mod (by omega), Nat.mod_eq_of_lt (by omega)]
    omega

theorem Sound.ofCapacity (capacity : Nat) : (ofCapacity capacity).Sound :=
  ⟨Nat.zero_le _, Nat.le_max_left 1 _, by simp [Ring.ofCapacity]⟩

theorem Sound.clear {r : Ring} (_ : r.Sound) : r.clear.Sound :=
  ⟨Nat.zero_le _, Nat.le_max_left 1 _, by simp [Ring.clear]⟩

theorem Sound.writePos_lt {r : Ring} (h : r.Sound) : r.writePos < max 1 r.capacity := by
  rw [h.writePos_eq]
  rcases Nat.eq_zero_or_pos r.capacity with hzero | hpos
  · have hread := h.readPos_lt
    have hstored := h.stored_le
    simp only [hzero, Nat.mod_zero] at *
    omega
  · have hlt := Nat.mod_lt (r.readPos + r.stored) hpos
    omega

theorem Sound.readPos_le {r : Ring} (h : r.Sound) : r.readPos ≤ r.cells.length := by
  have hlt := h.readPos_lt
  rw [capacity] at hlt
  omega

theorem Sound.writePos_le {r : Ring} (h : r.Sound) : r.writePos ≤ r.cells.length := by
  have hlt := h.writePos_lt
  rw [capacity] at hlt
  omega

/-! ## Copying -/

theorem length_copyIn {cells data : List UInt8} {pos : Nat} (hpos : pos ≤ cells.length)
    (hdata : data.length ≤ cells.length) : (copyIn cells pos data).length = cells.length := by
  unfold copyIn
  by_cases hspace : data.length ≤ cells.length - pos
  · simp only [if_pos hspace, List.length_append, List.length_take, List.length_drop]
    omega
  · simp only [if_neg hspace, List.length_append, List.length_take, List.length_drop]
    omega

/-- Turned to the position that bytes are copied to, the cells start with these bytes, and the cells
behind them are as they were. -/
theorem turned_copyIn {cells data : List UInt8} {pos : Nat} (hpos : pos ≤ cells.length)
    (hdata : data.length ≤ cells.length) :
    (copyIn cells pos data).rotate pos = data ++ (cells.rotate pos).drop data.length := by
  have hlength := length_copyIn hpos hdata
  rw [List.rotate_eq_drop_append_take (hlength ▸ hpos), List.rotate_eq_drop_append_take hpos]
  unfold copyIn
  have hfront : (cells.take pos).length = pos := by simp [hpos]
  by_cases hspace : data.length ≤ cells.length - pos
  · simp only [if_pos hspace]
    rw [List.append_assoc, List.drop_left' hfront, List.take_left' hfront,
      List.drop_append_of_le_length (by simpa using hspace), List.drop_drop, List.append_assoc]
  · simp only [if_neg hspace]
    have hwrapped : (data.drop (cells.length - pos) ++
        (cells.take pos).drop (data.length - (cells.length - pos))).length = pos := by
      simp only [List.length_append, List.length_take, List.length_drop]
      omega
    rw [List.drop_left' hwrapped, List.take_left' hwrapped, ← List.append_assoc,
      List.take_append_drop, List.drop_append]
    have hdrop : (cells.drop pos).drop data.length = [] := by
      rw [List.drop_eq_nil_iff, List.length_drop]
      omega
    rw [hdrop, List.nil_append, List.length_drop]

/-- What is copied out from a position on is the front of the cells turned to it. -/
theorem copyOut_eq {cells : List UInt8} {pos size : Nat} (hpos : pos ≤ cells.length)
    (hsize : size ≤ cells.length) : copyOut cells pos size = (cells.rotate pos).take size := by
  rw [List.rotate_eq_drop_append_take hpos]
  unfold copyOut
  by_cases hspace : size ≤ cells.length - pos
  · simp only [if_pos hspace]
    rw [List.take_append_of_le_length (by simpa using hspace)]
  · simp only [if_neg hspace]
    have hback : (cells.drop pos).take size = cells.drop pos := by
      rw [List.take_of_length_le]
      rw [List.length_drop]
      omega
    rw [List.take_append, hback, List.length_drop, List.take_take, Nat.min_eq_left (by omega)]

/-! ## Contents -/

variable {r : Ring}

/-- The cells turned so that the oldest byte comes first. -/
def turned (r : Ring) : List UInt8 := r.cells.rotate r.readPos

@[simp] theorem length_turned (r : Ring) : r.turned.length = r.capacity :=
  List.length_rotate _ _

theorem contents_eq (h : r.Sound) : r.contents = r.turned.take r.stored := by
  rw [contents, turned, List.rotate_eq_drop_append_take h.readPos_le]

theorem contents_mk {cells : List UInt8} {readPos writePos stored : Nat}
    (h : (⟨cells, readPos, writePos, stored⟩ : Ring).Sound) :
    contents ⟨cells, readPos, writePos, stored⟩ = (cells.rotate readPos).take stored :=
  contents_eq h

/-- Turned to the write position, the cells that hold no unread byte come first. -/
theorem rotate_writePos (h : r.Sound) :
    r.cells.rotate r.writePos = r.turned.drop r.stored ++ r.contents := by
  have hstored : r.stored ≤ r.turned.length := by
    rw [length_turned]
    exact h.stored_le
  rw [h.writePos_eq, capacity, List.rotate_mod, ← List.rotate_rotate, ← turned,
    List.rotate_eq_drop_append_take hstored, contents_eq h]

/-! ## Writing -/

/-- A write that finds room moves the write position on. -/
theorem write_fits {data : List UInt8} (hne : data ≠ [])
    (hfits : r.stored + data.length ≤ r.capacity) :
    r.write data =
      (⟨copyIn r.cells r.writePos data, r.readPos, advance r.capacity r.writePos data.length,
        r.stored + data.length⟩, .ok (.fully data.length)) := by
  unfold write
  rw [if_neg (by omega), if_neg (by simpa using hne), if_neg (by omega)]

/-- A write that finds too little room moves both positions on, to the same cell. -/
theorem write_overflows {data : List UInt8} (hdata : data.length ≤ r.capacity)
    (hfull : r.capacity < r.stored + data.length) (hne : data ≠ []) :
    r.write data =
      (⟨copyIn r.cells r.writePos data, advance r.capacity r.writePos data.length,
        advance r.capacity r.writePos data.length, r.capacity⟩,
        .ok (.overflowing data.length (r.stored + data.length - r.capacity))) := by
  unfold write
  rw [if_neg (by omega), if_neg (by simpa using hne), if_pos hfull]

/-- Where there is room, the new bytes stand behind the unread ones. -/
theorem turned_fits (h : r.Sound) {data : List UInt8}
    (hfits : r.stored + data.length ≤ r.capacity) :
    (copyIn r.cells r.writePos data).rotate r.readPos =
      r.contents ++ (data ++ r.turned.drop (r.stored + data.length)) := by
  have hdata : data.length ≤ r.cells.length := by
    rw [capacity] at hfits
    omega
  have hcontents : r.contents.length = r.stored := length_contents h.stored_le
  have hroom : data.length ≤ (r.turned.drop r.stored).length := by
    rw [List.length_drop, length_turned]
    omega
  have hturnedOn : (r.contents ++ (data ++ r.turned.drop (r.stored + data.length))).rotate
      r.stored = data ++ r.turned.drop (r.stored + data.length) ++ r.contents := by
    rw [← hcontents, List.rotate_append_length_eq]
  -- both sides are compared after they were turned on to the write position
  rw [← List.rotate_eq_rotate (n := r.stored), hturnedOn, List.rotate_rotate, ← List.rotate_mod,
    length_copyIn h.writePos_le hdata, ← capacity, ← h.writePos_eq,
    turned_copyIn h.writePos_le hdata, rotate_writePos h, List.drop_append_of_le_length hroom,
    List.drop_drop, List.append_assoc]

/-- Where there is too little room, the cells hold the last unread bytes and the new ones. -/
theorem turned_overflows (h : r.Sound) {data : List UInt8} (hdata : data.length ≤ r.capacity)
    (hfull : r.capacity < r.stored + data.length) :
    (copyIn r.cells r.writePos data).rotate (advance r.capacity r.writePos data.length) =
      r.contents.drop (r.stored + data.length - r.capacity) ++ data := by
  have hstored := h.stored_le
  have hwrite : r.writePos < r.capacity := by
    have hlt := h.writePos_lt
    omega
  have hunused : (r.turned.drop r.stored).drop data.length = [] := by
    rw [List.drop_eq_nil_iff, List.length_drop, length_turned]
    omega
  have hlost : data.length - (r.turned.drop r.stored).length =
      r.stored + data.length - r.capacity := by
    rw [List.length_drop, length_turned]
    omega
  rw [advance_eq_mod hwrite hdata]
  conv_lhs => rw [capacity, ← length_copyIn h.writePos_le hdata]
  rw [List.rotate_mod, ← List.rotate_rotate, turned_copyIn h.writePos_le hdata,
    List.rotate_append_length_eq, rotate_writePos h, List.drop_append, hunused, hlost,
    List.nil_append]

theorem Sound.write (h : r.Sound) (data : List UInt8) : (r.write data).1.Sound := by
  by_cases htoo : r.capacity < data.length
  · simpa [Ring.write, htoo] using h
  by_cases hne : data = []
  · simpa [Ring.write, htoo, hne] using h
  have hdata : data.length ≤ r.capacity := by omega
  have hcells := length_copyIn h.writePos_le hdata
  have hpos : 0 < r.capacity := by
    have hlength := List.length_pos_iff.2 hne
    omega
  have hwrite : r.writePos < r.capacity := by
    have hlt := h.writePos_lt
    omega
  have hnext := advance_eq_mod hwrite hdata
  have hlt := Nat.mod_lt (r.writePos + data.length) hpos
  by_cases hfits : r.stored + data.length ≤ r.capacity
  · rw [write_fits hne hfits]
    refine ⟨?_, ?_, ?_⟩
    · simpa [Ring.capacity, hcells] using hfits
    · simpa [Ring.capacity, hcells] using h.readPos_lt
    · simp only [Ring.capacity, hcells] at hnext ⊢
      rw [hnext, h.writePos_eq, Ring.capacity, Nat.mod_add_mod, Nat.add_assoc]
  · rw [write_overflows hdata (by omega) hne]
    refine ⟨?_, ?_, ?_⟩
    · simp [Ring.capacity, hcells]
    · simp only [Ring.capacity, hcells] at hnext hlt ⊢
      omega
    · simp only [Ring.capacity, hcells] at hnext hlt ⊢
      rw [hnext, Nat.add_mod_right, Nat.mod_mod]

/-- A write that the buffer takes leaves the last bytes that fit. -/
theorem contents_write (h : r.Sound) {data : List UInt8} (hdata : data.length ≤ r.capacity) :
    (r.write data).1.contents =
      (r.contents ++ data).rtake (min r.capacity (r.stored + data.length)) := by
  have hcontents : r.contents.length = r.stored := length_contents h.stored_le
  have hstored := h.stored_le
  have hsound := h.write data
  rw [List.rtake, List.length_append, hcontents]
  by_cases hne : data = []
  · subst hne
    have hsame : (r.write []).1 = r := by simp [write]
    rw [hsame, List.append_nil, List.length_nil, Nat.add_zero, Nat.min_eq_right hstored,
      Nat.sub_self, List.drop_zero]
  by_cases hfits : r.stored + data.length ≤ r.capacity
  · rw [write_fits hne hfits] at hsound ⊢
    rw [contents_mk hsound, turned_fits h hfits, Nat.min_eq_right hfits, Nat.sub_self,
      List.drop_zero, ← List.append_assoc, List.take_left']
    rw [List.length_append, hcontents]
  · have hfull : r.capacity < r.stored + data.length := by omega
    rw [write_overflows hdata hfull hne] at hsound ⊢
    rw [contents_mk hsound, turned_overflows h hdata hfull, Nat.min_eq_left (by omega),
      List.take_of_length_le, List.drop_append_of_le_length (by omega)]
    rw [List.length_append, List.length_drop, hcontents]
    omega

@[simp] theorem capacity_write (h : r.Sound) (data : List UInt8) :
    (r.write data).1.capacity = r.capacity := by
  unfold write
  split
  · rfl
  · next hfits =>
    have hcells : (copyIn r.cells r.writePos data).length = r.cells.length :=
      length_copyIn h.writePos_le (Nat.le_of_not_lt hfits)
    by_cases hne : data.isEmpty
    · rw [if_pos hne]
    · by_cases hfull : r.capacity < r.stored + data.length
      · simp only [if_neg hne, if_pos hfull]
        exact hcells
      · simp only [if_neg hne, if_neg hfull]
        exact hcells

/-- What a write answers is told by the numbers of the unread and of the new bytes. -/
theorem written_eq (h : r.stored ≤ r.capacity) (data : List UInt8) :
    (r.write data).2 =
      if r.capacity < data.length then .error (.bufferTooLarge data.length r.capacity)
      else if r.stored + data.length ≤ r.capacity then .ok (.fully data.length)
      else .ok (.overflowing data.length (r.stored + data.length - r.capacity)) := by
  by_cases htoo : r.capacity < data.length
  · simp only [write, if_pos htoo]
  rw [if_neg htoo]
  by_cases hne : data = []
  · simp [write, hne, h]
  by_cases hfits : r.stored + data.length ≤ r.capacity
  · rw [write_fits hne hfits, if_pos hfits]
  · rw [write_overflows (by omega) (by omega) hne, if_neg hfits]

/-! ## Reading -/

theorem takeOldest_of_pos {limit : Nat} (hpos : 0 < min limit r.stored) :
    r.takeOldest limit =
      ({ r with
        readPos := advance r.capacity r.readPos (min limit r.stored)
        stored := r.stored - min limit r.stored },
        copyOut r.cells r.readPos (min limit r.stored)) := by
  unfold takeOldest
  rw [if_neg (by omega)]

@[simp] theorem capacity_takeOldest (r : Ring) (limit : Nat) :
    (r.takeOldest limit).1.capacity = r.capacity := by
  by_cases hzero : min limit r.stored = 0
  · simp only [takeOldest, if_pos hzero]
  · rw [takeOldest_of_pos (Nat.pos_of_ne_zero hzero), capacity, capacity]

theorem Sound.takeOldest (h : r.Sound) (limit : Nat) : (r.takeOldest limit).1.Sound := by
  by_cases hzero : min limit r.stored = 0
  · simpa [Ring.takeOldest, hzero] using h
  have hstored := h.stored_le
  have hread := h.readPos_lt
  have hnext : advance r.capacity r.readPos (min limit r.stored) =
      (r.readPos + min limit r.stored) % r.capacity := advance_eq_mod (by omega) (by omega)
  have hlt := Nat.mod_lt (r.readPos + min limit r.stored) (show 0 < r.capacity by omega)
  rw [takeOldest_of_pos (by omega)]
  simp only [Ring.capacity] at hnext hlt hstored ⊢
  refine ⟨?_, ?_, ?_⟩
  · simp only [Ring.capacity]
    omega
  · simp only [Ring.capacity]
    omega
  · simp only [Ring.capacity]
    rw [hnext, h.writePos_eq, Ring.capacity, Nat.mod_add_mod]
    congr 1
    omega

/-- A read takes the oldest bytes out of the contents. -/
theorem contents_takeOldest (h : r.Sound) (limit : Nat) :
    (r.takeOldest limit).2 = r.contents.take limit ∧
      (r.takeOldest limit).1.contents = r.contents.drop limit := by
  have hcontents : r.contents.length = r.stored := length_contents h.stored_le
  have hstored := h.stored_le
  have hread := h.readPos_lt
  have hsound := h.takeOldest limit
  by_cases hzero : min limit r.stored = 0
  · have hnone : r.takeOldest limit = (r, []) := by simp [takeOldest, hzero]
    rw [hnone]
    rcases Nat.eq_zero_or_pos limit with hlimit | hlimit
    · simp [hlimit]
    · have hempty : r.contents = [] := List.eq_nil_of_length_eq_zero (by omega)
      simp [hempty]
  have hnext : advance r.capacity r.readPos (min limit r.stored) =
      (r.readPos + min limit r.stored) % r.capacity := advance_eq_mod (by omega) (by omega)
  have htake : r.turned.take (min limit r.stored) = r.contents.take limit := by
    rw [contents_eq h, List.take_take]
  rw [takeOldest_of_pos (by omega)] at hsound ⊢
  refine ⟨?_, ?_⟩
  · rw [copyOut_eq h.readPos_le (by rw [capacity] at hstored; omega), ← turned, htake]
  · have hturned : r.cells.rotate (advance r.capacity r.readPos (min limit r.stored)) =
        r.turned.drop (min limit r.stored) ++ r.turned.take (min limit r.stored) := by
      rw [hnext, capacity, List.rotate_mod, ← List.rotate_rotate, ← turned,
        List.rotate_eq_drop_append_take (by rw [length_turned]; omega)]
    rw [contents_mk hsound, hturned, List.take_append_of_le_length, ← List.drop_take,
      ← contents_eq h, List.drop_eq_drop_iff, hcontents]
    · omega
    · rw [List.length_drop, length_turned]
      omega

theorem length_takeOldest (h : r.Sound) (limit : Nat) :
    (r.takeOldest limit).2.length = min limit r.stored := by
  rw [(contents_takeOldest h limit).1, List.length_take, length_contents h.stored_le, size]

/-- A read takes no more than it may, wherever the positions lie. -/
theorem length_takeOldest_le (r : Ring) (limit : Nat) : (r.takeOldest limit).2.length ≤ limit := by
  unfold takeOldest copyOut
  by_cases hzero : min limit r.stored = 0
  · simp only [if_pos hzero, List.length_nil, Nat.zero_le]
  simp only [if_neg hzero]
  by_cases hspace : min limit r.stored ≤ r.cells.length - r.readPos
  · simp only [if_pos hspace, List.length_take]
    omega
  · simp only [if_neg hspace, List.length_append, List.length_take, List.length_drop]
    omega

end CallBridge.Buffer.Ring
