import CallBridge.Codec.Companding
import Mathlib.Tactic.Ring

/-!
# Cells of companded magnitudes

A companded magnitude stands for all magnitudes of a cell, and it is decoded to the middle of the
cell. The cells are powers of two wide. From one segment to the next the width doubles, and every
segment has its cells between the sixteenth and the thirty-second of their width, but for the first
one, which reaches down to zero. So a cell is at most a sixteenth as wide as the magnitudes in it,
or it has the least width of all.

In μ-law the least width is 8, and the magnitudes are biased before they are cut into cells, so that
none of them lies below the sixteenth cell. In A-law the least width is 16.

Results:
* `bitLength_le_iff`: the number of binary digits.
* `width_cases`, `lt_width`: how wide a cell is.
* `middle_mono`, `middle_le`, `lt_middle`: the middle of a cell keeps the order and is near.
* `middle_of_cell`: the middle is the same for all of a cell.
* `muLawMagnitude_cell`, `aLawMagnitude_cell`: every decoded magnitude is the middle of a cell.
* `muLawMagnitude_code`, `aLawMagnitude_code`: it is the one of the cell that the magnitude is in.
-/

namespace CallBridge.Codec.Companding

/-! ## Binary digits -/

theorem bitLength_le_iff (n k : Nat) : bitLength n ≤ k ↔ n < 2 ^ k := by
  fun_induction bitLength n generalizing k with
  | case1 => exact iff_of_true (Nat.zero_le k) (Nat.two_pow_pos k)
  | case2 n hn ih =>
    cases k with
    | zero => simp [hn]
    | succ k =>
      have := ih k
      rw [Nat.pow_succ]
      omega

theorem bitLength_mono {n m : Nat} (h : n ≤ m) : bitLength n ≤ bitLength m :=
  (bitLength_le_iff n _).2 (Nat.lt_of_le_of_lt h ((bitLength_le_iff m _).1 (Nat.le_refl _)))

theorem bitLength_eq_of {n k : Nat} (hlow : k = 0 ∨ 2 ^ k ≤ 2 * n) (hhigh : n < 2 ^ k) :
    bitLength n = k := by
  refine Nat.le_antisymm ((bitLength_le_iff n k).2 hhigh) (Nat.le_of_not_lt fun hlt => ?_)
  cases k with
  | zero => exact Nat.not_lt_zero _ hlt
  | succ k =>
    have hbelow := (bitLength_le_iff n k).1 (Nat.le_of_lt_succ hlt)
    rw [Nat.pow_succ] at hlow
    omega

theorem pow_bitLength {n : Nat} (h : n ≠ 0) : 2 ^ bitLength n ≤ 2 * n := by
  have hhalf : ¬ n < 2 ^ (bitLength n - 1) := by
    rw [← bitLength_le_iff]
    have : bitLength n ≠ 0 := by rw [bitLength, if_neg h]; omega
    omega
  have hsplit : 2 ^ bitLength n ≤ 2 * 2 ^ (bitLength n - 1) := by
    rw [← Nat.pow_succ']
    exact Nat.pow_le_pow_right (by decide) (by omega)
  omega

/-! ## The width of a cell -/

/-- The width of the cell that a magnitude is in, where the narrowest cells have a least width. -/
def width (least n : Nat) : Nat := least * 2 ^ bitLength (n / (32 * least))

/-- The middle of the cell that a magnitude is in. -/
def middle (least n : Nat) : Nat := n / width least n * width least n + width least n / 2

section Width

variable {least n m : Nat}

theorem width_pos (hleast : 0 < least) : 0 < width least n :=
  Nat.mul_pos hleast (Nat.two_pow_pos _)

theorem lt_width (hleast : 0 < least) : n < 32 * width least n := by
  have hdigits := (bitLength_le_iff (n / (32 * least)) _).1 (Nat.le_refl _)
  rw [Nat.div_lt_iff_lt_mul (by omega), Nat.mul_comm, Nat.mul_assoc] at hdigits
  exact hdigits

/-- A cell has the least width, or it is at most a sixteenth as wide as the magnitudes in it. -/
theorem width_cases (least n : Nat) : width least n = least ∨ 16 * width least n ≤ n := by
  by_cases hfirst : n / (32 * least) = 0
  · left
    rw [width, hfirst, bitLength, if_pos rfl, Nat.pow_zero, Nat.mul_one]
  · right
    have hdigits := Nat.mul_le_mul_left (16 * least) (pow_bitLength hfirst)
    have hquotient := Nat.mul_div_le n (32 * least)
    calc 16 * width least n = 16 * least * 2 ^ bitLength (n / (32 * least)) := by
          rw [width, Nat.mul_assoc]
      _ ≤ 16 * least * (2 * (n / (32 * least))) := hdigits
      _ = 32 * least * (n / (32 * least)) := by
          rw [← Nat.mul_assoc, Nat.mul_right_comm 16 least 2]
      _ ≤ n := hquotient

/-- Greater magnitudes are in cells of the same width, or of twice the width at least. -/
theorem width_grows (least : Nat) (h : n ≤ m) :
    width least n = width least m ∨ 2 * width least n ≤ width least m := by
  rcases Nat.eq_or_lt_of_le (bitLength_mono (Nat.div_le_div_right (c := 32 * least) h)) with
    hsame | hmore
  · exact .inl (congrArg (least * 2 ^ ·) hsame)
  · right
    have hdouble := Nat.mul_le_mul_left least (Nat.pow_le_pow_right (show 0 < 2 by decide) hmore)
    rwa [Nat.pow_succ', Nat.mul_left_comm] at hdouble

/-- Where the segments of all magnitudes lie. -/
theorem width_of_segment (hleast : 0 < least) {k : Nat} (hlow : k = 0 ∨ 16 * (least * 2 ^ k) ≤ n)
    (hhigh : n < 32 * (least * 2 ^ k)) : width least n = least * 2 ^ k := by
  have hquotient : n / (32 * least) < 2 ^ k := by
    rw [Nat.div_lt_iff_lt_mul (by omega), Nat.mul_comm, Nat.mul_assoc]
    exact hhigh
  suffices hdigits : k = 0 ∨ 2 ^ k ≤ 2 * (n / (32 * least)) by
    rw [width, bitLength_eq_of hdigits hquotient]
  cases k with
  | zero => exact .inl rfl
  | succ k =>
    have hhalf : 2 ^ k ≤ n / (32 * least) := by
      rw [Nat.le_div_iff_mul_le (by omega)]
      calc 2 ^ k * (32 * least) = 16 * (least * 2 ^ (k + 1)) := by ring
        _ ≤ n := hlow.resolve_left (Nat.succ_ne_zero k)
    rw [Nat.pow_succ']
    omega

theorem quotient_lt (hleast : 0 < least) : n / width least n < 32 :=
  (Nat.div_lt_iff_lt_mul (width_pos hleast)).2 (lt_width hleast)

/-- Behind the first segment there are sixteen cells below. -/
theorem le_quotient (hleast : 0 < least) (h : width least n ≠ least ∨ 16 * least ≤ n) :
    16 ≤ n / width least n := by
  rw [Nat.le_div_iff_mul_le (width_pos hleast)]
  rcases width_cases least n with hnarrow | hwide
  · rw [hnarrow]
    exact h.resolve_left fun hne => hne hnarrow
  · exact hwide

/-! ## The middle of a cell -/

/-- All magnitudes of a cell have the same middle. -/
theorem middle_of_cell (hleast : 0 < least) {k q r : Nat} (hlow : k = 0 ∨ 16 ≤ q) (hhigh : q < 32)
    (hr : r < least * 2 ^ k) :
    middle least (q * (least * 2 ^ k) + r) = q * (least * 2 ^ k) + least * 2 ^ k / 2 := by
  have hwidth : width least (q * (least * 2 ^ k) + r) = least * 2 ^ k := by
    refine width_of_segment hleast (hlow.imp_right fun hq => ?_) ?_
    · exact Nat.le_add_right_of_le (Nat.mul_le_mul_right _ hq)
    · have := Nat.mul_le_mul_right (least * 2 ^ k) (Nat.succ_le_of_lt hhigh)
      rw [Nat.succ_mul] at this
      omega
  have hquotient : (q * (least * 2 ^ k) + r) / (least * 2 ^ k) = q := by
    rw [Nat.add_comm, Nat.add_mul_div_right _ _ (by omega), Nat.div_eq_of_lt hr, Nat.zero_add]
  rw [middle, hwidth, hquotient]

/-- The middle of a cell lies less than half a cell below any magnitude of it, -/
theorem lt_middle (hleast : 0 < least) (heven : 2 ∣ least) (n : Nat) :
    n < middle least n + width least n / 2 := by
  have hrest := Nat.mod_lt n (width_pos (n := n) hleast)
  have hsplit := Nat.div_add_mod n (width least n)
  have hhalf : 2 ∣ width least n := Nat.dvd_mul_right_of_dvd heven _
  rw [Nat.mul_comm] at hsplit
  rw [middle]
  omega

/-- and at most half a cell above. -/
theorem middle_le (least n : Nat) : middle least n ≤ n + width least n / 2 := by
  have hsplit := Nat.div_mul_le_self n (width least n)
  rw [middle]
  omega

theorem middle_mono (hleast : 0 < least) (h : n ≤ m) : middle least n ≤ middle least m := by
  rcases width_grows least h with hsame | hdouble
  · rw [middle, middle, hsame]
    exact Nat.add_le_add_right (Nat.mul_le_mul_right _ (Nat.div_le_div_right h)) _
  · -- the whole segment of the lesser magnitude lies below that of the greater one
    have hleast' : least ≤ width least n := Nat.le_mul_of_pos_right least (Nat.two_pow_pos _)
    have hbelow := Nat.mul_le_mul_right (width least n)
      (Nat.le_of_lt_succ (quotient_lt (n := n) hleast))
    have habove := Nat.mul_le_mul_right (width least m)
      (le_quotient (n := m) hleast (.inl (by omega)))
    rw [middle, middle]
    omega

/-- Half a cell is little against the magnitudes in it, but for the narrowest cells. -/
theorem half_width_le (least n : Nat) : width least n / 2 ≤ max (least / 2) (n / 32) := by
  rcases width_cases least n with hnarrow | hwide
  · rw [hnarrow]
    omega
  · omega

end Width

/-! ## μ-law -/

/-- The magnitude that a magnitude is decoded to in μ-law. -/
def muLawLevel (n : Nat) : Nat := middle 8 (min n clip + bias) - bias

theorem muLawMagnitude_add_bias (segment step : Nat) :
    muLawMagnitude segment step + bias = (step * 8 + bias) * 2 ^ segment := by
  have hbias : bias ≤ (step * 8 + bias) * 2 ^ segment :=
    (Nat.le_add_left bias (step * 8)).trans (Nat.le_mul_of_pos_right _ (Nat.two_pow_pos segment))
  rw [muLawMagnitude, Nat.shiftLeft_eq, Nat.sub_add_cancel hbias]

theorem muLawMagnitude_cell (segment step : Nat) :
    muLawMagnitude segment step + bias =
      (16 + step) * (8 * 2 ^ segment) + 8 * 2 ^ segment / 2 := by
  have hhalf : 8 * 2 ^ segment / 2 = 4 * 2 ^ segment := by omega
  rw [muLawMagnitude_add_bias, hhalf, bias]
  ring

/-- A decoded magnitude is decoded to itself. -/
theorem muLawLevel_magnitude {segment step : Nat} (hs : segment < 8) (ht : step < 16) :
    muLawLevel (muLawMagnitude segment step) = muLawMagnitude segment step := by
  have hle := muLawMagnitude_le hs ht
  have hcell := muLawMagnitude_cell segment step
  have hclip : min (muLawMagnitude segment step) clip = muLawMagnitude segment step :=
    Nat.min_eq_left (by rw [clip]; omega)
  have hmiddle := middle_of_cell (k := segment) (q := 16 + step) (r := 8 * 2 ^ segment / 2)
    (show 0 < 8 by decide) (.inr (by omega)) (by omega)
    (by have := Nat.two_pow_pos segment; omega)
  rw [muLawLevel, hclip, hcell, hmiddle, ← hcell, Nat.add_sub_cancel]

/-- The code of a magnitude has its sign, and it is decoded to the middle of the cell. -/
theorem muLawMagnitude_code (negative : Bool) (n : Nat) :
    muLawCode negative n < 256 ∧ (128 ≤ muLawCode negative n ↔ negative = true) ∧
      muLawMagnitude (muLawCode negative n / 16 % 8) (muLawCode negative n % 16) =
        muLawLevel n := by
  let m := min n clip + bias
  have hm : 132 ≤ m ∧ m < 32768 := by
    simp only [m, clip, bias]
    omega
  obtain ⟨k, hk⟩ : ∃ k, k = bitLength (m / 256) := ⟨_, rfl⟩
  have hseven : k ≤ 7 := hk ▸ (bitLength_le_iff _ _).2 (by omega)
  have hwidth : width 8 m = 2 ^ (k + 3) := by rw [width, hk, Nat.pow_add, Nat.mul_comm]
  have hlow : 16 ≤ m / width 8 m := le_quotient (by decide) (.inr (by omega))
  have hhigh : m / width 8 m < 32 := quotient_lt (by decide)
  have hlevel : muLawLevel n = muLawMagnitude k (m / width 8 m - 16) := by
    have hcell := muLawMagnitude_cell k (m / width 8 m - 16)
    rw [Nat.add_sub_cancel' hlow, Nat.mul_comm 8, show 8 = 2 ^ 3 from rfl, ← Nat.pow_add,
      ← hwidth] at hcell
    exact (Nat.sub_eq_of_eq_add hcell.symm)
  have hcode : muLawCode negative n =
      (if negative then 128 else 0) + k * 16 + m / width 8 m % 16 := by
    have hmin : min 7 (bitLength (m / 256)) = k := by omega
    rw [hwidth, ← Nat.shiftRight_eq_div_pow, ← hmin]
    rfl
  have hsign : ((if negative then 128 else 0) = 128 ∧ negative = true) ∨
      ((if negative then 128 else 0) = 0 ∧ ¬ negative = true) := by
    cases negative <;> decide
  rw [hlevel, hcode]
  generalize (if negative then 128 else 0) = sign at hsign ⊢
  generalize m / width 8 m = q at hlow hhigh ⊢
  have hsegment : (sign + k * 16 + q % 16) / 16 % 8 = k := by omega
  have hstep : (sign + k * 16 + q % 16) % 16 = q - 16 := by omega
  rw [hsegment, hstep]
  refine ⟨by omega, ?_, rfl⟩
  rcases hsign with ⟨hsign, hnegative⟩ | ⟨hsign, hnegative⟩
  · exact iff_of_true (by omega) hnegative
  · exact iff_of_false (by omega) hnegative

/-! ## A-law -/

/-- The magnitude that a sample is cut into cells by in A-law, one less for negative samples. -/
def aLawSize (x : Int16) : Nat := if 0 ≤ x.toInt then x.toInt.toNat else (-x.toInt - 1).toNat

theorem aLawSize_lt (x : Int16) : aLawSize x < 32768 := by
  have hlow := x.le_toInt
  have hhigh := x.toInt_lt
  unfold aLawSize
  split <;> omega

theorem aLawEncode_eq (x : Int16) : aLawEncode x =
    UInt8.ofNat ((if 0 ≤ x.toInt then 128 else 0) + aLawCode (aLawSize x / 8)) ^^^ 0x55 := by
  unfold aLawEncode aLawSize
  split
  · rfl
  · rw [Nat.zero_add]

theorem aLawMagnitude_succ (k step : Nat) :
    aLawMagnitude (k + 1) step = (16 + step) * (16 * 2 ^ k) + 16 * 2 ^ k / 2 := by
  have hhalf : 16 * 2 ^ k / 2 = 8 * 2 ^ k := by omega
  rw [aLawMagnitude, if_neg (Nat.succ_ne_zero k), Nat.shiftLeft_eq, Nat.add_sub_cancel, hhalf]
  ring

theorem aLawMagnitude_cell (segment : Nat) {step : Nat} (ht : step < 16) :
    ∃ k q, (k = 0 ∨ 16 ≤ q) ∧ q < 32 ∧
      aLawMagnitude segment step = q * (16 * 2 ^ k) + 16 * 2 ^ k / 2 := by
  cases segment with
  | zero => exact ⟨0, step, .inl rfl, by omega, rfl⟩
  | succ k =>
    exact ⟨k, 16 + step, .inr (Nat.le_add_right _ _), by omega, aLawMagnitude_succ k step⟩

/-- A decoded magnitude is decoded to itself, and so is the one below, which is in its cell. -/
theorem middle_aLawMagnitude (segment : Nat) {step : Nat} (ht : step < 16) :
    0 < aLawMagnitude segment step ∧
      middle 16 (aLawMagnitude segment step) = aLawMagnitude segment step ∧
      middle 16 (aLawMagnitude segment step - 1) = aLawMagnitude segment step := by
  obtain ⟨k, q, hlow, hhigh, hcell⟩ := aLawMagnitude_cell segment ht
  have hpos := Nat.two_pow_pos k
  have hbelow : aLawMagnitude segment step - 1 = q * (16 * 2 ^ k) + (16 * 2 ^ k / 2 - 1) := by
    omega
  refine ⟨by omega, ?_, ?_⟩
  · rw [hcell]
    exact middle_of_cell (by decide) hlow hhigh (by omega)
  · rw [hbelow, hcell]
    exact middle_of_cell (by decide) hlow hhigh (by omega)

/-- The code of a magnitude is decoded to the middle of the cell. -/
theorem aLawMagnitude_code {n : Nat} (hn : n < 32768) :
    aLawCode (n / 8) < 128 ∧
      aLawMagnitude (aLawCode (n / 8) / 16 % 8) (aLawCode (n / 8) % 16) = middle 16 n := by
  have hclip : min (n / 8) 0xFFF = n / 8 := Nat.min_eq_left (by omega)
  by_cases hfirst : n / 8 < 32
  · have hcode : aLawCode (n / 8) = n / 16 := by
      rw [aLawCode, hclip, if_pos hfirst, Nat.div_div_eq_div_mul]
    have hwidth : width 16 n = 16 * 2 ^ 0 := width_of_segment (by decide) (.inl rfl) (by omega)
    have hzero : n / 16 / 16 % 8 = 0 := by omega
    rw [hcode, hzero, middle, hwidth, aLawMagnitude, if_pos rfl]
    omega
  · obtain ⟨k, hk⟩ : ∃ k, k = bitLength (n / 512) := ⟨_, rfl⟩
    have hsix : k ≤ 6 := hk ▸ (bitLength_le_iff _ _).2 (by omega)
    have hwidth : width 16 n = 16 * 2 ^ k := by rw [width, hk]
    have hsegment : bitLength (n / 8 / 32) = k + 1 := by
      rw [bitLength, if_neg (by omega), Nat.div_div_eq_div_mul, Nat.div_div_eq_div_mul, hk,
        Nat.add_comm]
    have hshift : (n / 8) >>> (k + 1) = n / width 16 n := by
      rw [Nat.shiftRight_eq_div_pow, Nat.div_div_eq_div_mul, hwidth, Nat.pow_succ]
      congr 1
      omega
    have hcode : aLawCode (n / 8) = (k + 1) * 16 + n / width 16 n % 16 := by
      rw [aLawCode, hclip, if_neg hfirst, ← hshift, ← hsegment]
    have hlow : 16 ≤ n / width 16 n := le_quotient (by decide) (.inr (by omega))
    have hhigh : n / width 16 n < 32 := quotient_lt (by decide)
    have hmiddle : middle 16 n = aLawMagnitude (k + 1) (n / width 16 n - 16) := by
      rw [middle, aLawMagnitude_succ, Nat.add_sub_cancel' hlow, ← hwidth]
    rw [hcode, hmiddle]
    generalize n / width 16 n = q at hlow hhigh ⊢
    have hfield : ((k + 1) * 16 + q % 16) / 16 % 8 = k + 1 := by omega
    have hstep : ((k + 1) * 16 + q % 16) % 16 = q - 16 := by omega
    rw [hfield, hstep]
    exact ⟨by omega, rfl⟩

end CallBridge.Codec.Companding
