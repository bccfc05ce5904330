import CallBridge.Proofs.Codec.Cells

/-!
# The arithmetic of companding

The machine compands samples in signed words of 32 bits, out of which it takes bytes and samples of
16 bits. Here each step of that is taken with a check: a value that its type does not hold is none,
and so is a shift by more places than a word has.
A shift is a product with a power of two or a quotient, and parts of a byte that share no bit are
put together by a sum, so that a bit that is shifted out or put twice would be noticed as well.

Results:
* `muLawSegment?_eq`, `aLawSegment?_eq`: the loops that look for a segment count binary digits.
* `muLawEncode?_eq`, `muLawDecode?_eq`, `aLawEncode?_eq`, `aLawDecode?_eq`: no step leaves its type.
-/

namespace CallBridge.Codec.Companding

/-! ## Types of the machine -/

/-- A value, if a signed word of 32 bits holds it. -/
def word? (n : Int) : Option Int := if -2147483648 ≤ n ∧ n ≤ 2147483647 then some n else none

/-- A value as a sample, if 16 bits hold it. -/
def sample? (n : Int) : Option Int16 :=
  if -32768 ≤ n ∧ n ≤ 32767 then some (Int16.ofInt n) else none

/-- A value as a byte, if 8 bits hold it. -/
def byte? (n : Int) : Option UInt8 := if 0 ≤ n ∧ n ≤ 255 then some (UInt8.ofNat n.toNat) else none

/-- A number of places to shift a word by, if the word has as many. -/
def places? (n : Int) : Option Nat := if 0 ≤ n ∧ n < 32 then some n.toNat else none

theorem word?_eq {n : Int} (hlow : -2147483648 ≤ n) (hhigh : n ≤ 2147483647) :
    word? n = some n := if_pos ⟨hlow, hhigh⟩

theorem sample?_eq {n : Int} (hlow : -32768 ≤ n) (hhigh : n ≤ 32767) :
    sample? n = some (Int16.ofInt n) := if_pos ⟨hlow, hhigh⟩

theorem byte?_natCast {n : Nat} (h : n < 256) : byte? n = some (UInt8.ofNat n) := by
  rw [byte?, if_pos ⟨Int.natCast_nonneg n, by omega⟩, Int.toNat_natCast]

theorem places?_natCast {n : Nat} (h : n < 32) : places? n = some n := by
  rw [places?, if_pos ⟨Int.natCast_nonneg n, by omega⟩, Int.toNat_natCast]

/-! ## Segments -/

/-- The segment of a biased magnitude: one more for each time that it can be halved, up to 7. -/
def muLawSegment? (segment value : Int) : Option Int :=
  if 0 < value ∧ segment < 7 then do
    let next ← word? (segment + 1)
    muLawSegment? next (value / 2)
  else some segment
termination_by value.toNat

/-- The segment of a magnitude behind the first one: one more for each time that it can be halved
before it is 1. -/
def aLawSegment? (segment value : Int) : Option Int :=
  if 1 < value then do
    let next ← word? (segment + 1)
    aLawSegment? next (value / 2)
  else some segment
termination_by value.toNat

theorem muLawSegment?_eq {segment : Nat} (h : segment ≤ 7) (value : Nat) :
    muLawSegment? segment value = some ((min 7 (segment + bitLength value) : Nat) : Int) := by
  induction value using Nat.strongRecOn generalizing segment with
  | ind value ih =>
    rw [muLawSegment?, bitLength]
    by_cases hzero : value = 0
    · rw [if_neg (by omega), if_pos hzero, Nat.add_zero, Nat.min_eq_right h]
    · rw [if_neg hzero]
      by_cases hlast : segment = 7
      · rw [if_neg (by omega), Nat.min_eq_left (by omega), hlast]
      · have hnext := ih (value / 2) (by omega) (show segment + 1 ≤ 7 by omega)
        rw [if_pos (by omega), word?_eq (by omega) (by omega), Option.bind_eq_bind,
          Option.bind_some, ← Nat.add_assoc]
        exact hnext

theorem aLawSegment?_eq {segment value : Nat} (hvalue : value ≠ 0)
    (h : segment + bitLength value ≤ 100) :
    aLawSegment? segment value = some ((segment + bitLength value - 1 : Nat) : Int) := by
  induction value using Nat.strongRecOn generalizing segment with
  | ind value ih =>
    rw [aLawSegment?]
    rw [bitLength, if_neg hvalue] at h ⊢
    by_cases hlast : value = 1
    · rw [if_neg (by omega), hlast, bitLength, if_pos rfl]
      rfl
    · have hnext := ih (value / 2) (by omega) (by omega)
        (show segment + 1 + bitLength (value / 2) ≤ 100 by omega)
      rw [if_pos (by omega), word?_eq (by omega) (by omega), Option.bind_eq_bind,
        Option.bind_some, ← Nat.add_assoc]
      exact hnext

/-! ## Bytes and signs -/

theorem toNat_complement (b : UInt8) : (~~~b).toNat = 255 - b.toNat := by
  rw [UInt8.toNat_not]
  rfl

theorem complement_ofNat {n : Nat} (h : n < 256) : ~~~UInt8.ofNat n = UInt8.ofNat (255 - n) := by
  apply UInt8.toNat_inj.1
  rw [toNat_complement, UInt8.toNat_ofNat', UInt8.toNat_ofNat']
  omega

/-- A magnitude with a sign as a sample. -/
def signed? (negative : Bool) (magnitude : Int) : Option Int16 :=
  if negative then (word? (-magnitude)).bind sample? else sample? magnitude

theorem signed?_eq (negative : Bool) {n : Nat} (h : n ≤ 32767) :
    signed? negative n = some (Int16.ofInt (if negative then -(n : Int) else n)) := by
  cases negative with
  | true =>
    rw [signed?, if_pos rfl, if_pos rfl, word?_eq (by omega) (by omega), Option.bind_some,
      sample?_eq (by omega) (by omega)]
  | false =>
    rw [signed?, if_neg Bool.false_ne_true, if_neg Bool.false_ne_true,
      sample?_eq (by omega) (by omega)]

/-! ## μ-law -/

/-- The byte of a sample, unless a step leaves its type. -/
def muLawEncode? (x : Int16) : Option UInt8 := do
  let size ← word? |x.toInt|
  let biased ← word? (min size clip + bias)
  let segment ← muLawSegment? 0 (biased / 256)
  let places ← (word? (segment + 3)).bind places?
  let high ← word? (segment * 16)
  let code ← byte? ((if x.toInt < 0 then 128 else 0) + high + biased / 2 ^ places % 16)
  return ~~~code

/-- The magnitude of a segment and a step, unless a step leaves its type. -/
def muLawMagnitude? (segment step : Int) : Option Int := do
  let scaled ← word? (step * 8)
  let biased ← word? (scaled + bias)
  let places ← places? segment
  let raised ← word? (biased * 2 ^ places)
  word? (raised - bias)

/-- The sample of a byte, unless a step leaves its type. -/
def muLawDecode? (b : UInt8) : Option Int16 := do
  let code := (~~~b).toNat
  let magnitude ← muLawMagnitude? (code / 16 % 8 : Nat) (code % 16 : Nat)
  signed? (128 ≤ code) magnitude

theorem muLawEncode?_eq (x : Int16) : muLawEncode? x = some (muLawEncode x) := by
  have hlow := x.le_toInt
  have hhigh := x.toInt_lt
  obtain ⟨n, hn⟩ : ∃ n, n = x.toInt.natAbs := ⟨_, rfl⟩
  obtain ⟨m, hm⟩ : ∃ m, m = min n clip + bias := ⟨_, rfl⟩
  obtain ⟨k, hk⟩ : ∃ k, k = min 7 (bitLength (m / 256)) := ⟨_, rfl⟩
  have hmle : m ≤ 32767 := by
    rw [hm, clip, bias]
    omega
  have hkle : k ≤ 7 := hk ▸ Nat.min_le_left _ _
  have hsize : |x.toInt| = n := by rw [hn, Int.natCast_natAbs]
  have hbiased : min (n : Int) clip + bias = m := by omega
  have hsegment : muLawSegment? 0 ((m : Int) / 256) = some (k : Int) := by
    have := muLawSegment?_eq (Nat.zero_le 7) (m / 256)
    rw [Nat.zero_add, ← hk] at this
    exact this
  have hcode : (if x.toInt < 0 then 128 else 0) + (k : Int) * 16 +
      (m : Int) / 2 ^ (k + 3) % 16 = (muLawCode (x.toInt < 0) n : Nat) := by
    rw [muLawCode, ← hm, ← hk, Nat.shiftRight_eq_div_pow]
    push_cast
    simp
  have hplaces : places? ((k : Int) + 3) = some (k + 3) :=
    places?_natCast (show k + 3 < 32 by omega)
  have hfits := (muLawMagnitude_code (x.toInt < 0) n).1
  simp only [muLawEncode?, Option.bind_eq_bind, Option.pure_def]
  rw [hsize, word?_eq (by omega) (by omega), Option.bind_some, hbiased,
    word?_eq (by omega) (by omega), Option.bind_some, hsegment, Option.bind_some,
    word?_eq (by omega) (by omega), Option.bind_some, hplaces, Option.bind_some,
    word?_eq (by omega) (by omega), Option.bind_some, hcode, byte?_natCast hfits,
    Option.bind_some, complement_ofNat hfits, muLawEncode, hn]

theorem muLawMagnitude?_eq {s t : Nat} (hs : s < 8) (ht : t < 16) :
    muLawMagnitude? s t = some (muLawMagnitude s t : Int) := by
  have hle := muLawMagnitude_le hs ht
  have hbias : (bias : Int) = 132 := rfl
  have hraised : ((t : Int) * 8 + bias) * 2 ^ s = muLawMagnitude s t + bias := by
    exact_mod_cast (muLawMagnitude_add_bias s t).symm
  simp only [muLawMagnitude?, Option.bind_eq_bind]
  rw [word?_eq (by omega) (by omega), Option.bind_some, word?_eq (by omega) (by omega),
    Option.bind_some, places?_natCast (by omega), Option.bind_some, hraised,
    word?_eq (by omega) (by omega), Option.bind_some, Int.add_sub_cancel,
    word?_eq (by omega) (by omega)]

theorem muLawDecode?_eq (b : UInt8) : muLawDecode? b = some (muLawDecode b) := by
  have hsegment : (255 - b.toNat) / 16 % 8 < 8 := Nat.mod_lt _ (by decide)
  have hstep : (255 - b.toNat) % 16 < 16 := Nat.mod_lt _ (by decide)
  have hle := muLawMagnitude_le hsegment hstep
  simp only [muLawDecode?, Option.bind_eq_bind, toNat_complement]
  rw [muLawMagnitude?_eq hsegment hstep, Option.bind_some, signed?_eq _ (by omega), muLawDecode]
  simp only [decide_eq_true_eq]

/-! ## A-law -/

/-- The magnitude that stands for a sample, unless a step leaves its type. -/
def aLawSize? (x : Int16) : Option Int :=
  if 0 ≤ x.toInt then word? x.toInt
  else do
    let negated ← word? (-x.toInt)
    word? (negated - 1)

/-- The code of a magnitude of 13 bits without its sign, unless a step leaves its type. -/
def aLawCode? (magnitude : Int) : Option UInt8 :=
  if min magnitude 0xFFF < 32 then byte? (min magnitude 0xFFF / 2)
  else do
    let segment ← aLawSegment? 1 (min magnitude 0xFFF / 32)
    let places ← places? segment
    let high ← word? (segment * 16)
    byte? (high + min magnitude 0xFFF / 2 ^ places % 16)

/-- The byte of a sample, unless a step leaves its type. -/
def aLawEncode? (x : Int16) : Option UInt8 := do
  let size ← aLawSize? x
  let code ← aLawCode? (size / 8)
  let signed ← byte? ((if 0 ≤ x.toInt then 128 else 0) + code.toNat)
  return signed ^^^ 0x55

/-- The magnitude of a segment and a step, unless a step leaves its type. -/
def aLawMagnitude? (segment step : Int) : Option Int := do
  let scaled ← word? (step * 16)
  if segment = 0 then word? (scaled + 8)
  else do
    let raised ← word? (scaled + 0x108)
    let places ← (word? (segment - 1)).bind places?
    word? (raised * 2 ^ places)

/-- The sample of a byte, unless a step leaves its type. -/
def aLawDecode? (b : UInt8) : Option Int16 := do
  let code := (b ^^^ 0x55).toNat
  let magnitude ← aLawMagnitude? (code / 16 % 8 : Nat) (code % 16 : Nat)
  signed? (code < 128) magnitude

theorem aLawSize?_eq (x : Int16) : aLawSize? x = some (aLawSize x : Int) := by
  have hlow := x.le_toInt
  have hhigh := x.toInt_lt
  unfold aLawSize? aLawSize
  split
  · next hpositive => rw [word?_eq (by omega) (by omega), Int.toNat_of_nonneg hpositive]
  · next hnegative =>
    rw [word?_eq (by omega) (by omega), Option.bind_eq_bind, Option.bind_some,
      word?_eq (by omega) (by omega), Int.toNat_of_nonneg (by omega)]

theorem aLawCode?_eq {n : Nat} (hn : n < 32768) :
    aLawCode? (n / 8 : Nat) = some (UInt8.ofNat (aLawCode (n / 8))) := by
  have hfits := (aLawMagnitude_code hn).1
  obtain ⟨m, hm⟩ : ∃ m, m = n / 8 := ⟨_, rfl⟩
  have hclip : min (m : Int) 0xFFF = m := by omega
  have hclip' : min m 0xFFF = m := by omega
  rw [← hm] at hfits ⊢
  rw [aLawCode?, hclip]
  rw [aLawCode, hclip'] at hfits ⊢
  by_cases hfirst : m < 32
  · rw [if_pos hfirst] at hfits ⊢
    rw [if_pos (by omega)]
    exact byte?_natCast (n := m / 2) (by omega)
  · rw [if_neg hfirst] at hfits ⊢
    have hseven : bitLength (m / 32) ≤ 7 := (bitLength_le_iff _ _).2 (by omega)
    have hsegment : aLawSegment? 1 ((m : Int) / 32) = some (bitLength (m / 32) : Int) := by
      have := aLawSegment?_eq (show m / 32 ≠ 0 by omega)
        (show 1 + bitLength (m / 32) ≤ 100 by omega)
      rw [Nat.add_sub_cancel_left] at this
      exact this
    dsimp only at hfits ⊢
    rw [Nat.shiftRight_eq_div_pow] at hfits ⊢
    rw [if_neg (by omega), hsegment, Option.bind_eq_bind, Option.bind_some,
      places?_natCast (by omega), Option.bind_eq_bind, Option.bind_some,
      word?_eq (by omega) (by omega), Option.bind_some]
    exact_mod_cast byte?_natCast (Nat.lt_trans hfits (by decide))

theorem aLawEncode?_eq (x : Int16) : aLawEncode? x = some (aLawEncode x) := by
  have hfits := (aLawMagnitude_code (aLawSize_lt x)).1
  have hcode : (UInt8.ofNat (aLawCode (aLawSize x / 8))).toNat = aLawCode (aLawSize x / 8) := by
    rw [UInt8.toNat_ofNat']
    omega
  have hsize : (aLawSize x : Int) / 8 = (aLawSize x / 8 : Nat) := rfl
  have hsigned : (if 0 ≤ x.toInt then 128 else 0) + (aLawCode (aLawSize x / 8) : Int) =
      ((if 0 ≤ x.toInt then 128 else 0) + aLawCode (aLawSize x / 8) : Nat) := by
    push_cast
    rfl
  simp only [aLawEncode?, Option.bind_eq_bind, Option.pure_def]
  rw [aLawSize?_eq, Option.bind_some, hsize, aLawCode?_eq (aLawSize_lt x), Option.bind_some, hcode,
    hsigned, byte?_natCast (by split <;> omega), Option.bind_some, aLawEncode_eq]

theorem aLawMagnitude?_eq {s t : Nat} (hs : s < 8) (ht : t < 16) :
    aLawMagnitude? s t = some (aLawMagnitude s t : Int) := by
  have hle := aLawMagnitude_le hs ht
  rw [aLawMagnitude?, word?_eq (by omega) (by omega), Option.bind_eq_bind, Option.bind_some]
  cases s with
  | zero =>
    rw [if_pos Int.natCast_zero, word?_eq (by omega) (by omega), aLawMagnitude, if_pos rfl]
    rfl
  | succ k =>
    have hraised : ((t : Int) * 16 + 0x108) * 2 ^ k = aLawMagnitude (k + 1) t := by
      rw [aLawMagnitude, if_neg (Nat.succ_ne_zero k), Nat.shiftLeft_eq, Nat.add_sub_cancel]
      push_cast
      rfl
    have hplaces : ((k + 1 : Nat) : Int) - 1 = k := by omega
    rw [if_neg (by omega), word?_eq (by omega) (by omega), Option.bind_some, hplaces,
      word?_eq (by omega) (by omega), Option.bind_some, places?_natCast (by omega),
      Option.bind_eq_bind, Option.bind_some, hraised, word?_eq (by omega) (by omega)]

theorem aLawDecode?_eq (b : UInt8) : aLawDecode? b = some (aLawDecode b) := by
  have hsegment : (b ^^^ 0x55).toNat / 16 % 8 < 8 := Nat.mod_lt _ (by decide)
  have hstep : (b ^^^ 0x55).toNat % 16 < 16 := Nat.mod_lt _ (by decide)
  have hle := aLawMagnitude_le hsegment hstep
  simp only [aLawDecode?, Option.bind_eq_bind]
  rw [aLawMagnitude?_eq hsegment hstep, Option.bind_some, signed?_eq _ (by omega), aLawDecode]
  simp only [decide_eq_true_eq]
  congr 2
  split <;> split <;> omega

end CallBridge.Codec.Companding
