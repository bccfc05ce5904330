/-!
# Companded audio

The two variants of ITU-T G.711: sixteen bits of a sample become a byte with a sign, a segment of
three bits and a step of four bits within it. Magnitudes are natural numbers here, so no
intermediate value can leave a machine word.

In the media core, `muLawEncode` and `muLawDecode` are `encode_ulaw` and `decode_ulaw`, `aLawEncode`
and `aLawDecode` are `encode_alaw` and `decode_alaw`, and `bitLength` stands for `segment`.

Results:
* `muLawMagnitude_le`, `aLawMagnitude_le`: decoded magnitudes fit into sixteen bits with a sign.
-/

namespace CallBridge.Codec.Companding

/-- The number of binary digits of a number, none for zero. -/
def bitLength (n : Nat) : Nat := if n = 0 then 0 else 1 + bitLength (n / 2)
termination_by n
decreasing_by omega

/-! ## μ-law -/

/-- The bias that moves every magnitude into a segment. -/
def bias : Nat := 0x84

/-- The greatest magnitude that is kept apart. -/
def clip : Nat := 32635

/-- The code of a sign and a magnitude, before its bits are flipped. -/
def muLawCode (negative : Bool) (magnitude : Nat) : Nat :=
  let m := min magnitude clip + bias
  let segment := min 7 (bitLength (m / 256))
  (if negative then 128 else 0) + segment * 16 + (m >>> (segment + 3)) % 16

/-- The byte of a sample. -/
def muLawEncode (x : Int16) : UInt8 :=
  UInt8.ofNat (255 - muLawCode (x.toInt < 0) x.toInt.natAbs)

/-- The magnitude that a segment and a step stand for. -/
def muLawMagnitude (segment step : Nat) : Nat := ((step * 8 + bias) <<< segment) - bias

/-- The sample of a byte. -/
def muLawDecode (b : UInt8) : Int16 :=
  let code := 255 - b.toNat
  let magnitude : Int := muLawMagnitude (code / 16 % 8) (code % 16)
  Int16.ofInt (if 128 ≤ code then -magnitude else magnitude)

/-! ## A-law -/

/-- The code of a thirteen bit magnitude, without its sign. -/
def aLawCode (magnitude : Nat) : Nat :=
  let m := min magnitude 0xFFF
  if m < 32 then m / 2
  else
    let segment := bitLength (m / 32)
    segment * 16 + (m >>> segment) % 16

/-- The byte of a sample; every other bit is flipped, and the sign bit marks positive samples. -/
def aLawEncode (x : Int16) : UInt8 :=
  let code :=
    if 0 ≤ x.toInt then 128 + aLawCode (x.toInt.toNat / 8) else aLawCode ((-x.toInt - 1).toNat / 8)
  UInt8.ofNat code ^^^ 0x55

/-- The magnitude that a segment and a step stand for. -/
def aLawMagnitude (segment step : Nat) : Nat :=
  if segment = 0 then step * 16 + 8 else (step * 16 + 0x108) <<< (segment - 1)

/-- The sample of a byte. -/
def aLawDecode (b : UInt8) : Int16 :=
  let code := (b ^^^ 0x55).toNat
  let magnitude : Int := aLawMagnitude (code / 16 % 8) (code % 16)
  Int16.ofInt (if 128 ≤ code then magnitude else -magnitude)

theorem muLawMagnitude_le {segment step : Nat} (hs : segment < 8) (ht : step < 16) :
    muLawMagnitude segment step ≤ 32124 := by
  have h1 : 2 ^ segment ≤ 2 ^ 7 := Nat.pow_le_pow_right (by decide) (by omega)
  have h2 : (step * 8 + bias) * 2 ^ segment ≤ (15 * 8 + bias) * 2 ^ 7 :=
    Nat.mul_le_mul (by simp only [bias]; omega) h1
  simp only [muLawMagnitude, Nat.shiftLeft_eq, bias] at *
  omega

theorem aLawMagnitude_le {segment step : Nat} (hs : segment < 8) (ht : step < 16) :
    aLawMagnitude segment step ≤ 32256 := by
  have h1 : 2 ^ (segment - 1) ≤ 2 ^ 6 := Nat.pow_le_pow_right (by decide) (by omega)
  have h2 : (step * 16 + 0x108) * 2 ^ (segment - 1) ≤ (15 * 16 + 0x108) * 2 ^ 6 :=
    Nat.mul_le_mul (by omega) h1
  simp only [aLawMagnitude, Nat.shiftLeft_eq]
  split <;> omega

end CallBridge.Codec.Companding
