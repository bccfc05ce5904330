import CallBridge.Dtmf.Key

/-!
# Tone analysis

Whether a block of samples holds the two tones of a key. The powers of the eight tones come from
the filter of Goertzel; a key is heard when one row and one column tone stand out in their groups,
their levels lie within the allowed twist and together they carry enough of the block.

All numbers are binary floating point with 24 bits, and the order of the operations is part of what
they mean.

In the media core, `analyse` is `analyze_block` of `DtmfDetector`, `power` is `goertzel`, and
`dominant?` is `dominant`.
-/

namespace CallBridge.Dtmf

/-- How the filters for a sampling rate are tuned. -/
structure Tuning where
  rows : List Float32
  columns : List Float32

namespace Tone

/-- Half the circumference of a unit circle. -/
def pi : Float32 := Float32.ofBits 0x40490FDB

/-- The row tones in Hertz. -/
def rowTones : List Float32 := [697.0, 770.0, 852.0, 941.0]

/-- The column tones in Hertz. -/
def columnTones : List Float32 := [1209.0, 1336.0, 1477.0, 1633.0]

/-- The least mean power of a sample. -/
def leastPower : Float32 := 1.0e5

/-- The least share of the power that the two tones carry. -/
def leastShare : Float32 := 0.15

/-- How far a row tone may exceed the column tone. -/
def rowTwist : Float32 := 6.31

/-- How far a column tone may exceed the row tone. -/
def columnTwist : Float32 := 2.51

/-- How far the strongest tone of a group exceeds every other. -/
def dominance : Float32 := 4.0

/-- The lowest finite number. -/
def lowest : Float32 := Float32.ofBits 0xFF7FFFFF

/-- The filter coefficient of a tone. -/
def coefficient (rate : UInt32) (tone : Float32) : Float32 :=
  2.0 * (2.0 * pi * tone / rate.toFloat32).cos

/-- The filters for a sampling rate. -/
def tuning (rate : UInt32) : Tuning :=
  ⟨rowTones.map (coefficient rate), columnTones.map (coefficient rate)⟩

/-- The power that a filter finds in some samples. -/
def power (block : List Float32) (c : Float32) : Float32 :=
  let (s1, s2) := block.foldl (fun (s1, s2) x => (x + c * s1 - s2, s1)) (0.0, 0.0)
  s1 * s1 + s2 * s2 - c * s1 * s2

/-- The index and power of the strongest tone of a group. -/
def strongest (powers : List Float32) : Nat × Float32 :=
  (powers.zipIdx).foldl (fun best (p, i) => if p > best.2 then (i, p) else best) (0, lowest)

/-- The strongest tone of a group, if it clearly exceeds every other. -/
def dominant? (powers : List Float32) : Option (Nat × Float32) :=
  let best := strongest powers
  if powers.zipIdx.all fun (p, i) => i == best.1 || p * dominance < best.2 then some best else none

/-- The sum of the squares of some samples. -/
def energy (block : List Float32) : Float32 := block.foldl (fun sum x => sum + x * x) 0.0

/-- The key at a row and a column. -/
def keyAt? (row column : Nat) : Option Key :=
  if h : row < 4 ∧ column < 4 then some ⟨⟨row, h.1⟩, ⟨column, h.2⟩⟩ else none

/-- The key whose tones a block of samples holds. -/
def analyse (tuning : Tuning) (block : List Int16) : Option Key := do
  let block := block.map Int16.toFloat32
  let total := energy block
  let n := (UInt32.ofNat block.length).toFloat32
  if total / n < leastPower then none
  let (row, rowPower) ← dominant? (tuning.rows.map (power block))
  let (column, columnPower) ← dominant? (tuning.columns.map (power block))
  if rowPower > columnPower * rowTwist || columnPower > rowPower * columnTwist then none
  if rowPower + columnPower < leastShare * n * total then none
  keyAt? row column

end Tone

end CallBridge.Dtmf
