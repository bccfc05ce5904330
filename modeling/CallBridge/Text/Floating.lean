import CallBridge.Text.Decimal

/-!
# Floating-point numbers as text

A text is read as the binary number of 64 bits nearest to it. A number is written without an
exponent, with the fewest digits that are read as the same number; of several such digits those
nearest to the number are taken, and of two equally near ones the greater.

Both directions compare whole numbers only. A finite number is `m · 2 ^ q`, and the reals that are
read as it reach halfway to its neighbours, the ends included iff `m` is even.
-/

namespace CallBridge.Text.Floating

/-! ## The reals that are read as a number -/

/-- A finite number without its sign: `m · 2 ^ q`, and whether its neighbour below is half as far
away as its neighbour above. -/
structure Magnitude where
  m : Nat
  q : Int
  narrowBelow : Bool
deriving DecidableEq, Repr

/-- The magnitude in the bits of a finite number. -/
def Magnitude.ofBits (bits : UInt64) : Magnitude :=
  let e := ((bits >>> 52) &&& 0x7FF).toNat
  let f := (bits &&& 0xFFFFFFFFFFFFF).toNat
  if e = 0 then ⟨f, -1074, false⟩
  else ⟨0x10000000000000 + f, (e : Int) - 1075, f = 0 && 1 < e⟩

/-- The whole numbers whose quotient is that of `a · 10 ^ i` and `n · 2 ^ j`. -/
def sides (a : Nat) (i : Int) (n : Nat) (j : Int) : Nat × Nat :=
  (a * Nat.pow 10 i.toNat * Nat.pow 2 (-j).toNat, n * Nat.pow 2 j.toNat * Nat.pow 10 (-i).toNat)

/-- Whether `d · 10 ^ e` is read as a number. -/
def Magnitude.readsBack (x : Magnitude) (d : Nat) (e : Int) : Bool :=
  let low := sides d e (if x.narrowBelow then 4 * x.m - 1 else 4 * x.m - 2) (x.q - 2)
  let high := sides d e (4 * x.m + 2) (x.q - 2)
  let ends := x.m % 2 = 0
  (low.2 < low.1 || (ends && low.2 = low.1)) && (high.1 < high.2 || (ends && high.1 = high.2))

/-! ## The fewest digits -/

/-- The least `k` with a number below `10 ^ k`. -/
def Magnitude.scale (x : Magnitude) : Int :=
  let start := ((x.m.log2 : Int) + x.q) * 30103 / 100000
  ([start, start + 1, start + 2].find? fun k =>
    let (power, value) := sides 1 k x.m x.q
    value < power).getD (start + 3)

/-- The digits on the grid of `10 ^ g` that are read as a number, the nearer ones if there are two,
the greater of two equally near. -/
def Magnitude.onGrid (x : Magnitude) (g : Int) : Option Nat :=
  let (unit, value) := sides 1 g x.m x.q
  let d := value / unit
  match x.readsBack d g, x.readsBack (d + 1) g with
  | true, true => some (if 2 * value < (2 * d + 1) * unit then d else d + 1)
  | true, false => some d
  | false, true => some (d + 1)
  | false, false => none

/-- The exact value as digits and an exponent of ten. -/
def Magnitude.exact (x : Magnitude) : Nat × Int :=
  if 0 ≤ x.q then (x.m * Nat.pow 2 x.q.toNat, 0) else (x.m * Nat.pow 5 (-x.q).toNat, x.q)

/-- The fewest digits that are read as a number, and their exponent of ten. Seventeen digits always
suffice. -/
def Magnitude.shortest (x : Magnitude) : Nat × Int :=
  ((List.range 17).findSome? fun (n : Nat) =>
    let g := x.scale - (n + 1)
    (x.onGrid g).map fun d => (d, g)).getD x.exact

/-! ## Writing -/

/-- The digits after the point without the zeros at their end, and how many there are. -/
def dropZeros : Nat → Nat → Nat × Nat
  | d, 0 => (d, 0)
  | d, p + 1 => if d % 10 = 0 then dropZeros (d / 10) p else (d, p + 1)

/-- The text of `d · 10 ^ e` without an exponent. -/
def positional (d : Nat) (e : Int) : List Char :=
  if 0 ≤ e then Decimal.render (d * Nat.pow 10 e.toNat)
  else
    let (d, p) := dropZeros d (-e).toNat
    let whole := Decimal.render (d / Nat.pow 10 p)
    if p = 0 then whole
    else
      let places := Decimal.render (d % Nat.pow 10 p)
      whole ++ '.' :: (List.replicate (p - places.length) '0' ++ places)

/-- The written form of a number. -/
def render (x : Float) : String :=
  if x.isNaN then "NaN"
  else
    let sign := if x.toBits >>> 63 = 1 then "-" else ""
    let size := Magnitude.ofBits x.toBits
    if x.isInf then sign ++ "inf"
    else if size.m = 0 then sign ++ "0"
    else
      let (d, e) := size.shortest
      sign ++ String.ofList (positional d e)

/-! ## Reading -/

/-- A number that nothing is equal to. -/
def notANumber : Float := Float.ofBits 0x7FF8000000000000

/-- The number beyond all finite ones. -/
def infinity : Float := Float.ofBits 0x7FF0000000000000

/-- The number with its sign turned if `negative`. -/
def signed (negative : Bool) (x : Float) : Float := if negative then -x else x

/-- The number nearest to `d · 10 ^ e`. Powers of ten far outside of the range of all numbers are
not computed. -/
def nearest (d : Nat) (e : Int) : Float :=
  let width : Int := (Decimal.render d).length
  if d = 0 then 0
  else if 310 < e + width then infinity
  else if e + width < -330 then 0
  else Float.ofScientific d (e < 0) e.natAbs

/-- Whether a text starts with a minus sign, and the text after a sign. -/
def splitSign : List Char → Bool × List Char
  | '-' :: cs => (true, cs)
  | '+' :: cs => (false, cs)
  | cs => (false, cs)

/-- The exponent after a number: none, or a letter and a signed number. -/
def exponent? (cs : List Char) : Option Int :=
  match cs with
  | [] => some 0
  | c :: cs =>
    if c = 'e' ∨ c = 'E' then
      let (negative, ds) := splitSign cs
      (Decimal.digits? ds).map fun n => if negative then -(n : Int) else n
    else none

/-- The number that a text without a sign stands for: digits, perhaps with a point before, between
or after them, and perhaps an exponent. -/
def unsigned? (cs : List Char) : Option Float := do
  let whole := cs.takeWhile Decimal.isDigit
  let (places, rest) := match cs.dropWhile Decimal.isDigit with
    | '.' :: rest => (rest.takeWhile Decimal.isDigit, rest.dropWhile Decimal.isDigit)
    | rest => ([], rest)
  let d ← Decimal.digits? (whole ++ places)
  let e ← exponent? rest
  some (nearest d (e - places.length))

/-- The number that a text stands for, if it stands for one. -/
def parse? (cs : List Char) : Option Float :=
  let (negative, body) := splitSign cs
  let word := String.ofList (body.map Char.toLower)
  if word = "inf" ∨ word = "infinity" then some (signed negative infinity)
  else if word = "nan" then some notANumber
  else (unsigned? body).map (signed negative)

end CallBridge.Text.Floating
