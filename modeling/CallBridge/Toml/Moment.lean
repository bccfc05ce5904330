import CallBridge.Text.Decimal

/-!
# Dates and times in TOML

A moment has a date, a time of day or both; with both it may have an offset from universal time.
A moment is written with a capital `T` between date and time, with nine places of a second at
most and without zeros at their end.
-/

namespace CallBridge.Toml

/-- A day. -/
structure Day where
  year : Nat
  month : Nat
  day : Nat
deriving DecidableEq, Repr

/-- A time of day. -/
structure Clock where
  hour : Nat
  minute : Nat
  second : Nat
  nanosecond : Nat
deriving DecidableEq, Repr

/-- An offset from universal time: none at all, or hours and minutes to one side. -/
inductive Offset where
  | universal
  | apart (behind : Bool) (hours minutes : Nat)
deriving DecidableEq, Repr

/-- A date, a time of day, or both. -/
structure Moment where
  day : Option Day
  clock : Option Clock
  offset : Option Offset
deriving DecidableEq, Repr

namespace Moment

/-! ## Reading -/

/-- A number of exactly some digits, and what is left. -/
def number (width : Nat) (cs : List Char) : Option (Nat × List Char) :=
  if (cs.take width).length = width then
    (Text.Decimal.digits? (cs.take width)).map fun n => (n, cs.drop width)
  else none

/-- What is left after a character. -/
def after (c : Char) (cs : List Char) : Option (List Char) :=
  if cs.head? = some c then some (cs.drop 1) else none

/-- A date, and what is left. -/
def readDay (cs : List Char) : Option (Day × List Char) := do
  let (year, cs) ← number 4 cs
  let (month, cs) ← number 2 (← after '-' cs)
  let (day, cs) ← number 2 (← after '-' cs)
  if 1 ≤ month ∧ month ≤ 12 ∧ 1 ≤ day ∧ day ≤ 31 then some (⟨year, month, day⟩, cs) else none

/-- The nanoseconds in the places of a second; those after the ninth do not count. -/
def nanoseconds (places : List Char) : Option Nat :=
  let nine := places.take 9
  (Text.Decimal.digits? nine).map fun n => n * Nat.pow 10 (9 - nine.length)

/-- A time of day, and what is left. -/
def readClock (cs : List Char) : Option (Clock × List Char) := do
  let (hour, cs) ← number 2 cs
  let (minute, cs) ← number 2 (← after ':' cs)
  let (second, cs) ← number 2 (← after ':' cs)
  let (nanosecond, cs) ← match cs with
    | '.' :: cs =>
      let places := cs.takeWhile Text.Decimal.isDigit
      (nanoseconds places).map fun n => (n, cs.drop places.length)
    | cs => some (0, cs)
  if hour ≤ 24 ∧ minute ≤ 59 ∧ second ≤ 59 then some (⟨hour, minute, second, nanosecond⟩, cs)
  else none

/-- The offset that makes up a text. -/
def readOffset (cs : List Char) : Option (Option Offset) :=
  match cs with
  | [] => some none
  | ['Z'] | ['z'] => some (some .universal)
  | c :: cs =>
    if c = '+' ∨ c = '-' then do
      let (hours, cs) ← number 2 cs
      let (minutes, cs) ← number 2 (← after ':' cs)
      if cs = [] then some (some (.apart (c = '-') hours minutes)) else none
    else none

/-- Whether a character may stand between a date and a time. -/
def isJoint (c : Char) : Bool := c = 'T' || c = 't' || c = ' '

/-- The moment that makes up a text. -/
def parse? (cs : List Char) : Option Moment :=
  if (cs.drop 2).head? = some ':' then do
    let (clock, rest) ← readClock cs
    if rest = [] then some ⟨none, some clock, none⟩ else none
  else do
    let (day, rest) ← readDay cs
    match rest with
    | [] => some ⟨some day, none, none⟩
    | c :: rest =>
      if isJoint c then do
        let (clock, rest) ← readClock rest
        let offset ← readOffset rest
        some ⟨some day, some clock, offset⟩
      else none

/-! ## Writing -/

/-- A number with zeros before it up to a width. -/
def padded (width n : Nat) : List Char :=
  let ds := Text.Decimal.render n
  List.replicate (width - ds.length) '0' ++ ds

/-- The written form of a date. -/
def renderDay (d : Day) : List Char :=
  padded 4 d.year ++ '-' :: padded 2 d.month ++ '-' :: padded 2 d.day

/-- The text without zeros at its end. -/
def withoutZeros (cs : List Char) : List Char := (cs.reverse.dropWhile (· = '0')).reverse

/-- The written form of a time of day. -/
def renderClock (c : Clock) : List Char :=
  padded 2 c.hour ++ ':' :: padded 2 c.minute ++ ':' :: padded 2 c.second ++
    if c.nanosecond = 0 then [] else '.' :: withoutZeros (padded 9 c.nanosecond)

/-- The written form of an offset. -/
def renderOffset : Offset → List Char
  | .universal => ['Z']
  | .apart behind hours minutes =>
    (if behind ∧ hours ≠ 0 then '-' else '+') :: padded 2 hours ++ ':' :: padded 2 minutes

/-- The written form of a moment. -/
def render (m : Moment) : List Char :=
  (m.day.map renderDay).getD [] ++ (if m.day.isSome ∧ m.clock.isSome then ['T'] else []) ++
    (m.clock.map renderClock).getD [] ++ (m.offset.map renderOffset).getD []

end Moment

end CallBridge.Toml
