import CallBridge.Text.Split
import CallBridge.Text.Decimal

/-!
# Network addresses

Internet addresses of both families with their text forms. Reading is strict: four decimal octets
without needless zeros, or up to eight groups of at most four hexadecimal digits with at most one
`::` for a run of zero groups and with an optional dotted tail. Writing is canonical: lower case,
the first longest run of at least two zero groups shortened, mapped version 4 addresses with a
dotted tail.
-/

namespace CallBridge.Net

/-- An Internet address: four octets, or eight groups of sixteen bits. -/
inductive Address where
  | v4 (octets : List Nat)
  | v6 (groups : List Nat)
deriving DecidableEq, Repr, Inhabited

/-- An address and a port on it. -/
structure Endpoint where
  address : Address
  port : UInt16
deriving DecidableEq, Repr, Inhabited

namespace Address

/-! ## Reading -/

/-- The value of a hexadecimal digit. -/
def hexValue? (c : Char) : Option Nat :=
  if '0' ≤ c ∧ c ≤ '9' then some (c.toNat - 48)
  else if 'a' ≤ c ∧ c ≤ 'f' then some (c.toNat - 87)
  else if 'A' ≤ c ∧ c ≤ 'F' then some (c.toNat - 55)
  else none

/-- An octet: one to three decimal digits, no leading zero, at most 255. -/
def octet? (cs : List Char) : Option Nat :=
  if cs.length ≤ 3 ∧ (cs.head? ≠ some '0' ∨ cs.length = 1) then
    (Text.Decimal.digits? cs).filter (· < 256)
  else none

/-- The four octets of a dotted address. -/
def dotted? (cs : List Char) : Option (List Nat) :=
  let parts := Text.pieces '.' cs
  if parts.length = 4 then parts.mapM octet? else none

/-- A group: one to four hexadecimal digits. -/
def group? (cs : List Char) : Option Nat :=
  if cs.length = 0 ∨ 4 < cs.length then none
  else cs.foldlM (fun n c => (hexValue? c).map (n * 16 + ·)) 0

/-- The groups of colon separated pieces, of which the last may be dotted where `tail` allows it. -/
def groups? (tail : Bool) : List (List Char) → Option (List Nat)
  | [] => some []
  | [p] =>
    match group? p with
    | some g => some [g]
    | none =>
      if tail then
        match dotted? p with
        | some [a, b, c, d] => some [a * 256 + b, c * 256 + d]
        | _ => none
      else none
  | p :: ps =>
    match group? p, groups? tail ps with
    | some g, some gs => some (g :: gs)
    | _, _ => none

/-- The parts of a text before and after the first `::`. -/
def cutGap? : List Char → Option (List Char × List Char)
  | [] => none
  | ':' :: ':' :: cs => some ([], cs)
  | c :: cs => (cutGap? cs).map fun (before, after) => (c :: before, after)

/-- The groups on one side of a gap, where an empty text stands for none. -/
def side? (tail : Bool) (cs : List Char) : Option (List Nat) :=
  if cs.isEmpty then some [] else groups? tail (Text.pieces ':' cs)

/-- The eight groups of a version 6 address. -/
def sixteens? (cs : List Char) : Option (List Nat) :=
  match cutGap? cs with
  | none => (groups? true (Text.pieces ':' cs)).filter (·.length = 8)
  | some (front, back) =>
    match side? false front, side? true back with
    | some head, some tail =>
      if head.length + tail.length ≤ 7 then
        some (head ++ List.replicate (8 - head.length - tail.length) 0 ++ tail)
      else none
    | _, _ => none

/-- The address that a text stands for. -/
def parse? (text : String) : Option Address :=
  match dotted? text.toList with
  | some octets => some (.v4 octets)
  | none => (sixteens? text.toList).map .v6

/-! ## Writing -/

/-- The hexadecimal digits of a group, without leading zeros. -/
def hexDigits (n : Nat) : String := String.ofList (Nat.toDigits 16 n)

/-- Four octets with dots between them. -/
def dots (octets : List Nat) : String := ".".intercalate (octets.map toString)

/-- Groups with colons between them. -/
def colons (groups : List Nat) : String := ":".intercalate (groups.map hexDigits)

/-- The length of the run of zeros that a list starts with. -/
def zeroRun (groups : List Nat) : Nat := (groups.takeWhile (· = 0)).length

/-- The start and length of the first longest run of zeros. -/
def longestZeroRun (groups : List Nat) : Nat × Nat :=
  (List.range groups.length).foldl
    (fun best i =>
      let run := zeroRun (groups.drop i)
      if best.2 < run then (i, run) else best)
    (0, 0)

/-- The canonical text of a version 6 address. -/
def renderGroups (groups : List Nat) : String :=
  match groups with
  | [0, 0, 0, 0, 0, 0xFFFF, g, h] => "::ffff:" ++ dots [g / 256, g % 256, h / 256, h % 256]
  | _ =>
    let (start, run) := longestZeroRun groups
    if 1 < run then colons (groups.take start) ++ "::" ++ colons (groups.drop (start + run))
    else colons groups

/-- The canonical text of an address. -/
def render : Address → String
  | .v4 octets => dots octets
  | .v6 groups => renderGroups groups

/-- Whether the address belongs to version 4. -/
def isV4 : Address → Bool
  | .v4 _ => true
  | .v6 _ => false

end Address

/-- An address without the brackets around it, if it has any. -/
def unbracketed (cs : List Char) : List Char :=
  if cs.head? = some '[' ∧ cs.getLast? = some ']' then (cs.drop 1).dropLast else cs

/-- The address and port that a text stands for; the last colon parts them. -/
def Endpoint.parse? (text : String) : Option Endpoint :=
  let back := text.toList.reverse
  let port := (back.takeWhile (· ≠ ':')).reverse
  let host := unbracketed ((back.dropWhile (· ≠ ':')).drop 1).reverse
  match Address.parse? (String.ofList host), Text.Decimal.digits? port with
  | some address, some n => if n < 65536 then some ⟨address, UInt16.ofNat n⟩ else none
  | _, _ => none

/-- The text of an address and a port, with brackets around a version 6 address. -/
def Endpoint.render (e : Endpoint) : String :=
  match e.address with
  | .v4 octets => Address.dots octets ++ ":" ++ toString e.port.toNat
  | .v6 groups => "[" ++ Address.renderGroups groups ++ "]:" ++ toString e.port.toNat

end CallBridge.Net
