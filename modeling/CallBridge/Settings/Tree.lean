import CallBridge.Text.Floating

/-!
# Trees of settings

Settings sources hold trees: single values, lists, and tables of named entries. A single value can
be asked for as a text, as a whole number or as a truth value, with the conversions that are fixed
here: the words for on and off count as numbers and as truth values, a text of digits counts as a
number, and a number is true unless it is zero.

One tree is laid over another entry by entry: a table only replaces what its own entries name, and
anything else replaces what was there.

Results:
* `unsigned?_integer`: a whole number is unsigned unless it is negative.
-/

namespace CallBridge.Settings

/-- A settings value. `nothing` stands for list elements that were never given. -/
inductive Tree where
  | nothing
  | flag (value : Bool)
  | integer (value : Int)
  | real (value : Float)
  | text (value : String)
  | list (elements : List Tree)
  | table (entries : List (String × Tree))
deriving Inhabited

/-- The least number that a signed word of 64 bits cannot hold. -/
def signedBound : Nat := 0x8000000000000000

/-- The whole number with a magnitude and a sign, if a signed word of 64 bits holds it. -/
def signed? (negative : Bool) (n : Nat) : Option Int :=
  if negative then (if n ≤ signedBound then some (-(n : Int)) else none)
  else if n < signedBound then some n
  else none

namespace Tree

/-! ## Single values -/

/-- The text with its ASCII letters in lower case. -/
def lower (text : String) : String := String.ofList (text.toList.map Char.toLower)

/-- Whether a text is one of the words for on, or one of the words for off. -/
def switch? (text : String) : Option Bool :=
  let word := lower text
  if word = "true" ∨ word = "on" ∨ word = "yes" then some true
  else if word = "false" ∨ word = "off" ∨ word = "no" then some false
  else none

/-- The value as a number below 2 ^ 64. A number with places is rounded to the nearest whole one,
halves away from zero, and cut to the range. -/
def unsigned? : Tree → Option Nat
  | text value =>
    match switch? value with
    | some on => some on.toNat
    | none => Text.Decimal.read? UInt64.size value.toList
  | integer value => if 0 ≤ value then some value.toNat else none
  | real value => some value.round.toUInt64.toNat
  | flag value => some value.toNat
  | _ => none

/-- The value as a truth value. -/
def flag? : Tree → Option Bool
  | text value =>
    if value = "1" then some true else if value = "0" then some false else switch? value
  | integer value => some (value ≠ 0)
  | real value => some !(value == 0)
  | flag value => some value
  | _ => none

/-- The value as a text. -/
def text? : Tree → Option String
  | text value => some value
  | integer value => some (toString value)
  | real value => some (Text.Floating.render value)
  | flag value => some (if value then "true" else "false")
  | _ => none

theorem unsigned?_integer (n : Nat) : (integer n).unsigned? = some n := by
  simp [unsigned?]

/-! ## Parts -/

/-- The entries of a table; anything else has none. -/
def entries : Tree → List (String × Tree)
  | table es => es
  | _ => []

/-- The elements of a list; anything else has none. -/
def elements : Tree → List Tree
  | list ts => ts
  | _ => []

/-- The entry of a table with a name. -/
def child? (t : Tree) (name : String) : Option Tree := t.entries.lookup name

/-- Whether a value is made of parts. -/
def isRecord : Tree → Bool
  | list _ | table _ => true
  | _ => false

/-- The part of a record with a name, or with a position where the record is a list. -/
def part? (t : Tree) (position : Nat) (name : String) : Option Tree :=
  match t with
  | list ts => ts[position]?
  | t => t.child? name

/-! ## Laying one tree over another -/

/-- The entries with one that takes the place of those with its name. -/
def replaceEntry (name : String) (value : Tree) (es : List (String × Tree)) :
    List (String × Tree) :=
  (name, value) :: es.filter (·.1 ≠ name)

mutual

/-- The tree after a value was laid over its entry with a name. -/
def put (t : Tree) (name : String) : Tree → Tree
  | table more =>
    table (replaceEntry name (((t.child? name).getD (table [])).putAll more) t.entries)
  | value => table (replaceEntry name value t.entries)

/-- The tree after several entries were laid over its own. -/
def putAll (t : Tree) : List (String × Tree) → Tree
  | [] => t
  | (name, value) :: more => (t.put name value).putAll more

end

/-! ## Places in a tree -/

/-- A step into a tree: to the entry with a name, or to the element at a position, which counts
from the end where it is negative. -/
inductive Step where
  | entry (name : String)
  | element (position : Int)
deriving DecidableEq, Repr

/-- The elements with one at a position, missing ones before it being added. -/
def replaceElement (position : Int) (change : Tree → Tree) (ts : List Tree) : List Tree :=
  let i := if 0 ≤ position then position.toNat else ts.length - position.natAbs
  let ts := ts ++ List.replicate (i + 1 - ts.length) nothing
  ts.modify i change

/-- The tree after a value was laid over the place that some steps lead to. What is there is made a
table or a list where a step asks for one. -/
def layAt (t : Tree) : List Step → Tree → Tree
  | [], value => value
  | [.entry name], value => t.put name value
  | .entry name :: steps, value =>
    table (replaceEntry name (((t.child? name).getD nothing).layAt steps value) t.entries)
  | .element position :: steps, value =>
    list (replaceElement position (fun e => e.layAt steps value) t.elements)

end Tree

end CallBridge.Settings
