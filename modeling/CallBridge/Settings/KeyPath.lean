import CallBridge.Settings.Tree

/-!
# Paths of keys

The key of an entry at the root of a source may lead further inside: names are parted by points,
and a position in brackets leads to an element of a list. A key that is not written like that is
one name.
-/

namespace CallBridge.Settings.KeyPath

/-- Whether a character may stand in a name. -/
def isNameChar (c : Char) : Bool := c.isAlphanum || c = ' ' || c = '_' || c = '-'

/-- Whether a character may stand around a position. -/
def isSpace (c : Char) : Bool := c = ' ' || c = '\t'

/-- A name, and what is left. -/
def name? (cs : List Char) : Option (String × List Char) :=
  let name := cs.takeWhile isNameChar
  if name = [] then none else some (String.ofList name, cs.dropWhile isNameChar)

/-- A position up to its closing bracket, and what is left. -/
def position? (cs : List Char) : Option (Int × List Char) := do
  let cs := cs.dropWhile isSpace
  let negative := cs.head? = some '-'
  let cs := if negative then cs.drop 1 else cs
  let n ← Text.Decimal.digits? (cs.takeWhile Text.Decimal.isDigit)
  let position ← signed? negative n
  match (cs.dropWhile Text.Decimal.isDigit).dropWhile isSpace with
  | ']' :: rest => some (position, rest)
  | _ => none

/-- The steps that a text after a name stands for, at most `fuel` of them. -/
def more? : Nat → List Char → Option (List Tree.Step)
  | _, [] => some []
  | fuel + 1, '.' :: cs => do
    let (name, cs) ← name? cs
    (more? fuel cs).map (.entry name :: ·)
  | fuel + 1, '[' :: cs => do
    let (position, cs) ← position? cs
    (more? fuel cs).map (.element position :: ·)
  | _, _ => none

/-- The steps that a text stands for, if it is written as a path. -/
def parse? (key : String) : Option (List Tree.Step) := do
  let (name, cs) ← name? key.toList
  (more? cs.length cs).map (.entry name :: ·)

/-- The steps that a key leads along. -/
def steps (key : String) : List Tree.Step := (parse? key).getD [.entry key]

/-- The tree after the entries at the root of a source were laid over it. -/
def layRoot (t : Tree) (root : List (String × Tree)) : Tree :=
  root.foldl (fun t (key, value) => t.layAt (steps key) value) t

end CallBridge.Settings.KeyPath
