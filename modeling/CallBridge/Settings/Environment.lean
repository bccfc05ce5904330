import CallBridge.Settings.Tree

/-!
# Settings in the environment

A variable whose name starts with `B2BMEDIA__`, in letters of either case, is a setting. The rest of
the name is its key, where two underscores stand for a point. Its value is a truth value or a number
if it is written like one, and a text otherwise.
-/

namespace CallBridge.Settings.Environment

/-- What the name of a variable starts with. -/
def mark : List Char := "b2bmedia__".toList

/-- A letter in lower case. The sign for kelvins is the one character beyond the ASCII letters that
becomes one of them. -/
def lowerChar (c : Char) : Char := if c = '\u212a' then 'k' else c.toLower

/-- The text with a point in place of two underscores. -/
def pointed : List Char → List Char
  | '_' :: '_' :: cs => '.' :: pointed cs
  | c :: cs => c :: pointed cs
  | [] => []

/-- The whole number that a text with an optional sign stands for. -/
def integer? (cs : List Char) : Option Int :=
  let (negative, ds) := Text.Floating.splitSign cs
  (Text.Decimal.digits? ds).bind (signed? negative)

/-- The value that a variable's text stands for. -/
def value (text : String) : Tree :=
  let word := Tree.lower text
  if word = "true" then .flag true
  else if word = "false" then .flag false
  else
    match integer? text.toList with
    | some n => .integer n
    | none =>
      match Text.Floating.parse? text.toList with
      | some x => .real x
      | none => .text text

/-- The entry at the root that a variable stands for, if it is a setting. -/
def setting? (name text : String) : Option (String × Tree) :=
  let cs := name.toList.map lowerChar
  if mark.isPrefixOf cs then
    some (String.ofList (pointed (cs.drop mark.length)), value text)
  else none

/-- The entries at the root that variables stand for. -/
def entries (variableTexts : List (String × String)) : List (String × Tree) :=
  variableTexts.filterMap fun (name, text) => setting? name text

end CallBridge.Settings.Environment
