import CallBridge.Settings.Tree
import CallBridge.Toml.Moment

/-!
# Values of TOML

A value as it is written, and the tree of settings that it means. The parts of a value are not
looked at before its meaning is asked for: until then a date or time is any text, and a key may
stand several times in a table.

A table in which the key `momentKey` comes first is a date or time instead, given by the text under
that key; whatever comes after it does not count.
-/

namespace CallBridge.Toml

open CallBridge.Settings (Tree)

/-- A value as written. A table that was only made by dotted keys is open to more of them. -/
inductive Value where
  | flag (value : Bool)
  | integer (value : Int)
  | real (value : Float)
  | text (value : String)
  | moment (text : List Char)
  | list (elements : List Value)
  | table (isOpen : Bool) (entries : List (String × Value))
deriving Inhabited

/-- Keys with their values, in the order in which they were written. -/
abbrev Fields := List (String × Value)

/-! ## Fields from dotted keys -/

/-- The fields with another value for the first one that has a key. -/
def Fields.replaceFirst (key : String) (value : Value) : Fields → Fields
  | [] => []
  | (k, v) :: more =>
    if k = key then (k, value) :: more else (k, v) :: replaceFirst key value more

/-- The fields after a value was added under a path of keys, of which all but the last one have to
lead through open tables. -/
def Fields.insert : List String → Value → Fields → Option Fields
  | [], _, _ => none
  | [key], value, fs => some (fs ++ [(key, value)])
  | key :: path, value, fs =>
    match fs.lookup key with
    | some (.table true inner) =>
      (insert path value inner).map fun inner => replaceFirst key (.table true inner) fs
    | some _ => none
    | none => (insert path value []).map fun inner => fs ++ [(key, .table true inner)]

/-- The fields that values under paths of keys make up. -/
def Fields.ofPaths (assigned : List (List String × Value)) : Option Fields :=
  assigned.foldlM (fun fs (path, value) => Fields.insert path value fs) []

/-! ## Meaning -/

/-- The key that makes a table a date or time if it comes first. -/
def momentKey : String := "$__toml_private_datetime"

/-- Whether no key stands twice. -/
def distinct (keys : List String) : Bool := keys.eraseDups.length = keys.length

/-- The tree of a date or time, which is its normal text. -/
def momentTree? (text : List Char) : Option Tree :=
  (Moment.parse? text).map fun m => .text (String.ofList m.render)

/-- The tree of the date or time that a value names as a text. -/
def Value.momentTree? : Value → Option Tree
  | text value => Toml.momentTree? value.toList
  | _ => none

mutual

/-- The tree that a value means, if it means one. -/
def Value.tree? : Value → Option Tree
  | .flag value => some (.flag value)
  | .integer value => some (.integer value)
  | .real value => some (.real value)
  | .text value => some (.text value)
  | .moment text => momentTree? text
  | .list vs => (trees? vs).map .list
  | .table _ fs =>
    match fs.head? with
    | some (key, value) =>
      if key = momentKey then value.momentTree? else (entries? fs).map .table
    | none => some (.table [])

/-- The trees that values mean. -/
def trees? : List Value → Option (List Tree)
  | [] => some []
  | v :: vs => do
    let t ← v.tree?
    let ts ← trees? vs
    some (t :: ts)

/-- The entries that fields mean, if no key stands twice among them. -/
def entries? : List (String × Value) → Option (List (String × Tree))
  | [] => some []
  | (key, v) :: fs => do
    let t ← v.tree?
    let es ← entries? fs
    if (es.lookup key).isSome then none else some ((key, t) :: es)

end

end CallBridge.Toml
