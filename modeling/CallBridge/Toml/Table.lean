import CallBridge.Text.Decimal
import CallBridge.Toml.Quoted

/-!
# Writing tables in TOML

A document is written table by table: a header with the keys that lead to the table, and below it a
row for each key and its value. There is an empty line before every table but the first one.
-/

namespace CallBridge.Toml

/-- A value of a row. -/
inductive Scalar where
  | flag (value : Bool)
  | number (n : Nat)
  | text (value : String)
deriving DecidableEq, Repr, Inhabited

/-- A table with the keys of its header. -/
structure Table where
  path : List String
  rows : List (String × Scalar)
deriving DecidableEq, Repr, Inhabited

/-- The written form of a value. -/
def Scalar.render : Scalar → List Char
  | flag true => ['t', 'r', 'u', 'e']
  | flag false => ['f', 'a', 'l', 's', 'e']
  | number n => Text.Decimal.render n
  | text value => quoteChars value.toList

/-- The line that sets a key. -/
def renderRow (row : String × Scalar) : List Char :=
  row.1.toList ++ [' ', '=', ' '] ++ row.2.render ++ ['\n']

/-- The lines of rows. -/
def renderRows (rows : List (String × Scalar)) : List Char := rows.flatMap renderRow

/-- Keys with points between them. -/
def renderPath : List String → List Char
  | [] => []
  | [key] => key.toList
  | key :: path => key.toList ++ '.' :: renderPath path

/-- The written form of a table. -/
def Table.render (t : Table) : List Char :=
  '[' :: renderPath t.path ++ [']', '\n'] ++ renderRows t.rows

/-- The written form of tables. -/
def renderTables : List Table → List Char
  | [] => []
  | [t] => t.render
  | t :: ts => t.render ++ '\n' :: renderTables ts

end CallBridge.Toml
