/-!
# Keys

The sixteen keys of a telephone, each at the crossing of a row and a column tone, with their
characters and the event codes of RFC 4733.

In the media core, keys are the characters of `KEYS`, and `eventCode?` is `event_code`.

Results:
* `eventCode?_digit`: the code of a key is the code of its character.
-/

namespace CallBridge.Dtmf

/-- A key, by its row and its column. -/
structure Key where
  row : Fin 4
  column : Fin 4
deriving DecidableEq, Repr, Inhabited

/-- The event code of a character that names a key. -/
def eventCode? (c : Char) : Option Nat :=
  if '0' ≤ c ∧ c ≤ '9' then some (c.toNat - '0'.toNat)
  else if c = '*' then some 10
  else if c = '#' then some 11
  else if 'A' ≤ c ∧ c ≤ 'D' then some (c.toNat - 'A'.toNat + 12)
  else none

namespace Key

/-- The characters of the keys row by row. -/
def faces : List (List Char) :=
  [['1', '2', '3', 'A'], ['4', '5', '6', 'B'], ['7', '8', '9', 'C'], ['*', '0', '#', 'D']]

/-- The character on a key. -/
def digit (k : Key) : Char := ((faces[k.row.val]?).bind (·[k.column.val]?)).getD '0'

/-- The event code of a key. -/
def code (k : Key) : Nat := (eventCode? k.digit).getD 0

theorem eventCode?_digit (k : Key) : eventCode? k.digit = some k.code := by
  have h : ∀ i j : Fin 4, eventCode? (Key.digit ⟨i, j⟩) = some (Key.code ⟨i, j⟩) := by decide
  exact h k.row k.column

end Key

end CallBridge.Dtmf
