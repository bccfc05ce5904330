/-!
# Unsigned decimal numbers

A number is written with the fewest decimal digits and read with an optional leading plus sign,
any number of leading zeros and nothing else. Reading takes an exclusive upper limit, the number
of values of the word that is to hold the result.

Results:
* `digits?_render`: a written number is read back.
* `read?_render`: the same under any limit above the number.
-/

namespace CallBridge.Text.Decimal

/-- The character of a digit below ten. -/
def digitChar (d : Nat) : Char := Char.ofNat (48 + d)

/-- The value of a decimal digit. -/
def digitValue? (c : Char) : Option Nat :=
  if 48 ≤ c.toNat ∧ c.toNat ≤ 57 then some (c.toNat - 48) else none

/-- Whether a character is a decimal digit. -/
def isDigit (c : Char) : Bool := (digitValue? c).isSome

/-- The decimal digits of a number, without leading zeros. -/
def render (n : Nat) : List Char :=
  if n < 10 then [digitChar n] else render (n / 10) ++ [digitChar (n % 10)]
termination_by n
decreasing_by omega

/-- The value of a text of digits that continues the number `acc`. -/
def continue? (acc : Nat) : List Char → Option Nat
  | [] => some acc
  | c :: cs =>
    match digitValue? c with
    | none => none
    | some d => continue? (acc * 10 + d) cs

/-- The value of a non-empty text of digits. -/
def digits? : List Char → Option Nat
  | [] => none
  | c :: cs => continue? 0 (c :: cs)

/-- The text without one leading plus sign. -/
def afterPlus : List Char → List Char
  | [] => []
  | c :: cs => if c = '+' then cs else c :: cs

/-- The number below `limit` that a text with an optional plus sign stands for. -/
def read? (limit : Nat) (cs : List Char) : Option Nat :=
  (digits? (afterPlus cs)).filter (· < limit)

theorem digitValue?_digitChar {d : Nat} (h : d < 10) : digitValue? (digitChar d) = some d := by
  have : d = 0 ∨ d = 1 ∨ d = 2 ∨ d = 3 ∨ d = 4 ∨ d = 5 ∨ d = 6 ∨ d = 7 ∨ d = 8 ∨ d = 9 := by omega
  rcases this with h | h | h | h | h | h | h | h | h | h <;> subst h <;> decide

theorem continue?_append (xs ys : List Char) (acc : Nat) :
    continue? acc (xs ++ ys) = (continue? acc xs).bind fun n => continue? n ys := by
  induction xs generalizing acc with
  | nil => rfl
  | cons x xs ih =>
    simp only [List.cons_append, continue?]
    cases digitValue? x with
    | none => rfl
    | some d => exact ih _

theorem continue?_render (n : Nat) : continue? 0 (render n) = some n := by
  fun_induction render n with
  | case1 n h => simp [continue?, digitValue?_digitChar h]
  | case2 n h ih =>
    rw [continue?_append, ih]
    simp [continue?, digitValue?_digitChar (Nat.mod_lt n (by decide : 0 < 10))]
    omega

theorem render_ne_nil (n : Nat) : render n ≠ [] := by
  rw [render]; split <;> simp

theorem digits?_render (n : Nat) : digits? (render n) = some n := by
  cases h : render n with
  | nil => exact absurd h (render_ne_nil n)
  | cons c cs => rw [digits?, ← h, continue?_render]

theorem mem_render {n : Nat} {c : Char} (h : c ∈ render n) : ∃ d, d < 10 ∧ c = digitChar d := by
  fun_induction render n with
  | case1 n hn => exact ⟨n, hn, by simpa using h⟩
  | case2 n hn ih =>
    rcases List.mem_append.1 h with h | h
    · exact ih h
    · exact ⟨n % 10, Nat.mod_lt n (by decide), by simpa using h⟩

theorem digitChar_ne_plus {d : Nat} (h : d < 10) : digitChar d ≠ '+' := by
  have : d = 0 ∨ d = 1 ∨ d = 2 ∨ d = 3 ∨ d = 4 ∨ d = 5 ∨ d = 6 ∨ d = 7 ∨ d = 8 ∨ d = 9 := by omega
  rcases this with h | h | h | h | h | h | h | h | h | h <;> subst h <;> decide

theorem afterPlus_render (n : Nat) : afterPlus (render n) = render n := by
  cases hr : render n with
  | nil => rfl
  | cons c cs =>
    obtain ⟨d, hd, hc⟩ := mem_render (n := n) (c := c) (by rw [hr]; simp)
    rw [afterPlus, if_neg (hc ▸ digitChar_ne_plus hd)]

theorem read?_render {n limit : Nat} (h : n < limit) : read? limit (render n) = some n := by
  rw [read?, afterPlus_render, digits?_render]
  simp [h]

end CallBridge.Text.Decimal
