/-!
# Blanks

The characters that count as white space in session descriptions and configuration values are
those with the Unicode property `White_Space`: 25 code points. This module holds the table, the
two trims and the splitting of a text into its blank-free fields.

Results:
* `fields_blank`, `fields_nonblank`: how `fields` reads one character.
* `ne_nil_of_mem_fields`: no field is empty.
-/

namespace CallBridge.Text

/-- The code points with the Unicode property `White_Space`. -/
def blankCodes : List Nat :=
  [0x09, 0x0A, 0x0B, 0x0C, 0x0D, 0x20, 0x85, 0xA0, 0x1680, 0x2000, 0x2001, 0x2002, 0x2003, 0x2004,
    0x2005, 0x2006, 0x2007, 0x2008, 0x2009, 0x200A, 0x2028, 0x2029, 0x202F, 0x205F, 0x3000]

/-- Whether a character is white space in the sense of Unicode. -/
def isBlank (c : Char) : Bool := blankCodes.contains c.toNat

/-- The text without its leading blanks. -/
def trimStart (cs : List Char) : List Char := cs.dropWhile isBlank

/-- The text without its trailing blanks. -/
def trimEnd (cs : List Char) : List Char := (cs.reverse.dropWhile isBlank).reverse

/-- The text without the blanks at its two ends. -/
def trim (cs : List Char) : List Char := trimEnd (trimStart cs)

/-- The maximal blank-free runs of a text, in order. -/
def fields : List Char → List (List Char)
  | [] => []
  | c :: cs =>
    if isBlank c then fields cs
    else match cs with
      | [] => [[c]]
      | d :: _ =>
        if isBlank d then [c] :: fields cs
        else match fields cs with
          | [] => [[c]]
          | w :: ws => (c :: w) :: ws

@[simp] theorem fields_nil : fields [] = [] := rfl

theorem fields_blank {c : Char} (h : isBlank c = true) (cs : List Char) :
    fields (c :: cs) = fields cs := by
  rw [fields.eq_def]; simp [h]

/-- A blank-free text is one field. -/
theorem fields_nonblank : ∀ {cs : List Char}, cs ≠ [] → (∀ c ∈ cs, isBlank c = false) →
    fields cs = [cs]
  | [c], _, h => by
    have hc : isBlank c = false := h c (by simp)
    rw [fields]; simp [hc]
  | c :: d :: cs, _, h => by
    have hc : isBlank c = false := h c (by simp)
    have hd : isBlank d = false := h d (by simp)
    rw [fields, fields_nonblank (List.cons_ne_nil d cs) fun x hx => h x (List.mem_cons_of_mem _ hx)]
    simp [hc, hd]

theorem ne_nil_of_mem_fields : ∀ {cs w : List Char}, w ∈ fields cs → w ≠ []
  | [], w, h => by simp at h
  | [c], w, h => by
    rw [fields] at h
    split at h <;> simp at h
    rw [h]; exact List.cons_ne_nil _ _
  | c :: d :: cs, w, h => by
    rw [fields] at h
    split at h
    · exact ne_nil_of_mem_fields h
    · split at h
      · rcases List.mem_cons.1 h with rfl | h
        · exact List.cons_ne_nil _ _
        · exact ne_nil_of_mem_fields h
      · split at h
        · rcases List.mem_cons.1 h with rfl | h
          · exact List.cons_ne_nil _ _
          · simp at h
        · next w' ws hw =>
          rcases List.mem_cons.1 h with rfl | h
          · exact List.cons_ne_nil _ _
          · have hm : w ∈ fields (d :: cs) := by rw [hw]; exact List.mem_cons_of_mem _ h
            exact ne_nil_of_mem_fields hm

end CallBridge.Text
