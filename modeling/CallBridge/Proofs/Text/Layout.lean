import CallBridge.Text.Blank
import CallBridge.Text.Decimal
import CallBridge.Text.Split

/-!
# The layout of written text

What splitting and trimming do to a text that was written in one piece: fields with one space
between them, and lines that end in a carriage return and a line feed.

Results:
* `fields_append`: a field and the space behind it are taken off the front of a text.
* `trim_blanks_append`, `trim_append_blanks`: blanks at both ends are trimmed.
* `trim_terminated`: the carriage return behind a line is trimmed, and nothing else.
* `lines_terminated`: terminated lines are found again, with an empty text behind the last one.
* `isField_render`: a written number is a field of digits.
-/

namespace CallBridge.Text

/-! ## Fields -/

/-- A text that is one field. -/
structure IsField (cs : List Char) : Prop where
  ne_nil : cs ≠ []
  nonblank : ∀ c ∈ cs, isBlank c = false

instance (cs : List Char) : Decidable (IsField cs) :=
  decidable_of_iff (cs ≠ [] ∧ cs.all (!isBlank ·) = true)
    ⟨fun h => ⟨h.1, by simpa using h.2⟩, fun h => ⟨h.ne_nil, by simpa using h.nonblank⟩⟩

theorem IsField.fields {cs : List Char} (h : IsField cs) : fields cs = [cs] :=
  fields_nonblank h.ne_nil h.nonblank

theorem IsField.not_mem {cs : List Char} (h : IsField cs) {c : Char} (hc : isBlank c = true) :
    c ∉ cs := by
  intro hm
  rw [h.nonblank c hm] at hc
  cases hc

theorem fields_append {cs : List Char} (h : IsField cs) (rest : List Char) :
    fields (cs ++ ' ' :: rest) = cs :: fields rest := by
  obtain ⟨hne, hcs⟩ := h
  induction cs with
  | nil => exact absurd rfl hne
  | cons c cs ih =>
    have hc : isBlank c = false := hcs c List.mem_cons_self
    cases cs with
    | nil =>
      have hs : isBlank ' ' = true := by decide
      rw [List.cons_append, List.nil_append, fields.eq_def]
      simp only [hc, Bool.false_eq_true, if_false, hs, if_true, fields_blank hs]
    | cons d cs =>
      have hd : isBlank d = false := hcs d (List.mem_cons_of_mem _ List.mem_cons_self)
      have ih' := ih (List.cons_ne_nil d cs) fun x hx => hcs x (List.mem_cons_of_mem _ hx)
      rw [List.cons_append, fields.eq_def]
      simp only [List.cons_append] at ih' ⊢
      simp only [hc, hd, Bool.false_eq_true, if_false, ih']

/-! ## Text at the end of a line -/

/-- A text that ends in no blank. -/
def EndsInk (cs : List Char) : Prop := ∀ c ∈ cs.getLast?, isBlank c = false

/-- A text that starts with no blank. -/
def StartsInk (cs : List Char) : Prop := ∀ c ∈ cs.head?, isBlank c = false

/-- A text that can stand at the end of a line. -/
structure LineText (cs : List Char) : Prop where
  noFeed : '\n' ∉ cs
  endsInk : EndsInk cs

instance (cs : List Char) : Decidable (EndsInk cs) :=
  decidable_of_iff (cs.getLast?.all (!isBlank ·) = true) (by simp [EndsInk, Option.all_eq_true])

instance (cs : List Char) : Decidable (StartsInk cs) :=
  decidable_of_iff (cs.head?.all (!isBlank ·) = true) (by simp [StartsInk, Option.all_eq_true])

instance (cs : List Char) : Decidable (LineText cs) :=
  decidable_of_iff ('\n' ∉ cs ∧ EndsInk cs) ⟨fun h => ⟨h.1, h.2⟩, fun h => ⟨h.noFeed, h.endsInk⟩⟩

theorem endsInk_append {xs ys : List Char} (hy : EndsInk ys) (hne : ys ≠ []) :
    EndsInk (xs ++ ys) := by
  intro c hc
  rw [List.getLast?_append, List.getLast?_eq_some_getLast hne] at hc
  exact hy c (by rw [List.getLast?_eq_some_getLast hne]; exact hc)

theorem startsInk_append {xs ys : List Char} (hx : StartsInk xs) (hne : xs ≠ []) :
    StartsInk (xs ++ ys) := by
  cases xs with
  | nil => exact absurd rfl hne
  | cons c cs => exact hx

theorem IsField.endsInk {cs : List Char} (h : IsField cs) : EndsInk cs :=
  fun c hc => h.nonblank c (List.mem_of_getLast? hc)

theorem IsField.startsInk {cs : List Char} (h : IsField cs) : StartsInk cs :=
  fun c hc => h.nonblank c (List.mem_of_mem_head? hc)

theorem IsField.lineText {cs : List Char} (h : IsField cs) : LineText cs :=
  ⟨h.not_mem (by decide), h.endsInk⟩

theorem LineText.append {xs ys : List Char} (hx : '\n' ∉ xs) (hy : LineText ys) (hne : ys ≠ []) :
    LineText (xs ++ ys) := by
  refine ⟨fun hm => ?_, endsInk_append hy.endsInk hne⟩
  rcases List.mem_append.1 hm with hm | hm
  · exact hx hm
  · exact hy.noFeed hm

/-- A text and, a space behind it, the rest of a line. -/
theorem LineText.spaced {xs ys : List Char} (hx : '\n' ∉ xs) (hy : LineText ys) (hne : ys ≠ []) :
    LineText (xs ++ ' ' :: ys) := by
  have hsplit : xs ++ ' ' :: ys = (xs ++ [' ']) ++ ys := by
    rw [List.append_assoc]
    rfl
  rw [hsplit]
  refine hy.append (fun hm => ?_) hne
  rcases List.mem_append.1 hm with hm | hm
  · exact hx hm
  · simp at hm

/-! ## Trimming -/

theorem trimStart_of_startsInk {cs : List Char} (h : StartsInk cs) : trimStart cs = cs := by
  cases cs with
  | nil => rfl
  | cons c cs =>
    have hc : isBlank c = false := h c rfl
    rw [trimStart, List.dropWhile_cons, hc]
    rfl

theorem trimEnd_of_endsInk {cs : List Char} (h : EndsInk cs) : trimEnd cs = cs := by
  have hs : StartsInk cs.reverse := by
    intro c hc
    rw [List.head?_reverse] at hc
    exact h c hc
  have hd := trimStart_of_startsInk hs
  rw [trimStart] at hd
  rw [trimEnd, hd, List.reverse_reverse]

theorem trim_of_ink {cs : List Char} (hs : StartsInk cs) (he : EndsInk cs) : trim cs = cs := by
  rw [trim, trimStart_of_startsInk hs, trimEnd_of_endsInk he]

/-- Blanks ahead of a text are trimmed. -/
theorem trim_blanks_append {front : List Char} (h : ∀ c ∈ front, isBlank c = true)
    (cs : List Char) : trim (front ++ cs) = trim cs := by
  rw [trim, trimStart, List.dropWhile_append_of_pos h, trim, trimStart]

theorem trimEnd_append_blanks (cs : List Char) {back : List Char}
    (h : ∀ c ∈ back, isBlank c = true) : trimEnd (cs ++ back) = trimEnd cs := by
  have hreverse : ∀ c ∈ back.reverse, isBlank c = true := fun c hc => h c (List.mem_reverse.1 hc)
  rw [trimEnd, trimEnd, List.reverse_append, List.dropWhile_append_of_pos hreverse]

/-- Blanks behind a text are trimmed. -/
theorem trim_append_blanks (cs : List Char) {back : List Char}
    (h : ∀ c ∈ back, isBlank c = true) : trim (cs ++ back) = trim cs := by
  rw [trim, trimStart, List.dropWhile_append]
  split
  · next hblank =>
      -- the text is all blanks, and so is what stands behind it
      have hback : back.dropWhile isBlank = [] := by
        rw [← List.append_nil back, List.dropWhile_append_of_pos h, List.dropWhile_nil]
      rw [hback, trim, trimStart, List.isEmpty_iff.1 hblank]
  · rw [trimEnd_append_blanks _ h, trim, trimStart]

theorem trim_append_blank (cs : List Char) {c : Char} (hc : isBlank c = true) :
    trim (cs ++ [c]) = trim cs :=
  trim_append_blanks cs fun _ hx => List.mem_singleton.1 hx ▸ hc

/-- The carriage return behind a line is trimmed. -/
theorem trim_terminated {cs : List Char} (hs : StartsInk cs) (he : EndsInk cs) :
    trim (cs ++ ['\r']) = cs := by
  rw [trim_append_blank cs (by decide), trim_of_ink hs he]

/-! ## Lines -/

theorem lines_terminated {ls : List (List Char)} (h : ∀ l ∈ ls, '\n' ∉ l) :
    lines (ls.flatMap (· ++ ['\r', '\n'])) = ls.map (· ++ ['\r']) ++ [[]] := by
  induction ls with
  | nil => rfl
  | cons l ls ih =>
    have hl : '\n' ∉ l ++ ['\r'] := by
      intro hm
      rcases List.mem_append.1 hm with hm | hm
      · exact h l List.mem_cons_self hm
      · simp at hm
    have ih' := ih fun x hx => h x (List.mem_cons_of_mem _ hx)
    have hsplit : (l :: ls).flatMap (· ++ ['\r', '\n']) =
        (l ++ ['\r']) ++ '\n' :: ls.flatMap (· ++ ['\r', '\n']) := by
      rw [List.flatMap_cons, List.append_assoc, List.append_assoc]
      rfl
    rw [lines] at ih' ⊢
    rw [hsplit, pieces_append hl, ih']
    rfl

/-! ## Numbers -/

namespace Decimal

theorem mem_render_digit {n : Nat} {c : Char} (h : c ∈ render n) : 48 ≤ c.toNat ∧ c.toNat ≤ 57 := by
  obtain ⟨d, hd, rfl⟩ := mem_render h
  have hv := digitValue?_digitChar hd
  unfold digitValue? at hv
  split at hv
  · assumption
  · cases hv

theorem isField_render (n : Nat) : IsField (render n) := by
  refine ⟨render_ne_nil n, fun c hc => ?_⟩
  have hdigit := mem_render_digit hc
  rw [isBlank, List.contains_eq_mem, decide_eq_false_iff_not]
  intro hm
  simp only [blankCodes, List.mem_cons, List.not_mem_nil, or_false] at hm
  omega

theorem not_mem_render {c : Char} (n : Nat) (h : c.toNat < 48 ∨ 57 < c.toNat) : c ∉ render n := by
  intro hm
  have hdigit := mem_render_digit hm
  omega

end Decimal

end CallBridge.Text
