import CallBridge.Proofs.Text.Layout
import Mathlib.Data.List.TakeWhile

/-!
# The parts of any text

What splitting and trimming leave of a text of which nothing is known: fields without blanks, pieces
without the separator, and texts that can stand at the end of a line.

Results:
* `isField_of_mem_fields`: the fields of a text are fields.
* `not_mem_of_mem_pieces`, `front_of_pieces`: the pieces of a text, and the first of them.
* `cut?_some`: the two parts of a text that is cut.
* `lineText_trim`, `LineText.trim_eq`: what trimming leaves.
* `mem_lines_terminated`: a terminated line is found again whatever the other lines are.
-/

namespace CallBridge.Text

/-! ## Fields and pieces -/

theorem nonblank_of_mem_fields {cs w : List Char} (h : w ∈ fields cs) :
    ∀ c ∈ w, isBlank c = false := by
  induction cs generalizing w with
  | nil => cases h
  | cons c cs ih =>
    rw [fields.eq_def] at h
    dsimp only at h
    split at h
    · exact ih h
    · next hc =>
      have hink : ∀ x ∈ [c], isBlank x = false := by simpa using hc
      split at h
      · rwa [List.mem_singleton.1 h]
      · split at h
        · rcases List.mem_cons.1 h with rfl | h
          · exact hink
          · exact ih h
        · split at h
          · rwa [List.mem_singleton.1 h]
          · next w' ws hws =>
            rw [hws] at ih
            rcases List.mem_cons.1 h with rfl | h
            · intro x hx
              rcases List.mem_cons.1 hx with rfl | hx
              · exact hink x List.mem_cons_self
              · exact ih List.mem_cons_self x hx
            · exact ih (List.mem_cons_of_mem _ h)

theorem isField_of_mem_fields {cs w : List Char} (h : w ∈ fields cs) : IsField w :=
  ⟨ne_nil_of_mem_fields h, nonblank_of_mem_fields h⟩

theorem pieces_append_sep (sep : Char) (xs ys : List Char) :
    pieces sep (xs ++ sep :: ys) = pieces sep xs ++ pieces sep ys := by
  induction xs with
  | nil => simp [pieces]
  | cons x xs ih =>
    by_cases hx : x = sep
    · subst hx
      rw [List.cons_append, pieces, if_pos rfl, ih, pieces, if_pos rfl, List.cons_append]
    · obtain ⟨w, ws, hw, hcons⟩ := pieces_cons_of_ne hx xs
      rw [List.cons_append, pieces, if_neg hx, ih, hcons, hw]
      rfl

theorem not_mem_of_mem_pieces {sep : Char} {cs w : List Char} (h : w ∈ pieces sep cs) :
    sep ∉ w := by
  induction cs generalizing w with
  | nil => simp_all [pieces]
  | cons c cs ih =>
    by_cases hc : c = sep
    · rw [pieces, if_pos hc] at h
      rcases List.mem_cons.1 h with rfl | h
      · exact List.not_mem_nil
      · exact ih h
    · obtain ⟨w', ws, hw, hcons⟩ := pieces_cons_of_ne hc cs
      rw [hw] at ih
      rw [hcons] at h
      rcases List.mem_cons.1 h with rfl | h
      · intro hm
        rcases List.mem_cons.1 hm with hm | hm
        · exact hc hm.symm
        · exact ih List.mem_cons_self hm
      · exact ih (List.mem_cons_of_mem _ h)

/-- A text starts with its first piece. -/
theorem front_of_pieces {sep : Char} {cs w : List Char} {ws : List (List Char)}
    (h : pieces sep cs = w :: ws) : w <+: cs := by
  have hjoin := join_pieces sep cs
  rw [h] at hjoin
  rw [← hjoin]
  cases ws with
  | nil => exact List.prefix_rfl
  | cons w' ws => exact List.prefix_append _ _

theorem mem_before {sep c : Char} {cs : List Char} (h : c ∈ before sep cs) :
    c ∈ cs ∧ c ≠ sep := by
  rw [before] at h
  exact ⟨List.takeWhile_subset _ h, by simpa using List.mem_takeWhile_imp h⟩

theorem cut?_some {sep : Char} {cs front rest : List Char}
    (h : cut? sep cs = some (front, rest)) : cs = front ++ sep :: rest := by
  rcases cut?_eq sep cs with ⟨-, hcut⟩ | ⟨rest', hcs, hcut⟩
  · rw [hcut] at h
    cases h
  · rw [hcut] at h
    obtain ⟨rfl, rfl⟩ := Prod.mk.inj (Option.some.inj h)
    exact hcs

/-! ## Ends of lines -/

theorem StartsInk.of_front {xs ys : List Char} (h : StartsInk ys) (hp : xs <+: ys) :
    StartsInk xs := by
  obtain ⟨rest, rfl⟩ := hp
  cases xs with
  | nil => exact nofun
  | cons x xs => exact h

theorem EndsInk.of_suffix {xs ys : List Char} (h : EndsInk ys) (hs : xs <:+ ys) : EndsInk xs := by
  obtain ⟨front, rfl⟩ := hs
  rcases List.eq_nil_or_concat xs with rfl | ⟨xs, x, rfl⟩
  · exact nofun
  · intro c hc
    refine h c ?_
    rw [List.concat_eq_append] at hc ⊢
    rw [← List.append_assoc, List.getLast?_concat]
    rwa [List.getLast?_concat] at hc

theorem LineText.of_suffix {xs ys : List Char} (h : LineText ys) (hs : xs <:+ ys) : LineText xs :=
  ⟨fun hm => h.noFeed (hs.subset hm), h.endsInk.of_suffix hs⟩

theorem startsInk_trimStart (cs : List Char) : StartsInk (trimStart cs) := by
  intro c hc
  have hink := List.head?_dropWhile_not isBlank cs
  rw [trimStart] at hc
  rw [hc] at hink
  simpa using hink

theorem endsInk_trimEnd (cs : List Char) : EndsInk (trimEnd cs) := by
  intro c hc
  rw [trimEnd, List.getLast?_reverse] at hc
  exact startsInk_trimStart cs.reverse c hc

/-- A text without a line feed can stand at the end of a line once it is trimmed. -/
theorem lineText_trim {cs : List Char} (h : '\n' ∉ cs) : LineText (trim cs) := by
  refine ⟨fun hm => h ?_, endsInk_trimEnd _⟩
  rw [trim, trimEnd, List.mem_reverse] at hm
  exact (List.dropWhile_suffix _).subset (List.mem_reverse.1 ((List.dropWhile_suffix _).subset hm))

theorem LineText.trimStart {cs : List Char} (h : LineText cs) : LineText (trimStart cs) :=
  h.of_suffix (List.dropWhile_suffix _)

/-- Nothing is trimmed from the end of a line text. -/
theorem LineText.trim_eq {cs : List Char} (h : LineText cs) : trim cs = Text.trimStart cs := by
  rw [trim, trimEnd_of_endsInk h.trimStart.endsInk]

theorem LineText.trimStart_ne_nil {cs : List Char} (h : LineText cs) (hne : cs ≠ []) :
    Text.trimStart cs ≠ [] := by
  intro e
  rw [Text.trimStart, List.dropWhile_eq_nil_iff] at e
  have hink := h.endsInk _ (List.getLast?_eq_some_getLast hne)
  rw [e _ (List.getLast_mem hne)] at hink
  cases hink

/-! ## Lines -/

/-- A terminated line is a line of the text, and then there is a carriage return at its end. -/
theorem mem_lines_terminated {ls : List (List Char)} {l : List Char} (hl : l ∈ ls) (h : '\n' ∉ l) :
    l ++ ['\r'] ∈ lines (ls.flatMap (· ++ ['\r', '\n'])) := by
  induction ls with
  | nil => cases hl
  | cons x ls ih =>
    have hsplit : (x :: ls).flatMap (· ++ ['\r', '\n']) =
        (x ++ ['\r']) ++ '\n' :: ls.flatMap (· ++ ['\r', '\n']) := by
      rw [List.flatMap_cons, List.append_assoc, List.append_assoc]
      rfl
    rw [lines, hsplit, pieces_append_sep, List.mem_append]
    rcases List.mem_cons.1 hl with rfl | hl
    · have hreturn : '\n' ∉ l ++ ['\r'] := by simpa using h
      rw [pieces_of_not_mem hreturn]
      exact .inl List.mem_cons_self
    · exact .inr (ih hl)

end CallBridge.Text
