/-!
# Splitting at a separator

A text with `n` separators has `n + 1` pieces, so the pieces joined by the separator give the text
back. Lines are the pieces between line feeds.

Results:
* `join_pieces`: joining the pieces gives the text.
* `pieces_join`: separator-free pieces, at least one, are found again.
* `cut?_append`: a text is cut at its first separator.
-/

namespace CallBridge.Text

/-- The pieces of a text between the occurrences of a separator. -/
def pieces (sep : Char) : List Char → List (List Char)
  | [] => [[]]
  | c :: cs =>
    if c = sep then [] :: pieces sep cs
    else match pieces sep cs with
      | [] => [[c]]
      | w :: ws => (c :: w) :: ws

/-- The texts one after the other with a separator between neighbours. -/
def join (sep : Char) : List (List Char) → List Char
  | [] => []
  | [w] => w
  | w :: ws => w ++ sep :: join sep ws

/-- The pieces of a text between its line feeds. -/
def lines (cs : List Char) : List (List Char) := pieces '\n' cs

/-- The parts of a text before and after the first occurrence of a separator. -/
def cut? (sep : Char) : List Char → Option (List Char × List Char)
  | [] => none
  | c :: cs =>
    if c = sep then some ([], cs) else (cut? sep cs).map fun (before, after) => (c :: before, after)

/-- The part of a text before the first separator, the whole text if there is none. -/
def before (sep : Char) (cs : List Char) : List Char := cs.takeWhile (· ≠ sep)

theorem pieces_ne_nil (sep : Char) (cs : List Char) : pieces sep cs ≠ [] := by
  cases cs with
  | nil => simp [pieces]
  | cons c cs =>
    rw [pieces]
    split
    · simp
    · split <;> simp

theorem pieces_cons_of_ne {sep c : Char} (h : c ≠ sep) (cs : List Char) :
    ∃ w ws, pieces sep cs = w :: ws ∧ pieces sep (c :: cs) = (c :: w) :: ws := by
  cases hp : pieces sep cs with
  | nil => exact absurd hp (pieces_ne_nil sep cs)
  | cons w ws => exact ⟨w, ws, rfl, by rw [pieces]; simp [h, hp]⟩

theorem join_pieces (sep : Char) (cs : List Char) : join sep (pieces sep cs) = cs := by
  induction cs with
  | nil => rfl
  | cons c cs ih =>
    by_cases h : c = sep
    · subst h
      rw [pieces, if_pos rfl]
      cases hp : pieces c cs with
      | nil => exact absurd hp (pieces_ne_nil c cs)
      | cons w ws => rw [hp] at ih; simp [join, ih]
    · obtain ⟨w, ws, hw, hc⟩ := pieces_cons_of_ne h cs
      rw [hw] at ih
      rw [hc]
      cases ws with
      | nil => simpa [join] using ih
      | cons w' ws => simpa [join] using ih

theorem pieces_of_not_mem {sep : Char} {cs : List Char} (h : sep ∉ cs) : pieces sep cs = [cs] := by
  induction cs with
  | nil => rfl
  | cons c cs ih =>
    have hc : c ≠ sep := fun e => h (by simp [e])
    rw [pieces, ih fun m => h (List.mem_cons_of_mem _ m)]
    simp [hc]

theorem pieces_append {sep : Char} {cs : List Char} (h : sep ∉ cs) (rest : List Char) :
    pieces sep (cs ++ sep :: rest) = cs :: pieces sep rest := by
  induction cs with
  | nil => simp [pieces]
  | cons c cs ih =>
    have hc : c ≠ sep := fun e => h (by simp [e])
    rw [List.cons_append, pieces, ih fun m => h (List.mem_cons_of_mem _ m)]
    simp [hc]

theorem pieces_join {sep : Char} : ∀ {ws : List (List Char)}, ws ≠ [] → (∀ w ∈ ws, sep ∉ w) →
    pieces sep (join sep ws) = ws
  | [w], _, h => pieces_of_not_mem (h w (by simp))
  | w :: w' :: ws, _, h => by
    rw [join, pieces_append (h w (by simp)) _,
      pieces_join (List.cons_ne_nil _ _) fun x hx => h x (List.mem_cons_of_mem _ hx)]
    exact List.cons_ne_nil _ _

theorem cut?_append {sep : Char} {cs : List Char} (h : sep ∉ cs) (rest : List Char) :
    cut? sep (cs ++ sep :: rest) = some (cs, rest) := by
  induction cs with
  | nil => simp [cut?]
  | cons c cs ih =>
    have hc : c ≠ sep := fun e => h (by simp [e])
    rw [List.cons_append, cut?, ih fun m => h (List.mem_cons_of_mem _ m)]
    simp [hc]

theorem before_of_not_mem {sep : Char} {cs : List Char} (h : sep ∉ cs) : before sep cs = cs := by
  induction cs with
  | nil => rfl
  | cons c cs ih =>
    have hc : c ≠ sep := fun e => h (by simp [e])
    have ih' := ih fun m => h (List.mem_cons_of_mem _ m)
    rw [before] at ih' ⊢
    rw [List.takeWhile_cons, if_pos (decide_eq_true hc), ih']

/-- A text without the separator cannot be cut, and any other one is cut behind the part before
it. -/
theorem cut?_eq (sep : Char) (cs : List Char) :
    (sep ∉ cs ∧ cut? sep cs = none) ∨
      ∃ rest, cs = before sep cs ++ sep :: rest ∧ cut? sep cs = some (before sep cs, rest) := by
  induction cs with
  | nil => exact .inl ⟨by simp, rfl⟩
  | cons c cs ih =>
    by_cases hc : c = sep
    · subst hc
      refine .inr ⟨cs, ?_, ?_⟩
      · simp [before]
      · simp [cut?, before]
    · have hb : before sep (c :: cs) = c :: before sep cs := by
        rw [before, List.takeWhile_cons, if_pos (decide_eq_true hc)]
        rfl
      rw [hb, cut?, if_neg hc]
      rcases ih with ⟨hm, hcut⟩ | ⟨rest, heq, hcut⟩
      · refine .inl ⟨?_, by rw [hcut]; rfl⟩
        simp only [List.mem_cons, not_or]
        exact ⟨fun e => hc e.symm, hm⟩
      · exact .inr ⟨rest, by rw [List.cons_append, ← heq], by rw [hcut]; rfl⟩

end CallBridge.Text
