import CallBridge.Proofs.Toml.WrittenTokens

/-!
# Written tables are read back

The tokens of written tables are taken apart into lines: a header leads to its table, and a row sets
its key to the value that was written. A number has no leading zeros, so that it is read as a
decimal number and not as a date, as a number with places or in another base.

Results:
* `number?_render`: a number is read back.
* `Lists.tables`: the lines of written tables.
* `sections?_written`: every table is read back as a section with the same keys and values.
-/

namespace CallBridge.Toml

open CallBridge.Settings (signedBound)
open Text.Decimal (digitChar)

variable {cs : List Char} {ts : List Token}

/-! ## Numbers -/

theorem hexValue?_digitChar {d : Nat} (h : d < 10) : hexValue? (digitChar d) = some d := by
  have hall : ∀ i : Fin 10, hexValue? (digitChar i) = some i.1 := by decide
  exact hall ⟨d, h⟩

/-- A number is written with decimal digits. -/
theorem isDigitIn_render {n : Nat} {c : Char} (h : c ∈ Text.Decimal.render n) :
    isDigitIn 10 c = true := by
  obtain ⟨d, hd, rfl⟩ := Text.Decimal.mem_render h
  rw [isDigitIn, hexValue?_digitChar hd]
  exact decide_eq_true hd

/-- No character but a digit is in a written number. -/
theorem not_mem_render {n : Nat} {c : Char} (hc : isDigitIn 10 c = false) :
    c ∉ Text.Decimal.render n := by
  intro hmem
  rw [isDigitIn_render hmem] at hc
  cases hc

/-- Only zero starts with a zero. -/
theorem head?_render {n : Nat} (h : (Text.Decimal.render n).head? = some '0') : n = 0 := by
  fun_induction Text.Decimal.render n with
  | case1 n hn =>
    have hall : ∀ i : Fin 10, digitChar i = '0' → i.1 = 0 := by decide
    exact hall ⟨n, hn⟩ (Option.some.inj h)
  | case2 n hn ih =>
    obtain ⟨c, more, hmore⟩ := List.exists_cons_of_ne_nil (Text.Decimal.render_ne_nil (n / 10))
    rw [hmore] at ih h
    have hzero := ih h
    omega

theorem valueOf_render (n : Nat) : valueOf 10 (Text.Decimal.render n) = n := by
  fun_induction Text.Decimal.render n with
  | case1 n hn => simp [valueOf, hexValue?_digitChar hn]
  | case2 n hn ih =>
    have hdigit := hexValue?_digitChar (Nat.mod_lt n (by decide : 0 < 10))
    rw [valueOf] at ih ⊢
    rw [List.foldl_append, ih, List.foldl_cons, List.foldl_nil, hdigit, Option.getD_some]
    omega

theorem splitMinus_render (n : Nat) :
    splitMinus (Text.Decimal.render n) = (false, Text.Decimal.render n) := by
  rw [splitMinus, if_neg]
  intro h
  exact not_mem_render (by decide) (List.mem_of_head? h)

/-- A written number is one run of digits. -/
theorem run?_render (n : Nat) :
    run? 10 false (Text.Decimal.render n) = some (Text.Decimal.render n, []) := by
  have hdigits : ∀ c ∈ Text.Decimal.render n, (c = '_' || isDigitIn 10 c) = true := fun c hc => by
    rw [isDigitIn_render hc, Bool.or_true]
  have htake := takeWhile_run hdigits (show Stops _ [] by nofun)
  have hdrop := dropWhile_run hdigits (show Stops _ [] by nofun)
  rw [List.append_nil] at htake hdrop
  have hgroups : Text.pieces '_' (Text.Decimal.render n) = [Text.Decimal.render n] :=
    Text.pieces_of_not_mem (not_mem_render (by decide))
  have hzero : (Text.Decimal.render n).head? = some '0' →
      ¬ 1 < (Text.Decimal.render n).length := by
    intro h
    rw [head?_render h, Text.Decimal.render]
    decide
  simp only [run?, htake, hdrop, hgroups]
  rw [if_neg, if_neg]
  · rw [List.flatten_cons, List.flatten_nil, List.append_nil]
  · simpa using hzero
  · simpa using (Text.Decimal.render_ne_nil n).symm

/-- A number is read back. -/
theorem whole?_render {n : Nat} (h : n < signedBound) :
    whole? 10 (Text.Decimal.render n) = some (.integer n) := by
  rw [whole?, if_pos rfl, splitMinus_render]
  simp only [ne_eq, not_true_eq_false, decide_false, run?_render, Option.bind_eq_bind,
    Option.bind_some, if_true, valueOf_render, Settings.signed?, Bool.false_eq_true, if_false, h,
    Option.map_some]

/-- A written number with nothing of a number after it is read as a decimal one. -/
theorem number?_render {n : Nat} (h : n < signedBound) :
    number? (Text.Decimal.render n) (.lineEnd :: ts) = some (.integer n, .lineEnd :: ts) := by
  have hother : ∀ {c d : Char} {more : List Char}, Text.Decimal.render n = c :: d :: more →
      isDigitIn 10 d = true := by
    intro c d more hn
    exact isDigitIn_render (n := n) (hn ▸ by simp)
  have hexponent : (Text.Decimal.render n).any isExponentMark = false := by
    rw [List.any_eq_false]
    intro c hc hmark
    simp only [isExponentMark, Bool.or_eq_true, decide_eq_true_eq] at hmark
    rcases hmark with rfl | rfl
    · exact not_mem_render (by decide) hc
    · exact not_mem_render (by decide) hc
  have hword : realWord? (Text.Decimal.render n) = none := by
    rw [realWord?, splitMinus_render]
    have hinf : Text.Decimal.render n ≠ ['i', 'n', 'f'] := fun hn =>
      absurd (isDigitIn_render (n := n) (hn ▸ List.mem_cons_self)) (by decide)
    have hnan : Text.Decimal.render n ≠ ['n', 'a', 'n'] := fun hn =>
      absurd (isDigitIn_render (n := n) (hn ▸ List.mem_cons_self)) (by decide)
    simp only [hinf, hnan, if_false]
  unfold number?
  split
  · next hn => exact absurd (hother hn) (by decide)
  · next hn => exact absurd (hother hn) (by decide)
  · next hn => exact absurd (hother hn) (by decide)
  · rw [hexponent, if_neg Bool.false_ne_true]
    simp only [hword, whole?_render h, Option.map_some]

/-! ## Values -/

/-- The value that is read. -/
def Scalar.value : Scalar → Value
  | .flag value => .flag value
  | .number n => .integer n
  | .text value => .text value

theorem startsMoment_render (n : Nat) : startsMoment (Text.Decimal.render n) = false := by
  have hdash : ((Text.Decimal.render n).drop 1).contains '-' = false := by
    rw [List.contains_eq_mem, decide_eq_false_iff_not]
    exact fun hmem => not_mem_render (by decide) (List.mem_of_mem_drop hmem)
  have habsent : ∀ c, isDigitIn 10 c = false → (Text.Decimal.render n).contains c = false := by
    intro c hc
    rw [List.contains_eq_mem, decide_eq_false_iff_not]
    exact not_mem_render hc
  rw [startsMoment, habsent 'T' (by decide), habsent 't' (by decide), hdash]
  rfl

theorem wordValue?_render {n : Nat} (h : n < signedBound) :
    wordValue? (Text.Decimal.render n) (.lineEnd :: ts) = some (.integer n, .lineEnd :: ts) := by
  obtain ⟨c, more, hn⟩ := List.exists_cons_of_ne_nil (Text.Decimal.render_ne_nil n)
  have hc : isDigitIn 10 c = true := isDigitIn_render (n := n) (hn ▸ List.mem_cons_self)
  have hword : ∀ w : List Char, w.head?.any (isDigitIn 10) = false →
      Text.Decimal.render n ≠ w := by
    rintro w hw rfl
    rw [hn] at hw
    exact absurd hc (Bool.eq_false_iff.1 hw)
  have hfirst : isDigitIn 10 ((Text.Decimal.render n).head?.getD ' ') = true := by
    rw [hn]
    exact hc
  have hmoment : ¬ (startsMoment (Text.Decimal.render n) = true ∨
      (Token.lineEnd :: ts).head? = some .colon) := by
    rw [startsMoment_render]
    nofun
  rw [wordValue?, if_neg (hword _ (by decide)), if_neg (hword _ (by decide)),
    if_pos (.inl hfirst), if_neg hmoment]
  exact number?_render h

/-- A value at the end of a line is read back. -/
theorem value?_token {s : Scalar} (hs : s.IsPlain) {fuel : Nat} (hfuel : 0 < fuel) :
    value? fuel (s.token :: .lineEnd :: ts) = some (s.value, .lineEnd :: ts) := by
  obtain ⟨fuel, rfl⟩ := Nat.exists_eq_add_of_lt hfuel
  cases s with
  | flag value => cases value <;> rfl
  | number n => exact wordValue?_render hs
  | text value =>
    show some (Value.text (String.ofList value.toList), _) = _
    rw [String.ofList_toList]
    rfl

/-! ## Lines -/

/-- The value of a row under its key. -/
def rowAssignment (row : String × Scalar) : Assignment := ([row.1], row.2.value)

/-- The header of a table, and the values of its rows. -/
def Table.lines (t : Table) : Header × List Assignment :=
  (⟨t.path, false⟩, t.rows.map rowAssignment)

/-- Tokens are taken apart into the lines up to the next header, and the headers with their
lines. -/
def Lists (ts : List Token) (as : List Assignment) (more : List (Header × List Assignment)) :
    Prop :=
  ∀ fuel, ts.length < fuel → lines? fuel ts = some (as, more)

variable {as : List Assignment} {more : List (Header × List Assignment)}

theorem Lists.nil : Lists [] [] [] := by
  intro fuel hfuel
  cases fuel with
  | zero => cases hfuel
  | succ fuel => rfl

theorem Lists.lineEnd (h : Lists ts as more) : Lists (.lineEnd :: ts) as more := by
  intro fuel hfuel
  cases fuel with
  | zero => cases hfuel
  | succ fuel => exact h (fuel + 1) (Nat.lt_of_succ_lt hfuel)

theorem assigned?_row (row : String × Scalar) :
    assigned? (rowTokens row ++ ts) = some ([row.1], row.2.token :: .lineEnd :: ts) := by
  have htoken : skipBlanks (row.2.token :: .lineEnd :: ts) = row.2.token :: .lineEnd :: ts := by
    cases row.2 <;> rfl
  show some ([String.ofList row.1.toList], skipBlanks (row.2.token :: .lineEnd :: ts)) = _
  rw [String.ofList_toList, htoken]

theorem Lists.row {row : String × Scalar} (hrow : IsPlainRow row) (h : Lists ts as more) :
    Lists (rowTokens row ++ ts) (rowAssignment row :: as) more := by
  intro fuel hfuel
  cases fuel with
  | zero => cases hfuel
  | succ fuel =>
    have hlater : ts.length < fuel := by
      rw [List.length_append] at hfuel
      simp only [rowTokens, List.length_cons, List.length_nil] at hfuel
      omega
    show (assigned? (rowTokens row ++ ts) >>= _) = _
    rw [assigned?_row]
    show (value? _ (row.2.token :: .lineEnd :: ts) >>= _) = _
    rw [value?_token hrow.value (by simp)]
    show (lines? fuel ts >>= _) = _
    rw [h fuel hlater]
    rfl

theorem Lists.rows {rows : List (String × Scalar)} (hrows : ∀ row ∈ rows, IsPlainRow row)
    (h : Lists ts as more) :
    Lists (rows.flatMap rowTokens ++ ts) (rows.map rowAssignment ++ as) more := by
  induction rows with
  | nil => exact h
  | cons row rows ih =>
    obtain ⟨hrow, hmore⟩ := List.forall_mem_cons.1 hrows
    rw [List.flatMap_cons, List.append_assoc]
    exact (ih hmore).row hrow

theorem keys?_path {path : List String} (hne : path ≠ []) {fuel : Nat}
    (hfuel : path.length ≤ fuel) :
    keys? fuel (pathTokens path ++ .rightBracket :: ts) = some (path, .rightBracket :: ts) := by
  fun_induction pathTokens path generalizing fuel with
  | case1 => exact absurd rfl hne
  | case2 key =>
    obtain ⟨fuel, rfl⟩ := Nat.exists_eq_add_of_le' hfuel
    show some ([String.ofList key.toList], _) = _
    rw [String.ofList_toList]
  | case3 key path hmany ih =>
    obtain ⟨fuel, rfl⟩ : ∃ n, fuel = n + 1 := ⟨fuel - 1, by simp at hfuel; omega⟩
    show (keys? fuel (pathTokens path ++ _)).map _ = _
    rw [ih hmany (Nat.le_of_succ_le_succ hfuel)]
    show some (String.ofList key.toList :: path, _) = _
    rw [String.ofList_toList]

theorem length_pathTokens (path : List String) : path.length ≤ (pathTokens path).length := by
  fun_induction pathTokens path with
  | case1 => exact Nat.le_refl _
  | case2 key => exact Nat.le_refl _
  | case3 key path _ ih =>
    simp only [List.length_cons]
    omega

theorem header?_path {path : List String} (hne : path ≠ []) :
    header? (pathTokens path ++ .rightBracket :: ts) = some (⟨path, false⟩, ts) := by
  have hfirst : (pathTokens path ++ .rightBracket :: ts).head? ≠ some .leftBracket := by
    fun_cases pathTokens path with
    | case1 => exact absurd rfl hne
    | case2 key => nofun
    | case3 key path => nofun
  have hfuel : path.length ≤ (pathTokens path ++ .rightBracket :: ts).length := by
    rw [List.length_append]
    exact Nat.le_add_right_of_le (length_pathTokens path)
  have hkeys : keys? _ (pathTokens path ++ .rightBracket :: ts) = _ := keys?_path hne hfuel
  simp only [header?, hfirst, decide_false, if_false, hkeys, Option.bind_eq_bind,
    Option.bind_some]
  rfl

theorem Lists.table {t : Table} (ht : t.IsPlain) (h : Lists ts [] more) :
    Lists (t.tokens ++ ts) [] (t.lines :: more) := by
  intro fuel hfuel
  cases fuel with
  | zero => cases hfuel
  | succ fuel =>
    have hrows := h.rows ht.rows
    rw [List.append_nil] at hrows
    have hlater : (t.rows.flatMap rowTokens ++ ts).length < fuel := by
      simp only [Table.tokens, List.length_append, List.length_cons] at hfuel ⊢
      omega
    have htokens : t.tokens ++ ts = .leftBracket :: (pathTokens t.path ++
        .rightBracket :: .lineEnd :: (t.rows.flatMap rowTokens ++ ts)) := by
      simp only [Table.tokens, List.append_assoc, List.cons_append, List.nil_append]
    rw [htokens]
    show (header? (pathTokens t.path ++ _) >>= _) = _
    rw [header?_path ht.path_ne_nil]
    show (lines? fuel (t.rows.flatMap rowTokens ++ ts) >>= _) = _
    rw [hrows fuel hlater]
    rfl

/-- The lines of written tables. -/
theorem Lists.tables {tables : List Table} (htables : ∀ t ∈ tables, t.IsPlain) :
    Lists (tablesTokens tables) [] (tables.map Table.lines) := by
  fun_induction tablesTokens tables with
  | case1 => exact .nil
  | case2 t =>
    have ht := Lists.nil.table (htables t List.mem_cons_self)
    rwa [List.append_nil] at ht
  | case3 t ts hmany ih =>
    obtain ⟨ht, hmore⟩ := List.forall_mem_cons.1 htables
    exact (ih hmore).lineEnd.table ht

/-! ## Sections -/

/-- The fields of rows. -/
def rowFields (rows : List (String × Scalar)) : Fields := rows.map fun row => (row.1, row.2.value)

/-- The section that is read. -/
def Table.section (t : Table) : Section := ⟨⟨t.path, false⟩, rowFields t.rows⟩

theorem ofPaths_rows (rows : List (String × Scalar)) :
    Fields.ofPaths (rows.map rowAssignment) = some (rowFields rows) := by
  have hfold : ∀ fs : Fields, (rows.map rowAssignment).foldlM
      (fun fs (path, value) => Fields.insert path value fs) fs = some (fs ++ rowFields rows) := by
    induction rows with
    | nil => exact fun fs => congrArg some (List.append_nil fs).symm
    | cons row rows ih =>
      intro fs
      show (rows.map rowAssignment).foldlM _ (fs ++ [(row.1, row.2.value)]) = _
      rw [ih, List.append_assoc]
      rfl
  exact hfold []

theorem section?_table (t : Table) : section? t.lines.1 t.lines.2 = some t.section := by
  rw [section?, Table.lines, ofPaths_rows]
  rfl

/-- **Main theorem**: every written table is read back as a section with its keys and values, and
before the first header there is nothing. -/
theorem sections?_written {tables : List Table} (htables : ∀ t ∈ tables, t.IsPlain) :
    (tokens? (String.ofList (renderTables tables)) >>= sections?) =
      some (⟨⟨[], false⟩, []⟩ :: tables.map Table.section) := by
  have hsections : (tables.map Table.lines).mapM (fun lines => section? lines.1 lines.2) =
      some (tables.map Table.section) := by
    induction tables with
    | nil => rfl
    | cons t tables ih =>
      rw [List.map_cons, List.mapM_cons, ih (List.forall_mem_cons.1 htables).2]
      show (section? t.lines.1 t.lines.2 >>= _) = _
      rw [section?_table]
      rfl
  rw [tokens?_renderTables htables]
  show (lines? ((tablesTokens tables).length + 1) (tablesTokens tables) >>= _) = _
  rw [Lists.tables htables _ (Nat.lt_succ_self _)]
  show ((⟨[], false⟩, []) :: tables.map Table.lines).mapM
    (fun lines => section? lines.1 lines.2) = _
  rw [List.mapM_cons, hsections]
  rfl

end CallBridge.Toml
