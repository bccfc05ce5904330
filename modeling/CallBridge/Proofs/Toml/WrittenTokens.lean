import CallBridge.Toml.Document
import CallBridge.Toml.Table

/-!
# Tokens of written tables

What is written of tables is taken apart into the tokens that were meant: a word ends where a
character comes that cannot stand in it, a number and a truth value are words, and a text between
quotes is one token.

Keys are words, numbers fit into 64 bits with a sign, and texts are plain, so that they are only put
in quotes. Nothing is asked of the headers: how tables lie in each other does not show in the
tokens.

Results:
* `Scans.word`, `Scans.quoted`: words and quoted texts are single tokens.
* `tokens?_renderTables`: the tokens of written tables.
-/

namespace CallBridge.Toml

open CallBridge.Settings (signedBound)
open Text.Decimal (digitChar)

/-! ## What is written plainly -/

/-- A key that is a word. -/
def IsKey (key : String) : Prop := key.toList ≠ [] ∧ ∀ c ∈ key.toList, isWordChar c = true

instance (key : String) : Decidable (IsKey key) :=
  decidable_of_iff (key.toList ≠ [] ∧ key.toList.all isWordChar = true)
    (and_congr_right fun _ => List.all_eq_true)

/-- A text that is only put in quotes. -/
def IsPlainText (text : String) : Prop := ∀ c ∈ text.toList, isPlain c = true

instance (text : String) : Decidable (IsPlainText text) :=
  decidable_of_iff (text.toList.all isPlain = true) List.all_eq_true

/-- A value that is written plainly. -/
def Scalar.IsPlain : Scalar → Prop
  | .flag _ => True
  | .number n => n < signedBound
  | .text value => IsPlainText value

/-- A row that is written plainly. -/
structure IsPlainRow (row : String × Scalar) : Prop where
  key : IsKey row.1
  value : row.2.IsPlain

/-- A table that is written plainly. -/
structure Table.IsPlain (t : Table) : Prop where
  path_ne_nil : t.path ≠ []
  path : ∀ key ∈ t.path, IsKey key
  rows : ∀ row ∈ t.rows, IsPlainRow row

theorem IsPlainRow.of {key : String} {s : Scalar} (hkey : IsKey key) (hvalue : s.IsPlain) :
    IsPlainRow (key, s) :=
  ⟨hkey, hvalue⟩

theorem Table.IsPlain.of {path : List String} {rows : List (String × Scalar)}
    (hpath : path ≠ [] ∧ ∀ key ∈ path, IsKey key) (hrows : ∀ row ∈ rows, IsPlainRow row) :
    Table.IsPlain ⟨path, rows⟩ :=
  ⟨hpath.1, hpath.2, hrows⟩

/-! ## Tokens -/

/-- The token of a value. -/
def Scalar.token : Scalar → Token
  | .text value => .quoted value.toList false
  | s => .word s.render

/-- The tokens of a row. -/
def rowTokens (row : String × Scalar) : List Token :=
  [.word row.1.toList, .blank [' '], .equals, .blank [' '], row.2.token, .lineEnd]

/-- The tokens of keys with points between them. -/
def pathTokens : List String → List Token
  | [] => []
  | [key] => [.word key.toList]
  | key :: path => .word key.toList :: .dot :: pathTokens path

/-- The tokens of a table. -/
def Table.tokens (t : Table) : List Token :=
  .leftBracket :: pathTokens t.path ++ [.rightBracket, .lineEnd] ++ t.rows.flatMap rowTokens

/-- The tokens of tables. -/
def tablesTokens : List Table → List Token
  | [] => []
  | [t] => t.tokens
  | t :: ts => t.tokens ++ .lineEnd :: tablesTokens ts

/-- Characters are taken apart into tokens. -/
def Scans (cs : List Char) (ts : List Token) : Prop :=
  ∀ fuel, cs.length ≤ fuel → scan fuel cs = some ts

variable {cs rest : List Char} {ts : List Token}

theorem Scans.nil : Scans [] [] := fun fuel _ => by cases fuel <;> rfl

theorem Scans.cons {c : Char} {t : Token} (htoken : token? c cs = some (t, rest))
    (hle : rest.length ≤ cs.length) (h : Scans rest ts) : Scans (c :: cs) (t :: ts) := by
  intro fuel hfuel
  cases fuel with
  | zero => cases hfuel
  | succ fuel =>
    rw [List.length_cons, Nat.add_le_add_iff_right] at hfuel
    rw [scan, htoken]
    show (scan fuel rest >>= fun more => some (t :: more)) = _
    rw [h fuel (Nat.le_trans hle hfuel)]
    rfl

theorem Scans.mark {c : Char} {t : Token} (hmark : punctuation? c = some t) (h : Scans cs ts) :
    Scans (c :: cs) (t :: ts) := by
  refine .cons ?_ (Nat.le_refl _) h
  rw [token?, hmark]

/-- The next character, if there is one, does not belong to a class. -/
def Stops (p : Char → Bool) (cs : List Char) : Prop := ∀ c ∈ cs.head?, p c = false

theorem Stops.cons {p : Char → Bool} {c : Char} (h : p c = false) : Stops p (c :: cs) := by
  rintro d hd
  obtain rfl := Option.some.inj hd
  exact h

/-- A run of characters ends before the first one that does not belong to it. -/
theorem takeWhile_run {p : Char → Bool} (hcs : ∀ c ∈ cs, p c = true)
    (hrest : Stops p rest) : (cs ++ rest).takeWhile p = cs := by
  rw [List.takeWhile_append_of_pos hcs]
  cases rest with
  | nil => rw [List.takeWhile_nil, List.append_nil]
  | cons c rest => rw [List.takeWhile_cons, hrest c rfl, if_neg nofun, List.append_nil]

theorem dropWhile_run {p : Char → Bool} (hcs : ∀ c ∈ cs, p c = true)
    (hrest : Stops p rest) : (cs ++ rest).dropWhile p = rest := by
  rw [List.dropWhile_append_of_pos hcs]
  cases rest with
  | nil => rfl
  | cons c rest => rw [List.dropWhile_cons, hrest c rfl, if_neg nofun]

theorem Scans.space (hrest : Stops isBlank cs) (h : Scans cs ts) :
    Scans (' ' :: cs) (.blank [' '] :: ts) := by
  refine .cons ?_ (Nat.le_refl _) h
  have htake : ([] ++ cs).takeWhile isBlank = [] := takeWhile_run (by simp) hrest
  have hdrop : ([] ++ cs).dropWhile isBlank = cs := dropWhile_run (by simp) hrest
  rw [List.nil_append] at htake hdrop
  rw [token?, htake, hdrop]
  rfl

theorem ne_of_isWordChar {c d : Char} (hc : isWordChar c = true) (hd : isWordChar d = false) :
    c ≠ d := by
  rintro rfl
  rw [hc] at hd
  cases hd

theorem isBlank_of_isWordChar {c : Char} (hc : isWordChar c = true) : isBlank c = false := by
  simp only [isBlank, ne_of_isWordChar hc (show isWordChar ' ' = false by decide),
    ne_of_isWordChar hc (show isWordChar '\t' = false by decide), decide_false, Bool.or_false]

/-- A word is a token. -/
theorem Scans.word (hne : cs ≠ []) (hcs : ∀ c ∈ cs, isWordChar c = true)
    (hrest : Stops isWordChar rest) (h : Scans rest ts) :
    Scans (cs ++ rest) (.word cs :: ts) := by
  obtain ⟨c, more, rfl⟩ := List.exists_cons_of_ne_nil hne
  obtain ⟨hc, hmore⟩ := List.forall_mem_cons.1 hcs
  have hmark : punctuation? c = none := by
    simp only [punctuation?, ne_of_isWordChar hc (show isWordChar '\n' = false by decide),
      ne_of_isWordChar hc (show isWordChar '=' = false by decide),
      ne_of_isWordChar hc (show isWordChar '.' = false by decide),
      ne_of_isWordChar hc (show isWordChar ',' = false by decide),
      ne_of_isWordChar hc (show isWordChar ':' = false by decide),
      ne_of_isWordChar hc (show isWordChar '+' = false by decide),
      ne_of_isWordChar hc (show isWordChar '\x7b' = false by decide),
      ne_of_isWordChar hc (show isWordChar '\x7d' = false by decide),
      ne_of_isWordChar hc (show isWordChar '[' = false by decide),
      ne_of_isWordChar hc (show isWordChar ']' = false by decide), if_false]
  have hblank := isBlank_of_isWordChar hc
  refine .cons ?_ (by simp) h
  rw [List.append_eq, token?, hmark]
  simp only [hblank, Bool.false_eq_true, if_false,
    ne_of_isWordChar hc (show isWordChar '#' = false by decide),
    ne_of_isWordChar hc (show isWordChar '"' = false by decide),
    ne_of_isWordChar hc (show isWordChar apostrophe = false by decide), or_self, hc, if_true,
    takeWhile_run hmore hrest, dropWhile_run hmore hrest]

/-! ### Quoted texts -/

theorem isPlain_spec {c : Char} (h : isPlain c = true) :
    c ≠ '"' ∧ c ≠ '\\' ∧ isTextChar c = true := by
  simp only [isPlain, Bool.and_eq_true, decide_eq_true_eq, ne_eq] at h
  obtain ⟨⟨⟨⟨hlow, hhigh⟩, hquote⟩, hslash⟩, -⟩ := h
  exact ⟨hquote, hslash, by simp [isTextChar, hlow, hhigh]⟩

theorem shortBody_plain (hcs : ∀ c ∈ cs, isPlain c = true) {fuel : Nat} (h : cs.length < fuel) :
    shortBody '"' fuel (cs ++ '"' :: rest) = some (cs, rest) := by
  induction cs generalizing fuel with
  | nil =>
    obtain ⟨fuel, rfl⟩ := Nat.exists_eq_add_of_lt h
    rw [List.nil_append, List.length_nil, Nat.zero_add, shortBody, if_pos rfl]
  | cons c cs ih =>
    obtain ⟨hc, hmore⟩ := List.forall_mem_cons.1 hcs
    obtain ⟨hquote, hslash, htext⟩ := isPlain_spec hc
    obtain ⟨fuel, rfl⟩ : ∃ n, fuel = n + 1 := ⟨fuel - 1, by omega⟩
    have hrest := ih hmore (Nat.lt_of_succ_lt_succ h)
    rw [List.cons_append, shortBody, if_neg hquote, if_neg (fun hs => hslash hs.2), if_pos htext,
      hrest]
    rfl

/-- A text that does not start with two marks more stands on one line. -/
theorem quotedText_of_take {mark : Char} (h : cs.take 2 ≠ [mark, mark]) :
    quotedText mark cs =
      (shortBody mark cs.length cs).map fun (text, rest) => (.quoted text false, rest) := by
  match cs, h with
  | [], _ => rfl
  | [_], _ => rfl
  | c :: d :: rest, h =>
    rw [quotedText, if_neg]
    rintro ⟨rfl, rfl⟩
    exact h rfl

theorem quotedText_plain (hcs : ∀ c ∈ cs, isPlain c = true) (hrest : rest.head? ≠ some '"') :
    quotedText '"' (cs ++ '"' :: rest) = some (.quoted cs false, rest) := by
  have hbody : shortBody '"' (cs ++ '"' :: rest).length (cs ++ '"' :: rest) = some (cs, rest) :=
    shortBody_plain hcs (by simp)
  have htake : (cs ++ '"' :: rest).take 2 ≠ ['"', '"'] := by
    cases cs with
    | nil =>
      intro h
      rw [List.nil_append, List.take_succ_cons] at h
      cases rest with
      | nil => cases h
      | cons d rest => exact hrest (congrArg some (List.cons.inj (List.cons.inj h).2).1)
    | cons c cs =>
      intro h
      exact (isPlain_spec (hcs c List.mem_cons_self)).1 (List.cons.inj h).1
  rw [quotedText_of_take htake, hbody]
  rfl

/-- A plain text in quotes is a token. -/
theorem Scans.quoted (hcs : ∀ c ∈ cs, isPlain c = true) (hrest : rest.head? ≠ some '"')
    (h : Scans rest ts) : Scans ('"' :: cs ++ '"' :: rest) (.quoted cs false :: ts) := by
  refine .cons ?_ (by simp; omega) h
  have hmark : punctuation? '"' = none := by decide
  have hblank : isBlank '"' = false := by decide
  rw [List.append_eq, token?, hmark]
  simp only [hblank, Bool.false_eq_true, if_false, show ¬ '"' = '#' by decide, true_or, if_true]
  exact quotedText_plain hcs hrest

/-! ### Numbers -/

theorem isWordChar_digitChar {d : Nat} (h : d < 10) : isWordChar (digitChar d) = true := by
  have hall : ∀ i : Fin 10, isWordChar (digitChar i) = true := by decide
  exact hall ⟨d, h⟩

theorem isWordChar_render {n : Nat} {c : Char} (h : c ∈ Text.Decimal.render n) :
    isWordChar c = true := by
  obtain ⟨d, hd, rfl⟩ := Text.Decimal.mem_render h
  exact isWordChar_digitChar hd

/-! ### Rows and tables -/

theorem Scans.value {s : Scalar} (hs : s.IsPlain) (h : Scans ('\n' :: cs) ts) :
    Scans (s.render ++ '\n' :: cs) (s.token :: ts) := by
  have hend : Stops isWordChar ('\n' :: cs) := .cons (by decide)
  cases s with
  | flag value =>
    have hne : (Scalar.flag value).render ≠ [] := by cases value <;> nofun
    have hword : (Scalar.flag value).render.all isWordChar = true := by cases value <;> decide
    exact .word hne (List.all_eq_true.1 hword) hend h
  | number n =>
    exact .word (Text.Decimal.render_ne_nil n) (fun c hc => isWordChar_render hc) hend h
  | text value =>
    have hquoted : Scans ('"' :: value.toList ++ '"' :: '\n' :: cs) _ := .quoted hs nofun h
    rw [Scalar.render, quoteChars_plain hs, List.append_assoc]
    exact hquoted

/-- A value does not start with a blank. -/
theorem stops_render {s : Scalar} (hs : s.IsPlain) : Stops isBlank (s.render ++ cs) := by
  cases s with
  | flag value => cases value <;> exact .cons (by decide)
  | number n =>
    obtain ⟨c, more, hn⟩ := List.exists_cons_of_ne_nil (Text.Decimal.render_ne_nil n)
    have hc := isWordChar_render (n := n) (hn ▸ List.mem_cons_self)
    rw [Scalar.render, hn]
    exact .cons (isBlank_of_isWordChar hc)
  | text value =>
    rw [Scalar.render, quoteChars_plain hs]
    exact .cons (by decide)

theorem Scans.row {row : String × Scalar} (hrow : IsPlainRow row) (h : Scans cs ts) :
    Scans (renderRow row ++ cs) (rowTokens row ++ ts) := by
  have hvalue := Scans.value hrow.value (.mark rfl h)
  have hequals : Scans ('=' :: ' ' :: (row.2.render ++ '\n' :: cs)) _ :=
    .mark rfl (.space (stops_render hrow.value) hvalue)
  have hkey := Scans.word hrow.key.1 hrow.key.2 (.cons (by decide))
    (.space (.cons (by decide)) hequals)
  rw [renderRow, rowTokens]
  simpa only [List.append_assoc, List.cons_append, List.nil_append] using hkey

theorem Scans.rows {rows : List (String × Scalar)} (hrows : ∀ row ∈ rows, IsPlainRow row)
    (h : Scans cs ts) : Scans (renderRows rows ++ cs) (rows.flatMap rowTokens ++ ts) := by
  induction rows with
  | nil => exact h
  | cons row rows ih =>
    obtain ⟨hrow, hmore⟩ := List.forall_mem_cons.1 hrows
    rw [renderRows, List.flatMap_cons, List.flatMap_cons, List.append_assoc, List.append_assoc]
    exact (ih hmore).row hrow

theorem Scans.path {path : List String} (hpath : ∀ key ∈ path, IsKey key)
    (hrest : Stops isWordChar cs) (h : Scans cs ts) :
    Scans (renderPath path ++ cs) (pathTokens path ++ ts) := by
  fun_induction renderPath path with
  | case1 => exact h
  | case2 key =>
    obtain ⟨hne, hkey⟩ := hpath key List.mem_cons_self
    exact .word hne hkey hrest h
  | case3 key path hmany ih =>
    obtain ⟨⟨hne, hkey⟩, hmore⟩ := List.forall_mem_cons.1 hpath
    rw [pathTokens, List.append_assoc]
    · exact .word hne hkey (.cons (by decide)) (.mark rfl (ih hmore))
    · exact hmany

theorem Scans.table {t : Table} (ht : t.IsPlain) (h : Scans cs ts) :
    Scans (t.render ++ cs) (t.tokens ++ ts) := by
  have hend : Scans (']' :: '\n' :: (renderRows t.rows ++ cs)) _ :=
    .mark rfl (.mark rfl (h.rows ht.rows))
  have htable : Scans ('[' :: (renderPath t.path ++ _)) _ :=
    .mark rfl (.path ht.path (.cons (by decide)) hend)
  rw [Table.render, Table.tokens]
  simpa only [List.append_assoc, List.cons_append, List.nil_append] using htable

theorem Scans.tables {tables : List Table} (htables : ∀ t ∈ tables, t.IsPlain) :
    Scans (renderTables tables) (tablesTokens tables) := by
  fun_induction renderTables tables with
  | case1 => exact .nil
  | case2 t =>
    have ht := Scans.nil.table (htables t List.mem_cons_self)
    rwa [List.append_nil, List.append_nil] at ht
  | case3 t ts hmany ih =>
    obtain ⟨ht, hmore⟩ := List.forall_mem_cons.1 htables
    rw [tablesTokens]
    · exact .table ht (.mark rfl (ih hmore))
    · exact hmany

/-! ### Line ends -/

theorem return_not_mem_key {key : String} (h : IsKey key) : '\r' ∉ key.toList := fun hmem =>
  absurd (h.2 '\r' hmem) (by decide)

theorem return_not_mem_render {s : Scalar} (hs : s.IsPlain) : '\r' ∉ s.render := by
  cases s with
  | flag value => cases value <;> decide
  | number n => exact fun hmem => absurd (isWordChar_render hmem) (by decide)
  | text value =>
    have hvalue : '\r' ∉ value.toList := fun hmem => absurd (hs '\r' hmem) (by decide)
    rw [Scalar.render, quoteChars_plain hs]
    simpa using hvalue

theorem return_not_mem_row {row : String × Scalar} (hrow : IsPlainRow row) :
    '\r' ∉ renderRow row := by
  simp [renderRow, return_not_mem_key hrow.key, return_not_mem_render hrow.value]

theorem return_not_mem_path {path : List String} (hpath : ∀ key ∈ path, IsKey key) :
    '\r' ∉ renderPath path := by
  fun_induction renderPath path with
  | case1 => nofun
  | case2 key => exact return_not_mem_key (hpath key List.mem_cons_self)
  | case3 key path _ ih =>
    obtain ⟨hkey, hmore⟩ := List.forall_mem_cons.1 hpath
    simp [return_not_mem_key hkey, ih hmore]

theorem return_not_mem_table {t : Table} (ht : t.IsPlain) : '\r' ∉ t.render := by
  have hrows : '\r' ∉ renderRows t.rows := by
    rw [renderRows, List.mem_flatMap]
    rintro ⟨row, hrow, hmem⟩
    exact return_not_mem_row (ht.rows row hrow) hmem
  simp [Table.render, return_not_mem_path ht.path, hrows]

theorem return_not_mem_tables {tables : List Table} (htables : ∀ t ∈ tables, t.IsPlain) :
    '\r' ∉ renderTables tables := by
  fun_induction renderTables tables with
  | case1 => nofun
  | case2 t => exact return_not_mem_table (htables t List.mem_cons_self)
  | case3 t ts _ ih =>
    obtain ⟨ht, hmore⟩ := List.forall_mem_cons.1 htables
    simp [return_not_mem_table ht, ih hmore]

/-- Written tables do not start with a mark of the byte order. -/
theorem head?_renderTables (tables : List Table) :
    (renderTables tables).head? ≠ some '\uFEFF' := by
  fun_cases renderTables tables with
  | case1 => nofun
  | case2 t => exact fun h => absurd (Option.some.inj h) (by decide)
  | case3 t ts => exact fun h => absurd (Option.some.inj h) (by decide)

/-- **Main theorem** on tokens: written tables are taken apart into the tokens that were meant. -/
theorem tokens?_renderTables {tables : List Table} (htables : ∀ t ∈ tables, t.IsPlain) :
    tokens? (String.ofList (renderTables tables)) = some (tablesTokens tables) := by
  rw [tokens?, String.toList_ofList, foldLineEnds_of_not_mem (return_not_mem_tables htables)]
  show scan (if _ then _ else _ : List Char).length (if _ then _ else _) = _
  rw [if_neg (head?_renderTables tables)]
  exact Scans.tables htables _ (Nat.le_refl _)

end CallBridge.Toml
