import CallBridge.Proofs.Sdp.Parsed
import CallBridge.Proofs.Sdp.RoundTrip

/-!
# The layout of a description does not matter

A text is laid out in rows. Some of them carry a line, with blanks around it; the others are passed
over, since they are blank or tell something that is not read. Each row but the last is ended by a
line feed or by a carriage return and a line feed, and the last one may be.

However lines are laid out, they are read as if they stood alone, joined by line feeds; a fault is
reported at the row that carries the faulty line. And what is reported of a faulty text depends on
its first lines only, up to the faulty one.

Results:
* `readLine_eq_self_iff`: the rows that are passed over are those that change no description.
* `readLines_rows`: reading rows is reading the lines that they carry.
* `parse_text`: a layout is read like the plain lines.
* `failsAt_of_parse`: the first lines of a text that are refused.
* `free_layout`: both together.
-/

namespace CallBridge.Sdp

open Text (isBlank)

/-! ## Rows that are passed over -/

/-- A row is blank, or there is an equals sign in it behind something other than the letter of a
line that is read. -/
def IsPassedOver (raw : List Char) : Prop :=
  Text.trim raw = [] ∨
    '=' ∈ Text.trim raw ∧ ∀ kind ∈ printedKinds, Text.before '=' (Text.trim raw) ≠ [kind]

instance (raw : List Char) : Decidable (IsPassedOver raw) :=
  decidable_of_iff (Text.trim raw = [] ∨ '=' ∈ Text.trim raw ∧
    printedKinds.all (fun kind => Text.before '=' (Text.trim raw) ≠ [kind]) = true)
    (by simp [IsPassedOver])

theorem readValue_of_unknown (d : Description) {kind : List Char}
    (h : ∀ k ∈ printedKinds, kind ≠ [k]) (value : List Char) : readValue d kind value = .ok d := by
  unfold readValue
  split
  · exact absurd rfl (h 'v' (by decide))
  · exact absurd rfl (h 'o' (by decide))
  · exact absurd rfl (h 's' (by decide))
  · exact absurd rfl (h 'c' (by decide))
  · exact absurd rfl (h 't' (by decide))
  · exact absurd rfl (h 'm' (by decide))
  · exact absurd rfl (h 'a' (by decide))
  · rfl

theorem IsPassedOver.readLine {raw : List Char} (h : IsPassedOver raw) (d : Description) :
    readLine d raw = .ok d := by
  rcases h with hblank | ⟨hequals, hkind⟩
  · exact readLine_of_blank d hblank
  · rcases Text.cut?_eq '=' (Text.trim raw) with ⟨hnone, -⟩ | ⟨value, -, hcut⟩
    · exact absurd hequals hnone
    · have hne : Text.trim raw ≠ [] := List.ne_nil_of_mem hequals
      simp only [Sdp.readLine, List.isEmpty_eq_false_iff.2 hne, Bool.false_eq_true, if_false, hcut]
      exact readValue_of_unknown d hkind value

/-- What is read from a line does not depend on what was there before. -/
theorem part_eq_of_map {α β γ : Type} {x : Reading α} {f g : α → β} (part : β → γ)
    (h : ∀ a, part (f a) = part (g a)) {b c : β} (hb : x.map f = .ok b) (hc : x.map g = .ok c) :
    part b = part c := by
  obtain ⟨a, ha, rfl⟩ := ok_of_map hb
  obtain ⟨a', ha', rfl⟩ := ok_of_map hc
  obtain rfl := Except.ok.inj (ha.symm.trans ha')
  exact h a

/-- A line with one of the letters changes some description, or is refused. -/
theorem exists_readValue_ne {kind : Char} (h : kind ∈ printedKinds) (value : List Char) :
    ∃ d, readValue d [kind] value ≠ .ok d := by
  by_contra hall
  have hsame : ∀ d, readValue d [kind] value = .ok d := fun d => not_not.1 (not_exists.1 hall d)
  have hempty := hsame Description.empty
  simp only [printedKinds, List.mem_cons, List.not_mem_nil, or_false] at h
  rcases h with rfl | rfl | rfl | rfl | rfl | rfl | rfl
  · have hversion := part_eq_of_map Description.version (fun _ => rfl) hempty
      (hsame { Description.empty with version := 1 })
    exact absurd hversion (by decide)
  · have horigin := part_eq_of_map Description.origin (fun _ => rfl) hempty
      (hsame { Description.empty with origin := { Origin.unnamed with username := "" } })
    exact absurd horigin (by decide)
  · have hname := congrArg Description.sessionName (Except.ok.inj hempty)
    have hname' := congrArg Description.sessionName
      (Except.ok.inj (hsame { Description.empty with sessionName := "" }))
    exact absurd (hname.symm.trans hname') (by decide)
  · obtain ⟨c, -, hconnection⟩ := ok_of_map hempty
    cases congrArg Description.connection hconnection
  · have htiming := part_eq_of_map Description.timing (fun _ => rfl) hempty
      (hsame { Description.empty with timing := (1, 0) })
    exact absurd htiming (by decide)
  · obtain ⟨m, -, hmedia⟩ := ok_of_map hempty
    cases congrArg Description.media hmedia
  · cases congrArg Description.attributes (Except.ok.inj hempty)

/-- The rows that are passed over are those that change no description. -/
theorem readLine_eq_self_iff (raw : List Char) :
    (∀ d, readLine d raw = .ok d) ↔ IsPassedOver raw := by
  refine ⟨fun hsame => ?_, fun h => h.readLine⟩
  by_contra hread
  obtain ⟨hne, hletter⟩ := not_or.1 hread
  rcases Text.cut?_eq '=' (Text.trim raw) with ⟨-, hcut⟩ | ⟨value, htrim, hcut⟩
  · have hempty := hsame Description.empty
    simp only [readLine, List.isEmpty_eq_false_iff.2 hne, Bool.false_eq_true, if_false, hcut]
      at hempty
    cases hempty
  · have hequals : '=' ∈ Text.trim raw := by
      rw [htrim]
      exact List.mem_append_right _ List.mem_cons_self
    obtain ⟨kind, hkind, hbefore⟩ : ∃ kind ∈ printedKinds,
        Text.before '=' (Text.trim raw) = [kind] := by
      by_contra hnone
      exact hletter ⟨hequals, fun kind hkind heq => hnone ⟨kind, hkind, heq⟩⟩
    obtain ⟨d, hd⟩ := exists_readValue_ne hkind value
    have hline := hsame d
    simp only [readLine, List.isEmpty_eq_false_iff.2 hne, Bool.false_eq_true, if_false, hcut,
      hbefore] at hline
    exact hd hline

/-! ## Layouts -/

/-- Blanks that stay within a row. -/
def IsPad (cs : List Char) : Prop := ∀ c ∈ cs, isBlank c = true ∧ c ≠ '\n'

instance (cs : List Char) : Decidable (IsPad cs) :=
  decidable_of_iff (cs.all (fun c => isBlank c && c ≠ '\n') = true) (by simp [IsPad])

/-- A row of a text: a line with blanks around it, or something that is passed over. -/
inductive Row where
  | carrying (front line back : List Char) (hfront : IsPad front) (hline : '\n' ∉ line)
      (hback : IsPad back)
  | extra (raw : List Char) (hraw : '\n' ∉ raw) (hpassed : IsPassedOver raw)

/-- How a row is ended. -/
inductive LineEnd where
  | feed
  | returnFeed

/-- The rows of a text that are ended, each in its own way, and a last one that is not, if there is
one. -/
structure Layout where
  ended : List (Row × LineEnd)
  unended : Option Row

/-- The characters of a row. -/
def Row.raw : Row → List Char
  | carrying front line back _ _ _ => front ++ line ++ back
  | extra raw _ _ => raw

/-- The line that a row carries. -/
def Row.line? : Row → Option (List Char)
  | carrying _ line _ _ _ _ => some line
  | extra _ _ _ => none

/-- The lines that rows carry. -/
def linesOf (rows : List Row) : List (List Char) := rows.filterMap Row.line?

/-- A row, counted from 1 among all rows, carries a line, counted from 1 among all lines. -/
def Carries (rows : List Row) (row line : Nat) : Prop :=
  ∃ before r after, rows = before ++ r :: after ∧ r.line?.isSome = true ∧
    row = before.length + 1 ∧ line = (linesOf before).length + 1

/-- What stands between a row and the line feed that ends it. -/
def LineEnd.carriage : LineEnd → List Char
  | feed => []
  | returnFeed => ['\r']

namespace Layout

/-- All rows of a layout. -/
def rows (x : Layout) : List Row := x.ended.map (·.1) ++ x.unended.toList

/-- The text that is laid out. -/
def text (x : Layout) : String :=
  String.ofList (x.ended.flatMap (fun (row, lineEnd) => row.raw ++ lineEnd.carriage ++ ['\n']) ++
    x.unended.toList.flatMap Row.raw)

/-- The lines alone, joined by line feeds. -/
def plain (x : Layout) : String := String.ofList (Text.join '\n' (linesOf x.rows))

end Layout

theorem IsPad.blank {cs : List Char} (h : IsPad cs) : ∀ c ∈ cs, isBlank c = true :=
  fun c hc => (h c hc).1

theorem IsPad.noFeed {cs : List Char} (h : IsPad cs) : '\n' ∉ cs := fun hm => (h _ hm).2 rfl

namespace Row

theorem noFeed (r : Row) : '\n' ∉ r.raw := by
  cases r with
  | carrying front line back hfront hline hback =>
    simp only [raw, List.mem_append, not_or]
    exact ⟨⟨hfront.noFeed, hline⟩, hback.noFeed⟩
  | extra raw hraw hpassed => exact hraw

theorem noFeed_line {r : Row} {line : List Char} (h : r.line? = some line) : '\n' ∉ line := by
  cases r with
  | carrying front line' back hfront hline hback =>
    obtain rfl := Option.some.inj h
    exact hline
  | extra raw hraw hpassed => cases h

end Row

/-- A row ahead of all others moves the row on, and the line if it carries one itself. -/
theorem Carries.cons {rows : List Row} {row line : Nat} (h : Carries rows row line) (r : Row) :
    Carries (r :: rows) (row + 1) (line + (linesOf [r]).length) := by
  obtain ⟨before, r', after, rfl, hsome, rfl, rfl⟩ := h
  refine ⟨r :: before, r', after, rfl, hsome, rfl, ?_⟩
  have hlines : linesOf (r :: before) = linesOf [r] ++ linesOf before := by
    rw [linesOf, ← List.singleton_append, List.filterMap_append]
    rfl
  rw [hlines, List.length_append]
  omega

theorem LineEnd.blank_carriage (e : LineEnd) : ∀ c ∈ e.carriage, isBlank c = true := by
  cases e <;> exact List.all_eq_true.1 (by decide)

/-! ## Reading rows -/

/-- Only what is left of a line when it is trimmed matters. -/
theorem readLine_congr {xs ys : List Char} (h : Text.trim xs = Text.trim ys) (d : Description) :
    readLine d xs = readLine d ys := by
  rw [readLine, readLine, h]

theorem readLines_map_congr {α : Type} {f g : α → List Char} {xs : List α}
    (h : ∀ x ∈ xs, Text.trim (f x) = Text.trim (g x)) (n : Nat) (d : Description) :
    readLines n d (xs.map f) = readLines n d (xs.map g) := by
  induction xs generalizing n d with
  | nil => rfl
  | cons x xs ih =>
    rw [List.map_cons, List.map_cons, readLines, readLines,
      readLine_congr (h x List.mem_cons_self) d]
    split
    · exact ih (fun y hy => h y (List.mem_cons_of_mem _ hy)) _ _
    · rfl

/-- Reading rows is reading the lines that they carry; where a line is faulty, the row is told that
carries it. -/
theorem readLines_rows (rows : List Row) (m n : Nat) (d : Description) :
    (∀ d', readLines (n + 1) d (linesOf rows) = .ok d' →
      readLines (m + 1) d (rows.map Row.raw) = .ok d') ∧
    ∀ k f, readLines (n + 1) d (linesOf rows) = .error (k, f) →
      ∃ i j, Carries rows i j ∧ k = n + j ∧
        readLines (m + 1) d (rows.map Row.raw) = .error (m + i, f) := by
  induction rows generalizing m n d with
  | nil =>
    refine ⟨fun d' h => h, fun k f h => ?_⟩
    cases h
  | cons row rows ih =>
    cases row with
    | extra raw hraw hpassed =>
      obtain ⟨hok, herror⟩ := ih (m + 1) n d
      rw [List.map_cons, readLines, Row.raw, hpassed.readLine]
      refine ⟨hok, fun k f h => ?_⟩
      obtain ⟨i, j, hcarries, hk, hread⟩ := herror k f h
      refine ⟨i + 1, j, hcarries.cons _, hk, ?_⟩
      rw [← Nat.add_comm 1 i, ← Nat.add_assoc]
      exact hread
    | carrying front line back hfront hline hback =>
      have htrim : Text.trim (front ++ line ++ back) = Text.trim line := by
        rw [Text.trim_append_blanks _ hback.blank, Text.trim_blanks_append hfront.blank]
      have hlines : linesOf (.carrying front line back hfront hline hback :: rows) =
          line :: linesOf rows := rfl
      rw [hlines, List.map_cons, readLines, readLines, Row.raw, readLine_congr htrim]
      cases hread : readLine d line with
      | error f =>
        constructor
        · intro d' h
          cases h
        · intro k f' h
          obtain ⟨rfl, rfl⟩ := Prod.mk.inj (Except.error.inj h)
          exact ⟨1, 1, ⟨[], _, rows, rfl, rfl, rfl, rfl⟩, rfl, rfl⟩
      | ok d₁ =>
        obtain ⟨hok, herror⟩ := ih (m + 1) (n + 1) d₁
        refine ⟨hok, fun k f h => ?_⟩
        obtain ⟨i, j, hcarries, hk, hread⟩ := herror k f h
        refine ⟨i + 1, j + 1, hcarries.cons _, ?_, ?_⟩
        · rw [hk, Nat.add_assoc, Nat.add_comm 1]
        · rw [← Nat.add_comm 1 i, ← Nat.add_assoc]
          exact hread

/-! ## Reading texts -/

/-- Texts are refused with the message of the first faulty line. -/
theorem parse_eq_error_iff {text : String} {e : Fault} :
    Description.parse text = .error e ↔
      ∃ n f, Description.ofLines (Text.lines text.toList) = .error (n, f) ∧
        e = .sdpParse n f.message := by
  unfold Description.parse
  cases Description.ofLines (Text.lines text.toList) with
  | ok d => simp
  | error p =>
    constructor
    · intro h
      exact ⟨p.1, p.2, rfl, (Except.error.inj h).symm⟩
    · rintro ⟨n, f, h, rfl⟩
      rw [Except.error.inj h]

/-- Lines that are joined are read as they are; without lines there is a blank one. -/
theorem ofLines_join {ls : List (List Char)} (h : ∀ l ∈ ls, '\n' ∉ l) :
    Description.ofLines (Text.lines (Text.join '\n' ls)) = Description.ofLines ls := by
  cases ls with
  | nil => exact readLines_concat_blank 1 Description.empty []
  | cons l ls => rw [Text.lines, Text.pieces_join (List.cons_ne_nil l ls) h]

theorem lines_ended (xs : List (Row × LineEnd)) (rest : List Char) :
    Text.lines (xs.flatMap (fun (row, lineEnd) => row.raw ++ lineEnd.carriage ++ ['\n']) ++ rest) =
      xs.map (fun (row, lineEnd) => row.raw ++ lineEnd.carriage) ++ Text.lines rest := by
  induction xs with
  | nil => rfl
  | cons x xs ih =>
    obtain ⟨row, lineEnd⟩ := x
    have hfeed : '\n' ∉ row.raw ++ lineEnd.carriage := by
      rw [List.mem_append, not_or]
      exact ⟨row.noFeed, by cases lineEnd <;> decide⟩
    rw [Text.lines] at ih ⊢
    rw [List.flatMap_cons, List.append_assoc, List.append_assoc _ ['\n'], List.singleton_append,
      Text.pieces_append hfeed, ih]
    rfl

/-- A text that is laid out is read row by row. -/
theorem ofLines_text (x : Layout) :
    Description.ofLines (Text.lines x.text.toList) =
      Description.ofLines (x.rows.map Row.raw) := by
  have hended : ∀ n d, readLines n d
      (x.ended.map fun (row, lineEnd) => row.raw ++ lineEnd.carriage) =
        readLines n d (x.ended.map fun p => p.1.raw) :=
    readLines_map_congr fun p _ => Text.trim_append_blanks _ p.2.blank_carriage
  rw [Layout.text, String.toList_ofList, lines_ended, Description.ofLines, Description.ofLines,
    Layout.rows, List.map_append, List.map_map]
  cases x.unended with
  | none =>
    show readLines 1 _ (_ ++ [[]]) = readLines 1 _ (_ ++ [])
    rw [readLines_concat_blank, hended, List.append_nil]
    rfl
  | some r =>
    have hlast : Text.lines ((some r).toList.flatMap Row.raw) = (some r).toList.map Row.raw := by
      show Text.lines (r.raw ++ []) = [r.raw]
      rw [List.append_nil, Text.lines, Text.pieces_of_not_mem r.noFeed]
    rw [hlast, readLines_append, readLines_append, hended, List.length_map, List.length_map]
    rfl

/-- A layout is read like its lines alone, and refused for the same reason at the row that carries
the faulty line. -/
theorem parse_text (x : Layout) :
    (∀ d, Description.parse x.plain = .ok d → Description.parse x.text = .ok d) ∧
    ∀ n reason, Description.parse x.plain = .error (.sdpParse n reason) →
      ∃ row, Carries x.rows row n ∧ Description.parse x.text = .error (.sdpParse row reason) := by
  have hplain : Description.ofLines (Text.lines x.plain.toList) =
      Description.ofLines (linesOf x.rows) := by
    rw [Layout.plain, String.toList_ofList, ofLines_join]
    intro l hl
    obtain ⟨r, -, hr⟩ := List.mem_filterMap.1 hl
    exact r.noFeed_line hr
  obtain ⟨hok, herror⟩ := readLines_rows x.rows 0 0 Description.empty
  constructor
  · intro d hd
    rw [parse_eq_ok_iff, hplain] at hd
    rw [parse_eq_ok_iff, ofLines_text]
    exact hok d hd
  · intro n reason hn
    obtain ⟨k, f, hk, heq⟩ := parse_eq_error_iff.1 hn
    obtain ⟨rfl, rfl⟩ := Fault.sdpParse.inj heq
    rw [hplain] at hk
    obtain ⟨row, line, hcarries, rfl, hread⟩ := herror n f hk
    simp only [Nat.zero_add] at hread ⊢
    refine ⟨row, hcarries, parse_eq_error_iff.2 ⟨row, f, ?_, rfl⟩⟩
    rw [ofLines_text]
    exact hread

/-! ## The first faulty line -/

/-- The first lines of a text. -/
def firstLines (n : Nat) (text : String) : String :=
  String.ofList (Text.join '\n' ((Text.lines text.toList).take n))

/-- The first lines of a text are refused with a fault, whatever stands behind them, and no fewer
are refused. -/
structure FailsAt (text : String) (n : Nat) (e : Fault) : Prop where
  pos : 0 < n
  le : n ≤ (Text.lines text.toList).length
  ahead : ∀ k < n, ∃ d, Description.parse (firstLines k text) = .ok d
  upTo : Description.parse (firstLines n text) = .error e
  behind : ∀ other, firstLines n other = firstLines n text → Description.parse other = .error e

theorem take_lines_noFeed (n : Nat) (cs : List Char) :
    ∀ l ∈ (Text.lines cs).take n, '\n' ∉ l :=
  fun _ hl => Text.not_mem_of_mem_pieces (List.mem_of_mem_take hl)

theorem ofLines_firstLines (n : Nat) (text : String) :
    Description.ofLines (Text.lines (firstLines n text).toList) =
      Description.ofLines ((Text.lines text.toList).take n) := by
  rw [firstLines, String.toList_ofList, ofLines_join (take_lines_noFeed n _)]

/-- The first lines of a text, at least one, are found again in their text. -/
theorem lines_firstLines {n : Nat} (hn : 0 < n) (text : String) :
    Text.lines (firstLines n text).toList = (Text.lines text.toList).take n := by
  have hne : (Text.lines text.toList).take n ≠ [] := by
    rw [ne_eq, List.take_eq_nil_iff, not_or]
    exact ⟨hn.ne', Text.pieces_ne_nil _ _⟩
  rw [firstLines, String.toList_ofList, Text.lines, Text.pieces_join hne (take_lines_noFeed n _)]

/-- Where reading fails, everything ahead of the faulty line is read. -/
theorem readLines_error {ls : List (List Char)} {n k : Nat} {d : Description} {f : LineFault}
    (h : readLines n d ls = .error (k, f)) :
    ∃ before l after d', ls = before ++ l :: after ∧ k = n + before.length ∧
      readLines n d before = .ok d' ∧ readLine d' l = .error f := by
  induction ls generalizing n d with
  | nil => cases h
  | cons l ls ih =>
    rw [readLines] at h
    split at h
    · next d₁ hline =>
      obtain ⟨before, x, after, d', rfl, rfl, hbefore, hx⟩ := ih h
      refine ⟨l :: before, x, after, d', rfl, ?_, ?_, hx⟩
      · rw [List.length_cons, Nat.add_assoc, Nat.add_comm 1]
      · rw [readLines, hline]
        exact hbefore
    · next f' hline =>
      obtain ⟨rfl, rfl⟩ := Prod.mk.inj (Except.error.inj h)
      exact ⟨[], l, ls, d, rfl, rfl, rfl, hline⟩

theorem readLines_take_ok {ls : List (List Char)} {n : Nat} {d d' : Description}
    (h : readLines n d ls = .ok d') (k : Nat) : ∃ d₁, readLines n d (ls.take k) = .ok d₁ := by
  rw [← List.take_append_drop k ls, readLines_append] at h
  cases htake : readLines n d (ls.take k) with
  | ok d₁ => exact ⟨d₁, rfl⟩
  | error e =>
    rw [htake] at h
    cases h

/-- The fault of a text names its first lines that are refused. -/
theorem failsAt_of_parse {text : String} {e : Fault} (h : Description.parse text = .error e) :
    ∃ n reason, e = .sdpParse n reason ∧ FailsAt text n e := by
  obtain ⟨n, f, hn, rfl⟩ := parse_eq_error_iff.1 h
  obtain ⟨before, l, after, d, hlines, hlength, hbefore, hl⟩ := readLines_error hn
  have hpos : 0 < n := by omega
  have htake : (Text.lines text.toList).take n = before ++ [l] := by
    rw [hlines, hlength, Nat.add_comm, List.take_length_add_append]
    rfl
  have hfails (rest : List (List Char)) :
      Description.ofLines (before ++ [l] ++ rest) = .error (n, f) := by
    rw [Description.ofLines, List.append_assoc, readLines_append, hbefore, hlength]
    show readLines _ d (l :: rest) = _
    rw [readLines, hl]
  have hbehind : ∀ other, firstLines n other = firstLines n text →
      Description.parse other = .error (.sdpParse n f.message) := by
    intro other hsame
    have hfirst : (Text.lines other.toList).take n = before ++ [l] := by
      rw [← lines_firstLines hpos, hsame, lines_firstLines hpos, htake]
    refine parse_eq_error_iff.2 ⟨n, f, ?_, rfl⟩
    rw [← List.take_append_drop n (Text.lines other.toList), hfirst]
    exact hfails _
  refine ⟨n, f.message, rfl, hpos, ?_, fun k hk => ?_, hbehind _ ?_, hbehind⟩
  · rw [hlines, List.length_append, List.length_cons]
    omega
  · obtain ⟨d₁, hd₁⟩ := readLines_take_ok hbefore k
    refine ⟨d₁, parse_eq_ok_iff.2 ?_⟩
    rw [ofLines_firstLines, hlines, List.take_append_of_le_length (by omega)]
    exact hd₁
  · rw [firstLines, lines_firstLines hpos, List.take_take, Nat.min_self]
    rfl

/-- **Main theorem**: however lines are laid out, with blanks around them, line feeds or carriage
returns and line feeds between them, a last row that is ended or not, and rows in between that are
passed over, they are read as if they stood alone, joined by line feeds. They are refused for the
same reason, at the row that carries the faulty line.

Whatever text is refused, the first line is named up to which it cannot be read, and what stands
behind it does not matter. -/
theorem free_layout :
    (∀ x : Layout,
      (∀ d, Description.parse x.plain = .ok d → Description.parse x.text = .ok d) ∧
      ∀ n reason, Description.parse x.plain = .error (.sdpParse n reason) →
        ∃ row, Carries x.rows row n ∧ Description.parse x.text = .error (.sdpParse row reason)) ∧
    ∀ (text : String) (e : Fault), Description.parse text = .error e →
      ∃ n reason, e = .sdpParse n reason ∧ FailsAt text n e :=
  ⟨parse_text, fun _ _ => failsAt_of_parse⟩

/-- Two lines, of which the second one is faulty, with rows that are passed over. -/
def paddedLayout : Layout where
  ended :=
    [(.extra "  ".toList (by decide) (by decide), .returnFeed),
      (.carrying "\t".toList "s=a call".toList " ".toList (by decide) (by decide) (by decide),
        .feed),
      (.extra " b=AS:64".toList (by decide) (by decide), .returnFeed),
      (.extra "x = y".toList (by decide) (by decide), .feed)]
  unended := some (.carrying [] "t=0".toList "\r".toList (by decide) (by decide) (by decide))

theorem free_layout_paddedLayout :
    Description.parse paddedLayout.plain = .error (.sdpParse 2 "invalid timing") ∧
      (∃ row, Carries paddedLayout.rows row 2 ∧
        Description.parse paddedLayout.text = .error (.sdpParse row "invalid timing")) ∧
      ∃ n reason, Fault.sdpParse 2 "invalid timing" = .sdpParse n reason ∧
        FailsAt paddedLayout.plain n (.sdpParse 2 "invalid timing") := by
  have hplain : Description.parse paddedLayout.plain = .error (.sdpParse 2 "invalid timing") := by
    rfl
  exact ⟨hplain, (free_layout.1 paddedLayout).2 2 "invalid timing" hplain,
    free_layout.2 paddedLayout.plain _ hplain⟩

/-- The faulty line stands in the last one of five rows. -/
example : Description.parse paddedLayout.text = .error (.sdpParse 5 "invalid timing") := by rfl

end CallBridge.Sdp
