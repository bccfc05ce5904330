import CallBridge.Toml.Quoted

/-!
# Tokens of TOML

A document is a sequence of tokens: blanks, line ends, comments, punctuation, words and quoted
texts. A word is a run of letters, digits, dashes and underscores, so that a number with a sign or
a point is several tokens.

Results:
* `foldLineEnds_of_not_mem`: without carriage returns the line ends stay as they are.
-/

namespace CallBridge.Toml

/-- A token. Of a quoted text it is known whether it was written in the multi-line form. -/
inductive Token where
  | blank (text : List Char)
  | lineEnd
  | comment
  | equals
  | dot
  | comma
  | colon
  | plus
  | leftBrace
  | rightBrace
  | leftBracket
  | rightBracket
  | word (text : List Char)
  | quoted (text : List Char) (long : Bool)
deriving DecidableEq, Repr

/-- The characters with every line end a line feed alone. -/
def foldLineEnds : List Char → List Char
  | [] => []
  | c :: cs =>
    if c = '\r' ∧ cs.head? = some '\n' then foldLineEnds cs else c :: foldLineEnds cs

/-! ## Classes of characters -/

/-- Whether a character is a blank within a line. -/
def isBlank (c : Char) : Bool := c = ' ' || c = '\t'

/-- Whether a character may stand in a word. -/
def isWordChar (c : Char) : Bool :=
  ('a' ≤ c && c ≤ 'z') || ('A' ≤ c && c ≤ 'Z') || ('0' ≤ c && c ≤ '9') || c = '-' || c = '_'

/-- Whether a character may stand in a comment. -/
def isCommentChar (c : Char) : Bool := 0x20 ≤ c.toNat || c = '\t'

/-- Whether a character may stand for itself in a quoted text. -/
def isTextChar (c : Char) : Bool := (0x20 ≤ c.toNat || c = '\t') && c.toNat ≠ 0x7F

/-! ## Quoted texts -/

/-- The value of a hexadecimal digit. -/
def hexValue? (c : Char) : Option Nat :=
  if '0' ≤ c ∧ c ≤ '9' then some (c.toNat - 48)
  else if 'a' ≤ c ∧ c ≤ 'f' then some (c.toNat - 87)
  else if 'A' ≤ c ∧ c ≤ 'F' then some (c.toNat - 55)
  else none

/-- The character with a code of some hexadecimal digits, and what is left. -/
def codePoint (digits : Nat) (cs : List Char) : Option (List Char × List Char) := do
  let ds := cs.take digits
  if ds.length < digits then none
  let n ← ds.foldlM (fun n c => (hexValue? c).map (n * 16 + ·)) 0
  if n.isValidChar then some ([Char.ofNat n], cs.drop digits) else none

/-- What an escape stands for, and what is left after it. In the multi-line form a backslash at the
end of a line stands for nothing and takes all blanks and line ends after it. -/
def escaped (long : Bool) (cs : List Char) : Option (List Char × List Char) :=
  match cs with
  | 'b' :: cs => some (['\x08'], cs)
  | 't' :: cs => some (['\t'], cs)
  | 'n' :: cs => some (['\n'], cs)
  | 'f' :: cs => some (['\x0c'], cs)
  | 'r' :: cs => some (['\r'], cs)
  | '"' :: cs => some (['"'], cs)
  | '\\' :: cs => some (['\\'], cs)
  | 'u' :: cs => codePoint 4 cs
  | 'U' :: cs => codePoint 8 cs
  | cs =>
    match long, cs.dropWhile isBlank with
    | true, '\n' :: rest => some ([], rest.dropWhile fun c => isBlank c || c = '\n')
    | _, _ => none

/-- The rest of a quoted text on one line up to its closing mark, and what is left. -/
def shortBody (mark : Char) : Nat → List Char → Option (List Char × List Char)
  | fuel + 1, c :: cs =>
    if c = mark then some ([], cs)
    else if mark = '"' ∧ c = '\\' then do
      let (text, cs) ← escaped false cs
      let (more, rest) ← shortBody mark fuel cs
      some (text ++ more, rest)
    else if isTextChar c then do
      let (more, rest) ← shortBody mark fuel cs
      some (c :: more, rest)
    else none
  | _, _ => none

/-- The rest of a quoted text in the multi-line form up to its three closing marks, and what is
left. Up to two more marks right before the closing ones belong to the text. -/
def longBody (mark : Char) : Nat → List Char → Option (List Char × List Char)
  | fuel + 1, c :: cs =>
    if c = mark ∧ cs.take 2 = [mark, mark] then
      let extra := ((cs.drop 2).take 2).takeWhile (· = mark)
      some (extra, (cs.drop 2).drop extra.length)
    else if mark = '"' ∧ c = '\\' then do
      let (text, cs) ← escaped true cs
      let (more, rest) ← longBody mark fuel cs
      some (text ++ more, rest)
    else if isTextChar c ∨ c = '\n' then do
      let (more, rest) ← longBody mark fuel cs
      some (c :: more, rest)
    else none
  | _, _ => none

/-- A quoted text after its first mark, and what is left. A line end right after three opening
marks does not belong to the text. -/
def quotedText (mark : Char) (cs : List Char) : Option (Token × List Char) :=
  match cs with
  | c :: d :: rest =>
    if c = mark ∧ d = mark then
      let body := if rest.head? = some '\n' then rest.drop 1 else rest
      (longBody mark body.length body).map fun (text, rest) => (.quoted text true, rest)
    else (shortBody mark cs.length cs).map fun (text, rest) => (.quoted text false, rest)
  | cs => (shortBody mark cs.length cs).map fun (text, rest) => (.quoted text false, rest)

/-! ## Tokens -/

/-- The token that a character makes alone. -/
def punctuation? (c : Char) : Option Token :=
  if c = '\n' then some .lineEnd
  else if c = '=' then some .equals
  else if c = '.' then some .dot
  else if c = ',' then some .comma
  else if c = ':' then some .colon
  else if c = '+' then some .plus
  else if c = '\x7b' then some .leftBrace
  else if c = '\x7d' then some .rightBrace
  else if c = '[' then some .leftBracket
  else if c = ']' then some .rightBracket
  else none

/-- The first token of a text that starts with a character, and what is left. -/
def token? (c : Char) (cs : List Char) : Option (Token × List Char) :=
  match punctuation? c with
  | some t => some (t, cs)
  | none =>
    if isBlank c then some (.blank (c :: cs.takeWhile isBlank), cs.dropWhile isBlank)
    else if c = '#' then some (.comment, cs.dropWhile isCommentChar)
    else if c = '"' ∨ c = apostrophe then quotedText c cs
    else if isWordChar c then
      some (.word (c :: cs.takeWhile isWordChar), cs.dropWhile isWordChar)
    else none

/-- The tokens of a text, at most `fuel` of them. -/
def scan : Nat → List Char → Option (List Token)
  | _, [] => some []
  | 0, _ => none
  | fuel + 1, c :: cs => do
    let (t, rest) ← token? c cs
    let more ← scan fuel rest
    some (t :: more)

/-- The tokens of a document. A mark of the byte order at its start is none. -/
def tokens? (document : String) : Option (List Token) :=
  let cs := foldLineEnds document.toList
  let cs := if cs.head? = some '\uFEFF' then cs.drop 1 else cs
  scan cs.length cs

theorem foldLineEnds_of_not_mem {cs : List Char} (h : '\r' ∉ cs) : foldLineEnds cs = cs := by
  induction cs with
  | nil => rfl
  | cons c cs ih =>
    have hc : c ≠ '\r' := fun e => h (e ▸ List.mem_cons_self)
    rw [foldLineEnds, if_neg fun p => hc p.1, ih fun m => h (List.mem_cons_of_mem _ m)]

end CallBridge.Toml
