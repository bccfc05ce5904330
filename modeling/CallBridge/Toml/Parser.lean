import CallBridge.Toml.Number

/-!
# Sections of a TOML document

A document is a sequence of sections. Each has the path of its header, except for the first one,
and the fields that its lines make up. What the values mean does not matter here, but all of them
have to be written as values, and dotted keys have to lead through open tables.
-/

namespace CallBridge.Toml

/-- A value under a path of keys. -/
abbrev Assignment := List String × Value

/-! ## Keys -/

/-- Whether a token is a blank. -/
def Token.isBlank : Token → Bool
  | .blank _ => true
  | _ => false

/-- The tokens without blanks at their start. -/
def skipBlanks (ts : List Token) : List Token := ts.dropWhile Token.isBlank

/-- A key, which is a word or a quoted text on one line. -/
def key? : List Token → Option (String × List Token)
  | .word cs :: ts => some (String.ofList cs, ts)
  | .quoted cs false :: ts => some (String.ofList cs, ts)
  | _ => none

/-- Keys with points between them, with blanks around each, and what is left. -/
def keys? : Nat → List Token → Option (List String × List Token)
  | 0, _ => none
  | fuel + 1, ts => do
    let (k, ts) ← key? (skipBlanks ts)
    match skipBlanks ts with
    | .dot :: ts => (keys? fuel ts).map fun (ks, ts) => (k :: ks, ts)
    | ts => some ([k], ts)

/-- The path of keys before an equals sign, and what is left after it. -/
def assigned? (ts : List Token) : Option (List String × List Token) := do
  let (path, ts) ← keys? ts.length ts
  match ts with
  | .equals :: ts => some (path, skipBlanks ts)
  | _ => none

/-! ## Dates and times -/

/-- Whether a word starts a date or a time. -/
def startsMoment (cs : List Char) : Bool :=
  cs.contains 'T' || cs.contains 't' ||
    ((cs.drop 1).contains '-' &&
      !((cs.zip (cs.drop 1)).any fun (c, d) => isExponentMark c && d = '-'))

/-- A word after a mark, with the mark, and what is left; nothing if the mark is not there. -/
def marked? (mark : Token) (c : Char) (ts : List Token) : Option (List Char × List Token) :=
  if ts.head? = some mark then
    match ts.drop 1 with
    | .word cs :: ts => some (c :: cs, ts)
    | _ => none
  else some ([], ts)

/-- The minutes, the seconds and the offset after the colon behind the hours, and what is left. -/
def afterHours? (ts : List Token) : Option (List Char × List Token) := do
  match ts with
  | .word minutes :: .colon :: .word seconds :: ts =>
    let (places, ts) ← marked? .dot '.' ts
    let (hours, ts) ← marked? .plus '+' ts
    let (offset, ts) ← marked? .colon ':' ts
    some (':' :: minutes ++ ':' :: seconds ++ places ++ hours ++ offset, ts)
  | _ => none

/-- The text of a date or time that starts with a word, and what is left. One space may stand
between a date and a time. -/
def momentText? (cs : List Char) (ts : List Token) : Option (List Char × List Token) :=
  match ts with
  | .colon :: ts => (afterHours? ts).map fun (text, ts) => (cs ++ text, ts)
  | .blank [' '] :: .word hours :: .colon :: ts =>
    (afterHours? ts).map fun (text, ts) => (cs ++ ' ' :: hours ++ text, ts)
  | .blank [' '] :: .word hours :: ts => some (cs ++ ' ' :: hours, ts)
  | ts => some (cs, ts)

/-! ## Values -/

/-- The value that starts with a word, and what is left. -/
def wordValue? (cs : List Char) (ts : List Token) : Option (Value × List Token) :=
  let first := cs.head?.getD ' '
  if cs = "true".toList then some (.flag true, ts)
  else if cs = "false".toList then some (.flag false, ts)
  else if isDigitIn 10 first ∨ first = '-' ∨ cs = "inf".toList ∨ cs = "nan".toList then
    if startsMoment cs ∨ ts.head? = some .colon then
      (momentText? cs ts).map fun (text, ts) => (.moment text, ts)
    else number? cs ts
  else none

/-- The tokens without blanks, line ends and comments at their start. -/
def skipLines (ts : List Token) : List Token :=
  ts.dropWhile fun t => t.isBlank || t = .lineEnd || t = .comment

mutual

/-- A value, and what is left. Each token takes at most two steps. -/
def value? : Nat → List Token → Option (Value × List Token)
  | fuel + 1, t :: ts =>
    match t with
    | .quoted cs _ => some (.text (String.ofList cs), ts)
    | .word cs => wordValue? cs ts
    | .plus =>
      match ts with
      | .word cs :: ts => number? cs ts
      | _ => none
    | .leftBracket => (elements? fuel (skipLines ts)).map fun (vs, ts) => (.list vs, ts)
    | .leftBrace =>
      match skipBlanks ts with
      | .rightBrace :: ts => some (.table false [], ts)
      | ts => do
        let (as, ts) ← assignments? fuel ts
        let fields ← Fields.ofPaths as
        some (.table false fields, ts)
    | _ => none
  | _, _ => none

/-- The elements of a list up to its closing bracket, and what is left. A comma may follow the last
one. -/
def elements? : Nat → List Token → Option (List Value × List Token)
  | _, .rightBracket :: ts => some ([], ts)
  | fuel + 1, ts => do
    let (v, ts) ← value? fuel ts
    match skipLines ts with
    | .rightBracket :: ts => some ([v], ts)
    | .comma :: ts => (elements? fuel (skipLines ts)).map fun (vs, ts) => (v :: vs, ts)
    | _ => none
  | _, _ => none

/-- The assignments of an inline table up to its closing brace, and what is left. -/
def assignments? : Nat → List Token → Option (List Assignment × List Token)
  | fuel + 1, ts => do
    let (path, ts) ← assigned? ts
    let (v, ts) ← value? fuel ts
    match skipBlanks ts with
    | .rightBrace :: ts => some ([(path, v)], ts)
    | .comma :: ts => (assignments? fuel ts).map fun (as, ts) => ((path, v) :: as, ts)
    | _ => none
  | _, _ => none

end

/-! ## Sections -/

/-- The header of a section: the path of its table, and whether each such header starts a new
element of a list. -/
structure Header where
  path : List String
  element : Bool
deriving DecidableEq, Repr

/-- A header with the fields below it. -/
structure Section where
  header : Header
  fields : Fields

/-- What is left after the end of a line, before which there may be a blank and a comment. -/
def endOfLine? (ts : List Token) : Option (List Token) :=
  let ts := skipBlanks ts
  match (if ts.head? = some .comment then ts.drop 1 else ts) with
  | [] => some []
  | .lineEnd :: ts => some ts
  | _ => none

/-- The header after its first bracket, and what is left. -/
def header? (ts : List Token) : Option (Header × List Token) := do
  let element := ts.head? = some .leftBracket
  let ts := if element then ts.drop 1 else ts
  let (path, ts) ← keys? ts.length ts
  let closing := if element then [.rightBracket, .rightBracket] else [Token.rightBracket]
  if closing.isPrefixOf ts then some (⟨path, element⟩, ts.drop closing.length) else none

/-- The lines of a section up to the next header, and the headers after it with their lines. -/
def lines? : Nat → List Token → Option (List Assignment × List (Header × List Assignment))
  | fuel + 1, ts =>
    match skipLines ts with
    | [] => some ([], [])
    | .leftBracket :: ts => do
      let (header, ts) ← header? ts
      let (as, more) ← lines? fuel (← endOfLine? ts)
      some ([], (header, as) :: more)
    | ts => do
      let (path, ts) ← assigned? ts
      let (v, ts) ← value? (2 * ts.length) ts
      let (as, more) ← lines? fuel (← endOfLine? ts)
      some ((path, v) :: as, more)
  | _, _ => none

/-- The section of a header and its lines. -/
def section? (header : Header) (as : List Assignment) : Option Section :=
  (Fields.ofPaths as).map fun fields => ⟨header, fields⟩

/-- The sections that tokens make up. The first one has no header of its own. -/
def sections? (ts : List Token) : Option (List Section) := do
  let (as, more) ← lines? (ts.length + 1) ts
  ((⟨[], false⟩, as) :: more).mapM fun (header, as) => section? header as

end CallBridge.Toml
