import CallBridge.Text.Split
import CallBridge.Toml.Token
import CallBridge.Toml.Value

/-!
# Numbers in TOML

A number is a word, and with a point or a signed exponent the words after it as well. Between two
digits there may be an underscore. Whole numbers are decimal with an optional sign and without
leading zeros, or hexadecimal, octal or binary after a mark and without a sign; they fit into
64 bits with a sign.
-/

namespace CallBridge.Toml

/-! ## Runs of digits -/

/-- Whether a character is a digit in a base of at most sixteen. -/
def isDigitIn (base : Nat) (c : Char) : Bool := (hexValue? c).any (· < base)

/-- The digits at the start of a text without the underscores between them, and what is left. With
`zeros` they may start with a zero that more digits follow. -/
def run? (base : Nat) (zeros : Bool) (cs : List Char) : Option (List Char × List Char) :=
  let inRun := fun c => c = '_' || isDigitIn base c
  let groups := Text.pieces '_' (cs.takeWhile inRun)
  let digits := groups.flatten
  if groups.contains [] then none
  else if !zeros && digits.head? = some '0' && 1 < digits.length then none
  else some (digits, cs.dropWhile inRun)

/-- The value of digits in a base. -/
def valueOf (base : Nat) (digits : List Char) : Nat :=
  digits.foldl (fun n c => n * base + (hexValue? c).getD 0) 0

/-- Whether a text starts with a minus sign, and the text after it. -/
def splitMinus (cs : List Char) : Bool × List Char :=
  if cs.head? = some '-' then (true, cs.drop 1) else (false, cs)

/-! ## Whole numbers -/

/-- The number that a text of digits in a base stands for. Only decimal numbers have a sign and no
leading zeros. -/
def whole? (base : Nat) (cs : List Char) : Option Value := do
  let (negative, cs) := if base = 10 then splitMinus cs else (false, cs)
  let (digits, rest) ← run? base (base ≠ 10) cs
  if rest = [] then (Settings.signed? negative (valueOf base digits)).map .integer else none

/-! ## Numbers with places or an exponent -/

/-- Whether a character stands before an exponent. -/
def isExponentMark (c : Char) : Bool := c = 'e' || c = 'E'

/-- The exponent at the end of a number: what follows the digits in their word, and the tokens
after it. -/
def exponent? (suffix : List Char) (ts : List Token) : Option (Int × List Token) :=
  match suffix with
  | [] => some (0, ts)
  | [c] =>
    if isExponentMark c then
      match (if ts.head? = some .plus then ts.drop 1 else ts) with
      | .word cs :: ts => do
        let (digits, rest) ← run? 10 true cs
        if rest = [] then some (valueOf 10 digits, ts) else none
      | _ => none
    else none
  | c :: cs =>
    if isExponentMark c then do
      let (negative, cs) := splitMinus cs
      let (digits, rest) ← run? 10 true cs
      let n := valueOf 10 digits
      if rest = [] then some (if negative then -(n : Int) else n, ts) else none
    else none

/-- The number of a word and of the word after a point, if there was one, and the tokens that are
left. It has to be finite. -/
def real? (cs : List Char) (places : Option (List Char)) (ts : List Token) :
    Option (Value × List Token) := do
  let (negative, cs) := splitMinus cs
  let (whole, suffix) ← run? 10 false cs
  let (fraction, suffix) ← match places with
    | none => some ([], suffix)
    | some ps => if suffix = [] then run? 10 true ps else none
  let (e, ts) ← exponent? suffix ts
  let x := Text.Floating.nearest (valueOf 10 (whole ++ fraction)) (e - fraction.length)
  if x.isFinite then some (.real (Text.Floating.signed negative x), ts) else none

/-! ## Any number -/

/-- The words for infinity and for what is no number. -/
def realWord? (cs : List Char) : Option Float :=
  let (negative, cs) := splitMinus cs
  if cs = ['i', 'n', 'f'] then some (Text.Floating.signed negative Text.Floating.infinity)
  else if cs = ['n', 'a', 'n'] then some (Text.Floating.signed negative Text.Floating.notANumber)
  else none

/-- The number that starts with a word, and the tokens that are left. -/
def number? (cs : List Char) (ts : List Token) : Option (Value × List Token) :=
  match cs with
  | '0' :: 'x' :: cs => (whole? 16 cs).map fun n => (n, ts)
  | '0' :: 'o' :: cs => (whole? 8 cs).map fun n => (n, ts)
  | '0' :: 'b' :: cs => (whole? 2 cs).map fun n => (n, ts)
  | cs =>
    if cs.any isExponentMark then real? cs none ts
    else
      match ts with
      | .dot :: .word ps :: ts => real? cs (some ps) ts
      | .dot :: _ => none
      | ts =>
        match realWord? cs with
        | some x => some (.real x, ts)
        | none => (whole? 10 cs).map fun n => (n, ts)

end CallBridge.Toml
