/-!
# Quoted text in TOML

How a text is written: between double quotes where nothing in it needs an escape, else between
single quotes, else in the multi-line form of either, and with escapes where no form takes it as it
is.

Results:
* `quoteChars_plain`: a text without quotes, backslashes and control characters is only put in
  quotes.
-/

namespace CallBridge.Toml

/-- The character of a single quote. -/
def apostrophe : Char := Char.ofNat 39

/-- What the choice of a form depends on: whether there are control characters, backslashes and
line feeds, and the longest runs of quotes. -/
structure Contents where
  controls : Bool
  backslash : Bool
  lineFeed : Bool
  singleRun : Nat
  doubleRun : Nat
deriving DecidableEq, Repr

/-- Whether a character cannot stand for itself in any form. -/
def isControl (c : Char) : Bool :=
  (c.toNat < 0x20 && c ≠ '\t' && c ≠ '\n') || c.toNat = 0x7F

/-- The longest run of a character, after a run of `current` was seen and `best` was the longest. -/
def longestRun (x : Char) (current best : Nat) : List Char → Nat
  | [] => max current best
  | c :: cs => if c = x then longestRun x (current + 1) best cs
    else longestRun x 0 (max current best) cs

/-- What is in a text. -/
def Contents.ofChars (cs : List Char) : Contents :=
  ⟨cs.any isControl, cs.contains '\\', cs.contains '\n', longestRun apostrophe 0 0 cs,
    longestRun '"' 0 0 cs⟩

/-- The hexadecimal digit of a number below sixteen, in upper case. -/
def upperHex (n : Nat) : Char := Char.ofNat (if n < 10 then 48 + n else 55 + n)

/-- A text with escapes, where up to `freeQuotes` double quotes in a row stand for themselves and
`quotes` of them stand right before it. -/
def escape (multiLine : Bool) (freeQuotes quotes : Nat) : List Char → List Char
  | [] => []
  | c :: cs =>
    if c = '"' then
      if freeQuotes < quotes + 1 then '\\' :: '"' :: escape multiLine freeQuotes 0 cs
      else '"' :: escape multiLine freeQuotes (quotes + 1) cs
    else
      let more := escape multiLine freeQuotes 0 cs
      if c = '\x08' then '\\' :: 'b' :: more
      else if c = '\t' then '\\' :: 't' :: more
      else if c = '\n' then (if multiLine then '\n' :: more else '\\' :: 'n' :: more)
      else if c = '\x0c' then '\\' :: 'f' :: more
      else if c = '\r' then '\\' :: 'r' :: more
      else if c = '\\' then '\\' :: '\\' :: more
      else if c.toNat < 0x20 ∨ c.toNat = 0x7F then
        '\\' :: 'u' :: '0' :: '0' :: upperHex (c.toNat / 16) :: upperHex (c.toNat % 16) :: more
      else c :: more

/-- A text between two copies of its quotes. In the multi-line forms a text of several lines starts
on a line of its own. -/
def between (mark : Char) (multiLine : Bool) (cs : List Char) : List Char :=
  let start := if cs.contains '\n' then ['\n'] else []
  if multiLine then [mark, mark, mark] ++ start ++ cs ++ [mark, mark, mark]
  else mark :: cs ++ [mark]

/-- The written form of a text. -/
def quoteChars (cs : List Char) : List Char :=
  let k := Contents.ofChars cs
  if !k.controls && !k.backslash && k.doubleRun = 0 && !k.lineFeed then
    between '"' false (escape false 0 0 cs)
  else if !k.controls && k.singleRun = 0 && !k.lineFeed then between apostrophe false cs
  else if !k.controls && !k.backslash && k.doubleRun ≤ 2 then
    between '"' true (escape true 2 0 cs)
  else if !k.controls && k.singleRun ≤ 2 then between apostrophe true cs
  else if k.lineFeed then between '"' true (escape true 2 0 cs)
  else between '"' false (escape false 0 0 cs)

/-- The written form of a text. -/
def quote (text : String) : String := String.ofList (quoteChars text.toList)

/-- Whether a character is written as it is in every form. -/
def isPlain (c : Char) : Bool :=
  0x20 ≤ c.toNat && c.toNat ≠ 0x7F && c ≠ '"' && c ≠ '\\' && c ≠ apostrophe

theorem escape_plain {cs : List Char} (h : ∀ c ∈ cs, isPlain c = true) (m : Bool) (f q : Nat) :
    escape m f q cs = cs := by
  induction cs generalizing q with
  | nil => rfl
  | cons c cs ih =>
    have hc := h c (by simp)
    simp only [isPlain, Bool.and_eq_true, decide_eq_true_eq, ne_eq] at hc
    obtain ⟨⟨⟨⟨h1, h2⟩, h3⟩, h4⟩, -⟩ := hc
    have ne : ∀ d : Char, d.toNat < 0x20 → c ≠ d := by
      rintro d hd rfl; omega
    rw [escape, if_neg h3]
    simp only [ih (fun x hx => h x (List.mem_cons_of_mem _ hx)), ne '\x08' (by decide),
      ne '\t' (by decide), ne '\n' (by decide), ne '\x0c' (by decide), ne '\r' (by decide), h4,
      if_false]
    rw [if_neg (by omega)]

theorem longestRun_of_not_mem {x : Char} {cs : List Char} (h : x ∉ cs) (best : Nat) :
    longestRun x 0 best cs = best := by
  induction cs with
  | nil => simp [longestRun]
  | cons c cs ih =>
    have hc : c ≠ x := fun e => h (e ▸ List.mem_cons_self)
    rw [longestRun, if_neg hc, Nat.zero_max]
    exact ih fun hx => h (List.mem_cons_of_mem _ hx)

theorem quoteChars_plain {cs : List Char} (h : ∀ c ∈ cs, isPlain c = true) :
    quoteChars cs = '"' :: cs ++ ['"'] := by
  have absent : ∀ d : Char, isPlain d = false → d ∉ cs := by
    intro d hd hm
    simp [h d hm] at hd
  have controls : cs.any isControl = false := by
    rw [List.any_eq_false]
    intro c hc
    have hp := h c hc
    simp only [isPlain, Bool.and_eq_true, decide_eq_true_eq, ne_eq] at hp
    obtain ⟨⟨⟨⟨h1, h2⟩, -⟩, -⟩, -⟩ := hp
    simp [isControl, h2, Nat.not_lt.2 h1]
  have backslash : '\\' ∉ cs := absent '\\' (by decide)
  have lineFeed : '\n' ∉ cs := absent '\n' (by decide)
  have doubleRun : longestRun '"' 0 0 cs = 0 := longestRun_of_not_mem (absent '"' (by decide)) 0
  simp [quoteChars, Contents.ofChars, controls, backslash, lineFeed, doubleRun, between,
    escape_plain h]

end CallBridge.Toml
