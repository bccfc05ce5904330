import CallBridge.Text.Blank
import CallBridge.Text.Split
import CallBridge.Text.Decimal
import CallBridge.Fault
import CallBridge.Sdp.Basic

/-!
# Reading session descriptions

A text is read line by line into a description that starts out as `Description.empty`. Blanks
around a line do not count, empty lines are skipped, and so are lines of unknown kinds. Connection
and attribute lines belong to the last media line before them, or to the session before the first.
Reading stops at the first line with a fault.

Results:
* `readLine_of_blank`: a line of blanks changes nothing.
* `readLines_append`: the lines of two texts are read one after the other.
-/

namespace CallBridge.Sdp

open Text

/-- What can be wrong with a line. -/
inductive LineFault where
  | noEquals
  | version
  | originFields
  | connectionFields
  | timing
  | mediaKind
  | mediaPort
  | transport
  | payloadType (written : String)
  | formatValue
  | formatPayloadType
  | clockRate
  | packetTime
deriving DecidableEq, Repr, Inhabited

/-- The text shown for a faulty line. -/
def LineFault.message : LineFault → String
  | noEquals => "missing '='"
  | version => "invalid version"
  | originFields => "origin needs 6 fields"
  | connectionFields => "connection needs 3 fields"
  | timing => "invalid timing"
  | mediaKind => "missing media type"
  | mediaPort => "invalid media port"
  | transport => "missing transport"
  | payloadType written => "invalid payload type '" ++ written ++ "'"
  | formatValue => "format attribute without value"
  | formatPayloadType => "invalid payload type in attribute"
  | clockRate => "invalid rtpmap clock rate"
  | packetTime => "invalid ptime"

/-- A value read from a line, or what is wrong with the line. -/
abbrev Reading (α : Type) := Except LineFault α

/-! ## Numbers of the words they are kept in -/

/-- A number below 2 ^ 8. -/
def readWord8? (cs : List Char) : Option UInt8 := (Decimal.read? UInt8.size cs).map UInt8.ofNat

/-- A number below 2 ^ 16. -/
def readWord16? (cs : List Char) : Option UInt16 := (Decimal.read? UInt16.size cs).map UInt16.ofNat

/-- A number below 2 ^ 32. -/
def readWord32? (cs : List Char) : Option UInt32 := (Decimal.read? UInt32.size cs).map UInt32.ofNat

/-- A number below 2 ^ 64. -/
def readWord64? (cs : List Char) : Option UInt64 := (Decimal.read? UInt64.size cs).map UInt64.ofNat

/-- The value, or the fault where there is none. -/
def orFault {α : Type} (x : Option α) (f : LineFault) : Reading α :=
  match x with
  | some a => .ok a
  | none => .error f

/-! ## Values of the single kinds of line -/

/-- Three fields; a suffix of the address that starts at a slash is dropped. -/
def readConnection (value : List Char) : Reading Connection :=
  match fields value with
  | net :: addr :: address :: _ =>
    .ok ⟨String.ofList net, String.ofList addr, String.ofList (before '/' address)⟩
  | _ => .error .connectionFields

/-- Exactly six fields. -/
def readOrigin (value : List Char) : Reading Origin :=
  match fields value with
  | [user, id, version, net, addr, address] =>
    .ok ⟨String.ofList user, String.ofList id, String.ofList version,
      ⟨String.ofList net, String.ofList addr, String.ofList address⟩⟩
  | _ => .error .originFields

/-- Two numbers, anything after them being ignored. -/
def readTiming (value : List Char) : Reading (UInt64 × UInt64) :=
  match fields value with
  | start :: stop :: _ =>
    match readWord64? start, readWord64? stop with
    | some t, some u => .ok (t, u)
    | _, _ => .error .timing
  | _ => .error .timing

/-- The formats of the payload types in a media line, each below 128. -/
def readPayloads : List (List Char) → Reading (List Payload)
  | [] => .ok []
  | w :: ws =>
    match (readWord8? w).filter (· < 128) with
    | none => .error (.payloadType (String.ofList w))
    | some pt =>
      match readPayloads ws with
      | .ok ps => .ok (Payload.ofType pt :: ps)
      | .error f => .error f

/-- A kind, a port with an optional count after a slash, a transport and the payload types. -/
def readMedia (value : List Char) : Reading Media :=
  match fields value with
  | [] => .error .mediaKind
  | [_] => .error .mediaPort
  | kind :: port :: more =>
    match readWord16? (before '/' port) with
    | none => .error .mediaPort
    | some p =>
      match more with
      | [] => .error .transport
      | transport :: formats =>
        match readPayloads formats with
        | .error f => .error f
        | .ok payloads =>
          .ok ⟨MediaKind.ofToken (String.ofList kind), p, String.ofList transport, payloads, none,
            .sendRecv, none, []⟩

/-! ## Attributes of a media line -/

/-- The list with its first element of a kind changed. -/
def modifyFirst {α : Type} (p : α → Bool) (f : α → α) : List α → List α
  | [] => []
  | x :: xs => if p x then f x :: xs else x :: modifyFirst p f xs

/-- The media line with its first format of a payload type changed. -/
def Media.modifyPayload (m : Media) (pt : UInt8) (f : Payload → Payload) : Media :=
  { m with payloads := modifyFirst (·.payloadType = pt) f m.payloads }

/-- A payload type and the trimmed text after the space that follows it. -/
def readFormat (value : List Char) : Reading (UInt8 × List Char) :=
  match cut? ' ' value with
  | none => .error .formatValue
  | some (pt, text) =>
    match readWord8? pt with
    | none => .error .formatPayloadType
    | some pt => .ok (pt, trim text)

/-- The name, rate and channels of an encoding; a missing rate counts as zero, and channels that
are no number count as missing. -/
def readEncoding (text : List Char) : Reading (String × UInt32 × Option UInt32) :=
  match pieces '/' text with
  | name :: rate :: more =>
    match readWord32? rate with
    | none => .error .clockRate
    | some r => .ok (String.ofList name, r, more.head?.bind readWord32?)
  | name :: [] => .ok (String.ofList name, 0, none)
  | [] => .ok ("", 0, none)

/-- The name and the value of an attribute, the value empty where there is no colon. -/
def attributeParts (value : List Char) : List Char × List Char :=
  match cut? ':' value with
  | some parts => parts
  | none => (value, [])

/-- The media line after an attribute line. -/
def readAttribute (m : Media) (value : List Char) : Reading Media :=
  match Direction.ofWord? (String.ofList value) with
  | some d => .ok { m with direction := d }
  | none =>
    let (name, text) := attributeParts value
    if name = "rtpmap".toList then
      match readFormat text with
      | .error f => .error f
      | .ok (pt, encoding) =>
        match readEncoding encoding with
        | .error f => .error f
        | .ok (name, rate, params) =>
          .ok (m.modifyPayload pt fun p =>
            { p with encodingName := name, clockRate := rate, encodingParams := params })
    else if name = "fmtp".toList then
      match readFormat text with
      | .error f => .error f
      | .ok (pt, params) =>
        .ok (m.modifyPayload pt fun p => { p with formatParams := some (String.ofList params) })
    else if name = "ptime".toList then
      match readWord32? (trim text) with
      | none => .error .packetTime
      | some t => .ok { m with packetTime := some t }
    else .ok { m with attributes := m.attributes ++ [String.ofList value] }

/-! ## Lines -/

/-- The description after a line of the given kind. -/
def readValue (d : Description) (kind value : List Char) : Reading Description :=
  match kind with
  | ['v'] => (orFault (readWord32? value) .version).map fun v => { d with version := v }
  | ['o'] => (readOrigin value).map fun o => { d with origin := o }
  | ['s'] => .ok { d with sessionName := String.ofList value }
  | ['c'] =>
    (readConnection value).map fun c =>
      match d.media.getLast? with
      | some m => { d with media := d.media.dropLast ++ [{ m with connection := some c }] }
      | none => { d with connection := some c }
  | ['t'] => (readTiming value).map fun t => { d with timing := t }
  | ['m'] => (readMedia value).map fun m => { d with media := d.media ++ [m] }
  | ['a'] =>
    match d.media.getLast? with
    | some m => (readAttribute m value).map fun m => { d with media := d.media.dropLast ++ [m] }
    | none => .ok { d with attributes := d.attributes ++ [String.ofList value] }
  | _ => .ok d

/-- The description after a line. -/
def readLine (d : Description) (raw : List Char) : Reading Description :=
  let line := trim raw
  if line.isEmpty then .ok d
  else match cut? '=' line with
    | none => .error .noEquals
    | some (kind, value) => readValue d kind value

/-- The description after a list of lines of which the first has number `n`, or the number of the
first faulty line. -/
def readLines (n : Nat) (d : Description) : List (List Char) → Except (Nat × LineFault) Description
  | [] => .ok d
  | l :: ls =>
    match readLine d l with
    | .ok d' => readLines (n + 1) d' ls
    | .error f => .error (n, f)

/-- The description that a text stands for. -/
def Description.ofLines (ls : List (List Char)) : Except (Nat × LineFault) Description :=
  readLines 1 Description.empty ls

/-- The description that a text stands for, or the fault with the number of its line. -/
def Description.parse (text : String) : Outcome Description :=
  match Description.ofLines (Text.lines text.toList) with
  | .ok d => .ok d
  | .error (n, f) => .error (.sdpParse n f.message)

theorem readLine_of_blank (d : Description) {raw : List Char} (h : trim raw = []) :
    readLine d raw = .ok d := by
  simp [readLine, h]

theorem readLines_append (xs ys : List (List Char)) (n : Nat) (d : Description) :
    readLines n d (xs ++ ys) =
      match readLines n d xs with
      | .ok d' => readLines (n + xs.length) d' ys
      | .error e => .error e := by
  induction xs generalizing n d with
  | nil => simp [readLines]
  | cons x xs ih =>
    simp only [List.cons_append, readLines]
    cases readLine d x with
    | error f => rfl
    | ok d' =>
      simp only [ih, List.length_cons]
      rw [show n + 1 + xs.length = n + (xs.length + 1) by omega]

end CallBridge.Sdp
