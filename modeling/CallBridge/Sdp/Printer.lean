import CallBridge.Text.Decimal
import CallBridge.Sdp.Basic

/-!
# Written session descriptions

The lines of a description in their fixed order: version, origin, name, connection, timing and
attributes of the session, then each media line with its connection, formats, packet time,
attributes and direction. Every line ends in a carriage return and a line feed.
-/

namespace CallBridge.Sdp

open Text.Decimal (render)

/-- The three fields of a connection. -/
def Connection.written (c : Connection) : List Char :=
  c.netType.toList ++ ' ' :: c.addrType.toList ++ ' ' :: c.address.toList

/-- The text shown for a connection. -/
def Connection.render (c : Connection) : String := String.ofList c.written

/-- The six fields of an origin. -/
def Origin.written (o : Origin) : List Char :=
  o.username.toList ++ ' ' :: o.sessionId.toList ++ ' ' :: o.sessionVersion.toList ++
    ' ' :: o.connection.written

/-- A line with its one letter kind. -/
def line (kind : Char) (value : List Char) : List Char := kind :: '=' :: value

/-- The attribute line with a text. -/
def attributeLine (text : String) : List Char := line 'a' text.toList

/-- The line of a connection, none where there is no connection. -/
def connectionLines (c : Option Connection) : List (List Char) :=
  c.toList.map fun c => line 'c' c.written

namespace Payload

/-- The name, rate and channels of a format. -/
def encodingWritten (p : Payload) : List Char :=
  p.encodingName.toList ++ '/' :: Text.Decimal.render p.clockRate.toNat ++
    match p.encodingParams with
    | none => []
    | some n => '/' :: Text.Decimal.render n.toNat

/-- The attribute lines of a format: its encoding if it has a name, and its parameters. -/
def lines (p : Payload) : List (List Char) :=
  (if p.encodingName = "" then []
   else [line 'a' ("rtpmap:".toList ++ Text.Decimal.render p.payloadType.toNat ++
     ' ' :: p.encodingWritten)]) ++
  p.formatParams.toList.map fun f =>
    line 'a' ("fmtp:".toList ++ Text.Decimal.render p.payloadType.toNat ++ ' ' :: f.toList)

end Payload

namespace Media

/-- The media line itself, with one field for each payload type. -/
def head (m : Media) : List Char :=
  line 'm' (m.kind.token.toList ++ ' ' :: Text.Decimal.render m.port.toNat ++
    ' ' :: m.transport.toList ++
    m.payloads.flatMap fun p => ' ' :: Text.Decimal.render p.payloadType.toNat)

/-- The media line and all lines that belong to it. -/
def lines (m : Media) : List (List Char) :=
  m.head :: connectionLines m.connection ++ m.payloads.flatMap Payload.lines ++
    (m.packetTime.toList.map fun t => line 'a' ("ptime:".toList ++ Text.Decimal.render t.toNat)) ++
    m.attributes.map attributeLine ++ [attributeLine m.direction.word]

end Media

namespace Description

/-- The lines of a description without their ends. -/
def lines (d : Description) : List (List Char) :=
  [line 'v' (Text.Decimal.render d.version.toNat), line 'o' d.origin.written,
    line 's' d.sessionName.toList] ++
  connectionLines d.connection ++
  [line 't' (Text.Decimal.render d.timing.1.toNat ++
    ' ' :: Text.Decimal.render d.timing.2.toNat)] ++
  d.attributes.map attributeLine ++ d.media.flatMap Media.lines

/-- The characters of a written description. -/
def written (d : Description) : List Char := d.lines.flatMap (· ++ ['\r', '\n'])

/-- The text of a description. -/
def render (d : Description) : String := String.ofList d.written

end Description

end CallBridge.Sdp
