import CallBridge.PayloadMask

/-!
# Session descriptions

The parts of a session description that drive relaying and transcoding: connection addresses,
media lines with their payload formats, and the direction. Everything else stays verbatim as
attribute text.

In the media core, `Description`, `Media`, `Payload`, `Connection` and `Origin` are `Sdp`,
`SdpMedia`, `SdpPayload`, `SdpConnection` and `SdpOrigin`, `MediaKind` is `MediaType`, and
`Direction` is `MediaDirection`.
-/

namespace CallBridge.Sdp

/-! ## Types -/

/-- The kind of a media line; `other` keeps a token that is none of the five known words. -/
inductive MediaKind where
  | audio
  | video
  | application
  | text
  | message
  | other (token : String)
deriving DecidableEq, Repr, Inhabited

/-- Which way media flows. -/
inductive Direction where
  | sendRecv
  | sendOnly
  | recvOnly
  | inactive
deriving DecidableEq, Repr, Inhabited

/-- A connection line. -/
structure Connection where
  netType : String
  addrType : String
  address : String
deriving DecidableEq, Repr, Inhabited

/-- An origin line. -/
structure Origin where
  username : String
  sessionId : String
  sessionVersion : String
  connection : Connection
deriving DecidableEq, Repr, Inhabited

/-- A payload format of a media line. The name is empty and the rate zero where they are unknown. -/
structure Payload where
  payloadType : UInt8
  encodingName : String
  clockRate : UInt32
  encodingParams : Option UInt32
  formatParams : Option String
deriving DecidableEq, Repr, Inhabited

/-- A media line with the lines that belong to it. Port zero switches the stream off. -/
structure Media where
  kind : MediaKind
  port : UInt16
  transport : String
  payloads : List Payload
  connection : Option Connection
  direction : Direction
  packetTime : Option UInt32
  attributes : List String
deriving DecidableEq, Repr, Inhabited

/-- A session description. -/
structure Description where
  version : UInt32
  origin : Origin
  sessionName : String
  connection : Option Connection
  timing : UInt64 × UInt64
  attributes : List String
  media : List Media
deriving DecidableEq, Repr, Inhabited

/-! ## Tokens -/

/-- The kind that a media token names. -/
def MediaKind.ofToken (token : String) : MediaKind :=
  if token = "audio" then .audio
  else if token = "video" then .video
  else if token = "application" then .application
  else if token = "text" then .text
  else if token = "message" then .message
  else .other token

/-- The token of a kind. -/
def MediaKind.token : MediaKind → String
  | .audio => "audio"
  | .video => "video"
  | .application => "application"
  | .text => "text"
  | .message => "message"
  | .other token => token

/-- The word of a direction. -/
def Direction.word : Direction → String
  | .sendRecv => "sendrecv"
  | .sendOnly => "sendonly"
  | .recvOnly => "recvonly"
  | .inactive => "inactive"

/-- The direction that a word names. -/
def Direction.ofWord? (word : String) : Option Direction :=
  if word = "sendrecv" then some .sendRecv
  else if word = "sendonly" then some .sendOnly
  else if word = "recvonly" then some .recvOnly
  else if word = "inactive" then some .inactive
  else none

/-! ## Defaults -/

/-- The version 4 connection to an address. -/
def Connection.ip4 (address : String) : Connection := ⟨"IN", "IP4", address⟩

/-- The origin of a description that names none. -/
def Origin.unnamed : Origin := ⟨"-", "0", "0", Connection.ip4 "0.0.0.0"⟩

/-- A format of which only the payload type is known. -/
def Payload.ofType (pt : UInt8) : Payload := ⟨pt, "", 0, none, none⟩

/-- An audio line with the given port and formats. -/
def Media.audio (port : UInt16) (payloads : List Payload) : Media :=
  ⟨.audio, port, "RTP/AVP", payloads, none, .sendRecv, none, []⟩

/-- The description that an empty text stands for. -/
def Description.empty : Description := ⟨0, Origin.unnamed, "-", none, (0, 0), [], []⟩

/-! ## Queries -/

/-- The name with its ASCII letters in lower case, by which encodings are compared. -/
def foldCase (name : String) : String := String.ofList (name.toList.map Char.toLower)

/-- Whether two encoding names differ at most in the case of ASCII letters. -/
def sameName (x y : String) : Bool := foldCase x = foldCase y

namespace Payload

/-- Whether the format carries telephone events. -/
def isTelephoneEvent (p : Payload) : Bool := sameName p.encodingName "telephone-event"

end Payload

namespace Media

/-- Whether this is an audio line. -/
def isAudio (m : Media) : Bool := m.kind = .audio

/-- Whether the stream is switched on. -/
def isActive (m : Media) : Bool := m.port ≠ 0

/-- The payload types in the order of the line. -/
def payloadTypes (m : Media) : List UInt8 := m.payloads.map (·.payloadType)

/-- The first format with a payload type. -/
def payload? (m : Media) (pt : UInt8) : Option Payload :=
  m.payloads.find? (·.payloadType = pt)

/-- The set of the line's payload types. -/
def mask (m : Media) : PayloadMask := PayloadMask.ofList m.payloadTypes

end Media

namespace Description

/-- Whether there is no media line. -/
def isEmpty (d : Description) : Bool := d.media.isEmpty

/-- The audio lines with their indices among the media lines. -/
def audioMedia (d : Description) : List (Nat × Media) :=
  (d.media.zipIdx.map fun (m, i) => (i, m)).filter (·.2.isAudio)

/-- The connection in effect for a media line. -/
def connectionFor (d : Description) (index : Nat) : Option Connection :=
  (d.media[index]?.bind (·.connection)).or d.connection

end Description

end CallBridge.Sdp
