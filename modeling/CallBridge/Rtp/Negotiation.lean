import CallBridge.Codec.Registry
import CallBridge.Net.Address
import CallBridge.Fault

/-!
# Negotiating the audio of one media line

A media line has a local and a remote description. Audio is sent in the first remote format that
the local line lists too and that has a codec; two formats are the same if they share the payload
type, or a name and a rate. Audio is understood in every format of either line that has a codec.

In the media core, `agree` is what `init` of `RtpAudio` settles; `sending?` is
`negotiate_send_payload`, and `remoteOf` is `remote_address`.

Results:
* `agree_of_outside`: a media line that one side does not have is not found.
-/

namespace CallBridge.Rtp

/-- What was negotiated for one media line: the format that is sent, the codecs by which received
payload types are read, and where packets go. -/
structure Agreement where
  payloadType : UInt8
  codec : Codec
  decoders : List (UInt8 × Codec)
  remote : Option Net.Endpoint
  packetTimeMs : UInt32
deriving DecidableEq, Repr, Inhabited

namespace Agreement

/-- Whether a local format stands for the same audio as a remote one. -/
def sameFormat (ours theirs : Sdp.Payload) : Bool :=
  ours.payloadType = theirs.payloadType ||
    (ours.encodingName ≠ "" && Sdp.sameName ours.encodingName theirs.encodingName &&
      ours.clockRate = theirs.clockRate)

/-- The codec for sending in a remote format, if the local line lists that format. -/
def sendable? (codecs : Codec.Registry) (ours : Sdp.Media) (theirs : Sdp.Payload) :
    Option (UInt8 × Codec) :=
  if ours.payloads.any (sameFormat · theirs) then
    (codecs.resolve theirs).map fun codec => (theirs.payloadType, codec)
  else none

/-- The payload type and codec of the first remote format that can be sent. -/
def sending? (codecs : Codec.Registry) (ours theirs : Sdp.Media) : Option (UInt8 × Codec) :=
  theirs.payloads.findSome? (sendable? codecs ours)

/-- The codecs of all formats of both lines, those of the local line first. -/
def decodersOf (codecs : Codec.Registry) (ours theirs : Sdp.Media) : List (UInt8 × Codec) :=
  (ours.payloads ++ theirs.payloads).filterMap fun p =>
    (codecs.resolve p).map fun codec => (p.payloadType, codec)

/-- Where packets for a media line go, if it is switched on and has an address in numbers. -/
def remoteOf (theirs : Sdp.Description) (index : Nat) (line : Sdp.Media) : Option Net.Endpoint :=
  if line.isActive then
    (theirs.connectionFor index).bind fun c =>
      (Net.Address.parse? c.address).map fun address => ⟨address, line.port⟩
  else none

/-- The codec that reads a payload type: that of its first format. -/
def decoder? (a : Agreement) (pt : UInt8) : Option Codec := a.decoders.lookup pt

/-- What two descriptions agree on for a media line. -/
def agree (codecs : Codec.Registry) (packetTimeMs : UInt32) (ours theirs : Sdp.Description)
    (index : Nat) : Outcome Agreement :=
  match ours.media[index]?, theirs.media[index]? with
  | some here, some there =>
    match sending? codecs here there with
    | some (payloadType, codec) =>
      .ok {
        payloadType, codec
        decoders := decodersOf codecs here there
        remote := remoteOf theirs index there
        packetTimeMs := (there.packetTime.or here.packetTime).getD packetTimeMs }
    | none => .error (.noCompatiblePayload index)
  | _, _ => .error (.mediaLineNotFound index)

theorem agree_of_outside {codecs : Codec.Registry} {ms : UInt32} {ours theirs : Sdp.Description}
    {index : Nat} (h : ours.media.length ≤ index ∨ theirs.media.length ≤ index) :
    agree codecs ms ours theirs index = .error (.mediaLineNotFound index) := by
  unfold agree
  rcases h with h | h
  · simp [List.getElem?_eq_none h]
  · rw [List.getElem?_eq_none h]
    split <;> simp_all

end Agreement

end CallBridge.Rtp
