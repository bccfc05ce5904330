import CallBridge.Codec.Basic
import CallBridge.Sdp.Basic

/-!
# Choosing a codec

A registry says which codec handles a payload format of a session description. A named format is
looked up by its name, without regard to the case of ASCII letters, and its rate, a missing rate
counting as 8000 Hz. Where that finds nothing, a payload type below 96 may have a codec of its own.
Telephone events are no audio.

In the media core, `Registry` is `CodecRegistry`, and `standard` is its `with_defaults`.
-/

namespace CallBridge.Codec

/-- The codecs known by payload type and by lower case name and rate; later entries are in front
and win. -/
structure Registry where
  byType : List (UInt8 × Codec)
  byName : List ((String × UInt32) × Codec)
deriving DecidableEq, Repr, Inhabited

namespace Registry

/-- The registry without a codec. -/
def empty : Registry := ⟨[], []⟩

/-- The registry with a codec added under its name and rate. -/
def register (r : Registry) (c : Codec) : Registry :=
  { r with byName := ((Sdp.foldCase c.name, c.clockRate), c) :: r.byName }

/-- The registry with a codec added under a payload type and under its name and rate. -/
def registerStatic (r : Registry) (pt : UInt8) (c : Codec) : Registry :=
  { r with byType := (pt, c) :: r.byType }.register c

/-- Both companded codecs, and linear audio at 8000 and 16000 Hz. -/
def standard : Registry :=
  ((((empty.registerStatic 0 .muLaw).registerStatic 8 .aLaw).register (.linear 8000)).register
    (.linear 16000))

/-- The rate that a format is looked up with. -/
def lookupRate (p : Sdp.Payload) : UInt32 := if p.clockRate = 0 then 8000 else p.clockRate

/-- The codec registered under the name and rate of a format. -/
def named? (r : Registry) (p : Sdp.Payload) : Option Codec :=
  if p.encodingName = "" then none
  else r.byName.lookup (Sdp.foldCase p.encodingName, lookupRate p)

/-- The codec registered under the payload type of a format, of those below 96. -/
def typed? (r : Registry) (p : Sdp.Payload) : Option Codec :=
  if p.payloadType < 96 then r.byType.lookup p.payloadType else none

/-- The codec that handles a format. -/
def resolve (r : Registry) (p : Sdp.Payload) : Option Codec :=
  if p.isTelephoneEvent then none else (r.named? p).or (r.typed? p)

/-- Whether some codec handles a format. -/
def supports (r : Registry) (p : Sdp.Payload) : Bool := (r.resolve p).isSome

end Registry

end CallBridge.Codec
