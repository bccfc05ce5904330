import CallBridge.Fault
import CallBridge.Net.BigEndian

/-!
# RTP packets

The fixed header of RFC 3550 with its contributing sources and extension, and the payload. Reading
removes padding; writing never pads, keeps at most fifteen contributing sources and cuts extension
data to whole words of 32 bits.

In the media core, `Packet` is `RtpPacket` with its `RtpHeader`.
-/

namespace CallBridge.Rtp

/-- An RTP packet. -/
structure Packet where
  version : UInt8
  padding : Bool
  extension : Bool
  marker : Bool
  payloadType : UInt8
  sequence : UInt16
  timestamp : UInt32
  ssrc : UInt32
  csrc : List UInt32
  extensionData : Option (UInt16 × List UInt8)
  payload : List UInt8
deriving DecidableEq, Repr, Inhabited

namespace Packet

/-- A packet with a plain header. -/
def plain (pt : UInt8) (sequence : UInt16) (timestamp ssrc : UInt32) (payload : List UInt8) :
    Packet :=
  ⟨2, false, false, false, pt, sequence, timestamp, ssrc, [], none, payload⟩

/-! ## Reading -/

/-- Why bytes are no packet. -/
inductive Malformed where
  | tooShort (length : Nat)
  | version (found : Nat)
  | sources
  | extensionHead
  | extensionData
  | padding
deriving DecidableEq, Repr, Inhabited

/-- The text shown for bytes that are no packet. -/
def Malformed.message : Malformed → String
  | tooShort length => s!"{length} bytes is too short"
  | version found => s!"unsupported version {found}"
  | sources => "truncated CSRC list"
  | extensionHead => "truncated extension header"
  | extensionData => "truncated extension"
  | padding => "invalid padding"

/-- The fault for bytes that are no packet. -/
def Malformed.fault (m : Malformed) : Fault := .invalidPacket m.message

/-- The contributing sources that a number of words holds, and the bytes after them. -/
def readSources (count : Nat) (rest : List UInt8) : Except Malformed (List UInt32 × List UInt8) :=
  if rest.length < 4 * count then .error .sources
  else .ok (Net.words32 (rest.take (4 * count)), rest.drop (4 * count))

/-- The extension, if the header announces one, and the bytes after it. -/
def readExtension (announced : Bool) (rest : List UInt8) :
    Except Malformed (Option (UInt16 × List UInt8) × List UInt8) :=
  if announced then
    match rest with
    | p1 :: p0 :: n1 :: n0 :: rest =>
      let size := 4 * (Net.word16 n1 n0).toNat
      if rest.length < size then .error .extensionData
      else .ok (some (Net.word16 p1 p0, rest.take size), rest.drop size)
    | _ => .error .extensionHead
  else .ok (none, rest)

/-- The bytes without their padding, if the header announces some; the last byte counts it. -/
def stripPadding (announced : Bool) (rest : List UInt8) : Except Malformed (List UInt8) :=
  if announced then
    match rest.getLast? with
    | none => .error .padding
    | some pad =>
      if pad = 0 ∨ rest.length < pad.toNat then .error .padding
      else .ok (rest.take (rest.length - pad.toNat))
  else .ok rest

/-- Whether a byte has the bit of a power of two. -/
def hasBit (b : UInt8) (power : Nat) : Bool := b.toNat / power % 2 = 1

/-- The packet that a datagram holds, or why it holds none. -/
def read (data : List UInt8) : Except Malformed Packet :=
  match data with
  | b0 :: b1 :: s1 :: s0 :: t3 :: t2 :: t1 :: t0 :: r3 :: r2 :: r1 :: r0 :: rest => do
    let version := b0.toNat / 64
    if version ≠ 2 then .error (.version version)
    let (csrc, rest) ← readSources (b0.toNat % 16) rest
    let (extensionData, rest) ← readExtension (hasBit b0 16) rest
    let payload ← stripPadding (hasBit b0 32) rest
    .ok {
      version := UInt8.ofNat version
      padding := hasBit b0 32
      extension := hasBit b0 16
      marker := hasBit b1 128
      payloadType := b1 % 128
      sequence := Net.word16 s1 s0
      timestamp := Net.word32 t3 t2 t1 t0
      ssrc := Net.word32 r3 r2 r1 r0
      csrc, extensionData, payload }
  | _ => .error (.tooShort data.length)

/-- The packet that a datagram holds. -/
def parse (data : List UInt8) : Outcome Packet :=
  match read data with
  | .ok p => .ok p
  | .error m => .error m.fault

/-! ## Writing -/

/-- The bytes of an extension: its profile, the number of words and the whole words. -/
def extensionBytes : Option (UInt16 × List UInt8) → List UInt8
  | none => []
  | some (profile, data) =>
    Net.bytes16 profile ++ Net.bytes16 (UInt16.ofNat (data.length / 4)) ++
      data.take (data.length / 4 * 4)

/-- The datagram of a packet. -/
def serialize (p : Packet) : List UInt8 :=
  let first := 128 + (if p.extensionData.isSome then 16 else 0) + min p.csrc.length 15
  let second := (if p.marker then 128 else 0) + p.payloadType.toNat % 128
  UInt8.ofNat first :: UInt8.ofNat second :: Net.bytes16 p.sequence ++ Net.bytes32 p.timestamp ++
    Net.bytes32 p.ssrc ++ (p.csrc.take 15).flatMap Net.bytes32 ++ extensionBytes p.extensionData ++
    p.payload

end Packet

end CallBridge.Rtp
