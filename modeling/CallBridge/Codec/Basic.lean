import CallBridge.Fault
import CallBridge.Net.BigEndian
import CallBridge.Codec.Companding

/-!
# Codecs

The payload encodings that the bridge converts between: the two companded ones, which have one
byte for each sample and a fixed rate of 8000 Hz, and linear samples in network byte order at any
rate. Encoding and decoding append to what is there already.

In the media core, `Codec` is the interface `AudioCodec` over `G711Codec` and `Linear16Codec`;
`encodeOnto`, `decodeOnto` and `payloadLength` are its `encode`, `decode` and `payload_len`.

Results:
* `length_encode`: an encoding has the length that `payloadLength` tells.
* `encode_append`: sample lists are encoded one after the other.
* `decode_encode_linear`: linear samples are decoded as they were encoded.
* `decode_linear_odd`: a linear payload of odd length is refused and nothing is appended.
-/

namespace CallBridge

/-- A payload encoding of mono audio. -/
inductive Codec where
  | muLaw
  | aLaw
  | linear (rate : UInt32)
deriving DecidableEq, Repr, Inhabited

namespace Codec

/-- The encoding name. -/
def name : Codec → String
  | muLaw => "PCMU"
  | aLaw => "PCMA"
  | linear _ => "L16"

/-- The sampling rate in Hertz. -/
def clockRate : Codec → UInt32
  | muLaw => 8000
  | aLaw => 8000
  | linear rate => rate

/-- The number of bytes that a number of samples takes. -/
def payloadLength : Codec → Nat → Nat
  | muLaw, samples => samples
  | aLaw, samples => samples
  | linear _, samples => 2 * samples

/-- The payload of a list of samples. -/
def encode : Codec → List Int16 → List UInt8
  | muLaw, xs => xs.map Companding.muLawEncode
  | aLaw, xs => xs.map Companding.aLawEncode
  | linear _, xs => xs.flatMap fun x => Net.bytes16 x.toUInt16

/-- The linear samples that a byte string of even length holds. -/
def linearSamples : List UInt8 → List Int16
  | high :: low :: rest => (Net.word16 high low).toInt16 :: linearSamples rest
  | _ => []

/-- The samples of a payload. -/
def decode : Codec → List UInt8 → Outcome (List Int16)
  | muLaw, payload => .ok (payload.map Companding.muLawDecode)
  | aLaw, payload => .ok (payload.map Companding.aLawDecode)
  | linear _, payload =>
    if payload.length % 2 = 0 then .ok (linearSamples payload)
    else .error (.codec "L16" s!"odd payload length {payload.length}")

/-- The output with the payload of some samples appended, and the number of samples used. -/
def encodeOnto (c : Codec) (out : List UInt8) (xs : List Int16) : List UInt8 × Nat :=
  (out ++ c.encode xs, xs.length)

/-- The output with the samples of a payload appended, and their number. -/
def decodeOnto (c : Codec) (out : List Int16) (payload : List UInt8) :
    List Int16 × Outcome Nat :=
  match c.decode payload with
  | .ok xs => (out ++ xs, .ok xs.length)
  | .error f => (out, .error f)

theorem length_encode (c : Codec) (xs : List Int16) :
    (c.encode xs).length = c.payloadLength xs.length := by
  cases c with
  | muLaw => simp [encode, payloadLength]
  | aLaw => simp [encode, payloadLength]
  | linear rate =>
    induction xs with
    | nil => rfl
    | cons x xs ih =>
      simp only [encode, payloadLength, List.flatMap_cons, List.length_append] at *
      rw [ih]; simp [Net.bytes16]; omega

theorem encode_append (c : Codec) (xs ys : List Int16) :
    c.encode (xs ++ ys) = c.encode xs ++ c.encode ys := by
  cases c <;> simp [encode]

theorem linearSamples_encode (rate : UInt32) (xs : List Int16) :
    linearSamples ((linear rate).encode xs) = xs := by
  induction xs with
  | nil => rfl
  | cons x xs ih =>
    have hword := Net.word16_bytes16 x.toUInt16
    simp only [encode, List.flatMap_cons, Net.bytes16, List.cons_append, List.nil_append,
      linearSamples, hword] at ih ⊢
    rw [ih, Int16.toInt16_toUInt16]

theorem decode_encode_linear (rate : UInt32) (xs : List Int16) :
    (linear rate).decode ((linear rate).encode xs) = .ok xs := by
  have hlength := length_encode (linear rate) xs
  rw [payloadLength] at hlength
  rw [decode, if_pos (by omega), linearSamples_encode]

theorem decode_linear_odd (rate : UInt32) (out : List Int16) {payload : List UInt8}
    (h : payload.length % 2 = 1) :
    (linear rate).decodeOnto out payload =
      (out, .error (.codec "L16" s!"odd payload length {payload.length}")) := by
  simp [decodeOnto, decode, h]

end Codec

end CallBridge
