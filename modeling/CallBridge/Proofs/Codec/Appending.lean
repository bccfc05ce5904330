import CallBridge.Proofs.Codec.Transcoding

/-!
# Output buffers of a codec

Codecs append to buffers that are used over and over again. What is in a buffer stays, and what is
told about a use agrees with what was appended: samples are counted, the payload of so many samples
has the length announced for it, and its decoding brings as many samples again.

Linear samples lose nothing on either way. A linear payload of odd length is the one payload that is
refused, and then nothing was appended.

Results:
* `encodeOnto_eq_foldl`: audio is encoded one sample after the other.
* `decodeOnto_encode`: an encoding is decoded to as many samples as were encoded.
* `encode_linearSamples`, `length_linearSamples`: the samples of a linear payload of even length.
* `appends_exactly`: what is appended and what is told, for every codec.
-/

namespace CallBridge.Codec

/-- The output after one more sample was encoded. -/
def put (c : Codec) (out : List UInt8) (x : Int16) : List UInt8 := out ++ c.encode [x]

theorem encodeOnto_eq_foldl (c : Codec) (out : List UInt8) (xs : List Int16) :
    c.encodeOnto out xs = (xs.foldl c.put out, xs.length) := by
  suffices hfold : xs.foldl c.put out = out ++ c.encode xs by rw [hfold]; rfl
  induction xs generalizing out with
  | nil => cases c <;> exact (List.append_nil out).symm
  | cons x xs ih =>
    have hsplit : c.encode (x :: xs) = c.encode [x] ++ c.encode xs := c.encode_append [x] xs
    rw [List.foldl_cons, ih, put, List.append_assoc, ← hsplit]

/-- Lists that are encoded one after the other make up the encoding of both together. -/
theorem encodeOnto_append (c : Codec) (out : List UInt8) (xs ys : List Int16) :
    (c.encodeOnto (c.encodeOnto out xs).1 ys).1 = (c.encodeOnto out (xs ++ ys)).1 := by
  rw [encodeOnto, encodeOnto, encodeOnto, encode_append, List.append_assoc]

theorem decodeOnto_encode (c : Codec) (pcm xs : List Int16) :
    c.decodeOnto pcm (c.encode xs) = (pcm ++ xs.map c.heard, .ok xs.length) := by
  rw [decodeOnto, decode_encode]
  show (_, Except.ok _) = _
  rw [List.length_map]

/-! ## Linear payloads -/

theorem length_linearSamples : ∀ payload : List UInt8,
    (linearSamples payload).length = payload.length / 2
  | [] => rfl
  | [_] => by simp [linearSamples]
  | _ :: _ :: rest => by
    rw [linearSamples, List.length_cons, length_linearSamples rest, List.length_cons,
      List.length_cons]
    omega

theorem encode_linearSamples (rate : UInt32) : ∀ {payload : List UInt8}, payload.length % 2 = 0 →
    (linear rate).encode (linearSamples payload) = payload
  | [], _ => rfl
  | [_], h => by cases h
  | high :: low :: rest, h => by
    have hrest : rest.length % 2 = 0 := by
      simp only [List.length_cons] at h
      omega
    have hfirst : (linear rate).encode [(Net.word16 high low).toInt16] = [high, low] := by
      rw [encode, List.flatMap_singleton, UInt16.toUInt16_toInt16, Net.bytes16_word16]
    have hsplit := (linear rate).encode_append [(Net.word16 high low).toInt16] (linearSamples rest)
    rw [hfirst, encode_linearSamples rate hrest] at hsplit
    exact hsplit

theorem decodeOnto_linear (rate : UInt32) (pcm : List Int16) {payload : List UInt8}
    (h : payload.length % 2 = 0) :
    (linear rate).decodeOnto pcm payload =
      (pcm ++ linearSamples payload, .ok (payload.length / 2)) := by
  rw [decodeOnto, decode, if_pos h]
  show (_, Except.ok _) = _
  rw [length_linearSamples]

/-- **Main theorem**: what codecs append to the buffers that they are given.

An encoding is put behind what the output holds already, one sample after the other, the number of
samples is told, and the encoding has the length that is announced for so many samples. Decoding
just these bytes puts as many samples behind those that the output holds already, and tells their
number. Lists that are encoded one after the other make up the encoding of both together.

Linear samples are decoded as they were. The samples of a linear payload of even length are encoded
as that payload again, and one of odd length is refused and nothing appended. -/
theorem appends_exactly (c : Codec) (rate : UInt32) (out payload : List UInt8)
    (pcm xs ys : List Int16) :
    (c.encodeOnto out xs = (out ++ c.encode xs, xs.length) ∧
      (c.encode xs).length = c.payloadLength xs.length ∧
      (c.encodeOnto out xs).1 = xs.foldl c.put out) ∧
    (∃ ds, c.decodeOnto pcm (c.encode xs) = (pcm ++ ds, .ok xs.length) ∧ ds.length = xs.length) ∧
    (c.encodeOnto (c.encodeOnto out xs).1 ys).1 = (c.encodeOnto out (xs ++ ys)).1 ∧
    (linear rate).decodeOnto pcm ((linear rate).encode xs) = (pcm ++ xs, .ok xs.length) ∧
    (payload.length % 2 = 0 →
      ∃ ds, (linear rate).decodeOnto pcm payload = (pcm ++ ds, .ok (payload.length / 2)) ∧
        (linear rate).encodeOnto out ds = (out ++ payload, payload.length / 2)) ∧
    (payload.length % 2 = 1 → (linear rate).decodeOnto pcm payload =
      (pcm, .error (.codec "L16" s!"odd payload length {payload.length}"))) := by
  refine ⟨⟨rfl, c.length_encode xs, congrArg Prod.fst (c.encodeOnto_eq_foldl out xs)⟩,
    ⟨xs.map c.heard, c.decodeOnto_encode pcm xs, List.length_map _⟩, c.encodeOnto_append out xs ys,
    ?_, fun heven => ⟨linearSamples payload, decodeOnto_linear rate pcm heven, ?_⟩,
    fun hodd => decode_linear_odd rate pcm hodd⟩
  · have hsame : xs.map (linear rate).heard = xs := List.map_id xs
    rw [decodeOnto_encode, hsame]
  · rw [encodeOnto, encode_linearSamples rate heven, length_linearSamples]

/-- Linear payloads of two and of three bytes, at a rate of 16000 Hz, behind a sample that stays. -/
theorem appends_exactly_shortPayloads :
    ([0xFF, 0xFE] : List UInt8).length % 2 = 0 ∧
    (∃ ds, (linear 16000).decodeOnto [7] [0xFF, 0xFE] = (7 :: ds, .ok 1) ∧
      (linear 16000).encodeOnto [9] ds = ([9, 0xFF, 0xFE], 1)) ∧
    ([1, 2, 3] : List UInt8).length % 2 = 1 ∧
    (linear 16000).decodeOnto [7] [1, 2, 3] =
      ([7], .error (.codec "L16" "odd payload length 3")) := by
  have heven : ([0xFF, 0xFE] : List UInt8).length % 2 = 0 := rfl
  have hodd : ([1, 2, 3] : List UInt8).length % 2 = 1 := rfl
  obtain ⟨-, -, -, -, hback, -⟩ := appends_exactly .muLaw 16000 [9] [0xFF, 0xFE] [7] [] []
  obtain ⟨-, -, -, -, -, hrefused⟩ := appends_exactly .muLaw 16000 [9] [1, 2, 3] [7] [] []
  exact ⟨heven, hback heven, hodd, hrefused hodd⟩

end CallBridge.Codec
