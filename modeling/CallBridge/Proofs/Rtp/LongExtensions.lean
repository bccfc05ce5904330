import CallBridge.Proofs.Rtp.WireFormat

/-!
# Extensions longer than their length field

The length field of an extension counts its words of 32 bits in 16 bits. Writing cuts the number of
words to 16 bits, but writes all of the words: those that the field does not tell are read back as
the beginning of the payload. Everything else about a packet is normalized as it should be, so every
packet is read back, and in normal form exactly if its extension is shorter than 65536 words.

Results:
* `extensionBytes_told`: the bytes of an extension are those of the words told, and the others.
* `serialize_reread`: what is read back is written as the same datagram.
* `read_back`: what is read back of any packet, and when it is the packet in normal form.
-/

namespace CallBridge.Rtp.Packet

/-! ## The words that the length field tells -/

/-- The number of words that the length field of an extension tells. -/
def toldWords (data : List UInt8) : Nat := data.length / 4 % 65536

/-- An extension cut to the words that its length field tells. -/
def told (e : UInt16 × List UInt8) : UInt16 × List UInt8 := (e.1, e.2.take (4 * toldWords e.2))

/-- The whole words of an extension that its length field does not tell. -/
def untold : Option (UInt16 × List UInt8) → List UInt8
  | none => []
  | some e => (wholeWords e).2.drop (4 * toldWords e.2)

theorem length_told (e : UInt16 × List UInt8) : (told e).2.length = 4 * toldWords e.2 := by
  rw [told, List.length_take, toldWords]
  omega

theorem fitsWords_told (e : UInt16 × List UInt8) : FitsWords (told e).2 := by
  rw [FitsWords, length_told, toldWords]
  omega

theorem length_untold (e : UInt16 × List UInt8) :
    (untold (some e)).length = 4 * (e.2.length / 4 - toldWords e.2) := by
  rw [untold, List.length_drop, length_wholeWords]
  omega

/-- The bytes of an extension are those of the words told, followed by the others. -/
theorem extensionBytes_told (e : Option (UInt16 × List UInt8)) :
    extensionBytes e = extensionBytes (e.map told) ++ untold e := by
  cases e with
  | none => rfl
  | some x =>
    have hle : 4 * toldWords x.2 ≤ x.2.length / 4 * 4 := by
      rw [toldWords]
      omega
    have hfield : UInt16.ofNat ((told x).2.length / 4) = UInt16.ofNat (x.2.length / 4) := by
      apply UInt16.toNat_inj.1
      rw [UInt16.toNat_ofNat', UInt16.toNat_ofNat', length_told, toldWords]
      omega
    have hcut : (told x).2 = (wholeWords x).2.take (4 * toldWords x.2) := by
      rw [told, wholeWords, List.take_take, Nat.min_eq_left hle]
    have hsplit : (wholeWords x).2 = (told x).2 ++ untold (some x) := by
      rw [hcut, untold, List.take_append_drop]
    calc extensionBytes (some x)
        = Net.bytes16 x.1 ++ Net.bytes16 (UInt16.ofNat (x.2.length / 4)) ++ (wholeWords x).2 := rfl
      _ = extensionBytes (some (told x)) ++ untold (some x) := by
          rw [hsplit, ← List.append_assoc, ← hfield]
          exact congrArg (· ++ _) (extensionBytes_some (fitsWords_told x)).symm

/-! ## What is read back -/

/-- A packet as it is read back whatever its extension: the words that the length field does not
tell come first in the payload. -/
def reread (p : Packet) : Packet :=
  { p.normal with
    extensionData := p.extensionData.map told
    payload := untold p.extensionData ++ p.payload }

theorem read_serialize_reread (p : Packet) : read p.serialize = .ok p.reread := by
  refine read_serialize_of_split Option.isSome_map (fun x hx => ?_) ?_
  · obtain ⟨e, -, rfl⟩ := Option.map_eq_some_iff.1 hx
    exact fitsWords_told e
  · rw [extensionBytes_told p.extensionData, List.append_assoc]

/-- What is read back is written as the same datagram: no byte is lost, but some change sides. -/
theorem serialize_reread (p : Packet) : p.reread.serialize = p.serialize := by
  have hsecond : secondByte p.marker (p.payloadType % 128) = secondByte p.marker p.payloadType := by
    apply UInt8.toNat_inj.1
    rw [toNat_secondByte, toNat_secondByte, UInt8.toNat_mod]
    exact congrArg (_ + ·) (Nat.mod_mod _ _)
  have hcount : min (p.csrc.take 15).length 15 = min p.csrc.length 15 := by
    rw [List.length_take]
    omega
  have hsources : (p.csrc.take 15).take 15 = p.csrc.take 15 := by
    rw [List.take_take, Nat.min_self]
  rw [serialize_eq, serialize_eq p, extensionBytes_told p.extensionData]
  simp only [reread, normal, hsecond, hcount, hsources, Option.isSome_map, List.append_assoc]

/-- An extension that its length field can tell is read back with all of its whole words. -/
theorem told_eq_wholeWords {e : UInt16 × List UInt8} (h : e.2.length < 4 * 65536) :
    told e = wholeWords e := by
  rw [told, wholeWords, toldWords, Nat.mod_eq_of_lt (by omega), Nat.mul_comm]

theorem untold_eq_nil_iff (e : Option (UInt16 × List UInt8)) :
    untold e = [] ↔ ∀ x ∈ e, x.2.length < 4 * 65536 := by
  cases e with
  | none => exact ⟨nofun, fun _ => rfl⟩
  | some x =>
    rw [← List.length_eq_zero_iff, length_untold, toldWords]
    constructor
    · intro h y hy
      cases hy
      omega
    · intro h
      have := h x rfl
      omega

theorem reread_eq_normal_iff (p : Packet) :
    p.reread = p.normal ↔ ∀ e ∈ p.extensionData, e.2.length < 4 * 65536 := by
  constructor
  · intro h
    exact (untold_eq_nil_iff _).1 (List.append_left_eq_self.1 (congrArg Packet.payload h))
  · intro h
    have htold : p.extensionData.map told = p.extensionData.map wholeWords :=
      Option.map_congr fun e he => told_eq_wholeWords (h e he)
    rw [reread, htold, (untold_eq_nil_iff _).2 h]
    rfl

/-- Of an extension of 65536 words the length field tells none: all of it is read as payload. -/
theorem reread_of_wrapped {p : Packet} {profile : UInt16} {data : List UInt8}
    (he : p.extensionData = some (profile, data)) (h : data.length = 262144) :
    p.reread =
      { p.normal with extensionData := some (profile, []), payload := data ++ p.payload } := by
  have htold : toldWords data = 0 := by
    rw [toldWords, h]
  have hwhole : (wholeWords (profile, data)).2 = data :=
    List.take_of_length_le (show data.length ≤ data.length / 4 * 4 by omega)
  rw [reread, he, untold, htold, hwhole, Option.map_some, told, htold]
  rfl

/-- **Main theorem**: every packet, whatever is in it, is read back from its datagram; version and
padding are the ones written, the payload type is cut to 7 bits, the sources to fifteen and the
extension to whole words, and all else is as it was, exactly if the extension is shorter than 65536
words. The whole words of a longer one that its length field does not tell are read as the beginning
of the payload. -/
theorem read_back (p : Packet) :
    parse p.serialize = .ok p.reread ∧
      (parse p.serialize = .ok p.normal ↔ ∀ e ∈ p.extensionData, e.2.length < 4 * 65536) := by
  have hread := parse_eq_ok_iff.2 (read_serialize_reread p)
  refine ⟨hread, ?_⟩
  rw [hread, ← reread_eq_normal_iff, Except.ok.injEq]

/-- A packet without payload whose extension has one word more than its length field can tell. -/
def overlong : Packet :=
  { plain 0 1 2 3 [] with extension := true, extensionData := some (1, List.replicate 262144 0) }

/-- The extension of `overlong` is read back as its payload, not as it was. -/
theorem not_read_back_normal :
    parse overlong.serialize =
        .ok { overlong.normal with extensionData := some (1, []),
                                   payload := List.replicate 262144 0 ++ [] } ∧
      parse overlong.serialize ≠ .ok overlong.normal := by
  have hlength : (List.replicate 262144 (0 : UInt8)).length = 262144 := List.length_replicate
  have hread := parse_eq_ok_iff.2 (read_serialize_reread overlong)
  refine ⟨hread.trans (congrArg _ (reread_of_wrapped rfl hlength)), fun h => ?_⟩
  rw [hread, Except.ok.injEq, reread_eq_normal_iff] at h
  exact absurd (hlength ▸ h _ rfl) (by decide)

end CallBridge.Rtp.Packet
