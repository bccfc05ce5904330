import CallBridge.Rtp.Packet

/-!
# Packets on the wire

Each part of a packet behind its fixed header is read exactly where it was written: reading a part
succeeds with a value and a rest if and only if the bytes are that value written, followed by the
rest. From these equivalences follow both directions of the wire format.

Results:
* `readSources_eq_ok_iff`, `readExtension_eq_ok_iff`, `stripPadding_eq_ok_iff`: the bytes of each
  part.
* `read_serialize`: any packet whose extension fits its length field is read back in normal form.
* `serialize_of_read`: a datagram that was read is written again without its padding.
* `wire_format`: a well-formed packet is read back as it is, and a datagram that was read is
  written again without its padding.
-/

namespace CallBridge.Rtp.Packet

/-! ## Well-formed packets and unpadded datagrams -/

/-- Extension data that the length field of an extension can tell: whole words, at most 65535. -/
def FitsWords (data : List UInt8) : Prop := data.length % 4 = 0 ∧ data.length ≤ 4 * 65535

/-- A packet that says nothing that is not written. -/
structure WellFormed (p : Packet) : Prop where
  version : p.version = 2
  padding : p.padding = false
  payloadType : p.payloadType < 128
  sources : p.csrc.length ≤ 15
  extension : p.extension = p.extensionData.isSome
  extensionData : ∀ e ∈ p.extensionData, FitsWords e.2

/-- Whether the padding bit of a datagram is set. -/
def announcesPadding : List UInt8 → Bool
  | [] => false
  | b :: _ => b &&& 0x20 ≠ 0

/-- The number of pad bytes of a datagram, which its last byte counts. -/
def padLength (data : List UInt8) : Nat :=
  if announcesPadding data then (data.getLast?.getD 0).toNat else 0

/-- A datagram with its padding bit cleared. -/
def clearPaddingBit : List UInt8 → List UInt8
  | [] => []
  | b :: rest => (b &&& 0xDF) :: rest

/-- A datagram with its padding bit cleared and its pad bytes cut off. -/
def unpadded (data : List UInt8) : List UInt8 :=
  (clearPaddingBit data).take (data.length - padLength data)

/-! ## The two bytes of bit fields -/

/-- The first byte of a written packet. -/
def firstByte (extended : Bool) (sources : Nat) : UInt8 :=
  UInt8.ofNat (128 + (if extended then 16 else 0) + sources)

/-- The second byte of a written packet. -/
def secondByte (marker : Bool) (pt : UInt8) : UInt8 :=
  UInt8.ofNat ((if marker then 128 else 0) + pt.toNat % 128)

theorem toNat_firstByte (extended : Bool) {sources : Nat} (h : sources ≤ 15) :
    (firstByte extended sources).toNat = 128 + (if extended then 16 else 0) + sources := by
  rw [firstByte, UInt8.toNat_ofNat']
  split <;> omega

theorem toNat_secondByte (marker : Bool) (pt : UInt8) :
    (secondByte marker pt).toNat = (if marker then 128 else 0) + pt.toNat % 128 := by
  rw [secondByte, UInt8.toNat_ofNat']
  split <;> omega

theorem firstByte_fields (extended : Bool) {sources : Nat} (h : sources ≤ 15) :
    (firstByte extended sources).toNat / 64 = 2 ∧
      (firstByte extended sources).toNat % 16 = sources ∧
      hasBit (firstByte extended sources) 16 = extended ∧
      hasBit (firstByte extended sources) 32 = false := by
  simp only [hasBit, toNat_firstByte extended h]
  cases extended
  · simp only [Bool.false_eq_true, if_false, decide_eq_false_iff_not]
    omega
  · simp only [if_true, decide_eq_true_eq, decide_eq_false_iff_not]
    omega

theorem secondByte_fields (marker : Bool) (pt : UInt8) :
    hasBit (secondByte marker pt) 128 = marker ∧ secondByte marker pt % 128 = pt % 128 := by
  constructor
  · simp only [hasBit, toNat_secondByte]
    cases marker
    · simp only [Bool.false_eq_true, if_false, decide_eq_false_iff_not]
      omega
    · simp only [if_true, decide_eq_true_eq]
      omega
  · apply UInt8.toNat_inj.1
    rw [UInt8.toNat_mod, UInt8.toNat_mod, toNat_secondByte]
    show _ % 128 = _ % 128
    split <;> omega

/-- All 256 bytes, by their numbers. -/
theorem byte_table : ∀ i : Fin 256,
    hasBit (UInt8.ofNat i) 32 = decide (UInt8.ofNat i &&& 0x20 ≠ 0) ∧
    (i.val / 64 = 2 → firstByte (hasBit (UInt8.ofNat i) 16) (i.val % 16) = UInt8.ofNat i &&& 0xDF) ∧
    secondByte (hasBit (UInt8.ofNat i) 128) (UInt8.ofNat i % 128) = UInt8.ofNat i := by
  decide +kernel

theorem hasBit_padding (b : UInt8) : hasBit b 32 = decide (b &&& 0x20 ≠ 0) := by
  have := (byte_table ⟨b.toNat, b.toNat_lt⟩).1
  rwa [UInt8.ofNat_toNat] at this

theorem firstByte_of_byte {b : UInt8} (h : b.toNat / 64 = 2) :
    firstByte (hasBit b 16) (b.toNat % 16) = b &&& 0xDF := by
  have := (byte_table ⟨b.toNat, b.toNat_lt⟩).2.1 h
  rwa [UInt8.ofNat_toNat] at this

theorem secondByte_of_byte (b : UInt8) : secondByte (hasBit b 128) (b % 128) = b := by
  have := (byte_table ⟨b.toNat, b.toNat_lt⟩).2.2
  rwa [UInt8.ofNat_toNat] at this

/-! ## The parts behind the fixed header -/

theorem readSources_eq_ok_iff {count : Nat} {bytes rest : List UInt8} {sources : List UInt32} :
    readSources count bytes = .ok (sources, rest) ↔
      sources.length = count ∧ bytes = sources.flatMap Net.bytes32 ++ rest := by
  unfold readSources
  constructor
  · intro h
    split at h
    · cases h
    · next hlen =>
      cases h
      have htake : (bytes.take (4 * count)).length = 4 * count := by
        rw [List.length_take]
        omega
      obtain ⟨hbytes, hcount⟩ := Net.flatMap_bytes32_words32 htake
      exact ⟨hcount, by rw [hbytes, List.take_append_drop]⟩
  · rintro ⟨rfl, rfl⟩
    have hlen := Net.length_flatMap_bytes32 sources
    rw [if_neg (by rw [List.length_append]; omega), ← hlen, List.take_left, List.drop_left,
      Net.words32_flatMap_bytes32]

/-- What an extension head says about the data behind it. -/
theorem readExtension_cons (p1 p0 n1 n0 : UInt8) (rest : List UInt8) :
    readExtension true (p1 :: p0 :: n1 :: n0 :: rest) =
      if rest.length < 4 * (Net.word16 n1 n0).toNat then .error .extensionData
      else .ok (some (Net.word16 p1 p0, rest.take (4 * (Net.word16 n1 n0).toNat)),
        rest.drop (4 * (Net.word16 n1 n0).toNat)) := rfl

theorem extensionBytes_some {profile : UInt16} {data : List UInt8} (h : FitsWords data) :
    extensionBytes (some (profile, data)) =
      Net.bytes16 profile ++ Net.bytes16 (UInt16.ofNat (data.length / 4)) ++ data := by
  have hdata : data.length / 4 * 4 = data.length := by
    have := h.1
    omega
  rw [extensionBytes, hdata, List.take_length]

/-- The length field of an extension tells the length of its data. -/
theorem words_of_fits {data : List UInt8} (h : FitsWords data) :
    4 * (UInt16.ofNat (data.length / 4)).toNat = data.length := by
  have h4 := h.1
  have hmax := h.2
  rw [UInt16.toNat_ofNat']
  omega

theorem readExtension_eq_ok_iff {announced : Bool} {bytes rest : List UInt8}
    {e : Option (UInt16 × List UInt8)} :
    readExtension announced bytes = .ok (e, rest) ↔
      e.isSome = announced ∧ (∀ x ∈ e, FitsWords x.2) ∧ bytes = extensionBytes e ++ rest := by
  constructor
  · intro h
    cases announced with
    | false =>
      cases h
      exact ⟨rfl, by simp, rfl⟩
    | true =>
      unfold readExtension at h
      simp only [if_true] at h
      split at h
      · next p1 p0 n1 n0 tail =>
        split at h
        · cases h
        · next hlen =>
          cases h
          have hsize : (tail.take (4 * (Net.word16 n1 n0).toNat)).length =
              4 * (Net.word16 n1 n0).toNat := by
            rw [List.length_take]
            omega
          have hword := (Net.word16 n1 n0).toNat_lt
          have hfits : FitsWords (tail.take (4 * (Net.word16 n1 n0).toNat)) := by
            rw [FitsWords, hsize]
            omega
          refine ⟨rfl, fun x hx => by cases hx; exact hfits, ?_⟩
          rw [extensionBytes_some hfits, hsize, Nat.mul_div_cancel_left _ (by decide),
            UInt16.ofNat_toNat, Net.bytes16_word16, Net.bytes16_word16, List.append_assoc,
            List.take_append_drop]
          rfl
      · cases h
  · rintro ⟨rfl, hfits, rfl⟩
    cases e with
    | none => rfl
    | some x =>
      obtain ⟨profile, data⟩ := x
      have hdata : FitsWords data := hfits (profile, data) rfl
      rw [extensionBytes_some hdata]
      show readExtension true (_ :: _ :: _ :: _ :: (data ++ rest)) = _
      rw [readExtension_cons, Net.word16_bytes16, Net.word16_bytes16, words_of_fits hdata,
        if_neg (by rw [List.length_append]; omega), List.take_left, List.drop_left]

/-- The bytes behind a payload: none where no padding is announced, and else pad bytes of which the
last one counts them all. -/
def IsPadding (announced : Bool) (pads : List UInt8) : Prop :=
  if announced then ∃ n, pads.getLast? = some n ∧ n.toNat = pads.length else pads = []

theorem stripPadding_eq_ok_iff {announced : Bool} {bytes payload : List UInt8} :
    stripPadding announced bytes = .ok payload ↔
      ∃ pads, IsPadding announced pads ∧ bytes = payload ++ pads := by
  unfold stripPadding IsPadding
  cases announced with
  | false =>
    simp only [Bool.false_eq_true, if_false, exists_eq_left, List.append_nil]
    exact ⟨fun h => by cases h; rfl, fun h => by rw [h]⟩
  | true =>
    simp only [if_true]
    constructor
    · intro h
      split at h
      · cases h
      · next pad hlast =>
        split at h
        · cases h
        · next hpad =>
          cases h
          have hpos : pad.toNat ≠ 0 := fun e => hpad (.inl (UInt8.toNat_inj.1 e))
          have hle : pad.toNat ≤ bytes.length := by omega
          refine ⟨bytes.drop (bytes.length - pad.toNat), ⟨pad, ?_, ?_⟩,
            (List.take_append_drop _ _).symm⟩
          · rw [List.getLast?_drop, if_neg (by omega), hlast]
          · rw [List.length_drop]
            omega
    · rintro ⟨pads, ⟨n, hlast, hn⟩, rfl⟩
      have hne : pads ≠ [] := by
        rintro rfl
        cases hlast
      have hpos : 0 < pads.length := List.length_pos_iff.2 hne
      have hn0 : n ≠ 0 := by
        rintro rfl
        exact absurd hn (Nat.ne_of_lt hpos)
      have hlast' : (payload ++ pads).getLast? = some n := by
        rw [List.getLast?_append, hlast]
        rfl
      rw [hlast']
      simp only [hn0, false_or, List.length_append, hn]
      rw [if_neg (by omega), Nat.add_sub_cancel, List.take_left]

/-! ## Whole datagrams -/

/-- The packet that a fixed header and the parts behind it make. -/
def assemble (b0 b1 s1 s0 t3 t2 t1 t0 r3 r2 r1 r0 : UInt8) (sources : List UInt32)
    (e : Option (UInt16 × List UInt8)) (payload : List UInt8) : Packet where
  version := UInt8.ofNat (b0.toNat / 64)
  padding := hasBit b0 32
  extension := hasBit b0 16
  marker := hasBit b1 128
  payloadType := b1 % 128
  sequence := Net.word16 s1 s0
  timestamp := Net.word32 t3 t2 t1 t0
  ssrc := Net.word32 r3 r2 r1 r0
  csrc := sources
  extensionData := e
  payload := payload

/-- A datagram is read as a packet exactly if its version is 2 and the parts behind its fixed header
follow each other as they are written. -/
theorem read_cons_eq_ok_iff {b0 b1 s1 s0 t3 t2 t1 t0 r3 r2 r1 r0 : UInt8} {bytes : List UInt8}
    {p : Packet} :
    read (b0 :: b1 :: s1 :: s0 :: t3 :: t2 :: t1 :: t0 :: r3 :: r2 :: r1 :: r0 :: bytes) = .ok p ↔
      b0.toNat / 64 = 2 ∧ ∃ sources e payload pads, sources.length = b0.toNat % 16 ∧
        (e.isSome = hasBit b0 16 ∧ ∀ x ∈ e, FitsWords x.2) ∧ IsPadding (hasBit b0 32) pads ∧
        bytes = sources.flatMap Net.bytes32 ++ (extensionBytes e ++ (payload ++ pads)) ∧
        p = assemble b0 b1 s1 s0 t3 t2 t1 t0 r3 r2 r1 r0 sources e payload := by
  rw [read]
  by_cases hv : b0.toNat / 64 = 2
  · simp only [hv, ne_eq, not_true_eq_false, if_false, true_and]
    constructor
    · intro h
      cases h1 : readSources (b0.toNat % 16) bytes with
      | error m => rw [h1] at h; cases h
      | ok x =>
        cases h2 : readExtension (hasBit b0 16) x.2 with
        | error m => rw [h1] at h; simp only [bind, Except.bind, h2] at h; cases h
        | ok y =>
          cases h3 : stripPadding (hasBit b0 32) y.2 with
          | error m => rw [h1] at h; simp only [bind, Except.bind, h2, h3] at h; cases h
          | ok payload =>
            rw [h1] at h
            simp only [bind, Except.bind, h2, h3] at h
            cases h
            obtain ⟨hs, hbytes⟩ := readSources_eq_ok_iff.1 h1
            obtain ⟨he, hfits, hx⟩ := readExtension_eq_ok_iff.1 h2
            obtain ⟨pads, hpads, hy⟩ := stripPadding_eq_ok_iff.1 h3
            refine ⟨x.1, y.1, payload, pads, hs, ⟨he, hfits⟩, hpads, ?_, ?_⟩
            · rw [hbytes, hx, hy]
            · rw [assemble, hv]
    · rintro ⟨sources, e, payload, pads, hs, ⟨he, hfits⟩, hpads, hbytes, rfl⟩
      rw [readSources_eq_ok_iff.2 ⟨hs, hbytes⟩]
      simp only [bind, Except.bind, readExtension_eq_ok_iff.2 ⟨he, hfits, rfl⟩,
        stripPadding_eq_ok_iff.2 ⟨pads, hpads, rfl⟩, assemble, hv]
  · simp only [hv, ne_eq, not_false_eq_true, if_true, false_and, iff_false]
    intro h
    cases h

/-- The datagram of a packet with its fixed header byte by byte. -/
theorem serialize_eq (p : Packet) :
    p.serialize = firstByte p.extensionData.isSome (min p.csrc.length 15) ::
      secondByte p.marker p.payloadType :: (Net.bytes16 p.sequence ++ (Net.bytes32 p.timestamp ++
        (Net.bytes32 p.ssrc ++ ((p.csrc.take 15).flatMap Net.bytes32 ++
          (extensionBytes p.extensionData ++ p.payload))))) := by
  simp only [serialize, firstByte, secondByte, List.cons_append, List.append_assoc]

/-! ## Reading what was written -/

/-- Extension data cut to whole words. -/
def wholeWords (e : UInt16 × List UInt8) : UInt16 × List UInt8 :=
  (e.1, e.2.take (e.2.length / 4 * 4))

/-- A packet as it is read back: what is not written takes its default, and what does not fit is
cut. -/
def normal (p : Packet) : Packet where
  version := 2
  padding := false
  extension := p.extensionData.isSome
  marker := p.marker
  payloadType := p.payloadType % 128
  sequence := p.sequence
  timestamp := p.timestamp
  ssrc := p.ssrc
  csrc := p.csrc.take 15
  extensionData := p.extensionData.map wholeWords
  payload := p.payload

theorem length_wholeWords (e : UInt16 × List UInt8) :
    (wholeWords e).2.length = e.2.length / 4 * 4 := by
  rw [wholeWords, List.length_take]
  omega

theorem extensionBytes_wholeWords (e : Option (UInt16 × List UInt8)) :
    extensionBytes (e.map wholeWords) = extensionBytes e := by
  cases e with
  | none => rfl
  | some x =>
    have hlen := length_wholeWords x
    have hdiv : (wholeWords x).2.length / 4 = x.2.length / 4 := by omega
    rw [Option.map_some]
    show Net.bytes16 x.1 ++ Net.bytes16 (UInt16.ofNat ((wholeWords x).2.length / 4)) ++
      (wholeWords x).2.take ((wholeWords x).2.length / 4 * 4) = _
    rw [hdiv, ← hlen, List.take_length]
    rfl

/-- If the bytes behind the sources of a packet are those of an extension that tells its length,
followed by a payload, then this extension and this payload are read back. -/
theorem read_serialize_of_split {p : Packet} {e : Option (UInt16 × List UInt8)}
    {payload : List UInt8} (hsome : e.isSome = p.extensionData.isSome)
    (hfits : ∀ x ∈ e, FitsWords x.2)
    (hbytes : extensionBytes p.extensionData ++ p.payload = extensionBytes e ++ payload) :
    read p.serialize = .ok { p.normal with extensionData := e, payload := payload } := by
  have hsources : min p.csrc.length 15 ≤ 15 := Nat.min_le_right _ _
  obtain ⟨hversion, hcount, hextended, hpadding⟩ :=
    firstByte_fields p.extensionData.isSome hsources
  obtain ⟨hmarker, htype⟩ := secondByte_fields p.marker p.payloadType
  rw [serialize_eq, hbytes]
  refine read_cons_eq_ok_iff.2 ⟨hversion, p.csrc.take 15, e, payload, [], ?_, ⟨?_, hfits⟩, ?_, ?_,
    ?_⟩
  · rw [hcount, List.length_take, Nat.min_comm]
  · rw [hextended, hsome]
  · rw [hpadding]
    rfl
  · rw [List.append_nil]
    rfl
  · rw [assemble, hversion, hextended, hpadding, hmarker, htype, Net.word16_bytes16,
      Net.word32_bytes32, Net.word32_bytes32]
    rfl

/-- A packet whose extension has at most 65535 words is read back in normal form. -/
theorem read_serialize {p : Packet} (h : ∀ e ∈ p.extensionData, e.2.length / 4 ≤ 65535) :
    read p.serialize = .ok p.normal := by
  refine read_serialize_of_split Option.isSome_map (fun x hx => ?_)
    (by rw [extensionBytes_wholeWords])
  obtain ⟨e, he, rfl⟩ := Option.map_eq_some_iff.1 hx
  have := h e he
  rw [FitsWords, length_wholeWords]
  omega

theorem normal_of_wellFormed {p : Packet} (h : p.WellFormed) : p.normal = p := by
  obtain ⟨hversion, hpadding, htype, hsources, hextension, hdata⟩ := h
  have htype' : p.payloadType % 128 = p.payloadType := by
    apply UInt8.toNat_inj.1
    rw [UInt8.toNat_mod]
    exact Nat.mod_eq_of_lt (UInt8.lt_iff_toNat_lt.1 htype)
  have hdata' : p.extensionData.map wholeWords = p.extensionData := by
    cases he : p.extensionData with
    | none => rfl
    | some e =>
      have hfits := hdata e he
      rw [Option.map_some, wholeWords, show e.2.length / 4 * 4 = e.2.length by
        have := hfits.1
        omega, List.take_length]
  cases p
  simp only [normal] at *
  rw [htype', hdata', List.take_of_length_le hsources, ← hversion, ← hpadding, ← hextension]

/-! ## Writing what was read -/

theorem announcesPadding_cons (b : UInt8) (rest : List UInt8) :
    announcesPadding (b :: rest) = hasBit b 32 := by
  rw [announcesPadding, hasBit_padding]

/-- The pads behind a datagram are what `unpadded` cuts off. -/
theorem unpadded_append {b : UInt8} (front : List UInt8) {pads : List UInt8}
    (h : IsPadding (hasBit b 32) pads) :
    unpadded (b :: (front ++ pads)) = (b &&& 0xDF) :: front := by
  have hpad : padLength (b :: (front ++ pads)) = pads.length := by
    rw [padLength, announcesPadding_cons]
    unfold IsPadding at h
    split at h
    · next hbit =>
      obtain ⟨n, hlast, hn⟩ := h
      rw [if_pos hbit, ← List.cons_append, List.getLast?_append, hlast]
      exact hn
    · next hbit =>
      rw [if_neg hbit, h]
      rfl
  rw [unpadded, hpad, clearPaddingBit, List.length_cons, List.length_append,
    show front.length + pads.length + 1 - pads.length = front.length + 1 by omega,
    List.take_succ_cons, List.take_left]

theorem serialize_of_read {data : List UInt8} {p : Packet} (h : read data = .ok p) :
    p.serialize = unpadded data := by
  match data, h with
  | b0 :: b1 :: s1 :: s0 :: t3 :: t2 :: t1 :: t0 :: r3 :: r2 :: r1 :: r0 :: bytes, h =>
    obtain ⟨hversion, sources, e, payload, pads, hsources, ⟨hextension, -⟩, hpads, rfl, rfl⟩ :=
      read_cons_eq_ok_iff.1 h
    have hcount : sources.length ≤ 15 := by omega
    have hfirst := firstByte_of_byte hversion
    have hsecond := secondByte_of_byte b1
    have hsplit := unpadded_append
      (b1 :: s1 :: s0 :: t3 :: t2 :: t1 :: t0 :: r3 :: r2 :: r1 :: r0 ::
        (sources.flatMap Net.bytes32 ++ (extensionBytes e ++ payload))) hpads
    simp only [List.cons_append, List.append_assoc] at hsplit
    rw [hsplit, serialize_eq, assemble]
    simp only [Net.bytes16_word16, Net.bytes32_word32, List.cons_append, List.nil_append]
    rw [hextension, Nat.min_eq_left hcount, hsources, hfirst, hsecond,
      List.take_of_length_le hcount]

/-! ## Both directions -/

theorem parse_eq_ok_iff {data : List UInt8} {p : Packet} :
    parse data = .ok p ↔ read data = .ok p := by
  unfold parse
  cases read data with
  | error m => exact ⟨nofun, nofun⟩
  | ok q => simp only [Except.ok.injEq]

/-- **The wire format.** A well-formed packet is read back as it is, and a datagram that is read as
a packet is written again with its padding bit cleared and its pad bytes cut off. -/
theorem wire_format :
    (∀ p : Packet, p.WellFormed → parse p.serialize = .ok p) ∧
      ∀ (data : List UInt8) (p : Packet), parse data = .ok p → p.serialize = unpadded data := by
  constructor
  · intro p hp
    have hwords : ∀ e ∈ p.extensionData, e.2.length / 4 ≤ 65535 := by
      intro e he
      have := (hp.extensionData e he).2
      omega
    have hread := read_serialize hwords
    rw [normal_of_wellFormed hp] at hread
    exact parse_eq_ok_iff.2 hread
  · intro data p h
    exact serialize_of_read (parse_eq_ok_iff.1 h)

/-- A packet with a source, an extension of one word and a payload. -/
def sample : Packet where
  version := 2
  padding := false
  extension := true
  marker := true
  payloadType := 101
  sequence := 0xFFFF
  timestamp := 0xDEADBEEF
  ssrc := 7
  csrc := [9]
  extensionData := some (0xBEDE, [1, 2, 3, 4])
  payload := [7, 7]

/-- The datagram of `sample` with two pad bytes. -/
def sampleDatagram : List UInt8 :=
  [0xB1, 0xE5, 0xFF, 0xFF, 0xDE, 0xAD, 0xBE, 0xEF, 0, 0, 0, 7, 0, 0, 0, 9, 0xBE, 0xDE, 0, 1,
    1, 2, 3, 4, 7, 7, 0, 2]

theorem wire_format_sample :
    sample.WellFormed ∧ parse sample.serialize = .ok sample ∧
      parse sampleDatagram = .ok { sample with padding := true } ∧
      ({ sample with padding := true } : Packet).serialize = unpadded sampleDatagram := by
  have hsample : sample.WellFormed :=
    ⟨rfl, rfl, by decide, by decide, rfl, fun e he => by cases he; exact ⟨rfl, by decide⟩⟩
  have hread : parse sampleDatagram = .ok { sample with padding := true } := rfl
  exact ⟨hsample, wire_format.1 sample hsample, hread, wire_format.2 _ _ hread⟩

end CallBridge.Rtp.Packet
