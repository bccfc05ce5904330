import CallBridge.Proofs.Sdp.Parsed
import Mathlib.Data.List.Forall2
import Mathlib.Data.Set.Card

/-!
# Masks as sets of payload types

A mask stands for a set of numbers below 128: those that were added to it and not removed since,
whether they were added when it was collected from a list or one by one. All that is told of a mask
is told of this set, and masks of the same set are the same word.

The machine keeps the set in a word of 128 bits, which it shifts by the number that is asked for.
Here every shift is taken with a check, for a word has no place behind its last one.

The mask of a media line is the set of the numbers written behind its transport. Lines that follow
it may tell more of its formats, but leave it with the payload types that it came with.

Results:
* `insertChecked_eq`, `eraseChecked_eq`, `containsChecked_eq`: no shift leaves the word.
* `toNat_cpop_bits`: the number of members is the number of bits that are set.
* `isSet_of_contains_iff`: membership decides all that is told of a mask.
* `contains_change`, `contains_run`: the members after one change and after all of them.
* `types_readLine`, `types_parse`: the payload types of the media lines of a text.
* `payload_sets`: masks after any changes, and the masks of the media lines of any text.
-/

namespace CallBridge

namespace PayloadMask

/-! ## Words of the machine -/

/-- A number of places to shift a word of 128 bits by, if the word has as many. -/
def places? (pt : UInt8) : Option Nat := if pt.toNat < 128 then some pt.toNat else none

/-- Whether a number is a member, by the last bit of the word shifted right. -/
def containsChecked (m : PayloadMask) (pt : UInt8) : Option Bool :=
  if pt < 128 then do
    let n ← places? pt
    return m.bits >>> n &&& 1#128 == 1#128
  else some false

/-- The mask with the bit of a payload type set. -/
def insertChecked (m : PayloadMask) (pt : UInt8) : Option PayloadMask :=
  if pt < 128 then do
    let n ← places? pt
    return ⟨m.bits ||| 1#128 <<< n⟩
  else some m

/-- The mask with the bit of a payload type cleared. -/
def eraseChecked (m : PayloadMask) (pt : UInt8) : Option PayloadMask :=
  if pt < 128 then do
    let n ← places? pt
    return ⟨m.bits &&& ~~~(1#128 <<< n)⟩
  else some m

theorem lt_128_iff {pt : UInt8} : pt < 128 ↔ pt.toNat < 128 := UInt8.lt_iff_toNat_lt

theorem places?_eq {pt : UInt8} (h : pt < 128) : places? pt = some pt.toNat :=
  if_pos (lt_128_iff.1 h)

/-- A number above 127 has no bit. -/
theorem twoPow_eq_zero {pt : UInt8} (h : ¬ pt < 128) : BitVec.twoPow 128 pt.toNat = 0#128 := by
  rw [lt_128_iff, Nat.not_lt] at h
  rw [BitVec.twoPow_eq, BitVec.shiftLeft_eq_zero h]

theorem insert_of_not_lt {pt : UInt8} (h : ¬ pt < 128) (m : PayloadMask) : m.insert pt = m := by
  rw [insert, twoPow_eq_zero h, BitVec.or_zero]

theorem erase_of_not_lt {pt : UInt8} (h : ¬ pt < 128) (m : PayloadMask) : m.erase pt = m := by
  rw [erase, twoPow_eq_zero h, BitVec.not_zero, BitVec.and_allOnes]

theorem contains_of_not_lt {pt : UInt8} (h : ¬ pt < 128) (m : PayloadMask) :
    m.contains pt = false := by
  rw [lt_128_iff, Nat.not_lt] at h
  exact contains_eq_false_of_le h

/-- The last bit of a word shifted right is the bit in the place that it was shifted by. -/
theorem last_bit_shifted (x : BitVec 128) (n : Nat) :
    (x >>> n &&& 1#128 == 1#128) = x.getLsbD n := by
  rw [BitVec.and_one_eq_setWidth_ofBool_getLsbD, BitVec.getLsbD_ushiftRight, Nat.add_zero]
  cases x.getLsbD n <;> rfl

theorem containsChecked_eq (m : PayloadMask) (pt : UInt8) :
    m.containsChecked pt = some (m.contains pt) := by
  unfold containsChecked
  split
  · next h =>
    rw [places?_eq h]
    exact congrArg some (last_bit_shifted m.bits pt.toNat)
  · next h => rw [contains_of_not_lt h]

theorem insertChecked_eq (m : PayloadMask) (pt : UInt8) :
    m.insertChecked pt = some (m.insert pt) := by
  unfold insertChecked
  split
  · next h => rw [places?_eq h, insert, BitVec.twoPow_eq]; rfl
  · next h => rw [insert_of_not_lt h]

theorem eraseChecked_eq (m : PayloadMask) (pt : UInt8) :
    m.eraseChecked pt = some (m.erase pt) := by
  unfold eraseChecked
  split
  · next h => rw [places?_eq h, erase, BitVec.twoPow_eq]; rfl
  · next h => rw [erase_of_not_lt h]

theorem cpopNatRec_eq (x : BitVec 128) (n : Nat) :
    x.cpopNatRec n 0 = ((List.range n).filter x.getLsbD).length := by
  induction n with
  | zero => rfl
  | succ n ih =>
    rw [BitVec.cpopNatRec_succ, BitVec.cpopNatRec_eq, ih, List.range_succ, List.filter_append,
      List.length_append, List.filter_singleton, Nat.zero_add]
    cases x.getLsbD n <;> rfl

/-- The number of members is the number of bits that are set. -/
theorem toNat_cpop_bits (m : PayloadMask) : m.bits.cpop.toNat = m.size := by
  rw [BitVec.toNat_cpop, cpopNatRec_eq, size]

/-! ## What is told of a set -/

/-- All that is told of a mask is told of a set. -/
structure IsSet (m : PayloadMask) (S : Set UInt8) : Prop where
  contains_iff : ∀ pt, m.contains pt = true ↔ pt ∈ S
  isEmpty_iff : m.isEmpty = true ↔ S = ∅
  size_eq : m.size = S.ncard
  mem_toList_iff : ∀ pt, pt ∈ m.toList ↔ pt ∈ S
  ascending : m.toList.Pairwise (· < ·)

theorem ascending_toList (m : PayloadMask) : m.toList.Pairwise (· < ·) := by
  rw [toList]
  refine List.Pairwise.filter _ (List.pairwise_map.2 ?_)
  refine List.Pairwise.imp_of_mem ?_ List.pairwise_lt_range
  intro i j hi hj hlt
  rw [List.mem_range] at hi hj
  exact (UInt8.ofNat_lt_iff_lt (by rw [UInt8.size]; omega) (by rw [UInt8.size]; omega)).2 hlt

theorem size_eq_length_toList (m : PayloadMask) : m.size = m.toList.length := by
  rw [size, toList, List.filter_map, List.length_map]
  refine congrArg List.length (List.filter_congr fun i hi => ?_)
  rw [List.mem_range] at hi
  rw [Function.comp_apply, contains, UInt8.toNat_ofNat_of_lt' (by rw [UInt8.size]; omega)]

theorem isEmpty_iff (m : PayloadMask) : m.isEmpty = true ↔ ∀ pt, m.contains pt = false := by
  rw [isEmpty, beq_iff_eq]
  constructor
  · intro h pt
    rw [contains, h, BitVec.ofNat_eq_ofNat, BitVec.getLsbD_zero]
  · intro h
    have hempty : m = empty := ext fun pt => by rw [h, contains_empty]
    rw [hempty, empty]

/-- Membership decides all that is told of a mask. -/
theorem isSet_of_contains_iff {m : PayloadMask} {S : Set UInt8}
    (h : ∀ pt, m.contains pt = true ↔ pt ∈ S) : m.IsSet S where
  contains_iff := h
  isEmpty_iff := by
    rw [m.isEmpty_iff, Set.eq_empty_iff_forall_notMem]
    exact forall_congr' fun pt => by rw [← h, Bool.not_eq_true]
  size_eq := by
    have hnodup : m.toList.Nodup := m.ascending_toList.imp fun hlt => UInt8.ne_of_lt hlt
    have hset : S = m.toList.toFinset := by
      ext pt
      rw [Finset.mem_coe, List.mem_toFinset, ← contains_iff_mem_toList, h]
    rw [hset, Set.ncard_coe_finset, List.toFinset_card_of_nodup hnodup, size_eq_length_toList]
  mem_toList_iff pt := by rw [← contains_iff_mem_toList, h]
  ascending := m.ascending_toList

theorem ofList_toList (m : PayloadMask) : ofList m.toList = m := by
  refine ext fun pt => ?_
  rw [contains_ofList, Bool.eq_iff_iff, Bool.and_eq_true, List.contains_iff_mem,
    ← contains_iff_mem_toList, decide_eq_true_eq, and_iff_left_iff_imp]
  intro h
  by_contra hge
  rw [contains_eq_false_of_le (by omega)] at h
  cases h

/-! ## Runs of changes -/

/-- What is done to a mask. -/
inductive Change where
  | add (pt : UInt8)
  | remove (pt : UInt8)
deriving DecidableEq, Repr, Inhabited

/-- The mask after a change. -/
def change (m : PayloadMask) : Change → PayloadMask
  | .add pt => m.insert pt
  | .remove pt => m.erase pt

/-- The mask after a change made by a shift. -/
def changeChecked (m : PayloadMask) : Change → Option PayloadMask
  | .add pt => m.insertChecked pt
  | .remove pt => m.eraseChecked pt

/-- The mask after changes. -/
def run (m : PayloadMask) (cs : List Change) : PayloadMask := cs.foldl change m

/-- The mask after changes made by shifts. -/
def runChecked (m : PayloadMask) (cs : List Change) : Option PayloadMask :=
  cs.foldlM changeChecked m

/-- The payload types that were added and not removed since. -/
def standing (cs : List Change) : Set UInt8 :=
  {pt | pt < 128 ∧ ∃ before after, cs = before ++ .add pt :: after ∧ .remove pt ∉ after}

theorem changeChecked_eq (m : PayloadMask) (c : Change) :
    m.changeChecked c = some (m.change c) := by
  cases c with
  | add pt => exact m.insertChecked_eq pt
  | remove pt => exact m.eraseChecked_eq pt

theorem runChecked_eq (m : PayloadMask) (cs : List Change) :
    m.runChecked cs = some (m.run cs) := by
  induction cs generalizing m with
  | nil => rfl
  | cons c cs ih =>
    rw [runChecked, List.foldlM_cons, changeChecked_eq]
    exact ih (m.change c)

/-- Collecting a mask from a list is adding one number after the other. -/
theorem run_map_add (pts : List UInt8) : empty.run (pts.map .add) = ofList pts := by
  rw [run, List.foldl_map]
  rfl

theorem run_append (m : PayloadMask) (cs ds : List Change) :
    m.run (cs ++ ds) = (m.run cs).run ds := List.foldl_append

theorem not_mem_standing_nil (pt : UInt8) : pt ∉ standing [] := by
  rintro ⟨-, before, after, h, -⟩
  exact List.append_ne_nil_of_right_ne_nil before (List.cons_ne_nil _ _) h.symm

/-- What stands after one more change. -/
theorem mem_standing_concat (cs : List Change) (c : Change) (pt : UInt8) :
    pt ∈ standing (cs ++ [c]) ↔
      (pt < 128 ∧ c = .add pt) ∨ (pt ∈ standing cs ∧ c ≠ .remove pt) := by
  constructor
  · rintro ⟨hpt, before, after, heq, hafter⟩
    rcases List.eq_nil_or_concat after with rfl | ⟨after, last, rfl⟩
    · exact .inl ⟨hpt, (List.append_singleton_inj.1 heq).2⟩
    · rw [List.concat_eq_append, ← List.cons_append, ← List.append_assoc] at heq
      obtain ⟨hcs, rfl⟩ := List.append_singleton_inj.1 heq
      rw [List.concat_eq_append, List.mem_append, List.mem_singleton, not_or] at hafter
      exact .inr ⟨⟨hpt, before, after, hcs, hafter.1⟩, Ne.symm hafter.2⟩
  · rintro (⟨hpt, rfl⟩ | ⟨⟨hpt, before, after, rfl, hafter⟩, hc⟩)
    · exact ⟨hpt, cs, [], rfl, List.not_mem_nil⟩
    · refine ⟨hpt, before, after ++ [c], List.append_assoc _ _ _, ?_⟩
      rw [List.mem_append, List.mem_singleton, not_or]
      exact ⟨hafter, Ne.symm hc⟩

/-- The members after a change. -/
theorem contains_change (m : PayloadMask) (c : Change) (pt : UInt8) :
    (m.change c).contains pt = true ↔
      (pt < 128 ∧ c = .add pt) ∨ (m.contains pt = true ∧ c ≠ .remove pt) := by
  cases c with
  | add q =>
    rw [change, contains_insert, lt_128_iff]
    by_cases hq : q = pt <;> simp [hq, or_comm]
  | remove q =>
    rw [change, contains_erase]
    by_cases hq : q = pt <;> simp [hq]

/-- The members after all changes are those that were added and not removed since. -/
theorem contains_run (cs : List Change) (pt : UInt8) :
    (empty.run cs).contains pt = true ↔ pt ∈ standing cs := by
  induction cs using List.reverseRecOn with
  | nil => simpa [run] using not_mem_standing_nil pt
  | append_singleton cs c ih =>
    rw [run_append, mem_standing_concat, ← ih]
    exact contains_change _ c pt

end PayloadMask

namespace Sdp

open PayloadMask

/-! ## What a media line lists -/

/-- The value of a line, if it is a media line. -/
def mediaValue? (raw : List Char) : Option (List Char) :=
  (Text.cut? '=' (Text.trim raw)).bind fun (kind, value) =>
    if kind = ['m'] then some value else none

/-- The values of the media lines of a text. -/
def mediaValues (text : String) : List (List Char) :=
  (Text.lines text.toList).filterMap mediaValue?

/-- The words behind the kind, the port and the transport of a media line, each with the payload
type that it stands for. -/
def typesWritten (value : List Char) : List (Option UInt8) :=
  ((Text.fields value).drop 3).map readWord8?

/-- The payload types of the media lines of a description. -/
def Description.types (d : Description) : List (List (Option UInt8)) :=
  d.media.map fun m => m.payloadTypes.map some

/-- A media line has the payload types that are written in it. -/
theorem typesWritten_readMedia {value : List Char} {m : Media} (h : readMedia value = .ok m) :
    typesWritten value = m.payloadTypes.map some := by
  obtain ⟨kind, port, transport, formats, n, ps, hfields, hps, rfl⟩ := readMedia_cases h
  obtain ⟨pts, hwords, -, rfl⟩ := readPayloads_cases hps
  have hsame : (pts.map Payload.ofType).map (·.payloadType) = pts := by
    rw [List.map_map]
    exact List.map_id pts
  rw [typesWritten, hfields, Media.payloadTypes, hsame]
  exact hwords

theorem payloadTypes_modifyPayload (m : Media) (pt : UInt8) {f : Payload → Payload}
    (hf : ∀ p, (f p).payloadType = p.payloadType) :
    (m.modifyPayload pt f).payloadTypes = m.payloadTypes := by
  unfold Media.modifyPayload Media.payloadTypes
  induction m.payloads with
  | nil => rfl
  | cons p ps ih =>
    dsimp only at ih ⊢
    rw [modifyFirst]
    split
    · rw [List.map_cons, List.map_cons, hf]
    · rw [List.map_cons, List.map_cons, ih]

/-- An attribute line leaves a media line with its payload types. -/
theorem payloadTypes_readAttribute {m m' : Media} {value : List Char}
    (h : readAttribute m value = .ok m') : m'.payloadTypes = m.payloadTypes := by
  cases attributed_of_readAttribute h with
  | direction d => rfl
  | encoding hformat hencoding => exact payloadTypes_modifyPayload m _ fun _ => rfl
  | formatParams hformat => exact payloadTypes_modifyPayload m _ fun _ => rfl
  | packetTime t => rfl
  | other hword hname => rfl

/-- The last media line may be replaced by another one with its payload types. -/
theorem types_withLast {d : Description} {m m' : Media} (hlast : d.media.getLast? = some m)
    (h : m'.payloadTypes = m.payloadTypes) :
    { d with media := d.media.dropLast ++ [m'] }.types = d.types := by
  obtain ⟨ms, hms⟩ := List.getLast?_eq_some_iff.1 hlast
  simp only [Description.types, hms, List.dropLast_concat, List.map_append, List.map_cons, h]

/-- A media line adds its payload types, and no other line changes any. -/
theorem types_readValue {d d' : Description} {kind value : List Char}
    (h : readValue d kind value = .ok d') :
    d'.types = d.types ++ if kind = ['m'] then [typesWritten value] else [] := by
  cases valued_of_readValue h with
  | media hm =>
    rw [if_pos rfl, typesWritten_readMedia hm]
    exact List.map_append
  | mediaConnection hc hlast =>
    rw [if_neg (by decide), List.append_nil]
    exact types_withLast hlast rfl
  | mediaAttribute hm hlast =>
    rw [if_neg (by decide), List.append_nil]
    exact types_withLast hlast (payloadTypes_readAttribute hm)
  | unknown hkind => rw [if_neg hkind, List.append_nil]
  | version | origin | sessionName | sessionConnection | timing | sessionAttribute =>
    exact (List.append_nil _).symm

theorem types_readLine {d d' : Description} {raw : List Char} (h : readLine d raw = .ok d') :
    d'.types = d.types ++ (mediaValue? raw).toList.map typesWritten := by
  obtain ⟨hblank, rfl⟩ | ⟨kind, value, hcut, hvalue⟩ := readLine_cases h
  · rw [mediaValue?, hblank]
    exact (List.append_nil _).symm
  · rw [types_readValue hvalue, mediaValue?, hcut, Option.bind_some]
    by_cases hkind : kind = ['m']
    · simp only [if_pos hkind]
      rfl
    · simp only [if_neg hkind]
      rfl

/-- The payload types of the media lines of a text, line by line. -/
theorem types_readLines {ls : List (List Char)} {n : Nat} {d d' : Description}
    (h : readLines n d ls = .ok d') :
    d'.types = d.types ++ (ls.filterMap mediaValue?).map typesWritten := by
  induction ls generalizing n d with
  | nil =>
    obtain rfl := Except.ok.inj h
    exact (List.append_nil _).symm
  | cons l ls ih =>
    rw [readLines] at h
    split at h
    · next d₁ hline =>
      rw [ih h, types_readLine hline, List.append_assoc, ← List.map_append]
      cases hl : mediaValue? l with
      | none => rw [List.filterMap_cons_none hl]; rfl
      | some v => rw [List.filterMap_cons_some hl]; rfl
    · cases h

theorem types_parse {text : String} {d : Description} (h : Description.parse text = .ok d) :
    d.types = (mediaValues text).map typesWritten :=
  types_readLines (parse_eq_ok_iff.1 h)

/-- The payload types of each media line are those that are written in it, in this order. -/
theorem forall₂_types {text : String} {d : Description} (h : Description.parse text = .ok d) :
    List.Forall₂ (fun m value => m.payloadTypes.map some = typesWritten value)
      d.media (mediaValues text) := by
  rw [← List.forall₂_map_right_iff, ← List.forall₂_map_left_iff, List.forall₂_eq_eq_eq]
  exact types_parse h

/-- The mask of a media line that was read is the set of its payload types. -/
theorem isSet_mask {m : Media} (h : m.Parsed) : m.mask.IsSet {pt | pt ∈ m.payloadTypes} := by
  refine isSet_of_contains_iff fun pt => ?_
  show _ ↔ pt ∈ m.payloadTypes
  rw [Media.mask, contains_ofList, Bool.and_eq_true, List.contains_iff_mem, decide_eq_true_eq,
    and_iff_left_iff_imp]
  intro hpt
  obtain ⟨p, hp, rfl⟩ := List.mem_map.1 hpt
  exact lt_128_iff.1 (h.payloads p hp).payloadType

/-- **Main theorem**: however a mask was collected from a list of numbers and changed since, it is
the set of the numbers below 128 that were added and not removed since, and none of the changes
shifts a word by more places than it has. Larger numbers are in no mask, and neither adding nor
removing one changes a mask. There are as many members as bits are set, the mask collected from
them is the same one, and masks with the same members are equal.

When a text is read, its media lines have the payload types that are written in them, and masks
that are the sets of these. -/
theorem payload_sets :
    (∀ (pts : List UInt8) (cs : List Change),
      empty.runChecked (pts.map .add ++ cs) = some ((ofList pts).run cs) ∧
        ((ofList pts).run cs).IsSet (standing (pts.map .add ++ cs))) ∧
    (∀ (m : PayloadMask) (pt : UInt8), m.containsChecked pt = some (m.contains pt) ∧
      (128 ≤ pt → m.contains pt = false ∧ m.insert pt = m ∧ m.erase pt = m)) ∧
    (∀ m : PayloadMask, m.bits.cpop.toNat = m.size ∧ ofList m.toList = m) ∧
    (∀ m n : PayloadMask, m = n ↔ ∀ pt, m.contains pt = n.contains pt) ∧
    ∀ (text : String) (d : Description), Description.parse text = .ok d →
      List.Forall₂ (fun m value => m.mask.IsSet {pt | pt ∈ m.payloadTypes} ∧
        m.payloadTypes.map some = typesWritten value) d.media (mediaValues text) := by
  refine ⟨fun pts cs => ?_, fun m pt => ⟨m.containsChecked_eq pt, fun hpt => ?_⟩,
    fun m => ⟨m.toNat_cpop_bits, m.ofList_toList⟩,
    fun m n => ⟨fun h pt => h ▸ rfl, PayloadMask.ext⟩, fun text d h => ?_⟩
  · rw [← run_map_add, ← run_append]
    exact ⟨runChecked_eq _ _, isSet_of_contains_iff (contains_run _)⟩
  · have hge : ¬ pt < 128 := UInt8.not_lt.2 hpt
    exact ⟨contains_of_not_lt hge m, insert_of_not_lt hge m, erase_of_not_lt hge m⟩
  · have hparsed := (parsed_of_parse h).media
    have hlines := (List.forall₂_and_left _ _).2 ⟨hparsed, forall₂_types h⟩
    exact hlines.imp fun m value hm => ⟨isSet_mask hm.1, hm.2⟩

/-- Two media lines: one that lists a payload type twice, and tells more of it afterwards, and one
that lists the largest there is. -/
def twoLines : String := "m=audio 4000 RTP/AVP 8 +0 008\na=rtpmap:8 x/1\nm=video 0 RTP/AVP 127"

/-- What is read from the two lines. -/
def twoLinesRead : Description :=
  { Description.empty with
    media := [Media.audio 4000 [⟨8, "x", 1, none, none⟩, Payload.ofType 0, Payload.ofType 8],
      { Media.audio 0 [Payload.ofType 127] with kind := .video }] }

theorem payload_sets_twoLines :
    (128 : UInt8) ≤ 200 ∧ (ofList [8, 127]).insert 200 = ofList [8, 127] ∧
    Description.parse twoLines = .ok twoLinesRead ∧
    List.Forall₂ (fun m value => m.mask.IsSet {pt | pt ∈ m.payloadTypes} ∧
      m.payloadTypes.map some = typesWritten value) twoLinesRead.media (mediaValues twoLines) := by
  have hlarge : (128 : UInt8) ≤ 200 := by decide
  have hread : Description.parse twoLines = .ok twoLinesRead := by rfl
  obtain ⟨-, hmembers, -, -, hlines⟩ := payload_sets
  exact ⟨hlarge, ((hmembers (ofList [8, 127]) 200).2 hlarge).2.1, hread, hlines _ _ hread⟩

/-- The formats are written with a sign and with zeros ahead, and are the same payload types. -/
example : (mediaValues twoLines).map typesWritten = [[some 8, some 0, some 8], [some 127]] ∧
    twoLinesRead.media.map (·.mask.toList) = [[0, 8], [127]] := by decide

end Sdp

end CallBridge
