import CallBridge.Codec.Basic
import CallBridge.Proofs.Codec.Arithmetic

/-!
# What companding does to audio

Audio that is companded and decoded again is not what it was, but near to it: each sample is moved
to the middle of its cell, on its own side of zero and in the order of the samples. The clipped
extremes of μ-law are no exception. What was decoded once is in the middle of its cells, and stays
there however often it is companded again.

Positive and negative samples go ways of their own. In μ-law both are told by their magnitude; in
A-law those of a negative sample are one less, so that no sample of A-law is heard as zero.

Results:
* `toInt_heard_muLaw`, `toInt_heard_aLaw`: a sample is heard as the middle of its cell.
* `Levels.near`, `Levels.sides`, `Levels.mono`: what follows from that for any rule of companding.
* `heard_muLawDecode`, `heard_aLawDecode`: a decoded sample is heard as it is.
* `decode_encode`, `hops_decode`: lists of samples, and any number of hops.
* `companding_faithful`: all of this for audio of any length.
-/

namespace CallBridge.Codec

open Companding

/-- What a sample is heard as after it was encoded and decoded. -/
def heard : Codec → Int16 → Int16
  | muLaw, x => muLawDecode (muLawEncode x)
  | aLaw, x => aLawDecode (aLawEncode x)
  | linear _, x => x

/-! ## Levels -/

/-- Samples are heard as levels of their magnitudes, which may differ on both sides of zero. The
levels are in the order of the magnitudes and near to them. -/
structure Levels (hop : Int16 → Int16) (up down : Nat → Nat) : Prop where
  above : ∀ x, 0 ≤ x.toInt → (hop x).toInt = up x.toInt.natAbs
  below : ∀ x, x.toInt < 0 → (hop x).toInt = -(down x.toInt.natAbs : Int)
  up_mono : Monotone up
  down_mono : Monotone down
  up_near : ∀ n ≤ 32768, up n ≤ n + (n / 32 + 8) ∧ n ≤ up n + (n / 32 + 8)
  down_near : ∀ n ≤ 32768, down n ≤ n + (n / 32 + 8) ∧ n ≤ down n + (n / 32 + 8)

namespace Levels

variable {hop : Int16 → Int16} {up down : Nat → Nat} (h : Levels hop up down)
include h

theorem near (x : Int16) :
    (x.toInt - (hop x).toInt).natAbs ≤ x.toInt.natAbs / 32 + 8 := by
  have hlow := x.le_toInt
  have hhigh := x.toInt_lt
  have hsize : x.toInt.natAbs ≤ 32768 := by omega
  rcases lt_or_ge x.toInt 0 with hnegative | hpositive
  · have hnear := h.down_near _ hsize
    rw [h.below x hnegative]
    omega
  · have hnear := h.up_near _ hsize
    rw [h.above x hpositive]
    omega

theorem sides (x : Int16) :
    (0 ≤ x.toInt → 0 ≤ (hop x).toInt) ∧ (x.toInt < 0 → (hop x).toInt ≤ 0) := by
  refine ⟨fun hpositive => ?_, fun hnegative => ?_⟩
  · rw [h.above x hpositive]
    omega
  · rw [h.below x hnegative]
    omega

theorem mono {x y : Int16} (hxy : x ≤ y) : hop x ≤ hop y := by
  rw [Int16.le_iff_toInt_le] at hxy ⊢
  rcases lt_or_ge x.toInt 0 with hx | hx
  · rcases lt_or_ge y.toInt 0 with hy | hy
    · have hlevels := h.down_mono (show y.toInt.natAbs ≤ x.toInt.natAbs by omega)
      rw [h.below x hx, h.below y hy]
      omega
    · exact Int.le_trans ((h.sides x).2 hx) ((h.sides y).1 hy)
  · have hlevels := h.up_mono (show x.toInt.natAbs ≤ y.toInt.natAbs by omega)
    rw [h.above x hx, h.above y (by omega)]
    omega

end Levels

/-! ## μ-law -/

theorem toInt_muLawDecode (b : UInt8) :
    (muLawDecode b).toInt = if 128 ≤ 255 - b.toNat then
        -(muLawMagnitude ((255 - b.toNat) / 16 % 8) ((255 - b.toNat) % 16) : Int)
      else muLawMagnitude ((255 - b.toNat) / 16 % 8) ((255 - b.toNat) % 16) := by
  have hle := muLawMagnitude_le (show (255 - b.toNat) / 16 % 8 < 8 by omega)
    (show (255 - b.toNat) % 16 < 16 by omega)
  rw [muLawDecode]
  exact Int16.toInt_ofInt_of_le (by split <;> omega) (by split <;> omega)

theorem toInt_heard_muLaw (x : Int16) :
    (heard muLaw x).toInt =
      if x.toInt < 0 then -(muLawLevel x.toInt.natAbs : Int) else muLawLevel x.toInt.natAbs := by
  obtain ⟨hfits, hsign, hmagnitude⟩ := muLawMagnitude_code (x.toInt < 0) x.toInt.natAbs
  rw [decide_eq_true_iff] at hsign
  have hcode : 255 - (muLawEncode x).toNat = muLawCode (x.toInt < 0) x.toInt.natAbs := by
    rw [muLawEncode, UInt8.toNat_ofNat']
    omega
  rw [heard, toInt_muLawDecode, hcode, hmagnitude]
  simp only [hsign]

theorem muLawLevel_mono : Monotone muLawLevel := by
  intro n m hnm
  exact Nat.sub_le_sub_right (middle_mono (by decide) (by omega)) bias

theorem muLawLevel_near (n : Nat) (hn : n ≤ 32768) :
    muLawLevel n ≤ n + (n / 32 + 8) ∧ n ≤ muLawLevel n + (n / 32 + 8) := by
  rw [muLawLevel]
  by_cases hclip : n ≤ clip
  · have hmin : min n clip + bias = n + 132 := by
      rw [Nat.min_eq_left hclip]
      rfl
    have hbelow := lt_middle (show 0 < 8 by decide) (by decide) (n + 132)
    have habove := middle_le 8 (n + 132)
    have hhalf := half_width_le 8 (n + 132)
    rw [hmin, show bias = 132 from rfl]
    omega
  · -- the greatest magnitudes are all heard as the middle of the last cell
    have hlast : min n clip + bias = 31 * (8 * 2 ^ 7) + 1023 := by
      rw [Nat.min_eq_right (Nat.le_of_not_le hclip)]
      rfl
    have hmiddle := middle_of_cell (k := 7) (q := 31) (r := 1023) (show 0 < 8 by decide)
      (.inr (by decide)) (by decide) (by decide)
    rw [hlast, hmiddle, show bias = 132 from rfl]
    rw [clip] at hclip
    omega

theorem levels_muLaw : Levels (heard muLaw) muLawLevel muLawLevel where
  above x hx := by rw [toInt_heard_muLaw, if_neg (by omega)]
  below x hx := by rw [toInt_heard_muLaw, if_pos hx]
  up_mono := muLawLevel_mono
  down_mono := muLawLevel_mono
  up_near := muLawLevel_near
  down_near := muLawLevel_near

/-- A decoded sample is heard as it is. -/
theorem heard_muLawDecode (b : UInt8) : heard muLaw (muLawDecode b) = muLawDecode b := by
  apply Int16.toInt_inj.1
  have hdecode := toInt_muLawDecode b
  have hlevel := muLawLevel_magnitude (show (255 - b.toNat) / 16 % 8 < 8 by omega)
    (show (255 - b.toNat) % 16 < 16 by omega)
  generalize muLawMagnitude ((255 - b.toNat) / 16 % 8) ((255 - b.toNat) % 16) = n at hdecode hlevel
  have hsize : (muLawDecode b).toInt.natAbs = n := by
    rw [hdecode]
    split <;> omega
  rw [toInt_heard_muLaw, hsize, hlevel]
  split at hdecode <;> split <;> omega

/-! ## A-law -/

theorem toInt_aLawDecode (b : UInt8) :
    (aLawDecode b).toInt = if 128 ≤ (b ^^^ 0x55).toNat then
        (aLawMagnitude ((b ^^^ 0x55).toNat / 16 % 8) ((b ^^^ 0x55).toNat % 16) : Int)
      else -(aLawMagnitude ((b ^^^ 0x55).toNat / 16 % 8) ((b ^^^ 0x55).toNat % 16) : Int) := by
  have hle := aLawMagnitude_le (show (b ^^^ 0x55).toNat / 16 % 8 < 8 by omega)
    (show (b ^^^ 0x55).toNat % 16 < 16 by omega)
  rw [aLawDecode]
  exact Int16.toInt_ofInt_of_le (by split <;> omega) (by split <;> omega)

theorem toInt_heard_aLaw (x : Int16) :
    (heard aLaw x).toInt =
      if 0 ≤ x.toInt then (middle 16 (aLawSize x) : Int) else -(middle 16 (aLawSize x) : Int) := by
  obtain ⟨hfits, hmagnitude⟩ := aLawMagnitude_code (aLawSize_lt x)
  have hcode : (aLawEncode x ^^^ 0x55).toNat =
      (if 0 ≤ x.toInt then 128 else 0) + aLawCode (aLawSize x / 8) := by
    rw [aLawEncode_eq, UInt8.xor_assoc, UInt8.xor_self, UInt8.xor_zero, UInt8.toNat_ofNat']
    split <;> omega
  have hsegment : (aLawEncode x ^^^ 0x55).toNat / 16 % 8 = aLawCode (aLawSize x / 8) / 16 % 8 := by
    rw [hcode]
    split <;> omega
  have hstep : (aLawEncode x ^^^ 0x55).toNat % 16 = aLawCode (aLawSize x / 8) % 16 := by
    rw [hcode]
    split <;> omega
  have hsign : 128 ≤ (aLawEncode x ^^^ 0x55).toNat ↔ 0 ≤ x.toInt := by
    rw [hcode]
    split <;> omega
  rw [heard, toInt_aLawDecode, hsegment, hstep, hmagnitude]
  simp only [hsign]

theorem middle_near (n : Nat) :
    middle 16 n ≤ n + (n / 32 + 8) ∧ n + 1 ≤ middle 16 n + (n / 32 + 8) := by
  have hbelow := lt_middle (show 0 < 16 by decide) (by decide) n
  have habove := middle_le 16 n
  have hhalf := half_width_le 16 n
  omega

theorem levels_aLaw : Levels (heard aLaw) (middle 16) (fun n => middle 16 (n - 1)) where
  above x hx := by
    rw [toInt_heard_aLaw, if_pos hx, aLawSize, if_pos hx]
    congr 2
    omega
  below x hx := by
    rw [toInt_heard_aLaw, if_neg (by omega), aLawSize, if_neg (by omega)]
    congr 3
    omega
  up_mono n m h := middle_mono (by decide) h
  down_mono n m h := middle_mono (by decide) (Nat.sub_le_sub_right h 1)
  up_near n _ := by
    have := middle_near n
    omega
  down_near n _ := by
    have := middle_near (n - 1)
    omega

/-- A decoded sample is heard as it is. -/
theorem heard_aLawDecode (b : UInt8) : heard aLaw (aLawDecode b) = aLawDecode b := by
  apply Int16.toInt_inj.1
  have hdecode := toInt_aLawDecode b
  obtain ⟨hpos, hmiddle, hbelow⟩ := middle_aLawMagnitude ((b ^^^ 0x55).toNat / 16 % 8)
    (show (b ^^^ 0x55).toNat % 16 < 16 by omega)
  generalize aLawMagnitude ((b ^^^ 0x55).toNat / 16 % 8) ((b ^^^ 0x55).toNat % 16) = n
    at hdecode hpos hmiddle hbelow
  split at hdecode
  · have hsize : (aLawDecode b).toInt.natAbs = n := by omega
    rw [levels_aLaw.above _ (by omega), hsize, hmiddle, hdecode]
  · have hsize : (aLawDecode b).toInt.natAbs = n := by omega
    rw [levels_aLaw.below _ (by omega), hsize, hbelow, hdecode]

/-! ## Audio of any length -/

/-- Samples after a number of hops, each of which encodes and decodes them. -/
def hops (c : Codec) : Nat → List Int16 → Outcome (List Int16)
  | 0, xs => .ok xs
  | n + 1, xs => c.decode (c.encode xs) >>= hops c n

/-- A payload encoded step by step, unless a step leaves its type. Linear samples take no steps. -/
def encode? : Codec → List Int16 → Option (List UInt8)
  | muLaw, xs => xs.mapM muLawEncode?
  | aLaw, xs => xs.mapM aLawEncode?
  | linear rate, xs => some ((linear rate).encode xs)

/-- A payload decoded step by step, unless a step leaves its type. -/
def decode? : Codec → List UInt8 → Option (Outcome (List Int16))
  | muLaw, payload => (payload.mapM muLawDecode?).map .ok
  | aLaw, payload => (payload.mapM aLawDecode?).map .ok
  | linear rate, payload => some ((linear rate).decode payload)

theorem decode_encode (c : Codec) (xs : List Int16) :
    c.decode (c.encode xs) = .ok (xs.map c.heard) := by
  cases c with
  | muLaw => exact congrArg Except.ok (List.map_map ..)
  | aLaw => exact congrArg Except.ok (List.map_map ..)
  | linear rate => rw [decode_encode_linear, show heard (linear rate) = id from rfl, List.map_id]

theorem mapM_some {α β : Type} {f : α → Option β} {g : α → β} (h : ∀ x, f x = some (g x))
    (xs : List α) : xs.mapM f = some (xs.map g) := by
  rw [funext h]
  exact List.mapM_pure

theorem encode?_eq (c : Codec) (xs : List Int16) : c.encode? xs = some (c.encode xs) := by
  cases c with
  | muLaw => exact mapM_some muLawEncode?_eq xs
  | aLaw => exact mapM_some aLawEncode?_eq xs
  | linear rate => rfl

theorem decode?_eq (c : Codec) (payload : List UInt8) :
    c.decode? payload = some (c.decode payload) := by
  cases c with
  | muLaw => rw [decode?, mapM_some muLawDecode?_eq]; rfl
  | aLaw => rw [decode?, mapM_some aLawDecode?_eq]; rfl
  | linear rate => rfl

theorem hops_heard {c : Codec} {xs : List Int16} (h : xs.map c.heard = xs) (n : Nat) :
    c.hops n xs = .ok xs := by
  induction n with
  | zero => rfl
  | succ n ih =>
    rw [hops, decode_encode, h]
    exact ih

/-- A codec that compands. -/
def Compands (c : Codec) : Prop := c = .muLaw ∨ c = .aLaw

namespace Compands

variable {c : Codec} (h : c.Compands)
include h

theorem exists_levels : ∃ up down, Levels c.heard up down := by
  rcases h with rfl | rfl
  · exact ⟨_, _, levels_muLaw⟩
  · exact ⟨_, _, levels_aLaw⟩

/-- Whatever a payload holds, it is decoded, and the samples are heard as they are. -/
theorem exists_decoded (payload : List UInt8) :
    ∃ ds, c.decode payload = .ok ds ∧ ds.length = payload.length ∧ ds.map c.heard = ds := by
  rcases h with rfl | rfl
  · refine ⟨payload.map muLawDecode, rfl, List.length_map _, ?_⟩
    rw [List.map_map]
    exact List.map_congr_left fun b _ => heard_muLawDecode b
  · refine ⟨payload.map aLawDecode, rfl, List.length_map _, ?_⟩
    rw [List.map_map]
    exact List.map_congr_left fun b _ => heard_aLawDecode b

end Compands

/-- **Main theorem**: what companding does to audio.

Audio that is encoded and decoded again has as many samples as before. Each of them is heard on its
own, at most 8 and a thirty-second of its size away from what it was, never on the other side of
zero, and in the order of the samples; that is so for all samples of 16 bits, the extremes among
them. A payload of any length is decoded, and whatever number of hops encode and decode its samples
again, they stay the same. Taken step by step in the integers of the machine, none of this leaves
its type. -/
theorem companding_faithful {c : Codec} (hc : c.Compands) :
    (∀ xs, ∃ ds, c.decode (c.encode xs) = .ok ds ∧ ds.length = xs.length ∧ ds = xs.map c.heard) ∧
    (∀ x : Int16, (x.toInt - (c.heard x).toInt).natAbs ≤ x.toInt.natAbs / 32 + 8) ∧
    (∀ x : Int16, (0 ≤ x.toInt → 0 ≤ (c.heard x).toInt) ∧
      (x.toInt < 0 → (c.heard x).toInt ≤ 0)) ∧
    (∀ x y, x ≤ y → c.heard x ≤ c.heard y) ∧
    (∀ payload, ∃ ds, c.decode payload = .ok ds ∧ ds.length = payload.length ∧
      ∀ n, c.hops n ds = .ok ds) ∧
    (∀ xs, c.encode? xs = some (c.encode xs)) ∧
    (∀ payload, c.decode? payload = some (c.decode payload)) := by
  obtain ⟨up, down, hlevels⟩ := hc.exists_levels
  refine ⟨fun xs => ⟨_, c.decode_encode xs, List.length_map _, rfl⟩, hlevels.near, hlevels.sides,
    fun x y => hlevels.mono, fun payload => ?_, c.encode?_eq, c.decode?_eq⟩
  obtain ⟨ds, hdecode, hlength, hheard⟩ := hc.exists_decoded payload
  exact ⟨ds, hdecode, hlength, hops_heard hheard⟩

/-- In A-law the lowest sample of all, which has no positive counterpart, is heard not far away. In
μ-law a payload with both extremes and a zero in it stays the same over three hops. -/
theorem companding_faithful_lowest :
    Compands .muLaw ∧ Compands .aLaw ∧
      (Int16.minValue.toInt - (heard .aLaw Int16.minValue).toInt).natAbs ≤ 1032 ∧
      heard .aLaw Int16.minValue ≤ heard .aLaw (-32767) ∧
      ∃ ds, Codec.muLaw.decode [0x00, 0x7F, 0xFF] = .ok ds ∧ ds.length = 3 ∧
        Codec.muLaw.hops 3 ds = .ok ds := by
  have hmu : Compands .muLaw := .inl rfl
  have ha : Compands .aLaw := .inr rfl
  obtain ⟨-, hnear, -, hmono, -⟩ := companding_faithful ha
  obtain ⟨-, -, -, -, hdecoded, -⟩ := companding_faithful hmu
  obtain ⟨ds, hdecode, hlength, hhops⟩ := hdecoded [0x00, 0x7F, 0xFF]
  exact ⟨hmu, ha, hnear Int16.minValue, hmono _ _ (by decide), ds, hdecode, hlength, hhops 3⟩

end CallBridge.Codec
