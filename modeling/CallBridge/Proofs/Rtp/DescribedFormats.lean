import CallBridge.Proofs.Rtp.CommonFormats
import CallBridge.Proofs.Rtp.StreamRuns
import CallBridge.Sdp.StaticPayload
import Mathlib.Logic.Basic

/-!
# Formats as both sides describe them

A negotiation takes a remote format for one of the local line if both have the same payload type,
or the same name and rate. A payload type that is not static means on each side what that side says
it does, the number of channels is looked at nowhere, and a codec may come by the payload type
alone. So what is sent need not be what both sides described, and these are all the ways in which
it is not.

Results:
* `Codec.Registry.fits_of_named?`, `Codec.Registry.not_fits_of_named?`: a codec that is found by
  name has the name and the rate of the format.
* `resolve_standard_cases`: the standard codecs of a format in normal form.
* `AudioStream.described_iff`: when the format that is sent is what both sides described.
* `AudioStream.not_described`: it is not always.
-/

namespace CallBridge.Codec

open Sdp (Payload)

/-- A codec has the name and the rate of a format. -/
structure Fits (c : Codec) (p : Payload) : Prop where
  name_eq : Sdp.sameName c.name p.encodingName = true
  rate_eq : c.clockRate = p.clockRate

namespace Registry

/-- The codecs that are known by name. -/
def codecs (r : Registry) : List Codec := r.byName.map (·.2)

/-- Every codec that is known by name stands under its own name and rate. -/
def Keyed (r : Registry) : Prop := ∀ e ∈ r.byName, e.1 = (Sdp.foldCase e.2.name, e.2.clockRate)

variable {r : Registry} {p : Payload} {c : Codec}

theorem Keyed.register (h : r.Keyed) (c : Codec) : (r.register c).Keyed :=
  List.forall_mem_cons.2 ⟨rfl, h⟩

theorem Keyed.registerStatic (h : r.Keyed) (pt : UInt8) (c : Codec) :
    (r.registerStatic pt c).Keyed := List.forall_mem_cons.2 ⟨rfl, h⟩

theorem keyed_standard : standard.Keyed := by
  have hempty : empty.Keyed := nofun
  exact (((hempty.registerStatic 0 .muLaw).registerStatic 8 .aLaw).register _).register _

theorem fits_iff_key (hrate : p.clockRate ≠ 0) :
    (Sdp.foldCase c.name, c.clockRate) = (Sdp.foldCase p.encodingName, lookupRate p) ↔
      c.Fits p := by
  rw [lookupRate, if_neg hrate, Prod.mk.injEq]
  exact ⟨fun h => ⟨decide_eq_true h.1, h.2⟩, fun h => ⟨of_decide_eq_true h.name_eq, h.rate_eq⟩⟩

theorem fits_of_named? (h : r.Keyed) (hrate : p.clockRate ≠ 0) (hc : r.named? p = some c) :
    c.Fits p ∧ c ∈ r.codecs := by
  unfold named? at hc
  split at hc
  · cases hc
  · obtain ⟨before, rest, hsplit, -⟩ := List.lookup_eq_some_iff.1 hc
    have hmem : ((Sdp.foldCase p.encodingName, lookupRate p), c) ∈ r.byName := by
      rw [hsplit]
      simp
    exact ⟨(fits_iff_key hrate).1 (h _ hmem).symm, List.mem_map_of_mem hmem⟩

theorem not_fits_of_named? (h : r.Keyed) (hname : p.encodingName ≠ "") (hrate : p.clockRate ≠ 0)
    (hnone : r.named? p = none) : ∀ c ∈ r.codecs, ¬ c.Fits p := by
  intro c hc hfits
  obtain ⟨e, he, rfl⟩ := List.mem_map.1 hc
  rw [named?, if_neg hname, List.lookup_eq_none_iff] at hnone
  have hkey := hnone e he
  rw [h e he, (fits_iff_key hrate).2 hfits] at hkey
  simp at hkey

end Registry

end CallBridge.Codec

namespace CallBridge.Sdp

namespace Payload

/-- The number of channels; one where a format states none. -/
def channels (p : Payload) : UInt32 := p.encodingParams.getD 1

/-- Two formats have the same name, whatever the case of the letters, and the same rate. -/
structure SameEncoding (p q : Payload) : Prop where
  name_eq : sameName p.encodingName q.encodingName = true
  rate_eq : p.clockRate = q.clockRate

end Payload

end CallBridge.Sdp

namespace CallBridge.Rtp

open Codec (Registry)
open Sdp (Description Media Payload)

/-- A payload type that has a codec of its own is used for an encoding that no codec has. -/
structure Renamed (p : Payload) : Prop where
  static : p.payloadType = 0 ∨ p.payloadType = 8
  unknown : ∀ c ∈ Registry.standard.codecs, ¬ c.Fits p

theorem mem_codecs_of_byType {pt : UInt8} {c : Codec}
    (h : Registry.standard.byType.lookup pt = some c) :
    (pt = 0 ∨ pt = 8) ∧ c ∈ Registry.standard.codecs := by
  have htable : ∀ e ∈ Registry.standard.byType,
      (e.1 = 0 ∨ e.1 = 8) ∧ e.2 ∈ Registry.standard.codecs := by decide
  obtain ⟨before, rest, hsplit, -⟩ := List.lookup_eq_some_iff.1 h
  exact htable (pt, c) (by rw [hsplit]; simp)

/-- A codec of a format in normal form has its name and rate, unless it came by the payload type
although the format is named otherwise. -/
theorem resolve_standard_cases {p : Payload} {c : Codec}
    (h : Registry.standard.resolve p.normal = some c) :
    c ∈ Registry.standard.codecs ∧ (c.Fits p.normal ∨ Renamed p.normal) := by
  have hrate := p.clockRate_normal_ne
  unfold Registry.resolve at h
  split at h
  · cases h
  rcases Option.or_eq_some_iff.1 h with hnamed | ⟨hnone, htyped⟩
  · obtain ⟨hfits, hmem⟩ := Registry.fits_of_named? Registry.keyed_standard hrate hnamed
    exact ⟨hmem, .inl hfits⟩
  · unfold Registry.typed? at htyped
    split at htyped
    · obtain ⟨hstatic, hmem⟩ := mem_codecs_of_byType htyped
      -- A static payload type without a name would have been given one.
      have hname : p.normal.encodingName ≠ "" := by
        refine p.encodingName_normal.resolve_right fun hunassigned => ?_
        rcases hstatic with hpt | hpt <;> rw [hpt] at hunassigned <;> cases hunassigned
      exact ⟨hmem, .inr ⟨hstatic,
        Registry.not_fits_of_named? Registry.keyed_standard hname hrate hnone⟩⟩
    · cases htyped

/-! ## Descriptions -/

/-- What is sent is what both sides described: the local line offers the same encoding with as many
channels, the codec has it, and there is one channel. -/
structure Described (here : Media) (p : Payload) (codec : Codec) : Prop where
  offered : ∃ l ∈ here.payloads, l.SameEncoding p ∧ l.channels = p.channels
  fits : codec.Fits p
  mono : p.channels = 1

/-- Why a remote format that is sent is not what both sides described. -/
inductive Mistaken (here : Media) (p : Payload) : Prop where
  /-- Its payload type has a codec, but stands for an encoding that none has. -/
  | renamed (h : Renamed p)
  /-- It has several channels, which no codec has. -/
  | channels (h : p.channels ≠ 1)
  /-- Its payload type is on the local line, but its encoding is not. -/
  | renumbered (h : ∃ l ∈ here.payloads, l.payloadType = p.payloadType)
      (hnone : ∀ l ∈ here.payloads, ¬ l.SameEncoding p)
  /-- Its encoding is on the local line, but with another number of channels. -/
  | otherChannels (h : ∃ l ∈ here.payloads, l.SameEncoding p)
      (hnone : ∀ l ∈ here.payloads, l.SameEncoding p → l.channels ≠ p.channels)

theorem described_iff_not_mistaken {here : Media} {p : Payload} {codec : Codec}
    (hcommon : Agreement.IsCommon Registry.standard here p.normal)
    (hcodec : Registry.standard.resolve p.normal = some codec) :
    Described here p.normal codec ↔ ¬ Mistaken here p.normal := by
  obtain ⟨hmem, hcases⟩ := resolve_standard_cases hcodec
  constructor
  · rintro ⟨⟨l, hl, hsame, hchannels⟩, hfits, hmono⟩ hmistaken
    cases hmistaken with
    | renamed h => exact h.unknown codec hmem hfits
    | channels h => exact h hmono
    | renumbered _ hnone => exact hnone l hl hsame
    | otherChannels _ hnone => exact hnone l hl hsame hchannels
  · intro hright
    have hfits : codec.Fits p.normal := hcases.resolve_right fun h => hright (.renamed h)
    have hmono : p.normal.channels = 1 := by_contra fun h => hright (.channels h)
    -- The two ways in which a format can be in common: by its number, or by its name and rate.
    refine ⟨by_contra fun hnone => ?_, hfits, hmono⟩
    by_cases hsame : ∃ l ∈ here.payloads, l.SameEncoding p.normal
    · exact hright (.otherChannels hsame fun l hl h heq => hnone ⟨l, hl, h, heq⟩)
    · obtain ⟨l, hl, hnumber | ⟨-, hname, hrate⟩⟩ := hcommon.listed
      · exact hright (.renumbered ⟨l, hl, hnumber⟩ fun k hk h => hsame ⟨k, hk, h⟩)
      · exact hsame ⟨l, hl, hname, hrate⟩

/-- A format of a description in normal form is in normal form. -/
theorem exists_normal {d : Description} {index : Nat} {line : Media} {p : Payload}
    (hline : d.normal.media[index]? = some line) (hp : p ∈ line.payloads) :
    ∃ q : Payload, p = q.normal := by
  rw [Description.normal, List.getElem?_map] at hline
  obtain ⟨m, -, rfl⟩ := Option.map_eq_some_iff.1 hline
  obtain ⟨q, -, rfl⟩ := List.mem_map.1 hp
  exact ⟨q, rfl⟩

namespace AudioStream

/-- **Main theorem**: when the format that is sent is what both sides described.

A stream with the standard codecs that was negotiated from descriptions in normal form serves the
two lines in the first remote format in common. Its encoding is offered locally with as many
channels, the codec has its name and rate, and it has one channel, unless the payload type stands
for something else on the local line or for a codec of another name, or the channels differ or are
more than one; in each of these cases it is not so. -/
theorem described_iff {s : AudioStream} (hs : s.codecs = Registry.standard) {now : Nat}
    {ours theirs : Description} {index : Nat}
    (h : (s.negotiate now ours.normal theirs.normal index).2 = .ok ()) :
    ∃ here there p codec, ours.normal.media[index]? = some here ∧
      theirs.normal.media[index]? = some there ∧
      (s.negotiate now ours.normal theirs.normal index).1.Serves here there p codec ∧
      (Described here p codec ↔ ¬ Mistaken here p) := by
  obtain ⟨here, there, p, codec, hhere, hthere, hserves⟩ := serves_of_negotiate h
  have hfirst := hserves.first
  have hhandled := hserves.handled
  rw [codecs_negotiate, hs] at hfirst hhandled
  obtain ⟨q, rfl⟩ := exists_normal hthere hfirst.mem
  exact ⟨here, there, _, codec, hhere, hthere, hserves,
    described_iff_not_mistaken hfirst.property hhandled⟩

/-- Both sides have wide-band audio, each under a number of its own. -/
theorem described_iff_mixed :
    let answer :=
      plainStream.negotiate 0 (describing ownLine).normal (describing remoteLine).normal 0
    plainStream.codecs = Registry.standard ∧ answer.2 = .ok () ∧ answer.1.sendType? = some 96 ∧
      ∃ p, p.payloadType = 96 ∧ Described ownLine p (.linear 16000) := by
  have hanswer : (plainStream.negotiate 0 (describing ownLine).normal
    (describing remoteLine).normal 0).2 = .ok () := by rfl
  obtain ⟨here, there, p, codec, hhere, hthere, hserves, hdescribed⟩ :=
    described_iff (s := plainStream) rfl hanswer
  have hown : some ownLine = some here := hhere
  have hremote : some remoteLine = some there := hthere
  obtain rfl := Option.some.inj hown
  obtain rfl := Option.some.inj hremote
  have hsends : some ((96 : UInt8), Codec.linear 16000) = some (p.payloadType, codec) :=
    hserves.sends
  obtain ⟨hpt, rfl⟩ := Prod.mk.inj (Option.some.inj hsends)
  have hformat : ∀ q ∈ remoteLine.payloads, q.payloadType = 96 →
      q = ⟨96, "l16", 16000, none, none⟩ := by decide
  obtain rfl := hformat p hserves.first.mem hpt.symm
  refine ⟨rfl, hanswer, by rfl, _, rfl, hdescribed.2 fun hmistaken => ?_⟩
  have hoffered : (⟨97, "L16", 16000, none, none⟩ : Payload) ∈ ownLine.payloads := by decide
  cases hmistaken with
  | renamed h => exact absurd h.static (by decide)
  | channels h => exact h rfl
  | renumbered _ hnone => exact hnone _ hoffered ⟨by decide, rfl⟩
  | otherChannels _ hnone => exact hnone _ hoffered ⟨by decide, rfl⟩ rfl

/-- A line with linear audio of a rate, under the number 97. -/
def linearLine (rate : UInt32) : Media := Media.audio 4000 [⟨97, "L16", rate, none, none⟩]

/-- A number that means audio of one rate here and of another rate there is taken for a format in
common. -/
theorem not_described :
    ¬ ∀ (s : AudioStream) (now : Nat) (ours theirs : Description) (index : Nat) (here there : Media)
        (p : Payload) (codec : Codec), s.codecs = Registry.standard →
      ours.normal.media[index]? = some here → theirs.normal.media[index]? = some there →
      (s.negotiate now ours.normal theirs.normal index).2 = .ok () →
      (s.negotiate now ours.normal theirs.normal index).1.Serves here there p codec →
      Described here p codec := by
  intro hall
  have hanswer : (plainStream.negotiate 0 (describing (linearLine 8000)).normal
    (describing (linearLine 16000)).normal 0).2 = .ok () := by rfl
  obtain ⟨here, there, p, codec, hhere, hthere, hserves⟩ := serves_of_negotiate hanswer
  have hdescribed := hall plainStream 0 _ _ 0 here there p codec rfl hhere hthere hanswer hserves
  have hown : some (linearLine 8000) = some here := hhere
  obtain rfl := Option.some.inj hown
  have hsends : some ((97 : UInt8), Codec.linear 16000) = some (p.payloadType, codec) :=
    hserves.sends
  obtain ⟨-, rfl⟩ := Prod.mk.inj (Option.some.inj hsends)
  obtain ⟨l, hl, hsame, -⟩ := hdescribed.offered
  have hrate : l.clockRate = 8000 := by rw [List.mem_singleton.1 hl]
  have hwrong : (8000 : UInt32) = 16000 :=
    hrate.symm.trans (hsame.rate_eq.trans hdescribed.fits.rate_eq.symm)
  cases hwrong

end AudioStream

end CallBridge.Rtp
