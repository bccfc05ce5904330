import CallBridge.Proofs.Sdp.Reprint
import CallBridge.Sdp.StaticPayload
import Mathlib.Data.List.Forall2

/-!
# Normal descriptions and their texts

A format is normal if it has a rate, and a name unless its payload type is none of the static ones.
Normalizing fills in what is unknown of a format and leaves alone what it tells.

Nothing is written of the rate of a format without a name, so a normal description is not always
read back from its text. A format that is normal without a name had none before, and of a printable
one then nothing was known that is not read back; so normalizing fills in the same once more.

Results:
* `Payload.normal_eq_iff`, `Description.normal_eq_iff`: which formats and descriptions are normal.
* `Payload.fillsIn_normal`, `Description.fillsIn_normal`: what normalizing leaves alone.
* `Payload.Complete.kept_normal`: what is read back of a format in normal form.
* `parse_render_normal_iff`: which normal descriptions are read back as they are.
* `normal_over_text`: normalizing what is read back gives the normal description again.
-/

namespace CallBridge.Sdp

/-! ## What is normal -/

/-- A format with a rate, and with a name unless nothing tells which one. -/
structure Payload.IsNormal (p : Payload) : Prop where
  named : p.encodingName ≠ "" ∨ StaticPayload.find? p.payloadType = none
  rated : p.clockRate ≠ 0

/-- A description in which every format is normal. -/
def Description.IsNormal (d : Description) : Prop :=
  ∀ m ∈ d.media, ∀ p ∈ m.payloads, p.IsNormal

theorem Payload.isNormal_normal (p : Payload) : p.normal.IsNormal :=
  ⟨encodingName_normal p, clockRate_normal_ne p⟩

/-- The normal formats are those that normalizing leaves alone. -/
theorem Payload.normal_eq_iff (p : Payload) : p.normal = p ↔ p.IsNormal :=
  ⟨fun h => h ▸ p.isNormal_normal, fun h => normal_of_named h.named h.rated⟩

theorem Media.normal_eq_iff (m : Media) : m.normal = m ↔ ∀ p ∈ m.payloads, p.IsNormal := by
  have hpayloads : m.normal = m ↔ m.payloads.map Payload.normal = m.payloads.map id := by
    rw [List.map_id]
    exact ⟨congrArg Media.payloads, fun h => by rw [normal, h]⟩
  rw [hpayloads, List.map_inj_left]
  exact forall₂_congr fun p _ => p.normal_eq_iff

/-- The normal descriptions are those that normalizing leaves alone. -/
theorem Description.normal_eq_iff (d : Description) : d.normal = d ↔ d.IsNormal := by
  have hmedia : d.normal = d ↔ d.media.map Media.normal = d.media.map id := by
    rw [List.map_id]
    exact ⟨congrArg Description.media, fun h => by rw [normal, h]⟩
  rw [hmedia, List.map_inj_left]
  exact forall₂_congr fun m _ => m.normal_eq_iff

theorem Description.isNormal_normal (d : Description) : d.normal.IsNormal := by
  refine List.forall_mem_map.2 fun m _ => List.forall_mem_map.2 fun p _ => ?_
  exact p.isNormal_normal

/-! ## What is filled in -/

/-- A format tells all that another one tells; where the other one has no name, no rate or no
channels, it may have them. -/
structure Payload.FillsIn (q p : Payload) : Prop where
  payloadType : q.payloadType = p.payloadType
  encodingName : p.encodingName ≠ "" → q.encodingName = p.encodingName
  clockRate : p.clockRate ≠ 0 → q.clockRate = p.clockRate
  encodingParams : p.encodingParams ≠ none → q.encodingParams = p.encodingParams
  formatParams : q.formatParams = p.formatParams

/-- A media line that differs from another one at most in what its formats fill in. -/
structure Media.FillsIn (n m : Media) : Prop where
  rest : n = { m with payloads := n.payloads }
  payloads : List.Forall₂ Payload.FillsIn n.payloads m.payloads

/-- A description that differs from another one at most in what its formats fill in. -/
structure Description.FillsIn (e d : Description) : Prop where
  rest : e = { d with media := e.media }
  media : List.Forall₂ Media.FillsIn e.media d.media

theorem Payload.fillsIn_named (p : Payload) : p.named.FillsIn p := by
  unfold named
  split
  · exact ⟨rfl, fun _ => rfl, fun _ => rfl, fun _ => rfl, rfl⟩
  · next s hfound =>
    split at hfound
    · next hname =>
      refine ⟨rfl, fun hne => absurd hname hne, fun hne => if_neg hne, fun hne => ?_, rfl⟩
      exact if_neg fun h => hne h.1
    · cases hfound

/-- Normalizing leaves alone whatever a format tells. -/
theorem Payload.fillsIn_normal (p : Payload) : p.normal.FillsIn p := by
  have hnamed := p.fillsIn_named
  refine ⟨hnamed.payloadType, hnamed.encodingName, fun hne => ?_, hnamed.encodingParams,
    hnamed.formatParams⟩
  have hrate := hnamed.clockRate hne
  show (if p.named.clockRate = 0 then 8000 else p.named.clockRate) = p.clockRate
  rw [hrate, if_neg hne]

theorem Media.fillsIn_normal (m : Media) : m.normal.FillsIn m :=
  ⟨rfl, List.forall₂_map_left_iff.2 (List.forall₂_same.2 fun p _ => p.fillsIn_normal)⟩

/-- Normalizing leaves alone everything but the names, rates and channels of formats, and of these
all that are known. -/
theorem Description.fillsIn_normal (d : Description) : d.normal.FillsIn d :=
  ⟨rfl, List.forall₂_map_left_iff.2 (List.forall₂_same.2 fun m _ => m.fillsIn_normal)⟩

/-! ## Writing what is normal -/

/-- The static names stand alone between blanks and slashes. -/
theorem StaticPayload.name_of_find? {pt : UInt8} {s : StaticPayload} (h : find? pt = some s) :
    ∀ c ∈ s.encodingName.toList, Text.isBlank c = false ∧ c ≠ '/' := by
  have hall : table.all (fun s => s.encodingName.toList.all fun c => !Text.isBlank c && c ≠ '/') =
      true := by decide
  simpa using List.all_eq_true.1 hall s (List.mem_of_find?_eq_some h)

theorem Payload.Printable.name_normal {p : Payload} (h : p.Printable) :
    ∀ c ∈ p.normal.encodingName.toList, Text.isBlank c = false ∧ c ≠ '/' := by
  show ∀ c ∈ p.named.encodingName.toList, _
  unfold named
  split
  · exact h.name
  · next s hfound =>
    split at hfound
    · exact StaticPayload.name_of_find? hfound
    · cases hfound

theorem Payload.Printable.parsed_normal {p : Payload} (h : p.Printable) : p.normal.Parsed where
  payloadType := by
    rw [payloadType_normal]
    exact h.payloadType
  startsInk c hc := (h.name_normal c (List.mem_of_mem_head? hc)).1
  noFeed hm := absurd (h.name_normal _ hm).1 (by decide)
  noSlash hm := (h.name_normal _ hm).2 rfl
  formatParams := by
    rw [formatParams_normal]
    exact h.formatParams

theorem Media.payloadTypes_normal (m : Media) : m.normal.payloadTypes = m.payloadTypes := by
  rw [payloadTypes, normal, List.map_map]
  exact List.map_congr_left fun p _ => p.payloadType_normal

theorem Media.Printable.parsed_normal {m : Media} (h : m.Printable) : m.normal.Parsed where
  kind := h.kind
  transport := h.transport
  payloads := List.forall_mem_map.2 fun p hp => (h.payloads p hp).parsed_normal
  repeated := by
    have hdistinct := h.distinct
    rw [← m.payloadTypes_normal] at hdistinct
    exact (List.pairwise_map.1 hdistinct).imp fun hne hsame => absurd hsame.symm hne
  connection c hc := (h.connection c hc).parsed
  attributes := h.attributes

theorem Description.Printable.parsed_normal {d : Description} (h : d.Printable) :
    d.normal.Parsed where
  origin := h.origin
  sessionName := h.sessionName
  connection c hc := (h.connection c hc).parsed
  attributes := h.attributes
  media := List.forall_mem_map.2 fun m hm => (h.media m hm).parsed_normal

theorem Description.Printable.addressed_normal {d : Description} (h : d.Printable) :
    d.normal.Addressed where
  connection := h.complete.connection
  media := List.forall_mem_map.2 fun m hm => (h.media m hm).complete.connection

/-- Of a printable description in normal form nothing is lost but the rates of formats without a
name. -/
theorem parse_render_normal {d : Description} (h : d.Printable) :
    Description.parse d.normal.render = .ok d.normal.kept :=
  parse_render_of_addressed h.parsed_normal h.addressed_normal

/-- A normal format is complete if it has a name. -/
theorem Payload.IsNormal.complete_iff {p : Payload} (h : p.IsNormal) :
    p.Complete ↔ p.encodingName ≠ "" :=
  ⟨fun hc hn => h.rated (hc hn).1, fun hne hn => absurd hn hne⟩

/-- A printable description in normal form is read back as it is if every format in it has a name by
then, and only then. -/
theorem parse_render_normal_iff {d : Description} (h : d.Printable) :
    Description.parse d.normal.render = .ok d.normal ↔
      ∀ m ∈ d.normal.media, ∀ p ∈ m.payloads, p.encodingName ≠ "" := by
  have haddressed := h.addressed_normal
  have hcomplete : d.normal.kept = d.normal ↔ d.normal.Complete := by
    rw [d.normal.complete_iff]
    exact (and_iff_right haddressed).symm
  rw [parse_render_normal h, Except.ok.injEq, hcomplete]
  constructor
  · intro hall m hm p hp
    exact (d.isNormal_normal m hm p hp).complete_iff.1 ((hall.media m hm).payloads p hp)
  · intro hnames
    refine ⟨haddressed.connection, fun m hm => ⟨haddressed.media m hm, fun p hp => ?_⟩⟩
    exact (d.isNormal_normal m hm p hp).complete_iff.2 (hnames m hm p hp)

/-! ## Normalizing what is read back -/

/-- What is read back of a complete format in normal form is the normal form, or the format as it
was. -/
theorem Payload.Complete.kept_normal {p : Payload} (h : p.Complete) :
    p.normal.kept = p.normal ∨ p.normal.kept = p := by
  by_cases hname : p.normal.encodingName = ""
  · -- nothing was filled in but the rate, and that is lost
    have hunnamed : p.encodingName = "" := by
      by_contra hne
      exact hne ((p.fillsIn_normal.encodingName hne).symm.trans hname)
    have hfound : StaticPayload.find? p.payloadType = none := by
      rw [← p.payloadType_normal]
      exact p.encodingName_normal.resolve_left (fun hne => hne hname)
    have hnamed : p.named = p := by
      rw [named, if_pos hunnamed, hfound]
    obtain ⟨hrate, hparams⟩ := h hunnamed
    refine .inr ?_
    rw [Payload.kept, if_pos hname, normal, hnamed, rated, ← hrate, ← hparams]
  · exact .inl (if_neg hname)

theorem Payload.Complete.normal_kept_normal {p : Payload} (h : p.Complete) :
    p.normal.kept.normal = p.normal := by
  rcases h.kept_normal with hkept | hkept
  · rw [hkept, normal_normal]
  · rw [hkept]

theorem Media.Complete.normal_kept_normal {m : Media} (h : m.Complete) :
    m.normal.kept.normal = m.normal := by
  have hall : ((m.payloads.map Payload.normal).map Payload.kept).map Payload.normal =
      m.payloads.map Payload.normal := by
    rw [List.map_map, List.map_map]
    exact List.map_congr_left fun p hp => (h.payloads p hp).normal_kept_normal
  rw [normal, Media.kept, normal, hall]

theorem Description.Complete.normal_kept_normal {d : Description} (h : d.Complete) :
    d.normal.kept.normal = d.normal := by
  have hall : ((d.media.map Media.normal).map Media.kept).map Media.normal =
      d.media.map Media.normal := by
    rw [List.map_map, List.map_map]
    exact List.map_congr_left fun m hm => (h.media m hm).normal_kept_normal
  rw [normal, Description.kept, normal, hall]

/-- **Main theorem**: the text of a printable description in normal form is read, and normalizing
what is read gives the normal form again. Normalizing any description makes it normal, which
normalizing once more does not change, and fills in names, rates and channels of formats that have
none, and nothing else. -/
theorem normal_over_text (d : Description) :
    (d.Printable → ∃ d', Description.parse d.normal.render = .ok d' ∧ d'.normal = d.normal) ∧
      d.normal.IsNormal ∧ d.normal.normal = d.normal ∧ d.normal.FillsIn d := by
  have hnormal : d.normal.IsNormal := d.isNormal_normal
  refine ⟨fun h => ?_, hnormal, d.normal.normal_eq_iff.2 hnormal, d.fillsIn_normal⟩
  exact ⟨d.normal.kept, parse_render_normal h, h.complete.normal_kept_normal⟩

/-- Formats with and without a name, of static payload types and of others, and with a name but no
rate. -/
def mixedOffer : Description :=
  { Description.empty with
    media := [Media.audio 4000
      [Payload.ofType 0, Payload.ofType 10, Payload.ofType 96, ⟨8, "x", 0, none, none⟩,
        ⟨97, "L16", 0, some 2, none⟩, ⟨98, "", 0, none, some "mode=20"⟩]] }

theorem normal_over_text_mixedOffer :
    mixedOffer.Printable ∧
      ∃ d, Description.parse mixedOffer.normal.render = .ok d ∧ d.normal = mixedOffer.normal := by
  have hprintable : mixedOffer.Printable := by decide
  exact ⟨hprintable, (normal_over_text mixedOffer).1 hprintable⟩

/-- The rates of the two formats without a name are filled in, and not read back. -/
example : ((mixedOffer.normal.media.flatMap Media.payloads).map (·.clockRate)) =
      [8000, 44100, 8000, 8000, 8000, 8000] ∧
    (mixedOffer.normal.kept.media.flatMap Media.payloads).map (·.clockRate) =
      [8000, 44100, 0, 8000, 8000, 0] := by decide

end CallBridge.Sdp
