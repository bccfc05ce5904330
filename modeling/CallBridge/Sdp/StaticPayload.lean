import CallBridge.Sdp.Basic

/-!
# Static payload types and normal descriptions

The audio formats that have a payload type of their own (RFC 3551), and the normal form of a
description: a format without a name takes the one of its static payload type, and a rate that is
still unknown becomes 8000 Hz.

In the media core, `Description.normal` is `normalize` of `Sdp`.

Results:
* `Payload.normal_normal`: normalizing a second time changes nothing.
* `Payload.payloadType_normal`, `Payload.formatParams_normal`: what normalizing never touches.
-/

namespace CallBridge.Sdp

/-- An audio format with a payload type of its own. -/
structure StaticPayload where
  payloadType : UInt8
  encodingName : String
  clockRate : UInt32
  channels : UInt32
deriving DecidableEq, Repr, Inhabited

namespace StaticPayload

/-- The assigned formats in the order of their payload types. G722 keeps the rate 8000 although it
samples at 16000 Hz. -/
def table : List StaticPayload :=
  [⟨0, "PCMU", 8000, 1⟩, ⟨3, "GSM", 8000, 1⟩, ⟨4, "G723", 8000, 1⟩, ⟨5, "DVI4", 8000, 1⟩,
    ⟨6, "DVI4", 16000, 1⟩, ⟨7, "LPC", 8000, 1⟩, ⟨8, "PCMA", 8000, 1⟩, ⟨9, "G722", 8000, 1⟩,
    ⟨10, "L16", 44100, 2⟩, ⟨11, "L16", 44100, 1⟩, ⟨12, "QCELP", 8000, 1⟩, ⟨13, "CN", 8000, 1⟩,
    ⟨14, "MPA", 90000, 1⟩, ⟨15, "G728", 8000, 1⟩, ⟨16, "DVI4", 11025, 1⟩, ⟨17, "DVI4", 22050, 1⟩,
    ⟨18, "G729", 8000, 1⟩]

/-- The format assigned to a payload type. -/
def find? (pt : UInt8) : Option StaticPayload := table.find? (·.payloadType = pt)

end StaticPayload

/-! ## Normal form -/

namespace Payload

/-- The format with the name, rate and channels of its static payload type where it has no name. -/
def named (p : Payload) : Payload :=
  match if p.encodingName = "" then StaticPayload.find? p.payloadType else none with
  | none => p
  | some s =>
    { p with
      encodingName := s.encodingName
      clockRate := if p.clockRate = 0 then s.clockRate else p.clockRate
      encodingParams :=
        if p.encodingParams = none ∧ 1 < s.channels then some s.channels else p.encodingParams }

/-- The format with its rate at 8000 Hz where it is unknown. -/
def rated (p : Payload) : Payload :=
  { p with clockRate := if p.clockRate = 0 then 8000 else p.clockRate }

/-- The normal form of a format. -/
def normal (p : Payload) : Payload := p.named.rated

theorem encodingName_ne_of_find? {pt : UInt8} {s : StaticPayload}
    (h : StaticPayload.find? pt = some s) : s.encodingName ≠ "" ∧ s.clockRate ≠ 0 := by
  have hm : s ∈ StaticPayload.table := List.mem_of_find?_eq_some h
  simp only [StaticPayload.table, List.mem_cons, List.not_mem_nil, or_false] at hm
  rcases hm with h | h | h | h | h | h | h | h | h | h | h | h | h | h | h | h | h <;>
    subst h <;> exact ⟨by decide, by decide⟩

theorem clockRate_normal_ne (p : Payload) : p.normal.clockRate ≠ 0 := by
  simp only [normal, rated]
  split
  · decide
  · assumption

theorem normal_of_named {p : Payload} (hn : p.encodingName ≠ "" ∨
    StaticPayload.find? p.payloadType = none) (hr : p.clockRate ≠ 0) : p.normal = p := by
  have h : p.named = p := by
    unfold named
    rcases hn with hn | hn
    · simp [hn]
    · rw [hn]; simp
  simp only [normal, h, rated, if_neg hr]

theorem payloadType_named (p : Payload) : p.named.payloadType = p.payloadType := by
  unfold named; split <;> rfl

theorem formatParams_named (p : Payload) : p.named.formatParams = p.formatParams := by
  unfold named; split <;> rfl

@[simp] theorem payloadType_normal (p : Payload) : p.normal.payloadType = p.payloadType :=
  payloadType_named p

@[simp] theorem formatParams_normal (p : Payload) : p.normal.formatParams = p.formatParams :=
  formatParams_named p

theorem encodingName_normal (p : Payload) :
    p.normal.encodingName ≠ "" ∨ StaticPayload.find? p.normal.payloadType = none := by
  rw [payloadType_normal]
  show p.named.encodingName ≠ "" ∨ _
  unfold named
  by_cases hn : p.encodingName = ""
  · rw [if_pos hn]
    cases hf : StaticPayload.find? p.payloadType with
    | none => exact .inr rfl
    | some s => exact .inl (encodingName_ne_of_find? hf).1
  · rw [if_neg hn]; exact .inl hn

theorem normal_normal (p : Payload) : p.normal.normal = p.normal :=
  normal_of_named (encodingName_normal p) (clockRate_normal_ne p)

end Payload

/-- The media line with every format in normal form. -/
def Media.normal (m : Media) : Media := { m with payloads := m.payloads.map Payload.normal }

/-- The description with every format in normal form. -/
def Description.normal (d : Description) : Description :=
  { d with media := d.media.map Media.normal }

end CallBridge.Sdp
