import CallBridge.Proofs.Sdp.Parsed
import CallBridge.Proofs.Sdp.RoundTrip

/-!
# What is lost when a description is printed

Reading is more lenient than printing. A connection may be read without an address and a format may
be given a rate but no name; neither is written in a way that is read back. A connection without an
address makes a text that is refused, and of a format without a name nothing is written, so that its
rate and its channels are lost. Nothing else is.

Results:
* `parse_render_of_addressed`: what is read back if every connection has an address.
* `addressed_of_parse_render`: if one has none, nothing is read back.
* `parse_render_iff`: which descriptions that were read are read back from their text.
* `not_parse_render`: not all of them are.
-/

namespace CallBridge.Sdp

open Text (IsField LineText EndsInk StartsInk)

/-! ## Formats without a name -/

/-- What is read back of a format: without a name neither its rate nor its channels. -/
def Payload.kept (p : Payload) : Payload :=
  if p.encodingName = "" then { p with clockRate := 0, encodingParams := none } else p

/-- What is read back of a media line. -/
def Media.kept (m : Media) : Media := { m with payloads := m.payloads.map Payload.kept }

/-- What is read back of a description. -/
def Description.kept (d : Description) : Description := { d with media := d.media.map Media.kept }

namespace Payload

theorem kept_eq_iff (p : Payload) : p.kept = p ↔ p.Complete := by
  obtain ⟨pt, name, rate, params, formatParams⟩ := p
  unfold kept Complete
  by_cases hn : name = ""
  · simp [hn, eq_comm]
  · simp [hn]

theorem complete_kept (p : Payload) : p.kept.Complete := by
  unfold kept
  split
  · exact fun _ => ⟨rfl, rfl⟩
  · next hn => exact fun h => absurd h hn

@[simp] theorem payloadType_kept (p : Payload) : p.kept.payloadType = p.payloadType := by
  unfold kept
  split <;> rfl

/-- Nothing that is not kept is written. -/
theorem lines_kept (p : Payload) : p.kept.lines = p.lines := by
  unfold kept
  split
  · next hn => simp [lines, hn]
  · rfl

theorem Parsed.kept {p : Payload} (h : p.Parsed) : p.kept.Parsed := by
  unfold Payload.kept
  split
  · exact { h with }
  · exact h

end Payload

theorem Media.lines_kept (m : Media) : m.kept.lines = m.lines := by
  have hhead : m.kept.head = m.head := by
    simp [head, Media.kept, List.flatMap_map]
  have hformats : m.kept.payloads.flatMap Payload.lines = m.payloads.flatMap Payload.lines := by
    simp [Media.kept, List.flatMap_map, Payload.lines_kept]
  rw [lines, lines, hhead, hformats]
  rfl

theorem Media.Parsed.kept {m : Media} (h : m.Parsed) : m.kept.Parsed where
  kind := h.kind
  transport := h.transport
  payloads := List.forall_mem_map.2 fun p hp => (h.payloads p hp).kept
  repeated := by
    refine List.pairwise_map.2 (h.repeated.imp fun {p q} hbare hsame => ?_)
    rw [Payload.payloadType_kept, Payload.payloadType_kept] at hsame
    rw [Payload.payloadType_kept, hbare hsame]
    rfl
  connection := h.connection
  attributes := h.attributes

theorem Description.lines_kept (d : Description) : d.kept.lines = d.lines := by
  simp [lines, Description.kept, List.flatMap_map, Media.lines_kept]

theorem Description.Parsed.kept {d : Description} (h : d.Parsed) : d.kept.Parsed where
  origin := h.origin
  sessionName := h.sessionName
  connection := h.connection
  attributes := h.attributes
  media := List.forall_mem_map.2 fun m hm => (h.media m hm).kept

theorem Media.kept_of_complete {m : Media} (h : m.Complete) : m.kept = m := by
  have hall : m.payloads.map Payload.kept = m.payloads.map id :=
    List.map_congr_left fun p hp => p.kept_eq_iff.2 (h.payloads p hp)
  rw [kept, hall, List.map_id]

theorem Description.kept_of_complete {d : Description} (h : d.Complete) : d.kept = d := by
  have hall : d.media.map Media.kept = d.media.map id :=
    List.map_congr_left fun m hm => Media.kept_of_complete (h.media m hm)
  rw [kept, hall, List.map_id]

/-- A description in which every connection has an address. -/
structure Description.Addressed (d : Description) : Prop where
  connection : ∀ c ∈ d.connection, c.address ≠ ""
  media : ∀ m ∈ d.media, ∀ c ∈ m.connection, c.address ≠ ""

theorem Description.Addressed.complete_kept {d : Description} (h : d.Addressed) :
    d.kept.Complete where
  connection := h.connection
  media := List.forall_mem_map.2 fun m hm =>
    ⟨h.media m hm, List.forall_mem_map.2 fun p _ => p.complete_kept⟩

/-- A description is complete if it has all addresses and is kept as a whole. -/
theorem Description.complete_iff (d : Description) :
    d.Complete ↔ d.Addressed ∧ d.kept = d := by
  constructor
  · intro h
    exact ⟨⟨h.connection, fun m hm => (h.media m hm).connection⟩, kept_of_complete h⟩
  · rintro ⟨h, hkept⟩
    rw [← hkept]
    exact h.complete_kept

/-! ## Connections without an address -/

/-- Lines that are read together can be read each. -/
theorem readLine_of_readLines {ls : List (List Char)} {n : Nat} {d d' : Description}
    (h : readLines n d ls = .ok d') {l : List Char} (hl : l ∈ ls) :
    ∃ e e', readLine e l = .ok e' := by
  induction ls generalizing n d with
  | nil => cases hl
  | cons x ls ih =>
    rw [readLines] at h
    split at h
    · next d₁ hline =>
      rcases List.mem_cons.1 hl with rfl | hl
      · exact ⟨d, d₁, hline⟩
      · exact ih h hl
    · cases h

/-- Without an address the line of a connection has only two fields. -/
theorem readLine_noAddress {c : Connection} (h : c.Parsed) (he : c.address = "")
    (d : Description) :
    readLine d (line 'c' c.written ++ ['\r']) = .error .connectionFields := by
  have hvalue : LineText (c.netType.toList ++ ' ' :: c.addrType.toList) :=
    h.addrType.lineText.spaced h.netType.lineText.noFeed h.addrType.ne_nil
  have hfields : Text.fields (c.netType.toList ++ ' ' :: c.addrType.toList) =
      [c.netType.toList, c.addrType.toList] := by
    rw [Text.fields_append h.netType, h.addrType.fields]
  have hline := readLine_line d (show 'c' ∈ printedKinds by decide) hvalue.endsInk
  -- the blank that is left at the end of the line is trimmed with the carriage return
  have htrim : Text.trim (line 'c' c.written ++ ['\r']) =
      Text.trim (line 'c' (c.netType.toList ++ ' ' :: c.addrType.toList) ++ ['\r']) := by
    have hwritten : line 'c' c.written =
        line 'c' (c.netType.toList ++ ' ' :: c.addrType.toList) ++ [' '] := by
      simp [line, Connection.written, he]
    rw [Text.trim_append_blank _ (by decide), hwritten, Text.trim_append_blank _ (by decide),
      Text.trim_append_blank _ (by decide)]
  rw [readLine, htrim, ← readLine, hline, readValue, readConnection, hfields]
  rfl

theorem address_ne_of_parse {d d' : Description} {c : Connection} (h : c.Parsed)
    (hc : line 'c' c.written ∈ d.lines) (hread : Description.parse d.render = .ok d') :
    c.address ≠ "" := by
  intro he
  have hfeed : '\n' ∉ line 'c' c.written := by
    simp [line, Connection.written, he, h.netType.lineText.noFeed, h.addrType.lineText.noFeed]
  have hmem : line 'c' c.written ++ ['\r'] ∈ Text.lines d.render.toList := by
    rw [Description.render, String.toList_ofList]
    exact Text.mem_lines_terminated hc hfeed
  unfold Description.parse at hread
  split at hread
  · next hlines =>
    obtain ⟨e, e', hline⟩ := readLine_of_readLines hlines hmem
    rw [readLine_noAddress h he e] at hline
    cases hline
  · cases hread

theorem addressed_of_parse_render {d d' : Description} (h : d.Parsed)
    (hread : Description.parse d.render = .ok d') : d.Addressed where
  connection c hc := by
    refine address_ne_of_parse (h.connection c hc) ?_ hread
    have hlines : line 'c' c.written ∈ connectionLines d.connection := by
      rw [Option.mem_def.1 hc]
      exact List.mem_singleton_self _
    simp [Description.lines, hlines]
  media m hm c hc := by
    refine address_ne_of_parse ((h.media m hm).connection c hc) ?_ hread
    have hlines : line 'c' c.written ∈ m.lines := by
      rw [Media.lines, Option.mem_def.1 hc]
      simp [connectionLines]
    exact List.mem_append_right _ (List.mem_flatMap_of_mem hm hlines)

/-- An address that is all suffix makes a text that is refused. -/
example : ∃ d, Description.parse "c=IN IP4 /24" = .ok d ∧
    ∀ d', Description.parse d.render ≠ .ok d' := by
  have hparse : Description.parse "c=IN IP4 /24" =
      .ok { Description.empty with connection := some (Connection.ip4 "") } := by rfl
  refine ⟨_, hparse, fun d' hread => ?_⟩
  exact (addressed_of_parse_render (parsed_of_parse hparse) hread).connection _ rfl rfl

/-! ## Reading back -/

theorem parse_of_reads {d d' : Description} (h : Reads Description.empty d.lines d') :
    Description.parse d.render = .ok d' := by
  have htext : Text.lines d.render.toList = d.lines.map (· ++ ['\r']) ++ [[]] := by
    rw [Description.render, String.toList_ofList]
    exact Text.lines_terminated h.noFeed
  have hread : Description.ofLines (Text.lines d.render.toList) = .ok d' := by
    rw [Description.ofLines, htext, readLines_concat_blank, h.readLines 1]
  rw [Description.parse, hread]

/-- What is kept of a description is read back if every connection has an address. -/
theorem parse_render_of_addressed {d : Description} (h : d.Parsed) (ha : d.Addressed) :
    Description.parse d.render = .ok d.kept := by
  refine parse_of_reads ?_
  rw [← d.lines_kept]
  exact h.kept.reads ha.complete_kept

/-- **Main theorem**: a description that was read is read back from its text if every connection in
it has an address and every format in it has a name, or neither a rate nor channels; and only then.

Whatever is read back otherwise lacks nothing but the rates and the channels of formats without a
name. -/
theorem parse_render_iff {text : String} {d : Description} (h : Description.parse text = .ok d) :
    (Description.parse d.render = .ok d ↔ d.Complete) ∧
      ∀ d', Description.parse d.render = .ok d' → d' = d.kept := by
  have hparsed := parsed_of_parse h
  have hkept {d' : Description} (hread : Description.parse d.render = .ok d') : d' = d.kept := by
    have hagain := parse_render_of_addressed hparsed (addressed_of_parse_render hparsed hread)
    exact Except.ok.inj (hread.symm.trans hagain)
  refine ⟨?_, fun d' => hkept⟩
  rw [d.complete_iff]
  constructor
  · intro hread
    exact ⟨addressed_of_parse_render hparsed hread, (hkept hread).symm⟩
  · rintro ⟨ha, hall⟩
    rw [parse_render_of_addressed hparsed ha, hall]

/-- An offer with a multicast suffix, a count of ports, a payload type twice, blanks in a name and
an encoding without a rate. -/
def oddOffer : String :=
  "c=IN IP4 224.2.1.1/127\nm=audio 4000/2 RTP/AVP 0 0 97\na=rtpmap:0 my codec /8000\n" ++
    "a=rtpmap:97 L16"

/-- What is read from the odd offer. -/
def oddDescription : Description :=
  { Description.empty with
    connection := some (Connection.ip4 "224.2.1.1")
    media := [Media.audio 4000
      [⟨0, "my codec ", 8000, none, none⟩, Payload.ofType 0, ⟨97, "L16", 0, none, none⟩]] }

set_option maxRecDepth 10000 in
theorem parse_oddOffer : Description.parse oddOffer = .ok oddDescription := by rfl

theorem parse_render_iff_oddOffer :
    Description.parse oddOffer = .ok oddDescription ∧ oddDescription.Complete ∧
      Description.parse oddDescription.render = .ok oddDescription := by
  have hcomplete : oddDescription.Complete := by decide
  exact ⟨parse_oddOffer, hcomplete, (parse_render_iff parse_oddOffer).1.2 hcomplete⟩

/-- An offer that gives a format a rate but no name. -/
def namelessOffer : String := "m=audio 4000 RTP/AVP 0 8 101\na=rtpmap:0 /8000"

/-- What is read from the offer. -/
def namelessDescription : Description :=
  { Description.empty with
    media := [Media.audio 4000
      [⟨0, "", 8000, none, none⟩, Payload.ofType 8, Payload.ofType 101]] }

/-- Some descriptions that were read are not read back from their text. -/
theorem not_parse_render :
    ¬ ∀ (text : String) (d : Description), Description.parse text = .ok d →
      Description.parse d.render = .ok d := by
  intro hall
  have hparse : Description.parse namelessOffer = .ok namelessDescription := by rfl
  have hread := hall namelessOffer namelessDescription hparse
  have hparsed := parsed_of_parse hparse
  have hkept := parse_render_of_addressed hparsed (addressed_of_parse_render hparsed hread)
  have hsame : namelessDescription = namelessDescription.kept :=
    Except.ok.inj (hread.symm.trans hkept)
  exact absurd hsame (by decide)

end CallBridge.Sdp
