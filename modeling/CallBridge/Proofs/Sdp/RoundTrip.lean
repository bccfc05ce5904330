import CallBridge.Proofs.Sdp.Printable

/-!
# Printed descriptions are read back

Reading goes line by line, so what a list of lines does to a description is what its parts do one
after the other. A printed description is followed through its parts: the lines of the session, and
for each media line the line itself, its connection, the lines of its formats, its packet time, its
attributes and its direction. A media line is read with bare formats, which their lines then fill
in one by one.

Results:
* `Reads.append`: lines are read one list after the other.
* `reads_payloads`: the lines of the formats fill in the formats of the last media line.
* `reads_media`: the lines of a media line add it to a description.
* `Description.Parsed.reads`: the lines of a complete description make it out of the empty one.
* `parse_render`: a printable description is read back from its text.
-/

namespace CallBridge.Sdp

open Text (IsField LineText EndsInk StartsInk)

/-! ## Reading lists of lines -/

/-- A blank line at the end does not matter. -/
theorem readLines_concat_blank (n : Nat) (d : Description) (ls : List (List Char)) :
    readLines n d (ls ++ [[]]) = readLines n d ls := by
  rw [readLines_append]
  cases readLines n d ls with
  | error e => rfl
  | ok d' =>
    show readLines _ d' [[]] = .ok d'
    rw [readLines, readLine_of_blank d' rfl]
    rfl

/-- The lines, each ended by a carriage return and a line feed, make one description out of
another. -/
structure Reads (d : Description) (ls : List (List Char)) (d' : Description) : Prop where
  noFeed : ∀ l ∈ ls, '\n' ∉ l
  readLines : ∀ n, readLines n d (ls.map (· ++ ['\r'])) = .ok d'

theorem Reads.nil (d : Description) : Reads d [] d := ⟨by simp, fun _ => rfl⟩

theorem Reads.append {d d' d'' : Description} {xs ys : List (List Char)} (hx : Reads d xs d')
    (hy : Reads d' ys d'') : Reads d (xs ++ ys) d'' := by
  constructor
  · intro l hl
    rcases List.mem_append.1 hl with hl | hl
    · exact hx.noFeed l hl
    · exact hy.noFeed l hl
  · intro n
    rw [List.map_append, readLines_append, hx.readLines n]
    exact hy.readLines _

/-- The letters of the lines that are printed. -/
def printedKinds : List Char := ['v', 'o', 's', 'c', 't', 'm', 'a']

theorem printedKinds_ink :
    ∀ k ∈ printedKinds, Text.isBlank k = false ∧ k ≠ '=' ∧ k ≠ '\n' := by
  have hall : printedKinds.all (fun k => !Text.isBlank k && k ≠ '=' && k ≠ '\n') = true := by decide
  simpa [and_assoc] using hall

theorem trim_line {kind : Char} {value : List Char} (hk : Text.isBlank kind = false)
    (hv : EndsInk value) : Text.trim (line kind value ++ ['\r']) = line kind value := by
  refine Text.trim_terminated (fun c hc => ?_) (fun c hc => ?_)
  · cases hc
    exact hk
  · rw [line, List.getLast?_cons_cons] at hc
    cases value with
    | nil =>
      cases hc
      decide
    | cons x xs =>
      rw [List.getLast?_cons_cons] at hc
      exact hv c hc

/-- A printed line is read by its letter. -/
theorem readLine_line (d : Description) {kind : Char} {value : List Char}
    (hk : kind ∈ printedKinds) (hv : EndsInk value) :
    readLine d (line kind value ++ ['\r']) = readValue d [kind] value := by
  obtain ⟨hink, hequals, -⟩ := printedKinds_ink kind hk
  have hm : '=' ∉ [kind] := by
    rw [List.mem_singleton]
    exact fun e => hequals e.symm
  have hcut : Text.cut? '=' (line kind value) = some ([kind], value) := Text.cut?_append hm value
  rw [readLine, trim_line hink hv]
  simp only [hcut]
  rfl

theorem Reads.line {d d' : Description} {kind : Char} {value : List Char}
    (hk : kind ∈ printedKinds) (hv : LineText value) (h : readValue d [kind] value = .ok d') :
    Reads d [line kind value] d' := by
  constructor
  · intro l hl hm
    rw [List.mem_singleton] at hl
    rw [hl, Sdp.line, List.mem_cons, List.mem_cons] at hm
    rcases hm with hm | hm | hm
    · exact (printedKinds_ink kind hk).2.2 hm.symm
    · exact absurd hm (by decide)
    · exact hv.noFeed hm
  · intro n
    rw [List.map_cons, List.map_nil, Sdp.readLines, readLine_line d hk hv.endsInk, h]
    rfl

/-! ## The last media line -/

/-- The description with one more media line. -/
def Description.push (d : Description) (m : Media) : Description :=
  { d with media := d.media ++ [m] }

/-- The media line with other formats. -/
def Media.withPayloads (m : Media) (ps : List Payload) : Media := { m with payloads := ps }

theorem readValue_connection_push (d : Description) (m : Media) {c : Connection}
    (h : c.PrintableAlone) :
    readValue (d.push m) ['c'] c.written = .ok (d.push { m with connection := some c }) := by
  simp only [readValue, readConnection_written h, Description.push, List.getLast?_concat,
    List.dropLast_concat, Except.map]

theorem readValue_attribute_push (d : Description) (m : Media) (value : List Char) :
    readValue (d.push m) ['a'] value = (readAttribute m value).map d.push := by
  simp only [readValue, Description.push, List.getLast?_concat, List.dropLast_concat]
  rfl

/-- An attribute line changes the last media line. -/
theorem Reads.attribute (d : Description) {m m' : Media} {value : List Char} (hv : LineText value)
    (h : readAttribute m value = .ok m') : Reads (d.push m) [Sdp.line 'a' value] (d.push m') := by
  refine Reads.line (by decide) hv ?_
  rw [readValue_attribute_push, h]
  rfl

/-! ## Formats -/

theorem modifyFirst_append {α : Type} {p : α → Bool} (f : α → α) {pre : List α} {x : α}
    (hpre : ∀ y ∈ pre, p y = false) (hx : p x = true) (post : List α) :
    modifyFirst p f (pre ++ x :: post) = pre ++ f x :: post := by
  induction pre with
  | nil => rw [List.nil_append, modifyFirst, if_pos hx, List.nil_append]
  | cons y pre ih =>
    have hy : p y = false := hpre y List.mem_cons_self
    have ih' := ih fun z hz => hpre z (List.mem_cons_of_mem _ hz)
    rw [List.cons_append, modifyFirst, if_neg (by rw [hy]; decide), ih', List.cons_append]

/-- The only format of a payload type is the one that is changed. -/
theorem Media.modifyPayload_withPayloads (m : Media) {pre : List Payload} (post : List Payload)
    {q : Payload} {pt : UInt8} (hq : q.payloadType = pt) (hpre : ∀ y ∈ pre, y.payloadType ≠ pt)
    (f : Payload → Payload) :
    (m.withPayloads (pre ++ q :: post)).modifyPayload pt f =
      m.withPayloads (pre ++ f q :: post) := by
  have h := modifyFirst_append (p := fun y : Payload => y.payloadType = pt) f (x := q)
    (fun y hy => decide_eq_false (hpre y hy)) (decide_eq_true hq) post
  rw [modifyPayload, withPayloads, h]
  rfl

theorem Payload.lineText_encodingText {p : Payload} (h : p.Parsed) : LineText p.encodingText := by
  have hpt := Text.Decimal.isField_render p.payloadType.toNat
  refine LineText.spaced (fun hm => ?_) (lineText_encodingWritten h) (by simp [encodingWritten])
  rcases List.mem_append.1 hm with hm | hm
  · exact absurd hm (by decide)
  · exact hpt.lineText.noFeed hm

theorem Payload.lineText_formatText (p : Payload) {f : String} (hf : IsLineText f) (hne : f ≠ "") :
    LineText (p.formatText f) := by
  have hpt := Text.Decimal.isField_render p.payloadType.toNat
  refine LineText.spaced (fun hm => ?_) hf (fun e => hne (String.toList_eq_nil_iff.1 e))
  rcases List.mem_append.1 hm with hm | hm
  · exact absurd hm (by decide)
  · exact hpt.lineText.noFeed hm

/-- The lines of a format are that of its encoding, then that of its parameters. -/
theorem Payload.lines_eq (p : Payload) :
    p.lines = (if p.encodingName = "" then [] else [line 'a' p.encodingText]) ++
      p.formatParams.toList.map fun f => line 'a' (p.formatText f) := rfl

/-- The line of the encoding fills in all of a bare format but its parameters. -/
theorem reads_encoding (d : Description) (m : Media) {p : Payload} (h : p.Parsed) (hc : p.Complete)
    {pre : List Payload} (post : List Payload) (hpre : ∀ y ∈ pre, y.payloadType ≠ p.payloadType) :
    Reads (d.push (m.withPayloads (pre ++ Payload.ofType p.payloadType :: post)))
      (if p.encodingName = "" then [] else [line 'a' p.encodingText])
      (d.push (m.withPayloads (pre ++ { p with formatParams := none } :: post))) := by
  by_cases hn : p.encodingName = ""
  · obtain ⟨hrate, hparams⟩ := hc hn
    have hp : Payload.ofType p.payloadType = { p with formatParams := none } := by
      rw [Payload.ofType, hn, hrate, hparams]
    rw [if_pos hn, hp]
    exact Reads.nil _
  · rw [if_neg hn]
    refine Reads.attribute d (Payload.lineText_encodingText h) ?_
    have hbare : (Payload.ofType p.payloadType).payloadType = p.payloadType := rfl
    have hchange := Media.modifyPayload_withPayloads m post hbare hpre
    rw [readAttribute_encoding _ h hn, hchange]
    rfl

/-- The line of the parameters fills in the rest. -/
theorem reads_formatParams (d : Description) (m : Media) {p : Payload} (h : p.Parsed)
    {pre : List Payload} (post : List Payload) (hpre : ∀ y ∈ pre, y.payloadType ≠ p.payloadType) :
    Reads (d.push (m.withPayloads (pre ++ { p with formatParams := none } :: post)))
      (p.formatParams.toList.map fun f => line 'a' (p.formatText f))
      (d.push (m.withPayloads (pre ++ p :: post))) := by
  cases hf : p.formatParams with
  | none =>
    have hp : { p with formatParams := none } = p := by rw [← hf]
    rw [hp]
    exact Reads.nil _
  | some f =>
    obtain ⟨hne, hline, hstarts⟩ := h.formatParams f hf
    refine Reads.attribute d (Payload.lineText_formatText p hline hne) ?_
    have hnone : ({ p with formatParams := none } : Payload).payloadType = p.payloadType := rfl
    have hchange := Media.modifyPayload_withPayloads m post hnone hpre
    rw [readAttribute_formatParams _ p hline.endsInk hstarts, hchange, ← hf]

/-- The lines of a format fill it in, unless there is nothing to fill in. -/
theorem reads_payload (d : Description) (m : Media) {p : Payload} (h : p.Parsed) (hc : p.Complete)
    {pre : List Payload} (post : List Payload)
    (hpre : ∀ y ∈ pre, p.payloadType = y.payloadType → p = Payload.ofType p.payloadType) :
    Reads (d.push (m.withPayloads (pre ++ Payload.ofType p.payloadType :: post))) p.lines
      (d.push (m.withPayloads (pre ++ p :: post))) := by
  by_cases hbare : p = Payload.ofType p.payloadType
  · have hnone : p.lines = [] := by
      rw [hbare]
      rfl
    rw [hnone, ← hbare]
    exact Reads.nil _
  · have hfirst : ∀ y ∈ pre, y.payloadType ≠ p.payloadType :=
      fun y hy e => hbare (hpre y hy e.symm)
    rw [Payload.lines_eq]
    exact (reads_encoding d m h hc post hfirst).append (reads_formatParams d m h post hfirst)

/-- The lines of formats fill in the bare formats of the last media line, behind those that are
filled in already. -/
theorem reads_payloads (d : Description) (m : Media) : ∀ (ps pre : List Payload),
    (∀ p ∈ ps, p.Parsed) → (∀ p ∈ ps, p.Complete) →
      ((pre ++ ps).Pairwise fun p q =>
        q.payloadType = p.payloadType → q = Payload.ofType q.payloadType) →
      Reads (d.push (m.withPayloads (pre ++ bare ps))) (ps.flatMap Payload.lines)
        (d.push (m.withPayloads (pre ++ ps)))
  | [], pre, _, _, _ => Reads.nil _
  | p :: ps, pre, hps, hcomplete, hrepeated => by
    have hpre : ∀ y ∈ pre, p.payloadType = y.payloadType → p = Payload.ofType p.payloadType :=
      fun y hy => (List.pairwise_append.1 hrepeated).2.2 y hy p List.mem_cons_self
    have hsplit : (pre ++ [p]) ++ ps = pre ++ p :: ps := by
      rw [List.append_assoc]
      rfl
    have hrest := reads_payloads d m ps (pre ++ [p])
      (fun q hq => hps q (List.mem_cons_of_mem _ hq))
      (fun q hq => hcomplete q (List.mem_cons_of_mem _ hq)) (by rwa [hsplit])
    rw [List.append_assoc, List.append_assoc] at hrest
    rw [List.flatMap_cons]
    exact (reads_payload d m (hps p List.mem_cons_self) (hcomplete p List.mem_cons_self) (bare ps)
      hpre).append hrest

/-! ## Media lines -/

theorem reads_attributes (d : Description) : ∀ (as : List String) (m : Media),
    (∀ s ∈ as, IsOtherAttribute s) →
      Reads (d.push m) (as.map attributeLine)
        (d.push { m with attributes := m.attributes ++ as })
  | [], m, _ => by
    rw [List.append_nil]
    exact Reads.nil _
  | s :: as, m, h => by
    have hs : IsOtherAttribute s := h s List.mem_cons_self
    have hrest := reads_attributes d as { m with attributes := m.attributes ++ [s] }
      fun t ht => h t (List.mem_cons_of_mem _ ht)
    rw [List.append_assoc] at hrest
    exact (Reads.attribute d hs.lineText (readAttribute_other m hs)).append hrest

theorem reads_connection_push (d : Description) (m : Media) {c : Option Connection}
    (hm : m.connection = none) (h : ∀ x ∈ c, x.PrintableAlone) :
    Reads (d.push m) (connectionLines c) (d.push { m with connection := c }) := by
  cases c with
  | none =>
    have hsame : { m with connection := none } = m := by rw [← hm]
    rw [hsame]
    exact Reads.nil _
  | some x =>
    have hx : x.PrintableAlone := h x rfl
    exact Reads.line (by decide) (Connection.lineText_written hx.toPrintable)
      (readValue_connection_push d m hx)

theorem reads_packetTime (d : Description) (m : Media) {t : Option UInt32}
    (hm : m.packetTime = none) :
    Reads (d.push m)
      (t.toList.map fun t => line 'a' ("ptime:".toList ++ Text.Decimal.render t.toNat))
      (d.push { m with packetTime := t }) := by
  cases t with
  | none =>
    have hsame : { m with packetTime := none } = m := by rw [← hm]
    rw [hsame]
    exact Reads.nil _
  | some t =>
    have hfield := Text.Decimal.isField_render t.toNat
    have htext : LineText ("ptime:".toList ++ Text.Decimal.render t.toNat) :=
      hfield.lineText.append (by decide) hfield.ne_nil
    exact Reads.attribute d htext (readAttribute_packetTime m t)

theorem reads_direction (d : Description) (m : Media) (x : Direction) :
    Reads (d.push m) [attributeLine x.word] (d.push { m with direction := x }) := by
  have hfield : IsField x.word.toList := by cases x <;> decide
  exact Reads.attribute d hfield.lineText (readAttribute_direction m x)

theorem reads_head (d : Description) {m : Media} (h : m.Parsed) :
    Reads d [m.head] (d.push m.bareLine) := by
  refine Reads.line (by decide) (Media.lineText_headText h) ?_
  show (readMedia m.headText).map _ = _
  rw [readMedia_written h]
  rfl

/-- The lines of a media line add it to the description. -/
theorem reads_media (d : Description) {m : Media} (h : m.Parsed) (hc : m.Complete) :
    Reads d m.lines (d.push m) := by
  have hhead := reads_head d h
  have hconnection := reads_connection_push d m.bareLine rfl
    fun c hm => (h.connection c hm).printable (hc.connection c hm)
  have hpayloads := reads_payloads d { m.bareLine with connection := m.connection } m.payloads []
    h.payloads hc.payloads h.repeated
  have htime := reads_packetTime d (t := m.packetTime)
    { m.bareLine with connection := m.connection, payloads := m.payloads } rfl
  have hattributes := reads_attributes d m.attributes
    { m.bareLine with
      connection := m.connection, payloads := m.payloads, packetTime := m.packetTime }
    h.attributes
  have hdirection := reads_direction d
    { m.bareLine with
      connection := m.connection, payloads := m.payloads, packetTime := m.packetTime
      attributes := m.attributes }
    m.direction
  exact ((((hhead.append hconnection).append hpayloads).append htime).append hattributes).append
    hdirection

theorem reads_mediaLines : ∀ (ms : List Media) (d : Description), (∀ m ∈ ms, m.Parsed) →
    (∀ m ∈ ms, m.Complete) → Reads d (ms.flatMap Media.lines) { d with media := d.media ++ ms }
  | [], d, _, _ => by
    rw [List.append_nil]
    exact Reads.nil d
  | m :: ms, d, h, hc => by
    have hrest := reads_mediaLines ms (d.push m) (fun x hx => h x (List.mem_cons_of_mem _ hx))
      fun x hx => hc x (List.mem_cons_of_mem _ hx)
    rw [Description.push, List.append_assoc] at hrest
    rw [List.flatMap_cons]
    exact (reads_media d (h m List.mem_cons_self) (hc m List.mem_cons_self)).append hrest

/-! ## The session -/

theorem reads_version (d : Description) (n : UInt32) :
    Reads d [line 'v' (Text.Decimal.render n.toNat)] { d with version := n } := by
  refine Reads.line (by decide) (Text.Decimal.isField_render _).lineText ?_
  simp only [readValue, readWord32?_render, orFault, Except.map]

theorem reads_origin (d : Description) {o : Origin} (h : o.Printable) :
    Reads d [line 'o' o.written] { d with origin := o } := by
  refine Reads.line (by decide) (Origin.lineText_written h) ?_
  simp only [readValue, readOrigin_written h, Except.map]

theorem reads_name (d : Description) {s : String} (h : IsLineText s) :
    Reads d [line 's' s.toList] { d with sessionName := s } := by
  refine Reads.line (by decide) h ?_
  simp only [readValue, String.ofList_toList]

/-- A connection ahead of the media lines is that of the session. -/
theorem reads_connection (d : Description) {c : Option Connection} (hd : d.connection = none)
    (hm : d.media = []) (h : ∀ x ∈ c, x.PrintableAlone) :
    Reads d (connectionLines c) { d with connection := c } := by
  cases c with
  | none =>
    have hsame : { d with connection := none } = d := by rw [← hd]
    rw [hsame]
    exact Reads.nil d
  | some x =>
    have hx : x.PrintableAlone := h x rfl
    refine Reads.line (by decide) (Connection.lineText_written hx.toPrintable) ?_
    simp only [readValue, readConnection_written hx, hm, List.getLast?_nil, Except.map]

theorem reads_timing (d : Description) (t : UInt64 × UInt64) :
    Reads d [line 't' (Text.Decimal.render t.1.toNat ++ ' ' :: Text.Decimal.render t.2.toNat)]
      { d with timing := t } := by
  have hstart := Text.Decimal.isField_render t.1.toNat
  have hstop := Text.Decimal.isField_render t.2.toNat
  refine Reads.line (by decide) ?_ ?_
  · exact hstop.lineText.spaced hstart.lineText.noFeed hstop.ne_nil
  · simp only [readValue, readTiming_written, Except.map]

/-- Attributes ahead of the media lines are those of the session. -/
theorem reads_sessionAttributes : ∀ (as : List String) (d : Description), d.media = [] →
    (∀ s ∈ as, IsLineText s) →
      Reads d (as.map attributeLine) { d with attributes := d.attributes ++ as }
  | [], d, _, _ => by
    rw [List.append_nil]
    exact Reads.nil d
  | s :: as, d, hm, h => by
    have hline : Reads d [attributeLine s] { d with attributes := d.attributes ++ [s] } := by
      refine Reads.line (by decide) (h s List.mem_cons_self) ?_
      simp only [readValue, hm, List.getLast?_nil, String.ofList_toList]
    have hrest := reads_sessionAttributes as { d with attributes := d.attributes ++ [s] } hm
      fun t ht => h t (List.mem_cons_of_mem _ ht)
    rw [List.append_assoc] at hrest
    exact hline.append hrest

/-- The lines of a description make it out of the empty one. -/
theorem Description.Parsed.reads {d : Description} (h : d.Parsed) (hc : d.Complete) :
    Reads Description.empty d.lines d := by
  -- each part of the session replaces a default of the empty description, in the printed order
  have hversion := reads_version Description.empty d.version
  have horigin := reads_origin { Description.empty with version := d.version } h.origin
  have hname := reads_name { Description.empty with version := d.version, origin := d.origin }
    h.sessionName
  have hconnection := reads_connection
    { Description.empty with
      version := d.version, origin := d.origin, sessionName := d.sessionName }
    rfl rfl fun c hm => (h.connection c hm).printable (hc.connection c hm)
  have htiming := reads_timing
    { Description.empty with
      version := d.version, origin := d.origin, sessionName := d.sessionName
      connection := d.connection }
    d.timing
  have hattributes := reads_sessionAttributes d.attributes
    { Description.empty with
      version := d.version, origin := d.origin, sessionName := d.sessionName
      connection := d.connection, timing := d.timing }
    rfl h.attributes
  have hmedia := reads_mediaLines d.media { d with media := [] } h.media hc.media
  exact (((((hversion.append horigin).append hname).append hconnection).append htiming).append
    hattributes).append hmedia

theorem reads_lines {d : Description} (h : d.Printable) : Reads Description.empty d.lines d :=
  h.parsed.reads h.complete

/-- **Main theorem**: a printable description is read back from its text, field for field. -/
theorem parse_render {d : Description} (h : d.Printable) :
    Description.parse d.render = .ok d := by
  have hlines := reads_lines h
  have htext : Text.lines d.render.toList = d.lines.map (· ++ ['\r']) ++ [[]] := by
    rw [Description.render, String.toList_ofList]
    exact Text.lines_terminated hlines.noFeed
  have hread : Description.ofLines (Text.lines d.render.toList) = .ok d := by
    rw [Description.ofLines, htext, readLines_append, hlines.readLines 1]
    -- the text behind the last line feed is an empty line
    show readLines _ d [[]] = .ok d
    rw [readLines, readLine_of_blank d rfl]
    rfl
  rw [Description.parse, hread]

/-- An offer of two media lines: audio with a static, a named and an event format, and a kind of
its own. -/
def sampleOffer : Description where
  version := 0
  origin := ⟨"alice", "2890844526", "1", Connection.ip4 "10.0.0.1/8"⟩
  sessionName := "a call"
  connection := some (Connection.ip4 "192.0.2.1")
  timing := (0, 3034423619)
  attributes := ["tool:bridge 1.0", "sendrecv"]
  media := [
    ⟨.audio, 49170, "RTP/AVP",
      [⟨0, "", 0, none, some "x=1; y=2"⟩, ⟨97, "L16", 44100, some 2, none⟩,
        ⟨101, "telephone-event", 8000, none, some "0-15"⟩],
      some (Connection.ip4 "192.0.2.7"), .sendOnly, some 20, ["ssrc:1 cname:a", "rtcp-mux"]⟩,
    ⟨.other "image", 0, "udptl", [], none, .inactive, none, ["T38FaxVersion:0"]⟩]

theorem parse_render_sampleOffer :
    sampleOffer.Printable ∧ Description.parse sampleOffer.render = .ok sampleOffer :=
  ⟨by decide, parse_render (by decide)⟩

end CallBridge.Sdp
