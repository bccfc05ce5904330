import CallBridge.Proofs.Text.Layout
import CallBridge.Sdp.Parser
import CallBridge.Sdp.Printer

/-!
# Printable descriptions

A description is printable if none of its texts can be taken for something else once it stands in a
line: fields have no blanks, texts up to the end of a line have no line feed and no blank at their
end, and the other attributes of a media line are none of those that are read in a special way.

Descriptions that were read may have more than that: blanks in the names of formats and several
formats of one payload type. They are as good as printable if they are complete. The values of the
single kinds of line are read back as they were written.

Results:
* `Description.Printable.parsed`, `Description.Printable.complete`: printable descriptions are of
  the same make, and complete.
* `readConnection_written`, `readOrigin_written`, `readTiming_written`, `readMedia_written`: what
  stands behind the letter of a line.
* `readAttribute_encoding`, `readAttribute_formatParams`, `readAttribute_packetTime`,
  `readAttribute_direction`, `readAttribute_other`: what an attribute line does to its media line.
-/

namespace CallBridge.Sdp

open Text (IsField LineText EndsInk StartsInk)

/-! ## Printable values -/

/-- A text that is one field of a line. -/
def IsToken (s : String) : Prop := IsField s.toList

/-- A text that fills a line up to its end. -/
def IsLineText (s : String) : Prop := LineText s.toList

/-- A connection of fields. -/
structure Connection.Printable (c : Connection) : Prop where
  netType : IsToken c.netType
  addrType : IsToken c.addrType
  address : IsToken c.address

/-- A connection of fields whose address has no suffix. -/
structure Connection.PrintableAlone (c : Connection) : Prop extends c.Printable where
  noSlash : '/' ∉ c.address.toList

/-- An origin of fields. -/
structure Origin.Printable (o : Origin) : Prop where
  username : IsToken o.username
  sessionId : IsToken o.sessionId
  sessionVersion : IsToken o.sessionVersion
  connection : o.connection.Printable

/-- The words of the five known kinds of media. -/
def knownKinds : List String := ["audio", "video", "application", "text", "message"]

/-- A kind of media whose token is a field, and none of the five known words for any other kind. -/
def MediaKind.Printable : MediaKind → Prop
  | .other token => IsToken token ∧ token ∉ knownKinds
  | _ => True

/-- A format whose name, if it has one, stands alone between blanks and slashes. -/
structure Payload.Printable (p : Payload) : Prop where
  payloadType : p.payloadType < 128
  name : ∀ c ∈ p.encodingName.toList, Text.isBlank c = false ∧ c ≠ '/'
  unnamed : p.encodingName = "" → p.clockRate = 0 ∧ p.encodingParams = none
  formatParams : ∀ f ∈ p.formatParams, f ≠ "" ∧ IsLineText f ∧ StartsInk f.toList

/-- The words of the four directions. -/
def directionWords : List String := ["sendrecv", "sendonly", "recvonly", "inactive"]

/-- The names of the attributes of a media line that are read in a special way. -/
def specialNames : List String := ["rtpmap", "fmtp", "ptime"]

/-- An attribute text of a media line that is no direction, and whose name has no special
meaning. -/
structure IsOtherAttribute (s : String) : Prop where
  lineText : IsLineText s
  noDirection : s ∉ directionWords
  noSpecialName : String.ofList (Text.before ':' s.toList) ∉ specialNames

/-- A media line of printable parts, with one format for each of its payload types. -/
structure Media.Printable (m : Media) : Prop where
  kind : m.kind.Printable
  transport : IsToken m.transport
  payloads : ∀ p ∈ m.payloads, p.Printable
  distinct : m.payloadTypes.Nodup
  connection : ∀ c ∈ m.connection, c.PrintableAlone
  attributes : ∀ s ∈ m.attributes, IsOtherAttribute s

/-- A description of printable parts. -/
structure Description.Printable (d : Description) : Prop where
  origin : d.origin.Printable
  sessionName : IsLineText d.sessionName
  connection : ∀ c ∈ d.connection, c.PrintableAlone
  attributes : ∀ s ∈ d.attributes, IsLineText s
  media : ∀ m ∈ d.media, m.Printable

/-! ## Values as they are read -/

/-- A connection as it is read: three fields, the last one up to its first slash. -/
structure Connection.Parsed (c : Connection) : Prop where
  netType : IsToken c.netType
  addrType : IsToken c.addrType
  address : ∀ x ∈ c.address.toList, Text.isBlank x = false ∧ x ≠ '/'

/-- A format as it is read. There may be blanks within its name. -/
structure Payload.Parsed (p : Payload) : Prop where
  payloadType : p.payloadType < 128
  startsInk : StartsInk p.encodingName.toList
  noFeed : '\n' ∉ p.encodingName.toList
  noSlash : '/' ∉ p.encodingName.toList
  formatParams : ∀ f ∈ p.formatParams, f ≠ "" ∧ IsLineText f ∧ StartsInk f.toList

/-- A media line as it is read. Of several formats of one payload type only the first one tells
more than the type. -/
structure Media.Parsed (m : Media) : Prop where
  kind : m.kind.Printable
  transport : IsToken m.transport
  payloads : ∀ p ∈ m.payloads, p.Parsed
  repeated : m.payloads.Pairwise fun p q =>
    q.payloadType = p.payloadType → q = Payload.ofType q.payloadType
  connection : ∀ c ∈ m.connection, c.Parsed
  attributes : ∀ s ∈ m.attributes, IsOtherAttribute s

/-- A description as it is read. -/
structure Description.Parsed (d : Description) : Prop where
  origin : d.origin.Printable
  sessionName : IsLineText d.sessionName
  connection : ∀ c ∈ d.connection, c.Parsed
  attributes : ∀ s ∈ d.attributes, IsLineText s
  media : ∀ m ∈ d.media, m.Parsed

/-- A format that has a name if it has a rate or channels. -/
def Payload.Complete (p : Payload) : Prop :=
  p.encodingName = "" → p.clockRate = 0 ∧ p.encodingParams = none

/-- A media line whose connection has an address and whose formats are complete. -/
structure Media.Complete (m : Media) : Prop where
  connection : ∀ c ∈ m.connection, c.address ≠ ""
  payloads : ∀ p ∈ m.payloads, p.Complete

/-- A description in which every connection has an address and every format is complete. -/
structure Description.Complete (d : Description) : Prop where
  connection : ∀ c ∈ d.connection, c.address ≠ ""
  media : ∀ m ∈ d.media, m.Complete

theorem Connection.Parsed.printable {c : Connection} (h : c.Parsed) (hc : c.address ≠ "") :
    c.PrintableAlone where
  netType := h.netType
  addrType := h.addrType
  address := ⟨fun e => hc (String.toList_eq_nil_iff.1 e), fun x hx => (h.address x hx).1⟩
  noSlash hm := (h.address _ hm).2 rfl

theorem Connection.PrintableAlone.parsed {c : Connection} (h : c.PrintableAlone) : c.Parsed where
  netType := h.netType
  addrType := h.addrType
  address x hx := ⟨h.address.nonblank x hx, fun e => h.noSlash (e ▸ hx)⟩

theorem Connection.Printable.address_ne {c : Connection} (h : c.Printable) : c.address ≠ "" :=
  fun e => h.address.ne_nil (String.toList_eq_nil_iff.2 e)

theorem Payload.Printable.parsed {p : Payload} (h : p.Printable) : p.Parsed where
  payloadType := h.payloadType
  startsInk c hc := (h.name c (List.mem_of_mem_head? hc)).1
  noFeed hm := absurd (h.name _ hm).1 (by decide)
  noSlash hm := (h.name _ hm).2 rfl
  formatParams := h.formatParams

theorem Media.Printable.parsed {m : Media} (h : m.Printable) : m.Parsed where
  kind := h.kind
  transport := h.transport
  payloads p hp := (h.payloads p hp).parsed
  repeated := (List.pairwise_map.1 h.distinct).imp fun hne hsame => absurd hsame.symm hne
  connection c hc := (h.connection c hc).parsed
  attributes := h.attributes

theorem Media.Printable.complete {m : Media} (h : m.Printable) : m.Complete where
  connection c hc := (h.connection c hc).address_ne
  payloads p hp := (h.payloads p hp).unnamed

theorem Description.Printable.parsed {d : Description} (h : d.Printable) : d.Parsed where
  origin := h.origin
  sessionName := h.sessionName
  connection c hc := (h.connection c hc).parsed
  attributes := h.attributes
  media m hm := (h.media m hm).parsed

theorem Description.Printable.complete {d : Description} (h : d.Printable) : d.Complete where
  connection c hc := (h.connection c hc).address_ne
  media m hm := (h.media m hm).complete

/-! ## Deciding whether a description is printable or complete -/

instance (s : String) : Decidable (IsToken s) := inferInstanceAs (Decidable (IsField s.toList))

instance (s : String) : Decidable (IsLineText s) := inferInstanceAs (Decidable (LineText s.toList))

instance (c : Connection) : Decidable c.Printable :=
  decidable_of_iff (IsToken c.netType ∧ IsToken c.addrType ∧ IsToken c.address)
    ⟨fun ⟨h1, h2, h3⟩ => ⟨h1, h2, h3⟩, fun ⟨h1, h2, h3⟩ => ⟨h1, h2, h3⟩⟩

instance (c : Connection) : Decidable c.PrintableAlone :=
  decidable_of_iff (c.Printable ∧ '/' ∉ c.address.toList)
    ⟨fun ⟨h1, h2⟩ => ⟨h1, h2⟩, fun ⟨h1, h2⟩ => ⟨h1, h2⟩⟩

instance (o : Origin) : Decidable o.Printable :=
  decidable_of_iff (IsToken o.username ∧ IsToken o.sessionId ∧ IsToken o.sessionVersion ∧
      o.connection.Printable)
    ⟨fun ⟨h1, h2, h3, h4⟩ => ⟨h1, h2, h3, h4⟩, fun ⟨h1, h2, h3, h4⟩ => ⟨h1, h2, h3, h4⟩⟩

instance : (k : MediaKind) → Decidable k.Printable
  | .other token => inferInstanceAs (Decidable (IsToken token ∧ token ∉ knownKinds))
  | .audio | .video | .application | .text | .message => .isTrue trivial

instance (p : Payload) : Decidable p.Printable :=
  decidable_of_iff (p.payloadType < 128 ∧
      p.encodingName.toList.all (fun c => !Text.isBlank c && c ≠ '/') = true ∧
      (p.encodingName = "" → p.clockRate = 0 ∧ p.encodingParams = none) ∧
      ∀ f ∈ p.formatParams, f ≠ "" ∧ IsLineText f ∧ StartsInk f.toList)
    ⟨fun ⟨h1, h2, h3, h4⟩ => ⟨h1, by simpa using h2, h3, h4⟩,
      fun ⟨h1, h2, h3, h4⟩ => ⟨h1, by simpa using h2, h3, h4⟩⟩

instance (s : String) : Decidable (IsOtherAttribute s) :=
  decidable_of_iff (IsLineText s ∧ s ∉ directionWords ∧
      String.ofList (Text.before ':' s.toList) ∉ specialNames)
    ⟨fun ⟨h1, h2, h3⟩ => ⟨h1, h2, h3⟩, fun ⟨h1, h2, h3⟩ => ⟨h1, h2, h3⟩⟩

instance (m : Media) : Decidable m.Printable :=
  decidable_of_iff (m.kind.Printable ∧ IsToken m.transport ∧ (∀ p ∈ m.payloads, p.Printable) ∧
      m.payloadTypes.Nodup ∧ (∀ c ∈ m.connection, c.PrintableAlone) ∧
      ∀ s ∈ m.attributes, IsOtherAttribute s)
    ⟨fun ⟨h1, h2, h3, h4, h5, h6⟩ => ⟨h1, h2, h3, h4, h5, h6⟩,
      fun ⟨h1, h2, h3, h4, h5, h6⟩ => ⟨h1, h2, h3, h4, h5, h6⟩⟩

instance (d : Description) : Decidable d.Printable :=
  decidable_of_iff (d.origin.Printable ∧ IsLineText d.sessionName ∧
      (∀ c ∈ d.connection, c.PrintableAlone) ∧ (∀ s ∈ d.attributes, IsLineText s) ∧
      ∀ m ∈ d.media, m.Printable)
    ⟨fun ⟨h1, h2, h3, h4, h5⟩ => ⟨h1, h2, h3, h4, h5⟩,
      fun ⟨h1, h2, h3, h4, h5⟩ => ⟨h1, h2, h3, h4, h5⟩⟩

instance (p : Payload) : Decidable p.Complete :=
  inferInstanceAs (Decidable (p.encodingName = "" → p.clockRate = 0 ∧ p.encodingParams = none))

instance (m : Media) : Decidable m.Complete :=
  decidable_of_iff ((∀ c ∈ m.connection, c.address ≠ "") ∧ ∀ p ∈ m.payloads, p.Complete)
    ⟨fun ⟨h1, h2⟩ => ⟨h1, h2⟩, fun ⟨h1, h2⟩ => ⟨h1, h2⟩⟩

instance (d : Description) : Decidable d.Complete :=
  decidable_of_iff ((∀ c ∈ d.connection, c.address ≠ "") ∧ ∀ m ∈ d.media, m.Complete)
    ⟨fun ⟨h1, h2⟩ => ⟨h1, h2⟩, fun ⟨h1, h2⟩ => ⟨h1, h2⟩⟩

/-! ## Numbers -/

theorem readWord8?_render (n : UInt8) : readWord8? (Text.Decimal.render n.toNat) = some n := by
  rw [readWord8?, Text.Decimal.read?_render n.toNat_lt, Option.map_some, UInt8.ofNat_toNat]

theorem readWord16?_render (n : UInt16) : readWord16? (Text.Decimal.render n.toNat) = some n := by
  rw [readWord16?, Text.Decimal.read?_render n.toNat_lt, Option.map_some, UInt16.ofNat_toNat]

theorem readWord32?_render (n : UInt32) : readWord32? (Text.Decimal.render n.toNat) = some n := by
  rw [readWord32?, Text.Decimal.read?_render n.toNat_lt, Option.map_some, UInt32.ofNat_toNat]

theorem readWord64?_render (n : UInt64) : readWord64? (Text.Decimal.render n.toNat) = some n := by
  rw [readWord64?, Text.Decimal.read?_render n.toNat_lt, Option.map_some, UInt64.ofNat_toNat]

/-! ## Connections, origins and timings -/

theorem Connection.fields_written {c : Connection} (h : c.Printable) :
    Text.fields c.written = [c.netType.toList, c.addrType.toList, c.address.toList] := by
  rw [written, List.append_assoc, List.cons_append, Text.fields_append h.netType,
    Text.fields_append h.addrType, h.address.fields]

theorem readConnection_written {c : Connection} (h : c.PrintableAlone) :
    readConnection c.written = .ok c := by
  rw [readConnection, Connection.fields_written h.toPrintable]
  simp only [Text.before_of_not_mem h.noSlash, String.ofList_toList]

theorem readOrigin_written {o : Origin} (h : o.Printable) : readOrigin o.written = .ok o := by
  have hfields : Text.fields o.written = [o.username.toList, o.sessionId.toList,
      o.sessionVersion.toList, o.connection.netType.toList, o.connection.addrType.toList,
      o.connection.address.toList] := by
    rw [Origin.written]
    simp only [List.append_assoc, List.cons_append]
    rw [Text.fields_append h.username, Text.fields_append h.sessionId,
      Text.fields_append h.sessionVersion, Connection.fields_written h.connection]
  rw [readOrigin, hfields]
  simp only [String.ofList_toList]

theorem readTiming_written (start stop : UInt64) :
    readTiming (Text.Decimal.render start.toNat ++ ' ' :: Text.Decimal.render stop.toNat) =
      .ok (start, stop) := by
  rw [readTiming, Text.fields_append (Text.Decimal.isField_render _),
    (Text.Decimal.isField_render _).fields]
  simp only [readWord64?_render]

theorem Connection.written_ne_nil (c : Connection) : c.written ≠ [] := by
  rw [written, List.append_assoc]
  exact List.append_ne_nil_of_right_ne_nil _ (List.cons_ne_nil _ _)

theorem Connection.lineText_written {c : Connection} (h : c.Printable) : LineText c.written := by
  rw [written, List.append_assoc, List.cons_append]
  refine LineText.spaced h.netType.lineText.noFeed ?_ (by simp)
  exact h.address.lineText.spaced h.addrType.lineText.noFeed h.address.ne_nil

theorem Origin.lineText_written {o : Origin} (h : o.Printable) : LineText o.written := by
  have hconnection := Connection.lineText_written h.connection
  rw [written]
  simp only [List.append_assoc, List.cons_append]
  refine LineText.spaced h.username.lineText.noFeed ?_ (by simp)
  refine LineText.spaced h.sessionId.lineText.noFeed ?_ (by simp)
  exact hconnection.spaced h.sessionVersion.lineText.noFeed o.connection.written_ne_nil

/-! ## Media lines -/

/-- The fields of a media line behind its transport. -/
def typeFields (ps : List Payload) : List (List Char) :=
  ps.map fun p => Text.Decimal.render p.payloadType.toNat

theorem fields_types (front : List Char) (hf : IsField front) (ps : List Payload) :
    Text.fields (front ++ ps.flatMap fun p => ' ' :: Text.Decimal.render p.payloadType.toNat) =
      front :: typeFields ps := by
  induction ps generalizing front with
  | nil =>
    rw [List.flatMap_nil, List.append_nil, hf.fields]
    rfl
  | cons p ps ih =>
    rw [List.flatMap_cons, List.cons_append, Text.fields_append hf,
      ih _ (Text.Decimal.isField_render _)]
    rfl

/-- The formats of which only the payload types are known yet. -/
def bare (ps : List Payload) : List Payload := ps.map fun p => Payload.ofType p.payloadType

theorem readPayloads_typeFields {ps : List Payload} (h : ∀ p ∈ ps, p.payloadType < 128) :
    readPayloads (typeFields ps) = .ok (bare ps) := by
  induction ps with
  | nil => rfl
  | cons p ps ih =>
    have hp : p.payloadType < 128 := h p List.mem_cons_self
    have ih' := ih fun q hq => h q (List.mem_cons_of_mem _ hq)
    rw [typeFields] at ih'
    rw [typeFields, List.map_cons, readPayloads, readWord8?_render, ih']
    simp only [Option.filter_some, hp, decide_true, if_true]
    rfl

theorem MediaKind.ofToken_token {k : MediaKind} (h : k.Printable) : ofToken k.token = k := by
  cases k with
  | other token =>
    have hunknown := h.2
    simp only [knownKinds, List.mem_cons, List.not_mem_nil, or_false, not_or] at hunknown
    obtain ⟨h1, h2, h3, h4, h5⟩ := hunknown
    rw [MediaKind.token, ofToken, if_neg h1, if_neg h2, if_neg h3, if_neg h4, if_neg h5]
  | audio | video | application | text | message => decide

theorem MediaKind.isToken_token {k : MediaKind} (h : k.Printable) : IsToken k.token := by
  cases k with
  | other token => exact h.1
  | audio | video | application | text | message => decide

/-- What stands behind the letter of a media line. -/
def Media.headText (m : Media) : List Char :=
  m.kind.token.toList ++ ' ' :: Text.Decimal.render m.port.toNat ++ ' ' :: m.transport.toList ++
    m.payloads.flatMap fun p => ' ' :: Text.Decimal.render p.payloadType.toNat

/-- The media line before the lines that belong to it. -/
def Media.bareLine (m : Media) : Media :=
  ⟨m.kind, m.port, m.transport, bare m.payloads, none, .sendRecv, none, []⟩

theorem readMedia_written {m : Media} (h : m.Parsed) : readMedia m.headText = .ok m.bareLine := by
  have hport := Text.Decimal.isField_render m.port.toNat
  have hslash : '/' ∉ Text.Decimal.render m.port.toNat :=
    Text.Decimal.not_mem_render _ (.inl (by decide))
  have hfields : Text.fields m.headText = m.kind.token.toList ::
      Text.Decimal.render m.port.toNat :: m.transport.toList :: typeFields m.payloads := by
    rw [Media.headText]
    simp only [List.append_assoc, List.cons_append]
    rw [Text.fields_append (MediaKind.isToken_token h.kind), Text.fields_append hport,
      fields_types _ h.transport]
  rw [readMedia, hfields]
  simp only [Text.before_of_not_mem hslash, readWord16?_render,
    readPayloads_typeFields fun p hp => (h.payloads p hp).payloadType, String.ofList_toList,
    MediaKind.ofToken_token h.kind]
  rfl

theorem lineText_types (front : List Char) (hf : IsField front) (ps : List Payload) :
    LineText (front ++ ps.flatMap fun p => ' ' :: Text.Decimal.render p.payloadType.toNat) := by
  induction ps generalizing front with
  | nil => simpa using hf.lineText
  | cons p ps ih =>
    have hp := Text.Decimal.isField_render p.payloadType.toNat
    rw [List.flatMap_cons, List.cons_append]
    exact (ih _ hp).spaced hf.lineText.noFeed
      (List.append_ne_nil_of_left_ne_nil hp.ne_nil _)

theorem Media.lineText_headText {m : Media} (h : m.Parsed) : LineText m.headText := by
  have hport := Text.Decimal.isField_render m.port.toNat
  have hkind := MediaKind.isToken_token h.kind
  have htypes := lineText_types _ h.transport m.payloads
  rw [headText]
  simp only [List.append_assoc, List.cons_append]
  refine LineText.spaced hkind.lineText.noFeed ?_ (by simp)
  exact htypes.spaced hport.lineText.noFeed
    (List.append_ne_nil_of_left_ne_nil h.transport.ne_nil _)

/-! ## Attributes of a media line -/

theorem Direction.ofWord?_eq_none {s : String} (h : s ∉ directionWords) : ofWord? s = none := by
  simp only [directionWords, List.mem_cons, List.not_mem_nil, or_false, not_or] at h
  obtain ⟨h1, h2, h3, h4⟩ := h
  rw [ofWord?, if_neg h1, if_neg h2, if_neg h3, if_neg h4]

theorem Direction.ofWord?_word (x : Direction) : ofWord? x.word = some x := by
  cases x <;> decide

/-- A text with a colon is no direction. -/
theorem Direction.ofWord?_of_colon {cs : List Char} (h : ':' ∈ cs) :
    ofWord? (String.ofList cs) = none := by
  have hwords : ∀ w ∈ directionWords, ':' ∉ w.toList := by decide
  refine ofWord?_eq_none fun hm => hwords _ hm ?_
  rwa [String.toList_ofList]

theorem attributeParts_append {name : List Char} (h : ':' ∉ name) (text : List Char) :
    attributeParts (name ++ ':' :: text) = (name, text) := by
  rw [attributeParts, Text.cut?_append h]

/-- A special name has no colon, and is no name of another attribute. -/
theorem attributeParts_special {name : String} (h : name ∈ specialNames) (text : List Char) :
    attributeParts (name.toList ++ ':' :: text) = (name.toList, text) := by
  have hcolon : ∀ w ∈ specialNames, ':' ∉ w.toList := by decide
  exact attributeParts_append (hcolon name h) text

/-- The colon behind the name of an attribute. -/
theorem append_colon {label name : String} (h : label.toList = name.toList ++ [':'])
    (text : List Char) : label.toList ++ text = name.toList ++ ':' :: text := by
  rw [h, List.append_assoc]
  rfl

theorem attributeParts_fst (cs : List Char) : (attributeParts cs).1 = Text.before ':' cs := by
  unfold attributeParts
  rcases Text.cut?_eq ':' cs with ⟨hm, hcut⟩ | ⟨rest, -, hcut⟩
  · rw [hcut, Text.before_of_not_mem hm]
  · rw [hcut]

theorem readFormat_written (pt : UInt8) {text : List Char} (hs : StartsInk text)
    (he : EndsInk text) :
    readFormat (Text.Decimal.render pt.toNat ++ ' ' :: text) = .ok (pt, text) := by
  rw [readFormat, Text.cut?_append (Text.Decimal.not_mem_render _ (.inl (by decide)))]
  simp only [readWord8?_render, Text.trim_of_ink hs he]

/-- What is written behind the name of a format. -/
theorem Payload.isField_rateWritten (rate : UInt32) (params : Option UInt32) :
    IsField ('/' :: Text.Decimal.render rate.toNat ++
      match params with
      | none => []
      | some n => '/' :: Text.Decimal.render n.toNat) := by
  refine ⟨List.cons_ne_nil _ _, fun c hc => ?_⟩
  rcases List.mem_append.1 hc with hc | hc
  · rcases List.mem_cons.1 hc with rfl | hc
    · decide
    · exact (Text.Decimal.isField_render _).nonblank c hc
  · split at hc
    · cases hc
    · rcases List.mem_cons.1 hc with rfl | hc
      · decide
      · exact (Text.Decimal.isField_render _).nonblank c hc

theorem Payload.lineText_encodingWritten {p : Payload} (h : p.Parsed) :
    LineText p.encodingWritten := by
  have htail := isField_rateWritten p.clockRate p.encodingParams
  rw [encodingWritten, List.append_assoc]
  exact htail.lineText.append h.noFeed htail.ne_nil

theorem Payload.startsInk_encodingWritten {p : Payload} (h : p.Parsed) (hn : p.encodingName ≠ "") :
    StartsInk p.encodingWritten := by
  have hname : p.encodingName.toList ≠ [] := fun e => hn (String.toList_eq_nil_iff.1 e)
  rw [encodingWritten, List.append_assoc]
  exact Text.startsInk_append h.startsInk hname

theorem readEncoding_written {p : Payload} (h : p.Parsed) :
    readEncoding p.encodingWritten = .ok (p.encodingName, p.clockRate, p.encodingParams) := by
  have hdigits : ∀ n, '/' ∉ Text.Decimal.render n := fun n =>
    Text.Decimal.not_mem_render n (.inl (by decide))
  rw [readEncoding, Payload.encodingWritten, List.append_assoc, List.cons_append,
    Text.pieces_append h.noSlash]
  cases hp : p.encodingParams with
  | none =>
    simp only [List.append_nil, Text.pieces_of_not_mem (hdigits _), readWord32?_render,
      String.ofList_toList, List.head?_nil, Option.bind_none]
  | some n =>
    simp only [Text.pieces_append (hdigits _), Text.pieces_of_not_mem (hdigits _),
      readWord32?_render, String.ofList_toList, List.head?_cons, Option.bind_some]

/-- What stands behind the letter of the line with the encoding of a format. -/
def Payload.encodingText (p : Payload) : List Char :=
  "rtpmap:".toList ++ Text.Decimal.render p.payloadType.toNat ++ ' ' :: p.encodingWritten

/-- What stands behind the letter of the line with the parameters of a format. -/
def Payload.formatText (p : Payload) (f : String) : List Char :=
  "fmtp:".toList ++ Text.Decimal.render p.payloadType.toNat ++ ' ' :: f.toList

theorem readAttribute_encoding (m : Media) {p : Payload} (h : p.Parsed)
    (hn : p.encodingName ≠ "") :
    readAttribute m p.encodingText = .ok (m.modifyPayload p.payloadType fun q =>
      { q with
        encodingName := p.encodingName
        clockRate := p.clockRate
        encodingParams := p.encodingParams }) := by
  have hsplit : p.encodingText = "rtpmap".toList ++
      ':' :: (Text.Decimal.render p.payloadType.toNat ++ ' ' :: p.encodingWritten) := by
    rw [← append_colon (show "rtpmap:".toList = "rtpmap".toList ++ [':'] by decide)]
    exact List.append_assoc _ _ _
  rw [readAttribute, Direction.ofWord?_of_colon (by rw [hsplit]; simp), hsplit]
  simp only [attributeParts_special (show "rtpmap" ∈ specialNames by decide), if_true,
    readFormat_written p.payloadType (Payload.startsInk_encodingWritten h hn)
      (Payload.lineText_encodingWritten h).endsInk, readEncoding_written h]

theorem readAttribute_formatParams (m : Media) (p : Payload) {f : String} (he : EndsInk f.toList)
    (hs : StartsInk f.toList) :
    readAttribute m (p.formatText f) =
      .ok (m.modifyPayload p.payloadType fun q => { q with formatParams := some f }) := by
  have hsplit : p.formatText f = "fmtp".toList ++
      ':' :: (Text.Decimal.render p.payloadType.toNat ++ ' ' :: f.toList) := by
    rw [← append_colon (show "fmtp:".toList = "fmtp".toList ++ [':'] by decide)]
    exact List.append_assoc _ _ _
  rw [readAttribute, Direction.ofWord?_of_colon (by rw [hsplit]; simp), hsplit]
  simp only [attributeParts_special (show "fmtp" ∈ specialNames by decide), if_true,
    if_neg (show "fmtp".toList ≠ "rtpmap".toList by decide),
    readFormat_written p.payloadType hs he, String.ofList_toList]

theorem readAttribute_packetTime (m : Media) (t : UInt32) :
    readAttribute m ("ptime:".toList ++ Text.Decimal.render t.toNat) =
      .ok { m with packetTime := some t } := by
  have hfield := Text.Decimal.isField_render t.toNat
  have hsplit : "ptime:".toList ++ Text.Decimal.render t.toNat =
      "ptime".toList ++ ':' :: Text.Decimal.render t.toNat := append_colon (by decide) _
  rw [readAttribute, Direction.ofWord?_of_colon (by rw [hsplit]; simp), hsplit]
  simp only [attributeParts_special (show "ptime" ∈ specialNames by decide), if_true,
    if_neg (show "ptime".toList ≠ "rtpmap".toList by decide),
    if_neg (show "ptime".toList ≠ "fmtp".toList by decide),
    Text.trim_of_ink hfield.startsInk hfield.endsInk, readWord32?_render]

theorem readAttribute_direction (m : Media) (x : Direction) :
    readAttribute m x.word.toList = .ok { m with direction := x } := by
  rw [readAttribute, String.ofList_toList, Direction.ofWord?_word]

theorem readAttribute_other (m : Media) {s : String} (h : IsOtherAttribute s) :
    readAttribute m s.toList = .ok { m with attributes := m.attributes ++ [s] } := by
  have hname := h.noSpecialName
  rw [← attributeParts_fst] at hname
  simp only [specialNames, List.mem_cons, List.not_mem_nil, or_false, not_or] at hname
  obtain ⟨hrtpmap, hfmtp, hptime⟩ := hname
  have hne : ∀ {w : String}, String.ofList (attributeParts s.toList).1 ≠ w →
      (attributeParts s.toList).1 ≠ w.toList := by
    intro w hw e
    exact hw (by rw [e, String.ofList_toList])
  rw [readAttribute, String.ofList_toList, Direction.ofWord?_eq_none h.noDirection]
  simp only [if_neg (hne hrtpmap), if_neg (hne hfmtp), if_neg (hne hptime)]

end CallBridge.Sdp
