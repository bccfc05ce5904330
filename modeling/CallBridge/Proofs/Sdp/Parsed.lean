import CallBridge.Proofs.Sdp.Printable
import CallBridge.Proofs.Text.Parts

/-!
# What reading brings about

Whatever the text is, the descriptions read from it are of a certain make: fields have no blanks,
texts fit into lines, names have no slashes, and of several formats of one payload type only the
first one is ever filled in. This holds of the empty description, and every line keeps it.

Results:
* `readPayloads_cases`, `readMedia_cases`, `attributed_of_readAttribute`, `valued_of_readValue`,
  `readLine_cases`: what may come of a line that is read.
* `readConnection_parsed`, `readOrigin_printable`, `readMedia_parsed`: values of single lines.
* `readAttribute_parsed`: what an attribute line makes of a media line.
* `readValue_parsed`, `readLine_parsed`: what a line makes of a description.
* `parsed_of_parse`: all descriptions that are read are of that make.
-/

namespace CallBridge.Sdp

open Text (IsField LineText EndsInk StartsInk)

/-! ## Values of single lines -/

theorem isToken_of_mem_fields {cs w : List Char} (h : w ∈ Text.fields cs) :
    IsToken (String.ofList w) := by
  rw [IsToken, String.toList_ofList]
  exact Text.isField_of_mem_fields h

theorem isLineText_ofList {cs : List Char} (h : LineText cs) : IsLineText (String.ofList cs) := by
  rwa [IsLineText, String.toList_ofList]

theorem readConnection_parsed {value : List Char} {c : Connection}
    (h : readConnection value = .ok c) : c.Parsed := by
  unfold readConnection at h
  split at h
  · next net addr address more hfields =>
    have hfield {w : List Char} (hw : w ∈ net :: addr :: address :: more) :
        w ∈ Text.fields value := hfields ▸ hw
    obtain rfl := Except.ok.inj h
    refine ⟨isToken_of_mem_fields (hfield (by simp)), isToken_of_mem_fields (hfield (by simp)), ?_⟩
    intro x hx
    rw [String.toList_ofList] at hx
    obtain ⟨hx, hslash⟩ := Text.mem_before hx
    exact ⟨Text.nonblank_of_mem_fields (hfield (by simp)) x hx, hslash⟩
  · cases h

theorem readOrigin_printable {value : List Char} {o : Origin} (h : readOrigin value = .ok o) :
    o.Printable := by
  unfold readOrigin at h
  split at h
  · next user id version net addr address hfields =>
    have htoken {w : List Char} (hw : w ∈ [user, id, version, net, addr, address]) :
        IsToken (String.ofList w) := isToken_of_mem_fields (hfields ▸ hw)
    obtain rfl := Except.ok.inj h
    exact ⟨htoken (by simp), htoken (by simp), htoken (by simp),
      htoken (by simp), htoken (by simp), htoken (by simp)⟩
  · cases h

theorem MediaKind.printable_ofToken {token : String} (h : IsToken token) :
    (ofToken token).Printable := by
  unfold ofToken
  split
  · trivial
  split
  · trivial
  split
  · trivial
  split
  · trivial
  split
  · trivial
  · exact ⟨h, by simp_all [knownKinds]⟩

/-! ## Formats -/

theorem Payload.parsed_ofType {pt : UInt8} (h : pt < 128) : (Payload.ofType pt).Parsed where
  payloadType := h
  startsInk := nofun
  noFeed := List.not_mem_nil
  noSlash := List.not_mem_nil
  formatParams := nofun

/-- Formats that are read are those of the payload types that their words stand for. -/
theorem readPayloads_cases {ws : List (List Char)} {ps : List Payload}
    (h : readPayloads ws = .ok ps) :
    ∃ pts : List UInt8, ws.map readWord8? = pts.map some ∧ (∀ pt ∈ pts, pt < 128) ∧
      ps = pts.map Payload.ofType := by
  induction ws generalizing ps with
  | nil =>
    obtain rfl := Except.ok.inj h
    exact ⟨[], rfl, nofun, rfl⟩
  | cons w ws ih =>
    rw [readPayloads] at h
    split at h
    · cases h
    · next pt hpt =>
      obtain ⟨hword, hlt⟩ := Option.filter_eq_some_iff.1 hpt
      split at h
      · next qs hqs =>
        obtain rfl := Except.ok.inj h
        obtain ⟨pts, hwords, hlts, rfl⟩ := ih hqs
        refine ⟨pt :: pts, ?_, List.forall_mem_cons.2 ⟨of_decide_eq_true hlt, hlts⟩, rfl⟩
        rw [List.map_cons, List.map_cons, hword, hwords]
      · cases h

/-- The formats of a media line are bare as long as nothing else is read. -/
theorem readPayloads_bare {ws : List (List Char)} {ps : List Payload}
    (h : readPayloads ws = .ok ps) :
    ∀ p ∈ ps, p.payloadType < 128 ∧ p = Payload.ofType p.payloadType := by
  obtain ⟨pts, -, hlts, rfl⟩ := readPayloads_cases h
  exact List.forall_mem_map.2 fun pt hpt => ⟨hlts pt hpt, rfl⟩

/-- A media line that is read has a kind, a port, a transport and formats. -/
theorem readMedia_cases {value : List Char} {m : Media} (h : readMedia value = .ok m) :
    ∃ kind port transport formats n ps,
      Text.fields value = kind :: port :: transport :: formats ∧ readPayloads formats = .ok ps ∧
      m = ⟨MediaKind.ofToken (String.ofList kind), n, String.ofList transport, ps, none, .sendRecv,
        none, []⟩ := by
  unfold readMedia at h
  split at h
  · cases h
  · cases h
  · next kind port more hfields =>
    split at h
    · cases h
    · next n _ =>
      split at h
      · cases h
      · next transport formats =>
        split at h
        · cases h
        · next ps hps =>
          exact ⟨kind, port, transport, formats, n, ps, hfields, hps, (Except.ok.inj h).symm⟩

theorem readMedia_parsed {value : List Char} {m : Media} (h : readMedia value = .ok m) :
    m.Parsed := by
  obtain ⟨kind, port, transport, formats, n, ps, hfields, hps, rfl⟩ := readMedia_cases h
  have htoken {w : List Char} (hw : w ∈ kind :: port :: transport :: formats) :
      IsToken (String.ofList w) := isToken_of_mem_fields (hfields ▸ hw)
  have hbare := readPayloads_bare hps
  exact {
    kind := MediaKind.printable_ofToken (htoken (by simp))
    transport := htoken (by simp)
    payloads := fun p hp => (hbare p hp).2 ▸ Payload.parsed_ofType (hbare p hp).1
    repeated := List.pairwise_of_forall_mem_list fun _ _ q hq _ => (hbare q hq).2
    connection := nofun
    attributes := nofun }

/-- What is in a list after its first element of a kind was changed was there before, or comes of
the one that was changed. -/
theorem mem_modifyFirst {α : Type} {p : α → Bool} {f : α → α} {xs : List α} {y : α}
    (h : y ∈ modifyFirst p f xs) : y ∈ xs ∨ ∃ x ∈ xs, p x = true ∧ y = f x := by
  induction xs with
  | nil => cases h
  | cons x xs ih =>
    rw [modifyFirst] at h
    split at h
    · next hx =>
      rcases List.mem_cons.1 h with rfl | h
      · exact .inr ⟨x, List.mem_cons_self, hx, rfl⟩
      · exact .inl (List.mem_cons_of_mem _ h)
    · rcases List.mem_cons.1 h with rfl | h
      · exact .inl List.mem_cons_self
      · rcases ih h with h | ⟨z, hz, hpz, rfl⟩
        · exact .inl (List.mem_cons_of_mem _ h)
        · exact .inr ⟨z, List.mem_cons_of_mem _ hz, hpz, rfl⟩

/-- Of several formats of one payload type the first one is changed, so the others stay bare. -/
theorem repeated_modifyFirst {pt : UInt8} {f : Payload → Payload}
    (hf : ∀ p, (f p).payloadType = p.payloadType) {ps : List Payload}
    (h : ps.Pairwise fun p q => q.payloadType = p.payloadType → q = Payload.ofType q.payloadType) :
    (modifyFirst (·.payloadType = pt) f ps).Pairwise fun p q =>
      q.payloadType = p.payloadType → q = Payload.ofType q.payloadType := by
  induction ps with
  | nil => exact .nil
  | cons p ps ih =>
    obtain ⟨hp, hps⟩ := List.pairwise_cons.1 h
    rw [modifyFirst]
    split
    · refine List.pairwise_cons.2 ⟨fun q hq hsame => hp q hq ?_, hps⟩
      rw [hsame, hf]
    · next hother =>
      refine List.pairwise_cons.2 ⟨fun q hq hsame => ?_, ih hps⟩
      rcases mem_modifyFirst hq with hq | ⟨x, -, hx, rfl⟩
      · exact hp q hq hsame
      · rw [← hsame, hf] at hother
        exact absurd hx hother

theorem Media.Parsed.modifyPayload {m : Media} (h : m.Parsed) (pt : UInt8) {f : Payload → Payload}
    (hf : ∀ p, (f p).payloadType = p.payloadType) (hparsed : ∀ p, p.Parsed → (f p).Parsed) :
    (m.modifyPayload pt f).Parsed where
  kind := h.kind
  transport := h.transport
  payloads p hp := by
    rcases mem_modifyFirst hp with hp | ⟨x, hx, -, rfl⟩
    · exact h.payloads p hp
    · exact hparsed x (h.payloads x hx)
  repeated := repeated_modifyFirst hf h.repeated
  connection := h.connection
  attributes := h.attributes

/-! ## Attributes of a media line -/

/-- The text behind a payload type is a line text that starts with no blank, and there is one. -/
theorem readFormat_text {value text : List Char} {pt : UInt8} (hv : LineText value)
    (h : readFormat value = .ok (pt, text)) : LineText text ∧ StartsInk text ∧ text ≠ [] := by
  unfold readFormat at h
  split at h
  · cases h
  · next front rest hcut =>
    split at h
    · cases h
    · obtain ⟨-, rfl⟩ := Prod.mk.inj (Except.ok.inj h)
      have hsplit := Text.cut?_some hcut
      have hrest : LineText rest := by
        refine hv.of_suffix ⟨front ++ [' '], ?_⟩
        rw [hsplit, List.append_assoc, List.singleton_append]
      have hne : rest ≠ [] := by
        rintro rfl
        have hink := hv.endsInk ' ' (by rw [hsplit, List.getLast?_concat]; rfl)
        cases hink
      rw [hrest.trim_eq]
      exact ⟨hrest.trimStart, Text.startsInk_trimStart rest, hrest.trimStart_ne_nil hne⟩

/-- The name of an encoding starts with no blank and has no slash. -/
theorem readEncoding_name {text : List Char} {name : String} {rate : UInt32}
    {params : Option UInt32} (ht : LineText text) (hs : StartsInk text)
    (h : readEncoding text = .ok (name, rate, params)) :
    StartsInk name.toList ∧ '\n' ∉ name.toList ∧ '/' ∉ name.toList := by
  have hfirst {w : List Char} {ws : List (List Char)} (hw : Text.pieces '/' text = w :: ws) :
      StartsInk w ∧ '\n' ∉ w ∧ '/' ∉ w := by
    have hfront := Text.front_of_pieces hw
    refine ⟨hs.of_front hfront, fun hm => ht.noFeed (hfront.subset hm), ?_⟩
    exact Text.not_mem_of_mem_pieces (hw ▸ List.mem_cons_self)
  unfold readEncoding at h
  split at h
  · next w rate' more hpieces =>
    split at h
    · cases h
    · obtain ⟨rfl, -⟩ := Prod.mk.inj (Except.ok.inj h)
      rw [String.toList_ofList]
      exact hfirst hpieces
  · next w hpieces =>
    obtain ⟨rfl, -⟩ := Prod.mk.inj (Except.ok.inj h)
    rw [String.toList_ofList]
    exact hfirst hpieces
  · next hpieces => exact absurd hpieces (Text.pieces_ne_nil _ _)

theorem Direction.not_mem_of_ofWord? {word : String} (h : ofWord? word = none) :
    word ∉ directionWords := by
  have hall : ∀ w ∈ directionWords, (ofWord? w).isSome = true := by decide
  intro hm
  have hsome := hall word hm
  rw [h] at hsome
  cases hsome

theorem lineText_attributeParts {value : List Char} (h : LineText value) :
    LineText (attributeParts value).2 := by
  unfold attributeParts
  split
  · next parts hcut =>
    refine h.of_suffix ⟨parts.1 ++ [':'], ?_⟩
    rw [List.append_assoc, List.singleton_append]
    exact (Text.cut?_some hcut).symm
  · exact ⟨List.not_mem_nil, nofun⟩

theorem not_mem_specialNames {name : List Char} (hrtpmap : name ≠ "rtpmap".toList)
    (hfmtp : name ≠ "fmtp".toList) (hptime : name ≠ "ptime".toList) :
    String.ofList name ∉ specialNames := by
  have htoList {w : String} (e : String.ofList name = w) : name = w.toList := by
    rw [← e, String.toList_ofList]
  simp only [specialNames, List.mem_cons, List.not_mem_nil, or_false, not_or]
  exact ⟨fun e => hrtpmap (htoList e), fun e => hfmtp (htoList e), fun e => hptime (htoList e)⟩

/-- The parameters of a format are a line text that starts with no blank. -/
theorem Payload.Parsed.withFormatParams {p : Payload} (h : p.Parsed) {text : List Char}
    (hline : LineText text) (hstarts : StartsInk text) (hne : text ≠ []) :
    { p with formatParams := some (String.ofList text) }.Parsed := by
  refine { h with formatParams := fun f hf => ?_ }
  obtain rfl := Option.some.inj hf
  refine ⟨fun e => hne ?_, isLineText_ofList hline, by rwa [String.toList_ofList]⟩
  rw [← String.toList_ofList (l := text), e]
  rfl

/-- What an attribute line may make of a media line. -/
inductive Attributed (m : Media) (value : List Char) : Media → Prop where
  | direction (d : Direction) : Attributed m value { m with direction := d }
  | encoding {pt : UInt8} {text : List Char} {name : String} {rate : UInt32}
      {params : Option UInt32} (hformat : readFormat (attributeParts value).2 = .ok (pt, text))
      (hencoding : readEncoding text = .ok (name, rate, params)) :
      Attributed m value (m.modifyPayload pt fun p =>
        { p with encodingName := name, clockRate := rate, encodingParams := params })
  | formatParams {pt : UInt8} {text : List Char}
      (hformat : readFormat (attributeParts value).2 = .ok (pt, text)) :
      Attributed m value (m.modifyPayload pt fun p =>
        { p with formatParams := some (String.ofList text) })
  | packetTime (t : UInt32) : Attributed m value { m with packetTime := some t }
  | other (hword : Direction.ofWord? (String.ofList value) = none)
      (hname : String.ofList (attributeParts value).1 ∉ specialNames) :
      Attributed m value { m with attributes := m.attributes ++ [String.ofList value] }

theorem attributed_of_readAttribute {m m' : Media} {value : List Char}
    (h : readAttribute m value = .ok m') : Attributed m value m' := by
  unfold readAttribute at h
  split at h
  · obtain rfl := Except.ok.inj h
    exact .direction _
  · next hword =>
    dsimp only at h
    split at h
    · -- the encoding of a format
      split at h
      · cases h
      · next pt text hformat =>
        split at h
        · cases h
        · next name rate params hencoding =>
          obtain rfl := Except.ok.inj h
          exact .encoding hformat hencoding
    split at h
    · -- the parameters of a format
      split at h
      · cases h
      · next pt text hformat =>
        obtain rfl := Except.ok.inj h
        exact .formatParams hformat
    split at h
    · -- the packet time
      split at h
      · cases h
      · obtain rfl := Except.ok.inj h
        exact .packetTime _
    · next hrtpmap hfmtp hptime =>
      obtain rfl := Except.ok.inj h
      exact .other hword (not_mem_specialNames hrtpmap hfmtp hptime)

/-- An attribute line leaves a media line of its make. -/
theorem readAttribute_parsed {m m' : Media} {value : List Char} (hm : m.Parsed)
    (hv : LineText value) (h : readAttribute m value = .ok m') : m'.Parsed := by
  have htext := lineText_attributeParts hv
  cases attributed_of_readAttribute h with
  | direction d => exact { hm with }
  | @encoding pt _ _ _ _ hformat hencoding =>
    obtain ⟨hline, hstarts, -⟩ := readFormat_text htext hformat
    obtain ⟨hink, hfeed, hslash⟩ := readEncoding_name hline hstarts hencoding
    exact hm.modifyPayload pt (fun _ => rfl) fun p hp =>
      { hp with startsInk := hink, noFeed := hfeed, noSlash := hslash }
  | @formatParams pt _ hformat =>
    obtain ⟨hline, hstarts, hne⟩ := readFormat_text htext hformat
    exact hm.modifyPayload pt (fun _ => rfl) fun p hp => hp.withFormatParams hline hstarts hne
  | packetTime t => exact { hm with }
  | other hword hname =>
    refine { hm with attributes := fun s hs => ?_ }
    rcases List.mem_append.1 hs with hs | hs
    · exact hm.attributes s hs
    · obtain rfl := List.mem_singleton.1 hs
      refine ⟨isLineText_ofList hv, Direction.not_mem_of_ofWord? hword, ?_⟩
      rw [String.toList_ofList, ← attributeParts_fst]
      exact hname

/-! ## Descriptions -/

theorem parsed_empty : Description.empty.Parsed where
  origin := by decide
  sessionName := by decide
  connection := nofun
  attributes := nofun
  media := nofun

theorem ok_of_map {α β : Type} {x : Reading α} {f : α → β} {b : β} (h : x.map f = .ok b) :
    ∃ a, x = .ok a ∧ f a = b := by
  cases x with
  | error e => cases h
  | ok a => exact ⟨a, rfl, Except.ok.inj h⟩

/-- The last media line may be replaced by another one of its make. -/
theorem Description.Parsed.withLast {d : Description} (h : d.Parsed) {m : Media} (hm : m.Parsed) :
    { d with media := d.media.dropLast ++ [m] }.Parsed := by
  refine { h with media := fun x hx => ?_ }
  rcases List.mem_append.1 hx with hx | hx
  · exact h.media x (List.dropLast_subset _ hx)
  · rwa [List.mem_singleton.1 hx]

/-- What a line of a kind may make of a description. -/
inductive Valued (d : Description) (value : List Char) : List Char → Description → Prop where
  | version (v : UInt32) : Valued d value ['v'] { d with version := v }
  | origin {o : Origin} (h : readOrigin value = .ok o) :
      Valued d value ['o'] { d with origin := o }
  | sessionName : Valued d value ['s'] { d with sessionName := String.ofList value }
  | sessionConnection {c : Connection} (h : readConnection value = .ok c)
      (hlast : d.media.getLast? = none) : Valued d value ['c'] { d with connection := some c }
  | mediaConnection {c : Connection} {m : Media} (h : readConnection value = .ok c)
      (hlast : d.media.getLast? = some m) :
      Valued d value ['c']
        { d with media := d.media.dropLast ++ [{ m with connection := some c }] }
  | timing (t : UInt64 × UInt64) : Valued d value ['t'] { d with timing := t }
  | media {m : Media} (h : readMedia value = .ok m) :
      Valued d value ['m'] { d with media := d.media ++ [m] }
  | sessionAttribute (hlast : d.media.getLast? = none) :
      Valued d value ['a'] { d with attributes := d.attributes ++ [String.ofList value] }
  | mediaAttribute {m m' : Media} (h : readAttribute m value = .ok m')
      (hlast : d.media.getLast? = some m) :
      Valued d value ['a'] { d with media := d.media.dropLast ++ [m'] }
  | unknown {kind : List Char} (hkind : kind ≠ ['m']) : Valued d value kind d

theorem valued_of_readValue {d d' : Description} {kind value : List Char}
    (h : readValue d kind value = .ok d') : Valued d value kind d' := by
  unfold readValue at h
  split at h
  · obtain ⟨v, -, rfl⟩ := ok_of_map h
    exact .version v
  · obtain ⟨o, ho, rfl⟩ := ok_of_map h
    exact .origin ho
  · obtain rfl := Except.ok.inj h
    exact .sessionName
  · obtain ⟨c, hc, rfl⟩ := ok_of_map h
    split
    · next m hlast => exact .mediaConnection hc hlast
    · next hlast => exact .sessionConnection hc hlast
  · obtain ⟨t, -, rfl⟩ := ok_of_map h
    exact .timing t
  · obtain ⟨m, hm, rfl⟩ := ok_of_map h
    exact .media hm
  · split at h
    · next m hlast =>
      obtain ⟨m', hm', rfl⟩ := ok_of_map h
      exact .mediaAttribute hm' hlast
    · next hlast =>
      obtain rfl := Except.ok.inj h
      exact .sessionAttribute hlast
  · next hkind _ =>
    obtain rfl := Except.ok.inj h
    exact .unknown fun e => hkind e

/-- A line leaves a description of its make. -/
theorem readValue_parsed {d d' : Description} {kind value : List Char} (hd : d.Parsed)
    (hv : LineText value) (h : readValue d kind value = .ok d') : d'.Parsed := by
  have hlast {m : Media} (h : d.media.getLast? = some m) : m.Parsed :=
    hd.media m (List.mem_of_getLast? h)
  have hsome {c : Connection} (h : readConnection value = .ok c) : ∀ x ∈ some c, x.Parsed :=
    fun x hx => Option.some.inj hx ▸ readConnection_parsed h
  cases valued_of_readValue h with
  | version v => exact { hd with }
  | origin ho => exact { hd with origin := readOrigin_printable ho }
  | sessionName => exact { hd with sessionName := isLineText_ofList hv }
  | sessionConnection hc hnone => exact { hd with connection := hsome hc }
  | mediaConnection hc hm => exact hd.withLast { hlast hm with connection := hsome hc }
  | timing t => exact { hd with }
  | media hm =>
    refine { hd with media := fun x hx => ?_ }
    rcases List.mem_append.1 hx with hx | hx
    · exact hd.media x hx
    · rw [List.mem_singleton.1 hx]
      exact readMedia_parsed hm
  | sessionAttribute hnone =>
    refine { hd with attributes := fun s hs => ?_ }
    rcases List.mem_append.1 hs with hs | hs
    · exact hd.attributes s hs
    · rw [List.mem_singleton.1 hs]
      exact isLineText_ofList hv
  | mediaAttribute hm' hm => exact hd.withLast (readAttribute_parsed (hlast hm) hv hm')
  | unknown hkind => exact hd

/-- A line that is read is blank, or it is cut at its first equals sign. -/
theorem readLine_cases {d d' : Description} {raw : List Char} (h : readLine d raw = .ok d') :
    (Text.trim raw = [] ∧ d' = d) ∨
      ∃ kind value, Text.cut? '=' (Text.trim raw) = some (kind, value) ∧
        readValue d kind value = .ok d' := by
  unfold readLine at h
  dsimp only at h
  split at h
  · next hblank => exact .inl ⟨List.isEmpty_iff.1 hblank, (Except.ok.inj h).symm⟩
  · split at h
    · cases h
    · next kind value hcut => exact .inr ⟨kind, value, hcut, h⟩

theorem readLine_parsed {d d' : Description} {raw : List Char} (hd : d.Parsed) (hraw : '\n' ∉ raw)
    (h : readLine d raw = .ok d') : d'.Parsed := by
  obtain ⟨-, rfl⟩ | ⟨kind, value, hcut, hvalue⟩ := readLine_cases h
  · exact hd
  · refine readValue_parsed hd ((Text.lineText_trim hraw).of_suffix ⟨kind ++ ['='], ?_⟩) hvalue
    rw [List.append_assoc, List.singleton_append]
    exact (Text.cut?_some hcut).symm

theorem readLines_parsed {ls : List (List Char)} {n : Nat} {d d' : Description} (hd : d.Parsed)
    (hls : ∀ l ∈ ls, '\n' ∉ l) (h : readLines n d ls = .ok d') : d'.Parsed := by
  induction ls generalizing n d with
  | nil =>
    obtain rfl := Except.ok.inj h
    exact hd
  | cons l ls ih =>
    rw [readLines] at h
    split at h
    · next d₁ hline =>
      exact ih (readLine_parsed hd (hls l List.mem_cons_self) hline)
        (fun x hx => hls x (List.mem_cons_of_mem _ hx)) h
    · cases h

/-- Texts are read as their lines are. -/
theorem parse_eq_ok_iff {text : String} {d : Description} :
    Description.parse text = .ok d ↔ Description.ofLines (Text.lines text.toList) = .ok d := by
  unfold Description.parse
  cases Description.ofLines (Text.lines text.toList) with
  | ok d' => simp
  | error p => simp

/-- All descriptions that are read are of the make that reading brings about. -/
theorem parsed_of_parse {text : String} {d : Description} (h : Description.parse text = .ok d) :
    d.Parsed :=
  readLines_parsed parsed_empty (fun _ hl => Text.not_mem_of_mem_pieces hl) (parse_eq_ok_iff.1 h)

end CallBridge.Sdp
