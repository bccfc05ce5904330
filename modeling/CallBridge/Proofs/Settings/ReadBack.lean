import CallBridge.Proofs.Settings.Laying
import CallBridge.Proofs.Toml.Assembly
import CallBridge.Settings.Load
import CallBridge.Settings.Render

/-!
# Settings are read back

Settings are read from a tree that shows theirs: every setting is found under its name in the group
it belongs to, and nothing of the defaults comes through. The tree of defaults shows itself, and a
tree over which a document was laid shows the settings that were written.

What is written are the tables of the settings, each with its rows. The tables inside of other ones
come after the rows of those, so that the entries are in another order than in the tree.

Results:
* `Server.ofTree?_of_shows`: the settings in a tree that shows theirs.
* `Server.load_nothing`: with neither a file nor a variable, loading gives the defaults.
* `Server.document?_document`: the entries of a written document.
* `Server.read?_render`: settings are read back from their document, whatever the defaults are.
* `Server.load_render`, `Server.load_standard`: loading settings from their document.
-/

namespace CallBridge.Settings

open CallBridge.Settings.Tree

/-! ## Single settings -/

/-- Delays that are words of 32 bits. -/
structure FitWords (d : Playout.DelayTimes) : Prop where
  least : d.least < UInt32.size
  greatest : d.greatest < UInt32.size
  fixed : d.fixed < UInt32.size

/-- Settings that reading can give: the address is read back, and delays are words of 32 bits. -/
structure Transport.IsReadable (t : Transport) : Prop where
  address : Net.Address.parse? t.bindAddress.render = some t.bindAddress
  delays : FitWords t.delays

theorem Tree.isRecord_of_child? {t value : Tree} {name : String} (h : t.child? name = some value) :
    t.isRecord = true := by
  rw [eq_table_of_child? h]
  rfl

theorem Tree.part_of_child? {α : Type} {t value : Tree} {name : String}
    (h : t.child? name = some value) (position : Nat) (read : Tree → Option α) (default : α) :
    t.part position name read default = read value := by
  cases t with
  | table es =>
    have hpart : (table es).part? position name = some value := h
    rw [part, hpart]
  | _ => cases h

theorem readWord16_toNat (n : UInt16) : readWord16 (.integer n.toNat) = some n := by
  rw [readWord16, unsigned?_integer, Option.map_some, UInt16.ofNat_toNat]

theorem readWord32_toNat (n : UInt32) : readWord32 (.integer n.toNat) = some n := by
  rw [readWord32, unsigned?_integer, Option.map_some, UInt32.ofNat_toNat]

theorem readWord64_toNat (n : UInt64) : readWord64 (.integer n.toNat) = some n := by
  rw [readWord64, unsigned?_integer, Option.map_some, UInt64.ofNat_toNat]

theorem readDelay_integer {n : Nat} (h : n < UInt32.size) : readDelay (.integer n) = some n := by
  rw [readDelay, unsigned?_integer, Option.map_some, Nat.mod_eq_of_lt h]

/-! ## Groups of settings -/

variable {t : Tree}

theorem Processor.ofTree?_of_shows (d : Processor) {p : Processor} (h : t.Shows p.tree) :
    d.ofTree? t = some p := by
  obtain ⟨⟨_, hthreads, rfl⟩, ⟨_, htick, rfl⟩, ⟨_, hclock, rfl⟩, -⟩ := h
  simp only [ofTree?, isRecord_of_child? hthreads, part_of_child? hthreads, part_of_child? htick,
    part_of_child? hclock, unsigned?_integer, readWord64_toNat, readWord32_toNat]
  rfl

theorem Relay.ofTree?_of_shows (d : Relay) {r : Relay} (h : t.Shows r.tree) :
    d.ofTree? t = some r := by
  obtain ⟨⟨_, hsequence, rfl⟩, ⟨_, hssrc, rfl⟩, -⟩ := h
  simp only [ofTree?, isRecord_of_child? hsequence, part_of_child? hsequence,
    part_of_child? hssrc]
  rfl

theorem Bridging.ofTree?_of_shows (d : Bridging) {b : Bridging} (h : t.Shows b.tree) :
    d.ofTree? t = some b := by
  obtain ⟨⟨_, hplayout, rfl⟩, ⟨_, hrelay, hshows⟩, ⟨_, hsize, rfl⟩, -⟩ := h
  simp only [ofTree?, isRecord_of_child? hplayout, part_of_child? hplayout, part_of_child? hrelay,
    part_of_child? hsize, readMode, Playout.Mode.ofWord?_word,
    Relay.ofTree?_of_shows _ hshows, unsigned?_integer]
  rfl

theorem delaysOfTree?_of_shows (d : Playout.DelayTimes) {delays : Playout.DelayTimes}
    (hwords : FitWords delays) (h : t.Shows (delaysTree delays)) :
    delaysOfTree? d t = some delays := by
  obtain ⟨⟨_, hleast, rfl⟩, ⟨_, hgreatest, rfl⟩, ⟨_, hfixed, rfl⟩, -⟩ := h
  simp only [delaysOfTree?, isRecord_of_child? hleast, part_of_child? hleast,
    part_of_child? hgreatest, part_of_child? hfixed, readDelay_integer hwords.least,
    readDelay_integer hwords.greatest, readDelay_integer hwords.fixed]
  rfl

theorem Transport.ofTree?_of_shows (d : Transport) {tr : Transport} (htr : tr.IsReadable)
    (h : t.Shows tr.tree) : d.ofTree? t = some tr := by
  obtain ⟨⟨_, haddress, rfl⟩, ⟨_, hmin, rfl⟩, ⟨_, hmax, rfl⟩, ⟨_, htime, rfl⟩,
    ⟨_, hjitter, hshows⟩, ⟨_, htimeout, rfl⟩, -⟩ := h
  simp only [ofTree?, isRecord_of_child? haddress, part_of_child? haddress, part_of_child? hmin,
    part_of_child? hmax, part_of_child? htime, part_of_child? hjitter, part_of_child? htimeout,
    readAddress, text?, Option.bind_some, htr.address, readWord16_toNat, readWord32_toNat,
    readWord64_toNat, delaysOfTree?_of_shows _ htr.delays hshows]
  rfl

theorem loggingOfTree?_of_shows (d : Logging.Config) {c : Logging.Config}
    (h : t.Shows (loggingTree c)) : loggingOfTree? d t = some c := by
  obtain ⟨⟨_, hlevel, rfl⟩, ⟨_, hjson, rfl⟩, ⟨_, hfile, rfl⟩, ⟨_, hspans, rfl⟩, ⟨_, happ, rfl⟩,
    -⟩ := h
  simp only [loggingOfTree?, isRecord_of_child? hlevel, part_of_child? hlevel,
    part_of_child? hjson, part_of_child? hfile, part_of_child? hspans, part_of_child? happ]
  rfl

/-- The settings in a tree that shows theirs, whatever the defaults are. -/
theorem Server.ofTree?_of_shows (d : Server) {s : Server} (hs : s.transport.IsReadable)
    (h : t.Shows s.tree) : d.ofTree? t = some s := by
  obtain ⟨⟨_, hprocessor, hprocessor'⟩, ⟨_, hbridging, hbridging'⟩,
    ⟨_, htransport, htransport'⟩, ⟨_, hlogging, hlogging'⟩, -⟩ := h
  simp only [ofTree?, isRecord_of_child? hprocessor, part_of_child? hprocessor,
    part_of_child? hbridging, part_of_child? htransport, part_of_child? hlogging,
    Processor.ofTree?_of_shows _ hprocessor', Bridging.ofTree?_of_shows _ hbridging',
    Transport.ofTree?_of_shows _ hs htransport', loggingOfTree?_of_shows _ hlogging']
  rfl

theorem Server.distinct_tree (s : Server) : s.tree.Distinct := by
  simp [Server.tree, Processor.tree, Bridging.tree, Relay.tree, Transport.tree, delaysTree,
    loggingTree, Distinct, DistinctAll]

/-! ## Defaults -/

/-- Where there is neither a file nor a variable, the defaults hold. -/
theorem Server.read?_nothing {d : Server} (hd : d.transport.IsReadable) :
    d.read? none [] = some d :=
  d.ofTree?_of_shows hd (shows_self d.tree d.distinct_tree)

theorem Transport.isReadable_standard : Transport.standard.IsReadable :=
  ⟨by decide, by decide, by decide, by decide⟩

/-- With neither a file nor a variable, loading gives the defaults. -/
theorem Server.load_nothing {threads : Nat} (h : threads ≠ 0) :
    Server.load threads none [] = .ok (.ok (Server.standard threads)) := by
  have hread : (Server.standard threads).read? none [] = some (Server.standard threads) :=
    read?_nothing Transport.isReadable_standard
  rw [load, hread]
  show ((Server.standard threads).validate >>= _) = _
  rw [validate_standard h]
  rfl

/-! ## Written settings -/

/-- The entries that written settings mean. -/
def Server.written (s : Server) : List (String × Tree) :=
  [("processor", s.processor.tree),
    ("b2b", .table [("playout_type", .text s.bridging.playout.word),
      ("alternate_buffer_size", .integer s.bridging.alternateBufferSize),
      ("relay", s.bridging.relay.tree)]),
    ("rtp", .table [("bind_address", .text s.transport.bindAddress.render),
      ("port_min", .integer s.transport.portMin.toNat),
      ("port_max", .integer s.transport.portMax.toNat),
      ("default_ptime_ms", .integer s.transport.packetTimeMs.toNat),
      ("rtp_timeout_secs", .integer s.transport.timeoutSecs.toNat),
      ("jitter", delaysTree s.transport.delays)]),
    ("logging", loggingTree s.logging)]

theorem Server.assemble?_tables (s : Server) :
    Toml.assemble? 2 (⟨⟨[], false⟩, []⟩ :: s.tables.map Toml.Table.section) =
      some (.table s.written, []) := by
  have hnone : Toml.entries? (Toml.rowFields []) = some [] := Toml.entries?_rows List.nodup_nil
  have hown : Toml.ownEntries? (⟨⟨[], false⟩, []⟩ :: s.tables.map Toml.Table.section) = some [] :=
    hnone
  refine Toml.assemble?_inner (by simp [tables, Toml.Table.section]) ?_ hown ?_ ?_ ?_
  · show some "processor" ≠ some Toml.momentKey
    decide
  · show ["processor", "b2b", "b2b", "rtp", "rtp", "logging"].eraseDups =
      ["processor", "b2b", "rtp", "logging"]
    decide
  · simp only [List.forall_mem_cons, List.not_mem_nil, false_implies, implies_true, and_true]
    -- The sections below each key are picked out first, since comparing paths while a lemma is
    -- applied takes long.
    simp only [tables, loggingRows, Toml.Table.section, Toml.below, Toml.Section.firstKey?,
      Toml.Section.inside, List.map_cons, List.map_nil, List.head?_nil, List.head?_cons,
      List.tail_cons, reduceCtorEq, Option.some.injEq, String.reduceEq, decide_false, decide_true,
      Bool.false_eq_true, not_false_eq_true, List.filter_cons_of_neg, List.filter_cons_of_pos,
      List.filter_nil]
    refine ⟨?_, ?_, ?_, ?_⟩
    · exact Toml.assemble?_rows (by simp [Toml.momentKey]) (by simp)
    · exact Toml.assemble?_rows_inner (by simp [Toml.momentKey]) (by simp)
        (by simp [Toml.momentKey]) (by simp)
    · exact Toml.assemble?_rows_inner (by simp [Toml.momentKey]) (by simp)
        (by simp [Toml.momentKey]) (by simp)
    · exact Toml.assemble?_rows (by simp [Toml.momentKey]) (by simp)
  · show ["processor", "b2b", "rtp", "logging"].Nodup
    decide

/-- Settings that are written plainly: no text in them needs more than quotes. -/
structure Server.IsPlain (s : Server) : Prop where
  address : Toml.IsPlainText s.transport.bindAddress.render
  level : Toml.IsPlainText s.logging.level
  appName : Toml.IsPlainText s.logging.appName

theorem lt_signedBound_of_lt {n : Nat} (h : n < UInt32.size) : n < signedBound :=
  Nat.lt_trans h (by decide)

theorem Server.isPlain_tables {s : Server} (hs : s.IsPlain) (hreadable : s.transport.IsReadable)
    (hwide : ∀ n ∈ s.wideNumbers, n < signedBound) : ∀ t ∈ s.tables, t.IsPlain := by
  simp only [wideNumbers, List.forall_mem_cons] at hwide
  obtain ⟨hthreads, htick, hsize, htimeout, -⟩ := hwide
  have hclock := lt_signedBound_of_lt s.processor.clockRate.toNat_lt
  have hmin := lt_signedBound_of_lt (Nat.lt_trans s.transport.portMin.toNat_lt (by decide))
  have hmax := lt_signedBound_of_lt (Nat.lt_trans s.transport.portMax.toNat_lt (by decide))
  have htime := lt_signedBound_of_lt s.transport.packetTimeMs.toNat_lt
  have hleast := lt_signedBound_of_lt hreadable.delays.least
  have hgreatest := lt_signedBound_of_lt hreadable.delays.greatest
  have hfixed := lt_signedBound_of_lt hreadable.delays.fixed
  have hword : Toml.IsPlainText s.bridging.playout.word := by
    cases s.bridging.playout <;> decide
  simp only [tables, List.forall_mem_cons]
  refine ⟨.of (by decide) ?_, .of (by decide) ?_, .of (by decide) ?_, .of (by decide) ?_,
    .of (by decide) ?_, .of (by decide) ?_, nofun⟩
  · simp only [List.forall_mem_cons]
    exact ⟨.of (by decide) hthreads, .of (by decide) htick, .of (by decide) hclock, nofun⟩
  · simp only [List.forall_mem_cons]
    exact ⟨.of (by decide) hword, .of (by decide) hsize, nofun⟩
  · simp only [List.forall_mem_cons]
    exact ⟨.of (by decide) trivial, .of (by decide) trivial, nofun⟩
  · simp only [List.forall_mem_cons]
    exact ⟨.of (by decide) hs.address, .of (by decide) hmin, .of (by decide) hmax,
      .of (by decide) htime, .of (by decide) htimeout, nofun⟩
  · simp only [List.forall_mem_cons]
    exact ⟨.of (by decide) hleast, .of (by decide) hgreatest, .of (by decide) hfixed, nofun⟩
  · simp only [loggingRows, List.forall_mem_cons]
    exact ⟨.of (by decide) hs.level, .of (by decide) trivial, .of (by decide) trivial,
      .of (by decide) trivial, .of (by decide) hs.appName, nofun⟩

/-- The entries of a written document. -/
theorem Server.document?_document {s : Server} (hplain : ∀ t ∈ s.tables, t.IsPlain) :
    Toml.document? s.document = some s.written := by
  have hsections := Toml.sections?_written hplain
  show (Toml.tokens? s.document >>= fun ts => Toml.sections? ts >>= _) = _
  rw [← bind_assoc]
  show ((Toml.tokens? (String.ofList (Toml.renderTables s.tables)) >>= Toml.sections?) >>= _) = _
  have hdepth : Toml.depthOf (⟨⟨[], false⟩, []⟩ :: s.tables.map Toml.Table.section) = 2 := by
    simp [Toml.depthOf, tables, Toml.Table.section]
  rw [hsections, Option.bind_eq_bind, Option.bind_some, hdepth, s.assemble?_tables]
  rfl

/-- Whatever shows the entries of written settings shows the settings. -/
theorem Server.shows_of_written {s : Server} (h : t.ShowsAll s.written) : t.Shows s.tree := by
  obtain ⟨hprocessor, ⟨b, hb, hplayout, hsize, hrelay, -⟩,
    ⟨r, hr, haddress, hmin, hmax, htime, htimeout, hjitter, -⟩, hlogging, -⟩ := h
  exact ⟨hprocessor, ⟨b, hb, hplayout, hrelay, hsize, trivial⟩,
    ⟨r, hr, haddress, hmin, hmax, htime, hjitter, htimeout, trivial⟩, hlogging, trivial⟩

theorem Server.distinct_written (s : Server) :
    (s.written.map (·.1)).Nodup ∧ DistinctAll s.written := by
  simp [written, Processor.tree, Relay.tree, delaysTree, loggingTree, Distinct, DistinctAll]

theorem Server.render_eq_ok {s : Server} {text : String} (h : s.render = .ok text) :
    (∀ n ∈ s.wideNumbers, n < signedBound) ∧ text = s.document := by
  rw [render] at h
  split at h
  · next hwide =>
    simp only [List.all_eq_true, decide_eq_true_eq] at hwide
    exact ⟨hwide, (Except.ok.inj h).symm⟩
  · cases h

/-- **Main theorem** on reading: settings are read back from their document, whatever the defaults
are. -/
theorem Server.read?_render {d s : Server} {text : String} (hs : s.IsPlain)
    (hreadable : s.transport.IsReadable) (h : s.render = .ok text) :
    d.read? (some text) [] = some s := by
  obtain ⟨hwide, rfl⟩ := render_eq_ok h
  have hnames : ∀ key ∈ s.written.map (·.1), KeyPath.IsName key := by
    show ∀ key ∈ ["processor", "b2b", "rtp", "logging"], KeyPath.IsName key
    decide
  have hshows := showsAll_putAll d.tree s.written s.distinct_written.1 s.distinct_written.2
  rw [← KeyPath.layRoot_names d.tree fun e he => hnames e.1 (List.mem_map_of_mem he)] at hshows
  have hentries : fileEntries? (some s.document) = some s.written :=
    document?_document (isPlain_tables hs hreadable hwide)
  rw [read?, hentries, Option.bind_eq_bind, Option.bind_some]
  exact d.ofTree?_of_shows hreadable (shows_of_written hshows)

/-- Loading settings from their document gives them back if they do not contradict each other, and
their contradiction otherwise. -/
theorem Server.load_render {s : Server} {text : String} (threads : Nat) (hs : s.IsPlain)
    (hreadable : s.transport.IsReadable) (h : s.render = .ok text) :
    load threads (some text) [] = s.validate.map fun checked => checked.map fun () => s := by
  rw [load, read?_render hs hreadable h]
  show (s.validate >>= fun checked => pure (checked.map fun () => s)) = _
  cases s.validate <;> rfl

/-- The document of the defaults gives them back, also on a machine with another number of
processors. -/
theorem Server.load_standard {threads : Nat} (others : Nat) (hne : threads ≠ 0)
    (hlt : threads < signedBound) :
    load others (some (standard threads).document) [] = .ok (.ok (standard threads)) := by
  have hplain : (standard threads).IsPlain :=
    ⟨show Toml.IsPlainText Transport.standard.bindAddress.render by decide,
      show Toml.IsPlainText Logging.Config.standard.level by decide,
      show Toml.IsPlainText Logging.Config.standard.appName by decide⟩
  have hrender : (standard threads).render = .ok (standard threads).document := by
    rw [render, if_pos]
    simpa [wideNumbers, standard, Processor.standard, Bridging.standard, Transport.standard] using
      ⟨hlt, by decide⟩
  rw [load_render others hplain Transport.isReadable_standard hrender, validate_standard hne]
  rfl

end CallBridge.Settings
