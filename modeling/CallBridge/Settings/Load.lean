import CallBridge.Settings.Basic
import CallBridge.Settings.Environment
import CallBridge.Settings.KeyPath
import CallBridge.Toml.Document

/-!
# Loading settings

Settings come from a file and from environment variables, the latter winning. Both are laid over
the tree of defaults, and the settings are read from what comes out. Each group of settings is a
table with names, or a list with the settings in their order. Names that mean nothing and elements
beyond the last setting are ignored, and a setting that is missing keeps its default.

In the media core, `Server.load` is `load` of `MediaServerConfig`, which reads by `load_config`.
-/

namespace CallBridge.Settings

/-! ## The tree of settings -/

/-- The tree of the settings of the workers. -/
def Processor.tree (p : Processor) : Tree :=
  .table [("threads", .integer p.threads), ("tick_interval_ms", .integer p.tickMs.toNat),
    ("system_clock_rate", .integer p.clockRate.toNat)]

/-- The tree of what is kept in relayed packets. -/
def Relay.tree (r : Relay) : Tree :=
  .table [("transparent_seqno", .flag r.keepSequence), ("transparent_ssrc", .flag r.keepSsrc)]

/-- The tree of the settings of a call. -/
def Bridging.tree (b : Bridging) : Tree :=
  .table [("playout_type", .text b.playout.word), ("relay", b.relay.tree),
    ("alternate_buffer_size", .integer b.alternateBufferSize)]

/-- The tree of delays. -/
def delaysTree (d : Playout.DelayTimes) : Tree :=
  .table [("min_delay_ms", .integer d.least), ("max_delay_ms", .integer d.greatest),
    ("simple_delay_ms", .integer d.fixed)]

/-- The tree of the settings of sockets and playout. -/
def Transport.tree (t : Transport) : Tree :=
  .table [("bind_address", .text t.bindAddress.render), ("port_min", .integer t.portMin.toNat),
    ("port_max", .integer t.portMax.toNat), ("default_ptime_ms", .integer t.packetTimeMs.toNat),
    ("jitter", delaysTree t.delays), ("rtp_timeout_secs", .integer t.timeoutSecs.toNat)]

/-- The tree of the log settings. -/
def loggingTree (c : Logging.Config) : Tree :=
  .table [("level", .text c.level), ("json", .flag c.json), ("file_info", .flag c.fileInfo),
    ("log_spans", .flag c.spans), ("app_name", .text c.appName)]

/-- The tree of all settings. -/
def Server.tree (s : Server) : Tree :=
  .table [("processor", s.processor.tree), ("b2b", s.bridging.tree), ("rtp", s.transport.tree),
    ("logging", loggingTree s.logging)]

/-! ## Single settings -/

/-- The part of a record as read by a conversion, the default where it is missing. -/
def Tree.part {α : Type} (t : Tree) (position : Nat) (name : String) (read : Tree → Option α)
    (default : α) : Option α :=
  match t.part? position name with
  | some value => read value
  | none => some default

/-- The way of playout that a value names, as a text or as the only name in a table. -/
def readMode : Tree → Option Playout.Mode
  | .text word => Playout.Mode.ofWord? word
  | .table [(word, _)] => Playout.Mode.ofWord? word
  | _ => none

/-- The address that a value names. -/
def readAddress (t : Tree) : Option Net.Address := t.text?.bind Net.Address.parse?

/-- A number cut to 16 bits. -/
def readWord16 (t : Tree) : Option UInt16 := t.unsigned?.map UInt16.ofNat

/-- A number cut to 32 bits. -/
def readWord32 (t : Tree) : Option UInt32 := t.unsigned?.map UInt32.ofNat

/-- A number of 64 bits. -/
def readWord64 (t : Tree) : Option UInt64 := t.unsigned?.map UInt64.ofNat

/-- A delay cut to 32 bits. -/
def readDelay (t : Tree) : Option Nat := t.unsigned?.map (· % UInt32.size)

/-! ## Groups of settings -/

/-- The settings of the workers, on top of defaults. -/
def Processor.ofTree? (d : Processor) (t : Tree) : Option Processor := do
  if !t.isRecord then none
  let threads ← t.part 0 "threads" Tree.unsigned? d.threads
  let tickMs ← t.part 1 "tick_interval_ms" readWord64 d.tickMs
  let clockRate ← t.part 2 "system_clock_rate" readWord32 d.clockRate
  some ⟨threads, tickMs, clockRate⟩

/-- What is kept in relayed packets, on top of defaults. -/
def Relay.ofTree? (d : Relay) (t : Tree) : Option Relay := do
  if !t.isRecord then none
  let keepSequence ← t.part 0 "transparent_seqno" Tree.flag? d.keepSequence
  let keepSsrc ← t.part 1 "transparent_ssrc" Tree.flag? d.keepSsrc
  some ⟨keepSequence, keepSsrc⟩

/-- The settings of a call, on top of defaults. -/
def Bridging.ofTree? (d : Bridging) (t : Tree) : Option Bridging := do
  if !t.isRecord then none
  let playout ← t.part 0 "playout_type" readMode d.playout
  let relay ← t.part 1 "relay" d.relay.ofTree? d.relay
  let size ← t.part 2 "alternate_buffer_size" Tree.unsigned? d.alternateBufferSize
  some ⟨playout, relay, size⟩

/-- Delays, on top of defaults. -/
def delaysOfTree? (d : Playout.DelayTimes) (t : Tree) : Option Playout.DelayTimes := do
  if !t.isRecord then none
  let least ← t.part 0 "min_delay_ms" readDelay d.least
  let greatest ← t.part 1 "max_delay_ms" readDelay d.greatest
  let fixed ← t.part 2 "simple_delay_ms" readDelay d.fixed
  some ⟨least, greatest, fixed⟩

/-- The settings of sockets and playout, on top of defaults. -/
def Transport.ofTree? (d : Transport) (t : Tree) : Option Transport := do
  if !t.isRecord then none
  let bindAddress ← t.part 0 "bind_address" readAddress d.bindAddress
  let portMin ← t.part 1 "port_min" readWord16 d.portMin
  let portMax ← t.part 2 "port_max" readWord16 d.portMax
  let packetTimeMs ← t.part 3 "default_ptime_ms" readWord32 d.packetTimeMs
  let delays ← t.part 4 "jitter" (delaysOfTree? d.delays) d.delays
  let timeoutSecs ← t.part 5 "rtp_timeout_secs" readWord64 d.timeoutSecs
  some ⟨bindAddress, portMin, portMax, packetTimeMs, delays, timeoutSecs⟩

/-- The log settings, on top of defaults. -/
def loggingOfTree? (d : Logging.Config) (t : Tree) : Option Logging.Config := do
  if !t.isRecord then none
  let level ← t.part 0 "level" Tree.text? d.level
  let json ← t.part 1 "json" Tree.flag? d.json
  let fileInfo ← t.part 2 "file_info" Tree.flag? d.fileInfo
  let spans ← t.part 3 "log_spans" Tree.flag? d.spans
  let appName ← t.part 4 "app_name" Tree.text? d.appName
  some ⟨level, json, fileInfo, spans, appName⟩

/-- All settings, on top of defaults. -/
def Server.ofTree? (d : Server) (t : Tree) : Option Server := do
  if !t.isRecord then none
  let processor ← t.part 0 "processor" d.processor.ofTree? d.processor
  let bridging ← t.part 1 "b2b" d.bridging.ofTree? d.bridging
  let transport ← t.part 2 "rtp" d.transport.ofTree? d.transport
  let logging ← t.part 3 "logging" (loggingOfTree? d.logging) d.logging
  some ⟨processor, bridging, transport, logging⟩

/-! ## Loading -/

/-- The entries at the root of an optional file. -/
def fileEntries? : Option String → Option (List (String × Tree))
  | none => some []
  | some text => Toml.document? text

/-- The settings in a file and in environment variables on top of defaults, if they can be read. -/
def Server.read? (d : Server) (file : Option String) (environment : List (String × String)) :
    Option Server := do
  let written ← fileEntries? file
  let laid := KeyPath.layRoot (KeyPath.layRoot d.tree written) (Environment.entries environment)
  d.ofTree? laid

/-- The fault for settings that cannot be read. -/
def unreadable : Fault := .settings "settings cannot be read"

/-- The settings from an optional file and from environment variables, on top of the defaults for
a number of processors. -/
def Server.load (threads : Nat) (file : Option String) (environment : List (String × String)) :
    Except Panic (Outcome Server) := do
  match (Server.standard threads).read? file environment with
  | none => return .error unreadable
  | some server =>
    let checked ← server.validate
    return checked.map fun () => server

end CallBridge.Settings
