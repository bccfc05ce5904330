import CallBridge.Settings.Basic
import CallBridge.Settings.Tree
import CallBridge.Toml.Table

/-!
# Written settings

All settings as a TOML document, one table for each part in a fixed order. Numbers in TOML fit into
64 bits with a sign, so settings beyond that cannot be written.

In the media core, `Server.render` is `render_config`.
-/

namespace CallBridge.Settings

/-- The rows of the log settings. -/
def loggingRows (c : Logging.Config) : List (String × Toml.Scalar) :=
  [("level", .text c.level), ("json", .flag c.json), ("file_info", .flag c.fileInfo),
    ("log_spans", .flag c.spans), ("app_name", .text c.appName)]

/-- The lines of the log settings. -/
def renderLogging (c : Logging.Config) : String :=
  String.ofList (Toml.renderRows (loggingRows c))

/-- The tables of all settings. -/
def Server.tables (s : Server) : List Toml.Table :=
  [⟨["processor"],
      [("threads", .number s.processor.threads),
        ("tick_interval_ms", .number s.processor.tickMs.toNat),
        ("system_clock_rate", .number s.processor.clockRate.toNat)]⟩,
    ⟨["b2b"],
      [("playout_type", .text s.bridging.playout.word),
        ("alternate_buffer_size", .number s.bridging.alternateBufferSize)]⟩,
    ⟨["b2b", "relay"],
      [("transparent_seqno", .flag s.bridging.relay.keepSequence),
        ("transparent_ssrc", .flag s.bridging.relay.keepSsrc)]⟩,
    ⟨["rtp"],
      [("bind_address", .text s.transport.bindAddress.render),
        ("port_min", .number s.transport.portMin.toNat),
        ("port_max", .number s.transport.portMax.toNat),
        ("default_ptime_ms", .number s.transport.packetTimeMs.toNat),
        ("rtp_timeout_secs", .number s.transport.timeoutSecs.toNat)]⟩,
    ⟨["rtp", "jitter"],
      [("min_delay_ms", .number s.transport.delays.least),
        ("max_delay_ms", .number s.transport.delays.greatest),
        ("simple_delay_ms", .number s.transport.delays.fixed)]⟩,
    ⟨["logging"], loggingRows s.logging⟩]

/-- The document of all settings. -/
def Server.document (s : Server) : String := String.ofList (Toml.renderTables s.tables)

/-- The settings that may be too great to be written. -/
def Server.wideNumbers (s : Server) : List Nat :=
  [s.processor.threads, s.processor.tickMs.toNat, s.bridging.alternateBufferSize,
    s.transport.timeoutSecs.toNat]

/-- The document of all settings, if every number in it can be written. -/
def Server.render (s : Server) : Outcome String :=
  if s.wideNumbers.all (· < signedBound) then .ok s.document
  else .error (.settings "out-of-range value for u64 type")

end CallBridge.Settings
