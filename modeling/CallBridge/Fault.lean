/-!
# Faults and panics

Everything that can go wrong on the media path, one constructor for each cause, with the text that
is shown for it and the causes after which a call may go on with degraded media. A panic is no
fault: no value comes back, not even that of a failure.

In the media core, `Fault` is `Error`, and that of the infrastructure below it.
-/

namespace CallBridge

/-- The causes of failure on the media path and in the settings around it. -/
inductive Fault where
  /-- A line of a session description cannot be read. -/
  | sdpParse (line : Nat) (reason : String)
  /-- A description has more audio lines than there are stream pairs. -/
  | structureMismatch (audioLines pairs : Nat)
  /-- A media line index lies outside a description. -/
  | mediaLineNotFound (index : Nat)
  /-- A single write is longer than the ring buffer. -/
  | bufferTooLarge (size capacity : Nat)
  /-- A payload or sample list that a codec refuses. -/
  | codec (name reason : String)
  /-- No offered payload can be handled. -/
  | noCompatiblePayload (index : Nat)
  /-- A stream is used before it was negotiated. -/
  | streamNotInitialized (port : Nat)
  /-- A stream failed for the given reason. -/
  | stream (reason : String)
  /-- Relaying could not be set up. -/
  | relayConfig (reason : String)
  /-- Bytes that are no RTP packet. -/
  | invalidPacket (reason : String)
  /-- No port of the range can be bound. -/
  | portsExhausted (low high : Nat)
  /-- The media scheduler has been shut down. -/
  | schedulerStopped
  /-- The media scheduler does not know the session. -/
  | unknownSession (id : String)
  /-- A worker could not be started. -/
  | threadSpawn (reason : String)
  /-- Settings that contradict each other. -/
  | config (reason : String)
  /-- The operating system refused a transfer. -/
  | io (reason : String)
  /-- Settings that cannot be read. -/
  | settings (reason : String)
  /-- The log could not be set up. -/
  | logging (reason : String)
  /-- A settings file that cannot be accessed. -/
  | settingsIo (reason : String)
deriving DecidableEq, Repr, Inhabited

namespace Fault

/-- The text shown for a fault. -/
def message : Fault → String
  | sdpParse line reason => s!"SDP parse error at line {line}: {reason}"
  | structureMismatch audioLines pairs =>
    s!"SDP has {audioLines} audio media lines but only {pairs} relay streams are allocated"
  | mediaLineNotFound index => s!"Media line {index} not found in SDP"
  | bufferTooLarge size capacity =>
    s!"Write of {size} bytes exceeds ring buffer capacity of {capacity} bytes"
  | codec name reason => s!"Codec error ({name}): {reason}"
  | noCompatiblePayload index => s!"No compatible payload in media line {index}"
  | streamNotInitialized port => s!"RTP stream on port {port} is not initialized"
  | stream reason => "RTP stream error: " ++ reason
  | relayConfig reason => "Relay reconfiguration failed: " ++ reason
  | invalidPacket reason => "Invalid RTP packet: " ++ reason
  | portsExhausted low high => s!"No free RTP port in range {low}-{high}"
  | schedulerStopped => "Media processor is not running"
  | unknownSession id => s!"Session {id} is not attached to the media processor"
  | threadSpawn reason => "Failed to spawn media processor thread: " ++ reason
  | config reason => "Invalid configuration: " ++ reason
  | io reason => "I/O error: " ++ reason
  | settings reason => "Configuration error: " ++ reason
  | logging reason => "Logging error: " ++ reason
  | settingsIo reason => "I/O error: " ++ reason

/-- Whether the call may go on with degraded media after the fault. -/
def recoverable : Fault → Bool
  | structureMismatch _ _ | bufferTooLarge _ _ | relayConfig _ | noCompatiblePayload _ => true
  | _ => false

end Fault

/-- A value, or the fault that stood in its way. -/
abbrev Outcome (α : Type) := Except Fault α

/-- What a computation stops at without any value: a number that does not fit its type. -/
inductive Panic where
  | multiplyOverflow
deriving DecidableEq, Repr, Inhabited

namespace Panic

/-- The text shown for a panic. -/
def message : Panic → String
  | multiplyOverflow => "attempt to multiply with overflow"

/-- The product of two words of 64 bits, as a checked multiplication gives it. -/
def product64 (a b : UInt64) : Except Panic UInt64 :=
  if a.toNat * b.toNat < UInt64.size then .ok (a * b) else .error .multiplyOverflow

end Panic

end CallBridge
