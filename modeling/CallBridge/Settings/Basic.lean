import CallBridge.Fault
import CallBridge.Logging
import CallBridge.Net.Address
import CallBridge.Playout.Queue

/-!
# Server settings

Everything that can be set, what holds where nothing is set, and which settings contradict each
other. The timestamp of the media clock grows by a fixed quantum on every tick; it is computed in
words of 64 bits, and the computation panics where a word is too small, also when the settings are
only checked.

In the media core, `Server` is `MediaServerConfig`, and its parts are `MediaProcessorConfig`,
`B2bMediaConfig` with `RelayConfig`, and `RtpConfig` with `JitterConfig`; `quantum` is
`ts_increment`.

Results:
* `Processor.quantum_eq`: the quantum, or the panic.
* `Server.validate_standard`: what holds where nothing is set is valid.
-/

namespace CallBridge.Settings

/-- The workers that process media. -/
structure Processor where
  threads : Nat
  tickMs : UInt64
  clockRate : UInt32
deriving DecidableEq, Repr, Inhabited

/-- Which fields of relayed packets are kept as they came. -/
structure Relay where
  keepSequence : Bool
  keepSsrc : Bool
deriving DecidableEq, Repr, Inhabited

/-- The bridging of a call. -/
structure Bridging where
  playout : Playout.Mode
  relay : Relay
  alternateBufferSize : Nat
deriving DecidableEq, Repr, Inhabited

/-- Sockets and playout. -/
structure Transport where
  bindAddress : Net.Address
  portMin : UInt16
  portMax : UInt16
  packetTimeMs : UInt32
  delays : Playout.DelayTimes
  timeoutSecs : UInt64
deriving DecidableEq, Repr, Inhabited

/-- All settings. -/
structure Server where
  processor : Processor
  bridging : Bridging
  transport : Transport
  logging : Logging.Config
deriving DecidableEq, Repr, Inhabited

/-! ## Defaults -/

/-- Ticks of ten milliseconds of a clock of 32000 Hz. -/
def Processor.standard (threads : Nat) : Processor := ⟨threads, 10, 32000⟩

/-- Adaptive playout, nothing kept in relayed packets, and 4096 bytes of alternate audio. -/
def Bridging.standard : Bridging := ⟨.adaptive, ⟨false, false⟩, 4096⟩

/-- Delays of 20 to 200 milliseconds, 40 where the delay is fixed. -/
def standardDelays : Playout.DelayTimes := ⟨20, 200, 40⟩

/-- Ports from 10000 to 20000 on every address, and packets of 20 milliseconds. -/
def Transport.standard : Transport := ⟨.v4 [0, 0, 0, 0], 10000, 20000, 20, standardDelays, 0⟩

/-- The settings in effect where nothing else is said, on a machine with some processors. -/
def Server.standard (threads : Nat) : Server :=
  ⟨Processor.standard threads, Bridging.standard, Transport.standard, Logging.Config.standard⟩

/-! ## Consistency -/

/-- The quantum by which the timestamp of the media clock grows on every tick. -/
def Processor.quantum (p : Processor) : Except Panic UInt64 := do
  let product ← Panic.product64 p.tickMs p.clockRate.toUInt64
  return product / 1000

/-- A thousand times the cycles of the media clock in a tick: milliseconds times cycles a second. -/
def Processor.millicycles (p : Processor) : Nat := p.tickMs.toNat * p.clockRate.toNat

theorem Processor.quantum_eq (p : Processor) : p.quantum =
    if p.millicycles < UInt64.size then .ok (UInt64.ofNat (p.millicycles / 1000))
    else .error .multiplyOverflow := by
  rw [quantum, Panic.product64, UInt32.toNat_toUInt64]
  show (if p.millicycles < UInt64.size then _ else _) >>= _ = _
  split
  · next hfits =>
    refine congrArg Except.ok (UInt64.toNat_inj.1 ?_)
    rw [UInt64.toNat_div, UInt64.toNat_mul, UInt32.toNat_toUInt64, UInt64.toNat_ofNat',
      Nat.mod_eq_of_lt (Nat.lt_of_le_of_lt (Nat.div_le_self ..) hfits)]
    exact congrArg (· / 1000) (Nat.mod_eq_of_lt hfits)
  · rfl

/-- There are workers, and the clock moves. -/
def Processor.validate (p : Processor) : Except Panic (Outcome Unit) :=
  if p.threads = 0 then .ok (.error (.config "processor.threads must be at least 1"))
  else if p.tickMs = 0 then .ok (.error (.config "processor.tick_interval_ms must be non-zero"))
  else do
    let quantum ← p.quantum
    if quantum = 0 then
      return .error (.config "processor.system_clock_rate too low for the tick interval")
    else return .ok ()

/-- There are ports, packets have a length, and the delays are in order. -/
def Transport.validate (t : Transport) : Outcome Unit :=
  if t.portMin = 0 ∨ t.portMax ≤ t.portMin then
    .error (.config
      ("invalid RTP port range " ++ toString t.portMin.toNat ++ "-" ++ toString t.portMax.toNat))
  else if t.packetTimeMs = 0 then .error (.config "rtp.default_ptime_ms must be non-zero")
  else if t.delays.greatest < t.delays.least then
    .error (.config "rtp.jitter.min_delay_ms exceeds max_delay_ms")
  else .ok ()

/-- There is room for alternate audio. -/
def Bridging.validate (b : Bridging) : Outcome Unit :=
  if b.alternateBufferSize = 0 then
    .error (.config "b2b.alternate_buffer_size must be non-zero")
  else .ok ()

/-- The first contradiction, if there is one. -/
def Server.validate (s : Server) : Except Panic (Outcome Unit) := do
  let processor ← s.processor.validate
  return do
    processor
    s.transport.validate
    s.bridging.validate

theorem Server.validate_standard {threads : Nat} (h : threads ≠ 0) :
    (Server.standard threads).validate = .ok (.ok ()) := by
  have h1 : (Processor.standard threads).validate = .ok (.ok ()) := by
    have hq : (Processor.standard threads).quantum = .ok 320 := by
      show (Processor.standard 0).quantum = .ok 320
      rfl
    have ht : ¬ (Processor.standard threads).tickMs = 0 := by
      show ¬ (10 : UInt64) = 0
      decide
    rw [Processor.validate, if_neg (show ¬ (Processor.standard threads).threads = 0 from h),
      if_neg ht, hq]
    rfl
  show ((Processor.standard threads).validate >>= fun _ => _) = _
  rw [h1]
  rfl

end CallBridge.Settings
