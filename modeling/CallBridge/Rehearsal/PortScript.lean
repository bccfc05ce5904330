import CallBridge.Rehearsal.Script
import CallBridge.Rtp.AudioStream
import CallBridge.Rtp.PortAllocator

/-!
# Rehearsing the allocation of ports

A script makes streams on ports of a range and gives them up again, while others take and free
ports of the same host.
-/

namespace CallBridge.Rehearsal

open Rtp (AudioStream PortAllocator StreamSettings)

/-- A step of a script of ports. -/
inductive PortStep where
  | create (l : Leg)
  | drop (which : Nat)
  | occupy (port : Nat)
  | release (port : Nat)
  | read (which : Nat)
deriving DecidableEq, Repr, Inhabited

/-- The streams made so far, those given up being absent, and the ports that others have. -/
structure PortBench where
  allocator : PortAllocator
  settings : Settings.Server
  address : Net.Address
  streams : List (Option AudioStream)
  occupied : List Nat

/-- The answer of a step: a new stream, a number of bytes, or nothing. -/
inductive PortValue where
  | created (s : AudioStream)
  | count (n : Nat)
  | nothing

namespace PortBench

/-- Whether a port can be bound. -/
def isFree (b : PortBench) (port : Nat) : Bool :=
  !b.occupied.contains port && !(b.streams.filterMap id).any (·.port.toNat = port)

/-- A new stream on a port. -/
def streamOn (b : PortBench) (l : Leg) (port : Nat) : AudioStream :=
  AudioStream.fresh l ⟨b.address, UInt16.ofNat port⟩ .connected (StreamSettings.ofServer b.settings)
    Codec.Registry.standard ⟨0, 0, 0, 0⟩ 0

/-- The bench after a stream was asked for, and the answer. -/
def create (b : PortBench) (l : Leg) : PortBench × Outcome PortValue :=
  match PortAllocator.allocate b.isFree b.allocator with
  | (allocator, .error f) => ({ b with allocator }, .error f)
  | (allocator, .ok port) =>
    let s := b.streamOn l port
    ({ b with allocator, streams := b.streams ++ [some s] }, .ok (.created s))

/-- The answer to a read of one frame from a stream. -/
def read (b : PortBench) (which : Nat) : Outcome PortValue :=
  match (b.streams[which]?).join with
  | none => .ok .nothing
  | some s => (s.take 0 320).2.map fun bytes => .count bytes.length

/-- The bench after a step, and the answer. -/
def step (b : PortBench) : PortStep → PortBench × Outcome PortValue
  | .create l => b.create l
  | .drop which => ({ b with streams := b.streams.set which none }, .ok .nothing)
  | .occupy port => ({ b with occupied := port :: b.occupied }, .ok .nothing)
  | .release port => ({ b with occupied := b.occupied.filter (· ≠ port) }, .ok .nothing)
  | .read which => (b, b.read which)

/-- The answers of a script, step by step. -/
def replies (b : PortBench) : List PortStep → List (Outcome PortValue)
  | [] => []
  | s :: rest =>
    let (b, r) := b.step s
    r :: b.replies rest

/-- The bench of a server's range of ports before the first stream. -/
def start (s : Settings.Server) (address : Net.Address) : PortBench :=
  ⟨PortAllocator.ofRange s.transport.portMin.toNat s.transport.portMax.toNat, s, address, [], []⟩

end PortBench

end CallBridge.Rehearsal
