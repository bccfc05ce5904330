import CallBridge.Rehearsal.Script
import CallBridge.Rehearsal.ScriptedStream
import CallBridge.Rtp.Receiver

/-!
# Rehearsing a receiver

A script has streams read by a receiver and sends datagrams to their ports. What is not read does
not reach its stream.
-/

namespace CallBridge.Rehearsal

open Rtp (MediaStream Receiver)

/-- A step of a receiver's script. -/
inductive ReceiverStep where
  | add (which : Nat)
  | remove (port : UInt16)
  | send (which : Nat) (data : List UInt8)
deriving DecidableEq, Repr, Inhabited

/-- Whether a step needs a network. -/
def ReceiverStep.sends : ReceiverStep → Bool
  | send .. => true
  | _ => false

/-- A receiver and the streams that it may read. -/
structure ReceiverBench where
  receiver : Receiver
  streams : List ScriptedStream

/-- The answer of a step: what a stream got, whether a stream was read, or nothing. -/
inductive ReceiverValue where
  | log (entries : List Entry)
  | truth (b : Bool)
  | nothing

/-- What is seen after a step. -/
structure ReceiverReport where
  result : Outcome ReceiverValue
  count : Nat
  registered : List Bool

namespace ReceiverBench

/-- The bench after a stream was to be read, and the answer. -/
def add (b : ReceiverBench) (which : Nat) : ReceiverBench × Outcome ReceiverValue :=
  match b.streams[which]? with
  | none => (b, .ok .nothing)
  | some s =>
    let (receiver, r) := b.receiver.addSocket s.port s.hasSocket
    ({ b with receiver }, r.map fun _ => .nothing)

/-- What a stream got of a datagram sent to its port. -/
def send (b : ReceiverBench) (which : Nat) (data : List UInt8) : List Entry :=
  match b.streams[which]? with
  | none => []
  | some s =>
    if b.receiver.isRegistered s.port then (s.receive false (Receiver.cut data)).1.log else []

/-- The bench after a step, and the answer. -/
def step (b : ReceiverBench) : ReceiverStep → ReceiverBench × Outcome ReceiverValue
  | .add which => b.add which
  | .remove port =>
    let (receiver, was) := b.receiver.remove port
    ({ b with receiver }, .ok (.truth was))
  | .send which data => (b, .ok (.log (b.send which data)))

/-- The bench after a step, and what was seen. -/
def report (b : ReceiverBench) (s : ReceiverStep) : ReceiverBench × ReceiverReport :=
  let (b, r) := b.step s
  (b, ⟨r, b.receiver.count, b.streams.map fun s => b.receiver.isRegistered s.port⟩)

/-- What is seen of a script, step by step. -/
def reports (b : ReceiverBench) : List ReceiverStep → List ReceiverReport
  | [] => []
  | s :: rest =>
    let (b, r) := b.report s
    r :: b.reports rest

/-- The bench of streams on ports, each with a socket or without one, of which none is read. -/
def start (streams : List (UInt16 × Bool)) : ReceiverBench :=
  ⟨Receiver.idle [], streams.map fun (port, hasSocket) =>
    { ScriptedStream.onPort port with hasSocket }⟩

end ReceiverBench

end CallBridge.Rehearsal
