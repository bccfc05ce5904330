import CallBridge.Bridge.Pair
import CallBridge.Rehearsal.Script
import CallBridge.Rehearsal.ScriptedStream
import CallBridge.Rehearsal.Sources

/-!
# Rehearsing a stream pair

A script drives one pair of scripted streams step by step. After each step everything that can be
seen of the pair is reported.
-/

namespace CallBridge.Rehearsal

open Bridge (Pair)
open Rtp (MediaStream Receiver Registration)

/-- A step of a pair's script. -/
inductive PairStep where
  | setRelay (l : Leg) (sdp : SdpText) (line : Nat)
  | negotiate (l : Leg) (detects : Bool) (ours theirs : SdpText) (line : Nat)
  | reset (l : Leg)
  | write (l : Leg) (ts : UInt64) (scratch : Nat)
  | alternate (l : Leg) (name : String) (spec : SourceSpec)
  | writeTo (writer : Nat) (data : List UInt8)
  | drain (l : Leg)
  | clearTimeout
  | clear
  | tune (l : Leg) (tuning : Tuning) (barred : Option (List UInt16))
  | deliver (l : Leg) (data : List UInt8)
deriving Repr, Inhabited

/-- A pair in rehearsal. -/
structure PairBench where
  pair : Pair ScriptedStream
  receiver : Receiver
  sources : Sources

/-- What is seen of one leg. -/
structure LegView where
  port : UInt16
  initialized : Bool
  mask : Option PayloadMask
  hasDetector : Bool
  hasAlternate : Bool
  log : List Entry
deriving DecidableEq, Repr, Inhabited

/-- What is seen after a step. -/
structure PairReport where
  result : Reply
  legs : PerLeg LegView
  requests : List Registration
  registered : List UInt16
  closed : List String

namespace PairBench

/-- The bench after an alternate source was replaced, and the name of the one that was closed. -/
def alternate (b : PairBench) (l : Leg) (name : String) (spec : SourceSpec) :
    PairBench × List String :=
  let (sources, feed) := b.sources.make name spec
  let (pair, closed) := b.pair.setAlternate l feed
  ({ b with pair, sources := sources.shelve closed.toList }, sources.closed closed.toList)

/-- The bench after a writer wrote, and the answer. -/
def writeTo (b : PairBench) (writer : Nat) (data : List UInt8) : PairBench × Reply :=
  match b.sources.writers[writer]? with
  | none => (b, .ok .nothing)
  | some serial =>
    match b.pair.writeAlternate serial data with
    | some (pair, r) => ({ b with pair }, written? (some r))
    | none =>
      let (sources, r) := b.sources.write serial data
      ({ b with sources }, written? r)

/-- The bench after a leg was bound to a media line, and the answer. -/
def negotiate (b : PairBench) (l : Leg) (detects : Bool) (ours theirs : SdpText) (line : Nat) :
    PairBench × Reply :=
  match ours.read, theirs.read with
  | .ok ours, .ok theirs =>
    let (pair, receiver, r) := b.pair.initLeg b.receiver 0 l detects ours theirs line
    ({ b with pair, receiver }, plainly r)
  | .error f, _ => (b, .error f)
  | _, .error f => (b, .error f)

/-- The bench after a media line became the relay filter, and the answer. -/
def setRelay (b : PairBench) (l : Leg) (sdp : SdpText) (line : Nat) : PairBench × Reply :=
  match sdp.read with
  | .error f => (b, .error f)
  | .ok d =>
    match d.media[line]? with
    | none => (b, .error (.mediaLineNotFound line))
    | some media =>
      let (pair, receiver) := b.pair.setRelay b.receiver l media
      ({ b with pair, receiver }, .ok .nothing)

/-- The bench after the script changed a leg's stream and the ports that cannot be read. -/
def tune (b : PairBench) (l : Leg) (tuning : Tuning) (barred : Option (List UInt16)) :
    PairBench :=
  { b with
    pair := b.pair.modifyStream l (·.tune tuning)
    receiver := { b.receiver with barred := barred.getD b.receiver.barred } }

/-- The bench after both legs were put out of use, and the names of the closed sources. -/
def clear (b : PairBench) : PairBench × List String :=
  let (pair, receiver, feeds) := b.pair.clear b.receiver
  (⟨pair, receiver, b.sources.shelve feeds⟩, b.sources.closed feeds)

/-- The bench after a step, the answer, and the names of the closed sources. -/
def step (b : PairBench) : PairStep → PairBench × Reply × List String
  | .setRelay l sdp line => let (b, r) := b.setRelay l sdp line; (b, r, [])
  | .negotiate l detects ours theirs line =>
    let (b, r) := b.negotiate l detects ours theirs line
    (b, r, [])
  | .reset l => let (pair, was) := b.pair.resetLeg l; ({ b with pair }, .ok (.truth was), [])
  | .write l ts scratch =>
    let (pair, _, r) := b.pair.writeLeg 0 l ts (blank scratch)
    ({ b with pair }, r.map .count, [])
  | .alternate l name spec => let (b, closed) := b.alternate l name spec; (b, .ok .nothing, closed)
  | .writeTo writer data => let (b, r) := b.writeTo writer data; (b, r, [])
  | .drain l => let (pair, events) := b.pair.drainKeys l; ({ b with pair }, .ok (.keys events), [])
  | .clearTimeout => ({ b with pair := b.pair.clearTimeout 0 }, .ok .nothing, [])
  | .clear => let (b, closed) := b.clear; (b, .ok .nothing, closed)
  | .tune l tuning barred => (b.tune l tuning barred, .ok .nothing, [])
  | .deliver l data => ({ b with pair := b.pair.deliver 0 l data }, .ok .nothing, [])

/-- What is seen of a leg. -/
def view (b : PairBench) (l : Leg) : LegView where
  port := b.pair.port l
  initialized := b.pair.isInitialized l
  mask := b.pair.relayMask l
  hasDetector := b.pair.hasDetector l
  hasAlternate := b.pair.hasAlternate l
  log := (b.pair.stream l).log

/-- The bench with all logs emptied. -/
def forget (b : PairBench) : PairBench :=
  { b with
    pair := (b.pair.modifyStream .a (·.forget)).modifyStream .b (·.forget)
    receiver := b.receiver.collect.1 }

/-- The bench after a step with its logs emptied, and what was seen. -/
def report (b : PairBench) (s : PairStep) : PairBench × PairReport :=
  let (b, result, closed) := b.step s
  (b.forget,
    ⟨result, ⟨b.view .a, b.view .b⟩, b.receiver.log, sortPorts b.receiver.reading, closed⟩)

/-- What is seen of a script, step by step. -/
def reports (b : PairBench) : List PairStep → List PairReport
  | [] => []
  | s :: rest =>
    let (b, r) := b.report s
    r :: b.reports rest

/-- The pair of two scripted streams on the ports 30000 and 30002, and the requests that it made to
the receiver. -/
def open? (a b : Tuning) (playout : Playout.Mode) (barred : List UInt16) :
    List Registration × Outcome PairBench :=
  let (receiver, r) := Pair.create ((ScriptedStream.onPort 30000).tune a)
    ((ScriptedStream.onPort 30002).tune b) playout (Receiver.idle barred)
  (receiver.log, r.map fun pair => ⟨pair, receiver.collect.1, Sources.none⟩)

end PairBench

end CallBridge.Rehearsal
