import CallBridge.Bridge.Processing
import CallBridge.Rehearsal.Phones
import CallBridge.Rehearsal.Script
import CallBridge.Rehearsal.ScriptedStream
import CallBridge.Rehearsal.Sources
import CallBridge.Rtp.AudioStream
import CallBridge.Scheduler.Pool

/-!
# Rehearsing a media session

A script drives one session and a scheduler with one worker step by step. The worker is held at the
start of a tick, right after it applied its requests, by a session of the rehearsal that comes
before all others and is counted with them. It goes on when a step asks for it: it drives its
sessions, applies the requests that came meanwhile, and is held again.

Streams are named by their leg and by how many streams of that leg were allocated before them. Their
ports are even and go up from 30000 in the order of allocation.
-/

namespace CallBridge.Rehearsal

open Bridge (Session Surroundings)
open Rtp (MediaStream AudioStream Receiver Registration)
open Scheduler (Detachment Pool)

/-- Streams that can be used in a rehearsal. -/
class Staged (σ : Type) extends MediaStream σ where
  /-- The stream after a script changed it. -/
  tune : Tuning → σ → σ
  /-- The stream with everything forgotten that was reported. -/
  forget : σ → σ

instance : Staged ScriptedStream where
  tune := ScriptedStream.tune
  forget := ScriptedStream.forget

instance : Staged AudioStream where
  tune _ s := s
  forget s := s.collect.1

/-- A step of a session's script. -/
inductive SessionStep where
  | remote (l : Leg) (sdp : String)
  | ours (l : Leg) (sdp : String)
  | replace (l : Leg) (sdp address : String)
  | write (ts : UInt64) (scratch : Nat)
  | postKeys
  | tick (count : Nat)
  | tune (l : Leg) (which : Nat) (tuning : Tuning) (detects : Option Bool)
  | deliver (l : Leg) (which : Nat) (data : List UInt8)
  | alternate (l : Leg) (index : Nat) (name : String) (spec : SourceSpec)
  | attach (l : Leg) (index : Nat)
  | writeTo (writer : Nat) (data : List UInt8)
  | stop
  | cloneHandle
  | dropHandle
  | addReference
  | releaseReference
  | finalize
  | clearAudio
  | clearTimeout
  | detach (how : Detachment)
  | enter
  | shutdown
deriving Repr, Inhabited

variable {σ : Type}

/-- A session in rehearsal: with the handles that the script holds and the time. -/
structure SessionBench (σ : Type) where
  around : Surroundings σ
  session : Session σ
  pool : Pool
  sources : Sources
  handles : Nat
  now : Nat

/-- What is seen of the session after a step, and of every stream that was ever allocated. -/
structure SessionReport (σ : Type) where
  result : Reply
  redirected : Option Sdp.Description
  session : Session σ
  pool : Pool
  streams : List (Leg × Nat × σ)
  closed : List String

namespace SessionBench

/-- The session that holds the worker. -/
def gate : SessionId := ⟨"gate"⟩

/-- The port of the stream that is allocated after a number of others. -/
def portAfter (allocated : Nat) : UInt16 := UInt16.ofNat (30000 + 2 * allocated)

/-- Allocation of a limited number of streams. -/
def allocator (limit : Nat) (stream : Leg → UInt16 → σ) (allocated : Nat) (l : Leg) : Outcome σ :=
  if allocated < limit then .ok (stream l (portAfter allocated))
  else .error (.portsExhausted 30000 (30000 + 2 * limit))

/-! ## Streams -/

variable [Staged σ]

/-- The streams of a leg, those in use and those given up. -/
def streamsOf (b : SessionBench σ) (l : Leg) : List σ :=
  b.session.pairs.map (·.stream l) ++ (b.session.released.filter (·.1 = l)).map (·.2)

/-- The streams of a leg in the order in which they were allocated. -/
def allocated (b : SessionBench σ) (l : Leg) : List σ :=
  (b.streamsOf l).mergeSort fun s t => (MediaStream.port s).toNat ≤ (MediaStream.port t).toNat

/-- All streams with their legs and numbers. -/
def streams (b : SessionBench σ) : List (Leg × Nat × σ) :=
  Leg.both.flatMap fun l => (b.allocated l).zipIdx.map fun (s, i) => (l, i, s)

/-- The bench with the streams of a leg that lie on a port changed. -/
def modifyStream (b : SessionBench σ) (l : Leg) (port : UInt16) (f : σ → σ) : SessionBench σ :=
  let change (s : σ) := if MediaStream.port s = port then f s else s
  { b with session := { b.session with
      pairs := b.session.pairs.map (·.modifyStream l change)
      released := b.session.released.map fun (k, s) => (k, if k = l then change s else s) } }

/-- The port of a leg's stream with a number. -/
def portOf? (b : SessionBench σ) (l : Leg) (which : Nat) : Option UInt16 :=
  ((b.allocated l)[which]?).map MediaStream.port

/-- The bench after a datagram came in for a leg's stream with a number. A stream that was given up
has nobody to relay to. -/
def deliver (b : SessionBench σ) (l : Leg) (which : Nat) (data : List UInt8) : SessionBench σ :=
  match b.portOf? l which with
  | none => b
  | some port =>
    if (b.session.ports l).contains port then
      { b with session := b.session.deliver b.now l port data }
    else b.modifyStream l port fun s => (MediaStream.receive s b.now false data).1

/-! ## The scheduler -/

/-- The bench after the worker drove its sessions for a tick and applied the requests that
waited. -/
def tick (b : SessionBench σ) : SessionBench σ :=
  let client := Session.client b.now (blank Scheduler.Worker.scratchSize)
  let (pool, session) := b.pool.work client b.session
  let (pool, session) := pool.applyQueues client session
  { b with pool, session, now := b.now + 1 }

/-- The bench after a number of ticks. -/
def ticks : Nat → SessionBench σ → SessionBench σ
  | 0, b => b
  | n + 1, b => ticks n b.tick

/-- The bench after the session was handed to the scheduler, and the answer. -/
def enter (b : SessionBench σ) : SessionBench σ × Reply :=
  let (pool, r) := b.pool.add b.session.id b.session.callgroup
  ({ b with pool }, plainly r)

/-- The bench after the scheduler was asked to detach the session, and the answer. -/
def detach (b : SessionBench σ) (how : Detachment) : SessionBench σ × Reply :=
  let (pool, r) := b.pool.detach b.session.id how
  ({ b with pool }, plainly r)

/-- The bench after the session took in a description; a session that became ready is with the
scheduler then. -/
def adopt (b : SessionBench σ) (session : Session σ) : SessionBench σ :=
  let next := { b with session }
  if b.session.submissions < session.submissions then next.enter.1 else next

/-- The bench after the session was stopped. Where the scheduler knows the session, its worker goes
on until it has let go of it. -/
def stop (b : SessionBench σ) : SessionBench σ :=
  let known := b.pool.contains b.session.id
  let next := { b with session := b.session.stop known }
  if b.session.registered && known then
    let (next, _) := next.detach .remove
    if next.pool.running then next.tick else next
  else next

/-- The bench after the held tick was finished and the scheduler shut down. -/
def shutdown (b : SessionBench σ) : SessionBench σ :=
  if b.pool.running then
    let client := Session.client b.now (blank Scheduler.Worker.scratchSize)
    let (pool, session) := b.pool.work client b.session
    let (pool, session) := pool.shutdown client session
    { b with pool, session }
  else b

/-! ## Descriptions and sources -/

/-- The bench after a remote description came in, and the answer. -/
def remote (b : SessionBench σ) (l : Leg) (text : String) : SessionBench σ × Reply :=
  match Sdp.Description.parse text with
  | .error f => (b, .error f)
  | .ok sdp =>
    let (session, r) := b.session.updateRemote b.around b.now l sdp b.pool.running
    (b.adopt session, plainly r)

/-- The bench after a local description came in, and the answer. -/
def ours (b : SessionBench σ) (l : Leg) (text : String) : SessionBench σ × Reply :=
  match Sdp.Description.parse text with
  | .error f => (b, .error f)
  | .ok sdp => (b.adopt (b.session.updateLocal b.now l sdp b.pool.running), .ok .nothing)

/-- The answer to a request to redirect a description, and the description. -/
def replace (b : SessionBench σ) (l : Leg) (text address : String) :
    Reply × Option Sdp.Description :=
  match Sdp.Description.parse text with
  | .error f => (.error f, none)
  | .ok sdp =>
    let (sdp, r) := b.session.replaceAddress l address sdp
    (plainly r, some sdp)

/-- The bench after an alternate source was asked for, and the answer. A source that finds no pair
is put aside as it is. -/
def alternate (b : SessionBench σ) (l : Leg) (index : Nat) (name : String) (spec : SourceSpec) :
    SessionBench σ × Reply :=
  let (sources, feed) := b.sources.make name spec
  match b.session.setAlternate l index feed with
  | (session, .ok ()) => ({ b with session, sources }, .ok .nothing)
  | (session, .error f) => ({ b with session, sources := sources.shelve feed.toList }, .error f)

/-- The bench after a ring buffer was asked for as an alternate source, and the answer. -/
def attach (b : SessionBench σ) (l : Leg) (index : Nat) : SessionBench σ × Reply :=
  match b.session.attachBuffered b.around l index b.sources.next with
  | (session, .ok ()) => ({ b with session, sources := b.sources.reserve }, .ok .nothing)
  | (session, .error f) => ({ b with session }, .error f)

/-- The bench after a writer wrote, and the answer. -/
def writeTo (b : SessionBench σ) (writer : Nat) (data : List UInt8) : SessionBench σ × Reply :=
  match b.sources.writers[writer]? with
  | none => (b, .ok .nothing)
  | some serial =>
    match b.session.writeAlternate serial data with
    | some (session, r) => ({ b with session }, written? (some r))
    | none =>
      let (sources, r) := b.sources.write serial data
      ({ b with sources }, written? r)

/-! ## Steps -/

/-- The bench with the session changed by a function. -/
def withSession (b : SessionBench σ) (f : Session σ → Session σ) : SessionBench σ × Reply :=
  ({ b with session := f b.session }, .ok .nothing)

/-- The bench after the script changed a stream or whether a leg wants to hear of keys. -/
def tune (b : SessionBench σ) (l : Leg) (which : Nat) (tuning : Tuning) (detects : Option Bool) :
    SessionBench σ :=
  let heard := { b with session := { b.session with
    detects := b.session.detects.modify l fun d => detects.getD d } }
  match b.portOf? l which with
  | none => heard
  | some port => heard.modifyStream l port (Staged.tune tuning)

/-- The bench after a handle on the session was dropped, if there was one. -/
def dropHandle (b : SessionBench σ) : SessionBench σ :=
  if b.handles = 0 then b
  else { b with handles := b.handles - 1, session := b.session.giveBack }

/-- The bench after a handle on the session was made. -/
def addHandle (b : SessionBench σ) : SessionBench σ :=
  { b with handles := b.handles + 1, session := b.session.addReference }

/-- The bench after a step, and the answer. -/
def step (b : SessionBench σ) : SessionStep → SessionBench σ × Reply
  | .remote l sdp => b.remote l sdp
  | .ours l sdp => b.ours l sdp
  | .replace l sdp address => (b, (b.replace l sdp address).1)
  | .write ts scratch =>
    let (session, r) := b.session.exchange b.now ts (blank scratch)
    ({ b with session }, plainly r)
  | .postKeys => b.withSession (·.processKeys)
  | .tick count => (ticks count b, .ok .nothing)
  | .tune l which tuning detects => (b.tune l which tuning detects, .ok .nothing)
  | .deliver l which data => (b.deliver l which data, .ok .nothing)
  | .alternate l index name spec => b.alternate l index name spec
  | .attach l index => b.attach l index
  | .writeTo writer data => b.writeTo writer data
  | .stop => (b.stop, .ok .nothing)
  | .cloneHandle => (if b.handles = 0 then b else b.addHandle, .ok .nothing)
  | .dropHandle => (b.dropHandle, .ok .nothing)
  | .addReference => b.withSession (·.addReference)
  | .releaseReference =>
    let (session, last) := b.session.releaseReference
    ({ b with session }, .ok (.truth last))
  | .finalize => b.withSession (·.finalize)
  | .clearAudio => b.withSession (·.clearAudio)
  | .clearTimeout => b.withSession (·.clearTimeout b.now)
  | .detach how => b.detach how
  | .enter => b.enter
  | .shutdown => (b.shutdown, .ok .nothing)

/-- The description that a step redirects. -/
def redirected (b : SessionBench σ) : SessionStep → Option Sdp.Description
  | .replace l sdp address => (b.replace l sdp address).2
  | _ => none

/-- The bench with everything forgotten that was reported; closed sources are put aside. -/
def forget (b : SessionBench σ) : SessionBench σ :=
  let quiet (s : Session σ) : Session σ :=
    { s with
      pairs := s.pairs.map fun p =>
        (p.modifyStream .a Staged.forget).modifyStream .b Staged.forget
      released := s.released.map fun (l, s) => (l, Staged.forget s)
      receiver := s.receiver.collect.1
      posted := ⟨[], []⟩
      retired := [] }
  { b with
    session := quiet b.session
    sources := b.sources.shelve b.session.retired
    now := b.now + 1 }

/-- The bench after a step with its logs emptied, and what was seen. -/
def report (b : SessionBench σ) (s : SessionStep) : SessionBench σ × SessionReport σ :=
  let sdp := b.redirected s
  let (b, result) := b.step s
  (b.forget,
    ⟨result, sdp, b.session, b.pool, b.streams, b.sources.closed b.session.retired⟩)

/-- What is seen of a script, step by step. -/
def reports (b : SessionBench σ) : List SessionStep → List (SessionReport σ)
  | [] => []
  | s :: rest =>
    let (b, r) := b.report s
    r :: b.reports rest

/-- The bench of a new session that somebody has a number of handles on. The worker has taken up the
session that holds it. -/
def start (around : Surroundings σ) (callgroup : String) (detects : PerLeg Bool) (handles : Nat) :
    SessionBench σ :=
  let session : Session σ := Session.fresh ⟨"session"⟩ callgroup detects (Receiver.idle [])
  let pool := ((Pool.start 1 320).add gate gate.text).1
  let (pool, session) := pool.applyQueues
    (Session.client 0 (blank Scheduler.Worker.scratchSize)) session
  ⟨around, { session with references := handles }, pool, Sources.none, handles, 1⟩

/-- What the phones heard of audio streams, step by step. -/
def heard (phones : Phones) : List (SessionReport AudioStream) → List (List Heard)
  | [] => []
  | r :: rest =>
    let (phones, h) := phones.collect (r.streams.map (·.2.2))
    h :: heard phones rest

end SessionBench

end CallBridge.Rehearsal
