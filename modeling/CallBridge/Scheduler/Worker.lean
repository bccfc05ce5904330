import CallBridge.Scheduler.Callgroups
import CallBridge.Scheduler.Hook

/-!
# Workers

A worker drives its sessions tick by tick. At the start of a tick it applies the requests that wait
in its queue. Then it reads and writes the audio of one session after the other, and posts the keys
of those that are left. A session whose hook fails is detached after the pass in which it failed,
and the others go on undisturbed.

Hooks are called in sequences that end at the first hook that fails. A hook that is refused a
detachment fails with the refusal.

The scheduler cannot see the list of a worker's sessions, only the number that the worker reports. A
worker reports it after every request that it applied, except the insertion of a session that it
drives already, then whenever it forced a session off, and when it ended.

In the media core, `Worker` keeps its name and `Request` is `SchedulerRequest`; `applyQueue` is
`apply_requests`, `audio` is `process_audio`, `keys` is `process_dtmf`, `detachFailed` is
`detach_failed`, `finish` is `shutdown`, and what `report` sets is `session_count`.
-/

namespace CallBridge.Scheduler

/-- What a worker is asked for. -/
inductive Request where
  | insert (id : SessionId)
  | detach (id : SessionId) (how : Detachment)
deriving DecidableEq, Repr, Inhabited

/-- A worker: the sessions that it drives in the order in which they came, the requests that wait,
the timestamp of the next tick, and the number of sessions that it reported last. -/
structure Worker where
  sessions : List SessionId
  queue : List Request
  clock : UInt64
  reported : Nat
deriving DecidableEq, Repr, Inhabited

/-- The worker before the first request. -/
def Worker.start : Worker := ⟨[], [], 0, 0⟩

/-- The size of the scratch buffer that a worker lends to its sessions. -/
def Worker.scratchSize : Nat := 4096

/-- A worker at work: the world of the sessions, the callgroups, the number of the worker and the
worker itself, and the requests that hooks made to workers. -/
structure Turn (ω : Type) where
  world : ω
  groups : Callgroups
  index : Nat
  worker : Worker
  outgoing : List (Nat × Request)

namespace Turn

variable {ω : Type}

/-- The turn with a session forgotten by the callgroups and its worker asked to detach it. A session
that is not known is refused. -/
def askDetach (t : Turn ω) (ask : SessionId × Detachment) : Turn ω × Ending :=
  match t.groups.release ask.1 with
  | (groups, none) => ({ t with groups }, .fault (.unknownSession ask.1.text))
  | (groups, some worker) =>
    ({ t with groups, outgoing := t.outgoing ++ [(worker, .detach ask.1 ask.2)] }, .done)

/-- The turn after detachments were asked for up to the first that is refused, and the refusal. -/
def askDetachments : List (SessionId × Detachment) → Turn ω → Turn ω × Ending
  | [], t => (t, .done)
  | ask :: rest, t =>
    match t.askDetach ask with
    | (t, .done) => askDetachments rest t
    | refused => refused

/-- The turn after a hook of a session, and how the hook ended. -/
def call (c : Client ω) (t : Turn ω) (id : SessionId) (hook : Hook) : Turn ω × Ending :=
  let (world, ending, asks) := c.call t.world t.index id hook
  let (t, refusal) := askDetachments asks { t with world }
  (t, if ending = .done then refusal else ending)

/-- The turn after hooks of a session up to the first that fails, and why that one failed. -/
def runHooks (c : Client ω) (id : SessionId) : List Hook → Turn ω → Turn ω × Option String
  | [], t => (t, none)
  | hook :: rest, t =>
    match t.call c id hook with
    | (t, ending) =>
      match ending.reason with
      | none => runHooks c id rest t
      | some reason => (t, some reason)

/-- The turn with the list of driven sessions replaced. -/
def setSessions (t : Turn ω) (sessions : List SessionId) : Turn ω :=
  { t with worker := { t.worker with sessions } }

/-- The turn after the worker reported a number of sessions. -/
def report (t : Turn ω) (count : Nat) : Turn ω :=
  { t with worker := { t.worker with reported := count } }

/-- Whether the worker drives a session. -/
def drives (t : Turn ω) (id : SessionId) : Bool := t.worker.sessions.contains id

/-! ## Requests -/

/-- The turn after a session was taken up, unless the worker drives it already. -/
def insert (c : Client ω) (t : Turn ω) (id : SessionId) : Turn ω :=
  if t.drives id then t
  else
    let (t, _) := t.runHooks c id [.started]
    let t := t.setSessions (t.worker.sessions ++ [id])
    t.report t.worker.sessions.length

/-- The turn after a session was detached, if the worker drives it. -/
def detach (c : Client ω) (t : Turn ω) (id : SessionId) (how : Detachment) : Turn ω :=
  let t :=
    if t.drives id then
      ((t.setSessions (t.worker.sessions.erase id)).runHooks c id how.hooks).1
    else t
  t.report t.worker.sessions.length

/-- The turn after a request was applied. -/
def apply (c : Client ω) (t : Turn ω) : Request → Turn ω
  | .insert id => t.insert c id
  | .detach id how => t.detach c id how

/-- The turn after all requests that wait were applied. -/
def applyQueue (c : Client ω) (t : Turn ω) : Turn ω :=
  t.worker.queue.foldl (apply c) { t with worker := { t.worker with queue := [] } }

/-! ## A tick -/

/-- The turn after the same hooks were called on one session after the other, and the sessions
that failed with their reasons. -/
def pass (c : Client ω) (hooks : List Hook) :
    List SessionId → Turn ω → Turn ω × List (SessionId × String)
  | [], t => (t, [])
  | id :: rest, t =>
    let (t, reason) := t.runHooks c id hooks
    let (t, failed) := pass c hooks rest t
    (t, (reason.map fun r => (id, r)).toList ++ failed)

/-- The turn after a session that failed was forced off the worker. -/
def detachFailed (c : Client ω) (t : Turn ω) (failure : SessionId × String) : Turn ω :=
  let (id, reason) := failure
  if t.drives id then
    let t := t.setSessions (t.worker.sessions.erase id)
    let t := { t with groups := (t.groups.release id).1 }
    let t := t.report t.worker.sessions.length
    (t.runHooks c id [.clearAudio, .failed reason, .terminated]).1
  else t

/-- The turn after a pass over all sessions, those that failed being forced off. -/
def round (c : Client ω) (hooks : List Hook) (t : Turn ω) : Turn ω :=
  let (t, failed) := t.pass c hooks t.worker.sessions
  failed.foldl (detachFailed c) t

/-- The turn after the audio of all sessions was processed. -/
def audio (c : Client ω) (t : Turn ω) : Turn ω :=
  t.round c [.read t.worker.clock, .write t.worker.clock]

/-- The turn after the keys of all sessions were posted. -/
def keys (c : Client ω) (t : Turn ω) : Turn ω := t.round c [.keys]

/-- The turn with the clock moved on by a quantum. -/
def advance (t : Turn ω) (quantum : UInt64) : Turn ω :=
  { t with worker := { t.worker with clock := t.worker.clock + quantum } }

/-- The turn after the sessions were driven for one tick. -/
def work (c : Client ω) (quantum : UInt64) (t : Turn ω) : Turn ω :=
  ((t.audio c).keys c).advance quantum

/-- The turn after the worker ended: requests are discarded and sessions terminated. -/
def finish (c : Client ω) (t : Turn ω) : Turn ω :=
  let ended := t.worker.sessions.foldl
    (fun t id =>
      let t := { t with groups := (t.groups.release id).1 }
      (t.runHooks c id [.terminated]).1)
    { t with worker := { t.worker with queue := [], sessions := [] } }
  ended.report 0

/-! ## Laws -/

theorem worker_askDetach (t : Turn ω) (ask : SessionId × Detachment) :
    (t.askDetach ask).1.worker = t.worker := by
  unfold askDetach; split <;> rfl

theorem worker_askDetachments (asks : List (SessionId × Detachment)) (t : Turn ω) :
    (askDetachments asks t).1.worker = t.worker := by
  induction asks generalizing t with
  | nil => rfl
  | cons ask asks ih =>
    have hask := worker_askDetach t ask
    unfold askDetachments
    split
    · next h => rw [ih, ← hask, h]
    · exact hask

end Turn

end CallBridge.Scheduler
