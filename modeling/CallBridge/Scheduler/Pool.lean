import CallBridge.Scheduler.Worker
import CallBridge.Settings.Basic

/-!
# The media scheduler

A fixed pool of workers. A session is handed to the worker of its callgroup by a request that waits
until the worker's next tick. Detaching has two steps: the callgroups forget the session, and its
worker is sent a request. After the scheduler was shut down no worker takes requests any more.

In the media core, `Pool` is `MediaScheduler`: `add` is its `add_session`, `detach` serves
`remove_session`, `soft_remove_session` and `clear_session`, and `attachedCount` is
`attached_count`.
-/

namespace CallBridge.Scheduler

/-- The workers, the callgroups, whether the workers run, and by how much their clocks grow. -/
structure Pool where
  workers : List Worker
  groups : Callgroups
  running : Bool
  quantum : UInt64
deriving DecidableEq, Repr, Inhabited

namespace Pool

/-- The scheduler with its workers just started: at least one, with a clock that moves. -/
def start (threads : Nat) (quantum : UInt64) : Pool where
  workers := List.replicate (max threads 1) Worker.start
  groups := Callgroups.start threads
  running := true
  quantum := max quantum 1

/-- The scheduler that is started on settings, whether or not they were checked before. -/
def launch (p : Settings.Processor) : Except Panic Pool := do
  let quantum ← p.quantum
  return start p.threads quantum

/-! ## Queries -/

/-- Whether a session is known. -/
def contains (p : Pool) (id : SessionId) : Bool := p.groups.contains id

/-- The number of sessions known, those included that wait to be taken up. -/
def sessionCount (p : Pool) : Nat := p.groups.sessionCount

/-- The number of sessions that workers drive, as they reported it. -/
def attachedCount (p : Pool) : Nat := p.workers.foldr (fun w n => w.reported + n) 0

/-! ## Requests -/

/-- The scheduler after a request was sent to a worker; it is lost where no worker runs. -/
def send (p : Pool) (request : Nat × Request) : Pool :=
  if p.running then
    { p with workers := p.workers.modify request.1 fun w =>
        { w with queue := w.queue ++ [request.2] } }
  else p

/-- The scheduler after it was asked to take a session into a callgroup. -/
def add (p : Pool) (id : SessionId) (group : String) : Pool × Outcome Unit :=
  if p.running then
    let (groups, worker) := p.groups.assign id group
    ({ p with groups }.send (worker, .insert id), .ok ())
  else (p, .error .schedulerStopped)

/-- The scheduler after it was asked to detach a session. -/
def detach (p : Pool) (id : SessionId) (how : Detachment) : Pool × Outcome Unit :=
  match p.groups.release id with
  | (groups, none) => ({ p with groups }, .error (.unknownSession id.text))
  | (groups, some worker) => ({ p with groups }.send (worker, .detach id how), .ok ())

/-! ## Workers at work -/

variable {ω : Type}

/-- The scheduler and the world of the sessions after a turn of a worker. -/
def turn (p : Pool) (world : ω) (index : Nat) (f : Turn ω → Turn ω) : Pool × ω :=
  match p.workers[index]? with
  | none => (p, world)
  | some worker =>
    let t := f ⟨world, p.groups, index, worker, []⟩
    let p := { p with workers := p.workers.set index t.worker, groups := t.groups }
    (t.outgoing.foldl send p, t.world)

/-- The scheduler and the world after a turn of every worker. -/
def turns (p : Pool) (world : ω) (f : Turn ω → Turn ω) : Pool × ω :=
  (List.range p.workers.length).foldl (fun (p, world) i => p.turn world i f) (p, world)

/-- The scheduler and the world after every worker applied the requests that wait. -/
def applyQueues (c : Client ω) (p : Pool) (world : ω) : Pool × ω :=
  p.turns world (·.applyQueue c)

/-- The scheduler and the world after every worker drove its sessions for a tick. -/
def work (c : Client ω) (p : Pool) (world : ω) : Pool × ω := p.turns world (·.work c p.quantum)

/-- The scheduler and the world after the scheduler was shut down. A second time changes nothing. -/
def shutdown (c : Client ω) (p : Pool) (world : ω) : Pool × ω :=
  if p.running then { p with running := false }.turns world (·.finish c) else (p, world)

end Pool

end CallBridge.Scheduler
