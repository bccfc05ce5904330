import CallBridge.Rehearsal.Script
import CallBridge.Scheduler.Pool

/-!
# Rehearsing the scheduler

A script adds probes to a scheduler and takes them out again. A probe notes the hooks that are
called on it, and a script can make any hook of it fail until the probe is healed. After a step all
workers go on until nothing changes any more. Two kinds of steps bring nothing to wait for: those
that heal a probe, and those about a probe that was forced off before and is sure to fail again.
-/

namespace CallBridge.Rehearsal

open Scheduler (Client Detachment Ending Hook Pool)

/-- The name of a hook. -/
inductive HookName where
  | read
  | write
  | keys
  | started
  | terminated
  | suspended
  | cleared
  | failed
deriving DecidableEq, Repr, Inhabited

/-- The word for a hook. -/
def HookName.word : HookName → String
  | read => "read"
  | write => "write"
  | keys => "dtmf"
  | started => "started"
  | terminated => "terminated"
  | suspended => "suspended"
  | cleared => "cleared"
  | failed => "failed"

/-- The hook that a word names. -/
def HookName.ofWord? (word : String) : Option HookName :=
  [read, write, keys, started, terminated, suspended, cleared, failed].find? (·.word = word)

/-- Whether a hook is called in every tick. -/
def HookName.inTick : HookName → Bool
  | read | write | keys => true
  | started | terminated | suspended | cleared | failed => false

/-- The name of a call. -/
def HookName.ofHook : Hook → HookName
  | .read _ => read
  | .write _ => write
  | .keys => keys
  | .started => started
  | .terminated => terminated
  | .suspended => suspended
  | .clearAudio => cleared
  | .failed _ => failed

/-- How a hook of a probe fails. -/
inductive Mishap where
  | fault
  | crash
  | namedCrash
  | silentCrash
deriving DecidableEq, Repr, Inhabited

/-- The ending of a hook with a mishap. -/
def Mishap.ending (name : HookName) : Mishap → Ending
  | fault => .fault (.stream ("probe " ++ name.word ++ " failure"))
  | crash => .crash (some "probe panicked")
  | namedCrash => .crash (some ("probe panicked in " ++ name.word))
  | silentCrash => .crash none

/-- A session that notes what happens to it: the timestamp of the last tick on each worker that took
it up, the differences between ticks, and whether it was forced off since it was healed. -/
structure Probe where
  id : SessionId
  mishaps : List (HookName × Mishap)
  wish : Option Detachment
  notes : List String
  lastTicks : List (Nat × UInt64)
  quanta : List UInt64
  forcedOff : Bool
deriving DecidableEq, Repr, Inhabited

namespace Probe

/-- The probe that nothing happened to. -/
def fresh (id : SessionId) : Probe := ⟨id, [], none, [], [], [], false⟩

/-- What a probe notes of a hook. -/
def noteOf : Hook → Option String
  | .read _ | .write _ | .keys => none
  | .failed reason => some ("failed: " ++ reason)
  | hook => some (HookName.ofHook hook).word

/-- The probe with a quantum among those seen. -/
def see (p : Probe) (quantum : UInt64) : Probe :=
  if p.quanta.contains quantum then p else { p with quanta := quantum :: p.quanta }

/-- The probe without its last tick on a worker. -/
def forget (p : Probe) (worker : Nat) : Probe :=
  { p with lastTicks := p.lastTicks.filter (·.1 ≠ worker) }

/-- The probe after a tick of a worker with a timestamp. -/
def tick (p : Probe) (worker : Nat) (ts : UInt64) : Probe :=
  let seen := match p.lastTicks.lookup worker with
    | none => p
    | some last => p.see (ts - last)
  { seen with lastTicks := (worker, ts) :: (seen.forget worker).lastTicks }

/-- The probe after it took note of a hook. A worker that takes it up ticks for the first time. -/
def note (p : Probe) (worker : Nat) (hook : Hook) : Probe :=
  let p := { p with notes := p.notes ++ (noteOf hook).toList }
  match hook with
  | .started => p.forget worker
  | .read ts => p.tick worker ts
  | .failed _ => { p with forcedOff := true }
  | _ => p

/-- The probe after a hook, how the hook ended, and the detachment that it asked for. -/
def answer (p : Probe) (worker : Nat) (hook : Hook) : Probe × Ending × Option Detachment :=
  let name := HookName.ofHook hook
  let ending := ((p.mishaps.lookup name).map (·.ending name)).getD .done
  match hook with
  | .write _ => ({ p.note worker hook with wish := none }, ending, p.wish)
  | _ => (p.note worker hook, ending, none)

/-- The probe without mishaps. -/
def healed (p : Probe) : Probe := { p with mishaps := [], forcedOff := false }

/-- Whether the probe was forced off and would be again in the next tick. -/
def isBeyondHelp (p : Probe) : Bool := p.forcedOff && p.mishaps.any (·.1.inTick)

/-- The probes after a hook of one of them. -/
def client : Client (List Probe) where
  call probes worker id hook :=
    match probes.find? (·.id = id) with
    | none => (probes, .done, [])
    | some p =>
      let (q, ending, wish) := p.answer worker hook
      (probes.map fun r => if r.id = id then q else r, ending, (wish.map fun w => (id, w)).toList)

end Probe

/-- A step of the scheduler's script. -/
inductive SchedulerStep where
  | add (id : SessionId) (group : String) (mishap : Option (HookName × Mishap))
  | fail (id : SessionId) (hook : HookName) (mishap : Mishap)
  | heal (id : SessionId)
  | detach (id : SessionId) (how : Detachment)
  | selfDetach (id : SessionId) (how : Detachment)
  | ticks (id : SessionId)
  | shutdown
deriving Repr, Inhabited

/-- A scheduler in rehearsal, with the probes and callgroups used so far. -/
structure SchedulerBench where
  pool : Pool
  probes : List Probe
  groups : List String

/-- What is seen after a step; `ticked` holds the quanta of a probe that was to tick. -/
structure SchedulerReport where
  result : Reply
  ticked : Option (List UInt64)
  notes : List (SessionId × List String)
  pool : Pool
  known : List SessionId
  workers : List (String × Option Nat)

namespace SchedulerBench

/-- The bench with a probe changed. -/
def modify (b : SchedulerBench) (id : SessionId) (f : Probe → Probe) : SchedulerBench :=
  { b with probes := b.probes.map fun p => if p.id = id then f p else p }

/-- The bench with a probe under an identifier. -/
def withProbe (b : SchedulerBench) (id : SessionId) : SchedulerBench :=
  if b.probes.any (·.id = id) then b else { b with probes := b.probes ++ [Probe.fresh id] }

/-- The bench with a callgroup among those used. -/
def withGroup (b : SchedulerBench) (group : String) : SchedulerBench :=
  if b.groups.contains group then b else { b with groups := b.groups ++ [group] }

/-- A probe of which a hook fails from now on. -/
def hurt (hook : HookName) (mishap : Mishap) (p : Probe) : Probe :=
  { p with mishaps := (hook, mishap) :: p.mishaps.filter (·.1 ≠ hook) }

/-- The bench after all workers applied their requests and drove their sessions for a tick. -/
def round (b : SchedulerBench) : SchedulerBench :=
  if b.pool.running then
    let (pool, probes) := b.pool.applyQueues Probe.client b.probes
    let (pool, probes) := pool.work Probe.client probes
    { b with pool, probes }
  else b

/-- The bench after a number of rounds. -/
def rounds : Nat → SchedulerBench → SchedulerBench
  | 0, b => b
  | n + 1, b => rounds n b.round

/-- The bench after a probe was added to a callgroup, and the answer. -/
def add (b : SchedulerBench) (id : SessionId) (group : String)
    (mishap : Option (HookName × Mishap)) : SchedulerBench × Reply :=
  let b := (b.withProbe id).withGroup group
  let b := match mishap with
    | none => b
    | some (hook, m) => b.modify id (hurt hook m)
  let (pool, r) := b.pool.add id group
  ({ b with pool }, plainly r)

/-- The bench after the scheduler was shut down. -/
def shutdown (b : SchedulerBench) : SchedulerBench :=
  let (pool, probes) := b.pool.shutdown Probe.client b.probes
  { b with pool, probes }

/-- The bench after a step, and the answer. -/
def step (b : SchedulerBench) : SchedulerStep → SchedulerBench × Reply
  | .add id group mishap => b.add id group mishap
  | .fail id hook mishap => (b.modify id (hurt hook mishap), .ok .nothing)
  | .heal id => (b.modify id Probe.healed, .ok .nothing)
  | .detach id how => let (pool, r) := b.pool.detach id how; ({ b with pool }, plainly r)
  | .selfDetach id how => (b.modify id fun p => { p with wish := some how }, .ok .nothing)
  | .ticks _ => (b, .ok .nothing)
  | .shutdown => (b.shutdown, .ok .nothing)

/-- The quanta of a probe that was to tick, if a worker drives it. -/
def ticked (b : SchedulerBench) : SchedulerStep → Option (List UInt64)
  | .ticks id =>
    if b.pool.workers.any (·.sessions.contains id) then
      (b.probes.find? (·.id = id)).map fun p => p.quanta.mergeSort fun x y => x.toNat ≤ y.toNat
    else none
  | _ => none

/-- What is seen of the bench. -/
def view (b : SchedulerBench) (s : SchedulerStep) (result : Reply) : SchedulerReport where
  result := result
  ticked := b.ticked s
  notes := (b.probes.map fun p => (p.id, p.notes)).filter fun x => !x.2.isEmpty
  pool := b.pool
  known := SessionId.sortedDistinct ((b.probes.map (·.id)).filter b.pool.contains)
  workers := b.groups.map fun g => (g, b.pool.groups.workerOf g)

/-- Whether a step has to be waited for. -/
def awaits (b : SchedulerBench) : SchedulerStep → Bool
  | .heal _ => false
  | .add id _ _ | .fail id _ _ => !b.probes.any fun p => p.id = id && p.isBeyondHelp
  | .detach _ _ | .selfDetach _ _ | .ticks _ | .shutdown => true

/-- The bench after a step when nothing that has to be waited for changes any more, with its notes
emptied, and what was seen. -/
def report (b : SchedulerBench) (s : SchedulerStep) : SchedulerBench × SchedulerReport :=
  let wait := b.awaits s
  let (b, result) := b.step s
  let b := if wait then rounds 4 b else b
  ({ b with probes := b.probes.map fun p => { p with notes := [] } }, b.view s result)

/-- What is seen of a script, step by step. -/
def reports (b : SchedulerBench) : List SchedulerStep → List SchedulerReport
  | [] => []
  | s :: rest =>
    let (b, r) := b.report s
    r :: b.reports rest

/-- The bench of a scheduler just started. -/
def start (p : Settings.Processor) : Except Panic SchedulerBench := do
  let pool ← Pool.launch p
  return ⟨pool, [], []⟩

end SchedulerBench

end CallBridge.Rehearsal
