import CallBridge.Fault
import CallBridge.SessionId

/-!
# Hooks

What a worker calls on a session, and how a call may end. A hook may also ask for sessions to be
detached.

In the media core, hooks are the calls of the interface `MediaSession`, and `Detachment` is
`DetachKind`.

Results:
* `Ending.reason_eq_none`: only a hook that was done has no reason to detach its session.
-/

namespace CallBridge.Scheduler

/-- A call of a worker on a session. -/
inductive Hook where
  /-- The session was taken up. -/
  | started
  /-- Received media is to be read at a timestamp. -/
  | read (ts : UInt64)
  /-- Frames that are due are to be written at a timestamp. -/
  | write (ts : UInt64)
  /-- Detected keys are to be posted. -/
  | keys
  /-- All media is to be released. -/
  | clearAudio
  /-- The session is being detached for a reason. -/
  | failed (reason : String)
  /-- The session was detached for good. -/
  | terminated
  /-- The session was detached but may come back. -/
  | suspended
deriving DecidableEq, Repr, Inhabited

/-- How a hook ended: well, with a fault, or abruptly and with a text or without one. -/
inductive Ending where
  | done
  | fault (fault : Fault)
  | crash (text : Option String)
deriving DecidableEq, Repr, Inhabited

/-- Why a session is detached after a hook ended, if it is. -/
def Ending.reason : Ending → Option String
  | done => none
  | fault f => some f.message
  | crash text => some ("panic: " ++ text.getD "unknown panic")

theorem Ending.reason_eq_none {e : Ending} : e.reason = none ↔ e = .done := by
  cases e <;> simp [reason]

/-- How a session is detached. -/
inductive Detachment where
  /-- For good. -/
  | remove
  /-- For the time being. -/
  | softRemove
  /-- For good, its media being released first. -/
  | clear
deriving DecidableEq, Repr, Inhabited

/-- The hooks that a detachment calls. -/
def Detachment.hooks : Detachment → List Hook
  | remove => [.terminated]
  | softRemove => [.suspended]
  | clear => [.clearAudio, .terminated]

/-- The sessions of a world, which answer to hooks that numbered workers call: the world after a
hook, how the hook ended, and the detachments that it asked for. -/
structure Client (ω : Type) where
  call : ω → Nat → SessionId → Hook → ω × Ending × List (SessionId × Detachment)

end CallBridge.Scheduler
