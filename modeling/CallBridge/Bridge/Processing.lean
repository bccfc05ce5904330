import CallBridge.Bridge.Session
import CallBridge.Scheduler.Hook
import CallBridge.Scheduler.Worker

/-!
# Sessions under the scheduler

How a media session answers the hooks of its worker. Received media comes to the streams by itself,
so there is nothing to read. The time is that of the tick.

These are the media core's hooks of `MediaSession` on `B2BMediaSession`, from `read_streams` and
`write_streams` to `on_media_processing_failed`.
-/

namespace CallBridge.Bridge

open Rtp (MediaStream)
open Scheduler (Client Ending Hook)

variable {σ : Type} [MediaStream σ]

namespace Session

/-- The session after its streams were read and written directly, and whether all went well. -/
def exchange (s : Session σ) (now : Nat) (ts : UInt64) (scratch : List UInt8) :
    Session σ × Outcome Unit :=
  let (s, _, r) := s.writeStreams now ts scratch
  (s, r)

/-- The session after a hook of its worker, and how the hook ended. -/
def answer (now : Nat) (scratch : List UInt8) (s : Session σ) : Hook → Session σ × Ending
  | .started => (s.started, .done)
  | .read _ => (s, .done)
  | .write ts =>
    match s.exchange now ts scratch with
    | (s, .ok ()) => (s, .done)
    | (s, .error f) => (s, .fault f)
  | .keys => (s.processKeys, .done)
  | .clearAudio => (s.clearAudio, .done)
  | .failed reason => (s.failed reason, .done)
  | .terminated => (s.terminated, .done)
  | .suspended => (s.suspended, .done)

/-- A session as a client of the scheduler, among other sessions that never fail. -/
def client (now : Nat) (scratch : List UInt8) : Client (Session σ) where
  call s _ id hook :=
    if id = s.id then
      let (s, ending) := s.answer now scratch hook
      (s, ending, [])
    else (s, .done, [])

end Session

end CallBridge.Bridge
