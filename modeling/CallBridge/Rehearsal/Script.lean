import CallBridge.Buffer.Ring
import CallBridge.Dtmf.Detector
import CallBridge.Sdp.Parser
import CallBridge.Sdp.StaticPayload

/-!
# What scripts are made of

Session descriptions come as texts, and a step of a script answers with a small value.
-/

namespace CallBridge.Rehearsal

/-- The text of a session description, and whether its formats are left as they are written. -/
structure SdpText where
  text : String
  verbatim : Bool
deriving DecidableEq, Repr, Inhabited

/-- The description that a text holds. -/
def SdpText.read (t : SdpText) : Outcome Sdp.Description :=
  (Sdp.Description.parse t.text).map fun d => if t.verbatim then d else d.normal

/-- The value that a step answers with. -/
inductive Value where
  | nothing
  | count (n : Nat)
  | truth (b : Bool)
  | keys (events : List Dtmf.Event)
  | written (w : Buffer.Written)
  | buffer (bytes : List UInt8) (count : Nat)
deriving DecidableEq, Repr, Inhabited

/-- The answer of a step. -/
abbrev Reply := Outcome Value

/-- The answer of a step that has no value unless it goes wrong. -/
def plainly (r : Outcome Unit) : Reply := r.map fun _ => .nothing

/-- The answer of a writer: what its write did, or nothing where there is no such source. -/
def written? (r : Option (Outcome Buffer.Written)) : Reply :=
  match r with
  | some r => r.map .written
  | none => .ok .nothing

/-- Ports in ascending order. -/
def sortPorts (ports : List UInt16) : List UInt16 := ports.mergeSort fun p q => p.toNat ≤ q.toNat

/-- A scratch buffer full of zeros. -/
def blank (size : Nat) : List UInt8 := List.replicate size 0

end CallBridge.Rehearsal
