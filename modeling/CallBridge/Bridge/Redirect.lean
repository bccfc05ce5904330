import CallBridge.Fault
import CallBridge.Sdp.Basic

/-!
# Redirecting media through the bridge

Before a description is passed on to a leg, the addresses and ports in it are replaced by those of
the bridge, so that media comes to the bridge. Every audio line takes the next port of a list. A
line that is switched off stays so, but takes a port nonetheless.

In the media core, `redirect` is `replace_connection_address`.

Results:
* `length_redirectMedia`: no line is added or lost.
* `redirectMedia_nil`: without ports every line stays as it is.
-/

namespace CallBridge.Bridge

open Sdp (Connection Media Description)

/-- The connection to another address. -/
def redirectConnection (address : String) (c : Connection) : Connection := { c with address }

/-- A line that is switched on, with the port and address of the bridge. -/
def redirectLine (address : String) (port : UInt16) (m : Media) : Media :=
  if m.isActive then
    { m with port, connection := m.connection.map (redirectConnection address) }
  else m

/-- The media lines, the audio lines among them redirected to one port after the other. -/
def redirectMedia (address : String) : List UInt16 → List Media → List Media
  | _, [] => []
  | [], lines => lines
  | port :: ports, m :: lines =>
    if m.isAudio then redirectLine address port m :: redirectMedia address ports lines
    else m :: redirectMedia address (port :: ports) lines

/-- The description redirected to ports of the bridge at an address, and whether there were ports
enough for its audio lines. -/
def redirect (address : String) (ports : List UInt16) (d : Description) :
    Description × Outcome Unit :=
  let lines := (d.media.filter (·.isAudio)).length
  ({ d with
      connection := d.connection.map (redirectConnection address)
      media := redirectMedia address ports d.media },
    if ports.length < lines then .error (.structureMismatch lines ports.length) else .ok ())

theorem redirectMedia_nil (address : String) (lines : List Media) :
    redirectMedia address [] lines = lines := by cases lines <;> rfl

theorem length_redirectMedia (address : String) (ports : List UInt16) (lines : List Media) :
    (redirectMedia address ports lines).length = lines.length := by
  induction lines generalizing ports with
  | nil => cases ports <;> rfl
  | cons m lines ih =>
    cases ports with
    | nil => rfl
    | cons p ps =>
      rw [redirectMedia]
      split <;> simp [ih]

end CallBridge.Bridge
