import CallBridge.Fault

/-!
# Reading sockets

A receiver reads the sockets of streams and hands what comes in to them. It knows a stream by its
port. Some ports may be barred: a stream on such a port cannot be read. Every request is logged.

In the media core, `Receiver` is `RtpReceiver`; `addSocket` is its `add_stream`, and `remove` is its
`remove_stream`.

Results:
* `isRegistered_add`, `isRegistered_remove`: what each request changes.
* `isRegistered_readd`: leaving a stream alone for a moment changes nothing.
-/

namespace CallBridge.Rtp

/-- A request to a receiver. -/
inductive Registration where
  | added (port : UInt16)
  | removed (port : UInt16)
deriving DecidableEq, Repr, Inhabited

/-- The ports that are read, those that cannot be, and the requests so far. -/
structure Receiver where
  reading : List UInt16
  barred : List UInt16
  log : List Registration
deriving DecidableEq, Repr, Inhabited

namespace Receiver

/-- The receiver that reads nothing yet. -/
def idle (barred : List UInt16) : Receiver := ⟨[], barred, []⟩

/-- Whether the stream on a port is read. -/
def isRegistered (r : Receiver) (port : UInt16) : Bool := r.reading.contains port

/-- The number of streams read. -/
def count (r : Receiver) : Nat := r.reading.length

/-- The receiver with a port among those it reads. -/
def register (r : Receiver) (port : UInt16) : Receiver :=
  if r.isRegistered port then r else { r with reading := port :: r.reading }

/-- The receiver after it was asked to read the stream on a port. -/
def add (r : Receiver) (port : UInt16) : Receiver × Outcome Unit :=
  let asked := { r with log := r.log ++ [.added port] }
  if r.barred.contains port then
    (asked, .error (.stream s!"cannot receive on {port.toNat}"))
  else (asked.register port, .ok ())

/-- The receiver after it was asked to leave the stream on a port alone, and whether it was read. -/
def remove (r : Receiver) (port : UInt16) : Receiver × Bool :=
  ({ r with reading := r.reading.filter (· ≠ port), log := r.log ++ [.removed port] },
    r.isRegistered port)

/-- The longest datagram that is read; what follows is cut off. -/
def datagramLimit : Nat := 2048

/-- What a stream gets of a datagram. -/
def cut (data : List UInt8) : List UInt8 := data.take datagramLimit

/-- The receiver after it was asked to read a stream that may have no socket. -/
def addSocket (r : Receiver) (port : UInt16) (hasSocket : Bool) : Receiver × Outcome Unit :=
  if hasSocket then r.add port
  else (r, .error (.stream s!"stream on port {port.toNat} has no socket"))

/-- The receiver with an empty log, and what was in it. -/
def collect (r : Receiver) : Receiver × List Registration := ({ r with log := [] }, r.log)

@[simp] theorem barred_register (r : Receiver) (port : UInt16) :
    (r.register port).barred = r.barred := by
  unfold register
  split <;> rfl

@[simp] theorem barred_add (r : Receiver) (port : UInt16) : (r.add port).1.barred = r.barred := by
  unfold add
  split
  · rfl
  · exact barred_register _ _

@[simp] theorem barred_remove (r : Receiver) (port : UInt16) :
    (r.remove port).1.barred = r.barred := rfl

/-- Where no port is barred, a stream can always be read. -/
theorem add_of_barred {r : Receiver} (h : r.barred = []) (port : UInt16) :
    (r.add port).2 = .ok () := by simp [add, h]

theorem isRegistered_add {r : Receiver} {port : UInt16} (h : r.barred.contains port = false)
    (other : UInt16) :
    (r.add port).1.isRegistered other = (r.isRegistered other || other == port) := by
  simp only [add, h, register, isRegistered]
  by_cases hr : r.reading.contains port = true
  · simp only [hr, Bool.false_eq_true, if_false, if_true]
    by_cases e : other = port
    · subst e; rw [hr]; rfl
    · simp [beq_eq_false_iff_ne.2 e]
  · simp only [hr, Bool.false_eq_true, if_false, List.contains_cons]
    exact Bool.or_comm _ _

theorem isRegistered_remove (r : Receiver) (port other : UInt16) :
    (r.remove port).1.isRegistered other = (r.isRegistered other && other != port) := by
  simp only [remove, isRegistered]
  by_cases e : other = port
  · subst e; simp
  · by_cases h : r.reading.contains other = true <;> simp_all

/-- A stream that is read is left alone, and then read again. -/
theorem isRegistered_readd {r : Receiver} (h : r.barred = []) {port : UInt16}
    (hread : r.isRegistered port = true) (other : UInt16) :
    ((r.remove port).1.add port).1.isRegistered other = r.isRegistered other := by
  rw [isRegistered_add (by rw [barred_remove, h]; rfl), isRegistered_remove]
  by_cases e : other = port
  · rw [e, hread]
    simp
  · simp [bne_iff_ne.2 e, beq_eq_false_iff_ne.2 e]

/-- A stream that is not read can be left alone. -/
theorem isRegistered_remove_of_not {r : Receiver} {port : UInt16}
    (hread : r.isRegistered port = false) (other : UInt16) :
    (r.remove port).1.isRegistered other = r.isRegistered other := by
  rw [isRegistered_remove]
  by_cases e : other = port
  · rw [e, hread]
    rfl
  · rw [bne_iff_ne.2 e, Bool.and_true]

end Receiver

end CallBridge.Rtp
