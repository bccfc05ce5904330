import CallBridge.Fault

/-!
# Allocating ports

Streams receive on even ports of a range. A cursor walks around the range, so a port that was just
given back is tried again only after all others.

In the media core, `allocate` is `allocate_socket` of `UdpStreamFactory`, and `evenFrom` is
`even_at_or_above`.

Results:
* `cursor_next`: the cursor stays at even ports of the range.
-/

namespace CallBridge.Rtp

/-- A range of ports with the port that is tried next. -/
structure PortAllocator where
  low : Nat
  high : Nat
  cursor : Nat
deriving DecidableEq, Repr, Inhabited

namespace PortAllocator

/-- The first even port from a port on; the last port of all stands for itself. -/
def evenFrom (port : Nat) : Nat := if port % 2 = 0 then port else min (port + 1) 65535

/-- The allocator of a range, at the first even port of it. -/
def ofRange (low high : Nat) : PortAllocator := ⟨low, high, evenFrom low⟩

/-- The first port of the range that is ever tried. -/
def first (a : PortAllocator) : Nat := evenFrom a.low

/-- The number of ports that are tried before giving up. -/
def slots (a : PortAllocator) : Nat := (a.high - a.first) / 2 + 1

/-- The port after a port on the way around the range. -/
def next (a : PortAllocator) (port : Nat) : Nat := if a.high - 1 ≤ port then a.first else port + 2

/-- The allocator after at most `tries` ports from its cursor on were tried, and the first of them
that can be bound. -/
def search (free : Nat → Bool) : Nat → PortAllocator → PortAllocator × Option Nat
  | 0, a => (a, none)
  | tries + 1, a =>
    let moved := { a with cursor := a.next a.cursor }
    if free a.cursor then (moved, some a.cursor) else search free tries moved

/-- The allocator after a port was asked for, and the first port that can be bound. -/
def allocate (free : Nat → Bool) (a : PortAllocator) : PortAllocator × Outcome Nat :=
  match search free a.slots a with
  | (a', some port) => (a', .ok port)
  | (a', none) => (a', .error (.portsExhausted a.low a.high))

theorem evenFrom_even {port : Nat} (h : port < 65535) : evenFrom port % 2 = 0 := by
  unfold evenFrom; split <;> omega

theorem cursor_next {a : PortAllocator} {port : Nat} (hl : a.low < a.high) (hh : a.high ≤ 65535)
    (he : port % 2 = 0) (hf : a.first ≤ port) :
    a.next port % 2 = 0 ∧ a.first ≤ a.next port ∧ a.next port ≤ a.high := by
  have h : evenFrom a.low % 2 = 0 := evenFrom_even (by omega)
  have : evenFrom a.low ≤ a.low + 1 := by unfold evenFrom; split <;> omega
  unfold next first at *
  split <;> omega

end PortAllocator

end CallBridge.Rtp
